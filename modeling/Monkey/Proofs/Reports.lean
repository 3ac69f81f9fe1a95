import Monkey.Eval.Approximation
import Monkey.CommandLine.Report
import Monkey.Proofs.RoundTrip
import Monkey.Proofs.Unread

/-!
# Monkey — what the commands report

The command line says what the library computes. A run ends alike wherever its lines go
(`Program.run_unread`), so the report on it is told by the run on a buffer
(`Command.reportRun_eq`); a file with the text of a program gives the program back
(`Files.program_of_encode`); and what is no use of the tool is refused before any file is
looked at (`BadUsage.report`).
-/

namespace Monkey

variable {ι : Type}

/-! ## Runs on other printers -/

namespace Program

variable {p : Program ι} {limit : Option Nat} {printer : Printer}

/-- A run ends alike on every printer, and prints the same text. -/
theorem run_unread {result : Except EvalError (Value ι)} {printer' : Printer}
    (h : p.run limit printer = some (result, printer')) :
    ∃ text, printer' = printer.append text ∧
      ∀ q : Printer, p.run limit q = some (result, q.append text) := by
  obtain ⟨⟨r, m⟩, hrun, heq⟩ := Option.map_eq_some_iff.1 h
  cases heq
  obtain ⟨⟨o, m⟩, heval, heq⟩ := Option.map_eq_some_iff.1 hrun
  cases heq
  obtain ⟨text, htext, hprinters⟩ :=
    (Phrase.eval_unread limit Machine.root (.program p)).exists_append heval
  refine ⟨text, htext, fun q => ?_⟩
  -- machines that are fresh differ in their printers alone
  have heval' : (Machine.fresh q).evaluate limit (.program p) Machine.root = _ := hprinters q
  rw [run, Machine.run, heval']
  rfl

/-- A run that does not finish does not finish on any other printer. -/
theorem run_eq_none (h : p.run limit printer = none) (q : Printer) : p.run limit q = none := by
  refine Option.eq_none_iff_forall_ne_some.2 fun r hr => ?_
  obtain ⟨text, -, hprinters⟩ := run_unread hr
  cases h.symm.trans (hprinters printer)

end Program

/-- The report on a run is what the run on a buffer gives. -/
theorem Command.reportRun_eq (p : Program Unit) (settings : RunSettings) :
    reportRun p settings = (p.run settings.limit (.buffer "")).map fun (result, log) =>
      let text := if settings.quiet then "" else log.captured
      match result with
      | .ok v => .success (text ++ resultText v)
      | .error e => .failure text (.evaluation e) := by
  rw [reportRun]
  cases hrun : p.run settings.limit (.buffer "") with
  | none => rw [Program.run_eq_none hrun]; rfl
  | some ends =>
    obtain ⟨result, log⟩ := ends
    obtain ⟨text, rfl, hprinters⟩ := Program.run_unread hrun
    rw [hprinters]
    cases settings.quiet <;> rfl

/-! ## Files -/

namespace Files

variable {files files' : Files} {path : String}

/-- What a file holds is read from its text. -/
theorem program_eq_bind : files.program path = files.text path >>= fun text =>
    ((Program.decode? text).map Except.ok).getD (.error (.document path)) := by
  rw [program]
  refine congrArg _ (funext fun text => ?_)
  cases Program.decode? text <;> rfl

/-- A file with the text of a program holds the program. -/
theorem program_of_encode {p : Program Unit} (hnest : Json.textNesting p.encode ≤ 127)
    (hfile : files path = .ok p.encode.toUTF8) : files.program path = .ok p := by
  have htext : files.text path = .ok p.encode := by
    have hutf8 : String.fromUTF8? p.encode.toUTF8 = some p.encode := dif_pos p.encode.isValidUTF8
    rw [text, hfile]
    dsimp only
    rw [hutf8]
  rw [program_eq_bind, htext]
  change ((Program.decode? p.encode).map Except.ok).getD _ = _
  rw [Program.decode?_encode_of_le hnest]
  rfl

/-- The program of a file is told by the file. -/
theorem program_congr (h : files path = files' path) :
    files.program path = files'.program path := by
  rw [program, program, text, text, h]

theorem text_eq_error {e : Failure} (h : files.text path = .error e) : ∃ r, e = .read path r := by
  unfold text at h
  split at h
  · split at h <;> cases h
    exact ⟨_, rfl⟩
  · cases h
    exact ⟨_, rfl⟩

/-- A file holds no program because it has no text, or because its text is no document of
one. -/
theorem program_eq_error {e : Failure} (h : files.program path = .error e) :
    (∃ r, e = .read path r) ∨ e = .document path := by
  rw [program_eq_bind] at h
  cases htext : files.text path with
  | error e' =>
    rw [htext] at h
    cases h
    exact .inl (text_eq_error htext)
  | ok text =>
    rw [htext] at h
    change ((Program.decode? text).map Except.ok).getD _ = _ at h
    cases hp : Program.decode? text with
    | some p =>
      rw [hp] at h
      cases h
    | none =>
      rw [hp] at h
      cases h
      exact .inr rfl

end Files

/-! ## Arguments -/

/-- Arguments that are no use of the tool. -/
inductive BadUsage : List String → Prop
  | nothing : BadUsage []
  | unknownCommand {command : String} {arguments : List String} :
    command ∉ ["run", "dump", "help", "--help", "-h"] → BadUsage (command :: arguments)
  /-- A `dump` takes exactly one argument. -/
  | dump {arguments : List String} : arguments.length ≠ 1 → BadUsage ("dump" :: arguments)
  /-- The arguments of a `run` are rejected. -/
  | run {arguments : List String} {e : UsageError} :
    RunArguments.ofList arguments = .error e → BadUsage ("run" :: arguments)

namespace Command

variable {arguments : List String}

theorem ofArguments_unknown {command : String}
    (h : command ∉ ["run", "dump", "help", "--help", "-h"]) :
    ofArguments (command :: arguments) = .error (.unknownCommand command) := by
  simp only [List.mem_cons, List.not_mem_nil, or_false, not_or] at h
  obtain ⟨hrun, hdump, hhelp, hhelp', hh⟩ := h
  unfold ofArguments
  split <;> simp_all

theorem ofArguments_dump (h : arguments.length ≠ 1) :
    ofArguments ("dump" :: arguments) = .error .dumpArguments := by
  match arguments with
  | [] | _ :: _ :: _ => rfl
  | [_] => exact absurd rfl h

theorem ofArguments_run :
    ofArguments ("run" :: arguments) =
      (RunArguments.ofList arguments).map fun (path, settings) => run path settings := by
  change (RunArguments.ofList arguments >>= _) = _
  cases RunArguments.ofList arguments <;> rfl

/-- The report of a command is told by the file that it reads. -/
theorem report_congr {files files' : Files} {command : Command}
    (h : ∀ path ∈ command.file?, files path = files' path) :
    command.report files = command.report files' := by
  cases command with
  | nothing | help => rfl
  | run path settings | dump path => rw [report, report, Files.program_congr (h path rfl)]

/-- A file that holds no program is all that is reported. -/
theorem report_of_program_eq_error {files : Files} {command : Command} {path : String}
    (hpath : path ∈ command.file?) {e : Failure} (he : files.program path = .error e) :
    command.report files = some ⟨1, "", e.message ++ "\n"⟩ := by
  have hreport : command.report files = some (.failure "" e) := by
    cases command with
    | nothing | help => cases hpath
    | run _ settings | dump _ =>
      cases hpath
      rw [report, he]
  rw [hreport]
  rcases Files.program_eq_error he with ⟨r, rfl⟩ | rfl
  · rfl
  · rfl

/-- A run is reported as a success, or as an error of the program. -/
theorem exitCode_of_reportRun {p : Program Unit} {settings : RunSettings} {r : Report}
    (h : reportRun p settings = some r) : r.exitCode = 0 ∨ r.exitCode = 1 := by
  obtain ⟨⟨result, printer⟩, -, rfl⟩ := Option.map_eq_some_iff.1 h
  cases result with
  | ok v => exact .inl rfl
  | error e => exact .inr rfl

theorem exitCode_of_report {files : Files} {command : Command} {r : Report}
    (hcommand : command ≠ .nothing) (h : command.report files = some r) :
    r.exitCode = 0 ∨ r.exitCode = 1 := by
  cases command with
  | nothing => exact absurd rfl hcommand
  | help =>
    cases h
    exact .inl rfl
  | run path settings =>
    cases hp : files.program path with
    | error e =>
      cases (report_of_program_eq_error rfl hp).symm.trans h
      exact .inr rfl
    | ok p =>
      rw [report, hp] at h
      exact exitCode_of_reportRun h
  | dump path =>
    cases hp : files.program path with
    | error e =>
      cases (report_of_program_eq_error rfl hp).symm.trans h
      exact .inr rfl
    | ok p =>
      rw [report, hp] at h
      cases h
      exact .inl rfl

end Command

section Usage

variable {arguments : List String}

theorem commandLine_of_ofArguments_eq_error {e : UsageError}
    (h : Command.ofArguments arguments = .error e) (files : Files) :
    commandLine files arguments =
      some ⟨2, "", (Failure.usage e).message ++ "\n\n" ++ usage⟩ := by
  rw [commandLine, h]
  rfl

/-- What is no use of the tool is refused with one and the same report, whatever files there
are. -/
theorem BadUsage.report (h : BadUsage arguments) :
    ∃ message, ∀ files, commandLine files arguments = some ⟨2, "", message⟩ := by
  cases h with
  | nothing => exact ⟨usage, fun _ => rfl⟩
  | unknownCommand h =>
    exact ⟨_, commandLine_of_ofArguments_eq_error (Command.ofArguments_unknown h)⟩
  | dump h => exact ⟨_, commandLine_of_ofArguments_eq_error (Command.ofArguments_dump h)⟩
  | @run arguments e h =>
    have hargs : Command.ofArguments ("run" :: arguments) = .error e := by
      rw [Command.ofArguments_run, h, Except.map]
    exact ⟨_, commandLine_of_ofArguments_eq_error hargs⟩

/-- All other arguments give a command. -/
theorem exists_command_of_not_badUsage (h : ¬ BadUsage arguments) :
    ∃ command, Command.ofArguments arguments = .ok command ∧ command ≠ .nothing := by
  match arguments with
  | [] => exact absurd .nothing h
  | command :: arguments =>
    by_cases hcommand : command ∈ ["run", "dump", "help", "--help", "-h"]
    · simp only [List.mem_cons, List.not_mem_nil, or_false] at hcommand
      rcases hcommand with rfl | rfl | rfl | rfl | rfl
      · cases hlist : RunArguments.ofList arguments with
        | error e => exact absurd (.run hlist) h
        | ok parsed =>
          refine ⟨.run parsed.1 parsed.2, ?_, nofun⟩
          rw [Command.ofArguments_run, hlist, Except.map]
      · by_cases hlen : arguments.length = 1
        · obtain ⟨path, rfl⟩ := List.length_eq_one_iff.1 hlen
          exact ⟨.dump path, rfl, nofun⟩
        · exact absurd (.dump hlen) h
      · exact ⟨.help, rfl, nofun⟩
      · exact ⟨.help, rfl, nofun⟩
      · exact ⟨.help, rfl, nofun⟩
    · exact absurd (.unknownCommand hcommand) h

theorem commandLine_of_ofArguments_eq_ok {command : Command}
    (h : Command.ofArguments arguments = .ok command) (files : Files) :
    commandLine files arguments = command.report files := by
  rw [commandLine, h]

/-- The report on a `run` of a file with the text of a program. -/
theorem commandLine_run {files : Files} {p : Program Unit} {path : String}
    (hp : files.program path = .ok p) {settings : RunSettings}
    (hlist : RunArguments.ofList arguments = .ok (path, settings)) :
    commandLine files ("run" :: arguments) = Command.reportRun p settings := by
  have hcommand : Command.ofArguments ("run" :: arguments) = .ok (.run path settings) := by
    rw [Command.ofArguments_run, hlist, Except.map]
  rw [commandLine_of_ofArguments_eq_ok hcommand, Command.report, hp]

end Usage

/-- **The command line agrees with the library.** A file with the text of a program runs as
the program does: the report has what the run prints to a buffer, or nothing of it where the
run is quiet, then the text of the result unless it is null; or the error of the program, with
the exit code 1; and there is a report if the run finishes. It is dumped as the text of the
program. What is no use of the tool has the exit code 2 and one report for all files. Every
other use looks at one file at most, has the exit code 0 or 1, and where that file holds no
program it prints nothing and has the exit code 1. -/
theorem command_line_agrees_with_the_library :
    (∀ (files : Files) (p : Program Unit) (path : String),
      Json.textNesting p.encode ≤ 127 → files path = .ok p.encode.toUTF8 →
      (∀ arguments settings, RunArguments.ofList arguments = .ok (path, settings) →
        (∀ v log, p.run settings.limit (.buffer "") = some (.ok v, log) →
          commandLine files ("run" :: arguments) =
            some ⟨0, (if settings.quiet then "" else log.captured) ++
              (if v.isNull then "" else v.render ++ "\n"), ""⟩) ∧
        (∀ e log, p.run settings.limit (.buffer "") = some (.error e, log) →
          commandLine files ("run" :: arguments) =
            some ⟨1, if settings.quiet then "" else log.captured,
              "ERROR: " ++ e.message ++ "\n"⟩) ∧
        (p.run settings.limit (.buffer "") = none →
          commandLine files ("run" :: arguments) = none)) ∧
      commandLine files ["dump", path] = some ⟨0, p.source ++ "\n", ""⟩) ∧
    (∀ arguments, BadUsage arguments →
      ∃ message, ∀ files, commandLine files arguments = some ⟨2, "", message⟩) ∧
    ∀ arguments, ¬ BadUsage arguments →
      ∃ command, Command.ofArguments arguments = .ok command ∧
        (∀ files files', (∀ path ∈ command.file?, files path = files' path) →
          commandLine files arguments = commandLine files' arguments) ∧
        (∀ files report, commandLine files arguments = some report →
          report.exitCode = 0 ∨ report.exitCode = 1) ∧
        ∀ files, ∀ path ∈ command.file?, (∀ p, files.program path ≠ .ok p) →
          ∃ message, commandLine files arguments = some ⟨1, "", message⟩ := by
  refine ⟨fun files p path hnest hfile => ⟨fun arguments settings hlist => ?runs, ?dumps⟩,
    fun arguments h => h.report, fun arguments h => ?uses⟩
  case runs =>
    rw [commandLine_run (Files.program_of_encode hnest hfile) hlist, Command.reportRun_eq]
    refine ⟨fun v log hrun => ?_, fun e log hrun => ?_, fun hrun => ?_⟩
    · rw [hrun]
      cases v <;> rfl
    · rw [hrun]
      rfl
    · rw [hrun]
      rfl
  case dumps =>
    rw [commandLine_of_ofArguments_eq_ok rfl, Command.report, Files.program_of_encode hnest hfile]
    rfl
  case uses =>
    obtain ⟨command, hcommand, hne⟩ := exists_command_of_not_badUsage h
    have hline := commandLine_of_ofArguments_eq_ok hcommand
    refine ⟨command, hcommand, fun files files' hfiles => ?_, fun files report hreport => ?_,
      fun files path hpath hno => ?_⟩
    · rw [hline, hline, Command.report_congr hfiles]
    · exact Command.exitCode_of_report hne ((hline files).symm.trans hreport)
    · cases hp : files.program path with
      | ok p => exact absurd hp (hno p)
      | error e => exact ⟨_, (hline files).trans (Command.report_of_program_eq_error hpath hp)⟩

attribute [local semireducible] Pending.write Store.lookup

/-- A program that prints a line and fails, with a limit and quietly; its text; a `dump` of
nothing; and a `run` of a file that is not there. -/
theorem command_line_agrees_with_the_library_on_a_failure :
    let p : Program Unit :=
      ⟨[.expr (.call (.ident "log") [.str "a"]), .expr (.unary .neg (.bool true))]⟩
    let files : Files := fun path =>
      if path = "p.json" then .ok p.encode.toUTF8 else .error .notFound
    let message := "ERROR: unknown operator: -BOOLEAN\n"
    commandLine files ["run", "--max-depth=3", "p.json"] = some ⟨1, "a\n", message⟩ ∧
    commandLine files ["run", "p.json", "-q"] = some ⟨1, "", message⟩ ∧
    commandLine files ["dump", "p.json"] = some ⟨0, "log(\x22a\x22)\n(-true)\n", ""⟩ ∧
    (∃ message, ∀ files, commandLine files ["dump"] = some ⟨2, "", message⟩) ∧
    ∃ message, commandLine files ["run", "q.json"] = some ⟨1, "", message⟩ := by
  intro p files message
  obtain ⟨hprogram, hbad, hgood⟩ := command_line_agrees_with_the_library
  have hnest : Json.textNesting p.encode ≤ 127 := by
    rw [p.encode_spelled.textNesting_eq]
    decide
  obtain ⟨hrun, hdump⟩ := hprogram files p "p.json" hnest rfl
  refine ⟨?_, ?_, ?_, ?_, ?_⟩
  · refine (hrun ["--max-depth=3", "p.json"] ⟨some 3, false⟩ rfl).2.1
      (.unknownUnary .neg .boolean) (.buffer "a\n") ?_
    exact Machine.map_run_of_nested 1 rfl
  · refine (hrun ["p.json", "-q"] ⟨none, true⟩ rfl).2.1
      (.unknownUnary .neg .boolean) (.buffer "a\n") ?_
    exact Machine.map_run_of_nested 1 rfl
  · exact hdump
  · exact hbad ["dump"] (.dump (by decide))
  · have husage : ¬ BadUsage ["run", "q.json"] := by
      intro h
      obtain ⟨message, hmessage⟩ := hbad _ h
      have hcode := congrArg (Option.map Report.exitCode) (hmessage files)
      cases hcode
    obtain ⟨command, hcommand, -, -, hno⟩ := hgood ["run", "q.json"] husage
    cases hcommand
    refine hno files "q.json" rfl fun p hp => ?_
    cases hp

end Monkey
