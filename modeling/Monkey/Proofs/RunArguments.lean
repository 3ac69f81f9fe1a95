import Mathlib.Data.List.Basic
import Mathlib.Data.List.Induction
import Mathlib.Data.Nat.Digits.Defs
import Monkey.CommandLine.Arguments

/-!
# Monkey — the arguments of a run, taken together and one by one

The arguments of `run` are read from the left by a loop that keeps a path, a limit and a flag.
What the loop has read is told without it: the options are all known, there is at most one
path, the limit is that of the last argument that sets one (`RunArguments.SumsUp`). One more
argument either leaves such a state or is blamed for what is wrong with it
(`RunArguments.Verdict.add`). From that step follow what lists are accepted, what they give in
whatever order, and that the first wrong argument is the one reported.
-/

namespace Monkey

/-! ## Limits as text -/

/-- The number that a row of digits stands for in the decimal system. -/
def decimal (digits : List Char) : Nat :=
  Nat.ofDigits 10 (digits.reverse.map fun c => c.toNat - '0'.toNat)

/-- The text stands for the number: it is a row of digits, with a plus sign before it or none,
and the number is below 2^64. -/
def Denotes (text : String) (n : Nat) : Prop :=
  ∃ sign digits, text.toList = sign ++ digits ∧ (sign = [] ∨ sign = ['+']) ∧ digits ≠ [] ∧
    (∀ c ∈ digits, c.isDigit) ∧ decimal digits = n ∧ n < 2 ^ 64

theorem decimal_concat (digits : List Char) (c : Char) :
    decimal (digits ++ [c]) = 10 * decimal digits + (c.toNat - '0'.toNat) := by
  rw [decimal, List.reverse_concat, List.map_cons, Nat.ofDigits_cons, Nat.add_comm]
  rfl

/-- Reading digits from the left gives their number. -/
theorem ofDigitChars_eq_decimal (digits : List Char) :
    Nat.ofDigitChars 10 digits 0 = decimal digits := by
  induction digits using List.reverseRecOn with
  | nil => rfl
  | append_singleton digits c ih =>
    rw [Nat.ofDigitChars_append, ih, decimal_concat]
    rfl

/-- What is left without a plus sign at the start. -/
def unsigned : List Char → List Char
  | '+' :: rest => rest
  | cs => cs

/-- Digits are left of themselves and of themselves behind a plus sign. -/
theorem unsigned_eq_iff {cs digits : List Char} (h : ∀ c ∈ digits, c.isDigit) :
    unsigned cs = digits ↔ ∃ sign, (sign = [] ∨ sign = ['+']) ∧ cs = sign ++ digits := by
  constructor
  · intro heq
    unfold unsigned at heq
    split at heq
    · exact ⟨['+'], .inr rfl, congrArg _ heq⟩
    · exact ⟨[], .inl rfl, heq⟩
  · rintro ⟨sign, rfl | rfl, rfl⟩
    · unfold unsigned
      split
      · exact absurd (h '+' List.mem_cons_self) (by decide)
      · rfl
    · rfl

theorem depth?_eq (text : String) :
    depth? text = if unsigned text.toList ≠ [] ∧ (unsigned text.toList).all Char.isDigit ∧
        decimal (unsigned text.toList) < 2 ^ 64
      then some (decimal (unsigned text.toList)) else none := by
  rw [← ofDigitChars_eq_decimal]
  rfl

theorem depth?_eq_some_iff {text : String} {n : Nat} : depth? text = some n ↔ Denotes text n := by
  rw [depth?_eq, Option.ite_none_right_eq_some, Option.some.injEq, List.all_eq_true]
  constructor
  · rintro ⟨⟨hne, hall, hlt⟩, rfl⟩
    obtain ⟨sign, hsign, htext⟩ := (unsigned_eq_iff hall).1 rfl
    exact ⟨sign, _, htext, hsign, hne, hall, rfl, hlt⟩
  · rintro ⟨sign, digits, htext, hsign, hne, hall, rfl, hlt⟩
    rw [(unsigned_eq_iff hall).2 ⟨sign, hsign, htext⟩]
    exact ⟨⟨hne, hall, hlt⟩, rfl⟩

/-- A text stands for one number at most. -/
theorem Denotes.unique {text : String} {n n' : Nat} (h : Denotes text n) (h' : Denotes text n') :
    n = n' :=
  Option.some.inj ((depth?_eq_some_iff.2 h).symm.trans (depth?_eq_some_iff.2 h'))

/-! ## What arguments say -/

namespace RunArguments

/-- An argument that starts with a hyphen. -/
def isOption (argument : String) : Bool := argument.toList.head? == some '-'

/-- An argument that is to set the limit. -/
def isLimit (argument : String) : Bool := "--max-depth=".toList.isPrefixOf argument.toList

/-- The argument sets the limit to the number. -/
def SetsLimit (argument : String) (n : Nat) : Prop :=
  ∃ text, argument = "--max-depth=" ++ text ∧ Denotes text n

/-- The options there are. -/
def Known (argument : String) : Prop :=
  argument = "-q" ∨ argument = "--quiet" ∨ ∃ n, SetsLimit argument n

/-- Arguments that can stand together, and what has been read of them. -/
structure SumsUp (arguments : List String) (args : RunArguments) : Prop where
  options : ∀ a ∈ arguments, isOption a → Known a
  path : arguments.filter (!isOption ·) = args.path.toList
  /-- Of the arguments that set the limit the last one gives it. -/
  limit : Option.Rel SetsLimit (arguments.filter isLimit).getLast? args.settings.limit
  quiet : args.settings.quiet = true ↔ "-q" ∈ arguments ∨ "--quiet" ∈ arguments

/-- An argument is wrong behind the ones before it, and why. -/
inductive Blamed (before : List String) (a : String) : UsageError → Prop
  | invalidDepth {text : String} :
    a = "--max-depth=" ++ text → (∀ n, ¬ Denotes text n) → Blamed before a (.invalidDepth text)
  | unknownOption :
    isOption a → a ≠ "-q" → a ≠ "--quiet" → ¬ isLimit a → Blamed before a (.unknownOption a)
  /-- There is a path before it already. -/
  | unexpected {p : String} :
    ¬ isOption a → p ∈ before → ¬ isOption p → Blamed before a (.unexpectedArgument a)

/-- No argument is wrong behind the ones before it. -/
def NoneBlamed (arguments : List String) : Prop :=
  ∀ before a after e, arguments = before ++ a :: after → ¬ Blamed before a e

/-- What the arguments come to: what has been read of them, or the blame of the first one that
is wrong. -/
inductive Verdict (arguments : List String) : Except UsageError RunArguments → Prop
  | read {args : RunArguments} :
    SumsUp arguments args → NoneBlamed arguments → Verdict arguments (.ok args)
  | blamed {before after : List String} {a : String} {e : UsageError} :
    arguments = before ++ a :: after → NoneBlamed before → Blamed before a e →
    Verdict arguments (.error e)

section Kinds

variable {a : String}

theorem eq_append_ofList {s : String} {cs : List Char} (h : s.toList ++ cs = a.toList) :
    a = s ++ String.ofList cs := by
  refine String.toList_inj.1 (h.symm.trans ?_)
  exact (String.toList_append.trans (congrArg _ String.toList_ofList)).symm

theorem isLimit_iff : isLimit a ↔ ∃ text, a = "--max-depth=" ++ text := by
  rw [isLimit, List.isPrefixOf_iff_prefix]
  constructor
  · rintro ⟨cs, hcs⟩
    exact ⟨_, eq_append_ofList hcs⟩
  · rintro ⟨text, rfl⟩
    rw [String.toList_append]
    exact List.prefix_append _ _

theorem isOption_of_isLimit (h : isLimit a) : isOption a := by
  obtain ⟨text, rfl⟩ := isLimit_iff.1 h
  rw [isOption, String.toList_append]
  rfl

theorem SetsLimit.isLimit {n : Nat} (h : SetsLimit a n) : isLimit a := by
  obtain ⟨text, rfl, -⟩ := h
  exact isLimit_iff.2 ⟨text, rfl⟩

theorem SetsLimit.denotes {text : String} {n : Nat} (h : SetsLimit ("--max-depth=" ++ text) n) :
    Denotes text n := by
  obtain ⟨text', heq, hn⟩ := h
  rw [(String.append_right_inj _).1 heq]
  exact hn

/-- An argument sets the limit to one number at most. -/
theorem SetsLimit.unique {n n' : Nat} (h : SetsLimit a n) (h' : SetsLimit a n') : n = n' := by
  obtain ⟨text, rfl, hn⟩ := h
  exact hn.unique h'.denotes

theorem not_isLimit_of_quiet (h : a = "-q" ∨ a = "--quiet") : isLimit a = false := by
  rcases h with rfl | rfl
  · decide
  · decide

theorem isOption_of_known (h : Known a) : isOption a := by
  rcases h with rfl | rfl | ⟨n, hn⟩
  · decide
  · decide
  · exact isOption_of_isLimit hn.isLimit

/-- The four kinds of arguments. -/
theorem ofString_cases (a : String) :
    (∃ text, a = "--max-depth=" ++ text ∧ RunArgument.ofString a = .maxDepth text) ∨
    ((a = "-q" ∨ a = "--quiet") ∧ RunArgument.ofString a = .quiet) ∨
    (isOption a ∧ a ≠ "-q" ∧ a ≠ "--quiet" ∧ ¬ isLimit a ∧
      RunArgument.ofString a = .unknown a) ∨
    (¬ isOption a ∧ RunArgument.ofString a = .path a) := by
  unfold RunArgument.ofString
  split
  · next cs hcs =>
    exact .inl ⟨_, eq_append_ofList (List.isPrefixOf?_eq_some_iff_append_eq.1 hcs), rfl⟩
  · next hnone =>
    have hlimit : ¬ isLimit a := by
      rw [isLimit, ← List.isSome_isPrefixOf?_eq_isPrefixOf, hnone]
      nofun
    split
    · next hquiet => exact .inr (.inl ⟨hquiet.symm, rfl⟩)
    · next hquiet =>
      obtain ⟨hlong, hshort⟩ := not_or.1 hquiet
      split
      · next hhead => exact .inr (.inr (.inl ⟨beq_iff_eq.2 hhead, hshort, hlong, hlimit, rfl⟩))
      · next hhead => exact .inr (.inr (.inr ⟨fun h => hhead (beq_iff_eq.1 h), rfl⟩))

end Kinds

/-! ## One more argument -/

/-- A known option is not wrong, and the first path is not. -/
theorem Blamed.not_known {before : List String} {a : String} {e : UsageError}
    (h : Blamed before a e) (hknown : isOption a → Known a)
    (hfirst : ¬ isOption a → ∀ p ∈ before, isOption p) : False := by
  cases h with
  | invalidDepth heq hno =>
    have hlimit : isLimit a := isLimit_iff.2 ⟨_, heq⟩
    rcases hknown (isOption_of_isLimit hlimit) with hquiet | hquiet | ⟨n, hn⟩
    · cases hlimit.symm.trans (not_isLimit_of_quiet (.inl hquiet))
    · cases hlimit.symm.trans (not_isLimit_of_quiet (.inr hquiet))
    · subst heq
      exact hno n hn.denotes
  | unknownOption hoption hshort hlong hlimit =>
    rcases hknown hoption with hquiet | hquiet | ⟨n, hn⟩
    · exact hshort hquiet
    · exact hlong hquiet
    · exact hlimit hn.isLimit
  | unexpected hpositional hp hother => exact hother (hfirst hpositional _ hp)

theorem NoneBlamed.concat {before : List String} {a : String} (h : NoneBlamed before)
    (ha : ∀ e, ¬ Blamed before a e) : NoneBlamed (before ++ [a]) := by
  intro front b back e heq
  rcases back.eq_nil_or_concat' with rfl | ⟨back, c, rfl⟩
  · obtain ⟨rfl, hab⟩ := List.append_inj' heq rfl
    cases hab
    exact ha e
  · rw [← List.cons_append, ← List.append_assoc] at heq
    exact h front b back e (List.append_inj' heq rfl).1

section Step

variable {before : List String} {a : String} {args : RunArguments}

/-- An argument that is right adds to what has been read. -/
theorem Verdict.concat (h : SumsUp before args) (hnone : NoneBlamed before)
    {args' : RunArguments} (hknown : isOption a → Known a)
    (hfirst : ¬ isOption a → ∀ p ∈ before, isOption p)
    (hpath : args'.path.toList = args.path.toList ++ [a].filter (!isOption ·))
    (hlimit : Option.Rel SetsLimit (before.filter isLimit ++ [a].filter isLimit).getLast?
      args'.settings.limit)
    (hquiet : args'.settings.quiet = true ↔
      args.settings.quiet = true ∨ a = "-q" ∨ a = "--quiet") :
    Verdict (before ++ [a]) (.ok args') := by
  refine .read ⟨fun b hb => ?options, ?path, ?limit, ?quiet⟩
    (hnone.concat fun e he => he.not_known hknown hfirst)
  case options =>
    rcases List.mem_append.1 hb with hb | hb
    · exact h.options b hb
    · rw [List.mem_singleton.1 hb]
      exact hknown
  case path => rw [List.filter_append, h.path, hpath]
  case limit =>
    rw [List.filter_append]
    exact hlimit
  case quiet =>
    rw [hquiet, h.quiet, or_or_or_comm]
    simp only [List.mem_append, List.mem_singleton, @eq_comm _ a]

/-- An option adds no path. -/
theorem Verdict.option (h : SumsUp before args) (hnone : NoneBlamed before) (hknown : Known a)
    {settings : RunSettings}
    (hlimit : Option.Rel SetsLimit (before.filter isLimit ++ [a].filter isLimit).getLast?
      settings.limit)
    (hquiet : settings.quiet = true ↔ args.settings.quiet = true ∨ a = "-q" ∨ a = "--quiet") :
    Verdict (before ++ [a]) (.ok { args with settings }) := by
  have hoption := isOption_of_known hknown
  refine .concat h hnone (fun _ => hknown) (absurd hoption) ?_ hlimit hquiet
  rw [List.filter_singleton, hoption]
  exact (List.append_nil _).symm

theorem Verdict.limit (h : SumsUp before args) (hnone : NoneBlamed before) (text : String) :
    Verdict (before ++ ["--max-depth=" ++ text]) (match depth? text with
      | some n => .ok { args with settings := { args.settings with limit := some n } }
      | none => .error (.invalidDepth text)) := by
  cases hdepth : depth? text with
  | none =>
    refine .blamed rfl hnone (.invalidDepth rfl fun n hn => ?_)
    cases hdepth.symm.trans (depth?_eq_some_iff.2 hn)
  | some n =>
    have hsets : SetsLimit ("--max-depth=" ++ text) n :=
      ⟨text, rfl, depth?_eq_some_iff.1 hdepth⟩
    have hnot : ¬ ("--max-depth=" ++ text = "-q" ∨ "--max-depth=" ++ text = "--quiet") := by
      intro hquiet
      cases hsets.isLimit.symm.trans (not_isLimit_of_quiet hquiet)
    refine .option h hnone (.inr (.inr ⟨n, hsets⟩)) ?_ (or_iff_left hnot).symm
    rw [List.filter_singleton, hsets.isLimit, cond_true, List.getLast?_concat]
    exact .some hsets

theorem Verdict.quiet (h : SumsUp before args) (hnone : NoneBlamed before)
    (ha : a = "-q" ∨ a = "--quiet") :
    Verdict (before ++ [a]) (.ok { args with settings := { args.settings with quiet := true } }) := by
  refine .option h hnone (ha.imp_right .inl) ?_ ⟨fun _ => .inr ha, fun _ => rfl⟩
  rw [List.filter_singleton, not_isLimit_of_quiet ha, cond_false, List.append_nil]
  exact h.limit

/-- The first path is read, another one is blamed. -/
theorem Verdict.path (h : SumsUp before args) (hnone : NoneBlamed before) (ha : ¬ isOption a) :
    Verdict (before ++ [a]) (match args.path with
      | none => .ok { args with path := some a }
      | some _ => .error (.unexpectedArgument a)) := by
  have hpaths := h.path
  cases hpath : args.path with
  | some p =>
    rw [hpath] at hpaths
    have hp : p ∈ before.filter (!isOption ·) := hpaths ▸ List.mem_singleton_self p
    obtain ⟨hmem, hp⟩ := List.mem_filter.1 hp
    exact .blamed rfl hnone (.unexpected ha hmem (by simpa using hp))
  | none =>
    rw [hpath] at hpaths
    have hnot : ¬ (a = "-q" ∨ a = "--quiet") :=
      fun hquiet => ha (isOption_of_known (hquiet.imp_right .inl))
    have hlimit : isLimit a = false := Bool.eq_false_iff.2 fun hl => ha (isOption_of_isLimit hl)
    refine .concat h hnone (absurd · ha) (fun _ p hp => ?_) ?_ ?_ (or_iff_left hnot).symm
    · simpa using List.filter_eq_nil_iff.1 hpaths p hp
    · rw [List.filter_singleton, Bool.eq_false_iff.2 ha, hpath]
      rfl
    · rw [List.filter_singleton, hlimit, cond_false, List.append_nil]
      exact h.limit

/-- One more argument is right, and adds what it says to what has been read, or it is blamed. -/
theorem Verdict.add (h : SumsUp before args) (hnone : NoneBlamed before) (a : String) :
    Verdict (before ++ [a]) (args.add a) := by
  rw [RunArguments.add]
  rcases ofString_cases a with ⟨text, rfl, hkind⟩ | ⟨hquiet, hkind⟩ |
    ⟨hoption, hshort, hlong, hlimit, hkind⟩ | ⟨hpositional, hkind⟩
  · rw [hkind]
    exact .limit h hnone text
  · rw [hkind]
    exact .quiet h hnone hquiet
  · rw [hkind]
    exact .blamed rfl hnone (.unknownOption hoption hshort hlong hlimit)
  · rw [hkind]
    exact .path h hnone hpositional

end Step

/-! ## All arguments -/

theorem verdict_nil : Verdict [] (.ok start) := by
  refine .read ⟨nofun, rfl, .none, ⟨nofun, ?_⟩⟩ ?_
  · rintro (h | h) <;> cases h
  · intro before a after e h
    cases before <;> cases h

/-- The loop gives the verdict. The induction is from the right, since what has been read is
what the arguments before say. -/
theorem verdict_foldlM (arguments : List String) :
    Verdict arguments (arguments.foldlM add start) := by
  induction arguments using List.reverseRecOn with
  | nil => exact verdict_nil
  | append_singleton before a ih =>
    rw [List.foldlM_append]
    generalize before.foldlM add start = r at ih
    cases ih with
    | read h hnone =>
      rename_i args
      have hone : (Except.ok args >>= fun init => [a].foldlM add init) = args.add a :=
        bind_pure (args.add a)
      rw [hone]
      exact .add h hnone a
    | blamed heq hnone he =>
      rename_i front after b e
      exact .blamed (by rw [heq, List.append_assoc, List.cons_append]) hnone he

/-- What has been read is told by the arguments. -/
theorem SumsUp.unique {arguments : List String} {args args' : RunArguments}
    (h : SumsUp arguments args) (h' : SumsUp arguments args') : args = args' := by
  obtain ⟨path, limit, quiet⟩ := args
  obtain ⟨path', limit', quiet'⟩ := args'
  have hpath : path = path' := by
    have hlist : path.toList = path'.toList := h.path.symm.trans h'.path
    cases path <;> cases path' <;> simp_all
  have hlimit : limit = limit' := by
    have hrel : Option.Rel SetsLimit (arguments.filter isLimit).getLast? limit := h.limit
    have hrel' : Option.Rel SetsLimit (arguments.filter isLimit).getLast? limit' := h'.limit
    generalize (arguments.filter isLimit).getLast? = last at hrel hrel'
    cases hrel with
    | none =>
      cases hrel'
      rfl
    | some hn =>
      cases hrel' with
      | some hn' => rw [hn.unique hn']
  have hquiet : quiet = quiet' := Bool.eq_iff_iff.2 (h.quiet.trans h'.quiet.symm)
  rw [hpath, hlimit, hquiet]

section Lists

variable {arguments : List String} {path : String} {settings : RunSettings}

/-- Where all options are known and there is one path, no argument is wrong. -/
theorem noneBlamed_of_accepted (hknown : ∀ a ∈ arguments, isOption a → Known a)
    (hone : (arguments.filter (!isOption ·)).length = 1) : NoneBlamed arguments := by
  rintro before a after e rfl he
  refine he.not_known (hknown a (by simp)) fun ha p hp => ?_
  by_contra hother
  -- two paths are one too many
  have hp : p ∈ before.filter (!isOption ·) := List.mem_filter.2 ⟨hp, by simpa using hother⟩
  have hpos := List.length_pos_of_mem hp
  rw [List.filter_append, List.filter_cons_of_pos (by simpa using ha), List.length_append,
    List.length_cons] at hone
  omega

/-- The arguments are accepted with what has been read of them, if there is a path. -/
theorem ofList_eq_ok_iff :
    ofList arguments = .ok (path, settings) ↔ SumsUp arguments ⟨some path, settings⟩ := by
  have hverdict := verdict_foldlM arguments
  unfold ofList
  generalize arguments.foldlM add start = r at hverdict
  constructor
  · intro h
    cases hverdict with
    | blamed heq hnone he => cases h
    | read hread hnone =>
      rename_i args
      obtain ⟨_ | p, settings'⟩ := args
      · cases h
      · cases h
        exact hread
  · intro h
    cases hverdict with
    | blamed heq hnone he =>
      have hpaths := congrArg List.length h.path
      exact absurd he (noneBlamed_of_accepted h.options hpaths _ _ _ _ heq)
    | read hread hnone =>
      cases hread.unique h
      rfl

/-- The arguments are rejected because of the first one that is wrong, or for want of a path. -/
theorem ofList_eq_error {e : UsageError} (h : ofList arguments = .error e) :
    (∃ before a after, arguments = before ++ a :: after ∧ Blamed before a e ∧ NoneBlamed before) ∨
    e = .missingPath ∧ NoneBlamed arguments ∧ ∀ a ∈ arguments, isOption a := by
  have hverdict := verdict_foldlM arguments
  unfold ofList at h
  generalize arguments.foldlM add start = r at hverdict h
  cases hverdict with
  | blamed heq hnone he =>
    cases h
    exact .inl ⟨_, _, _, heq, he, hnone⟩
  | read hread hnone =>
    rename_i args
    obtain ⟨_ | p, settings'⟩ := args
    · cases h
      refine .inr ⟨rfl, hnone, fun a ha => ?_⟩
      simpa using List.filter_eq_nil_iff.1 hread.path a ha
    · cases h

/-- What stands in another order is read alike, if the arguments that set the limit keep
theirs. -/
theorem SumsUp.perm {arguments' : List String} {args : RunArguments} (h : SumsUp arguments args)
    (hperm : arguments.Perm arguments')
    (hlimits : arguments'.filter isLimit = arguments.filter isLimit) :
    SumsUp arguments' args where
  options a ha := h.options a (hperm.mem_iff.2 ha)
  path := by
    have hpaths : (arguments'.filter (!isOption ·)).Perm args.path.toList := by
      rw [← h.path]
      exact (hperm.filter _).symm
    cases hpath : args.path with
    | none =>
      rw [hpath] at hpaths
      exact List.perm_nil.1 hpaths
    | some p =>
      rw [hpath] at hpaths
      exact List.perm_singleton.1 hpaths
  limit := hlimits ▸ h.limit
  quiet := by rw [h.quiet, hperm.mem_iff, hperm.mem_iff]

end Lists

/-- **The arguments of a run are judged in order.** They are accepted exactly if every one that
starts with a hyphen is a known option, with a number below 2^64 where it sets the limit, and
one does not start with a hyphen. That one is the path; the limit is that of the last argument
which sets one, and there is none if none does; output is discarded if an argument says so; and
in another order, which keeps that of the arguments that set the limit, they give the same.
Otherwise the error is that of the first argument that is wrong: a limit that is no number, an
unknown option, or a second path; and if none is wrong, the path is missing. -/
theorem arguments_are_judged_in_order (arguments : List String) :
    ((∃ path settings, ofList arguments = .ok (path, settings)) ↔
      (∀ a ∈ arguments, isOption a → a = "-q" ∨ a = "--quiet" ∨ ∃ n, SetsLimit a n) ∧
      (arguments.filter (!isOption ·)).length = 1) ∧
    (∀ path settings, ofList arguments = .ok (path, settings) →
      arguments.filter (!isOption ·) = [path] ∧
      Option.Rel SetsLimit (arguments.filter isLimit).getLast? settings.limit ∧
      (settings.quiet = true ↔ "-q" ∈ arguments ∨ "--quiet" ∈ arguments) ∧
      ∀ arguments', arguments.Perm arguments' →
        arguments'.filter isLimit = arguments.filter isLimit →
        ofList arguments' = .ok (path, settings)) ∧
    ∀ e, ofList arguments = .error e →
      (∃ before a after, arguments = before ++ a :: after ∧ Blamed before a e ∧
        NoneBlamed before) ∨
      e = .missingPath ∧ NoneBlamed arguments ∧ ∀ a ∈ arguments, isOption a := by
  refine ⟨⟨?accepted, ?accepts⟩, fun path settings h => ?read, fun e => ofList_eq_error⟩
  case accepted =>
    rintro ⟨path, settings, h⟩
    have hsums := ofList_eq_ok_iff.1 h
    exact ⟨hsums.options, congrArg List.length hsums.path⟩
  case accepts =>
    rintro ⟨hknown, hone⟩
    cases h : ofList arguments with
    | ok r => exact ⟨r.1, r.2, rfl⟩
    | error e =>
      rcases ofList_eq_error h with ⟨before, a, after, heq, he, -⟩ | ⟨-, -, hoptions⟩
      · exact absurd he (noneBlamed_of_accepted hknown hone before a after e heq)
      · have hempty : arguments.filter (!isOption ·) = [] := by
          refine List.filter_eq_nil_iff.2 fun a ha => ?_
          simpa using hoptions a ha
        rw [hempty] at hone
        cases hone
  case read =>
    have hsums := ofList_eq_ok_iff.1 h
    exact ⟨hsums.path, hsums.limit, hsums.quiet, fun arguments' hperm hlimits =>
      ofList_eq_ok_iff.2 (hsums.perm hperm hlimits)⟩

/-- Two limits, one of them with a plus sign and zeros, around the path, in this order and in
another one; and a number that is one too large, before an option that does not exist. -/
theorem arguments_are_judged_in_order_interleaved :
    let arguments := ["-q", "--max-depth=+007", "p", "--max-depth=3"]
    let wrong := ["p", "-q", "--max-depth=18446744073709551616", "-x"]
    ofList arguments = .ok ("p", ⟨some 3, true⟩) ∧ SetsLimit "--max-depth=3" 3 ∧
    ofList ["--max-depth=+007", "--max-depth=3", "p", "-q"] = .ok ("p", ⟨some 3, true⟩) ∧
    ofList wrong = .error (.invalidDepth "18446744073709551616") ∧
    ∃ before a after, wrong = before ++ a :: after ∧
      Blamed before a (.invalidDepth "18446744073709551616") ∧ NoneBlamed before := by
  intro arguments wrong
  have haccepted : ofList arguments = .ok ("p", ⟨some 3, true⟩) := by decide
  have hrejected : ofList wrong = .error (.invalidDepth "18446744073709551616") := by decide
  obtain ⟨-, hlast, -, horder⟩ :=
    (arguments_are_judged_in_order arguments).2.1 "p" ⟨some 3, true⟩ haccepted
  have hthree : (arguments.filter isLimit).getLast? = some "--max-depth=3" := by decide
  rw [hthree, Option.rel_some_some] at hlast
  rcases (arguments_are_judged_in_order wrong).2.2 _ hrejected with hblamed | ⟨hmissing, -⟩
  · exact ⟨haccepted, hlast, horder _ (by decide) (by decide), hrejected, hblamed⟩
  · cases hmissing

end RunArguments

end Monkey
