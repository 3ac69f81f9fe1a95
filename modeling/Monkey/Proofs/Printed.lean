import Monkey.Proofs.Preservation

/-!
# Monkey — printed text stays

Whatever is evaluated, the text that has been printed is never taken back and
never changed: more is printed after it (`call_printed`). So the text at any
moment is a prefix of the text at the end.
-/

namespace Monkey

variable {ι : Type}

namespace Printer

/-- Sends a text as it is. -/
def append : Printer → String → Printer
  | stdout written, text => stdout (written ++ text)
  | buffer captured, text => buffer (captured ++ text)
  | silent, _ => silent

@[simp] theorem append_empty (p : Printer) : p.append "" = p := by
  cases p <;> simp [append]

@[simp] theorem append_append (p : Printer) (s t : String) :
    (p.append s).append t = p.append (s ++ t) := by
  cases p <;> simp [append, String.append_assoc]

/-- A line is appended with its end. -/
theorem println_eq_append (p : Printer) (line : String) :
    p.println line = p.append (line ++ "\n") := by
  cases p <;> simp [println, append, String.append_assoc]

/-- The text of the first printer is a prefix of the text of the second one, and
they print to the same destination. -/
def Within (p q : Printer) : Prop := ∃ text, q = p.append text

theorem Within.refl (p : Printer) : p.Within p := ⟨"", p.append_empty.symm⟩

/-- What is printed stays. -/
theorem Within.trans {p q r : Printer} (h : p.Within q) (h' : q.Within r) : p.Within r := by
  obtain ⟨s, rfl⟩ := h
  obtain ⟨t, rfl⟩ := h'
  exact ⟨s ++ t, p.append_append s t⟩

end Printer

/-- A builtin prints more text, or none. -/
theorem Builtin.call_within (b : Builtin) (args : List (Value ι)) (p : Printer) :
    p.Within (b.call args p).2 := by
  cases b with
  | log => exact ⟨_, p.println_eq_append _⟩
  | _ => exact .refl p

/-- The text printed on the first machine is a prefix of that on the second. -/
def Printed (m m' : Machine ι) : Prop := m.printer.Within m'.printer

/-- No step takes back what has been printed, and builtins are the only ones that add to it. -/
theorem Printed.compatible (env : FrameId) :
    EvalM.Compatible env (fun _ => True) fun _ (x _ : EvalM ι _) => x.Keeps Printed :=
  EvalM.Keeps.compatible (fun _ => .refl _) .trans fun _ _ _ _ => .refl _

/-- Every call that finishes keeps the printed text, and may print more. -/
theorem call_printed (limit : Option Nat) (callee : Value ι) (args : List (Value ι)) :
    (call limit callee args).Keeps Printed := by
  refine call_keeps (fun _ => .refl _) (fun m b args => b.call_within args m.printer) ?_
    limit callee args
  intro c hc m m' f env args o hbody
  have hprinted : Printed (m.enter f env args) m' :=
    Block.eval_rel (d := c) (Printed.compatible _) hc f.body (fun _ _ => trivial) _ _ _ hbody
  exact hprinted

end Monkey
