/-!
# Monkey — where printed lines go

Three destinations: standard output, a buffer the host can read back, and
nowhere. The text meant for standard output is kept as it accumulates and handed
out by the outermost layer; only a buffer counts as captured.
-/

namespace Monkey

/-- A destination of printed lines, with the text it has received. -/
inductive Printer where
  | stdout (written : String)
  | buffer (captured : String)
  | silent
  deriving DecidableEq, Repr

namespace Printer

/-- Sends a line, ended by a newline. -/
def println : Printer → String → Printer
  | stdout written, line => stdout (written ++ line ++ "\n")
  | buffer captured, line => buffer (captured ++ line ++ "\n")
  | silent, _ => silent

/-- The captured text: empty unless the destination is a buffer. -/
def captured : Printer → String
  | buffer text => text
  | stdout _ | silent => ""

/-- The text for standard output. -/
def written : Printer → String
  | stdout text => text
  | buffer _ | silent => ""

@[simp] theorem captured_println_buffer (text line : String) :
    ((buffer text).println line).captured = text ++ line ++ "\n" := rfl

@[simp] theorem written_println_stdout (text line : String) :
    ((stdout text).println line).written = text ++ line ++ "\n" := rfl

@[simp] theorem println_silent (line : String) : silent.println line = silent := rfl

end Printer

end Monkey
