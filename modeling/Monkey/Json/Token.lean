import Monkey.Json.Text

/-!
# Monkey — tokens of JSON documents

A document is a row of tokens with white space between them. `Token.scan?` reads
the characters one by one and keeps what has been read of the token in progress;
`Token.written` writes a token. Numbers are kept as they are written, since a
value that is passed over may hold any number.
-/

namespace Monkey.Json

/-- A token. The text of a string is missing if a surrogate in it has no
partner. -/
inductive Token where
  | openBracket
  | closeBracket
  | openBrace
  | closeBrace
  | comma
  | colon
  | null
  | bool (b : Bool)
  | number (lexeme : String)
  | string (text : Option String)
  deriving DecidableEq, Repr

/-- A token as it is written. A string without text is written as a surrogate
without partner. -/
def Token.written : Token → String
  | openBracket => "["
  | closeBracket => "]"
  | openBrace => "\x7b"
  | closeBrace => "\x7d"
  | comma => ","
  | colon => ":"
  | null => "null"
  | bool true => "true"
  | bool false => "false"
  | number lexeme => lexeme
  | string (some s) => quoted s
  | string none => "\"\\ud800\""

/-! ## Numbers -/

/-- How far a number has been read. -/
inductive NumberPhase where
  | sign
  | zero
  | whole
  | point
  | fraction
  | exponent
  | exponentSign
  | exponentDigits
  deriving DecidableEq, Repr

namespace NumberPhase

/-- Where the number stands after one more character; none if the character does
not continue it. -/
def next? (phase : NumberPhase) (c : Char) : Option NumberPhase :=
  match phase with
  | sign => if c = '0' then some zero else if c.isDigit then some whole else none
  | zero =>
    if c = '.' then some point else if c = 'e' ∨ c = 'E' then some exponent else none
  | whole =>
    if c.isDigit then some whole else if c = '.' then some point
    else if c = 'e' ∨ c = 'E' then some exponent else none
  | point => if c.isDigit then some fraction else none
  | fraction =>
    if c.isDigit then some fraction else if c = 'e' ∨ c = 'E' then some exponent else none
  | exponent =>
    if c = '+' ∨ c = '-' then some exponentSign
    else if c.isDigit then some exponentDigits else none
  | exponentSign => if c.isDigit then some exponentDigits else none
  | exponentDigits => if c.isDigit then some exponentDigits else none

/-- Whether the number may end here. -/
def complete : NumberPhase → Bool
  | zero | whole | fraction | exponentDigits => true
  | sign | point | exponent | exponentSign => false

end NumberPhase

/-! ## Scanning -/

/-- What has been read of the token in progress, its characters and items newest
first. -/
inductive Partial where
  | nothing
  /-- A word of which the rest is still to come. -/
  | word (rest : List Char) (token : Token)
  | number (phase : NumberPhase) (lexeme : List Char)
  | string (items : List StringItem)
  /-- A string, right after a backslash. -/
  | escape (items : List StringItem)
  /-- A string within the digits of a code unit, so many still to come. -/
  | unit (items : List StringItem) (missing : Nat) (value : Nat)

/-- A scan in progress: the tokens read, newest first, and the token in
progress. -/
structure Scan where
  tokens : List Token
  current : Partial

namespace Scan

/-- The scan of nothing. -/
def start : Scan := ⟨[], .nothing⟩

/-- Completes a token. -/
def emit (tokens : List Token) (t : Token) : Scan := ⟨t :: tokens, .nothing⟩

/-- Reads a character outside any token. -/
def begin? (tokens : List Token) (c : Char) : Option Scan :=
  match c with
  | ' ' | '\t' | '\n' | '\r' => some ⟨tokens, .nothing⟩
  | '[' => some (emit tokens .openBracket)
  | ']' => some (emit tokens .closeBracket)
  | '\x7b' => some (emit tokens .openBrace)
  | '\x7d' => some (emit tokens .closeBrace)
  | ',' => some (emit tokens .comma)
  | ':' => some (emit tokens .colon)
  | 'n' => some ⟨tokens, .word ['u', 'l', 'l'] .null⟩
  | 't' => some ⟨tokens, .word ['r', 'u', 'e'] (.bool true)⟩
  | 'f' => some ⟨tokens, .word ['a', 'l', 's', 'e'] (.bool false)⟩
  | '\x22' => some ⟨tokens, .string []⟩
  | '-' => some ⟨tokens, .number .sign ['-']⟩
  | c => (NumberPhase.sign.next? c).map fun phase => ⟨tokens, .number phase [c]⟩

/-- Completes a number. -/
def emitNumber (tokens : List Token) (lexeme : List Char) : List Token :=
  .number (String.ofList lexeme.reverse) :: tokens

/-- Reads one character. -/
def step? (scan : Scan) (c : Char) : Option Scan :=
  match scan.current with
  | .nothing => begin? scan.tokens c
  | .word [] _ => none
  | .word [last] token => if c = last then some (emit scan.tokens token) else none
  | .word (x :: rest) token => if c = x then some ⟨scan.tokens, .word rest token⟩ else none
  | .number phase lexeme =>
    match phase.next? c with
    | some phase => some ⟨scan.tokens, .number phase (c :: lexeme)⟩
    | none => if phase.complete then begin? (emitNumber scan.tokens lexeme) c else none
  | .string items =>
    if c = '\x22' then some (emit scan.tokens (.string (itemsText? items.reverse)))
    else if c = '\\' then some ⟨scan.tokens, .escape items⟩
    else if c < ' ' then none
    else some ⟨scan.tokens, .string (.char c :: items)⟩
  | .escape items =>
    if c = 'u' then some ⟨scan.tokens, .unit items 4 0⟩
    else (escaped? c).map fun c => ⟨scan.tokens, .string (.char c :: items)⟩
  | .unit items missing value =>
    (hexDigit? c).map fun digit =>
      if missing ≤ 1 then ⟨scan.tokens, .string (.unit (value * 16 + digit) :: items)⟩
      else ⟨scan.tokens, .unit items (missing - 1) (value * 16 + digit)⟩

/-- The tokens of a scan that may end here. -/
def finish? (scan : Scan) : Option (List Token) :=
  match scan.current with
  | .nothing => some scan.tokens.reverse
  | .number phase lexeme =>
    if phase.complete then some (emitNumber scan.tokens lexeme).reverse else none
  | _ => none

end Scan

/-- The tokens of a text. -/
def Token.scan? (cs : List Char) : Option (List Token) :=
  (cs.foldlM Scan.step? Scan.start).bind Scan.finish?

end Monkey.Json
