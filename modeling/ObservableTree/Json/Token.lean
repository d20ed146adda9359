import ObservableTree.Json.Number

/-!
# Tokens of JSON

The text is cut into tokens by a machine that reads one character at a time:

* `Token` — brackets, separators and scalars;
* `Lexer` — what the machine is in the middle of, `Lexer.step` — one character,
  `Lexer.finish` — the end of the text;
* `Token.ofChars?` — the tokens of a text, if every character belongs to one;
* `run_append` — a text in two pieces is cut as the first piece leaves the machine.
-/

namespace ObservableTree

/-- A token of JSON. -/
inductive Token where
  | openBrace
  | closeBrace
  | openBracket
  | closeBracket
  | colon
  | comma
  | null
  | bool (value : Bool)
  | number (literal : List Char)
  | string (value : String)
deriving DecidableEq

/-- What the machine is in the middle of. The characters of an unfinished number or string are kept
with the last one first. -/
inductive Lexer where
  /-- Between two tokens. -/
  | between
  /-- In a word, with the characters still to come and the token that they complete. -/
  | word (next : Char) (left : List Char) (token : Token)
  /-- In a number. -/
  | number (taken : List Char)
  /-- In a string. -/
  | text (taken : List Char)
  /-- Behind a backslash in a string. -/
  | escape (taken : List Char)
  /-- In the four digits of an escape, perhaps after the first half of a pair. -/
  | digits (taken : List Char) (half : Option Nat) (left value : Nat)
  /-- Before the backslash of the second half of a pair. -/
  | pairBackslash (taken : List Char) (half : Nat)
  /-- Before the mark of the second half of a pair. -/
  | pairMark (taken : List Char) (half : Nat)
deriving DecidableEq

namespace Lexer

/-! ### Characters -/

/-- The four blanks of JSON. -/
def isBlank (c : Char) : Bool := c == ' ' || c == '\t' || c == '\n' || c == '\r'

/-- The characters that a number is made of. -/
def isNumeric (c : Char) : Bool :=
  isDigitIn 10 c || c == '-' || c == '+' || c == '.' || c == 'e' || c == 'E'

/-- The token that a number's characters make, unless the number is malformed or too large. -/
def numberToken? (taken : List Char) : Option Token :=
  match NumberLiteral.read? taken.reverse with
  | some n => if n.overflows then none else some (.number taken.reverse)
  | none => none

/-- The token that a character is or starts, and what the machine is in the middle of after it. -/
def start? (c : Char) : Option (List Token × Lexer) :=
  if isBlank c then some ([], between)
  else if c = '\x7b' then some ([.openBrace], between)
  else if c = '\x7d' then some ([.closeBrace], between)
  else if c = '[' then some ([.openBracket], between)
  else if c = ']' then some ([.closeBracket], between)
  else if c = ':' then some ([.colon], between)
  else if c = ',' then some ([.comma], between)
  else if c = '"' then some ([], text [])
  else if c = 'n' then some ([], word 'u' ['l', 'l'] .null)
  else if c = 't' then some ([], word 'r' ['u', 'e'] (.bool true))
  else if c = 'f' then some ([], word 'a' ['l', 's', 'e'] (.bool false))
  else if isDigitIn 10 c || c == '-' then some ([], number [c])
  else none

/-- The character that a short escape stands for. -/
def shortEscape? (c : Char) : Option Char :=
  if c = '"' ∨ c = '\\' ∨ c = '/' then some c
  else if c = 'b' then some '\x08'
  else if c = 'f' then some '\x0c'
  else if c = 'n' then some '\n'
  else if c = 'r' then some '\r'
  else if c = 't' then some '\t'
  else none

/-- What follows four digits. A first half of a pair needs its second half, which may not stand
alone. -/
def afterDigits? (taken : List Char) (half : Option Nat) (value : Nat) : Option Lexer :=
  match half with
  | none =>
    if value < 0xD800 ∨ 0xDFFF < value then some (text (Char.ofNat value :: taken))
    else if value < 0xDC00 then some (pairBackslash taken value)
    else none
  | some high =>
    if 0xDC00 ≤ value ∧ value ≤ 0xDFFF then
      some (text (Char.ofNat ((high - 0xD800) * 1024 + (value - 0xDC00) + 0x10000) :: taken))
    else none

/-! ### The machine -/

/-- One character: the tokens that it completes, and what the machine is in the middle of. -/
def step : Lexer → Char → Option (List Token × Lexer)
  | between, c => start? c
  | word next left token, c =>
    if c ≠ next then none
    else
      match left with
      | [] => some ([token], between)
      | after :: left => some ([], word after left token)
  | number taken, c =>
    if isNumeric c then some ([], number (c :: taken))
    else
      match numberToken? taken, start? c with
      | some t, some (ts, m) => some (t :: ts, m)
      | _, _ => none
  | text taken, c =>
    if c = '"' then some ([.string (String.ofList taken.reverse)], between)
    else if c = '\\' then some ([], escape taken)
    else if c < ' ' then none
    else some ([], text (c :: taken))
  | escape taken, c =>
    if c = 'u' then some ([], digits taken none 4 0)
    else (shortEscape? c).map fun d => ([], text (d :: taken))
  | digits taken half left value, c =>
    match digitValue? 16 c with
    | none => none
    | some d =>
      if left ≤ 1 then (afterDigits? taken half (value * 16 + d)).map fun m => ([], m)
      else some ([], digits taken half (left - 1) (value * 16 + d))
  | pairBackslash taken half, c => if c = '\\' then some ([], pairMark taken half) else none
  | pairMark taken half, c => if c = 'u' then some ([], digits taken (some half) 4 0) else none

/-- The end of the text: the token that it completes, unless one is cut off. -/
def finish : Lexer → Option (List Token)
  | between => some []
  | number taken => (numberToken? taken).map fun t => [t]
  | _ => none

/-- The tokens of a text, and what the machine is in the middle of after it. -/
def run : Lexer → List Char → Option (List Token × Lexer)
  | m, [] => some ([], m)
  | m, c :: cs =>
    match m.step c with
    | none => none
    | some (ts, m') => (run m' cs).map fun (us, m'') => (ts ++ us, m'')

theorem run_append (m : Lexer) (cs ds : List Char) :
    m.run (cs ++ ds) =
      (m.run cs).bind fun p => (p.2.run ds).map fun q => (p.1 ++ q.1, q.2) := by
  induction cs generalizing m with
  | nil => simp [run]
  | cons c cs ih =>
    simp only [List.cons_append, run]
    cases m.step c with
    | none => rfl
    | some p =>
      simp only [ih]
      cases p.2.run cs with
      | none => rfl
      | some q =>
        simp only [Option.bind_some, Option.map_some, Option.map_map]
        congr 1
        funext r
        simp only [Function.comp_apply, List.append_assoc]

end Lexer

/-- The tokens of a text, if every character belongs to one and none is cut off. -/
def Token.ofChars? (cs : List Char) : Option (List Token) :=
  match Lexer.between.run cs with
  | some (ts, m) => m.finish.map fun us => ts ++ us
  | none => none

end ObservableTree
