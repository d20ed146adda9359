import ObservableTree.Json.Token

/-!
# Cutting text where it was joined

Tokens that end by themselves can be written one behind the other, and are cut apart again:

* `Token.spelling` — the characters of a token, `Token.IsClosed` — whether it ends by itself: a
  number does not, and a string only if none of its characters needs an escape;
* `run_spelling` — the machine reads a closed token and is between two tokens again;
* `run_spellings` — hence it reads a row of them.
-/

namespace ObservableTree

/-- A character that stands for itself in a string. -/
def IsVerbatim (c : Char) : Prop := c ≠ '"' ∧ c ≠ '\\' ∧ ¬c < ' '

instance : DecidablePred IsVerbatim := fun c =>
  inferInstanceAs (Decidable (c ≠ '"' ∧ c ≠ '\\' ∧ ¬c < ' '))

namespace Token

/-- The characters of a token, with no escapes. -/
def spelling : Token → List Char
  | .openBrace => ['\x7b']
  | .closeBrace => ['\x7d']
  | .openBracket => ['[']
  | .closeBracket => [']']
  | .colon => [':']
  | .comma => [',']
  | .null => ['n', 'u', 'l', 'l']
  | .bool true => ['t', 'r', 'u', 'e']
  | .bool false => ['f', 'a', 'l', 's', 'e']
  | .number literal => literal
  | .string s => '"' :: s.toList ++ ['"']

/-- Whether a token ends by itself and is spelled without escapes. -/
def IsClosed : Token → Prop
  | .number _ => False
  | .string s => ∀ c, c ∈ s.toList → IsVerbatim c
  | _ => True

end Token

namespace Lexer

theorem step_text {c : Char} (h : IsVerbatim c) (taken : List Char) :
    (text taken).step c = some ([], text (c :: taken)) := by
  obtain ⟨hquote, hbackslash, hcontrol⟩ := h
  rw [step, if_neg hquote, if_neg hbackslash, if_neg hcontrol]

/-- In a string, characters that stand for themselves pile up. -/
theorem run_text {cs : List Char} (h : ∀ c, c ∈ cs → IsVerbatim c) (taken : List Char) :
    (text taken).run cs = some ([], text (cs.reverse ++ taken)) := by
  induction cs generalizing taken with
  | nil => rfl
  | cons c cs ih =>
    have hrest := ih (fun d hd => h d (List.mem_cons_of_mem c hd)) (c :: taken)
    rw [run, step_text (h c List.mem_cons_self)]
    show ((text (c :: taken)).run cs).map _ = _
    rw [hrest, List.reverse_cons, List.append_assoc]
    rfl

theorem run_string {s : String} (h : ∀ c, c ∈ s.toList → IsVerbatim c) :
    between.run ('"' :: s.toList ++ ['"']) = some ([.string s], between) := by
  have hend : (text (s.toList.reverse ++ [])).run ['"'] = some ([.string s], between) := by
    rw [List.append_nil]
    show some ([Token.string (String.ofList s.toList.reverse.reverse)], between) = _
    rw [List.reverse_reverse, String.ofList_toList]
  have hbody : (text []).run (s.toList ++ ['"']) = some ([.string s], between) := by
    rw [run_append, run_text h, Option.bind_some, hend]
    rfl
  show ((text []).run (s.toList ++ ['"'])).map _ = _
  rw [hbody]
  rfl

/-- The machine reads a closed token and is between two tokens again. -/
theorem run_spelling {t : Token} (h : t.IsClosed) :
    between.run t.spelling = some ([t], between) := by
  cases t with
  | string s => exact run_string h
  | number literal => exact absurd h id
  | bool b => cases b <;> rfl
  | openBrace | closeBrace | openBracket | closeBracket | colon | comma | null => rfl

/-- **A row of closed tokens is cut apart where it was joined.** -/
theorem run_spellings {ts : List Token} (h : ∀ t, t ∈ ts → t.IsClosed) :
    between.run (ts.flatMap Token.spelling) = some (ts, between) := by
  induction ts with
  | nil => rfl
  | cons t ts ih =>
    rw [List.flatMap_cons, run_append, run_spelling (h t List.mem_cons_self), Option.bind_some,
      ih fun u hu => h u (List.mem_cons_of_mem t hu)]
    rfl

end Lexer

theorem Token.ofChars?_spellings {ts : List Token} (h : ∀ t, t ∈ ts → t.IsClosed) :
    Token.ofChars? (ts.flatMap Token.spelling) = some ts := by
  rw [Token.ofChars?, Lexer.run_spellings h]
  show some (ts ++ []) = some ts
  rw [List.append_nil]

end ObservableTree
