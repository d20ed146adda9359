import Mathlib.Data.List.Chain
import Mathlib.Data.List.Forall2
import ObservableTree.Proofs.Literals
import ObservableTree.Proofs.Spelling

/-!
# The spellings of JSON tokens

A row of tokens has many spellings: blanks may stand between any two of them, and a string may
escape any of its characters. Whatever the machine cuts a text into, the text is a spelling of:

* `Escaped` — the spellings of one character of a string;
* `Token.Spells` — the spellings of a token, `Written` — those of a row of tokens;
* `Parted` — the rows that can be cut again: what follows a number ends it;
* `Lexer.Pending` — the text of the token that the machine is in the middle of;
* `step_splits`, `run_splits` — what has been read is written in the tokens so far, and the text of
  the next one;
* `written_of_ofChars?` — hence a text is a spelling of its tokens.
-/

namespace ObservableTree

/-! ### Spellings -/

/-- The value of four digits in base sixteen. -/
structure Quad (ds : List Char) (n : Nat) : Prop where
  four : ds.length = 4
  digits : ∀ d, d ∈ ds → isDigitIn 16 d = true
  value : digitsValue 16 ds = n

/-- The marks of the short escapes, with the characters that they stand for. -/
def shortEscapes : List (Char × Char) :=
  [('"', '"'), ('\\', '\\'), ('/', '/'), ('b', '\x08'), ('f', '\x0c'), ('n', '\n'), ('r', '\r'),
    ('t', '\t')]

/-- The spellings of one character in a string: itself, a short escape, its number, or the numbers
of the two halves of a pair. -/
inductive Escaped (c : Char) : List Char → Prop where
  | verbatim (h : IsVerbatim c) : Escaped c [c]
  | short (mark : Char) (h : (mark, c) ∈ shortEscapes) : Escaped c ['\\', mark]
  | number (ds : List Char) (h : Quad ds c.toNat) : Escaped c ('\\' :: 'u' :: ds)
  | pair (high low : Nat) (ds es : List Char) (hds : Quad ds (0xD800 + high)) (hhigh : high < 0x400)
      (hes : Quad es (0xDC00 + low)) (hlow : low < 0x400)
      (h : c.toNat = 0x10000 + high * 1024 + low) :
      Escaped c ('\\' :: 'u' :: ds ++ '\\' :: 'u' :: es)

/-- The spellings of the characters of a string, between the quotes. -/
def EscapedAll (cs ds : List Char) : Prop :=
  ∃ parts, List.Forall₂ Escaped cs parts ∧ ds = parts.flatten

/-- The literals of numbers that can be kept. -/
def IsNumber (cs : List Char) : Prop := ∃ n : NumberLiteral, n.Spelled cs ∧ n.overflows = false

/-- The spellings of a token. -/
def Token.Spells : Token → List Char → Prop
  | .string s, cs => ∃ ds, EscapedAll s.toList ds ∧ cs = '"' :: (ds ++ ['"'])
  | .number literal, cs => cs = literal ∧ IsNumber literal
  | t, cs => cs = t.spelling

/-- Text that separates tokens. -/
def Blanks (cs : List Char) : Prop := ∀ c, c ∈ cs → Lexer.isBlank c = true

/-- The spellings of a row of tokens, with blanks around each. -/
inductive Written : List Token → List Char → Prop where
  | blanks {bs : List Char} (h : Blanks bs) : Written [] bs
  | token {bs cs ds : List Char} {t : Token} {ts : List Token} (hbs : Blanks bs) (ht : t.Spells cs)
      (hts : Written ts ds) : Written (t :: ts) (bs ++ cs ++ ds)

/-- Whether a token is a number, which another character could continue. -/
def Token.isNumber : Token → Bool
  | .number _ => true
  | _ => false

/-- The tokens that end a number. -/
def Token.EndsNumber (t : Token) : Prop := t = .comma ∨ t = .closeBracket ∨ t = .closeBrace

/-- Rows of tokens in which what follows a number ends it. -/
def Parted (ts : List Token) : Prop :=
  List.IsChain (fun t u => t.isNumber = true → u.EndsNumber) ts

theorem Blanks.nil : Blanks [] := fun _ h => absurd h List.not_mem_nil

theorem Blanks.append {bs cs : List Char} (hbs : Blanks bs) (hcs : Blanks cs) :
    Blanks (bs ++ cs) := fun c h => (List.mem_append.mp h).elim (hbs c) (hcs c)

/-- Blanks in front of a spelling are part of it. -/
theorem Written.blanks_append {bs cs : List Char} {ts : List Token} (hbs : Blanks bs)
    (h : Written ts cs) : Written ts (bs ++ cs) := by
  cases h with
  | blanks hcs => exact .blanks (hbs.append hcs)
  | token hcs ht hts =>
    rw [← List.append_assoc, ← List.append_assoc]
    exact .token (hbs.append hcs) ht hts

/-- Spellings of two rows make one of the whole row. -/
theorem Written.append {ts us : List Token} {cs ds : List Char} (hts : Written ts cs)
    (hus : Written us ds) : Written (ts ++ us) (cs ++ ds) := by
  induction hts with
  | blanks hbs => exact hus.blanks_append hbs
  | token hbs ht hts ih =>
    rw [List.append_assoc]
    exact .token hbs ht ih

theorem Written.of_spells {t : Token} {cs : List Char} (h : t.Spells cs) : Written [t] cs := by
  have hone := Written.token .nil h (.blanks .nil)
  rwa [List.nil_append, List.append_nil] at hone

theorem EscapedAll.nil : EscapedAll [] [] := ⟨[], .nil, rfl⟩

/-- One more character at the end. -/
theorem EscapedAll.snoc {cs ds es : List Char} {c : Char} (h : EscapedAll cs ds)
    (hc : Escaped c es) : EscapedAll (cs ++ [c]) (ds ++ es) := by
  obtain ⟨parts, hparts, rfl⟩ := h
  refine ⟨parts ++ [es], List.rel_append hparts (.cons hc .nil), ?_⟩
  rw [List.flatten_append, List.flatten_singleton]

/-! ### What the machine has read -/

/-- The number of a character, if it is one. -/
theorem toNat_charOfNat {n : Nat} (h : n.isValidChar) : (Char.ofNat n).toNat = n := by
  rw [Char.ofNat, dif_pos h]
  rfl

theorem digitsValue_lt {base : Nat} (hbase : 0 < base) (ds : List Char) :
    digitsValue base ds < base ^ ds.length := by
  induction ds using List.reverseRecOn with
  | nil => exact Nat.one_pos
  | append_singleton ds c ih =>
    have hdigit : (digitValue? base c).getD 0 < base := by
      cases hc : digitValue? base c with
      | none => exact hbase
      | some d => exact digitValue?_lt hc
    have hstep : (digitsValue base ds + 1) * base ≤ base ^ ds.length * base :=
      Nat.mul_le_mul_right base ih
    rw [digitsValue_snoc, List.length_append, List.length_singleton, Nat.pow_succ]
    rw [Nat.add_mul, Nat.one_mul] at hstep
    omega

namespace Lexer

/-- The spelling of the characters that the machine has taken, and perhaps of the first half of a
pair behind them. -/
def Opened (taken : List Char) : Option Nat → List Char → Prop
  | none, ds => EscapedAll taken.reverse ds
  | some high, ds => ∃ front es, EscapedAll taken.reverse front ∧ Quad es high ∧
      0xD800 ≤ high ∧ high < 0xDC00 ∧ ds = front ++ '\\' :: 'u' :: es

/-- The text of the token that the machine is in the middle of. -/
def Pending : Lexer → List Char → Prop
  | between, p => p = []
  | word next left t, p => p ++ next :: left = t.spelling ∧ (t = .null ∨ ∃ b, t = .bool b)
  | number taken, p => p = taken.reverse
  | text taken, p => ∃ ds, EscapedAll taken.reverse ds ∧ p = '"' :: ds
  | escape taken, p => ∃ ds, EscapedAll taken.reverse ds ∧ p = '"' :: (ds ++ ['\\'])
  | digits taken half left value, p =>
    ∃ ds es, Opened taken half ds ∧ es.length + left = 4 ∧ 1 ≤ left ∧
      (∀ e, e ∈ es → isDigitIn 16 e = true) ∧ digitsValue 16 es = value ∧
      p = '"' :: (ds ++ '\\' :: 'u' :: es)
  | pairBackslash taken half, p => ∃ ds, Opened taken (some half) ds ∧ p = '"' :: ds
  | pairMark taken half, p => ∃ ds, Opened taken (some half) ds ∧ p = '"' :: (ds ++ ['\\'])

/-- What has been read falls into what the tokens are written in, and the text of the next token. -/
def Splits (ts : List Token) (m : Lexer) (cs : List Char) : Prop :=
  ∃ front back, cs = front ++ back ∧ Written ts front ∧ m.Pending back

theorem splits_of_token {t : Token} {cs : List Char} (h : t.Spells cs) :
    Splits [t] between cs :=
  ⟨cs, [], (List.append_nil cs).symm, .of_spells h, rfl⟩

theorem splits_of_pending {m : Lexer} {cs : List Char} (h : m.Pending cs) : Splits [] m cs :=
  ⟨[], cs, rfl, .blanks .nil, h⟩

theorem splits_of_blank {c : Char} (h : isBlank c = true) : Splits [] between [c] := by
  refine ⟨[c], [], rfl, .blanks fun d hd => ?_, rfl⟩
  rw [List.mem_singleton.mp hd]
  exact h

theorem splits_of_start {c : Char} {ts us : List Token} {m n : Lexer}
    (hstart : start? c = some (us, n)) (hc : Splits us n [c]) (h : start? c = some (ts, m)) :
    Splits ts m [c] := by
  rw [hstart] at h
  cases h
  exact hc

/-- The first character of a token. -/
theorem start?_splits {c : Char} {ts : List Token} {m : Lexer} (h : start? c = some (ts, m)) :
    Splits ts m [c] := by
  by_cases hblank : isBlank c = true
  · exact splits_of_start (if_pos hblank) (splits_of_blank hblank) h
  by_cases hopenBrace : c = '\x7b'
  · subst hopenBrace
    exact splits_of_start rfl (splits_of_token (t := .openBrace) rfl) h
  by_cases hcloseBrace : c = '\x7d'
  · subst hcloseBrace
    exact splits_of_start rfl (splits_of_token (t := .closeBrace) rfl) h
  by_cases hopenBracket : c = '['
  · subst hopenBracket
    exact splits_of_start rfl (splits_of_token (t := .openBracket) rfl) h
  by_cases hcloseBracket : c = ']'
  · subst hcloseBracket
    exact splits_of_start rfl (splits_of_token (t := .closeBracket) rfl) h
  by_cases hcolon : c = ':'
  · subst hcolon
    exact splits_of_start rfl (splits_of_token (t := .colon) rfl) h
  by_cases hcomma : c = ','
  · subst hcomma
    exact splits_of_start rfl (splits_of_token (t := .comma) rfl) h
  by_cases hquote : c = '"'
  · subst hquote
    exact splits_of_start rfl (splits_of_pending ⟨[], .nil, rfl⟩) h
  by_cases hnull : c = 'n'
  · subst hnull
    exact splits_of_start rfl (splits_of_pending ⟨rfl, .inl rfl⟩) h
  by_cases htrue : c = 't'
  · subst htrue
    exact splits_of_start rfl (splits_of_pending ⟨rfl, .inr ⟨true, rfl⟩⟩) h
  by_cases hfalse : c = 'f'
  · subst hfalse
    exact splits_of_start rfl (splits_of_pending ⟨rfl, .inr ⟨false, rfl⟩⟩) h
  rw [start?, if_neg hblank, if_neg hopenBrace, if_neg hcloseBrace, if_neg hopenBracket,
    if_neg hcloseBracket, if_neg hcolon, if_neg hcomma, if_neg hquote, if_neg hnull, if_neg htrue,
    if_neg hfalse] at h
  obtain ⟨-, hnumber⟩ := Option.ite_none_right_eq_some.mp h
  cases hnumber
  exact splits_of_pending rfl

/-- The characters of a complete number. -/
theorem numberToken?_spells {taken : List Char} {t : Token} (h : numberToken? taken = some t) :
    t = .number taken.reverse ∧ IsNumber taken.reverse := by
  unfold numberToken? at h
  split at h
  · next n hread =>
    split at h
    · cases h
    · next hfits =>
      cases h
      exact ⟨rfl, n, (NumberLiteral.read?_iff _ n).mp hread, Bool.not_eq_true _ ▸ hfits⟩
  · cases h

/-- The machine knows the short escapes, and no others. -/
theorem shortEscape?_iff (mark c : Char) :
    shortEscape? mark = some c ↔ (mark, c) ∈ shortEscapes := by
  constructor
  · intro h
    unfold shortEscape? at h
    split at h
    · next hsame =>
      cases h
      rcases hsame with rfl | rfl | rfl <;> decide
    iterate 5
      split at h
      · next hmark =>
        subst hmark
        cases h
        decide
    cases h
  · intro h
    simp only [shortEscapes, List.mem_cons, Prod.mk.injEq, List.not_mem_nil, or_false] at h
    rcases h with ⟨rfl, rfl⟩ | ⟨rfl, rfl⟩ | ⟨rfl, rfl⟩ | ⟨rfl, rfl⟩ | ⟨rfl, rfl⟩ | ⟨rfl, rfl⟩ |
      ⟨rfl, rfl⟩ | ⟨rfl, rfl⟩ <;> rfl

/-- Behind four digits, the machine has read a character or the first half of a pair. -/
theorem afterDigits?_pending {taken ds es : List Char} {half : Option Nat} {value : Nat} {m : Lexer}
    (hopened : Opened taken half ds) (hquad : Quad es value)
    (h : afterDigits? taken half value = some m) :
    m.Pending ('"' :: (ds ++ '\\' :: 'u' :: es)) := by
  have hlast : value < 65536 := by
    have hvalue : digitsValue 16 es < 16 ^ es.length := digitsValue_lt (by decide) es
    rwa [hquad.value, hquad.four] at hvalue
  cases half with
  | none =>
    rw [afterDigits?] at h
    by_cases hwhole : value < 0xD800 ∨ 0xDFFF < value
    · rw [if_pos hwhole] at h
      cases h
      have hnumber : (Char.ofNat value).toNat = value :=
        toNat_charOfNat (hwhole.imp_right fun hle => ⟨hle, by omega⟩)
      refine ⟨ds ++ '\\' :: 'u' :: es, ?_, rfl⟩
      rw [List.reverse_cons]
      exact hopened.snoc (.number es (by rwa [hnumber]))
    · rw [if_neg hwhole] at h
      obtain ⟨hhigh, hm⟩ := Option.ite_none_right_eq_some.mp h
      cases hm
      exact ⟨_, ⟨ds, es, hopened, hquad, by omega, hhigh, rfl⟩, rfl⟩
  | some high =>
    obtain ⟨front, hs, hfront, hfirst, hlow, hhigh, rfl⟩ := hopened
    rw [afterDigits?] at h
    obtain ⟨hsecond, hm⟩ := Option.ite_none_right_eq_some.mp h
    cases hm
    have hnumber := toNat_charOfNat (n := (high - 0xD800) * 1024 + (value - 0xDC00) + 0x10000)
      (.inr ⟨by omega, by omega⟩)
    have hpair := Escaped.pair (c := Char.ofNat ((high - 0xD800) * 1024 + (value - 0xDC00) + 0x10000))
      (high - 0xD800) (value - 0xDC00) hs es (by rwa [Nat.add_sub_cancel' hlow]) (by omega)
      (by rwa [Nat.add_sub_cancel' hsecond.1]) (by omega) (by omega)
    refine ⟨front ++ ('\\' :: 'u' :: hs ++ '\\' :: 'u' :: es), ?_, ?_⟩
    · rw [List.reverse_cons]
      exact hfront.snoc hpair
    · rw [List.append_assoc]

section

variable {n : Lexer} {c : Char} {p taken : List Char} {ts : List Token}

theorem word_splits {next : Char} {left : List Char} {t : Token} (hp : (word next left t).Pending p)
    (h : (word next left t).step c = some (ts, n)) : Splits ts n (p ++ [c]) := by
  obtain ⟨hspelling, hword⟩ := hp
  by_cases hnext : c = next
  · subst hnext
    cases left with
    | nil =>
      have hstep : (word c [] t).step c = some ([t], between) := if_neg (not_not.mpr rfl)
      rw [hstep] at h
      cases h
      refine splits_of_token ?_
      rw [hspelling]
      rcases hword with rfl | ⟨b, rfl⟩ <;> rfl
    | cons after left =>
      have hstep : (word c (after :: left) t).step c = some ([], word after left t) :=
        if_neg (not_not.mpr rfl)
      rw [hstep] at h
      cases h
      refine splits_of_pending ⟨?_, hword⟩
      rw [List.append_assoc]
      exact hspelling
  · have hstep : (word next left t).step c = none := if_pos hnext
    rw [hstep] at h
    cases h

/-- The character behind a number starts the next token. -/
theorem number_splits (h : (number taken).step c = some (ts, n)) :
    Splits ts n (taken.reverse ++ [c]) := by
  rw [step] at h
  split at h
  · cases h
    exact splits_of_pending List.reverse_cons.symm
  split at h
  · next t us n' htoken hstart =>
    cases h
    obtain ⟨rfl, hnumber⟩ := numberToken?_spells htoken
    obtain ⟨front, back, hc, hfront, hback⟩ := start?_splits hstart
    have hone : Written [.number taken.reverse] taken.reverse := .of_spells ⟨rfl, hnumber⟩
    refine ⟨taken.reverse ++ front, back, ?_, hone.append hfront, hback⟩
    rw [hc, List.append_assoc]
  · cases h

theorem text_splits (hp : (text taken).Pending p) (h : (text taken).step c = some (ts, n)) :
    Splits ts n (p ++ [c]) := by
  obtain ⟨ds, hds, rfl⟩ := hp
  rw [step] at h
  by_cases hquote : c = '"'
  · rw [if_pos hquote] at h
    cases h
    refine splits_of_token ⟨ds, ?_, by rw [hquote]; rfl⟩
    rwa [String.toList_ofList]
  rw [if_neg hquote] at h
  by_cases hbackslash : c = '\\'
  · rw [if_pos hbackslash] at h
    cases h
    exact splits_of_pending ⟨ds, hds, by rw [hbackslash]; rfl⟩
  rw [if_neg hbackslash] at h
  obtain ⟨hcontrol, hn⟩ := Option.ite_none_left_eq_some.mp h
  cases hn
  refine splits_of_pending ⟨ds ++ [c], ?_, rfl⟩
  rw [List.reverse_cons]
  exact hds.snoc (.verbatim ⟨hquote, hbackslash, hcontrol⟩)

theorem escape_splits (hp : (escape taken).Pending p) (h : (escape taken).step c = some (ts, n)) :
    Splits ts n (p ++ [c]) := by
  obtain ⟨ds, hds, rfl⟩ := hp
  rw [step] at h
  by_cases hmark : c = 'u'
  · rw [if_pos hmark] at h
    cases h
    refine splits_of_pending ⟨ds, [], hds, rfl, by decide, List.forall_mem_nil _, rfl, ?_⟩
    rw [hmark, List.cons_append, List.append_assoc]
    rfl
  · rw [if_neg hmark] at h
    obtain ⟨d, hd, hn⟩ := Option.map_eq_some_iff.mp h
    cases hn
    refine splits_of_pending ⟨ds ++ ['\\', c], ?_, ?_⟩
    · rw [List.reverse_cons]
      exact hds.snoc (.short c ((shortEscape?_iff c d).mp hd))
    · rw [List.cons_append, List.append_assoc]
      rfl

theorem digits_splits {half : Option Nat} {left value : Nat}
    (hp : (digits taken half left value).Pending p)
    (h : (digits taken half left value).step c = some (ts, n)) : Splits ts n (p ++ [c]) := by
  obtain ⟨ds, es, hopened, hlength, hleft, hdigits, hvalue, rfl⟩ := hp
  have htext : '"' :: (ds ++ '\\' :: 'u' :: es) ++ [c] =
      '"' :: (ds ++ '\\' :: 'u' :: (es ++ [c])) := by
    rw [List.cons_append, List.append_assoc]
    rfl
  rw [step] at h
  cases hd : digitValue? 16 c with
  | none =>
    rw [hd] at h
    cases h
  | some d =>
    have hmore : ∀ e, e ∈ es ++ [c] → isDigitIn 16 e = true :=
      List.forall_mem_append.mpr
        ⟨hdigits, List.forall_mem_singleton.mpr (by rw [isDigitIn, hd]; rfl)⟩
    have hnext : digitsValue 16 (es ++ [c]) = value * 16 + d := by
      rw [digitsValue_snoc, hvalue, hd]
      rfl
    have hfour : (es ++ [c]).length = es.length + 1 := List.length_append
    rw [hd] at h
    dsimp only at h
    rw [htext]
    split at h
    · -- the last digit
      obtain ⟨n', hn', hn⟩ := Option.map_eq_some_iff.mp h
      cases hn
      exact splits_of_pending (afterDigits?_pending hopened ⟨by omega, hmore, hnext⟩ hn')
    · cases h
      exact splits_of_pending ⟨ds, es ++ [c], hopened, by omega, by omega, hmore, hnext, rfl⟩

end

/-- **One character.** -/
theorem step_splits {m n : Lexer} {c : Char} {p : List Char} {ts : List Token} (hp : m.Pending p)
    (h : m.step c = some (ts, n)) : Splits ts n (p ++ [c]) := by
  cases m with
  | between =>
    have hp : p = [] := hp
    subst hp
    exact start?_splits h
  | word next left t => exact word_splits hp h
  | number taken =>
    have hp : p = taken.reverse := hp
    subst hp
    exact number_splits h
  | text taken => exact text_splits hp h
  | escape taken => exact escape_splits hp h
  | digits taken half left value => exact digits_splits hp h
  | pairBackslash taken half =>
    obtain ⟨ds, hopened, rfl⟩ := hp
    obtain ⟨hc, hn⟩ := Option.ite_none_right_eq_some.mp h
    cases hn
    exact splits_of_pending ⟨ds, hopened, by rw [hc]; rfl⟩
  | pairMark taken half =>
    obtain ⟨ds, hopened, rfl⟩ := hp
    obtain ⟨hc, hn⟩ := Option.ite_none_right_eq_some.mp h
    cases hn
    refine splits_of_pending ⟨ds, [], hopened, rfl, by decide, List.forall_mem_nil _, rfl, ?_⟩
    rw [hc, List.cons_append, List.append_assoc]
    rfl

/-- **What the machine makes of a text is written in the text**, but for the token that it is in the
middle of. -/
theorem run_splits {m n : Lexer} {cs p : List Char} {ts : List Token} (hp : m.Pending p)
    (h : m.run cs = some (ts, n)) : Splits ts n (p ++ cs) := by
  induction cs generalizing m p ts with
  | nil =>
    cases h
    rw [List.append_nil]
    exact splits_of_pending hp
  | cons c cs ih =>
    rw [run] at h
    split at h
    · cases h
    · next us m' hstep =>
      obtain ⟨⟨vs, n'⟩, hrun, hsum⟩ := Option.map_eq_some_iff.mp h
      cases hsum
      obtain ⟨front, back, hread, hfront, hback⟩ := step_splits hp hstep
      obtain ⟨middle, rest, hlater, hmiddle, hrest⟩ := ih hback hrun
      refine ⟨front ++ middle, rest, ?_, hfront.append hmiddle, hrest⟩
      rw [List.append_cons, hread, List.append_assoc, hlater, List.append_assoc]

theorem finish_written {m : Lexer} {p : List Char} {ts : List Token} (hp : m.Pending p)
    (h : m.finish = some ts) : Written ts p := by
  cases m with
  | between =>
    have hp : p = [] := hp
    subst hp
    cases h
    exact .blanks .nil
  | number taken =>
    have hp : p = taken.reverse := hp
    subst hp
    obtain ⟨t, htoken, hts⟩ := Option.map_eq_some_iff.mp h
    subst hts
    obtain ⟨rfl, hnumber⟩ := numberToken?_spells htoken
    exact .of_spells ⟨rfl, hnumber⟩
  | word | text | escape | digits | pairBackslash | pairMark => cases h

end Lexer

/-- The tokens of a text are written in it. -/
theorem written_of_ofChars? {cs : List Char} {ts : List Token} (h : Token.ofChars? cs = some ts) :
    Written ts cs := by
  unfold Token.ofChars? at h
  split at h
  · next us m hrun =>
    obtain ⟨vs, hfinish, hsum⟩ := Option.map_eq_some_iff.mp h
    obtain ⟨front, back, hread, hfront, hback⟩ :=
      Lexer.run_splits (m := .between) (p := []) rfl hrun
    rw [List.nil_append] at hread
    rw [hread, ← hsum]
    exact hfront.append (Lexer.finish_written hback hfinish)
  · cases h

end ObservableTree
