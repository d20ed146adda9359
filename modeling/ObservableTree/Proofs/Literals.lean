import ObservableTree.Json.Token
import ObservableTree.Proofs.Numeral

/-!
# The spellings of numbers

A number literal is read in one way only, and it is spelled with its parts one behind the other:

* `Digits` — a row of digits in base ten that is not empty;
* `NumberLiteral.SignText`, `FractionText`, `ExponentText` — the spellings of the parts;
* `NumberLiteral.Spelled` — the spellings of a number, and `read?_iff` — the reader reads them;
* `isNumeric_of_spelled` — the characters of a number are those that the machine takes for one.
-/

namespace ObservableTree

/-- A row of digits in base ten that is not empty. -/
structure Digits (ds : List Char) : Prop where
  some : ds ≠ []
  all : ∀ d, d ∈ ds → isDigitIn 10 d = true

/-- The first of some digits, with anything behind them. -/
theorem Digits.head {ds : List Char} (h : Digits ds) (rest : List Char) :
    ∃ d tail, isDigitIn 10 d = true ∧ ds ++ rest = d :: tail := by
  obtain ⟨d, tail, rfl⟩ := List.exists_cons_of_ne_nil h.some
  exact ⟨d, tail ++ rest, h.all d List.mem_cons_self, rfl⟩

namespace NumberLiteral

/-! ### The parts -/

/-- The spelling of a sign: only minus signs are written. -/
def SignText (isNegative : Bool) (cs : List Char) : Prop := cs = if isNegative then ['-'] else []

/-- The spelling of a fraction. -/
inductive FractionText : List Char → List Char → Prop where
  | none : FractionText [] []
  | some {ds : List Char} (h : Digits ds) : FractionText ds ('.' :: ds)

/-- The spellings of the sign of an exponent. -/
inductive ExponentSign : Bool → List Char → Prop where
  | bare : ExponentSign false []
  | plus : ExponentSign false ['+']
  | minus : ExponentSign true ['-']

/-- The spellings of an exponent. -/
inductive ExponentText : Option (Bool × List Char) → List Char → Prop where
  | none : ExponentText none []
  | some {mark : Char} {isNegative : Bool} {cs ds : List Char} (hmark : mark = 'e' ∨ mark = 'E')
      (hsign : ExponentSign isNegative cs) (h : Digits ds) :
      ExponentText (some (isNegative, ds)) (mark :: (cs ++ ds))

/-- The spellings of a number: the whole digits have no needless zero in front. -/
inductive Spelled (n : NumberLiteral) : List Char → Prop where
  | parts {sign fraction exponent : List Char} (hsign : SignText n.isNegative sign)
      (hwhole : Digits n.whole) (hzero : ¬(n.whole.head? = some '0' ∧ 1 < n.whole.length))
      (hfraction : FractionText n.fraction fraction)
      (hexponent : ExponentText n.exponent exponent) :
      Spelled n (sign ++ (n.whole ++ (fraction ++ exponent)))

/-! ### Reading the parts -/

theorem readDigits?_sound {cs ds rest : List Char} (h : readDigits? cs = some (ds, rest)) :
    Digits ds ∧ cs = ds ++ rest := by
  obtain ⟨hsome, hread⟩ := Option.ite_none_left_eq_some.mp h
  cases hread
  exact ⟨⟨hsome, fun d hd => isDigitIn_of_mem_leadingDigits hd⟩,
    (leadingDigits_append_rest 10 cs).symm⟩

theorem readDigits?_append {ds rest : List Char} (hds : Digits ds) (hrest : NoDigitAhead 10 rest) :
    readDigits? (ds ++ rest) = some (ds, rest) := by
  rw [readDigits?, leadingDigits_append hds.all hrest, dropWhile_digits_append hds.all hrest,
    if_neg hds.some]

/-- Where a digit stands, there is no sign. -/
theorem readSign_of_digit {d : Char} (hd : isDigitIn 10 d = true) (plus : Bool) (cs : List Char) :
    readSign plus (d :: cs) = (false, d :: cs) := by
  unfold readSign
  split
  · next heq =>
    cases heq
    exact absurd hd (by decide)
  · next heq =>
    cases heq
    exact absurd hd (by decide)
  · rfl

theorem readSign_sound {cs rest : List Char} {isNegative : Bool}
    (h : readSign false cs = (isNegative, rest)) :
    ∃ sign, SignText isNegative sign ∧ cs = sign ++ rest := by
  unfold readSign at h
  split at h
  all_goals
    cases h
    exact ⟨_, rfl, rfl⟩

theorem readSign_append {isNegative : Bool} {sign ds rest : List Char}
    (hsign : SignText isNegative sign) (hds : Digits ds) :
    readSign false (sign ++ (ds ++ rest)) = (isNegative, ds ++ rest) := by
  have hsign : sign = if isNegative then ['-'] else [] := hsign
  subst hsign
  cases isNegative with
  | true => rfl
  | false =>
    obtain ⟨d, tail, hd, hall⟩ := hds.head rest
    show readSign false (ds ++ rest) = _
    rw [hall, readSign_of_digit hd]

theorem readFraction?_sound {cs ds rest : List Char} (h : readFraction? cs = some (ds, rest)) :
    ∃ fraction, FractionText ds fraction ∧ cs = fraction ++ rest := by
  unfold readFraction? at h
  split at h
  · next tail =>
    obtain ⟨hds, htail⟩ := readDigits?_sound h
    exact ⟨'.' :: ds, .some hds, congrArg (List.cons '.') htail⟩
  · cases h
    exact ⟨[], .none, rfl⟩

theorem readFraction?_append {ds fraction rest : List Char} (h : FractionText ds fraction)
    (hten : NoDigitAhead 10 rest) (hpoint : rest.head? ≠ some '.') :
    readFraction? (fraction ++ rest) = some (ds, rest) := by
  cases h with
  | none =>
    cases rest with
    | nil => rfl
    | cons c rest =>
      unfold readFraction?
      split
      · next heq =>
        cases heq
        exact absurd rfl hpoint
      · rfl
  | some hds => exact readDigits?_append hds hten

theorem readSign_plus_sound (cs : List Char) :
    ∃ sign, ExponentSign (readSign true cs).1 sign ∧ cs = sign ++ (readSign true cs).2 := by
  unfold readSign
  split
  · exact ⟨['-'], .minus, rfl⟩
  · exact ⟨['+'], .plus, rfl⟩
  · exact ⟨[], .bare, rfl⟩

theorem readSign_plus_append {isNegative : Bool} {sign ds : List Char}
    (hsign : ExponentSign isNegative sign) (hds : Digits ds) :
    readSign true (sign ++ ds) = (isNegative, ds) := by
  cases hsign with
  | bare =>
    obtain ⟨d, tail, hd, hall⟩ := hds.head []
    rw [List.append_nil] at hall
    rw [List.nil_append, hall, readSign_of_digit hd]
  | plus | minus => rfl

/-- An exponent behind its mark. -/
theorem readExponent?_of_mark {mark : Char} (hmark : mark = 'e' ∨ mark = 'E') (cs : List Char) :
    readExponent? (mark :: cs) =
      (readDigits? (readSign true cs).2).map fun p => (some ((readSign true cs).1, p.1), p.2) := by
  rcases hmark with rfl | rfl <;> rfl

theorem readExponent?_sound {cs rest : List Char} {exponent : Option (Bool × List Char)}
    (h : readExponent? cs = some (exponent, rest)) :
    ∃ text, ExponentText exponent text ∧ cs = text ++ rest := by
  by_cases hmark : ∃ mark tail, cs = mark :: tail ∧ (mark = 'e' ∨ mark = 'E')
  · obtain ⟨mark, tail, rfl, hmark⟩ := hmark
    rw [readExponent?_of_mark hmark] at h
    obtain ⟨⟨ds, rest'⟩, hread, heq⟩ := Option.map_eq_some_iff.mp h
    cases heq
    obtain ⟨sign, hsign, htail⟩ := readSign_plus_sound tail
    obtain ⟨hds, hdigits⟩ := readDigits?_sound hread
    refine ⟨mark :: (sign ++ ds), .some hmark hsign hds, ?_⟩
    rw [List.cons_append, List.append_assoc, ← hdigits, ← htail]
  · unfold readExponent? at h
    split at h
    · exact absurd ⟨_, _, rfl, .inl rfl⟩ hmark
    · exact absurd ⟨_, _, rfl, .inr rfl⟩ hmark
    · cases h
      exact ⟨[], .none, rfl⟩

theorem readExponent?_of_text {text : List Char} {exponent : Option (Bool × List Char)}
    (h : ExponentText exponent text) : readExponent? text = some (exponent, []) := by
  cases h with
  | none => rfl
  | some hmark hsign hds =>
    have hread := readDigits?_append hds (.nil 10)
    rw [List.append_nil] at hread
    rw [readExponent?_of_mark hmark, readSign_plus_append hsign hds, hread]
    rfl

/-! ### Whole literals -/

/-- What comes behind the digits in front of an exponent. -/
theorem noDigitAhead_of_exponentText {text : List Char} {exponent : Option (Bool × List Char)}
    (h : ExponentText exponent text) : NoDigitAhead 10 text ∧ text.head? ≠ some '.' := by
  cases h with
  | none => exact ⟨.nil 10, nofun⟩
  | some hmark =>
    rcases hmark with rfl | rfl
    · exact ⟨.cons (by decide) _, fun hpoint => nomatch hpoint⟩
    · exact ⟨.cons (by decide) _, fun hpoint => nomatch hpoint⟩

theorem noDigitAhead_of_fractionText {ds fraction rest : List Char} (h : FractionText ds fraction)
    (hrest : NoDigitAhead 10 rest) : NoDigitAhead 10 (fraction ++ rest) := by
  cases h with
  | none => exact hrest
  | some hds => exact .cons (by decide) _

/-- **The reader reads the spellings of a number.** -/
theorem read?_iff (cs : List Char) (n : NumberLiteral) : read? cs = some n ↔ n.Spelled cs := by
  constructor
  · intro h
    rcases hread : readSign false cs with ⟨isNegative, signed⟩
    unfold read? at h
    rw [hread] at h
    dsimp only at h
    obtain ⟨⟨whole, behindWhole⟩, hwhole, h⟩ := Option.bind_eq_some_iff.mp h
    split at h
    · cases h
    next hzero =>
    obtain ⟨⟨fraction, behindFraction⟩, hfraction, h⟩ := Option.bind_eq_some_iff.mp h
    obtain ⟨⟨exponent, rest⟩, hexponent, h⟩ := Option.bind_eq_some_iff.mp h
    obtain ⟨hrest, hn⟩ := Option.ite_none_right_eq_some.mp h
    cases hn
    have hrest : rest = [] := hrest
    -- the text in front of what each reader leaves is the spelling of what it reads
    obtain ⟨sign, hsign, rfl⟩ := readSign_sound hread
    obtain ⟨hdigits, rfl⟩ := readDigits?_sound hwhole
    obtain ⟨text, htext, hfront⟩ := readFraction?_sound hfraction
    obtain ⟨text', htext', hback⟩ := readExponent?_sound hexponent
    have hfront : behindWhole = text ++ behindFraction := hfront
    have hback : behindFraction = text' ++ rest := hback
    rw [hfront, hback, hrest, List.append_nil]
    exact .parts hsign hdigits hzero htext htext'
  · rintro ⟨hsign, hwhole, hzero, hfraction, hexponent⟩
    obtain ⟨hten, hpoint⟩ := noDigitAhead_of_exponentText hexponent
    unfold read?
    rw [readSign_append hsign hwhole]
    dsimp only
    rw [readDigits?_append hwhole (noDigitAhead_of_fractionText hfraction hten)]
    show (if _ then _ else _) = _
    rw [if_neg hzero, readFraction?_append hfraction hten hpoint]
    show (readExponent? _).bind _ = _
    rw [readExponent?_of_text hexponent]
    rfl

/-! ### Characters -/

theorem isNumeric_of_digit {c : Char} (h : isDigitIn 10 c = true) : Lexer.isNumeric c = true := by
  simp only [Lexer.isNumeric, h, Bool.true_or]

theorem Digits.isNumeric {ds : List Char} (h : Digits ds) :
    ∀ c, c ∈ ds → Lexer.isNumeric c = true := fun c hc => isNumeric_of_digit (h.all c hc)

theorem FractionText.isNumeric {ds text : List Char} (h : FractionText ds text) :
    ∀ c, c ∈ text → Lexer.isNumeric c = true := by
  cases h with
  | none => nofun
  | some hds => exact List.forall_mem_cons.mpr ⟨by decide, Digits.isNumeric hds⟩

theorem ExponentSign.isNumeric {isNegative : Bool} {text : List Char}
    (h : ExponentSign isNegative text) : ∀ c, c ∈ text → Lexer.isNumeric c = true := by
  cases h with
  | bare => nofun
  | plus | minus => exact List.forall_mem_singleton.mpr (by decide)

theorem ExponentText.isNumeric {exponent : Option (Bool × List Char)} {text : List Char}
    (h : ExponentText exponent text) : ∀ c, c ∈ text → Lexer.isNumeric c = true := by
  cases h with
  | none => nofun
  | some hmark hsign hds =>
    refine List.forall_mem_cons.mpr ⟨?_, List.forall_mem_append.mpr ⟨hsign.isNumeric, ?_⟩⟩
    · rcases hmark with rfl | rfl <;> decide
    · exact Digits.isNumeric hds

theorem SignText.isNumeric {isNegative : Bool} {text : List Char} (h : SignText isNegative text) :
    ∀ c, c ∈ text → Lexer.isNumeric c = true := by
  have h : text = if isNegative then ['-'] else [] := h
  subst h
  cases isNegative with
  | true => exact List.forall_mem_singleton.mpr (by decide)
  | false => nofun

/-- **The characters of a number** are those that the machine takes for one, and the first of them
is one that it starts a number with. -/
theorem isNumeric_of_spelled {n : NumberLiteral} {cs : List Char} (h : n.Spelled cs) :
    (∀ c, c ∈ cs → Lexer.isNumeric c = true) ∧
      ∃ c tail, (isDigitIn 10 c = true ∨ c = '-') ∧ cs = c :: tail := by
  obtain ⟨hsign, hwhole, -, hfraction, hexponent⟩ := h
  constructor
  · exact List.forall_mem_append.mpr ⟨hsign.isNumeric, List.forall_mem_append.mpr
      ⟨Digits.isNumeric hwhole, List.forall_mem_append.mpr
        ⟨hfraction.isNumeric, hexponent.isNumeric⟩⟩⟩
  · rename_i sign fraction exponent
    have hsign : sign = if n.isNegative then ['-'] else [] := hsign
    subst hsign
    cases n.isNegative with
    | true => exact ⟨'-', _, .inr rfl, rfl⟩
    | false =>
      obtain ⟨d, tail, hd, hall⟩ := hwhole.head (fraction ++ exponent)
      exact ⟨d, tail, .inl hd, hall⟩

end NumberLiteral

end ObservableTree
