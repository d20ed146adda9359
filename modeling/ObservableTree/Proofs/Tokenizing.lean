import ObservableTree.Proofs.Lexemes

/-!
# Cutting a spelling

Every spelling of a row of tokens is cut into these tokens again, provided that what follows a
number ends it:

* `Lexer.tokens?` — the tokens of the rest of a text;
* `run_escaped` — a character of a string is read however it is spelled, and `run_spells` — any token
  that ends by itself;
* `tokens?_number` — a number ends in front of any character that could not continue it;
* `ofChars?_of_written` — hence a spelling is cut into its tokens.
-/

namespace ObservableTree

namespace Lexer

/-- The tokens of the rest of a text. -/
def tokens? (m : Lexer) (cs : List Char) : Option (List Token) :=
  (m.run cs).bind fun p => p.2.finish.map fun us => p.1 ++ us

theorem ofChars?_eq_tokens? (cs : List Char) : Token.ofChars? cs = between.tokens? cs := by
  unfold Token.ofChars? tokens?
  cases between.run cs <;> rfl

/-- The tokens of a text in two pieces, the first of which the machine reads. -/
theorem tokens?_append {m n : Lexer} {cs : List Char} {ts : List Token}
    (h : m.run cs = some (ts, n)) (ds : List Char) :
    m.tokens? (cs ++ ds) = (n.tokens? ds).map fun us => ts ++ us := by
  unfold tokens?
  rw [run_append, h, Option.bind_some]
  cases n.run ds with
  | none => rfl
  | some q =>
    simp only [Option.map_some, Option.bind_some, Option.map_map]
    congr 1
    funext us
    exact List.append_assoc _ _ _

theorem start?_of_blank {c : Char} (h : isBlank c = true) : start? c = some ([], between) :=
  if_pos h

theorem run_blanks {bs : List Char} (h : Blanks bs) : between.run bs = some ([], between) := by
  induction bs with
  | nil => rfl
  | cons c bs ih =>
    rw [run, step, start?_of_blank (h c List.mem_cons_self)]
    show (between.run bs).map _ = _
    rw [ih fun d hd => h d (List.mem_cons_of_mem c hd)]
    rfl

/-- The digits of an escape, from any of them on. -/
theorem run_digits (taken : List Char) (half : Option Nat) {ds : List Char} (hsome : ds ≠ [])
    (hdigits : ∀ d, d ∈ ds → isDigitIn 16 d = true) (value : Nat) :
    (digits taken half ds.length value).run ds =
      (afterDigits? taken half
        (ds.foldl (fun n c => n * 16 + (digitValue? 16 c).getD 0) value)).map fun m => ([], m) := by
  induction ds generalizing value with
  | nil => exact absurd rfl hsome
  | cons c ds ih =>
    obtain ⟨hfirst, hrest⟩ := List.forall_mem_cons.mp hdigits
    obtain ⟨d, hd⟩ := Option.isSome_iff_exists.mp hfirst
    rw [run, step, hd]
    dsimp only [List.foldl_cons]
    rw [hd, Option.getD_some]
    cases ds with
    | nil =>
      have hlast : [c].length ≤ 1 := Nat.le_refl 1
      rw [if_pos hlast, List.foldl_nil]
      cases afterDigits? taken half (value * 16 + d) <;> rfl
    | cons c' ds =>
      have hmore : ¬(c :: c' :: ds).length ≤ 1 := by simp
      rw [if_neg hmore]
      show ((digits taken half (c' :: ds).length (value * 16 + d)).run (c' :: ds)).map _ = _
      rw [ih (List.cons_ne_nil c' ds) hrest, Option.map_map]
      rfl

theorem run_quad {taken ds : List Char} {half : Option Nat} {value : Nat} (h : Quad ds value) :
    (digits taken half 4 0).run ds = (afterDigits? taken half value).map fun m => ([], m) := by
  have hsome : ds ≠ [] := by
    rintro rfl
    exact absurd h.four (by decide)
  have hrun := run_digits taken half hsome h.digits 0
  rw [h.four] at hrun
  rw [hrun, ← h.value]
  rfl

/-- The character that two halves of a pair stand for. -/
theorem afterDigits?_low {taken : List Char} {c : Char} {high low : Nat} (hhigh : high < 0x400)
    (hlow : low < 0x400) (h : c.toNat = 0x10000 + high * 1024 + low) :
    afterDigits? taken (some (0xD800 + high)) (0xDC00 + low) = some (text (c :: taken)) := by
  have hsum : (0xD800 + high - 0xD800) * 1024 + (0xDC00 + low - 0xDC00) + 0x10000 = c.toNat := by
    omega
  rw [afterDigits?, if_pos ⟨by omega, by omega⟩, hsum, Char.ofNat_toNat]

/-- A character of a string, however it is spelled. -/
theorem run_escaped {c : Char} {es : List Char} (h : Escaped c es) (taken : List Char) :
    (text taken).run es = some ([], text (c :: taken)) := by
  cases h with
  | verbatim hc => rw [run, step_text hc]; rfl
  | short mark hmark =>
    have hescape := (shortEscape?_iff mark c).mpr hmark
    have hu : mark ≠ 'u' := by
      rintro rfl
      have hnone : shortEscape? 'u' = none := rfl
      rw [hnone] at hescape
      cases hescape
    show ((escape taken).run [mark]).map _ = _
    rw [run, step, if_neg hu, hescape]
    rfl
  | number ds hds =>
    have hwhole : c.toNat < 0xD800 ∨ 0xDFFF < c.toNat := c.valid.imp_right And.left
    have hafter : afterDigits? taken none c.toNat = some (text (c :: taken)) := by
      rw [afterDigits?, if_pos hwhole, Char.ofNat_toNat]
    show (((digits taken none 4 0).run ds).map _).map _ = _
    rw [run_quad hds, hafter]
    rfl
  | pair high low ds es hds hhigh hes hlow hc =>
    have hfirst : afterDigits? taken none (0xD800 + high) =
        some (pairBackslash taken (0xD800 + high)) := by
      rw [afterDigits?, if_neg (by omega), if_pos (by omega)]
    have hsecond : (pairBackslash taken (0xD800 + high)).run ('\\' :: 'u' :: es) =
        some ([], text (c :: taken)) := by
      show (((digits taken (some (0xD800 + high)) 4 0).run es).map _).map _ = _
      rw [run_quad hes, afterDigits?_low hhigh hlow hc]
      rfl
    show (((digits taken none 4 0).run (ds ++ '\\' :: 'u' :: es)).map _).map _ = _
    rw [run_append, run_quad hds, hfirst]
    show ((((pairBackslash taken (0xD800 + high)).run ('\\' :: 'u' :: es)).map _).map _).map _ = _
    rw [hsecond]
    rfl

theorem run_escapedAll {cs ds : List Char} (h : EscapedAll cs ds) (taken : List Char) :
    (text taken).run ds = some ([], text (cs.reverse ++ taken)) := by
  obtain ⟨parts, hparts, rfl⟩ := h
  induction hparts generalizing taken with
  | nil => rfl
  | cons hc _ ih =>
    rw [List.flatten_cons, run_append, run_escaped hc, Option.bind_some, ih, List.reverse_cons,
      List.append_assoc]
    rfl

/-- A token that is no number is complete at the end of its spelling. -/
theorem run_spells {t : Token} {cs : List Char} (h : t.Spells cs)
    (hnumber : t.isNumber = false) : between.run cs = some ([t], between) := by
  cases t with
  | number literal => cases hnumber
  | string s =>
    obtain ⟨ds, hds, rfl⟩ := h
    have hbody : (text []).run (ds ++ ['"']) = some ([.string s], between) := by
      rw [run_append, run_escapedAll hds, Option.bind_some, List.append_nil]
      show some (_ ++ [Token.string (String.ofList s.toList.reverse.reverse)], between) = _
      rw [List.reverse_reverse, String.ofList_toList]
      rfl
    show ((text []).run (ds ++ ['"'])).map _ = _
    rw [hbody]
    rfl
  | bool b =>
    rw [show cs = _ from h]
    exact run_spelling trivial
  | openBrace | closeBrace | openBracket | closeBracket | colon | comma | null =>
    rw [show cs = _ from h]
    exact run_spelling trivial

/-- The first character of a number. -/
theorem start?_of_numeric {c : Char} (h : isDigitIn 10 c = true ∨ c = '-') :
    start? c = some ([], number [c]) := by
  have hne : ∀ d, (isDigitIn 10 d || d == '-') = false → c ≠ d := by
    rintro d hd rfl
    rw [Bool.or_eq_false_iff, beq_eq_false_iff_ne] at hd
    rcases h with hdigit | rfl
    · exact Bool.noConfusion (hdigit.symm.trans hd.1)
    · exact hd.2 rfl
  have hblank : ¬isBlank c = true := by
    simp only [isBlank, Bool.or_eq_true, beq_iff_eq, not_or]
    exact ⟨⟨⟨hne _ (by decide), hne _ (by decide)⟩, hne _ (by decide)⟩, hne _ (by decide)⟩
  have hnumeric : (isDigitIn 10 c || c == '-') = true := by
    rwa [Bool.or_eq_true, beq_iff_eq]
  rw [start?, if_neg hblank, if_neg (hne _ (by decide)), if_neg (hne _ (by decide)),
    if_neg (hne _ (by decide)), if_neg (hne _ (by decide)), if_neg (hne _ (by decide)),
    if_neg (hne _ (by decide)), if_neg (hne _ (by decide)), if_neg (hne _ (by decide)),
    if_neg (hne _ (by decide)), if_neg (hne _ (by decide)), if_pos hnumeric]

/-- In a number, the characters of numbers pile up. -/
theorem run_numeric {cs : List Char} (h : ∀ c, c ∈ cs → isNumeric c = true) (taken : List Char) :
    (number taken).run cs = some ([], number (cs.reverse ++ taken)) := by
  induction cs generalizing taken with
  | nil => rfl
  | cons c cs ih =>
    obtain ⟨hfirst, hrest⟩ := List.forall_mem_cons.mp h
    rw [run, step, if_pos hfirst]
    show ((number (c :: taken)).run cs).map _ = _
    rw [ih hrest, List.reverse_cons, List.append_assoc]
    rfl

/-- At the end of its spelling, a number may still go on. -/
theorem run_isNumber {cs : List Char} (h : IsNumber cs) :
    between.run cs = some ([], number cs.reverse) := by
  obtain ⟨n, hspelled, -⟩ := h
  obtain ⟨hnumeric, c, tail, hfirst, rfl⟩ := NumberLiteral.isNumeric_of_spelled hspelled
  rw [run, step, start?_of_numeric hfirst]
  show ((number [c]).run tail).map _ = _
  rw [run_numeric fun d hd => hnumeric d (List.mem_cons_of_mem c hd), List.reverse_cons]
  rfl

theorem numberToken?_of_isNumber {cs : List Char} (h : IsNumber cs) :
    numberToken? cs.reverse = some (.number cs) := by
  obtain ⟨n, hspelled, hfits⟩ := h
  rw [numberToken?, List.reverse_reverse, (NumberLiteral.read?_iff cs n).mpr hspelled]
  dsimp only
  rw [hfits]
  rfl

/-- A number that the next character ends. -/
theorem tokens?_number {literal cs : List Char} (h : IsNumber literal)
    (hend : ∀ c, cs.head? = some c → isNumeric c = false) :
    (number literal.reverse).tokens? cs =
      (between.tokens? cs).map fun us => .number literal :: us := by
  have htoken := numberToken?_of_isNumber h
  cases cs with
  | nil =>
    simp only [tokens?, run, Option.bind_some, finish, htoken]
    rfl
  | cons c cs =>
    have hc : ¬isNumeric c = true := by
      rw [hend c rfl]
      exact Bool.false_ne_true
    have hstep : (number literal.reverse).step c =
        (start? c).map fun p => (.number literal :: p.1, p.2) := by
      rw [step, if_neg hc, htoken]
      cases start? c <;> rfl
    have hstart : between.step c = start? c := rfl
    simp only [tokens?, run, hstep, hstart]
    cases start? c with
    | none => rfl
    | some p =>
      dsimp only [Option.map_some]
      cases p.2.run cs with
      | none => rfl
      | some q =>
        dsimp only [Option.map_some, Option.bind_some]
        rw [Option.map_map]
        rfl

theorem not_isNumeric_of_blank {c : Char} (h : isBlank c = true) : isNumeric c = false := by
  simp only [isBlank, Bool.or_eq_true, beq_iff_eq] at h
  rcases h with ((rfl | rfl) | rfl) | rfl <;> rfl

end Lexer

/-- The first character of a spelling, where a number ends. -/
theorem head_of_written {ts : List Token} {cs : List Char} (h : Written ts cs)
    (hends : ∀ t, ts.head? = some t → t.EndsNumber) :
    ∀ c, cs.head? = some c → Lexer.isNumeric c = false := by
  intro c hc
  cases h with
  | blanks hbs => exact Lexer.not_isNumeric_of_blank (hbs c (List.mem_of_head? hc))
  | @token bs text rest t ts hbs ht hts =>
    cases bs with
    | cons b bs =>
      cases hc
      exact Lexer.not_isNumeric_of_blank (hbs c List.mem_cons_self)
    | nil =>
      rcases hends t rfl with rfl | rfl | rfl
      all_goals
        rw [show text = _ from ht] at hc
        cases hc
        rfl

/-- **Every spelling of a row is cut into its tokens.** -/
theorem ofChars?_of_written {ts : List Token} {cs : List Char} (h : Written ts cs)
    (hparted : Parted ts) : Token.ofChars? cs = some ts := by
  rw [Lexer.ofChars?_eq_tokens?]
  induction h with
  | blanks hbs =>
    rw [Lexer.tokens?, Lexer.run_blanks hbs]
    rfl
  | @token bs text rest t ts hbs ht hts ih =>
    have hmore := ih hparted.tail
    rw [List.append_assoc, Lexer.tokens?_append (Lexer.run_blanks hbs)]
    cases hnumber : t.isNumber with
    | false =>
      rw [Lexer.tokens?_append (Lexer.run_spells ht hnumber), hmore]
      rfl
    | true =>
      cases t with
      | number literal =>
        obtain ⟨rfl, hliteral⟩ := ht
        have hends : ∀ u, ts.head? = some u → u.EndsNumber := fun u hu =>
          (List.isChain_cons.mp hparted).1 u hu rfl
        rw [Lexer.tokens?_append (Lexer.run_isNumber hliteral),
          Lexer.tokens?_number hliteral (head_of_written hts hends), hmore]
        rfl
      | openBrace | closeBrace | openBracket | closeBracket | colon | comma | null | bool | string =>
        cases hnumber

end ObservableTree
