import ObservableTree.Address.Parser
import ObservableTree.Address.Text
import ObservableTree.Proofs.Numeral

/-!
# Reading an address back

Every address is read back from its canonical text. The reader tries dotted octets in front of each
group and takes as many groups as it can, so the argument is about where it stops:

* `RowEnd` — the text in front of which a row of groups ends;
* `readGroups_rowChars` — a row of groups is read up to its end;
* `longestRun_split` — the groups that a pair of colons stands for are zeros;
* `octetGroup_split` — a group is put together from its octets;
* `parse?_chars` — hence the address is read back.
-/

namespace ObservableTree

/-! ### The end of a row -/

/-- The text in front of which a row of groups ends: none, or a pair of colons. -/
inductive RowEnd : List Char → Prop where
  | nil : RowEnd []
  | colons (cs : List Char) : RowEnd (':' :: ':' :: cs)

theorem NoDigitAhead.colon {base : Nat} (h : base = 10 ∨ base = 16) (cs : List Char) :
    NoDigitAhead base (':' :: cs) :=
  .cons (by rcases h with rfl | rfl <;> decide) cs

theorem NoDigitAhead.point {base : Nat} (h : base = 10 ∨ base = 16) (cs : List Char) :
    NoDigitAhead base ('.' :: cs) :=
  .cons (by rcases h with rfl | rfl <;> decide) cs

theorem RowEnd.noDigitAhead {base : Nat} (hbase : base = 10 ∨ base = 16) {cs : List Char}
    (h : RowEnd cs) : NoDigitAhead base cs := by
  cases h with
  | nil => exact .nil base
  | colons cs => exact .colon hbase _

theorem readDotted?_of_noDigitAhead {cs : List Char} (h : NoDigitAhead 10 cs) :
    readDotted? cs = none := by
  rw [readDotted?, readOctet?, readNumeral?_of_noDigitAhead h]
  rfl

theorem readGroup?_of_noDigitAhead {cs : List Char} (h : NoDigitAhead 16 cs) :
    readGroup? cs = none := by
  rw [readGroup?, readNumeral?_of_noDigitAhead h]
  rfl

/-- Behind a colon, or without one, the end of a row has no digit to offer. -/
theorem pastColon?_of_rowEnd {isFirst : Bool} {cs rest : List Char} (h : RowEnd cs)
    (hrest : pastColon? isFirst cs = some rest) :
    NoDigitAhead 10 rest ∧ NoDigitAhead 16 rest := by
  cases isFirst with
  | true =>
    rw [← Option.some.inj hrest]
    exact ⟨h.noDigitAhead (.inl rfl), h.noDigitAhead (.inr rfl)⟩
  | false =>
    cases h with
    | nil => cases hrest
    | colons cs =>
      rw [← Option.some.inj hrest]
      exact ⟨.colon (.inl rfl) cs, .colon (.inr rfl) cs⟩

theorem readGroups_of_rowEnd (limit : Nat) (isFirst : Bool) {cs : List Char} (h : RowEnd cs) :
    readGroups limit isFirst cs = ([], false, cs) := by
  cases limit with
  | zero => rfl
  | succ room =>
    have hnone : (pastColon? isFirst cs).bind readDotted? = none ∧
        (pastColon? isFirst cs).bind readGroup? = none := by
      cases hrest : pastColon? isFirst cs with
      | none => exact ⟨rfl, rfl⟩
      | some rest =>
        obtain ⟨hten, hsixteen⟩ := pastColon?_of_rowEnd h hrest
        exact ⟨readDotted?_of_noDigitAhead hten, readGroup?_of_noDigitAhead hsixteen⟩
    rw [readGroups, hnone.1, hnone.2, ite_self]

/-! ### One group -/

/-- Behind the decimal digits in front of a group there is no point. -/
theorem skip?_point_of_hex {ds rest : List Char} (hds : ∀ c, c ∈ ds → isDigitIn 16 c = true)
    (hten : NoDigitAhead 10 rest) (hpoint : rest.head? ≠ some '.') :
    skip? '.' ((ds ++ rest).dropWhile (isDigitIn 10)) = none := by
  induction ds with
  | nil =>
    cases rest with
    | nil => rfl
    | cons c rest =>
      have hc : isDigitIn 10 c ≠ true := by rw [hten c rfl]; exact Bool.false_ne_true
      have hne : c ≠ '.' := fun h => hpoint (by rw [h]; rfl)
      rw [List.nil_append, List.dropWhile_cons_of_neg hc]
      exact if_neg hne
  | cons c ds ih =>
    rw [List.cons_append]
    by_cases hc : isDigitIn 10 c = true
    · rw [List.dropWhile_cons_of_pos hc]
      exact ih fun d hd => hds d (List.mem_cons_of_mem c hd)
    · have hne : c ≠ '.' := by
        intro h
        have hdigit := hds c List.mem_cons_self
        rw [h] at hdigit
        exact absurd hdigit (by decide)
      rw [List.dropWhile_cons_of_neg hc]
      exact if_neg hne

theorem readOctet?_rest {cs rest : List Char} {n : UInt8} (h : readOctet? cs = some (n, rest)) :
    rest = cs.dropWhile (isDigitIn 10) := by
  simp only [readOctet?, readNumeral?] at h
  split at h
  · rename_i heq
    split at heq
    · cases heq
    · split at heq
      · cases heq
      · cases heq
        split at h
        · cases h
          rfl
        · cases h
  · cases h

/-- A group is not taken for dotted octets. -/
theorem readDotted?_hex {ds rest : List Char} (hds : ∀ c, c ∈ ds → isDigitIn 16 c = true)
    (hten : NoDigitAhead 10 rest) (hpoint : rest.head? ≠ some '.') :
    readDotted? (ds ++ rest) = none := by
  rw [readDotted?]
  cases hoctet : readOctet? (ds ++ rest) with
  | none => rfl
  | some p =>
    obtain ⟨n, cs⟩ := p
    rw [readOctet?_rest hoctet]
    show (skip? '.' ((ds ++ rest).dropWhile (isDigitIn 10))).bind _ = none
    rw [skip?_point_of_hex hds hten hpoint]
    rfl

theorem mem_hex {g : UInt16} {c : Char} (h : c ∈ numeral 16 g.toNat) : isDigitIn 16 c = true :=
  isDigitIn_of_mem_numeral (by decide) (by decide) h

theorem hex_length_le (g : UInt16) : (numeral 16 g.toNat).length ≤ 4 :=
  numeral_length_le (by decide) (by decide) g.toNat_lt

theorem readGroup?_hex (g : UInt16) {rest : List Char} (h : NoDigitAhead 16 rest) :
    readGroup? (numeral 16 g.toNat ++ rest) = some (g, rest) := by
  rw [readGroup?, readNumeral?_numeral true (by decide) (by decide) (hex_length_le g) h]
  show some (UInt16.ofNat g.toNat, rest) = _
  rw [UInt16.ofNat_toNat]

/-- The colon that stands in front of a group, unless it is the first of its row. -/
def colonUnless (isFirst : Bool) : List Char := if isFirst then [] else [':']

theorem pastColon?_colonUnless (isFirst : Bool) (cs : List Char) :
    pastColon? isFirst (colonUnless isFirst ++ cs) = some cs := by
  cases isFirst <;> rfl

/-- One group, with anything behind it that is neither a digit nor a point. -/
theorem readGroups_hex (room : Nat) (isFirst : Bool) (g : UInt16) {rest : List Char}
    (hten : NoDigitAhead 10 rest) (hsixteen : NoDigitAhead 16 rest)
    (hpoint : rest.head? ≠ some '.') :
    readGroups (room + 1) isFirst (colonUnless isFirst ++ (numeral 16 g.toNat ++ rest)) =
      (g :: (readGroups room false rest).1, (readGroups room false rest).2) := by
  have hdotted : readDotted? (numeral 16 g.toNat ++ rest) = none :=
    readDotted?_hex (fun _ hc => mem_hex hc) hten hpoint
  rw [readGroups, pastColon?_colonUnless, Option.bind_some, Option.bind_some, hdotted, ite_self,
    readGroup?_hex g hsixteen]

/-! ### A row of groups -/

/-- A row of groups, with a colon in front of each but the first. -/
def rowChars : (isFirst : Bool) → List UInt16 → List Char
  | _, [] => []
  | isFirst, g :: gs => colonUnless isFirst ++ (numeral 16 g.toNat ++ rowChars false gs)

theorem colonGroups_eq (gs : List UInt16) : colonGroups gs = rowChars true gs := by
  induction gs with
  | nil => rfl
  | cons g gs ih =>
    cases gs with
    | nil => exact (List.append_nil _).symm
    | cons h gs =>
      show numeral 16 g.toNat ++ ':' :: colonGroups (h :: gs) = _
      rw [ih]
      rfl

/-- Behind a group of a row comes another colon or the end of the row. -/
theorem rowChars_stops (gs : List UInt16) {rest : List Char} (h : RowEnd rest) :
    NoDigitAhead 10 (rowChars false gs ++ rest) ∧ NoDigitAhead 16 (rowChars false gs ++ rest) ∧
      (rowChars false gs ++ rest).head? ≠ some '.' := by
  cases gs with
  | nil =>
    refine ⟨h.noDigitAhead (.inl rfl), h.noDigitAhead (.inr rfl), ?_⟩
    cases h with
    | nil => exact nofun
    | colons cs => exact nofun
  | cons g gs =>
    have hcolon : rowChars false (g :: gs) ++ rest =
        ':' :: (numeral 16 g.toNat ++ rowChars false gs ++ rest) := rfl
    rw [hcolon]
    exact ⟨.colon (.inl rfl) _, .colon (.inr rfl) _, nofun⟩

/-- **A row is read up to its end.** -/
theorem readGroups_rowChars (limit : Nat) (isFirst : Bool) (gs : List UInt16) {rest : List Char}
    (hroom : gs.length ≤ limit) (h : RowEnd rest) :
    readGroups limit isFirst (rowChars isFirst gs ++ rest) = (gs, false, rest) := by
  induction gs generalizing limit isFirst with
  | nil => exact readGroups_of_rowEnd limit isFirst h
  | cons g gs ih =>
    cases limit with
    | zero => exact absurd hroom (Nat.not_succ_le_zero _)
    | succ room =>
      obtain ⟨hten, hsixteen, hpoint⟩ := rowChars_stops gs h
      have hone := readGroups_hex room isFirst g hten hsixteen hpoint
      rw [ih room false (Nat.le_of_succ_le_succ hroom)] at hone
      rw [rowChars, List.append_assoc, List.append_assoc]
      exact hone

/-! ### Zero groups -/

theorem take_zerosInFront (gs : List UInt16) :
    gs.take (zerosInFront gs) = List.replicate (zerosInFront gs) 0 := by
  induction gs with
  | nil => rfl
  | cons g gs ih =>
    by_cases hg : g = 0
    · have hmore : zerosInFront (g :: gs) = zerosInFront gs + 1 := by
        rw [zerosInFront, List.takeWhile_cons_of_pos (by rw [hg]; rfl)]
        rfl
      rw [hmore, List.take_succ_cons, List.replicate_succ, ih, hg]
    · have hnone : zerosInFront (g :: gs) = 0 := by
        rw [zerosInFront, List.takeWhile_cons_of_neg (by rwa [beq_iff_eq])]
        rfl
      rw [hnone]
      rfl

/-- The groups around the longest run, and the zeros in it, are all groups. -/
theorem longestRun_split (gs : List UInt16) :
    gs = gs.take (longestRun gs).1 ++ List.replicate (longestRun gs).2 0 ++
      gs.drop ((longestRun gs).1 + (longestRun gs).2) := by
  induction gs with
  | nil => rfl
  | cons g gs ih =>
    rw [longestRun]
    by_cases hle : (longestRun gs).2 ≤ zerosInFront (g :: gs)
    · rw [if_pos hle]
      show g :: gs = [] ++ _ ++ (g :: gs).drop (0 + _)
      rw [List.nil_append, Nat.zero_add, ← take_zerosInFront, List.take_append_drop]
    · rw [if_neg hle]
      show g :: gs = (g :: gs).take ((longestRun gs).1 + 1) ++ _ ++
        (g :: gs).drop ((longestRun gs).1 + 1 + (longestRun gs).2)
      rw [Nat.add_right_comm, List.take_succ_cons, List.drop_succ_cons, List.cons_append,
        List.cons_append, ← ih]

/-! ### Dotted octets -/

theorem readOctet?_numeral {n : Nat} (hn : n < 256) {rest : List Char}
    (h : NoDigitAhead 10 rest) :
    readOctet? (numeral 10 n ++ rest) = some (UInt8.ofNat n, rest) := by
  have hlength : (numeral 10 n).length ≤ 3 :=
    numeral_length_le (by decide) (by decide) (Nat.lt_trans hn (by decide))
  rw [readOctet?, readNumeral?_numeral false (by decide) (by decide) hlength h]
  exact if_pos hn

theorem high_toNat (g : UInt16) : (g >>> 8).toNat = g.toNat / 256 := by
  rw [UInt16.toNat_shiftRight]
  exact Nat.shiftRight_eq_div_pow g.toNat 8

theorem low_toNat (g : UInt16) : (g &&& 255).toNat = g.toNat % 256 := by
  rw [UInt16.toNat_and]
  exact Nat.and_two_pow_sub_one_eq_mod g.toNat 8

/-- A group is put together from its octets. -/
theorem octetGroup_split (g : UInt16) :
    Address.octetGroup (UInt8.ofNat (g >>> 8).toNat) (UInt8.ofNat (g &&& 255).toNat) = g := by
  have hg : g.toNat < 65536 := g.toNat_lt
  apply UInt16.toNat_inj.mp
  rw [Address.octetGroup, high_toNat, low_toNat]
  simp only [UInt16.toNat_or, UInt16.toNat_shiftLeft, UInt8.toNat_toUInt16, UInt8.toNat_ofNat']
  show (g.toNat / 256 % 256) <<< 8 % 65536 ||| g.toNat % 256 % 256 = g.toNat
  have hhigh : g.toNat / 256 % 256 = g.toNat / 256 := Nat.mod_eq_of_lt (by omega)
  have hlow : g.toNat % 256 < 256 := Nat.mod_lt _ (by decide)
  have hshift : (g.toNat / 256) <<< 8 = g.toNat / 256 * 256 := Nat.shiftLeft_eq _ 8
  have hfits : (g.toNat / 256) <<< 8 % 65536 = (g.toNat / 256) <<< 8 := by
    rw [hshift]
    omega
  rw [hhigh, hfits, Nat.mod_eq_of_lt hlow, ← Nat.shiftLeft_add_eq_or_of_lt hlow, hshift]
  omega

theorem readDotted?_dottedGroup (high low : UInt16) :
    readDotted? (dottedGroup high ++ '.' :: dottedGroup low) = some ((high, low), []) := by
  have hhigh : ∀ g : UInt16, (g >>> 8).toNat < 256 := by
    intro g
    have hg : g.toNat < 65536 := g.toNat_lt
    rw [high_toNat]
    omega
  have hlow : ∀ g : UInt16, (g &&& 255).toNat < 256 := by
    intro g
    rw [low_toNat]
    exact Nat.mod_lt _ (by decide)
  have hall : dottedGroup high ++ '.' :: dottedGroup low =
      numeral 10 (high >>> 8).toNat ++ '.' :: (numeral 10 (high &&& 255).toNat ++
        '.' :: (numeral 10 (low >>> 8).toNat ++ '.' :: (numeral 10 (low &&& 255).toNat ++ []))) := by
    rw [dottedGroup, dottedGroup, List.append_assoc, List.cons_append, List.append_nil]
  rw [hall, readDotted?, readOctet?_numeral (hhigh high) (.point (.inl rfl) _)]
  show (readOctet? _).bind _ = _
  rw [readOctet?_numeral (hlow high) (.point (.inl rfl) _)]
  show (readOctet? _).bind _ = _
  rw [readOctet?_numeral (hhigh low) (.point (.inl rfl) _)]
  show (readOctet? _).bind _ = _
  rw [readOctet?_numeral (hlow low) (.nil 10)]
  show some ((Address.octetGroup _ _, Address.octetGroup _ _), []) = _
  rw [octetGroup_split, octetGroup_split]

/-! ### Whole addresses -/

namespace Address

theorem groups_of_wrapped? {a : Address} {high low : UInt16} (h : a.wrapped? = some (high, low)) :
    a.groups = [0, 0, 0, 0, 0, 65535, high, low] := by
  unfold wrapped? at h
  split at h
  · rename_i heq
    cases h
    exact heq
  · cases h

/-- The dotted octets behind the one group that is not a zero. -/
theorem readGroups_wrapped (high low : UInt16) :
    readGroups 7 true
        (['f', 'f', 'f', 'f', ':'] ++ dottedGroup high ++ '.' :: dottedGroup low) =
      ([65535, high, low], true, []) := by
  have hten : NoDigitAhead 10 (':' :: (dottedGroup high ++ '.' :: dottedGroup low)) :=
    .colon (.inl rfl) _
  have hsixteen : NoDigitAhead 16 (':' :: (dottedGroup high ++ '.' :: dottedGroup low)) :=
    .colon (.inr rfl) _
  have hpoint : (':' :: (dottedGroup high ++ '.' :: dottedGroup low)).head? ≠ some '.' := nofun
  have hone := readGroups_hex 6 true 65535 hten hsixteen hpoint
  have hdotted : readGroups 6 false (':' :: (dottedGroup high ++ '.' :: dottedGroup low)) =
      ([high, low], true, []) := by
    have hpast : pastColon? false (':' :: (dottedGroup high ++ '.' :: dottedGroup low)) =
        some (dottedGroup high ++ '.' :: dottedGroup low) := rfl
    rw [readGroups, hpast, Option.bind_some, readDotted?_dottedGroup]
    rfl
  rw [hdotted] at hone
  exact hone

/-- A row before a pair of colons and one behind it, with zeros for the groups that are missing. -/
theorem parse?_of_colons {cs rest : List Char} {head tail : List UInt16} {dotted : Bool}
    (hhead : readGroups 8 true cs = (head, false, ':' :: ':' :: rest)) (hshort : head.length ≠ 8)
    (htail : readGroups (7 - head.length) true rest = (tail, dotted, [])) :
    parse? cs =
      ofGroups? (head ++ List.replicate (8 - head.length - tail.length) 0 ++ tail) := by
  rw [parse?, hhead]
  dsimp only
  rw [if_neg hshort, if_neg Bool.false_ne_true]
  simp only [htail]

theorem parse?_wrapped {a : Address} {high low : UInt16} (h : a.wrapped? = some (high, low)) :
    parse? ([':', ':', 'f', 'f', 'f', 'f', ':'] ++ dottedGroup high ++ '.' :: dottedGroup low) =
      some a := by
  have hhead := readGroups_of_rowEnd 8 true (.colons
    (['f', 'f', 'f', 'f', ':'] ++ dottedGroup high ++ '.' :: dottedGroup low))
  have hparse := parse?_of_colons hhead (by decide) (readGroups_wrapped high low)
  rw [← ofGroups?_groups a, groups_of_wrapped? h]
  exact hparse

theorem parse?_colonGroups (a : Address) : parse? (colonGroups a.groups) = some a := by
  have hall := readGroups_rowChars 8 true a.groups (Nat.le_of_eq a.length_groups) .nil
  rw [List.append_nil, ← colonGroups_eq] at hall
  rw [parse?, hall]
  dsimp only
  rw [if_pos a.length_groups, if_pos rfl, ofGroups?_groups]

/-- A pair of colons is read as the groups that are missing. -/
theorem parse?_compressed {a : Address} {front back : List UInt16} {n : Nat} (hn : 1 < n)
    (h : a.groups = front ++ List.replicate n 0 ++ back) :
    parse? (colonGroups front ++ [':', ':'] ++ colonGroups back) = some a := by
  have hlength : front.length + n + back.length = 8 := by
    rw [← a.length_groups, h, List.length_append, List.length_append, List.length_replicate]
  have hhead := readGroups_rowChars 8 true front (by omega) (.colons (colonGroups back))
  have htail := readGroups_rowChars (7 - front.length) true back (by omega) .nil
  rw [← colonGroups_eq] at hhead
  rw [List.append_nil, ← colonGroups_eq] at htail
  have hzeros : 8 - front.length - back.length = n := by omega
  have hjoin : colonGroups front ++ [':', ':'] ++ colonGroups back =
      colonGroups front ++ ':' :: ':' :: colonGroups back := List.append_assoc _ _ _
  rw [hjoin, parse?_of_colons hhead (by omega) htail, hzeros, ← h, ofGroups?_groups]

/-- **An address is read back from its text.** -/
theorem parse?_chars (a : Address) : parse? a.chars = some a := by
  rw [chars]
  cases hwrapped : a.wrapped? with
  | some p => exact parse?_wrapped hwrapped
  | none =>
    dsimp only
    by_cases hrun : 1 < (longestRun a.groups).2
    · rw [if_pos hrun]
      exact parse?_compressed hrun (longestRun_split a.groups)
    · rw [if_neg hrun]
      exact parse?_colonGroups a

end Address

end ObservableTree
