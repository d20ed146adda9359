import Mathlib.Data.List.Basic
import ObservableTree.Proofs.Document

/-!
# The canonical text of an address

The text of an address is described without the code that writes it, and it is shown to reach the
reader whole, however it is handed to the buffer piece by piece:

* `LongestZeroRun` — the longest run of zero groups, the first on a tie, and
  `longestZeroRun_longestRun` — the code finds it;
* `Address.Canonical` — the canonical text, shape by shape, and `canonical_iff` — the code writes it;
* `AddressText.foldlM_append?` — pieces that fit together are all kept;
* `toText_complete` — the buffer holds the whole text, which is short, plain and read back.
-/

namespace ObservableTree

/-! ### Runs of zero groups -/

/-- There are `n` zero groups in a row, the first of them behind `i` groups. -/
def ZeroRun (gs : List UInt16) (i n : Nat) : Prop := (gs.drop i).take n = List.replicate n 0

/-- The longest run of zero groups, the first one on a tie. -/
structure LongestZeroRun (gs : List UInt16) (i n : Nat) : Prop where
  isRun : ZeroRun gs i n
  longest : ∀ j m, ZeroRun gs j m → m ≤ n
  first : ∀ j, ZeroRun gs j n → i ≤ j

theorem zerosInFront_cons_zero (gs : List UInt16) :
    zerosInFront (0 :: gs) = zerosInFront gs + 1 := rfl

theorem zerosInFront_cons_of_ne {g : UInt16} (hg : g ≠ 0) (gs : List UInt16) :
    zerosInFront (g :: gs) = 0 := by
  rw [zerosInFront, List.takeWhile_cons_of_neg (by rwa [beq_iff_eq])]
  rfl

/-- A run holds every shorter one that starts with it. -/
theorem ZeroRun.mono {gs : List UInt16} {i m n : Nat} (h : ZeroRun gs i n) (hle : m ≤ n) :
    ZeroRun gs i m := by
  have htake := congrArg (List.take m) h
  rwa [List.take_take, List.take_replicate, Nat.min_eq_left hle] at htake

theorem zeroRun_front_iff (gs : List UInt16) (n : Nat) :
    ZeroRun gs 0 n ↔ n ≤ zerosInFront gs := by
  induction gs generalizing n with
  | nil =>
    cases n with
    | zero => exact iff_of_true rfl (Nat.le_refl 0)
    | succ n => exact iff_of_false (fun h => nomatch h) (Nat.not_succ_le_zero n)
  | cons g gs ih =>
    cases n with
    | zero => exact iff_of_true rfl (Nat.zero_le _)
    | succ n =>
      show g :: gs.take n = 0 :: List.replicate n 0 ↔ _
      by_cases hg : g = 0
      · subst hg
        rw [zerosInFront_cons_zero, Nat.succ_le_succ_iff, ← ih n, List.cons.injEq]
        exact and_iff_right rfl
      · rw [zerosInFront_cons_of_ne hg]
        exact iff_of_false (fun h => hg (List.cons.inj h).1) (Nat.not_succ_le_zero n)

/-- **The code finds the longest run.** -/
theorem longestZeroRun_longestRun (gs : List UInt16) :
    LongestZeroRun gs (longestRun gs).1 (longestRun gs).2 := by
  induction gs with
  | nil =>
    refine ⟨rfl, fun j m h => ?_, fun j _ => Nat.zero_le j⟩
    have hfront : ZeroRun [] 0 m := by
      rwa [ZeroRun, List.drop_nil] at h
    exact (zeroRun_front_iff [] m).mp hfront
  | cons g gs ih =>
    rw [longestRun]
    by_cases hle : (longestRun gs).2 ≤ zerosInFront (g :: gs)
    · -- the run in front is at least as long as every later one
      rw [if_pos hle]
      refine ⟨(zeroRun_front_iff _ _).mpr (Nat.le_refl _), fun j m h => ?_, fun j _ => Nat.zero_le j⟩
      cases j with
      | zero => exact (zeroRun_front_iff _ m).mp h
      | succ j => exact Nat.le_trans (ih.longest j m h) hle
    · rw [if_neg hle]
      refine ⟨ih.isRun, fun j m h => ?_, fun j h => ?_⟩
      · cases j with
        | zero => exact Nat.le_trans ((zeroRun_front_iff _ m).mp h) (Nat.le_of_not_le hle)
        | succ j => exact ih.longest j m h
      · cases j with
        | zero => exact absurd ((zeroRun_front_iff _ _).mp h) hle
        | succ j => exact Nat.succ_le_succ (ih.first j h)

theorem LongestZeroRun.unique {gs : List UInt16} {i j m n : Nat} (h : LongestZeroRun gs i m)
    (h' : LongestZeroRun gs j n) : i = j ∧ m = n := by
  have hlength : m = n := Nat.le_antisymm (h'.longest i m h.isRun) (h.longest j n h'.isRun)
  subst hlength
  exact ⟨Nat.le_antisymm (h.first j h'.isRun) (h'.first i h.isRun), rfl⟩

/-! ### The canonical text, shape by shape -/

/-- Groups in base sixteen with colons between them. -/
def hexRow (gs : List UInt16) : List Char :=
  List.intercalate [':'] (gs.map fun g => Nat.toDigits 16 g.toNat)

/-- Octets in base ten with points between them. -/
def dottedRow (os : List UInt8) : List Char :=
  List.intercalate ['.'] (os.map fun o => Nat.toDigits 10 o.toNat)

theorem colonGroups_eq_hexRow (gs : List UInt16) : colonGroups gs = hexRow gs := by
  induction gs with
  | nil => rfl
  | cons g gs ih =>
    cases gs with
    | nil => exact List.intercalate_singleton.symm
    | cons h gs =>
      show numeral 16 g.toNat ++ ':' :: colonGroups (h :: gs) = _
      rw [ih]
      simp only [hexRow, List.map_cons, List.intercalate_cons_cons, List.append_assoc]
      rfl

/-- Two groups in dotted decimal are their four octets. -/
theorem dottedGroups_eq (high low : UInt16) :
    dottedGroup high ++ '.' :: dottedGroup low =
      dottedRow (Address.groupOctets high ++ Address.groupOctets low) := by
  have hhigh : ∀ g : UInt16, (g >>> 8).toUInt8.toNat = (g >>> 8).toNat := by
    intro g
    have hg : g.toNat < 65536 := g.toNat_lt
    rw [UInt16.toNat_toUInt8, high_toNat]
    exact Nat.mod_eq_of_lt (by omega)
  have hlow : ∀ g : UInt16, g.toUInt8.toNat = (g &&& 255).toNat := by
    intro g
    rw [UInt16.toNat_toUInt8, low_toNat]
  show _ = dottedRow [(high >>> 8).toUInt8, high.toUInt8, (low >>> 8).toUInt8, low.toUInt8]
  simp only [dottedRow, List.map_cons, List.map_nil, List.intercalate_cons_cons,
    List.intercalate_singleton, hhigh, hlow, dottedGroup, numeral, List.append_assoc,
    List.cons_append, List.nil_append]

namespace Address

/-- The six leading groups of an address that wraps a 32-bit one. -/
def wrapping : List UInt16 := [0, 0, 0, 0, 0, 65535]

/-- The canonical text of an address. One that wraps a 32-bit address has that part in dotted
decimal. In any other, the longest run of zero groups is left out between two colons, unless it is a
single group. -/
inductive Canonical (a : Address) : List Char → Prop where
  | dotted (hwraps : a.groups.take 6 = wrapping) :
      Canonical a ("::ffff:".toList ++ dottedRow (a.octets.drop 12))
  | compressed (front back : List UInt16) (n : Nat) (hplain : a.groups.take 6 ≠ wrapping)
      (hsplit : a.groups = front ++ List.replicate n 0 ++ back)
      (hrun : LongestZeroRun a.groups front.length n) (hlong : 2 ≤ n) :
      Canonical a (hexRow front ++ "::".toList ++ hexRow back)
  | plain (hplain : a.groups.take 6 ≠ wrapping) (hnone : ∀ i, ¬ZeroRun a.groups i 2) :
      Canonical a (hexRow a.groups)

/-- The last two groups of an address that wraps a 32-bit one. -/
theorem wrapped?_of_take {a : Address} (h : a.groups.take 6 = wrapping) :
    ∃ high low, a.groups = [0, 0, 0, 0, 0, 65535, high, low] ∧
      a.wrapped? = some (high, low) := by
  have hlength : (a.groups.drop 6).length = 2 := by
    rw [List.length_drop, a.length_groups]
  obtain ⟨high, low, hdrop⟩ := List.length_eq_two.mp hlength
  have hgroups : a.groups = [0, 0, 0, 0, 0, 65535, high, low] := by
    rw [← List.take_append_drop 6 a.groups, h, hdrop]
    rfl
  refine ⟨high, low, hgroups, ?_⟩
  simp only [wrapped?, hgroups]

theorem wrapped?_of_take_ne {a : Address} (h : a.groups.take 6 ≠ wrapping) :
    a.wrapped? = none := by
  cases hwrapped : a.wrapped? with
  | none => rfl
  | some p => exact absurd (by rw [groups_of_wrapped? hwrapped]; rfl) h

/-- The characters of an address that wraps a 32-bit one. -/
theorem chars_of_take {a : Address} (h : a.groups.take 6 = wrapping) :
    a.chars = "::ffff:".toList ++ dottedRow (a.octets.drop 12) := by
  obtain ⟨high, low, hgroups, hwrapped⟩ := wrapped?_of_take h
  have hoctets : a.octets.drop 12 = groupOctets high ++ groupOctets low := by
    rw [octets, hgroups]
    rfl
  rw [chars, hwrapped, hoctets, ← dottedGroups_eq]
  exact List.append_assoc _ _ _

/-- The characters of any other address. -/
theorem chars_of_take_ne {a : Address} (h : a.groups.take 6 ≠ wrapping) :
    a.chars =
      if 1 < (longestRun a.groups).2 then
        hexRow (a.groups.take (longestRun a.groups).1) ++ "::".toList ++
          hexRow (a.groups.drop ((longestRun a.groups).1 + (longestRun a.groups).2))
      else hexRow a.groups := by
  rw [chars, wrapped?_of_take_ne h]
  simp only [colonGroups_eq_hexRow]
  rfl

/-- **The text is the canonical one.** -/
theorem canonical_iff (a : Address) (cs : List Char) : a.Canonical cs ↔ cs = a.chars := by
  constructor
  · intro h
    cases h with
    | dotted hwraps => exact (chars_of_take hwraps).symm
    | compressed front back n hplain hsplit hrun hlong =>
      obtain ⟨hstart, hlength⟩ := hrun.unique (longestZeroRun_longestRun a.groups)
      have hfront : a.groups.take front.length = front := by
        rw [hsplit, List.append_assoc, List.take_left]
      have hback : a.groups.drop (front.length + n) = back := by
        have hskip : (front ++ List.replicate n (0 : UInt16)).length = front.length + n := by
          rw [List.length_append, List.length_replicate]
        rw [hsplit, ← hskip, List.drop_left]
      rw [chars_of_take_ne hplain, ← hstart, ← hlength, if_pos (show 1 < n from hlong), hfront, hback]
    | plain hplain hnone =>
      have hshort : ¬1 < (longestRun a.groups).2 := fun hlong =>
        hnone _ ((longestZeroRun_longestRun a.groups).isRun.mono hlong)
      rw [chars_of_take_ne hplain, if_neg hshort]
  · rintro rfl
    by_cases hwraps : a.groups.take 6 = wrapping
    · rw [chars_of_take hwraps]
      exact .dotted hwraps
    · rw [chars_of_take_ne hwraps]
      by_cases hlong : 1 < (longestRun a.groups).2
      · rw [if_pos hlong]
        have hsplit := longestRun_split a.groups
        have hrun := longestZeroRun_longestRun a.groups
        have hstart : (a.groups.take (longestRun a.groups).1).length = (longestRun a.groups).1 := by
          have hlength := congrArg List.length hrun.isRun
          rw [List.length_take, List.length_drop, List.length_replicate] at hlength
          rw [List.length_take]
          omega
        rw [← hstart] at hrun
        exact .compressed _ _ _ hwraps hsplit hrun hlong
      · rw [if_neg hlong]
        refine .plain hwraps fun i h => hlong ?_
        exact (longestZeroRun_longestRun a.groups).longest i 2 h

end Address

/-! ### Pieces -/

namespace AddressText

theorem ext_bytes {t u : AddressText} (h : t.bytes = u.bytes) : t = u := by
  cases t
  cases u
  cases h
  rfl

theorem append?_eq {t : AddressText} {s : String}
    (h : t.length + s.utf8ByteSize ≤ addressTextCapacity) :
    ∃ u, t.append? s = some u ∧ u.bytes = t.bytes ++ s.toUTF8 := by
  obtain ⟨u, hu⟩ := Option.isSome_iff_exists.mp ((append?_isSome_iff t s).mpr h)
  refine ⟨u, hu, ?_⟩
  unfold append? at hu
  split at hu
  · rw [← Option.some.inj hu]
  · cases hu

theorem length_of_bytes {t u : AddressText} {s : String} (h : u.bytes = t.bytes ++ s.toUTF8) :
    u.length = t.length + s.utf8ByteSize := by
  rw [length, h, ByteArray.size_append, String.toUTF8_eq_toByteArray, String.size_toByteArray]
  rfl

/-- **No piece is dropped** of a text that fits, into whatever pieces it is cut. -/
theorem foldlM_append? (pieces : List String) {t : AddressText}
    (h : t.length + (String.join pieces).utf8ByteSize ≤ addressTextCapacity) :
    ∃ u, pieces.foldlM append? t = some u ∧ u.bytes = t.bytes ++ (String.join pieces).toUTF8 := by
  induction pieces generalizing t with
  | nil => exact ⟨t, rfl, ByteArray.append_empty.symm⟩
  | cons s pieces ih =>
    rw [String.join_cons, String.utf8ByteSize_append] at h
    obtain ⟨u, hu, hbytes⟩ := append?_eq (t := t) (s := s) (by omega)
    have hlength := length_of_bytes hbytes
    obtain ⟨v, hv, hall⟩ := ih (t := u) (by omega)
    refine ⟨v, ?_, ?_⟩
    · rw [List.foldlM_cons, hu]
      exact hv
    · rw [hall, hbytes, String.join_cons]
      simp only [String.toUTF8_eq_toByteArray, String.toByteArray_append, ByteArray.append_assoc]

end AddressText

namespace Address

theorem toText_bytes (a : Address) : a.toText.bytes = a.text.toUTF8 :=
  ByteArray.ext (Array.toList_inj.mp (octets_toText a))

/-- The bytes in the buffer spell the text. -/
theorem text_toText (a : Address) : a.toText.text = a.text := by
  rw [AddressText.text, toText_bytes, fromUTF8?_toUTF8]
  rfl

/-- However the text is cut into pieces, the buffer takes them all. -/
theorem foldlM_toText (a : Address) {pieces : List String} (h : String.join pieces = a.text) :
    pieces.foldlM AddressText.append? .empty = some a.toText := by
  have hfits : AddressText.empty.length + (String.join pieces).utf8ByteSize ≤
      addressTextCapacity := by
    have hlength := chars_length_le a
    rw [h, text_utf8ByteSize]
    show 0 + a.chars.length ≤ 45
    omega
  obtain ⟨u, hu, hbytes⟩ := AddressText.foldlM_append? pieces hfits
  have hempty : AddressText.empty.bytes = ByteArray.empty := rfl
  rw [hu]
  refine congrArg some (AddressText.ext_bytes ?_)
  rw [hbytes, h, hempty, ByteArray.empty_append, toText_bytes]

/-- Between quotes, the text is the JSON string of itself. -/
theorem readJson?_quoted (a : Address) :
    View.readJson? (utf8 ("\"" ++ a.text ++ "\"")) = some (.string a.text) := by
  have hchars : ("\"" ++ a.text ++ "\"").toList =
      [Token.string a.text].flatMap Token.spelling := by
    rw [String.toList_append, String.toList_append, List.flatMap_singleton]
    rfl
  have htokens : Token.ofChars? ("\"" ++ a.text ++ "\"").toList = some [.string a.text] := by
    rw [hchars]
    refine Token.ofChars?_spellings fun t ht => ?_
    rw [List.mem_singleton.mp ht]
    exact View.isClosed_text a
  rw [View.readJson?, readUtf8?_utf8, Option.bind_some, Json.ofChars?, htokens]
  rfl

/-- **The text of an address is complete and is read back.** -/
theorem toText_complete (a : Address) :
    (∀ cs, a.Canonical cs ↔ cs = a.text.toList) ∧
    (a.toText.text = a.text ∧ a.toText.octets = utf8 a.text) ∧
    (∀ pieces, String.join pieces = a.text →
      pieces.foldlM AddressText.append? .empty = some a.toText) ∧
    (a.toText.length ≤ 39 ∧ 39 ≤ addressTextCapacity) ∧
    (∀ c, c ∈ a.text.toList → IsPlain c) ∧
    View.readJson? (utf8 ("\"" ++ a.text ++ "\"")) = some (.string a.text) ∧
    parse? a.toText.text.toList = some a ∧
    ∀ b : Address, b.toText.octets = a.toText.octets → b = a := by
  have hparse : ∀ b : Address, parse? b.toText.text.toList = some b := by
    intro b
    rw [text_toText, text, String.toList_ofList]
    exact parse?_chars b
  refine ⟨fun cs => ?_, ⟨text_toText a, octets_toText a⟩, fun _ => foldlM_toText a,
    ⟨?_, by decide⟩, fun c hc => ?_, readJson?_quoted a, hparse a, fun b hsame => ?_⟩
  · rw [canonical_iff, text, String.toList_ofList]
  · have hlength := chars_length_le a
    rw [AddressText.length, toText_bytes, String.toUTF8_eq_toByteArray, String.size_toByteArray]
    rwa [← text_utf8ByteSize] at hlength
  · rw [text, String.toList_ofList] at hc
    exact isPlain_of_mem_chars hc
  · -- equal texts are read back as one address
    have hbytes : b.toText = a.toText :=
      AddressText.ext_bytes (ByteArray.ext (Array.toList_inj.mp hsame))
    have hread := hparse b
    rw [hbytes, hparse a] at hread
    exact (Option.some.inj hread).symm

/-- The text of an address that wraps a 32-bit one, handed to the buffer octet by octet. -/
theorem toText_complete_of_wrapping :
    let a : Address := ofGroups 0 0 0 0 0 65535 49320 257
    let pieces := ["::ffff:", "192", ".", "168", ".", "1", ".", "1"]
    String.join pieces = a.text ∧
      pieces.foldlM AddressText.append? .empty = some a.toText ∧ a.toText.text = "::ffff:192.168.1.1" ∧
      parse? "::ffff:192.168.1.1".toList = some a := by
  intro a pieces
  have hpieces : String.join pieces = a.text := by decide +kernel
  obtain ⟨-, ⟨htext, -⟩, hfold, -, -, -, hparse, -⟩ := toText_complete a
  have hspelled : a.toText.text = "::ffff:192.168.1.1" := by
    rw [htext]
    decide +kernel
  rw [hspelled] at hparse
  exact ⟨hpieces, hfold pieces hpieces, hspelled, hparse⟩

end Address

end ObservableTree
