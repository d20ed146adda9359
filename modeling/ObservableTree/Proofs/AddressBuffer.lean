import ObservableTree.Address.Buffer
import ObservableTree.Proofs.AddressText
import ObservableTree.Text

/-!
# The room that an address needs

The buffer for the text of an address is counted in bytes, and a text that does not fit is dropped
as a whole. No address is dropped:

* `IsPlain` — the characters of an address, each of which is one byte;
* `isPlain_of_mem_chars` — a text has no others;
* `chars_length_le` — and at most 39 of them;
* `octets_toText` — hence the buffer holds the whole text.
-/

namespace ObservableTree

namespace Address

/-! ### Characters -/

/-- The characters of an address: digits in base sixteen without capitals, colons and points. -/
def IsPlain (c : Char) : Prop :=
  '0' ≤ c ∧ c ≤ '9' ∨ 'a' ≤ c ∧ c ≤ 'f' ∨ c = ':' ∨ c = '.'

instance : DecidablePred IsPlain := fun c =>
  inferInstanceAs (Decidable ('0' ≤ c ∧ c ≤ '9' ∨ 'a' ≤ c ∧ c ≤ 'f' ∨ c = ':' ∨ c = '.'))

theorem isPlain_digitChar {d : Nat} (h : d < 16) : IsPlain (Nat.digitChar d) := by
  interval_cases d <;> decide

theorem isPlain_of_mem_numeral {base n : Nat} (hbase : 1 < base) (hsmall : base ≤ 16) {c : Char}
    (h : c ∈ numeral base n) : IsPlain c := by
  obtain ⟨d, hd, rfl⟩ := mem_numeral hbase h
  exact isPlain_digitChar (Nat.lt_of_lt_of_le hd hsmall)

theorem isPlain_of_mem_rowChars {isFirst : Bool} {gs : List UInt16} {c : Char}
    (h : c ∈ rowChars isFirst gs) : IsPlain c := by
  induction gs generalizing isFirst with
  | nil => cases h
  | cons g gs ih =>
    rw [rowChars, List.mem_append, List.mem_append] at h
    rcases h with hcolon | hdigit | hrest
    · cases isFirst with
      | true => cases hcolon
      | false =>
        rw [List.mem_singleton.mp hcolon]
        decide
    · exact isPlain_of_mem_numeral (by decide) (by decide) hdigit
    · exact ih hrest

theorem isPlain_of_mem_colonGroups {gs : List UInt16} {c : Char} (h : c ∈ colonGroups gs) :
    IsPlain c := by
  rw [colonGroups_eq] at h
  exact isPlain_of_mem_rowChars h

theorem isPlain_of_mem_dottedGroup {g : UInt16} {c : Char} (h : c ∈ dottedGroup g) :
    IsPlain c := by
  rw [dottedGroup, List.mem_append, List.mem_cons] at h
  rcases h with hhigh | rfl | hlow
  · exact isPlain_of_mem_numeral (by decide) (by decide) hhigh
  · decide
  · exact isPlain_of_mem_numeral (by decide) (by decide) hlow

theorem isPlain_of_mem_chars {a : Address} {c : Char} (h : c ∈ a.chars) : IsPlain c := by
  rw [chars] at h
  cases hwrapped : a.wrapped? with
  | some p =>
    have hmark : [':', ':', 'f', 'f', 'f', 'f', ':'].all IsPlain = true := by decide
    rw [hwrapped, List.mem_append, List.mem_append] at h
    rcases h with (hfront | hhigh) | hrest
    · exact of_decide_eq_true (List.all_eq_true.mp hmark c hfront)
    · exact isPlain_of_mem_dottedGroup hhigh
    rcases List.mem_cons.mp hrest with rfl | hlow
    · decide
    · exact isPlain_of_mem_dottedGroup hlow
  | none =>
    have hcolons : [':', ':'].all IsPlain = true := by decide
    rw [hwrapped] at h
    dsimp only at h
    split at h
    · rw [List.mem_append, List.mem_append] at h
      rcases h with (hfront | hmiddle) | hback
      · exact isPlain_of_mem_colonGroups hfront
      · exact of_decide_eq_true (List.all_eq_true.mp hcolons c hmiddle)
      · exact isPlain_of_mem_colonGroups hback
    · exact isPlain_of_mem_colonGroups h

/-! ### Length -/

theorem rowChars_length_le (gs : List UInt16) : (rowChars false gs).length ≤ 5 * gs.length := by
  induction gs with
  | nil => exact Nat.le_refl 0
  | cons g gs ih =>
    have hone := hex_length_le g
    rw [rowChars, List.length_append, List.length_append, List.length_cons]
    show 1 + _ ≤ _
    omega

theorem colonGroups_length_le (gs : List UInt16) :
    (colonGroups gs).length ≤ 5 * gs.length - 1 := by
  rw [colonGroups_eq]
  cases gs with
  | nil => exact Nat.le_refl 0
  | cons g gs =>
    have hfirst := hex_length_le g
    have hrest := rowChars_length_le gs
    rw [rowChars, List.length_append, List.length_append, List.length_cons]
    show 0 + _ ≤ _
    omega

theorem dottedGroup_length_le (g : UInt16) : (dottedGroup g).length ≤ 7 := by
  have hg : g.toNat < 65536 := g.toNat_lt
  have hhigh : (numeral 10 (g >>> 8).toNat).length ≤ 3 := by
    apply numeral_length_le (by decide) (by decide)
    rw [high_toNat]
    show g.toNat / 256 < 1000
    omega
  have hlow : (numeral 10 (g &&& 255).toNat).length ≤ 3 := by
    apply numeral_length_le (by decide) (by decide)
    rw [low_toNat]
    show g.toNat % 256 < 1000
    omega
  rw [dottedGroup, List.length_append, List.length_cons]
  omega

/-- The longest text has eight groups of four digits. -/
theorem chars_length_le (a : Address) : a.chars.length ≤ 39 := by
  rw [chars]
  cases hwrapped : a.wrapped? with
  | some p =>
    have hhigh := dottedGroup_length_le p.1
    have hlow := dottedGroup_length_le p.2
    dsimp only
    simp only [List.length_append, List.length_cons, List.length_nil]
    omega
  | none =>
    dsimp only
    split
    · rename_i hrun
      have hsplit := congrArg List.length (longestRun_split a.groups)
      rw [List.length_append, List.length_append, List.length_replicate, a.length_groups] at hsplit
      have hfront := colonGroups_length_le (a.groups.take (longestRun a.groups).1)
      have hback := colonGroups_length_le
        (a.groups.drop ((longestRun a.groups).1 + (longestRun a.groups).2))
      simp only [List.length_append, List.length_cons, List.length_nil]
      omega
    · have hall := colonGroups_length_le a.groups
      rwa [a.length_groups] at hall

/-! ### The buffer -/

theorem IsPlain.utf8Size_eq {c : Char} (h : IsPlain c) : c.utf8Size = 1 := by
  have hlast : c ≤ 'f' := by
    rcases h with ⟨-, hle⟩ | ⟨-, hle⟩ | rfl | rfl
    · exact Char.le_trans hle (by decide)
    · exact hle
    · decide
    · decide
  exact Char.utf8Size_eq_one_iff.mpr (UInt32.le_trans hlast (by decide))

theorem utf8ByteSize_plain {cs : List Char} (h : ∀ c, c ∈ cs → IsPlain c) :
    (String.ofList cs).utf8ByteSize = cs.length := by
  induction cs with
  | nil => rfl
  | cons c cs ih =>
    rw [String.ofList_cons, String.utf8ByteSize_append, String.utf8ByteSize_singleton,
      (h c List.mem_cons_self).utf8Size_eq, ih fun d hd => h d (List.mem_cons_of_mem c hd),
      List.length_cons, Nat.add_comm]

theorem text_utf8ByteSize (a : Address) : a.text.utf8ByteSize = a.chars.length :=
  utf8ByteSize_plain fun _ hc => isPlain_of_mem_chars hc

/-- **The buffer holds the whole text.** -/
theorem octets_toText (a : Address) : a.toText.octets = utf8 a.text := by
  have hfits : (AddressText.empty.bytes ++ a.text.toUTF8).size ≤ addressTextCapacity := by
    have hlength := chars_length_le a
    have hsize := text_utf8ByteSize a
    rw [ByteArray.size_append, String.toUTF8_eq_toByteArray, String.size_toByteArray, hsize]
    show 0 + a.chars.length ≤ 45
    omega
  rw [toText, AddressText.append?, dif_pos hfits]
  show (ByteArray.empty ++ a.text.toUTF8).data.toList = _
  rw [ByteArray.empty_append]
  rfl

end Address

end ObservableTree
