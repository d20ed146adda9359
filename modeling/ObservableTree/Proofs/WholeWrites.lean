import ObservableTree.Proofs.CanonicalText

/-!
# Writes as a whole

Strings are written behind the text of an address, and each of them is taken as a whole or not at
all, so the buffer always spells a text:

* `AddressText.Spells` — the bytes are those of a text, with what follows for all that is read off;
* `write_accepts_iff`, `write_of_rejected`, `Spells.write` — one string;
* `accepted`, `fitting` — the strings that were taken, and those that fit one behind the other;
  `accepted_eq`, `Spells.writeAll` — they are the same, and they are what the buffer spells;
* `writes_whole_or_none` — any strings behind any address.
-/

namespace ObservableTree

namespace AddressText

variable {t : AddressText} {text s : String}

/-! ### One string -/

/-- The bytes in the buffer are those of a text. -/
def Spells (t : AddressText) (text : String) : Prop := t.bytes = text.toUTF8

theorem Spells.octets (h : t.Spells text) : t.octets = utf8 text := by
  rw [AddressText.octets, h]
  rfl

theorem Spells.length (h : t.Spells text) : t.length = text.utf8ByteSize := by
  rw [AddressText.length, h, String.toUTF8_eq_toByteArray, String.size_toByteArray]

theorem Spells.fromUTF8? (h : t.Spells text) : String.fromUTF8? t.bytes = some text := by
  rw [h, fromUTF8?_toUTF8]

theorem Spells.text_eq (h : t.Spells text) : t.text = text := by
  rw [AddressText.text, h.fromUTF8?]
  rfl

theorem write_of_fits (h : t.length + s.utf8ByteSize ≤ addressTextCapacity) :
    ∃ u, t.write s = (u, true) ∧ u.bytes = t.bytes ++ s.toUTF8 := by
  obtain ⟨u, hu, hbytes⟩ := append?_eq h
  exact ⟨u, by rw [write, hu], hbytes⟩

theorem write_of_not_fits (h : ¬t.length + s.utf8ByteSize ≤ addressTextCapacity) :
    t.write s = (t, false) := by
  have hnone : t.append? s = none :=
    Option.not_isSome_iff_eq_none.mp fun hsome => h ((append?_isSome_iff t s).mp hsome)
  rw [write, hnone]

theorem write_accepts_iff :
    (t.write s).2 = true ↔ t.length + s.utf8ByteSize ≤ addressTextCapacity := by
  by_cases h : t.length + s.utf8ByteSize ≤ addressTextCapacity
  · obtain ⟨u, hwrite, -⟩ := write_of_fits h
    rw [hwrite]
    exact iff_of_true rfl h
  · rw [write_of_not_fits h]
    exact iff_of_false Bool.false_ne_true h

theorem write_of_rejected (h : (t.write s).2 = false) : (t.write s).1 = t := by
  rw [write_of_not_fits fun hfits => ?_]
  rw [write_accepts_iff.mpr hfits] at h
  cases h

theorem Spells.write (h : t.Spells text) (haccepted : (t.write s).2 = true) :
    (t.write s).1.Spells (text ++ s) := by
  obtain ⟨u, hwrite, hbytes⟩ := write_of_fits (write_accepts_iff.mp haccepted)
  rw [hwrite, Spells, hbytes, h]
  simp only [String.toUTF8_eq_toByteArray, String.toByteArray_append]

/-! ### Several strings -/

/-- The buffer after some strings were written one after another. -/
def writeAll (t : AddressText) (ss : List String) : AddressText :=
  ss.foldl (fun t s => (t.write s).1) t

/-- Those of the strings that were accepted, in order. -/
def accepted (t : AddressText) : List String → List String
  | [] => []
  | s :: ss => if (t.write s).2 then s :: (t.write s).1.accepted ss else (t.write s).1.accepted ss

/-- Those of some strings that fit, each as a whole, behind a number of bytes. -/
def fitting (used : Nat) : List String → List String
  | [] => []
  | s :: ss =>
    if used + s.utf8ByteSize ≤ addressTextCapacity then s :: fitting (used + s.utf8ByteSize) ss
    else fitting used ss

theorem accepted_eq (t : AddressText) (ss : List String) : t.accepted ss = fitting t.length ss := by
  induction ss generalizing t with
  | nil => rfl
  | cons s ss ih =>
    by_cases h : t.length + s.utf8ByteSize ≤ addressTextCapacity
    · obtain ⟨u, hwrite, hbytes⟩ := write_of_fits h
      rw [accepted, hwrite, if_pos rfl, fitting, if_pos h, ih, length_of_bytes hbytes]
    · rw [accepted, write_of_not_fits h, if_neg Bool.false_ne_true, fitting, if_neg h, ih]

theorem Spells.writeAll (h : t.Spells text) (ss : List String) :
    (t.writeAll ss).Spells (text ++ String.join (t.accepted ss)) := by
  induction ss generalizing t text with
  | nil =>
    rw [accepted, String.join_nil, String.append_empty]
    exact h
  | cons s ss ih =>
    rw [accepted]
    cases hwrite : (t.write s).2 with
    | true =>
      rw [if_pos rfl, String.join_cons, ← String.append_assoc]
      exact ih (h.write hwrite)
    | false =>
      -- a string that was refused leaves no trace
      rw [if_neg Bool.false_ne_true, write_of_rejected hwrite]
      have hsame : t.writeAll (s :: ss) = t.writeAll ss := by
        rw [AddressText.writeAll, List.foldl_cons, write_of_rejected hwrite]
        rfl
      rw [hsame]
      exact ih h

end AddressText

namespace Address

open AddressText (fitting)

theorem text_ne_empty (a : Address) : a.text ≠ "" := by
  intro hempty
  have hchars : a.chars = [] := by
    rw [← String.toList_ofList (l := a.chars), ← text, hempty]
    rfl
  have hnone : parse? [] = none := by decide
  have hread := parse?_chars a
  rw [hchars, hnone] at hread
  cases hread

/-- **Writes are all or nothing.** Whatever was written behind the text of an address, the buffer
spells that text and behind it the strings that fitted, one after another. Another string is taken
if there is room for all of its bytes, and otherwise nothing changes. -/
theorem writes_whole_or_none (a : Address) (ss : List String) :
    let t := a.toText.writeAll ss
    let text := a.text ++ String.join (a.toText.accepted ss)
    a.toText.accepted ss = fitting a.text.utf8ByteSize ss ∧
    (String.fromUTF8? t.bytes = some text ∧ t.text = text ∧ t.octets = utf8 text) ∧
    (t.length = t.text.utf8ByteSize ∧ t.length ≤ addressTextCapacity ∧
      (t.isEmpty = true ↔ t.text = "") ∧ t.text ≠ "") ∧
    ∀ s, ((t.write s).2 = true ↔ t.length + s.utf8ByteSize ≤ addressTextCapacity) ∧
      ((t.write s).2 = true → (t.write s).1.text = t.text ++ s) ∧
      ((t.write s).2 = false → (t.write s).1 = t ∧
        ∀ s', ((t.write s).1.write s').2 = true ↔
          t.length + s'.utf8ByteSize ≤ addressTextCapacity) := by
  intro t text
  have hstart : a.toText.Spells a.text := toText_bytes a
  have hspells : t.Spells text := hstart.writeAll ss
  have htext : t.text = text := hspells.text_eq
  refine ⟨?_, ⟨hspells.fromUTF8?, htext, hspells.octets⟩, ⟨?_, t.length_le, ?_, ?_⟩, fun s =>
    ⟨AddressText.write_accepts_iff, fun haccepted => ?_, fun hrejected => ?_⟩⟩
  · rw [AddressText.accepted_eq, hstart.length]
  · rw [htext, hspells.length]
  · rw [AddressText.isEmpty, beq_iff_eq, hspells.length, htext]
    exact String.utf8ByteSize_eq_zero_iff
  · rw [htext]
    exact fun hempty => a.text_ne_empty (String.append_eq_empty_iff.mp hempty).1
  · rw [(hspells.write haccepted).text_eq, htext]
  · have hsame := AddressText.write_of_rejected hrejected
    refine ⟨hsame, fun s' => ?_⟩
    rw [hsame]
    exact AddressText.write_accepts_iff

/-- Letters of two bytes fill the buffer up to its last byte, which none of them may take. -/
theorem writes_whole_or_none_of_umlauts :
    let a : Address := ofGroups 0 0 0 0 0 0 0 0
    let row := "äöüäöüäöüäöüäöüäöüäöü"
    let t := a.toText.writeAll [row, "ä", "z"]
    t.text = "::" ++ row ++ "z" ∧ t.length = 45 ∧
      (t.write "z").2 = false ∧ (t.write "z").1 = t ∧ (t.write "").2 = true := by
  intro a row t
  obtain ⟨haccepted, ⟨-, htext, -⟩, ⟨hlength, -⟩, hwrite⟩ := writes_whole_or_none a [row, "ä", "z"]
  have hstart : a.text = "::" := by decide +kernel
  have hfitting : fitting "::".utf8ByteSize [row, "ä", "z"] = [row, "z"] := by decide +kernel
  have hspelled : t.text = "::" ++ row ++ "z" := by
    rw [htext, haccepted, hstart, hfitting]
    decide +kernel
  have hfull : t.length = 45 := by
    rw [hlength, hspelled]
    decide +kernel
  have hrejected : (t.write "z").2 = false := by
    rw [Bool.eq_false_iff, ne_eq, (hwrite "z").1, hfull]
    decide +kernel
  refine ⟨hspelled, hfull, hrejected, ((hwrite "z").2.2 hrejected).1, ?_⟩
  rw [(hwrite "").1, hfull]
  decide +kernel

end Address

end ObservableTree
