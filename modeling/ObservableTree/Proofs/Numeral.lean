import Mathlib.Tactic.IntervalCases
import ObservableTree.Text

/-!
# Reading numerals back

A reader takes every digit in front of a text, so a numeral is read back exactly if no digit stands
behind it:

* `NoDigitAhead` — what may stand behind a numeral;
* `digitsValue_numeral` — the digits of a number spell the number;
* `head_numeral` — the first of several digits is not a zero;
* `readNumeral?_numeral` — hence a numeral is read back, whether leading zeros are allowed or not.
-/

namespace ObservableTree

variable {base n : Nat}

/-! ### Digits -/

theorem digitValue?_digitChar {d : Nat} (hd : d < base) (hbase : base ≤ 16) :
    digitValue? base (Nat.digitChar d) = some d := by
  have hd' : d < 16 := Nat.lt_of_lt_of_le hd hbase
  interval_cases d <;> exact if_pos hd

theorem numeral_of_lt (h : n < base) : numeral base n = [Nat.digitChar n] :=
  Nat.toDigits_of_lt_base h

theorem numeral_of_le (hbase : 1 < base) (h : base ≤ n) :
    numeral base n = numeral base (n / base) ++ [Nat.digitChar (n % base)] :=
  Nat.toDigits_of_base_le hbase h

theorem numeral_ne_nil (base n : Nat) : numeral base n ≠ [] := Nat.toDigits_ne_nil

/-- A numeral has as many digits as its base needs for the number, at least one. -/
theorem numeral_length_le {k : Nat} (hbase : 1 < base) (hk : 0 < k) (h : n < Nat.pow base k) :
    (numeral base n).length ≤ k :=
  (Nat.length_toDigits_le_iff hbase hk).mpr h

theorem mem_numeral (hbase : 1 < base) {c : Char} (h : c ∈ numeral base n) :
    ∃ d, d < base ∧ c = Nat.digitChar d := by
  induction n using Nat.strongRecOn with
  | ind n ih =>
    rcases Nat.lt_or_ge n base with hlt | hge
    · rw [numeral_of_lt hlt, List.mem_singleton] at h
      exact ⟨n, hlt, h⟩
    · rw [numeral_of_le hbase hge, List.mem_append, List.mem_singleton] at h
      rcases h with hfront | hdigit
      · exact ih (n / base) (Nat.div_lt_self (by omega) hbase) hfront
      · exact ⟨n % base, Nat.mod_lt _ (by omega), hdigit⟩

theorem isDigitIn_of_mem_numeral (hbase : 1 < base) (hsmall : base ≤ 16) {c : Char}
    (h : c ∈ numeral base n) : isDigitIn base c = true := by
  obtain ⟨d, hd, rfl⟩ := mem_numeral hbase h
  rw [isDigitIn, digitValue?_digitChar hd hsmall]
  rfl

/-- The first of several digits is not a zero. -/
theorem head_numeral (hbase : 1 < base) (hsmall : base ≤ 16)
    (h : (numeral base n).head? = some '0') : n = 0 := by
  induction n using Nat.strongRecOn with
  | ind n ih =>
    rcases Nat.lt_or_ge n base with hlt | hge
    · rw [numeral_of_lt hlt, List.head?_cons, Option.some.injEq] at h
      exact Nat.digitChar_eq_zero.mp h
    · obtain ⟨c, ds, hfront⟩ := List.exists_cons_of_ne_nil (numeral_ne_nil base (n / base))
      rw [numeral_of_le hbase hge, hfront, List.cons_append, List.head?_cons] at h
      have hhead : (numeral base (n / base)).head? = some '0' := by rw [hfront, List.head?_cons, h]
      have hzero := ih (n / base) (Nat.div_lt_self (by omega) hbase) hhead
      have hpos : 0 < n / base := Nat.div_pos hge (by omega)
      omega

/-! ### Values -/

theorem digitsValue_snoc (base : Nat) (ds : List Char) (c : Char) :
    digitsValue base (ds ++ [c]) =
      digitsValue base ds * base + (digitValue? base c).getD 0 := by
  rw [digitsValue, List.foldl_append]
  rfl

theorem digitsValue_numeral (hbase : 1 < base) (hsmall : base ≤ 16) (n : Nat) :
    digitsValue base (numeral base n) = n := by
  induction n using Nat.strongRecOn with
  | ind n ih =>
    rcases Nat.lt_or_ge n base with hlt | hge
    · rw [numeral_of_lt hlt, ← List.nil_append [_], digitsValue_snoc,
        digitValue?_digitChar hlt hsmall]
      exact (congrArg (· + n) (Nat.zero_mul base)).trans (Nat.zero_add n)
    · have hdigit : n % base < base := Nat.mod_lt _ (by omega)
      rw [numeral_of_le hbase hge, digitsValue_snoc, digitValue?_digitChar hdigit hsmall,
        ih (n / base) (Nat.div_lt_self (by omega) hbase)]
      exact Nat.div_add_mod' n base

/-! ### Texts -/

/-- A text does not start with a digit. -/
def NoDigitAhead (base : Nat) (cs : List Char) : Prop :=
  ∀ c, cs.head? = some c → isDigitIn base c = false

theorem NoDigitAhead.nil (base : Nat) : NoDigitAhead base [] := by
  intro c h
  cases h

theorem NoDigitAhead.cons {c : Char} (h : isDigitIn base c = false) (cs : List Char) :
    NoDigitAhead base (c :: cs) := by
  intro d hd
  rwa [← Option.some.inj hd]

section Spans

variable {ds rest : List Char} (hds : ∀ c, c ∈ ds → isDigitIn base c = true)
  (hrest : NoDigitAhead base rest)

include hrest

theorem leadingDigits_of_noDigitAhead : leadingDigits base rest = [] := by
  cases rest with
  | nil => rfl
  | cons c rest => exact List.takeWhile_cons_of_neg (by rw [hrest c rfl]; exact Bool.false_ne_true)

include hds

theorem leadingDigits_append : leadingDigits base (ds ++ rest) = ds := by
  rw [leadingDigits, List.takeWhile_append_of_pos hds]
  have hnone := leadingDigits_of_noDigitAhead hrest
  rw [leadingDigits] at hnone
  rw [hnone, List.append_nil]

theorem dropWhile_digits_append : (ds ++ rest).dropWhile (isDigitIn base) = rest := by
  have hall := leadingDigits_append_rest base (ds ++ rest)
  rw [leadingDigits_append hds hrest] at hall
  exact List.append_cancel_left hall

end Spans

/-- **Numerals are read back.** The reader stops behind the numeral, and a limit on the digits
is kept by the numbers below a power of the base. -/
theorem readNumeral?_numeral {limit : Nat} (leadingZeros : Bool) {rest : List Char}
    (hbase : 1 < base) (hsmall : base ≤ 16) (hlimit : (numeral base n).length ≤ limit)
    (hrest : NoDigitAhead base rest) :
    readNumeral? base limit leadingZeros (numeral base n ++ rest) = some (n, rest) := by
  have hdigits : ∀ c, c ∈ numeral base n → isDigitIn base c = true := fun c hc =>
    isDigitIn_of_mem_numeral hbase hsmall hc
  rw [readNumeral?, leadingDigits_append hdigits hrest, dropWhile_digits_append hdigits hrest,
    digitsValue_numeral hbase hsmall]
  have hroom : ¬(numeral base n = [] ∨ limit < (numeral base n).length) := by
    rintro (hnil | hlong)
    · exact numeral_ne_nil base n hnil
    · omega
  have hzeros : ¬(leadingZeros = false ∧ (numeral base n).head? = some '0' ∧
      1 < (numeral base n).length) := by
    rintro ⟨-, hhead, hlong⟩
    have hzero := head_numeral hbase hsmall hhead
    rw [hzero, numeral_of_lt (by omega : 0 < base)] at hlong
    exact Nat.lt_irrefl 1 hlong
  exact (if_neg hroom).trans (if_neg hzeros)

/-- Where no digit stands, no number is read. -/
theorem readNumeral?_of_noDigitAhead {limit : Nat} {leadingZeros : Bool} {cs : List Char}
    (h : NoDigitAhead base cs) : readNumeral? base limit leadingZeros cs = none := by
  rw [readNumeral?, leadingDigits_of_noDigitAhead h]
  exact if_pos (.inl rfl)

end ObservableTree
