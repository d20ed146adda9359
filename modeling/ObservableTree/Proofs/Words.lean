import Mathlib.Logic.Function.Iterate
import Mathlib.Tactic.Ring
import ObservableTree.Simulation.Loss

/-!
# The words that losses are drawn from

A packet is lost if the word drawn for it, as a fraction, lies below the share of packets that are lost.
The fraction is meant to lie below the whole, but it has 53 significant bits, and the largest words are
rounded up. The generator comes to all words in turn, so it comes to these too:

* `roundToMultiple_le`, `roundTo53_lt_iff` — what is rounded to the whole;
* `isWhole` — one of the 1024 largest words, `one_loses` — which mean no loss where the share is one;
* `nextUnbounded` — the generator on numbers without an end; `nextUnbounded_jump` — after two to the `k`
  steps the bits below the bit `k` are as before, and that bit is not;
* `exists_iterate_nextWord` — so every word is drawn after every other.
-/

namespace ObservableTree

/-! ### Rounding -/

theorem roundToMultiple_le (bits n : Nat) : roundToMultiple bits n ≤ n + powerOfTwo bits := by
  unfold roundToMultiple
  dsimp only
  have hsplit : n / powerOfTwo bits * powerOfTwo bits + n % powerOfTwo bits = n := by
    rw [Nat.mul_comm]
    exact Nat.div_add_mod n _
  have hsucc : (n / powerOfTwo bits + 1) * powerOfTwo bits =
      n / powerOfTwo bits * powerOfTwo bits + powerOfTwo bits := Nat.succ_mul _ _
  split
  · omega
  · split
    · omega
    · rcases Nat.mod_two_eq_zero_or_one (n / powerOfTwo bits) with heven | hodd
      · rw [heven, Nat.add_zero]
        omega
      · rw [hodd]
        omega

/-- A word below half of the range is rounded by at most 1024. -/
theorem roundTo53_le {n : Nat} (hn : n < powerOfTwo 63) : roundTo53 n ≤ n + 1024 := by
  unfold roundTo53
  split
  · omega
  · next hlarge =>
    have hzero : n ≠ 0 := by
      rintro rfl
      exact hlarge (by decide)
    have hlog : n.log2 - 52 ≤ 10 := by
      have hbelow : n.log2 < 63 := (Nat.log2_lt hzero).mpr hn
      omega
    have hunit : powerOfTwo (n.log2 - 52) ≤ powerOfTwo 10 := Nat.pow_le_pow_right (by decide) hlog
    exact Nat.le_trans (roundToMultiple_le _ n) (Nat.add_le_add_left hunit n)

/-- A number of 64 bits is rounded to a multiple of 2048 if the first of them is set. -/
theorem roundTo53_of_ge {n : Nat} (hlow : powerOfTwo 63 ≤ n) (hn : n < powerOfTwo 64) :
    roundTo53 n = roundToMultiple 11 n := by
  have hlow' : 2 ^ 63 ≤ n := hlow
  have hlarge : ¬n < powerOfTwo 53 :=
    Nat.not_lt.mpr (Nat.le_trans (Nat.pow_le_pow_right (by decide) (by decide)) hlow')
  have hzero : n ≠ 0 := by omega
  have hlog : n.log2 = 63 := by
    have hfrom : 63 ≤ n.log2 := (Nat.le_log2 hzero).mpr hlow'
    have hbelow : n.log2 < 64 := (Nat.log2_lt hzero).mpr hn
    omega
  rw [roundTo53, if_neg hlarge, hlog]

/-- **What is rounded to the whole**: the 1024 largest words. -/
theorem roundTo53_lt_iff {n : Nat} (hn : n < powerOfTwo 64) :
    roundTo53 n < powerOfTwo 64 ↔ n < powerOfTwo 64 - powerOfTwo 10 := by
  have hwhole : powerOfTwo 64 = 18446744073709551616 := by decide
  have hhalf : powerOfTwo 63 = 9223372036854775808 := by decide
  have hshare : powerOfTwo 10 = 1024 := by decide
  by_cases hlow : n < powerOfTwo 63
  · have hrounded := roundTo53_le hlow
    rw [hwhole, hshare]
    rw [hhalf] at hlow
    omega
  · have hunit : powerOfTwo 11 = 2048 := by decide
    rw [roundTo53_of_ge (Nat.not_lt.mp hlow) hn, roundToMultiple, hunit, hwhole, hshare]
    rw [hhalf] at hlow
    rw [hwhole] at hn
    split
    · omega
    · split
      · omega
      · rcases Nat.mod_two_eq_zero_or_one (n / 2048) with heven | hodd
        · rw [heven]
          omega
        · rw [hodd]
          omega

/-- Whether a word, as a fraction, is rounded to the whole. -/
def isWhole (word : UInt64) : Bool := decide (powerOfTwo 64 - powerOfTwo 10 ≤ word.toNat)

/-- Where the share is one, a word means loss unless it is rounded to the whole. -/
theorem one_loses (word : UInt64) : LossRate.one.loses word = !isWhole word := by
  have hiff := roundTo53_lt_iff (show word.toNat < powerOfTwo 64 from word.toNat_lt)
  have hnumerator : roundTo53 word.toNat * powerOfTwo LossRate.one.places = roundTo53 word.toNat :=
    Nat.mul_one _
  have hshare : LossRate.one.numerator * powerOfTwo 64 = powerOfTwo 64 := Nat.one_mul _
  calc LossRate.one.loses word
      = decide (roundTo53 word.toNat < powerOfTwo 64) := by rw [LossRate.loses, hnumerator, hshare]
    _ = decide (¬powerOfTwo 64 - powerOfTwo 10 ≤ word.toNat) :=
        decide_eq_decide.mpr (hiff.trans Nat.not_le.symm)
    _ = !isWhole word := decide_not

/-! ### The generator -/

/-- The generator on numbers without an end. -/
def nextUnbounded (n : Nat) : Nat := n * 6364136223846793005 + 1

/-- Two to the `k` steps at once. -/
theorem nextUnbounded_jump (k : Nat) : ∃ t u, ∀ n,
    nextUnbounded^[2 ^ k] n = n + 2 ^ k + 2 ^ (k + 1) * (2 * t * n + u) := by
  induction k with
  | zero =>
    refine ⟨1591034055961698251, 0, fun n => ?_⟩
    show n * 6364136223846793005 + 1 = n + 1 + 2 * (2 * 1591034055961698251 * n + 0)
    omega
  | succ k ih =>
    obtain ⟨t, u, hsteps⟩ := ih
    refine ⟨t + 2 ^ (k + 1) * t * t, u + 2 ^ k * t * (1 + 2 * u), fun n => ?_⟩
    rw [pow_succ, mul_two, Function.iterate_add_apply, hsteps, hsteps]
    ring

/-- A number with the same bits below the bit `k` has the same bits up to it, or it has them when two to
the `k` is added. -/
theorem mod_two_pow_succ_cases {k n m : Nat} (h : n % 2 ^ k = m % 2 ^ k) :
    n % 2 ^ (k + 1) = m % 2 ^ (k + 1) ∨ (n + 2 ^ k) % 2 ^ (k + 1) = m % 2 ^ (k + 1) := by
  have hpos : 0 < 2 ^ k := Nat.two_pow_pos k
  have hbit : n / 2 ^ k % 2 = m / 2 ^ k % 2 ∨ (n / 2 ^ k + 1) % 2 = m / 2 ^ k % 2 := by omega
  rw [pow_succ, Nat.mod_mul, Nat.mod_mul, Nat.mod_mul, Nat.add_mod_right, Nat.add_div_right _ hpos, h]
  rcases hbit with hsame | hother
  · exact .inl (by rw [hsame])
  · exact .inr (by rw [hother])

/-- Within two to the `k` steps the bits below the bit `k` take every value. -/
theorem exists_iterate_nextUnbounded (k n m : Nat) :
    ∃ steps < 2 ^ k, nextUnbounded^[steps] n % 2 ^ k = m % 2 ^ k := by
  induction k with
  | zero => exact ⟨0, Nat.one_pos, by rw [pow_zero, Nat.mod_one, Nat.mod_one]⟩
  | succ k ih =>
    obtain ⟨steps, hsteps, hlow⟩ := ih
    have hdouble : 2 ^ (k + 1) = 2 ^ k + 2 ^ k := by rw [pow_succ, mul_two]
    rcases mod_two_pow_succ_cases hlow with hsame | hother
    · exact ⟨steps, by omega, hsame⟩
    · obtain ⟨t, u, hjump⟩ := nextUnbounded_jump k
      refine ⟨2 ^ k + steps, by omega, ?_⟩
      rw [Function.iterate_add_apply, hjump, Nat.add_mul_mod_self_left, hother]

theorem iterate_nextWord_toNat (word : UInt64) (steps : Nat) :
    (nextWord^[steps] word).toNat = nextUnbounded^[steps] word.toNat % 2 ^ 64 := by
  induction steps with
  | zero => exact (Nat.mod_eq_of_lt word.toNat_lt).symm
  | succ steps ih =>
    have hfactor : (6364136223846793005 : UInt64).toNat = 6364136223846793005 := by decide
    have hone : (1 : UInt64).toNat = 1 := by decide
    rw [Function.iterate_succ_apply', Function.iterate_succ_apply', nextWord, nextUnbounded,
      UInt64.toNat_add, UInt64.toNat_mul, ih, hfactor, hone]
    omega

/-- **Every word is drawn**, whatever the seed is. -/
theorem exists_iterate_nextWord (seed word : UInt64) :
    ∃ k < 2 ^ 64, nextWord^[k + 1] seed = word := by
  obtain ⟨k, hk, hlast⟩ := exists_iterate_nextUnbounded 64 (nextWord seed).toNat word.toNat
  refine ⟨k, hk, UInt64.toNat_inj.mp ?_⟩
  rw [Function.iterate_succ_apply, iterate_nextWord_toNat, hlast, Nat.mod_eq_of_lt word.toNat_lt]

end ObservableTree
