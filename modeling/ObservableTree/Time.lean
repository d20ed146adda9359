/-!
# Instants and spans

Time is counted in milliseconds since boot and held in a 64-bit register, so every sum stops at
the largest count instead of wrapping:

* `Instant` — a point in time, `Span` — a length of time, both with the bound in the type;
* `Instant.after` — the instant a span later, `Instant.since` — the span between two instants,
  zero when the earlier one lies in the future;
* `after_millis`, `since_millis` — what both do to the count;
* `Instant.text` — whole seconds, a point and three digits.
-/

namespace ObservableTree

/-- The largest count of milliseconds that a 64-bit register holds. -/
def lastMilli : Nat := 18446744073709551615

/-! ### Spans -/

/-- A length of time in milliseconds. -/
structure Span where
  millis : Nat
  bounded : millis ≤ lastMilli
deriving DecidableEq

namespace Span

/-- The span of so many milliseconds, or the longest one when that many do not fit. -/
def ofMillis (n : Nat) : Span := ⟨min n lastMilli, Nat.min_le_right _ _⟩

/-- The span of so many seconds, or the longest one when that many do not fit. -/
def ofSecs (n : Nat) : Span := ofMillis (n * 1000)

/-- The empty span. -/
def zero : Span := ofMillis 0

/-- Whole seconds of a span. -/
def secs (d : Span) : Nat := d.millis / 1000

/-- Whether a span is empty. -/
def isZero (d : Span) : Bool := d.millis == 0

/-- Both spans one after the other. -/
def add (d e : Span) : Span := ofMillis (d.millis + e.millis)

instance : Add Span := ⟨add⟩
instance : LE Span := ⟨fun d e => d.millis ≤ e.millis⟩
instance : LT Span := ⟨fun d e => d.millis < e.millis⟩
instance (d e : Span) : Decidable (d ≤ e) := inferInstanceAs (Decidable (d.millis ≤ e.millis))
instance (d e : Span) : Decidable (d < e) := inferInstanceAs (Decidable (d.millis < e.millis))
instance : Ord Span := ⟨fun d e => compare d.millis e.millis⟩
instance : Inhabited Span := ⟨zero⟩

theorem lt_iff {d e : Span} : d < e ↔ d.millis < e.millis := Iff.rfl

end Span

/-! ### Instants -/

/-- A point in time, in milliseconds since boot. -/
structure Instant where
  millis : Nat
  bounded : millis ≤ lastMilli
deriving DecidableEq

namespace Instant

/-- The instant so many milliseconds after boot, or the last one. -/
def ofMillis (n : Nat) : Instant := ⟨min n lastMilli, Nat.min_le_right _ _⟩

/-- The instant so many seconds after boot, or the last one. -/
def ofSecs (n : Nat) : Instant := ofMillis (n * 1000)

/-- Boot time. -/
def boot : Instant := ofMillis 0

/-- The last instant that a clock can show. -/
def last : Instant := ofMillis lastMilli

/-- Whole seconds since boot. -/
def secs (t : Instant) : Nat := t.millis / 1000

/-- The instant a span later, or the last instant. -/
def after (t : Instant) (d : Span) : Instant := ofMillis (t.millis + d.millis)

/-- The time that has passed at `t` since `earlier`, none if `earlier` is still to come. -/
def since (t earlier : Instant) : Span :=
  ⟨t.millis - earlier.millis, Nat.le_trans (Nat.sub_le _ _) t.bounded⟩

instance : HAdd Instant Span Instant := ⟨after⟩
instance : HSub Instant Instant Span := ⟨since⟩
instance : LE Instant := ⟨fun s t => s.millis ≤ t.millis⟩
instance : LT Instant := ⟨fun s t => s.millis < t.millis⟩
instance (s t : Instant) : Decidable (s ≤ t) := inferInstanceAs (Decidable (s.millis ≤ t.millis))
instance (s t : Instant) : Decidable (s < t) := inferInstanceAs (Decidable (s.millis < t.millis))
instance : Ord Instant := ⟨fun s t => compare s.millis t.millis⟩
instance : Inhabited Instant := ⟨boot⟩

/-- The earlier of two instants. -/
def earlier (s t : Instant) : Instant := if s ≤ t then s else t

/-- The later of two instants. -/
def later (s t : Instant) : Instant := if s ≤ t then t else s

/-- Whole seconds, a point, and the milliseconds in three digits. -/
def text (t : Instant) : String :=
  let rest := toString (t.millis % 1000)
  toString (t.millis / 1000) ++ "." ++ "".pushn '0' (3 - rest.length) ++ rest ++ "s"

instance : ToString Instant := ⟨text⟩

theorem ext_millis {s t : Instant} (h : s.millis = t.millis) : s = t := by
  cases s; cases t; cases h; rfl

theorem lt_iff {s t : Instant} : s < t ↔ s.millis < t.millis := Iff.rfl

theorem le_iff {s t : Instant} : s ≤ t ↔ s.millis ≤ t.millis := Iff.rfl

theorem after_millis (t : Instant) (d : Span) :
    (t + d).millis = min (t.millis + d.millis) lastMilli := rfl

theorem since_millis (t earlier : Instant) :
    (t - earlier).millis = t.millis - earlier.millis := rfl

theorem earlier_millis (s t : Instant) : (earlier s t).millis = min s.millis t.millis := by
  unfold earlier; split <;> simp only [le_iff] at * <;> omega

theorem later_millis (s t : Instant) : (later s t).millis = max s.millis t.millis := by
  unfold later; split <;> simp only [le_iff] at * <;> omega

theorem last_millis : last.millis = lastMilli := Nat.min_self _

theorem lt_last_iff {t : Instant} : t < last ↔ t.millis < lastMilli := by rw [lt_iff, last_millis]

theorem le_last (t : Instant) : t ≤ last := by
  rw [le_iff, last_millis]
  exact t.bounded

theorem ofMillis_self (t : Instant) : ofMillis t.millis = t :=
  ext_millis (Nat.min_eq_left t.bounded)

/-- A sum that stops at the largest count may be taken in parts. -/
theorem ofMillis_after (n : Nat) (d : Span) : ofMillis n + d = ofMillis (n + d.millis) := by
  apply ext_millis
  show min (min n lastMilli + d.millis) lastMilli = min (n + d.millis) lastMilli
  omega

theorem lt_after {t : Instant} {d : Span} (ht : t < last) (hd : 0 < d.millis) : t < t + d := by
  rw [lt_last_iff] at ht
  rw [lt_iff, after_millis]
  omega

end Instant

end ObservableTree
