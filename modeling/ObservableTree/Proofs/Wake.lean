import ObservableTree.Proofs.Staleness
import ObservableTree.Proofs.Sweeping

/-!
# When there is work to do

The timers of a resource have work to do when the next sweep is due, or when subscribers are to be
told. An event does not ask for work at an earlier instant than its own, and the timers do all of
their work when they are called, however late:

* `le_nextWake_iff`, `lt_nextWake_iff` — the two deadlines behind `Resource.nextWake`;
* `earlier_le_nextWake_onEvent` — an event;
* `call_nextWake` — a read, which leaves both deadlines alone;
* `onTimer_of_before` — a call of the timers does nothing while there is no work;
* `lt_nextWake_onTimer` — a call of the timers leaves no work for the instant of the call;
* `nextWake_exact` — so there is work at an instant exactly if the next wake has come.
-/

namespace ObservableTree

namespace Resource

variable {cfg : Settings} {r : Resource cfg} {t : Instant}

theorem le_nextWake_iff :
    t ≤ r.nextWake ↔ t ≤ r.nextSweep ∧ ∀ fireAt, r.debounce.deadline = some fireAt → t ≤ fireAt := by
  cases hdeadline : r.debounce.deadline with
  | none =>
    rw [nextWake_of_idle hdeadline]
    exact (and_iff_left nofun).symm
  | some fireAt =>
    rw [Instant.le_iff, nextWake_of_armed hdeadline, Nat.le_min, and_comm]
    refine and_congr_right' ⟨fun h d hd => ?_, fun h => h fireAt rfl⟩
    cases hd
    exact h

theorem lt_nextWake_iff :
    t < r.nextWake ↔ t < r.nextSweep ∧ ∀ fireAt, r.debounce.deadline = some fireAt → t < fireAt := by
  cases hdeadline : r.debounce.deadline with
  | none =>
    rw [nextWake_of_idle hdeadline]
    exact (and_iff_left nofun).symm
  | some fireAt =>
    rw [Instant.lt_iff, nextWake_of_armed hdeadline, Nat.lt_min, and_comm]
    refine and_congr_right' ⟨fun h d hd => ?_, fun h => h fireAt rfl⟩
    cases hd
    exact h

/-- An event arms the timer for a later instant, or leaves it alone. -/
theorem onEvent_debounce (r : Resource cfg) (event : TopologyEvent) (now : Instant) :
    (r.onEvent event now).state.debounce = r.debounce ∨
      (r.onEvent event now).state.debounce = r.debounce.arm now := by
  cases event with
  | packet source => exact .inl rfl
  | routeChanged change route count =>
    unfold onEvent onChange
    dsimp only
    split
    · exact .inr rfl
    · exact .inl rfl

/-- An event does not bring the work forward to an instant before its own. -/
theorem earlier_le_nextWake_onEvent (r : Resource cfg) (event : TopologyEvent) (t : Instant) :
    r.nextWake.earlier t ≤ (r.onEvent event t).state.nextWake := by
  have hold : r.nextWake.earlier t ≤ r.nextWake := by
    rw [Instant.le_iff, Instant.earlier_millis]
    exact Nat.min_le_left _ _
  have hevent : r.nextWake.earlier t ≤ t := by
    rw [Instant.le_iff, Instant.earlier_millis]
    exact Nat.min_le_right _ _
  rw [le_nextWake_iff] at hold ⊢
  refine ⟨by rw [onEvent_nextSweep]; exact hold.1, fun fireAt hfireAt => ?_⟩
  rcases onEvent_debounce r event t with hsame | harmed
  · rw [hsame] at hfireAt
    exact hold.2 fireAt hfireAt
  · rw [harmed] at hfireAt
    cases hfireAt
    exact Nat.le_trans hevent (le_after t r.debounce.interval)

theorem le_nextWake_onEvent (h : t ≤ r.nextWake) (event : TopologyEvent) :
    t ≤ (r.onEvent event t).state.nextWake := by
  have hle := earlier_le_nextWake_onEvent r event t
  rw [Instant.le_iff] at h
  rw [Instant.le_iff, Instant.earlier_millis, Nat.min_eq_right h] at hle
  exact hle

/-- A read settles at most the mark for the next one, which is no work for the timers. -/
theorem call_nextWake (r : Resource cfg) (c : Call) :
    (r.call c).nextWake = (r.reactAll c.inputs).state.nextWake := by
  rcases call_state r c with h | h
  · rw [h]
  · rw [h]
    rfl

/-- **Before there is work** a call of the timers does nothing. -/
theorem onTimer_of_before (h : t < r.nextWake) : r.onTimer t = .still r () := by
  rw [lt_nextWake_iff] at h
  have hdue : ¬r.debounce.isDue t = true := by
    rw [Debounce.isDue_iff]
    rintro ⟨fireAt, hfireAt, hle⟩
    exact Nat.not_le.mpr (h.2 fireAt hfireAt) hle
  rcases onTimer_cases r t with ⟨-, hx⟩ | ⟨l, hend, -, ⟨hfired, -⟩ | ⟨-, hx⟩⟩
  · exact hx
  · exact absurd hfired hdue
  · rw [sweepRounds_of_later h.1] at hend
    cases hend
    exact hx

/-- **A call of the timers that comes back** leaves no work for its instant. -/
theorem lt_nextWake_onTimer_of_isSome {r : Resource cfg} (h : (r.onTimer? t).isSome = true) :
    t < (r.onTimer t).state.nextWake := by
  rw [lt_nextWake_iff]
  rcases onTimer_cases r t with ⟨hnone, -⟩ | ⟨l, hend, -, ⟨-, hx⟩ | ⟨hdue, hx⟩⟩
  · rw [hnone] at h
    cases h
  · rw [hx]
    exact ⟨lt_of_sweepRounds hend, nofun⟩
  · rw [hx]
    rw [Debounce.isDue_iff] at hdue
    exact ⟨lt_of_sweepRounds hend, fun fireAt hfireAt =>
      Nat.lt_of_not_le fun hle => hdue ⟨fireAt, hfireAt, hle⟩⟩

theorem lt_nextWake_onTimer (hperiod : 0 < cfg.sweepPeriod.millis) (hlast : t < .last)
    (r : Resource cfg) : t < (r.onTimer t).state.nextWake :=
  lt_nextWake_onTimer_of_isSome ((onTimer?_isSome_iff r t).mpr (.inr ⟨hlast, hperiod⟩))

/-- **The next wake is exact.** Before it, a call of the timers changes nothing, evicts nobody and tells
nobody; from it on, a call does change the resource. After a call the next wake lies beyond the
instant of the call, so that a second call at the same instant does nothing. A read changes the next
wake only through what arrives while the document is written, and traffic does not change it at all.
A change of the routes does not bring it forward to an instant before the change. -/
theorem nextWake_exact (r : Resource cfg) (now : Instant) (hperiod : 0 < cfg.sweepPeriod.millis)
    (hlast : now < .last) :
    (now < r.nextWake → r.onTimer now = .still r ()) ∧
    ((r.onTimer now).state = r ↔ now < r.nextWake) ∧
    (now < (r.onTimer now).state.nextWake ∧
      (r.onTimer now).state.onTimer now = .still (r.onTimer now).state ()) ∧
    (∀ g q buffer offset, (r.read g q buffer offset []).state.nextWake = r.nextWake) ∧
    (∀ g q buffer offset meanwhile, let read := Call.read now g q buffer offset meanwhile
      (r.call read).nextWake = (r.reactAll read.inputs).state.nextWake) ∧
    (∀ source t, (r.onEvent (.packet source) t).state.nextWake = r.nextWake) ∧
    ∀ change route count t,
      r.nextWake.earlier t ≤ (r.onEvent (.routeChanged change route count) t).state.nextWake := by
  have hbeyond : now < (r.onTimer now).state.nextWake := lt_nextWake_onTimer hperiod hlast r
  refine ⟨onTimer_of_before, ⟨?_, ?_⟩, ⟨hbeyond, onTimer_of_before hbeyond⟩, ?_, ?_, ?_, ?_⟩
  · intro hsame
    rw [hsame] at hbeyond
    exact hbeyond
  · intro hbefore
    rw [onTimer_of_before hbefore]
    rfl
  · intro g q buffer offset
    have hinputs : (Call.read now g q buffer offset []).inputs = [] := by
      simp only [Call.inputs, ite_self]
    have hread := call_nextWake r (.read now g q buffer offset [])
    rw [hinputs] at hread
    exact hread
  · intro g q buffer offset meanwhile
    exact call_nextWake r _
  · intro source t
    rfl
  · intro change route count t
    exact earlier_le_nextWake_onEvent r (.routeChanged change route count) t

/-- A sweep is due at 10 and a notification at 7: nothing happens at 6, and a call at 12, when both are
late, leaves nothing to do until the sweep a period later. -/
theorem nextWake_exact_of_late :
    let cfg : Settings := ⟨1, .ofMillis 5, .ofMillis 30, .ofMillis 5⟩
    let r : Resource cfg := { startingAt cfg (.ofMillis 5) with
      debounce := (Debounce.ofInterval (.ofMillis 5)).arm (.ofMillis 2) }
    0 < cfg.sweepPeriod.millis ∧ Instant.ofMillis 6 < .last ∧ Instant.ofMillis 12 < .last ∧
      r.nextWake = .ofMillis 7 ∧ r.onTimer (.ofMillis 6) = .still r () ∧
      (r.onTimer (.ofMillis 12)).state ≠ r ∧
      (r.onTimer (.ofMillis 12)).state.nextWake = .ofMillis 17 := by
  intro cfg r
  have hperiod : 0 < cfg.sweepPeriod.millis := by decide
  have hearly : Instant.ofMillis 6 < .last := by decide
  have hlate : Instant.ofMillis 12 < .last := by decide
  have hwake : r.nextWake = .ofMillis 7 := by decide
  refine ⟨hperiod, hearly, hlate, hwake, ?_, ?_, by decide⟩
  · apply (nextWake_exact r (.ofMillis 6) hperiod hearly).1
    rw [hwake]
    decide
  · rw [Ne, (nextWake_exact r (.ofMillis 12) hperiod hlate).2.1, hwake]
    decide

end Resource

end ObservableTree
