import Mathlib.Logic.Function.Iterate
import ObservableTree.Proofs.Lookup
import ObservableTree.Resource.Handlers

/-!
# When the sweeps of a call end

The sweeps of a call go on while the next one is due. A pass that frees a slot leaves one entry less,
and a pass that finds nothing puts the next sweep off to a period from now. So the loop comes to its
end, unless there is no instant beyond the call or the period is empty: then the next sweep stays due
for ever.

* `Resource.sweepPasses` — the loop after several passes, whether or not it goes on for so long;
* `sweepRounds_of_passes`, `lt_of_sweepRounds` — the rounds of a call end with the loop;
* `exists_sweepRounds` — a round for each entry and one more are enough;
* `sweepRounds_of_stuck` — no number of rounds is enough when the next sweep stays due;
* `sweepDue?_eq_none_iff`, `onTimer?_isSome_iff` — a call comes back exactly if its loop ends.
-/

namespace ObservableTree

namespace Resource

variable {cfg : Settings} {r : Resource cfg} {now : Instant} {l ended : SweepLoop} {rounds n : Nat}

/-- The loop after so many passes, whether or not it goes on for so long. -/
def sweepPasses (r : Resource cfg) (now : Instant) (n : Nat) : SweepLoop :=
  (sweepPass cfg now)^[n] ⟨r.table, r.nextSweep, []⟩

theorem sweepPasses_succ (r : Resource cfg) (now : Instant) (n : Nat) :
    r.sweepPasses now (n + 1) = sweepPass cfg now (r.sweepPasses now n) :=
  Function.iterate_succ_apply' _ n _

/-! ### One pass -/

/-- A sweep that frees a slot leaves one entry less. -/
theorem length_of_sweep {table : NeighborTable} {threshold : Span} {e : Entry}
    (h : (table.sweep now threshold).2 = some e) :
    (table.sweep now threshold).1.length + 1 = table.length := by
  obtain ⟨front, back, hentries, hresult⟩ := NeighborTable.sweep_entries h
  simp only [NeighborTable.length, hentries, hresult, List.length_append, List.length_cons]
  omega

/-- A pass evicts an entry and puts the next sweep off by a period, or it finds nothing and puts the
next sweep off to a period from now. -/
theorem sweepPass_cases (cfg : Settings) (now : Instant) (l : SweepLoop) :
    (∃ e, (l.table.sweep now cfg.staleness).2 = some e ∧
      sweepPass cfg now l = ⟨(l.table.sweep now cfg.staleness).1, l.nextSweep + cfg.sweepPeriod,
        l.evicted ++ [e]⟩) ∨
    ((l.table.sweep now cfg.staleness).2 = none ∧
      sweepPass cfg now l = ⟨l.table, now + cfg.sweepPeriod, l.evicted⟩) := by
  unfold sweepPass
  cases hswept : l.table.sweep now cfg.staleness with
  | mk swept found =>
    cases found with
    | some e => exact .inl ⟨e, rfl, rfl⟩
    | none => exact .inr ⟨rfl, by rw [NeighborTable.table_of_sweep_none hswept]⟩

/-! ### The end of the loop -/

theorem sweepRounds_of_later (h : now < l.nextSweep) : sweepRounds cfg now rounds l = some l := by
  have hlater : ¬l.nextSweep ≤ now := Nat.not_le.mpr h
  cases rounds with
  | zero => rw [sweepRounds, if_neg hlater]
  | succ rounds => rw [sweepRounds, if_neg hlater]

/-- The rounds of a call end with the loop, if there are enough of them. -/
theorem sweepRounds_of_passes (hrounds : n ≤ rounds)
    (hgo : ∀ j < n, ((sweepPass cfg now)^[j] l).nextSweep ≤ now)
    (hstop : now < ((sweepPass cfg now)^[n] l).nextSweep) :
    sweepRounds cfg now rounds l = some ((sweepPass cfg now)^[n] l) := by
  induction n generalizing rounds l with
  | zero => exact sweepRounds_of_later hstop
  | succ n ih =>
    obtain ⟨rounds, rfl⟩ := Nat.exists_eq_add_of_lt hrounds
    have hdue : l.nextSweep ≤ now := hgo 0 (Nat.succ_pos n)
    rw [sweepRounds, if_pos hdue]
    exact ih (by omega) (fun j hj => hgo (j + 1) (Nat.succ_lt_succ hj)) hstop

/-- At its end the loop has left the instant of the call behind. -/
theorem lt_of_sweepRounds (h : sweepRounds cfg now rounds l = some ended) :
    now < ended.nextSweep := by
  induction rounds generalizing l with
  | zero =>
    rw [sweepRounds] at h
    split at h
    · cases h
    · next hlater =>
      cases h
      exact Nat.lt_of_not_le hlater
  | succ rounds ih =>
    rw [sweepRounds] at h
    split at h
    · exact ih h
    · next hlater =>
      cases h
      exact Nat.lt_of_not_le hlater

/-- **The loop ends** after a round for each entry and one more. -/
theorem exists_sweepRounds (hlast : now < .last) (hperiod : 0 < cfg.sweepPeriod.millis)
    (hrounds : l.table.length < rounds) : ∃ ended, sweepRounds cfg now rounds l = some ended := by
  induction rounds generalizing l with
  | zero => exact absurd hrounds (Nat.not_lt_zero _)
  | succ rounds ih =>
    rw [sweepRounds]
    by_cases hdue : l.nextSweep ≤ now
    · rw [if_pos hdue]
      rcases sweepPass_cases cfg now l with ⟨e, hfound, hpass⟩ | ⟨-, hpass⟩
      · refine ih ?_
        have hless := length_of_sweep hfound
        rw [hpass]
        dsimp only
        omega
      · rw [hpass]
        exact ⟨_, sweepRounds_of_later (Instant.lt_after hlast hperiod)⟩
    · rw [if_neg hdue]
      exact ⟨l, rfl⟩

/-! ### Loops without end -/

/-- Nothing is put off beyond the last instant, or by an empty period. -/
theorem after_le_of_stuck {t : Instant} {d : Span} (hstuck : ¬(now < .last ∧ 0 < d.millis))
    (h : t ≤ now) : t + d ≤ now := by
  rw [Instant.le_iff] at h
  rw [Instant.lt_last_iff] at hstuck
  rw [Instant.le_iff, Instant.after_millis]
  omega

theorem sweepPass_of_stuck (hstuck : ¬(now < .last ∧ 0 < cfg.sweepPeriod.millis))
    (hdue : l.nextSweep ≤ now) : (sweepPass cfg now l).nextSweep ≤ now := by
  rcases sweepPass_cases cfg now l with ⟨e, -, hpass⟩ | ⟨-, hpass⟩
  · rw [hpass]
    exact after_le_of_stuck hstuck hdue
  · rw [hpass]
    exact after_le_of_stuck hstuck (Nat.le_refl now.millis)

/-- **The loop never ends** when no pass can get beyond the instant of the call. -/
theorem sweepRounds_of_stuck (hstuck : ¬(now < .last ∧ 0 < cfg.sweepPeriod.millis))
    (hdue : l.nextSweep ≤ now) (rounds : Nat) : sweepRounds cfg now rounds l = none := by
  induction rounds generalizing l with
  | zero => rw [sweepRounds, if_pos hdue]
  | succ rounds ih =>
    rw [sweepRounds, if_pos hdue]
    exact ih (sweepPass_of_stuck hstuck hdue)

/-! ### Calls that come back -/

theorem onTimer?_isSome (r : Resource cfg) (now : Instant) :
    (r.onTimer? now).isSome =
      (sweepRounds cfg now (r.table.length + 1) ⟨r.table, r.nextSweep, []⟩).isSome := by
  rw [onTimer?, sweepDue?, Option.isSome_map, Option.isSome_map]

/-- **A call of the timers comes back** exactly if no sweep is due, or if its sweeps can get beyond the
instant of the call. -/
theorem onTimer?_isSome_iff (r : Resource cfg) (now : Instant) :
    (r.onTimer? now).isSome = true ↔
      now < r.nextSweep ∨ (now < .last ∧ 0 < cfg.sweepPeriod.millis) := by
  rw [onTimer?_isSome]
  refine ⟨fun h => ?_, fun h => ?_⟩
  · by_cases hstuck : now < .last ∧ 0 < cfg.sweepPeriod.millis
    · exact .inr hstuck
    · refine .inl (Nat.lt_of_not_le fun hdue => ?_)
      rw [sweepRounds_of_stuck hstuck hdue] at h
      cases h
  · rcases h with hlater | ⟨hlast, hperiod⟩
    · rw [sweepRounds_of_later hlater]
      rfl
    · obtain ⟨ended, hend⟩ := exists_sweepRounds (l := ⟨r.table, r.nextSweep, []⟩)
        hlast hperiod (Nat.lt_succ_self _)
      rw [hend]
      rfl

/-- **The rounds of a call are enough.** A call gives no result exactly if its loop never ends, which
is to say that the next sweep is due after any number of passes. -/
theorem sweepDue?_eq_none_iff (r : Resource cfg) (now : Instant) :
    r.sweepDue? now = none ↔ ∀ n, (r.sweepPasses now n).nextSweep ≤ now := by
  rw [sweepDue?, Option.map_eq_none_iff]
  refine ⟨fun h => ?_, fun h => ?_⟩
  · have hnone : ¬(r.onTimer? now).isSome = true := by
      rw [onTimer?_isSome, h]
      exact Bool.false_ne_true
    rw [onTimer?_isSome_iff, not_or] at hnone
    intro n
    induction n with
    | zero => exact Nat.le_of_not_lt hnone.1
    | succ n ih =>
      rw [sweepPasses_succ]
      exact sweepPass_of_stuck hnone.2 ih
  · rw [Option.eq_none_iff_forall_ne_some]
    intro ended hend
    obtain ⟨n, hn⟩ : ∃ n, ended = r.sweepPasses now n := by
      refine sweepRounds_induction (motive := fun l => ∃ n, l = r.sweepPasses now n) ?_ ⟨0, rfl⟩ hend
      rintro l - ⟨n, rfl⟩
      exact ⟨n + 1, (sweepPasses_succ r now n).symm⟩
    have hlater := lt_of_sweepRounds hend
    rw [hn] at hlater
    exact Nat.not_le.mpr hlater (h n)

end Resource

end ObservableTree
