import ObservableTree.Proofs.Arrivals
import ObservableTree.Proofs.Words

/-!
# Where every packet should be lost

With a share of one, every packet should be lost. But a word that is rounded to the whole does not lie
below it, and then the packet is delivered:

* `Resource.tracked_reactAll_of_unheard` — a node that hears of nobody tracks nobody;
* `Simulation.Drawn` — how many packets were delivered is told by the words that were drawn;
  `Drawn.handle`, `Drawn.obeyAll` — so it is after every event;
* `total_loss_spares_whole_words` — how many come through where all should be lost.
-/

namespace ObservableTree

namespace Resource

/-- A node that tracks nobody goes on so as long as it hears of no packet. -/
theorem tracked_reactAll_of_unheard {cfg : Settings} {r : Resource cfg} {is : List Input}
    (h : r.tracked = []) (hunheard : ∀ a now, .event (.packet a) now ∉ is) :
    (r.reactAll is).state.tracked = [] := by
  have hnobody : Heard [] r := by
    intro e he
    rw [h] at he
    cases he
  have hheard := hnobody.reactAll is
  rw [List.nil_append] at hheard
  exact List.eq_nil_iff_forall_not_mem.mpr fun e he => hunheard _ _ (hheard e he)

end Resource

namespace Simulation

variable {cfg : Settings} {s s₀ : Simulation cfg} {seed : UInt64} {event : Event} {stop : Instant}

/-! ### Events -/

/-- All packets should be lost, and of those that were drawn for, as many have been delivered as words
are rounded to the whole. Nobody is tracked before the first of them. -/
structure Drawn (seed : UInt64) (s : Simulation cfg) : Prop where
  rate : s.lossRate = .one
  word : s.randomWord = nextWord^[s.packetsMet] seed
  observed : s.metrics.packetsObserved =
    (List.range s.packetsMet).countP fun k => isWhole (nextWord^[k + 1] seed)
  silent : s.metrics.packetsObserved = 0 → s.node.resource.tracked = []

/-- No more than this matters. -/
theorem Drawn.of_same {s' : Simulation cfg} (h : s.Drawn seed) (hrate : s'.lossRate = s.lossRate)
    (hword : s'.randomWord = s.randomWord)
    (hobserved : s'.metrics.packetsObserved = s.metrics.packetsObserved)
    (hdropped : s'.metrics.packetsDropped = s.metrics.packetsDropped)
    (hresource : s'.node.resource = s.node.resource) : s'.Drawn seed := by
  have hmet : s'.packetsMet = s.packetsMet := by rw [packetsMet, hobserved, hdropped, packetsMet]
  refine ⟨hrate.trans h.rate, ?_, ?_, fun hnone => ?_⟩
  · rw [hword, hmet, h.word]
  · rw [hobserved, hmet, h.observed]
  · rw [hresource]
    exact h.silent (hobserved ▸ hnone)

theorem Drawn.drawLoss (h : s.Drawn seed) :
    s.drawLoss.1.randomWord = nextWord^[s.packetsMet + 1] seed ∧
      s.drawLoss.2 = !isWhole (nextWord^[s.packetsMet + 1] seed) := by
  have hpositive : s.lossRate.isPositive = true := by
    rw [h.rate]
    rfl
  have hword : nextWord s.randomWord = nextWord^[s.packetsMet + 1] seed := by
    rw [h.word, Function.iterate_succ_apply']
  rw [drawLoss_of_positive hpositive, h.rate, one_loses, hword]
  exact ⟨rfl, rfl⟩

/-- Nobody is tracked after an event if nobody was before it and no packet was delivered. -/
theorem Drawn.tracked (h : s.Drawn seed) (hidle : s.Idle)
    (hnone : (handle (s, event)).metrics.packetsObserved = 0) :
    (handle (s, event)).node.resource.tracked = [] := by
  have hresource : Resource.SettledAtMost (s.node.resource.reactAll (s.told event)).state
      (handle (s, event)).node.resource := handle_resource hidle
  rw [(handle_draws s event).observed, Nat.add_eq_zero_iff] at hnone
  rw [hresource.tracked]
  refine Resource.tracked_reactAll_of_unheard (h.silent hnone.1) fun a now htold => ?_
  rw [if_pos (arrives_of_told htold)] at hnone
  cases hnone.2

/-- **One event.** -/
theorem Drawn.handle (h : s.Drawn seed) (hidle : s.Idle) (event : Event) :
    (handle (s, event)).Drawn seed := by
  have hdraws := handle_draws s event
  have hmet := hdraws.packetsMet
  have hobserved := hdraws.observed
  have hword := hdraws.word
  obtain ⟨hdrawn, hlost⟩ := h.drawLoss
  rw [hdrawn] at hword
  rw [hlost, Bool.not_not] at hobserved
  cases harrives : s.arrives event with
  | false =>
    rw [harrives] at hmet hobserved hword
    refine ⟨(handle_lossRate s event).trans h.rate, ?_, ?_, h.tracked hidle⟩
    · rw [hmet, hword]
      exact h.word
    · rw [hmet, hobserved]
      exact h.observed
  | true =>
    rw [harrives, if_pos rfl] at hmet hword
    rw [harrives, Bool.true_and] at hobserved
    refine ⟨(handle_lossRate s event).trans h.rate, ?_, ?_, h.tracked hidle⟩
    · rw [hmet, hword]
    · rw [hmet, hobserved, List.range_succ, List.countP_append, List.countP_singleton, h.observed]

/-! ### Commands -/

theorem Drawn.due (h : s.Drawn seed) (hdue : s.due? stop = some (s₀, event)) : s₀.Drawn seed := by
  obtain ⟨time, number, rest, -, -, rfl⟩ := due?_eq_some_iff.mp hdue
  rw [advance_frame]
  exact h.of_same rfl rfl rfl rfl rfl

/-- **One command.** -/
theorem Drawn.obey (h : s.Drawn seed) (hidle : s.Idle) (c : Command) : (s.obey c).Drawn seed := by
  cases c with
  | action | fetch | observe => exact h.of_same rfl rfl rfl rfl rfl
  | turn stop =>
    cases hdue : s.due? stop with
    | none =>
      rw [obey_turn_of_none hdue, advance_frame]
      exact h.of_same rfl rfl rfl rfl rfl
    | some x =>
      rw [obey_turn_of_some hdue]
      exact (h.due hdue).handle (hidle.due hdue) x.2

/-- **Several commands.** -/
theorem Drawn.obeyAll (h : s.Drawn seed) (hidle : s.Idle) (cs : List Command) :
    (s.obeyAll cs).Drawn seed := by
  have hstep : ∀ (s : Simulation cfg) (c : Command), s.Idle ∧ s.Drawn seed → True →
      (s.obey c).Idle ∧ (s.obey c).Drawn seed :=
    fun s c hs _ => ⟨hs.1.obey c, hs.2.obey hs.1 c⟩
  exact (obeyAll_induction hstep ⟨hidle, h⟩ fun _ _ => trivial).2

/-- Nothing has been drawn when a simulation has been set up. -/
theorem build_drawn (c : Scenario) (cfg : Settings) (hloss : c.lossRate = .one) :
    (c.build cfg).Drawn c.seed := by
  have hstart : (c.start cfg).Drawn c.seed := by
    have hnobody : (Resource.startingAt cfg .boot).tracked = [] :=
      List.eq_nil_iff_forall_not_mem.mpr fun e he =>
        List.not_mem_nil (Resource.heard_startingAt cfg .boot e he)
    have hresource : (ofSeed cfg c.seed).node.resource = .startingAt cfg .boot :=
      congrArg Node.resource (rescheduleTimer_node _)
    have hseed : ({ ofSeed cfg c.seed with lossRate := c.lossRate, fetchDelay := c.fetchDelay } :
        Simulation cfg).Drawn c.seed := by
      refine ⟨hloss, rfl, rfl, fun _ => ?_⟩
      rw [← hnobody, ← hresource]
    rw [Scenario.start]
    cases c.snapshotInterval with
    | none => exact hseed
    | some interval => exact hseed.of_same rfl rfl rfl rfl rfl
  rw [Scenario.build_eq]
  exact hstart.obeyAll (start_onTime c cfg).idle _

/-! ### From a scenario on -/

/-- **What comes through** where every packet should be lost. A word, as a fraction, is rounded below
the whole unless it is one of the 1024 largest ones. So a simulation with a share of one, whatever is
done to it, has delivered as many packets as there are such words among those that were drawn, one for
each packet that was delivered or lost. If there are none, no packet was delivered and nobody is
tracked. But whatever the seed is, there is one among the first two to the 64 words. -/
theorem total_loss_spares_whole_words (cfg : Settings) (c : Scenario) (hloss : c.lossRate = .one)
    (cs : List Command) :
    let s := (c.build cfg).obeyAll cs
    let drawn := s.metrics.packetsObserved + s.metrics.packetsDropped
    (∀ word : UInt64, roundTo53 word.toNat < powerOfTwo 64 ↔ isWhole word = false) ∧
    s.metrics.packetsObserved =
      (List.range drawn).countP (fun k => isWhole (nextWord^[k + 1] c.seed)) ∧
    ((∀ k < drawn, isWhole (nextWord^[k + 1] c.seed) = false) →
      s.metrics.packetsObserved = 0 ∧ s.node.resource.tracked = []) ∧
    ∃ k < 2 ^ 64, isWhole (nextWord^[k + 1] c.seed) = true := by
  intro s drawn
  have hdrawn : s.Drawn c.seed := (build_drawn c cfg hloss).obeyAll (build_idle c cfg) cs
  refine ⟨fun word => ?_, hdrawn.observed, fun hnone => ?_, ?_⟩
  · rw [roundTo53_lt_iff (show word.toNat < powerOfTwo 64 from word.toNat_lt), isWhole,
      decide_eq_false_iff_not, Nat.not_le]
  · have hobserved : s.metrics.packetsObserved = 0 := by
      rw [hdrawn.observed, List.countP_eq_zero]
      intro k hk
      rw [hnone k (List.mem_range.mp hk)]
      exact Bool.false_ne_true
    exact ⟨hobserved, hdrawn.silent hobserved⟩
  · obtain ⟨k, hk, hlargest⟩ := exists_iterate_nextWord c.seed 18446744073709551615
    refine ⟨k, hk, ?_⟩
    rw [hlargest]
    decide

/-- All packets should be lost, and the second word is the largest one: the first packet is lost and the
second one is delivered. -/
theorem total_loss_spares_whole_words_of_two :
    let cfg : Settings := ⟨2, .ofMillis 5, .ofMillis 9, .ofMillis 4⟩
    let neighbor : Address := .ofGroups 0xfe80 0 0 0 0 0 0 1
    let c : Scenario :=
      { Scenario.stock with
          seed := 16190956604099781289
          lossRate := .one
          actions := [(.boot, .startTraffic neighbor (.ofMillis 1))] }
    let cs : List Command := List.replicate 3 (.turn (.ofMillis 1))
    let s := (c.build cfg).obeyAll cs
    c.lossRate = .one ∧ s.metrics.packetsDropped = 1 ∧ s.metrics.packetsObserved = 1 ∧
      s.metrics.packetsObserved =
        (List.range (s.metrics.packetsObserved + s.metrics.packetsDropped)).countP
          (fun k => isWhole (nextWord^[k + 1] c.seed)) ∧
      isWhole (nextWord^[1] c.seed) = false ∧ isWhole (nextWord^[2] c.seed) = true := by
  intro cfg neighbor c cs
  have hloss : c.lossRate = .one := rfl
  refine ⟨hloss, ?_, ?_, (total_loss_spares_whole_words cfg c hloss cs).2.1, ?_, ?_⟩
  all_goals decide +kernel

/-- The packet is delivered and its sender tracked although every packet should be lost: the word that is
drawn for it is the largest one, and the whole as a fraction. -/
theorem total_loss_delivers :
    let cfg : Settings := ⟨20, .ofMillis 30000, .ofMillis 30000, .ofMillis 1000⟩
    let neighbor : Address := .ofGroups 0xfe80 0 0 0 0 0 0 1
    let c : Scenario :=
      { Scenario.stock with
          seed := 9137839865990459062
          lossRate := .one
          actions := [(.boot, .startTraffic neighbor (.ofMillis 1000))] }
    let s := (c.build cfg).runUntil .boot
    c.lossRate = .one ∧ roundTo53 (nextWord c.seed).toNat = powerOfTwo 64 ∧
      s.metrics.packetsObserved = 1 ∧ s.metrics.packetsDropped = 0 ∧
      s.node.resource.tracked = [⟨neighbor, .boot⟩] := by
  decide +kernel

end Simulation

end ObservableTree
