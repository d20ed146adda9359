import ObservableTree.Proofs.BoundedMap
import ObservableTree.Proofs.Freshness
import ObservableTree.Proofs.Sweeping

/-!
# Rebuilding a resource from its traces

The traces of a resource are complete: somebody who sees nothing else knows whom it tracks and since
when, when it will notify and whether the next read starts afresh.

* `Replica` — what can be rebuilt, `Replica.follow` — one trace after another, `Replica.Fits` — what
  a trace reports agrees with what was rebuilt so far;
* `Mirrors` — the replica agrees with the resource;
* `Replays` — a row of traces leads the replica from one state of the resource to another, and each
  of them fits;
* `replays_timer`, `replays_event`, `replays_read` — the traces of one call;
* `run_replayed` — the traces of any run of calls that do not overlap.
-/

namespace ObservableTree

/-! ### The replica -/

/-- What can be rebuilt from traces. -/
structure Replica where
  /-- When each tracked neighbor was last heard. -/
  heard : Finmap fun _ : Address => Instant
  deadline : Option Instant
  /-- The changes since the last notification, as far as the timer counts. -/
  changes : Nat
  fresh : Bool

namespace Replica

/-- The replica of a resource that has traced nothing yet. -/
def blank : Replica := ⟨∅, none, 0, false⟩

/-- The replica after one more trace. -/
def follow (m : Replica) : Trace → Replica
  | .packetObserved now source .inserted => { m with heard := m.heard.insert source now }
  | .packetObserved now source .refreshed => { m with heard := m.heard.insert source now }
  | .neighborEvicted _ entry => { m with heard := m.heard.erase entry.address }
  | .debounceArmed _ _ _ fireAt =>
    { m with deadline := some fireAt, changes := min (m.changes + 1) lastCount }
  | .notificationFired _ _ => { m with deadline := none, changes := 0, fresh := true }
  | .chunkServed _ _ _ _ true => { m with fresh := false }
  | _ => m

/-- The replica after several more traces. -/
def followAll (m : Replica) (ts : List Trace) : Replica := ts.foldl follow m

/-- A trace reports what the replica says: the number of slots in use, when the evicted neighbor was
last heard, and how many changes there were. -/
def Fits (m : Replica) : Trace → Prop
  | .neighborTracked _ _ occupied => occupied = m.heard.keys.card
  | .neighborEvicted _ entry => m.heard.lookup entry.address = some entry.lastSeen
  | .notificationFired _ coalesced => coalesced = m.changes
  | _ => True

/-- Each trace fits what was rebuilt from those before it. -/
def FitsAll (m : Replica) : List Trace → Prop
  | [] => True
  | t :: ts => m.Fits t ∧ (m.follow t).FitsAll ts

theorem followAll_append (m : Replica) (ts us : List Trace) :
    m.followAll (ts ++ us) = (m.followAll ts).followAll us := List.foldl_append

theorem fitsAll_append (m : Replica) (ts us : List Trace) :
    m.FitsAll (ts ++ us) ↔ m.FitsAll ts ∧ (m.followAll ts).FitsAll us := by
  induction ts generalizing m with
  | nil => simp [FitsAll, followAll]
  | cons t ts ih => simp [FitsAll, followAll, ih, and_assoc]

end Replica

/-! ### Agreement -/

namespace Resource

variable {cfg : Settings}

/-- The replica agrees with the resource. -/
structure Mirrors (m : Replica) (r : Resource cfg) : Prop where
  distinct : r.table.Distinct
  heard : ∀ e : Entry, m.heard.lookup e.address = some e.lastSeen ↔ e ∈ r.tracked
  deadline : m.deadline = r.pendingNotice
  changes : m.changes = r.debounce.coalesced
  fresh : m.fresh = r.fresh

/-- A replica that follows these traces comes to agree with this state of the resource, and the
traces fit. -/
def Replays (m : Replica) (ts : List Trace) (r : Resource cfg) : Prop :=
  m.FitsAll ts ∧ Mirrors (m.followAll ts) r

variable {m : Replica} {r r' : Resource cfg} {ts us : List Trace}

theorem Replays.trans (h : Replays m ts r)
    (hmore : Mirrors (m.followAll ts) r → Replays (m.followAll ts) us r') :
    Replays m (ts ++ us) r' := by
  obtain ⟨hfits, hmirrors⟩ := hmore h.2
  refine ⟨(m.fitsAll_append ts us).mpr ⟨h.1, hfits⟩, ?_⟩
  rw [Replica.followAll_append]
  exact hmirrors

theorem mirrors_blank (cfg : Settings) (t : Instant) :
    Mirrors Replica.blank (startingAt cfg t) where
  distinct := NeighborTable.distinct_ofCapacity cfg.maxTracked
  heard e := by simp [Replica.blank, tracked, startingAt, NeighborTable.ofCapacity,
    NeighborTable.entries]
  deadline := rfl
  changes := rfl
  fresh := rfl

/-- What the replica knows of the neighbors is the map that the table is. -/
theorem Mirrors.heard_eq (h : Mirrors m r) : m.heard = r.table.toMap :=
  NeighborTable.eq_toMap_of_lookup h.distinct h.heard

/-- The replica knows as many neighbors as there are slots in use. -/
theorem Mirrors.card (h : Mirrors m r) : m.heard.keys.card = r.table.length := by
  rw [h.heard_eq, NeighborTable.card_toMap h.distinct]

/-! ### Packets and changes -/

/-- The resource after an observation that was not dropped. -/
theorem Mirrors.observed (h : Mirrors m r) {source : Address} {now : Instant}
    (hkept : (r.table.observe source now).2 ≠ .dropped) :
    Mirrors { m with heard := m.heard.insert source now } (r.onPacket source now).state where
  distinct := h.distinct.observe source now
  heard e := by
    show (m.heard.insert source now).lookup _ = _ ↔ e ∈ (r.table.observe source now).1.entries
    rw [h.heard_eq, ← NeighborTable.toMap_observe h.distinct hkept]
    exact NeighborTable.lookup_toMap_iff (h.distinct.observe source now)
  deadline := h.deadline
  changes := h.changes
  fresh := h.fresh

theorem replays_packet (h : Mirrors m r) (source : Address) (now : Instant) :
    Replays m (r.onPacket source now).traces (r.onPacket source now).state := by
  have htraces : (r.onPacket source now).traces = observationTraces now source
      (r.table.observe source now).2 (r.table.observe source now).1.length := rfl
  rcases NeighborTable.observe_cases r.table source now with ⟨hkind, -⟩ | ⟨hkind, -⟩ |
    ⟨hkind, -, hsame⟩
  · rw [htraces, hkind]
    exact ⟨⟨trivial, trivial⟩, h.observed (by simp [hkind])⟩
  · have hafter : Mirrors { m with heard := m.heard.insert source now }
        (r.onPacket source now).state := h.observed (by simp [hkind])
    rw [htraces, hkind]
    exact ⟨⟨trivial, hafter.card.symm, trivial⟩, hafter⟩
  · have hstate : (r.onPacket source now).state = r := by
      show { r with table := (r.table.observe source now).1 } = r
      rw [hsame]
    rw [htraces, hkind, hstate]
    exact ⟨⟨trivial, trivial, trivial⟩, h⟩

theorem replays_change (h : Mirrors m r) (change : RouteChange) (destination : Address)
    (now : Instant) : Replays m (r.onChange change destination now).traces
      (r.onChange change destination now).state := by
  unfold onChange
  split
  · refine ⟨⟨trivial, trivial⟩, h.distinct, h.heard, rfl, ?_, h.fresh⟩
    show min (m.changes + 1) lastCount = _
    rw [h.changes]
    rfl
  · exact ⟨⟨trivial, trivial⟩, h⟩

theorem replays_event (h : Mirrors m r) (event : TopologyEvent) (now : Instant) :
    Replays m (r.onEvent event now).traces (r.onEvent event now).state := by
  cases event with
  | packet source => exact replays_packet h source now
  | routeChanged change route count => exact replays_change h change route.destination now

/-! ### Timers -/

/-- The resource after one eviction. -/
theorem Mirrors.evicted (h : Mirrors m r) {now : Instant} {threshold : Span} {entry : Entry}
    (hfound : (r.table.sweep now threshold).2 = some entry) (nextSweep : Instant) :
    Mirrors { m with heard := m.heard.erase entry.address }
      ({ r with table := (r.table.sweep now threshold).1, nextSweep := nextSweep } :
        Resource cfg) where
  distinct := h.distinct.sweep now threshold
  heard e := by
    show (m.heard.erase entry.address).lookup _ = _ ↔ e ∈ (r.table.sweep now threshold).1.entries
    rw [h.heard_eq, ← NeighborTable.toMap_sweep h.distinct hfound]
    exact NeighborTable.lookup_toMap_iff (h.distinct.sweep now threshold)
  deadline := h.deadline
  changes := h.changes
  fresh := h.fresh

/-- Another next sweep changes nothing that is traced. -/
theorem Mirrors.postponed (h : Mirrors m r) (nextSweep : Instant) :
    Mirrors m ({ r with nextSweep := nextSweep } : Resource cfg) :=
  ⟨h.distinct, h.heard, h.deadline, h.changes, h.fresh⟩

/-- **One pass** of the sweeps, behind those that have been traced. -/
theorem replays_sweepPass {now : Instant} {l : SweepLoop}
    (h : Replays m (l.evicted.map (.neighborEvicted now))
      ({ r with table := l.table, nextSweep := l.nextSweep } : Resource cfg)) :
    Replays m ((sweepPass cfg now l).evicted.map (.neighborEvicted now))
      ({ r with
        table := (sweepPass cfg now l).table
        nextSweep := (sweepPass cfg now l).nextSweep } : Resource cfg) := by
  rcases sweepPass_cases cfg now l with ⟨entry, hfound, hpass⟩ | ⟨-, hpass⟩
  · rw [hpass, List.map_append]
    refine h.trans fun hmirrors => ⟨⟨?_, trivial⟩, hmirrors.evicted hfound _⟩
    exact (hmirrors.heard entry).mpr (List.mem_of_find?_eq_some hfound)
  · rw [hpass]
    exact ⟨h.1, h.2.postponed _⟩

theorem replays_timer (h : Mirrors m r) (now : Instant) :
    Replays m (r.onTimer now).traces (r.onTimer now).state := by
  have hloop : ∀ l, sweepRounds cfg now (r.table.length + 1) ⟨r.table, r.nextSweep, []⟩ = some l →
      Replays m (l.evicted.map (.neighborEvicted now))
        ({ r with table := l.table, nextSweep := l.nextSweep } : Resource cfg) := by
    intro l hend
    refine sweepRounds_induction (motive := fun l => Replays m (l.evicted.map (.neighborEvicted now))
      ({ r with table := l.table, nextSweep := l.nextSweep } : Resource cfg)) ?_ ?_ hend
    · exact fun _ _ hl => replays_sweepPass hl
    · exact ⟨trivial, h⟩
  rcases onTimer_cases r now with ⟨-, hx⟩ | ⟨l, hend, -, ⟨-, hx⟩ | ⟨-, hx⟩⟩
  · rw [hx]
    exact ⟨trivial, h⟩
  · rw [hx]
    exact (hloop l hend).trans fun hswept =>
      ⟨⟨hswept.changes.symm, trivial⟩, hswept.distinct, hswept.heard, rfl, rfl, rfl⟩
  · rw [hx]
    exact hloop l hend

/-! ### Reads -/

/-- The traces of a read that nothing overlaps. -/
theorem replays_read (h : Mirrors m r) (g : Routing) (q : Request) (buffer : List UInt8)
    (offset : Offset) : Replays m (r.read g q buffer offset []).traces
      (r.read g q buffer offset []).state := by
  by_cases hrefused : q.acceptsJson = false ∨ buffer = []
  · obtain ⟨cause, hread⟩ := read_of_refusal r g offset [] hrefused
    rw [hread]
    exact ⟨⟨trivial, trivial⟩, h⟩
  · rw [not_or, Bool.not_eq_false] at hrefused
    rw [read_of_room hrefused.1 hrefused.2, answer]
    split
    next hnothing =>
      rw [hnothing, settle_zero]
      exact ⟨⟨trivial, trivial⟩, h⟩
    next hsome =>
      rw [settle_self (Nat.pos_of_ne_zero hsome)]
      refine ⟨⟨trivial, trivial⟩, ?_⟩
      cases hfresh : r.fresh with
      | true => exact ⟨h.distinct, h.heard, h.deadline, h.changes, rfl⟩
      | false => exact ⟨h.distinct, h.heard, h.deadline, h.changes, h.fresh.trans hfresh⟩

end Resource

/-! ### Runs -/

/-- Whether nothing comes in while the call is going on. -/
def Call.isAlone : Call → Bool
  | .input _ => true
  | .read _ _ _ _ _ meanwhile => meanwhile.isEmpty

namespace Resource

variable {cfg : Settings} {m : Replica} {r : Resource cfg}

/-- **One call.** -/
theorem replays_call (h : Mirrors m r) {c : Call} (halone : c.isAlone = true) :
    Replays m (r.traced c) (r.call c) := by
  cases c with
  | input i =>
    cases i with
    | event event now => exact replays_event h event now
    | timer now => exact replays_timer h now
  | read now g q buffer offset meanwhile =>
    rw [List.isEmpty_iff.mp halone]
    exact replays_read h g q buffer offset

theorem replays_calls (h : Mirrors m r) (cs : List Call) (halone : ∀ c ∈ cs, c.isAlone = true) :
    Replays m (r.trail cs) (r.calls cs) := by
  induction cs generalizing m r with
  | nil => exact ⟨trivial, h⟩
  | cons c cs ih =>
    refine Replays.trans (replays_call h (halone c List.mem_cons_self)) fun hc => ?_
    exact ih hc fun d hd => halone d (List.mem_cons_of_mem c hd)

/-- **Complete traces.** Follow the traces of any run of events, timer calls and reads that do not
overlap, at whatever instants. Each trace fits: a neighbor that is evicted was last heard when its
trace says, and the reported numbers of slots in use and of changes are those that were rebuilt. And
afterwards the neighbors that were rebuilt are those that are tracked, each with the instant at
which it was last heard, and the deadline and the mark for the next read are those of the
resource. -/
theorem run_replayed (cfg : Settings) (t : Instant) (cs : List Call)
    (halone : ∀ c ∈ cs, c.isAlone = true) :
    let r := (startingAt cfg t).calls cs
    let m := Replica.blank.followAll ((startingAt cfg t).trail cs)
    Replica.blank.FitsAll ((startingAt cfg t).trail cs) ∧
      (∀ e : Entry, m.heard.lookup e.address = some e.lastSeen ↔ e ∈ r.tracked) ∧
      m.deadline = r.pendingNotice ∧ m.fresh = r.fresh := by
  intro r m
  obtain ⟨hfits, hmirrors⟩ := replays_calls (mirrors_blank cfg t) cs halone
  exact ⟨hfits, hmirrors.heard, hmirrors.deadline, hmirrors.fresh⟩

/-- Three neighbors come in for two slots and one of them goes silent; a notification is raised and
read. Whoever follows the traces knows that one neighbor is left, and since when. -/
theorem run_replayed_of_three :
    let cfg : Settings := ⟨2, .ofMillis 3, .ofMillis 5, .ofMillis 9⟩
    let hop : UInt16 → Address := fun n => .ofGroups 65152 0 0 0 0 0 0 n
    let packet : UInt16 → Nat → Call := fun n now => .input (.event (.packet (hop n)) (.ofMillis now))
    let cs : List Call := [packet 1 1, packet 2 2, packet 3 2,
      .input (.event (.routeChanged .routeAdded ⟨hop 4, hop 1⟩ 1) (.ofMillis 3)), packet 1 9,
      .input (.timer (.ofMillis 10)), .read (.ofMillis 10) .empty .any [0, 0, 0] .done []]
    let m := Replica.blank.followAll ((startingAt cfg .boot).trail cs)
    (∀ c ∈ cs, c.isAlone = true) ∧ Replica.blank.FitsAll ((startingAt cfg .boot).trail cs) ∧
      m.heard.lookup (hop 1) = some (.ofMillis 9) ∧ m.heard.lookup (hop 2) ≠ some (.ofMillis 2) ∧
      m.deadline = none ∧ m.fresh = false := by
  intro cfg hop packet cs m
  have halone : ∀ c ∈ cs, c.isAlone = true := by decide
  obtain ⟨hfits, hheard, hdeadline, hfresh⟩ := run_replayed cfg .boot cs halone
  have htracked : ((startingAt cfg .boot).calls cs).tracked = [⟨hop 1, .ofMillis 9⟩] := by
    decide +kernel
  rw [htracked] at hheard
  refine ⟨halone, hfits, (hheard ⟨hop 1, .ofMillis 9⟩).mpr (by simp), ?_, ?_, ?_⟩
  · intro hother
    have hmem := (hheard ⟨hop 2, .ofMillis 2⟩).mp hother
    revert hmem
    decide +kernel
  · rw [hdeadline]
    decide +kernel
  · rw [hfresh]
    decide +kernel

end Resource

end ObservableTree
