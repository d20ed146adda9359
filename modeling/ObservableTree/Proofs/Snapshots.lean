import ObservableTree.Proofs.Crowd

/-!
# Snapshots and the document

A snapshot asks the table of neighbors for each route whether it is shown. The document is written
from a copy of the table, spelled, cut into blocks, put together again and parsed. Both of them
describe the same state of the network:

* `Snapshot.Consistent` — what a snapshot shows are the routes through tracked neighbors;
* `snapshot_consistent` — so it is in the snapshot of any state, `obeyAll_consistent` — and in all
  that is recorded, whatever is done;
* `snapshot_visible`, `snapshot_parent` — a snapshot and the view that the document is written from;
* `snapshots_agree` — what is recorded and what an observer gets in the same state,
  `snapshots_disagree_of_crowd` — and where it does not agree.
-/

namespace ObservableTree

/-- Shown are the destinations of the routes whose next hop is tracked, in the order of the routes,
and the number of all others is told. -/
structure Snapshot.Consistent (x : Snapshot) : Prop where
  visible : x.visible = (x.routes.filter fun r => r.nextHop ∈ x.tracked).map Route.destination
  hidden : x.hiddenRoutes? = some (x.routes.countP fun r => r.nextHop ∉ x.tracked)

/-- The rest of a row is what is left out of it. -/
theorem Snapshot.consistent_of_visible {x : Snapshot}
    (h : x.visible = (x.routes.filter fun r => r.nextHop ∈ x.tracked).map Route.destination) :
    x.Consistent := by
  have hshown : x.visible.length = x.routes.countP fun r => r.nextHop ∈ x.tracked := by
    rw [h, List.length_map, ← List.countP_eq_length_filter]
  have hall : x.routes.length = (x.routes.countP fun r => r.nextHop ∈ x.tracked) +
      x.routes.countP fun r => r.nextHop ∉ x.tracked := by
    rw [List.length_eq_countP_add_countP fun r : Route => decide (r.nextHop ∈ x.tracked)]
    congr 2
    funext r
    simp only [decide_eq_true_eq]
  refine ⟨h, ?_⟩
  rw [hiddenRoutes?, if_pos (by omega)]
  congr 1
  omega

namespace Simulation

variable {cfg : Settings} {s : Simulation cfg}

/-! ### Snapshots of a state -/

theorem snapshots_takeSnapshot (s : Simulation cfg) :
    s.takeSnapshot.metrics.snapshots = s.metrics.snapshots ++ [s.snapshot] := rfl

/-- A snapshot shows the children of the view that the document is written from. -/
theorem snapshot_visible (s : Simulation cfg) :
    s.snapshot.visible = (View.shown s.routing s.node.resource.table).children := rfl

/-- The document shows the parent of a snapshot, under the prefix of the tree if there is one. -/
theorem snapshot_parent (s : Simulation cfg) :
    (View.shown s.routing s.node.resource.table).parent =
      match s.routing.dagPrefix with
      | some p => s.snapshot.parent.map fun a => a.withPrefixGroup p
      | none => s.snapshot.parent := by
  show View.shownParent s.routing = _
  rw [View.shownParent]
  cases s.routing.dagPrefix with
  | some p => rfl
  | none => exact Option.map_id'

theorem snapshot_consistent (s : Simulation cfg) : s.snapshot.Consistent :=
  Snapshot.consistent_of_visible (View.shownChildren_eq s.routing s.node.resource.table)

/-! ### Whatever is done -/

/-- **All snapshots that were recorded are consistent** when they were before. -/
theorem obeyAll_consistent (h : ∀ x ∈ s.metrics.snapshots, x.Consistent) (cs : List Command) :
    ∀ x ∈ (s.obeyAll cs).metrics.snapshots, x.Consistent := by
  have hstep : ∀ (s : Simulation cfg) (k : Command), (∀ x ∈ s.metrics.snapshots, x.Consistent) →
      k ∈ cs → ∀ x ∈ (s.obey k).metrics.snapshots, x.Consistent := by
    intro s k h _ x hx
    rcases obey_record s k hx with hold | ⟨t, rfl⟩
    · exact h x hold
    · exact snapshot_consistent t
  exact obeyAll_induction hstep h fun _ hk => hk

/-- **Snapshots and the document agree.** A simulation is set up by a scenario, and commands are
given to it in any order, among them turns of runs. The snapshot that is taken then, and what any
observer gets if it fetches in the same state, show the same children in the same order and the same
parent, which the document shows with the leading group of the tree's prefix if there is one. And
each snapshot that was recorded shows exactly the destinations of the routes through tracked
neighbors, so that the number of hidden routes is the number of routes through others, and there is
always such a number.

An offset has 32 bits. So a read may start too early if the document is longer than 2^32 bytes and the
last reads of the observer ought to start beyond that. What it gets is known if all reads that bring
something ought to start at an offset that there is. The size of a block has 64 bits. -/
theorem snapshots_agree (cfg : Settings) (c : Scenario) (cs : List Command) :
    let s := (c.build cfg).obeyAll cs
    let length := (s.node.resource.document s.routing).length
    (∃ snapshot, s.takeSnapshot.metrics.snapshots = s.metrics.snapshots ++ [snapshot] ∧
      snapshot.time = s.now ∧
      ∀ (o : Observer) (x : Retrieval),
        (o.fetch s.node.resource (.steady s.routing) s.now).value.2 = .ok x →
        o.blockSize ≤ lastPosition →
        (∀ j < maxExchanges, j * o.blockSize < length → j * o.blockSize ≤ lastOffset) →
        x.view.children = snapshot.visible ∧
          x.view.parent =
            match s.routing.dagPrefix with
            | some p => snapshot.parent.map fun a => a.withPrefixGroup p
            | none => snapshot.parent) ∧
    ∀ x ∈ s.takeSnapshot.metrics.snapshots,
      x.visible = (x.routes.filter fun r => r.nextHop ∈ x.tracked).map Route.destination ∧
        x.hiddenRoutes? = some (x.routes.countP fun r => r.nextHop ∉ x.tracked) := by
  intro s length
  refine ⟨⟨s.snapshot, snapshots_takeSnapshot s, rfl, fun o x hfetch hblock hrange => ?_⟩,
    fun x hx => ?_⟩
  · rw [Observer.fetch_view hfetch hblock hrange]
    exact ⟨(snapshot_visible s).symm, snapshot_parent s⟩
  · have hnone : ∀ x ∈ (c.build cfg).metrics.snapshots, x.Consistent := by
      rw [(build_untouched c cfg).2.2]
      exact nofun
    have hone : x.Consistent := by
      rcases List.mem_append.mp hx with hold | hnew
      · exact obeyAll_consistent hnone cs x hold
      · rw [List.mem_singleton.mp hnew]
        exact snapshot_consistent s
    exact ⟨hone.visible, hone.hidden⟩

/-- Two routes, one through a neighbor that sends and one through a silent neighbor, and a parent
under a prefix. An observer fetches sixteen bytes at a time. -/
theorem snapshots_agree_of_prefix :
    let cfg : Settings := ⟨2, .ofMillis 2, .ofMillis 9, .ofMillis 3⟩
    let heard : Address := .ofGroups 65152 0 0 0 0 0 0 1
    let silent : Address := .ofGroups 65152 0 0 0 0 0 0 2
    let child : Address := .ofGroups 8193 0 0 0 0 0 0 1
    let c : Scenario :=
      { Scenario.stock with
          dagPrefix := some (.ofGroups 8193 0 0 0 0 0 0 0)
          actions := [(.boot, .startTraffic heard (.ofMillis 5)), (.boot, .setParent heard),
            (.boot, .addRoute ⟨child, heard⟩), (.boot, .addRoute ⟨silent, silent⟩)] }
    let cs : List Command := List.replicate 12 (.turn (.ofMillis 2))
    let o : Observer := .ofBlockSize 16
    let s := (c.build cfg).obeyAll cs
    let length := (s.node.resource.document s.routing).length
    o.blockSize ≤ lastPosition ∧
      (∀ j < maxExchanges, j * o.blockSize < length → j * o.blockSize ≤ lastOffset) ∧
      ∃ x snapshot, (o.fetch s.node.resource (.steady s.routing) s.now).value.2 = .ok x ∧
        s.takeSnapshot.metrics.snapshots = s.metrics.snapshots ++ [snapshot] ∧
        x.view.children = snapshot.visible ∧ snapshot.visible = [child] ∧
        x.view.parent = some child ∧ snapshot.hiddenRoutes? = some 1 := by
  intro cfg heard silent child c cs o
  have hlength : (((c.build cfg).obeyAll cs).node.resource.document
      ((c.build cfg).obeyAll cs).routing).length ≤ 4294967296 := by decide +kernel
  have hblock : o.blockSize ≤ lastPosition := by decide
  have hrange : ∀ j < maxExchanges, j * o.blockSize <
      (((c.build cfg).obeyAll cs).node.resource.document ((c.build cfg).obeyAll cs).routing).length →
        j * o.blockSize ≤ lastOffset :=
    fun _ _ hless => Nat.le_of_lt_succ (Nat.lt_of_lt_of_le hless hlength)
  have hok : (o.fetch ((c.build cfg).obeyAll cs).node.resource
      (.steady ((c.build cfg).obeyAll cs).routing)
      ((c.build cfg).obeyAll cs).now).value.2.isOk = true := by decide +kernel
  have hrooted : ((c.build cfg).obeyAll cs).routing.dagPrefix =
      some (.ofGroups 8193 0 0 0 0 0 0 0) := by decide +kernel
  have hrecorded : ((c.build cfg).obeyAll cs).takeSnapshot.metrics.snapshots.getLast?.map
      (fun x => (x.visible, x.parent, x.hiddenRoutes?)) = some ([child], some heard, some 1) := by
    decide +kernel
  obtain ⟨⟨snapshot, hsnapshot, -, hagree⟩, -⟩ := snapshots_agree cfg c cs
  rw [hsnapshot, List.getLast?_concat, Option.map_some, Option.some_inj] at hrecorded
  obtain ⟨hvisible, hrest⟩ := Prod.mk.inj hrecorded
  obtain ⟨hparent, hhidden⟩ := Prod.mk.inj hrest
  cases hfetch : (o.fetch ((c.build cfg).obeyAll cs).node.resource
      (.steady ((c.build cfg).obeyAll cs).routing) ((c.build cfg).obeyAll cs).now).value.2 with
  | error cause =>
    rw [hfetch] at hok
    cases hok
  | ok x =>
    obtain ⟨hchildren, hviewParent⟩ := hagree o x hfetch hblock hrange
    rw [hrooted, hparent] at hviewParent
    exact ⟨hblock, hrange, x, snapshot, hfetch, hsnapshot, hchildren, hvisible, hviewParent, hhidden⟩

/-- A node has routes to more than a hundred million children, which its document lists in more than
2^32 bytes. An observer with blocks that are longer than that gets the document in two reads, and one
child twice, as it lies behind the range of the offsets and within the first block. -/
theorem snapshots_disagree_of_crowd :
    let s := crowded 102261127
    let o : Observer := .ofBlockSize 4294967337
    ∃ x snapshot, (o.fetch s.node.resource (.steady s.routing) s.now).value.2 = .ok x ∧
      s.takeSnapshot.metrics.snapshots = s.metrics.snapshots ++ [snapshot] ∧
      x.view.children ≠ snapshot.visible := by
  intro s o
  have hn : 102261127 ≤ View.crowdLimit := by decide
  have hfront : 102261125 + 2 = 102261127 := by decide
  have hplace : 45 + 42 * 102261125 = lastOffset := by decide
  have hblock : o.blockSize = lastOffset + 42 := by decide
  obtain ⟨x, hfetch, hlength⟩ := crowded_fetch hn hfront hplace hblock
  refine ⟨x, s.snapshot, hfetch, snapshots_takeSnapshot s, fun hsame => ?_⟩
  have hvisible : s.snapshot.visible.length = 102261127 := by
    rw [snapshot_visible, crowded_shown hn, View.crowd_length]
  rw [hsame, hvisible] at hlength
  exact absurd hlength (by decide)

end Simulation

end ObservableTree
