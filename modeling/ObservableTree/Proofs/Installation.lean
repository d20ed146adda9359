import Mathlib.Data.Set.Card
import ObservableTree.Proofs.Document
import ObservableTree.Proofs.Untouched

/-!
# Routes in the order of their installation

The table of routes shows what was done to it: which routes stand, in which order they were installed,
and the next hop that each of them was given last. An installed route that is added again keeps its
place, and one that is added after it was removed comes behind all others:

* `RoutingEdit`, `Routing.editAll` — what can be done to the protocol's state;
* `Routing.Standing`, `InstalledBefore`, `Latest` — what a row of edits tells about the routes, without
  a look at the table;
* `Routing.Records` — the table agrees with all of it, `Records.edit` — and so it does after one more
  edit;
* `Simulation.obeyAll_routing` — the routes of a simulation come from the actions that were carried out;
* `Routing.routes_in_installation_order` — hence no destination is ever listed twice, neither in the table
  nor in a document.
-/

namespace ObservableTree

/-! ### Edits -/

/-- What can be done to the protocol's state. -/
inductive RoutingEdit where
  | add (route : Route)
  | remove (destination : Address)
  | setParent (parent : Option Address)
  | setPrefix (dagPrefix : Option Address)
deriving DecidableEq

namespace Routing

/-- One edit. -/
def edit (g : Routing) : RoutingEdit → Routing
  | .add route => g.addRoute route
  | .remove destination => g.removeRoute destination
  | .setParent parent => g.setParent parent
  | .setPrefix dagPrefix => g.setPrefix dagPrefix

/-- Several edits, one after another. -/
def editAll (g : Routing) (es : List RoutingEdit) : Routing := es.foldl edit g

theorem editAll_append (g : Routing) (es fs : List RoutingEdit) :
    g.editAll (es ++ fs) = (g.editAll es).editAll fs := List.foldl_append

/-! ### What the edits tell -/

/-- A route to a destination was added, and it has not been removed since. -/
def Standing (es : List RoutingEdit) (d : Address) : Prop :=
  ∃ front hop back, es = front ++ .add ⟨d, hop⟩ :: back ∧ .remove d ∉ back

/-- The edit with this number installed the route to a destination: before it there was none, and it
has not been removed since. -/
def InstalledBy (es : List RoutingEdit) (d : Address) (k : Nat) : Prop :=
  ∃ front hop back, es = front ++ .add ⟨d, hop⟩ :: back ∧ front.length = k ∧ ¬Standing front d ∧
    .remove d ∉ back

/-- The route to a destination was installed before the route to another one. -/
def InstalledBefore (es : List RoutingEdit) (d d' : Address) : Prop :=
  ∃ k l, InstalledBy es d k ∧ InstalledBy es d' l ∧ k < l

/-- A route was added, and no route to its destination has been added since. -/
def Latest (es : List RoutingEdit) (r : Route) : Prop :=
  ∃ front back, es = front ++ .add r :: back ∧ ∀ hop, .add ⟨r.destination, hop⟩ ∉ back

variable {es : List RoutingEdit} {e : RoutingEdit} {d d' : Address} {r : Route} {k l : Nat}

theorem not_standing_nil (d : Address) : ¬Standing [] d := by
  rintro ⟨front, hop, back, h, -⟩
  cases front with
  | nil => cases h
  | cons _ _ => cases h

theorem standing_snoc_iff :
    Standing (es ++ [e]) d ↔ (∃ hop, e = .add ⟨d, hop⟩) ∨ Standing es d ∧ e ≠ .remove d := by
  constructor
  · rintro ⟨front, hop, back, h, hkept⟩
    rcases List.eq_nil_or_concat back with rfl | ⟨back, x, rfl⟩
    · obtain ⟨-, hlast⟩ := List.append_inj' h rfl
      exact .inl ⟨hop, List.singleton_inj.mp hlast⟩
    · rw [List.concat_eq_append, ← List.cons_append, ← List.append_assoc] at h
      obtain ⟨hfront, hlast⟩ := List.append_inj' h rfl
      rw [List.concat_eq_append, ← List.singleton_inj.mp hlast, List.mem_append, not_or] at hkept
      exact .inr ⟨⟨front, hop, back, hfront, hkept.1⟩, fun he => hkept.2 (he ▸ List.mem_cons_self)⟩
  · rintro (⟨hop, rfl⟩ | ⟨⟨front, hop, back, rfl, hkept⟩, he⟩)
    · exact ⟨es, hop, [], rfl, List.not_mem_nil⟩
    · refine ⟨front, hop, back ++ [e], List.append_assoc _ _ _, ?_⟩
      rw [List.mem_append, List.mem_singleton, not_or]
      exact ⟨hkept, he.symm⟩

/-- Only a removal makes the installation of a route count no longer. -/
theorem InstalledBy.snoc (h : InstalledBy es d k) (he : e ≠ .remove d) :
    InstalledBy (es ++ [e]) d k := by
  obtain ⟨front, hop, back, rfl, hlength, hnew, hkept⟩ := h
  refine ⟨front, hop, back ++ [e], List.append_assoc _ _ _, hlength, hnew, ?_⟩
  rw [List.mem_append, List.mem_singleton, not_or]
  exact ⟨hkept, he.symm⟩

theorem InstalledBy.lt_length (h : InstalledBy es d k) : k < es.length := by
  obtain ⟨front, hop, back, rfl, rfl, -, -⟩ := h
  rw [List.length_append, List.length_cons]
  omega

theorem installedBy_snoc (h : ¬Standing es r.destination) :
    InstalledBy (es ++ [.add r]) r.destination es.length :=
  ⟨es, r.nextHop, [], rfl, rfl, h, List.not_mem_nil⟩

/-- Between two installations there would be a removal. -/
theorem InstalledBy.not_lt (h : InstalledBy es d k) (h' : InstalledBy es d l) : ¬k < l := by
  obtain ⟨front, hop, back, rfl, rfl, -, hkept⟩ := h
  obtain ⟨front', hop', back', hsplit, rfl, hnew, -⟩ := h'
  intro hlt
  obtain ⟨n, hn⟩ := Nat.exists_eq_add_of_lt hlt
  have hfront : front' = front ++ .add ⟨d, hop⟩ :: back.take n := by
    have htake : (front ++ .add ⟨d, hop⟩ :: back).take front'.length = front' := by
      rw [hsplit, List.take_left]
    rw [hn, Nat.add_assoc, List.take_length_add_append, List.take_succ_cons] at htake
    exact htake.symm
  exact hnew ⟨front, hop, _, hfront, fun hmem => hkept (List.mem_of_mem_take hmem)⟩

/-- No route was installed before itself. -/
theorem InstalledBefore.ne (h : InstalledBefore es d d') : d ≠ d' := by
  rintro rfl
  obtain ⟨k, l, hk, hl, hlt⟩ := h
  exact hk.not_lt hl hlt

theorem InstalledBefore.snoc (h : InstalledBefore es d d') (hd : e ≠ .remove d)
    (hd' : e ≠ .remove d') : InstalledBefore (es ++ [e]) d d' := by
  obtain ⟨k, l, hk, hl, hlt⟩ := h
  exact ⟨k, l, hk.snoc hd, hl.snoc hd', hlt⟩

theorem Latest.snoc (h : Latest es r) (he : ∀ hop, e ≠ .add ⟨r.destination, hop⟩) :
    Latest (es ++ [e]) r := by
  obtain ⟨front, back, rfl, hlast⟩ := h
  refine ⟨front, back ++ [e], List.append_assoc _ _ _, fun hop => ?_⟩
  rw [List.mem_append, List.mem_singleton, not_or]
  exact ⟨hlast hop, (he hop).symm⟩

theorem latest_snoc (es : List RoutingEdit) (r : Route) : Latest (es ++ [.add r]) r :=
  ⟨es, [], rfl, fun _ => List.not_mem_nil⟩

theorem Standing.exists_installedBy (h : Standing es d) : ∃ k, InstalledBy es d k := by
  induction es using List.reverseRecOn with
  | nil => exact absurd h (not_standing_nil d)
  | append_singleton es e ih =>
    by_cases hbefore : Standing es d
    · rcases standing_snoc_iff.mp h with ⟨hop, rfl⟩ | ⟨-, he⟩
      · exact (ih hbefore).imp fun k hk => hk.snoc nofun
      · exact (ih hbefore).imp fun k hk => hk.snoc he
    · rcases standing_snoc_iff.mp h with ⟨hop, rfl⟩ | ⟨hbefore', -⟩
      · exact ⟨es.length, installedBy_snoc (r := ⟨d, hop⟩) hbefore⟩
      · exact absurd hbefore' hbefore

/-! ### The table -/

theorem hasRoute_iff {g : Routing} :
    g.hasRoute d = true ↔ d ∈ g.routes.map Route.destination := by
  rw [hasRoute, List.any_eq_true, List.mem_map]
  simp only [decide_eq_true_eq]

/-- A route that gets another next hop takes the place of the one that was there. -/
theorem mem_rehop {routes : List Route} (hdistinct : (routes.map Route.destination).Nodup)
    {s : Route} (h : s ∈ rehop r routes) : s = r ∨ s ∈ routes ∧ s.destination ≠ r.destination := by
  fun_induction rehop r routes with
  | case1 => cases h
  | case2 t rest ht =>
    rw [List.map_cons, List.nodup_cons, ht] at hdistinct
    rcases List.mem_cons.mp h with hsame | hrest
    · exact .inl hsame
    · refine .inr ⟨List.mem_cons_of_mem t hrest, fun hdest => hdistinct.1 ?_⟩
      rw [← hdest]
      exact List.mem_map_of_mem hrest
  | case3 t rest ht ih =>
    rcases List.mem_cons.mp h with rfl | hrest
    · exact .inr ⟨List.mem_cons_self, ht⟩
    · exact (ih (List.nodup_cons.mp hdistinct).2 hrest).imp_right
        fun hs => ⟨List.mem_cons_of_mem t hs.1, hs.2⟩

/-- A route that is removed leaves the others in their order. -/
theorem removeRoute_split {g : Routing} (h : g.route? d = some r) :
    r.destination = d ∧ ∃ front back, g.routes = front ++ r :: back ∧
      g.removeRoute d = { g with routes := front ++ back } := by
  obtain ⟨hdest, front, back, hsplit, hfront⟩ := List.find?_eq_some_iff_append.mp h
  refine ⟨of_decide_eq_true hdest, front, back, hsplit, ?_⟩
  have hnone : ∀ s ∈ front, ¬decide (s.destination = d) = true := by
    intro s hs hsame
    have hother := hfront s hs
    rw [hsame] at hother
    cases hother
  have herased : (r :: back).eraseP (fun s => decide (s.destination = d)) = back :=
    List.eraseP_cons_of_pos hdest
  rw [removeRoute, hsplit, List.eraseP_append_right _ hnone, herased]

/-- The table agrees with what the edits tell. -/
structure Records (es : List RoutingEdit) (routes : List Route) : Prop where
  standing : ∀ d, d ∈ routes.map Route.destination ↔ Standing es d
  inOrder : (routes.map Route.destination).Pairwise (InstalledBefore es)
  latest : ∀ r ∈ routes, Latest es r

section

variable {routes : List Route}

theorem records_nil : Records [] [] := by
  refine ⟨fun d => ?_, List.Pairwise.nil, nofun⟩
  rw [List.map_nil, List.mem_nil_iff, false_iff]
  exact not_standing_nil d

theorem Records.distinct (h : Records es routes) : (routes.map Route.destination).Nodup :=
  h.inOrder.imp InstalledBefore.ne

/-- An edit that neither adds a route nor removes one that is there. -/
theorem Records.keep (h : Records es routes) (hadd : ∀ r, e ≠ .add r)
    (hremove : ∀ d ∈ routes.map Route.destination, e ≠ .remove d) : Records (es ++ [e]) routes := by
  refine ⟨fun d => ?_, ?_, fun r hr => (h.latest r hr).snoc fun _ => hadd _⟩
  · rw [standing_snoc_iff, ← h.standing d]
    constructor
    · exact fun hd => .inr ⟨hd, hremove d hd⟩
    · rintro (⟨hop, he⟩ | ⟨hd, -⟩)
      · exact absurd he (hadd _)
      · exact hd
  · exact h.inOrder.imp_of_mem fun hd hd' hbefore => hbefore.snoc (hremove _ hd) (hremove _ hd')

/-- A route to a destination that has one already. -/
theorem Records.add_known (h : Records es routes)
    (hknown : r.destination ∈ routes.map Route.destination) :
    Records (es ++ [.add r]) (rehop r routes) := by
  refine ⟨fun d => ?_, ?_, fun s hs => ?_⟩
  · rw [rehop_destinations, standing_snoc_iff, ← h.standing d]
    constructor
    · exact fun hd => .inr ⟨hd, nofun⟩
    · rintro (⟨hop, he⟩ | ⟨hd, -⟩)
      · cases he
        exact hknown
      · exact hd
  · rw [rehop_destinations]
    exact h.inOrder.imp fun hbefore => hbefore.snoc nofun nofun
  · rcases mem_rehop h.distinct hs with rfl | ⟨hs, hother⟩
    · exact latest_snoc es s
    · refine (h.latest s hs).snoc fun hop hsame => hother ?_
      cases hsame
      rfl

/-- A route to a destination that has none. -/
theorem Records.add_new (h : Records es routes)
    (hnew : r.destination ∉ routes.map Route.destination) :
    Records (es ++ [.add r]) (routes ++ [r]) := by
  have habsent : ¬Standing es r.destination := fun hs => hnew ((h.standing _).mpr hs)
  refine ⟨fun d => ?_, ?_, fun s hs => ?_⟩
  · rw [List.map_append, List.mem_append, h.standing d, standing_snoc_iff, List.map_singleton,
      List.mem_singleton]
    constructor
    · rintro (hd | rfl)
      · exact .inr ⟨hd, nofun⟩
      · exact .inl ⟨r.nextHop, rfl⟩
    · rintro (⟨hop, he⟩ | ⟨hd, -⟩)
      · cases he
        exact .inr rfl
      · exact .inl hd
  · rw [List.map_append, List.map_singleton]
    refine List.pairwise_append.mpr ⟨h.inOrder.imp fun hbefore => hbefore.snoc nofun nofun,
      List.pairwise_singleton _ _, fun d hd d' hd' => ?_⟩
    rw [List.mem_singleton.mp hd']
    obtain ⟨k, hk⟩ := ((h.standing d).mp hd).exists_installedBy
    exact ⟨k, es.length, hk.snoc nofun, installedBy_snoc habsent, hk.lt_length⟩
  · rcases List.mem_append.mp hs with hold | hlast
    · refine (h.latest s hold).snoc fun hop hsame => hnew ?_
      cases hsame
      exact List.mem_map.mpr ⟨s, hold, rfl⟩
    · rw [List.mem_singleton.mp hlast]
      exact latest_snoc es r

/-- A route that is removed. -/
theorem Records.remove {front back : List Route} (h : Records es (front ++ r :: back)) :
    Records (es ++ [.remove r.destination]) (front ++ back) := by
  have hsub : (front ++ back).Sublist (front ++ r :: back) :=
    List.Sublist.append_left (List.sublist_cons_self r back) front
  have hsub' := hsub.map Route.destination
  have hmem : ∀ d, d ∈ (front ++ r :: back).map Route.destination ↔
      d = r.destination ∨ d ∈ (front ++ back).map Route.destination := by
    intro d
    rw [List.map_append, List.map_cons, List.map_append, (List.perm_middle).mem_iff, List.mem_cons]
  have hgone : ∀ d ∈ (front ++ back).map Route.destination,
      RoutingEdit.remove r.destination ≠ .remove d := by
    intro d hd hsame
    have hdistinct := h.distinct
    rw [List.map_append, List.map_cons, List.nodup_middle, ← List.map_append] at hdistinct
    rw [RoutingEdit.remove.injEq] at hsame
    rw [← hsame] at hd
    exact (List.nodup_cons.mp hdistinct).1 hd
  refine ⟨fun d => ?_, ?_, fun s hs => (h.latest s (hsub.mem hs)).snoc nofun⟩
  · rw [standing_snoc_iff, ← h.standing d, hmem]
    constructor
    · exact fun hd => .inr ⟨.inr hd, hgone d hd⟩
    · rintro (⟨hop, he⟩ | ⟨rfl | hd, hother⟩)
      · cases he
      · exact absurd rfl hother
      · exact hd
  · exact (h.inOrder.sublist hsub').imp_of_mem fun hd hd' hbefore =>
      hbefore.snoc (hgone _ hd) (hgone _ hd')

end

/-- **One edit.** -/
theorem Records.edit {g : Routing} (h : Records es g.routes) (e : RoutingEdit) :
    Records (es ++ [e]) (g.edit e).routes := by
  cases e with
  | add r =>
    rw [Routing.edit, addRoute]
    by_cases hknown : g.hasRoute r.destination = true
    · rw [if_pos hknown]
      exact h.add_known (hasRoute_iff.mp hknown)
    · rw [if_neg hknown]
      exact h.add_new fun hmem => hknown (hasRoute_iff.mpr hmem)
  | remove d =>
    rw [Routing.edit]
    cases hroute : g.route? d with
    | none =>
      rw [removeRoute_of_none hroute]
      refine h.keep nofun fun d' hd' hsame => ?_
      obtain ⟨s, hs, rfl⟩ := List.mem_map.mp hd'
      have hother := List.find?_eq_none.mp hroute s hs
      rw [RoutingEdit.remove.injEq] at hsame
      exact hother (decide_eq_true hsame.symm)
    | some r =>
      obtain ⟨rfl, front, back, hsplit, hremoved⟩ := removeRoute_split hroute
      rw [hremoved]
      rw [hsplit] at h
      exact h.remove
  | setParent | setPrefix => exact h.keep nofun nofun

/-- **Whatever is done**, the table agrees with it. -/
theorem records_editAll (es : List RoutingEdit) : Records es (empty.editAll es).routes := by
  induction es using List.reverseRecOn with
  | nil => exact records_nil
  | append_singleton es e ih =>
    rw [editAll_append]
    exact ih.edit e

/-- The table has one route for each destination that has one. -/
theorem Records.length {routes : List Route} (h : Records es routes) :
    routes.length = {d | Standing es d}.ncard := by
  have hall : {d | Standing es d} = ((routes.map Route.destination).toFinset : Set Address) := by
    ext d
    rw [Set.mem_ofPred_eq, ← h.standing d, Finset.mem_coe, List.mem_toFinset]
  rw [hall, Set.ncard_coe_finset, List.toFinset_card_of_nodup h.distinct, List.length_map]

/-- So does the list of children that a node shows. -/
theorem Records.shownChildren_nodup {g : Routing} (h : Records es g.routes) (t : NeighborTable) :
    (View.shownChildren g t).Nodup :=
  List.Nodup.sublist (List.filter_sublist.map Route.destination) h.distinct

end Routing

/-! ### Simulations -/

/-- What an action does to the protocol's state. -/
def Action.edits : Action → List RoutingEdit
  | .addRoute route => [.add route]
  | .removeRoute destination => [.remove destination]
  | .setParent parent => [.setParent (some parent)]
  | .clearParent => [.setParent none]
  | .setPrefix dagPrefix => [.setPrefix dagPrefix]
  | .startTraffic _ _ | .stopTraffic _ | .takeSnapshot => []

/-- What an event does to the protocol's state. -/
def Event.edits : Event → List RoutingEdit
  | .action a => a.edits
  | .packet _ _ | .routeChange _ _ | .timer _ | .fetch _ => []

namespace Simulation

variable {cfg : Settings}

theorem submit_routing (s : Simulation cfg) (event : TopologyEvent) :
    (s.submit event).routing = s.routing := by
  obtain ⟨node, log, hframe, -⟩ := submit_frame s event
  rw [hframe]

theorem execute_routing (s : Simulation cfg) (action : Action) :
    (s.execute action).routing = s.routing.editAll action.edits := by
  cases action with
  | addRoute | setParent | setPrefix | startTraffic | takeSnapshot => rfl
  | removeRoute destination =>
    show _ = s.routing.removeRoute destination
    rw [execute]
    cases hroute : s.routing.route? destination with
    | none => exact (Routing.removeRoute_of_none hroute).symm
    | some route => rfl
  | clearParent =>
    show _ = s.routing.setParent none
    rw [execute]
    cases hparent : s.routing.parent with
    | none =>
      show s.routing = { s.routing with parent := none }
      rw [← hparent]
    | some parent => rfl
  | stopTraffic neighbor =>
    show (s.stopTraffic neighbor).routing = s.routing
    rw [stopTraffic]
    split
    · rfl
    · rfl

theorem deliverPacket_routing (s : Simulation cfg) (source : Address) (generation : UInt32) :
    (s.deliverPacket source generation).routing = s.routing := by
  rw [deliverPacket]
  split
  · rfl
  · split
    · rfl
    · dsimp only
      rw [drawLoss_frame]
      cases s.drawLoss.2 with
      | true => rfl
      | false => exact submit_routing _ (.packet source)

/-- **One event.** Only actions edit the routes. -/
theorem happen_routing (s : Simulation cfg) (event : Event) :
    (s.happen event).routing = s.routing.editAll event.edits := by
  cases event with
  | packet source generation => exact deliverPacket_routing s source generation
  | routeChange change route => exact submit_routing _ _
  | timer generation =>
    show (s.fireTimer generation).routing = s.routing
    rw [fireTimer]
    split
    · rfl
    · dsimp only
      rw [announceAll_eq, scheduleAll_frame]
      rfl
  | fetch observer =>
    show (s.fetch observer).routing = s.routing
    rw [fetch]
    split
    · rfl
    · dsimp only
      unfold noteRetrieval
      split
      · rfl
      · rfl
  | action action => exact execute_routing s action

theorem handle_routing (s : Simulation cfg) (event : Event) :
    (handle (s, event)).routing = s.routing.editAll event.edits := by
  obtain ⟨snapshots, next, hframe⟩ := snapshotIfDue_frame (s.process event)
  rw [handle, hframe, ← happen_routing]
  show (s.happen event).rescheduleTimer.routing = _
  unfold rescheduleTimer
  split
  · rfl
  · rfl

theorem due?_routing {s s₀ : Simulation cfg} {stop : Instant} {event : Event}
    (h : s.due? stop = some (s₀, event)) : s₀.routing = s.routing := by
  obtain ⟨time, number, rest, -, -, rfl⟩ := due?_eq_some_iff.mp h
  rw [advance_frame]

/-- **One command.** -/
theorem obey_routing (s : Simulation cfg) (c : Command) :
    (s.obey c).routing = s.routing.editAll ((s.performedOn c).flatMap Action.edits) := by
  cases c with
  | action | fetch | observe => rfl
  | turn stop =>
    cases hdue : s.due? stop with
    | none =>
      rw [obey_turn_of_none hdue, advance_frame, performedOn, hdue]
      rfl
    | some x =>
      obtain ⟨s₀, event⟩ := x
      rw [obey_turn_of_some hdue, handle_routing, due?_routing hdue, performedOn, hdue]
      cases event with
      | packet | routeChange | timer | fetch => rfl
      | action action =>
        show s.routing.editAll action.edits = s.routing.editAll (action.edits ++ [])
        rw [List.append_nil]

/-- **Whatever is done**, the routes come from the actions that were carried out. -/
theorem obeyAll_routing (s : Simulation cfg) (cs : List Command) :
    (s.obeyAll cs).routing = s.routing.editAll ((s.performed cs).flatMap Action.edits) := by
  induction cs generalizing s with
  | nil => rfl
  | cons c cs ih =>
    rw [performed, List.flatMap_append, Routing.editAll_append, ← obey_routing]
    exact ih (s.obey c)

/-- Before it runs, a simulation has no routes. -/
theorem build_routing (c : Scenario) (cfg : Settings) : (c.build cfg).routing = .empty := by
  have hstep : ∀ (s : Simulation cfg) (k : Command), s.routing = .empty → k ∈ c.commands →
      (s.obey k).routing = .empty := by
    intro s k h hk
    rcases Scenario.mem_commands hk with rfl | ⟨blockSize, rfl⟩ | ⟨a, -, rfl⟩
    · exact h
    · exact h
    · exact h
  have hstart : (c.start cfg).routing = .empty := by
    rw [Scenario.start]
    cases c.snapshotInterval with
    | none => rfl
    | some interval => rfl
  rw [Scenario.build_eq]
  exact obeyAll_induction hstep hstart fun _ hk => hk

end Simulation

namespace Routing

/-- **Routes in the order of their installation.** The protocol starts without routes, and then routes
are added and removed and parent and prefix are set, in any order. The destinations in the table are
pairwise distinct. They are those to which a route was added that has not been removed since, in the
order in which the routes that stand were installed, which adding one again does not change, and each
route is the one that was added last. Adding a route tells how many destinations have one. A removal
takes out the route that it tells and leaves the others in their order, or tells that there is none and
leaves everything as it is.

In a simulation, the routes come from the actions that are carried out. So the document lists no child
twice, whichever neighbors are tracked. -/
theorem routes_in_installation_order (es : List RoutingEdit) (cfg : Settings) (c : Scenario)
    (cs : List Command) :
    let g := empty.editAll es
    let s := (c.build cfg).obeyAll cs
    ((g.routes.map Route.destination).Nodup ∧
      (∀ d, d ∈ g.routes.map Route.destination ↔ Standing es d) ∧
      (g.routes.map Route.destination).Pairwise (InstalledBefore es) ∧
      ∀ r ∈ g.routes, Latest es r) ∧
    (∀ r, (g.addRoute r).routes.length = {d | Standing (es ++ [.add r]) d}.ncard) ∧
    (∀ d,
      (¬Standing es d ∧ g.route? d = none ∧ g.removeRoute d = g) ∨
        ∃ r front back, g.route? d = some r ∧ r.destination = d ∧ g.routes = front ++ r :: back ∧
          g.removeRoute d = { g with routes := front ++ back }) ∧
    s.routing = empty.editAll (((c.build cfg).performed cs).flatMap Action.edits) ∧
    ∀ t : NeighborTable, ∃ v : View,
      View.parse (View.shown s.routing t).body = .ok v ∧ v.children.Nodup := by
  intro g s
  have hrecords : Records es g.routes := records_editAll es
  have hrouting : s.routing = empty.editAll (((c.build cfg).performed cs).flatMap Action.edits) := by
    rw [Simulation.obeyAll_routing, Simulation.build_routing]
  refine ⟨⟨hrecords.distinct, hrecords.standing, hrecords.inOrder, hrecords.latest⟩,
    fun r => (hrecords.edit (.add r)).length, fun d => ?_, hrouting, fun t => ?_⟩
  · cases hroute : g.route? d with
    | none =>
      refine .inl ⟨fun hstanding => ?_, rfl, removeRoute_of_none hroute⟩
      obtain ⟨r, hr, hdest⟩ := List.mem_map.mp ((hrecords.standing d).mpr hstanding)
      exact List.find?_eq_none.mp hroute r hr (decide_eq_true hdest)
    | some r =>
      obtain ⟨hdest, front, back, hsplit, hremoved⟩ := removeRoute_split hroute
      exact .inr ⟨r, front, back, rfl, hdest, hsplit, hremoved⟩
  · have hall : Records _ s.routing.routes := hrouting ▸ records_editAll _
    exact ⟨_, View.parse_body _, hall.shownChildren_nodup t⟩

/-- Of three routes, the first is added again with another next hop, which leaves it where it is, and
the second is removed and added again, which puts it behind the third. -/
theorem routes_in_installation_order_of_three :
    let near : Address := .ofGroups 65152 0 0 0 0 0 0 1
    let far : Address := .ofGroups 65152 0 0 0 0 0 0 2
    let first : Address := .ofGroups 8193 0 0 0 0 0 0 1
    let second : Address := .ofGroups 8193 0 0 0 0 0 0 2
    let third : Address := .ofGroups 8193 0 0 0 0 0 0 3
    let es : List RoutingEdit := [.add ⟨first, near⟩, .add ⟨second, near⟩, .add ⟨third, near⟩,
      .add ⟨first, far⟩, .remove second, .setParent (some near), .add ⟨second, far⟩]
    let g := empty.editAll es
    g.routes = [⟨first, far⟩, ⟨third, near⟩, ⟨second, far⟩] ∧
      InstalledBefore es first third ∧ InstalledBefore es third second ∧ Latest es ⟨first, far⟩ ∧
      {d | Standing (es ++ [.add ⟨near, near⟩]) d}.ncard = 4 ∧ g.removeRoute near = g := by
  intro near far first second third es g
  have hroutes : g.routes = [⟨first, far⟩, ⟨third, near⟩, ⟨second, far⟩] := by decide +kernel
  have hcount : (g.addRoute ⟨near, near⟩).routes.length = 4 := by decide +kernel
  have hnone : g.route? near = none := by decide +kernel
  obtain ⟨⟨-, -, hinOrder, hlatest⟩, hadded, hremoved, -⟩ :=
    routes_in_installation_order es .stock .stock []
  rw [show (empty.editAll es).routes = g.routes from rfl, hroutes] at hinOrder hlatest
  obtain ⟨hfirst, hrest⟩ := List.pairwise_cons.mp hinOrder
  obtain ⟨hthird, -⟩ := List.pairwise_cons.mp hrest
  refine ⟨hroutes, hfirst third List.mem_cons_self, hthird second List.mem_cons_self,
    hlatest _ List.mem_cons_self, ?_, ?_⟩
  · rw [← hadded]
    exact hcount
  · rcases hremoved near with ⟨-, -, hsame⟩ | ⟨r, -, -, hsome, -⟩
    · exact hsame
    · have hboth : none = some r := hnone.symm.trans hsome
      cases hboth

end Routing

end ObservableTree
