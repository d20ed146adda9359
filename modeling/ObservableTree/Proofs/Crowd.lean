import Mathlib.Data.List.Nodup
import ObservableTree.Proofs.Fetching
import ObservableTree.Proofs.Installation
import ObservableTree.Proofs.Planned
import ObservableTree.Proofs.Presence

/-!
# A child that is received twice

A block that ends beyond the range of the offsets is followed by one that starts where the range ends.
If a child starts there and the block ends behind it, both blocks bring that child, and what they bring
is a document again, with one child more:

* `Address.IsLong`, `chars_length_of_isLong` — the longest texts, which are all of one length;
* `View.upTo` — the document up to a child, `body_eq_upTo` — and the document from there on;
* `View.body_twice` — a piece for one child that is taken twice makes another document;
* `Observer.fetch_twice` — an observer that gets such a document;
* `View.crowd` — so many children with long texts, `upTo_crowd_length` — and where each of them starts.
-/

namespace ObservableTree

/-! ### Long texts -/

theorem longestRun_of_nonzero {gs : List UInt16} (h : ∀ g ∈ gs, g ≠ 0) : (longestRun gs).2 = 0 := by
  induction gs with
  | nil => rfl
  | cons g gs ih =>
    have hfront : zerosInFront (g :: gs) = 0 := by
      rw [zerosInFront, List.takeWhile_cons_of_neg (by simpa using h g List.mem_cons_self)]
      rfl
    have hlater := ih fun x hx => h x (List.mem_cons_of_mem g hx)
    rw [longestRun, hfront, hlater]
    rfl

namespace Address

variable {a : Address}

/-- All groups of an address have four digits. -/
def IsLong (a : Address) : Prop := ∀ g ∈ a.groups, 4096 ≤ g.toNat

theorem hex_length_of_le {g : UInt16} (h : 4096 ≤ g.toNat) : (numeral 16 g.toNat).length = 4 := by
  have hle := hex_length_le g
  have hmore : ¬(numeral 16 g.toNat).length ≤ 3 := fun hless =>
    absurd ((Nat.length_toDigits_le_iff (by decide) (by decide)).mp hless) (Nat.not_lt.mpr h)
  omega

/-- Groups of four digits with colons between them. -/
theorem colonGroups_length_of_le {gs : List UInt16} (hgs : gs ≠ []) (h : ∀ g ∈ gs, 4096 ≤ g.toNat) :
    (colonGroups gs).length + 1 = 5 * gs.length := by
  induction gs with
  | nil => exact absurd rfl hgs
  | cons g gs ih =>
    have hfirst := hex_length_of_le (h g List.mem_cons_self)
    cases gs with
    | nil =>
      rw [colonGroups, hfirst]
      rfl
    | cons g' gs =>
      have hmore := ih (List.cons_ne_nil g' gs) fun x hx => h x (List.mem_cons_of_mem g hx)
      rw [colonGroups, List.length_append, List.length_cons, List.length_cons, hfirst]
      omega
      exact List.cons_ne_nil g' gs

/-- Long texts are as long as a text can be. -/
theorem chars_length_of_isLong (h : a.IsLong) : a.chars.length = 39 := by
  have hnonzero : ∀ g ∈ a.groups, g ≠ 0 := by
    rintro g hg rfl
    exact absurd (h 0 hg) (by decide)
  have hwrapped : a.wrapped? = none := by
    unfold wrapped?
    split
    · next hgroups =>
      rw [hgroups] at hnonzero
      exact absurd rfl (hnonzero 0 List.mem_cons_self)
    · rfl
  have hgroups : a.groups ≠ [] := by
    rw [← List.length_pos_iff, a.length_groups]
    decide
  have hlength := colonGroups_length_of_le hgroups h
  rw [a.length_groups] at hlength
  rw [chars, hwrapped]
  dsimp only
  rw [longestRun_of_nonzero hnonzero, if_neg (by decide)]
  omega

end Address

/-! ### Pieces -/

namespace View

/-- An address in quotes with the comma behind it. -/
def listed (a : Address) : List UInt8 := quoted a ++ comma

/-- The document up to a child. -/
def upTo (parent : Option Address) (front : List Address) : List UInt8 :=
  (opening ⟨parent, []⟩).flatten ++ front.flatMap listed

/-- The document from its last children on. -/
def fromOn (back : List Address) : List UInt8 := (childItems true back).flatten ++ closing

theorem flatten_childItems_append (front : List Address) (b : Address) (back : List Address) :
    (childItems true (front ++ b :: back)).flatten =
      front.flatMap listed ++ (childItems true (b :: back)).flatten := by
  have hlater : ∀ (a : Address) (rest : List Address), (childItems false (a :: rest)).flatten =
      comma ++ (childItems true (a :: rest)).flatten := by
    intro a rest
    rw [flatten_childItems_cons, flatten_childItems_cons, ← List.append_assoc]
    rfl
  induction front with
  | nil => rfl
  | cons a front ih =>
    obtain ⟨c, rest, hrest⟩ := List.exists_cons_of_ne_nil
      (List.append_ne_nil_of_right_ne_nil front (List.cons_ne_nil b back))
    rw [hrest] at ih
    rw [List.cons_append, hrest, flatten_childItems_cons, hlater, ih, List.flatMap_cons, listed,
      List.append_assoc, List.append_assoc]
    rfl

/-- A document is cut in front of a child. -/
theorem body_eq_upTo (parent : Option Address) (front : List Address) (b : Address)
    (back : List Address) :
    (⟨parent, front ++ b :: back⟩ : View).body = upTo parent front ++ fromOn (b :: back) := by
  rw [body_eq, flatten_childItems_append, upTo, fromOn, List.append_assoc, List.append_assoc,
    List.append_assoc]
  rfl

theorem upTo_snoc (parent : Option Address) (front : List Address) (a : Address) :
    upTo parent (front ++ [a]) = upTo parent front ++ listed a := by
  rw [upTo, upTo, List.flatMap_append, List.flatMap_singleton, List.append_assoc]

/-- **A piece that is taken twice.** The document up to behind a child, and then again from that child
on, is the document with this child twice. -/
theorem body_twice (parent : Option Address) (front : List Address) (a b : Address)
    (back : List Address) :
    let v : View := ⟨parent, front ++ a :: b :: back⟩
    v.body.take (upTo parent (front ++ [a])).length ++ v.body.drop (upTo parent front).length =
      (⟨parent, front ++ a :: a :: b :: back⟩ : View).body := by
  intro v
  have hbehind : v.body = upTo parent (front ++ [a]) ++ fromOn (b :: back) := by
    rw [← body_eq_upTo, List.append_assoc]
    rfl
  have hbefore : v.body = upTo parent front ++ (listed a ++ fromOn (b :: back)) := by
    rw [hbehind, upTo_snoc, List.append_assoc]
  have htwice : (⟨parent, front ++ a :: a :: b :: back⟩ : View).body =
      upTo parent (front ++ [a]) ++ (listed a ++ fromOn (b :: back)) := by
    rw [← List.append_assoc, ← upTo_snoc, ← body_eq_upTo, List.append_assoc, List.append_assoc]
    rfl
  rw [htwice]
  congr 1
  · rw [hbehind, List.take_left]
  · rw [hbefore, List.drop_left]

end View

/-! ### Receiving -/

namespace Observer

variable {cfg : Settings} {o : Observer} {r : Resource cfg} {g : Routing} {parent : Option Address}
  {front back : List Address} {a b : Address}

/-- **A child that is received twice.** It starts where the range of the offsets ends, and the first
block ends behind it. -/
theorem fetch_twice (now : Instant)
    (hshown : View.shown g r.table = ⟨parent, front ++ a :: b :: back⟩)
    (hplace : (View.upTo parent front).length = lastOffset)
    (hblock : (View.upTo parent (front ++ [a])).length = o.blockSize)
    (hback : (View.fromOn (b :: back)).length ≤ lastOffset) :
    ∃ x, (o.fetch r (.steady g) now).value.2 = .ok x ∧
      x.view = ⟨parent, front ++ a :: a :: b :: back⟩ := by
  have hdocument : r.document g = (⟨parent, front ++ a :: b :: back⟩ : View).body := by
    rw [Resource.document, hshown]
  have hlength : (r.document g).length = o.blockSize + (View.fromOn (b :: back)).length := by
    rw [hdocument, ← hblock, ← List.length_append, ← View.body_eq_upTo, List.append_assoc]
    rfl
  have hpiece : (View.upTo parent (front ++ [a])).length = lastOffset + (View.listed a).length := by
    rw [View.upTo_snoc, List.length_append, hplace]
  have hlisted : (View.listed a).length = a.toText.octets.length + 3 := by
    rw [View.listed, List.length_append, View.quoted_length, View.comma_length]
  have htext : a.toText.octets.length ≤ 45 := a.toText.length_le
  have hrest : 2 ≤ (View.fromOn (b :: back)).length := by
    rw [View.fromOn, List.length_append, View.closing_length]
    exact Nat.le_add_left 2 _
  have hroom : lastOffset + 48 + lastOffset ≤ lastPosition := by decide
  have hread : (r.readWhole (.steady g) o.blockSize maxExchanges).value =
      .ok (2, (r.document g).take o.blockSize ++ (r.document g).drop lastOffset) :=
    Resource.readWhole_twice (by omega) (by omega) (by omega) (by omega) (by decide)
  rw [hdocument, ← hblock, ← hplace, View.body_twice, hblock] at hread
  rw [fetch_value]
  dsimp only
  rw [hread, retrievalOf, View.parse_body]
  exact ⟨_, rfl, rfl⟩

end Observer

/-! ### Crowds -/

namespace View

/-- A long address, by its number. -/
def crowdAddress (i : Nat) : Address :=
  .ofGroups 4369 4369 4369 4369 4369 4369 (.ofNat (4096 + i / 61440)) (.ofNat (4096 + i % 61440))

/-- So many long addresses. -/
def crowd (n : Nat) : List Address := (List.range n).map crowdAddress

/-- The number of addresses of this form. -/
def crowdLimit : Nat := 61440 * 61440

theorem crowd_groups {i : Nat} (hi : i < crowdLimit) :
    (UInt16.ofNat (4096 + i / 61440)).toNat = 4096 + i / 61440 ∧
      (UInt16.ofNat (4096 + i % 61440)).toNat = 4096 + i % 61440 := by
  have hhigh : i / 61440 < 61440 := Nat.div_lt_of_lt_mul hi
  have hlow : i % 61440 < 61440 := Nat.mod_lt i (by decide)
  refine ⟨UInt16.toNat_ofNat_of_lt' ?_, UInt16.toNat_ofNat_of_lt' ?_⟩
  · show 4096 + i / 61440 < 65536
    omega
  · show 4096 + i % 61440 < 65536
    omega

theorem isLong_crowdAddress {i : Nat} (hi : i < crowdLimit) : (crowdAddress i).IsLong := by
  obtain ⟨hhigh, hlow⟩ := crowd_groups hi
  have hsame : 4096 ≤ (4369 : UInt16).toNat := by decide
  intro g hg
  rw [crowdAddress, Address.ofGroups] at hg
  simp only [List.mem_cons, List.not_mem_nil, or_false] at hg
  rcases hg with rfl | rfl | rfl | rfl | rfl | rfl | rfl | rfl
  · exact hsame
  · exact hsame
  · exact hsame
  · exact hsame
  · exact hsame
  · exact hsame
  · rw [hhigh]
    exact Nat.le_add_right 4096 _
  · rw [hlow]
    exact Nat.le_add_right 4096 _

theorem crowdAddress_inj {i j : Nat} (hi : i < crowdLimit) (hj : j < crowdLimit)
    (h : crowdAddress i = crowdAddress j) : i = j := by
  obtain ⟨hhigh, hlow⟩ := crowd_groups hi
  obtain ⟨hhigh', hlow'⟩ := crowd_groups hj
  have hgroups := congrArg Address.groups h
  simp only [crowdAddress, Address.ofGroups, List.cons.injEq, true_and, and_true] at hgroups
  rw [hgroups.1] at hhigh
  rw [hgroups.2] at hlow
  omega

theorem crowd_nodup {n : Nat} (hn : n ≤ crowdLimit) : (crowd n).Nodup :=
  List.Nodup.map_on
    (fun _ hi _ hj hsame => crowdAddress_inj (Nat.lt_of_lt_of_le (List.mem_range.mp hi) hn)
      (Nat.lt_of_lt_of_le (List.mem_range.mp hj) hn) hsame)
    List.nodup_range

theorem crowd_length (n : Nat) : (crowd n).length = n := by
  rw [crowd, List.length_map, List.length_range]

theorem crowd_succ (n : Nat) : crowd (n + 1) = crowd n ++ [crowdAddress n] := by
  rw [crowd, List.range_succ, List.map_append]
  rfl

/-- A child with a long text takes forty-two bytes. -/
theorem listed_length_of_isLong {a : Address} (h : a.IsLong) : (listed a).length = 42 := by
  rw [listed, List.length_append, quoted_length, comma_length, Address.octets_toText, utf8_length,
    Address.text_utf8ByteSize, Address.chars_length_of_isLong h]

/-- **Where each child starts.** -/
theorem upTo_crowd_length (parent : Option Address) {n : Nat} (hn : n ≤ crowdLimit) :
    (upTo parent (crowd n)).length = (upTo parent []).length + 42 * n := by
  induction n with
  | zero => rfl
  | succ n ih =>
    have hlong := isLong_crowdAddress (Nat.lt_of_succ_le hn)
    rw [crowd_succ, upTo_snoc, List.length_append, ih (Nat.le_of_succ_le hn),
      listed_length_of_isLong hlong]
    omega

end View

/-! ### A crowded node -/

/-- Routes to new destinations come behind the others. -/
theorem Routing.editAll_add {g : Routing} {rs : List Route}
    (h : ((g.routes ++ rs).map Route.destination).Nodup) :
    g.editAll (rs.map .add) = { g with routes := g.routes ++ rs } := by
  induction rs generalizing g with
  | nil => rw [List.append_nil]; rfl
  | cons r rs ih =>
    have hnew : ¬g.hasRoute r.destination = true := by
      rw [List.map_append, List.map_cons, List.nodup_middle, List.nodup_cons, List.mem_append,
        not_or] at h
      exact fun hold => h.1.1 (hasRoute_iff.mp hold)
    have hfirst : g.addRoute r = { g with routes := g.routes ++ [r] } := by
      rw [addRoute, if_neg hnew]
    rw [List.append_cons] at h ⊢
    show (g.addRoute r).editAll (rs.map .add) = _
    rw [hfirst]
    exact ih h

namespace Simulation

/-- The neighbor that all routes of the crowd go through. -/
def crowdHop : Address := .ofGroups 65152 0 0 0 0 0 0 1

/-- The parent of a crowded node. -/
def crowdParent : Address := .ofGroups 4369 4369 4369 4369 0 0 0 0

/-- A parent, and a neighbor that sends. -/
def uncrowdedScenario : Scenario :=
  { Scenario.stock with
      actions := [(.boot, .startTraffic crowdHop (.ofSecs 10)), (.boot, .setParent crowdParent)] }

/-- The node without any routes, after it has run at boot. -/
def uncrowded : Simulation .stock := (uncrowdedScenario.build .stock).runUntil .boot

/-- Routes to a crowd, which all come in at boot. -/
def crowdScript (n : Nat) : List (Instant × Action) :=
  (View.crowd n).map fun a => (.boot, .addRoute ⟨a, crowdHop⟩)

/-- The node with routes to a crowd, after it has run at boot again. -/
def crowded (n : Nat) : Simulation .stock :=
  (uncrowded.obeyAll ((crowdScript n).map fun x => .action x.1 x.2)).runUntil .boot

theorem uncrowdedScenario_isPaced : uncrowdedScenario.IsPaced := by
  intro a ha
  rw [uncrowdedScenario, List.mem_cons, List.mem_singleton] at ha
  rcases ha with rfl | rfl
  · show 0 < (Span.ofSecs 10).millis
    decide
  · trivial

theorem uncrowded_inSequence :
    uncrowded.OnTime ∧ uncrowded.Paced ∧ ∃ past, uncrowded.InSequence past := by
  have hperiod : 0 < Settings.stock.sweepPeriod.millis := by decide
  have hstop : Instant.boot < .last := by decide
  have hnow : (uncrowdedScenario.build .stock).now ≤ .boot := by decide +kernel
  obtain ⟨hbuilt, hbuiltPaced⟩ := build_paced hperiod uncrowdedScenario_isPaced
  obtain ⟨turns, hturns, hforward, -, -⟩ := runUntil_end hperiod hstop hbuilt hbuiltPaced hnow
  have hcs : ∀ k ∈ List.replicate turns (Command.turn .boot), k.InTime ∧ k.IsPaced := fun k hk =>
    Command.of_mem_turns hstop hk
  obtain ⟨hsequence, -⟩ := (build_inSequence uncrowdedScenario .stock).obeyAll hperiod hbuilt
    (fun k hk => (hcs k hk).1) hforward
  obtain ⟨htime, hpaced⟩ := hbuilt.obeyAll hperiod hbuiltPaced hcs
  rw [← hturns] at hsequence htime hpaced
  exact ⟨htime, hpaced, _, hsequence⟩

/-- The routes come in one after another. -/
theorem crowded_eq (n : Nat) :
    ∃ cs : List Command, crowded n = uncrowded.obeyAll cs ∧ (∀ k ∈ cs, k.InTime) ∧
      uncrowded.performed cs = (crowdScript n).map Prod.snd := by
  obtain ⟨htime, hpaced, past, hsequence⟩ := uncrowded_inSequence
  have hstop : Instant.boot < .last := by decide
  have hnow : uncrowded.now = .boot := by decide +kernel
  have hplanned : uncrowded.planned = [] := by decide +kernel
  have hscript : ∀ x ∈ crowdScript n, x.1 = .boot ∧ x.2.IsPaced := by
    intro x hx
    obtain ⟨a, -, rfl⟩ := List.mem_map.mp hx
    exact ⟨rfl, trivial⟩
  have hordered : (crowdScript n).Pairwise fun x y => x.1 ≤ y.1 := by
    refine List.pairwise_of_forall_mem_list fun x hx y hy => ?_
    rw [(hscript x hx).1, (hscript y hy).1]
    exact Nat.le_refl _
  have hinside : ∀ x ∈ crowdScript n, uncrowded.now ≤ x.1 ∧ x.1 ≤ .boot := by
    intro x hx
    rw [hnow, (hscript x hx).1]
    exact ⟨Nat.le_refl _, Nat.le_refl _⟩
  obtain ⟨turns, hturns, hperformed⟩ := hsequence.run_script (by decide) hstop htime hpaced
    hplanned hordered hinside (fun x hx => (hscript x hx).2) (Nat.le_of_eq (congrArg _ hnow))
  refine ⟨_, hturns, fun k hk => ?_, hperformed⟩
  rcases List.mem_append.mp hk with haction | hturn
  · obtain ⟨x, -, rfl⟩ := List.mem_map.mp haction
    trivial
  · exact (Command.of_mem_turns hstop hturn).1

/-- The node has a route to each of the crowd, in their order. -/
theorem crowded_routing {n : Nat} (hn : n ≤ View.crowdLimit) :
    (crowded n).routing =
      ⟨some crowdParent, none, (View.crowd n).map fun a => ⟨a, crowdHop⟩⟩ := by
  obtain ⟨cs, hcs, -, hperformed⟩ := crowded_eq n
  have hempty : uncrowded.routing = ⟨some crowdParent, none, []⟩ := by decide +kernel
  have hedits : ((crowdScript n).map Prod.snd).flatMap Action.edits =
      ((View.crowd n).map fun a => ⟨a, crowdHop⟩).map RoutingEdit.add := by
    rw [crowdScript, List.map_map, List.flatMap_map, List.map_map]
    exact List.map_eq_flatMap.symm
  have hdistinct : (((View.crowd n).map fun a => (⟨a, crowdHop⟩ : Route)).map
      Route.destination).Nodup := by
    rw [List.map_map]
    refine List.Nodup.map (fun _ _ h => h) (View.crowd_nodup hn)
  rw [hcs, obeyAll_routing, hperformed, hempty, hedits, Routing.editAll_add]
  · rfl
  · exact hdistinct

/-- And it hears the neighbor that they go through. -/
theorem crowded_contains (n : Nat) :
    (crowded n).node.resource.table.contains crowdHop = true := by
  obtain ⟨cs, hcs, hinTime, hperformed⟩ := crowded_eq n
  have hother : ∀ a ∈ uncrowded.performed cs, ∃ r, a = .addRoute r := by
    rw [hperformed]
    intro a ha
    obtain ⟨x, hx, rfl⟩ := List.mem_map.mp ha
    obtain ⟨b, -, rfl⟩ := List.mem_map.mp hx
    exact ⟨_, rfl⟩
  have hattended : Attended crowdHop ⟨.ofSecs 10, true, 1⟩ .boot uncrowded := by
    refine ⟨by decide +kernel, by decide +kernel, rfl, by decide, by decide +kernel, ?_⟩
    decide +kernel
  obtain ⟨t, seen, hlast⟩ := hattended.obeyAll (by decide) uncrowded_inSequence.1 hinTime
    (fun interval hstart => by
      obtain ⟨r, hr⟩ := hother _ hstart
      cases hr)
    (fun hstop => by
      obtain ⟨r, hr⟩ := hother _ hstop
      cases hr)
  rw [hcs]
  exact NeighborTable.contains_iff.mpr ⟨_, hlast.tracked, rfl⟩

/-- **A crowded node** shows its parent and the crowd. -/
theorem crowded_shown {n : Nat} (hn : n ≤ View.crowdLimit) :
    View.shown (crowded n).routing (crowded n).node.resource.table =
      ⟨some crowdParent, View.crowd n⟩ := by
  rw [crowded_routing hn, View.shown, View.shownParent, View.shownChildren]
  congr 1
  dsimp only
  rw [List.filter_eq_self.mpr, List.map_map]
  · exact List.map_id _
  · intro r hr
    obtain ⟨a, -, rfl⟩ := List.mem_map.mp hr
    exact crowded_contains n

/-- **A crowd that is received with one child twice**, as one of the children starts where the range
of the offsets ends. -/
theorem crowded_fetch {n front : Nat} (hn : n ≤ View.crowdLimit) (hfront : front + 2 = n)
    (hplace : 45 + 42 * front = lastOffset) {o : Observer} (hblock : o.blockSize = lastOffset + 42) :
    ∃ x, (o.fetch (crowded n).node.resource (.steady (crowded n).routing) (crowded n).now).value.2 =
        .ok x ∧
      x.view.children.length = n + 1 := by
  subst hfront
  have hfirst : (View.upTo (some crowdParent) []).length = 45 := by decide +kernel
  have hsplit : View.crowd (front + 2) =
      View.crowd front ++ View.crowdAddress front :: [View.crowdAddress (front + 1)] := by
    rw [View.crowd_succ, View.crowd_succ, List.append_assoc]
    rfl
  have hshown := crowded_shown hn
  rw [hsplit] at hshown
  have hbefore : (View.upTo (some crowdParent) (View.crowd front)).length = lastOffset := by
    rw [View.upTo_crowd_length _ (by omega), hfirst, hplace]
  have hbehind : (View.upTo (some crowdParent)
      (View.crowd front ++ [View.crowdAddress front])).length = o.blockSize := by
    rw [View.upTo_snoc, List.length_append, hbefore,
      View.listed_length_of_isLong (View.isLong_crowdAddress (by omega)), hblock]
  have hback : (View.fromOn [View.crowdAddress (front + 1)]).length ≤ lastOffset := by
    have hquoted := View.childPiece_length_le true (View.crowdAddress (front + 1))
    have hsmall : 48 + 2 ≤ lastOffset := by decide
    rw [View.fromOn, List.length_append, View.closing_length, View.flatten_childItems_cons,
      View.childItems_nil, List.flatten_nil, List.append_nil]
    omega
  obtain ⟨x, hok, hview⟩ := Observer.fetch_twice (crowded (front + 2)).now hshown hbefore hbehind
    hback
  refine ⟨x, hok, ?_⟩
  rw [hview, List.length_append, View.crowd_length]
  rfl

end Simulation

end ObservableTree
