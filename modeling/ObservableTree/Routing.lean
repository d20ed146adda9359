import ObservableTree.Address.Text

/-!
# Routes

The routing protocol keeps a preferred parent, the prefix of the tree it joined, and the downward
routes in the order in which they were installed.

* `Route`, `Routing` — a route, and the protocol's whole state;
* `Routing.addRoute` — installs a route, or gives an installed one another next hop;
* `Routing.removeRoute` — removes a route and leaves the order of the others;
* `RouteChange`, `TopologyEvent` — what the protocol and the packet hook report.
-/

namespace ObservableTree

/-! ### The protocol's state -/

/-- A downward route: the destination, and the neighbor it goes through. -/
structure Route where
  destination : Address
  nextHop : Address
deriving DecidableEq

/-- The parent, the prefix of the tree, and the routes in their own order. -/
structure Routing where
  parent : Option Address
  dagPrefix : Option Address
  routes : List Route
deriving DecidableEq

namespace Routing

/-- Neither parent, prefix nor routes. -/
def empty : Routing := ⟨none, none, []⟩

/-- Gives the first route to a destination another next hop. -/
def rehop (r : Route) : List Route → List Route
  | [] => []
  | s :: rest => if s.destination = r.destination then r :: rest else s :: rehop r rest

/-- Whether a destination has a route. -/
def hasRoute (g : Routing) (destination : Address) : Bool :=
  g.routes.any fun s => s.destination = destination

/-- Installs a route behind the others, or in place of the one to its destination. -/
def addRoute (g : Routing) (r : Route) : Routing :=
  { g with routes := if g.hasRoute r.destination then rehop r g.routes else g.routes ++ [r] }

/-- The route to a destination. -/
def route? (g : Routing) (destination : Address) : Option Route :=
  g.routes.find? fun s => s.destination = destination

/-- Removes the route to a destination, if there is one. -/
def removeRoute (g : Routing) (destination : Address) : Routing :=
  { g with routes := g.routes.eraseP fun s => s.destination = destination }

/-- Selects a parent, or drops it. -/
def setParent (g : Routing) (parent : Option Address) : Routing := { g with parent := parent }

/-- Joins another tree, or leaves it. -/
def setPrefix (g : Routing) (dagPrefix : Option Address) : Routing :=
  { g with dagPrefix := dagPrefix }

theorem rehop_destinations (r : Route) (routes : List Route) :
    (rehop r routes).map Route.destination = routes.map Route.destination := by
  fun_induction rehop r routes with
  | case1 => rfl
  | case2 s rest h => simp only [List.map_cons, h]
  | case3 s rest _ ih => simp only [List.map_cons, ih]

theorem removeRoute_of_none {g : Routing} {destination : Address}
    (h : g.route? destination = none) : g.removeRoute destination = g := by
  have hall := List.find?_eq_none.mp h
  simp only [removeRoute, List.eraseP_of_forall_not hall]

end Routing

/-! ### Reports -/

/-- What the routing protocol did. -/
inductive RouteChange where
  | routeAdded
  | routeRemoved
  | defaultRouteAdded
  | defaultRouteRemoved
deriving DecidableEq

/-- Whether a change can alter the children and must be announced. -/
def RouteChange.affectsChildren : RouteChange → Bool
  | routeAdded | routeRemoved => true
  | defaultRouteAdded | defaultRouteRemoved => false

/-- The name of a change. -/
def RouteChange.name : RouteChange → String
  | routeAdded => "RouteAdded"
  | routeRemoved => "RouteRemoved"
  | defaultRouteAdded => "DefaultRouteAdded"
  | defaultRouteRemoved => "DefaultRouteRemoved"

/-- What a node hears about the network: a packet from a neighbor, or a change of a route with the
number of routes after it. -/
inductive TopologyEvent where
  | packet (source : Address)
  | routeChanged (change : RouteChange) (route : Route) (routeCount : Nat)
deriving DecidableEq

/-- The text of an event with its type's name and its fields. -/
def TopologyEvent.labelled : TopologyEvent → String
  | packet source => "PacketReceived \x7b from: " ++ source.labelled ++ " \x7d"
  | routeChanged change route routeCount =>
    "RouteChanged \x7b notification: " ++ change.name ++ ", route: " ++ route.destination.labelled
      ++ ", next_hop: " ++ route.nextHop.labelled ++ ", num_routes: " ++ toString routeCount
      ++ " \x7d"

end ObservableTree
