import ObservableTree.Exchange.Window
import ObservableTree.Neighbor.Table
import ObservableTree.Routing

/-!
# What a node shows, and the document

A node shows its parent and the children that it can reach. A view is served as one line of JSON,
with the parent in a list of at most one:

`{"parent":["<address>"],"child":["<address>","<address>"]}`

* `View` — a parent and children, as a reader of the document sees them;
* `View.shown` — the view that a routing state and a table of neighbors give: the parent under the
  tree's prefix, and the destinations of the routes through neighbors heard lately;
* `View.path`, `View.attributes` — where it is published and what is advertised about it;
* `View.items` — the pieces of the document in order, `View.body` — all of it;
* `View.writeTo` — writes the document through a window and stops at the first child behind it;
* `View.bodyLength` — the length of the document, counted by the same walk.
-/

namespace ObservableTree

/-- A parent, if there is one, and children. -/
structure View where
  parent : Option Address
  children : List Address
deriving DecidableEq

namespace View

/-- The parent's address inside the tree: the next hop of the default route, with its leading group
taken from the tree's prefix if there is one. -/
def shownParent (g : Routing) : Option Address :=
  g.parent.map fun a => (g.dagPrefix.map a.withPrefixGroup).getD a

/-- The destinations whose next hop was heard lately, in the order of the routes. -/
def shownChildren (g : Routing) (t : NeighborTable) : List Address :=
  (g.routes.filter fun r => t.contains r.nextHop).map Route.destination

/-- The view that a routing state and a table of neighbors give. -/
def shown (g : Routing) (t : NeighborTable) : View := ⟨shownParent g, shownChildren g t⟩

/-! ### The document -/

/-- The path under which the document is published. -/
def path : String := "rpl/dag"

/-- What is advertised about the document: readers may subscribe to it, and it has a title. -/
def attributes : String := "obs;title=\"RPL DAG Parent and Children\""

/-- The key of the list of parents. -/
def parentLabel : String := "parent"

/-- The key of the list of children. -/
def childLabel : String := "child"

/-! ### Pieces -/

/-- The double quote. -/
def quote : List UInt8 := utf8 "\""

/-- The text of an address between double quotes. -/
def quoted (a : Address) : List UInt8 := quote ++ a.toText.octets ++ quote

/-- What parts two children. -/
def comma : List UInt8 := utf8 ","

/-- The pieces up to the first child. -/
def opening (v : View) : List (List UInt8) :=
  [utf8 ("\x7b\"" ++ parentLabel ++ "\":[")] ++ (v.parent.map quoted).toList ++
    [utf8 ("],\"" ++ childLabel ++ "\":[")]

/-- The pieces that list children, with a comma in front of each but the first. -/
def childItems : (isFirst : Bool) → List Address → List (List UInt8)
  | _, [] => []
  | isFirst, a :: rest => (if isFirst then [] else [comma]) ++ quoted a :: childItems false rest

/-- The piece behind the last child. -/
def closing : List UInt8 := utf8 "]\x7d"

/-- The pieces of the document in order. -/
def items (v : View) : List (List UInt8) := v.opening ++ childItems true v.children ++ [closing]

/-- The whole document. -/
def body (v : View) : List UInt8 := v.items.flatten

/-! ### Writing through a window -/

/-- Lists children through a window, and stops in front of the first one that the window is already
behind. -/
def writeChildren (w : Window) : (isFirst : Bool) → List Address → Window
  | _, [] => w
  | isFirst, a :: rest =>
    if w.exceeded then w
    else writeChildren ((if isFirst then w else w.push comma).push (quoted a)) false rest

/-- Writes the document through a window. -/
def writeTo (v : View) (w : Window) : Window :=
  (writeChildren (w.writeAll v.opening) true v.children).push closing

/-- The length of the document, counted through a window that no position reaches. -/
def bodyLength (v : View) : Nat := (v.writeTo (Window.ofBuffer [] lastPosition)).finish.total

theorem childItems_nil (isFirst : Bool) : childItems isFirst [] = [] := by
  cases isFirst <;> rfl

theorem writeChildren_of_exceeded {w : Window} (h : w.exceeded = true) (isFirst : Bool)
    (cs : List Address) : writeChildren w isFirst cs = w := by
  cases cs with
  | nil => cases isFirst <;> rfl
  | cons a rest => simp only [writeChildren, h, ↓reduceIte]

end View

end ObservableTree
