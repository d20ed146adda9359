import ObservableTree.View.Body
import ObservableTree.Json.Reader
import ObservableTree.Address.Parser

/-!
# Reading the document

An observer reads the document back into a view. Only the two lists count; other members of the
document are ignored.

* `ViewError` — what is wrong with a document;
* `Json.addresses?` — the addresses that a member lists;
* `View.parse` — the view that bytes spell. The list of parents is checked first, then its length,
  then the list of children.
-/

namespace ObservableTree

/-! ### Errors -/

/-- What is wrong with a document. -/
inductive ViewError where
  | notJson
  /-- The list of parents is missing or holds something other than addresses. -/
  | badParents
  /-- There is more than one parent. -/
  | manyParents
  /-- The list of children is missing or holds something other than addresses. -/
  | badChildren
deriving DecidableEq

/-- The wording for an entry that is missing or bad. -/
def ViewError.entryMessage (entry : String) : String :=
  "body is missing or has a malformed `" ++ entry ++ "` entry"

/-- The wording of an error. -/
def ViewError.message : ViewError → String
  | notJson => "body is not valid JSON"
  | badParents => entryMessage View.parentLabel
  | manyParents => entryMessage "more than one parent"
  | badChildren => entryMessage View.childLabel

/-! ### Views -/

/-- The address that a string spells. -/
def Json.address? (v : Json) : Option Address := v.string?.bind fun s => Address.parse? s.toList

/-- The addresses that a member of a document lists, if every item of the list is one. -/
def Json.addresses? (key : String) (v : Json) : Option (List Address) :=
  ((v.member? key).bind items?).bind fun items => items.mapM address?

namespace View

/-- The view that a document shows. -/
def ofJson (v : Json) : Except ViewError View :=
  match v.addresses? parentLabel with
  | none => .error .badParents
  | some parents =>
    if 1 < parents.length then .error .manyParents
    else
      match v.addresses? childLabel with
      | none => .error .badChildren
      | some children => .ok ⟨parents.head?, children⟩

/-- The value that bytes spell. -/
def readJson? (bytes : List UInt8) : Option Json :=
  (readUtf8? bytes).bind fun s => Json.ofChars? s.toList

/-- The view that bytes spell. -/
def parse (bytes : List UInt8) : Except ViewError View :=
  match readJson? bytes with
  | none => .error .notJson
  | some v => ofJson v

end View

end ObservableTree
