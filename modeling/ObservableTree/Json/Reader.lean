import ObservableTree.Json.Token

/-!
# Reading JSON

A number keeps the characters that it was written with, and an object the order and the repetitions of
its members. Tokens are put together by a machine with a stack of the arrays and objects that are
still open:

* `Json` — a value, `Json.member?` — the value of a key: of several members with one key, the last one
  counts;
* `Frame` — an open array or object, with what it holds so far;
* `Reader` — what may come next, `Reader.feed` — one token;
* `Json.ofTokens?` — the value that the tokens make, `Json.ofChars?` — the value of a text;
* `feedAll_append` — reading goes on where it stopped.

At most 127 arrays and objects may be open at once.
-/

namespace ObservableTree

/-! ### Values -/

/-- A JSON value. -/
inductive Json where
  | null
  | bool (value : Bool)
  | number (literal : List Char)
  | string (value : String)
  | array (items : List Json)
  | object (members : List (String × Json))

namespace Json

/-- The value of the last member with a key, if the value is an object with such a member. -/
def member? (key : String) : Json → Option Json
  | object members => (members.reverse.find? fun m => m.1 = key).map Prod.snd
  | _ => none

/-- The items of an array. -/
def items? : Json → Option (List Json)
  | array items => some items
  | _ => none

/-- The characters of a string. -/
def string? : Json → Option String
  | string s => some s
  | _ => none

end Json

/-! ### The machine -/

/-- An open array with its items so far, or an open object with its members so far and the key of
the member that is being read. -/
inductive Frame where
  | items (done : List Json)
  | member (done : List (String × Json)) (key : String)

/-- What may come next, and which arrays and objects are open around it. -/
inductive Reader where
  /-- A value must come. -/
  | wantValue (stack : List Frame)
  /-- A value or the end of an empty array. -/
  | openArray (stack : List Frame)
  /-- A key, or the end of an empty object. -/
  | wantKey (stack : List Frame) (done : List (String × Json)) (isFirst : Bool)
  /-- The colon behind a key. -/
  | wantColon (stack : List Frame) (done : List (String × Json)) (key : String)
  /-- A value is complete. -/
  | gotValue (stack : List Frame) (value : Json)

/-- How many arrays and objects may be open at once. -/
def maxOpen : Nat := 127

namespace Reader

/-- A token where a value must come. -/
def feedValue (stack : List Frame) : Token → Option Reader
  | .null => some (gotValue stack .null)
  | .bool b => some (gotValue stack (.bool b))
  | .number literal => some (gotValue stack (.number literal))
  | .string s => some (gotValue stack (.string s))
  | .openBracket => if stack.length < maxOpen then some (openArray stack) else none
  | .openBrace => if stack.length < maxOpen then some (wantKey stack [] true) else none
  | .closeBrace | .closeBracket | .colon | .comma => none

/-- A token behind a complete value. -/
def feedSeparator (stack : List Frame) (v : Json) : Token → Option Reader
  | .comma =>
    match stack with
    | .items done :: rest => some (wantValue (.items (done ++ [v]) :: rest))
    | .member done key :: rest => some (wantKey rest (done ++ [(key, v)]) false)
    | [] => none
  | .closeBracket =>
    match stack with
    | .items done :: rest => some (gotValue rest (.array (done ++ [v])))
    | _ => none
  | .closeBrace =>
    match stack with
    | .member done key :: rest => some (gotValue rest (.object (done ++ [(key, v)])))
    | _ => none
  | _ => none

/-- One token. -/
def feed : Reader → Token → Option Reader
  | wantValue stack, t => feedValue stack t
  | openArray stack, .closeBracket => some (gotValue stack (.array []))
  | openArray stack, t => feedValue (.items [] :: stack) t
  | wantKey stack _ true, .closeBrace => some (gotValue stack (.object []))
  | wantKey stack done _, .string key => some (wantColon stack done key)
  | wantKey _ _ _, _ => none
  | wantColon stack done key, .colon => some (wantValue (.member done key :: stack))
  | wantColon _ _ _, _ => none
  | gotValue stack v, t => feedSeparator stack v t

/-- Several tokens. -/
def feedAll (r : Reader) (ts : List Token) : Option Reader := ts.foldlM feed r

/-- The value, if it is complete and nothing is open. -/
def value? : Reader → Option Json
  | gotValue [] v => some v
  | _ => none

theorem feedAll_append (r : Reader) (ts us : List Token) :
    r.feedAll (ts ++ us) = (r.feedAll ts).bind fun r' => r'.feedAll us :=
  List.foldlM_append

end Reader

namespace Json

/-- The value that tokens make, if they make exactly one. -/
def ofTokens? (ts : List Token) : Option Json :=
  ((Reader.wantValue []).feedAll ts).bind Reader.value?

/-- The value that a text spells. -/
def ofChars? (cs : List Char) : Option Json := (Token.ofChars? cs).bind ofTokens?

end Json

end ObservableTree
