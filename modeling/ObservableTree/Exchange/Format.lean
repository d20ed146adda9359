/-!
# What crosses the transport boundary

Headers and subscriptions belong to the transport. An exchange only shows:

* `ContentFormat` — a representation, by name or by registry number;
* `Status` — the response code, a class and a detail packed into eight bits;
* `Request` — what the requester accepts, `Reply` — what it gets;
* `Refusal` — why an exchange is refused, with `Refusal.status`, `Refusal.diagnostic?` and
  `Refusal.message` — what the transport sends for each cause. Every refusal is local to one exchange:
  the node's state survives it.
-/

namespace ObservableTree

/-! ### Content formats -/

/-- A representation that a requester may ask for. -/
inductive ContentFormat where
  | textPlain
  | linkFormat
  | json
  | cbor
  | other (code : UInt16)
deriving DecidableEq

namespace ContentFormat

/-- The registry number of a format. -/
def code : ContentFormat → UInt16
  | textPlain => 0
  | linkFormat => 40
  | json => 50
  | cbor => 60
  | other n => n

/-- The format that a registry number stands for. -/
def ofCode (n : UInt16) : ContentFormat :=
  if n = 0 then textPlain
  else if n = 40 then linkFormat
  else if n = 50 then json
  else if n = 60 then cbor
  else other n

/-- The name of a format. -/
def name : ContentFormat → String
  | textPlain => "TextPlain"
  | linkFormat => "LinkFormat"
  | json => "Json"
  | cbor => "Cbor"
  | other n => "Other(" ++ toString n.toNat ++ ")"

end ContentFormat

/-! ### Status -/

/-- A response code. -/
inductive Status where
  | content
  | badOption
  | notAcceptable
  | requestEntityTooLarge
deriving DecidableEq

namespace Status

/-- The three-bit class of a code. -/
def codeClass : Status → Nat
  | content => 2
  | badOption | notAcceptable | requestEntityTooLarge => 4

/-- The five-bit detail of a code. -/
def codeDetail : Status → Nat
  | content => 5
  | badOption => 2
  | notAcceptable => 6
  | requestEntityTooLarge => 13

/-- Class and detail packed into eight bits. -/
def code (s : Status) : Nat := s.codeClass * 32 + s.codeDetail

/-- Whether the request was answered. -/
def isSuccess (s : Status) : Bool := s == content

/-- The class, a point and the detail in two digits. -/
def text (s : Status) : String :=
  let detail := toString s.codeDetail
  toString s.codeClass ++ "." ++ "".pushn '0' (2 - detail.length) ++ detail

/-- The name of a code. -/
def name : Status → String
  | content => "Content"
  | badOption => "BadOption"
  | notAcceptable => "NotAcceptable"
  | requestEntityTooLarge => "RequestEntityTooLarge"

end Status

/-! ### Requests and replies -/

/-- A request, with the format it accepts if it names one. -/
structure Request where
  accept : Option ContentFormat
deriving DecidableEq

/-- A request that takes any format. -/
def Request.any : Request := ⟨none⟩

/-- A request for one format. -/
def Request.accepting (f : ContentFormat) : Request := ⟨some f⟩

/-- Whether the document's format satisfies a request. -/
def Request.acceptsJson (q : Request) : Bool := q.accept == none || q.accept == some .json

/-- A successful answer, whose payload is the front of the requester's buffer. -/
structure Reply where
  status : Status
  format : ContentFormat
  payloadLength : Nat
deriving DecidableEq

/-- An answer with so many bytes of the document. -/
def Reply.document (payloadLength : Nat) : Reply := ⟨.content, .json, payloadLength⟩

/-! ### Refusals -/

/-- Why one exchange is refused. -/
inductive Refusal where
  | notAcceptable
  | blockOutOfScope
  | noProgress
deriving DecidableEq

namespace Refusal

/-- The response code for a refusal. -/
def status : Refusal → Status
  | notAcceptable => .notAcceptable
  | blockOutOfScope => .badOption
  | noProgress => .requestEntityTooLarge

/-- The short payload that goes with the code, if any. -/
def diagnostic? : Refusal → Option String
  | blockOutOfScope => some "BlockOutOfScope"
  | notAcceptable | noProgress => none

/-- The wording of a refusal. -/
def message : Refusal → String
  | notAcceptable => "requested representation is not acceptable"
  | blockOutOfScope => "block offset beyond end of representation"
  | noProgress => "transport buffer too small to make progress"

/-- The name of a refusal. -/
def name : Refusal → String
  | notAcceptable => "NotAcceptable"
  | blockOutOfScope => "BlockOutOfScope"
  | noProgress => "NoProgress"

end Refusal

end ObservableTree
