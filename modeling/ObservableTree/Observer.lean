import ObservableTree.Resource.Read
import ObservableTree.View.Parser

/-!
# Observers

An observer fetches the document with a fixed block size: it reads again and again, each time from
the offset that the last read gave back, until the document ends. It parses what it has received
and keeps a history.

* `FetchError` — why a retrieval failed;
* `Surroundings` — what a row of reads meets: the routes each of them sees, and the inputs that
  arrive meanwhile;
* `Resource.readOn` — the rest of a row of reads, `Resource.readWhole` — a whole one;
* `Observer.fetch` — a retrieval with everything that the observer notes about it.
-/

namespace ObservableTree

/-! ### Failures -/

/-- The largest number of reads in one retrieval. -/
def maxExchanges : Nat := 1024

/-- Why a retrieval failed. -/
inductive FetchError where
  | refused (cause : Refusal)
  | unreadable (cause : ViewError)
  | tooManyExchanges
deriving DecidableEq

/-- The wording of a failure. -/
def FetchError.message : FetchError → String
  | refused cause => "resource rejected exchange: " ++ cause.message
  | unreadable cause => cause.message
  | tooManyExchanges =>
    "retrieval did not finish within " ++ toString maxExchanges ++ " exchanges"

/-! ### Rows of reads -/

/-- What the reads of a row meet, by their number from zero. -/
structure Surroundings where
  routing : Nat → Routing
  meanwhile : Nat → List Input

/-- Routes that stay, and no inputs. -/
def Surroundings.steady (g : Routing) : Surroundings := ⟨fun _ => g, fun _ => []⟩

namespace Resource

variable {cfg : Settings}

/-- Reads on from an offset until the document ends or a read is refused, with at most `left` reads
left; `count` reads have been made and `body` has been received. The value is the number of reads
and the bytes received. -/
def readOn (around : Surroundings) (block : Nat) :
    (left count : Nat) → (body : List UInt8) → Offset → Resource cfg →
      Reaction cfg (Except FetchError (Nat × List UInt8))
  | 0, _, _, _, r => .still r (.error .tooManyExchanges)
  | left + 1, count, body, offset, r =>
    (r.read (around.routing count) .any (List.replicate block 0) offset
      (around.meanwhile count)).andThen fun x r' =>
        match x.result with
        | .error cause => .still r' (.error (.refused cause))
        | .ok reply =>
          let received := body ++ x.buffer.take reply.payloadLength
          if x.offset.isDone then .still r' (.ok (count + 1, received))
          else readOn around block left (count + 1) received x.offset r'

/-- Reads the whole document, with at most `limit` reads. -/
def readWhole (r : Resource cfg) (around : Surroundings) (block limit : Nat) :
    Reaction cfg (Except FetchError (Nat × List UInt8)) :=
  readOn around block limit 0 [] .done r

theorem readOn_zero (around : Surroundings) (block count : Nat) (body : List UInt8)
    (offset : Offset) (r : Resource cfg) :
    readOn around block 0 count body offset r = .still r (.error .tooManyExchanges) := rfl

end Resource

/-! ### Observers -/

/-- A finished retrieval. -/
structure Retrieval where
  time : Instant
  exchanges : Nat
  bodyLength : Nat
  view : View
deriving DecidableEq

/-- An observer with its block size, its retrievals in order, and the number of those that
failed. -/
structure Observer where
  blockSize : Nat
  history : List Retrieval
  errors : Nat
deriving DecidableEq

namespace Observer

variable {cfg : Settings}

/-- An observer that has not fetched anything. -/
def ofBlockSize (n : Nat) : Observer := ⟨n, [], 0⟩

/-- The latest retrieval. -/
def latest? (o : Observer) : Option Retrieval := o.history.getLast?

/-- What a row of reads amounts to. -/
def retrievalOf (now : Instant) (received : Except FetchError (Nat × List UInt8)) :
    Except FetchError Retrieval :=
  match received with
  | .error e => .error e
  | .ok (exchanges, body) =>
    match View.parse body with
    | .error e => .error (.unreadable e)
    | .ok view => .ok ⟨now, exchanges, body.length, view⟩

/-- Notes a retrieval or a failure. -/
def note (o : Observer) : Except FetchError Retrieval → Observer
  | .ok retrieval => { o with history := o.history ++ [retrieval] }
  | .error _ => { o with errors := o.errors + 1 }

/-- Fetches the document. -/
def fetch (o : Observer) (r : Resource cfg) (around : Surroundings) (now : Instant) :
    Reaction cfg (Observer × Except FetchError Retrieval) :=
  (r.readWhole around o.blockSize maxExchanges).map fun received =>
    let result := retrievalOf now received
    (o.note result, result)

end Observer

end ObservableTree
