/-!
# Offsets between exchanges

A body that does not fit one buffer is fetched over several exchanges, linked by an offset. Towards
the resource, `Offset.done` asks for a fresh body; from it, that the body has ended.

* `Offset.ofRaw?`, `Offset.toRaw` — the signed number in which the transport keeps an offset;
* `Offset.position?` — the position an exchange resumes at, if it does not start afresh.
-/

namespace ObservableTree

/-- The largest position that an offset holds. -/
def lastOffset : Nat := 4294967295

/-- The largest number that the transport's signed form holds. -/
def lastRaw : Nat := 2147483647

/-- Where the next exchange resumes. -/
inductive Offset where
  | done
  | resume (position : UInt32)
deriving DecidableEq

namespace Offset

/-- The start of a body. -/
def start : Offset := resume 0

instance : Inhabited Offset := ⟨done⟩

/-- The offset at a position, or at the last one that an offset holds. -/
def clamped (position : Nat) : Offset := resume (UInt32.ofNat (min position lastOffset))

/-- The position to resume at, none for a fresh body. -/
def position? : Offset → Option Nat
  | done => none
  | resume p => some p.toNat

/-- Whether nothing is left to fetch. -/
def isDone (o : Offset) : Bool := o == done

/-- The offset that the transport's signed number stands for: minus one for none, and no meaning
for any other negative number. -/
def ofRaw? (raw : Int32) : Option Offset :=
  if raw = -1 then some done
  else if raw < 0 then none
  else some (resume raw.toUInt32)

/-- The transport's signed number for an offset, with positions that it cannot hold cut down to
the largest one. -/
def toRaw : Offset → Int32
  | done => -1
  | resume p => Int32.ofNat (min p.toNat lastRaw)

/-- The text of an offset under its type's name. -/
def labelled : Offset → String
  | done => "BlockOffset(END)"
  | resume p => "BlockOffset(" ++ toString p.toNat ++ ")"

end Offset

end ObservableTree
