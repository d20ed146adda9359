import Mathlib.Logic.Function.Basic
import ObservableTree.Proofs.Reading

/-!
# Retrievals side by side

Any number of clients fetch the document of one resource, each with buffers of any sizes, and no
event or timer comes in between. A read begins when it copies the state and ends when it settles
its answer; reads of different clients may begin and end in any order.

* `Readers` — the resource and its clients, `Readers.run` — a row of moves;
* `ends_begins` — a read that ends right after it began is `Resource.read`;
* `Client.OnCourse` — what a client has received is a front of the document;
* `Readers.Steady` — what every move preserves: a notification that nobody has seen can only meet
  clients that are at the front anyway;
* `run_retrievals` — every retrieval that ends has received exactly the document.
-/

namespace ObservableTree

/-! ### Clients -/

/-- What a client asks with: a request that is acceptable, and a buffer with room. -/
structure Ask where
  request : Request
  buffer : List UInt8
  accepted : request.acceptsJson = true
  room : buffer ≠ []

/-- A read that has begun: the state that it copied, and what it was asked with. -/
structure Flight (cfg : Settings) where
  seen : Resource cfg
  ask : Ask

/-- A read that has ended. -/
structure Served where
  ask : Ask
  exchange : Exchange

namespace Served

/-- The bytes that a read brought. -/
def payload (x : Served) : List UInt8 :=
  match x.exchange.result with
  | .ok reply => x.exchange.buffer.take reply.payloadLength
  | .error _ => []

/-- The read succeeded and left no room in its buffer. -/
def Filled (x : Served) : Prop := x.exchange.result = .ok (.document x.ask.buffer.length)

end Served

/-- A client: the offset that it feeds back, the reads of its present retrieval in order, and the
read that it is waiting for. -/
structure Client (cfg : Settings) where
  offset : Offset
  served : List Served
  flight : Option (Flight cfg)

namespace Client

variable {cfg : Settings}

/-- A client that has not asked yet. -/
def idle : Client cfg := ⟨.done, [], none⟩

/-- The bytes of the present retrieval. -/
def received (c : Client cfg) : List UInt8 := (c.served.map Served.payload).flatten

/-- The reads that the next one goes on from: none if the last retrieval has ended. -/
def carried (c : Client cfg) : List Served := if c.offset = .done then [] else c.served

/-- Takes an answer. -/
def note (c : Client cfg) (ask : Ask) (x : Exchange) : Client cfg :=
  ⟨x.offset, c.carried ++ [⟨ask, x⟩], none⟩

end Client

/-! ### Moves -/

/-- A read of a client begins, or the read that it waits for ends. -/
inductive Move (ι : Type) where
  | begins (c : ι) (ask : Ask)
  | ends (c : ι)

/-- A resource and the clients that read it. -/
structure Readers (cfg : Settings) (ι : Type) where
  resource : Resource cfg
  client : ι → Client cfg

namespace Readers

variable {cfg : Settings} {ι : Type} [DecidableEq ι]

/-- Nobody has asked yet. -/
def start (r : Resource cfg) : Readers cfg ι := ⟨r, fun _ => .idle⟩

/-- The same readers but for the resource and one client. -/
def put (s : Readers cfg ι) (r : Resource cfg) (c : ι) (x : Client cfg) : Readers cfg ι :=
  ⟨r, Function.update s.client c x⟩

/-- A client's read begins, unless it waits for another one. -/
def begins (s : Readers cfg ι) (c : ι) (ask : Ask) : Readers cfg ι :=
  match (s.client c).flight with
  | some _ => s
  | none => s.put s.resource c { s.client c with flight := some ⟨s.resource, ask⟩ }

/-- The answer to a read: the document is that of the state which the read copied, and the
notification is settled in the present state. -/
def answer (s : Readers cfg ι) (g : Routing) (c : ι) (f : Flight cfg) : Reaction cfg Exchange :=
  Resource.answer f.seen s.resource (f.seen.chunk g f.ask.buffer (s.client c).offset)

/-- The read that a client waits for ends. -/
def ends (s : Readers cfg ι) (g : Routing) (c : ι) : Readers cfg ι :=
  match (s.client c).flight with
  | none => s
  | some f => s.put (s.answer g c f).state c ((s.client c).note f.ask (s.answer g c f).value)

/-- One move. -/
def step (g : Routing) (s : Readers cfg ι) : Move ι → Readers cfg ι
  | .begins c ask => s.begins c ask
  | .ends c => s.ends g c

/-- A row of moves. -/
def run (s : Readers cfg ι) (g : Routing) (moves : List (Move ι)) : Readers cfg ι :=
  moves.foldl (step g) s

theorem put_client_self (s : Readers cfg ι) (r : Resource cfg) (c : ι) (x : Client cfg) :
    (s.put r c x).client c = x := by
  simp only [put, Function.update_self]

theorem put_client_of_ne {c d : ι} (h : d ≠ c) (s : Readers cfg ι) (r : Resource cfg)
    (x : Client cfg) : (s.put r c x).client d = s.client d := by
  simp only [put, Function.update_of_ne h]

theorem put_put (s : Readers cfg ι) (r q : Resource cfg) (c : ι) (x y : Client cfg) :
    (s.put r c x).put q c y = s.put q c y := by
  simp only [put, Function.update_idem]

theorem begins_of_idle {s : Readers cfg ι} {c : ι} (h : (s.client c).flight = none) (ask : Ask) :
    s.begins c ask = s.put s.resource c { s.client c with flight := some ⟨s.resource, ask⟩ } := by
  simp only [begins, h]

theorem begins_of_flight {s : Readers cfg ι} {c : ι} {f : Flight cfg}
    (h : (s.client c).flight = some f) (ask : Ask) : s.begins c ask = s := by
  simp only [begins, h]

theorem ends_of_idle {s : Readers cfg ι} {c : ι} (h : (s.client c).flight = none) (g : Routing) :
    s.ends g c = s := by
  simp only [ends, h]

theorem ends_of_flight {s : Readers cfg ι} {c : ι} {f : Flight cfg}
    (h : (s.client c).flight = some f) (g : Routing) :
    s.ends g c =
      s.put (s.answer g c f).state c ((s.client c).note f.ask (s.answer g c f).value) := by
  simp only [ends, h]

/-- A read that ends right after it began is one read of the resource. -/
theorem ends_begins {s : Readers cfg ι} {c : ι} (h : (s.client c).flight = none) (ask : Ask)
    (g : Routing) :
    let x := s.resource.read g ask.request ask.buffer (s.client c).offset []
    (s.begins c ask).ends g c = s.put x.state c ((s.client c).note ask x.value) := by
  intro x
  have hread : x = Resource.answer s.resource s.resource
      (s.resource.chunk g ask.buffer (s.client c).offset) :=
    Resource.read_of_room ask.accepted ask.room
  have hclient := put_client_self s s.resource c
    { s.client c with flight := some ⟨s.resource, ask⟩ }
  rw [begins_of_idle h, ends_of_flight (congrArg Client.flight hclient), put_put, hread, answer,
    hclient]
  rfl

end Readers

/-! ### What one answer does to its client -/

namespace Client

variable {cfg : Settings} {g : Routing} {document : List UInt8}

/-- A client on its way through a document: every read has succeeded, all but perhaps the last one
have filled their buffers, and the bytes received are the document up to the offset. -/
structure OnCourse (document : List UInt8) (c : Client cfg) : Prop where
  answered : ∀ x ∈ c.served, ∃ n, x.exchange.result = .ok (.document n)
  filled_inner : ∀ x ∈ c.served.dropLast, x.Filled
  filled : c.offset ≠ .done → ∀ x ∈ c.served, x.Filled
  place : ∀ p, c.offset = .resume p →
    p.toNat < document.length ∧ c.received = document.take p.toNat
  finished : c.offset = .done → c.served = [] ∨ c.received = document

theorem idle_onCourse (document : List UInt8) : (idle : Client cfg).OnCourse document where
  answered := fun _ hx => absurd hx List.not_mem_nil
  filled_inner := fun _ hx => absurd hx List.not_mem_nil
  filled := fun h => absurd rfl h
  place := fun _ h => Offset.noConfusion h
  finished := fun _ => .inl rfl

theorem carried_answered {c : Client cfg} (hc : c.OnCourse document) :
    ∀ x ∈ c.carried, ∃ n, x.exchange.result = .ok (.document n) := by
  unfold carried
  split
  · exact fun _ hx => absurd hx List.not_mem_nil
  · exact hc.answered

theorem carried_filled {c : Client cfg} (hc : c.OnCourse document) :
    ∀ x ∈ c.carried, x.Filled := by
  unfold carried
  split
  · exact fun _ hx => absurd hx List.not_mem_nil
  · next hopen => exact hc.filled hopen

/-- The next read starts in front of the document's end, right behind what the client has. -/
theorem readStart_of_onCourse {c : Client cfg} (hc : c.OnCourse document) {seen : Resource cfg}
    (hseen : seen.document g = document) (hfresh : seen.fresh = true → c.offset = .done) :
    seen.readStart c.offset < document.length ∧
      (c.carried.map Served.payload).flatten = document.take (seen.readStart c.offset) := by
  cases hoffset : c.offset with
  | done =>
    rw [seen.readStart_done, carried, if_pos hoffset, List.take_zero, ← hseen]
    exact ⟨seen.document_pos g, rfl⟩
  | resume p =>
    have hsettled : seen.fresh = false := by
      rw [← Bool.not_eq_true]
      intro h
      rw [hfresh h] at hoffset
      cases hoffset
    have hopen : c.offset ≠ .done := by
      rw [hoffset]
      exact fun h => Offset.noConfusion h
    rw [Resource.readStart_of_settled hsettled, carried, if_neg hopen]
    exact hc.place p hoffset

theorem note_received (c : Client cfg) (ask : Ask) (x : Exchange) :
    (c.note ask x).received =
      (c.carried.map Served.payload).flatten ++ Served.payload ⟨ask, x⟩ := by
  simp only [received, note, List.map_append, List.flatten_append, List.map_cons, List.map_nil,
    List.flatten_cons, List.flatten_nil, List.append_nil]

theorem payload_of_served (ask : Ask) (r : Resource cfg) (offset next : Offset) :
    Served.payload ⟨ask, r.readBuffer g ask.buffer offset, next,
        .ok (.document (r.readCount g ask.buffer offset))⟩ =
      ((r.document g).drop (r.readStart offset)).take (r.readCount g ask.buffer offset) := by
  have hcount : (((r.document g).drop (r.readStart offset)).take
      (r.readCount g ask.buffer offset)).length = r.readCount g ask.buffer offset := by
    rw [List.length_take, List.length_drop, Resource.readCount]
    omega
  show (r.readBuffer g ask.buffer offset).take (r.readCount g ask.buffer offset) = _
  rw [Resource.readBuffer, List.take_left' hcount]

/-- **The answer.** It keeps its client on its way, whatever the resource has come to meanwhile. -/
theorem note_onCourse {c : Client cfg} (hc : c.OnCourse document) {seen : Resource cfg}
    (later : Resource cfg) (hseen : seen.document g = document)
    (hsize : document.length ≤ 4294967296) (hfresh : seen.fresh = true → c.offset = .done)
    (ask : Ask) :
    (c.note ask
      (Resource.answer seen later (seen.chunk g ask.buffer c.offset)).value).OnCourse document := by
  subst hseen
  obtain ⟨hstart, hbase⟩ := readStart_of_onCourse hc rfl hfresh
  obtain ⟨hvalue, -⟩ := Resource.answer_of_before later hsize ask.room hstart
  have hreceived := note_received c ask
    (Resource.answer seen later (seen.chunk g ask.buffer c.offset)).value
  rw [hvalue] at hreceived ⊢
  rw [payload_of_served, hbase, ← List.take_add] at hreceived
  by_cases hend : (seen.document g).length ≤ seen.readStart c.offset + ask.buffer.length
  · -- the document ends in this buffer
    have hnext := Resource.readNext_of_past hend
    have hcount : seen.readStart c.offset + seen.readCount g ask.buffer c.offset =
        (seen.document g).length := by
      rw [Resource.readCount]
      omega
    rw [hcount, List.take_length] at hreceived
    refine ⟨?_, ?_, ?_, ?_, fun _ => .inr hreceived⟩
    · intro x hx
      rcases List.mem_append.mp hx with hx | hx
      · exact carried_answered hc x hx
      · rw [List.mem_singleton.mp hx]
        exact ⟨_, rfl⟩
    · intro x hx
      rw [note, List.dropLast_concat] at hx
      exact carried_filled hc x hx
    · exact fun h => absurd hnext h
    · intro p hp
      rw [note, hnext] at hp
      cases hp
  · -- the buffer ends in the document
    rw [Nat.not_le] at hend
    obtain ⟨p, hp, hnext⟩ := Resource.readNext_of_short hsize hend
    have hcount : seen.readCount g ask.buffer c.offset = ask.buffer.length := by
      rw [Resource.readCount]
      omega
    have hall : ∀ x ∈ (c.note ask ⟨seen.readBuffer g ask.buffer c.offset,
        seen.readNext g ask.buffer c.offset,
        .ok (.document (seen.readCount g ask.buffer c.offset))⟩).served, x.Filled := by
      intro x hx
      rcases List.mem_append.mp hx with hx | hx
      · exact carried_filled hc x hx
      · rw [List.mem_singleton.mp hx, Served.Filled, hcount]
    refine ⟨fun x hx => ⟨_, hall x hx⟩, fun x hx => hall x (List.dropLast_subset _ hx),
      fun _ => hall, ?_, ?_⟩
    · intro q hq
      rw [note, hnext] at hq
      cases hq
      rw [hp]
      exact ⟨hend, hreceived.trans (by rw [hcount])⟩
    · intro h
      rw [note, hnext] at h
      cases h

end Client

/-! ### Runs -/

namespace Readers

variable {cfg : Settings} {ι : Type} [DecidableEq ι] {r : Resource cfg} {g : Routing}
  {s : Readers cfg ι}

/-- What every move preserves. The table and the number of notifications stay those of the start. A
notification that nobody has seen finds all clients at the front, and so does a read that has seen
it; a read that has not seen it began after it was settled. -/
structure Steady (r : Resource cfg) (g : Routing) (s : Readers cfg ι) : Prop where
  table : s.resource.table = r.table
  number : s.resource.noticeNumber = r.noticeNumber
  flight_table : ∀ c f, (s.client c).flight = some f → f.seen.table = r.table
  flight_number : ∀ c f, (s.client c).flight = some f → f.seen.noticeNumber = r.noticeNumber
  flight_fresh : ∀ c f, (s.client c).flight = some f → f.seen.fresh = true →
    (s.client c).offset = .done
  flight_settled : ∀ c f, (s.client c).flight = some f → f.seen.fresh = false →
    s.resource.fresh = false
  fresh : s.resource.fresh = true → ∀ c, (s.client c).offset = .done
  onCourse : ∀ c, (s.client c).OnCourse (r.document g)

omit [DecidableEq ι] in
theorem steady_start (r : Resource cfg) (g : Routing) : Steady r g (start r : Readers cfg ι) where
  table := rfl
  number := rfl
  flight_table := fun _ _ h => nomatch h
  flight_number := fun _ _ h => nomatch h
  flight_fresh := fun _ _ h => nomatch h
  flight_settled := fun _ _ h => nomatch h
  fresh := fun _ _ => rfl
  onCourse := fun _ => Client.idle_onCourse _

theorem begins_steady (hs : Steady r g s) (c : ι) (ask : Ask) : Steady r g (s.begins c ask) := by
  cases hflight : (s.client c).flight with
  | some f =>
    rw [begins_of_flight hflight]
    exact hs
  | none =>
    rw [begins_of_idle hflight]
    -- the read copies the present state
    have hcases : ∀ d f, ((s.put s.resource c
        { s.client c with flight := some ⟨s.resource, ask⟩ }).client d).flight = some f →
        (s.client d).flight = some f ∨ f.seen = s.resource := by
      intro d f hf
      by_cases hd : d = c
      · subst hd
        rw [put_client_self] at hf
        exact .inr (congrArg Flight.seen (Option.some.inj hf)).symm
      · rw [put_client_of_ne hd] at hf
        exact .inl hf
    have hoffset : ∀ d, ((s.put s.resource c
        { s.client c with flight := some ⟨s.resource, ask⟩ }).client d).offset =
        (s.client d).offset := by
      intro d
      by_cases hd : d = c
      · rw [hd, put_client_self]
      · rw [put_client_of_ne hd]
    refine ⟨hs.table, hs.number, ?_, ?_, ?_, ?_, ?_, ?_⟩
    · intro d f hf
      rcases hcases d f hf with hold | hnew
      · exact hs.flight_table d f hold
      · rw [hnew, hs.table]
    · intro d f hf
      rcases hcases d f hf with hold | hnew
      · exact hs.flight_number d f hold
      · rw [hnew, hs.number]
    · intro d f hf hfresh
      rw [hoffset]
      rcases hcases d f hf with hold | hnew
      · exact hs.flight_fresh d f hold hfresh
      · exact hs.fresh (hnew ▸ hfresh) d
    · intro d f hf hsettled
      rcases hcases d f hf with hold | hnew
      · exact hs.flight_settled d f hold hsettled
      · exact hnew ▸ hsettled
    · intro hfresh d
      rw [hoffset]
      exact hs.fresh hfresh d
    · intro d
      by_cases hd : d = c
      · rw [hd, put_client_self]
        exact ⟨(hs.onCourse c).answered, (hs.onCourse c).filled_inner, (hs.onCourse c).filled,
          (hs.onCourse c).place, (hs.onCourse c).finished⟩
      · rw [put_client_of_ne hd]
        exact hs.onCourse d

omit [DecidableEq ι] in
/-- After an answer the notification is settled, and nothing else has changed. -/
theorem answer_state_of_steady (hs : Steady r g s) (hsize : (r.document g).length ≤ 4294967296)
    {c : ι} {f : Flight cfg} (hf : (s.client c).flight = some f) :
    (s.answer g c f).state = { s.resource with fresh := false } := by
  have hseen : f.seen.document g = r.document g := by
    rw [Resource.document, hs.flight_table c f hf]
    rfl
  obtain ⟨hstart, -⟩ := Client.readStart_of_onCourse (hs.onCourse c) hseen (hs.flight_fresh c f hf)
  rw [← hseen] at hstart hsize
  have hcount : 0 < f.seen.readCount g f.ask.buffer (s.client c).offset := by
    have hroom : 0 < f.ask.buffer.length := List.length_pos_iff.mpr f.ask.room
    rw [Resource.readCount]
    omega
  rw [answer, (Resource.answer_of_before s.resource hsize f.ask.room hstart).2]
  have hnumber : s.resource.noticeNumber = f.seen.noticeNumber :=
    hs.number.trans (hs.flight_number c f hf).symm
  cases hfresh : f.seen.fresh with
  | true => exact if_pos ⟨hfresh, hcount, hnumber⟩
  | false =>
    have hsettled := hs.flight_settled c f hf hfresh
    rw [Resource.settle, if_neg fun h => absurd h.1 (by rw [hfresh]; decide), ← hsettled]

theorem ends_steady (hs : Steady r g s) (hsize : (r.document g).length ≤ 4294967296) (c : ι) :
    Steady r g (s.ends g c) := by
  cases hflight : (s.client c).flight with
  | none =>
    rw [ends_of_idle hflight]
    exact hs
  | some f =>
    rw [ends_of_flight hflight, answer_state_of_steady hs hsize hflight]
    -- the client that was answered waits for nothing, and the others are as before
    have hcases : ∀ d e, ((s.put { s.resource with fresh := false } c
        ((s.client c).note f.ask (s.answer g c f).value)).client d).flight = some e →
        d ≠ c ∧ (s.client d).flight = some e := by
      intro d e he
      by_cases hd : d = c
      · subst hd
        rw [put_client_self] at he
        cases he
      · rw [put_client_of_ne hd] at he
        exact ⟨hd, he⟩
    refine ⟨hs.table, hs.number, ?_, ?_, ?_, fun _ _ _ _ => rfl, fun h => Bool.noConfusion h, ?_⟩
    · intro d e he
      exact hs.flight_table d e (hcases d e he).2
    · intro d e he
      exact hs.flight_number d e (hcases d e he).2
    · intro d e he hfresh
      obtain ⟨hd, hold⟩ := hcases d e he
      rw [put_client_of_ne hd]
      exact hs.flight_fresh d e hold hfresh
    · intro d
      by_cases hd : d = c
      · have hseen : f.seen.document g = r.document g := by
          rw [Resource.document, hs.flight_table c f hflight]
          rfl
        rw [hd, put_client_self]
        exact Client.note_onCourse (hs.onCourse c) s.resource hseen hsize
          (hs.flight_fresh c f hflight) f.ask
      · rw [put_client_of_ne hd]
        exact hs.onCourse d

theorem run_steady (hsize : (r.document g).length ≤ 4294967296) (moves : List (Move ι))
    (hs : Steady r g s) : Steady r g (s.run g moves) := by
  induction moves generalizing s with
  | nil => exact hs
  | cons move moves ih =>
    cases move with
    | begins c ask => exact ih (begins_steady hs c ask)
    | ends c => exact ih (ends_steady hs hsize c)

/-- **Retrievals side by side.** However the reads of the clients follow and overlap each other: none
fails, each but the last of a retrieval fills its buffer, what a client has received so far is a
front of the document, and when its offset has become `done` it has received the document. -/
theorem run_retrievals (r : Resource cfg) (g : Routing)
    (hsize : (r.document g).length ≤ 4294967296) (moves : List (Move ι)) (c : ι) :
    let client := ((start r).run g moves).client c
    (∀ x ∈ client.served, ∃ n, x.exchange.result = .ok (.document n)) ∧
    (∀ x ∈ client.served.dropLast, x.Filled) ∧
    (client.offset ≠ .done → ∀ x ∈ client.served, x.Filled) ∧
    (∀ p, client.offset = .resume p →
      p.toNat < (r.document g).length ∧ client.received = (r.document g).take p.toNat) ∧
    (client.offset = .done → client.served ≠ [] → client.received = r.document g) := by
  intro client
  have hclient : client.OnCourse (r.document g) :=
    (run_steady hsize moves (steady_start r g)).onCourse c
  refine ⟨hclient.answered, hclient.filled_inner, hclient.filled, hclient.place, ?_⟩
  intro hdone hserved
  exact (hclient.finished hdone).resolve_left hserved

/-- Two clients, with buffers of twenty, four and sixteen bytes, whose first reads both see a
notification: the second client ends its first read first. -/
theorem run_retrievals_of_two :
    let r : Resource .small := { Resource.startingAt .small .boot with fresh := true }
    let ask : Nat → Ask := fun n => ⟨.any, List.replicate (n + 1) 0, rfl, nofun⟩
    let moves : List (Move Nat) :=
      [.begins 0 (ask 19), .begins 1 (ask 15), .ends 1, .begins 1 (ask 15), .ends 0, .ends 1,
        .begins 0 (ask 3), .ends 0]
    (r.document .empty).length ≤ 4294967296 ∧
      (((start r).run .empty moves).client 0).received = r.document .empty ∧
      (((start r).run .empty moves).client 1).received = r.document .empty := by
  intro r ask moves
  have hsize : (r.document .empty).length ≤ 4294967296 := by decide
  refine ⟨hsize, ?_, ?_⟩
  · exact (run_retrievals r .empty hsize moves 0).2.2.2.2 (by decide) (by decide +kernel)
  · exact (run_retrievals r .empty hsize moves 1).2.2.2.2 (by decide) (by decide +kernel)

end Readers

end ObservableTree
