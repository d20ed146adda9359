import ObservableTree.Proofs.AddressBuffer
import ObservableTree.Proofs.Chunk
import ObservableTree.Proofs.Slots
import ObservableTree.Proofs.Spelling
import ObservableTree.View.Parser

/-!
# Reading the document back

The document is written from pieces of text and read as JSON. What both have in common are its
tokens:

* `View.tokens` — the tokens of the document;
* `body_eq_spell` — the pieces spell the tokens;
* `ofTokens?_tokens` — the tokens make an object with two lists of texts;
* `parse_body` — hence every view is read back from its document, `body_injective` — and documents
  tell views apart;
* `parse_shown` — what a node writes is read as what it was meant to show.
-/

namespace ObservableTree

namespace View

/-! ### Tokens -/

/-- The tokens that list addresses, with a comma in front of each but the first. -/
def addressTokens : (isFirst : Bool) → List Address → List Token
  | _, [] => []
  | isFirst, a :: rest =>
    (if isFirst then [] else [.comma]) ++ .string a.text :: addressTokens false rest

/-- The tokens of a list of addresses under a key. -/
def memberTokens (key : String) (addresses : List Address) : List Token :=
  [.string key, .colon, .openBracket] ++ addressTokens true addresses ++ [.closeBracket]

/-- The tokens of the document. -/
def tokens (v : View) : List Token :=
  .openBrace :: memberTokens parentLabel v.parent.toList ++
    .comma :: memberTokens childLabel v.children ++ [.closeBrace]

/-- The bytes that spell tokens. -/
def spell (ts : List Token) : List UInt8 := utf8 (String.ofList (ts.flatMap Token.spelling))

theorem spell_append (ts us : List Token) : spell (ts ++ us) = spell ts ++ spell us := by
  rw [spell, List.flatMap_append, String.ofList_append, utf8_append]
  rfl

/-! ### Writing -/

theorem quoted_eq_spell (a : Address) : quoted a = spell [.string a.text] := by
  have hspelling : [Token.string a.text].flatMap Token.spelling =
      ['"'] ++ a.text.toList ++ ['"'] := List.append_nil _
  rw [spell, hspelling, String.ofList_append, String.ofList_append, String.ofList_toList,
    utf8_append, utf8_append, quoted, Address.octets_toText]
  rfl

theorem flatten_childItems (isFirst : Bool) (addresses : List Address) :
    (childItems isFirst addresses).flatten = spell (addressTokens isFirst addresses) := by
  induction addresses generalizing isFirst with
  | nil => cases isFirst <;> rfl
  | cons a rest ih =>
    have hone : childPiece isFirst a =
        spell ((if isFirst then [] else [.comma]) ++ [.string a.text]) := by
      rw [spell_append, childPiece, quoted_eq_spell]
      cases isFirst <;> rfl
    rw [flatten_childItems_cons, hone, ih, ← spell_append, List.append_assoc]
    rfl

theorem flatten_parentItems (p : Option Address) :
    (p.map quoted).toList.flatten = spell (addressTokens true p.toList) := by
  cases p with
  | none => rfl
  | some a =>
    show quoted a ++ [] = spell [.string a.text]
    rw [List.append_nil, quoted_eq_spell]

/-- The pieces of the document spell its tokens. -/
theorem body_eq_spell (v : View) : v.body = spell v.tokens := by
  have hopening : v.opening.flatten =
      spell [.openBrace, .string parentLabel, .colon, .openBracket] ++
        spell (addressTokens true v.parent.toList) ++
        spell [.closeBracket, .comma, .string childLabel, .colon, .openBracket] := by
    rw [opening, List.flatten_append, List.flatten_append, flatten_parentItems]
    rfl
  have hclosing : closing = spell [.closeBracket, .closeBrace] := rfl
  rw [body_eq, hopening, flatten_childItems, hclosing]
  simp only [← spell_append]
  rw [tokens, memberTokens, memberTokens]
  simp only [List.append_assoc, List.cons_append, List.nil_append]

/-! ### Cutting -/

theorem isVerbatim_of_isPlain {c : Char} (h : Address.IsPlain c) : IsVerbatim c := by
  refine ⟨?_, ?_, ?_⟩
  · rintro rfl
    exact absurd h (by decide)
  · rintro rfl
    exact absurd h (by decide)
  · intro hcontrol
    rcases h with ⟨hle, -⟩ | ⟨hle, -⟩ | rfl | rfl
    · exact absurd (UInt32.lt_of_le_of_lt hle hcontrol) (by decide : ¬ '0'.val < ' '.val)
    · exact absurd (UInt32.lt_of_le_of_lt hle hcontrol) (by decide : ¬ 'a'.val < ' '.val)
    · exact absurd hcontrol (by decide)
    · exact absurd hcontrol (by decide)

theorem isClosed_of_all {s : String} (h : s.toList.all IsVerbatim = true) :
    (Token.string s).IsClosed := fun c hc => of_decide_eq_true (List.all_eq_true.mp h c hc)

theorem isClosed_text (a : Address) : (Token.string a.text).IsClosed := by
  intro c hc
  rw [Address.text, String.toList_ofList] at hc
  exact isVerbatim_of_isPlain (Address.isPlain_of_mem_chars hc)

theorem isClosed_of_mem_addressTokens {isFirst : Bool} {addresses : List Address} {t : Token}
    (h : t ∈ addressTokens isFirst addresses) : t.IsClosed := by
  induction addresses generalizing isFirst with
  | nil => cases h
  | cons a rest ih =>
    rw [addressTokens, List.mem_append, List.mem_cons] at h
    rcases h with hcomma | rfl | hrest
    · cases isFirst with
      | true => cases hcomma
      | false =>
        rw [List.mem_singleton.mp hcomma]
        exact trivial
    · exact isClosed_text a
    · exact ih hrest

theorem isClosed_of_mem_memberTokens {key : String} {addresses : List Address} {t : Token}
    (hkey : (Token.string key).IsClosed) (h : t ∈ memberTokens key addresses) : t.IsClosed := by
  rw [memberTokens, List.mem_append, List.mem_append, List.mem_singleton] at h
  rcases h with (hfront | hlist) | rfl
  · simp only [List.mem_cons, List.not_mem_nil, or_false] at hfront
    rcases hfront with rfl | rfl | rfl
    · exact hkey
    · exact trivial
    · exact trivial
  · exact isClosed_of_mem_addressTokens hlist
  · exact trivial

theorem isClosed_of_mem_tokens {v : View} {t : Token} (h : t ∈ v.tokens) : t.IsClosed := by
  have hparent : (Token.string parentLabel).IsClosed := isClosed_of_all (by decide)
  have hchild : (Token.string childLabel).IsClosed := isClosed_of_all (by decide)
  rw [tokens, List.mem_append, List.mem_append, List.mem_cons, List.mem_cons,
    List.mem_singleton] at h
  rcases h with ((rfl | hmember) | rfl | hmember) | rfl
  · exact trivial
  · exact isClosed_of_mem_memberTokens hparent hmember
  · exact trivial
  · exact isClosed_of_mem_memberTokens hchild hmember
  · exact trivial

theorem ofChars?_tokens (v : View) :
    Token.ofChars? (v.tokens.flatMap Token.spelling) = some v.tokens :=
  Token.ofChars?_spellings fun _ ht => isClosed_of_mem_tokens ht

/-! ### Putting together -/

/-- Addresses as the texts of an array. -/
def texts (addresses : List Address) : Json := .array (addresses.map fun a => .string a.text)

/-- The object that a document spells. -/
def toJson (v : View) : Json :=
  .object [(parentLabel, texts v.parent.toList), (childLabel, texts v.children)]

/-- Behind one item, the other items and the end of the array are taken in. -/
theorem feedAll_addressTokens (stack : List Frame) (done : List Json) (a : Address)
    (rest : List Address) :
    (Reader.gotValue (.items done :: stack) (.string a.text)).feedAll
        (addressTokens false rest ++ [.closeBracket]) =
      some (.gotValue stack (.array (done ++ (a :: rest).map fun b => .string b.text))) := by
  induction rest generalizing done a with
  | nil => rfl
  | cons b rest ih =>
    have hnext := ih (done ++ [.string a.text]) b
    rw [List.append_assoc] at hnext
    exact hnext

/-- An open array takes in a list of addresses. -/
theorem feedAll_openArray (stack : List Frame) (addresses : List Address) :
    (Reader.openArray stack).feedAll (addressTokens true addresses ++ [.closeBracket]) =
      some (.gotValue stack (texts addresses)) := by
  cases addresses with
  | nil => rfl
  | cons a rest => exact feedAll_addressTokens stack [] a rest

/-- A member with a list of addresses, in the only open object. -/
theorem feedAll_memberTokens (done : List (String × Json)) (isFirst : Bool) (key : String)
    (addresses : List Address) :
    (Reader.wantKey [] done isFirst).feedAll (memberTokens key addresses) =
      some (.gotValue [.member done key] (texts addresses)) := by
  have hkey : (Reader.wantKey [] done isFirst).feedAll [.string key, .colon, .openBracket] =
      some (.openArray [.member done key]) := by
    cases isFirst <;> rfl
  rw [memberTokens, List.append_assoc, Reader.feedAll_append, hkey]
  exact feedAll_openArray [.member done key] addresses

theorem ofTokens?_tokens (v : View) : Json.ofTokens? v.tokens = some v.toJson := by
  have hparent := feedAll_memberTokens [] true parentLabel v.parent.toList
  have hchild := feedAll_memberTokens [(parentLabel, texts v.parent.toList)] false childLabel
    v.children
  have hend : (Reader.gotValue [.member [(parentLabel, texts v.parent.toList)] childLabel]
      (texts v.children)).feedAll [.closeBrace] = some (.gotValue [] v.toJson) := rfl
  have hlast : (Reader.gotValue [.member [] parentLabel] (texts v.parent.toList)).feedAll
      (.comma :: memberTokens childLabel v.children ++ [.closeBrace]) =
        some (.gotValue [] v.toJson) := by
    show (Reader.wantKey [] [(parentLabel, texts v.parent.toList)] false).feedAll
      (memberTokens childLabel v.children ++ [.closeBrace]) = _
    rw [Reader.feedAll_append, hchild]
    exact hend
  have hall : (Reader.wantValue []).feedAll v.tokens = some (.gotValue [] v.toJson) := by
    rw [tokens, List.append_assoc]
    show (Reader.wantKey [] [] true).feedAll (memberTokens parentLabel v.parent.toList ++
      (.comma :: memberTokens childLabel v.children ++ [.closeBrace])) = _
    rw [Reader.feedAll_append, hparent]
    exact hlast
  rw [Json.ofTokens?, hall]
  rfl

/-! ### Views -/

theorem mapM_address? (addresses : List Address) :
    (addresses.map fun a => Json.string a.text).mapM Json.address? = some addresses := by
  induction addresses with
  | nil => rfl
  | cons a rest ih =>
    have hone : Json.address? (.string a.text) = some a := by
      show Address.parse? a.text.toList = _
      rw [Address.text, String.toList_ofList, Address.parse?_chars]
    rw [List.map_cons, List.mapM_cons, hone, ih]
    rfl

theorem addresses?_parent (v : View) :
    v.toJson.addresses? parentLabel = some v.parent.toList := by
  have hmember : v.toJson.member? parentLabel = some (texts v.parent.toList) := rfl
  rw [Json.addresses?, hmember]
  exact mapM_address? v.parent.toList

theorem addresses?_child (v : View) : v.toJson.addresses? childLabel = some v.children := by
  have hmember : v.toJson.member? childLabel = some (texts v.children) := rfl
  rw [Json.addresses?, hmember]
  exact mapM_address? v.children

theorem ofJson_toJson (v : View) : ofJson v.toJson = .ok v := by
  have hone : ¬1 < v.parent.toList.length := by
    cases v.parent with
    | none => exact Nat.not_lt_zero 1
    | some a => exact Nat.lt_irrefl 1
  rw [ofJson, addresses?_parent, addresses?_child]
  dsimp only
  rw [if_neg hone, Option.head?_toList]

/-- **Every view is read back from its document.** -/
theorem parse_body (v : View) : parse v.body = .ok v := by
  have hread : readJson? v.body = some v.toJson := by
    rw [readJson?, body_eq_spell, spell, readUtf8?_utf8, Option.bind_some, String.toList_ofList,
      Json.ofChars?, ofChars?_tokens, Option.bind_some, ofTokens?_tokens]
  rw [parse, hread]
  exact ofJson_toJson v

theorem body_injective {v w : View} (h : v.body = w.body) : v = w := by
  have hboth : (Except.ok v : Except ViewError View) = .ok w := by
    rw [← parse_body v, ← parse_body w, h]
  exact Except.ok.inj hboth

/-! ### What a node shows -/

theorem shownParent_eq (g : Routing) :
    shownParent g = match g.parent, g.dagPrefix with
      | some a, some p => some (a.withPrefixGroup p)
      | parent, none => parent
      | none, _ => none := by
  rw [shownParent]
  cases g.parent with
  | none => cases g.dagPrefix <;> rfl
  | some a => cases g.dagPrefix <;> rfl

theorem shownChildren_eq (g : Routing) (t : NeighborTable) :
    shownChildren g t =
      (g.routes.filter fun r => r.nextHop ∈ t.entries.map Entry.address).map Route.destination := by
  have hheard : ∀ r ∈ g.routes,
      t.contains r.nextHop = decide (r.nextHop ∈ t.entries.map Entry.address) := by
    intro r _
    rw [Bool.eq_iff_iff, decide_eq_true_iff, NeighborTable.contains_iff, List.mem_map]
  rw [shownChildren, List.filter_congr hheard]

/-- A buffer with room for the document holds all of it after the walk. -/
theorem writeTo_roomy (v : View) {buffer : List UInt8} (hroom : v.body.length ≤ buffer.length)
    (hlast : buffer.length ≤ lastPosition) :
    (v.writeTo (Window.ofBuffer buffer 0)).copied = v.body ∧
      (v.writeTo (Window.ofBuffer buffer 0)).finish.next = .done := by
  have hbody : v.body.length ≤ lastPosition := Nat.le_trans hroom hlast
  constructor
  · obtain ⟨n, hwalk, -, -⟩ := writeTo_ofBuffer v buffer 0 (.inl hbody)
    rw [hwalk]
    show (v.body.drop 0).take buffer.length = v.body
    rw [List.drop_zero, List.take_of_length_le hroom]
  · rw [(finish_writeTo v buffer 0 (.inl hbody)).2, if_pos]
    rwa [Nat.zero_add]

/-- **What a node writes is read as what it means to show.** The walk leaves the whole document in
a buffer that has room for it. The document is read as the parent under the tree's prefix and the
destinations of the routes through neighbors in the table, and two nodes write the same document
only if they show the same. -/
theorem parse_shown (g : Routing) (t : NeighborTable) :
    (∀ buffer : List UInt8, (shown g t).body.length ≤ buffer.length →
      buffer.length ≤ lastPosition →
      ((shown g t).writeTo (Window.ofBuffer buffer 0)).copied = (shown g t).body ∧
        ((shown g t).writeTo (Window.ofBuffer buffer 0)).finish.next = .done) ∧
    parse (shown g t).body = .ok
      { parent := match g.parent, g.dagPrefix with
          | some a, some p => some (a.withPrefixGroup p)
          | parent, none => parent
          | none, _ => none
        children :=
          (g.routes.filter fun r => r.nextHop ∈ t.entries.map Entry.address).map
            Route.destination } ∧
    ∀ (g' : Routing) (t' : NeighborTable), (shown g' t').body = (shown g t).body →
      shownParent g' = shownParent g ∧ shownChildren g' t' = shownChildren g t := by
  refine ⟨fun buffer hroom hlast => writeTo_roomy _ hroom hlast, ?_, ?_⟩
  · rw [parse_body, ← shownParent_eq, ← shownChildren_eq]
    rfl
  · intro g' t' hbody
    have hview := body_injective hbody
    exact ⟨congrArg View.parent hview, congrArg View.children hview⟩

/-- A node with a parent that wraps a 32-bit address, under a prefix, and with two children whose
next hop was heard and one whose next hop was not. -/
theorem parse_shown_of_three :
    let heard : Address := .ofGroups 65152 0 0 0 0 0 0 1
    let silent : Address := .ofGroups 65152 0 0 0 0 0 0 2
    let child : Address := .ofGroups 8193 3512 0 0 1 0 0 1
    let g : Routing :=
      { parent := some (.ofGroups 0 0 0 0 0 65535 49320 258)
        dagPrefix := some (.ofGroups 8193 3512 0 0 0 0 0 0)
        routes := [⟨child, heard⟩, ⟨silent, silent⟩, ⟨child, heard⟩] }
    let t : NeighborTable := ⟨[none, some ⟨heard, .boot⟩]⟩
    let buffer : List UInt8 := List.replicate 200 0
    (shown g t).body.length ≤ buffer.length ∧ buffer.length ≤ lastPosition ∧
      parse ((shown g t).writeTo (Window.ofBuffer buffer 0)).copied =
        .ok ⟨some (.ofGroups 8193 0 0 0 0 65535 49320 258), [child, child]⟩ := by
  intro heard silent child g t buffer
  obtain ⟨hwritten, hparse, -⟩ := parse_shown g t
  have hlength : buffer.length = 200 := List.length_replicate
  have hroom : (shown g t).body.length ≤ buffer.length := by
    rw [hlength]
    decide +kernel
  have hlast : buffer.length ≤ lastPosition := by
    rw [hlength]
    decide
  refine ⟨hroom, hlast, ?_⟩
  rw [(hwritten buffer hroom hlast).1, hparse]
  rfl

end View

end ObservableTree
