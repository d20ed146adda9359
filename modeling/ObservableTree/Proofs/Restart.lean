import ObservableTree.Proofs.Document

/-!
# Documents that break off

A notification sends a retrieval back to the front, and a client that goes on appending what it
receives has then the front of one document and, behind it, another document. Such a text is never
read:

* `feedAll_objects`, `Json.count_braces` — a value has as many closing braces as opening ones;
* `run_of_breaksOff` — a document that breaks off has no closing brace, and leaves the lexer between
  two tokens or in a string;
* `run_text_of_front` — in a string the next document soon ends the string, and stops making sense
  unless it breaks off there too;
* `count_braces_le` — hence nothing that follows makes up for the brace that is missing;
* `parse_fronts` — no row of fronts of documents with a document behind it is read.
-/

namespace ObservableTree

/-! ### Braces -/

/-- The number of objects among open frames. -/
def openObjects : List Frame → Nat
  | [] => 0
  | .items _ :: rest => openObjects rest
  | .member _ _ :: rest => openObjects rest + 1

namespace Reader

/-- The number of objects that are open. -/
def objects : Reader → Nat
  | wantValue stack | openArray stack | gotValue stack _ => openObjects stack
  | wantKey stack _ _ | wantColon stack _ _ => openObjects stack + 1

variable {r r' : Reader} {stack : List Frame} {t : Token}

theorem feedValue_objects (h : feedValue stack t = some r') :
    r'.objects + [t].count .closeBrace = openObjects stack + [t].count .openBrace := by
  cases t with
  | openBrace | openBracket =>
    rw [feedValue] at h
    split at h
    · cases h
      rfl
    · cases h
  | closeBrace | closeBracket | colon | comma => cases h
  | null | bool | number | string =>
    cases h
    rfl

theorem feedSeparator_objects {v : Json} (h : feedSeparator stack v t = some r') :
    r'.objects + [t].count .closeBrace = openObjects stack + [t].count .openBrace := by
  cases t with
  | comma | closeBracket | closeBrace =>
    cases stack with
    | nil => cases h
    | cons frame rest => cases frame <;> cases h <;> rfl
  | openBrace | openBracket | colon | null | bool | number | string => cases h

/-- An opening brace opens an object, and a closing brace closes one. -/
theorem feed_objects (h : r.feed t = some r') :
    r'.objects + [t].count .closeBrace = r.objects + [t].count .openBrace := by
  cases r with
  | wantValue stack => exact feedValue_objects h
  | gotValue stack v => exact feedSeparator_objects h
  | openArray stack =>
    cases t with
    | closeBracket =>
      cases h
      rfl
    | openBrace | closeBrace | openBracket | colon | comma | null | bool | number | string =>
      show _ = openObjects (.items [] :: stack) + _
      exact feedValue_objects h
  | wantKey stack done isFirst =>
    cases t with
    | closeBrace =>
      cases isFirst <;> cases h
      rfl
    | string s =>
      cases isFirst <;> cases h <;> rfl
    | openBrace | openBracket | closeBracket | colon | comma | null | bool | number =>
      cases isFirst <;> cases h
  | wantColon stack done key =>
    cases t with
    | colon =>
      cases h
      rfl
    | openBrace | closeBrace | openBracket | closeBracket | comma | null | bool | number | string =>
      cases h

theorem feedAll_objects (ts : List Token) (h : r.feedAll ts = some r') :
    r'.objects + ts.count .closeBrace = r.objects + ts.count .openBrace := by
  induction ts generalizing r with
  | nil =>
    cases h
    rfl
  | cons t ts ih =>
    rw [feedAll, List.foldlM_cons] at h
    obtain ⟨middle, hfeed, hrest⟩ := Option.bind_eq_some_iff.mp h
    have hone := feed_objects hfeed
    have hall := ih hrest
    simp only [List.count_cons, List.count_nil] at hone ⊢
    omega

end Reader

/-- A value has as many closing braces as opening ones. -/
theorem Json.count_braces {ts : List Token} {v : Json} (h : Json.ofTokens? ts = some v) :
    ts.count .closeBrace = ts.count .openBrace := by
  obtain ⟨r, hfeed, hvalue⟩ := Option.bind_eq_some_iff.mp h
  have hbraces := Reader.feedAll_objects ts hfeed
  have hclosed : r.objects = 0 := by
    unfold Reader.value? at hvalue
    split at hvalue
    · rfl
    · cases hvalue
  have hstart : (Reader.wantValue []).objects = 0 := rfl
  omega

/-! ### Fronts of texts -/

/-- Brackets, separators and texts that are spelled without escapes in single bytes. -/
def Token.IsMark : Token → Prop
  | .null | .bool _ | .number _ => False
  | .string s => ∀ c, c ∈ s.toList → IsVerbatim c ∧ c.utf8Size = 1
  | _ => True

namespace Token

theorem IsMark.isClosed {t : Token} (h : t.IsMark) : t.IsClosed := by
  cases t with
  | string s => exact fun c hc => (h c hc).1
  | number literal => exact absurd h id
  | null | bool => trivial
  | openBrace | closeBrace | openBracket | closeBracket | colon | comma => trivial

theorem IsMark.utf8Size {t : Token} (h : t.IsMark) {c : Char} (hc : c ∈ t.spelling) :
    c.utf8Size = 1 := by
  cases t with
  | string s =>
    rw [spelling, List.mem_append, List.mem_cons, List.mem_singleton] at hc
    rcases hc with (rfl | hc) | rfl
    · rfl
    · exact (h c hc).2
    · rfl
  | null | bool | number => exact absurd h id
  | openBrace | closeBrace | openBracket | closeBracket | colon | comma =>
    rw [List.mem_singleton.mp hc]
    rfl

end Token

namespace Lexer

/-- The machine is between two tokens or in a string. -/
def IsCalm (m : Lexer) : Prop := m = between ∨ ∃ taken, m = text taken

/-- In the middle of a token there is nothing yet, or a string has begun. -/
theorem run_within {t : Token} (ht : t.IsMark) {cs : List Char} (hcs : cs <+: t.spelling)
    (hne : cs ≠ t.spelling) : ∃ m, between.run cs = some ([], m) ∧ m.IsCalm := by
  cases cs with
  | nil => exact ⟨between, rfl, .inl rfl⟩
  | cons c cs =>
    cases t with
    | null | bool | number => exact absurd ht id
    | openBrace | closeBrace | openBracket | closeBracket | colon | comma =>
      obtain ⟨rfl, hrest⟩ := List.cons_prefix_cons.mp hcs
      rw [List.prefix_nil.mp hrest] at hne
      exact absurd rfl hne
    | string s =>
      obtain ⟨rfl, hrest⟩ := List.cons_prefix_cons.mp hcs
      have hfront : cs <+: s.toList := by
        rcases List.prefix_concat_iff.mp hrest with rfl | hfront
        · exact absurd rfl hne
        · exact hfront
      have hrun := run_text (fun c hc => (ht c (hfront.subset hc)).1) []
      refine ⟨text (cs.reverse ++ []), ?_, .inr ⟨_, rfl⟩⟩
      show ((text []).run cs).map _ = _
      rw [hrun]
      rfl

/-- **A row of tokens that breaks off.** The tokens in front of the break are read, and the machine
is between two tokens or in a string. -/
theorem run_front {ts : List Token} (hts : ∀ t ∈ ts, t.IsMark) {cs : List Char}
    (hcs : cs <+: ts.flatMap Token.spelling) :
    ∃ us m, between.run cs = some (us, m) ∧ m.IsCalm ∧ us <+: ts ∧
      (us = ts → cs = ts.flatMap Token.spelling) := by
  induction ts generalizing cs with
  | nil =>
    rw [List.flatMap_nil, List.prefix_nil] at hcs
    exact ⟨[], between, by rw [hcs]; rfl, .inl rfl, List.prefix_rfl, fun _ => hcs⟩
  | cons t ts ih =>
    have ht := hts t List.mem_cons_self
    rw [List.flatMap_cons] at hcs ⊢
    by_cases hwhole : t.spelling <+: cs
    · obtain ⟨ds, rfl⟩ := hwhole
      obtain ⟨us, m, hrun, hcalm, hus, hend⟩ := ih
        (fun u hu => hts u (List.mem_cons_of_mem t hu)) ((List.prefix_append_right_inj _).mp hcs)
      refine ⟨t :: us, m, ?_, hcalm, List.cons_prefix_cons.mpr ⟨rfl, hus⟩, ?_⟩
      · rw [run_append, run_spelling ht.isClosed, Option.bind_some, hrun]
        rfl
      · exact fun h => congrArg (t.spelling ++ ·) (hend (List.cons.inj h).2)
    · have hwithin := (List.prefix_or_prefix_of_prefix hcs (List.prefix_append _ _)).resolve_right
        hwhole
      obtain ⟨m, hrun, hcalm⟩ := run_within ht hwithin fun h => hwhole (h ▸ List.prefix_rfl)
      exact ⟨[], m, hrun, hcalm, List.nil_prefix, fun h => absurd h (List.cons_ne_nil _ _).symm⟩

end Lexer

namespace View

/-! ### The document as text -/

/-- The characters of the document. -/
def text (v : View) : List Char := v.tokens.flatMap Token.spelling

theorem body_eq_text (v : View) : v.body = utf8 (String.ofList v.text) := body_eq_spell v

theorem text_eq (v : View) : ∃ rest, v.text = '\x7b' :: '"' :: 'p' :: rest := ⟨_, rfl⟩

theorem mem_addressTokens {isFirst : Bool} {addresses : List Address} {t : Token}
    (h : t ∈ addressTokens isFirst addresses) : t = .comma ∨ ∃ a : Address, t = .string a.text := by
  induction addresses generalizing isFirst with
  | nil => exact absurd h List.not_mem_nil
  | cons a rest ih =>
    rw [addressTokens, List.mem_append, List.mem_cons] at h
    rcases h with hcomma | rfl | hrest
    · cases isFirst with
      | true => cases hcomma
      | false => exact .inl (List.mem_singleton.mp hcomma)
    · exact .inr ⟨a, rfl⟩
    · exact ih hrest

theorem mem_memberTokens {key : String} {addresses : List Address} {t : Token}
    (h : t ∈ memberTokens key addresses) :
    t ∈ [.openBracket, .closeBracket, .colon, .comma, .string key] ∨
      ∃ a : Address, t = .string a.text := by
  have haddresses : t ∈ addressTokens true addresses →
      t = .comma ∨ ∃ a : Address, t = .string a.text := mem_addressTokens
  rw [memberTokens] at h
  simp only [List.mem_append, List.mem_cons, List.not_mem_nil, or_false] at h ⊢
  grind

/-- The tokens between the two braces of the document. -/
def innerTokens (v : View) : List Token :=
  memberTokens parentLabel v.parent.toList ++ .comma :: memberTokens childLabel v.children

theorem tokens_eq (v : View) : v.tokens = .openBrace :: v.innerTokens ++ [.closeBrace] := rfl

theorem mem_innerTokens {v : View} {t : Token} (h : t ∈ v.innerTokens) :
    t ∈ [.openBracket, .closeBracket, .colon, .comma, .string parentLabel, .string childLabel] ∨
      ∃ a : Address, t = .string a.text := by
  have hparent : t ∈ memberTokens parentLabel v.parent.toList → _ := mem_memberTokens
  have hchild : t ∈ memberTokens childLabel v.children → _ := mem_memberTokens
  rw [innerTokens] at h
  simp only [List.mem_append, List.mem_cons, List.not_mem_nil, or_false] at h hparent hchild ⊢
  grind

theorem isMark_of_all {s : String}
    (h : (s.toList.all fun c => IsVerbatim c && c.utf8Size == 1) = true) :
    (Token.string s).IsMark := by
  intro c hc
  have hone := List.all_eq_true.mp h c hc
  rw [Bool.and_eq_true, decide_eq_true_iff, beq_iff_eq] at hone
  exact hone

theorem isMark_of_mem_tokens {v : View} {t : Token} (h : t ∈ v.tokens) : t.IsMark := by
  have hparent : (Token.string parentLabel).IsMark := isMark_of_all (by decide)
  have hchild : (Token.string childLabel).IsMark := isMark_of_all (by decide)
  have htext : ∀ a : Address, (Token.string a.text).IsMark := by
    intro a c hc
    rw [Address.text, String.toList_ofList] at hc
    have hplain := Address.isPlain_of_mem_chars hc
    exact ⟨isVerbatim_of_isPlain hplain, hplain.utf8Size_eq⟩
  rw [tokens_eq, List.mem_append, List.mem_cons, List.mem_singleton] at h
  rcases h with (rfl | hinner) | rfl
  · trivial
  · rcases mem_innerTokens hinner with hmark | ⟨a, rfl⟩
    · simp only [List.mem_cons, List.not_mem_nil, or_false] at hmark
      rcases hmark with rfl | rfl | rfl | rfl | rfl | rfl
      · trivial
      · trivial
      · trivial
      · trivial
      · exact hparent
      · exact hchild
    · exact htext a
  · trivial

/-- There is no brace between the two braces of the document. -/
theorem brace_not_mem_innerTokens (v : View) :
    .openBrace ∉ v.innerTokens ∧ .closeBrace ∉ v.innerTokens := by
  constructor
  · intro h
    rcases mem_innerTokens h with hmark | ⟨a, htext⟩
    · exact absurd hmark (by decide)
    · cases htext
  · intro h
    rcases mem_innerTokens h with hmark | ⟨a, htext⟩
    · exact absurd hmark (by decide)
    · cases htext

theorem count_braces_tokens (v : View) :
    v.tokens.count .openBrace = 1 ∧ v.tokens.count .closeBrace = 1 := by
  obtain ⟨hopen, hclose⟩ := brace_not_mem_innerTokens v
  rw [tokens_eq]
  simp only [List.count_append, List.count_cons, List.count_nil, List.count_eq_zero.mpr hopen,
    List.count_eq_zero.mpr hclose]
  decide

/-! ### Fronts of documents -/

/-- A text with which a document begins, but which is not all of it. -/
def BreaksOff (cs : List Char) : Prop := cs ≠ [] ∧ ∃ v : View, cs <+: v.text ∧ cs ≠ v.text

/-- **A document that breaks off** has an opening brace and no closing one. -/
theorem run_of_breaksOff {cs : List Char} (h : BreaksOff cs) :
    ∃ us m, Lexer.between.run cs = some (us, m) ∧ m.IsCalm ∧
      us.count .closeBrace = 0 ∧ 0 < us.count .openBrace := by
  obtain ⟨hne, v, hfront, hbreak⟩ := h
  obtain ⟨us, m, hrun, hcalm, hus, hend⟩ :=
    Lexer.run_front (fun t ht => isMark_of_mem_tokens ht) hfront
  refine ⟨us, m, hrun, hcalm, ?_, ?_⟩
  · have hinner : us <+: .openBrace :: v.innerTokens := by
      rw [tokens_eq] at hus
      exact (List.prefix_concat_iff.mp hus).resolve_left fun h => hbreak (hend h)
    rw [List.count_eq_zero]
    intro hclose
    rcases List.mem_cons.mp (hinner.subset hclose) with h | h
    · cases h
    · exact (brace_not_mem_innerTokens v).2 h
  · -- the opening brace is a token as soon as it is read
    obtain ⟨rest, htext⟩ := text_eq v
    obtain ⟨c, cs, rfl⟩ := List.exists_cons_of_ne_nil hne
    rw [htext] at hfront
    obtain ⟨rfl, -⟩ := List.cons_prefix_cons.mp hfront
    rw [Lexer.run] at hrun
    obtain ⟨⟨ws, m'⟩, -, hsome⟩ := Option.map_eq_some_iff.mp hrun
    obtain ⟨rfl, -⟩ := Prod.mk.inj hsome
    exact List.count_pos_iff.mpr List.mem_cons_self

/-- In a string the brace of the next document belongs to the string, which its quote ends; what
comes then is no token. -/
theorem run_text_of_front {v : View} {cs : List Char} (hne : cs ≠ []) (hfront : cs <+: v.text)
    (taken : List Char) :
    (Lexer.text taken).run cs = none ∨
      ∃ us m, (Lexer.text taken).run cs = some (us, m) ∧ m.IsCalm ∧
        us.count .closeBrace = 0 ∧ cs ≠ v.text := by
  obtain ⟨rest, htext⟩ := text_eq v
  rw [htext] at hfront ⊢
  match cs with
  | [] => exact absurd rfl hne
  | [c] =>
    obtain ⟨rfl, -⟩ := List.cons_prefix_cons.mp hfront
    exact .inr ⟨[], .text ('\x7b' :: taken), rfl, .inr ⟨_, rfl⟩, rfl, fun h => nomatch h⟩
  | [c, d] =>
    obtain ⟨rfl, hrest⟩ := List.cons_prefix_cons.mp hfront
    obtain ⟨rfl, -⟩ := List.cons_prefix_cons.mp hrest
    exact .inr ⟨[_], .between, rfl, .inl rfl, rfl, fun h => nomatch h⟩
  | c :: d :: e :: cs =>
    obtain ⟨rfl, hrest⟩ := List.cons_prefix_cons.mp hfront
    obtain ⟨rfl, hlast⟩ := List.cons_prefix_cons.mp hrest
    obtain ⟨rfl, -⟩ := List.cons_prefix_cons.mp hlast
    exact .inl rfl

/-- The front of a document, read on from a calm machine, closes no object. -/
theorem run_calm_of_breaksOff {m : Lexer} (hm : m.IsCalm) {cs : List Char} (h : BreaksOff cs) :
    m.run cs = none ∨
      ∃ us m', m.run cs = some (us, m') ∧ m'.IsCalm ∧ us.count .closeBrace = 0 := by
  rcases hm with rfl | ⟨taken, rfl⟩
  · obtain ⟨us, m', hrun, hcalm, hclose, -⟩ := run_of_breaksOff h
    exact .inr ⟨us, m', hrun, hcalm, hclose⟩
  · obtain ⟨hne, v, hfront, -⟩ := h
    rcases run_text_of_front hne hfront taken with hnone | ⟨us, m', hrun, hcalm, hclose, -⟩
    · exact .inl hnone
    · exact .inr ⟨us, m', hrun, hcalm, hclose⟩

/-- **Whatever follows a document that breaks off** does not close more objects than it opens. -/
theorem count_braces_le {m : Lexer} (hm : m.IsCalm) (pieces : List (List Char))
    (hpieces : ∀ p ∈ pieces, BreaksOff p) (v : View) {ts : List Token} {m' : Lexer}
    (h : m.run (pieces.flatten ++ v.text) = some (ts, m')) :
    ts.count .closeBrace ≤ ts.count .openBrace := by
  induction pieces generalizing m ts with
  | nil =>
    rw [List.flatten_nil, List.nil_append] at h
    rcases hm with rfl | ⟨taken, rfl⟩
    · have hwhole : Lexer.between.run v.text = some (v.tokens, .between) :=
        Lexer.run_spellings fun t ht => (isMark_of_mem_tokens ht).isClosed
      rw [hwhole] at h
      cases h
      rw [(count_braces_tokens v).1, (count_braces_tokens v).2]
    · obtain ⟨rest, htext⟩ := text_eq v
      have hne : v.text ≠ [] := by
        rw [htext]
        exact List.cons_ne_nil _ _
      rcases run_text_of_front hne List.prefix_rfl taken with hnone | ⟨us, m, -, -, -, hwhole⟩
      · rw [hnone] at h
        cases h
      · exact absurd rfl hwhole
  | cons p pieces ih =>
    rw [List.flatten_cons, List.append_assoc, Lexer.run_append] at h
    obtain ⟨⟨us, n⟩, hfirst, hrest⟩ := Option.bind_eq_some_iff.mp h
    obtain ⟨⟨ws, n'⟩, hrun, hsome⟩ := Option.map_eq_some_iff.mp hrest
    obtain ⟨rfl, rfl⟩ := Prod.mk.inj hsome
    rcases run_calm_of_breaksOff hm (hpieces p List.mem_cons_self) with
      hnone | ⟨vs, m₁, hpiece, hcalm, hclose⟩
    · rw [hnone] at hfirst
      cases hfirst
    · rw [hpiece] at hfirst
      cases hfirst
      have hle := ih hcalm (fun q hq => hpieces q (List.mem_cons_of_mem p hq)) hrun
      show (us ++ ws).count .closeBrace ≤ (us ++ ws).count .openBrace
      rw [List.count_append, List.count_append]
      omega

/-- At its end the machine has no brace to give. -/
theorem count_braces_finish {m : Lexer} {ts : List Token} (h : m.finish = some ts) :
    ts.count .closeBrace = 0 ∧ ts.count .openBrace = 0 := by
  unfold Lexer.finish at h
  split at h
  · cases h
    exact ⟨rfl, rfl⟩
  · obtain ⟨t, ht, rfl⟩ := Option.map_eq_some_iff.mp h
    unfold Lexer.numberToken? at ht
    split at ht
    · split at ht
      · cases ht
      · cases ht
        exact ⟨rfl, rfl⟩
    · cases ht
  · cases h

/-- **No text of this kind spells a value**: the object that the first piece opens stays open. -/
theorem ofChars?_of_breaksOff {pieces : List (List Char)} (hsome : pieces ≠ [])
    (hpieces : ∀ p ∈ pieces, BreaksOff p) (v : View) :
    Json.ofChars? (pieces.flatten ++ v.text) = none := by
  rw [Option.eq_none_iff_forall_ne_some]
  intro value hvalue
  obtain ⟨all, hall, htokens⟩ := Option.bind_eq_some_iff.mp hvalue
  have hbraces := Json.count_braces htokens
  obtain ⟨p, pieces, rfl⟩ := List.exists_cons_of_ne_nil hsome
  unfold Token.ofChars? at hall
  split at hall
  · next ts m hrun =>
    obtain ⟨last, hlast, rfl⟩ := Option.map_eq_some_iff.mp hall
    obtain ⟨hlastClose, hlastOpen⟩ := count_braces_finish hlast
    rw [List.flatten_cons, List.append_assoc, Lexer.run_append] at hrun
    obtain ⟨us, n, hfirst, hcalm, hclose, hopen⟩ :=
      run_of_breaksOff (hpieces p List.mem_cons_self)
    rw [hfirst, Option.bind_some] at hrun
    obtain ⟨⟨ws, n'⟩, hrest, hsome⟩ := Option.map_eq_some_iff.mp hrun
    obtain ⟨rfl, rfl⟩ := Prod.mk.inj hsome
    have hle := count_braces_le hcalm pieces
      (fun q hq => hpieces q (List.mem_cons_of_mem p hq)) v hrest
    simp only [List.count_append] at hbraces
    omega
  · cases hall

/-! ### Bytes -/

theorem utf8_cons (c : Char) (cs : List Char) :
    utf8 (String.ofList (c :: cs)) = utf8 (String.singleton c) ++ utf8 (String.ofList cs) := by
  rw [String.ofList_cons, utf8_append]

theorem utf8_ofList_append (cs ds : List Char) :
    utf8 (String.ofList (cs ++ ds)) = utf8 (String.ofList cs) ++ utf8 (String.ofList ds) := by
  rw [String.ofList_append, utf8_append]

/-- Where each character is one byte, bytes are cut off between characters. -/
theorem exists_front_of_bytes {cs : List Char} (h : ∀ c ∈ cs, c.utf8Size = 1) {bytes : List UInt8}
    (hbytes : bytes <+: utf8 (String.ofList cs)) :
    ∃ ds, ds <+: cs ∧ bytes = utf8 (String.ofList ds) := by
  induction cs generalizing bytes with
  | nil => exact ⟨[], List.prefix_rfl, List.prefix_nil.mp hbytes⟩
  | cons c cs ih =>
    have hone : (utf8 (String.singleton c)).length = 1 := by
      rw [utf8_length, String.utf8ByteSize_singleton, h c List.mem_cons_self]
    obtain ⟨b, hb⟩ := List.length_eq_one_iff.mp hone
    rw [utf8_cons, hb, List.singleton_append] at hbytes
    cases bytes with
    | nil => exact ⟨[], List.nil_prefix, rfl⟩
    | cons a bytes =>
      obtain ⟨rfl, hrest⟩ := List.cons_prefix_cons.mp hbytes
      obtain ⟨ds, hds, rfl⟩ := ih (fun d hd => h d (List.mem_cons_of_mem c hd)) hrest
      exact ⟨c :: ds, List.cons_prefix_cons.mpr ⟨rfl, hds⟩, by rw [utf8_cons, hb]; rfl⟩

theorem utf8Size_of_mem_text {v : View} {c : Char} (h : c ∈ v.text) : c.utf8Size = 1 := by
  obtain ⟨t, ht, hc⟩ := List.mem_flatMap.mp h
  exact (isMark_of_mem_tokens ht).utf8Size hc

/-- Fronts of documents, as bytes, are the bytes of fronts of documents. -/
theorem exists_breaksOff {pieces : List (List UInt8)}
    (h : ∀ p ∈ pieces, p ≠ [] ∧ ∃ v : View, p <+: v.body ∧ p ≠ v.body) :
    ∃ texts : List (List Char), texts.length = pieces.length ∧ (∀ cs ∈ texts, BreaksOff cs) ∧
      pieces.flatten = utf8 (String.ofList texts.flatten) := by
  induction pieces with
  | nil => exact ⟨[], rfl, fun _ h => absurd h List.not_mem_nil, rfl⟩
  | cons p pieces ih =>
    obtain ⟨texts, hlength, htexts, hflatten⟩ := ih fun q hq => h q (List.mem_cons_of_mem p hq)
    obtain ⟨hne, v, hfront, hbreak⟩ := h p List.mem_cons_self
    rw [body_eq_text] at hfront hbreak
    obtain ⟨cs, hcs, rfl⟩ := exists_front_of_bytes (fun c hc => utf8Size_of_mem_text hc) hfront
    refine ⟨cs :: texts, by rw [List.length_cons, List.length_cons, hlength], ?_, ?_⟩
    · intro ds hds
      rcases List.mem_cons.mp hds with rfl | hds
      · refine ⟨?_, v, hcs, ?_⟩
        · rintro rfl
          exact hne rfl
        · rintro rfl
          exact hbreak rfl
      · exact htexts ds hds
    · rw [List.flatten_cons, List.flatten_cons, utf8_ofList_append, hflatten]

/-- A front of a document that breaks off, as bytes. -/
def IsFront (p : List UInt8) : Prop :=
  p ≠ [] ∧ ∃ g t, p <+: (shown g t).body ∧ p ≠ (shown g t).body

/-- **Fronts of documents**, at least one and each without the end of its document, with a whole
document behind them are not a document, not even JSON. -/
theorem parse_fronts {pieces : List (List UInt8)} (hsome : pieces ≠ [])
    (hpieces : ∀ p ∈ pieces, IsFront p) (g : Routing) (t : NeighborTable) :
    parse (pieces.flatten ++ (shown g t).body) = .error .notJson := by
  have hfronts : ∀ p ∈ pieces, p ≠ [] ∧ ∃ v : View, p <+: v.body ∧ p ≠ v.body := by
    intro p hp
    obtain ⟨hne, g', t', hfront, hbreak⟩ := hpieces p hp
    exact ⟨hne, shown g' t', hfront, hbreak⟩
  obtain ⟨texts, hlength, htexts, hflatten⟩ := exists_breaksOff hfronts
  have hsome' : texts ≠ [] := by
    rintro rfl
    exact hsome (List.eq_nil_of_length_eq_zero hlength.symm)
  have hread : readJson? (pieces.flatten ++ (shown g t).body) = none := by
    rw [readJson?, hflatten, body_eq_text, ← utf8_ofList_append, readUtf8?_utf8, Option.bind_some,
      String.toList_ofList]
    exact ofChars?_of_breaksOff hsome' htexts (shown g t)
  rw [parse, hread]

end View

end ObservableTree
