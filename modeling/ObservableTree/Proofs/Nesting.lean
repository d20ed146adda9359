import ObservableTree.Json.Reader
import ObservableTree.Proofs.Tokenizing

/-!
# The tokens of a JSON value

A value is one row of tokens, and the machine that puts tokens together takes this row for the value
and no other:

* `Json.tokens` — the tokens of a value, `Json.depth` — how many arrays and objects are open at once
  in it;
* `parted_tokens` — in this row, what follows a number ends it;
* `feedAll_tokens` — the machine reads the row of a value, exactly if it is not nested too deep;
* `Reader.consumed` — the tokens that brought the machine where it is;
* `ofTokens?_iff` — the tokens that make a value.
-/

namespace ObservableTree

namespace Json

/-! ### Values as tokens -/

/-- The comma in front of an item or a member, unless it is the first. -/
def commaUnless (isFirst : Bool) : List Token := if isFirst then [] else [.comma]

mutual

/-- The tokens of a value. -/
def tokens : Json → List Token
  | null => [.null]
  | bool b => [.bool b]
  | number literal => [.number literal]
  | string s => [.string s]
  | array items => .openBracket :: (itemTokens true items ++ [.closeBracket])
  | object members => .openBrace :: (memberTokens true members ++ [.closeBrace])

/-- The tokens of the items of an array. -/
def itemTokens (isFirst : Bool) : List Json → List Token
  | [] => []
  | v :: vs => commaUnless isFirst ++ (v.tokens ++ itemTokens false vs)

/-- The tokens of the members of an object. -/
def memberTokens (isFirst : Bool) : List (String × Json) → List Token
  | [] => []
  | (key, v) :: ms =>
    commaUnless isFirst ++ (.string key :: .colon :: (v.tokens ++ memberTokens false ms))

end

mutual

/-- How many arrays and objects are open at once in a value. -/
def depth : Json → Nat
  | null => 0
  | bool _ => 0
  | number _ => 0
  | string _ => 0
  | array items => itemsDepth items + 1
  | object members => membersDepth members + 1

/-- How many are open at once in the items of an array. -/
def itemsDepth : List Json → Nat
  | [] => 0
  | v :: vs => max v.depth (itemsDepth vs)

/-- How many are open at once in the members of an object. -/
def membersDepth : List (String × Json) → Nat
  | [] => 0
  | (_, v) :: ms => max v.depth (membersDepth ms)

end

/-! ### What follows a number -/

/-- A row goes on with a token that ends a number, or ends itself. -/
def Closes (ts : List Token) : Prop := ∀ t, ts.head? = some t → t.EndsNumber

theorem Closes.cons {t : Token} (h : t.EndsNumber) (ts : List Token) : Closes (t :: ts) := by
  intro u hu
  cases hu
  exact h

/-- A token that is no number may be followed by anything. -/
theorem parted_cons {t : Token} (ht : t.isNumber = false) {ts : List Token} (h : Parted ts) :
    Parted (t :: ts) :=
  List.isChain_cons.mpr ⟨fun _ _ hnumber => Bool.noConfusion (ht.symm.trans hnumber), h⟩

theorem parted_number {literal : List Char} {ts : List Token} (hcloses : Closes ts)
    (h : Parted ts) : Parted (.number literal :: ts) :=
  List.isChain_cons.mpr ⟨fun t ht _ => hcloses t ht, h⟩

theorem closes_itemTokens (vs : List Json) {rest : List Token} (h : Closes rest) :
    Closes (itemTokens false vs ++ rest) := by
  cases vs with
  | nil => exact h
  | cons v vs => exact .cons (.inl rfl) _

theorem closes_memberTokens (ms : List (String × Json)) {rest : List Token} (h : Closes rest) :
    Closes (memberTokens false ms ++ rest) := by
  cases ms with
  | nil => exact h
  | cons m ms => exact .cons (.inl rfl) _

theorem parted_commaUnless (isFirst : Bool) {ts : List Token} (h : Parted ts) :
    Parted (commaUnless isFirst ++ ts) := by
  cases isFirst with
  | true => exact h
  | false => exact parted_cons rfl h

mutual

/-- **In the tokens of a value, what follows a number ends it.** -/
theorem parted_tokens : ∀ (v : Json) {rest : List Token}, Closes rest → Parted rest →
    Parted (v.tokens ++ rest)
  | null, _, _, h => parted_cons rfl h
  | bool _, _, _, h => parted_cons rfl h
  | number _, _, hcloses, h => parted_number hcloses h
  | string _, _, _, h => parted_cons rfl h
  | array items, rest, _, h => by
    have hend : Parted (.closeBracket :: rest) := parted_cons rfl h
    have hitems := parted_itemTokens true items (.cons (.inr (.inl rfl)) rest) hend
    rw [tokens, List.cons_append, List.append_assoc]
    exact parted_cons rfl hitems
  | object members, rest, _, h => by
    have hend : Parted (.closeBrace :: rest) := parted_cons rfl h
    have hmembers := parted_memberTokens true members (.cons (.inr (.inr rfl)) rest) hend
    rw [tokens, List.cons_append, List.append_assoc]
    exact parted_cons rfl hmembers

theorem parted_itemTokens : ∀ (isFirst : Bool) (vs : List Json) {rest : List Token}, Closes rest →
    Parted rest → Parted (itemTokens isFirst vs ++ rest)
  | _, [], _, _, h => h
  | isFirst, v :: vs, rest, hcloses, h => by
    have hmore := parted_itemTokens false vs hcloses h
    have hall := parted_tokens v (closes_itemTokens vs hcloses) hmore
    rw [itemTokens, List.append_assoc, List.append_assoc]
    exact parted_commaUnless isFirst hall

theorem parted_memberTokens : ∀ (isFirst : Bool) (ms : List (String × Json)) {rest : List Token},
    Closes rest → Parted rest → Parted (memberTokens isFirst ms ++ rest)
  | _, [], _, _, h => h
  | isFirst, (key, v) :: ms, rest, hcloses, h => by
    have hmore := parted_memberTokens false ms hcloses h
    have hall := parted_tokens v (closes_memberTokens ms hcloses) hmore
    rw [memberTokens, List.append_assoc, List.cons_append, List.cons_append, List.append_assoc]
    exact parted_commaUnless isFirst (parted_cons rfl (parted_cons rfl hall))

end

/-! ### The machine reads the tokens of a value -/

end Json

namespace Reader

open Json

theorem feedAll_cons (r : Reader) (t : Token) (ts : List Token) :
    r.feedAll (t :: ts) = (r.feed t).bind fun r' => r'.feedAll ts := List.foldlM_cons

/-- A row in two pieces, each of which is read under a condition. -/
theorem feedAll_append_ite {r r' r'' : Reader} {ts us : List Token} {a b : Prop} [Decidable a]
    [Decidable b] (hts : r.feedAll ts = if a then some r' else none)
    (hus : r'.feedAll us = if b then some r'' else none) :
    r.feedAll (ts ++ us) = if a ∧ b then some r'' else none := by
  rw [feedAll_append, hts]
  by_cases ha : a
  · rw [if_pos ha, Option.bind_some, hus]
    exact if_congr (and_iff_right ha).symm rfl rfl
  · rw [if_neg ha, if_neg fun hab => ha hab.1]
    rfl

/-- The first token of a value does not end an array. -/
theorem tokens_head (v : Json) : ∃ t ts, v.tokens = t :: ts ∧ t ≠ .closeBracket := by
  cases v with
  | null | bool | number | string | array | object => exact ⟨_, _, rfl, nofun⟩

/-- Where an array has just been opened, a token that does not end it starts its first item. -/
theorem feed_openArray (stack : List Frame) {t : Token} (ht : t ≠ .closeBracket) :
    (openArray stack).feed t = feedValue (.items [] :: stack) t := by
  cases t with
  | closeBracket => exact absurd rfl ht
  | openBrace | closeBrace | openBracket | colon | comma | null | bool | number | string => rfl

/-- The first item of an array is read like any other value. -/
theorem feedAll_openArray (stack : List Frame) (v : Json) (us : List Token) :
    (openArray stack).feedAll (v.tokens ++ us) =
      (wantValue (.items [] :: stack)).feedAll (v.tokens ++ us) := by
  obtain ⟨t, ts, hts, ht⟩ := tokens_head v
  rw [hts, List.cons_append, feedAll_cons, feedAll_cons, feed_openArray stack ht]
  rfl

mutual

/-- **The machine reads the tokens of a value**, exactly if it is not nested too deep. -/
theorem feedAll_tokens : ∀ (v : Json) (stack : List Frame), stack.length ≤ maxOpen →
    (wantValue stack).feedAll v.tokens =
      if stack.length + v.depth ≤ maxOpen then some (gotValue stack v) else none
  | .null, _, hroom => (if_pos hroom).symm
  | .bool _, _, hroom => (if_pos hroom).symm
  | .number _, _, hroom => (if_pos hroom).symm
  | .string _, _, hroom => (if_pos hroom).symm
  | .array items, stack, _ => by
    rw [tokens, feedAll_cons]
    by_cases hopen : stack.length < maxOpen
    · have hfeed : (wantValue stack).feed .openBracket = some (openArray stack) := if_pos hopen
      rw [hfeed, Option.bind_some, feedAll_firstItem items stack hopen]
      rfl
    · have hfeed : (wantValue stack).feed .openBracket = none := if_neg hopen
      have hdeep : ¬stack.length + (array items).depth ≤ maxOpen := by
        rw [depth]
        omega
      rw [hfeed, if_neg hdeep]
      rfl
  | .object members, stack, _ => by
    rw [tokens, feedAll_cons]
    by_cases hopen : stack.length < maxOpen
    · have hfeed : (wantValue stack).feed .openBrace = some (wantKey stack [] true) := if_pos hopen
      rw [hfeed, Option.bind_some, feedAll_firstMember members stack hopen]
      rfl
    · have hfeed : (wantValue stack).feed .openBrace = none := if_neg hopen
      have hdeep : ¬stack.length + (object members).depth ≤ maxOpen := by
        rw [depth]
        omega
      rw [hfeed, if_neg hdeep]
      rfl

/-- The items of an array, from the first one on. -/
theorem feedAll_firstItem : ∀ (vs : List Json) (stack : List Frame), stack.length < maxOpen →
    (openArray stack).feedAll (itemTokens true vs ++ [.closeBracket]) =
      if stack.length + itemsDepth vs < maxOpen then some (gotValue stack (.array vs)) else none
  | [], _, hopen => (if_pos hopen).symm
  | v :: vs, stack, hopen => by
    have hfirst := feedAll_tokens v (.items [] :: stack) hopen
    have hmore := feedAll_items vs stack [] v hopen
    show (openArray stack).feedAll ((v.tokens ++ itemTokens false vs) ++ [.closeBracket]) = _
    rw [List.append_assoc, feedAll_openArray, feedAll_append_ite hfirst hmore, itemsDepth]
    refine if_congr ?_ rfl rfl
    rw [List.length_cons]
    omega

/-- The items of an array, behind one of them. -/
theorem feedAll_items : ∀ (vs : List Json) (stack : List Frame) (done : List Json) (w : Json),
    stack.length < maxOpen →
    (gotValue (.items done :: stack) w).feedAll (itemTokens false vs ++ [.closeBracket]) =
      if stack.length + itemsDepth vs < maxOpen then
        some (gotValue stack (.array (done ++ w :: vs)))
      else none
  | [], _, _, _, hopen => (if_pos hopen).symm
  | v :: vs, stack, done, w, hopen => by
    have hfirst := feedAll_tokens v (.items (done ++ [w]) :: stack) hopen
    have hmore := feedAll_items vs stack (done ++ [w]) v hopen
    show (wantValue (.items (done ++ [w]) :: stack)).feedAll
      ((v.tokens ++ itemTokens false vs) ++ [.closeBracket]) = _
    rw [List.append_assoc, feedAll_append_ite hfirst hmore, itemsDepth, List.append_assoc]
    refine if_congr ?_ rfl rfl
    rw [List.length_cons]
    omega

/-- The members of an object, from the first one on. -/
theorem feedAll_firstMember : ∀ (ms : List (String × Json)) (stack : List Frame),
    stack.length < maxOpen →
    (wantKey stack [] true).feedAll (memberTokens true ms ++ [.closeBrace]) =
      if stack.length + membersDepth ms < maxOpen then some (gotValue stack (.object ms)) else none
  | [], _, hopen => (if_pos hopen).symm
  | (key, v) :: ms, stack, hopen => by
    have hfirst := feedAll_tokens v (.member [] key :: stack) hopen
    have hmore := feedAll_members ms stack [] key v hopen
    show (wantValue (.member [] key :: stack)).feedAll
      ((v.tokens ++ memberTokens false ms) ++ [.closeBrace]) = _
    rw [List.append_assoc, feedAll_append_ite hfirst hmore, membersDepth]
    refine if_congr ?_ rfl rfl
    rw [List.length_cons]
    omega

/-- The members of an object, behind one of them. -/
theorem feedAll_members : ∀ (ms : List (String × Json)) (stack : List Frame)
    (done : List (String × Json)) (key : String) (w : Json), stack.length < maxOpen →
    (gotValue (.member done key :: stack) w).feedAll (memberTokens false ms ++ [.closeBrace]) =
      if stack.length + membersDepth ms < maxOpen then
        some (gotValue stack (.object (done ++ (key, w) :: ms)))
      else none
  | [], _, _, _, _, hopen => (if_pos hopen).symm
  | (key, v) :: ms, stack, done, key', w, hopen => by
    have hfirst := feedAll_tokens v (.member (done ++ [(key', w)]) key :: stack) hopen
    have hmore := feedAll_members ms stack (done ++ [(key', w)]) key v hopen
    show (wantValue (.member (done ++ [(key', w)]) key :: stack)).feedAll
      ((v.tokens ++ memberTokens false ms) ++ [.closeBrace]) = _
    rw [List.append_assoc, feedAll_append_ite hfirst hmore, membersDepth, List.append_assoc]
    refine if_congr ?_ rfl rfl
    rw [List.length_cons]
    omega

end

/-! ### What the machine has read -/

theorem itemTokens_snoc (isFirst : Bool) (vs : List Json) (v : Json) :
    itemTokens isFirst (vs ++ [v]) =
      itemTokens isFirst vs ++ (commaUnless (isFirst && vs.isEmpty) ++ v.tokens) := by
  induction vs generalizing isFirst with
  | nil =>
    rw [List.nil_append, itemTokens, itemTokens, itemTokens, List.append_nil, List.isEmpty_nil,
      Bool.and_true]
    rfl
  | cons w vs ih =>
    rw [List.cons_append, itemTokens, itemTokens, ih, List.isEmpty_cons, Bool.and_false,
      Bool.false_and, List.append_assoc, List.append_assoc]

theorem memberTokens_snoc (isFirst : Bool) (ms : List (String × Json)) (key : String) (v : Json) :
    memberTokens isFirst (ms ++ [(key, v)]) =
      memberTokens isFirst ms ++
        (commaUnless (isFirst && ms.isEmpty) ++ .string key :: .colon :: v.tokens) := by
  induction ms generalizing isFirst with
  | nil =>
    rw [List.nil_append, memberTokens, memberTokens, memberTokens, List.append_nil,
      List.isEmpty_nil, Bool.and_true]
    rfl
  | cons m ms ih =>
    obtain ⟨key', w⟩ := m
    rw [List.cons_append, memberTokens, memberTokens, ih, List.isEmpty_cons, Bool.and_false,
      Bool.false_and]
    simp only [List.append_assoc, List.cons_append]

/-- The tokens of an array or object that is still open, up to the value that is being read. -/
def frameTokens : Frame → List Token
  | .items done => .openBracket :: (itemTokens true done ++ commaUnless done.isEmpty)
  | .member done key =>
    .openBrace :: (memberTokens true done ++ (commaUnless done.isEmpty ++ [.string key, .colon]))

/-- The tokens of all that is still open, the outermost first. -/
def stackTokens : List Frame → List Token
  | [] => []
  | f :: stack => stackTokens stack ++ frameTokens f

/-- The tokens that brought the machine where it is. -/
def consumed : Reader → List Token
  | wantValue stack => stackTokens stack
  | openArray stack => stackTokens stack ++ [.openBracket]
  | wantKey stack done isFirst =>
    stackTokens stack ++ .openBrace :: (memberTokens true done ++ commaUnless isFirst)
  | wantColon stack done key =>
    stackTokens stack ++
      .openBrace :: (memberTokens true done ++ (commaUnless done.isEmpty ++ [.string key]))
  | gotValue stack v => stackTokens stack ++ v.tokens

/-- Where a key must come, the machine knows whether it is the first. -/
def Tidy : Reader → Prop
  | wantKey _ done isFirst => isFirst = done.isEmpty
  | _ => True

theorem feedValue_consumed {stack : List Frame} {t : Token} {r : Reader}
    (h : feedValue stack t = some r) : r.Tidy ∧ r.consumed = stackTokens stack ++ [t] := by
  cases t with
  | openBracket =>
    obtain ⟨-, hr⟩ := Option.ite_none_right_eq_some.mp h
    cases hr
    exact ⟨trivial, rfl⟩
  | openBrace =>
    obtain ⟨-, hr⟩ := Option.ite_none_right_eq_some.mp h
    cases hr
    exact ⟨rfl, rfl⟩
  | null | bool | number | string =>
    cases h
    exact ⟨trivial, rfl⟩
  | closeBrace | closeBracket | colon | comma => cases h

theorem isEmpty_snoc {α : Type} (xs : List α) (x : α) : (xs ++ [x]).isEmpty = false := by
  cases xs <;> rfl

theorem feedSeparator_consumed {stack : List Frame} {v : Json} {t : Token} {r : Reader}
    (h : feedSeparator stack v t = some r) :
    r.Tidy ∧ r.consumed = stackTokens stack ++ v.tokens ++ [t] := by
  cases stack with
  | nil => cases t <;> cases h
  | cons f stack =>
    cases f with
    | items done =>
      cases t with
      | comma =>
        cases h
        refine ⟨trivial, ?_⟩
        simp only [consumed, stackTokens, frameTokens, itemTokens_snoc, isEmpty_snoc,
          Bool.true_and, List.append_assoc, List.cons_append]
        rfl
      | closeBracket =>
        cases h
        refine ⟨trivial, ?_⟩
        simp only [consumed, stackTokens, frameTokens, tokens, itemTokens_snoc, Bool.true_and,
          List.append_assoc, List.cons_append]
      | openBrace | closeBrace | openBracket | colon | null | bool | number | string => cases h
    | member done key =>
      cases t with
      | comma =>
        cases h
        refine ⟨(isEmpty_snoc done (key, v)).symm, ?_⟩
        simp only [consumed, stackTokens, frameTokens, memberTokens_snoc, Bool.true_and,
          List.append_assoc, List.cons_append, List.nil_append]
        rfl
      | closeBrace =>
        cases h
        refine ⟨trivial, ?_⟩
        simp only [consumed, stackTokens, frameTokens, tokens, memberTokens_snoc, Bool.true_and,
          List.append_assoc, List.cons_append, List.nil_append]
      | openBrace | openBracket | closeBracket | colon | null | bool | number | string => cases h

/-- **One token.** -/
theorem feed_consumed {r r' : Reader} {t : Token} (hr : r.Tidy) (h : r.feed t = some r') :
    r'.Tidy ∧ r'.consumed = r.consumed ++ [t] := by
  cases r with
  | wantValue stack => exact feedValue_consumed h
  | openArray stack =>
    by_cases ht : t = .closeBracket
    · subst ht
      cases h
      exact ⟨trivial, by simp only [consumed, List.append_assoc]; rfl⟩
    · rw [feed_openArray stack ht] at h
      exact feedValue_consumed h
  | wantKey stack done isFirst =>
    have hfirst : isFirst = done.isEmpty := hr
    cases t with
    | closeBrace =>
      cases isFirst with
      | false => cases h
      | true =>
        -- the first key is still to come, so there are no members yet
        cases h
        have hnone : done = [] := List.isEmpty_iff.mp hfirst.symm
        subst hnone
        exact ⟨trivial, by simp only [consumed, List.append_assoc]; rfl⟩
    | string key =>
      have hfeed : (wantKey stack done isFirst).feed (.string key) =
          some (wantColon stack done key) := by
        cases isFirst <;> rfl
      rw [hfeed] at h
      cases h
      refine ⟨trivial, ?_⟩
      simp only [consumed, hfirst, List.append_assoc, List.cons_append]
    | openBrace | openBracket | closeBracket | colon | comma | null | bool | number =>
      cases isFirst <;> cases h
  | wantColon stack done key =>
    cases t with
    | colon =>
      cases h
      refine ⟨trivial, ?_⟩
      simp only [consumed, stackTokens, frameTokens, List.append_assoc, List.cons_append,
        List.nil_append]
    | openBrace | closeBrace | openBracket | closeBracket | comma | null | bool | number | string =>
      cases h
  | gotValue stack v => exact feedSeparator_consumed h

/-- **A row of tokens** is what the machine has consumed of it. -/
theorem feedAll_consumed {r r' : Reader} {ts : List Token} (hr : r.Tidy)
    (h : r.feedAll ts = some r') : r'.consumed = r.consumed ++ ts := by
  induction ts generalizing r with
  | nil =>
    cases h
    exact (List.append_nil _).symm
  | cons t ts ih =>
    rw [feedAll_cons] at h
    obtain ⟨r'', hfeed, hmore⟩ := Option.bind_eq_some_iff.mp h
    obtain ⟨htidy, hconsumed⟩ := feed_consumed hr hfeed
    rw [ih htidy hmore, hconsumed, List.append_assoc]
    rfl

theorem value?_eq_some {r : Reader} {v : Json} (h : r.value? = some v) : r = gotValue [] v := by
  cases r with
  | gotValue stack w =>
    cases stack with
    | nil =>
      cases h
      rfl
    | cons f stack => cases h
  | wantValue | openArray | wantKey | wantColon => cases h

end Reader

/-- **The tokens that make a value** are its own, if it is not nested too deep. -/
theorem Json.ofTokens?_iff (ts : List Token) (v : Json) :
    Json.ofTokens? ts = some v ↔ ts = v.tokens ∧ v.depth ≤ maxOpen := by
  have hown := Reader.feedAll_tokens v [] (Nat.zero_le _)
  rw [List.length_nil, Nat.zero_add] at hown
  constructor
  · intro h
    obtain ⟨r, hread, hvalue⟩ := Option.bind_eq_some_iff.mp h
    have hr := Reader.value?_eq_some hvalue
    subst hr
    have hconsumed := Reader.feedAll_consumed (r := .wantValue []) trivial hread
    have hts : ts = v.tokens := hconsumed.symm
    subst hts
    refine ⟨rfl, ?_⟩
    -- the equation for the tokens of the value says when it is read
    by_contra hdeep
    rw [hown, if_neg hdeep] at hread
    cases hread
  · rintro ⟨rfl, hdepth⟩
    rw [Json.ofTokens?, hown, if_pos hdepth]
    rfl

/-- **The texts of a value** are the spellings of its tokens. -/
theorem Json.ofChars?_iff (cs : List Char) (v : Json) :
    Json.ofChars? cs = some v ↔ Written v.tokens cs ∧ v.depth ≤ maxOpen := by
  have hparted : Parted v.tokens := by
    have hall : Parted (v.tokens ++ []) := Json.parted_tokens v (fun t ht => nomatch ht) .nil
    rwa [List.append_nil] at hall
  constructor
  · intro h
    obtain ⟨ts, hts, hvalue⟩ := Option.bind_eq_some_iff.mp h
    obtain ⟨rfl, hdepth⟩ := (Json.ofTokens?_iff ts v).mp hvalue
    exact ⟨written_of_ofChars? hts, hdepth⟩
  · rintro ⟨hwritten, hdepth⟩
    rw [Json.ofChars?, ofChars?_of_written hwritten hparted, Option.bind_some]
    exact (Json.ofTokens?_iff v.tokens v).mpr ⟨rfl, hdepth⟩

end ObservableTree
