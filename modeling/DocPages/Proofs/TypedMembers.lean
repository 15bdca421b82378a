/-
Members that begin with a type. Wherever reading comes to between the members of
a scope (`ReadingAt`), what it reads from there on are nodes of that scope
(`ReadingAt.place`). A method or a property whose type begins with a name is read as
such there, whatever the type is made of; one whose type is a tuple is not, since a
member is told by the word behind its modifiers and a parenthesis is no word
(`typedMember_isRead`).
-/
import DocPages.Proofs.RoundTrip
import DocPages.Proofs.Shape

namespace DocPages.Source

/-! ## Where reading comes to -/

/-- The scope of a node that begins at the index `start`, and what its members are read with. -/
structure OpenScope where
  kind : NodeKind
  start : Nat
  owner? : Option String
  braced : Bool

def cursorAt (ts : List Token) (i : Nat) : Cursor :=
  ⟨i, ts.drop i⟩

/-- The members that are read of a scope from the index `i` on. -/
def OpenScope.membersAt (s : OpenScope) (ts : List Token) (i : Nat) : List Node :=
  (members s.owner? s.braced (cursorAt ts i)).1

/-- Reading a unit comes to the index, between two members of the scope. -/
inductive ReadingAt (ts : List Token) : OpenScope → Nat → Prop where
  | unit : ReadingAt ts ⟨.compilationUnit, 0, none, false⟩ 0
  | skipped {s : OpenScope} {i : Nat} {t : Token} {d : Cursor} (here : ReadingAt ts s i) (next : ts[i]? = some t)
      (item : itemAt s.owner? s.braced (cursorAt ts i) t = .skipped d) :
      ReadingAt ts s ((cursorAt ts i).past d).pos
  | member {s : OpenScope} {i : Nat} {t : Token} {h : Header} (here : ReadingAt ts s i) (next : ts[i]? = some t)
      (item : itemAt s.owner? s.braced (cursorAt ts i) t = .member h) (plain : h.scope? = none) :
      ReadingAt ts s ((cursorAt ts i).past h.next).pos
  | inside {s : OpenScope} {i : Nat} {t : Token} {h : Header} {scope : Scope} (here : ReadingAt ts s i)
      (next : ts[i]? = some t) (item : itemAt s.owner? s.braced (cursorAt ts i) t = .member h)
      (opens : h.scope? = some scope) : ReadingAt ts ⟨h.kind, i, scope.owner?, scope.isBraced⟩ h.next.pos
  | behind {s : OpenScope} {i : Nat} {t : Token} {h : Header} {scope : Scope} (here : ReadingAt ts s i)
      (next : ts[i]? = some t) (item : itemAt s.owner? s.braced (cursorAt ts i) t = .member h)
      (opens : h.scope? = some scope) : ReadingAt ts s ((cursorAt ts i).past
        (scope.close.run (members scope.owner? scope.isBraced h.next).2).2).pos

section

variable {ts : List Token} {s : OpenScope} {i : Nat} {t : Token} {c d : Cursor} {h : Header}

theorem cursorAt_on (hi : i ≤ ts.length) : (cursorAt ts i).On ts :=
  ⟨rfl, hi⟩

theorem Cursor.On.eq_cursorAt (hd : d.On ts) : cursorAt ts d.pos = d := by
  rw [cursorAt, ← hd.1]

theorem drop_of_getElem? (ht : ts[i]? = some t) : (cursorAt ts i).rest = t :: ts.drop (i + 1) := by
  obtain ⟨hi, rfl⟩ := List.getElem?_eq_some_iff.1 ht
  exact List.drop_eq_getElem_cons hi

theorem ReadingAt.le_length (h : ReadingAt ts s i) : i ≤ ts.length := by
  have hpast : ∀ {i : Nat} {d : Cursor}, i ≤ ts.length → (cursorAt ts i).Reaches d →
      ((cursorAt ts i).past d).pos ≤ ts.length := fun hi hd =>
    ((cursorAt_on hi).reaches (Cursor.reaches_past hd)).2
  induction h with
  | unit => exact Nat.zero_le _
  | skipped _ _ item ih => exact hpast ih (itemAt_skipped item)
  | member _ _ item _ ih => exact hpast ih (itemAt_member_reaches item)
  | inside _ _ item _ ih => exact ((cursorAt_on ih).reaches (itemAt_member_reaches item)).2
  | @behind _ _ _ h scope _ _ item _ ih =>
    have hmembers := reaches_members scope.owner? scope.isBraced h.next
    exact hpast ih (((itemAt_member_reaches item).trans hmembers).trans (scope.close.forward _))

theorem membersAt_skipped (hi : i ≤ ts.length) (next : ts[i]? = some t)
    (item : itemAt s.owner? s.braced (cursorAt ts i) t = .skipped d) :
    s.membersAt ts i = s.membersAt ts ((cursorAt ts i).past d).pos := by
  have hpast := (cursorAt_on hi).reaches (Cursor.reaches_past (itemAt_skipped item))
  rw [OpenScope.membersAt, members_cons (drop_of_getElem? next), item, OpenScope.membersAt, hpast.eq_cursorAt]

theorem membersAt_member (hi : i ≤ ts.length) (next : ts[i]? = some t)
    (item : itemAt s.owner? s.braced (cursorAt ts i) t = .member h) (plain : h.scope? = none) :
    s.membersAt ts i = h.parts.node h.kind i h.next.pos ::
      s.membersAt ts ((cursorAt ts i).past h.next).pos := by
  have hpast := (cursorAt_on hi).reaches (Cursor.reaches_past (itemAt_member_reaches item))
  rw [OpenScope.membersAt, members_cons (drop_of_getElem? next), item, OpenScope.membersAt, hpast.eq_cursorAt]
  simp only [plain]
  rfl

/-- A member with a scope of its own, whose members are the last of its children. -/
theorem membersAt_scope {scope : Scope} (hi : i ≤ ts.length) (next : ts[i]? = some t)
    (item : itemAt s.owner? s.braced (cursorAt ts i) t = .member h) (opens : h.scope? = some scope) :
    ∃ n : Node, n.kind = h.kind ∧ n.start = i ∧
      (⟨h.kind, i, scope.owner?, scope.isBraced⟩ : OpenScope).membersAt ts h.next.pos <:+ n.children ∧
      s.membersAt ts i = n :: s.membersAt ts ((cursorAt ts i).past
        (scope.close.run (members scope.owner? scope.isBraced h.next).2).2).pos := by
  have hreach := itemAt_member_reaches item
  have hnext := (cursorAt_on hi).reaches hreach
  have hmembers := reaches_members scope.owner? scope.isBraced h.next
  have hclosed := (hreach.trans hmembers).trans (scope.close.forward _)
  have hpast := (cursorAt_on hi).reaches (Cursor.reaches_past hclosed)
  refine ⟨(h.parts ++ ⟨[], none, (members scope.owner? scope.isBraced h.next).1⟩).node h.kind i
    (scope.close.run (members scope.owner? scope.isBraced h.next).2).2.pos, rfl, rfl, ?_, ?_⟩
  · rw [OpenScope.membersAt, hnext.eq_cursorAt]
    exact List.suffix_append _ _
  · rw [OpenScope.membersAt, members_cons (drop_of_getElem? next), item, OpenScope.membersAt, hpast.eq_cursorAt]
    simp only [opens, scope.close_parts, Parts.append_none]
    rfl

/-- **What is read between the members of a scope are nodes of that scope.** -/
theorem ReadingAt.place (h : ReadingAt ts s i) : ∃ p ∈ (Tree.ofTokens ts).places,
    p.node.kind = s.kind ∧ p.node.start = s.start ∧ s.membersAt ts i <:+ p.node.children := by
  induction h with
  | unit =>
    refine ⟨⟨0, (Tree.ofTokens ts).root, []⟩, ?_, rfl, rfl, List.suffix_rfl⟩
    rw [Tree.places, Node.places, Node.placesFrom_eq]
    exact List.mem_cons_self
  | skipped here next item ih =>
    rwa [membersAt_skipped here.le_length next item] at ih
  | member here next item plain ih =>
    obtain ⟨p, hp, hk, hs, hchildren⟩ := ih
    rw [membersAt_member here.le_length next item plain] at hchildren
    exact ⟨p, hp, hk, hs, (List.suffix_cons _ _).trans hchildren⟩
  | inside here next item opens ih =>
    obtain ⟨p, hp, -, -, hchildren⟩ := ih
    obtain ⟨n, hk, hs, hinner, hn⟩ := membersAt_scope here.le_length next item opens
    rw [hn] at hchildren
    have hchild : n ∈ p.children.map (·.node) := by
      rw [p.nodes_children]
      exact hchildren.subset List.mem_cons_self
    obtain ⟨q, hq, rfl⟩ := List.mem_map.1 hchild
    exact ⟨q, mem_places_of_mem_children hp hq, hk, hs, hinner⟩
  | behind here next item opens ih =>
    obtain ⟨p, hp, hk, hs, hchildren⟩ := ih
    obtain ⟨n, -, -, -, hn⟩ := membersAt_scope here.le_length next item opens
    rw [hn] at hchildren
    exact ⟨p, hp, hk, hs, (List.suffix_cons _ _).trans hchildren⟩

end

/-! ## Members that begin with a type -/

/-- A method as it is declared. -/
def declaredMethod (ms : List ModifierWord) (type : List Token) (x : Identifier) (ps : List ParameterDeclaration)
    (body : NestedTokens) : Printed :=
  printedModifiers ms ++ (.leaf .type type ++ (.name x ++ (printedParameters ps ++ .leaf .block body.braced)))

/-- A property as it is declared, an initial value apart. -/
def declaredProperty (ms : List ModifierWord) (type : List Token) (x : Identifier) (accessors : NestedTokens) :
    Printed :=
  printedModifiers ms ++ (.leaf .type type ++ (.name x ++ .leaf .accessorList accessors.braced))

section

variable {owner? : Option String} {braced : Bool} {type rest : List Token}

theorem declaredMethod_read (ms : List ModifierWord) (x : Identifier) (ps : List ParameterDeclaration)
    (body : NestedTokens)
    (ht : IsTypeBefore (.word x.text :: ((printedParameters ps).tokens ++ body.braced ++ rest)) type) :
    MembersRead owner? braced (.node .method (declaredMethod ms type x ps body)) rest :=
  .typed ms x ht (method_reads x none ps (.block body) ht)

theorem declaredProperty_read {initial : List Token} (ms : List ModifierWord) (x : Identifier)
    (accessors : NestedTokens) (ht : IsTypeBefore (.word x.text :: (accessors.braced ++ (initial ++ rest))) type)
    (h : initialReach (initial ++ rest) = initial.length) :
    MembersRead owner? braced (.node .property (printedModifiers ms ++ (.leaf .type type ++ (.name x ++
      (.leaf .accessorList accessors.braced ++ .plain initial))))) rest := by
  have htokens : (Printed.leaf .accessorList accessors.braced ++ .plain initial).tokens ++ rest =
      accessors.braced ++ (initial ++ rest) := List.append_assoc _ _ _
  exact .typed ms x (htokens ▸ ht) (property_reads x accessors ht h)

/-- A parenthesis behind modifiers tells no kind of member. -/
theorem memberHeader_lparen (owner? : Option String) (ms : List ModifierWord) (h : atKind .lparen rest = true) :
    (memberHeader owner?).Reads .member (printedModifiers ms) none rest := by
  have hword : ∀ w, atWord w rest = false := fun w => atWord_of_atKind (atKind_eq_false h (by decide))
  have hmodifier : atModifier rest = false := by simp [atModifier, hword]
  have hbracket : atKind .lbracket ((printedModifiers ms).tokens ++ rest) = false := by
    cases ms with
    | nil => exact atKind_eq_false h (by decide)
    | cons m ms => rfl
  have hstanding : atStandingAttribute ((printedModifiers ms).tokens ++ rest) = false := by
    rw [atStandingAttribute, hbracket]
    rfl
  have hfront : (attributes ++ modifiers).Reads (printedModifiers ms) rest :=
    .idle_append (attributes_nothing hbracket) (modifiers_reads ms hmodifier)
  have hend : (declarationHeader owner?).Reads .member .nothing none rest := by
    obtain ⟨t, rest, rfl, hk⟩ := eq_cons_of_atKind h
    refine .choose ?_
    show Ending.Reads (if t.kind = .ident then _ else if t.isPunct "~" then _ else _) _ _ _ _
    rw [if_neg (by simp [hk]), if_neg (by simp [Token.isPunct, hk])]
    exact .plain .idle
  have hmember : (Ending.after (attributes ++ modifiers) (declarationHeader owner?)).Reads .member
      (printedModifiers ms ++ .nothing) none rest := .after hfront hend
  rw [Printed.append_nothing] at hmember
  refine .choose ?_
  rw [if_neg (by rw [hstanding]; exact Bool.false_ne_true)]
  exact hmember

end

/-! ### Nodes -/

theorem printedModifiers_parts (ms : List ModifierWord) (i : Nat) :
    (printedModifiers ms).parts i = ⟨List.range' i ms.length, none, []⟩ := by
  induction ms generalizing i with
  | nil => rfl
  | cons m ms ih =>
    show Parts.mk [i] none [] ++ (printedModifiers ms).parts (i + 1) = _
    rw [ih]
    rfl

theorem printedModifiers_tokens (ms : List ModifierWord) :
    (printedModifiers ms).tokens = ms.map fun m => .word m.text := by
  induction ms with
  | nil => rfl
  | cons m ms ih => exact congrArg (Token.word m.text :: ·) ih

/-- The node has these modifiers, a type over these tokens and the name. -/
structure IsTypedMember (tree : Tree) (n : Node) (ms : List ModifierWord) (type : List Token) (x : Identifier) :
    Prop where
  modifiers : tree.modifiersOf n = ms.map (·.text)
  type : ∃ t, n.child? .type = some t ∧ (tree.tokensOf t).map .strip = type
  name : tree.name? n = some x.text

section

variable {ts : List Token} {s : OpenScope} {i : Nat}

theorem membersAt_strip (s : OpenScope) (ts : List Token) (i : Nat) :
    s.membersAt (ts.map .strip) i = s.membersAt ts i := by
  have hcursor : cursorAt (ts.map .strip) i = (cursorAt ts i).strip := by
    rw [cursorAt, cursorAt, Cursor.strip, ← List.map_drop]
  rw [OpenScope.membersAt, hcursor, members_strip]
  rfl

/-- What is printed as a member and read as one is a member there. -/
theorem mem_membersAt {kind : NodeKind} {p : Printed} {rest : List Token}
    (hr : (ts.drop i).map .strip = p.tokens ++ rest)
    (h : MembersRead s.owner? s.braced (.node kind p) rest) :
    (p.parts i).node kind i (i + p.tokens.length) ∈ s.membersAt ts i := by
  rw [← membersAt_strip, OpenScope.membersAt, cursorAt, ← List.map_drop, hr]
  have hread := h i
  rw [Printed.tokens_node] at hread
  rw [hread]
  exact List.mem_append_left _ List.mem_cons_self

/-- A word or a parenthesis that begins no import begins a member. -/
theorem itemAt_eq_member (s : OpenScope) {c : Cursor} {t : Token} (hk : t.kind = .ident ∨ t.kind = .lparen)
    (h : atImport c.rest = false) :
    itemAt s.owner? s.braced c t = .member ((memberHeader s.owner?).run c) := by
  rcases hk with hk | hk <;> simp [itemAt, hk, h]

/-- Reading goes on inside of a declaration that is told by its header. -/
theorem ReadingAt.opened {t : Token} {kind : NodeKind} {scope : Scope} {j : Nat} (here : ReadingAt ts s i)
    (next : ts[i]? = some t) (hk : t.kind = .ident) (himport : atImport (ts.drop i) = false)
    (hkind : ((memberHeader s.owner?).run (cursorAt ts i)).kind = kind)
    (hscope : ((memberHeader s.owner?).run (cursorAt ts i)).scope? = some scope)
    (hpos : ((memberHeader s.owner?).run (cursorAt ts i)).next.pos = j) :
    ReadingAt ts ⟨kind, i, scope.owner?, scope.isBraced⟩ j := by
  subst hkind hpos
  exact here.inside next (itemAt_eq_member s (.inl hk) himport) hscope

/-- Modifiers in front of a parenthesis are a member of their own. -/
theorem mem_membersAt_lparen (s : OpenScope) {ms : List ModifierWord} {rest : List Token} (hi : i ≤ ts.length)
    (hr : (ts.drop i).map .strip = (printedModifiers ms).tokens ++ rest) (h : atKind .lparen rest = true) :
    ((printedModifiers ms).parts i).node .member i (i + (printedModifiers ms).tokens.length) ∈
      s.membersAt ts i := by
  have hcursor : cursorAt (ts.map .strip) i = ⟨i, (printedModifiers ms).tokens ++ rest⟩ := by
    rw [cursorAt, ← List.map_drop, hr]
  have himport : atImport ((printedModifiers ms).tokens ++ rest) = false :=
    atImport_modifiers ms fun w _ => atWord_of_atKind (atKind_eq_false h (by decide))
  obtain ⟨t, hnext, hk⟩ : ∃ t, (ts.map Token.strip)[i]? = some t ∧ (t.kind = .ident ∨ t.kind = .lparen) := by
    rw [← List.head?_drop, ← List.map_drop, hr]
    cases ms with
    | nil =>
      obtain ⟨t, us, rfl, hk⟩ := eq_cons_of_atKind h
      exact ⟨t, rfl, .inr hk⟩
    | cons m ms => exact ⟨.word m.text, rfl, .inl rfl⟩
  have hitem : itemAt s.owner? s.braced (cursorAt (ts.map .strip) i) t =
      .member ⟨.member, (printedModifiers ms).parts i, ⟨i + (printedModifiers ms).tokens.length, rest⟩, none⟩ := by
    rw [hcursor, itemAt_eq_member s hk himport, memberHeader_lparen s.owner? ms h i]
  rw [← membersAt_strip, membersAt_member (by rwa [List.length_map]) hnext hitem rfl]
  exact List.mem_cons_self

theorem textAt_of_drop {k : Nat} {w : String} (h : ((ts.drop i).map Token.strip)[k]? = some (Token.word w)) :
    (Tree.ofTokens ts).textAt (i + k) = w := by
  rw [List.getElem?_map, List.getElem?_drop, Option.map_eq_some_iff] at h
  obtain ⟨t, ht, hw⟩ := h
  have htext : t.text = w := congrArg Token.text hw
  show ts[i + k]?.elim "" (·.text) = w
  rw [ht, Option.elim_some, htext]

/-- What a node that begins with modifiers, a type and a name stands for. -/
theorem isTypedMember_of_drop {ms : List ModifierWord} {type rest : List Token} {x : Identifier} {kind : NodeKind}
    {stop : Nat} {others : List Node}
    (hr : (ts.drop i).map .strip = (printedModifiers ms).tokens ++ (type ++ .word x.text :: rest)) :
    IsTypedMember (Tree.ofTokens ts) (Node.mk kind i stop (some (i + ms.length + type.length))
      (List.range' i ms.length) (Parts.none.node .type (i + ms.length) (i + ms.length + type.length) :: others))
      ms type x := by
  rw [printedModifiers_tokens] at hr
  refine ⟨?_, ⟨_, rfl, ?_⟩, ?_⟩
  · refine List.ext_getElem (by simp [Tree.modifiersOf]) fun k hk hk' => ?_
    have hlt : k < ms.length := by simpa using hk'
    have hword : ((ts.drop i).map Token.strip)[k]? = some (Token.word ms[k].text) := by
      rw [hr, List.getElem?_append_left (by simpa using hlt)]
      simp [hlt]
    simpa [Tree.modifiersOf] using textAt_of_drop hword
  · have htype : ((ts.drop i).map Token.strip).drop ms.length = type ++ .word x.text :: rest := by
      rw [hr]
      exact List.drop_left' (by simp)
    show ((ts.drop (i + ms.length)).take (i + ms.length + type.length - (i + ms.length))).map Token.strip = type
    rw [Nat.add_sub_cancel_left, List.map_take, ← List.drop_drop, List.map_drop, htype, List.take_left]
  · have hword : ((ts.drop i).map Token.strip)[ms.length + type.length]? = some (Token.word x.text) := by
      rw [hr, ← List.append_assoc, List.getElem?_append_right (by simp)]
      simp
    rw [Tree.name?, Option.map_some, Nat.add_assoc, textAt_of_drop hword]

theorem typed_parts {q : Printed} (hq : q.IsNodes) (ms : List ModifierWord) (type : List Token) (x : Identifier)
    (i : Nat) : (printedModifiers ms ++ (.leaf .type type ++ (.name x ++ q))).parts i =
      ⟨List.range' i ms.length, some (i + ms.length + type.length),
        Parts.none.node .type (i + ms.length) (i + ms.length + type.length) ::
          (q.parts (i + ms.length + type.length + 1)).children⟩ := by
  have hlength : (printedModifiers ms).tokens.length = ms.length := by
    rw [printedModifiers_tokens, List.length_map]
  rw [Printed.parts_append, Printed.parts_append, Printed.parts_append, printedModifiers_parts, hlength]
  show _ ++ (Parts.mk [] none [Parts.none.node .type (i + ms.length) (i + ms.length + type.length)] ++
    (Parts.mk [] (some (i + ms.length + type.length)) [] ++ q.parts (i + ms.length + type.length + 1))) = _
  rw [hq]
  show Parts.mk (List.range' i ms.length ++ []) _ _ = _
  rw [List.append_nil]
  rfl

/-- A member with a type that is printed and read is a member there, with what it was printed with. -/
theorem exists_typedMember {q : Printed} {rest : List Token} {ms : List ModifierWord} {type : List Token}
    {x : Identifier} {kind : NodeKind} (hq : q.IsNodes)
    (hr : (ts.drop i).map .strip = (printedModifiers ms ++ (.leaf .type type ++ (.name x ++ q))).tokens ++ rest)
    (h : MembersRead s.owner? s.braced
      (.node kind (printedModifiers ms ++ (.leaf .type type ++ (.name x ++ q)))) rest) :
    ∃ n ∈ s.membersAt ts i, n.kind = kind ∧ n.start = i ∧
      n.stop = i + (printedModifiers ms ++ (.leaf .type type ++ (.name x ++ q))).tokens.length ∧
      n.children.map (·.kind) =
        .type :: (q.parts (i + ms.length + type.length + 1)).children.map (·.kind) ∧
      IsTypedMember (Tree.ofTokens ts) n ms type x := by
  have hmem := mem_membersAt hr h
  rw [typed_parts hq] at hmem
  have htokens : (ts.drop i).map Token.strip =
      (printedModifiers ms).tokens ++ (type ++ .word x.text :: (q.tokens ++ rest)) := by
    rw [hr]
    simp
  exact ⟨_, hmem, rfl, rfl, rfl, rfl, isTypedMember_of_drop htokens⟩

/-- The type in front of a name, told from the tokens of the unit. -/
theorem isTypeBefore_of_drop {ms : List ModifierWord} {more rest : List Token} {first : Identifier}
    (hr : (ts.drop i).map .strip = (printedModifiers ms).tokens ++ (.word first.text :: more ++ rest))
    (h : typeReach (ts.drop (i + ms.length)) = (Token.word first.text :: more).length) :
    IsTypeBefore rest (.word first.text :: more) := by
  refine ⟨⟨first, more, rfl⟩, ?_⟩
  have hdrop : (ts.drop (i + ms.length)).map Token.strip = .word first.text :: more ++ rest := by
    rw [← List.drop_drop, List.map_drop, hr, printedModifiers_tokens]
    exact List.drop_left' (by simp)
  rw [← hdrop, typeReach_strip, h]

theorem length_eq_of_strip {us vs : List Token} (h : us.map .strip = vs) : us.length = vs.length := by
  rw [← h, List.length_map]

/-- What an initial value takes of the tokens behind accessors. -/
theorem exists_initial (after : List Token) : ∃ initial rest : List Token,
    after.map .strip = initial ++ rest ∧ initialReach (initial ++ rest) = initial.length ∧
      initial.length = initialReach after := by
  have hstrip : initialReach (after.map .strip) = initialReach after := by
    simp only [initialReach, atKind_strip, statementReach_strip]
  have hle : initialReach after ≤ after.length := by
    rw [initialReach]
    split
    · exact (Moves.statementReach after).le_length
    · exact Nat.zero_le _
  have hlength : ((after.map Token.strip).take (initialReach after)).length = initialReach after := by
    rw [List.length_take, List.length_map, Nat.min_eq_left hle]
  refine ⟨(after.map Token.strip).take (initialReach after), (after.map Token.strip).drop (initialReach after), ?_,
    ?_, hlength⟩
  · rw [List.take_append_drop]
  · rw [List.take_append_drop, hstrip, hlength]

theorem exists_method {ms : List ModifierWord} {first x : Identifier} {more member after : List Token}
    {ps : List ParameterDeclaration} {body : NestedTokens} (hm : ts.drop i = member ++ after)
    (htype : typeReach (ts.drop (i + ms.length)) = (Token.word first.text :: more).length)
    (htokens : member.map .strip = (declaredMethod ms (.word first.text :: more) x ps body).tokens) :
    ∃ n ∈ s.membersAt ts i, n.kind = .method ∧ n.start = i ∧ n.stop = i + member.length ∧
      n.children.map (·.kind) = [.type, .parameterList, .block] ∧
      IsTypedMember (Tree.ofTokens ts) n ms (.word first.text :: more) x := by
  have hread : (ts.drop i).map Token.strip =
      (declaredMethod ms (.word first.text :: more) x ps body).tokens ++ after.map .strip := by
    rw [hm, List.map_append, htokens]
  have hbefore : IsTypeBefore (.word x.text :: ((printedParameters ps).tokens ++ body.braced ++ after.map .strip))
      (.word first.text :: more) := by
    refine isTypeBefore_of_drop ?_ htype
    rw [hread]
    simp [declaredMethod]
  have hnodes : (printedParameters ps ++ Printed.leaf .block body.braced).IsNodes :=
    Printed.isNodes_node.append Printed.isNodes_node
  obtain ⟨n, hn, hkind, hstart, hstop, hkinds, htyped⟩ :=
    exists_typedMember hnodes hread (declaredMethod_read ms x ps body hbefore)
  refine ⟨n, hn, hkind, hstart, ?_, hkinds, htyped⟩
  rw [hstop, length_eq_of_strip htokens]
  rfl

theorem exists_property {ms : List ModifierWord} {first x : Identifier} {more member after : List Token}
    {accessors : NestedTokens} (hm : ts.drop i = member ++ after)
    (htype : typeReach (ts.drop (i + ms.length)) = (Token.word first.text :: more).length)
    (htokens : member.map .strip = (declaredProperty ms (.word first.text :: more) x accessors).tokens) :
    ∃ n ∈ s.membersAt ts i, n.kind = .property ∧ n.start = i ∧
      n.stop = i + member.length + initialReach after ∧ n.children.map (·.kind) = [.type, .accessorList] ∧
      IsTypedMember (Tree.ofTokens ts) n ms (.word first.text :: more) x := by
  obtain ⟨initial, rest, hafter, hinitial, hlength⟩ := exists_initial after
  have hprinted : (printedModifiers ms ++ (.leaf .type (.word first.text :: more) ++
      (.name x ++ (.leaf .accessorList accessors.braced ++ .plain initial)))).tokens =
      (declaredProperty ms (.word first.text :: more) x accessors).tokens ++ initial := by
    simp [declaredProperty, Printed.plain]
  have hread : (ts.drop i).map Token.strip = (printedModifiers ms ++ (.leaf .type (.word first.text :: more) ++
      (.name x ++ (.leaf .accessorList accessors.braced ++ .plain initial)))).tokens ++ rest := by
    rw [hm, List.map_append, htokens, hafter, hprinted, List.append_assoc]
  have hbefore : IsTypeBefore (.word x.text :: (accessors.braced ++ (initial ++ rest)))
      (.word first.text :: more) := by
    refine isTypeBefore_of_drop ?_ htype
    rw [hread]
    simp [Printed.plain]
  have hnodes : (Printed.leaf .accessorList accessors.braced ++ .plain initial).IsNodes :=
    Printed.isNodes_node.append fun _ => rfl
  obtain ⟨n, hn, hkind, hstart, hstop, hkinds, htyped⟩ :=
    exists_typedMember hnodes hread (declaredProperty_read ms x accessors hbefore hinitial)
  refine ⟨n, hn, hkind, hstart, ?_, hkinds, htyped⟩
  rw [hstop, hprinted, List.length_append, length_eq_of_strip htokens, hlength, Nat.add_assoc]

theorem exists_member {ms : List ModifierWord} {member after : List Token} (hi : i ≤ ts.length)
    (hm : ts.drop i = member ++ after) (htokens : member.map .strip = (printedModifiers ms).tokens)
    (hparen : atKind .lparen after = true) :
    ∃ n ∈ s.membersAt ts i, n.kind = .member ∧ n.start = i ∧ n.stop = i + member.length ∧ n.children = [] := by
  have hread : (ts.drop i).map Token.strip = (printedModifiers ms).tokens ++ after.map .strip := by
    rw [hm, List.map_append, htokens]
  have hmem := mem_membersAt_lparen s hi hread (by rwa [atKind_strip])
  rw [printedModifiers_parts] at hmem
  refine ⟨_, hmem, rfl, rfl, ?_, rfl⟩
  rw [length_eq_of_strip htokens]
  rfl

end

/-- **A method or a property is read as one wherever a member may begin, if its type begins with a name.** The type may
be any tokens that are read as one there. Where the type begins with a parenthesis, the modifiers in front of it are
read as a plain member. -/
theorem typedMember_isRead {ts : List Token} {s : OpenScope} {i : Nat} (hs : ReadingAt ts s i)
    (ms : List ModifierWord) (member after : List Token) (hm : ts.drop i = member ++ after) :
    ∃ p ∈ (Tree.ofTokens ts).places, p.node.kind = s.kind ∧ p.node.start = s.start ∧
      (∀ (first : Identifier) (more : List Token) (x : Identifier),
        typeReach (ts.drop (i + ms.length)) = (Token.word first.text :: more).length →
        (∀ (ps : List ParameterDeclaration) (body : NestedTokens),
          member.map .strip = (declaredMethod ms (.word first.text :: more) x ps body).tokens →
          ∃ n ∈ p.node.children, n.kind = .method ∧ n.start = i ∧ n.stop = i + member.length ∧
            n.children.map (·.kind) = [.type, .parameterList, .block] ∧
            IsTypedMember (Tree.ofTokens ts) n ms (.word first.text :: more) x) ∧
        ∀ accessors : NestedTokens,
          member.map .strip = (declaredProperty ms (.word first.text :: more) x accessors).tokens →
          ∃ n ∈ p.node.children, n.kind = .property ∧ n.start = i ∧
            n.stop = i + member.length + initialReach after ∧ n.children.map (·.kind) = [.type, .accessorList] ∧
            IsTypedMember (Tree.ofTokens ts) n ms (.word first.text :: more) x) ∧
      (member.map .strip = (printedModifiers ms).tokens → atKind .lparen after = true →
        ∃ n ∈ p.node.children, n.kind = .member ∧ n.start = i ∧ n.stop = i + member.length ∧ n.children = []) := by
  obtain ⟨p, hp, hk, hstart, hchildren⟩ := hs.place
  have hnode : ∀ {P : Node → Prop}, (∃ n ∈ s.membersAt ts i, P n) → ∃ n ∈ p.node.children, P n :=
    fun ⟨n, hn, hP⟩ => ⟨n, hchildren.subset hn, hP⟩
  refine ⟨p, hp, hk, hstart, fun first more x htype => ⟨fun ps body htokens => ?_, fun accessors htokens => ?_⟩,
    fun htokens hparen => ?_⟩
  · exact hnode (exists_method hm htype htokens)
  · exact hnode (exists_property hm htype htokens)
  · exact hnode (exists_member hs.le_length hm htokens hparen)

/-- The theorem at a method behind a field. -/
theorem typedMember_isRead_sample : ∃ ts member after x ms type ps body,
    (TokenStream.ofSource
      "class C { int f; public static A.B<int[]>[]? M(int a, T b) { {} } }").tokens.map .strip = ts ∧
    ReadingAt ts ⟨.classType, 0, some "C", true⟩ 6 ∧ ts.drop 6 = member ++ after ∧
    typeReach (ts.drop (6 + ms.length)) = type.length ∧ Token.joined type = "A.B<int[]>[]?" ∧
    member.map .strip = (declaredMethod ms type x ps body).tokens ∧
    ∃ p ∈ (Tree.ofTokens ts).places, p.node.kind = .classType ∧ p.node.start = 0 ∧
      ∃ n ∈ p.node.children, n.kind = .method ∧ n.start = 6 ∧ n.stop = 6 + member.length ∧
        n.children.map (·.kind) = [.type, .parameterList, .block] ∧ IsTypedMember (Tree.ofTokens ts) n ms type x := by
  let more : List Token := [.mark .dot, .word "B", .mark .lt, .word "int", .mark .lbracket, .mark .rbracket, .mark .gt,
    .mark .lbracket, .mark .rbracket, .mark .question]
  let method : List Token := .word "public" :: .word "static" :: .word "A" :: (more ++ [.word "M", .mark .lparen,
    .word "int", .word "a", .mark .comma, .word "T", .word "b", .mark .rparen, .mark .lbrace, .mark .lbrace,
    .mark .rbrace, .mark .rbrace])
  let ts : List Token := [.word "class", .word "C", .mark .lbrace, .word "int", .word "f", .mark .semi] ++
    (method ++ [.mark .rbrace])
  have hscope : ((memberHeader none).run (cursorAt ts 0)).scope? = some (.type (some "C")) := by decide +kernel
  have hclass : ReadingAt ts ⟨.classType, 0, some "C", true⟩ 3 :=
    ReadingAt.unit.opened rfl rfl (by decide +kernel) (by decide +kernel) hscope (by decide +kernel)
  have hfield : ReadingAt ts ⟨.classType, 0, some "C", true⟩ 6 := by
    have h := hclass.member rfl (itemAt_eq_member _ (.inl rfl) (by decide +kernel)) (by decide +kernel)
    rwa [show ((cursorAt ts 3).past ((memberHeader (some "C")).run (cursorAt ts 3)).next).pos = 6
      by decide +kernel] at h
  let ms : List ModifierWord := [⟨"public", by decide⟩, ⟨"static", by decide⟩]
  let ps : List ParameterDeclaration := [⟨⟨.last ⟨"int", by decide⟩ [], []⟩, ⟨"a", by decide⟩, none⟩,
    ⟨⟨.last ⟨"T", by decide⟩ [], []⟩, ⟨"b", by decide⟩, none⟩]
  have htype : typeReach (ts.drop (6 + ms.length)) = (Token.word "A" :: more).length := by decide +kernel
  have hdeclared : method.map .strip = (declaredMethod ms (.word "A" :: more) ⟨"M", by decide⟩ ps
      ⟨[⟨.lbrace, "\x7b"⟩, ⟨.rbrace, "\x7d"⟩], by decide⟩).tokens := by decide +kernel
  obtain ⟨p, hp, hkind, hstart, htyped, -⟩ := typedMember_isRead hfield ms method [.mark .rbrace] rfl
  obtain ⟨hmethods, -⟩ := htyped ⟨"A", by decide⟩ more _ htype
  obtain ⟨n, hn, hread⟩ := hmethods ps _ hdeclared
  exact ⟨ts, method, _, _, ms, _, ps, _, by decide +kernel, hfield, rfl, htype, by decide +kernel, hdeclared,
    p, hp, hkind, hstart, n, hn, hread⟩

/-- A method that returns a tuple is not read as a method. -/
theorem typedMember_tuple_dropped : ∃ ts type member after x body,
    (TokenStream.ofSource "class C { public (int, int) M() { } }").tokens.map .strip = ts ∧
    ReadingAt ts ⟨.classType, 0, some "C", true⟩ 3 ∧ ts.drop 3 = member ++ after ∧
    type = [.mark .lparen, .word "int", .mark .comma, .word "int", .mark .rparen] ∧
    typeReach (ts.drop 4) = type.length ∧
    member.map .strip = (declaredMethod [⟨"public", by decide⟩] type x [] body).tokens ∧
    ∀ p ∈ (Tree.ofTokens ts).places, p.node.kind ≠ .method := by
  let type : List Token := [.mark .lparen, .word "int", .mark .comma, .word "int", .mark .rparen]
  let method : List Token := .word "public" :: (type ++ [.word "M", .mark .lparen, .mark .rparen, .mark .lbrace,
    .mark .rbrace])
  let ts : List Token := .word "class" :: .word "C" :: .mark .lbrace :: (method ++ [.mark .rbrace])
  have hscope : ((memberHeader none).run (cursorAt ts 0)).scope? = some (.type (some "C")) := by decide +kernel
  have hclass : ReadingAt ts ⟨.classType, 0, some "C", true⟩ 3 :=
    ReadingAt.unit.opened rfl rfl (by decide +kernel) (by decide +kernel) hscope (by decide +kernel)
  exact ⟨ts, type, method, _, ⟨"M", by decide⟩, ⟨[], by decide⟩, by decide +kernel, hclass, rfl, rfl, by decide +kernel,
    by decide +kernel, by decide +kernel⟩

end DocPages.Source
