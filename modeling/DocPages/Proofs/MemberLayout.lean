/-
How the parts of constructors and methods lie. From the attributes to the body,
parts, modifiers and name follow one another and leave no token out between
them (`MemberLayout`, `memberLayout_of_isMember`). What comes behind the name
begins with a mark or a word that its kind tells (`IsTailPart`).
-/
import DocPages.Proofs.HeaderEnds
import DocPages.Proofs.MemberHeaders

namespace DocPages.Source

/-! ## Parts without gaps -/

/-- The nodes take in the tokens from `a` up to `b`, one after the other. -/
inductive Tiled : Nat → List Node → Nat → Prop where
  | nil (a : Nat) : Tiled a [] a
  | cons {a b : Nat} {n : Node} {ns : List Node} (start : n.start = a) (ordered : a ≤ n.stop)
      (rest : Tiled n.stop ns b) : Tiled a (n :: ns) b

namespace Tiled

variable {a b c : Nat} {n : Node} {ms ns : List Node}

theorem le (h : Tiled a ns b) : a ≤ b := by
  induction h with
  | nil => exact Nat.le_refl _
  | cons _ ordered _ ih => exact Nat.le_trans ordered ih

theorem eq_of_nil (h : Tiled a [] b) : a = b := by
  cases h
  rfl

theorem of_cons (h : Tiled a (n :: ns) b) : n.start = a ∧ a ≤ n.stop ∧ Tiled n.stop ns b := by
  cases h with
  | cons start ordered rest => exact ⟨start, ordered, rest⟩

theorem append (h : Tiled a ms b) (h' : Tiled b ns c) : Tiled a (ms ++ ns) c := by
  induction h with
  | nil => exact h'
  | cons start ordered _ ih => exact .cons start ordered (ih h')

theorem single (hs : n.start = a) (ht : n.stop = b) (h : a ≤ b) : Tiled a [n] b :=
  .cons hs (ht ▸ h) (ht ▸ .nil _)

/-- They end where the last of them ends. -/
theorem last (h : Tiled a ns b) : ns.getLast?.elim a (·.stop) = b := by
  induction h with
  | nil => rfl
  | @cons a b n ns _ _ _ ih =>
    cases hl : ns.getLast? with
    | none => simpa [List.getLast?_cons, hl] using ih
    | some m => simpa [List.getLast?_cons, hl] using ih

end Tiled

/-- Nodes that satisfy `P` and leave no gaps are all that is read. -/
structure TiledParts (P : Node → Prop) (c : Cursor) (p : Parts) (d : Cursor) : Prop where
  modifiers : p.modifiers = []
  name : p.name? = none
  nodes : ∀ n ∈ p.children, P n
  tiled : Tiled c.pos p.children d.pos

section

variable {ts : List Token} {P : Node → Prop} {c d : Cursor}

theorem TiledParts.parts_eq {p : Parts} (h : TiledParts P c p d) : p = ⟨[], none, p.children⟩ := by
  obtain ⟨modifiers, name?, children⟩ := p
  obtain ⟨hm, hn, -, -⟩ := h
  simp only at hm hn
  rw [hm, hn]

theorem TiledParts.idle (P : Node → Prop) (c : Cursor) : TiledParts P c .none c :=
  ⟨rfl, rfl, by simp [Parts.none], .nil _⟩

theorem TiledParts.append {e : Cursor} {p q : Parts} (h : TiledParts P c p d) (h' : TiledParts P d q e) :
    TiledParts P c (p ++ q) e := by
  rw [h.parts_eq, h'.parts_eq]
  refine ⟨rfl, rfl, fun n hn => ?_, h.tiled.append h'.tiled⟩
  exact (List.mem_append.1 hn).elim (h.nodes n) (h'.nodes n)

/-- Whatever is read on the tokens `ts` is tiled by nodes that satisfy `P`. -/
def tilings (ts : List Token) (P : Node → Prop) : Kept where
  holds c p d := c.On ts → d.On ts ∧ TiledParts P c p d
  idle c hc := ⟨hc, .idle P c⟩
  append h h' hc := by
    obtain ⟨hd, hp⟩ := h hc
    obtain ⟨he, hq⟩ := h' hd
    exact ⟨he, hp.append hq⟩

namespace Step.KeepsAt

theorem enclose_tiled {kind : NodeKind} {s : Step}
    (h : c.On ts → P ((s.run c).1.node kind c.pos (s.run c).2.pos)) :
    (Step.enclose kind s).KeepsAt (tilings ts P) c := by
  intro hc
  refine ⟨hc.reaches (s.forward c), rfl, rfl, fun n hn => ?_, .single rfl rfl (s.forward c).pos_le⟩
  rw [List.mem_singleton.1 hn]
  exact h hc

theorem leaf_tiled {kind : NodeKind} {reach : List Token → Nat}
    (h : c.On ts → P (Parts.none.node kind c.pos (c.advance (reach c.rest)).pos)) :
    (Step.leaf kind reach).KeepsAt (tilings ts P) c :=
  enclose_tiled (s := .skip reach) h

/-- A repetition of a step that always moves on passes over no token. -/
theorem whileAt_moving {I : Kept} {p : List Token → Bool} {s : Step}
    (h : ∀ c : Cursor, p c.rest = true → s.KeepsAt I c)
    (hm : ∀ c : Cursor, p c.rest = true → c.pos < (s.run c).2.pos) (c : Cursor) :
    (Step.whileAt p s).KeepsAt I c := by
  refine each (fun c s' hs => ?_) (fun c s' _ hs hstill => ?_) c
  · obtain ⟨hp, hs⟩ := Option.ite_none_right_eq_some.1 hs
    obtain rfl := Option.some.inj hs
    exact h c hp
  · obtain ⟨hp, hs⟩ := Option.ite_none_right_eq_some.1 hs
    obtain rfl := Option.some.inj hs
    have := hm c hp
    rw [hstill] at this
    omega

end Step.KeepsAt

theorem pos_lt_advance {k : TokenKind} {n : Nat} (h : atKind k c.rest = true) (hn : 0 < n) :
    c.pos < (c.advance n).pos := by
  obtain ⟨t, rest, hr, -⟩ := eq_cons_of_atKind h
  simp only [Cursor.advance, List.length_take, hr, List.length_cons]
  omega

end

/-! ## Parts in front of the name -/

section

variable {ts : List Token} {c : Cursor}

theorem attributes_tiled (c : Cursor) :
    attributes.KeepsAt (tilings ts (·.kind = .attributeList)) c := by
  refine .whileAt_moving (fun c _ => .leaf_tiled fun _ => rfl) (fun c h => ?_) c
  exact pos_lt_advance h (groupReach_pos h)

/-- Modifiers are single tokens, one after the other, and nothing else. -/
structure ModifierRun (c : Cursor) (p : Parts) (d : Cursor) : Prop where
  modifiers : p.modifiers = List.range' c.pos (d.pos - c.pos)
  name : p.name? = none
  children : p.children = []
  le : c.pos ≤ d.pos

theorem ModifierRun.parts_eq {p : Parts} {d : Cursor} (h : ModifierRun c p d) :
    p = ⟨List.range' c.pos (d.pos - c.pos), none, []⟩ := by
  obtain ⟨modifiers, name?, children⟩ := p
  obtain ⟨hm, hn, hc, -⟩ := h
  simp only at hm hn hc
  rw [hm, hn, hc]

def modifierRuns : Kept where
  holds := ModifierRun
  idle c := ⟨by simp [Parts.none], rfl, rfl, Nat.le_refl _⟩
  append {c d e p q} h h' := by
    have hle := h.le
    have hle' := h'.le
    rw [h.parts_eq, h'.parts_eq]
    refine ⟨?_, rfl, rfl, Nat.le_trans hle hle'⟩
    show List.range' c.pos (d.pos - c.pos) ++ List.range' d.pos (e.pos - d.pos) = _
    have hd : d.pos = c.pos + 1 * (d.pos - c.pos) := by omega
    have he : e.pos - c.pos = (d.pos - c.pos) + (e.pos - d.pos) := by omega
    rw [he, ← List.range'_append, ← hd]

theorem modifiers_run (c : Cursor) : ModifierRun c (modifiers.run c).1 (modifiers.run c).2 := by
  have h : modifiers.KeepsAt modifierRuns c := by
    refine .whileAt_moving (fun c h => ?_) (fun c h => ?_) c
    · have hpos := pos_advance_of_atKind (atKind_of_atModifier h)
      refine ⟨?_, rfl, rfl, ?_⟩
      · show [c.pos] = List.range' c.pos ((c.advance 1).pos - c.pos)
        rw [hpos, Nat.add_sub_cancel_left]
        rfl
      · show c.pos ≤ (c.advance 1).pos
        omega
    · exact pos_lt_advance (atKind_of_atModifier h) Nat.one_pos
  exact h

/-- A type is what a member begins with behind its modifiers, if it begins with a word. -/
theorem typeReference_run (h : atKind .ident c.rest = true) : ∃ x : Node,
    (typeReference.run c).1 = ⟨[], none, [x]⟩ ∧ x.kind = .type ∧
      Tiled c.pos [x] (typeReference.run c).2.pos := by
  have hrun : typeReference.run c = (Step.leaf .type typeReach).run c := by
    show ((if _ then _ else _ : Step)).run c = _
    rw [if_pos (by simp [h])]
  rw [hrun]
  exact ⟨_, rfl, rfl, .single rfl rfl (Cursor.Reaches.advance c _).pos_le⟩

/-- The interface in front of a name ends with a dot. -/
theorem kind_before_interfaceReach {ts : List Token} (h : interfaceReach ts ≠ 0) :
    ∃ t, ts[interfaceReach ts - 1]? = some t ∧ t.kind = .dot := by
  fun_induction interfaceReach ts with
  | case1 => exact absurd rfl h
  | case2 t rest hk n u us hd hu ih =>
    have hdot : rest[n]? = some u := by rw [← List.head?_drop, hd, List.head?_cons]
    by_cases hmore : interfaceReach (rest.drop (n + 1)) = 0
    · refine ⟨u, ?_, hu⟩
      rw [hmore, show 2 + n + 0 - 1 = n + 1 by omega, List.getElem?_cons_succ, hdot]
    · obtain ⟨v, hv, hvk⟩ := ih hmore
      refine ⟨v, ?_, hvk⟩
      rw [List.getElem?_drop] at hv
      rw [← hv, show 2 + n + interfaceReach (rest.drop (n + 1)) - 1 =
        (n + 1 + (interfaceReach (rest.drop (n + 1)) - 1)) + 1 by omega, List.getElem?_cons_succ]
  | case3 => exact absurd rfl h
  | case4 => exact absurd rfl h
  | case5 => exact absurd rfl h

/-- An interface in front of a name, if there is one, ends with a dot. -/
theorem explicitInterface_run (hc : c.On ts) : explicitInterface.run c = (.none, c) ∨ ∃ x : Node,
    (explicitInterface.run c).1 = ⟨[], none, [x]⟩ ∧ x.kind = .explicitInterface ∧
      Tiled c.pos [x] (explicitInterface.run c).2.pos ∧ c.pos < (explicitInterface.run c).2.pos ∧
      kindAt? ts ((explicitInterface.run c).2.pos - 1) = some .dot := by
  by_cases h : interfaceReach c.rest = 0
  · left
    show (if decide (interfaceReach c.rest ≠ 0) then _ else _ : Step).run c = _
    rw [if_neg (by simp [h])]
    rfl
  · right
    have hrun : explicitInterface.run c = (Step.leaf .explicitInterface interfaceReach).run c := by
      show (if decide (interfaceReach c.rest ≠ 0) then _ else _ : Step).run c = _
      rw [if_pos (by simp [h])]
    obtain ⟨t, ht, hk⟩ := kind_before_interfaceReach h
    have hle := (Moves.interfaceReach c.rest).le_length
    have hpos : (c.advance (interfaceReach c.rest)).pos = c.pos + interfaceReach c.rest := by
      simp [Cursor.advance, hle]
    rw [hrun]
    refine ⟨_, rfl, rfl, .single rfl rfl (Cursor.Reaches.advance c _).pos_le, ?_, ?_⟩
    · show c.pos < (c.advance (interfaceReach c.rest)).pos
      omega
    · show kindAt? ts ((c.advance (interfaceReach c.rest)).pos - 1) = _
      rw [hc.1, List.getElem?_drop] at ht
      have hlast : c.pos + interfaceReach c.rest - 1 = c.pos + (interfaceReach c.rest - 1) := by omega
      rw [hpos, hlast, kindAt?, hc.1, ht, Option.map_some, hk]

end

/-! ## Parts behind the name -/

/-- The kind of the token that a part behind the name of a member begins with. -/
def NodeKind.tailMark? : NodeKind → Option TokenKind
  | .typeParameterList => some .lt
  | .parameterList => some .lparen
  | .constraintClause => some .ident
  | .constructorInitializer => some .colon
  | _ => none

/-- A part behind the name of a member, up to the body. -/
structure IsTailPart (ts : List Token) (n : Node) : Prop where
  nonempty : n.start < n.stop
  mark : ∃ k, n.kind.tailMark? = some k ∧ kindAt? ts n.start = some k

section

variable {ts : List Token} {c : Cursor}

theorem pos_lt_append {s t : Step} (h : c.pos < (s.run c).2.pos) : c.pos < ((s ++ t).run c).2.pos :=
  Nat.lt_of_lt_of_le h (t.forward (s.run c).2).pos_le

theorem pos_lt_typeParameterList (h : atKind .lt c.rest = true) : c.pos < (typeParameterList.run c).2.pos :=
  pos_lt_append (pos_lt_append (pos_lt_advance h Nat.one_pos))

theorem pos_lt_parameterList (h : atKind .lparen c.rest = true) : c.pos < (parameterList.run c).2.pos :=
  pos_lt_append (pos_lt_append (pos_lt_advance h Nat.one_pos))

theorem initializerReach_pos (ts : List Token) : 0 < initializerReach ts := by
  have hpos : ∀ n, 0 < n →
      0 < if atKind .lparen (ts.drop n) = true then n + groupReach (ts.drop n) else n := by
    intro n hn
    split <;> omega
  refine hpos _ ?_
  split <;> decide

theorem typeParameterList_tiled (h : atKind .lt c.rest = true) :
    typeParameterList.KeepsAt (tilings ts (IsTailPart ts)) c :=
  .enclose_tiled fun hc => ⟨pos_lt_typeParameterList h, _, rfl, kindAt?_of_atKind hc h⟩

theorem parameterList_tiled (h : atKind .lparen c.rest = true) :
    parameterList.KeepsAt (tilings ts (IsTailPart ts)) c :=
  .enclose_tiled fun hc => ⟨pos_lt_parameterList h, _, rfl, kindAt?_of_atKind hc h⟩

theorem initializer_tiled (h : atKind .colon c.rest = true) :
    (Step.leaf .constructorInitializer initializerReach).KeepsAt (tilings ts (IsTailPart ts)) c :=
  .leaf_tiled fun hc => ⟨pos_lt_advance h (initializerReach_pos _), _, rfl, kindAt?_of_atKind hc h⟩

theorem constraints_tiled (c : Cursor) : constraints.KeepsAt (tilings ts (IsTailPart ts)) c := by
  have hmoves : ∀ c : Cursor, atWord "where" c.rest = true →
      c.pos < (c.advance (constraintReach c.rest)).pos :=
    fun c h => pos_lt_advance (atKind_of_atWord h) (Nat.lt_of_lt_of_le Nat.one_pos (Nat.le_add_right 1 _))
  refine .whileAt_moving (fun c h => .leaf_tiled fun hc => ?_) hmoves c
  exact ⟨hmoves c h, _, rfl, kindAt?_of_atKind hc (atKind_of_atWord h)⟩

/-- What stands between the name of a constructor and its body. -/
def constructorTail : Step :=
  parameterList ++ .whenAt (atKind .colon) (.leaf .constructorInitializer initializerReach)

/-- What stands between the name of a method and its body. -/
def methodTail : Step :=
  .whenAt (atKind .lt) typeParameterList ++ .whenAt (atKind .lparen) parameterList ++ constraints

theorem constructorTail_tiled (h : atKind .lparen c.rest = true) :
    constructorTail.KeepsAt (tilings ts (IsTailPart ts)) c :=
  (parameterList_tiled h).append (.whenAt initializer_tiled)

theorem methodTail_tiled (c : Cursor) : methodTail.KeepsAt (tilings ts (IsTailPart ts)) c :=
  .append (.append (.whenAt typeParameterList_tiled) (.whenAt parameterList_tiled)) (constraints_tiled _)

theorem pos_lt_constructorTail (h : atKind .lparen c.rest = true) : c.pos < (constructorTail.run c).2.pos :=
  pos_lt_append (pos_lt_parameterList h)

theorem run_whenAt {p : List Token → Bool} {s : Step} (h : p c.rest = true) :
    (Step.whenAt p s).run c = s.run c := by
  show (if p c.rest then s else Step.idle).run c = s.run c
  rw [if_pos h]

theorem run_whenAt_not {p : List Token → Bool} {s : Step} (h : ¬ p c.rest = true) :
    (Step.whenAt p s).run c = (.none, c) := by
  show (if p c.rest then s else Step.idle).run c = (.none, c)
  rw [if_neg h]
  rfl

theorem pos_lt_methodTail (h : atKind .lt c.rest = true ∨ atKind .lparen c.rest = true) :
    c.pos < (methodTail.run c).2.pos := by
  refine pos_lt_append ?_
  by_cases hlt : atKind .lt c.rest = true
  · refine pos_lt_append ?_
    rw [run_whenAt hlt]
    exact pos_lt_typeParameterList hlt
  · have hlparen := h.resolve_left hlt
    have hrun : ((Step.whenAt (atKind .lt) typeParameterList).run c).2 = c := by rw [run_whenAt_not hlt]
    show c.pos < ((Step.whenAt (atKind .lparen) parameterList).run
      ((Step.whenAt (atKind .lt) typeParameterList).run c).2).2.pos
    rw [hrun, run_whenAt hlparen]
    exact pos_lt_parameterList hlparen

theorem eat_run {k : TokenKind} (c : Cursor) : ((Step.eat k).run c).2 = c ∨
    atKind k c.rest = true ∧ ((Step.eat k).run c).2 = c.advance 1 := by
  by_cases h : atKind k c.rest = true
  · exact .inr ⟨h, congrArg Prod.snd (run_whenAt h)⟩
  · exact .inl (congrArg Prod.snd (run_whenAt_not h))

/-- A body begins where the parts in front of it end. In its place there may be a semicolon. -/
theorem body_run (c : Cursor) : ∃ bodies, (body.run c).1 = ⟨[], none, bodies⟩ ∧
    (∀ b ∈ bodies, b.kind.isBody = true ∧ b.start = c.pos) ∧
    (bodies = [] → (body.run c).2 = c ∨ atKind .semi c.rest = true ∧ (body.run c).2 = c.advance 1) := by
  have hrun : body.run c = (if atKind .lbrace c.rest then .leaf .block groupReach
    else if atKind .fatArrow c.rest then
      .leaf .arrowBody (fun ts => 1 + untilReach (·.kind = .semi) ts.tail) ++ .eat .semi
    else .eat .semi : Step).run c := rfl
  rw [hrun]
  by_cases hblock : atKind .lbrace c.rest = true
  · rw [if_pos hblock]
    exact ⟨_, rfl, by simp [Parts.node, NodeKind.isBody], fun h => absurd h (List.cons_ne_nil _ _)⟩
  · rw [if_neg hblock]
    by_cases harrow : atKind .fatArrow c.rest = true
    · rw [if_pos harrow]
      let arrow : Step := .leaf .arrowBody (fun ts => 1 + untilReach (·.kind = .semi) ts.tail)
      have hparts : ((arrow ++ .eat .semi).run c).1 = (arrow.run c).1 := by
        show (arrow.run c).1 ++ ((Step.eat .semi).run (arrow.run c).2).1 = _
        rw [Step.eat_parts, Parts.append_none]
      exact ⟨_, hparts, by simp [Parts.node, NodeKind.isBody], fun h => absurd h (List.cons_ne_nil _ _)⟩
    · rw [if_neg harrow]
      exact ⟨[], Step.eat_parts _ c, by simp, fun _ => eat_run c⟩

end

/-! ## Constructors and methods -/

/-- What stands between the modifiers and the name `m` of a member of a kind. -/
inductive IsNameFront (ts : List Token) (m : Nat) : NodeKind → List Node → Prop where
  | constructor : IsNameFront ts m .constructor []
  | method {t : Node} (ht : t.kind = .type) : IsNameFront ts m .method [t]
  | explicit {t i : Node} (ht : t.kind = .type) (hi : i.kind = .explicitInterface) (lt : i.start < m)
      (dot : kindAt? ts (m - 1) = some .dot) : IsNameFront ts m .method [t, i]

/-- The parts of a constructor or a method follow one another without gaps: attributes, modifiers, parts in
front of the name, the name itself, parts behind it, and a body if there is one. -/
structure MemberLayout (ts : List Token) (n : Node) where
  attributes : List Node
  front : List Node
  tail : List Node
  bodies : List Node
  /-- Where the modifiers begin. -/
  start : Nat
  /-- Where the parts in front of the name begin. -/
  mid : Nat
  name : Nat
  /-- Where the parts behind the name end. -/
  stop : Nat
  children_eq : n.children = attributes ++ ((front ++ tail) ++ bodies)
  modifiers_eq : n.modifiers = List.range' start (mid - start)
  name_eq : n.name? = some name
  attributes_kind : ∀ x ∈ attributes, x.kind = .attributeList
  attributes_tiled : Tiled n.start attributes start
  le : start ≤ mid
  isFront : IsNameFront ts name n.kind front
  front_tiled : Tiled mid front name
  isIdent : kindAt? ts name = some .ident
  isTail : ∀ x ∈ tail, IsTailPart ts x
  tail_tiled : Tiled (name + 1) tail stop
  opening : kindAt? ts (name + 1) = some .lt ∨ kindAt? ts (name + 1) = some .lparen
  nonempty : tail ≠ []
  isBody : ∀ b ∈ bodies, b.kind.isBody = true ∧ b.start = stop
  stop_le : stop ≤ n.stop
  ending : bodies = [] → n.stop = stop ∨ n.stop = stop + 1 ∧ kindAt? ts stop = some .semi

theorem Tiled.ne_nil {a b : Nat} {ns : List Node} (h : Tiled a ns b) (hlt : a < b) : ns ≠ [] := by
  rintro rfl
  cases h
  omega

section

variable {ts : List Token} {c d e : Cursor}

/-- A member that is read as its front, the parts `p`, its name, the parts `q` and a body. -/
theorem memberLayout_of_parts {p q parts : Parts} {kind : NodeKind} (hc : c.On ts)
    (hp : TiledParts (fun _ => True) (memberFront.run c).2 p d) (hd : d.On ts)
    (hfront : IsNameFront ts d.pos kind p.children) (hname : atKind .ident d.rest = true)
    (hq : TiledParts (IsTailPart ts) (d.advance 1) q e) (he : e.On ts) (hlt : (d.advance 1).pos < e.pos)
    (hopen : atKind .lt (d.advance 1).rest = true ∨ atKind .lparen (d.advance 1).rest = true)
    (hparts : parts = (memberFront.run c).1 ++ (p ++ (⟨[], some d.pos, []⟩ ++ (q ++ (body.run e).1)))) :
    Nonempty (MemberLayout ts (parts.node kind c.pos (body.run e).2.pos)) := by
  have hkept : attributes.KeepsAt (tilings ts (·.kind = .attributeList)) c := attributes_tiled c
  obtain ⟨-, hattributes⟩ := hkept hc
  have hmodifiers := modifiers_run (attributes.run c).2
  obtain ⟨bodies, hbody, hbodies, hending⟩ := body_run e
  have hfrontparts : (memberFront.run c).1 =
      (attributes.run c).1 ++ (modifiers.run (attributes.run c).2).1 := rfl
  have hpos := pos_advance_of_atKind hname
  -- Each of the five stretches has only one sort of part, so the node is what is put together from them.
  rw [hfrontparts, hattributes.parts_eq, hmodifiers.parts_eq, hp.parts_eq, hq.parts_eq, hbody] at hparts
  subst hparts
  refine ⟨{
    attributes := (attributes.run c).1.children
    front := p.children
    tail := q.children
    bodies := bodies
    start := (attributes.run c).2.pos
    mid := (memberFront.run c).2.pos
    name := d.pos
    stop := e.pos
    children_eq := ?_
    modifiers_eq := ?_
    name_eq := rfl
    attributes_kind := hattributes.nodes
    attributes_tiled := hattributes.tiled
    le := hmodifiers.le
    isFront := hfront
    front_tiled := hp.tiled
    isIdent := kindAt?_of_atKind hd hname
    isTail := hq.nodes
    tail_tiled := hpos ▸ hq.tiled
    opening := ?_
    nonempty := hq.tiled.ne_nil hlt
    isBody := hbodies
    stop_le := (body.forward e).pos_le
    ending := fun hnone => ?_ }⟩
  · simp [Parts.node]
  · exact List.append_nil _
  · rw [← hpos]
    exact hopen.imp (kindAt?_of_atKind (hd.advance 1)) (kindAt?_of_atKind (hd.advance 1))
  · rcases hending hnone with hstop | ⟨hsemi, hstop⟩
    · exact .inl (congrArg Cursor.pos hstop)
    · refine .inr ⟨?_, kindAt?_of_atKind he hsemi⟩
      rw [← pos_advance_of_atKind hsemi]
      exact congrArg Cursor.pos hstop

theorem Step.append_parts (s t : Step) (c : Cursor) :
    ((s ++ t).run c).1 = (s.run c).1 ++ (t.run (s.run c).2).1 :=
  rfl

theorem Step.append_next (s t : Step) (c : Cursor) : ((s ++ t).run c).2 = (t.run (s.run c).2).2 :=
  rfl

theorem memberLayout_of_constructor (hc : c.On ts) (hn : atKind .ident (memberFront.run c).2.rest = true)
    (hp : atKind .lparen ((memberFront ++ .name).run c).2.rest = true) :
    Nonempty (MemberLayout ts
      ((constructorParts.run c).1.node .constructor c.pos (constructorParts.run c).2.pos)) := by
  have hd : (memberFront.run c).2.On ts := hc.reaches (memberFront.forward c)
  have hkept : constructorTail.KeepsAt (tilings ts (IsTailPart ts)) ((memberFront.run c).2.advance 1) :=
    constructorTail_tiled hp
  obtain ⟨he, htail⟩ := hkept (hd.advance 1)
  have hlt := pos_lt_constructorTail hp
  refine memberLayout_of_parts hc (.idle _ _) hd .constructor hn htail he hlt (.inr hp) ?_
  simp only [constructorParts, constructorTail, Step.append_parts, Step.append_next, Parts.append_assoc,
    Parts.none_append]
  rfl

theorem methodFront_tiled (hc : c.On ts) (hw : atKind .ident (memberFront.run c).2.rest = true) :
    ∃ p, TiledParts (fun _ => True) (memberFront.run c).2 p (methodFront.run c).2 ∧
      (methodFront.run c).1 = (memberFront.run c).1 ++ p ∧
      IsNameFront ts (methodFront.run c).2.pos .method p.children := by
  let b := (memberFront.run c).2
  let b' := (typeReference.run b).2
  have hb' : b'.On ts := (hc.reaches (memberFront.forward c)).reaches (typeReference.forward b)
  obtain ⟨t, ht, htk, htiled⟩ := typeReference_run hw
  have htype : TiledParts (fun _ => True) b ⟨[], none, [t]⟩ b' := ⟨rfl, rfl, by simp, htiled⟩
  refine ⟨⟨[], none, [t]⟩ ++ (explicitInterface.run b').1, ?_⟩
  have hparts : (methodFront.run c).1 =
      (memberFront.run c).1 ++ (⟨[], none, [t]⟩ ++ (explicitInterface.run b').1) := by
    rw [← ht, ← Parts.append_assoc]
    rfl
  have hnext : (methodFront.run c).2 = (explicitInterface.run b').2 := rfl
  rw [hnext]
  rcases explicitInterface_run hb' with hi | ⟨i, hi, hik, hit, hlt, hdot⟩
  · rw [hi, Parts.append_none] at hparts ⊢
    exact ⟨htype, hparts, .method htk⟩
  · have hstart : i.start = b'.pos := hit.of_cons.1
    rw [hi] at hparts ⊢
    exact ⟨htype.append ⟨rfl, rfl, by simp, hit⟩, hparts, .explicit htk hik (hstart ▸ hlt) hdot⟩

theorem memberLayout_of_method (hc : c.On ts) (hw : atKind .ident (memberFront.run c).2.rest = true)
    (hn : atKind .ident (methodFront.run c).2.rest = true)
    (hl : atKind .lt ((methodFront ++ .name).run c).2.rest = true ∨
      atKind .lparen ((methodFront ++ .name).run c).2.rest = true) :
    Nonempty (MemberLayout ts ((methodParts.run c).1.node .method c.pos (methodParts.run c).2.pos)) := by
  have hd : (methodFront.run c).2.On ts := hc.reaches (methodFront.forward c)
  have hkept : methodTail.KeepsAt (tilings ts (IsTailPart ts)) ((methodFront.run c).2.advance 1) :=
    methodTail_tiled _
  obtain ⟨he, htail⟩ := hkept (hd.advance 1)
  obtain ⟨p, hp, hparts, hfront⟩ := methodFront_tiled hc hw
  refine memberLayout_of_parts hc hp hd hfront hn htail he (pos_lt_methodTail hl) hl ?_
  simp only [methodParts, methodTail, Step.append_parts, Step.append_next, hparts, Parts.append_assoc]
  rfl

theorem typeScope_kind (kind : NodeKind) (owner? : Option String) (c : Cursor) :
    ((typeScope kind owner?).run c).kind = kind := by
  show ((if atKind .lbrace c.rest then
      if kind = .enumType then Ending.plain kind (.skip groupReach ++ .eat .semi)
      else .opening kind (.type owner?)
    else .plain kind (.eat .semi)).run c).kind = kind
  by_cases hl : atKind .lbrace c.rest = true
  · rw [if_pos hl]
    split <;> rfl
  · rw [if_neg hl]
    rfl

/-- **Constructors and methods are laid out without gaps.** -/
theorem memberLayout_of_isMember {n : Node} (h : IsMember ts n)
    (hk : n.kind = .constructor ∨ n.kind = .method) : Nonempty (MemberLayout ts n) := by
  obtain @⟨owner?, c, h, inner, stop, on, read, le, plain, inside⟩ := h
  have hcase := memberCase owner? c
  rw [read] at hcase
  have hk' : h.kind = .constructor ∨ h.kind = .method := hk
  have hplain : h.scope? = none →
      (h.parts ++ ⟨[], none, inner⟩).node h.kind c.pos stop = h.parts.node h.kind c.pos h.next.pos := by
    intro hs
    obtain ⟨rfl, rfl⟩ := plain hs
    exact congrArg (Parts.node · h.kind c.pos h.next.pos) h.parts.append_none
  cases hcase with
  | @type kind ht =>
    have hkind : ((Ending.after memberFront (typeHeader kind)).run c).kind = kind := typeScope_kind kind _ _
    rw [hkind] at hk'
    rcases hk' with rfl | rfl <;> cases ht
  | constructor hn hp =>
    rw [hplain rfl]
    exact memberLayout_of_constructor on hn hp
  | method hn hw hl =>
    rw [hplain rfl]
    exact memberLayout_of_method on hw hn hl
  | other ho =>
    rcases hk' with hk' | hk' <;> rw [hk'] at ho <;> cases ho

end

end DocPages.Source
