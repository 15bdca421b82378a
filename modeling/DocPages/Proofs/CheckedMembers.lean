/-
The procedures of the checked reader for members. A member is a node whose kind
is told on the way, and what it is read as is a header together with the scope
that the header opens (`memberStep`). How the members of that scope are read is
left open here: the procedures are given it, and it is called further on than
where the member begins.
-/
import DocPages.Proofs.CheckedHeaders
import DocPages.Proofs.Shape

namespace DocPages.Source

/-! ## Members as steps -/

/-- The members of a scope as a step that reads them all. -/
def membersStep (owner? : Option String) (braced : Bool) : Step where
  run c := (⟨[], none, (members owner? braced c).1⟩, (members owner? braced c).2)
  forward := reaches_members owner? braced

/-- The members of a scope, and what is read after the last of them. -/
def Scope.step (s : Scope) : Step :=
  membersStep s.owner? s.isBraced ++ s.close

/-- What is read of a member whose header has been read: the header, and the scope that it opens. -/
def Header.whole (h : Header) : Parts × Cursor :=
  match h.scope? with
  | none => (h.parts, h.next)
  | some s => (h.parts ++ (s.step.run h.next).1, (s.step.run h.next).2)

theorem Header.reaches_whole (h : Header) : h.next.Reaches h.whole.2 := by
  unfold whole
  split
  · exact .refl _
  · next s _ => exact s.step.forward h.next

/-- A member as a step that reads one node. -/
def memberStep (e : Ending) : Step where
  run c :=
    let whole := (e.run c).whole
    (⟨[], none, [whole.1.node (e.run c).kind c.pos whole.2.pos]⟩, whole.2)
  forward c := (e.forward c).trans (e.run c).reaches_whole

namespace Checked

/-! ## Procedures -/

/-- How the members of a scope within a member are read, given the name of the scope and whether it is braced. -/
abbrev Nested : Type :=
  Option String → Bool → Action

/-- The action that the name of the node calls for, which must be the one opened last. -/
def ofName (number : Nat) (f : Option String → Action) : Action where
  run ts s :=
    match s.opened with
    | [] => none
    | n :: _ =>
      if n.number = number then (f (n.parts.name?.bind fun i => ts[i]?.map (·.text))).run ts s else none

def namespaceUnit (nested : Nested) (number : Nat) : Action :=
  .procedure <| .setKind number .namespaceUnit ++ (.bump ++ dottedName ++ .choose fun rest =>
    if atKind .lbrace rest then .bump ++ (nested none true ++ .eat .rbrace)
    else if atKind .semi rest then .bump ++ nested none false
    else .idle)

def recordWord (kind : NodeKind) : Action :=
  if kind = .recordType then .eatWord ["class", "struct"] else .idle

def typeScope (nested : Nested) (number : Nat) (kind : NodeKind) : Action :=
  .whenAt (atKind .lbrace)
    (if kind = .enumType then skipBalanced
    else .bump ++ (ofName number (nested · true) ++ .eat .rbrace)) ++
  .eat .semi

def typeDeclaration (nested : Nested) (number : Nat) (kind : NodeKind) : Action :=
  .procedure <| .setKind number kind ++ (.bump ++ recordWord kind ++
    (.whenAt (atKind .ident) (.name number) ++ .whenAt (atKind .lt) typeParameterList ++
      .whenAt (atKind .lparen) parameterList ++ .whenAt (atKind .colon) baseList ++ constraints ++
      typeScope nested number kind))

def method (number : Nat) : Action :=
  .procedure <| .setKind number .method ++
    (.whenAt (atKind .lt) typeParameterList ++ .whenAt (atKind .lparen) parameterList ++ constraints ++ body)

def constructor (number : Nat) : Action :=
  .procedure <| .setKind number .constructor ++
    (.name number ++ parameterList ++ .whenAt (atKind .colon) initializer ++ body)

def property (number : Nat) : Action :=
  .procedure <| .setKind number .property ++ .choose fun rest =>
    if atKind .lbrace rest then
      .within .accessorList (fun _ => skipBalanced) ++ .whenAt (atKind .eq) skipStatement
    else body

def typedMember (number : Nat) : Action :=
  .procedure <| typeReference ++ .choose fun rest =>
    if !atMemberName rest then skipMember
    else explicitInterface ++ .choose fun rest =>
      if !atMemberName rest then skipMember
      else .name number ++ .choose fun rest =>
        if atKind .lt rest || atKind .lparen rest then method number
        else if atKind .lbrace rest || atKind .fatArrow rest then property number
        else skipMember

/-- A member after its attributes and modifiers, by the word that it begins with. -/
def wordMember (nested : Nested) (owner? : Option String) (number : Nat) (word : String) (after : List Token) :
    Action :=
  match word with
  | "namespace" => namespaceUnit nested number
  | "class" => typeDeclaration nested number .classType
  | "interface" => typeDeclaration nested number .interfaceType
  | "struct" => typeDeclaration nested number .structType
  | "enum" => typeDeclaration nested number .enumType
  | "record" => typeDeclaration nested number .recordType
  | "delegate" => skipStatement
  | "event" | "implicit" | "explicit" => skipMember
  | _ => if owner? = some word && atKind .lparen after then constructor number else typedMember number

def declaration (nested : Nested) (owner? : Option String) (number : Nat) : Action :=
  .choose fun
    | [] => .idle
    | t :: rest =>
      if t.kind = .ident then wordMember nested owner? number t.text rest
      else if t.isPunct "~" then skipMember
      else .idle

def member (nested : Nested) (owner? : Option String) : Action :=
  .procedure <| .choose fun rest =>
    if atImport rest then skipStatement
    else if atStandingAttribute rest then .within .member fun _ => attributeList
    else .within .member fun number => attributes ++ modifiers number ++ declaration nested owner? number

/-! ## Reading headers -/

/-- The action reads of the node opened last what the ending reads, together with the scope that it opens. -/
def Action.ReadsHeader (ts : List Token) (a : Action) (e : Ending) (s : State) : Prop :=
  a.run ts s = some (s.takeAs (e.run (s.cursor ts)).kind (e.run (s.cursor ts)).whole)

/-- What reads the members of scopes reads them at all places beyond the index `base`. -/
def Nested.ReadsFrom (ts : List Token) (base : Nat) (nested : Nested) : Prop :=
  ∀ (s : State) k owner? braced, s.Stands ts k → base < s.pos →
    (nested owner? braced).Reads ts (membersStep owner? braced) s

variable {ts : List Token} {k : Nat} {s : State}

theorem Ending.whole_after (p : Step) (e : Ending) (c : Cursor) : ((Ending.after p e).run c).whole =
    ((p.run c).1 ++ (e.run (p.run c).2).whole.1, (e.run (p.run c).2).whole.2) := by
  simp only [Header.whole, Ending.after]
  split
  · rfl
  · rw [Parts.append_assoc]

namespace Action.ReadsHeader

variable {a b : Action} {p : Step} {e : Ending} {kind : NodeKind}

theorem plain (hk : s.kind? = some kind) (ha : a.Reads ts p s) : a.ReadsHeader ts (.plain kind p) s :=
  ha.trans (congrArg some (State.takeAs_kind hk _).symm)

theorem choose {f : List Token → Action} {g : List Token → Ending}
    (h : (f (ts.drop s.pos)).ReadsHeader ts (g (ts.drop s.pos)) s) :
    (Action.choose f).ReadsHeader ts (.choose g) s :=
  h

theorem after (h : s.Stands ts k) (ha : a.Reads ts p s)
    (hb : ∀ s' : State, s'.Stands ts k → s'.kind? = s.kind? →
      s'.name? = s.name?.or (p.run (s.cursor ts)).1.name? → s.pos ≤ s'.pos → b.ReadsHeader ts e s') :
    (a ++ b).ReadsHeader ts (.after p e) s := by
  have hcursor := State.cursor_take (s := s) (h.on.reaches (p.forward (s.cursor ts)))
  have hread := hb _ (Reads.stands h p) (State.kind?_take _ _) (State.name?_take h _)
    (p.forward (s.cursor ts)).pos_le
  show (a.run ts s).bind (b.run ts) = some (s.takeAs _ ((Ending.after p e).run _).whole)
  rw [ha, Option.bind_some, hread, hcursor, Ending.whole_after]
  exact congrArg some (s.take_takeAs _ _ _ _ _)

theorem procedure (h : s.Stands ts k) (ha : a.ReadsHeader ts e s) : (Action.procedure a).ReadsHeader ts e s := by
  have hreaches := (e.forward (s.cursor ts)).trans (e.run (s.cursor ts)).reaches_whole
  show (a.run ts s).filter _ = _
  rw [ha, Option.filter_some, if_pos]
  exact decide_eq_true ⟨hreaches.pos_le, (h.on.reaches hreaches).2⟩

/-- What is done after the kind of the node has been set finds it set. -/
theorem setKind (h : s.Stands ts k)
    (ha : ∀ s' : State, s'.Stands ts k → s'.kind? = some kind → s'.name? = s.name? → s'.pos = s.pos →
      a.ReadsHeader ts e s') : (Action.setKind k kind ++ a).ReadsHeader ts e s := by
  obtain ⟨n, rest, ho, hn⟩ := h.exists_cons
  let s' : State := { s with opened := { n with kind := kind } :: rest }
  have hrun : (Action.setKind k kind).run ts s = some s' := by
    rw [Action.setKind, Reads.change_run h, ho, List.modifyHead_cons]
  have hs' : s'.Stands ts k := ⟨h.inside, congrArg some hn⟩
  have hname : s'.name? = s.name? := by
    rw [State.name?, State.name?, ho]
    rfl
  show ((Action.setKind k kind).run ts s).bind (a.run ts) = _
  rw [hrun, Option.bind_some, ha s' hs' rfl hname rfl]
  simp only [State.takeAs, ho, s', List.modifyHead_cons]
  rfl

/-- A member is a node around what is read of it. -/
theorem within {body : Nat → Action} (h : s.Stands ts k)
    (hbody : ∀ s' : State, s'.Stands ts s.count → s'.name? = none → s'.kind? = some .member → s'.pos = s.pos →
      (body s.count).ReadsHeader ts e s') : (Action.within .member body).Reads ts (memberStep e) s :=
  Reads.within_run (hbody (s.enter .member) ⟨h.inside, rfl⟩ rfl rfl rfl)

/-- A scope that the next token opens. -/
theorem opening {scope : Scope} (h : s.Stands ts k) (hk : s.kind? = some kind) (hne : ts.drop s.pos ≠ [])
    (ha : ∀ s' : State, s'.Stands ts k → s.pos < s'.pos → s'.name? = s.name? → a.Reads ts scope.step s') :
    (Action.bump ++ a).ReadsHeader ts (.opening kind scope) s := by
  have hreads : (Action.bump ++ a).Reads ts (.bump ++ scope.step) s := by
    refine Reads.bump.append h fun s' he hs => ha s' hs ?_ ?_
    · subst he
      exact h.on.pos_lt (h.on.advance 1) (shorter_advance hne Nat.one_pos)
    · rw [he, State.name?_take h]
      exact Option.or_none
  have hopen : (s.cursor ts).rest.isEmpty = false := by
    rw [List.isEmpty_eq_false_iff]
    exact hne
  have hwhole : ((Ending.opening kind scope).run (s.cursor ts)).whole =
      (Step.bump ++ scope.step).run (s.cursor ts) := by
    simp only [Header.whole, Ending.opening, hopen, Bool.false_eq_true, if_false]
    rfl
  rw [Action.ReadsHeader, hwhole]
  exact hreads.trans (congrArg some (State.takeAs_kind hk _).symm)

end Action.ReadsHeader

/-! ## Members by kind -/

theorem skipMember_reads (hk : s.kind? = some .member) (h : s.Stands ts k) :
    skipMember.ReadsHeader ts otherMember s :=
  .plain hk ((skipMember_skips h.inside).reads (Moves.memberReach _).le_length)

theorem namespaceUnit_reads {nested : Nested} {base : Nat} (hnested : nested.ReadsFrom ts base) (h : s.Stands ts k)
    (hbase : base ≤ s.pos) : (namespaceUnit nested k).ReadsHeader ts namespaceHeader s := by
  refine .procedure h (.setKind h fun s₁ hs₁ hk₁ _ hpos₁ => ?_)
  refine .after hs₁ (Action.Reads.bump.append hs₁ fun _ _ hs => dottedName_reads hs) fun s₂ hs₂ hk₂ _ hpos₂ =>
    .choose ?_
  rw [hk₁] at hk₂
  split_ifs with hbrace hsemi
  · refine .opening hs₂ hk₂ (ne_nil_of_atKind hbrace) fun s₃ hs₃ hpos₃ _ => ?_
    exact (hnested s₃ k none true hs₃ (by omega)).append hs₃ fun _ _ _ => .eat _
  · refine .opening hs₂ hk₂ (ne_nil_of_atKind hsemi) fun s₃ hs₃ hpos₃ _ => ?_
    exact (hnested s₃ k none false hs₃ (by omega)).append_idle
  · exact .plain hk₂ .idle

theorem ofName_run (h : s.Stands ts k) (f : Option String → Action) :
    (ofName k f).run ts s = (f (s.name?.bind fun i => ts[i]?.map (·.text))).run ts s := by
  obtain ⟨n, rest, ho, hn⟩ := h.exists_cons
  simp only [ofName, State.name?, ho, hn, if_true, List.head?_cons, Option.bind_some]

theorem typeScope_reads {nested : Nested} {base : Nat} {kind : NodeKind} {owner? : Option String}
    (hnested : nested.ReadsFrom ts base) (h : s.Stands ts k) (hk : s.kind? = some kind)
    (hname : (s.name?.bind fun i => ts[i]?.map (·.text)) = owner?) (hbase : base ≤ s.pos) :
    (typeScope nested k kind).ReadsHeader ts (Source.typeScope kind owner?) s := by
  rw [typeScope, Action.whenAt_append]
  refine .choose ?_
  split_ifs with hbrace henum
  · exact .plain hk <|
      ((skipBalanced_skips h.inside).reads (groupReach_le _)).append h fun _ _ _ => .eat _
  · rw [Action.append_assoc]
    refine .opening h hk (ne_nil_of_atKind hbrace) fun s' hs' hpos' hname' => ?_
    rw [Action.append_assoc]
    refine Action.Reads.append hs' ?_ fun _ _ hs => (Action.Reads.eat _).append hs fun _ _ _ => .eat _
    rw [Action.Reads, ofName_run hs', hname', hname]
    exact hnested s' k owner? true hs' (by omega)
  · exact .plain hk (.eat _)

theorem recordWord_reads (kind : NodeKind) : (recordWord kind).Reads ts (Source.recordWord kind) s := by
  unfold recordWord Source.recordWord
  split
  · exact .eatWord _
  · exact .idle

theorem recordWord_unnamed (kind : NodeKind) (c : Cursor) : (Source.recordWord kind).KeepsAt unnamed c := by
  unfold Source.recordWord
  split
  · exact .whenAt fun _ => rfl
  · exact .idle

theorem name?_append {p q : Step} {c : Cursor} (hq : q.KeepsAt unnamed (p.run c).2) :
    ((p ++ q).run c).1.name? = (p.run c).1.name? := by
  show (p.run c).1.name?.or (q.run (p.run c).2).1.name? = _
  rw [show (q.run (p.run c).2).1.name? = none from hq, Option.or_none]

theorem constraints_unnamed (c : Cursor) : Source.constraints.KeepsAt unnamed c :=
  Step.KeepsAt.whileAt (I := unnamed) (s := .leaf .constraintClause constraintReach) (fun _ _ => rfl) (fun _ _ => rfl) c

/-- The name of a type is the word in front of its lists. -/
theorem name?_typeParts (c : Cursor) :
    ((nameIfAny ++ .whenAt (atKind .lt) Source.typeParameterList ++ .whenAt (atKind .lparen) Source.parameterList ++
      .whenAt (atKind .colon) (.leaf .baseList baseListReach) ++ Source.constraints).run c).1.name? =
      if atKind .ident c.rest then some c.pos else none := by
  have hbase (c) : (Step.whenAt (atKind .colon) (.leaf .baseList baseListReach)).KeepsAt unnamed c :=
    .whenAt fun _ => rfl
  have hlist (c) : (Step.whenAt (atKind .lparen) Source.parameterList).KeepsAt unnamed c := .whenAt fun _ => rfl
  have htypes (c) : (Step.whenAt (atKind .lt) Source.typeParameterList).KeepsAt unnamed c := .whenAt fun _ => rfl
  rw [name?_append (constraints_unnamed _), name?_append (hbase _), name?_append (hlist _), name?_append (htypes _)]
  show ((if atKind .ident c.rest then Step.name else Step.idle).run c).1.name? = _
  split <;> rfl

theorem typeParts_reads (h : s.Stands ts k) (hname : s.name? = none) :
    (.whenAt (atKind .ident) (.name k) ++ .whenAt (atKind .lt) typeParameterList ++
      .whenAt (atKind .lparen) parameterList ++ .whenAt (atKind .colon) baseList ++ constraints : Action).Reads ts
      (nameIfAny ++ .whenAt (atKind .lt) Source.typeParameterList ++ .whenAt (atKind .lparen) Source.parameterList ++
        .whenAt (atKind .colon) (.leaf .baseList baseListReach) ++ Source.constraints) s :=
  ((((nameIfAny_reads h hname).append h fun _ _ hs => .whenAt fun _ => typeParameterList_reads hs).append h
    fun _ _ hs => .whenAt fun _ => parameterList_reads hs).append h
    fun _ _ hs => .whenAt fun hmark => baseList_reads hs hmark).append h fun _ _ hs => constraints_reads hs

theorem typeDeclaration_reads {nested : Nested} {base : Nat} (hnested : nested.ReadsFrom ts base)
    (h : s.Stands ts k) (hname : s.name? = none) (hbase : base ≤ s.pos) (kind : NodeKind) :
    (typeDeclaration nested k kind).ReadsHeader ts (typeHeader kind) s := by
  refine .procedure h (.setKind h fun s₁ hs₁ hk₁ hname₁ hpos₁ => ?_)
  refine .after hs₁ (Action.Reads.bump.append hs₁ fun _ _ _ => recordWord_reads kind)
    fun s₂ hs₂ hk₂ hname₂ hpos₂ => ?_
  have hunnamed : s₂.name? = none := by
    rw [hname₂, hname₁, hname, name?_append (recordWord_unnamed kind _)]
    rfl
  refine Action.ReadsHeader.after hs₂ (typeParts_reads hs₂ hunnamed) fun s₃ hs₃ hk₃ hname₃ hpos₃ => ?_
  refine typeScope_reads hnested hs₃ (by rw [hk₃, hk₂, hk₁]) ?_ (by omega)
  -- The name is that of the next token where the header of the type begins.
  rw [hname₃, hunnamed, Option.none_or, name?_typeParts]
  show (if atKind .ident (ts.drop s₂.pos) then some s₂.pos else none).bind _ =
    if atKind .ident (ts.drop s₂.pos) then (ts.drop s₂.pos).head?.map (·.text) else none
  split_ifs
  · rw [Option.bind_some, List.head?_drop]
  · rfl

theorem method_reads (h : s.Stands ts k) : (method k).ReadsHeader ts methodHeader s :=
  .procedure h <| .setKind h fun _ hs hk _ _ => .plain hk <|
    (((Action.Reads.whenAt fun _ => typeParameterList_reads hs).append hs fun _ _ hs =>
      .whenAt fun _ => parameterList_reads hs).append hs fun _ _ hs => constraints_reads hs).append hs fun _ _ hs =>
        body_reads hs

theorem constructor_reads (h : s.Stands ts k) (hname : s.name? = none) :
    (constructor k).ReadsHeader ts constructorHeader s :=
  .procedure h <| .setKind h fun _ hs hk hn _ => .plain hk <|
    (((Action.Reads.name hs (hn.trans hname)).append hs fun _ _ hs => parameterList_reads hs).append hs fun _ _ hs =>
      .whenAt fun hmark => initializer_reads hs hmark).append hs fun _ _ hs => body_reads hs

theorem property_reads (h : s.Stands ts k) : (property k).ReadsHeader ts propertyHeader s := by
  refine .procedure h (.setKind h fun s hs hk _ _ => .plain hk (.choose ?_))
  split_ifs with hbrace
  · refine Action.Reads.append hs (.leaf hs (groupReach_le _) fun s' hpos => ?_) fun _ _ hs =>
      .whenAt fun _ => (skipStatement_skips hs.inside).reads (Moves.statementReach _).le_length
    rw [← hpos]
    exact skipBalanced_skips (hpos ▸ hs.inside)
  · exact body_reads hs

theorem typedMember_reads (h : s.Stands ts k) (hname : s.name? = none) (hk : s.kind? = some .member) :
    (typedMember k).ReadsHeader ts Source.typedMember s := by
  refine .procedure h (.after h (typeReference_reads h) fun s₁ hs₁ hk₁ hname₁ _ => .choose ?_)
  rw [hk] at hk₁
  split_ifs with hnot
  · exact skipMember_reads hk₁ hs₁
  refine .after hs₁ (explicitInterface_reads hs₁) fun s₂ hs₂ hk₂ hname₂ _ => .choose ?_
  rw [hk₁] at hk₂
  split_ifs with hnot
  · exact skipMember_reads hk₂ hs₂
  have hunnamed : s₂.name? = none := by
    rw [hname₂, hname₁, hname, show _ = none from typeReference_unnamed _]
    exact explicitInterface_unnamed _
  refine .after hs₂ (.name hs₂ hunnamed) fun s₃ hs₃ hk₃ _ _ => .choose ?_
  rw [hk₂] at hk₃
  split_ifs with hmethod hproperty
  · exact method_reads hs₃
  · exact property_reads hs₃
  · exact skipMember_reads hk₃ hs₃

/-! ## Any member -/

theorem wordMember_reads {nested : Nested} {base : Nat} (hnested : nested.ReadsFrom ts base)
    (h : s.Stands ts k) (hname : s.name? = none) (hk : s.kind? = some .member) (hbase : base ≤ s.pos)
    (owner? : Option String) (word : String) (after : List Token) :
    (wordMember nested owner? k word after).ReadsHeader ts (wordHeader owner? word after) s := by
  unfold wordMember
  split
  · exact namespaceUnit_reads hnested h hbase
  · exact typeDeclaration_reads hnested h hname hbase _
  · exact typeDeclaration_reads hnested h hname hbase _
  · exact typeDeclaration_reads hnested h hname hbase _
  · exact typeDeclaration_reads hnested h hname hbase _
  · exact typeDeclaration_reads hnested h hname hbase _
  · exact .plain hk ((skipStatement_skips h.inside).reads (Moves.statementReach _).le_length)
  · exact skipMember_reads hk h
  · exact skipMember_reads hk h
  · exact skipMember_reads hk h
  · have hother : wordHeader owner? word after =
        if owner? = some word && atKind .lparen after then constructorHeader else Source.typedMember := by
      unfold wordHeader
      split <;> first | rfl | contradiction
    rw [hother]
    split_ifs
    · exact constructor_reads h hname
    · exact typedMember_reads h hname hk

theorem declaration_reads {nested : Nested} {base : Nat} (hnested : nested.ReadsFrom ts base)
    (h : s.Stands ts k) (hname : s.name? = none) (hk : s.kind? = some .member) (hbase : base ≤ s.pos)
    (owner? : Option String) :
    (declaration nested owner? k).ReadsHeader ts (declarationHeader owner?) s := by
  refine .choose ?_
  cases ts.drop s.pos with
  | nil => exact .plain hk .idle
  | cons t rest =>
    dsimp only
    split_ifs with hword hmark
    · exact wordMember_reads hnested h hname hk hbase owner? t.text rest
    · exact skipMember_reads hk h
    · exact .plain hk .idle

/-- A statement between members is passed over. -/
theorem member_import {nested : Nested} (h : s.Stands ts k) (himport : atImport (ts.drop s.pos) = true)
    (owner? : Option String) : (member nested owner?).Reads ts (.skip statementReach) s := by
  refine .procedure h (.of_choose ?_)
  rw [if_pos himport]
  exact (skipStatement_skips h.inside).reads (Moves.statementReach _).le_length

/-- What the checked reader reads of a member, when it is no statement between members. -/
theorem member_reads {nested : Nested} (hnested : nested.ReadsFrom ts s.pos) (h : s.Stands ts k)
    (hnot : atImport (ts.drop s.pos) = false) (owner? : Option String) :
    (member nested owner?).Reads ts (memberStep (memberHeader owner?)) s := by
  refine .procedure h (.of_choose ?_)
  rw [if_neg (by simp [hnot])]
  split_ifs with hstanding
  · refine Action.ReadsHeader.within h fun s' hs' _ hk hpos => ?_
    show Action.ReadsHeader ts _ (if atStandingAttribute (ts.drop s'.pos) then _ else _) s'
    rw [hpos, if_pos hstanding]
    exact .plain hk (attributeList_reads hs')
  · refine Action.ReadsHeader.within h fun s₁ hs₁ hname₁ hk₁ hpos₁ => ?_
    show Action.ReadsHeader ts _ (if atStandingAttribute (ts.drop s₁.pos) then _ else _) s₁
    rw [hpos₁, if_neg hstanding]
    refine .after hs₁ ((attributes_reads hs₁).append hs₁ fun _ _ hs => modifiers_reads hs)
      fun s₂ hs₂ hk₂ hname₂ hpos₂ => declaration_reads hnested hs₂ ?_ (hk₂.trans hk₁) (by omega) owner?
    rw [hname₂, hname₁, Option.none_or]
    exact (attributes_unnamed _).append (modifierRun_unnamed atModifier _)

end Checked

end DocPages.Source
