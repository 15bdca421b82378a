/-
The grammar of trees. What the children of a node are depends on its kind only,
as regular expressions over kinds tell (`NodeKind.grammar`). Every node of
every unit has such children, a name where it needs one, and constructors only
if it is a type of their name (`Conforms`).

The header of a member is read by one step after another. What a step adds is
described by the kinds of the nodes (`Yields`), and the descriptions are
multiplied as the steps are; only at the end, where the kind of the member is
known, they are compared with its grammar.
-/
import DocPages.Proofs.MemberLayout
import Mathlib.Computability.RegularExpressions
import Mathlib.Order.CompletePartialOrder

namespace DocPages.Source

open scoped Computability

/-! ## The grammar -/

/-- Sequences of kinds of nodes. -/
abbrev Grammar := RegularExpression NodeKind

namespace Grammar

def one (k : NodeKind) : Grammar := .char k

def atMostOne (k : NodeKind) : Grammar := 1 + one k

def many (k : NodeKind) : Grammar := (one k).star

def anyOf (ks : List NodeKind) : Grammar := ks.foldr (fun k g => one k + g) 0

end Grammar

open Grammar

/-- The kinds of nodes that stand in a scope of members. -/
def memberKinds : List NodeKind :=
  [.member, .namespaceUnit, .classType, .interfaceType, .structType, .recordType, .enumType, .constructor,
   .method, .property]

/-- A body, or a semicolon in its place. -/
def bodyGrammar : Grammar := 1 + (one .block + one .arrowBody)

namespace NodeKind

/-- What a node of a kind is made of, apart from members of its own. -/
def headerGrammar : NodeKind → Grammar
  | .namespaceUnit => many .attributeList * one .name
  | .classType | .interfaceType | .structType | .recordType | .enumType =>
    many .attributeList * atMostOne .typeParameterList * atMostOne .parameterList * atMostOne .baseList *
      many .constraintClause
  | .constructor =>
    many .attributeList * one .parameterList * atMostOne .constructorInitializer * bodyGrammar
  | .method =>
    many .attributeList * one .type * atMostOne .explicitInterface *
      (one .typeParameterList * atMostOne .parameterList + one .parameterList) * many .constraintClause * bodyGrammar
  | .property =>
    many .attributeList * one .type * atMostOne .explicitInterface * (one .accessorList + one .arrowBody)
  | .member => many .attributeList * atMostOne .type * atMostOne .explicitInterface
  | .typeParameterList => many .typeParameter
  | .typeParameter => many .attributeList
  | .parameterList => many .parameter
  | .parameter => many .attributeList * atMostOne .type * atMostOne .defaultValue
  | _ => 1

/-- What the children of a node of a kind are, in order. -/
def grammar (k : NodeKind) : Grammar :=
  k.headerGrammar * if k.isScope || k = .compilationUnit then (anyOf memberKinds).star else 1

/-- The kinds of types that may have constructors. -/
def hasConstructors (k : NodeKind) : Bool :=
  k = .classType || k = .interfaceType || k = .structType || k = .recordType

/-- The kinds of members that have a name in every source. -/
def isNamed (k : NodeKind) : Bool :=
  k = .method || k = .constructor || k = .property

end NodeKind

def kindsOf (ns : List Node) : List NodeKind := ns.map (·.kind)

/-- The index is that of a token with the text `name`. -/
def IsName (ts : List Token) (i? : Option Nat) (name : String) : Prop :=
  ∃ i t, i? = some i ∧ ts[i]? = some t ∧ t.text = name

/-- The children of the node are what its kind says. -/
def FollowsGrammar (n : Node) : Prop :=
  kindsOf n.children ∈ n.kind.grammar.matches'

/-- The node is as its kind says: its children, its name, and the constructors among its children. -/
structure Conforms (ts : List Token) (n : Node) : Prop where
  children : FollowsGrammar n
  named : n.kind.isNamed = true → n.name?.isSome = true
  constructors : ∀ m ∈ n.children, m.kind = .constructor →
    n.kind.hasConstructors = true ∧ ∃ name, IsName ts n.name? name ∧ IsName ts m.name? name

theorem grammar_of_isPart {k : NodeKind} (h : k.isPart = true) :
    k.grammar.matches' = k.headerGrammar.matches' := by
  have hscope : (k.isScope || k = .compilationUnit) = false := by cases k <;> first | rfl | cases h
  rw [NodeKind.grammar, hscope]
  exact mul_one _

theorem headerGrammar_of_isTypeDeclaration {k : NodeKind} (h : k.isTypeDeclaration = true) :
    k.headerGrammar = NodeKind.classType.headerGrammar := by
  cases k <;> first | rfl | cases h

/-! ## What steps add to a node -/

/-- The parts have nodes with such kinds, all of them made as the grammar has it, and this name. -/
structure Yields (L : Language NodeKind) (name? : Option Nat) (p : Parts) : Prop where
  kinds : kindsOf p.children ∈ L
  name : p.name? = name?
  deep : ∀ n ∈ p.children, n.All FollowsGrammar

namespace Yields

variable {L L' : Language NodeKind} {n n' : Option Nat} {p q : Parts} {c : Cursor}

theorem mono (h : Yields L n p) (hL : L ≤ L') : Yields L' n p :=
  ⟨hL h.kinds, h.name, h.deep⟩

theorem idle : Yields 1 none .none :=
  ⟨Language.nil_mem_one, rfl, by simp [Parts.none]⟩

theorem join (h : Yields L n p) (h' : Yields L' n' q) : Yields (L * L') (n.or n') (p ++ q) where
  kinds := by
    rw [Parts.children_append, kindsOf, List.map_append]
    exact Language.append_mem_mul h.kinds h'.kinds
  name := congrArg₂ Option.or h.name h'.name
  deep m hm := (List.mem_append.1 hm).elim (h.deep m) (h'.deep m)

/-- Parts, and others without a name behind them. -/
theorem append (h : Yields L n p) (h' : Yields L' none q) : Yields (L * L') n (p ++ q) := by
  simpa only [Option.or_none] using h.join h'

/-- Parts without a name, and others behind them. -/
theorem append_named (h : Yields L none p) (h' : Yields L' n q) : Yields (L * L') n (p ++ q) :=
  h.join h'

/-- Where one more node may follow, none need follow. -/
theorem orNone (h : Yields L n p) (k : NodeKind) : Yields (L * (atMostOne k).matches') n p where
  kinds := by
    rw [← (kindsOf p.children).append_nil]
    exact Language.append_mem_mul h.kinds (.inl Language.nil_mem_one)
  name := h.name
  deep := h.deep

theorem skip (reach : List Token → Nat) (c : Cursor) : Yields 1 none ((Step.skip reach).run c).1 :=
  idle

theorem name_run (c : Cursor) : Yields 1 (some c.pos) (Step.name.run c).1 :=
  ⟨Language.nil_mem_one, rfl, by simp [Step.name]⟩

theorem modifier (c : Cursor) : Yields 1 none (Step.modifier.run c).1 :=
  ⟨Language.nil_mem_one, rfl, by simp [Step.modifier]⟩

theorem enclose {kind : NodeKind} {s : Step} (hk : kind.isPart = true)
    (h : Yields kind.headerGrammar.matches' n (s.run c).1) :
    Yields (one kind).matches' none ((Step.enclose kind s).run c).1 where
  kinds := rfl
  name := rfl
  deep m hm := by
    rw [List.mem_singleton.1 hm]
    exact .intro ((grammar_of_isPart hk).ge h.kinds) h.deep

theorem leaf {kind : NodeKind} {reach : List Token → Nat} (hk : kind.isPart = true)
    (hg : kind.headerGrammar = 1) (c : Cursor) :
    Yields (one kind).matches' none ((Step.leaf kind reach).run c).1 :=
  enclose (s := .skip reach) hk ⟨by rw [hg]; rfl, rfl, idle.deep⟩

theorem whenAt {p : List Token → Bool} {s : Step} (h : p c.rest = true → Yields L none (s.run c).1) :
    Yields (1 + L) none ((Step.whenAt p s).run c).1 := by
  by_cases hp : p c.rest = true
  · rw [run_whenAt hp]
    exact (h hp).mono fun _ => .inr
  · rw [run_whenAt_not hp]
    exact idle.mono fun _ => .inl

theorem eat (k : TokenKind) (c : Cursor) : Yields 1 none ((Step.eat k).run c).1 := by
  rw [Step.eat_parts]
  exact idle

theorem eatWord (ws : List String) (c : Cursor) : Yields 1 none ((Step.eatWord ws).run c).1 :=
  (whenAt (L := 1) fun _ => skip _ c).mono (add_idem 1).le

/-- Any number of what `L` allows, and no name. -/
def repeated (L : Language NodeKind) : Kept where
  holds _ p _ := Yields L∗ none p
  idle _ := idle.mono one_le_kstar
  append h h' := (h.append h').mono (kstar_mul_kstar L).le

theorem each {next? : List Token → Option Step}
    (h : ∀ (c : Cursor) s, next? c.rest = some s → Yields L∗ none (s.run c).1) (c : Cursor) :
    Yields L∗ none ((Step.each next?).run c).1 :=
  Step.KeepsAt.each (I := repeated L) h (fun c _ _ _ _ => (repeated L).idle c) c

theorem whileAt {p : List Token → Bool} {s : Step}
    (h : ∀ c : Cursor, p c.rest = true → Yields L none (s.run c).1) (c : Cursor) :
    Yields L∗ none ((Step.whileAt p s).run c).1 :=
  Step.KeepsAt.whileAt (I := repeated L) (fun c hp => (h c hp).mono le_kstar)
    (fun c _ => (repeated L).idle c) c

end Yields

/-! ## Parts of headers -/

section

variable {c : Cursor}

theorem attributes_yields (c : Cursor) : Yields (many .attributeList).matches' none (attributes.run c).1 :=
  .whileAt (fun c _ => .leaf rfl rfl c) c

theorem modifiers_yields (c : Cursor) : Yields 1 none (modifiers.run c).1 :=
  (Yields.whileAt (fun c _ => .modifier c) c).mono kstar_one.le

theorem memberFront_yields (c : Cursor) : Yields (many .attributeList).matches' none (memberFront.run c).1 :=
  ((attributes_yields c).append (modifiers_yields _)).mono (mul_one _).le

/-- The name that is next, if it is. -/
def nextName? (c : Cursor) : Option Nat :=
  if atKind .ident c.rest then some c.pos else none

theorem nameIfAny_yields (c : Cursor) : Yields 1 (nextName? c) (nameIfAny.run c).1 := by
  unfold nextName?
  split
  · next h => rw [nameIfAny, run_whenAt h]; exact .name_run c
  · next h => rw [nameIfAny, run_whenAt_not h]; exact .idle

theorem typeReference_yields (c : Cursor) :
    Yields (atMostOne .type).matches' none (typeReference.run c).1 :=
  .whenAt fun _ => .leaf rfl rfl c

theorem typeParameter_yields (c : Cursor) :
    Yields (one .typeParameter).matches' none (typeParameter.run c).1 := by
  refine .enclose rfl ((((attributes_yields c).append (.eatWord _ _)).append_named (nameIfAny_yields _)).mono ?_)
  simp only [mul_one]
  exact le_rfl

/-- A list in brackets, whose items have marks between them. -/
theorem list_yields {kind itemKind : NodeKind} {item : Step} {ends : List TokenKind} {close : TokenKind}
    (hk : kind.isPart = true) (hg : kind.headerGrammar = many itemKind)
    (h : ∀ c, Yields (one itemKind).matches' none (item.run c).1) (c : Cursor) :
    Yields (one kind).matches' none ((Step.enclose kind (.bump ++ .each (fun ts =>
      if ends.any (atKind · ts) then none else if atKind .comma ts then some .bump else some item) ++
        .eat close)).run c).1 := by
  have hitems : ∀ (c : Cursor) s, (if ends.any (atKind · c.rest) then none
      else if atKind .comma c.rest then some .bump else some item) = some s →
        Yields (one itemKind).matches'∗ none (s.run c).1 := by
    intro c s hs
    split at hs
    · cases hs
    · split at hs <;> cases hs
      · exact (Yields.skip _ c).mono one_le_kstar
      · exact (h c).mono le_kstar
  refine .enclose hk ((((Yields.skip _ c).append (.each hitems _)).append (.eat _ _)).mono ?_)
  rw [mul_one, one_mul, hg]
  exact le_rfl

theorem typeParameterList_yields (c : Cursor) :
    Yields (one .typeParameterList).matches' none (typeParameterList.run c).1 :=
  list_yields rfl rfl typeParameter_yields c

theorem defaultValue_yields (c : Cursor) :
    Yields (atMostOne .defaultValue).matches' none (defaultValue.run c).1 := by
  refine .whenAt fun _ => ((Yields.skip _ c).append (.leaf rfl rfl _)).mono ?_
  exact (one_mul _).le

theorem parameter_yields (c : Cursor) : Yields (one .parameter).matches' none (parameter.run c).1 := by
  refine .enclose rfl (((((((attributes_yields c).append (.whileAt (fun c _ => .modifier c) _)).append
    (typeReference_yields _)).append_named (nameIfAny_yields _)).append (defaultValue_yields _)).append
    (.skip _ _)).mono ?_)
  simp only [mul_one, kstar_one]
  exact le_rfl

theorem parameterList_yields (c : Cursor) :
    Yields (one .parameterList).matches' none (parameterList.run c).1 :=
  list_yields rfl rfl parameter_yields c

theorem constraints_yields (c : Cursor) :
    Yields (many .constraintClause).matches' none (constraints.run c).1 :=
  .whileAt (fun c _ => .leaf rfl rfl c) c

theorem explicitInterface_yields (c : Cursor) :
    Yields (atMostOne .explicitInterface).matches' none (explicitInterface.run c).1 :=
  .whenAt fun _ => .leaf rfl rfl c

theorem arrowBody_yields (h : atKind .lbrace c.rest ≠ true) (harrow : atKind .fatArrow c.rest = true) :
    Yields (one .arrowBody).matches' none (body.run c).1 := by
  have hrun : body.run c = (Step.leaf .arrowBody (fun ts => 1 + untilReach (·.kind = .semi) ts.tail) ++
      .eat .semi).run c := by
    show (ite _ _ (ite _ _ _) : Step).run c = _
    rw [if_neg h, if_pos harrow]
  rw [hrun]
  exact ((Yields.leaf rfl rfl c).append (.eat _ _)).mono (mul_one _).le

theorem body_yields (c : Cursor) : Yields bodyGrammar.matches' none (body.run c).1 := by
  by_cases hbrace : atKind .lbrace c.rest = true
  · have hrun : body.run c = (Step.leaf .block groupReach).run c := by
      show (ite _ _ (ite _ _ _) : Step).run c = _
      rw [if_pos hbrace]
    rw [hrun]
    exact (Yields.leaf rfl rfl c).mono fun _ h => .inr (.inl h)
  · by_cases harrow : atKind .fatArrow c.rest = true
    · exact (arrowBody_yields hbrace harrow).mono fun _ h => .inr (.inr h)
    · have hrun : body.run c = (Step.eat .semi).run c := by
        show (ite _ _ (ite _ _ _) : Step).run c = _
        rw [if_neg hbrace, if_neg harrow]
      rw [hrun]
      exact (Yields.eat _ c).mono fun _ => .inl

/-- The lists behind the name of a method. -/
theorem methodLists_yields (h : atKind .lt c.rest = true ∨ atKind .lparen c.rest = true) :
    Yields (one .typeParameterList * atMostOne .parameterList + one .parameterList : Grammar).matches' none
      ((Step.whenAt (atKind .lt) typeParameterList ++ .whenAt (atKind .lparen) parameterList).run c).1 := by
  by_cases hlt : atKind .lt c.rest = true
  · have hfirst : Yields (one .typeParameterList).matches' none
        ((Step.whenAt (atKind .lt) typeParameterList).run c).1 := by
      rw [run_whenAt hlt]
      exact typeParameterList_yields c
    exact (hfirst.append (.whenAt fun _ => parameterList_yields _)).mono fun _ => .inl
  · show Yields _ none (((Step.whenAt (atKind .lt) typeParameterList).run c).1 ++
      ((Step.whenAt (atKind .lparen) parameterList).run ((Step.whenAt (atKind .lt) typeParameterList).run c).2).1)
    rw [run_whenAt_not hlt, Parts.none_append, run_whenAt (h.resolve_left hlt)]
    exact (parameterList_yields c).mono fun _ => .inr

end

/-! ## Headers -/

/-- The header of a member of a scope with the name `owner?` is as its kind says. -/
inductive HeaderConforms (ts : List Token) (owner? : Option String) : NodeKind → Parts → Option Scope → Prop where
  | unnamed {kind : NodeKind} {n : Option Nat} {p : Parts} (isMember : kind ∈ memberKinds)
      (isNamed : kind.isNamed = false) (parts : Yields kind.headerGrammar.matches' n p) :
      HeaderConforms ts owner? kind p none
  | named {kind : NodeKind} {i : Nat} {p : Parts} (isNamed : kind = .method ∨ kind = .property)
      (parts : Yields kind.headerGrammar.matches' (some i) p) : HeaderConforms ts owner? kind p none
  | constructor {t : Token} {i : Nat} {p : Parts} (token : ts[i]? = some t) (owner : owner? = some t.text)
      (parts : Yields NodeKind.constructor.headerGrammar.matches' (some i) p) :
      HeaderConforms ts owner? .constructor p none
  | namespaceUnit {scope : Scope} {n : Option Nat} {p : Parts} (owner : scope.owner? = none)
      (parts : Yields NodeKind.namespaceUnit.headerGrammar.matches' n p) :
      HeaderConforms ts owner? .namespaceUnit p (some scope)
  | type {kind : NodeKind} {own? : Option String} {n : Option Nat} {p : Parts}
      (hasConstructors : kind.hasConstructors = true) (owner : ∀ name, own? = some name → IsName ts n name)
      (parts : Yields kind.headerGrammar.matches' n p) : HeaderConforms ts owner? kind p (some (.type own?))

/-- Behind the parts `front`, the ending makes a header that is as its kind says. -/
def Ending.Completes (ts : List Token) (owner? : Option String) (front : Parts) (e : Ending) (c : Cursor) : Prop :=
  HeaderConforms ts owner? (e.run c).kind (front ++ (e.run c).parts) (e.run c).scope?

namespace Ending.Completes

variable {ts : List Token} {owner? : Option String} {front : Parts} {c : Cursor} {n : Option Nat}

theorem after {s : Step} {e : Ending} (h : e.Completes ts owner? (front ++ (s.run c).1) (s.run c).2) :
    (Ending.after s e).Completes ts owner? front c := by
  unfold Completes at h ⊢
  rwa [Parts.append_assoc] at h

theorem choose {f : List Token → Ending} (h : (f c.rest).Completes ts owner? front c) :
    (Ending.choose f).Completes ts owner? front c :=
  h

theorem plain {kind : NodeKind} {s : Step} (h : HeaderConforms ts owner? kind (front ++ (s.run c).1) none) :
    (Ending.plain kind s).Completes ts owner? front c :=
  h

theorem opening {kind : NodeKind} {scope : Scope} (h : HeaderConforms ts owner? kind front (some scope))
    (hend : HeaderConforms ts owner? kind front none) : (Ending.opening kind scope).Completes ts owner? front c := by
  show HeaderConforms ts owner? kind (front ++ Parts.none) (if c.rest.isEmpty then none else some scope)
  rw [Parts.append_none]
  split
  · exact hend
  · exact h

/-! ### Members by kind -/

/-- A member of no kind of its own, of which attributes, a type and an interface may have been read. -/
theorem member {s : Step} (h : Yields NodeKind.member.headerGrammar.matches' n front)
    (hs : ∀ c : Cursor, (s.run c).1 = .none) : (Ending.plain .member s).Completes ts owner? front c := by
  refine plain ?_
  rw [hs, Parts.append_none]
  exact .unnamed (by decide) rfl h

theorem namespaceHeader (h : Yields (many .attributeList).matches' none front) :
    namespaceHeader.Completes ts owner? front c := by
  have hname : Yields NodeKind.namespaceUnit.headerGrammar.matches' none
      (front ++ ((Step.bump ++ .leaf .name dottedReach).run c).1) :=
    (h.append ((Yields.skip _ c).append (.leaf rfl rfl _))).mono (by rw [one_mul]; exact le_rfl)
  have hplain : HeaderConforms ts owner? .namespaceUnit _ none := .unnamed (by decide) rfl hname
  refine after (choose ?_)
  split
  · exact opening (.namespaceUnit rfl hname) hplain
  · split
    · exact opening (.namespaceUnit rfl hname) hplain
    · exact plain (by rwa [show (Step.idle.run _).1 = Parts.none from rfl, Parts.append_none])

theorem typeScope {kind : NodeKind} {own? : Option String} (hk : kind.isTypeDeclaration = true)
    (hown : ∀ name, own? = some name → IsName ts n name) (h : Yields kind.headerGrammar.matches' n front) :
    (typeScope kind own?).Completes ts owner? front c := by
  have hmember : kind ∈ memberKinds := by cases kind <;> first | decide | cases hk
  have hnamed : kind.isNamed = false := by cases kind <;> first | rfl | cases hk
  have hplain : HeaderConforms ts owner? kind front none := .unnamed hmember hnamed h
  refine choose ?_
  split
  · split
    · refine plain ?_
      rw [show ((Step.skip groupReach ++ .eat .semi).run c).1 = Parts.none from Step.eat_parts _ _, Parts.append_none]
      exact hplain
    · next henum =>
      refine opening (.type ?_ hown h) hplain
      cases kind <;> first | rfl | exact absurd rfl henum | cases hk
  · refine plain ?_
    rw [Step.eat_parts, Parts.append_none]
    exact hplain

theorem isName_next (hc : c.On ts) {name : String}
    (h : (if atKind .ident c.rest then c.rest.head?.map (·.text) else none) = some name) :
    IsName ts (nextName? c) name := by
  split at h
  · next hi =>
    obtain ⟨t, rest, hr, -⟩ := eq_cons_of_atKind hi
    rw [hr] at h
    exact ⟨c.pos, t, if_pos hi, hc.getElem hr, Option.some.inj h⟩
  · cases h

theorem typeHeader {kind : NodeKind} (hk : kind.isTypeDeclaration = true) (hc : c.On ts)
    (h : Yields (many .attributeList).matches' none front) :
    (typeHeader kind).Completes ts owner? front c := by
  have hword : Yields 1 none ((recordWord kind).run (Step.bump.run c).2).1 := by
    unfold recordWord
    split
    · exact .eatWord _ _
    · exact .idle
  have hfront := h.append ((Yields.skip (fun _ => 1) c).append hword)
  have hbase : ∀ c, Yields (atMostOne .baseList).matches' none
      ((Step.whenAt (atKind .colon) (.leaf .baseList baseListReach)).run c).1 :=
    fun c => .whenAt fun _ => .leaf rfl rfl c
  have hc' := hc.reaches ((Step.bump ++ recordWord kind).forward c)
  refine after (choose (after (typeScope hk (fun name => isName_next hc') ?_)))
  refine (hfront.append_named (((((nameIfAny_yields _).append
    (.whenAt fun _ => typeParameterList_yields _)).append (.whenAt fun _ => parameterList_yields _)).append
    (hbase _)).append (constraints_yields _))).mono (le_of_eq ?_)
  rw [headerGrammar_of_isTypeDeclaration hk]
  simp only [NodeKind.headerGrammar, mul_one, one_mul, RegularExpression.matches'_mul, mul_assoc]
  rfl

theorem constructorHeader {t : Token} {rest : List Token} (hc : c.On ts) (hr : c.rest = t :: rest)
    (hown : owner? = some t.text) (h : Yields (many .attributeList).matches' none front) :
    constructorHeader.Completes ts owner? front c := by
  have hinitializer : ∀ c, Yields (atMostOne .constructorInitializer).matches' none
      ((Step.whenAt (atKind .colon) (.leaf .constructorInitializer initializerReach)).run c).1 :=
    fun c => .whenAt fun _ => .leaf rfl rfl c
  refine plain (.constructor (hc.getElem hr) hown ((h.append_named ((((Yields.name_run c).append
    (parameterList_yields _)).append (hinitializer _)).append (body_yields _))).mono (le_of_eq ?_)))
  simp only [NodeKind.headerGrammar, one_mul, RegularExpression.matches'_mul, mul_assoc]

/-- What a method or a property begins with. -/
def typedFront : Grammar :=
  many .attributeList * one .type * atMostOne .explicitInterface

theorem methodHeader {i : Nat} (hl : atKind .lt c.rest = true ∨ atKind .lparen c.rest = true)
    (h : Yields typedFront.matches' (some i) front) : methodHeader.Completes ts owner? front c := by
  refine plain (.named (.inl rfl) ((h.append (((methodLists_yields hl).append (constraints_yields _)).append
    (body_yields _))).mono (le_of_eq ?_)))
  simp only [NodeKind.headerGrammar, typedFront, RegularExpression.matches'_mul, mul_assoc]

theorem propertyHeader {i : Nat} (hl : atKind .lbrace c.rest = true ∨ atKind .fatArrow c.rest = true)
    (h : Yields typedFront.matches' (some i) front) : propertyHeader.Completes ts owner? front c := by
  have hbody : Yields (one .accessorList + one .arrowBody : Grammar).matches' none
      ((Step.choose fun ts => if atKind .lbrace ts then
        .leaf .accessorList groupReach ++ .whenAt (atKind .eq) (.skip statementReach) else body).run c).1 := by
    show Yields _ none ((if atKind .lbrace c.rest then _ else _ : Step).run c).1
    split
    · have hvalue : ∀ c, Yields 1 none ((Step.whenAt (atKind .eq) (.skip statementReach)).run c).1 := fun c =>
        (Yields.whenAt (L := 1) fun _ => .skip _ c).mono (add_idem 1).le
      exact ((Yields.leaf rfl rfl c).append (hvalue _)).mono ((mul_one _).le.trans fun _ => .inl)
    · next hbrace => exact (arrowBody_yields hbrace (hl.resolve_left hbrace)).mono fun _ => .inr
  exact plain (.named (.inr rfl) (h.append hbody))

/-- A member that begins with a type. -/
theorem typedMember (hw : atKind .ident c.rest = true) (h : Yields (many .attributeList).matches' none front) :
    typedMember.Completes ts owner? front c := by
  have htype : Yields (one .type).matches' none (typeReference.run c).1 := by
    rw [typeReference, run_whenAt (by simp [hw])]
    exact .leaf rfl rfl c
  have hmember := (h.append (typeReference_yields c)).append (explicitInterface_yields (typeReference.run c).2)
  refine after (choose ?_)
  split
  · exact member ((h.append (typeReference_yields c)).orNone _) fun _ => rfl
  · have hfront : Yields typedFront.matches' none
        (front ++ (typeReference.run c).1 ++ (explicitInterface.run (typeReference.run c).2).1) :=
      (h.append htype).append (explicitInterface_yields _)
    refine after (choose ?_)
    split
    · exact member hmember fun _ => rfl
    · have hname := Yields.name_run (explicitInterface.run (typeReference.run c).2).2
      have hnamed := (hfront.append_named hname).mono (mul_one _).le
      refine after (choose ?_)
      split
      · next hl => exact methodHeader (Bool.or_eq_true_iff.1 hl) hnamed
      · split
        · next hl => exact propertyHeader (Bool.or_eq_true_iff.1 hl) hnamed
        · exact member ((hmember.append_named hname).mono (mul_one _).le) fun _ => rfl

/-! ### All members -/

theorem wordHeader {t : Token} {rest : List Token} (hc : c.On ts) (hr : c.rest = t :: rest) (ht : t.kind = .ident)
    (h : Yields (many .attributeList).matches' none front) :
    (wordHeader owner? t.text rest).Completes ts owner? front c := by
  have hw : atKind .ident c.rest = true := by simp [hr, atKind, ht]
  have hmember : Yields NodeKind.member.headerGrammar.matches' none front := (h.orNone _).orNone _
  unfold Source.wordHeader
  split
  · exact namespaceHeader h
  · exact typeHeader rfl hc h
  · exact typeHeader rfl hc h
  · exact typeHeader rfl hc h
  · exact typeHeader rfl hc h
  · exact typeHeader rfl hc h
  · exact member hmember fun _ => rfl
  · exact member hmember fun _ => rfl
  · exact member hmember fun _ => rfl
  · exact member hmember fun _ => rfl
  · split
    · next hown =>
      simp only [Bool.and_eq_true, decide_eq_true_eq] at hown
      exact constructorHeader hc hr hown.1 h
    · exact typedMember hw h

theorem declarationHeader (hc : c.On ts) (h : Yields (many .attributeList).matches' none front) :
    (declarationHeader owner?).Completes ts owner? front c := by
  have hmember : Yields NodeKind.member.headerGrammar.matches' none front := (h.orNone _).orNone _
  refine choose ?_
  split
  · exact member hmember fun _ => rfl
  · next t rest hr =>
    split
    · next ht => exact wordHeader hc hr ht h
    · split
      · exact member hmember fun _ => rfl
      · exact member hmember fun _ => rfl

end Ending.Completes

/-- **The header of every member is as its kind says**, whatever the tokens are. -/
theorem memberHeader_conforms {ts : List Token} {c : Cursor} (owner? : Option String) (hc : c.On ts) :
    HeaderConforms ts owner? ((memberHeader owner?).run c).kind ((memberHeader owner?).run c).parts
      ((memberHeader owner?).run c).scope? := by
  have h : (memberHeader owner?).Completes ts owner? .none c := by
    refine .choose ?_
    split
    · have hattributes : Yields (many .attributeList).matches' none (attributeList.run c).1 :=
        (Yields.leaf rfl rfl c).mono le_kstar
      exact .plain (.unnamed (by decide) rfl ((hattributes.orNone _).orNone _))
    · exact .after (.declarationHeader (hc.reaches (memberFront.forward c)) (memberFront_yields c))
  exact h

/-! ## Members of a scope -/

/-- The node is a member of a scope with the name `owner?`, and as its kind says. -/
structure Belongs (ts : List Token) (owner? : Option String) (n : Node) : Prop where
  deep : n.All (Conforms ts)
  kind : n.kind ∈ memberKinds
  constructor : n.kind = .constructor → ∃ name, owner? = some name ∧ IsName ts n.name? name

theorem mem_anyOf {k : NodeKind} : ∀ {ks : List NodeKind}, k ∈ ks → [k] ∈ (anyOf ks).matches'
  | j :: ks, h => by
    rcases List.mem_cons.1 h with rfl | h
    · exact .inl rfl
    · exact .inr (mem_anyOf h)

theorem mem_star_anyOf {ks : List NodeKind} : ∀ {js : List NodeKind}, (∀ j ∈ js, j ∈ ks) →
    js ∈ (anyOf ks).star.matches'
  | [], _ => Language.nil_mem_kstar _
  | j :: js, h => by
    have hle : (anyOf ks).matches' ≤ (anyOf ks).matches'∗ := le_kstar
    have hj := hle (mem_anyOf (h j List.mem_cons_self))
    have hjs : js ∈ (anyOf ks).matches'∗ := mem_star_anyOf fun i hi => h i (List.mem_cons_of_mem j hi)
    have hmem := Language.append_mem_mul hj hjs
    rwa [kstar_mul_kstar] at hmem

theorem isPart_of_isNamed {k : NodeKind} (h : k.isNamed = true) : k.isPart = false := by
  cases k <;> first | rfl | cases h

theorem isNamed_of_hasConstructors {k : NodeKind} (h : k.hasConstructors = true) : k.isNamed = false := by
  cases k <;> first | rfl | cases h

/-- A part that follows the grammar conforms, since there is no member in it. -/
theorem conforms_of_isPart {ts : List Token} {n : Node} (h : n.All FollowsGrammar)
    (hp : n.All (·.kind.isPart = true)) : n.All (Conforms ts) := by
  induction h with
  | @intro n here below ih =>
    refine .intro ⟨here, fun hn => ?_, fun m hm hk => ?_⟩ fun m hm => ih m hm (hp.child hm)
    · have hpart := hp.here
      rw [isPart_of_isNamed hn] at hpart
      cases hpart
    · have hpart := (hp.child hm).here
      rw [hk] at hpart
      cases hpart

namespace HeaderConforms

variable {ts : List Token} {owner? : Option String} {kind : NodeKind} {p : Parts} {scope? : Option Scope}

theorem yields (h : HeaderConforms ts owner? kind p scope?) : ∃ n, Yields kind.headerGrammar.matches' n p := by
  cases h with
  | unnamed _ _ parts | named _ parts | constructor _ _ parts | namespaceUnit _ parts | type _ _ parts =>
    exact ⟨_, parts⟩

theorem isMember (h : HeaderConforms ts owner? kind p scope?) : kind ∈ memberKinds := by
  cases h with
  | unnamed isMember => exact isMember
  | named isNamed => rcases isNamed with rfl | rfl <;> decide
  | constructor | namespaceUnit => decide
  | type hasConstructors => cases kind <;> first | decide | cases hasConstructors

theorem isScope (h : HeaderConforms ts owner? kind p scope?) (hs : scope?.isSome = true) : kind.isScope = true := by
  cases h with
  | unnamed | named | constructor => cases hs
  | namespaceUnit => rfl
  | type hasConstructors => cases kind <;> first | rfl | cases hasConstructors

theorem name_isSome (h : HeaderConforms ts owner? kind p scope?) (hn : kind.isNamed = true) :
    p.name?.isSome = true := by
  cases h with
  | unnamed _ isNamed => rw [isNamed] at hn; cases hn
  | named _ parts | constructor _ _ parts => rw [parts.name]; rfl
  | namespaceUnit => cases hn
  | type hasConstructors => rw [isNamed_of_hasConstructors hasConstructors] at hn; cases hn

/-- A constructor bears the name of its scope. -/
theorem constructor_name (h : HeaderConforms ts owner? .constructor p scope?) :
    ∃ name, owner? = some name ∧ IsName ts p.name? name := by
  cases h with
  | unnamed _ isNamed => cases isNamed
  | named isNamed => rcases isNamed with h | h <;> cases h
  | constructor token owner parts => exact ⟨_, owner, _, _, parts.name, token, rfl⟩
  | type hasConstructors => cases hasConstructors

/-- A scope with a name is that of a type of this name. -/
theorem owner_name (h : HeaderConforms ts owner? kind p scope?) {name : String}
    (hs : scope?.bind Scope.owner? = some name) : kind.hasConstructors = true ∧ IsName ts p.name? name := by
  cases h with
  | unnamed | named | constructor => cases hs
  | namespaceUnit owner =>
    rw [Option.bind_some, owner] at hs
    cases hs
  | type hasConstructors owner parts => exact ⟨hasConstructors, parts.name ▸ owner name hs⟩

/-- What is read of a member, with the members of its own scope, belongs to the scope it is read in. -/
theorem belongs (h : HeaderConforms ts owner? kind p scope?)
    (hparts : ∀ m ∈ p.children, m.All (·.kind.isPart = true)) (inner : List Node)
    (hinner : ∀ m ∈ inner, Belongs ts (scope?.bind Scope.owner?) m) (hnone : scope? = none → inner = [])
    (start stop : Nat) : Belongs ts owner? ((p ++ ⟨[], none, inner⟩).node kind start stop) := by
  obtain ⟨n, hyields⟩ := h.yields
  have hname : ((p ++ ⟨[], none, inner⟩ : Parts).node kind start stop).name? = p.name? := Option.or_none
  have hconforms : Conforms ts ((p ++ ⟨[], none, inner⟩).node kind start stop) := by
    refine ⟨?_, fun hn => ?_, fun m hm hk => ?_⟩
    · show kindsOf (p.children ++ inner) ∈ kind.grammar.matches'
      rw [kindsOf, List.map_append]
      refine Language.append_mem_mul hyields.kinds ?_
      cases scope? with
      | none =>
        rw [hnone rfl]
        split
        · exact Language.nil_mem_kstar _
        · exact Language.nil_mem_one
      | some s =>
        rw [if_pos (by simp [h.isScope rfl])]
        exact mem_star_anyOf (List.forall_mem_map.2 fun m hm => (hinner m hm).kind)
    · rw [hname]
      exact h.name_isSome hn
    · rcases List.mem_append.1 hm with hm | hm
      · have hpart := (hparts m hm).here
        rw [hk] at hpart
        cases hpart
      · obtain ⟨name, howner, hm⟩ := (hinner m hm).constructor hk
        obtain ⟨hkind, hn⟩ := h.owner_name howner
        exact ⟨hkind, name, by rwa [hname], hm⟩
  refine ⟨.intro hconforms fun m hm => ?_, h.isMember, fun hk => ?_⟩
  · rcases List.mem_append.1 hm with hm | hm
    · exact conforms_of_isPart (hyields.deep m hm) (hparts m hm)
    · exact (hinner m hm).deep
  · obtain rfl : kind = .constructor := hk
    obtain ⟨name, howner, hn⟩ := h.constructor_name
    exact ⟨name, howner, by rwa [hname]⟩

end HeaderConforms

/-- **All members of a scope belong to it**: what is read in a scope of its own belongs to that scope, and a header
says which it is. -/
theorem members_belong {ts : List Token} (owner? : Option String) (braced : Bool) (c : Cursor) (hc : c.On ts) :
    ∀ n ∈ (members owner? braced c).1, Belongs ts owner? n := by
  refine (members_readsScope owner? braced c).forall_nodes hc fun owner? c h inner stop hc hh _ hplain _ hinner => ?_
  subst hh
  exact (memberHeader_conforms owner? hc).belongs (memberHeader_parts owner? c) inner hinner
    (fun hnone => (hplain hnone).1) c.pos stop

/-! ## Trees -/

/-- The nodes of a tree are as their kinds say: what their children are and in which order, which of them have a
name, and that a constructor stands in a type of its name. -/
structure Tree.IsGrammatical (tree : Tree) : Prop where
  children : ∀ p ∈ tree.places, p.node.children.map (·.kind) ∈ p.node.kind.grammar.matches'
  named : ∀ p ∈ tree.places, p.node.kind.isNamed = true →
    ∃ i t, p.node.name? = some i ∧ tree.tokens[i]? = some t ∧ t.kind = .ident
  constructors : ∀ p ∈ tree.places, p.node.kind = .constructor → ∃ i owner name, p.parent? = some (i, owner) ∧
    owner.kind.hasConstructors = true ∧ tree.name? owner = some name ∧ tree.name? p.node = some name

theorem Tree.ofTokens_conforms (ts : List Token) : (Tree.ofTokens ts).root.All (Conforms ts) := by
  have hmembers := members_belong none false ⟨0, ts⟩ (.start ts)
  have hkinds : kindsOf (members none false ⟨0, ts⟩).1 ∈ (anyOf memberKinds).star.matches' :=
    mem_star_anyOf (List.forall_mem_map.2 fun m hm => (hmembers m hm).kind)
  refine .intro ⟨?_, fun hn => ?_, fun m hm hk => ?_⟩ fun m hm => (hmembers m hm).deep
  · show kindsOf (members none false ⟨0, ts⟩).1 ∈ 1 * (anyOf memberKinds).star.matches'
    rwa [one_mul]
  · cases hn
  · obtain ⟨name, howner, -⟩ := (hmembers m hm).constructor hk
    cases howner

theorem Tree.name?_of_isName {tree : Tree} {n : Node} {name : String} (h : IsName tree.tokens n.name? name) :
    tree.name? n = some name := by
  obtain ⟨i, t, hi, ht, rfl⟩ := h
  rw [Tree.name?, hi, Option.map_some, Tree.textAt, ht, Option.elim_some]

/-- **The tree of every source follows the grammar.** -/
theorem ofSource_isGrammatical (source : String) : (Tree.ofSource source).IsGrammatical := by
  have hconforms : ∀ p ∈ (Tree.ofSource source).places, Conforms (Tree.ofSource source).tokens p.node :=
    fun p hp => ((Tree.ofTokens_conforms _).placesFrom hp).here
  refine ⟨fun p hp => (hconforms p hp).children, fun p hp hn => ?_, fun p hp hk => ?_⟩
  · obtain ⟨i, hi⟩ := Option.isSome_iff_exists.1 ((hconforms p hp).named hn)
    obtain ⟨t, ht, hident⟩ := (((Tree.ofTokens_framed _).placesFrom hp).here.parts.name i hi).isIdent
    exact ⟨i, t, hi, ht, hident⟩
  · have hroot : p.number ≠ 0 := fun h => by
      have hmem : (⟨0, (Tree.ofSource source).root, []⟩ : Place) ∈ (Tree.ofSource source).places := by
        rw [Tree.places, Node.places, Node.placesFrom_eq]
        exact List.mem_cons_self
      rw [eq_of_number_eq hp hmem h] at hk
      cases hk
    obtain ⟨q, hq, hparent, hbelow⟩ := exists_parent hp hroot
    have hmem : p.node ∈ q.node.children := by
      rw [← q.nodes_children]
      exact List.mem_map_of_mem (Place.mem_children_iff.2 ⟨hbelow, congrArg _ hparent⟩)
    obtain ⟨hkind, name, howner, hname⟩ := (hconforms q hq).constructors p.node hmem hk
    exact ⟨q.number, q.node, name, hparent, hkind, Tree.name?_of_isName howner, Tree.name?_of_isName hname⟩

end DocPages.Source
