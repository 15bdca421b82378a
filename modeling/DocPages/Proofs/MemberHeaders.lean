/-
The headers of members by kind. What `memberHeader` reads of a type, a
constructor or a method is one fixed sequence of steps (`MemberCase`,
`memberCase`), so a proof about these kinds need not follow the words and
marks that tell them apart. Everything in a header is a part (`partsOnly`), and the
nodes of a unit are those of its headers and no others (`members_all`).
-/
import DocPages.Proofs.Shape

namespace DocPages.Source

/-! ## Kinds of members -/

/-- The kinds of members that pages have entries for, and the types that do not. -/
def NodeKind.isDeclared (k : NodeKind) : Bool :=
  k.isTypeDeclaration || k = .constructor || k = .method

theorem isPart_of_isDeclared {k : NodeKind} (h : k.isDeclared = true) : k.isPart = false := by
  cases k <;> first | rfl | cases h

/-- What is read of a member before the word that tells its kind. -/
def memberFront : Step :=
  attributes ++ modifiers

/-- What is read of a method before its name. -/
def methodFront : Step :=
  memberFront ++ typeReference ++ explicitInterface

/-- What is read of a method. -/
def methodParts : Step :=
  methodFront ++ .name ++
    (.whenAt (atKind .lt) typeParameterList ++ .whenAt (atKind .lparen) parameterList ++ constraints ++ body)

/-- What is read of a constructor. -/
def constructorParts : Step :=
  memberFront ++
    (.name ++ parameterList ++ .whenAt (atKind .colon) (.leaf .constructorInitializer initializerReach) ++ body)

/-- The ways in which a member that begins at `c` is read. -/
inductive MemberCase (c : Cursor) : Header → Prop where
  | type {kind : NodeKind} (hk : kind.isTypeDeclaration = true)
      (hw : atKind .ident (memberFront.run c).2.rest = true) :
      MemberCase c ((Ending.after memberFront (typeHeader kind)).run c)
  | constructor (hn : atKind .ident (memberFront.run c).2.rest = true)
      (hp : atKind .lparen ((memberFront ++ .name).run c).2.rest = true) :
      MemberCase c ((Ending.plain .constructor constructorParts).run c)
  | method (hn : atKind .ident (methodFront.run c).2.rest = true)
      (hw : atKind .ident (memberFront.run c).2.rest = true)
      (hl : atKind .lt ((methodFront ++ .name).run c).2.rest = true ∨
        atKind .lparen ((methodFront ++ .name).run c).2.rest = true) :
      MemberCase c ((Ending.plain .method methodParts).run c)
  | other {h : Header} (hk : h.kind.isDeclared = false) : MemberCase c h

/-! ## Reading by cases -/

/-- A step in front of another that an ending begins with. -/
theorem Ending.after_after (s t : Step) (e : Ending) (c : Cursor) :
    (Ending.after s (.after t e)).run c = (Ending.after (s ++ t) e).run c := by
  have hassoc := Parts.append_assoc (s.run c).1 (t.run (s.run c).2).1 (e.run (t.run (s.run c).2).2).parts
  exact congrArg (fun parts => { e.run (t.run (s.run c).2).2 with parts := parts }) hassoc.symm

/-- The ending makes no member that is declared. -/
def Ending.IsUndeclared (e : Ending) : Prop :=
  ∀ c : Cursor, (e.run c).kind.isDeclared = false

namespace Ending.IsUndeclared

theorem plain {kind : NodeKind} {s : Step} (h : kind.isDeclared = false) :
    (Ending.plain kind s).IsUndeclared :=
  fun _ => h

theorem opening {kind : NodeKind} {scope : Scope} (h : kind.isDeclared = false) :
    (Ending.opening kind scope).IsUndeclared :=
  fun _ => h

theorem choose {f : List Token → Ending} (h : ∀ ts, (f ts).IsUndeclared) : (Ending.choose f).IsUndeclared :=
  fun c => h c.rest c

theorem after {s : Step} {e : Ending} (h : e.IsUndeclared) : (Ending.after s e).IsUndeclared :=
  fun c => h (s.run c).2

theorem otherMember : otherMember.IsUndeclared :=
  plain rfl

theorem namespaceHeader : namespaceHeader.IsUndeclared := by
  refine after (choose fun ts => ?_)
  split
  · exact opening rfl
  · split
    · exact opening rfl
    · exact plain rfl

theorem propertyHeader : propertyHeader.IsUndeclared :=
  plain rfl

end Ending.IsUndeclared

namespace MemberCase

variable {c : Cursor} {s t : Step} {e : Ending}

theorem undeclared (h : e.IsUndeclared) : MemberCase c (e.run c) :=
  .other (h c)

theorem choose {f : List Token → Ending} (h : MemberCase c ((Ending.after s (f (s.run c).2.rest)).run c)) :
    MemberCase c ((Ending.after s (.choose f)).run c) :=
  h

theorem after (h : MemberCase c ((Ending.after (s ++ t) e).run c)) :
    MemberCase c ((Ending.after s (.after t e)).run c) := by
  rwa [Ending.after_after]

theorem atKind_of_atMemberName {ts : List Token} (h : ¬ (!atMemberName ts) = true) :
    atKind .ident ts = true := by
  simp only [Bool.not_eq_true', Bool.not_eq_false, atMemberName, Bool.and_eq_true] at h
  exact h.1.1

theorem typedMember (hw : atKind .ident (memberFront.run c).2.rest = true) :
    MemberCase c ((Ending.after memberFront typedMember).run c) := by
  refine after (choose ?_)
  split
  · exact undeclared (.after .otherMember)
  · refine after (choose ?_)
    split
    · exact undeclared (.after .otherMember)
    · next hn =>
      refine after (choose ?_)
      split
      · next hl => exact .method (atKind_of_atMemberName hn) hw (Bool.or_eq_true_iff.1 hl)
      · split
        · exact undeclared (.after .propertyHeader)
        · exact undeclared (.after .otherMember)

theorem wordHeader (owner? : Option String) {t : Token} {rest : List Token}
    (hr : (memberFront.run c).2.rest = t :: rest) (ht : t.kind = .ident) :
    MemberCase c ((Ending.after memberFront (wordHeader owner? t.text rest)).run c) := by
  have hw : atKind .ident (memberFront.run c).2.rest = true := by simp [hr, atKind, ht]
  unfold Source.wordHeader
  split
  · exact undeclared (.after .namespaceHeader)
  · exact .type rfl hw
  · exact .type rfl hw
  · exact .type rfl hw
  · exact .type rfl hw
  · exact .type rfl hw
  · exact undeclared (.after (.plain rfl))
  · exact undeclared (.after .otherMember)
  · exact undeclared (.after .otherMember)
  · exact undeclared (.after .otherMember)
  · split
    · next hc =>
      simp only [Bool.and_eq_true] at hc
      have hname : ((memberFront ++ .name).run c).2.rest = rest := Cursor.rest_advance_one hr
      exact .constructor hw (hname ▸ hc.2)
    · exact typedMember hw

theorem declarationHeader (owner? : Option String) :
    MemberCase c ((Ending.after memberFront (declarationHeader owner?)).run c) := by
  refine choose ?_
  split
  · exact undeclared (.after (.plain rfl))
  · next t rest hr =>
    split
    · next ht => exact wordHeader owner? hr ht
    · split
      · exact undeclared (.after .otherMember)
      · exact undeclared (.after (.plain rfl))

end MemberCase

/-- **Every member is read in one of these ways.** -/
theorem memberCase (owner? : Option String) (c : Cursor) : MemberCase c ((memberHeader owner?).run c) := by
  show MemberCase c ((if atStandingAttribute c.rest then Ending.plain .member attributeList
    else .after memberFront (declarationHeader owner?)).run c)
  split
  · exact .undeclared (.plain rfl)
  · exact .declarationHeader owner?

/-! ## Members of a unit -/

/-- Headers are made of parts. -/
def partsOnly : Traversal where
  holds _ p _ := ∀ n ∈ p.children, n.All (·.kind.isPart = true)
  idle _ := by simp [Parts.none]
  append h h' n hn := (List.mem_append.1 hn).elim (h n) (h' n)
  moves _ := by simp [Parts.none]
  enclose hk h n hn := by
    cases List.mem_singleton.1 hn
    exact .intro hk h
  name _ := by simp
  modifier _ := by simp

theorem memberHeader_parts (owner? : Option String) (c : Cursor) :
    ∀ n ∈ ((memberHeader owner?).run c).parts.children, n.All (·.kind.isPart = true) := by
  have h := partsOnly.memberHeader owner? c
  unfold Ending.KeepsAt at h
  split at h
  · exact h
  · obtain ⟨d, hd, -, -⟩ := h
    exact hd

/-- The node is a member of some scope: what `memberHeader` read at a cursor, with the nodes `inner` of its own
scope if it has one. -/
inductive IsMember (ts : List Token) : Node → Prop where
  | intro {owner? : Option String} {c : Cursor} {h : Header} {inner : List Node} {stop : Nat} (on : c.On ts)
      (read : (memberHeader owner?).run c = h) (le : h.next.pos ≤ stop)
      (plain : h.scope? = none → inner = [] ∧ stop = h.next.pos)
      (inside : ∀ m ∈ inner, h.next.pos ≤ m.start) :
      IsMember ts ((h.parts ++ ⟨[], none, inner⟩).node h.kind c.pos stop)

/-- The node is part of a header or a member. -/
def IsPartOrMember (ts : List Token) (n : Node) : Prop :=
  n.kind.isPart = true ∨ IsMember ts n

theorem Node.All.imp {P Q : Node → Prop} (hpq : ∀ n, P n → Q n) {n : Node} (h : n.All P) : n.All Q := by
  induction h with
  | intro here _ ih => exact .intro (hpq _ here) ih

/-- **Nodes of a scope are parts of headers or members.** -/
theorem members_all {ts : List Token} (owner? : Option String) (braced : Bool) (c : Cursor) (hc : c.On ts) :
    ∀ n ∈ (members owner? braced c).1, n.All (IsPartOrMember ts) := by
  refine (members_readsScope owner? braced c).forall_nodes (P := fun _ n => n.All (IsPartOrMember ts)) hc
    fun owner? c h inner stop hc hh hle hplain hinside hinner => ?_
  refine .intro (.inr (.intro hc hh hle hplain hinside)) fun m hm => ?_
  rcases List.mem_append.1 hm with hm | hm
  · exact (memberHeader_parts owner? c m (hh ▸ hm)).imp fun _ => .inl
  · exact hinner m hm

/-- The nodes of a unit are the unit itself, parts of headers and members. -/
theorem Tree.node_cases {ts : List Token} {p : Place} (hp : p ∈ (Tree.ofTokens ts).places) :
    p.node.kind = .compilationUnit ∨ IsPartOrMember ts p.node := by
  have hall : (Tree.ofTokens ts).root.All fun n => n.kind = .compilationUnit ∨ IsPartOrMember ts n :=
    .intro (.inl rfl) fun m hm => (members_all none false ⟨0, ts⟩ (.start ts) m hm).imp fun _ => .inr
  exact (hall.placesFrom hp).here

theorem Tree.isMember_of_isDeclared {ts : List Token} {p : Place} (hp : p ∈ (Tree.ofTokens ts).places)
    (hk : p.node.kind.isDeclared = true) : IsMember ts p.node := by
  rcases Tree.node_cases hp with h | h | h
  · rw [h] at hk
    cases hk
  · rw [isPart_of_isDeclared hk] at h
    cases h
  · exact h

end DocPages.Source
