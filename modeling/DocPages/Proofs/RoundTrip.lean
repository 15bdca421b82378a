/-
Reading is the inverse of printing: whatever declarations a unit of the fragment
has, a source whose tokens they are printed as is read as the tree that was
printed (`ofSource_printed`).

In front of what may come after it, each declaration is read as a node of its
own, and members go on behind it (`MembersRead`); this is by induction over the
declarations, since the members of a type are read before its closing brace is.
-/
import DocPages.Proofs.PrintedHeaders
import DocPages.Proofs.Reading
import DocPages.Proofs.Trivia

namespace DocPages.Source

/-! ## Members -/

/-- In front of `rest`, the members of a scope begin with the nodes that are printed and go on after them. -/
def MembersRead (owner? : Option String) (braced : Bool) (p : Printed) (rest : List Token) : Prop :=
  ∀ i, members owner? braced ⟨i, p.tokens ++ rest⟩ =
    ((p.parts i).children ++ (members owner? braced ⟨i + p.tokens.length, rest⟩).1,
      (members owner? braced ⟨i + p.tokens.length, rest⟩).2)

/-- Only nodes are printed, neither names nor modifiers of a node around them. -/
def Printed.IsNodes (p : Printed) : Prop :=
  ∀ i, p.parts i = ⟨[], none, (p.parts i).children⟩

theorem Printed.IsNodes.append {p q : Printed} (hp : p.IsNodes) (hq : q.IsNodes) : (p ++ q).IsNodes := by
  intro i
  rw [Printed.parts_append, hp i, hq]
  rfl

section

variable {owner? : Option String} {braced : Bool} {p q : Printed} {rest : List Token}

theorem MembersRead.nothing : MembersRead owner? braced .nothing rest :=
  fun _ => rfl

theorem MembersRead.append (hp : MembersRead owner? braced p (q.tokens ++ rest))
    (hq : MembersRead owner? braced q rest) :
    MembersRead owner? braced (p ++ q) rest := by
  intro i
  rw [Printed.tokens_append, List.append_assoc, hp i, hq (i + p.tokens.length), Printed.parts_append,
    Parts.children_append, List.append_assoc, List.length_append, ← Nat.add_assoc]

/-- Where a word is next that begins no import, a member is. -/
theorem itemAt_word {w : String} {c : Cursor} (h : atImport c.rest = false) :
    itemAt owner? braced c (.word w) = .member ((memberHeader owner?).run c) := by
  have hk : (Token.word w).kind = .ident := rfl
  simp [itemAt, hk, h]

theorem Cursor.past_append {i j : Nat} {ts : List Token} (h : ts ≠ []) :
    (⟨i, ts ++ rest⟩ : Cursor).past ⟨j, rest⟩ = ⟨j, rest⟩ := by
  have := List.length_pos_iff.2 h
  refine Cursor.past_of_shorter ?_
  show rest.length < (ts ++ rest).length
  rw [List.length_append]
  omega

/-- What is printed begins with a word, and not like an import. -/
structure Printed.IsDeclaration (p : Printed) : Prop where
  begins : ∃ w ts, p.tokens = .word w :: ts
  noImport : ∀ ts, atImport (p.tokens ++ ts) = false

theorem isDeclaration_of_word {w : String} {ts : List Token} (ms : List ModifierWord)
    (hq : q.tokens = .word w :: ts) (hw : w ∉ ["using", "global", "extern", "alias"]) :
    (printedModifiers ms ++ q).IsDeclaration where
  begins := by
    cases ms with
    | nil => exact ⟨w, ts, hq⟩
    | cons m ms => exact ⟨m.text, _, rfl⟩
  noImport us := by
    rw [Printed.tokens_append, List.append_assoc, hq, List.cons_append]
    exact atImport_eq_false ms hw

/-- A declaration without members is a member if its header is read. -/
theorem MembersRead.plain {kind : NodeKind} (hd : p.IsDeclaration)
    (h : (memberHeader owner?).Reads kind p none rest) : MembersRead owner? braced (.node kind p) rest := by
  intro i
  obtain ⟨w, ts, hp⟩ := hd.begins
  have hr : (⟨i, p.tokens ++ rest⟩ : Cursor).rest = .word w :: (ts ++ rest) := by
    rw [hp]
    rfl
  have hi : itemAt owner? braced ⟨i, p.tokens ++ rest⟩ (.word w) = _ := itemAt_word (hd.noImport rest)
  rw [h i] at hi
  show members owner? braced ⟨i, p.tokens ++ rest⟩ = _
  rw [members_cons hr, hi]
  simp only
  rw [Cursor.past_append (by simp [hp])]
  rfl

theorem members_rbrace (i : Nat) :
    members owner? true ⟨i, .mark .rbrace :: rest⟩ = ([], ⟨i, .mark .rbrace :: rest⟩) := by
  rw [members_cons rfl]
  rfl

/-- Members in braces are read up to the closing one. -/
theorem MembersRead.inside (h : MembersRead owner? true q (.mark .rbrace :: rest)) (i : Nat) :
    members owner? true ⟨i, q.tokens ++ .mark .rbrace :: rest⟩ =
      ((q.parts i).children, ⟨i + q.tokens.length, .mark .rbrace :: rest⟩) := by
  rw [h i, members_rbrace, List.append_nil]

/-- A declaration with members is a member if its header and its members are read. -/
theorem MembersRead.scope {kind : NodeKind} {s : Scope} (hd : p.IsDeclaration) (hs : s.isBraced = true)
    (h : (memberHeader owner?).Reads kind p (some s) (q.tokens ++ .mark .rbrace :: rest)) (hn : q.IsNodes)
    (hq : MembersRead s.owner? true q (.mark .rbrace :: rest))
    (hclose : s.close.Reads (.mark .rbrace) rest) :
    MembersRead owner? braced (.node kind (p ++ (q ++ .mark .rbrace))) rest := by
  intro i
  obtain ⟨w, ts, hp⟩ := hd.begins
  have htokens : (p ++ (q ++ .mark .rbrace)).tokens ++ rest =
      p.tokens ++ (q.tokens ++ .mark .rbrace :: rest) := by simp
  have hlength : (p ++ (q ++ .mark .rbrace)).tokens.length = p.tokens.length + q.tokens.length + 1 := by
    simp [Nat.add_assoc]
  have hparts : (p ++ (q ++ .mark .rbrace)).parts i = p.parts i ++ q.parts (i + p.tokens.length) := by
    rw [Printed.parts_append, Printed.parts_append]
    exact congrArg _ (Parts.append_none _)
  have hr : (⟨i, (p ++ (q ++ .mark .rbrace)).tokens ++ rest⟩ : Cursor).rest =
      .word w :: (ts ++ (q.tokens ++ .mark .rbrace :: rest)) := by
    rw [htokens, hp]
    rfl
  have hi : itemAt owner? braced ⟨i, (p ++ (q ++ .mark .rbrace)).tokens ++ rest⟩ (.word w) =
      .member ⟨kind, p.parts i, ⟨i + p.tokens.length, q.tokens ++ .mark .rbrace :: rest⟩, some s⟩ := by
    rw [htokens, itemAt_word (hd.noImport _), h i]
  have hclosed : s.close.run ⟨i + p.tokens.length + q.tokens.length, .mark .rbrace :: rest⟩ =
      (Parts.none, ⟨i + p.tokens.length + q.tokens.length + 1, rest⟩) := hclose _
  have hne : (p ++ (q ++ .mark .rbrace)).tokens ≠ [] := by simp [hp]
  show members owner? braced ⟨i, (p ++ (q ++ .mark .rbrace)).tokens ++ rest⟩ = _
  rw [members_cons hr, hi]
  simp only [hs, hq.inside, hclosed, Cursor.past_append hne, ← hn (i + p.tokens.length), Parts.append_none,
    Printed.node, hparts, hlength, ← Nat.add_assoc]
  rfl

end

/-! ## Declarations -/

/-- What comes after a declaration does not go on with it. -/
structure StartsOver (rest : List Token) : Prop where
  noSemi : atKind .semi rest = false
  noEq : atKind .eq rest = false

section

variable {owner? : Option String} {braced : Bool} {kind : NodeKind} {p q : Printed} {rest : List Token}

theorem StartsOver.rbrace : StartsOver (.mark .rbrace :: rest) where
  noSemi := rfl
  noEq := rfl

theorem Printed.IsDeclaration.startsOver (h : p.IsDeclaration) : StartsOver (p.tokens ++ rest) := by
  obtain ⟨w, ts, hp⟩ := h.begins
  rw [hp]
  exact ⟨rfl, rfl⟩

theorem Printed.isNodes_node : (Printed.node kind p).IsNodes :=
  fun _ => rfl

theorem isDeclaration_name (ms : List ModifierWord) (x : Identifier) {ts : List Token}
    (hq : q.tokens = .word x.text :: ts) : (printedModifiers ms ++ q).IsDeclaration :=
  isDeclaration_of_word ms hq fun h => x.ordinary ((by decide :
    ∀ w ∈ ["using", "global", "extern", "alias"], w ∈ testedWords) _ h)

theorem isDeclaration_typed (ms : List ModifierWord) {type : List Token}
    (ht : ∃ (x : Identifier) (ts : List Token), type = .word x.text :: ts) :
    (printedModifiers ms ++ (.leaf .type type ++ q)).IsDeclaration := by
  obtain ⟨x, ts, rfl⟩ := ht
  exact isDeclaration_name ms x (q := .leaf .type (.word x.text :: ts) ++ q) rfl

theorem isDeclaration_type (ms : List ModifierWord) (w : TypeWord) :
    (printedModifiers ms ++ (.plain [.word w.text] ++ q)).IsDeclaration :=
  isDeclaration_of_word ms rfl (by cases w <;> decide)

theorem Printed.IsDeclaration.node (h : p.IsDeclaration) : (Printed.node kind p).IsDeclaration :=
  ⟨h.begins, h.noImport⟩

theorem Scope.block_close : Scope.block.close.Reads (.mark .rbrace) rest :=
  .eat .rbrace

theorem Scope.type_close (hr : StartsOver rest) : (Scope.type owner?).close.Reads (.mark .rbrace) rest :=
  .append_idle (.eat .rbrace) (.whenAt_nothing hr.noSemi)

/-! ## Types and their members -/

/-- Members that begin with a type. -/
theorem MembersRead.typed (ms : List ModifierWord) {type : List Token} (x : Identifier)
    (ht : IsTypeBefore (.word x.text :: (q.tokens ++ rest)) type)
    (h : typedMember.Reads kind (.leaf .type type ++ (.name x ++ q)) none rest) :
    MembersRead owner? braced
      (.node kind (printedModifiers ms ++ (.leaf .type type ++ (.name x ++ q)))) rest :=
  .plain (isDeclaration_typed ms ht.begins) (typedHeader_reads ms x ht h)

theorem MembersRead.constructor (ms : List ModifierWord) (x : Identifier) (ps : List ParameterDeclaration)
    (body : NestedTokens) : MembersRead (some x.text) braced
      (.node .constructor (printedModifiers ms ++
        (.name x ++ (printedParameters ps ++ .leaf .block body.braced)))) rest := by
  refine .plain (isDeclaration_name ms x rfl) (memberHeader_reads ms rfl (atModifier_name x _) ?_)
  rw [wordHeader_name, if_pos (by simp [printedParameters, atKind, Token.mark])]
  exact constructor_reads x ps body

theorem MembersRead.type (ms : List ModifierWord) (w : TypeWord) (x : Identifier)
    (typeParameters? : Option (List Identifier)) (hr : StartsOver rest) (hn : q.IsNodes)
    (hq : MembersRead (some x.text) true q (.mark .rbrace :: rest)) : MembersRead owner? braced
      (.node w.kind (printedModifiers ms ++ (.plain [.word w.text] ++ (.name x ++
        (printedTypeParameters typeParameters? ++ .mark .lbrace))) ++ (q ++ .mark .rbrace))) rest := by
  refine .scope (s := .type (some x.text)) (isDeclaration_type ms w) rfl
    (memberHeader_reads ms rfl ?_ ?_) hn hq (Scope.type_close hr)
  · cases w <;> rfl
  · have hword : ∀ ts, wordHeader owner? w.text ts = typeHeader w.kind := fun ts => by cases w <;> rfl
    rw [hword]
    exact typeHeader_reads w x typeParameters?

theorem TypeDeclaration.isDeclaration (t : TypeDeclaration) : t.printed.IsDeclaration := by
  obtain ⟨ms, w, x, typeParameters?, members⟩ := t
  simp only [TypeDeclaration.printed, Printed.append_assoc]
  exact (isDeclaration_type ms w).node

theorem MemberDeclaration.isDeclaration (owner : Identifier) (m : MemberDeclaration) :
    (m.printed owner).IsDeclaration := by
  cases m with
  | type t =>
    rw [MemberDeclaration.printed]
    exact t.isDeclaration
  | constructor ms =>
    simp only [MemberDeclaration.printed, Printed.append_assoc]
    exact (isDeclaration_name ms owner rfl).node
  | method | property | field =>
    simp only [MemberDeclaration.printed, Printed.append_assoc]
    exact (isDeclaration_typed _ (TypeRef.tokens_eq_cons _)).node

theorem TypeDeclaration.isNodes (t : TypeDeclaration) : t.printed.IsNodes := by
  cases t
  rw [TypeDeclaration.printed]
  exact Printed.isNodes_node

theorem MemberDeclaration.isNodes (owner : Identifier) (m : MemberDeclaration) :
    (m.printed owner).IsNodes := by
  cases m with
  | type t =>
    rw [MemberDeclaration.printed]
    exact t.isNodes
  | method | constructor | property | field =>
    rw [MemberDeclaration.printed]
    exact Printed.isNodes_node

theorem printedMembers_isNodes (owner : Identifier) (ms : List MemberDeclaration) :
    (printedMembers owner ms).IsNodes := by
  induction ms with
  | nil => exact fun _ => rfl
  | cons m ms ih =>
    rw [printedMembers]
    exact (m.isNodes owner).append ih

/-- After a member there is another one or the end of its type. -/
theorem printedMembers_startsOver (owner : Identifier) (ms : List MemberDeclaration) :
    StartsOver ((printedMembers owner ms).tokens ++ .mark .rbrace :: rest) := by
  cases ms with
  | nil => exact .rbrace
  | cons m ms =>
    rw [printedMembers, Printed.tokens_append, List.append_assoc]
    exact (m.isDeclaration owner).startsOver

end

mutual

theorem TypeDeclaration.read {owner? : Option String} {braced : Bool} {rest : List Token}
    (hr : StartsOver rest) :
    ∀ t : TypeDeclaration, MembersRead owner? braced t.printed rest
  | ⟨ms, w, x, typeParameters?, members⟩ => by
    have h : MembersRead owner? braced _ rest :=
      .type ms w x typeParameters? hr (printedMembers_isNodes x members) (printedMembers_read x members)
    simp only [TypeDeclaration.printed, Printed.append_assoc] at h ⊢
    exact h

theorem MemberDeclaration.read (owner : Identifier) {rest : List Token} (hr : StartsOver rest) :
    ∀ m : MemberDeclaration, MembersRead (some owner.text) true (m.printed owner) rest
  | .type t => by
    rw [MemberDeclaration.printed]
    exact t.read hr
  | .method ms t x typeParameters? ps b => by
    simp only [MemberDeclaration.printed, Printed.append_assoc]
    exact .typed ms x (t.isTypeBefore rfl) (method_reads x typeParameters? ps b (t.isTypeBefore rfl))
  | .constructor ms ps b => by
    simp only [MemberDeclaration.printed, Printed.append_assoc]
    exact .constructor ms owner ps b
  | .property ms t x accessors => by
    simp only [MemberDeclaration.printed, Printed.append_assoc]
    have hinitial : initialReach ([] ++ rest) = ([] : List Token).length := if_neg (by simp [hr.noEq])
    have h := property_reads x accessors (t.isTypeBefore rfl) hinitial
    rw [show Printed.plain [] = .nothing from rfl, Printed.append_nothing] at h
    exact .typed ms x (t.isTypeBefore rfl) h
  | .field ms t x => by
    simp only [MemberDeclaration.printed, Printed.append_assoc]
    exact .typed ms x (t.isTypeBefore rfl) (field_reads t x)

theorem printedMembers_read (owner : Identifier) {rest : List Token} :
    ∀ ms : List MemberDeclaration,
      MembersRead (some owner.text) true (printedMembers owner ms) (.mark .rbrace :: rest)
  | [] => by
    rw [printedMembers]
    exact .nothing
  | m :: ms => by
    rw [printedMembers]
    exact .append (m.read owner (printedMembers_startsOver owner ms)) (printedMembers_read owner ms)

end

/-! ## Units -/

namespace NamespaceDeclaration

variable {rest : List Token}

theorem dottedReach_nameTokens (n : NamespaceDeclaration) :
    dottedReach (n.nameTokens ++ .mark .lbrace :: rest) = n.nameTokens.length := by
  obtain ⟨x, dotted, types⟩ := n
  simp only [nameTokens]
  induction dotted generalizing x with
  | nil => rfl
  | cons y dotted ih =>
    have hdot : ∀ ts, dottedReach (.word x.text :: .mark .dot :: ts) = 2 + dottedReach ts := fun ts => rfl
    simp only [List.flatMap_cons, List.cons_append, List.nil_append, hdot, List.length_cons] at ih ⊢
    rw [ih]
    omega

/-- Types in a namespace, in front of its closing brace. -/
theorem types_read (ts : List TypeDeclaration) :
    MembersRead none true (.concat (ts.map (·.printed))) (.mark .rbrace :: rest) ∧
      StartsOver ((Printed.concat (ts.map (·.printed))).tokens ++ .mark .rbrace :: rest) := by
  induction ts with
  | nil => exact ⟨.nothing, .rbrace⟩
  | cons t ts ih =>
    obtain ⟨ih, hr⟩ := ih
    refine ⟨.append (t.read hr) ih, ?_⟩
    show StartsOver ((t.printed ++ _).tokens ++ .mark .rbrace :: rest)
    rw [Printed.tokens_append, List.append_assoc]
    exact t.isDeclaration.startsOver

theorem header_reads (n : NamespaceDeclaration) :
    namespaceHeader.Reads .namespaceUnit
      (.plain [.word "namespace"] ++ .leaf .name n.nameTokens ++ .mark .lbrace) (some .block) rest := by
  refine .after (.append (.bump _) (.leaf n.dottedReach_nameTokens)) (.choose ?_)
  exact .opening .lbrace .block

theorem isDeclaration (n : NamespaceDeclaration) (q : Printed) :
    (.plain [.word "namespace"] ++ .leaf .name n.nameTokens ++ q).IsDeclaration :=
  isDeclaration_of_word (q := .plain [.word "namespace"] ++ .leaf .name n.nameTokens ++ q) [] rfl
    (by decide)

theorem read (n : NamespaceDeclaration) : MembersRead none false n.printed rest := by
  have hheader : ∀ ts, (memberHeader none).Reads .namespaceUnit
      (.plain [.word "namespace"] ++ .leaf .name n.nameTokens ++ .mark .lbrace) (some .block) ts := fun ts =>
    memberHeader_reads (w := "namespace") [] rfl rfl n.header_reads
  have hnodes : (Printed.concat (n.types.map (·.printed))).IsNodes := by
    induction n.types with
    | nil => exact fun _ => rfl
    | cons t ts ih => exact t.isNodes.append ih
  have h : MembersRead none false _ rest :=
    .scope (n.isDeclaration _) rfl (hheader _) hnodes (types_read n.types).1 Scope.block_close
  rwa [← Printed.append_assoc] at h

end NamespaceDeclaration

namespace SourceUnit

theorem read (u : SourceUnit) : MembersRead none false u.printed [] := by
  obtain ⟨namespaces⟩ := u
  show MembersRead none false (.concat (namespaces.map (·.printed))) []
  induction namespaces with
  | nil => exact .nothing
  | cons n ns ih => exact .append n.read ih

theorem isNodes (u : SourceUnit) : u.printed.IsNodes := by
  obtain ⟨namespaces⟩ := u
  show (Printed.concat (namespaces.map (·.printed))).IsNodes
  induction namespaces with
  | nil => exact fun _ => rfl
  | cons n ns ih => exact Printed.isNodes_node.append ih

/-- The tokens that a unit is printed as are read as what it declares. -/
theorem root_ofTokens (u : SourceUnit) : (Tree.ofTokens u.printed.tokens).root = u.root := by
  have hend : members none false ⟨u.printed.tokens.length, []⟩ = ([], ⟨u.printed.tokens.length, []⟩) :=
    members_nil rfl
  have h := u.read 0
  rw [Nat.zero_add, hend, List.append_nil, List.append_nil] at h
  show (⟨[], none, (members none false ⟨0, u.printed.tokens⟩).1⟩ : Parts).node _ _ _ = _
  rw [h]
  simp only [SourceUnit.root, ← u.isNodes 0]

end SourceUnit

/-- **Reading inverts printing.** A source whose tokens are the ones that a unit is printed as, whatever stands
between them, is read as the tree of what the unit declares: its nodes and no others, each with the range, the name
and the modifiers that it was printed with. -/
theorem ofSource_printed (u : SourceUnit) (source : String)
    (h : (TokenStream.ofSource source).tokens.map Token.bare = u.printed.tokens.map Token.bare) :
    (Tree.ofSource source).root = u.root :=
  (Tree.root_eq_of_bare h).trans u.root_ofTokens

/-- A class with a constructor, an interface and a field in it. -/
def sampleUnit : SourceUnit where
  namespaces := [{
    name := ⟨"N", by decide⟩
    dotted := [⟨"M", by decide⟩]
    types := [⟨[⟨"public", by decide⟩], .classWord, ⟨"C", by decide⟩, some [⟨"T", by decide⟩], [
      .constructor [] [⟨⟨.last ⟨"T", by decide⟩ [], [.nullable]⟩, ⟨"x", by decide⟩, none⟩]
        ⟨[⟨.lbrace, "\x7b"⟩, ⟨.rbrace, "\x7d"⟩], by decide⟩,
      .type ⟨[], .interfaceWord, ⟨"I", by decide⟩, none, []⟩,
      .field [] ⟨.last ⟨"A", by decide⟩ [⟨.last ⟨"T", by decide⟩ [], []⟩], []⟩ ⟨"f", by decide⟩]⟩] }]

/-- The theorem at a unit that is written with a comment and with spaces where none are needed. -/
theorem ofSource_printed_sample :
    (TokenStream.ofSource
        "namespace N . M // sample\n{ public class C<T> { C(T? x) {{}} interface I{} A<T> f; } }").tokens.map
        Token.bare = sampleUnit.printed.tokens.map Token.bare ∧
      (Tree.ofSource "namespace N . M // sample\n{ public class C<T> { C(T? x) {{}} interface I{} A<T> f; } }").root =
        sampleUnit.root :=
  ⟨by decide +kernel, ofSource_printed sampleUnit _ (by decide +kernel)⟩

end DocPages.Source
