/-
Headers read what is printed. A member is told by its first words: where the
words in front of a declaration end, the word there decides what it is, and a
constructor is told from a method by its name and the parenthesis after it. So
each header reads what its kind of member is printed as, up to its end or to the
brace that opens its own members (`Ending.Reads`).
-/
import DocPages.Proofs.PrintedSteps

namespace DocPages.Source

/-! ## Endings -/

/-- In front of `rest`, the ending reads a header of a kind as it is printed, with the scope that it opens. -/
def Ending.Reads (e : Ending) (kind : NodeKind) (p : Printed) (scope? : Option Scope)
    (rest : List Token) : Prop :=
  ∀ i, e.run ⟨i, p.tokens ++ rest⟩ = ⟨kind, p.parts i, ⟨i + p.tokens.length, rest⟩, scope?⟩

namespace Ending.Reads

variable {s : Step} {e : Ending} {kind : NodeKind} {p q : Printed} {scope? : Option Scope}
  {rest : List Token}

theorem plain (h : s.Reads p rest) : (Ending.plain kind s).Reads kind p none rest := by
  intro i
  show Header.mk kind (s.run ⟨i, p.tokens ++ rest⟩).1 (s.run ⟨i, p.tokens ++ rest⟩).2 none = _
  rw [h i]

theorem opening (k : TokenKind) (scope : Scope) :
    (Ending.opening kind scope).Reads kind (.mark k) (some scope) rest :=
  fun _ => rfl

theorem choose {f : List Token → Ending} (h : (f (p.tokens ++ rest)).Reads kind p scope? rest) :
    (Ending.choose f).Reads kind p scope? rest :=
  h

theorem after (hs : s.Reads p (q.tokens ++ rest)) (he : e.Reads kind q scope? rest) :
    (Ending.after s e).Reads kind (p ++ q) scope? rest := by
  intro i
  show (let read := s.run ⟨i, p.tokens ++ q.tokens ++ rest⟩
    { e.run read.2 with parts := read.1 ++ (e.run read.2).parts }) = _
  rw [List.append_assoc, hs i]
  simp only [he (i + p.tokens.length), Printed.tokens_append, List.length_append, ← Nat.add_assoc]
  rfl

theorem after_nothing (hs : s.Reads .nothing (p.tokens ++ rest)) (he : e.Reads kind p scope? rest) :
    (Ending.after s e).Reads kind p scope? rest :=
  after (p := .nothing) hs he

end Ending.Reads

/-! ## Types in front of names -/

/-- The tokens begin with a name, and in front of `rest` they are read as one type. -/
structure IsTypeBefore (rest type : List Token) : Prop where
  begins : ∃ (x : Identifier) (ts : List Token), type = .word x.text :: ts
  reads : typeReach (type ++ rest) = type.length

namespace IsTypeBefore

variable {rest type : List Token}

theorem typeReference_reads (h : IsTypeBefore rest type) : typeReference.Reads (.leaf .type type) rest := by
  obtain ⟨x, ts, rfl⟩ := h.begins
  exact .whenAt rfl (.leaf h.reads)

/-- The name that a type begins with is not called. -/
theorem atKind_lparen {x : Identifier} {ts : List Token} (h : IsTypeBefore rest (.word x.text :: ts))
    (hr : atKind .ident rest = true) : atKind .lparen (ts ++ rest) = false := by
  cases ts with
  | nil => exact atKind_eq_false hr nofun
  | cons t ts =>
    refine decide_eq_false fun hk => ?_
    have hx : (Token.word x.text).isWord "ref" = false := by
      have href : atWord "ref" [.word x.text] = false := x.atWord_eq_false (by decide)
      simpa [atWord] using href
    have hpath : pathReach (t :: (ts ++ rest)) = 0 := by
      have hlist : angleListReach (t :: (ts ++ rest)) = 0 := if_neg (by simp [hk])
      rw [pathReach_end, hlist]
      intro a b us hd
      rw [hlist, List.drop_zero, List.cons.injEq] at hd
      simp [← hd.1, hk]
    have hsuffix : typeSuffixReach (t :: (ts ++ rest)) = 0 := by
      rw [typeSuffixReach, runReach, (if_neg (by simp [Token.isPunct, hk])).trans (if_neg (by simp [hk]))]
    have hreads := h.reads
    have hw : ∀ us, bareTypeReach (.word x.text :: us) = 1 + pathReach us := fun us => rfl
    rw [List.cons_append, List.cons_append, typeReach, refReach, if_neg (by simp [hx])] at hreads
    simp only [List.drop_zero, hw, hpath, Nat.zero_add, Nat.add_zero, List.drop_succ_cons, hsuffix,
      List.length_cons] at hreads
    omega

end IsTypeBefore

theorem TypeRef.isTypeBefore (t : TypeRef) {rest : List Token} (h : atKind .ident rest = true) :
    IsTypeBefore rest t.tokens :=
  ⟨t.tokens_eq_cons, typeReach_printed t h⟩

/-! ## Members by kind -/

section

open Ending.Reads

variable {rest : List Token}

theorem atMemberName_name (x : Identifier) (ts : List Token) :
    atMemberName (.word x.text :: ts) = true := by
  rw [atMemberName, x.atWord_eq_false (by decide), x.atWord_eq_false (by decide)]
  rfl

/-- A type, a name, and what the name is followed by. -/
theorem typedMember_reads {type : List Token} (x : Identifier) {kind : NodeKind} {q : Printed} {e : Ending}
    (ht : IsTypeBefore (.word x.text :: (q.tokens ++ rest)) type)
    (hi : atKind .dot ((q.tokens ++ rest).drop (flatListReach (q.tokens ++ rest))) = false)
    (he : (if atKind .lt (q.tokens ++ rest) || atKind .lparen (q.tokens ++ rest) then methodHeader
      else if atKind .lbrace (q.tokens ++ rest) || atKind .fatArrow (q.tokens ++ rest) then propertyHeader
      else otherMember) = e) (hq : e.Reads kind q none rest) :
    typedMember.Reads kind (.leaf .type type ++ (.name x ++ q)) none rest := by
  have hname := atMemberName_name x (q.tokens ++ rest)
  have hinterface : explicitInterface.Reads .nothing ((Printed.name x ++ q).tokens ++ rest) := by
    refine .whenAt_nothing ?_
    simp only [Printed.tokens_append, Printed.tokens_name, List.cons_append, List.nil_append,
      interfaceReach_end hi]
    rfl
  refine after ht.typeReference_reads (choose ?_)
  rw [if_neg (by simp [hname])]
  refine after_nothing hinterface (choose ?_)
  rw [if_neg (by simp [hname])]
  refine after (.name x) (choose ?_)
  rw [he]
  exact hq

theorem flatAngleReach_word (w : String) (ts : List Token) :
    flatAngleReach 1 (.word w :: ts) = 1 + flatAngleReach 1 ts := rfl

theorem flatAngleReach_comma (ts : List Token) :
    flatAngleReach 1 (.mark .comma :: ts) = 1 + flatAngleReach 1 ts := rfl

theorem flatAngleReach_names (xs : List Identifier) (rest : List Token) : flatAngleReach 1
    ((Printed.separated (xs.map fun x => .node .typeParameter (.name x))).tokens ++ .mark .gt :: rest) =
      (Printed.separated (xs.map fun x => .node .typeParameter (.name x))).tokens.length + 1 := by
  have hlater : ∀ xs : List Identifier, flatAngleReach 1
      ((Printed.afterCommas (xs.map fun x => .node .typeParameter (.name x))).tokens ++ .mark .gt :: rest) =
        (Printed.afterCommas (xs.map fun x => .node .typeParameter (.name x))).tokens.length + 1 := by
    intro xs
    induction xs with
    | nil => rfl
    | cons x xs ih =>
      simp only [List.map_cons, Printed.afterCommas, Printed.tokens_append, Printed.tokens_mark,
        Printed.tokens_node, Printed.tokens_name, List.cons_append, List.nil_append,
        flatAngleReach_comma, flatAngleReach_word, ih, List.length_cons]
      omega
  cases xs with
  | nil => rfl
  | cons x xs =>
    simp only [List.map_cons, Printed.separated, Printed.tokens_append, Printed.tokens_node,
      Printed.tokens_name, List.cons_append, List.nil_append, flatAngleReach_word, hlater,
      List.length_cons]
    omega

/-- The type parameters of a method are not taken for part of an interface's name. -/
theorem flatListReach_typeParameters (typeParameters? : Option (List Identifier))
    (h : atKind .lt rest = false) :
    flatListReach ((printedTypeParameters typeParameters?).tokens ++ rest) =
      (printedTypeParameters typeParameters?).tokens.length := by
  cases typeParameters? with
  | none =>
    show flatListReach rest = 0
    rw [flatListReach, if_neg (by simp [h])]
  | some xs =>
    have hnames := flatAngleReach_names xs rest
    simp only [printedTypeParameters, Printed.tokens_node, Printed.tokens_append, Printed.tokens_mark,
      List.append_assoc, List.cons_append, List.nil_append, List.length_cons, List.length_append,
      List.length_nil]
    have hlt : ∀ ts, flatListReach (.mark .lt :: ts) = 1 + flatAngleReach 1 ts := fun ts => rfl
    rw [hlt, hnames]
    omega

theorem method_reads {type : List Token} (x : Identifier) (typeParameters? : Option (List Identifier))
    (ps : List ParameterDeclaration) (b : MethodBody) (ht : IsTypeBefore (.word x.text ::
      ((printedTypeParameters typeParameters? ++ (printedParameters ps ++ b.printed)).tokens ++ rest)) type) :
    typedMember.Reads .method (.leaf .type type ++ (.name x ++ (printedTypeParameters typeParameters? ++
      (printedParameters ps ++ b.printed)))) none rest := by
  have hp : ∀ ts, atKind .lparen ((printedParameters ps ++ b.printed).tokens ++ ts) = true := fun _ => rfl
  have hbody : atKind .ident (b.printed.tokens ++ rest) = false := by
    cases b <;> rfl
  refine typedMember_reads x ht ?_ (if_pos ?_) (plain ?_)
  · rw [Printed.tokens_append, List.append_assoc, flatListReach_typeParameters _ rfl, List.drop_left]
    rfl
  · cases typeParameters? with
    | none => rfl
    | some xs => rfl
  · have hlist : (Step.whenAt (atKind .lparen) parameterList).Reads (printedParameters ps)
        (b.printed.tokens ++ rest) := .whenAt rfl (parameterList_reads ps)
    have h := Step.Reads.append (.append_idle (.append (typeParameters_reads typeParameters? rfl) hlist)
      (constraints_nothing hbody)) (body_reads b)
    rwa [Printed.append_assoc] at h

/-- How far the initial value of a property reaches behind its accessors. -/
def initialReach (ts : List Token) : Nat :=
  if atKind .eq ts then statementReach ts else 0

theorem initial_reads {initial : List Token} (h : initialReach (initial ++ rest) = initial.length) :
    (Step.whenAt (atKind .eq) (.skip statementReach)).Reads (.plain initial) rest := by
  by_cases heq : atKind .eq (initial ++ rest) = true
  · rw [initialReach, if_pos heq] at h
    exact .whenAt heq (.skip h)
  · rw [initialReach, if_neg heq] at h
    obtain rfl := List.eq_nil_of_length_eq_zero h.symm
    exact .whenAt_nothing (Bool.eq_false_iff.2 heq)

theorem property_reads {type initial : List Token} (x : Identifier) (accessors : NestedTokens)
    (ht : IsTypeBefore (.word x.text :: (accessors.braced ++ (initial ++ rest))) type)
    (h : initialReach (initial ++ rest) = initial.length) :
    typedMember.Reads .property
      (.leaf .type type ++ (.name x ++ (.leaf .accessorList accessors.braced ++ .plain initial))) none rest := by
  have htokens : (Printed.leaf .accessorList accessors.braced ++ .plain initial).tokens ++ rest =
      accessors.braced ++ (initial ++ rest) := List.append_assoc _ _ _
  rw [← htokens] at ht
  refine typedMember_reads x ht rfl rfl (plain (.choose ?_))
  exact .append (.leaf (groupReach_braced accessors (initial ++ rest))) (initial_reads h)

theorem field_reads (t : TypeRef) (x : Identifier) :
    typedMember.Reads .member (.leaf .type t.tokens ++ (.name x ++ .mark .semi)) none rest := by
  refine typedMember_reads x (t.isTypeBefore rfl) rfl rfl (plain (.skip ?_))
  have hrun : ∀ more : Token → List Token → Option Nat, more (.mark .semi) rest = none →
      runReach more (.mark .semi :: rest) = 0 := fun more h => by
    rw [runReach, h]
  show memberReach (.mark .semi :: rest) = 1
  rw [memberReach, hrun _ rfl]
  rfl

theorem constructor_reads (x : Identifier) (ps : List ParameterDeclaration) (body : NestedTokens) :
    constructorHeader.Reads .constructor (.name x ++ (printedParameters ps ++ .leaf .block body.braced))
      none rest := by
  have hinitializer : (Step.whenAt (atKind .colon)
      (.leaf .constructorInitializer initializerReach)).Reads .nothing (body.braced ++ rest) :=
    .whenAt_nothing rfl
  have h := Step.Reads.append (.append_idle (.append (.name x) (parameterList_reads ps)) hinitializer)
    (body_reads (.block body))
  rw [Printed.append_assoc] at h
  exact plain h

theorem typeHeader_reads (w : TypeWord) (x : Identifier) (typeParameters? : Option (List Identifier)) :
    (typeHeader w.kind).Reads w.kind
      (.plain [.word w.text] ++ (.name x ++ (printedTypeParameters typeParameters? ++ .mark .lbrace)))
      (some (.type (some x.text))) rest := by
  have hrecord : recordWord w.kind = .idle := by cases w <;> rfl
  have hscope : (typeScope w.kind (some x.text)).Reads w.kind (.mark .lbrace)
      (some (.type (some x.text))) rest := by
    have hbrace : atKind .lbrace ((Printed.mark .lbrace).tokens ++ rest) = true := rfl
    refine choose ?_
    rw [if_pos hbrace, if_neg (by cases w <;> exact nofun)]
    exact opening .lbrace _
  refine after (.append_idle (.bump _) (hrecord ▸ .idle)) (choose ?_)
  rw [← Printed.append_assoc]
  refine after ?_ hscope
  exact .append_idle (.append_idle (.append_idle (.append (nameIfAny_reads x)
    (typeParameters_reads typeParameters? rfl)) (.whenAt_nothing rfl)) (.whenAt_nothing rfl))
    (constraints_nothing rfl)

end

/-! ## Headers of members -/

section

variable {owner? : Option String} {w : String} {ts rest : List Token}

/-- What does not begin like an import, words in front of it or not. -/
theorem atImport_modifiers (ms : List ModifierWord)
    (h : ∀ w ∈ ["using", "global", "extern", "alias"], atWord w ts = false) :
    atImport ((printedModifiers ms).tokens ++ ts) = false := by
  cases ms with
  | nil =>
    show atImport ts = false
    simp [atImport, h]
  | cons m ms =>
    have hmu : m.text ≠ "using" := fun h => absurd (h ▸ m.isModifier) (by decide)
    have hmg : m.text ≠ "global" := fun h => absurd (h ▸ m.isModifier) (by decide)
    have hnext : atWord "alias" ((printedModifiers ms).tokens ++ ts) = false := by
      cases ms with
      | nil => exact h "alias" (by decide)
      | cons n ms =>
        have hna : n.text ≠ "alias" := fun h => absurd (h ▸ n.isModifier) (by decide)
        show atWord "alias" (.word n.text :: ((printedModifiers ms).tokens ++ ts)) = false
        simp [atWord_word, hna]
    show atImport (.word m.text :: ((printedModifiers ms).tokens ++ ts)) = false
    simp [atImport, atWord_word, hmu, hmg, hnext]

theorem atImport_eq_false (ms : List ModifierWord) (hw : w ∉ ["using", "global", "extern", "alias"]) :
    atImport ((printedModifiers ms).tokens ++ .word w :: ts) = false := by
  refine atImport_modifiers ms fun v hv => ?_
  rw [atWord_word, beq_eq_false_iff_ne]
  rintro rfl
  exact hw hv

/-- The words in front of a declaration are read, and the word after them decides. -/
theorem memberHeader_reads (ms : List ModifierWord) {kind : NodeKind} {q : Printed} {scope? : Option Scope}
    (hq : q.tokens = .word w :: ts) (hm : atModifier (.word w :: (ts ++ rest)) = false)
    (h : (wordHeader owner? w (ts ++ rest)).Reads kind q scope? rest) :
    (memberHeader owner?).Reads kind (printedModifiers ms ++ q) scope? rest := by
  have hq' : q.tokens ++ rest = .word w :: (ts ++ rest) := by rw [hq, List.cons_append]
  have hbracket : atKind .lbracket ((printedModifiers ms).tokens ++ (q.tokens ++ rest)) = false := by
    rw [hq']
    cases ms <;> rfl
  have hstanding : atStandingAttribute ((printedModifiers ms ++ q).tokens ++ rest) = false := by
    rw [Printed.tokens_append, List.append_assoc, atStandingAttribute, hbracket]
    rfl
  refine .choose ?_
  rw [if_neg (by rw [hstanding]; exact Bool.false_ne_true)]
  refine .after (.idle_append (attributes_nothing hbracket) (modifiers_reads ms (hq' ▸ hm))) (.choose ?_)
  rw [hq']
  exact h

/-- A name that is no word tested for begins a constructor or a member with a type. -/
theorem wordHeader_name (x : Identifier) : wordHeader owner? x.text ts =
    if owner? = some x.text && atKind .lparen ts then constructorHeader else typedMember := by
  have hne : ∀ {w : String}, w ∈ testedWords → x.text ≠ w := fun hw h => x.ordinary (h ▸ hw)
  unfold wordHeader
  split
  case h_11 => rfl
  all_goals exact absurd ‹x.text = _› (hne (by decide))

/-- Members that begin with a type. -/
theorem typedHeader_reads (ms : List ModifierWord) {type : List Token} (x : Identifier) {kind : NodeKind}
    {q : Printed} (ht : IsTypeBefore (.word x.text :: (q.tokens ++ rest)) type)
    (h : typedMember.Reads kind (.leaf .type type ++ (.name x ++ q)) none rest) :
    (memberHeader owner?).Reads kind (printedModifiers ms ++ (.leaf .type type ++ (.name x ++ q))) none rest := by
  obtain ⟨y, ts, rfl⟩ := ht.begins
  have hparen : atKind .lparen (ts ++ .word x.text :: q.tokens ++ rest) = false := by
    rw [List.append_assoc]
    exact ht.atKind_lparen rfl
  have hq : (Printed.leaf .type (.word y.text :: ts) ++ (.name x ++ q)).tokens =
      .word y.text :: (ts ++ .word x.text :: q.tokens) := rfl
  refine memberHeader_reads ms hq (atModifier_name y _) ?_
  rw [wordHeader_name, hparen, Bool.and_false, if_neg (by simp)]
  exact h

end

end DocPages.Source
