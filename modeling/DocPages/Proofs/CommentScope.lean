/-
How far a documentation comment reaches. The plan of a page and all that it
tells of declarations, their comments apart, is blind to what documentation
comments say (`Tree.mute`); so another text in the comment of one token changes
the fragment of the declaration that begins there, and nothing else
(`comments_are_local`).
-/
import DocPages.Proofs.FirstTokens
import DocPages.Proofs.Policies
import DocPages.Proofs.Spelling
import DocPages.Proofs.Trivia

namespace DocPages

open Source

/-! ## Saying nothing in documentation comments -/

namespace Source

/-- The trivia with nothing said if it is a documentation comment. -/
def Trivia.mute (t : Trivia) : Trivia :=
  if t.kind = .docComment then ⟨.docComment, ""⟩ else t

/-- The token with nothing said in the documentation comments in front of it. -/
def Token.mute (t : Token) : Token :=
  { t with leading := t.leading.map Trivia.mute }

def Tree.mute (tree : Tree) : Tree :=
  ⟨tree.tokens.map Token.mute, tree.root⟩

@[simp] theorem Trivia.mute_kind (t : Trivia) : t.mute.kind = t.kind := by
  unfold mute
  split
  · next h => exact h.symm
  · rfl

theorem Trivia.mute_of_ne {t : Trivia} (h : t.kind ≠ .docComment) : t.mute = t :=
  if_neg h

@[simp] theorem Token.mute_text (t : Token) : t.mute.text = t.text := rfl
@[simp] theorem Token.mute_bare (t : Token) : t.mute.bare = t.bare := rfl

theorem Token.gap_mute (t u : Token) : t.mute.gap u.mute = t.gap u := by
  simp only [gap, mute, List.isEmpty_map]

@[simp] theorem Token.joined_mute (ts : List Token) : Token.joined (ts.map .mute) = Token.joined ts := by
  induction ts with
  | nil => rfl
  | cons t ts ih =>
    cases ts with
    | nil => rfl
    | cons u ts =>
      simp only [List.map_cons] at ih ⊢
      rw [joined_cons, joined_cons, gap_mute, ih, mute_text]

namespace Tree

variable (tree : Tree) (n : Node)

@[simp] theorem tokensOf_mute : tree.mute.tokensOf n = (tree.tokensOf n).map .mute := by
  simp only [tokensOf, mute, List.map_take, List.map_drop]

@[simp] theorem places_mute : tree.mute.places = tree.places := rfl

@[simp] theorem textAt_mute (i : Nat) : tree.mute.textAt i = tree.textAt i := by
  simp only [textAt, mute, List.getElem?_map]
  cases tree.tokens[i]? <;> rfl

@[simp] theorem name?_mute : tree.mute.name? n = tree.name? n := by
  simp only [name?, funext tree.textAt_mute]

@[simp] theorem nameOf_mute : tree.mute.nameOf n = tree.nameOf n := by
  simp only [nameOf, name?_mute]

@[simp] theorem modifiersOf_mute : tree.mute.modifiersOf n = tree.modifiersOf n := by
  simp only [modifiersOf, funext tree.textAt_mute]

@[simp] theorem text_mute : tree.mute.text n = tree.text n := by
  simp only [text, tokensOf_mute, Token.joined_mute]

@[simp] theorem leading_mute : tree.mute.leading n = (tree.leading n).map .mute := by
  simp only [leading, tokensOf_mute, List.head?_map]
  cases (tree.tokensOf n).head? <;> rfl

@[simp] theorem trailing_mute : tree.mute.trailing n = tree.trailing n := by
  simp only [trailing, tokensOf_mute, List.getLast?_map]
  cases (tree.tokensOf n).getLast? <;> rfl

/-! ### Descriptions -/

@[simp] theorem typeSnippet_mute : tree.mute.typeSnippet n = tree.typeSnippet n := by
  simp only [typeSnippet, tokensOf_mute, List.takeWhile_map, List.map_map]
  rfl

@[simp] theorem addPart_mute (name : String) (slot : Nat) (out : String) (part : Node × Nat) :
    tree.mute.addPart name slot out part = tree.addPart name slot out part := by
  simp only [addPart, text_mute]

@[simp] theorem memberSnippet_mute : tree.mute.memberSnippet n = tree.memberSnippet n := by
  have hadd : tree.mute.addPart = tree.addPart := by
    funext name slot out part
    exact tree.addPart_mute name slot out part
  simp only [memberSnippet, hadd, modifiersOf_mute, nameOf_mute]

@[simp] theorem snippet_mute : tree.mute.snippet n = tree.snippet n := by
  simp only [snippet, memberSnippet_mute, typeSnippet_mute, text_mute]

@[simp] theorem typeParameters_mute (tags : TagSet) :
    tree.mute.typeParameters n tags = tree.typeParameters n tags := by
  simp only [typeParameters, name?_mute]

@[simp] theorem parameters_mute (tags : TagSet) : tree.mute.parameters n tags = tree.parameters n tags := by
  have hparameter : tree.mute.parameter tags = tree.parameter tags := by
    funext p
    simp only [parameter, modifiersOf_mute, funext tree.text_mute, nameOf_mute]
  simp only [parameters, hparameter]

/-- The record of a declaration depends on documentation comments by its tags only. -/
@[simp] theorem describe_mute (kind : DeclarationKind) (tags : TagSet) :
    tree.mute.describe n kind tags = tree.describe n kind tags := by
  simp only [describe, nameOf_mute, snippet_mute, parameters_mute, typeParameters_mute]

end Tree

end Source

/-! ### Property rows -/

theorem attachedFrom_mute (kept : List Trivia) (blank : Bool) (run : List Trivia) :
    attachedFrom (kept.map .mute) blank (run.map .mute) = (attachedFrom kept blank run).map .mute := by
  induction run generalizing kept blank with
  | nil => rfl
  | cons t rest ih =>
    simp only [List.map_cons, attachedFrom, Trivia.mute_kind, ← apply_ite (List.map Trivia.mute), ih]
    cases t.kind <;> rfl

theorem plainComments_mute (run : List Trivia) : plainComments (run.map .mute) = plainComments run := by
  have hlines : (run.map Trivia.mute).filter (·.kind = .lineComment) =
      run.filter (·.kind = .lineComment) := by
    induction run with
    | nil => rfl
    | cons t rest ih =>
      by_cases ht : t.kind = .lineComment
      · have hmute : t.mute = t := Trivia.mute_of_ne (by simp [ht])
        simp only [List.map_cons, List.filter_cons, hmute, ht, ih]
      · simp only [List.map_cons, List.filter_cons, Trivia.mute_kind, ht, decide_false, Bool.false_eq_true,
          if_false, ih]
  simp only [plainComments, hlines]

namespace Source.Tree

variable (tree : Tree)

@[simp] theorem propertyRow_mute (n : Node) : tree.mute.propertyRow n = tree.propertyRow n := by
  have hattached : attached ((tree.leading n).map .mute) = (attached (tree.leading n)).map .mute :=
    attachedFrom_mute _ _ _
  simp only [propertyRow, nameOf_mute, leading_mute, trailing_mute, hattached, plainComments_mute]

/-! ### Plans -/

theorem categoryEntries_mute (kind : DeclarationKind) (p : Place) (c : Category) :
    tree.mute.categoryEntries kind p c = tree.categoryEntries kind p c := by
  cases c with
  | properties => simp only [categoryEntries, propertyEntries, propertyRow_mute]
  | structs | constructors | methods => rfl

theorem typeEntries_mute (kind : DeclarationKind) (p : Place) :
    tree.mute.typeEntries kind p = tree.typeEntries kind p := by
  have hpresent : tree.mute.categoriesOf kind p = tree.categoriesOf kind p := by
    simp only [categoriesOf, categoryEntries_mute]
  simp only [typeEntries, sectionEntries, hpresent, categoryEntries_mute, nameOf_mute]

theorem typePages_mute (kind : DeclarationKind) (k : NodeKind) :
    tree.mute.typePages kind k = tree.typePages kind k := by
  simp only [typePages, funext (tree.typeEntries_mute kind)]
  rfl

/-- **The plan of a page does not depend on what documentation comments say.** -/
theorem plan?_mute : tree.mute.plan? = tree.plan? := by
  simp only [plan?, namespaceName?, places_mute, funext tree.text_mute, typePages_mute]

end Source.Tree

/-! ## Two comments -/

namespace Source

/-- The tokens are the same but for what is said in the documentation comments in front of the token with the
index `k`. -/
structure DifferInComments (k : Nat) (ts us : List Token) : Prop where
  before : ts.take k = us.take k
  there : ts[k]?.map Token.mute = us[k]?.map Token.mute
  behind : ts.drop (k + 1) = us.drop (k + 1)

section

variable {k : Nat} {ts us : List Token}

theorem DifferInComments.getElem? (h : DifferInComments k ts us) {i : Nat} (hi : i ≠ k) :
    ts[i]? = us[i]? := by
  rcases Nat.lt_or_gt_of_ne hi with hlt | hgt
  · have := congrArg (·[i]?) h.before
    simpa [List.getElem?_take, hlt] using this
  · have := congrArg (·[i - (k + 1)]?) h.behind
    simpa [List.getElem?_drop, show k + 1 + (i - (k + 1)) = i by omega] using this

theorem DifferInComments.map_mute (h : DifferInComments k ts us) : ts.map Token.mute = us.map Token.mute := by
  refine List.ext_getElem? fun i => ?_
  rw [List.getElem?_map, List.getElem?_map]
  by_cases hi : i = k
  · rw [hi, h.there]
  · rw [h.getElem? hi]

theorem DifferInComments.mute (h : DifferInComments k ts us) :
    (Tree.ofTokens ts).mute = (Tree.ofTokens us).mute := by
  have hbare : ts.map Token.bare = us.map Token.bare := by
    have hmute := congrArg (List.map Token.bare) h.map_mute
    simpa [List.map_map, Function.comp_def] using hmute
  have hroot := Tree.root_eq_of_bare hbare
  have htokens : (Tree.ofTokens ts).tokens.map Token.mute = (Tree.ofTokens us).tokens.map Token.mute :=
    h.map_mute
  rw [Tree.mute, Tree.mute, hroot, htokens]

/-- A node that begins at another token has the same trivia in front of it. -/
theorem DifferInComments.leading_eq (h : DifferInComments k ts us) {n : Node} (hn : n.start ≠ k) :
    (Tree.ofTokens ts).leading n = (Tree.ofTokens us).leading n := by
  have hhead : ∀ vs : List Token, ((Tree.ofTokens vs).tokensOf n).head? =
      if n.stop - n.start = 0 then none else vs[n.start]? := fun vs => by
    rw [Tree.tokensOf, List.head?_take, List.head?_drop]
    rfl
  rw [Tree.leading, Tree.leading, hhead, hhead, h.getElem? hn]

end

end Source

section

variable {k : Nat} {ts us : List Token}

/-- An entry is shown the same, unless it is that of a declaration that begins at the token. -/
theorem shown_eq (h : DifferInComments k ts us) {e : PlanEntry}
    (he : ∀ kind level p, e = .declare kind level p → p.node.start ≠ k) :
    e.shown? (Tree.ofTokens ts) = e.shown? (Tree.ofTokens us) := by
  cases e with
  | announce kind name => rfl
  | fixed f => rfl
  | declare kind level p =>
    have hname : (Tree.ofTokens ts).nameOf p.node = (Tree.ofTokens us).nameOf p.node := by
      rw [← Tree.nameOf_mute, h.mute, Tree.nameOf_mute]
    have hdescribe : ∀ kind tags, (Tree.ofTokens ts).describe p.node kind tags =
        (Tree.ofTokens us).describe p.node kind tags := fun kind tags => by
      rw [← Tree.describe_mute, h.mute, Tree.describe_mute]
    simp only [PlanEntry.shown?, Emission.fragment, h.leading_eq (he kind level p rfl), hname, hdescribe]

theorem plan?_eq (h : DifferInComments k ts us) : (Tree.ofTokens ts).plan? = (Tree.ofTokens us).plan? := by
  rw [← Tree.plan?_mute, h.mute, Tree.plan?_mute]

theorem filterMap_shown_eq (h : DifferInComments k ts us) {es : List PlanEntry} {s : Site}
    (hes : ∀ d ∈ emissions s es, d.place.node.start ≠ k) :
    es.filterMap (·.shown? (Tree.ofTokens ts)) = es.filterMap (·.shown? (Tree.ofTokens us)) := by
  refine List.filterMap_congr fun e he => shown_eq h fun kind level p hd => ?_
  obtain ⟨done, rest, rfl⟩ := List.append_of_mem he
  obtain ⟨site, after, hsplit⟩ := exists_emissions_declare s done rest kind level p
  refine hes ⟨kind, level, p, site⟩ ?_
  rw [hd, hsplit]
  simp

end

/-- A declaration of a plan stands there as an entry of its own. -/
theorem exists_declare_of_mem_emissions {s : Site} {plan : List PlanEntry} {e : Emission}
    (h : e ∈ emissions s plan) : ∃ done rest s', plan = done ++ .declare e.kind e.level e.place :: rest ∧
      emissions s plan = emissions s done ++ e :: emissions s' rest := by
  induction plan generalizing s with
  | nil => cases h
  | cons d plan ih =>
    cases d with
    | announce kind name =>
      obtain ⟨done, rest, s', rfl, hs⟩ := ih h
      exact ⟨.announce kind name :: done, rest, s', rfl, hs⟩
    | fixed f =>
      obtain ⟨done, rest, s', rfl, hs⟩ := ih h
      exact ⟨.fixed f :: done, rest, s', rfl, hs⟩
    | declare kind level p =>
      rcases List.mem_cons.1 h with rfl | h
      · exact ⟨[], plan, _, rfl, rfl⟩
      · obtain ⟨done, rest, s', rfl, hs⟩ := ih h
        exact ⟨.declare kind level p :: done, rest, s', rfl, congrArg (_ :: ·) hs⟩

/-- What a page shows is declared in the unit. -/
theorem isDeclared_of_emissionOf {p : Place} {e : Emission} (h : emissionOf p = some e) :
    p.node.kind.isDeclared = true := by
  unfold emissionOf memberEmission at h
  repeat' split at h
  all_goals cases h
  all_goals simp_all [NodeKind.isDeclared, NodeKind.isTypeDeclaration]

/-- No two entries of a page are of declarations that begin at the same token. -/
theorem emission_eq_of_start_eq {ts : List Token} {plan : List PlanEntry}
    (h : (Tree.ofTokens ts).plan? = some plan)
    {d e : Emission} (hd : d ∈ pageEmissions plan) (he : e ∈ pageEmissions plan)
    (hs : d.place.node.start = e.place.node.start) : d = e := by
  obtain ⟨p, hp, hdp⟩ := (mem_pageEmissions h).1 hd
  obtain ⟨q, hq, heq⟩ := (mem_pageEmissions h).1 he
  rw [place_of_emissionOf hdp, place_of_emissionOf heq] at hs
  have hpq := eq_of_start_eq hp hq (isDeclared_of_emissionOf hdp) (isDeclared_of_emissionOf heq) hs
  rw [hpq, heq] at hdp
  exact (Option.some.inj hdp).symm

/-- A change to the comments in front of a token that no declaration of the page begins at leaves the page as it
is. -/
theorem page_eq_of_no_emission {k : Nat} {ts us : List Token} (h : DifferInComments k ts us)
    (hno : ∀ plan, (Tree.ofTokens ts).plan? = some plan → ∀ e ∈ pageEmissions plan, e.place.node.start ≠ k) :
    ((Tree.ofTokens ts).document .isolate).page = ((Tree.ofTokens us).document .isolate).page := by
  have hplans := plan?_eq h
  cases hplan : (Tree.ofTokens ts).plan? with
  | none =>
    rw [hplan] at hplans
    simp only [Tree.document, hplan, ← hplans]
  | some plan =>
    rw [page_isolate hplan, page_isolate (hplans ▸ hplan), filterMap_shown_eq h (hno plan hplan)]

/-- **A documentation comment has its own declaration only.** Declarations have first tokens, different ones if
they are different. And if what is said in front of one token is changed, a page with isolation stays the same, or
the token is the first of exactly one declaration that the page shows: then the fragment of that declaration
may change, and what comes before it and behind it stays. -/
theorem comments_are_local :
    (∀ source : String, ∀ p ∈ (Tree.ofSource source).places, ∀ q ∈ (Tree.ofSource source).places,
      p.node.kind.isDeclared = true → q.node.kind.isDeclared = true → p ≠ q →
        p.node.start < p.node.stop ∧ q.node.start < q.node.stop ∧ p.node.start ≠ q.node.start) ∧
    ∀ (k : Nat) (ts us : List Token), DifferInComments k ts us →
      ((Tree.ofTokens ts).document .isolate).page = ((Tree.ofTokens us).document .isolate).page ∨
      ∃ plan before e after front back, (Tree.ofTokens ts).plan? = some plan ∧
        (Tree.ofTokens us).plan? = some plan ∧ pageEmissions plan = before ++ e :: after ∧
        e.place.node.start = k ∧ (∀ d ∈ before ++ after, d.place.node.start ≠ k) ∧
        ((Tree.ofTokens ts).document .isolate).page =
          .ok (front ++ e.fragment (Tree.ofTokens ts) :: back) ∧
        ((Tree.ofTokens us).document .isolate).page =
          .ok (front ++ e.fragment (Tree.ofTokens us) :: back) ∧
        ∀ renderer : Renderer,
          ((Tree.ofTokens ts).document .isolate).page.map renderer.page = .ok (renderer.page front ++
            renderer.fragment (e.fragment (Tree.ofTokens ts)) ++ renderer.page back) ∧
          ((Tree.ofTokens us).document .isolate).page.map renderer.page = .ok (renderer.page front ++
            renderer.fragment (e.fragment (Tree.ofTokens us)) ++ renderer.page back) := by
  refine ⟨fun source p hp q hq hpk hqk hne => ⟨start_lt_stop hp hpk, start_lt_stop hq hqk, fun hs => ?_⟩,
    fun k ts us h => ?_⟩
  · exact hne (eq_of_start_eq hp hq hpk hqk hs)
  by_cases hno : ∀ plan, (Tree.ofTokens ts).plan? = some plan →
      ∀ e ∈ pageEmissions plan, e.place.node.start ≠ k
  · exact .inl (page_eq_of_no_emission h hno)
  push Not at hno
  obtain ⟨plan, hplan, e, he, hk⟩ := hno
  have hplan' : (Tree.ofTokens us).plan? = some plan := plan?_eq h ▸ hplan
  obtain ⟨done, rest, s', hsplit, hemissions⟩ := exists_declare_of_mem_emissions he
  have hnodup := nodup_pageEmissions hplan
  have hpage : pageEmissions plan = emissions ⟨none, none, none⟩ done ++ e :: emissions s' rest := hemissions
  have hothers : ∀ d ∈ emissions ⟨none, none, none⟩ done ++ emissions s' rest, d.place.node.start ≠ k := by
    intro d hd hdk
    have hmem : d ∈ pageEmissions plan := by
      rw [hpage]
      simp only [List.mem_append, List.mem_cons] at hd ⊢
      exact hd.imp_right .inr
    rw [hpage, List.nodup_middle] at hnodup
    rw [emission_eq_of_start_eq hplan hmem he (hdk.trans hk.symm)] at hd
    exact (List.nodup_cons.1 hnodup).1 hd
  have hdone := filterMap_shown_eq h fun d hd => hothers d (List.mem_append_left _ hd)
  have hrest := filterMap_shown_eq h fun d hd => hothers d (List.mem_append_right _ hd)
  have hts : ((Tree.ofTokens ts).document .isolate).page = _ := page_isolate hplan
  have hus : ((Tree.ofTokens us).document .isolate).page = _ := page_isolate hplan'
  rw [hsplit, List.filterMap_append, List.filterMap_cons] at hts hus
  rw [← hdone, ← hrest] at hus
  refine .inr ⟨plan, _, e, _, _, _, hplan, hplan', hpage, hk, hothers, hts, hus, fun renderer => ?_⟩
  rw [hts, hus]
  exact ⟨congrArg _ (page_split renderer _ _ _), congrArg _ (page_split renderer _ _ _)⟩

/-- A comment that becomes malformed is the comment of the class behind it. -/
theorem comments_are_local_sample :
    DifferInComments 3 (TokenStream.ofSource "namespace N;\n/// a\nclass C {}").tokens
      (TokenStream.ofSource "namespace N;\n/// <\nclass C {}").tokens ∧
    ∃ plan e, (Tree.ofSource "namespace N;\n/// a\nclass C {}").plan? = some plan ∧ e ∈ pageEmissions plan ∧
      e.place.node.start = 3 := by
  have h : DifferInComments 3 (TokenStream.ofSource "namespace N;\n/// a\nclass C {}").tokens
      (TokenStream.ofSource "namespace N;\n/// <\nclass C {}").tokens :=
    ⟨by decide +kernel, by decide +kernel, by decide +kernel⟩
  refine ⟨h, ?_⟩
  rcases comments_are_local.2 3 _ _ h with heq | ⟨plan, before, e, after, _, _, hplan, -, hpage, hk, -⟩
  · have hne : ((Tree.ofSource "namespace N;\n/// a\nclass C {}").document .isolate).page ≠
        ((Tree.ofSource "namespace N;\n/// <\nclass C {}").document .isolate).page := by
      decide +kernel
    exact absurd heq hne
  · exact ⟨plan, e, hplan, by simp [hpage], hk⟩

end DocPages
