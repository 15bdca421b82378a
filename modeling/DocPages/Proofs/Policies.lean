/-
The two policies for comments that cannot be read. A run that gives up at such
a comment does what a run that isolates them does, up to the first of them
(`carryOut_abort`). So the policies show the same page where every comment can be
read, and elsewhere the page of the tolerant one begins with all that the other
had come to (`policies_agree`).
-/
import DocPages.Command.Run
import DocPages.Proofs.Emission

namespace DocPages

open Command (pageOf)
open Source (Tree)

/-! ## Comments of declarations -/

/-- What the comment of a declaration says, if it can be read. -/
def Emission.comment (tree : Tree) (e : Emission) : Except MalformedComment TagSet :=
  TagSet.ofTrivia (tree.leading e.place.node)

namespace PlanEntry

/-- No bad comment keeps the entry from the page. -/
def Resolves (tree : Tree) (e : PlanEntry) : Prop :=
  ∃ added, e.resolve tree = .ok added

theorem resolves_announce (tree : Tree) (kind : DeclarationKind) (name : String) :
    (announce kind name).Resolves tree :=
  ⟨_, rfl⟩

theorem resolves_fixed (tree : Tree) (f : Fragment) : (fixed f).Resolves tree :=
  ⟨_, rfl⟩

theorem resolves_declare {tree : Tree} {kind : DeclarationKind} {level : Nat} {p : Source.Place} :
    (declare kind level p).Resolves tree ↔ ∃ tags, TagSet.ofTrivia (tree.leading p.node) = .ok tags := by
  unfold Resolves resolve
  cases h : TagSet.ofTrivia (tree.leading p.node) <;> simp [h]

/-- Only declarations stop a run, and their own comments are the cause. -/
theorem declare_of_resolve_error {tree : Tree} {e : PlanEntry} {bad : BadDeclaration}
    (h : e.resolve tree = .error bad) :
    ∃ kind level p, e = .declare kind level p ∧ bad = ⟨kind, tree.nameOf p.node, bad.cause⟩ ∧
      TagSet.ofTrivia (tree.leading p.node) = .error bad.cause := by
  cases e with
  | announce kind name => cases h
  | fixed f => cases h
  | declare kind level p =>
    unfold resolve at h
    cases ht : TagSet.ofTrivia (tree.leading p.node) with
    | ok tags => simp [ht] at h
    | error cause =>
      simp only [ht, Except.error.injEq] at h
      subst h
      exact ⟨kind, level, p, rfl, rfl, ht⟩

end PlanEntry

/-- All entries of a plan resolve if the comments of its declarations can be read. -/
theorem resolves_iff (tree : Tree) (plan : List PlanEntry) (s : Site) :
    (∀ e ∈ plan, e.Resolves tree) ↔ ∀ d ∈ emissions s plan, ∃ tags, d.comment tree = .ok tags := by
  induction plan generalizing s with
  | nil => exact ⟨fun _ => nofun, fun _ => nofun⟩
  | cons e plan ih =>
    cases e with
    | announce kind name =>
      rw [List.forall_mem_cons, ih]
      exact and_iff_right (PlanEntry.resolves_announce tree kind name)
    | fixed f =>
      rw [List.forall_mem_cons, ih]
      exact and_iff_right (PlanEntry.resolves_fixed tree f)
    | declare kind level p =>
      rw [emissions, List.forall_mem_cons, List.forall_mem_cons, ih, PlanEntry.resolves_declare]
      rfl

/-! ## Runs -/

/-- A run that gives up at bad comments is a run that isolates them, cut off in front of the first. -/
theorem carryOut_abort (tree : Tree) (plan : List PlanEntry) :
    ((∀ e ∈ plan, e.Resolves tree) ∧
      PlanEntry.carryOut tree .abort plan = PlanEntry.carryOut tree .isolate plan) ∨
    ∃ done e rest bad, plan = done ++ e :: rest ∧ (∀ d ∈ done, d.Resolves tree) ∧
      e.resolve tree = .error bad ∧
      PlanEntry.carryOut tree .abort plan =
        { PlanEntry.carryOut tree .isolate done with stopped? := some bad } := by
  induction plan with
  | nil => exact .inl ⟨nofun, rfl⟩
  | cons e plan ih =>
    cases he : e.resolve tree with
    | error bad =>
      refine .inr ⟨[], e, plan, bad, rfl, nofun, he, ?_⟩
      simp only [PlanEntry.carryOut, he]
    | ok added =>
      have hcarry : ∀ policy rest, PlanEntry.carryOut tree policy (e :: rest) =
          .after added.1 added.2 (PlanEntry.carryOut tree policy rest) := fun policy rest => by
        simp only [PlanEntry.carryOut, he]
      rcases ih with ⟨hall, heq⟩ | ⟨done, d, rest, bad, rfl, hall, hd, heq⟩
      · refine .inl ⟨List.forall_mem_cons.2 ⟨⟨added, he⟩, hall⟩, ?_⟩
        rw [hcarry, hcarry, heq]
      · refine .inr ⟨e :: done, d, rest, bad, rfl, List.forall_mem_cons.2 ⟨⟨added, he⟩, hall⟩, hd, ?_⟩
        rw [hcarry, hcarry, heq]
        rfl

/-! ## Diagnostics -/

def Fragment.isDiagnostic : Fragment → Bool
  | .diagnostic _ _ _ => true
  | _ => false

theorem isDiagnostic_of_isDeclaration {f : Fragment} (h : f.isDeclaration = false) :
    f.isDiagnostic = false := by
  cases f <;> first | rfl | cases h

theorem isDiagnostic_fragment (d : Declaration) (level : Nat) : (d.fragment level).isDiagnostic = false := by
  unfold Declaration.fragment
  split <;> rfl

/-- Entries that resolve are not shown by diagnostics. -/
theorem isDiagnostic_of_shown {tree : Tree} {e : PlanEntry} {f : Fragment} (he : e.Resolves tree)
    (hp : e.IsPlain) (hf : e.shown? tree = some f) : f.isDiagnostic = false := by
  cases e with
  | announce kind name => cases hf
  | fixed g =>
    obtain rfl := Option.some.inj hf
    exact isDiagnostic_of_isDeclaration (hp g rfl)
  | declare kind level p =>
    obtain ⟨tags, htags⟩ := PlanEntry.resolves_declare.1 he
    obtain rfl := Option.some.inj hf
    rw [fragment_of_comment htags]
    exact isDiagnostic_fragment _ _

/-- Where a comment is bad, a diagnostic is shown. -/
theorem shown_of_resolve_error {tree : Tree} {e : PlanEntry} {bad : BadDeclaration}
    (h : e.resolve tree = .error bad) : e.shown? tree = some bad.fragment := by
  obtain ⟨kind, level, p, rfl, hbad, ht⟩ := PlanEntry.declare_of_resolve_error h
  rw [hbad, PlanEntry.shown?, fragment_of_bad_comment ht, BadDeclaration.fragment]

/-! ## Pages -/

theorem pageOf_of_no_plan {source : String} (h : (Tree.ofSource source).plan? = none) (renderer : Renderer)
    (policy : Policy) : (pageOf renderer policy source).2 = .error .missingNamespace := by
  simp only [pageOf, Tree.document, h]
  rfl

section

variable {source : String} {plan : List PlanEntry}

/-- The page of a unit with a plan is what the plan has come to, unless the run was stopped. -/
theorem pageOf_of_plan (h : (Tree.ofSource source).plan? = some plan) (renderer : Renderer)
    (policy : Policy) :
    (pageOf renderer policy source).2 =
      match (PlanEntry.carryOut (Tree.ofSource source) policy plan).stopped? with
      | some bad => .error (.malformedComment bad)
      | none => .ok (renderer.page (PlanEntry.carryOut (Tree.ofSource source) policy plan).fragments) := by
  simp only [pageOf, Tree.document, h]
  cases (PlanEntry.carryOut (Tree.ofSource source) policy plan).stopped? <;> rfl

theorem page_isolate {tree : Tree} (h : tree.plan? = some plan) :
    (tree.document .isolate).page = .ok (plan.filterMap (·.shown? tree)) := by
  obtain ⟨hfragments, hstopped⟩ := carryOut_isolate tree plan
  simp only [Tree.document, h, hstopped, hfragments]

theorem pageOf_isolate (h : (Tree.ofSource source).plan? = some plan) (renderer : Renderer) :
    (pageOf renderer .isolate source).2 =
      .ok (renderer.page (plan.filterMap (·.shown? (Tree.ofSource source)))) := by
  show ((Tree.ofSource source).document .isolate).page.map renderer.page = _
  rw [page_isolate h]
  rfl

end

/-- The fragments that the entries of a plan are shown by. -/
abbrev shownBy (tree : Tree) (plan : List PlanEntry) : List Fragment :=
  plan.filterMap (·.shown? tree)

/-- A page that is shown under any policy is what the plan of the unit is shown by. -/
theorem fragments_of_page {tree : Tree} {policy : Policy} {fragments : List Fragment}
    (h : (tree.document policy).page = .ok fragments) :
    ∃ plan, tree.plan? = some plan ∧ fragments = shownBy tree plan := by
  cases hplan : tree.plan? with
  | none =>
    simp only [Tree.document, hplan] at h
    cases h
  | some plan =>
    refine ⟨plan, rfl, ?_⟩
    have hisolate : (tree.document .isolate).page = .ok fragments := by
      cases policy with
      | isolate => exact h
      | abort =>
        rcases carryOut_abort tree plan with ⟨-, heq⟩ | ⟨_, _, _, bad, -, -, -, heq⟩
        · simpa only [Tree.document, hplan, heq] using h
        · simp only [Tree.document, hplan, heq] at h
          cases h
    rw [page_isolate hplan] at hisolate
    exact (Except.ok.inj hisolate).symm

theorem page_append (renderer : Renderer) (fs gs : List Fragment) :
    renderer.page (fs ++ gs) = renderer.page fs ++ renderer.page gs := by
  rw [Renderer.page, List.map_append, String.join_append]
  rfl

theorem page_cons (renderer : Renderer) (f : Fragment) (fs : List Fragment) :
    renderer.page (f :: fs) = renderer.fragment f ++ renderer.page fs := by
  rw [Renderer.page, List.map_cons, String.join_cons]
  rfl

/-- The text of a page with a fragment singled out. -/
theorem page_split (renderer : Renderer) (front back : List Fragment) (f : Fragment) :
    renderer.page (front ++ f :: back) =
      renderer.page front ++ renderer.fragment f ++ renderer.page back := by
  rw [page_append, page_cons, String.append_assoc]

/-- Where all entries resolve, there is no diagnostic. -/
theorem isDiagnostic_of_mem_shown {tree : Tree} {done : List PlanEntry} (hall : ∀ e ∈ done, e.Resolves tree)
    (hplain : ∀ e ∈ done, e.IsPlain) : ∀ f ∈ done.filterMap (·.shown? tree), f.isDiagnostic = false := by
  intro f hf
  obtain ⟨e, he, hshown⟩ := List.mem_filterMap.1 hf
  exact isDiagnostic_of_shown (hall e he) (hplain e he) hshown

/-- The page around an entry that does not resolve. -/
theorem page_of_resolve_error {tree : Tree} {e : PlanEntry} {bad : BadDeclaration}
    (h : e.resolve tree = .error bad) (renderer : Renderer) (done rest : List PlanEntry) :
    renderer.page ((done ++ e :: rest).filterMap (·.shown? tree)) =
      renderer.page (done.filterMap (·.shown? tree)) ++ renderer.fragment bad.fragment ++
        renderer.page (rest.filterMap (·.shown? tree)) := by
  rw [List.filterMap_append, List.filterMap_cons, shown_of_resolve_error h]
  exact page_split renderer _ _ _

/-- **The policies agree up to the first bad comment.** Either both find no namespace, or isolation shows a
page. Giving up then shows a page where the comments of all declarations can be read, and it is the same page.
Where it shows none it tells the first declaration of the page whose comment cannot be read, and the page of
isolation is what giving up had come to, in which there is no diagnostic, the diagnostic of that declaration,
and a rest. -/
theorem policies_agree (source : String) (renderer : Renderer) :
    ((pageOf renderer .abort source).2 = .error .missingNamespace ↔
      (pageOf renderer .isolate source).2 = .error .missingNamespace) ∧
    ((pageOf renderer .isolate source).2 = .error .missingNamespace ∨
      ∃ plan page, (Tree.ofSource source).plan? = some plan ∧
        (pageOf renderer .isolate source).2 = .ok page ∧
        ((∃ text, (pageOf renderer .abort source).2 = .ok text) ↔
          ∀ e ∈ pageEmissions plan, ∃ tags, e.comment (Tree.ofSource source) = .ok tags) ∧
        (∀ text, (pageOf renderer .abort source).2 = .ok text → text = page) ∧
        ∀ bad, (pageOf renderer .abort source).2 = .error (.malformedComment bad) →
          ∃ before e after q r, pageEmissions plan = before ++ e :: after ∧
            (∀ d ∈ before, ∃ tags, d.comment (Tree.ofSource source) = .ok tags) ∧
            bad = ⟨e.kind, (Tree.ofSource source).nameOf e.place.node, bad.cause⟩ ∧
            e.comment (Tree.ofSource source) = .error bad.cause ∧
            q = (PlanEntry.carryOut (Tree.ofSource source) .abort plan).fragments ∧
            q.filter (·.isDeclaration) = before.map (·.fragment (Tree.ofSource source)) ∧
            (∀ f ∈ q, f.isDiagnostic = false) ∧
            page = renderer.page q ++
              renderer.fragment (.diagnostic bad.kind bad.name bad.cause.message) ++ renderer.page r) := by
  cases hplan : (Tree.ofSource source).plan? with
  | none =>
    have hmissing := pageOf_of_no_plan hplan renderer
    exact ⟨by rw [hmissing, hmissing], .inl (hmissing _)⟩
  | some plan =>
    have hisolate := pageOf_isolate hplan renderer
    have habort := pageOf_of_plan hplan renderer .abort
    rcases carryOut_abort (Tree.ofSource source) plan with
      ⟨hall, heq⟩ | ⟨done, e, rest, bad, hsplit, hall, he, heq⟩
    · have hsame : (pageOf renderer .abort source).2 = (pageOf renderer .isolate source).2 := by
        rw [habort, heq, pageOf_of_plan hplan]
      rw [hsame, hisolate]
      refine ⟨by simp, .inr ⟨plan, _, rfl, rfl, ⟨fun _ => ?_, fun _ => ⟨_, rfl⟩⟩, ?_, nofun⟩⟩
      · exact (resolves_iff _ _ _).1 hall
      · intro text h
        exact (Except.ok.inj h).symm
    · have herror : (pageOf renderer .abort source).2 = .error (.malformedComment bad) := by
        rw [habort, heq]
      obtain ⟨hdone, -⟩ := carryOut_isolate (Tree.ofSource source) done
      obtain ⟨kind, level, p, rfl, hbad, hcause⟩ := PlanEntry.declare_of_resolve_error he
      obtain ⟨site, after, hafter⟩ := exists_emissions_declare ⟨none, none, none⟩ done rest kind level p
      have hplain : ∀ d ∈ done, d.IsPlain := fun d hd =>
        isPlain_plan hplan (by rw [hsplit]; exact List.mem_append_left _ hd)
      rw [herror, hisolate]
      refine ⟨by simp, .inr ⟨plan, _, rfl, rfl, ⟨nofun, fun h => ?_⟩, nofun, fun b hb => ?_⟩⟩
      · have hresolves := (resolves_iff _ _ _).2 h
        rw [hsplit] at hresolves
        obtain ⟨added, hadded⟩ := hresolves _ (List.mem_append_right _ List.mem_cons_self)
        rw [he] at hadded
        cases hadded
      · obtain rfl : bad = b := by injection hb with hb; injection hb
        refine ⟨pageEmissions done, ⟨kind, level, p, site⟩, after, _,
          rest.filterMap (·.shown? (Tree.ofSource source)), ?_, (resolves_iff _ _ _).1 hall, hbad, hcause,
          rfl, ?_, ?_, ?_⟩
        · rw [hsplit]
          exact hafter
        · rw [heq, hdone]
          exact declarations_shown _ _ hplain
        · rw [heq, hdone]
          exact isDiagnostic_of_mem_shown hall hplain
        · rw [heq, hdone, hsplit]
          exact page_of_resolve_error he renderer done rest

end DocPages
