/-
Which declarations a page shows, how often and where. `emissions` reads the
declarations off a plan, each with the place on the page where its entry
stands, which follows from the entries before it alone; `emissionOf` tells, from
the nodes above a place, whether and where it is to be shown. The two agree
(`pageEmissions_perm`): no declaration that belongs on the page is left out, no other
is shown, and none is shown twice.
-/
import Mathlib.Data.List.Nodup
import Mathlib.Data.List.Perm.Lattice
import DocPages.Page.Document
import DocPages.Proofs.Shape

namespace DocPages

open Source (Node NodeKind Place Tree)
open Source.Tree (ofKind)

/-! ## Where an entry stands -/

/-- A site on a page: the number of the type whose part of the page it is, the section, and the structure
whose entry and constructors stand there. -/
structure Site where
  page? : Option Nat
  category? : Option Category
  group? : Option Nat
deriving DecidableEq

/-- The site after an entry. A type opens its part of the page, a heading its section, a structure its
group; a method ends a group, and only constructors go on with it. -/
def Site.after (s : Site) : PlanEntry → Site
  | .declare .classType _ p | .declare .interfaceType _ p => ⟨some p.number, none, none⟩
  | .declare .structType _ p => { s with group? := some p.number }
  | .declare .constructor _ _ => s
  | .declare .method _ _ => { s with group? := none }
  | .fixed (.sectionHeading c) => { s with category? := some c, group? := none }
  | .fixed .separator | .fixed .closing => ⟨none, none, none⟩
  | _ => s

/-- The entry of one declaration on a page. -/
structure Emission where
  kind : DeclarationKind
  level : Nat
  place : Place
  site : Site

/-- The declarations among the entries of a plan, with their sites. -/
def emissions (s : Site) : List PlanEntry → List Emission
  | [] => []
  | .declare kind level p :: rest =>
    ⟨kind, level, p, s.after (.declare kind level p)⟩ :: emissions (s.after (.declare kind level p)) rest
  | e :: rest => emissions (s.after e) rest

/-- The declarations of a whole page. -/
def pageEmissions (plan : List PlanEntry) : List Emission :=
  emissions ⟨none, none, none⟩ plan

/-- The fragment that an entry is shown by when bad comments cost only their own declaration: a type's entry
by the kind of type, a member's at its level, or a diagnostic. -/
def Emission.fragment (tree : Tree) (e : Emission) : Fragment :=
  match TagSet.ofTrivia (tree.leading e.place.node) with
  | .error cause => .diagnostic e.kind (tree.nameOf e.place.node) cause.message
  | .ok tags =>
    match e.kind with
    | .classType => .classEntry (tree.describe e.place.node .classType tags)
    | .interfaceType => .interfaceEntry (tree.describe e.place.node .interfaceType tags)
    | .structType => .structEntry (tree.describe e.place.node .structType tags)
    | .constructor => .memberEntry (tree.describe e.place.node .constructor tags) e.level
    | .method => .memberEntry (tree.describe e.place.node .method tags) e.level

/-- The fragments that stand for one declaration. -/
def Fragment.isDeclaration : Fragment → Bool
  | .classEntry _ | .interfaceEntry _ | .structEntry _ | .memberEntry _ _ | .diagnostic _ _ _ => true
  | _ => false

/-! ## Where a declaration belongs -/

/-- The outermost type declaration above a place, with its number. -/
def outermostType? (p : Place) : Option (Nat × Node) :=
  p.above.reverse.find? (·.2.kind.isTypeDeclaration)

/-- The entry of a place below the type with number `i`, on whose part of the page it stands, if it has any. -/
def memberEmission (i : Nat) (p : Place) : Option Emission :=
  match p.node.kind, p.parent? with
  | .structType, _ => some ⟨.structType, 3, p, ⟨some i, some .structs, some p.number⟩⟩
  | .constructor, some (j, parent) =>
    if parent.kind = .structType then some ⟨.constructor, 4, p, ⟨some i, some .structs, some j⟩⟩
    else some ⟨.constructor, 3, p, ⟨some i, some .constructors, none⟩⟩
  | .method, _ => some ⟨.method, 3, p, ⟨some i, some .methods, none⟩⟩
  | _, _ => none

/-- The entry that a place is to have on the page, if any. -/
def emissionOf (p : Place) : Option Emission :=
  match outermostType? p with
  | none =>
    match p.node.kind with
    | .classType => some ⟨.classType, 3, p, ⟨some p.number, none, none⟩⟩
    | .interfaceType => some ⟨.interfaceType, 3, p, ⟨some p.number, none, none⟩⟩
    | _ => none
  | some (i, top) =>
    if top.kind = .classType ∨ top.kind = .interfaceType then memberEmission i p else none

/-! ## Reading a plan -/

def Site.afterAll (s : Site) (plan : List PlanEntry) : Site :=
  plan.foldl Site.after s

theorem emissions_append (s : Site) (as bs : List PlanEntry) :
    emissions s (as ++ bs) = emissions s as ++ emissions (s.afterAll as) bs := by
  induction as generalizing s with
  | nil => rfl
  | cons e as ih =>
    cases e with
    | declare kind level p => exact congrArg (_ :: ·) (ih _)
    | announce kind name => exact ih _
    | fixed f => exact ih _

/-- A declaration inside a plan stands between the declarations before it and those after it. -/
theorem exists_emissions_declare (s : Site) (done rest : List PlanEntry) (kind : DeclarationKind) (level : Nat)
    (p : Place) : ∃ site after, emissions s (done ++ .declare kind level p :: rest) =
      emissions s done ++ ⟨kind, level, p, site⟩ :: after :=
  ⟨_, _, emissions_append s done _⟩

theorem Site.afterAll_append (s : Site) (as bs : List PlanEntry) :
    s.afterAll (as ++ bs) = (s.afterAll as).afterAll bs :=
  List.foldl_append

/-- The entries of a structure and its own constructors on the page of the type with number `i`. -/
def structEmissions (i : Nat) (p : Place) : List Emission :=
  ⟨.structType, memberLevel, p, ⟨some i, some .structs, some p.number⟩⟩ ::
    (ofKind .constructor p.children).map fun q =>
      ⟨.constructor, nestedMemberLevel, q, ⟨some i, some .structs, some p.number⟩⟩

/-- The entries of one section on the page of a type. -/
def categoryEmissions (p : Place) : Category → List Emission
  | .properties => []
  | .structs => (ofKind .structType p.below).flatMap (structEmissions p.number)
  | .constructors => (Tree.ownConstructors p).map fun q =>
    ⟨.constructor, memberLevel, q, ⟨some p.number, some .constructors, none⟩⟩
  | .methods => (ofKind .method p.below).map fun q =>
    ⟨.method, memberLevel, q, ⟨some p.number, some .methods, none⟩⟩

/-- The entries on the part of a page that a type has. -/
def typeEmissions (kind : DeclarationKind) (p : Place) : List Emission :=
  ⟨kind, memberLevel, p, ⟨some p.number, none, none⟩⟩ :: Tree.categories.flatMap (categoryEmissions p)

theorem emissions_constructors (s : Site) (level : Nat) (qs : List Place) :
    emissions s (qs.map (.declare .constructor level ·)) = qs.map (⟨.constructor, level, ·, s⟩) ∧
      s.afterAll (qs.map (.declare .constructor level ·)) = s := by
  induction qs with
  | nil => exact ⟨rfl, rfl⟩
  | cons q qs ih => exact ⟨congrArg (_ :: ·) ih.1, ih.2⟩

theorem emissions_methods (i : Nat) (qs : List Place) :
    emissions ⟨some i, some .methods, none⟩ (qs.map (.declare .method memberLevel ·)) =
        qs.map (⟨.method, memberLevel, ·, ⟨some i, some .methods, none⟩⟩) ∧
      (Site.mk (some i) (some .methods) none).afterAll (qs.map (.declare .method memberLevel ·)) =
        ⟨some i, some .methods, none⟩ := by
  induction qs with
  | nil => exact ⟨rfl, rfl⟩
  | cons q qs ih => exact ⟨congrArg (_ :: ·) ih.1, ih.2⟩

theorem emissions_structs (i : Nat) (g : Option Nat) (qs : List Place) :
    emissions ⟨some i, some .structs, g⟩ (qs.flatMap Tree.structEntries) = qs.flatMap (structEmissions i) ∧
      ((Site.mk (some i) (some .structs) g).afterAll (qs.flatMap Tree.structEntries)).page? = some i := by
  induction qs generalizing g with
  | nil => exact ⟨rfl, rfl⟩
  | cons q qs ih =>
    obtain ⟨he, ha⟩ :=
      emissions_constructors ⟨some i, some .structs, some q.number⟩ nestedMemberLevel
        (ofKind .constructor q.children)
    obtain ⟨ihe, iha⟩ := ih (some q.number)
    have hgroup : (Site.mk (some i) (some .structs) g).afterAll (Tree.structEntries q) =
        ⟨some i, some .structs, some q.number⟩ := ha
    refine ⟨?_, ?_⟩
    · rw [List.flatMap_cons, List.flatMap_cons, emissions_append, hgroup, ihe]
      exact congrArg (_ :: · ++ _) he
    · rw [List.flatMap_cons, Site.afterAll_append, hgroup]
      exact iha

theorem emissions_category (tree : Tree) (kind : DeclarationKind) (p : Place) (c : Category) (s : Site)
    (hs : s.page? = some p.number) :
    emissions s (.fixed (.sectionHeading c) :: tree.categoryEntries kind p c) = categoryEmissions p c ∧
      (s.afterAll (.fixed (.sectionHeading c) :: tree.categoryEntries kind p c)).page? = some p.number := by
  obtain ⟨_, _, _⟩ := s
  obtain rfl := hs
  cases c with
  | properties =>
    simp only [Tree.categoryEntries, Tree.propertyEntries]
    generalize (if kind = .classType then ofKind .property p.children else []) = qs
    cases qs <;> exact ⟨rfl, rfl⟩
  | structs => exact emissions_structs p.number none _
  | constructors =>
    obtain ⟨he, ha⟩ := emissions_constructors ⟨some p.number, some .constructors, none⟩ memberLevel
      (Tree.ownConstructors p)
    exact ⟨he, congrArg Site.page? ha⟩
  | methods =>
    obtain ⟨he, ha⟩ := emissions_methods p.number (ofKind .method p.below)
    exact ⟨he, congrArg Site.page? ha⟩

theorem emissions_categories (tree : Tree) (kind : DeclarationKind) (p : Place) (cs : List Category)
    (s : Site)
    (hs : s.page? = some p.number) :
    emissions s (cs.flatMap fun c => .fixed (.sectionHeading c) :: tree.categoryEntries kind p c) =
      cs.flatMap (categoryEmissions p) := by
  induction cs generalizing s with
  | nil => rfl
  | cons c cs ih =>
    obtain ⟨he, ha⟩ := emissions_category tree kind p c s hs
    rw [List.flatMap_cons, List.flatMap_cons, emissions_append, he, ih _ ha]

/-- A category without entries shows nothing. -/
theorem categoryEmissions_eq_nil {tree : Tree} {kind : DeclarationKind} {p : Place} {c : Category}
    (h : (tree.categoryEntries kind p c).isEmpty = true) : categoryEmissions p c = [] := by
  rw [List.isEmpty_iff] at h
  have he := (emissions_category tree kind p c ⟨some p.number, none, none⟩ rfl).1
  rw [h] at he
  exact he.symm

theorem flatMap_present (tree : Tree) (kind : DeclarationKind) (p : Place) (cs : List Category) :
    (cs.filter fun c => !(tree.categoryEntries kind p c).isEmpty).flatMap (categoryEmissions p) =
      cs.flatMap (categoryEmissions p) := by
  induction cs with
  | nil => rfl
  | cons c cs ih =>
    rw [List.filter_cons, List.flatMap_cons]
    split
    · rw [List.flatMap_cons, ih]
    · next h =>
      simp only [Bool.not_eq_true', Bool.not_eq_false] at h
      rw [categoryEmissions_eq_nil h, ih, List.nil_append]

theorem emissions_type (tree : Tree) {kind : DeclarationKind}
    (hk : kind = .classType ∨ kind = .interfaceType)
    (p : Place) (s : Site) : emissions s (tree.typeEntries kind p) = typeEmissions kind p := by
  have hafter : ∀ s : Site, s.after (.declare kind memberLevel p) = ⟨some p.number, none, none⟩ := by
    rcases hk with rfl | rfl <;> exact fun _ => rfl
  have hsections : emissions ⟨some p.number, none, none⟩ (tree.sectionEntries kind p) =
      Tree.categories.flatMap (categoryEmissions p) := by
    rw [← flatMap_present tree kind]
    simp only [Tree.sectionEntries]
    split
    · next h =>
      rw [List.isEmpty_iff, Tree.categoriesOf] at h
      rw [h]
      rfl
    · exact emissions_categories tree kind p _ _ rfl
  show Emission.mk kind memberLevel p (s.after (.declare kind memberLevel p)) ::
    emissions (s.after (.declare kind memberLevel p)) (tree.sectionEntries kind p) = typeEmissions kind p
  rw [hafter, hsections, typeEmissions]

theorem emissions_types (tree : Tree) {kind : DeclarationKind}
    (hk : kind = .classType ∨ kind = .interfaceType) :
    ∀ (ps : List Place) (s : Site),
      emissions s ([PlanEntry.fixed .separator].intercalate (ps.map (tree.typeEntries kind))) =
        ps.flatMap (typeEmissions kind)
  | [], _ => rfl
  | [p], s => by
    simp only [List.map_cons, List.map_nil, List.intercalate, List.intersperse, List.flatten_cons,
      List.flatten_nil, List.append_nil, List.flatMap_cons, List.flatMap_nil]
    exact emissions_type tree hk p s
  | p :: q :: ps, s => by
    have ih := emissions_types tree hk (q :: ps) ⟨none, none, none⟩
    simp only [List.map_cons, List.intercalate, List.intersperse, List.flatten_cons] at ih ⊢
    rw [emissions_append, emissions_type tree hk, List.flatMap_cons]
    exact congrArg _ ih

theorem pageEmissions_plan {tree : Tree} {plan : List PlanEntry} (h : tree.plan? = some plan) :
    pageEmissions plan = (tree.topLevel .classType).flatMap (typeEmissions .classType) ++
      (tree.topLevel .interfaceType).flatMap (typeEmissions .interfaceType) := by
  obtain ⟨name, -, rfl⟩ := Option.map_eq_some_iff.1 h
  rw [pageEmissions, emissions_append, emissions_append, emissions_append]
  simp only [Tree.typePages, emissions_types tree (.inl rfl), emissions_types tree (.inr rfl)]
  simp [emissions]

/-! ## The two agree -/

section

variable {root : Node} {p q : Place} {e : Emission}

theorem outermostType?_eq_none_iff : outermostType? p = none ↔ p.isNested = false := by
  simp [outermostType?, Place.isNested]

theorem outermostType?_eq_some_iff (hq : q ∈ root.places) {i : Nat} {n : Node} :
    outermostType? q = some (i, n) ↔ ∃ p ∈ root.places, p.number = i ∧ p.node = n ∧
      n.kind.isTypeDeclaration = true ∧ p.isNested = false ∧ q ∈ p.below := by
  rw [outermostType?, List.find?_eq_some_iff_append]
  constructor
  · rintro ⟨ht, as, bs, hab, has⟩
    have habove : q.above = bs.reverse ++ (i, n) :: as.reverse := by
      rw [← q.above.reverse_reverse, hab]
      simp
    obtain ⟨hp, hb⟩ := Source.place_of_above hq habove
    refine ⟨_, hp, rfl, rfl, ht, ?_, hb⟩
    simpa [Place.isNested] using has
  · rintro ⟨p, -, rfl, rfl, ht, hn, hb⟩
    obtain ⟨t, ht'⟩ := Source.above_suffix_of_mem_below hb
    refine ⟨ht, p.above.reverse, t.reverse, by rw [← ht']; simp, ?_⟩
    simpa [Place.isNested] using hn

theorem isTypeDeclaration_of_page {k : NodeKind} (h : k = .classType ∨ k = .interfaceType) :
    k.isTypeDeclaration = true := by
  rcases h with rfl | rfl <;> rfl

/-- Below a type of the page, the entry of a place follows from the type and the parent alone. -/
theorem emissionOf_of_mem_below (hp : p ∈ root.places)
    (hk : p.node.kind = .classType ∨ p.node.kind = .interfaceType) (hn : p.isNested = false)
    (hq : q ∈ p.below) :
    emissionOf q = memberEmission p.number q := by
  have ho := (outermostType?_eq_some_iff (Source.below_subset hp hq)).2
    ⟨p, hp, rfl, rfl, isTypeDeclaration_of_page hk, hn, hq⟩
  simp only [emissionOf, ho, hk, if_true]

theorem parent_of_mem_children (h : q ∈ p.children) :
    q ∈ p.below ∧ q.parent? = some (p.number, p.node) := by
  refine ⟨(Place.mem_children_iff.1 h).1, ?_⟩
  rw [p.children_eq] at h
  rw [Place.parent?, Source.above_of_mem_childPlaces h, List.head?_cons]

theorem mem_ofKind {k : NodeKind} {ps : List Place} : p ∈ ofKind k ps ↔ p ∈ ps ∧ p.node.kind = k := by
  simp [ofKind]

/-- The entries on the part of a page that a type has, below the type's own, are those of the places below it. -/
theorem mem_categoryEmissions (hp : p ∈ root.places)
    (hk : p.node.kind = .classType ∨ p.node.kind = .interfaceType) :
    e ∈ Tree.categories.flatMap (categoryEmissions p) ↔
      ∃ q ∈ p.below, memberEmission p.number q = some e := by
  simp only [Tree.categories, List.flatMap_cons, List.flatMap_nil, List.append_nil, categoryEmissions,
    List.nil_append, List.mem_append]
  constructor
  · rintro (h | h | h)
    · obtain ⟨q, hq, h⟩ := List.mem_flatMap.1 h
      obtain ⟨hq, hs⟩ := mem_ofKind.1 hq
      rcases List.mem_cons.1 h with rfl | h
      · exact ⟨q, hq, by simp only [memberEmission, hs, memberLevel]⟩
      · obtain ⟨r, hr, rfl⟩ := List.mem_map.1 h
        obtain ⟨hr, hc⟩ := mem_ofKind.1 hr
        obtain ⟨hrq, hparent⟩ := parent_of_mem_children hr
        exact ⟨r, Source.below_trans hp hq hrq,
          by simp only [memberEmission, hc, hparent, hs, if_true, nestedMemberLevel]⟩
    · obtain ⟨q, hq, rfl⟩ := List.mem_map.1 h
      simp only [Tree.ownConstructors, List.mem_filter, mem_ofKind] at hq
      obtain ⟨⟨hq, hc⟩, hown⟩ := hq
      obtain ⟨j, m, hparent⟩ := Source.parent_of_mem_below hq
      simp only [hparent, Option.all_some, decide_eq_true_eq, ne_eq] at hown
      exact ⟨q, hq, by simp only [memberEmission, hc, hparent, hown, if_false, memberLevel]⟩
    · obtain ⟨q, hq, rfl⟩ := List.mem_map.1 h
      obtain ⟨hq, hm⟩ := mem_ofKind.1 hq
      exact ⟨q, hq, by simp only [memberEmission, hm, memberLevel]⟩
  · rintro ⟨q, hq, h⟩
    unfold memberEmission at h
    split at h
    · next hs =>
      cases h
      exact .inl (List.mem_flatMap.2 ⟨q, mem_ofKind.2 ⟨hq, hs⟩, List.mem_cons_self⟩)
    · next j parent hc hparent =>
      split at h
      · next hs =>
        cases h
        obtain ⟨s, hsp, rfl, rfl, hchild⟩ := Source.mem_children_of_mem_below hp hq hparent
        have hsp : s ∈ p.below := (List.mem_cons.1 hsp).resolve_left fun he => by
          rw [← he, hs] at hk
          exact hk.elim nofun nofun
        refine .inl (List.mem_flatMap.2 ⟨s, mem_ofKind.2 ⟨hsp, hs⟩, List.mem_cons_of_mem _ ?_⟩)
        exact List.mem_map.2 ⟨q, mem_ofKind.2 ⟨hchild, hc⟩, rfl⟩
      · next hs =>
        cases h
        refine .inr (.inl (List.mem_map.2 ⟨q, ?_, rfl⟩))
        simp [Tree.ownConstructors, mem_ofKind, hq, hc, hparent, hs]
    · next hm =>
      cases h
      exact .inr (.inr (List.mem_map.2 ⟨q, mem_ofKind.2 ⟨hq, hm⟩, rfl⟩))
    · cases h

theorem mem_typeEmissions {kind : DeclarationKind} {k : NodeKind}
    (hkk : (kind = .classType ∧ k = .classType) ∨ (kind = .interfaceType ∧ k = .interfaceType))
    (hp : p ∈ root.places) (hk : p.node.kind = k) (hn : p.isNested = false) :
    e ∈ typeEmissions kind p ↔ ∃ q ∈ p :: p.below, emissionOf q = some e := by
  have hpage : p.node.kind = .classType ∨ p.node.kind = .interfaceType := hk ▸ hkk.imp (·.2) (·.2)
  have hown : emissionOf p = some ⟨kind, memberLevel, p, ⟨some p.number, none, none⟩⟩ := by
    rw [emissionOf, outermostType?_eq_none_iff.2 hn]
    rcases hkk with ⟨rfl, rfl⟩ | ⟨rfl, rfl⟩ <;> simp only [hk, memberLevel]
  rw [typeEmissions, List.mem_cons, mem_categoryEmissions hp hpage]
  constructor
  · rintro (rfl | ⟨q, hq, he⟩)
    · exact ⟨p, List.mem_cons_self, hown⟩
    · exact ⟨q, List.mem_cons_of_mem _ hq, (emissionOf_of_mem_below hp hpage hn hq).trans he⟩
  · rintro ⟨q, hq, he⟩
    rcases List.mem_cons.1 hq with rfl | hq
    · exact .inl (Option.some.inj (he.symm.trans hown))
    · exact .inr ⟨q, hq, (emissionOf_of_mem_below hp hpage hn hq).symm.trans he⟩

end

theorem mem_topLevel {tree : Tree} {k : NodeKind} {p : Place} :
    p ∈ tree.topLevel k ↔ p ∈ tree.places ∧ p.node.kind = k ∧ p.isNested = false := by
  simp [Tree.topLevel, mem_ofKind, and_assoc]

/-- A place that is to have an entry is on the part of the page that some class or interface has. -/
theorem page_of_emissionOf {tree : Tree} {q : Place} {e : Emission} (hq : q ∈ tree.places)
    (h : emissionOf q = some e) :
    ∃ p, (p ∈ tree.topLevel .classType ∨ p ∈ tree.topLevel .interfaceType) ∧ q ∈ p :: p.below := by
  cases ho : outermostType? q with
  | none =>
    have hn := outermostType?_eq_none_iff.1 ho
    rw [emissionOf, ho] at h
    simp only at h
    split at h
    · next hk => exact ⟨q, .inl (mem_topLevel.2 ⟨hq, hk, hn⟩), List.mem_cons_self⟩
    · next hk => exact ⟨q, .inr (mem_topLevel.2 ⟨hq, hk, hn⟩), List.mem_cons_self⟩
    · cases h
  | some top =>
    obtain ⟨i, n⟩ := top
    obtain ⟨p, hp, -, rfl, -, hn, hb⟩ := (outermostType?_eq_some_iff hq).1 ho
    rw [emissionOf, ho] at h
    simp only at h
    split at h
    · next hk => exact ⟨p, hk.imp (mem_topLevel.2 ⟨hp, ·, hn⟩) (mem_topLevel.2 ⟨hp, ·, hn⟩),
        List.mem_cons_of_mem _ hb⟩
    · cases h

theorem mem_pageEmissions {tree : Tree} {plan : List PlanEntry} (h : tree.plan? = some plan)
    {e : Emission} :
    e ∈ pageEmissions plan ↔ ∃ q ∈ tree.places, emissionOf q = some e := by
  rw [pageEmissions_plan h, List.mem_append, List.mem_flatMap, List.mem_flatMap]
  constructor
  · rintro (⟨p, hp, he⟩ | ⟨p, hp, he⟩)
    · obtain ⟨hp, hk, hn⟩ := mem_topLevel.1 hp
      obtain ⟨q, hq, he⟩ := (mem_typeEmissions (.inl ⟨rfl, rfl⟩) hp hk hn).1 he
      exact ⟨q, (List.mem_cons.1 hq).elim (· ▸ hp) (Source.below_subset hp), he⟩
    · obtain ⟨hp, hk, hn⟩ := mem_topLevel.1 hp
      obtain ⟨q, hq, he⟩ := (mem_typeEmissions (.inr ⟨rfl, rfl⟩) hp hk hn).1 he
      exact ⟨q, (List.mem_cons.1 hq).elim (· ▸ hp) (Source.below_subset hp), he⟩
  · rintro ⟨q, hq, he⟩
    obtain ⟨p, hp, hqp⟩ := page_of_emissionOf hq he
    refine hp.imp (fun hp => ?_) (fun hp => ?_)
    · obtain ⟨hp', hk, hn⟩ := mem_topLevel.1 hp
      exact ⟨p, hp, (mem_typeEmissions (.inl ⟨rfl, rfl⟩) hp' hk hn).2 ⟨q, hqp, he⟩⟩
    · obtain ⟨hp', hk, hn⟩ := mem_topLevel.1 hp
      exact ⟨p, hp, (mem_typeEmissions (.inr ⟨rfl, rfl⟩) hp' hk hn).2 ⟨q, hqp, he⟩⟩

/-! ## Nothing is shown twice -/

theorem nodup_places (root : Node) : root.places.Nodup :=
  (Source.nodup_numbers root).of_map

theorem nodup_below {root : Node} {p : Place} (hp : p ∈ root.places) : p.below.Nodup :=
  ((List.sublist_cons_self _ _).trans (Source.infix_of_mem_placesFrom hp).sublist).nodup (nodup_places root)

theorem nodup_ofKind {k : NodeKind} {ps : List Place} (h : ps.Nodup) : (ofKind k ps).Nodup :=
  h.filter _

theorem site_of_mem_categoryEmissions {p : Place} {c : Category} {e : Emission}
    (h : e ∈ categoryEmissions p c) :
    e.site.page? = some p.number ∧ e.site.category? = some c := by
  cases c with
  | properties => cases h
  | structs =>
    obtain ⟨q, -, h⟩ := List.mem_flatMap.1 h
    rcases List.mem_cons.1 h with rfl | h
    · exact ⟨rfl, rfl⟩
    · obtain ⟨r, -, rfl⟩ := List.mem_map.1 h
      exact ⟨rfl, rfl⟩
  | constructors | methods =>
    obtain ⟨q, -, rfl⟩ := List.mem_map.1 h
    exact ⟨rfl, rfl⟩

theorem site_of_mem_typeEmissions {kind : DeclarationKind} {p : Place} {e : Emission}
    (h : e ∈ typeEmissions kind p) :
    e.site.page? = some p.number := by
  rcases List.mem_cons.1 h with rfl | h
  · rfl
  · obtain ⟨c, -, h⟩ := List.mem_flatMap.1 h
    exact (site_of_mem_categoryEmissions h).1

theorem group_of_mem_structEmissions {i : Nat} {p : Place} {e : Emission} (h : e ∈ structEmissions i p) :
    e.site.group? = some p.number := by
  rcases List.mem_cons.1 h with rfl | h
  · rfl
  · obtain ⟨r, -, rfl⟩ := List.mem_map.1 h
    rfl

section

variable {root : Node} {p : Place}

theorem nodup_structEmissions (hp : p ∈ root.places) (i : Nat) : (structEmissions i p).Nodup := by
  have hchildren : p.children.Nodup := (nodup_below hp).filter _
  refine List.nodup_cons.2 ⟨fun h => ?_,
    (nodup_ofKind hchildren).map fun q r h => congrArg Emission.place h⟩
  obtain ⟨q, -, he⟩ := List.mem_map.1 h
  cases congrArg Emission.kind he

theorem nodup_categoryEmissions (hp : p ∈ root.places) (c : Category) : (categoryEmissions p c).Nodup := by
  have hb := nodup_below hp
  have hplace : ∀ (kind : DeclarationKind) (level : Nat) (site : Site),
      Function.Injective fun q => Emission.mk kind level q site := fun _ _ _ q r h =>
        congrArg Emission.place h
  cases c with
  | properties => exact .nil
  | structs =>
    refine List.nodup_flatMap.2 ⟨fun q hq => ?_, (nodup_ofKind hb).imp_of_mem fun {q r} hq hr hne => ?_⟩
    · exact nodup_structEmissions (Source.below_subset hp (mem_ofKind.1 hq).1) _
    · intro e heq her
      have hgroup := (group_of_mem_structEmissions heq).symm.trans (group_of_mem_structEmissions her)
      exact hne (Source.eq_of_number_eq (Source.below_subset hp (mem_ofKind.1 hq).1)
        (Source.below_subset hp (mem_ofKind.1 hr).1) (Option.some.inj hgroup))
  | constructors => exact ((nodup_ofKind hb).filter _).map (hplace _ _ _)
  | methods => exact (nodup_ofKind hb).map (hplace _ _ _)

theorem nodup_typeEmissions (hp : p ∈ root.places) (kind : DeclarationKind) :
    (typeEmissions kind p).Nodup := by
  refine List.nodup_cons.2 ⟨fun h => ?_, List.nodup_flatMap.2 ⟨fun c _ => nodup_categoryEmissions hp c, ?_⟩⟩
  · obtain ⟨c, -, h⟩ := List.mem_flatMap.1 h
    cases (site_of_mem_categoryEmissions h).2
  · have hne : Tree.categories.Pairwise (· ≠ ·) := by decide
    refine hne.imp fun {c d} hcd e hc hd => hcd ?_
    exact Option.some.inj ((site_of_mem_categoryEmissions hc).2.symm.trans
      (site_of_mem_categoryEmissions hd).2)

end

theorem nodup_typesEmissions (tree : Tree) (kind : DeclarationKind) (k : NodeKind) :
    ((tree.topLevel k).flatMap (typeEmissions kind)).Nodup := by
  have hnodup : (tree.topLevel k).Nodup := (nodup_ofKind (nodup_places tree.root)).filter _
  refine List.nodup_flatMap.2 ⟨fun p hp => nodup_typeEmissions (mem_topLevel.1 hp).1 kind, ?_⟩
  refine hnodup.imp_of_mem fun {p q} hp hq hne e hep heq => hne ?_
  have hpage := (site_of_mem_typeEmissions hep).symm.trans (site_of_mem_typeEmissions heq)
  exact Source.eq_of_number_eq (mem_topLevel.1 hp).1 (mem_topLevel.1 hq).1 (Option.some.inj hpage)

theorem nodup_pageEmissions {tree : Tree} {plan : List PlanEntry} (h : tree.plan? = some plan) :
    (pageEmissions plan).Nodup := by
  rw [pageEmissions_plan h]
  refine List.nodup_append'.2 ⟨nodup_typesEmissions .., nodup_typesEmissions .., fun e hc hi => ?_⟩
  obtain ⟨p, hp, hep⟩ := List.mem_flatMap.1 hc
  obtain ⟨q, hq, heq⟩ := List.mem_flatMap.1 hi
  obtain ⟨hp, hkp, -⟩ := mem_topLevel.1 hp
  obtain ⟨hq, hkq, -⟩ := mem_topLevel.1 hq
  have hpage := (site_of_mem_typeEmissions hep).symm.trans (site_of_mem_typeEmissions heq)
  rw [Source.eq_of_number_eq hp hq (Option.some.inj hpage), hkq] at hkp
  cases hkp

theorem place_of_emissionOf {p : Place} {e : Emission} (h : emissionOf p = some e) : e.place = p := by
  unfold emissionOf memberEmission at h
  repeat' split at h
  all_goals cases h
  all_goals rfl

/-- The declarations of a page are those that belong on it, each once. -/
theorem pageEmissions_perm {tree : Tree} {plan : List PlanEntry} (h : tree.plan? = some plan) :
    (pageEmissions plan).Perm (tree.places.filterMap emissionOf) := by
  have hexpected : (tree.places.filterMap emissionOf).Nodup :=
    (nodup_places tree.root).filterMap fun p q e hp hq =>
      (place_of_emissionOf hp).symm.trans (place_of_emissionOf hq)
  refine (List.perm_ext_iff_of_nodup (nodup_pageEmissions h) hexpected).2 fun e => ?_
  rw [mem_pageEmissions h, List.mem_filterMap]

/-! ## From the plan to the page -/

/-- The fragment that an entry of a plan adds when bad comments cost only their own declaration. -/
def PlanEntry.shown? (tree : Tree) : PlanEntry → Option Fragment
  | .announce _ _ => none
  | .fixed f => some f
  | .declare kind level p => some (Emission.fragment tree ⟨kind, level, p, ⟨none, none, none⟩⟩)

/-- Where the comment can be read, an entry is shown by the fragment of what is declared. -/
theorem fragment_of_comment {tree : Tree} {e : Emission} {tags : TagSet}
    (h : TagSet.ofTrivia (tree.leading e.place.node) = .ok tags) :
    e.fragment tree = (tree.describe e.place.node e.kind tags).fragment e.level := by
  obtain ⟨kind, _, _, _⟩ := e
  simp only [Emission.fragment, h]
  cases kind <;> rfl

/-- Where the comment cannot be read, a diagnostic stands in. -/
theorem fragment_of_bad_comment {tree : Tree} {e : Emission} {cause : MalformedComment}
    (h : TagSet.ofTrivia (tree.leading e.place.node) = .error cause) :
    e.fragment tree = .diagnostic e.kind (tree.nameOf e.place.node) cause.message := by
  simp only [Emission.fragment, h]

theorem carryOut_isolate (tree : Tree) (plan : List PlanEntry) :
    (PlanEntry.carryOut tree .isolate plan).fragments = plan.filterMap (·.shown? tree) ∧
      (PlanEntry.carryOut tree .isolate plan).stopped? = none := by
  induction plan with
  | nil => exact ⟨rfl, rfl⟩
  | cons e plan ih =>
    cases e with
    | announce kind name => exact ih
    | fixed f => exact ⟨congrArg (f :: ·) ih.1, ih.2⟩
    | declare kind level p =>
      cases ht : TagSet.ofTrivia (tree.leading p.node) with
      | ok tags =>
        have hshown := fragment_of_comment (e := ⟨kind, level, p, ⟨none, none, none⟩⟩) ht
        simp only [PlanEntry.carryOut, PlanEntry.resolve, ht, Progress.after, List.filterMap_cons,
          PlanEntry.shown?, hshown, ih, List.singleton_append, and_self]
      | error cause =>
        have hshown := fragment_of_bad_comment (e := ⟨kind, level, p, ⟨none, none, none⟩⟩) ht
        simp only [PlanEntry.carryOut, PlanEntry.resolve, ht, Progress.after, List.filterMap_cons,
          PlanEntry.shown?, hshown, BadDeclaration.fragment, ih, List.singleton_append, and_self]

theorem isDeclaration_fragment (tree : Tree) (e : Emission) : (e.fragment tree).isDeclaration = true := by
  unfold Emission.fragment
  repeat' split
  all_goals rfl

/-- The entries of a plan that are no declarations do not look like any. -/
def PlanEntry.IsPlain (e : PlanEntry) : Prop :=
  ∀ f, e = .fixed f → f.isDeclaration = false

theorem declarations_shown (tree : Tree) (s : Site) {plan : List PlanEntry} (h : ∀ e ∈ plan, e.IsPlain) :
    (plan.filterMap (·.shown? tree)).filter (·.isDeclaration) =
      (emissions s plan).map (·.fragment tree) := by
  induction plan generalizing s with
  | nil => rfl
  | cons e plan ih =>
    have hrest := fun s => ih s fun e he => h e (List.mem_cons_of_mem _ he)
    cases e with
    | announce kind name => exact hrest _
    | fixed f =>
      have hf := h _ List.mem_cons_self f rfl
      simp only [List.filterMap_cons, PlanEntry.shown?, List.filter_cons, hf, Bool.false_eq_true, if_false]
      exact hrest _
    | declare kind level p =>
      simp only [List.filterMap_cons, PlanEntry.shown?, List.filter_cons, isDeclaration_fragment, if_true]
      exact congrArg₂ List.cons rfl (hrest _)

theorem mem_intercalate {α : Type} {e : α} {sep : List α} {xs : List (List α)}
    (h : e ∈ sep.intercalate xs) :
    e ∈ sep ∨ ∃ x ∈ xs, e ∈ x := by
  obtain ⟨x, hx, he⟩ := List.mem_flatten.1 h
  have hmem : ∀ {xs : List (List α)}, x ∈ xs.intersperse sep → x = sep ∨ x ∈ xs := fun {xs} hx => by
    induction xs with
    | nil => cases hx
    | cons y ys ih =>
      cases ys with
      | nil => exact .inr hx
      | cons z zs =>
        rcases List.mem_cons.1 hx with rfl | hx
        · exact .inr List.mem_cons_self
        · rcases List.mem_cons.1 hx with rfl | hx
          · exact .inl rfl
          · exact (ih hx).imp_right (List.mem_cons_of_mem _)
  rcases hmem hx with rfl | hx
  · exact .inl he
  · exact .inr ⟨x, hx, he⟩

namespace PlanEntry

theorem isPlain_declare {kind : DeclarationKind} {level : Nat} {p : Place} :
    (declare kind level p).IsPlain :=
  nofun

theorem isPlain_announce {kind : DeclarationKind} {name : String} : (announce kind name).IsPlain :=
  nofun

theorem isPlain_fixed {f : Fragment} (h : f.isDeclaration = false) : (fixed f).IsPlain := by
  rintro _ ⟨⟩
  exact h

end PlanEntry

section

variable {tree : Tree} {kind : DeclarationKind} {p : Place} {e : PlanEntry}

theorem isPlain_categoryEntries {c : Category} (h : e ∈ tree.categoryEntries kind p c) : e.IsPlain := by
  cases c with
  | properties =>
    simp only [Tree.categoryEntries, Tree.propertyEntries] at h
    generalize (if kind = .classType then ofKind .property p.children else []) = qs at h
    split at h
    · cases h
    · rw [List.mem_singleton.1 h]
      exact PlanEntry.isPlain_fixed rfl
  | structs =>
    obtain ⟨q, -, h⟩ := List.mem_flatMap.1 h
    rcases List.mem_cons.1 h with rfl | h
    · exact PlanEntry.isPlain_declare
    · obtain ⟨r, -, rfl⟩ := List.mem_map.1 h
      exact PlanEntry.isPlain_declare
  | constructors | methods =>
    obtain ⟨q, -, rfl⟩ := List.mem_map.1 h
    exact PlanEntry.isPlain_declare

theorem isPlain_typeEntries (h : e ∈ tree.typeEntries kind p) : e.IsPlain := by
  rcases List.mem_cons.1 h with rfl | h
  · exact PlanEntry.isPlain_announce
  · rcases List.mem_cons.1 h with rfl | h
    · exact PlanEntry.isPlain_declare
    · simp only [Tree.sectionEntries] at h
      split at h
      · cases h
      · rcases List.mem_cons.1 h with rfl | h
        · exact PlanEntry.isPlain_fixed rfl
        · obtain ⟨c, -, h⟩ := List.mem_flatMap.1 h
          rcases List.mem_cons.1 h with rfl | h
          · exact PlanEntry.isPlain_fixed rfl
          · exact isPlain_categoryEntries h

theorem isPlain_typePages {k : NodeKind} (h : e ∈ tree.typePages kind k) : e.IsPlain := by
  rcases mem_intercalate h with h | ⟨xs, hx, h⟩
  · rw [List.mem_singleton.1 h]
    exact PlanEntry.isPlain_fixed rfl
  · obtain ⟨p, -, rfl⟩ := List.mem_map.1 hx
    exact isPlain_typeEntries h

theorem isPlain_plan {plan : List PlanEntry} (h : tree.plan? = some plan) (he : e ∈ plan) : e.IsPlain := by
  obtain ⟨name, -, rfl⟩ := Option.map_eq_some_iff.1 h
  simp only [List.mem_append, List.mem_cons, List.not_mem_nil, or_false] at he
  rcases he with ((he | he) | he) | he
  · rcases he with rfl | rfl <;> exact PlanEntry.isPlain_fixed rfl
  · exact isPlain_typePages he
  · exact isPlain_typePages he
  · exact he ▸ PlanEntry.isPlain_fixed rfl

end

/-- A unit with a namespace has a plan. -/
theorem plan_of_namespace {tree : Tree} (h : ∃ p ∈ tree.places, p.node.kind = .namespaceUnit) :
    ∃ plan, tree.plan? = some plan := by
  obtain ⟨p, hp, hk⟩ := h
  have hfind : (tree.places.find? (·.node.kind = .namespaceUnit)).isSome = true :=
    List.find?_isSome.2 ⟨p, hp, by simp [hk]⟩
  obtain ⟨q, hq⟩ := Option.isSome_iff_exists.1 hfind
  exact ⟨_, by rw [Tree.plan?, Tree.namespaceName?, hq]; rfl⟩

/-- **The page of every unit with a namespace shows what belongs on it, once.** In every format its text is
that of the fragments that the entries of the plan are shown by, those of the declarations among them being
the plan's declarations in order, each shown as its kind and its level demand; and these are the entries that the
places of the unit are to have. -/
theorem declarations_shown_once (source : String) (renderer : Renderer)
    (h : ∃ p ∈ (Tree.ofSource source).places, p.node.kind = .namespaceUnit) :
    ∃ plan fragments, (Tree.ofSource source).plan? = some plan ∧
      ((Tree.ofSource source).document .isolate).page = .ok fragments ∧
      fragments = plan.filterMap (·.shown? (Tree.ofSource source)) ∧
      renderer.page fragments = String.join (fragments.map renderer.fragment) ∧
      fragments.filter (·.isDeclaration) = (pageEmissions plan).map (·.fragment (Tree.ofSource source)) ∧
      (pageEmissions plan).Perm ((Tree.ofSource source).places.filterMap emissionOf) := by
  obtain ⟨plan, hplan⟩ := plan_of_namespace h
  obtain ⟨hfragments, hstopped⟩ := carryOut_isolate (Tree.ofSource source) plan
  refine ⟨plan, _, hplan, ?_, rfl, rfl, ?_, pageEmissions_perm hplan⟩
  · simp only [Tree.document, hplan, hstopped, hfragments]
  · exact declarations_shown _ _ fun e he => isPlain_plan hplan he

/-- A unit with declarations of every kind, one of them with a comment that cannot be read. -/
def mixedSource : String :=
  "namespace N; class C \x7b C() {} struct S { S() {} }\n/// <x\nvoid M() {} int F() {} \x7d interface I { }"

/-- The theorem there, with the fragments of the declarations that the page shows. -/
theorem declarations_shown_once_sample :
    (∃ p ∈ (Tree.ofSource mixedSource).places, p.node.kind = .namespaceUnit) ∧
    ∃ fragments, ((Tree.ofSource mixedSource).document .isolate).page = .ok fragments ∧
      fragments.filter (·.isDeclaration) =
        [.classEntry ⟨.classType, "C", "class C", "", "", [], []⟩,
          .structEntry ⟨.structType, "S", "struct S", "", "", [], []⟩,
          .memberEntry ⟨.constructor, "S", "S()", "", "", [], []⟩ 4,
          .memberEntry ⟨.constructor, "C", "C()", "", "", [], []⟩ 3,
          .diagnostic .method "M" "malformed documentation comment: invalid name token at 3:1",
          .memberEntry ⟨.method, "F", "int F()", "", "", [], []⟩ 3,
          .interfaceEntry ⟨.interfaceType, "I", "interface I", "", "", [], []⟩] := by
  have h : ∃ p ∈ (Tree.ofSource mixedSource).places, p.node.kind = .namespaceUnit := by
    decide +kernel
  obtain ⟨plan, fragments, hplan, hpage, -, -, hshown, -⟩ :=
    declarations_shown_once _ (Renderer.mk "" fun _ => "") h
  refine ⟨h, fragments, hpage, hshown.trans (Option.some.inj ?_)⟩
  calc some ((pageEmissions plan).map (·.fragment (Tree.ofSource mixedSource)))
      = (Tree.ofSource mixedSource).plan?.map fun plan =>
          (pageEmissions plan).map (·.fragment (Tree.ofSource mixedSource)) := by rw [hplan]; rfl
    _ = some _ := by decide +kernel

end DocPages
