/-
How a page is laid out, whatever the format and the policy. Between its opening
and its closing stand the pages of the classes that no type encloses, then those
of such interfaces, each kind in document order and with separators between
them (`IsPage`). The page of a type is its own entry, followed by links and
sections exactly for the categories that have members (`IsTypePage`). So links,
headings and entries, which are found by separate scans of the tree, agree.
-/
import DocPages.Proofs.Policies

namespace DocPages

open Command (pageOf)
open Source (Node NodeKind Place Tree)
open Source.Tree (ofKind)

/-! ## The shape of a page -/

/-- The fragment that the declaration at a place is shown by: its entry, or a diagnostic in its stead. -/
def entryOf (tree : Tree) (kind : DeclarationKind) (level : Nat) (p : Place) : Fragment :=
  Emission.fragment tree ⟨kind, level, p, ⟨none, none, none⟩⟩

/-- A constructor below a type that does not belong to a structure. -/
def IsLooseConstructor (p q : Place) : Prop :=
  q ∈ p.below ∧ q.node.kind = .constructor ∧ ∃ i m, q.parent? = some (i, m) ∧ m.kind ≠ .structType

/-- The type at a place, shown as a declaration of a kind, has members of a category. -/
def HasMembers (kind : DeclarationKind) (p : Place) : Category → Prop
  | .properties => kind = .classType ∧ ∃ n ∈ p.node.children, n.kind = .property
  | .structs => ∃ q ∈ p.below, q.node.kind = .structType
  | .constructors => ∃ q, IsLooseConstructor p q
  | .methods => ∃ q ∈ p.below, q.node.kind = .method

/-- What stands under the heading of a category on the page of a type: entries of that category, at least one
of them. The constructors of a structure go with its entry, and properties have one table. -/
inductive IsSectionBody (tree : Tree) (p : Place) : Category → List Fragment → Prop where
  | properties (ne : p.node.childrenOf .property ≠ []) :
      IsSectionBody tree p .properties [.propertyTable ((p.node.childrenOf .property).map tree.propertyRow)]
  | structs {groups : List (Place × List Place)} (ne : groups ≠ [])
      (structures : ∀ g ∈ groups, g.1 ∈ p.below ∧ g.1.node.kind = .structType)
      (constructors : ∀ g ∈ groups, ∀ q ∈ g.2, q ∈ g.1.children ∧ q.node.kind = .constructor) :
      IsSectionBody tree p .structs
        (groups.flatMap fun g => entryOf tree .structType 3 g.1 :: g.2.map (entryOf tree .constructor 4))
  | constructors {qs : List Place} (ne : qs ≠ []) (each : ∀ q ∈ qs, IsLooseConstructor p q) :
      IsSectionBody tree p .constructors (qs.map (entryOf tree .constructor 3))
  | methods {qs : List Place} (ne : qs ≠ []) (each : ∀ q ∈ qs, q ∈ p.below ∧ q.node.kind = .method) :
      IsSectionBody tree p .methods (qs.map (entryOf tree .method 3))

/-- Links to sections and the sections themselves, nothing if there are none. -/
def sectionFragments : List (Category × List Fragment) → List Fragment
  | [] => []
  | sections =>
    .navigation (sections.map Prod.fst) :: sections.flatMap fun s => .sectionHeading s.1 :: s.2

/-- The page of the type at a place: its own entry, and a section for every category that has members. -/
inductive IsTypePage (tree : Tree) (kind : DeclarationKind) (p : Place) : List Fragment → Prop where
  | intro {sections : List (Category × List Fragment)}
      (order : (sections.map Prod.fst).Sublist [.properties, .structs, .constructors, .methods])
      (present : ∀ c, c ∈ sections.map Prod.fst ↔ HasMembers kind p c)
      (bodies : ∀ s ∈ sections, IsSectionBody tree p s.1 s.2) :
      IsTypePage tree kind p (entryOf tree kind 3 p :: sectionFragments sections)

/-- The places are those of the types of a kind that no type encloses, in document order. -/
structure AreTopLevel (tree : Tree) (k : NodeKind) (ps : List Place) : Prop where
  order : ps.Sublist tree.places
  all : ∀ p ∈ tree.places, p ∈ ps ↔ p.node.kind = k ∧ ∀ a ∈ p.above, a.2.kind.isTypeDeclaration = false

/-- The page of a unit. -/
inductive IsPage (tree : Tree) : List Fragment → Prop where
  | intro {name : String} {classes interfaces : List Place} {classPages interfacePages : List (List Fragment)}
      (named : tree.namespaceName? = some name)
      (areClasses : AreTopLevel tree .classType classes)
      (areInterfaces : AreTopLevel tree .interfaceType interfaces)
      (ofClasses : List.Forall₂ (IsTypePage tree .classType) classes classPages)
      (ofInterfaces : List.Forall₂ (IsTypePage tree .interfaceType) interfaces interfacePages) :
      IsPage tree ([.opening name, .namespaceLine name] ++ [.separator].intercalate classPages ++
        [.separator].intercalate interfacePages ++ [.closing])

/-! ## Members of a category -/

theorem mem_ownConstructors {p q : Place} : q ∈ Tree.ownConstructors p ↔ IsLooseConstructor p q := by
  simp only [Tree.ownConstructors, List.mem_filter, mem_ofKind, IsLooseConstructor, and_assoc]
  refine and_congr_right fun hq => and_congr_right fun _ => ?_
  obtain ⟨i, m, hparent⟩ := Source.parent_of_mem_below hq
  simp [hparent]

theorem ofKind_ne_nil_iff {k : NodeKind} {ps : List Place} :
    ofKind k ps ≠ [] ↔ ∃ q ∈ ps, q.node.kind = k := by
  simp [ofKind]

theorem nodes_ofKind_children (k : NodeKind) (p : Place) :
    (ofKind k p.children).map (·.node) = p.node.childrenOf k := by
  rw [Node.childrenOf, ← p.nodes_children, List.filter_map]
  rfl

/-- What a category shows is empty exactly where it has no members. -/
theorem categoryEntries_ne_nil_iff (tree : Tree) (kind : DeclarationKind) (p : Place) (c : Category) :
    tree.categoryEntries kind p c ≠ [] ↔ HasMembers kind p c := by
  cases c with
  | properties =>
    have hchildren : (∃ n ∈ p.node.children, n.kind = .property) ↔ ofKind .property p.children ≠ [] := by
      rw [ofKind_ne_nil_iff, ← p.nodes_children]
      simp
    simp only [HasMembers, hchildren, Tree.categoryEntries, Tree.propertyEntries]
    by_cases hk : kind = .classType <;> simp [hk]
  | structs =>
    rw [HasMembers, ← ofKind_ne_nil_iff, Tree.categoryEntries, ne_eq, List.flatMap_eq_nil_iff,
      ne_eq, List.eq_nil_iff_forall_not_mem]
    simp [Tree.structEntries]
  | constructors =>
    rw [Tree.categoryEntries, ne_eq, List.map_eq_nil_iff, List.eq_nil_iff_forall_not_mem]
    simp [HasMembers, mem_ownConstructors]
  | methods =>
    rw [HasMembers, ← ofKind_ne_nil_iff, Tree.categoryEntries, ne_eq, List.map_eq_nil_iff]

/-! ## From plans to pages -/

section

variable {tree : Tree} {kind : DeclarationKind} {p : Place}

theorem shownBy_declarations (kind : DeclarationKind) (level : Nat) (qs : List Place) :
    shownBy tree (qs.map (.declare kind level ·)) = qs.map (entryOf tree kind level) := by
  rw [shownBy, List.filterMap_map]
  exact congrFun List.filterMap_eq_map' qs

theorem shownBy_structEntries (q : Place) : shownBy tree (Tree.structEntries q) =
    entryOf tree .structType 3 q :: (ofKind .constructor q.children).map (entryOf tree .constructor 4) := by
  rw [← shownBy_declarations]
  rfl

/-- What is shown of a category that has members is the body of a section. -/
theorem isSectionBody_of_categoryEntries {c : Category} (h : tree.categoryEntries kind p c ≠ []) :
    IsSectionBody tree p c (shownBy tree (tree.categoryEntries kind p c)) := by
  cases c with
  | properties =>
    obtain ⟨hk, n, hn, hp⟩ := (categoryEntries_ne_nil_iff tree kind p .properties).1 h
    have hentries : tree.categoryEntries kind p .properties =
        [.fixed (.propertyTable ((p.node.childrenOf .property).map tree.propertyRow))] := by
      simp only [Tree.categoryEntries, Tree.propertyEntries, hk, if_true] at h ⊢
      rw [← nodes_ofKind_children, List.map_map]
      exact if_neg fun he => h (if_pos he)
    rw [hentries]
    exact .properties (List.ne_nil_of_mem (List.mem_filter.2 ⟨hn, by simp [hp]⟩))
  | structs =>
    have hne : ofKind .structType p.below ≠ [] := fun he => h (by rw [Tree.categoryEntries, he]; rfl)
    have hgroups : shownBy tree (tree.categoryEntries kind p .structs) =
        ((ofKind .structType p.below).map fun q => (q, ofKind .constructor q.children)).flatMap fun g =>
          entryOf tree .structType 3 g.1 :: g.2.map (entryOf tree .constructor 4) := by
      rw [Tree.categoryEntries, shownBy, List.filterMap_flatMap, List.flatMap_map]
      exact congrArg (List.flatMap · _) (funext shownBy_structEntries)
    rw [hgroups]
    refine .structs (by simpa using hne) (fun g hg => ?_) fun g hg r hr => ?_
    · obtain ⟨q, hq, rfl⟩ := List.mem_map.1 hg
      exact mem_ofKind.1 hq
    · obtain ⟨q, hq, rfl⟩ := List.mem_map.1 hg
      exact mem_ofKind.1 hr
  | constructors =>
    rw [Tree.categoryEntries, shownBy_declarations]
    exact .constructors (by simpa [Tree.categoryEntries] using h) fun q => mem_ownConstructors.1
  | methods =>
    rw [Tree.categoryEntries, shownBy_declarations]
    exact .methods (by simpa [Tree.categoryEntries] using h) fun q => mem_ofKind.1

/-- The sections on the page of a type, with what is shown in each. -/
def sectionsOf (tree : Tree) (kind : DeclarationKind) (p : Place) : List (Category × List Fragment) :=
  (tree.categoriesOf kind p).map fun c => (c, shownBy tree (tree.categoryEntries kind p c))

theorem map_fst_sectionsOf : (sectionsOf tree kind p).map Prod.fst = tree.categoriesOf kind p := by
  rw [sectionsOf, List.map_map]
  exact List.map_id _

theorem shownBy_sectionEntries :
    shownBy tree (tree.sectionEntries kind p) = sectionFragments (sectionsOf tree kind p) := by
  have hbodies : ∀ cs : List Category,
      shownBy tree (cs.flatMap fun c => .fixed (.sectionHeading c) :: tree.categoryEntries kind p c) =
        (cs.map fun c => (c, shownBy tree (tree.categoryEntries kind p c))).flatMap fun s =>
          .sectionHeading s.1 :: s.2 := fun cs => by
    rw [shownBy, List.filterMap_flatMap, List.flatMap_map]
    rfl
  have hlinks : (sectionsOf tree kind p).map Prod.fst = tree.categoriesOf kind p := map_fst_sectionsOf
  rw [sectionsOf] at hlinks ⊢
  rw [Tree.sectionEntries]
  cases hc : tree.categoriesOf kind p with
  | nil => rfl
  | cons c cs =>
    rw [hc] at hlinks
    exact congrArg₂ List.cons (congrArg Fragment.navigation hlinks.symm) (hbodies (c :: cs))

/-- What is shown of a type is its page. -/
theorem isTypePage_typeEntries (tree : Tree) (kind : DeclarationKind) (p : Place) :
    IsTypePage tree kind p (shownBy tree (tree.typeEntries kind p)) := by
  have hshown : shownBy tree (tree.typeEntries kind p) =
      entryOf tree kind 3 p :: sectionFragments (sectionsOf tree kind p) := by
    rw [← shownBy_sectionEntries]
    rfl
  rw [hshown]
  refine .intro ?_ (fun c => ?_) fun s hs => ?_
  · rw [map_fst_sectionsOf]
    exact List.filter_sublist
  · have hall : c ∈ Tree.categories := by cases c <;> decide
    rw [map_fst_sectionsOf, ← categoryEntries_ne_nil_iff tree, Tree.categoriesOf, List.mem_filter]
    simp [hall]
  · obtain ⟨c, hc, rfl⟩ := List.mem_map.1 hs
    exact isSectionBody_of_categoryEntries (by simpa using (List.mem_filter.1 hc).2)

end

theorem filterMap_intercalate {α β : Type} (f : α → Option β) (sep : List α) :
    ∀ xs : List (List α), (sep.intercalate xs).filterMap f =
      (sep.filterMap f).intercalate (xs.map (List.filterMap f))
  | [] => rfl
  | [x] => by simp
  | x :: y :: ys => by
    have ih := filterMap_intercalate f sep (y :: ys)
    simp only [List.map_cons, List.intercalate, List.intersperse, List.flatten_cons,
      List.filterMap_append] at ih ⊢
    rw [ih]

/-- What is shown of the types of a kind is their pages, with separators between them. -/
theorem shownBy_typePages (tree : Tree) (kind : DeclarationKind) (k : NodeKind) :
    ∃ pages, shownBy tree (tree.typePages kind k) = [.separator].intercalate pages ∧
      List.Forall₂ (IsTypePage tree kind) (tree.topLevel k) pages := by
  refine ⟨(tree.topLevel k).map fun p => shownBy tree (tree.typeEntries kind p), ?_, ?_⟩
  · rw [Tree.typePages, shownBy, filterMap_intercalate, List.map_map]
    rfl
  · rw [List.forall₂_map_right_iff, List.forall₂_same]
    exact fun p _ => isTypePage_typeEntries tree kind p

/-- A page of types is that of one of them. -/
theorem typePage_of_mem {tree : Tree} {kind : DeclarationKind} {places : List Place} {pages : List (List Fragment)}
    (h : List.Forall₂ (IsTypePage tree kind) places pages) : ∀ page ∈ pages, ∃ p, IsTypePage tree kind p page := by
  intro page hpage
  obtain ⟨i, hi, rfl⟩ := List.mem_iff_getElem.1 hpage
  exact ⟨_, h.get (h.length_eq ▸ hi) hi⟩

theorem areTopLevel_topLevel (tree : Tree) (k : NodeKind) : AreTopLevel tree k (tree.topLevel k) where
  order := List.filter_sublist.trans List.filter_sublist
  all p hp := by simp [mem_topLevel, hp, Place.isNested]

/-- The types of a kind that no type encloses are determined by the unit. -/
theorem AreTopLevel.perm {tree : Tree} {k : NodeKind} {ps : List Place} (h : AreTopLevel tree k ps) :
    ps.Perm (tree.topLevel k) := by
  have hplaces : tree.places.Nodup := nodup_places tree.root
  have htop := areTopLevel_topLevel tree k
  refine (List.perm_ext_iff_of_nodup (h.order.nodup hplaces) (htop.order.nodup hplaces)).2 fun p => ⟨fun hp => ?_,
    fun hp => ?_⟩
  · have hmem := h.order.subset hp
    exact (htop.all p hmem).2 ((h.all p hmem).1 hp)
  · have hmem := htop.order.subset hp
    exact (h.all p hmem).2 ((htop.all p hmem).1 hp)

/-- What is shown of the plan of a unit is its page. -/
theorem isPage_plan {tree : Tree} {plan : List PlanEntry} (h : tree.plan? = some plan) :
    IsPage tree (shownBy tree plan) := by
  obtain ⟨name, hname, rfl⟩ := Option.map_eq_some_iff.1 h
  obtain ⟨classPages, hclasses, ofClasses⟩ := shownBy_typePages tree .classType .classType
  obtain ⟨interfacePages, hinterfaces, ofInterfaces⟩ := shownBy_typePages tree .interfaceType .interfaceType
  have hpage := IsPage.intro hname (areTopLevel_topLevel tree _) (areTopLevel_topLevel tree _) ofClasses
    ofInterfaces
  rw [← hclasses, ← hinterfaces] at hpage
  rw [shownBy, List.filterMap_append, List.filterMap_append, List.filterMap_append]
  exact hpage

/-- A text that a renderer makes of a unit is that of the fragments of its page. -/
theorem page_of_pageOf {renderer : Renderer} {policy : Policy} {source text : String}
    (h : (pageOf renderer policy source).2 = .ok text) :
    ∃ fragments, ((Tree.ofSource source).document policy).page = .ok fragments ∧
      text = renderer.page fragments := by
  rw [pageOf] at h
  cases hpage : ((Tree.ofSource source).document policy).page with
  | error e =>
    rw [hpage] at h
    cases h
  | ok fragments =>
    rw [hpage] at h
    exact ⟨fragments, rfl, (Except.ok.inj h).symm⟩

/-- **Navigation, sections and separators agree.** Where a unit has a page, every renderer is given the same
fragments in the same order, and they are laid out as a page. -/
theorem page_sections {source : String} {policy : Policy} {renderer : Renderer} {text : String}
    (h : (pageOf renderer policy source).2 = .ok text) :
    ∃ fragments, (∀ r : Renderer, (pageOf r policy source).2 = .ok (r.page fragments)) ∧
      IsPage (Tree.ofSource source) fragments := by
  obtain ⟨fragments, hpage, -⟩ := page_of_pageOf h
  obtain ⟨plan, hplan, rfl⟩ := fragments_of_page hpage
  exact ⟨_, fun r => by rw [pageOf, hpage]; rfl, isPage_plan hplan⟩

/-- Two classes and an interface; one class has a property, a structure with a constructor of its own and a
method, and the comment of the other cannot be read. -/
def sectionedSource : String :=
  "namespace N; class A { int P => 1; struct S { S() {} } void M() {} }\n/// <\nclass B {} interface I {}"

/-- Prints the links of each type in brackets, the headings of sections behind them, and a stroke between types. -/
def outlineRenderer : Renderer where
  extension := ""
  fragment
    | .navigation categories => "[" ++ " ".intercalate (categories.map Category.title) ++ "]"
    | .sectionHeading category => " " ++ category.title
    | .separator => "|"
    | _ => ""

/-- The theorem there. The class has links and sections for its properties, structures and methods, and not for the
constructor, which goes with the structure; the other types have none. -/
theorem page_sections_sample :
    (pageOf outlineRenderer .isolate sectionedSource).2 =
      .ok "[Properties Structs Methods] Properties Structs Methods|" ∧
    ∃ fragments, IsPage (Tree.ofSource sectionedSource) fragments ∧
      outlineRenderer.page fragments = "[Properties Structs Methods] Properties Structs Methods|" := by
  have h : (pageOf outlineRenderer .isolate sectionedSource).2 =
      .ok "[Properties Structs Methods] Properties Structs Methods|" := by
    decide +kernel
  obtain ⟨fragments, hrendered, hpage⟩ := page_sections h
  exact ⟨h, fragments, hpage, Except.ok.inj ((hrendered outlineRenderer).symm.trans h)⟩

end DocPages
