/-
Links on HTML pages. Only the headings of sections have ids, and only the links
of a navigation block lead to any (`Quiet`). On the page of one type they
belong together: its headings have different ids, and its links are those to
its headings. The ids are chosen by category alone, so headings of two types
have the same id where both types have members of one category.
-/
import DocPages.Proofs.HtmlTags

namespace DocPages

open Command (pageOf)
open Source (Place Tree)

namespace Html

/-! ## Reading attributes -/

/-- The attributes in the text after the name of a tag. `name` is what there is of a name, in reverse, and `value?`
the mark and what there is of a value in quotes. -/
def readAttributes (name : List Char) (value? : Option (Char × List Char)) : List Char → List (String × String)
  | [] => []
  | c :: cs =>
    match value? with
    | some (mark, value) =>
      if c = mark then (.ofList name.reverse, .ofList value.reverse) :: readAttributes [] none cs
      else readAttributes name (some (mark, c :: value)) cs
    | none =>
      if c = '"' ∨ c = '\'' then readAttributes name (some (c, [])) cs
      else if c = ' ' then readAttributes [] none cs
      else if c = '=' then readAttributes name none cs
      else readAttributes (c :: name) none cs

/-- The value of an attribute of a tag. -/
def Tag.attribute? (key : String) : Tag → Option String
  | .opening _ attributes => (readAttributes [] none attributes.toList).lookup key
  | .closing _ => none

/-- The values of an attribute, in the order of the tags. -/
def values (key : String) (ts : List Tag) : List String :=
  ts.filterMap (·.attribute? key)

/-- The ids of elements. -/
abbrev ids (ts : List Tag) : List String :=
  values "id" ts

/-- Where links lead. -/
abbrev links (ts : List Tag) : List String :=
  values "href" ts

theorem values_append (key : String) (ts ts' : List Tag) : values key (ts ++ ts') = values key ts ++ values key ts' :=
  List.filterMap_append

theorem values_flatMap {α : Type} (key : String) (tags : α → List Tag) (as : List α) :
    values key (as.flatMap tags) = as.flatMap fun a => values key (tags a) :=
  List.filterMap_flatMap

theorem values_plain (key name : String) (inner : List Tag) :
    values key (element name "" inner) = values key inner := by
  rw [element, List.cons_append, values, List.filterMap_cons_none rfl, ← values, values_append]
  exact List.append_nil _

/-- The tag of a heading of a section. -/
def Tag.isSectionHeading : Tag → Bool
  | .opening name _ => name = "h2"
  | .closing _ => false

/-! ## Tags without ids and links -/

/-- None of these tags has an id or leads anywhere. -/
def Quiet (ts : List Tag) : Prop :=
  ∀ t ∈ ts, t.attribute? "id" = none ∧ t.attribute? "href" = none

instance (ts : List Tag) : Decidable (Quiet ts) :=
  inferInstanceAs (Decidable (∀ t ∈ ts, _ ∧ _))

theorem Quiet.ids_eq {ts : List Tag} (h : Quiet ts) : ids ts = [] :=
  List.filterMap_eq_nil_iff.2 fun t ht => (h t ht).1

theorem Quiet.links_eq {ts : List Tag} (h : Quiet ts) : links ts = [] :=
  List.filterMap_eq_nil_iff.2 fun t ht => (h t ht).2

theorem quiet_nil : Quiet [] :=
  fun _ h => absurd h List.not_mem_nil

theorem Quiet.append {ts ts' : List Tag} (h : Quiet ts) (h' : Quiet ts') : Quiet (ts ++ ts') :=
  List.forall_mem_append.2 ⟨h, h'⟩

theorem Quiet.flatMap {α : Type} {tags : α → List Tag} {as : List α} (h : ∀ a ∈ as, Quiet (tags a)) :
    Quiet (as.flatMap tags) := fun t ht => by
  obtain ⟨a, ha, ht⟩ := List.mem_flatMap.1 ht
  exact h a ha t ht

/-- Attributes that are neither ids nor links. -/
def IsQuiet (attributes : String) : Prop :=
  (readAttributes [] none attributes.toList).lookup "id" = none ∧
    (readAttributes [] none attributes.toList).lookup "href" = none

instance (attributes : String) : Decidable (IsQuiet attributes) :=
  inferInstanceAs (Decidable (_ ∧ _))

theorem Quiet.element {name attributes : String} {inner : List Tag} (hattributes : IsQuiet attributes)
    (h : Quiet inner) : Quiet (element name attributes inner) := by
  rw [Html.element, List.cons_append]
  exact List.forall_mem_cons.2 ⟨hattributes, h.append (List.forall_mem_singleton.2 ⟨rfl, rfl⟩)⟩

theorem quiet_plain {name : String} {inner : List Tag} (h : Quiet inner) : Quiet (element name "" inner) :=
  .element (by decide) h

theorem quiet_row {first second : List Tag} (h : Quiet first) (h' : Quiet second) : Quiet (rowTags first second) :=
  quiet_plain ((quiet_plain h).append (quiet_plain h'))

theorem quiet_table {α : Type} {ofRow : α → List Tag} (h : ∀ a, Quiet (ofRow a)) (rows : List α) :
    Quiet (tableTags ofRow rows) :=
  quiet_plain ((quiet_plain ((quiet_plain quiet_nil).append (quiet_plain quiet_nil))).append
    (.flatMap fun a _ => h a))

theorem quiet_tableIfAny {α : Type} {ofRow : α → List Tag} (h : ∀ a, Quiet (ofRow a)) (rows : List α) :
    Quiet (tableTagsIfAny ofRow rows) := by
  rw [tableTagsIfAny]
  split
  · exact quiet_nil
  · exact quiet_table h rows

theorem quiet_parameter (p : Parameter) : Quiet (parameterTags p) := by
  refine quiet_row (.append (quiet_plain quiet_nil) ?_) quiet_nil
  cases p.default? with
  | none => exact quiet_nil
  | some _ => exact quiet_plain quiet_nil

theorem quiet_entry (d : Declaration) (level : Nat) : Quiet (entryTags d level) := by
  refine .append (.append (quiet_plain (quiet_plain quiet_nil)) (quiet_plain (.element (by decide) quiet_nil))) ?_
  split
  · exact quiet_nil
  · exact quiet_plain quiet_nil

theorem quiet_memberEntry (d : Declaration) (level : Nat) : Quiet (memberEntryTags d level) := by
  refine .append (.append (.append (quiet_entry d level) ?_) (quiet_tableIfAny (fun _ => ?_) _))
    (quiet_tableIfAny quiet_parameter _)
  · split
    · exact quiet_nil
    · exact quiet_plain (quiet_plain quiet_nil)
  · exact quiet_row (quiet_plain quiet_nil) quiet_nil

end Html

/-! ## Headings and links of fragments -/

namespace Fragment

/-- The section that a fragment is the heading of. -/
def heading? : Fragment → Option Category
  | .sectionHeading c => some c
  | _ => none

/-- The sections that a fragment has links to. -/
def linked : Fragment → List Category
  | .navigation categories => categories
  | _ => []

end Fragment

namespace Html

/-- The id of the headings of a category. -/
def anchor (c : Category) : String :=
  Anchor.slug c.title

theorem anchor_injective : Function.Injective anchor := by
  have hproperties : anchor .properties = "properties" := by decide +kernel
  have hstructs : anchor .structs = "structs" := by decide +kernel
  have hconstructors : anchor .constructors = "constructors" := by decide +kernel
  have hmethods : anchor .methods = "methods" := by decide +kernel
  intro c c' h
  cases c <;> cases c' <;> simp [hproperties, hstructs, hconstructors, hmethods] at h ⊢

theorem quiet_fragment {f : Fragment} (hheading : f.heading? = none) (hlinked : ∀ cs, f ≠ .navigation cs) :
    Quiet (fragmentTags f) := by
  cases f with
  | opening name =>
    have hopening : Quiet (fragmentTags (.opening "")) := by decide
    exact hopening
  | namespaceLine => exact quiet_plain (quiet_plain quiet_nil)
  | classEntry d => exact quiet_entry d 1
  | interfaceEntry d => exact quiet_entry d 1
  | structEntry d => exact quiet_entry d 3
  | memberEntry d level => exact quiet_memberEntry d level
  | propertyTable rows => exact quiet_table (fun _ => quiet_row quiet_nil quiet_nil) rows
  | navigation categories => exact absurd rfl (hlinked categories)
  | sectionHeading c => cases hheading
  | separator => decide
  | diagnostic => exact .element (by decide) ((quiet_plain quiet_nil).append (quiet_plain quiet_nil))
  | closing => decide

theorem values_navigation (key : String) (categories : List Category) :
    values key (navigationTags categories) = categories.flatMap fun c => values key (navigationItemTags c) := by
  rw [navigationTags, values_plain, values_append, values_plain, values_plain, values_flatMap]
  rfl

theorem ids_fragment (f : Fragment) : ids (fragmentTags f) = f.heading?.toList.map anchor := by
  cases f with
  | sectionHeading c => cases c <;> decide +kernel
  | navigation categories =>
    have hitem : ∀ c, ids (navigationItemTags c) = [] := fun c => by cases c <;> decide +kernel
    refine (values_navigation "id" categories).trans ?_
    simp [hitem, Fragment.heading?]
  | _ => exact (quiet_fragment rfl fun _ h => Fragment.noConfusion h).ids_eq

theorem links_fragment (f : Fragment) : links (fragmentTags f) = f.linked.map ("#" ++ anchor ·) := by
  cases f with
  | sectionHeading c => cases c <;> decide +kernel
  | navigation categories =>
    have hitem : ∀ c, links (navigationItemTags c) = ["#" ++ anchor c] := fun c => by cases c <;> decide +kernel
    refine (values_navigation "href" categories).trans ?_
    simp only [hitem]
    exact List.map_eq_flatMap.symm
  | _ => exact (quiet_fragment rfl fun _ h => Fragment.noConfusion h).links_eq

/-- Only headings of sections have ids. -/
theorem isSectionHeading_of_id {f : Fragment} {t : Tag} (ht : t ∈ fragmentTags f)
    (hid : (t.attribute? "id").isSome) : t.isSectionHeading = true := by
  cases hheading : f.heading? with
  | none =>
    have hids : ids (fragmentTags f) = [] := by
      rw [ids_fragment, hheading]
      rfl
    rw [List.filterMap_eq_nil_iff.1 hids t ht] at hid
    cases hid
  | some c =>
    cases f with
    | sectionHeading c =>
      rcases List.mem_cons.1 ht with rfl | ht
      · rfl
      · rw [List.mem_singleton.1 ht] at hid
        cases hid
    | _ => cases hheading

end Html

/-! ## The sections of a page -/

/-- The sections whose headings are among some fragments. -/
def headings (fs : List Fragment) : List Category :=
  fs.filterMap Fragment.heading?

theorem headings_append (fs gs : List Fragment) : headings (fs ++ gs) = headings fs ++ headings gs :=
  List.filterMap_append

namespace Html

theorem ids_fragments (fs : List Fragment) : ids (fs.flatMap fragmentTags) = (headings fs).map anchor := by
  have hheadings : headings fs = fs.flatMap fun f => f.heading?.toList := List.filterMap_eq_flatMap_toList ..
  rw [ids, values_flatMap, hheadings, List.map_flatMap]
  exact congrArg (List.flatMap · fs) (funext ids_fragment)

theorem links_fragments (fs : List Fragment) :
    links (fs.flatMap fragmentTags) = (fs.flatMap Fragment.linked).map ("#" ++ anchor ·) := by
  rw [links, values_flatMap, List.map_flatMap]
  exact congrArg (List.flatMap · fs) (funext links_fragment)

end Html

section

variable {tree : Tree} {kind : DeclarationKind} {p : Place}

/-- No heading of a section, and no links. -/
def Fragment.IsUnlinked (f : Fragment) : Prop :=
  f.heading? = none ∧ f.linked = []

theorem isUnlinked_of_isDeclaration {f : Fragment} (h : f.isDeclaration = true) : f.IsUnlinked := by
  cases f <;> first | exact ⟨rfl, rfl⟩ | cases h

theorem isUnlinked_entryOf (level : Nat) : (entryOf tree kind level p).IsUnlinked :=
  isUnlinked_of_isDeclaration (isDeclaration_fragment tree _)

theorem IsSectionBody.isUnlinked {c : Category} {body : List Fragment} (h : IsSectionBody tree p c body) :
    ∀ f ∈ body, f.IsUnlinked := by
  cases h with
  | properties => exact List.forall_mem_singleton.2 ⟨rfl, rfl⟩
  | structs _ _ _ =>
    intro f hf
    obtain ⟨g, -, hf⟩ := List.mem_flatMap.1 hf
    rcases List.mem_cons.1 hf with rfl | hf
    · exact isUnlinked_entryOf 3
    · obtain ⟨q, -, rfl⟩ := List.mem_map.1 hf
      exact isUnlinked_entryOf 4
  | constructors | methods => exact List.forall_mem_map.2 fun q _ => isUnlinked_entryOf 3

theorem headings_unlinked {fs : List Fragment} (h : ∀ f ∈ fs, f.IsUnlinked) :
    headings fs = [] ∧ fs.flatMap Fragment.linked = [] :=
  ⟨List.filterMap_eq_nil_iff.2 fun f hf => (h f hf).1, List.flatMap_eq_nil_iff.2 fun f hf => (h f hf).2⟩

/-- The headings and the links of sections. -/
theorem headings_sections {sections : List (Category × List Fragment)}
    (h : ∀ s ∈ sections, ∀ f ∈ s.2, f.IsUnlinked) :
    headings (sections.flatMap fun s => .sectionHeading s.1 :: s.2) = sections.map Prod.fst ∧
      (sections.flatMap fun s => .sectionHeading s.1 :: s.2).flatMap Fragment.linked = [] := by
  induction sections with
  | nil => exact ⟨rfl, rfl⟩
  | cons s sections ih =>
    rw [List.forall_mem_cons] at h
    obtain ⟨hbody, hlinks⟩ := headings_unlinked h.1
    obtain ⟨hrest, hrestLinks⟩ := ih h.2
    have hheading : headings (.sectionHeading s.1 :: s.2) = s.1 :: headings s.2 := rfl
    rw [List.flatMap_cons, headings_append, hheading, hbody, hrest, List.flatMap_append, hrestLinks,
      List.flatMap_cons, hlinks]
    exact ⟨rfl, rfl⟩

/-- Links and sections belong together. -/
theorem headings_sectionFragments {sections : List (Category × List Fragment)}
    (h : ∀ s ∈ sections, ∀ f ∈ s.2, f.IsUnlinked) :
    headings (sectionFragments sections) = sections.map Prod.fst ∧
      (sectionFragments sections).flatMap Fragment.linked = sections.map Prod.fst := by
  obtain ⟨hheadings, hlinks⟩ := headings_sections h
  cases sections with
  | nil => exact ⟨rfl, rfl⟩
  | cons s sections =>
    refine ⟨hheadings, ?_⟩
    calc (sectionFragments (s :: sections)).flatMap Fragment.linked
      _ = (s :: sections).map Prod.fst ++
          ((s :: sections).flatMap fun s => .sectionHeading s.1 :: s.2).flatMap Fragment.linked := rfl
      _ = (s :: sections).map Prod.fst := by rw [hlinks, List.append_nil]

/-- The page of a type has links to its own sections, of which no two are of one category. -/
theorem IsTypePage.headings_eq {page : List Fragment} (h : IsTypePage tree kind p page) :
    page.flatMap Fragment.linked = headings page ∧ (headings page).Nodup := by
  obtain ⟨order, -, bodies⟩ := h
  rename_i sections
  obtain ⟨hheadings, hlinks⟩ := headings_sectionFragments fun s hs => (bodies s hs).isUnlinked
  obtain ⟨hentry, hentryLinks⟩ := @isUnlinked_entryOf tree kind p 3
  rw [List.flatMap_cons, hentryLinks, hlinks, headings, List.filterMap_cons_none hentry, ← headings, hheadings]
  exact ⟨rfl, order.nodup (by decide)⟩

end

/-! ## Links of whole pages -/

theorem nil_intercalate {α : Type} : ∀ xs : List (List α), ([] : List α).intercalate xs = xs.flatten
  | [] => rfl
  | [x] => by simp
  | x :: y :: ys => by
    rw [List.intercalate_cons_cons, nil_intercalate (y :: ys), List.append_nil]
    rfl

/-- What stands between the pages of types has no heading of a section. -/
theorem headings_page (name : String) (classPages interfacePages : List (List Fragment)) :
    headings ([.opening name, .namespaceLine name] ++ [.separator].intercalate classPages ++
      [.separator].intercalate interfacePages ++ [.closing]) =
      (classPages ++ interfacePages).flatMap headings := by
  have hpages : ∀ pages : List (List Fragment), headings ([.separator].intercalate pages) = pages.flatMap headings :=
    fun pages => by
      rw [headings, filterMap_intercalate, List.flatMap]
      exact nil_intercalate _
  rw [headings_append, headings_append, headings_append, hpages, hpages, List.flatMap_append]
  exact List.append_nil _

/-- Ids on a page differ unless two types of the page have sections of one category. -/
theorem nodup_headings {pages : List (List Fragment)} (h : ∀ page ∈ pages, (headings page).Nodup) :
    (pages.flatMap headings).Nodup ↔
      pages.Pairwise fun page page' => ∀ c, .sectionHeading c ∈ page → .sectionHeading c ∉ page' := by
  have hmem : ∀ (page : List Fragment) c, c ∈ headings page ↔ .sectionHeading c ∈ page := fun page c => by
    rw [headings, List.mem_filterMap]
    constructor
    · rintro ⟨f, hf, hc⟩
      cases f <;> cases hc
      exact hf
    · exact fun h => ⟨_, h, rfl⟩
  rw [List.nodup_flatMap, and_iff_right h]
  refine iff_of_eq (congrArg (List.Pairwise · pages) ?_)
  funext page page'
  simp [Function.onFun, List.Disjoint, hmem]

/-- A text in which the elements with ids have different ones, and links lead to these elements, to each of them
once and in their order. -/
def Html.LinksWithin (text : String) : Prop :=
  ∃ tags, tags? text = some tags ∧ (ids tags).Nodup ∧ links tags = (ids tags).map ("#" ++ ·)

/-- The links of some fragments stay within them if they are those to the sections there, one of each category. -/
theorem Html.linksWithin_page {page : List Fragment} : Html.LinksWithin (Html.renderer.page page) ↔
    page.flatMap Fragment.linked = headings page ∧ (headings page).Nodup := by
  have hlink : Function.Injective fun c => "#" ++ Html.anchor c := fun c c' h =>
    Html.anchor_injective (by simpa [← String.toList_inj, String.toList_append] using h)
  have hids : ((headings page).map Html.anchor).map ("#" ++ ·) = (headings page).map ("#" ++ Html.anchor ·) := by
    rw [List.map_map]
    rfl
  simp only [Html.LinksWithin, (Html.reads_page page).tags?_eq, Option.some.injEq, exists_eq_left', Html.ids_fragments,
    Html.links_fragments, List.nodup_map_iff Html.anchor_injective, hids, (List.map_injective_iff.2 hlink).eq_iff,
    and_comm]

theorem IsTypePage.linksWithin {tree : Tree} {kind : DeclarationKind} {p : Place} {page : List Fragment}
    (h : IsTypePage tree kind p page) : Html.LinksWithin (Html.renderer.page page) :=
  Html.linksWithin_page.2 h.headings_eq

/-- The sections of a page can be told from its text. -/
theorem Html.headings_eq_of_text {fs gs : List Fragment} (h : Html.renderer.page fs = Html.renderer.page gs) :
    headings fs = headings gs := by
  have htags := (Html.reads_page fs).tags?_eq
  rw [h, (Html.reads_page gs).tags?_eq, Option.some.injEq] at htags
  have hids := Html.ids_fragments fs
  rw [← htags, Html.ids_fragments] at hids
  exact (List.map_injective_iff.2 Html.anchor_injective hids).symm

/-- **Links of a type lead to its own sections.** Only headings of sections have ids. On the page of each type these
ids differ, and the links of the type are those to its headings. On a whole page they differ exactly if no two types
have sections of one category. -/
theorem section_links {source : String} {policy : Policy} {text : String}
    (h : (pageOf Html.renderer policy source).2 = .ok text) :
    ∃ name classes interfaces classPages interfacePages tags,
      AreTopLevel (Tree.ofSource source) .classType classes ∧
      AreTopLevel (Tree.ofSource source) .interfaceType interfaces ∧
      List.Forall₂ (IsTypePage (Tree.ofSource source) .classType) classes classPages ∧
      List.Forall₂ (IsTypePage (Tree.ofSource source) .interfaceType) interfaces interfacePages ∧
      text = Html.renderer.page ([.opening name, .namespaceLine name] ++ [.separator].intercalate classPages ++
        [.separator].intercalate interfacePages ++ [.closing]) ∧
      Html.tags? text = some tags ∧
      (∀ t ∈ tags, (t.attribute? "id").isSome → t.isSectionHeading) ∧
      (∀ page ∈ classPages ++ interfacePages, Html.LinksWithin (Html.renderer.page page)) ∧
      ((Html.ids tags).Nodup ↔ (classPages ++ interfacePages).Pairwise fun page page' =>
        ∀ c, .sectionHeading c ∈ page → .sectionHeading c ∉ page') := by
  obtain ⟨fragments, hpage, rfl⟩ := page_of_pageOf h
  obtain ⟨plan, hplan, hfragments⟩ := fragments_of_page hpage
  have hshape : IsPage (Tree.ofSource source) fragments := hfragments ▸ isPage_plan hplan
  obtain ⟨-, areClasses, areInterfaces, ofClasses, ofInterfaces⟩ := hshape
  rename_i name classes interfaces classPages interfacePages
  have hpages : ∀ page ∈ classPages ++ interfacePages,
      ∃ kind p, IsTypePage (Tree.ofSource source) kind p page := fun page hp => by
    rcases List.mem_append.1 hp with hp | hp
    · exact ⟨.classType, typePage_of_mem ofClasses page hp⟩
    · exact ⟨.interfaceType, typePage_of_mem ofInterfaces page hp⟩
  refine ⟨name, classes, interfaces, classPages, interfacePages, _, areClasses, areInterfaces, ofClasses,
    ofInterfaces, rfl, (Html.reads_page _).tags?_eq, fun t ht hid => ?_, fun page hp => ?_, ?_⟩
  · obtain ⟨f, -, ht⟩ := List.mem_flatMap.1 ht
    exact Html.isSectionHeading_of_id ht hid
  · obtain ⟨kind, p, hpage⟩ := hpages page hp
    exact hpage.linksWithin
  · rw [Html.ids_fragments, headings_page, List.nodup_map_iff Html.anchor_injective]
    refine nodup_headings fun page hp => ?_
    obtain ⟨kind, p, hpage⟩ := hpages page hp
    exact hpage.headings_eq.2

/-- Two classes with a method each, so that both have a section for methods. -/
def twoClasses : String :=
  "namespace N; class A \x7b void M() \x7b\x7d \x7d class B \x7b void M() \x7b\x7d \x7d"

/-- A pair of equal things that is cut into two parts without repetition is cut in the middle. -/
theorem eq_of_append_eq_pair {α : Type} {a : α} {xs ys : List α} (hxs : xs.Nodup) (hys : ys.Nodup)
    (h : xs ++ ys = [a, a]) : xs = [a] ∧ ys = [a] := by
  cases xs with
  | nil =>
    obtain rfl : ys = [a, a] := h
    simp at hys
  | cons x xs =>
    cases xs with
    | nil => simpa using h
    | cons y xs =>
      simp only [List.cons_append, List.cons.injEq] at h
      obtain ⟨rfl, rfl, -⟩ := h
      simp at hxs

theorem exists_page_twoClasses : ∃ fragments,
    (pageOf Html.renderer .isolate twoClasses).2 = .ok (Html.renderer.page fragments) ∧
      headings fragments = [.methods, .methods] := by
  have hheadings : ((Tree.ofSource twoClasses).document .isolate).page.toOption.map headings =
      some [.methods, .methods] := by
    decide +kernel
  cases hpage : ((Tree.ofSource twoClasses).document .isolate).page with
  | error e =>
    rw [hpage] at hheadings
    cases hheadings
  | ok fragments =>
    rw [hpage] at hheadings
    exact ⟨fragments, by rw [pageOf, hpage]; rfl, Option.some.inj hheadings⟩

/-- The theorem there: each class has a link to its own section, and both sections have the same id. -/
theorem section_links_sample : ∃ text name page page' tags,
    (pageOf Html.renderer .isolate twoClasses).2 = .ok text ∧
    text = Html.renderer.page ([.opening name, .namespaceLine name] ++ [.separator].intercalate [page, page'] ++
      [.separator].intercalate [] ++ [.closing]) ∧
    (∀ p ∈ [page, page'], ∃ inner, Html.tags? (Html.renderer.page p) = some inner ∧
      Html.ids inner = ["methods"] ∧ Html.links inner = ["#methods"]) ∧
    Html.tags? text = some tags ∧ Html.ids tags = ["methods", "methods"] := by
  obtain ⟨fragments, h, hheadings⟩ := exists_page_twoClasses
  obtain ⟨name, classes, interfaces, classPages, interfacePages, tags, areClasses, areInterfaces, ofClasses,
    ofInterfaces, htext, htags, -, hwithin, -⟩ := section_links h
  have hclasses : classPages.length = 2 :=
    ofClasses.length_eq.symm.trans (areClasses.perm.length_eq.trans (by decide +kernel))
  have hinterfaces : interfacePages.length = 0 :=
    ofInterfaces.length_eq.symm.trans (areInterfaces.perm.length_eq.trans (by decide +kernel))
  obtain ⟨page, page', rfl⟩ := List.length_eq_two.1 hclasses
  obtain rfl := List.length_eq_zero_iff.1 hinterfaces
  have hpages : ∀ p ∈ [page, page'], p.flatMap Fragment.linked = headings p ∧ (headings p).Nodup := fun p hp =>
    Html.linksWithin_page.1 (hwithin p (by simpa using hp))
  have hsections := Html.headings_eq_of_text htext
  rw [headings_page, hheadings] at hsections
  obtain ⟨hfirst, hsecond⟩ : headings page = [.methods] ∧ headings page' = [.methods] :=
    eq_of_append_eq_pair (hpages page (by simp)).2 (hpages page' (by simp)).2 (by simpa using hsections.symm)
  refine ⟨_, name, page, page', tags, h, htext, fun p hp => ?_, htags, ?_⟩
  · have hown : headings p = [.methods] := by
      rcases List.mem_pair.1 hp with rfl | rfl
      · exact hfirst
      · exact hsecond
    refine ⟨_, (Html.reads_page p).tags?_eq, ?_, ?_⟩
    · rw [Html.ids_fragments, hown]
      decide +kernel
    · rw [Html.links_fragments, (hpages p hp).1, hown]
      decide +kernel
  · obtain rfl := Option.some.inj ((Html.reads_page fragments).tags?_eq.symm.trans htags)
    rw [Html.ids_fragments, hheadings]
    decide +kernel

/-- The ids on a page may be equal: those of two classes with methods are. -/
theorem ids_not_always_distinct :
    ¬ ∀ (source : String) (policy : Policy) (text : String), (pageOf Html.renderer policy source).2 = .ok text →
      ∃ tags, Html.tags? text = some tags ∧ (Html.ids tags).Nodup := by
  intro hall
  obtain ⟨fragments, hpage, hheadings⟩ := exists_page_twoClasses
  obtain ⟨tags, htags, hnodup⟩ := hall twoClasses .isolate (Html.renderer.page fragments) hpage
  rw [(Html.reads_page fragments).tags?_eq, Option.some.injEq] at htags
  rw [← htags, Html.ids_fragments, hheadings, List.map_cons, List.map_cons, List.nodup_cons] at hnodup
  exact hnodup.1 List.mem_cons_self

end DocPages
