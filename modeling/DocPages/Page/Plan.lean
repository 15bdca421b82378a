/-
The plan of a page: which declarations it shows, in which order and under
which headings. It follows from the declarations alone and does not look at
their comments.

Classes that no type encloses come first, then interfaces, each kind in
document order with separators between them. The page of a type is its own
entry, links to its sections, and one section for every category that has
members.
-/
import DocPages.Page.Fragment

namespace DocPages

open Source (NodeKind Place Tree)

/-- A step of a plan. -/
inductive PlanEntry where
  /-- Tells that a type is about to be shown. -/
  | announce (kind : DeclarationKind) (name : String)
  /-- A fragment that no comment has a part in. -/
  | fixed (f : Fragment)
  /-- The entry of a declaration with a documentation comment. -/
  | declare (kind : DeclarationKind) (level : Nat) (place : Place)

/-- The level of the headings of members. -/
def memberLevel : Nat := 3

/-- The level of the headings of constructors under their structure. -/
def nestedMemberLevel : Nat := 4

namespace Source.Tree

def ofKind (k : NodeKind) (places : List Place) : List Place :=
  places.filter (·.node.kind = k)

/-! ## Sections -/

/-- The entries of the properties of a class, in one table. -/
def propertyEntries (tree : Tree) (kind : DeclarationKind) (p : Place) : List PlanEntry :=
  let properties := if kind = .classType then ofKind .property p.children else []
  if properties.isEmpty then []
  else [.fixed (.propertyTable (properties.map fun q => tree.propertyRow q.node))]

/-- A structure, followed by its own constructors. -/
def structEntries (p : Place) : List PlanEntry :=
  .declare .structType memberLevel p ::
    (ofKind .constructor p.children).map (.declare .constructor nestedMemberLevel ·)

/-- Constructors below a type that do not belong to a structure. -/
def ownConstructors (p : Place) : List Place :=
  (ofKind .constructor p.below).filter fun q => q.parent?.all fun (_, n) => n.kind ≠ .structType

/-- The entries of one category on the page of a type. -/
def categoryEntries (tree : Tree) (kind : DeclarationKind) (p : Place) : Category → List PlanEntry
  | .properties => tree.propertyEntries kind p
  | .structs => (ofKind .structType p.below).flatMap structEntries
  | .constructors => (ownConstructors p).map (.declare .constructor memberLevel ·)
  | .methods => (ofKind .method p.below).map (.declare .method memberLevel ·)

/-- The categories in the order of their sections. -/
def categories : List Category :=
  [.properties, .structs, .constructors, .methods]

/-- The categories that have a section on the page of a type. -/
def categoriesOf (tree : Tree) (kind : DeclarationKind) (p : Place) : List Category :=
  categories.filter fun c => !(tree.categoryEntries kind p c).isEmpty

/-! ## Types -/

/-- The links and sections on the page of a type, if it has any members. -/
def sectionEntries (tree : Tree) (kind : DeclarationKind) (p : Place) : List PlanEntry :=
  let present := tree.categoriesOf kind p
  if present.isEmpty then []
  else .fixed (.navigation present) ::
    present.flatMap fun c => .fixed (.sectionHeading c) :: tree.categoryEntries kind p c

def typeEntries (tree : Tree) (kind : DeclarationKind) (p : Place) : List PlanEntry :=
  .announce kind (tree.nameOf p.node) :: .declare kind memberLevel p :: tree.sectionEntries kind p

/-- The types of a kind that no type encloses. -/
def topLevel (tree : Tree) (k : NodeKind) : List Place :=
  (ofKind k tree.places).filter (!·.isNested)

/-- The pages of all types of a kind, with separators between them. -/
def typePages (tree : Tree) (kind : DeclarationKind) (k : NodeKind) : List PlanEntry :=
  [.fixed .separator].intercalate ((tree.topLevel k).map (tree.typeEntries kind))

/-! ## Whole pages -/

/-- The name of the first namespace, if the unit has one. -/
def namespaceName? (tree : Tree) : Option String :=
  (tree.places.find? (·.node.kind = .namespaceUnit)).map fun p =>
    (p.node.child? .name).elim "" tree.text

/-- The plan of the page of a unit; a unit without a namespace has none. -/
def plan? (tree : Tree) : Option (List PlanEntry) :=
  tree.namespaceName?.map fun name =>
    [.fixed (.opening name), .fixed (.namespaceLine name)] ++
      tree.typePages .classType .classType ++ tree.typePages .interfaceType .interfaceType ++
      [.fixed .closing]

end Source.Tree

end DocPages
