/-
Nodes of a source unit: declarations and the parts of their headers. A node
covers a range of tokens, given by index; its name and its modifiers are single
tokens of that range, outside the ranges of its children.

`Node.places` lists a node and everything below it in document order. A place
is a node together with its number in that order and the nodes above it.
-/

namespace DocPages.Source

/-! ## Kinds -/

inductive NodeKind where
  | compilationUnit
  /-- A namespace, with its own block or to the end of the file. -/
  | namespaceUnit
  /-- The dotted name of a namespace. -/
  | name
  | classType
  | interfaceType
  | structType
  | recordType
  | enumType
  | constructor
  | method
  | property
  /-- A member that has no page of its own: fields, events, indexers, operators, delegates. -/
  | member
  | attributeList
  | type
  | typeParameterList
  | typeParameter
  | parameterList
  | parameter
  /-- The value of an optional parameter, without the equals sign. -/
  | defaultValue
  | constraintClause
  | baseList
  | constructorInitializer
  /-- The interface in front of the name of an explicitly implemented member. -/
  | explicitInterface
  | block
  /-- A body that is one expression. -/
  | arrowBody
  | accessorList
deriving DecidableEq, Repr

namespace NodeKind

/-- The bodies of methods, constructors and properties. -/
def isBody (k : NodeKind) : Bool :=
  k = .block || k = .arrowBody

def isTypeDeclaration (k : NodeKind) : Bool :=
  k = .classType || k = .interfaceType || k = .structType || k = .recordType || k = .enumType

end NodeKind

/-! ## Nodes -/

structure Node where
  kind : NodeKind
  /-- The index of the first token covered. -/
  start : Nat
  /-- The index just past the last token covered. -/
  stop : Nat
  name? : Option Nat
  modifiers : List Nat
  children : List Node

namespace Node

/-- The first child of a kind. -/
def child? (n : Node) (k : NodeKind) : Option Node :=
  n.children.find? (·.kind = k)

def childrenOf (n : Node) (k : NodeKind) : List Node :=
  n.children.filter (·.kind = k)

end Node

mutual

/-- The number of nodes in a tree. -/
def Node.size : Node → Nat
  | ⟨_, _, _, _, _, children⟩ => 1 + sizeOfAll children

def sizeOfAll : List Node → Nat
  | [] => 0
  | n :: rest => n.size + sizeOfAll rest

end

/-! ## Places -/

/-- A node in its tree. -/
structure Place where
  /-- The position of the node in document order, the root having number 0. -/
  number : Nat
  node : Node
  /-- The nodes above it with their numbers, the nearest first. -/
  above : List (Nat × Node)

namespace Place

def parent? (p : Place) : Option (Nat × Node) :=
  p.above.head?

/-- Whether some type declaration encloses the node. -/
def isNested (p : Place) : Bool :=
  p.above.any fun (_, n) => n.kind.isTypeDeclaration

end Place

mutual

/-- The places of a node and of everything below it, in document order, numbers beginning at `number`. -/
def Node.placesFrom (above : List (Nat × Node)) (number : Nat) : Node → List Place
  | ⟨kind, start, stop, name?, modifiers, children⟩ =>
    let here : Node := ⟨kind, start, stop, name?, modifiers, children⟩
    ⟨number, here, above⟩ :: placesOfAll ((number, here) :: above) (number + 1) children

def placesOfAll (above : List (Nat × Node)) (number : Nat) : List Node → List Place
  | [] => []
  | n :: rest => n.placesFrom above number ++ placesOfAll above (number + n.size) rest

end

def Node.places (root : Node) : List Place :=
  root.placesFrom [] 0

namespace Place

/-- Everything below a place, in document order. -/
def below (p : Place) : List Place :=
  placesOfAll ((p.number, p.node) :: p.above) (p.number + 1) p.node.children

/-- The places directly below. -/
def children (p : Place) : List Place :=
  p.below.filter fun q => q.parent?.map Prod.fst = some p.number

end Place

end DocPages.Source
