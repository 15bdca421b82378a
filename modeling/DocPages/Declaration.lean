/-
What a page tells about declarations, whatever its format: the record of one
declaration, and the row of a property. Texts are empty where the source says
nothing.
-/
import DocPages.Comment
import DocPages.Source.Snippet

namespace DocPages

open Source (Node NodeKind Tree Trivia)

/-! ## Records -/

/-- The kinds of declarations with an entry of their own. -/
inductive DeclarationKind where
  | classType | interfaceType | structType | constructor | method
deriving DecidableEq, Repr

/-- The word for a kind in headings and messages. -/
def DeclarationKind.word : DeclarationKind → String
  | .classType => "class"
  | .interfaceType => "interface"
  | .structType => "struct"
  | .constructor => "constructor"
  | .method => "method"

structure Parameter where
  /-- Modifiers and type. -/
  type : String
  name : String
  default? : Option String
  description : String
deriving DecidableEq, Repr

structure TypeParameter where
  name : String
  description : String
deriving DecidableEq, Repr

/-- All that a page tells about one declaration. -/
structure Declaration where
  kind : DeclarationKind
  name : String
  snippet : String
  summary : String
  returns : String
  parameters : List Parameter
  typeParameters : List TypeParameter
deriving DecidableEq, Repr

/-- A property and the plain comment that goes with it. -/
structure PropertyRow where
  name : String
  comment : String
deriving DecidableEq, Repr

/-! ## Describing a declaration -/

namespace Source.Tree

/-- Named type parameters with their descriptions. -/
def typeParameters (tree : Tree) (n : Node) (tags : TagSet) : List TypeParameter :=
  (n.child? .typeParameterList).elim [] fun list =>
    list.children.filterMap fun p => (tree.name? p).map fun name => ⟨name, tags.typeParam name⟩

def parameter (tree : Tree) (tags : TagSet) (p : Node) : Parameter where
  type := " ".intercalate (tree.modifiersOf p ++ ((p.child? .type).map tree.text).toList)
  name := tree.nameOf p
  default? := (p.child? .defaultValue).map tree.text
  description := tags.param (tree.nameOf p)

def parameters (tree : Tree) (n : Node) (tags : TagSet) : List Parameter :=
  (n.child? .parameterList).elim [] fun list =>
    (list.childrenOf .parameter).map (tree.parameter tags)

/-- The record of a declaration with the comment `tags`. Only methods return a value and are generic on
their own, and only they and constructors have parameters. -/
def describe (tree : Tree) (n : Node) (kind : DeclarationKind) (tags : TagSet) : Declaration where
  kind := kind
  name := tree.nameOf n
  snippet := tree.snippet n
  summary := tags.tag "summary"
  returns := if kind = .method then tags.tag "returns" else ""
  parameters := if kind = .method || kind = .constructor then tree.parameters n tags else []
  typeParameters := if kind = .method then tree.typeParameters n tags else []

end Source.Tree

/-! ## Comments of properties -/

/-- A plain comment without its slashes and the white space around it. -/
def plainComment (text : String) : String :=
  let s := text.toList
  trimmed (String.ofList (if "//".toList.isPrefixOf s then s.dropWhile (· = '/') else s))

/-- The plain comments among some trivia that say anything. -/
def plainComments (trivia : List Trivia) : List String :=
  trivia.filter (·.kind = .lineComment) |>.map (plainComment ·.text) |>.filter (!·.isEmpty)

/-- The trivia after the last blank line or documentation comment: `kept` if there is neither in the rest.
`blank` tells that the line so far holds nothing but white space. -/
def attachedFrom (kept : List Trivia) (blank : Bool) : List Trivia → List Trivia
  | [] => kept
  | t :: rest =>
    match t.kind with
    | .whitespace => attachedFrom kept blank rest
    | .endOfLine => attachedFrom (if blank then rest else kept) true rest
    | .docComment => attachedFrom rest false rest
    | _ => attachedFrom kept false rest

/-- The end of some leading trivia that belongs to the declaration after it. -/
def attached (trivia : List Trivia) : List Trivia :=
  attachedFrom trivia true trivia

/-- The row of a property: the comments on the lines right above it, or else the first one behind it. -/
def Source.Tree.propertyRow (tree : Tree) (n : Node) : PropertyRow where
  name := tree.nameOf n
  comment :=
    let above := plainComments (attached (tree.leading n))
    if above.isEmpty then (plainComments (tree.trailing n)).headD "" else " ".intercalate above

end DocPages
