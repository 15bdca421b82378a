/-
A fragment of the declarations that reading knows, and how it is written:
namespaces in braces, their types, and the types' members. What stands in
bodies, accessors and values is of no interest, as long as its marks nest.

Each construct is printed as its tokens together with the nodes that they are to
be read as (`Printed`). Nodes are told from the inside out by what they are put
around (`Printed.node`), names and modifiers by the words that they are
(`Printed.name`, `Printed.modifier`), so their places among the tokens follow
from the printing alone.
-/
import DocPages.Proofs.Nesting
import DocPages.Source.Header

namespace DocPages.Source

/-! ## Words -/

/-- The words that reading tests for. -/
def testedWords : List String :=
  modifierWords ++ parameterWords ++
    ["using", "global", "alias", "assembly", "module", "namespace", "class", "interface", "struct", "enum",
     "record", "delegate", "event", "implicit", "explicit", "where", "operator", "base"]

/-- A name that is none of the words that reading tests for. -/
structure Identifier where
  text : String
  ordinary : text ∉ testedWords

/-- A word in front of a declaration. -/
structure ModifierWord where
  text : String
  isModifier : text ∈ modifierWords

/-- The texts of the marks that declarations are written with. -/
def TokenKind.markText : TokenKind → String
  | .lbrace => "\x7b"
  | .rbrace => "\x7d"
  | .lparen => "("
  | .rparen => ")"
  | .lbracket => "["
  | .rbracket => "]"
  | .lt => "<"
  | .gt => ">"
  | .semi => ";"
  | .comma => ","
  | .eq => "="
  | .fatArrow => "=>"
  | .dot => "."
  | .question => "?"
  | _ => ""

namespace Token

def mark (k : TokenKind) : Token :=
  ⟨k, k.markText, [], []⟩

def word (w : String) : Token :=
  ⟨.ident, w, [], []⟩

end Token

def BareToken.token (t : BareToken) : Token :=
  ⟨t.kind, t.text, [], []⟩

/-! ## Tokens of no interest -/

/-- The kinds outside all groups, `depth` groups being open. -/
def outermost : Nat → List TokenKind → List TokenKind
  | _, [] => []
  | depth, k :: rest =>
    if k.closing?.isSome then outermost (depth + 1) rest
    else if k.isClosing then outermost (depth - 1) rest
    else if depth = 0 then k :: outermost depth rest
    else outermost depth rest

/-- Any tokens, as long as their marks nest. -/
structure NestedTokens where
  content : List BareToken
  nested : nests [] (content.map (·.kind)) = true

namespace NestedTokens

def tokens (n : NestedTokens) : List Token :=
  n.content.map (·.token)

/-- The tokens in braces. -/
def braced (n : NestedTokens) : List Token :=
  .mark .lbrace :: (n.tokens ++ [.mark .rbrace])

end NestedTokens

/-- An expression that is a body: it has no semicolon of its own. -/
structure ArrowExpression extends NestedTokens where
  unended : .semi ∉ outermost 0 (content.map (·.kind))

/-- The value of an optional parameter: it has no comma and no opening angle bracket of its own. -/
structure DefaultExpression extends NestedTokens where
  unseparated : .comma ∉ outermost 0 (content.map (·.kind))
  unangled : .lt ∉ outermost 0 (content.map (·.kind))

/-! ## Types -/

/-- A mark after a type. -/
inductive TypeSuffix where
  | nullable
  | array

def TypeSuffix.tokens : TypeSuffix → List Token
  | .nullable => [.mark .question]
  | .array => [.mark .lbracket, .mark .rbracket]

mutual

/-- A type, as declarations refer to it. -/
inductive TypeRef where
  | mk (path : TypePath) (suffixes : List TypeSuffix)

/-- A dotted path; any of its parts may have type arguments. -/
inductive TypePath where
  | last (name : Identifier) (arguments : List TypeRef)
  | dot (name : Identifier) (arguments : List TypeRef) (rest : TypePath)

end

mutual

def TypeRef.tokens : TypeRef → List Token
  | ⟨path, suffixes⟩ => path.tokens ++ suffixes.flatMap (·.tokens)

def TypePath.tokens : TypePath → List Token
  | .last name arguments => .word name.text :: argumentTokens arguments
  | .dot name arguments rest => .word name.text :: (argumentTokens arguments ++ .mark .dot :: rest.tokens)

/-- Type arguments in angle brackets, if there are any. -/
def argumentTokens : List TypeRef → List Token
  | [] => []
  | t :: rest => .mark .lt :: (t.tokens ++ laterArgumentTokens rest)

/-- The type arguments after the first. -/
def laterArgumentTokens : List TypeRef → List Token
  | [] => [.mark .gt]
  | t :: rest => .mark .comma :: (t.tokens ++ laterArgumentTokens rest)

end

/-! ## Printing -/

/-- Tokens, and the parts that they are read as when the first of them has the given index. -/
structure Printed where
  tokens : List Token
  parts : Nat → Parts

namespace Printed

def nothing : Printed :=
  ⟨[], fun _ => .none⟩

def append (p q : Printed) : Printed :=
  ⟨p.tokens ++ q.tokens, fun i => p.parts i ++ q.parts (i + p.tokens.length)⟩

instance : Append Printed := ⟨append⟩

/-- Tokens that are no parts of anything. -/
def plain (ts : List Token) : Printed :=
  ⟨ts, fun _ => .none⟩

def mark (k : TokenKind) : Printed :=
  plain [.mark k]

/-- The name of the node around it. -/
def name (x : Identifier) : Printed :=
  ⟨[.word x.text], fun i => ⟨[], some i, []⟩⟩

/-- A modifier of the node around it. -/
def modifier (m : ModifierWord) : Printed :=
  ⟨[.word m.text], fun i => ⟨[i], none, []⟩⟩

/-- A node around what is printed. -/
def node (kind : NodeKind) (p : Printed) : Printed :=
  ⟨p.tokens, fun i => ⟨[], none, [(p.parts i).node kind i (i + p.tokens.length)]⟩⟩

def leaf (kind : NodeKind) (ts : List Token) : Printed :=
  node kind (plain ts)

def concat : List Printed → Printed
  | [] => nothing
  | p :: rest => p ++ concat rest

/-- All of them, each after a comma. -/
def afterCommas : List Printed → Printed
  | [] => nothing
  | p :: rest => mark .comma ++ (p ++ afterCommas rest)

/-- All of them, with commas between. -/
def separated : List Printed → Printed
  | [] => nothing
  | p :: rest => p ++ afterCommas rest

end Printed

/-! ## Parts of declarations -/

def printedModifiers (ms : List ModifierWord) : Printed :=
  .concat (ms.map .modifier)

/-- The type parameters of a declaration that has any. -/
def printedTypeParameters : Option (List Identifier) → Printed
  | none => .nothing
  | some xs =>
    .node .typeParameterList
      (.mark .lt ++ .separated (xs.map fun x => .node .typeParameter (.name x)) ++ .mark .gt)

structure ParameterDeclaration where
  type : TypeRef
  name : Identifier
  default? : Option DefaultExpression

def printedDefault : Option DefaultExpression → Printed
  | none => .nothing
  | some e => .mark .eq ++ .leaf .defaultValue e.tokens

def ParameterDeclaration.printed (p : ParameterDeclaration) : Printed :=
  .node .parameter <| .leaf .type p.type.tokens ++ .name p.name ++ printedDefault p.default?

def printedParameters (ps : List ParameterDeclaration) : Printed :=
  .node .parameterList (.mark .lparen ++ .separated (ps.map (·.printed)) ++ .mark .rparen)

/-- The body of a method. -/
inductive MethodBody where
  | missing
  | block (content : NestedTokens)
  | arrow (e : ArrowExpression)

def MethodBody.printed : MethodBody → Printed
  | .missing => .mark .semi
  | .block content => .leaf .block content.braced
  | .arrow e => .leaf .arrowBody (.mark .fatArrow :: e.tokens) ++ .mark .semi

/-! ## Declarations -/

/-- The words that types are declared with. -/
inductive TypeWord where
  | classWord
  | interfaceWord
  | structWord

namespace TypeWord

def text : TypeWord → String
  | .classWord => "class"
  | .interfaceWord => "interface"
  | .structWord => "struct"

def kind : TypeWord → NodeKind
  | .classWord => .classType
  | .interfaceWord => .interfaceType
  | .structWord => .structType

end TypeWord

mutual

inductive TypeDeclaration where
  | mk (modifiers : List ModifierWord) (word : TypeWord) (name : Identifier)
    (typeParameters? : Option (List Identifier)) (members : List MemberDeclaration)

inductive MemberDeclaration where
  | type (t : TypeDeclaration)
  | method (modifiers : List ModifierWord) (type : TypeRef) (name : Identifier)
    (typeParameters? : Option (List Identifier)) (parameters : List ParameterDeclaration)
    (body : MethodBody)
  | constructor (modifiers : List ModifierWord) (parameters : List ParameterDeclaration)
    (body : NestedTokens)
  | property (modifiers : List ModifierWord) (type : TypeRef) (name : Identifier) (accessors : NestedTokens)
  | field (modifiers : List ModifierWord) (type : TypeRef) (name : Identifier)

end

mutual

def TypeDeclaration.printed : TypeDeclaration → Printed
  | ⟨modifiers, word, name, typeParameters?, members⟩ =>
    .node word.kind <| printedModifiers modifiers ++ .plain [.word word.text] ++ .name name ++
      printedTypeParameters typeParameters? ++ .mark .lbrace ++ printedMembers name members ++ .mark .rbrace

/-- A member of the type named `owner`, which is what its constructors are named. -/
def MemberDeclaration.printed (owner : Identifier) : MemberDeclaration → Printed
  | .type t => t.printed
  | .method modifiers type name typeParameters? parameters body =>
    .node .method <| printedModifiers modifiers ++ .leaf .type type.tokens ++ .name name ++
      printedTypeParameters typeParameters? ++ printedParameters parameters ++ body.printed
  | .constructor modifiers parameters body =>
    .node .constructor <| printedModifiers modifiers ++ .name owner ++ printedParameters parameters ++
      .leaf .block body.braced
  | .property modifiers type name accessors =>
    .node .property <| printedModifiers modifiers ++ .leaf .type type.tokens ++ .name name ++
      .leaf .accessorList accessors.braced
  | .field modifiers type name =>
    .node .member <| printedModifiers modifiers ++ .leaf .type type.tokens ++ .name name ++ .mark .semi

def printedMembers (owner : Identifier) : List MemberDeclaration → Printed
  | [] => .nothing
  | m :: rest => m.printed owner ++ printedMembers owner rest

end

/-- A namespace in braces. -/
structure NamespaceDeclaration where
  name : Identifier
  /-- What the name goes on with after a dot each. -/
  dotted : List Identifier
  types : List TypeDeclaration

namespace NamespaceDeclaration

def nameTokens (n : NamespaceDeclaration) : List Token :=
  .word n.name.text :: n.dotted.flatMap fun x => [.mark .dot, .word x.text]

def printed (n : NamespaceDeclaration) : Printed :=
  .node .namespaceUnit <| .plain [.word "namespace"] ++ .leaf .name n.nameTokens ++ .mark .lbrace ++
    .concat (n.types.map (·.printed)) ++ .mark .rbrace

end NamespaceDeclaration

/-- A source unit of the fragment. -/
structure SourceUnit where
  namespaces : List NamespaceDeclaration

namespace SourceUnit

def printed (u : SourceUnit) : Printed :=
  .concat (u.namespaces.map (·.printed))

/-- What is declared, as the tree that the unit is to be read as. -/
def root (u : SourceUnit) : Node :=
  (u.printed.parts 0).node .compilationUnit 0 u.printed.tokens.length

end SourceUnit

end DocPages.Source
