/-
Headers of members. A member of a scope is told by its attributes, its
modifiers and the word after them; its header is read up to its body or to the
brace that opens the scope of its own members. What cannot be told is a plain
member, and its tokens are passed over in balanced groups, so every token
sequence has a reading.

A header that opens a scope says so (`Header.scope?`) and has then read at
least one token (`Ending.enters`), which is why the members of nested scopes
come to an end.
-/
import DocPages.Source.Step

namespace DocPages.Source

/-! ## Scopes and headers -/

/-- The scope of members that a header opens. -/
inductive Scope where
  /-- A namespace in braces. -/
  | block
  /-- A namespace up to the end of the file. -/
  | file
  /-- A type's own members, constructors among them that bear its name. -/
  | type (owner? : Option String)
deriving DecidableEq, Repr

namespace Scope

def owner? : Scope → Option String
  | .type owner? => owner?
  | _ => none

/-- Whether a closing brace ends the scope. -/
def isBraced : Scope → Bool
  | .file => false
  | _ => true

/-- What is read after the last member. -/
def close : Scope → Step
  | .block => .eat .rbrace
  | .file => .idle
  | .type _ => .eat .rbrace ++ .eat .semi

end Scope

/-- What a member turns out to be, up to its own members. -/
structure Header where
  kind : NodeKind
  parts : Parts
  next : Cursor
  scope? : Option Scope

/-- The last steps of a header, which decide what kind of member it is. -/
structure Ending where
  run : Cursor → Header
  forward : ∀ c : Cursor, c.Reaches (run c).next
  enters : ∀ c : Cursor, (run c).scope?.isSome → (run c).next.rest.length < c.rest.length

namespace Ending

/-- A member of a kind without members of its own, after the step `s`. -/
def plain (kind : NodeKind) (s : Step) : Ending where
  run c :=
    let read := s.run c
    ⟨kind, read.1, read.2, none⟩
  forward := s.forward
  enters _ h := by simp at h

/-- The scope of a member of a kind, opened by the next token; no scope at the end of the tokens. -/
def opening (kind : NodeKind) (scope : Scope) : Ending where
  run c := ⟨kind, .none, c.advance 1, if c.rest.isEmpty then none else some scope⟩
  forward := Cursor.Reaches.next
  enters c h := by
    cases hr : c.rest with
    | nil => simp [hr] at h
    | cons t ts => simp [Cursor.advance, hr]

/-- The ending that the tokens ahead call for. -/
def choose (f : List Token → Ending) : Ending where
  run c := (f c.rest).run c
  forward c := (f c.rest).forward c
  enters c := (f c.rest).enters c

/-- The ending `e` after the step `s`. -/
def after (s : Step) (e : Ending) : Ending where
  run c :=
    let read := s.run c
    let header := e.run read.2
    { header with parts := read.1 ++ header.parts }
  forward c := (s.forward c).trans (e.forward _)
  enters c h := Nat.lt_of_lt_of_le (e.enters _ h) (s.forward c).length_le

end Ending

/-! ## Words -/

/-- Words in front of a declaration. -/
def modifierWords : List String :=
  ["public", "private", "protected", "internal", "static", "abstract", "sealed", "virtual", "override",
   "readonly", "extern", "unsafe", "new", "async", "partial", "const", "volatile", "required", "fixed",
   "file"]

/-- Words in front of the type of a parameter. -/
def parameterWords : List String :=
  ["this", "ref", "out", "in", "params", "scoped", "readonly"]

/-- A modifier is next. A reference marker is one only in front of a structure. -/
def atModifier (ts : List Token) : Bool :=
  modifierWords.any (atWord · ts) ||
    (atWord "ref" ts && (atWord "struct" ts.tail || atWord "partial" ts.tail))

/-- A name is next that can be the name of a method or a property. -/
def atMemberName (ts : List Token) : Bool :=
  atKind .ident ts && !atWord "operator" ts && !atWord "this" ts

/-! ## Parts of headers -/

def attributeList : Step :=
  .leaf .attributeList groupReach

def attributes : Step :=
  .whileAt (atKind .lbracket) attributeList

def modifiers : Step :=
  .whileAt atModifier .modifier

def nameIfAny : Step :=
  .whenAt (atKind .ident) .name

def typeReference : Step :=
  .whenAt (fun ts => atKind .ident ts || atKind .lparen ts) (.leaf .type typeReach)

def typeParameter : Step :=
  .enclose .typeParameter (attributes ++ .eatWord ["in", "out"] ++ nameIfAny)

def typeParameterList : Step :=
  .enclose .typeParameterList <|
    .bump ++
    .each (fun ts =>
      if [.gt, .lbrace, .rbrace, .semi].any (atKind · ts) then none
      else if atKind .comma ts then some .bump
      else some typeParameter) ++
    .eat .gt

def defaultValue : Step :=
  .whenAt (atKind .eq) (.bump ++ .leaf .defaultValue defaultReach)

def parameter : Step :=
  .enclose .parameter <|
    attributes ++
    .whileAt (fun ts => parameterWords.any (atWord · ts)) .modifier ++
    typeReference ++ nameIfAny ++ defaultValue ++
    .skip (untilReach (·.kind = .comma))

def parameterList : Step :=
  .enclose .parameterList <|
    .bump ++
    .each (fun ts =>
      if [.rparen, .rbrace, .rbracket].any (atKind · ts) then none
      else if atKind .comma ts then some .bump
      else some parameter) ++
    .eat .rparen

def constraints : Step :=
  .whileAt (atWord "where") (.leaf .constraintClause constraintReach)

/-- A block, an expression, or a bare semicolon. -/
def body : Step :=
  .choose fun ts =>
    if atKind .lbrace ts then .leaf .block groupReach
    else if atKind .fatArrow ts then
      .leaf .arrowBody (fun ts => 1 + untilReach (·.kind = .semi) ts.tail) ++ .eat .semi
    else .eat .semi

/-! ## Members by kind -/

/-- A member of no interest, from here to its end. -/
def otherMember : Ending :=
  .plain .member (.skip memberReach)

def namespaceHeader : Ending :=
  .after (.bump ++ .leaf .name dottedReach) <|
    .choose fun ts =>
      if atKind .lbrace ts then .opening .namespaceUnit .block
      else if atKind .semi ts then .opening .namespaceUnit .file
      else .plain .namespaceUnit .idle

/-- The word after `record` that tells whether it is a reference or a value. -/
def recordWord (kind : NodeKind) : Step :=
  if kind = .recordType then .eatWord ["class", "struct"] else .idle

/-- Where the members of a type begin. An enumeration has none of interest. -/
def typeScope (kind : NodeKind) (owner? : Option String) : Ending :=
  .choose fun ts =>
    if atKind .lbrace ts then
      if kind = .enumType then .plain kind (.skip groupReach ++ .eat .semi)
      else .opening kind (.type owner?)
    else .plain kind (.eat .semi)

def typeHeader (kind : NodeKind) : Ending :=
  .after (.bump ++ recordWord kind) <|
    .choose fun ts =>
      let owner? := if atKind .ident ts then ts.head?.map (·.text) else none
      .after
        (nameIfAny ++ .whenAt (atKind .lt) typeParameterList ++ .whenAt (atKind .lparen) parameterList ++
          .whenAt (atKind .colon) (.leaf .baseList baseListReach) ++ constraints)
        (typeScope kind owner?)

def constructorHeader : Ending :=
  .plain .constructor <|
    .name ++ parameterList ++
    .whenAt (atKind .colon) (.leaf .constructorInitializer initializerReach) ++
    body

/-- A method after its name. -/
def methodHeader : Ending :=
  .plain .method <|
    .whenAt (atKind .lt) typeParameterList ++ .whenAt (atKind .lparen) parameterList ++ constraints ++ body

/-- A property after its name: accessors, with an initial value after them, or an expression. -/
def propertyHeader : Ending :=
  .plain .property <| .choose fun ts =>
    if atKind .lbrace ts then
      .leaf .accessorList groupReach ++ .whenAt (atKind .eq) (.skip statementReach)
    else body

/-- The interface in front of a member's name. -/
def explicitInterface : Step :=
  .whenAt (fun ts => interfaceReach ts ≠ 0) (.leaf .explicitInterface interfaceReach)

/-- Members that begin with a type. -/
def typedMember : Ending :=
  .after typeReference <| .choose fun ts =>
    if !atMemberName ts then otherMember
    else .after explicitInterface <| .choose fun ts =>
      if !atMemberName ts then otherMember
      else .after .name <| .choose fun ts =>
        if atKind .lt ts || atKind .lparen ts then methodHeader
        else if atKind .lbrace ts || atKind .fatArrow ts then propertyHeader
        else otherMember

/-! ## Members -/

/-- The word that a member begins with, its attributes and modifiers read, in a type named `owner?`. -/
def wordHeader (owner? : Option String) (word : String) (after : List Token) : Ending :=
  match word with
  | "namespace" => namespaceHeader
  | "class" => typeHeader .classType
  | "interface" => typeHeader .interfaceType
  | "struct" => typeHeader .structType
  | "enum" => typeHeader .enumType
  | "record" => typeHeader .recordType
  | "delegate" => .plain .member (.skip statementReach)
  | "event" | "implicit" | "explicit" => otherMember
  | _ => if owner? = some word && atKind .lparen after then constructorHeader else typedMember

/-- A member after its attributes and modifiers. -/
def declarationHeader (owner? : Option String) : Ending :=
  .choose fun
    | [] => .plain .member .idle
    | t :: rest =>
      if t.kind = .ident then wordHeader owner? t.text rest
      else if t.isPunct "~" then otherMember
      else .plain .member .idle

/-- Attributes of the assembly or the module, which belong to no declaration. -/
def atStandingAttribute (ts : List Token) : Bool :=
  atKind .lbracket ts && (atWord "assembly" ts.tail || atWord "module" ts.tail) &&
    atKind .colon (ts.drop 2)

def memberHeader (owner? : Option String) : Ending :=
  .choose fun ts =>
    if atStandingAttribute ts then .plain .member attributeList
    else .after (attributes ++ modifiers) (declarationHeader owner?)

/-- Statements between members: imports and aliases. -/
def atImport (ts : List Token) : Bool :=
  atWord "using" ts || (atWord "global" ts && atWord "using" ts.tail) ||
    (atWord "extern" ts && atWord "alias" ts.tail)

end DocPages.Source
