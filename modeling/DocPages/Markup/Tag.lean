/-
Tags: the names, attributes and namespace declarations between angle brackets,
and the attributes of an element with their namespaces resolved.

A start tag is read to its end before its attributes are resolved; what is
wrong with a namespace declaration is told at once.
-/
import DocPages.Markup.Reference

namespace DocPages.Markup

/-! ## Names -/

/-- A name with its qualifier, which is empty if there is none. -/
structure QName where
  qualifier : String
  name : String
deriving DecidableEq, Repr

namespace QName

/-- The name as it is written. -/
def written (q : QName) : String :=
  if q.qualifier.isEmpty then q.name else q.qualifier ++ ":" ++ q.name

/-- The qualified name that a run of name characters spells: at most one colon, and on both sides of it
what a name may begin with. Nothing may stand before the colon, but something must stand after it. -/
def ofRun? (run : List Char) : Option QName :=
  let (q, n) :=
    if run.contains ':' then (run.takeWhile (· ≠ ':'), (run.dropWhile (· ≠ ':')).tail) else ([], run)
  if run.count ':' ≤ 1 && (q.head?.all isNameStart) && n.head?.any isNameStart then
    some ⟨String.ofList q, String.ofList n⟩
  else none

end QName

def qname : Reader QName := fun s =>
  match QName.ofRun? (s.takeWhile isNamePart) with
  | some q => .ok (q, ⟨s.dropWhile isNamePart, Reader.length_dropWhile_le _ _⟩)
  | none => .error ⟨.invalidName, s.length⟩

/-! ## Tags as they are read -/

def xmlUri : String := "http://www.w3.org/XML/1998/namespace"

def xmlnsUri : String := "http://www.w3.org/2000/xmlns/"

/-- An attribute as it is written. -/
structure RawAttribute where
  name : QName
  value : String
  /-- The number of characters of the document from the attribute on. -/
  left : Nat

/-- Qualifiers and the namespaces they stand for, inner declarations first. -/
abbrev Namespaces := List (String × String)

/-- What a start tag holds after its name. -/
structure TagContents where
  declared : Namespaces
  attributes : List RawAttribute

structure StartTag where
  name : QName
  contents : TagContents
  /-- The tag closes its own element. -/
  isEmpty : Bool
  /-- The number of characters of the document from the name on. -/
  left : Nat

/-- The mark that encloses a value. -/
def quoteMark : Reader Char := fun s =>
  match s with
  | [] => .error ⟨.unexpectedEnd, 0⟩
  | c :: r =>
    if c = '"' ∨ c = '\'' then .ok (c, ⟨r, Reader.length_tail_le c r⟩)
    else .error ⟨.otherKind "a quote" c, s.length⟩

def rawAttribute : Reader RawAttribute := do
  let left ← Reader.left
  let name ← qname
  Reader.spaces
  Reader.char '='
  Reader.spaces
  let quote ← quoteMark
  let text ← Reader.charsUntil fun s => s.head? = some quote || s.head? = some '<'
  let after ← Reader.left
  Reader.char quote
  let ps ← Reader.ofExcept (pieces after text)
  return ⟨name, String.ofList (valueOfPieces ps), left⟩

/-- Adds an attribute to what a tag holds. A namespace declaration must not meddle with the two reserved
namespaces, nor declare a qualifier twice; the default namespace is of no consequence to a document whose
elements are told by their plain names. -/
def TagContents.add (t : TagContents) (a : RawAttribute) : Except Fault TagContents :=
  if a.name.qualifier = "xmlns" then
    if a.value = xmlnsUri then .error ⟨.xmlnsUriDeclared, a.left⟩
    else if a.name.name = "xml" && a.value ≠ xmlUri then .error ⟨.wrongUriForXml, a.left⟩
    else if a.name.name ≠ "xml" && a.value = xmlUri then .error ⟨.xmlUriForOther, a.left⟩
    else if t.declared.any (·.1 = a.name.name) then .error ⟨.duplicateNamespace a.name.name, a.left⟩
    else if a.value = xmlUri then .ok t
    else .ok { t with declared := t.declared ++ [(a.name.name, a.value)] }
  else if a.name.name = "xmlns" then
    if a.value = xmlUri then .error ⟨.xmlUriForOther, a.left⟩
    else if a.value = xmlnsUri then .error ⟨.xmlnsUriDeclared, a.left⟩
    else .ok t
  else .ok { t with attributes := t.attributes ++ [a] }

/-- The rest of a start tag, and whether the tag closes its own element. Every attribute must have white
space before it. -/
def tagRest (contents : TagContents) (s : List Char) : Reading (TagContents × Bool) s :=
  have hle := Reader.length_dropWhile_le isSpace s
  match hs : s.dropWhile isSpace with
  | [] => .error ⟨.unexpectedEnd, 0⟩
  | '>' :: r => .ok ((contents, false), ⟨r, by rw [hs] at hle; exact Nat.le_of_succ_le hle⟩)
  | '/' :: r =>
    match Reader.char '>' r with
    | .error e => .error e
    | .ok (_, r') =>
      .ok ((contents, true), ⟨r'.1, by rw [hs] at hle; exact Nat.le_trans r'.2 (Nat.le_of_succ_le hle)⟩)
  | c :: r =>
    if hlt : (c :: r).length < s.length then
      match rawAttribute (c :: r) with
      | .error e => .error e
      | .ok (a, r') =>
        match contents.add a with
        | .error e => .error e
        | .ok contents' =>
          have : r'.1.length < s.length := Nat.lt_of_le_of_lt r'.2 hlt
          match tagRest contents' r'.1 with
          | .error e => .error e
          | .ok (t, r'') => .ok (t, ⟨r''.1, Nat.le_trans r''.2 (Nat.le_of_lt this)⟩)
    else .error ⟨.otherKind "a whitespace" c, (c :: r).length⟩
termination_by s.length

/-- A start tag after its opening bracket. -/
def startTag : Reader StartTag := do
  let left ← Reader.left
  let name ← qname
  if name.qualifier = "xmlns" then Reader.failAt left .reservedElementQualifier
  let (contents, isEmpty) ← tagRest ⟨[], []⟩
  return ⟨name, contents, isEmpty, left⟩

/-- A close tag after its opening bracket and slash. -/
def closeTag : Reader QName := do
  let name ← qname
  Reader.spaces
  Reader.char '>'
  return name

/-! ## Namespaces resolved -/

/-- An attribute of an element. -/
structure Attribute where
  /-- The namespace of a qualified name. -/
  uri? : Option String
  name : String
  value : String
deriving DecidableEq, Repr

/-- The namespace of an attribute. Unqualified names have none, and the qualifier `xml` needs no declaration. -/
def RawAttribute.uri? (inScope : Namespaces) (a : RawAttribute) : Except Fault (Option String) :=
  if a.name.qualifier = "xml" then .ok (some xmlUri)
  else if a.name.qualifier.isEmpty then .ok none
  else match inScope.lookup a.name.qualifier with
    | some uri => .ok (some uri)
    | none => .error ⟨.unknownQualifier a.name.qualifier, a.left⟩

/-- The attributes of an element, after those already resolved. No two may have the same name in the same
namespace. -/
def resolveAttributes (inScope : Namespaces) (resolved : List Attribute) :
    List RawAttribute → Except Fault (List Attribute)
  | [] => .ok resolved
  | a :: rest =>
    match a.uri? inScope with
    | .error e => .error e
    | .ok uri? =>
      if resolved.any fun b => b.uri? = uri? && b.name = a.name.name then
        .error ⟨.duplicateAttribute a.name.name, a.left⟩
      else resolveAttributes inScope (resolved ++ [⟨uri?, a.name.name, a.value⟩]) rest

end DocPages.Markup
