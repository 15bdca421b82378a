/-
What can be wrong with a document. A fault has a cause and a place; the place
is kept as the number of characters from it to the end of the document, and
turned into a row and a column only when the fault is told.
-/
import DocPages.Markup.Character

namespace DocPages.Markup

inductive Cause where
  /-- A character that no document may hold. -/
  | illegal (c : Char)
  | invalidName
  /-- Another character than the one expected. -/
  | otherThan (expected found : Char)
  /-- Another character than one of the kind expected. -/
  | otherKind (expected : String) (found : Char)
  /-- The text expected here is nowhere ahead. -/
  | missing (text : String)
  | unexpectedEnd
  | unknownToken
  | unexpectedDeclaration
  /-- A comment with two hyphens inside, or with one at its end. -/
  | dashesInComment
  /-- The end mark of a section of character data outside of one. -/
  | strayEndMark
  | malformedReference
  | unknownEntity (name : String)
  | closeMismatch (opened closed : String)
  | unclosedRoot
  | unknownQualifier (qualifier : String)
  | reservedElementQualifier
  | duplicateNamespace (qualifier : String)
  | duplicateAttribute (name : String)
  | wrongUriForXml
  | xmlUriForOther
  | xmlnsUriDeclared
deriving DecidableEq, Repr

structure Fault where
  cause : Cause
  /-- The number of characters of the document from the fault on. -/
  left : Nat
deriving DecidableEq, Repr

/-! ## Places -/

structure Position where
  row : Nat
  column : Nat
deriving DecidableEq, Repr

namespace Position

/-- The position after a text that begins a document: rows and columns count from one. -/
def after (s : List Char) : Position :=
  ⟨1 + s.count '\n', 1 + (s.reverse.takeWhile (· ≠ '\n')).length⟩

def toString (p : Position) : String :=
  s!"{p.row}:{p.column}"

end Position

/-! ## Wording -/

/-- A character that no document may hold, as it is shown: by its code point. -/
def showIllegal (c : Char) : String :=
  if c.toNat = 0 then "'\\0'"
  else "'\\u\x7b" ++ String.ofList (Nat.toDigits 16 c.toNat) ++ "\x7d'"

/-- A character that was found where another was expected, shown by its first byte alone. -/
def showFound (c : Char) : String :=
  String.singleton (Char.ofNat (leadByte c))

/-- The wording of a cause at a position. -/
def Cause.message (p : String) : Cause → String
  | .illegal c => "a non-XML character " ++ showIllegal c ++ " found at " ++ p
  | .invalidName => "invalid name token at " ++ p
  | .otherThan e c => "expected '" ++ String.singleton e ++ "' not '" ++ showFound c ++ "' at " ++ p
  | .otherKind e c => "expected " ++ e ++ " not '" ++ showFound c ++ "' at " ++ p
  | .missing text => "expected '" ++ text ++ "' at " ++ p
  | .unexpectedEnd => "unexpected end of stream"
  | .unknownToken => "unknown token at " ++ p
  | .unexpectedDeclaration => "unexpected XML declaration at " ++ p
  | .dashesInComment => "comment at " ++ p ++ " contains '--'"
  | .strayEndMark => "']]>' at " ++ p ++ " is not allowed inside a character data"
  | .malformedReference => "malformed entity reference at " ++ p
  | .unknownEntity n => "unknown entity reference '" ++ n ++ "' at " ++ p
  | .closeMismatch a b => "expected '" ++ a ++ "' tag, not '" ++ b ++ "' at " ++ p
  | .unclosedRoot => "the root node was opened but never closed"
  | .unknownQualifier q => "an unknown namespace prefix '" ++ q ++ "' at " ++ p
  | .reservedElementQualifier => "the 'xmlns' prefix is used at " ++ p ++ ", but it must not be"
  | .duplicateNamespace q => "namespace '" ++ q ++ "' at " ++ p ++ " is already defined"
  | .duplicateAttribute n => "attribute '" ++ n ++ "' at " ++ p ++ " is already defined"
  | .wrongUriForXml => "'xml' namespace prefix mapped to wrong URI at " ++ p
  | .xmlUriForOther => "the 'xml' namespace URI is used for not 'xml' prefix at " ++ p
  | .xmlnsUriDeclared => "the 'xmlns' URI is used at " ++ p ++ ", but it must not be declared"

/-- Where in the document the fault is. -/
def Fault.position (document : List Char) (f : Fault) : Position :=
  .after (document.take (document.length - f.left))

def Fault.message (document : List Char) (f : Fault) : String :=
  f.cause.message (f.position document).toString

end DocPages.Markup
