/-
Character data with its references resolved: the text between tags, sections
of character data, and the values of attributes. A reference stands for one
character, which is then kept as it is, while line ends of the document are
normalised and white space in attribute values becomes blanks.
-/
import DocPages.Markup.Reader

namespace DocPages.Markup

/-! ## References -/

inductive Reference where
  | char (c : Char)
  | entity (name : String)
deriving DecidableEq, Repr

/-- The entities that every document may refer to. -/
def predefined? : String → Option Char
  | "quot" => some '"'
  | "amp" => some '&'
  | "apos" => some '\''
  | "lt" => some '<'
  | "gt" => some '>'
  | _ => none

def isHexDigit (c : Char) : Bool :=
  c.isDigit || ('a' ≤ c && c ≤ 'f') || ('A' ≤ c && c ≤ 'F')

def digitValue (c : Char) : Nat :=
  if c.isDigit then c.toNat - '0'.toNat
  else if 'a' ≤ c then c.toNat - 'a'.toNat + 10
  else c.toNat - 'A'.toNat + 10

/-- The number with the given digits. -/
def ofDigits (base : Nat) (digits : List Char) : Nat :=
  digits.foldl (fun n c => n * base + digitValue c) 0

/-- The character with a number of at most 32 bits; a number that no character has stands for the
replacement character. Characters that a document may not hold cannot be referred to either. -/
def charOfDigits? (base : Nat) (digits : List Char) : Option Char :=
  let n := ofDigits base digits
  if digits.isEmpty || n ≥ UInt32.size then none
  else
    let c := if n.isValidChar then Char.ofNat n else '\uFFFD'
    if isLegal c then some c else none

/-- A name, colons included. -/
def plainName (s : List Char) : List Char :=
  match s with
  | c :: _ => if isNameStart c then s.takeWhile isNamePart else []
  | [] => []

/-- The reference after an ampersand, and the number of its characters, the semicolon included. -/
def reference? (s : List Char) : Option (Reference × Nat) :=
  let close (size : Nat) (r : Reference) : Option (Reference × Nat) :=
    if [';'].isPrefixOf (s.drop size) then some (r, size + 1) else none
  match s with
  | '#' :: 'x' :: t =>
    let digits := t.takeWhile isHexDigit
    (charOfDigits? 16 digits).bind fun c => close (2 + digits.length) (.char c)
  | '#' :: t =>
    let digits := t.takeWhile Char.isDigit
    (charOfDigits? 10 digits).bind fun c => close (1 + digits.length) (.char c)
  | _ =>
    let name := plainName s
    if name.isEmpty then none
    else
      let text := String.ofList name
      close name.length ((predefined? text).elim (.entity text) .char)

/-! ## Pieces -/

/-- A character of character data, and whether the document has it as such or by a reference. -/
inductive Piece where
  | plain (c : Char)
  | given (c : Char)
deriving DecidableEq, Repr

/-- The pieces of a text that has `after` characters of the document behind it. -/
def pieces (after : Nat) : List Char → Except Fault (List Piece)
  | [] => .ok []
  | c :: rest =>
    if c = '&' then
      match reference? rest with
      | some (.char d, size) => (pieces after (rest.drop size)).map (.given d :: ·)
      | some (.entity name, _) => .error ⟨.unknownEntity name, (c :: rest).length + after⟩
      | none => .error ⟨.malformedReference, (c :: rest).length + after⟩
    else (pieces after rest).map (.plain c :: ·)
termination_by s => s.length
decreasing_by all_goals (simp only [List.length_drop, List.length_cons]; omega)

/-! ## Text -/

/-- Text gathered so far, the last character first. `kept` tells that the next plain character is taken as
it is, because the one before it came from a reference. -/
structure Gathered where
  reversed : List Char
  kept : Bool

namespace Gathered

/-- Adds a character and normalises line ends: a carriage return becomes a line feed when the character
after it comes, and takes a line feed after it away. -/
def addPlain (g : Gathered) (c : Char) (isLast : Bool) : Gathered :=
  let c' := if isLast && c = '\r' then '\n' else c
  match g.reversed with
  | '\r' :: before => ⟨if c = '\n' then '\n' :: before else c' :: '\n' :: before, false⟩
  | _ => ⟨c' :: g.reversed, false⟩

def addPieces (g : Gathered) : List Piece → Gathered
  | [] => g
  | .given c :: rest => addPieces ⟨c :: g.reversed, true⟩ rest
  | .plain c :: rest =>
    if g.kept then addPieces ⟨c :: g.reversed, false⟩ rest
    else addPieces (g.addPlain c rest.isEmpty) rest

end Gathered

/-- The text that pieces stand for. -/
def textOfPieces (ps : List Piece) : String :=
  String.ofList (Gathered.addPieces ⟨[], false⟩ ps).reversed.reverse

/-- Line ends as line feeds. -/
def normaliseLines : List Char → List Char
  | [] => []
  | '\r' :: '\n' :: rest => '\n' :: normaliseLines rest
  | '\r' :: rest => '\n' :: normaliseLines rest
  | c :: rest => c :: normaliseLines rest

/-! ## Attribute values -/

/-- The value that pieces stand for: white space is a blank, and a line end of two characters is one. -/
def valueOfPieces : List Piece → List Char
  | [] => []
  | .given c :: rest => c :: valueOfPieces rest
  | .plain c :: rest =>
    if c = '\r' && rest.head? = some (.plain '\n') then valueOfPieces rest
    else (if isSpace c then ' ' else c) :: valueOfPieces rest

end DocPages.Markup
