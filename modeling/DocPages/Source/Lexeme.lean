/-
Lexemes: the pieces that source text falls into, significant tokens and
trivia alike. A lexeme is told by its first character and by how far it
reaches beyond it (`reach`); cutting the text there and going on yields all of
them, so no character of the source is lost or read twice (`lexemes_join`).

Reaches are stated as counts of characters. A literal that is not closed
where its kind demands it becomes one unknown token, which ends before the
place where reading failed.
-/
import DocPages.Unicode.Letter

namespace DocPages.Source

/-! ## Kinds -/

inductive TriviaKind where
  | whitespace | endOfLine | lineComment | docComment | blockComment | directive
deriving DecidableEq, Repr

inductive TokenKind where
  | ident | number | string | char
  | lbrace | rbrace | lparen | rparen | lbracket | rbracket | lt | gt
  | semi | comma | eq | fatArrow | dot | colon | question
  | punct | unknown
deriving DecidableEq, Repr

/-- A lexeme is either trivia, which only surrounds tokens, or a significant token. -/
inductive LexemeKind where
  | trivia (kind : TriviaKind)
  | token (kind : TokenKind)
deriving DecidableEq, Repr

structure Lexeme where
  kind : LexemeKind
  text : String
deriving DecidableEq, Repr

/-! ## Character classes -/

def isLineBreak (c : Char) : Bool :=
  c == '\n' || c == '\r'

/-- Blank space inside a line. -/
def isSpacing (c : Char) : Bool :=
  c == ' ' || c == '\t' || c == '\x0c'

def isIdentStart (c : Char) : Bool :=
  Unicode.isLetter c || c == '_'

def isIdentPart (c : Char) : Bool :=
  isIdentStart c || Unicode.isNumber c

/-- Digits with their type letters, base letters and separators. -/
def isNumberPart (c : Char) : Bool :=
  c.isAlphanum || c == '_'

/-- Operator characters without a kind of their own. -/
def isOperator (c : Char) : Bool :=
  "!%&*+-/^|~\\".toList.contains c

/-! ## Reaches -/

/-- The number of leading characters of a class. -/
def countWhile (p : Char → Bool) (s : List Char) : Nat :=
  (s.takeWhile p).length

/-- The number of characters before the end of the line. -/
def lineLength (s : List Char) : Nat :=
  countWhile (!isLineBreak ·) s

/-- How far a literal goes on: whether it is closed there, and the number of its characters. -/
structure Extent where
  closed : Bool
  size : Nat
deriving DecidableEq, Repr

namespace Extent

def more (n : Nat) (e : Extent) : Extent :=
  ⟨e.closed, n + e.size⟩

/-- The token of a literal of kind `kind` with this extent: unknown when it is not closed. -/
def tokenKind (kind : TokenKind) (e : Extent) : LexemeKind :=
  .token (if e.closed then kind else .unknown)

end Extent

/-- A literal on one line, up to its closing mark. A backslash takes the next character with it, a line
feed excepted. -/
def quotedExtent (close : Char) : List Char → Extent
  | [] => ⟨false, 0⟩
  | c :: rest =>
    if c = close then ⟨true, 1⟩
    else if isLineBreak c then ⟨false, 0⟩
    else if c = '\\' then
      match rest with
      | [] => ⟨false, 0⟩
      | e :: rest' => if e = '\n' then ⟨false, 0⟩ else (quotedExtent close rest').more 2
    else (quotedExtent close rest).more 1

/-- A verbatim literal, up to the first quote that is not doubled. It may span lines. -/
def verbatimExtent : List Char → Extent
  | [] => ⟨false, 0⟩
  | c :: rest =>
    if c = '"' then
      match rest with
      | [] => ⟨true, 1⟩
      | e :: rest' => if e = '"' then (verbatimExtent rest').more 2 else ⟨true, 1⟩
    else (verbatimExtent rest).more 1

/-- A raw literal, up to the first three quotes in a row. Fewer quotes at the end of the text are left out. -/
def rawExtent : List Char → Extent
  | [] => ⟨false, 0⟩
  | c :: rest =>
    if c = '"' then
      if ['"', '"'].isPrefixOf rest then ⟨true, 3⟩
      else if rest = [] ∨ rest = ['"'] then ⟨false, 0⟩
      else (rawExtent rest).more 1
    else (rawExtent rest).more 1

/-- The rest of a text after a slash and a star: up to the slash after the next run of stars, which is left
out, or to the end. `starred` tells that the last character was such a star. -/
def starredReach (starred : Bool) : List Char → Nat
  | [] => 0
  | c :: rest =>
    if c = '/' && starred then 0 else 1 + starredReach (c == '*') rest

/-- The rest of a number: its digits, then a point and more of them if a digit follows the point. -/
def numberReach (s : List Char) : Nat :=
  let whole := countWhile isNumberPart s
  match s.drop whole with
  | '.' :: d :: rest => if d.isDigit then whole + 1 + countWhile isNumberPart (d :: rest) else whole
  | _ => whole

/-- Whether the text after one slash makes a documentation comment: three slashes, and no fourth. -/
def startsDocComment (rest : List Char) : Bool :=
  ['/', '/'].isPrefixOf rest && !(['/', '/', '/'].isPrefixOf rest)

/-! ## Lexemes by their first character -/

/-- Marks that are tokens of one character, each with its own kind. -/
def markKind? : Char → Option TokenKind
  | '\x7b' => some .lbrace
  | '\x7d' => some .rbrace
  | '(' => some .lparen
  | ')' => some .rparen
  | '[' => some .lbracket
  | ']' => some .rbracket
  | '<' => some .lt
  | '>' => some .gt
  | ';' => some .semi
  | ',' => some .comma
  | '.' => some .dot
  | ':' => some .colon
  | '?' => some .question
  | _ => none

/-- After a slash. Comments that open with a star are not recognised as comments. -/
def slashReach (rest : List Char) : LexemeKind × Nat :=
  match rest with
  | '/' :: _ => (.trivia (if startsDocComment rest then .docComment else .lineComment), lineLength rest)
  | '*' :: body => (.token .unknown, 1 + starredReach false body)
  | _ => (.token .punct, 0)

/-- After a double quote, which opens a raw literal if two more follow. -/
def quoteReach (rest : List Char) : LexemeKind × Nat :=
  if ['"', '"'].isPrefixOf rest then
    let e := (rawExtent (rest.drop 2)).more 2
    (e.tokenKind .string, e.size)
  else
    let e := quotedExtent '"' rest
    (e.tokenKind .string, e.size)

/-- After an at sign: a word, or a verbatim literal. The interpolated form is always unknown. -/
def atReach (rest : List Char) : LexemeKind × Nat :=
  match rest with
  | '"' :: body =>
    let e := (verbatimExtent body).more 1
    (e.tokenKind .string, e.size)
  | '$' :: '"' :: body => (.token .unknown, 2 + (verbatimExtent body).size)
  | '$' :: _ => (.token .unknown, 1)
  | c :: _ => if isIdentStart c then (.token .ident, countWhile isIdentPart rest) else (.token .unknown, 0)
  | [] => (.token .unknown, 0)

/-- After a dollar sign: an interpolated literal. The verbatim form is always unknown. -/
def dollarReach (rest : List Char) : LexemeKind × Nat :=
  match rest with
  | '"' :: body =>
    let e := (quotedExtent '"' body).more 1
    (e.tokenKind .string, e.size)
  | '@' :: '"' :: body => (.token .unknown, 2 + (verbatimExtent body).size)
  | '@' :: _ => (.token .unknown, 1)
  | _ => (.token .unknown, 0)

/-- The lexeme that begins with `c`: its kind, and how many characters of the rest it takes in. -/
def reach (c : Char) (rest : List Char) : LexemeKind × Nat :=
  if isSpacing c then (.trivia .whitespace, countWhile isSpacing rest)
  else if c = '\n' then (.trivia .endOfLine, 0)
  else if c = '\r' then (.trivia .endOfLine, if ['\n'].isPrefixOf rest then 1 else 0)
  else if c = '#' then (.trivia .directive, lineLength rest)
  else if c = '/' then slashReach rest
  else if isIdentStart c then (.token .ident, countWhile isIdentPart rest)
  else if c.isDigit then (.token .number, numberReach rest)
  else if c = '"' then quoteReach rest
  else if c = '\'' then
    let e := quotedExtent '\'' rest
    (e.tokenKind .char, e.size)
  else if c = '@' then atReach rest
  else if c = '$' then dollarReach rest
  else if c = '=' then (if ['>'].isPrefixOf rest then (.token .fatArrow, 1) else (.token .eq, 0))
  else match markKind? c with
    | some kind => (.token kind, 0)
    | none => (.token (if isOperator c then .punct else .unknown), 0)

/-! ## All lexemes of a text -/

def lexemes : List Char → List Lexeme
  | [] => []
  | c :: rest =>
    let (kind, n) := reach c rest
    ⟨kind, String.ofList (c :: rest.take n)⟩ :: lexemes (rest.drop n)
termination_by s => s.length
decreasing_by simp only [List.length_drop, List.length_cons]; omega

/-- The texts of the lexemes, one after the other, are the source. -/
theorem lexemes_join (s : List Char) : (lexemes s).flatMap (·.text.toList) = s := by
  fun_induction lexemes s with
  | case1 => rfl
  | case2 c rest kind n _ ih => simp [ih]

end DocPages.Source
