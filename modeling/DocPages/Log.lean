/-
Notes: what the program tells about its work besides the pages. Each has a
level; a threshold decides which are shown.
-/
import DocPages.Declaration

namespace DocPages

/-! ## Levels -/

inductive Level where
  | error | warn | info | debug | trace
deriving DecidableEq, Repr

namespace Level

/-- Higher for notes of less importance. -/
def rank : Level → Nat
  | .error => 1
  | .warn => 2
  | .info => 3
  | .debug => 4
  | .trace => 5

def word : Level → String
  | .error => "ERROR"
  | .warn => "WARN"
  | .info => "INFO"
  | .debug => "DEBUG"
  | .trace => "TRACE"

end Level

/-- The rank up to which notes are shown. -/
abbrev Threshold := Nat

/-- The threshold that a word asks for, in any case of its letters. A word that names no level shows nothing. -/
def thresholdOf (word : String) : Threshold :=
  match String.ofList (word.toList.map Char.toLower) with
  | "error" | "1" => 1
  | "warn" | "2" => 2
  | "info" | "3" => 3
  | "debug" | "4" => 4
  | "trace" | "5" => 5
  | _ => 0

/-! ## Notes -/

inductive Note where
  | documenting (kind : DeclarationKind) (name : String)
  | namelessTag (tag : String)
  | skippedDeclaration (kind : DeclarationKind) (name : String) (cause : MalformedComment)
  | sharedPageName (path name qualified : String)
  | noMatch (pattern : String)
  | completed (page : String) (index total : Nat)
  | skippedUnit (path reason : String)
deriving DecidableEq, Repr

/-- A name between quotes. Sound marks, which join with the letter before them, are shown by code point. -/
def quotedName (name : String) : String :=
  let shown := name.toList.flatMap fun c =>
    if c = '\uFF9E' then "\\u\x7bff9e\x7d".toList
    else if c = '\uFF9F' then "\\u\x7bff9f\x7d".toList
    else [c]
  "\"" ++ String.ofList shown ++ "\""

namespace Note

def level : Note → Level
  | .documenting .. | .namelessTag .. | .sharedPageName .. => .debug
  | .skippedDeclaration .. | .noMatch .. => .warn
  | .completed .. => .info
  | .skippedUnit .. => .error

def text : Note → String
  | .documenting kind name => "documenting kind=" ++ kind.word ++ " name=" ++ quotedName name
  | .namelessTag tag => "ignoring documentation tag without a name tag=" ++ quotedName tag
  | .skippedDeclaration kind name cause =>
    "skipping declaration kind=" ++ kind.word ++ " name=" ++ quotedName name ++ " error=" ++ cause.message
  | .sharedPageName path name qualified =>
    path ++ " shares page name " ++ name ++ ", using " ++ qualified
  | .noMatch pattern => "no files matched: " ++ pattern
  | .completed page index total => s!"completed {page} ({index}/{total})"
  | .skippedUnit path reason => "skipping " ++ path ++ ": " ++ reason

/-- The line that shows a note. -/
def line (n : Note) : String :=
  n.level.word ++ " " ++ n.text

def isShown (threshold : Threshold) (n : Note) : Bool :=
  n.level.rank ≤ threshold

end Note

end DocPages
