/-
Paths as they are written, and as the components they consist of. Paths are
compared by their components: a doubled or trailing slash and a dot inside a
path make no difference, but a dot at its front does.
-/

namespace DocPages.Files

/-! ## Components -/

inductive Component where
  | root
  /-- A dot at the front of a path. -/
  | here
  /-- Two dots. -/
  | up
  | name (s : String)
deriving DecidableEq, Repr

namespace Component

/-- Components are ordered by kind, names by their characters. -/
def key : Component → List Nat
  | .root => [0]
  | .here => [1]
  | .up => [2]
  | .name s => 3 :: s.toList.map Char.toNat

def name? : Component → Option String
  | .name s => some s
  | _ => none

/-- The component as it is written. -/
def written : Component → String
  | .root => ""
  | .here => "."
  | .up => ".."
  | .name s => s

end Component

/-- The parts of a text between the marks `mark`, empty ones included. -/
def segmentsAt (mark : Char) : List Char → List String
  | [] => [""]
  | c :: rest =>
    let others := segmentsAt mark rest
    if c = mark then "" :: others
    else (String.singleton c ++ others.headD "") :: others.tail

/-- The parts of a path between slashes. -/
def segments (path : List Char) : List String :=
  segmentsAt '/' path

/-- The component that a segment inside a path stands for. Dots inside a path stand for nothing. -/
def innerComponent? (segment : String) : Option Component :=
  if segment = "" || segment = "." then none
  else if segment = ".." then some .up
  else some (.name segment)

/-- A path, as it is written. -/
structure Path where
  text : String
deriving DecidableEq, Repr

namespace Path

def isAbsolute (p : Path) : Bool :=
  ['/'].isPrefixOf p.text.toList

def components (p : Path) : List Component :=
  let all := segments p.text.toList
  let inner := all.filterMap innerComponent?
  if p.isAbsolute then .root :: inner
  else if all.head? = some "." then .here :: inner
  else inner

/-- The order of paths: component by component. -/
def key (p : Path) : List (List Nat) :=
  p.components.map Component.key

def le (p q : Path) : Bool :=
  !q.key.lex p.key fun a b => a.lex b fun m n => m < n

/-- A path with the given components. -/
def ofComponents (cs : List Component) : Path :=
  match cs with
  | [.root] => ⟨"/"⟩
  | _ => ⟨"/".intercalate (cs.map Component.written)⟩

/-- The path `p` with `s` behind it, with a slash between them unless there is one. -/
def join (p : Path) (s : String) : Path :=
  if p.text.isEmpty || p.text.toList.getLast? = some '/' then ⟨p.text ++ s⟩ else ⟨p.text ++ "/" ++ s⟩

end Path

/-! ## File names -/

/-- A file name without its extension. A dot at the very front does not begin an extension. -/
def stem (name : String) : String :=
  let fromDot := name.toList.reverse.dropWhile (· ≠ '.')
  match fromDot.tail with
  | [] => name
  | before => String.ofList before.reverse

/-- The name of a path: the folders and the stem of the file, with dots between them. Components that are
no names are left out, as is a stem that is not a name by itself. -/
def dottedName (cs : List Component) : String :=
  let last := match cs.getLast? with
    | some (.name s) => (innerComponent? (stem s)).bind Component.name?
    | _ => none
  ".".intercalate (cs.dropLast.filterMap Component.name? ++ last.toList)

/-- The stem of the file that a path leads to; the path itself if it does not end in a name. -/
def fileStem (p : Path) : String :=
  match p.components.getLast? with
  | some (.name s) => stem s
  | _ => p.text

end DocPages.Files
