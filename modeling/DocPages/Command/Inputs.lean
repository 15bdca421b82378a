/-
From inputs to source units. An input is a file, a folder or a pattern; a unit
is a file to be documented, with the name of its page. Units are put in the
order of their paths, each path once, and no two have pages of one name.
-/
import DocPages.Files.Glob
import DocPages.Log

namespace DocPages.Command

open Files (Component Disk GlobError Glob Path)

/-! ## Failures -/

/-- An error that ends the program, with its cause if it has one. -/
structure Failure where
  message : String
  cause? : Option String
deriving DecidableEq, Repr

namespace Failure

/-- The lines that tell of a failure. -/
def lines (f : Failure) : List String :=
  ("Error: " ++ f.message) :: f.cause?.elim [] fun cause =>
    ["", "Caused by:"] ++ (Files.segmentsAt '\n' cause.toList).map ("    " ++ ·)

end Failure

/-! ## Units -/

structure SourceUnit where
  path : Path
  /-- The name of its page, without extension. -/
  name : String
deriving DecidableEq, Repr

/-- The unit of a file by itself, named after the file. -/
def SourceUnit.ofFile (p : Path) : SourceUnit :=
  ⟨p, Files.fileStem p⟩

/-- Folders with build output, which are never looked into. -/
def skippedFolders : List String := ["bin", "obj"]

/-- Whether a file below a folder lies in build output. -/
def isSkipped (relative : List Component) : Bool :=
  relative.dropLast.any fun c => c.name?.any skippedFolders.contains

/-- The unit of a file found below a folder, named after its way from there; none if it is build output. A
path that does not begin with the folder's own is a file by itself. -/
def unitBelow? (folder found : Path) : Option SourceUnit :=
  if folder.components.isPrefixOf found.components then
    let relative := found.components.drop folder.components.length
    if isSkipped relative then none else some ⟨found, Files.dottedName relative⟩
  else some (.ofFile found)

/-- The pattern of all source files below a folder. -/
def folderPattern (folder : String) : String :=
  String.ofList (folder.toList.reverse.dropWhile (· = '/')).reverse ++ "/**/*.cs"

/-- The files that a pattern matches. -/
def filesMatching (d : Disk) (pattern : String) : Except GlobError (List Path) :=
  (Glob.ofPattern pattern).map fun g => (g.run d).filter d.isFile

/-- The units of one input, and notes on it. -/
def expandInput (d : Disk) (input : String) : Except Failure (List Note × List SourceUnit) :=
  if d.isFile ⟨input⟩ then .ok ([], [.ofFile ⟨input⟩])
  else if d.isFolder ⟨input⟩ then
    match filesMatching d (folderPattern input) with
    | .error e => .error ⟨"invalid directory path: " ++ input, some e.message⟩
    | .ok found => .ok ([], found.filterMap (unitBelow? ⟨input⟩))
  else
    match filesMatching d input with
    | .error e => .error ⟨"invalid glob pattern: " ++ input, some e.message⟩
    | .ok found => .ok (if found.isEmpty then [.noMatch input] else [], found.map .ofFile)

/-! ## All inputs together -/

/-- Notes made so far, and how it went. -/
structure Expansion where
  notes : List Note
  units : Except Failure (List SourceUnit)

/-- The units of all inputs, in the order of the inputs. -/
def expandAll (d : Disk) : List String → Expansion
  | [] => ⟨[], .ok []⟩
  | input :: rest =>
    match expandInput d input with
    | .error f => ⟨[], .error f⟩
    | .ok (notes, units) =>
      let others := expandAll d rest
      ⟨notes ++ others.notes, others.units.map (units ++ ·)⟩

/-- Leaves of units with equal paths that stand together only the first. -/
def dropRepeated : List SourceUnit → List SourceUnit
  | u :: v :: rest =>
    if u.path.components = v.path.components then dropRepeated (u :: rest) else u :: dropRepeated (v :: rest)
  | us => us
termination_by us => us.length

/-- Units in the order of their paths, each path once. -/
def arrange (us : List SourceUnit) : List SourceUnit :=
  dropRepeated (us.mergeSort fun u v => u.path.le v.path)

/-- The name of a unit after its whole path. -/
def SourceUnit.qualifiedName (u : SourceUnit) : String :=
  Files.dottedName u.path.components

/-- Whether several units have the name of this one. -/
def sharesName (us : List SourceUnit) (u : SourceUnit) : Bool :=
  us.countP (·.name = u.name) > 1

/-- Units that share a name are named after their whole paths. -/
def qualify (us : List SourceUnit) : List SourceUnit :=
  us.map fun u => if sharesName us u then { u with name := u.qualifiedName } else u

def qualifyNotes (us : List SourceUnit) : List Note :=
  us.filter (sharesName us) |>.map fun u => .sharedPageName u.path.text u.name u.qualifiedName

/-- The first name that an earlier one equals. -/
def firstRepeated (seen : List String) : List String → Option String
  | [] => none
  | name :: rest => if seen.contains name then some name else firstRepeated (name :: seen) rest

/-- The units to document for the inputs, under names no two of which are equal. -/
def expandInputs (d : Disk) (inputs : List String) : Expansion :=
  let all := expandAll d inputs
  match all.units with
  | .error f => ⟨all.notes, .error f⟩
  | .ok units =>
    let arranged := arrange units
    let named := qualify arranged
    let notes := all.notes ++ qualifyNotes arranged
    match firstRepeated [] (named.map (·.name)) with
    | some name => ⟨notes, .error ⟨"more than one input maps to the page name " ++ name, none⟩⟩
    | none => ⟨notes, .ok named⟩

end DocPages.Command
