/-
Disks: a file tree seen from a current folder, with paths for locations. A
path is followed segment by segment, and every segment but the last must lead
through a folder; so a trailing slash or dot demands that the path lead to one.
-/
import DocPages.Files.Path
import DocPages.Files.Tree

namespace DocPages.Files

/-- Why a path cannot be used. -/
inductive DiskError where
  | notFound | denied | exists | notFolder | isFolder
deriving DecidableEq, Repr

def DiskError.message : DiskError → String
  | .notFound => "No such file or directory (os error 2)"
  | .denied => "Permission denied (os error 13)"
  | .exists => "File exists (os error 17)"
  | .notFolder => "Not a directory (os error 20)"
  | .isFolder => "Is a directory (os error 21)"

structure Disk where
  tree : FileTree
  /-- The current folder, where relative paths begin. -/
  here : Location

namespace Disk

/-! ## Following paths -/

/-- The location that a segment leads to from a folder. The root is its own parent. -/
def follow (l : Location) (segment : String) : Location :=
  if segment = "" || segment = "." then l
  else if segment = ".." then l.dropLast
  else l ++ [segment]

/-- The location that segments lead to. -/
def descend (d : Disk) (l : Location) : List String → Except DiskError Location
  | [] => .ok l
  | s :: rest =>
    match d.tree.get? l with
    | some .folder => descend d (follow l s) rest
    | some (.file _) => .error .notFolder
    | none => .error .notFound

/-- Where a path begins. -/
def origin (d : Disk) (p : Path) : Location :=
  if p.isAbsolute then [] else d.here

/-- The location of a path and what is there. -/
def locate (d : Disk) (p : Path) : Except DiskError (Location × FileEntry) :=
  if p.text.isEmpty then .error .notFound
  else
    match d.descend (d.origin p) (segments p.text.toList) with
    | .error e => .error e
    | .ok l =>
      match d.tree.get? l with
      | some e => .ok (l, e)
      | none => .error .notFound

def isPresent (d : Disk) (p : Path) : Bool :=
  (d.locate p).isOk

def isFile (d : Disk) (p : Path) : Bool :=
  match d.locate p with
  | .ok (_, .file _) => true
  | _ => false

/-- The location of a folder. -/
def folder? (d : Disk) (p : Path) : Option Location :=
  match d.locate p with
  | .ok (l, .folder) => some l
  | _ => none

def isFolder (d : Disk) (p : Path) : Bool :=
  (d.folder? p).isSome

/-- What the file at a path holds, if it may be read. -/
def read (d : Disk) (p : Path) : Except DiskError ByteArray :=
  match d.locate p with
  | .ok (l, .file content) => if d.tree.allows .reading l then .ok content else .error .denied
  | .ok (_, .folder) => .error .isFolder
  | .error e => .error e

/-! ## Creating folders and writing files -/

/-- The folder that a path's last segment lies in, and that segment. Trailing slashes are left aside. -/
def parentOf (d : Disk) (p : Path) : Except DiskError (Location × String) :=
  let all := segments p.text.toList
  let upToLast := (all.reverse.dropWhile (· = "")).reverse
  match upToLast.getLast? with
  | none => .error (if p.isAbsolute then .exists else .notFound)
  | some last =>
    match d.descend (d.origin p) upToLast.dropLast with
    | .error e => .error e
    | .ok l =>
      match d.tree.get? l with
      | some .folder => .ok (l, last)
      | some (.file _) => .error .notFolder
      | none => .error .notFound

/-- The disk with a new folder at a path. -/
def createFolder (d : Disk) (p : Path) : Except DiskError Disk :=
  match d.parentOf p with
  | .error e => .error e
  | .ok (l, name) =>
    if d.tree.get? (follow l name) ≠ none then .error .exists
    else .ok { d with tree := d.tree.addFolder l name }

/-- A folder at a path, which may be there already, once the folder above it is there. -/
def ensureFolder (d : Disk) (p : Path) : Except DiskError Disk :=
  match d.createFolder p with
  | .ok d' => .ok d'
  | .error e => if d.isFolder p then .ok d else .error e

/-- A folder at the path `p`, which has the components `reversed`, last one first, and at every path above
it that is missing. -/
def createFoldersUp (d : Disk) (p : Path) : List Component → Except DiskError Disk
  | [] => .ok d
  | _ :: up =>
    match d.createFolder p with
    | .error .notFound =>
      match createFoldersUp d (.ofComponents up.reverse) up with
      | .error e => .error e
      | .ok d' => d'.ensureFolder p
    | _ => d.ensureFolder p

/-- The disk with a folder at a path, and folders above it as needed. -/
def createFolders (d : Disk) (p : Path) : Except DiskError Disk :=
  d.createFoldersUp p p.components.reverse

/-- The disk with a file of the given content at a path. What is there already must be a file that may be
written. -/
def write (d : Disk) (p : Path) (content : ByteArray) : Except DiskError Disk :=
  match d.parentOf p with
  | .error e => .error e
  | .ok (l, name) =>
    if d.tree.isFolder (follow l name) then .error .isFolder
    else if !d.tree.allows .writing (follow l name) then .error .denied
    else .ok { d with tree := d.tree.putFile l name content }

end Disk

end DocPages.Files
