/-
The program: loads the part of the disk that its arguments lead to, runs, and
puts what the run has come to where it belongs.
-/
import DocPages.Command.Reach
import DocPages.Command.Run

namespace DocPages.Main

open Command Files

/-! ## Loading -/

/-- A location as an entry of the real disk. -/
def realEntry (l : Location) : IO.FS.DirEntry :=
  ⟨"/" ++ "/".intercalate l.dropLast, l.getLastD ""⟩

/-- The path of a location. -/
def realPath (l : Location) : String :=
  "/" ++ "/".intercalate l

/-- What is at a location: a folder, a file, or nothing of interest. -/
def kindAt (l : Location) : IO (Option Bool) := do
  match ← (realEntry l).path.metadata.toBaseIO with
  | .ok m => return if m.type == .dir then some true else if m.type == .file then some false else none
  | .error _ => return none

/-- Adds the entry `name` of a folder. Files are read if `wanted` has their name; those that cannot be read are
there all the same. -/
def loadEntry (wanted : String → Bool) (t : FileTree) (parent : Location) (name : String) : IO FileTree := do
  let l := parent ++ [name]
  match ← kindAt l with
  | none => return t
  | some true => return t.addFolder parent name
  | some false =>
    if !wanted name then return if t.get? l = none then t.putFile parent name .empty else t
    match ← (IO.FS.readBinFile (realPath l)).toBaseIO with
    | .ok content => return t.putFile parent name content
    | .error _ => return (t.putFile parent name .empty).bar .reading l

/-- Adds the entries on the way from one location to another. -/
def loadWay (wanted : String → Bool) (t : FileTree) (l : Location) : List String → IO FileTree
  | [] => return t
  | name :: rest => do loadWay wanted (← loadEntry wanted t l name) (l ++ [name]) rest

/-- Adds the entries of a folder. -/
def loadEntries (wanted : String → Bool) (t : FileTree) (l : Location) : IO FileTree := do
  match ← (realEntry l).path.readDir.toBaseIO with
  | .error _ => return t
  | .ok entries => entries.foldlM (fun t e => loadEntry wanted t l e.fileName) t

/-- Bars the files of a folder that cannot be opened for writing. -/
def barUnwritable (t : FileTree) (l : Location) : IO FileTree :=
  (t.namesIn l).foldlM (fun t name => do
    if t.isFolder (l ++ [name]) then return t
    match ← (IO.FS.Handle.mk (realPath (l ++ [name])) .append).toBaseIO with
    | .ok _ => return t
    | .error _ => return t.bar .writing (l ++ [name])) t

/-- Whether a location is a folder itself, and not a link to one. -/
def isOwnFolder (l : Location) : IO Bool := do
  match ← (realEntry l).path.symlinkMetadata.toBaseIO with
  | .ok m => return m.type == .dir
  | .error _ => return false

/-- Adds everything below a folder. Links to folders are not followed. -/
partial def loadBelow (wanted : String → Bool) (t : FileTree) (l : Location) : IO FileTree := do
  let mut t ← loadEntries wanted t l
  for name in t.namesIn l do
    if ← isOwnFolder (l ++ [name]) then
      t ← loadBelow wanted t (l ++ [name])
  return t

/-- The disk as far as the options lead to it. -/
def loadDisk (o : Options) : IO Disk := do
  let here := (segments (toString (← IO.currentDir)).toList).filter (· ≠ "")
  let wanted := mayBeRead o.inputs
  let mut t ← loadWay wanted .empty [] here
  for l in outputLocation here o do
    t ← loadWay wanted t [] l
    t ← loadEntries wanted t l
    t ← barUnwritable t l
  for l in basesOf here o.inputs do
    t ← loadWay wanted t [] l
    if t.isFolder l then
      t ← loadBelow wanted t l
  return ⟨t, here⟩

/-- All of the standard input. -/
partial def readAll (input : IO.FS.Stream) (soFar : ByteArray) : IO ByteArray := do
  let more ← input.read 65536
  if more.isEmpty then return soFar
  readAll input (soFar ++ more)

/-- The environment of a run with these arguments. What the run has no use for is not looked at. -/
def environment (args : List String) : IO Environment := do
  let nothing : Disk := ⟨.empty, []⟩
  let level? ← IO.getEnv "CSDOC_LOG"
  match Invocation.ofArguments args with
  | .run o =>
    if o.inputs.isEmpty then return ⟨args, nothing, ← readAll (← IO.getStdin) .empty, level?⟩
    return ⟨args, ← loadDisk o, .empty, level?⟩
  | _ => return ⟨args, nothing, .empty, level?⟩

/-! ## Storing -/

/-- Creates the folders and writes the files that `after` has beyond `before`. -/
def store (before after : FileTree) : IO Unit := do
  for (l, e) in after.entries do
    unless before.get? l = some e do
      match e with
      | .folder => IO.FS.createDirAll (realPath l)
      | .file content => IO.FS.writeBinFile (realPath l) content

end DocPages.Main

open DocPages in
def main (args : List String) : IO UInt32 := do
  let env ← Main.environment args
  let outcome := Command.run env
  Main.store env.disk.tree outcome.disk.tree
  let output ← IO.getStdout
  output.putStr outcome.output
  output.flush
  for line in outcome.errors do
    IO.eprintln line
  return outcome.status.toUInt32
