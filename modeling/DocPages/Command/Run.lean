/-
A run of the program as a function: from the arguments, the disk, the standard
input and the wish for notes to an exit status, the output, the lines of the
error output and the disk afterwards.

Without inputs the program documents its standard input. With inputs it
documents every unit on its own, in order; a unit that cannot be documented is
reported and costs no other unit its page.
-/
import DocPages.Command.Arguments
import DocPages.Command.Inputs
import DocPages.Page.Document
import DocPages.Render.Format

namespace DocPages.Command

open Files (Disk Path)
open Source (Tree)

/-! ## What a run has and what it comes to -/

structure Environment where
  arguments : List String
  disk : Disk
  standardInput : ByteArray
  /-- The level of notes that is asked for, apart from the arguments. -/
  level? : Option String

structure Outcome where
  status : Nat
  output : String
  /-- The lines of the error output. -/
  errors : List String
  disk : Disk

/-- What has been done so far. -/
structure Session where
  disk : Disk
  output : String
  notes : List Note

namespace Session

def ofDisk (d : Disk) : Session := ⟨d, "", []⟩

def note (s : Session) (ns : List Note) : Session :=
  { s with notes := s.notes ++ ns }

/-- The outcome of a session that ends here. -/
def outcome (s : Session) (threshold : Threshold) (failure? : Option Failure) : Outcome where
  status := if failure?.isSome then 1 else 0
  output := s.output
  errors := (s.notes.filter (·.isShown threshold)).map Note.line ++ failure?.elim [] Failure.lines
  disk := s.disk

end Session

/-! ## Pages -/

/-- How pages are made and where they go. -/
structure Settings where
  renderer : Renderer
  policy : Policy
  /-- The folder for pages; without one they are printed. -/
  folder? : Option Path

/-- The text of bytes in UTF-8. -/
def textOf? (content : ByteArray) : Option String :=
  String.fromUTF8? content

def notText : String := "stream did not contain valid UTF-8"

/-- The page of a source text, or why it has none, with the notes made on the way. -/
def pageOf (renderer : Renderer) (policy : Policy) (source : String) :
    List Note × Except DocumentError String :=
  let document := (Tree.ofSource source).document policy
  (document.notes, document.page.map renderer.page)

/-! ## Documenting the standard input -/

def runStandardInput (renderer : Renderer) (policy : Policy) (input : ByteArray) (s : Session) :
    Session × Option Failure :=
  match textOf? input with
  | none => (s, some ⟨"failed to read stdin", some notText⟩)
  | some source =>
    let (notes, page) := pageOf renderer policy source
    match page with
    | .error e => (s.note notes, some ⟨"failed to document stdin", some e.message⟩)
    | .ok page => ({ s.note notes with output := s.output ++ page }, none)

/-! ## Documenting files -/

/-- The page of a unit, or why it has none. -/
def unitPage (settings : Settings) (d : Disk) (u : SourceUnit) : List Note × Except String String :=
  let unread (reason : String) := "failed to read " ++ u.path.text ++ ": " ++ reason
  match d.read u.path with
  | .error e => ([], .error (unread e.message))
  | .ok content =>
    match textOf? content with
    | none => ([], .error (unread notText))
    | some source =>
      let (notes, page) := pageOf settings.renderer settings.policy source
      (notes, page.mapError DocumentError.message)

/-- The file of a unit's page. -/
def pagePath (settings : Settings) (folder : Path) (u : SourceUnit) : Path :=
  folder.join (u.name ++ "." ++ settings.renderer.extension)

/-- Puts a page where it goes. -/
def deliver (settings : Settings) (u : SourceUnit) (page : String) (s : Session) : Except Failure Session :=
  match settings.folder? with
  | none => .ok { s with output := s.output ++ page }
  | some folder =>
    let path := pagePath settings folder u
    match s.disk.write path page.toUTF8 with
    | .ok disk => .ok { s with disk }
    | .error e => .error ⟨"failed to write " ++ path.text, some e.message⟩

/-- Documents units one after the other, from the unit with number `index` of `total` on. Gives the number
of units that could not be documented; a page that cannot be written ends the run. -/
def runUnits (settings : Settings) (total : Nat) (index : Nat) :
    List SourceUnit → Session → Session × Except Failure Nat
  | [], s => (s, .ok 0)
  | u :: rest, s =>
    match unitPage settings s.disk u with
    | (notes, .error reason) =>
      let (s', failed) := runUnits settings total (index + 1) rest
        (s.note (notes ++ [.skippedUnit u.path.text reason]))
      (s', failed.map (· + 1))
    | (notes, .ok page) =>
      match deliver settings u page (s.note notes) with
      | .error f => (s.note notes, .error f)
      | .ok s' => runUnits settings total (index + 1) rest (s'.note [.completed u.name index total])

/-- The failure that a number of units without pages makes. -/
def failureOfCount (failed total : Nat) : Option Failure :=
  if failed = 0 then none
  else some ⟨s!"{failed} of {total} source files could not be documented", none⟩

/-- Creates the folder for pages, unless they are printed. -/
def prepareFolder (o : Options) (s : Session) : Except Failure (Session × Option Path) :=
  if o.print then .ok (s, none)
  else match o.output? with
    | none => .error ⟨"--output is required when inputs are given (or use --print)", none⟩
    | some folder =>
      match s.disk.createFolders ⟨folder⟩ with
      | .ok disk => .ok ({ s with disk }, some ⟨folder⟩)
      | .error e => .error ⟨"failed to create output directory: " ++ folder, some e.message⟩

def runFiles (renderer : Renderer) (policy : Policy) (o : Options) (s : Session) :
    Session × Option Failure :=
  match prepareFolder o s with
  | .error f => (s, some f)
  | .ok (s, folder?) =>
    let expansion := expandInputs s.disk o.inputs
    let s := s.note expansion.notes
    match expansion.units with
    | .error f => (s, some f)
    | .ok units =>
      match runUnits ⟨renderer, policy, folder?⟩ units.length 1 units s with
      | (s', .error f) => (s', some f)
      | (s', .ok failed) => (s', failureOfCount failed units.length)

/-! ## The program -/

/-- What notes are shown: as asked for, or else those on progress if the arguments want them. -/
def thresholdFor (o : Options) (level? : Option String) : Threshold :=
  level?.elim (if o.verbose then Level.info.rank else Level.warn.rank) thresholdOf

def runOptions (env : Environment) (o : Options) : Outcome :=
  let policy : Policy := if o.strict then .abort else .isolate
  let start := Session.ofDisk env.disk
  let (s, failure?) : Session × Option Failure :=
    match rendererFor o.format with
    | .error u => (start, some ⟨u.message, none⟩)
    | .ok renderer =>
      if o.inputs.isEmpty then runStandardInput renderer policy env.standardInput start
      else runFiles renderer policy o start
  s.outcome (thresholdFor o env.level?) failure?

def run (env : Environment) : Outcome :=
  match Invocation.ofArguments env.arguments with
  | .help => ⟨0, helpText, [], env.disk⟩
  | .refused => ⟨2, "", [], env.disk⟩
  | .run o => runOptions env o

end DocPages.Command
