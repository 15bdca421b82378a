/-
What a run may look at: the parts of the disk that its arguments lead to. The
disk that a run is given needs to hold no more than these.
-/
import DocPages.Command.Arguments
import DocPages.Files.Glob

namespace DocPages.Command

open Files (Glob GlobPart Location)

/-- The location that a path leads to, whether or not anything is there. -/
def locationOf (here : Location) (p : Files.Path) : Location :=
  (Files.segments p.text.toList).foldl Files.Disk.follow (if p.isAbsolute then [] else here)

/-- Whether a part of a pattern leads to one place only. -/
def isPlain : GlobPart → Bool
  | .plain _ => true
  | _ => false

/-- The location that a part of a pattern without wildcards leads to. -/
def followPart (l : Location) : GlobPart → Location
  | .plain s => Files.Disk.follow l s
  | _ => l

/-- The location below which everything lies that a pattern can match: that of its front without wildcards,
and as many folders further up as the rest of it may go. -/
def baseOf (here : Location) (g : Glob) : Location :=
  let front := (g.parts.takeWhile isPlain).foldl followPart (if g.scope.isAbsolute then [] else here)
  let ups := (g.parts.dropWhile isPlain).countP fun p => !isPlain p || p = .plain ".."
  if (g.parts.dropWhile isPlain).contains (.plain "..") then front.take (front.length - ups) else front

/-- The locations below which the inputs can match. -/
def basesOf (here : Location) (inputs : List String) : List Location :=
  inputs.flatMap fun input =>
    match Glob.ofPattern input with
    | .ok g => [locationOf here ⟨input⟩, baseOf here g]
    | .error _ => [locationOf here ⟨input⟩]

/-- Whether a file of this name may be documented for one of the inputs. -/
def mayBeRead (inputs : List String) (name : String) : Bool :=
  ".cs".toList.isSuffixOf name.toList || inputs.any fun input =>
    match Glob.ofPattern input with
    | .ok g => g.parts.getLast?.any (·.matches name)
    | .error _ => true

/-- The location of the output folder. -/
def outputLocation (here : Location) (o : Options) : List Location :=
  o.output?.toList.map fun folder => locationOf here ⟨folder⟩

end DocPages.Command
