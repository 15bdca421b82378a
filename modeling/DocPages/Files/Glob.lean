/-
Glob patterns. A pattern is checked as a whole and then matched against a disk
component by component: plain components are followed as they are, components
with wildcards are matched against the names in a folder, and two stars stand
for any number of folders. Matches are paths written the way the pattern leads
to them; a match below the current folder is written without a dot in front.
-/
import DocPages.Files.Disk

namespace DocPages.Files

/-! ## Tokens of a pattern -/

/-- What a character in brackets may be. -/
inductive CharSpec where
  | single (c : Char)
  | range (first last : Char)
deriving DecidableEq, Repr

inductive GlobToken where
  | char (c : Char)
  | anyChar
  | anyRun
  | folders
  | within (specs : List CharSpec)
  | except (specs : List CharSpec)
deriving DecidableEq, Repr

inductive GlobFault where
  | wildcards | foldersNotAlone | range
deriving DecidableEq, Repr

structure GlobError where
  position : Nat
  fault : GlobFault
deriving DecidableEq, Repr

def GlobError.message (e : GlobError) : String :=
  let text := match e.fault with
    | .wildcards => "wildcards are either regular \x60*\x60 or recursive \x60**\x60"
    | .foldersNotAlone => "recursive wildcards must form a single path component"
    | .range => "invalid range pattern"
  s!"Pattern syntax error near position {e.position}: " ++ text

/-- The characters in brackets: single ones, and ranges written with a hyphen. -/
def charSpecs : List Char → List CharSpec
  | a :: '-' :: b :: rest => .range a b :: charSpecs rest
  | c :: rest => .single c :: charSpecs rest
  | [] => []

/-- The characters before a closing bracket, of which the first is taken as it is, and the number of
characters through that bracket. -/
def bracketed? : List Char → Option (List Char × Nat)
  | [] => none
  | first :: rest =>
    if rest.contains ']' then
      let inner := rest.takeWhile (· ≠ ']')
      some (first :: inner, inner.length + 2)
    else none

/-- The token that a character begins, and how many characters after it belong to it. `index` is its place
in the pattern, `before?` the character in front of it. -/
def globToken (index : Nat) (before? : Option Char) (c : Char) (rest : List Char) :
    Except GlobError (GlobToken × Nat) :=
  if c = '?' then .ok (.anyChar, 0)
  else if c = '*' then
    let more := (rest.takeWhile (· = '*')).length
    if more = 0 then .ok (.anyRun, 0)
    else if more > 1 then .error ⟨index + 2, .wildcards⟩
    else if !before?.all (· = '/') then .error ⟨index - 1, .foldersNotAlone⟩
    else if !(rest.drop 1).head?.all (· = '/') then .error ⟨index + 2, .foldersNotAlone⟩
    else .ok (.folders, 1)
  else if c = '[' then
    let (negated, body) := match rest with
      | '!' :: t => (true, t)
      | t => (false, t)
    match bracketed? body with
    | none => .error ⟨index, .range⟩
    | some (inner, size) =>
      if negated then .ok (.except (charSpecs inner), size + 1) else .ok (.within (charSpecs inner), size)
  else .ok (.char c, 0)

/-- The tokens of a pattern, or of the rest of one from `index` on. -/
def globTokensFrom (index : Nat) (before? : Option Char) : List Char → Except GlobError (List GlobToken)
  | [] => .ok []
  | c :: rest =>
    match globToken index before? c rest with
    | .error e => .error e
    | .ok (t, n) =>
      (globTokensFrom (index + 1 + n) (c :: rest.take n).getLast? (rest.drop n)).map (t :: ·)
termination_by s => s.length
decreasing_by simp only [List.length_drop, List.length_cons]; omega

def globTokens (pattern : List Char) : Except GlobError (List GlobToken) :=
  globTokensFrom 0 none pattern

/-! ## Matching names -/

def CharSpec.matches (c : Char) : CharSpec → Bool
  | .single d => c = d
  | .range a b => a ≤ c && c ≤ b

/-- Whether a token for one character stands for this one. -/
def GlobToken.matches (c : Char) : GlobToken → Bool
  | .char d => c = d
  | .anyChar => true
  | .within specs => specs.any (·.matches c)
  | .except specs => !specs.any (·.matches c)
  | .anyRun | .folders => false

/-- Whether tokens stand for a name as a whole. -/
def globMatches : List GlobToken → List Char → Bool
  | [], s => s.isEmpty
  | .anyRun :: ts, s => (List.range (s.length + 1)).any fun n => globMatches ts (s.drop n)
  | t :: ts, c :: s => t.matches c && globMatches ts s
  | _ :: _, [] => false

/-! ## Patterns by component -/

inductive GlobPart where
  /-- A name, taken as it is. -/
  | plain (s : String)
  | wild (ts : List GlobToken)
  | folders
deriving DecidableEq, Repr

def GlobToken.char? : GlobToken → Option Char
  | .char c => some c
  | _ => none

def GlobPart.ofTokens (ts : List GlobToken) : GlobPart :=
  if ts = [.folders] then .folders
  else match ts.mapM GlobToken.char? with
    | some cs => .plain (String.ofList cs)
    | none => .wild ts

/-- Whether a part of a pattern stands for a name in a folder. -/
def GlobPart.matches (name : String) : GlobPart → Bool
  | .plain s => s = name
  | .wild ts => globMatches ts name.toList
  | .folders => false

/-- Folder wildcards in a row mean the same as one. -/
def collapse : List GlobPart → List GlobPart
  | .folders :: .folders :: rest => collapse (.folders :: rest)
  | p :: rest => p :: collapse rest
  | [] => []
termination_by ps => ps.length

/-- A pattern ready to be matched. -/
structure Glob where
  /-- Where matching begins: the root or the current folder. -/
  scope : Path
  parts : List GlobPart
  /-- The pattern ends in a slash, so only folders match it. -/
  foldersOnly : Bool
deriving DecidableEq, Repr

/-- The components of a pattern after its root, as written; a slash at the end adds none. -/
def globComponents (pattern : List Char) : List String :=
  let all := segments pattern
  if all.length > 1 && all.getLast? = some "" then all.dropLast else all

def Glob.ofPattern (pattern : String) : Except GlobError Glob := do
  let cs := pattern.toList
  discard (globTokens cs)
  let isAbsolute := ['/'].isPrefixOf cs
  let parts ← (globComponents (if isAbsolute then cs.drop 1 else cs)).mapM fun s =>
    GlobPart.ofTokens <$> globTokens s.toList
  return ⟨⟨if isAbsolute then "/" else "."⟩, collapse parts, cs.getLast? = some '/'⟩

/-! ## Matching paths -/

/-- The path of an entry of the folder `p`. The current folder is not written. -/
def Path.child (p : Path) (name : String) : Path :=
  if p.components = [.here] then ⟨name⟩ else p.join name

/-- The paths below `p` that the parts lead to. Dots are matched only by parts that begin with one, and are
not among the names in a folder. -/
def matchesBelow (d : Disk) (p : Path) : List GlobPart → List Path
  | [] => [p]
  | .plain s :: rest =>
    let next := p.child s
    let leadsOn := if s = "." || s = ".." then d.isFolder p else d.isPresent next
    if leadsOn then matchesBelow d next rest else []
  | .wild ts :: rest =>
    match d.folder? p with
    | none => []
    | some l =>
      let names := (d.tree.namesIn l).filter fun name => globMatches ts name.toList
      let dots := if ts.head? = some (.char '.') then [".", ".."].filter (globMatches ts ·.toList) else []
      names.flatMap (fun name => matchesBelow d (p.child name) rest) ++
        dots.flatMap (fun s => matchesBelow d (p.join s) rest)
  | .folders :: rest =>
    match d.folder? p with
    | none => []
    | some l =>
      (d.tree.below l).flatMap fun names =>
        let path := names.foldl Path.child p
        match rest with
        | [] => if d.isFolder path then [path] else []
        | q :: rest' => if names.getLast?.any q.matches then matchesBelow d path rest' else []

/-- The paths that match. -/
def Glob.run (g : Glob) (d : Disk) : List Path :=
  (matchesBelow d g.scope g.parts).filter fun p => !g.foldersOnly || d.isFolder p

end DocPages.Files
