/-
The page of a source unit. Its plan is carried out entry by entry: the comment
of each declaration is read when its turn comes. A comment that cannot be read
costs only its own declaration, or the whole page, as the policy has it.
-/
import DocPages.Log
import DocPages.Page.Plan

namespace DocPages

open Source (Tree)

/-- What becomes of a page with a comment that cannot be read. -/
inductive Policy where
  /-- A warning stands in for the declaration. -/
  | isolate
  /-- The page is given up. -/
  | abort
deriving DecidableEq, Repr

/-- A declaration whose comment cannot be read. -/
structure BadDeclaration where
  kind : DeclarationKind
  name : String
  cause : MalformedComment
deriving DecidableEq, Repr

namespace BadDeclaration

def message (b : BadDeclaration) : String :=
  b.kind.word ++ " \x60" ++ b.name ++ "\x60: " ++ b.cause.message

def note (b : BadDeclaration) : Note :=
  .skippedDeclaration b.kind b.name b.cause

def fragment (b : BadDeclaration) : Fragment :=
  .diagnostic b.kind b.name b.cause.message

end BadDeclaration

/-- Why a unit has no page. -/
inductive DocumentError where
  | missingNamespace
  | malformedComment (b : BadDeclaration)
deriving DecidableEq, Repr

def DocumentError.message : DocumentError → String
  | .missingNamespace => "no namespace declaration found"
  | .malformedComment b => b.message

/-! ## Carrying out a plan -/

/-- The fragment of a declaration. -/
def Declaration.fragment (d : Declaration) (level : Nat) : Fragment :=
  match d.kind with
  | .classType => .classEntry d
  | .interfaceType => .interfaceEntry d
  | .structType => .structEntry d
  | .constructor | .method => .memberEntry d level

/-- What a plan has come to: the notes made on the way, the fragments, and the declaration that ended it
early. -/
structure Progress where
  notes : List Note
  fragments : List Fragment
  stopped? : Option BadDeclaration

/-- The progress `p`, with notes and fragments before it. -/
def Progress.after (notes : List Note) (fragments : List Fragment) (p : Progress) : Progress :=
  ⟨notes ++ p.notes, fragments ++ p.fragments, p.stopped?⟩

namespace PlanEntry

/-- What an entry adds to a page, or the declaration whose comment cannot be read. -/
def resolve (tree : Tree) : PlanEntry → Except BadDeclaration (List Note × List Fragment)
  | .announce kind name => .ok ([.documenting kind name], [])
  | .fixed f => .ok ([], [f])
  | .declare kind level p =>
    match TagSet.ofTrivia (tree.leading p.node) with
    | .error cause => .error ⟨kind, tree.nameOf p.node, cause⟩
    | .ok tags => .ok (tags.nameless.map .namelessTag, [(tree.describe p.node kind tags).fragment level])

/-- Carries out a plan under a policy. -/
def carryOut (tree : Tree) (policy : Policy) : List PlanEntry → Progress
  | [] => ⟨[], [], none⟩
  | e :: rest =>
    match e.resolve tree with
    | .ok (notes, fragments) => .after notes fragments (carryOut tree policy rest)
    | .error bad =>
      match policy with
      | .isolate => .after [bad.note] [bad.fragment] (carryOut tree policy rest)
      | .abort => ⟨[], [], some bad⟩

end PlanEntry

/-! ## Documents -/

/-- The page of a unit as fragments, or why it has none, and the notes made either way. -/
structure Document where
  notes : List Note
  page : Except DocumentError (List Fragment)

def Source.Tree.document (tree : Tree) (policy : Policy) : Document :=
  match tree.plan? with
  | none => ⟨[], .error .missingNamespace⟩
  | some plan =>
    let progress := PlanEntry.carryOut tree policy plan
    match progress.stopped? with
    | some bad => ⟨progress.notes, .error (.malformedComment bad)⟩
    | none => ⟨progress.notes, .ok progress.fragments⟩

end DocPages
