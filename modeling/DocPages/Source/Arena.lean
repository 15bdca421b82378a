/-
The arena of a tree: its nodes in a list, each known by its index there, with the
index of its parent and the indices of its children. Nodes are entered when they
are opened, under the node opened last, and get their end when they are closed.

`Arena.next` goes over the nodes below one with a stack of those still to be
visited, the last of them first. Nothing in it makes that come to an end; that it
does, and in which order it visits the nodes of a source, is a matter of proof.
-/
import DocPages.Source.Tree

namespace DocPages.Source

/-! ## Entries -/

/-- A node in an arena. -/
structure Entry where
  kind : NodeKind
  parent? : Option Nat
  children : List Nat
  start : Nat
  stop : Nat
  name? : Option Nat
  modifiers : List Nat
deriving DecidableEq, Repr

/-- The entry with further children. -/
def Entry.adopt (e : Entry) (ids : List Nat) : Entry :=
  { e with children := e.children ++ ids }

structure Arena where
  entries : List Entry
deriving DecidableEq, Repr

namespace Arena

def parent? (a : Arena) (id : Nat) : Option Nat :=
  a.entries[id]?.bind (·.parent?)

def children (a : Arena) (id : Nat) : List Nat :=
  a.entries[id]?.elim [] (·.children)

/-- The index of the first token that a node covers. -/
def start (a : Arena) (id : Nat) : Nat :=
  a.entries[id]?.elim 0 (·.start)

end Arena

/-! ## Building -/

/-- An arena while nodes are still open, the one opened last first. -/
structure Building where
  entries : List Entry
  opened : List Nat
deriving DecidableEq, Repr

namespace Building

/-- The entries with further children for one of them, if there is one. -/
def adopt (entries : List Entry) (parent? : Option Nat) (ids : List Nat) : List Entry :=
  parent?.elim entries fun p => entries.modify p (·.adopt ids)

/-- Opens a node at a token, as a child of the node opened last. -/
def enter (b : Building) (kind : NodeKind) (pos : Nat) (name? : Option Nat) (modifiers : List Nat) : Building :=
  let id := b.entries.length
  let parent? := b.opened.head?
  let entry : Entry := ⟨kind, parent?, [], pos, pos, name?, modifiers⟩
  ⟨adopt (b.entries ++ [entry]) parent? [id], id :: b.opened⟩

/-- Closes the node opened last. -/
def leave (b : Building) (pos : Nat) : Building :=
  match b.opened with
  | [] => b
  | id :: rest => ⟨b.entries.modify id fun e => { e with stop := pos }, rest⟩

end Building

mutual

/-- Enters a node and everything below it. -/
def Node.build : Node → Building → Building
  | ⟨kind, start, stop, name?, modifiers, children⟩, b =>
    (buildAll children (b.enter kind start name? modifiers)).leave stop

def buildAll : List Node → Building → Building
  | [], b => b
  | n :: rest, b => buildAll rest (n.build b)

end

def Tree.arena (tree : Tree) : Arena :=
  ⟨(tree.root.build ⟨[], []⟩).entries⟩

/-! ## Traversal -/

namespace Arena

/-- The stack from which the nodes below a node are visited. -/
def descendants (a : Arena) (id : Nat) : List Nat :=
  (a.children id).reverse

/-- Visits the last node of a stack and puts its children there, the first of them last. -/
def next (a : Arena) (stack : List Nat) : Option (Nat × List Nat) :=
  stack.getLast?.map fun id => (id, stack.dropLast ++ (a.children id).reverse)

/-- The traversal from a stack comes to an end, and these are the nodes it visits. -/
inductive Visits (a : Arena) : List Nat → List Nat → Prop where
  | done {stack : List Nat} (h : a.next stack = none) : Visits a stack []
  | step {stack rest : List Nat} {id : Nat} {ids : List Nat} (h : a.next stack = some (id, rest))
      (further : Visits a rest ids) : Visits a stack (id :: ids)

end Arena

end DocPages.Source
