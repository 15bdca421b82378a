/-
Steps over the tokens of a source unit. A step reads zero or more parts of a
node at a cursor and moves the cursor on. It never fails, and by its type it
never moves back or beyond the last token (`Step.forward`).

`Step.each` repeats a step; a repetition that reads nothing passes over one
token, so that malformed source cannot hold it up.
-/
import DocPages.Source.Node
import DocPages.Source.Reach

namespace DocPages.Source

/-! ## Cursors -/

/-- A place between two tokens: the index of the next token, and the tokens from there on. -/
structure Cursor where
  pos : Nat
  rest : List Token

namespace Cursor

/-- `n` tokens further on, or at the end if there are fewer. -/
def advance (c : Cursor) (n : Nat) : Cursor :=
  ⟨c.pos + (c.rest.take n).length, c.rest.drop n⟩

/-- The cursor `d` is where `c` comes to by moving on. -/
def Reaches (c d : Cursor) : Prop :=
  ∃ n, d = c.advance n

theorem advance_zero (c : Cursor) : c.advance 0 = c := by
  simp [advance]

theorem advance_advance (c : Cursor) (m n : Nat) : (c.advance m).advance n = c.advance (m + n) := by
  simp only [advance, List.length_take, List.length_drop, List.drop_drop, mk.injEq, and_true]
  omega

namespace Reaches

theorem refl (c : Cursor) : c.Reaches c :=
  ⟨0, c.advance_zero.symm⟩

theorem advance (c : Cursor) (n : Nat) : c.Reaches (c.advance n) :=
  ⟨n, rfl⟩

theorem next (c : Cursor) : c.Reaches (c.advance 1) :=
  .advance c 1

theorem trans {c d e : Cursor} (h : c.Reaches d) (h' : d.Reaches e) : c.Reaches e := by
  obtain ⟨m, rfl⟩ := h
  obtain ⟨n, rfl⟩ := h'
  exact ⟨m + n, c.advance_advance m n⟩

theorem length_le {c d : Cursor} (h : c.Reaches d) : d.rest.length ≤ c.rest.length := by
  obtain ⟨n, rfl⟩ := h
  simp [Cursor.advance]

end Reaches

/-- Where reading goes on after something that began at `c` and ended at `d`: there, or one token further
if nothing was read. -/
def past (c d : Cursor) : Cursor :=
  if d.rest.length < c.rest.length then d else c.advance 1

theorem past_of_shorter {c d : Cursor} (h : d.rest.length < c.rest.length) : c.past d = d :=
  if_pos h

theorem past_shorter {c : Cursor} (h : c.rest ≠ []) (d : Cursor) :
    (c.past d).rest.length < c.rest.length := by
  unfold past
  split
  · assumption
  · have := List.length_pos_iff.2 h
    simp only [advance, List.length_drop]
    omega

theorem reaches_past {c d : Cursor} (h : c.Reaches d) : c.Reaches (c.past d) := by
  unfold past
  split
  · exact h
  · exact .advance c 1

end Cursor

/-! ## Parts -/

/-- What a node is made of, kind and range apart. -/
structure Parts where
  modifiers : List Nat
  name? : Option Nat
  children : List Node

namespace Parts

def none : Parts := ⟨[], .none, []⟩

def append (p q : Parts) : Parts :=
  ⟨p.modifiers ++ q.modifiers, p.name?.or q.name?, p.children ++ q.children⟩

instance : Append Parts := ⟨append⟩

/-- The node of a kind that is made of the parts and covers the tokens between two indices. -/
def node (p : Parts) (kind : NodeKind) (start stop : Nat) : Node :=
  ⟨kind, start, stop, p.name?, p.modifiers, p.children⟩

end Parts

/-! ## Steps -/

structure Step where
  run : Cursor → Parts × Cursor
  forward : ∀ c : Cursor, c.Reaches (run c).2

namespace Step

/-- Reads nothing. -/
def idle : Step where
  run c := (.none, c)
  forward := .refl

/-- One step, then another. -/
def append (s t : Step) : Step where
  run c :=
    let first := s.run c
    let second := t.run first.2
    (first.1 ++ second.1, second.2)
  forward c := (s.forward c).trans (t.forward _)

instance : Append Step := ⟨append⟩

/-- Moves on by as many tokens as `reach` tells, and reads no part. -/
def skip (reach : List Token → Nat) : Step where
  run c := (.none, c.advance (reach c.rest))
  forward c := .advance c _

/-- Moves on by one token. -/
def bump : Step :=
  skip fun _ => 1

/-- A childless node over as many tokens as `reach` tells. -/
def leaf (kind : NodeKind) (reach : List Token → Nat) : Step where
  run c :=
    let d := c.advance (reach c.rest)
    (⟨[], .none, [Parts.none.node kind c.pos d.pos]⟩, d)
  forward c := .advance c _

/-- A node over what the step `s` reads. -/
def enclose (kind : NodeKind) (s : Step) : Step where
  run c :=
    let (parts, d) := s.run c
    (⟨[], .none, [parts.node kind c.pos d.pos]⟩, d)
  forward := s.forward

/-- The next token is the name of the node. -/
def name : Step where
  run c := (⟨[], some c.pos, []⟩, c.advance 1)
  forward := Cursor.Reaches.next

/-- The next token is a modifier of the node. -/
def modifier : Step where
  run c := (⟨[c.pos], .none, []⟩, c.advance 1)
  forward := Cursor.Reaches.next

/-- The step that the tokens ahead call for. -/
def choose (f : List Token → Step) : Step where
  run c := (f c.rest).run c
  forward c := (f c.rest).forward c

/-- The step `s` where the tokens ahead satisfy `p`, nothing elsewhere. -/
def whenAt (p : List Token → Bool) (s : Step) : Step :=
  choose fun ts => if p ts then s else idle

/-- Passes over one token of the kind, if it is next. -/
def eat (k : TokenKind) : Step :=
  whenAt (atKind k) bump

/-- Passes over the first of the words that is next. -/
def eatWord (ws : List String) : Step :=
  whenAt (fun ts => ws.any (atWord · ts)) bump

/-! ## Repetition -/

/-- The steps that `next?` calls for, one after the other, until it calls for none. -/
def eachFrom (next? : List Token → Option Step) (c : Cursor) : Parts × Cursor :=
  if h : c.rest = [] then (.none, c)
  else
    match next? c.rest with
    | none => (.none, c)
    | some s =>
      let read := s.run c
      have := Cursor.past_shorter h read.2
      let others := eachFrom next? (c.past read.2)
      (read.1 ++ others.1, others.2)
termination_by c.rest.length

theorem reaches_eachFrom (next? : List Token → Option Step) (c : Cursor) :
    c.Reaches (eachFrom next? c).2 := by
  fun_induction eachFrom next? c with
  | case1 => exact .refl _
  | case2 => exact .refl _
  | case3 c _ s _ _ _ _ ih => exact (Cursor.reaches_past (s.forward c)).trans ih

def each (next? : List Token → Option Step) : Step where
  run := eachFrom next?
  forward := reaches_eachFrom next?

/-- Repeats the step `s` as long as the tokens ahead satisfy `p`. -/
def whileAt (p : List Token → Bool) (s : Step) : Step :=
  each fun ts => if p ts then some s else none

end Step

end DocPages.Source
