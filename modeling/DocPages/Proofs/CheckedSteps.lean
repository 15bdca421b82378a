/-
A reader with checks. `Step` says what is read, and its type leaves no room for
moving back or standing still. Here the same reading is done by actions on a
state, a position and the nodes that are open, which could do all of that, and
which fail as soon as one does: a procedure that moves back or beyond the last
token, a turn of a loop that goes on without having moved on, a node that is
not the one opened last when it is named, changed or closed.

An action that reads at a state what a step reads at the cursor there
(`Action.Reads`) fails none of its checks. The lemmas here say so of the
combinators.
-/
import DocPages.Proofs.Equations
import DocPages.Proofs.Places
import DocPages.Proofs.Reading

namespace DocPages.Source.Checked

/-! ## States -/

/-- A node that has been opened and not yet closed, with what has been read of it so far. -/
structure OpenNode where
  number : Nat
  kind : NodeKind
  start : Nat
  parts : Parts

structure State where
  /-- The index of the next token. -/
  pos : Nat
  /-- How many nodes have been opened so far, which is the number of the next one. -/
  count : Nat
  /-- The nodes that are open, the one opened last first. -/
  opened : List OpenNode

def OpenNode.add (n : OpenNode) (p : Parts) : OpenNode :=
  { n with parts := n.parts ++ p }

@[simp] theorem OpenNode.add_none (n : OpenNode) : n.add .none = n := by
  rw [OpenNode.add, Parts.append_none]

namespace State

/-- The state after parts have been read of the node opened last. -/
def take (s : State) (read : Parts × Cursor) : State :=
  ⟨read.2.pos, s.count + sizeOfAll read.1.children, s.opened.modifyHead (·.add read.1)⟩

/-- The state after parts have been read of the node opened last, which turned out to be of a kind. -/
def takeAs (s : State) (kind : NodeKind) (read : Parts × Cursor) : State :=
  ⟨read.2.pos, s.count + sizeOfAll read.1.children,
    s.opened.modifyHead fun n => { n.add read.1 with kind := kind }⟩

/-- The state `n` tokens further on, whether they are there or not. -/
def moved (s : State) (n : Nat) : State :=
  { s with pos := s.pos + n }

/-- The place that a state has reached in the tokens `ts`. -/
def cursor (s : State) (ts : List Token) : Cursor :=
  ⟨s.pos, ts.drop s.pos⟩

/-- The name of the node opened last. -/
def name? (s : State) : Option Nat :=
  s.opened.head?.bind (·.parts.name?)

/-- The kind of the node opened last. -/
def kind? (s : State) : Option NodeKind :=
  s.opened.head?.map (·.kind)

end State

/-! ## Actions -/

/-- What is done over a list of tokens; nothing comes of it if a check fails. -/
structure Action where
  run : List Token → State → Option State

namespace Action

def idle : Action where
  run _ s := some s

def append (a b : Action) : Action where
  run ts s := (a.run ts s).bind (b.run ts)

instance : Append Action := ⟨append⟩

/-- The action that the tokens ahead call for. -/
def choose (f : List Token → Action) : Action where
  run ts s := (f (ts.drop s.pos)).run ts s

def whenAt (p : List Token → Bool) (a : Action) : Action :=
  choose fun rest => if p rest then a else idle

theorem append_assoc (a b c : Action) : a ++ b ++ c = a ++ (b ++ c) :=
  congrArg mk (funext fun _ => funext fun _ => Option.bind_assoc _ _ _)

theorem whenAt_append (p : List Token → Bool) (a b : Action) :
    whenAt p a ++ b = choose fun rest => if p rest then a ++ b else b := by
  refine congrArg mk (funext fun ts => funext fun s => ?_)
  show ((if p (ts.drop s.pos) then a else idle).run ts s).bind (b.run ts) =
    (if p (ts.drop s.pos) then a ++ b else b).run ts s
  split <;> rfl

/-- Moves on by one token, unless there is none. -/
def bump : Action where
  run ts s := some { s with pos := if s.pos < ts.length then s.pos + 1 else s.pos }

def jump (n : Nat) : Action where
  run _ s := some (s.moved n)

def eat (k : TokenKind) : Action :=
  whenAt (atKind k) bump

def eatWord (ws : List String) : Action :=
  whenAt (fun rest => ws.any (atWord · rest)) bump

/-- Moves on by one token if the action has not moved on. -/
def passing (a : Action) : Action where
  run ts s := (a.run ts s).bind fun s' => if s'.pos = s.pos then bump.run ts s' else some s'

/-- An action that must not move back, nor beyond the last token. -/
def procedure (a : Action) : Action where
  run ts s := (a.run ts s).filter fun s' => s.pos ≤ s'.pos ∧ s'.pos ≤ ts.length

/-! ### Nodes -/

/-- Changes the node `number`, which must be the one opened last. -/
def change (number : Nat) (f : State → OpenNode → OpenNode) : Action where
  run _ s :=
    match s.opened with
    | [] => none
    | n :: rest => if n.number = number then some { s with opened := f s n :: rest } else none

def setKind (number : Nat) (kind : NodeKind) : Action :=
  change number fun _ n => { n with kind := kind }

/-- The next token is the name of the node. -/
def name (number : Nat) : Action :=
  change number (fun s n => { n with parts := { n.parts with name? := some s.pos } }) ++ bump

/-- The next token is a modifier of the node. -/
def modifier (number : Nat) : Action :=
  change number (fun s n => { n with parts := { n.parts with modifiers := n.parts.modifiers ++ [s.pos] } }) ++ bump

end Action

namespace State

/-- Opens a node. -/
def enter (s : State) (kind : NodeKind) : State :=
  ⟨s.pos, s.count + 1, ⟨s.count, kind, s.pos, .none⟩ :: s.opened⟩

/-- Closes the node `number`, which must be the one opened last. -/
def leave (s : State) (number : Nat) : Option (Node × State) :=
  match s.opened with
  | [] => none
  | n :: rest =>
    if n.number = number then some (n.parts.node n.kind n.start s.pos, { s with opened := rest }) else none

/-- The node is a child of the one opened last. -/
def adopt (s : State) (n : Node) : State :=
  { s with opened := s.opened.modifyHead (·.add ⟨[], none, [n]⟩) }

end State

/-- A node around what an action reads; the action knows its number. -/
def Action.within (kind : NodeKind) (body : Nat → Action) : Action where
  run ts s := do
    let inner ← (body s.count).run ts (s.enter kind)
    let (n, outer) ← inner.leave s.count
    return outer.adopt n

/-! ### Loops -/

/-- A turn of a loop with the variable `α`: what it does, and the variable for the next turn if the loop
goes on. -/
structure Turn (α : Type) where
  run : List Token → State → Option (State × Option α)

namespace Turn

variable {α : Type}

/-- Does the action and leaves the loop. -/
def last (a : Action) : Turn α where
  run ts s := (a.run ts s).map (·, none)

def leave : Turn α :=
  last .idle

/-- Does the action and goes on. -/
def next (a : Action) (x : α) : Turn α where
  run ts s := (a.run ts s).map (·, some x)

/-- The turn that the tokens ahead call for. -/
def choose (f : List Token → Turn α) : Turn α where
  run ts s := (f (ts.drop s.pos)).run ts s

/-- The turn `t` after the action. -/
def after (a : Action) (t : Turn α) : Turn α where
  run ts s := (a.run ts s).bind (t.run ts)

end Turn

/-- A loop, which must not go on without having moved on. -/
def loopFrom {α : Type} (turn : α → Turn α) (ts : List Token) (x : α) (s : State) : Option State :=
  match (turn x).run ts s with
  | none => none
  | some (s', none) => some s'
  | some (s', some y) => if s.pos < s'.pos ∧ s'.pos ≤ ts.length then loopFrom turn ts y s' else none
termination_by ts.length - s.pos

namespace Action

def loop {α : Type} (turn : α → Turn α) (x : α) : Action where
  run ts s := loopFrom turn ts x s

/-- Repeats the action as long as the tokens ahead satisfy `p`. -/
def whileAt (p : List Token → Bool) (a : Action) : Action :=
  loop (fun _ => .choose fun rest => if p rest then .next a () else .leave) ()

end Action

/-! ## Standing in the tokens -/

/-- The state has not gone beyond the tokens, and the node `number` is the one opened last. -/
structure State.Stands (ts : List Token) (number : Nat) (s : State) : Prop where
  inside : s.pos ≤ ts.length
  top : s.opened.head?.map (·.number) = some number

theorem sizeOfAll_append (ms ns : List Node) : sizeOfAll (ms ++ ns) = sizeOfAll ms + sizeOfAll ns := by
  induction ms with
  | nil => simp [sizeOfAll]
  | cons m ms ih => rw [List.cons_append, sizeOfAll, sizeOfAll, ih, Nat.add_assoc]

namespace State

variable {ts : List Token} {k : Nat} {s : State}

theorem Stands.on (h : s.Stands ts k) : (s.cursor ts).On ts :=
  ⟨rfl, h.inside⟩

theorem Stands.exists_cons (h : s.Stands ts k) : ∃ n rest, s.opened = n :: rest ∧ n.number = k := by
  have htop := h.top
  cases ho : s.opened with
  | nil =>
    rw [ho] at htop
    cases htop
  | cons n rest =>
    rw [ho] at htop
    exact ⟨n, rest, rfl, Option.some.inj htop⟩

theorem cursor_take {read : Parts × Cursor} (h : read.2.On ts) : (s.take read).cursor ts = read.2 := by
  obtain ⟨parts, pos, rest⟩ := read
  obtain rfl : rest = ts.drop pos := h.1
  rfl

theorem Stands.take (h : s.Stands ts k) {read : Parts × Cursor} (hr : read.2.On ts) : (s.take read).Stands ts k := by
  refine ⟨hr.2, ?_⟩
  rw [← h.top]
  simp only [State.take]
  cases s.opened <;> rfl

theorem take_take (s : State) (p q : Parts) (c d : Cursor) : (s.take (p, c)).take (q, d) = s.take (p ++ q, d) := by
  have hcount := sizeOfAll_append p.children q.children
  obtain ⟨pos, count, opened⟩ := s
  simp only [take, Parts.children_append, hcount, Nat.add_assoc, State.mk.injEq, true_and]
  cases opened with
  | nil => rfl
  | cons n rest => simp [OpenNode.add, Parts.append_assoc]

theorem take_none (s : State) (c : Cursor) : s.take (.none, c) = { s with pos := c.pos } := by
  obtain ⟨pos, count, opened⟩ := s
  cases opened with
  | nil => rfl
  | cons n rest =>
    show State.mk _ _ (n.add .none :: rest) = _
    rw [OpenNode.add_none]
    rfl

theorem name?_take (h : s.Stands ts k) (read : Parts × Cursor) :
    (s.take read).name? = s.name?.or read.1.name? := by
  obtain ⟨n, rest, ho, -⟩ := h.exists_cons
  simp only [name?, State.take, ho, List.modifyHead_cons, List.head?_cons, Option.bind_some]
  rfl

@[simp] theorem kind?_take (s : State) (read : Parts × Cursor) : (s.take read).kind? = s.kind? := by
  simp only [kind?, State.take]
  cases s.opened <;> rfl

/-- A node that was of the kind before stays as it is. -/
theorem takeAs_kind {kind : NodeKind} (h : s.kind? = some kind) (read : Parts × Cursor) :
    s.takeAs kind read = s.take read := by
  simp only [takeAs, State.take]
  cases ho : s.opened with
  | nil => rfl
  | cons n rest =>
    have hk : n.kind = kind := by simpa [kind?, ho] using h
    simp only [List.modifyHead_cons, ← hk, OpenNode.add]

theorem take_takeAs (s : State) (kind : NodeKind) (p q : Parts) (c d : Cursor) :
    (s.take (p, c)).takeAs kind (q, d) = s.takeAs kind (p ++ q, d) := by
  have hcount := sizeOfAll_append p.children q.children
  obtain ⟨pos, count, opened⟩ := s
  simp only [State.take, takeAs, Parts.children_append, hcount, Nat.add_assoc, State.mk.injEq, true_and]
  cases opened with
  | nil => rfl
  | cons n rest => simp [OpenNode.add, Parts.append_assoc]

@[simp] theorem pos_moved (s : State) (n : Nat) : (s.moved n).pos = s.pos + n := rfl

theorem moved_moved (s : State) (m n : Nat) : (s.moved m).moved n = s.moved (m + n) := by
  simp only [moved, Nat.add_assoc]

theorem drop_moved {t : Token} {rest : List Token} (h : ts.drop s.pos = t :: rest) (n : Nat) :
    ts.drop (s.moved (1 + n)).pos = rest.drop n := by
  rw [pos_moved, ← List.drop_drop, h, Nat.add_comm 1, List.drop_succ_cons]

end State

/-! ## Reading with checks -/

/-- The action reads what the step reads: none of its checks fails, and it comes to the same place with the same
parts. -/
def Action.Reads (ts : List Token) (a : Action) (p : Step) (s : State) : Prop :=
  a.run ts s = some (s.take (p.run (s.cursor ts)))

namespace Action.Reads

variable {ts : List Token} {k : Nat} {s : State} {a b : Action} {p q : Step}

theorem idle : Action.idle.Reads ts .idle s := by
  refine congrArg some ?_
  exact (s.take_none (s.cursor ts)).symm

/-- The state that an action comes to stands in the tokens as well. -/
theorem stands (h : s.Stands ts k) (p : Step) : (s.take (p.run (s.cursor ts))).Stands ts k :=
  h.take (h.on.reaches (p.forward _))

theorem append (h : s.Stands ts k) (ha : a.Reads ts p s)
    (hb : ∀ s', s' = s.take (p.run (s.cursor ts)) → s'.Stands ts k → b.Reads ts q s') :
    (a ++ b).Reads ts (p ++ q) s := by
  have hcursor := State.cursor_take (s := s) (h.on.reaches (p.forward (s.cursor ts)))
  show (a.run ts s).bind (b.run ts) = _
  rw [ha, Option.bind_some, hb _ rfl (stands h p), hcursor]
  exact congrArg some (s.take_take _ _ _ _)

theorem choose {f : List Token → Action} {g : List Token → Step}
    (h : (f (ts.drop s.pos)).Reads ts (g (ts.drop s.pos)) s) : (Action.choose f).Reads ts (.choose g) s :=
  h

/-- What the tokens ahead call for reads of them what it is to read. -/
theorem of_choose {f : List Token → Action} (h : (f (ts.drop s.pos)).Reads ts p s) : (Action.choose f).Reads ts p s :=
  h

theorem whenAt_pos {t : List Token → Bool} (ht : t (ts.drop s.pos) = true) (ha : a.Reads ts p s) :
    a.Reads ts (.whenAt t p) s := by
  show a.Reads ts (.choose fun _ => if t (ts.drop s.pos) then p else .idle) s
  rw [if_pos ht]
  exact ha

theorem whenAt_neg {t : List Token → Bool} (ht : ¬ t (ts.drop s.pos) = true) :
    Action.idle.Reads ts (.whenAt t p) s := by
  show Action.idle.Reads ts (.choose fun _ => if t (ts.drop s.pos) then p else .idle) s
  rw [if_neg ht]
  exact idle

theorem whenAt {t : List Token → Bool} (h : t (ts.drop s.pos) = true → a.Reads ts p s) :
    (Action.whenAt t a).Reads ts (.whenAt t p) s := by
  show (if t (ts.drop s.pos) then a else Action.idle).Reads ts _ s
  split
  · next ht => exact whenAt_pos ht (h ht)
  · next ht => exact whenAt_neg ht

theorem procedure (h : s.Stands ts k) (ha : a.Reads ts p s) : (Action.procedure a).Reads ts p s := by
  have hd := h.on.reaches (p.forward (s.cursor ts))
  have hle := (p.forward (s.cursor ts)).pos_le
  show (a.run ts s).filter _ = _
  rw [ha, Option.filter_some, if_pos]
  exact decide_eq_true ⟨hle, hd.2⟩

end Action.Reads

/-! ## Skipping -/

/-- The action moves on by `n` tokens and does nothing else. -/
def Action.Skips (ts : List Token) (a : Action) (n : Nat) (s : State) : Prop :=
  a.run ts s = some (s.moved n)

namespace Action.Skips

variable {ts : List Token} {k m n : Nat} {s : State} {a b : Action} {t : Token} {rest : List Token}

theorem idle : Action.idle.Skips ts 0 s :=
  rfl

theorem bump (h : ts.drop s.pos = t :: rest) : Action.bump.Skips ts 1 s := by
  have hlt : s.pos < ts.length := by
    have := congrArg List.length h
    rw [List.length_drop, List.length_cons] at this
    omega
  show some { s with pos := if s.pos < ts.length then s.pos + 1 else s.pos } = _
  rw [if_pos hlt]
  rfl

theorem bump_end (h : ts.drop s.pos = []) : Action.bump.Skips ts 0 s := by
  have hle : ¬ s.pos < ts.length := Nat.not_lt.2 (List.drop_eq_nil_iff.1 h)
  show some { s with pos := if s.pos < ts.length then s.pos + 1 else s.pos } = _
  rw [if_neg hle]
  rfl

theorem jump (n : Nat) : (Action.jump n).Skips ts n s :=
  rfl

theorem append (ha : a.Skips ts m s) (hb : b.Skips ts n (s.moved m)) : (a ++ b).Skips ts (m + n) s := by
  show (a.run ts s).bind (b.run ts) = _
  rw [ha, Option.bind_some, hb, State.moved_moved]

theorem choose {f : List Token → Action} (h : (f (ts.drop s.pos)).Skips ts n s) : (Action.choose f).Skips ts n s :=
  h

theorem procedure (h : s.pos ≤ ts.length) (hn : n ≤ (ts.drop s.pos).length) (ha : a.Skips ts n s) :
    (Action.procedure a).Skips ts n s := by
  rw [List.length_drop] at hn
  show (a.run ts s).filter _ = _
  rw [ha, Option.filter_some, if_pos]
  refine decide_eq_true ⟨Nat.le_add_right _ _, ?_⟩
  rw [State.pos_moved]
  omega

/-- What is skipped is read by a step that skips as much. -/
theorem reads {reach : List Token → Nat} (h : reach (ts.drop s.pos) ≤ (ts.drop s.pos).length)
    (ha : a.Skips ts (reach (ts.drop s.pos)) s) : a.Reads ts (.skip reach) s := by
  have hpos : (s.cursor ts).advance (reach (ts.drop s.pos)) = ⟨s.pos + reach (ts.drop s.pos), _⟩ :=
    congrArg (fun n => Cursor.mk (s.pos + n) _) (by rw [List.length_take]; exact Nat.min_eq_left h)
  refine Eq.trans ha (congrArg some ?_)
  show _ = s.take (.none, (s.cursor ts).advance (reach (ts.drop s.pos)))
  rw [State.take_none, hpos]
  rfl

end Action.Skips

theorem Action.bump_run (ts : List Token) (s : State) :
    Action.bump.run ts s = some { s with pos := ((s.cursor ts).advance 1).pos } := by
  cases hr : ts.drop s.pos with
  | nil =>
    rw [show Action.bump.run ts s = _ from Action.Skips.bump_end hr]
    simp [State.cursor, Cursor.advance, hr, State.moved]
  | cons t rest =>
    rw [show Action.bump.run ts s = _ from Action.Skips.bump hr]
    simp [State.cursor, Cursor.advance, hr, State.moved]

namespace Action.Reads

variable {ts : List Token} {k : Nat} {s : State} {a b : Action} {p q : Step}

theorem bump : Action.bump.Reads ts .bump s := by
  rw [Action.Reads, bump_run]
  exact congrArg some (s.take_none _).symm

theorem eat (k : TokenKind) : (Action.eat k).Reads ts (.eat k) s :=
  whenAt fun _ => bump

theorem eatWord (ws : List String) : (Action.eatWord ws).Reads ts (.eatWord ws) s :=
  whenAt fun _ => bump

/-! ### Nodes -/

theorem change_run (h : s.Stands ts k) (f : State → OpenNode → OpenNode) :
    (Action.change k f).run ts s = some { s with opened := s.opened.modifyHead (f s) } := by
  obtain ⟨n, rest, ho, hn⟩ := h.exists_cons
  simp only [Action.change, ho, hn, if_true, List.modifyHead_cons]

theorem name (h : s.Stands ts k) (hname : s.name? = none) : (Action.name k).Reads ts .name s := by
  obtain ⟨n, rest, ho, -⟩ := h.exists_cons
  have hunnamed : n.parts.name? = none := by simpa [State.name?, ho] using hname
  show ((Action.change k _).run ts s).bind (Action.bump.run ts) = _
  rw [change_run h, Option.bind_some, bump_run]
  have hadd : n.add ⟨[], some s.pos, []⟩ = { n with parts := { n.parts with name? := some s.pos } } := by
    show OpenNode.mk _ _ _ ⟨n.parts.modifiers ++ [], n.parts.name?.or (some s.pos), n.parts.children ++ []⟩ = _
    rw [hunnamed, List.append_nil, List.append_nil, Option.none_or]
  simp only [State.take, Step.name, ho, List.modifyHead_cons, sizeOfAll, Nat.add_zero]
  exact congrArg (fun n' => some (State.mk _ s.count (n' :: rest))) hadd.symm

theorem modifier (h : s.Stands ts k) : (Action.modifier k).Reads ts .modifier s := by
  obtain ⟨n, rest, ho, -⟩ := h.exists_cons
  show ((Action.change k _).run ts s).bind (Action.bump.run ts) = _
  rw [change_run h, Option.bind_some, bump_run]
  have hadd : n.add ⟨[s.pos], none, []⟩ =
      { n with parts := { n.parts with modifiers := n.parts.modifiers ++ [s.pos] } } := by
    show OpenNode.mk _ _ _ ⟨n.parts.modifiers ++ [s.pos], n.parts.name?.or none, n.parts.children ++ []⟩ = _
    rw [List.append_nil, Option.or_none]
  simp only [State.take, Step.modifier, ho, List.modifyHead_cons, sizeOfAll, Nat.add_zero]
  exact congrArg (fun n' => some (State.mk _ s.count (n' :: rest))) hadd.symm

/-- What is read of a node is what it is made of, and its kind is the one it turned out to be of. -/
theorem within_run {kind kind' : NodeKind} {body : Nat → Action} {read : Parts × Cursor}
    (hbody : (body s.count).run ts (s.enter kind) = some ((s.enter kind).takeAs kind' read)) :
    (Action.within kind body).run ts s =
      some (s.take (⟨[], none, [read.1.node kind' s.pos read.2.pos]⟩, read.2)) := by
  have hleave : ((s.enter kind).takeAs kind' read).leave s.count =
      some (read.1.node kind' s.pos read.2.pos, ⟨read.2.pos, s.count + 1 + sizeOfAll read.1.children, s.opened⟩) :=
    if_pos rfl
  have hsize : s.count + 1 + sizeOfAll read.1.children =
      s.count + sizeOfAll [read.1.node kind' s.pos read.2.pos] := by
    simp only [sizeOfAll, Node.size_eq, Parts.node]
    omega
  show (((body s.count).run ts (s.enter kind)).bind fun inner => (inner.leave s.count).bind fun r =>
    some (r.2.adopt r.1)) = _
  rw [hbody, Option.bind_some, hleave, Option.bind_some, hsize]
  rfl

theorem within {kind : NodeKind} {body : Nat → Action} (h : s.Stands ts k)
    (hbody : ∀ s', s'.Stands ts s.count → s'.name? = none → s'.cursor ts = s.cursor ts →
      (body s.count).Reads ts p s') : (Action.within kind body).Reads ts (.enclose kind p) s :=
  within_run (hbody (s.enter kind) ⟨h.inside, rfl⟩ rfl rfl)

end Action.Reads

/-! ## Loops -/

section

variable {ts : List Token} {k n : Nat} {s s' : State} {a : Action} {q : Step}

theorem loop_last {α : Type} {turn : α → Turn α} {x : α} (h : (turn x).run ts s = some (s', none)) :
    (Action.loop turn x).run ts s = some s' := by
  show loopFrom turn ts x s = _
  rw [loopFrom, h]

theorem loop_next {α : Type} {turn : α → Turn α} {x y : α} (h : (turn x).run ts s = some (s', some y))
    (hlt : s.pos < s'.pos) (hle : s'.pos ≤ ts.length) :
    (Action.loop turn x).run ts s = (Action.loop turn y).run ts s' := by
  show loopFrom turn ts x s = _
  rw [loopFrom, h]
  exact if_pos ⟨hlt, hle⟩

/-! ### Repeated steps -/

theorem Turn.last_run {α : Type} (h : a.run ts s = some s') : (Turn.last a : Turn α).run ts s = some (s', none) :=
  congrArg (Option.map (·, none)) h

theorem Turn.next_run (ha : a.Reads ts q s)
    (hq : (q.run (s.cursor ts)).2.rest.length < (s.cursor ts).rest.length) : (Turn.next a ()).run ts s =
      some (s.take ((q.run (s.cursor ts)).1, (s.cursor ts).past (q.run (s.cursor ts)).2), some ()) := by
  show (a.run ts s).map (·, some ()) = _
  rw [ha, Cursor.past_of_shorter hq]
  rfl

theorem Turn.next_passing (h : s.Stands ts k) (ha : a.Reads ts q s) : (Turn.next (.passing a) ()).run ts s =
      some (s.take ((q.run (s.cursor ts)).1, (s.cursor ts).past (q.run (s.cursor ts)).2), some ()) := by
  have hforward := q.forward (s.cursor ts)
  have hcursor := State.cursor_take (s := s) (h.on.reaches hforward)
  show ((a.run ts s).bind _).map (·, some ()) = _
  rw [ha, Option.bind_some]
  by_cases hq : (q.run (s.cursor ts)).2.rest.length < (s.cursor ts).rest.length
  · have hlt : (s.cursor ts).pos < (q.run (s.cursor ts)).2.pos := h.on.pos_lt (h.on.reaches hforward) hq
    have hne : ¬ (s.take (q.run (s.cursor ts))).pos = s.pos := Nat.ne_of_gt hlt
    rw [if_neg hne, Cursor.past_of_shorter hq]
    rfl
  · have hstill := hforward.eq_of_not_shorter hq
    have heq : (s.take (q.run (s.cursor ts))).pos = s.pos := congrArg Cursor.pos hstill
    rw [if_pos heq, Action.bump_run, hcursor, Cursor.past, if_neg hq, hstill]
    rfl

/-- A loop whose turns, at the index `base` and beyond, read what the steps of a repetition read, and which reads
what `fin` reads in the turn that leaves it. -/
theorem Action.Reads.each {turn : Unit → Turn Unit} {next? : List Token → Option Step} {fin : Step} {base : Nat}
    (hlast : ∀ s : State, s.Stands ts k → (ts.drop s.pos ≠ [] → next? (ts.drop s.pos) = none) →
      (turn ()).run ts s = some (s.take (fin.run (s.cursor ts)), none))
    (hnext : ∀ (s : State) q, s.Stands ts k → base ≤ s.pos → ts.drop s.pos ≠ [] → next? (ts.drop s.pos) = some q →
      (turn ()).run ts s =
        some (s.take ((q.run (s.cursor ts)).1, (s.cursor ts).past (q.run (s.cursor ts)).2), some ()))
    (h : s.Stands ts k) (hbase : base ≤ s.pos) : (Action.loop turn ()).Reads ts (.each next? ++ fin) s := by
  induction hlen : (ts.drop s.pos).length using Nat.strong_induction_on generalizing s with
  | _ len ih =>
    have hrun : ∀ {s : State} {read : Parts × Cursor}, Step.eachFrom next? (s.cursor ts) = read →
        (Step.each next? ++ fin).run (s.cursor ts) = (read.1 ++ (fin.run read.2).1, (fin.run read.2).2) :=
      fun he => by rw [← he]; rfl
    by_cases hend : ts.drop s.pos ≠ [] → next? (ts.drop s.pos) = none
    · have hnone : Step.eachFrom next? (s.cursor ts) = (.none, s.cursor ts) := by
        by_cases hr : ts.drop s.pos = []
        · exact Step.eachFrom_nil hr
        · exact Step.eachFrom_none (hend hr)
      rw [Action.Reads, hrun hnone]
      exact loop_last (hlast s h hend)
    · push Not at hend
      obtain ⟨hr, hsome⟩ := hend
      obtain ⟨q, hq⟩ := Option.ne_none_iff_exists'.1 hsome
      let c := s.cursor ts
      let s' := s.take ((q.run c).1, c.past (q.run c).2)
      have hpast : (c.past (q.run c).2).On ts := h.on.reaches (Cursor.reaches_past (q.forward c))
      have hshorter := Cursor.past_shorter (c := c) hr (q.run c).2
      have hpos : s.pos < s'.pos := h.on.pos_lt hpast hshorter
      have hcursor : s'.cursor ts = c.past (q.run c).2 := State.cursor_take hpast
      have hfewer : (ts.drop s'.pos).length < len := hlen ▸ (congrArg (·.rest.length) hcursor) ▸ hshorter
      have hrest : (Action.loop turn ()).Reads ts (.each next? ++ fin) s' :=
        ih _ hfewer (h.take hpast) (hbase.trans hpos.le) rfl
      rw [Action.Reads, loop_next (hnext s q h hbase hr hq) hpos hpast.2, hrest, hcursor,
        hrun (Step.eachFrom_some hr hq), Parts.append_assoc]
      exact congrArg some (s.take_take _ _ _ _)

theorem Action.Reads.of_append_idle (h : a.Reads ts (q ++ .idle) s) : a.Reads ts q s := by
  refine h.trans (congrArg (fun parts => some (s.take (parts, _))) ?_)
  exact Parts.append_none _

theorem Action.Reads.append_idle (h : a.Reads ts q s) : a.Reads ts (q ++ .idle) s := by
  refine h.trans (congrArg (fun parts => some (s.take (parts, _))) ?_)
  exact (Parts.append_none _).symm

theorem Action.Reads.whileAt {t : List Token → Bool} (h : s.Stands ts k)
    (ha : ∀ s : State, s.Stands ts k → t (ts.drop s.pos) = true → a.Reads ts q s)
    (hq : ∀ c : Cursor, t c.rest = true → (q.run c).2.rest.length < c.rest.length) :
    (Action.whileAt t a).Reads ts (.whileAt t q) s := by
  refine .of_append_idle (.each (fun s _ hend => ?_) (fun s q' hs _ _ hnext => ?_) h (Nat.zero_le _))
  · have hnot : t (ts.drop s.pos) = false := by
      by_contra ht
      rw [Bool.not_eq_false] at ht
      have hne : ts.drop s.pos ≠ [] := fun hr => by
        have := hq (s.cursor ts) ht
        rw [show (s.cursor ts).rest = [] from hr] at this
        exact Nat.not_lt_zero _ this
      exact absurd (hend hne) (by simp [ht])
    show (if t (ts.drop s.pos) then (Turn.next a () : Turn Unit) else .leave).run ts s = _
    rw [hnot]
    exact Turn.last_run Action.Reads.idle
  · split at hnext
    · next ht =>
      obtain rfl := Option.some.inj hnext
      show (if t (ts.drop s.pos) then (Turn.next a () : Turn Unit) else .leave).run ts s = _
      rw [ht]
      exact Turn.next_run (ha s hs ht) (hq _ ht)
    · cases hnext

/-! ### Loops that skip -/

section

variable {α : Type} {turn : α → Turn α} {x y : α} {m : Nat}

theorem Turn.last_skips (h : a.Skips ts n s) : (Turn.last a : Turn α).run ts s = some (s.moved n, none) :=
  last_run h

theorem Turn.next_skips (h : a.Skips ts n s) : (Turn.next a x).run ts s = some (s.moved n, some x) :=
  congrArg (Option.map (·, some x)) h

theorem Turn.leave_skips : (Turn.leave : Turn α).run ts s = some (s.moved 0, none) :=
  last_skips .idle

theorem Action.Skips.loop_last (h : (turn x).run ts s = some (s.moved n, none)) :
    (Action.loop turn x).Skips ts n s :=
  Checked.loop_last h

theorem Action.Skips.loop_next (hturn : (turn x).run ts s = some (s.moved m, some y)) (hm : 0 < m)
    (hle : m ≤ (ts.drop s.pos).length) (h : (Action.loop turn y).Skips ts n (s.moved m)) :
    (Action.loop turn x).Skips ts (m + n) s := by
  rw [List.length_drop] at hle
  rw [Action.Skips, Checked.loop_next hturn (by rw [State.pos_moved]; omega) (by rw [State.pos_moved]; omega), h,
    State.moved_moved]

end

/-- A loop whose turns move on by the items of a run, and by `fin` tokens more in the turn that leaves it. -/
theorem Action.Skips.run {turn : Unit → Turn Unit} {more : Token → List Token → Option Nat}
    (fin : List Token → Nat)
    (hnext : ∀ (s : State) t rest n, ts.drop s.pos = t :: rest → more t rest = some n →
      n ≤ rest.length ∧ (turn ()).run ts s = some (s.moved (1 + n), some ()))
    (hlast : ∀ s : State, (∀ t rest, ts.drop s.pos = t :: rest → more t rest = none) →
      (turn ()).run ts s = some (s.moved (fin (ts.drop s.pos)), none)) (s : State) :
    (Action.loop turn ()).Skips ts
      (runReach more (ts.drop s.pos) + fin ((ts.drop s.pos).drop (runReach more (ts.drop s.pos)))) s := by
  generalize hr : ts.drop s.pos = rest
  fun_induction runReach more rest generalizing s with
  | case1 =>
    rw [Nat.zero_add, List.drop_nil, ← hr]
    exact loop_last (hlast s fun t rest he => by rw [hr] at he; cases he)
  | case2 t rest hstop =>
    rw [Nat.zero_add, List.drop_zero, ← hr]
    refine loop_last (hlast s fun t' rest' he => ?_)
    rw [hr] at he
    cases he
    exact hstop
  | case3 t rest n hmore ih =>
    obtain ⟨hle, hturn⟩ := hnext s t rest n hr hmore
    have hbeyond : (t :: rest).drop (1 + n + runReach more (rest.drop n)) =
        (rest.drop n).drop (runReach more (rest.drop n)) := by
      rw [List.drop_drop, Nat.add_assoc, Nat.add_comm 1, List.drop_succ_cons]
    rw [hbeyond, Nat.add_assoc (1 + n)]
    refine loop_next hturn (by omega) ?_ (ih _ (State.drop_moved hr n))
    rw [hr, List.length_cons]
    omega

/-- A loop that is left at the end of the tokens and whose other turns move on by the items of a run. -/
theorem Action.Skips.items {turn : List Token → Turn Unit} {more : Token → List Token → Option Nat}
    (hnil : turn [] = .leave)
    (hcons : ∀ (s : State) t rest, ts.drop s.pos = t :: rest →
      match more t rest with
      | none => (turn (t :: rest)).run ts s = some (s, none)
      | some n => n ≤ rest.length ∧ (turn (t :: rest)).run ts s = some (s.moved (1 + n), some ())) (s : State) :
    (Action.loop (fun _ => .choose turn) ()).Skips ts (runReach more (ts.drop s.pos)) s := by
  refine run (fun _ => 0) (fun s t rest n hr hmore => ?_) (fun s hstop => ?_) s
  · have h := hcons s t rest hr
    rw [hmore] at h
    simpa only [Turn.choose, hr] using h
  · simp only [Turn.choose]
    cases hr : ts.drop s.pos with
    | nil =>
      rw [hnil]
      exact Turn.leave_skips
    | cons t rest =>
      have h := hcons s t rest hr
      rw [hstop t rest hr] at h
      exact h

end

end DocPages.Source.Checked
