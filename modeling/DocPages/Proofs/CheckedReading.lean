/-
The checked reader as a whole. Members are read by a loop that passes over one
token if a member moved nowhere, and by a call of that loop for each scope that
a member opens, which must come at a place further on than the call around it
began (`membersFrom`). For all that may go wrong, nothing does: whatever the
tokens, the checked reader gives the tree (`read_eq`).
-/
import DocPages.Proofs.CheckedMembers

namespace DocPages.Source.Checked

/-! ## Members of a scope -/

/-- A turn of the loop over the members of a scope. -/
def memberTurn (nested : Nested) (owner? : Option String) (braced : Bool) : Turn Unit :=
  .choose fun
    | [] => .leave
    | t :: _ =>
      if t.kind = .rbrace && braced then .leave
      else if t.kind = .rbrace || t.kind = .semi then .next .bump ()
      else if t.kind = .lbrace then .next skipBalanced ()
      else .next (.passing (member nested owner?)) ()

/-- The members of a scope, read by a call that began at the index `entry`; a call for a scope within it must begin
further on. -/
def membersFrom (ts : List Token) (entry : Nat) (owner? : Option String) (braced : Bool) : Action :=
  .procedure <| .loop (fun _ => memberTurn (fun owner? braced =>
    { run _ s :=
        if entry < s.pos ∧ s.pos ≤ ts.length then (membersFrom ts s.pos owner? braced).run ts s else none })
    owner? braced) ()
termination_by ts.length - entry

/-- The checked reader: the root of what it reads, if no check fails and no node is left open. -/
def read (ts : List Token) : Option Node := do
  let inner ← (membersFrom ts 0 none false).run ts (State.enter ⟨0, 0, []⟩ .compilationUnit)
  let (root, outer) ← inner.leave 0
  if outer.opened.isEmpty then some root else none

/-! ## The members of a scope as a repetition -/

/-- The step that reads what is next in a scope, unless its end is. -/
def itemStep? (owner? : Option String) (braced : Bool) : List Token → Option Step
  | [] => none
  | t :: rest =>
    if t.kind = .rbrace && braced then none
    else if t.kind = .rbrace || t.kind = .semi then some .bump
    else if t.kind = .lbrace then some (.skip groupReach)
    else if atImport (t :: rest) then some (.skip statementReach)
    else some (memberStep (memberHeader owner?))

theorem itemStep?_run (owner? : Option String) (braced : Bool) {c : Cursor} {t : Token} {rest : List Token}
    (hr : c.rest = t :: rest) : (itemStep? owner? braced c.rest).map (·.run c) =
      match itemAt owner? braced c t with
      | .close => none
      | .skipped d => some (.none, d)
      | .member h => some (⟨[], none, [h.whole.1.node h.kind c.pos h.whole.2.pos]⟩, h.whole.2) := by
  obtain ⟨pos, rest⟩ := c
  subst hr
  rw [itemStep?, itemAt]
  split_ifs <;> rfl

theorem eachFrom_of_run {next? : List Token → Option Step} {c : Cursor} {read : Parts × Cursor} (hne : c.rest ≠ [])
    (h : (next? c.rest).map (·.run c) = some read) : Step.eachFrom next? c =
      (read.1 ++ (Step.eachFrom next? (c.past read.2)).1, (Step.eachFrom next? (c.past read.2)).2) := by
  obtain ⟨q, hq, rfl⟩ := Option.map_eq_some_iff.1 h
  exact Step.eachFrom_some hne hq

/-- The members of a scope are read one item after the other. -/
theorem membersStep_run (owner? : Option String) (braced : Bool) (c : Cursor) :
    (membersStep owner? braced).run c = Step.eachFrom (itemStep? owner? braced) c := by
  show ((⟨[], none, (members owner? braced c).1⟩, (members owner? braced c).2) : Parts × Cursor) = _
  fun_induction members owner? braced c with
  | case1 owner? braced c hr => exact (Step.eachFrom_nil hr).symm
  | case2 owner? braced c t rest hr past hi =>
    have hitem := itemStep?_run owner? braced hr
    rw [hi] at hitem
    exact (Step.eachFrom_none (Option.map_eq_none_iff.1 hitem)).symm
  | case3 owner? braced c t rest hr past d hi ih =>
    have hitem := itemStep?_run owner? braced hr
    rw [hi] at hitem
    rw [eachFrom_of_run (by simp [hr]) hitem, ← ih]
    rfl
  | case4 owner? braced c t rest hr past h hi hs others ih =>
    have hitem := itemStep?_run owner? braced hr
    have hwhole : h.whole = (h.parts, h.next) := by
      simp only [Header.whole, hs]
    simp only [hi, hwhole] at hitem
    rw [eachFrom_of_run (by simp [hr]) hitem, ← ih]
    rfl
  | case5 owner? braced c t rest hr past h hi s hs enters inner closed parts others ih₁ ih₂ =>
    have hitem := itemStep?_run owner? braced hr
    have hwhole : h.whole = (parts, closed.2) := by
      simp only [Header.whole, hs, parts, Parts.append_assoc]
      rfl
    simp only [hi, hwhole] at hitem
    rw [eachFrom_of_run (by simp [hr]) hitem, ← ih₂]
    rfl

/-! ## Reading members -/

variable {ts : List Token} {k : Nat} {s : State}

theorem memberTurn_last {nested : Nested} {owner? : Option String} {braced : Bool}
    (hend : ts.drop s.pos ≠ [] → itemStep? owner? braced (ts.drop s.pos) = none) :
    (memberTurn nested owner? braced).run ts s = some (s.take (Step.idle.run (s.cursor ts)), none) := by
  cases hr : ts.drop s.pos with
  | nil =>
    simp only [memberTurn, Turn.choose, hr]
    exact Turn.last_run Action.Reads.idle
  | cons t rest =>
    have hnone := hend (by simp [hr])
    rw [hr, itemStep?] at hnone
    split_ifs at hnone with hclose
    simp only [memberTurn, Turn.choose, hr, hclose, if_true]
    exact Turn.last_run Action.Reads.idle

theorem memberTurn_next {nested : Nested} {owner? : Option String} {braced : Bool} {q : Step}
    (hnested : nested.ReadsFrom ts s.pos) (h : s.Stands ts k) (hne : ts.drop s.pos ≠ [])
    (hq : itemStep? owner? braced (ts.drop s.pos) = some q) :
    (memberTurn nested owner? braced).run ts s =
      some (s.take ((q.run (s.cursor ts)).1, (s.cursor ts).past (q.run (s.cursor ts)).2), some ()) := by
  obtain ⟨t, rest, hr⟩ := List.exists_cons_of_ne_nil hne
  rw [hr, itemStep?] at hq
  simp only [memberTurn, Turn.choose, hr]
  split_ifs at hq ⊢ with hclose hover hbrace himport
  all_goals obtain rfl := Option.some.inj hq
  · exact Turn.next_run .bump (shorter_advance hne Nat.one_pos)
  · have hopen : atKind .lbrace (ts.drop s.pos) = true := by
      rw [hr, atKind]
      exact decide_eq_true hbrace
    exact Turn.next_run ((skipBalanced_skips h.inside).reads (groupReach_le _))
      (shorter_advance hne (groupReach_pos hopen))
  · exact Turn.next_passing h (member_import h (hr ▸ himport) owner?)
  · have hnot : atImport (ts.drop s.pos) = false := by
      rw [hr]
      exact Bool.eq_false_iff.2 himport
    exact Turn.next_passing h (member_reads hnested h hnot owner?)

/-- The loop over the members of a scope reads them. -/
theorem memberLoop_reads {nested : Nested} (hnested : nested.ReadsFrom ts s.pos) (h : s.Stands ts k)
    (owner? : Option String) (braced : Bool) :
    (Action.loop (fun _ => memberTurn nested owner? braced) ()).Reads ts (membersStep owner? braced) s := by
  have heach : (Action.loop (fun _ => memberTurn nested owner? braced) ()).Reads ts
      (.each (itemStep? owner? braced) ++ .idle) s :=
    .each (fun _ _ hend => memberTurn_last hend)
      (fun s' _ hs hbase hne hq =>
        memberTurn_next (fun s'' _ _ _ hs hlt => hnested s'' _ _ _ hs (hbase.trans_lt hlt)) hs hne hq) h le_rfl
  refine heach.of_append_idle.trans (congrArg (fun read => some (s.take read)) ?_)
  exact (membersStep_run owner? braced _).symm

/-- A call that reads members reads them, and so do the calls within it, each of which has fewer tokens to read. -/
theorem membersFrom_reads (h : s.Stands ts k) (owner? : Option String) (braced : Bool) :
    (membersFrom ts s.pos owner? braced).Reads ts (membersStep owner? braced) s := by
  induction hleft : ts.length - s.pos using Nat.strong_induction_on generalizing s k owner? braced with
  | _ left ih =>
    rw [membersFrom]
    refine .procedure h (memberLoop_reads (fun s' k' owner? braced hs' hlt => ?_) h owner? braced)
    show (if s.pos < s'.pos ∧ s'.pos ≤ ts.length then (membersFrom ts s'.pos owner? braced).run ts s' else none) = _
    rw [if_pos ⟨hlt, hs'.inside⟩]
    have := hs'.inside
    exact ih _ (by omega) hs' owner? braced rfl

/-- **Reading moves on and comes to an end.** Of whatever tokens, the checked reader gives the tree: no check fails,
so each procedure stays within the tokens and does not move back, each turn of a loop that goes on has moved on, each
call for a scope comes further on than the call around it began, and each node that is closed is the one opened last. -/
theorem read_eq (ts : List Token) : read ts = some (Tree.ofTokens ts).root := by
  let s : State := State.enter ⟨0, 0, []⟩ .compilationUnit
  have hs : s.Stands ts 0 := ⟨Nat.zero_le _, rfl⟩
  have hreads := membersFrom_reads hs none false
  show ((membersFrom ts s.pos none false).run ts s).bind _ = _
  rw [hreads, Option.bind_some]
  rfl

end DocPages.Source.Checked
