/-
The procedures of the checked reader that skip tokens. Each moves on by what
the source's lookahead counts (`Reach`), so none stands still in a loop, moves
back or leaves the tokens behind.
-/
import DocPages.Proofs.CheckedSteps

namespace DocPages.Source.Checked

variable {ts : List Token} {s : State} {t : Token} {rest : List Token}

/-! ## Groups -/

def depthAfter (t : Token) (depth : Nat) : Nat :=
  if t.isOpen then depth + 1 else if t.isClose then depth - 1 else depth

/-- A turn of the loop over a group of which `depth` brackets are open. -/
def groupTurn (depth : Nat) : Turn Nat :=
  .choose fun
    | [] => .leave
    | t :: _ => if depthAfter t depth = 0 then .last .bump else .next .bump (depthAfter t depth)

/-- Passes over one token, or over a whole group where one is opened. -/
def skipBalanced : Action :=
  .procedure <| .choose fun
    | [] => .bump
    | t :: _ => if t.isOpen then .loop groupTurn 0 else .bump

theorem loop_groupTurn {depth : Nat} (hd : 0 < depth) (hr : ts.drop s.pos = rest) :
    (Action.loop groupTurn depth).Skips ts (closeReach depth rest) s := by
  induction rest generalizing s depth with
  | nil =>
    refine .loop_last ?_
    simp only [groupTurn, Turn.choose, hr]
    exact Turn.leave_skips
  | cons t rest ih =>
    have hturn : (groupTurn depth).run ts s =
        some (s.moved 1, if depthAfter t depth = 0 then none else some (depthAfter t depth)) := by
      simp only [groupTurn, Turn.choose, hr]
      split
      · exact Turn.last_skips (.bump hr)
      · exact Turn.next_skips (.bump hr)
    have hnext : 0 < depthAfter t depth →
        (Action.loop groupTurn depth).Skips ts (1 + closeReach (depthAfter t depth) rest) s := fun hpos => by
      rw [if_neg hpos.ne'] at hturn
      refine .loop_next hturn Nat.one_pos (by simp [hr]) (ih hpos ?_)
      exact State.drop_moved hr 0
    rw [closeReach]
    unfold depthAfter at hturn hnext
    split_ifs with hopen hclose hlast
    · simpa [hopen] using hnext
    · rw [if_neg hopen, if_pos hclose, if_pos (by omega)] at hturn
      exact .loop_last hturn
    · simpa [hopen, hclose, show 0 < depth - 1 by omega] using hnext
    · simpa [hopen, hclose, hd] using hnext

/-- What is passed over is the group at the front. -/
theorem skipBalanced_skips (h : s.pos ≤ ts.length) : skipBalanced.Skips ts (groupReach (ts.drop s.pos)) s := by
  refine .procedure h (groupReach_le _) (.choose ?_)
  cases hr : ts.drop s.pos with
  | nil => exact .bump_end hr
  | cons t rest =>
    simp only [groupReach, itemReach]
    split_ifs with hopen
    · refine .loop_next (y := 1) ?_ Nat.one_pos (by simp [hr]) (loop_groupTurn Nat.one_pos (State.drop_moved hr 0))
      simp only [groupTurn, Turn.choose, hr, depthAfter, hopen, if_true]
      exact Turn.next_skips (.bump hr)
    · exact .bump hr

theorem pos_le_of_drop (hr : ts.drop s.pos = t :: rest) : s.pos ≤ ts.length := by
  by_contra hlt
  rw [List.drop_eq_nil_of_le (by omega)] at hr
  cases hr

theorem skipBalanced_item (hr : ts.drop s.pos = t :: rest) : skipBalanced.Skips ts (1 + itemReach t rest) s := by
  have h := skipBalanced_skips (pos_le_of_drop hr)
  rwa [hr] at h

/-! ## Angle brackets -/

def angleDepthAfter (t : Token) (depth : Nat) : Nat :=
  if t.kind = .lt then depth + 1 else if t.kind = .gt then depth - 1 else depth

/-- A turn of the loop over an angle-bracketed list of which `depth` brackets are open. -/
def angleTurn (depth : Nat) : Turn Nat :=
  .choose fun
    | [] => .leave
    | t :: _ =>
      if t.kind = .lparen || t.kind = .lbracket then .next skipBalanced depth
      else if t.kind = .lbrace || t.kind = .rbrace || t.kind = .semi then .leave
      else if angleDepthAfter t depth = 0 then .last .bump
      else .next .bump (angleDepthAfter t depth)

/-- Passes over an angle-bracketed list. -/
def skipAngles : Action :=
  .procedure (.loop angleTurn 0)

section

variable {depth n : Nat}

theorem loop_angle_last (hr : ts.drop s.pos = t :: rest) (hgroup : (t.kind = .lparen || t.kind = .lbracket) = false)
    (hend : (t.kind = .lbrace || t.kind = .rbrace || t.kind = .semi) = false) (hd : angleDepthAfter t depth = 0) :
    (Action.loop angleTurn depth).Skips ts 1 s := by
  refine .loop_last ?_
  simp only [angleTurn, Turn.choose, hr, hgroup, hend, hd, if_true]
  exact Turn.last_skips (.bump hr)

theorem loop_angle_next (hr : ts.drop s.pos = t :: rest) (hgroup : (t.kind = .lparen || t.kind = .lbracket) = false)
    (hend : (t.kind = .lbrace || t.kind = .rbrace || t.kind = .semi) = false) (hd : 0 < angleDepthAfter t depth)
    (h : (Action.loop angleTurn (angleDepthAfter t depth)).Skips ts n (s.moved 1)) :
    (Action.loop angleTurn depth).Skips ts (1 + n) s := by
  refine .loop_next ?_ Nat.one_pos (by simp [hr]) h
  simp only [angleTurn, Turn.choose, hr, hgroup, hend, hd.ne', if_false]
  exact Turn.next_skips (.bump hr)

theorem loop_angle_group (hr : ts.drop s.pos = t :: rest) (hgroup : (t.kind = .lparen || t.kind = .lbracket) = true)
    (h : (Action.loop angleTurn depth).Skips ts n (s.moved (1 + itemReach t rest))) :
    (Action.loop angleTurn depth).Skips ts (1 + itemReach t rest + n) s := by
  refine .loop_next ?_ (by omega) ?_ h
  · simp only [angleTurn, Turn.choose, hr, hgroup, if_true]
    exact Turn.next_skips (skipBalanced_item hr)
  · have := itemReach_le t rest
    rw [hr, List.length_cons]
    omega

theorem loop_angle_end (hr : ts.drop s.pos = t :: rest) (hgroup : (t.kind = .lparen || t.kind = .lbracket) = false)
    (hend : (t.kind = .lbrace || t.kind = .rbrace || t.kind = .semi) = true) :
    (Action.loop angleTurn depth).Skips ts 0 s := by
  refine .loop_last ?_
  simp only [angleTurn, Turn.choose, hr, hgroup, hend, if_true]
  exact Turn.leave_skips

theorem loop_angleTurn (hd : 0 < depth) (hr : ts.drop s.pos = rest) :
    (Action.loop angleTurn depth).Skips ts (angleReach depth rest) s := by
  fun_induction angleReach depth rest generalizing s with
  | case1 =>
    refine .loop_last ?_
    simp only [angleTurn, Turn.choose, hr]
    exact Turn.leave_skips
  | case2 depth t rest hk ih =>
    have hafter : angleDepthAfter t depth = depth + 1 := by simp [angleDepthAfter, hk]
    refine loop_angle_next hr (by simp [hk]) (by simp [hk]) (by omega) ?_
    rw [hafter]
    exact ih (by omega) (State.drop_moved hr 0)
  | case3 depth t rest hk hlast =>
    have hafter : angleDepthAfter t depth = depth - 1 := by simp [angleDepthAfter, hk]
    exact loop_angle_last hr (by simp [hk]) (by simp [hk]) (by omega)
  | case4 depth t rest hk hmore ih =>
    have hafter : angleDepthAfter t depth = depth - 1 := by simp [angleDepthAfter, hk]
    refine loop_angle_next hr (by simp [hk]) (by simp [hk]) (by omega) ?_
    rw [hafter]
    exact ih (by omega) (State.drop_moved hr 0)
  | case5 depth t rest hk _ =>
    rename_i ih
    exact loop_angle_group hr (by simp [hk]) (ih hd (State.drop_moved hr _))
  | case6 depth t rest hk _ =>
    rename_i ih
    exact loop_angle_group hr (by simp [hk]) (ih hd (State.drop_moved hr _))
  | case7 depth t rest hk => exact loop_angle_end hr (by simp [hk]) (by simp [hk])
  | case8 depth t rest hk => exact loop_angle_end hr (by simp [hk]) (by simp [hk])
  | case9 depth t rest hk => exact loop_angle_end hr (by simp [hk]) (by simp [hk])
  | case10 depth t rest hlt hgt hlparen hlbracket hlbrace hrbrace hsemi ih =>
    have hafter : angleDepthAfter t depth = depth := by
      rw [angleDepthAfter, if_neg hlt, if_neg hgt]
    refine loop_angle_next hr ?_ ?_ (by omega) ?_
    · rw [decide_eq_false hlparen, decide_eq_false hlbracket]
      rfl
    · rw [decide_eq_false hlbrace, decide_eq_false hrbrace, decide_eq_false hsemi]
      rfl
    · rw [hafter]
      exact ih hd (State.drop_moved hr 0)

end

theorem skipAngles_skips (h : atKind .lt (ts.drop s.pos) = true) :
    skipAngles.Skips ts (angleListReach (ts.drop s.pos)) s := by
  obtain ⟨t, rest, hr, hk⟩ := eq_cons_of_atKind h
  have hafter : angleDepthAfter t 0 = 1 := by simp [angleDepthAfter, hk]
  refine .procedure (pos_le_of_drop hr) (Moves.angleListReach _).le_length ?_
  rw [hr, angleListReach, if_pos hk]
  refine loop_angle_next hr (by simp [hk]) (by simp [hk]) (by omega) ?_
  rw [hafter]
  exact loop_angleTurn Nat.one_pos (State.drop_moved hr 0)

/-! ## Items -/

/-- Skips what comes before a token that `stop` tells, or before the mark that closes the surrounding group. -/
def skipUntil (stop : Token → Bool) : Action :=
  .procedure <| .loop (fun _ => .choose fun
    | [] => .leave
    | t :: _ =>
      if stop t || t.isClose then .leave
      else if t.isOpen then .next skipBalanced () else .next .bump ()) ()

theorem skipUntil_skips (stop : Token → Bool) (h : s.pos ≤ ts.length) :
    (skipUntil stop).Skips ts (untilReach stop (ts.drop s.pos)) s := by
  refine .procedure h (Moves.untilReach _ _).le_length (.items rfl (fun s t rest hr => ?_) s)
  dsimp only
  split_ifs with hend hopen
  · exact Turn.leave_skips
  · exact ⟨itemReach_le t rest, Turn.next_skips (skipBalanced_item hr)⟩
  · refine ⟨itemReach_le t rest, ?_⟩
    rw [itemReach, if_neg hopen]
    exact Turn.next_skips (.bump hr)

/-- Skips through the next semicolon of this depth. -/
def skipStatement : Action :=
  .procedure (skipUntil (·.kind = .semi) ++ .eat .semi)

theorem whenAt_skips {p : List Token → Bool} {a : Action} {n : Nat} (h : p (ts.drop s.pos) = true → a.Skips ts n s)
    (hn : p (ts.drop s.pos) = false → n = 0) : (Action.whenAt p a).Skips ts n s := by
  show (if p (ts.drop s.pos) then a else Action.idle).Skips ts n s
  split
  · next hp => exact h hp
  · next hp =>
    rw [hn (by simpa using hp)]
    exact .idle

theorem bumpAt_skips {p : List Token → Bool} (hp : p [] = false) (s : State) :
    (Action.whenAt p .bump).Skips ts (if p (ts.drop s.pos) then 1 else 0) s := by
  refine whenAt_skips (fun h => ?_) fun h => by simp [h]
  rw [if_pos h]
  cases hr : ts.drop s.pos with
  | nil =>
    rw [hr, hp] at h
    cases h
  | cons t rest => exact .bump hr

theorem eat_skips (k : TokenKind) (s : State) :
    (Action.eat k).Skips ts (if atKind k (ts.drop s.pos) then 1 else 0) s :=
  bumpAt_skips rfl s

theorem eatWord_skips (ts : List Token) (ws : List String) (s : State) :
    (Action.eatWord ws).Skips ts (if ws.any (atWord · (ts.drop s.pos)) then 1 else 0) s :=
  bumpAt_skips (by simp [atWord]) s

theorem skipStatement_skips (h : s.pos ≤ ts.length) :
    skipStatement.Skips ts (statementReach (ts.drop s.pos)) s := by
  have hskipped := (skipUntil_skips (·.kind = .semi) h).append (eat_skips .semi _)
  refine .procedure h (Moves.statementReach _).le_length ?_
  rw [State.pos_moved, ← List.drop_drop] at hskipped
  simp only [statementReach]
  split_ifs at hskipped ⊢ <;> exact hskipped

/-- Skips the rest of a member of no interest. -/
def skipMember : Action :=
  .procedure <| .loop (fun _ => .choose fun
    | [] => .leave
    | t :: _ =>
      if t.kind = .rbrace then .leave
      else if t.kind = .semi then .last .bump
      else if t.kind = .lbrace then .last (skipBalanced ++ .eat .semi)
      else .next skipBalanced ()) ()

/-- The last tokens of a member of no interest: a semicolon, or a braced group and a semicolon after it. -/
def memberEndReach : List Token → Nat
  | [] => 0
  | t :: rest =>
    if t.kind = .semi then 1
    else if t.kind = .lbrace then
      1 + itemReach t rest + if atKind .semi (rest.drop (itemReach t rest)) then 1 else 0
    else 0

/-- What stands before the last tokens of a member of no interest. -/
def memberItems (t : Token) (rest : List Token) : Option Nat :=
  if t.kind = .rbrace || t.kind = .semi || t.kind = .lbrace then none else some (itemReach t rest)

theorem memberReach_eq (ts : List Token) :
    memberReach ts = runReach memberItems ts + memberEndReach (ts.drop (runReach memberItems ts)) := by
  unfold memberReach
  generalize hn : runReach _ ts = n
  rw [show runReach memberItems ts = n from hn]
  dsimp only
  cases hr : ts.drop n with
  | nil => rfl
  | cons t rest =>
    have hbeyond : ts.drop (n + 1 + itemReach t rest) = rest.drop (itemReach t rest) := by
      rw [Nat.add_assoc, ← List.drop_drop, hr, Nat.add_comm 1, List.drop_succ_cons]
    dsimp only [memberEndReach]
    rw [hbeyond]
    split_ifs <;> omega

theorem skipMember_skips (h : s.pos ≤ ts.length) : skipMember.Skips ts (memberReach (ts.drop s.pos)) s := by
  refine .procedure h (Moves.memberReach _).le_length ?_
  rw [memberReach_eq]
  refine .run _ (fun s t rest n hr hmore => ?_) (fun s hstop => ?_) s
  · rw [memberItems] at hmore
    split_ifs at hmore with hend
    obtain rfl := Option.some.inj hmore
    simp only [Bool.or_eq_true, decide_eq_true_eq, not_or] at hend
    refine ⟨itemReach_le t rest, ?_⟩
    simp only [Turn.choose, hr, hend, if_false]
    exact Turn.next_skips (skipBalanced_item hr)
  · simp only [Turn.choose]
    cases hr : ts.drop s.pos with
    | nil => exact Turn.leave_skips
    | cons t rest =>
      have hend : (t.kind = .rbrace ∨ t.kind = .semi) ∨ t.kind = .lbrace := by
        have hnone := hstop t rest hr
        rw [memberItems] at hnone
        split_ifs at hnone with hmark
        simpa only [Bool.or_eq_true, decide_eq_true_eq] using hmark
      rcases hend with (hk | hk) | hk
      · simp only [memberEndReach, hk, reduceCtorEq, if_true, if_false]
        exact Turn.leave_skips
      · simp only [memberEndReach, hk, reduceCtorEq, if_true, if_false]
        exact Turn.last_skips (.bump hr)
      · have hgroup := (skipBalanced_item hr).append (eat_skips .semi _)
        rw [State.drop_moved hr] at hgroup
        simp only [memberEndReach, hk, reduceCtorEq, if_true, if_false]
        exact Turn.last_skips hgroup

/-! ## Clauses -/

/-- The inside of a clause after its first token. -/
def clause (stops : List TokenKind) : Action :=
  .loop (fun _ => .choose fun
    | [] => .leave
    | t :: _ =>
      if stops.contains t.kind || t.isWord "where" then .leave
      else if t.kind = .lt then .next skipAngles ()
      else if t.isClose then .leave
      else .next skipBalanced ()) ()

theorem clause_skips (ts : List Token) (stops : List TokenKind) (s : State) :
    (clause stops).Skips ts (clauseReach stops (ts.drop s.pos)) s := by
  refine .items rfl (fun s t rest hr => ?_) s
  dsimp only
  split_ifs with hstop hlt hclose
  · exact Turn.leave_skips
  · have hlist : atKind .lt (ts.drop s.pos) = true := by simp [hr, atKind, hlt]
    have hangles := skipAngles_skips hlist
    rw [hr, angleListReach, if_pos hlt] at hangles
    exact ⟨(Moves.angleReach 1 rest).le_length, Turn.next_skips hangles⟩
  · exact Turn.leave_skips
  · exact ⟨itemReach_le t rest, Turn.next_skips (skipBalanced_item hr)⟩

/-- The value of an optional parameter. -/
def defaultValue : Action :=
  .procedure <| .loop (fun _ => .choose fun
    | [] => .leave
    | t :: rest =>
      if t.kind = .comma || t.isClose then .leave
      else if t.isOpen then .next skipBalanced ()
      else if t.kind = .lt then
        match typeArgumentsReach 1 rest with
        | some n => .next (.jump (1 + n)) ()
        | none => .next .bump ()
      else .next .bump ()) ()

theorem defaultValue_skips (h : s.pos ≤ ts.length) :
    defaultValue.Skips ts (defaultReach (ts.drop s.pos)) s := by
  refine .procedure h (Moves.defaultReach _).le_length (.items rfl (fun s t rest hr => ?_) s)
  dsimp only
  split_ifs with hend hlt hopen hopen
  · exact Turn.leave_skips
  · simp [Token.isOpen, hlt] at hopen
  · cases harguments : typeArgumentsReach 1 rest with
    | none => exact ⟨Nat.zero_le _, Turn.next_skips (.bump hr)⟩
    | some n => exact ⟨(Moves.typeArgumentsReach harguments).le_length, Turn.next_skips (.jump _)⟩
  · exact ⟨itemReach_le t rest, Turn.next_skips (skipBalanced_item hr)⟩
  · refine ⟨itemReach_le t rest, ?_⟩
    rw [itemReach, if_neg hopen]
    exact Turn.next_skips (.bump hr)

end DocPages.Source.Checked
