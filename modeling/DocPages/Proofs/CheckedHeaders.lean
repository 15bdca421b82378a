/-
The procedures of the checked reader that read the parts of a header. Each
reads what the step of the same name reads, so none of its checks fails.
-/
import DocPages.Proofs.CheckedSkips

namespace DocPages.Source.Checked

variable {ts : List Token} {k : Nat} {s : State}

/-! ## Names of nodes -/

/-- What is read between two cursors is no name. -/
def unnamed : Kept where
  holds _ p _ := p.name? = none
  idle _ := rfl
  append {_ _ _ p q} hp hq := by
    show p.name?.or q.name? = none
    rw [hp, hq, Option.none_or]

/-- A node without a name still has none after what is no name. -/
theorem Action.Reads.append_unnamed {a b : Action} {p q : Step} (h : s.Stands ts k) (hname : s.name? = none)
    (hp : p.KeepsAt unnamed (s.cursor ts)) (ha : a.Reads ts p s)
    (hb : ∀ s', s'.Stands ts k → s'.name? = none → b.Reads ts q s') : (a ++ b).Reads ts (p ++ q) s :=
  ha.append h fun _ he hs => hb _ hs <| by
    rw [he, State.name?_take h, hname, Option.none_or]
    exact hp

theorem Action.Reads.of_assoc {a : Action} {p q r : Step} (ha : a.Reads ts (p ++ (q ++ r)) s) :
    a.Reads ts (p ++ q ++ r) s := by
  refine ha.trans (congrArg (fun parts => some (s.take (parts, _))) ?_)
  exact (Parts.append_assoc _ _ _).symm

/-- A node around tokens that are skipped. -/
theorem Action.Reads.leaf {kind : NodeKind} {reach : List Token → Nat} {body : Nat → Action} (h : s.Stands ts k)
    (hle : reach (ts.drop s.pos) ≤ (ts.drop s.pos).length)
    (hbody : ∀ s' : State, s'.pos = s.pos → (body s.count).Skips ts (reach (ts.drop s.pos)) s') :
    (Action.within kind body).Reads ts (.leaf kind reach) s := by
  refine Action.Reads.within (p := .skip reach) h fun s' _ _ hc => ?_
  have hpos : s'.pos = s.pos := congrArg Cursor.pos hc
  have hskips := hbody s' hpos
  rw [← hpos] at hskips hle
  exact hskips.reads hle

theorem shorter_advance {c : Cursor} {n : Nat} (hr : c.rest ≠ []) (hn : 0 < n) :
    (c.advance n).rest.length < c.rest.length := by
  have := List.length_pos_iff.2 hr
  simp only [Cursor.advance, List.length_drop]
  omega

theorem ne_nil_of_atKind {kind : TokenKind} {rest : List Token} (h : atKind kind rest = true) : rest ≠ [] := by
  rintro rfl
  cases h

/-! ## Attributes and modifiers -/

def attributeList : Action :=
  .procedure (.within .attributeList fun _ => skipBalanced)

def attributes : Action :=
  .whileAt (atKind .lbracket) attributeList

def modifiers (number : Nat) : Action :=
  .procedure (.whileAt atModifier (.modifier number))

theorem attributeList_reads (h : s.Stands ts k) : attributeList.Reads ts Source.attributeList s := by
  refine .procedure h (.leaf h (groupReach_le _) fun s' hpos => ?_)
  rw [← hpos]
  exact skipBalanced_skips (hpos ▸ h.inside)

theorem attributes_reads (h : s.Stands ts k) : attributes.Reads ts Source.attributes s := by
  refine .whileAt h (fun s hs _ => attributeList_reads hs) fun c hc => ?_
  exact shorter_advance (ne_nil_of_atKind hc) (groupReach_pos hc)

theorem attributes_unnamed (c : Cursor) : Source.attributes.KeepsAt unnamed c :=
  Step.KeepsAt.whileAt (I := unnamed) (s := Source.attributeList) (fun _ _ => rfl) (fun _ _ => rfl) c

theorem modifiers_reads (h : s.Stands ts k) : (modifiers k).Reads ts Source.modifiers s :=
  .procedure h <| .whileAt h (fun _ hs _ => .modifier hs) fun _ hc =>
    shorter_advance (ne_nil_of_atKind (atKind_of_atModifier hc)) Nat.one_pos

theorem modifierRun_unnamed (p : List Token → Bool) (c : Cursor) : (Step.whileAt p .modifier).KeepsAt unnamed c :=
  Step.KeepsAt.whileAt (I := unnamed) (s := .modifier) (fun _ _ => rfl) (fun _ _ => rfl) c

/-! ## Types -/

def refWords : Action :=
  .whenAt (atWord "ref") (.bump ++ .eatWord ["readonly"])

/-- Goes on to the next part of a path, over a dot or two colons. -/
def nextPart : List Token → Turn Unit
  | a :: b :: rest =>
    if a.kind = .dot && b.kind = .ident then .next (.jump 2) ()
    else if a.kind = .colon && b.kind = .colon && atKind .ident rest then .next (.jump 3) ()
    else .leave
  | _ => .leave

/-- A turn of the loop over a path after one of its parts. -/
def pathTurn : Turn Unit :=
  .after (.whenAt (atKind .lt) skipAngles) (.choose nextPart)

def bareType : Action :=
  .choose fun
    | [] => .idle
    | t :: _ =>
      if t.kind = .lparen then skipBalanced
      else if t.kind = .ident then .bump ++ .loop (fun _ => pathTurn) ()
      else .idle

def typeSuffixes : Action :=
  .loop (fun _ => .choose fun
    | [] => .leave
    | t :: rest =>
      if t.kind = .question || t.isPunct "*" then .next .bump ()
      else if t.kind = .lbracket && (atKind .rbracket rest || atKind .comma rest) then .next skipBalanced ()
      else .leave) ()

def typeReference : Action :=
  .procedure <| .whenAt (fun rest => atKind .ident rest || atKind .lparen rest) <|
    .within .type fun _ => refWords ++ bareType ++ typeSuffixes

theorem refWords_skips (ts : List Token) (s : State) : refWords.Skips ts (refReach (ts.drop s.pos)) s := by
  refine whenAt_skips (fun hword => ?_) fun hword => ?_
  · obtain ⟨t, rest, hr, -⟩ := eq_cons_of_atKind (atKind_of_atWord hword)
    have hreadonly := eatWord_skips ts ["readonly"] (s.moved 1)
    have hskips := (Action.Skips.bump hr).append hreadonly
    rw [State.drop_moved hr 0] at hskips
    rw [hr] at hword ⊢
    have ht : t.isWord "ref" = true := by simpa [atWord] using hword
    rw [refReach, if_pos ht]
    simp only [List.any_cons, List.any_nil, Bool.or_false, List.drop_zero] at hskips
    split_ifs at hskips ⊢ <;> exact hskips
  · cases hr : ts.drop s.pos with
    | nil => rfl
    | cons t rest =>
      rw [hr] at hword
      exact if_neg (by simpa [atWord] using hword)

/-- The type arguments after a part of a path. -/
theorem pathArguments_skip (s : State) :
    (Action.whenAt (atKind .lt) skipAngles).Skips ts (angleListReach (ts.drop s.pos)) s := by
  refine whenAt_skips skipAngles_skips fun hlt => ?_
  cases hr : ts.drop s.pos with
  | nil => rfl
  | cons t rest =>
    rw [hr] at hlt
    exact if_neg (by simpa [atKind] using hlt)

theorem pathTurns_skip (ts : List Token) (s : State) :
    (Action.loop (fun _ => pathTurn) ()).Skips ts (pathReach (ts.drop s.pos)) s := by
  generalize hr : ts.drop s.pos = rest
  have hturn : ∀ {s : State} {rest : List Token}, ts.drop s.pos = rest → pathTurn.run ts s =
      (nextPart (rest.drop (angleListReach rest))).run ts (s.moved (angleListReach rest)) := by
    rintro s _ rfl
    show ((Action.whenAt (atKind .lt) skipAngles).run ts s).bind _ = _
    rw [pathArguments_skip, Option.bind_some, List.drop_drop]
    rfl
  fun_induction pathReach rest generalizing s with
  | case1 rest n a b after hd hk ih =>
    have hnext : pathTurn.run ts s = some (s.moved (n + 2), some ()) := by
      rw [hturn hr, show rest.drop (angleListReach rest) = a :: b :: after from hd, nextPart, if_pos hk,
        ← State.moved_moved]
      exact Turn.next_skips (.jump 2)
    have hlength := congrArg List.length hd
    rw [List.length_drop, List.length_cons, List.length_cons] at hlength
    refine .loop_next hnext (by omega) (by rw [hr]; omega) (ih _ ?_)
    rw [State.pos_moved, ← List.drop_drop, hr, ← List.drop_drop, hd]
    rfl
  | case2 rest n a b after hd hdot hk ih =>
    have hnext : pathTurn.run ts s = some (s.moved (n + 3), some ()) := by
      rw [hturn hr, show rest.drop (angleListReach rest) = a :: b :: after from hd, nextPart, if_neg hdot, if_pos hk,
        ← State.moved_moved]
      exact Turn.next_skips (.jump 3)
    obtain ⟨t, after, rfl, -⟩ := eq_cons_of_atKind (Bool.and_eq_true_iff.1 hk).2
    have hlength := congrArg List.length hd
    rw [List.length_drop, List.length_cons, List.length_cons, List.length_cons] at hlength
    refine .loop_next hnext (by omega) (by rw [hr]; omega) (ih _ ?_)
    rw [State.pos_moved, ← List.drop_drop, hr, ← List.drop_drop, hd]
    rfl
  | case3 rest n a b after hd hdot hk =>
    refine .loop_last ?_
    rw [hturn hr, show rest.drop (angleListReach rest) = a :: b :: after from hd, nextPart, if_neg hdot, if_neg hk]
    exact Turn.leave_skips
  | case4 rest n hend =>
    refine .loop_last ?_
    rw [hturn hr, nextPart]
    · exact Turn.leave_skips
    · exact hend

theorem bareType_skips (s : State) : bareType.Skips ts (bareTypeReach (ts.drop s.pos)) s := by
  refine .choose ?_
  cases hr : ts.drop s.pos with
  | nil => exact .idle
  | cons t rest =>
    simp only [bareTypeReach]
    split_ifs with hparen hident
    · exact skipBalanced_item hr
    · have hpath := pathTurns_skip ts (s.moved 1)
      rw [State.drop_moved hr 0] at hpath
      exact (Action.Skips.bump hr).append hpath
    · exact .idle

theorem typeSuffixes_skip (s : State) : typeSuffixes.Skips ts (typeSuffixReach (ts.drop s.pos)) s := by
  refine .items rfl (fun s t rest hr => ?_) s
  dsimp only
  split_ifs with hmark hrank
  · exact ⟨Nat.zero_le _, Turn.next_skips (.bump hr)⟩
  · exact ⟨itemReach_le t rest, Turn.next_skips (skipBalanced_item hr)⟩
  · exact Turn.leave_skips

theorem typeReference_reads (h : s.Stands ts k) : typeReference.Reads ts Source.typeReference s := by
  refine .procedure h (.whenAt fun _ => .leaf h (Moves.typeReach _).le_length fun s' hpos => ?_)
  rw [← hpos]
  have hskips := ((refWords_skips ts s').append (bareType_skips _)).append (typeSuffixes_skip _)
  simpa only [typeReach, State.pos_moved, List.drop_drop] using hskips

theorem typeReference_unnamed (c : Cursor) : Source.typeReference.KeepsAt unnamed c :=
  .whenAt fun _ => rfl

/-! ## Lists of parameters -/

/-- What stands between the brackets of a list, through the closing bracket. -/
def listItems (close : TokenKind) (ends : List TokenKind) (item : Action) : Action :=
  .loop (fun _ => .choose fun
    | [] => .leave
    | t :: _ =>
      if t.kind = close then .last .bump
      else if t.kind = .comma then .next .bump ()
      else if ends.contains t.kind then .leave
      else .next (.passing item) ()) ()

def typeParameter : Action :=
  .within .typeParameter fun number =>
    attributes ++ .eatWord ["in", "out"] ++ .whenAt (atKind .ident) (.name number)

def typeParameterList : Action :=
  .procedure <| .within .typeParameterList fun _ => .bump ++ listItems .gt [.lbrace, .rbrace, .semi] typeParameter

def parameter : Action :=
  .procedure <| .within .parameter fun number =>
    attributes ++ .whileAt (fun rest => parameterWords.any (atWord · rest)) (.modifier number) ++
      typeReference ++ .whenAt (atKind .ident) (.name number) ++
      .whenAt (atKind .eq) (.bump ++ .within .defaultValue fun _ => defaultValue) ++
      skipUntil (·.kind = .comma)

def parameterList : Action :=
  .procedure <| .within .parameterList fun _ => .bump ++ listItems .rparen [.rbrace, .rbracket] parameter

theorem listItems_reads {close : TokenKind} {ends : List TokenKind} {item : Action} {p : Step}
    (hends : TokenKind.comma ∉ ends)
    (hitem : ∀ s : State, s.Stands ts k → item.Reads ts p s) (h : s.Stands ts k) :
    (listItems close ends item).Reads ts (.each (fun rest =>
      if (close :: ends).any (atKind · rest) then none
      else if atKind .comma rest then some .bump
      else some p) ++ .eat close) s := by
  have hany : ∀ (t : Token) rest, (close :: ends).any (atKind · (t :: rest)) = true ↔
      t.kind = close ∨ ends.contains t.kind = true := by
    intro t rest
    rw [List.any_cons, Bool.or_eq_true, List.contains_eq_any_beq]
    exact or_congr_left decide_eq_true_iff
  refine .each (fun s hs hend => ?_) (fun s q hs _ hne hnext => ?_) h (Nat.zero_le _)
  · cases hr : ts.drop s.pos with
    | nil =>
      simp only [Turn.choose, hr]
      exact Turn.last_run (Action.Reads.whenAt_neg (by simp [hr, atKind]))
    | cons t rest =>
      have hstop : (close :: ends).any (atKind · (t :: rest)) = true := by
        have hnone := hend (by simp [hr])
        by_contra hgo
        rw [hr, if_neg hgo] at hnone
        split_ifs at hnone
      simp only [Turn.choose, hr]
      by_cases hk : t.kind = close
      · rw [if_pos hk]
        exact Turn.last_run (Action.Reads.whenAt_pos (by simp [hr, atKind, hk]) .bump)
      · have hcontains := ((hany t rest).1 hstop).resolve_left hk
        have hcomma : ¬ t.kind = .comma := fun hc => hends (by simpa [hc] using hcontains)
        rw [if_neg hk, if_neg hcomma, if_pos hcontains]
        exact Turn.last_run (Action.Reads.whenAt_neg (by simpa [hr, atKind] using hk))
  · obtain ⟨t, rest, hr⟩ := List.exists_cons_of_ne_nil hne
    rw [hr] at hnext
    split_ifs at hnext with hstop hcomma
    all_goals
      obtain rfl := Option.some.inj hnext
      rw [hany, not_or] at hstop
      simp only [Turn.choose, hr]
    · rw [if_neg hstop.1, if_pos (of_decide_eq_true hcomma)]
      exact Turn.next_run .bump (shorter_advance hne Nat.one_pos)
    · rw [if_neg hstop.1, if_neg (fun hc => hcomma (decide_eq_true hc)), if_neg hstop.2]
      exact Turn.next_passing hs (hitem s hs)

theorem nameIfAny_reads (h : s.Stands ts k) (hn : s.name? = none) :
    (Action.whenAt (atKind .ident) (.name k)).Reads ts nameIfAny s :=
  .whenAt fun _ => .name h hn

theorem typeParameter_reads (h : s.Stands ts k) : typeParameter.Reads ts Source.typeParameter s :=
  .within h fun _ hs hn _ =>
    .append_unnamed hs hn ((attributes_unnamed _).append (.whenAt fun _ => rfl))
      ((attributes_reads hs).append hs fun _ _ _ => .eatWord _) fun _ hs hn => nameIfAny_reads hs hn

theorem typeParameterList_reads (h : s.Stands ts k) : typeParameterList.Reads ts Source.typeParameterList s :=
  .procedure h <| .within h fun _ hs _ _ =>
    .of_assoc <| Action.Reads.bump.append hs fun _ _ hs =>
      listItems_reads (by decide) (fun _ => typeParameter_reads) hs

theorem parameterWords_reads (h : s.Stands ts k) :
    (Action.whileAt (fun rest => parameterWords.any (atWord · rest)) (.modifier k)).Reads ts
      (.whileAt (fun rest => parameterWords.any (atWord · rest)) .modifier) s :=
  .whileAt h (fun _ hs _ => .modifier hs) fun _ hc =>
    shorter_advance (ne_nil_of_atKind (atKind_of_any_atWord hc)) Nat.one_pos

theorem parameterValue_reads (h : s.Stands ts k) :
    (Action.whenAt (atKind .eq) (.bump ++ .within .defaultValue fun _ => defaultValue)).Reads ts
      Source.defaultValue s := by
  refine .whenAt fun _ => Action.Reads.bump.append h fun _ _ hs =>
    .leaf hs (Moves.defaultReach _).le_length fun s' hpos => ?_
  rw [← hpos]
  exact defaultValue_skips (hpos ▸ hs.inside)

theorem parameter_reads (h : s.Stands ts k) : parameter.Reads ts Source.parameter s := by
  refine .procedure h (.within h fun s hs hn _ => ?_)
  -- The name comes after what is no name.
  have hfront := ((attributes_reads hs).append hs fun _ _ hs => parameterWords_reads hs).append hs fun _ _ hs =>
    typeReference_reads hs
  have hunnamed := ((attributes_unnamed (s.cursor ts)).append
    (modifierRun_unnamed (fun rest => parameterWords.any (atWord · rest)) _)).append (typeReference_unnamed _)
  have hnamed := Action.Reads.append_unnamed hs hn hunnamed hfront fun _ hs hn => nameIfAny_reads hs hn
  exact (hnamed.append hs fun _ _ hs => parameterValue_reads hs).append hs fun _ _ hs =>
    (skipUntil_skips _ hs.inside).reads (Moves.untilReach _ _).le_length

theorem parameterList_reads (h : s.Stands ts k) : parameterList.Reads ts Source.parameterList s :=
  .procedure h <| .within h fun _ hs _ _ =>
    .of_assoc <| Action.Reads.bump.append hs fun _ _ hs =>
      listItems_reads (by decide) (fun _ => parameter_reads) hs

/-! ## Clauses, bodies and names -/

def baseList : Action :=
  .procedure <| .within .baseList fun _ => .bump ++ clause [.lbrace, .semi]

def constraintClause : Action :=
  .procedure <| .within .constraintClause fun _ => .bump ++ clause [.lbrace, .semi, .fatArrow]

def constraints : Action :=
  .whileAt (atWord "where") constraintClause

/-- The call of another constructor. -/
def initializer : Action :=
  .within .constructorInitializer fun _ =>
    .bump ++ .eatWord ["base", "this"] ++ .whenAt (atKind .lparen) skipBalanced

def body : Action :=
  .procedure <| .choose fun rest =>
    if atKind .lbrace rest then .within .block fun _ => skipBalanced
    else if atKind .fatArrow rest then
      .within .arrowBody (fun _ => .bump ++ skipUntil (·.kind = .semi)) ++ .eat .semi
    else .eat .semi

def explicitInterface : Action :=
  .procedure <| .choose fun rest =>
    if interfaceReach rest ≠ 0 then .within .explicitInterface fun _ => .jump (interfaceReach rest) else .idle

/-- A turn of the loop over a dotted name. -/
def nameTurn : Turn Unit :=
  .choose fun rest =>
    if atKind .ident rest then
      .after .bump <| .choose fun rest => if atKind .dot rest then .next .bump () else .leave
    else .leave

def dottedName : Action :=
  .within .name fun _ => .loop (fun _ => nameTurn) ()

theorem markedClause_skips {stops : List TokenKind} {t : Token} {rest : List Token} (hr : ts.drop s.pos = t :: rest) :
    (Action.bump ++ clause stops).Skips ts (1 + clauseReach stops (ts.drop s.pos).tail) s := by
  have hclause := clause_skips ts stops (s.moved 1)
  rw [State.drop_moved hr 0] at hclause
  rw [hr]
  exact (Action.Skips.bump hr).append hclause

theorem baseList_reads (h : s.Stands ts k) (hmark : atKind .colon (ts.drop s.pos) = true) :
    baseList.Reads ts (.leaf .baseList baseListReach) s := by
  obtain ⟨t, rest, hr, -⟩ := eq_cons_of_atKind hmark
  refine .procedure h (.leaf h (Moves.baseListReach hmark).le_length fun s' hpos => ?_)
  rw [← hpos] at hr ⊢
  exact markedClause_skips hr

theorem constraintClause_reads (h : s.Stands ts k) (hmark : atWord "where" (ts.drop s.pos) = true) :
    constraintClause.Reads ts (.leaf .constraintClause constraintReach) s := by
  obtain ⟨t, rest, hr, -⟩ := eq_cons_of_atKind (atKind_of_atWord hmark)
  refine .procedure h (.leaf h (Moves.constraintReach hmark).le_length fun s' hpos => ?_)
  rw [← hpos] at hr ⊢
  exact markedClause_skips hr

theorem constraints_reads (h : s.Stands ts k) : constraints.Reads ts Source.constraints s := by
  refine .whileAt h (fun s hs hmark => constraintClause_reads hs hmark) fun c hc => ?_
  refine shorter_advance (ne_nil_of_atKind (atKind_of_atWord hc)) ?_
  rw [constraintReach]
  omega

theorem groupAt_skips (kind : TokenKind) (s : State) : (Action.whenAt (atKind kind) skipBalanced).Skips ts
    (if atKind kind (ts.drop s.pos) then groupReach (ts.drop s.pos) else 0) s := by
  refine whenAt_skips (fun h => ?_) fun h => by simp [h]
  obtain ⟨t, rest, hr, -⟩ := eq_cons_of_atKind h
  rw [if_pos h]
  exact skipBalanced_skips (pos_le_of_drop hr)

theorem initializer_reads (h : s.Stands ts k) (hmark : atKind .colon (ts.drop s.pos) = true) :
    initializer.Reads ts (.leaf .constructorInitializer initializerReach) s := by
  refine .leaf h (Moves.initializerReach hmark).le_length fun s' hpos => ?_
  obtain ⟨t, rest, hr, -⟩ := eq_cons_of_atKind hmark
  rw [← hpos] at hr ⊢
  have hskips := ((Action.Skips.bump hr).append (eatWord_skips _ ["base", "this"] _)).append (groupAt_skips .lparen _)
  simp only [State.pos_moved, ← List.drop_drop, hr, List.drop_succ_cons, List.drop_zero, List.any_cons, List.any_nil,
    Bool.or_false] at hskips
  simp only [initializerReach, hr, List.tail_cons]
  cases hword : atWord "base" rest || atWord "this" rest <;>
    simp only [hword, Bool.false_eq_true, if_false, if_true, List.drop_succ_cons, List.drop_zero] at hskips ⊢ <;>
    split_ifs at hskips ⊢ <;> exact hskips

theorem body_reads (h : s.Stands ts k) : body.Reads ts Source.body s := by
  refine .procedure h (.choose ?_)
  split_ifs with hbrace harrow
  · refine .leaf h (groupReach_le _) fun s' hpos => ?_
    rw [← hpos]
    exact skipBalanced_skips (hpos ▸ h.inside)
  · refine Action.Reads.append h (.leaf h (Moves.arrowReach harrow _).le_length fun s' hpos => ?_) fun _ _ _ => .eat _
    obtain ⟨t, rest, hr, -⟩ := eq_cons_of_atKind harrow
    rw [← hpos] at hr ⊢
    have hinside : (s'.moved 1).pos ≤ ts.length := by
      have := congrArg List.length hr
      rw [List.length_drop, List.length_cons] at this
      rw [State.pos_moved]
      omega
    have hvalue := skipUntil_skips (·.kind = .semi) hinside
    rw [State.drop_moved hr 0] at hvalue
    rw [hr]
    exact (Action.Skips.bump hr).append hvalue
  · exact .eat _

theorem explicitInterface_reads (h : s.Stands ts k) : explicitInterface.Reads ts Source.explicitInterface s := by
  refine .procedure h (.of_choose ?_)
  split_ifs with hsome
  · refine .whenAt_pos (decide_eq_true hsome) (.leaf h (Moves.interfaceReach _).le_length fun s' _ => ?_)
    exact .jump _
  · exact .whenAt_neg (by simpa using hsome)

theorem explicitInterface_unnamed (c : Cursor) : Source.explicitInterface.KeepsAt unnamed c :=
  .whenAt fun _ => rfl

theorem nameTurn_run (ts : List Token) (s : State) : nameTurn.run ts s =
    if atKind .ident (ts.drop s.pos) then
      if atKind .dot (ts.drop s.pos).tail then some (s.moved 2, some ()) else some (s.moved 1, none)
    else some (s.moved 0, none) := by
  show (if atKind .ident (ts.drop s.pos) then _ else _ : Turn Unit).run ts s = _
  split
  · next hident =>
    obtain ⟨t, rest, hr, -⟩ := eq_cons_of_atKind hident
    have hahead : ts.drop (s.moved 1).pos = rest := State.drop_moved hr 0
    show (Action.bump.run ts s).bind
      ((Turn.choose fun rest => if atKind .dot rest then .next .bump () else .leave : Turn Unit).run ts) = _
    rw [Action.Skips.bump hr, Option.bind_some, hr, List.tail_cons]
    show (if atKind .dot (ts.drop (s.moved 1).pos) then _ else _ : Turn Unit).run ts _ = _
    rw [hahead]
    split
    · next hdot =>
      obtain ⟨u, after, hafter, -⟩ := eq_cons_of_atKind hdot
      exact Turn.next_skips (.bump (hahead.trans hafter))
    · exact Turn.leave_skips
  · exact Turn.leave_skips

theorem nameTurns_skip (s : State) :
    (Action.loop (fun _ => nameTurn) ()).Skips ts (dottedReach (ts.drop s.pos)) s := by
  generalize hr : ts.drop s.pos = rest
  have hturn := nameTurn_run ts s
  rw [hr] at hturn
  fun_induction dottedReach rest generalizing s with
  | case1 => exact .loop_last hturn
  | case2 t hk => exact .loop_last (by simpa [atKind, hk] using hturn)
  | case3 t hk => exact .loop_last (by simpa [atKind, hk] using hturn)
  | case4 t u rest hk hu ih =>
    have hahead : ts.drop (s.moved 2).pos = rest := State.drop_moved hr 1
    have hnext : nameTurn.run ts s = some (s.moved 2, some ()) := by simpa [atKind, hk, hu] using hturn
    refine .loop_next hnext (by omega) (by simp [hr]) (ih _ hahead ?_)
    rw [nameTurn_run, hahead]
  | case5 t u rest hk hu => exact .loop_last (by simpa [atKind, hk, hu] using hturn)
  | case6 t u rest hk => exact .loop_last (by simpa [atKind, hk] using hturn)

theorem dottedName_reads (h : s.Stands ts k) : dottedName.Reads ts (.leaf .name dottedReach) s := by
  refine .leaf h (Moves.dottedReach _).le_length fun s' hpos => ?_
  rw [← hpos]
  exact nameTurns_skip s'

end DocPages.Source.Checked
