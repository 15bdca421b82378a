/-
How reading moves: over single tokens that are no braces, and over whole
groups. Every count of tokens that a part of a header reaches is such a move
(`Moves`), whatever the tokens are, so what holds of these two holds of all
parts.
-/
import DocPages.Source.Reach

namespace DocPages.Source

def TokenKind.isBrace (k : TokenKind) : Bool :=
  k = .lbrace || k = .rbrace

/-! ## What is next -/

theorem eq_cons_of_atKind {k : TokenKind} {ts : List Token} (h : atKind k ts = true) :
    ∃ t rest, ts = t :: rest ∧ t.kind = k := by
  cases ts with
  | nil => cases h
  | cons t rest => exact ⟨t, rest, rfl, of_decide_eq_true h⟩

theorem atKind_of_atWord {w : String} {ts : List Token} (h : atWord w ts = true) :
    atKind .ident ts = true := by
  cases ts with
  | nil => cases h
  | cons t rest =>
    have hw : t.kind = .ident ∧ t.text = w := by simpa [atWord, Token.isWord] using h
    simp [atKind, hw.1]

/-! ## Groups -/

theorem closeReach_le (depth : Nat) (ts : List Token) : closeReach depth ts ≤ ts.length := by
  induction ts generalizing depth with
  | nil => exact Nat.le_refl _
  | cons t rest ih =>
    have hopen := ih (depth + 1)
    have hclose := ih (depth - 1)
    have hother := ih depth
    simp only [closeReach, List.length_cons]
    repeat' split
    all_goals omega

theorem itemReach_le (t : Token) (rest : List Token) : itemReach t rest ≤ rest.length := by
  unfold itemReach
  split
  · exact closeReach_le 1 rest
  · exact Nat.zero_le _

theorem groupReach_le (ts : List Token) : groupReach ts ≤ ts.length := by
  cases ts with
  | nil => exact Nat.le_refl _
  | cons t rest =>
    have := itemReach_le t rest
    simp only [groupReach, List.length_cons]
    omega

theorem groupReach_pos {k : TokenKind} {ts : List Token} (h : atKind k ts = true) : 0 < groupReach ts := by
  obtain ⟨t, rest, rfl, -⟩ := eq_cons_of_atKind h
  simp only [groupReach]
  omega

/-! ## Moving on -/

/-- Moving on by a number of tokens without stepping over a brace that is not part of a group. -/
inductive Moves : List Token → Nat → Prop where
  | zero (ts : List Token) : Moves ts 0
  | one {t : Token} {rest : List Token} {n : Nat} (hl : t.kind ≠ .lbrace) (hr : t.kind ≠ .rbrace)
      (h : Moves rest n) : Moves (t :: rest) (1 + n)
  | group {t : Token} {rest : List Token} {n : Nat} (ho : t.isOpen = true)
      (h : Moves (rest.drop (itemReach t rest)) n) : Moves (t :: rest) (1 + itemReach t rest + n)

namespace Moves

theorem append {ts : List Token} {m n : Nat} (h : Moves ts m) (h' : Moves (ts.drop m) n) :
    Moves ts (m + n) := by
  induction h with
  | zero ts => simpa using h'
  | one hl hr _ ih =>
    rw [Nat.add_comm 1, List.drop_succ_cons] at h'
    rw [Nat.add_assoc]
    exact .one hl hr (ih h')
  | @group t rest k ho _ ih =>
    rw [Nat.add_assoc, Nat.add_comm 1, List.drop_succ_cons, ← List.drop_drop] at h'
    rw [Nat.add_assoc]
    exact .group ho (ih h')

/-- No move goes beyond the tokens there are. -/
theorem le_length {ts : List Token} {n : Nat} (h : Moves ts n) : n ≤ ts.length := by
  induction h with
  | zero ts => exact Nat.zero_le _
  | one _ _ _ ih =>
    rw [List.length_cons]
    omega
  | @group t rest n _ _ ih =>
    have := itemReach_le t rest
    rw [List.length_drop] at ih
    rw [List.length_cons]
    omega

theorem step {t : Token} {rest : List Token} (hl : t.kind ≠ .lbrace) (hr : t.kind ≠ .rbrace) :
    Moves (t :: rest) 1 :=
  .one hl hr (.zero rest)

/-- A single token of a kind other than a brace. -/
theorem of_atKind {k : TokenKind} {ts : List Token} (h : atKind k ts = true) (hk : k.isBrace = false) :
    Moves ts 1 := by
  obtain ⟨t, rest, rfl, rfl⟩ := eq_cons_of_atKind h
  simp only [TokenKind.isBrace, Bool.or_eq_false_iff, decide_eq_false_iff_not] at hk
  exact .step hk.1 hk.2

theorem of_atWord {w : String} {ts : List Token} (h : atWord w ts = true) : Moves ts 1 :=
  of_atKind (atKind_of_atWord h) rfl

/-- The item at the front, unless it is a closing brace. -/
theorem item {t : Token} {rest : List Token} (h : t.kind ≠ .rbrace) :
    Moves (t :: rest) (1 + itemReach t rest) := by
  by_cases ho : t.isOpen = true
  · exact .group ho (.zero _)
  · have hl : t.kind ≠ .lbrace := fun hk => ho (by simp [Token.isOpen, hk])
    have hi : itemReach t rest = 0 := if_neg ho
    rw [hi]
    exact step hl h

theorem groupReach {k : TokenKind} {ts : List Token} (h : atKind k ts = true) (hr : k ≠ .rbrace) :
    Moves ts (groupReach ts) := by
  obtain ⟨t, rest, rfl, rfl⟩ := eq_cons_of_atKind h
  exact item hr

theorem runReach {more : Token → List Token → Option Nat}
    (h : ∀ t rest n, more t rest = some n → Moves (t :: rest) (1 + n)) (ts : List Token) :
    Moves ts (runReach more ts) := by
  fun_induction Source.runReach more ts with
  | case1 => exact .zero _
  | case2 => exact .zero _
  | case3 t rest n hn ih => exact (h t rest n hn).append (by simpa [Nat.add_comm 1] using ih)

theorem untilReach (stop : Token → Bool) (ts : List Token) : Moves ts (untilReach stop ts) := by
  refine .runReach (fun t rest n hn => ?_) ts
  split at hn
  · cases hn
  · next hs =>
    cases hn
    exact item fun hr => hs (by simp [Token.isClose, hr])

theorem statementReach (ts : List Token) : Moves ts (statementReach ts) := by
  simp only [Source.statementReach]
  split
  · next h => exact (untilReach _ ts).append (.of_atKind h rfl)
  · exact untilReach _ ts

theorem memberReach (ts : List Token) : Moves ts (memberReach ts) := by
  have hrun : ∀ t rest n, (if t.kind = .rbrace || t.kind = .semi || t.kind = .lbrace then none
      else some (itemReach t rest)) = some n → Moves (t :: rest) (1 + n) := fun t rest n hn => by
    split at hn
    · cases hn
    · next hs =>
      cases hn
      exact item fun hr => hs (by simp [hr])
  have hm := runReach hrun ts
  simp only [Source.memberReach]
  generalize Source.runReach _ ts = m at hm ⊢
  split
  · exact hm
  · next t rest hd =>
    split
    · next hs => exact hm.append (hd ▸ .step (by simp [hs]) (by simp [hs]))
    · split
      · next hl =>
        have hg : Moves ts (m + (1 + itemReach t rest)) := hm.append (hd ▸ item (by simp [hl]))
        simp only [Nat.add_assoc]
        split
        · next ha => exact hg.append (.of_atKind ha rfl)
        · exact hg
      · exact hm

/-! ## Angle brackets -/

theorem angleReach (depth : Nat) (ts : List Token) : Moves ts (angleReach depth ts) := by
  fun_induction Source.angleReach depth ts with
  | case1 => exact .zero _
  | case2 _ t rest hk ih => exact .one (by simp [hk]) (by simp [hk]) ih
  | case3 _ t rest hk => exact .step (by simp [hk]) (by simp [hk])
  | case4 _ t rest hk _ ih => exact .one (by simp [hk]) (by simp [hk]) ih
  | case5 _ t rest hk n ih => exact (item (by simp [hk])).append (by simpa [Nat.add_comm 1] using ih)
  | case6 _ t rest hk n ih => exact (item (by simp [hk])).append (by simpa [Nat.add_comm 1] using ih)
  | case7 => exact .zero _
  | case8 => exact .zero _
  | case9 => exact .zero _
  | case10 _ t rest _ _ _ _ hl hr _ ih => exact .one hl hr ih

theorem flatAngleReach (depth : Nat) (ts : List Token) : Moves ts (flatAngleReach depth ts) := by
  fun_induction Source.flatAngleReach depth ts with
  | case1 => exact .zero _
  | case2 _ t rest hk ih => exact .one (by simp [hk]) (by simp [hk]) ih
  | case3 _ t rest hk => exact .step (by simp [hk]) (by simp [hk])
  | case4 _ t rest hk _ ih => exact .one (by simp [hk]) (by simp [hk]) ih
  | case5 => exact .zero _
  | case6 => exact .zero _
  | case7 => exact .zero _
  | case8 _ t rest _ _ hl hr _ ih => exact .one hl hr ih

theorem typeArgumentsReach {ts : List Token} {depth n : Nat} (h : typeArgumentsReach depth ts = some n) :
    Moves ts n := by
  induction ts generalizing depth n with
  | nil => cases h
  | cons t rest ih =>
    unfold Source.typeArgumentsReach at h
    split at h
    · next hk =>
      obtain ⟨m, hm, rfl⟩ := Option.map_eq_some_iff.1 h
      exact .one (by simp [hk]) (by simp [hk]) (ih hm)
    · split at h
      · next hk =>
        split at h
        · cases h
          exact .step (by simp [hk]) (by simp [hk])
        · obtain ⟨m, hm, rfl⟩ := Option.map_eq_some_iff.1 h
          exact .one (by simp [hk]) (by simp [hk]) (ih hm)
      · split at h
        · next hp =>
          obtain ⟨m, hm, rfl⟩ := Option.map_eq_some_iff.1 h
          exact .one (fun hk => by simp [Token.isTypeArgumentPart, hk] at hp)
            (fun hk => by simp [Token.isTypeArgumentPart, hk] at hp) (ih hm)
        · cases h

theorem angleListReach (ts : List Token) : Moves ts (angleListReach ts) := by
  cases ts with
  | nil => exact .zero _
  | cons t rest =>
    simp only [Source.angleListReach]
    split
    · next hk => exact .one (by simp [hk]) (by simp [hk]) (.angleReach 1 rest)
    · exact .zero _

/-! ## Names and types -/

theorem dottedReach (ts : List Token) : Moves ts (dottedReach ts) := by
  fun_induction Source.dottedReach ts with
  | case1 => exact .zero _
  | case2 t hk => exact .step (by simp [hk]) (by simp [hk])
  | case3 => exact .zero _
  | case4 t u rest hk hu ih =>
    rw [show 2 + Source.dottedReach rest = 1 + (1 + Source.dottedReach rest) by omega]
    exact .one (by simp [hk]) (by simp [hk]) (.one (by simp [hu]) (by simp [hu]) ih)
  | case5 t u rest hk _ => exact .step (by simp [hk]) (by simp [hk])
  | case6 => exact .zero _

theorem pathReach (ts : List Token) : Moves ts (pathReach ts) := by
  fun_induction Source.pathReach ts with
  | case1 ts n a b rest hd hk ih =>
    simp only [Bool.and_eq_true, decide_eq_true_eq] at hk
    rw [Nat.add_assoc]
    refine (angleListReach ts).append (hd ▸ ?_)
    rw [show 2 + Source.pathReach rest = 1 + (1 + Source.pathReach rest) by omega]
    exact .one (by simp [hk.1]) (by simp [hk.1]) (.one (by simp [hk.2]) (by simp [hk.2]) ih)
  | case2 ts n a b rest hd _ hk ih =>
    simp only [Bool.and_eq_true, decide_eq_true_eq] at hk
    obtain ⟨⟨ha, hb⟩, hr⟩ := hk
    rw [Nat.add_assoc]
    refine (angleListReach ts).append (hd ▸ ?_)
    rw [show 3 + Source.pathReach rest.tail = 1 + (1 + (1 + Source.pathReach rest.tail)) by omega]
    refine .one (by simp [ha]) (by simp [ha]) (.one (by simp [hb]) (by simp [hb]) ?_)
    exact (of_atKind hr rfl).append (by simpa using ih)
  | case3 ts n => exact angleListReach ts
  | case4 ts n => exact angleListReach ts

theorem refReach (ts : List Token) : Moves ts (refReach ts) := by
  cases ts with
  | nil => exact .zero _
  | cons t rest =>
    simp only [Source.refReach]
    split
    · next hw =>
      have hone : Moves (t :: rest) 1 := of_atWord (w := "ref") (by simpa [atWord] using hw)
      split
      · next hr => exact hone.append (of_atWord hr)
      · exact hone
    · exact .zero _

theorem bareTypeReach (ts : List Token) : Moves ts (bareTypeReach ts) := by
  cases ts with
  | nil => exact .zero _
  | cons t rest =>
    simp only [Source.bareTypeReach]
    split
    · next hk => exact item (by simp [hk])
    · split
      · next hk => exact .one (by simp [hk]) (by simp [hk]) (pathReach rest)
      · exact .zero _

theorem typeSuffixReach (ts : List Token) : Moves ts (typeSuffixReach ts) := by
  refine .runReach (fun t rest n hn => ?_) ts
  split at hn
  · next h =>
    cases hn
    simp only [Token.isPunct, Bool.or_eq_true, Bool.and_eq_true, decide_eq_true_eq] at h
    rcases h with hk | ⟨hk, -⟩ <;> exact .step (by simp [hk]) (by simp [hk])
  · split at hn
    · next h =>
      cases hn
      simp only [Bool.and_eq_true, decide_eq_true_eq] at h
      exact item (by simp [h.1])
    · cases hn

theorem typeReach (ts : List Token) : Moves ts (typeReach ts) :=
  ((refReach ts).append (bareTypeReach _)).append (typeSuffixReach _)

theorem interfaceReach (ts : List Token) : Moves ts (interfaceReach ts) := by
  fun_induction Source.interfaceReach ts with
  | case1 => exact .zero _
  | case2 t rest hk n u us hd hu ih =>
    have hn : Moves rest n := by
      unfold n
      split
      · next h => exact (of_atKind h rfl).append (by simpa using flatAngleReach 1 rest.tail)
      · exact .zero _
    have hlast : Moves (rest.drop n) (1 + Source.interfaceReach (rest.drop (n + 1))) := by
      rw [hd]
      refine .one (by simp [hu]) (by simp [hu]) ?_
      have : us = rest.drop (n + 1) := by rw [← List.drop_drop, hd]; rfl
      rwa [this]
    rw [show 2 + n + Source.interfaceReach (rest.drop (n + 1)) =
      1 + (n + (1 + Source.interfaceReach (rest.drop (n + 1)))) by omega]
    exact .one (by simp [hk]) (by simp [hk]) (hn.append hlast)
  | case3 => exact .zero _
  | case4 => exact .zero _
  | case5 => exact .zero _

/-! ## Clauses and values -/

theorem clauseReach {stops : List TokenKind} (ts : List Token) : Moves ts (clauseReach stops ts) := by
  refine .runReach (fun t rest n hn => ?_) ts
  split at hn
  · cases hn
  · split at hn
    · next hk => cases hn; exact .one (by simp [hk]) (by simp [hk]) (.angleReach 1 rest)
    · split at hn
      · cases hn
      · next hc => cases hn; exact item fun hr => hc (by simp [Token.isClose, hr])

theorem baseListReach {ts : List Token} (h : atKind .colon ts = true) : Moves ts (baseListReach ts) :=
  (of_atKind h rfl).append (by simpa using clauseReach ts.tail)

theorem constraintReach {ts : List Token} (h : atWord "where" ts = true) : Moves ts (constraintReach ts) :=
  (of_atWord h).append (by simpa using clauseReach ts.tail)

theorem defaultReach (ts : List Token) : Moves ts (defaultReach ts) := by
  refine .runReach (fun t rest n hn => ?_) ts
  split at hn
  · cases hn
  · next hs =>
    split at hn
    · next hk =>
      cases hn
      refine .one (by simp [hk]) (by simp [hk]) ?_
      cases ha : Source.typeArgumentsReach 1 rest with
      | none => exact .zero _
      | some m => exact typeArgumentsReach ha
    · cases hn
      exact item fun hr => hs (by simp [Token.isClose, hr])

theorem initializerReach {ts : List Token} (h : atKind .colon ts = true) :
    Moves ts (initializerReach ts) := by
  unfold Source.initializerReach
  have hn : Moves ts (if atWord "base" ts.tail || atWord "this" ts.tail then 2 else 1) := by
    split
    · next hw =>
      refine (of_atKind h rfl).append (n := 1) ?_
      simp only [Bool.or_eq_true] at hw
      rw [List.drop_one]
      exact hw.elim of_atWord of_atWord
    · exact of_atKind h rfl
  generalize (if atWord "base" ts.tail || atWord "this" ts.tail then 2 else 1) = n at hn ⊢
  simp only
  split
  · next hp => exact hn.append (.groupReach hp nofun)
  · exact hn

/-- A body that is one expression. -/
theorem arrowReach {ts : List Token} (h : atKind .fatArrow ts = true) (stop : Token → Bool) :
    Moves ts (1 + Source.untilReach stop ts.tail) :=
  (of_atKind h rfl).append (by simpa using untilReach stop ts.tail)

end Moves

end DocPages.Source
