/-
Equations of the functions that recurse on the number of tokens left, each for
one way that reading can go on.
-/
import DocPages.Source.Tree

namespace DocPages.Source

/-! ## Paths -/

section

variable {ts rest : List Token} {a b t u : Token}

/-- A path goes on after a dot. -/
theorem pathReach_dot (hd : ts.drop (angleListReach ts) = a :: b :: rest) (ha : a.kind = .dot)
    (hb : b.kind = .ident) : pathReach ts = angleListReach ts + 2 + pathReach rest := by
  rw [pathReach]
  split
  · next h =>
    rw [hd, List.cons.injEq, List.cons.injEq] at h
    obtain ⟨rfl, rfl, rfl⟩ := h
    exact if_pos (by simp [ha, hb])
  · next h => exact absurd hd (h a b rest)

/-- A path goes on after two colons. -/
theorem pathReach_colons (hd : ts.drop (angleListReach ts) = a :: b :: rest) (ha : a.kind = .colon)
    (hb : b.kind = .colon) (hr : atKind .ident rest = true) :
    pathReach ts = angleListReach ts + 3 + pathReach rest.tail := by
  rw [pathReach]
  split
  · next h' =>
    rw [hd, List.cons.injEq, List.cons.injEq] at h'
    obtain ⟨rfl, rfl, rfl⟩ := h'
    exact (if_neg (by simp [ha])).trans (if_pos (by simp [ha, hb, hr]))
  · next h' => exact absurd hd (h' a b rest)

/-- A path ends after the type arguments of a part unless one of these follows. -/
theorem pathReach_end (h : ∀ a b rest, ts.drop (angleListReach ts) = a :: b :: rest →
    ¬ (a.kind = .dot && b.kind = .ident) = true ∧
      ¬ (a.kind = .colon && b.kind = .colon && atKind .ident rest) = true) :
    pathReach ts = angleListReach ts := by
  rw [pathReach]
  split
  · next a b rest hd => exact (if_neg (h a b rest hd).1).trans (if_neg (h a b rest hd).2)
  · rfl

/-- The angle-bracketed list that a part of an interface's name ends with, if there is one. -/
def flatListReach (ts : List Token) : Nat :=
  if atKind .lt ts then 1 + flatAngleReach 1 ts.tail else 0

theorem interfaceReach_dot (ht : t.kind = .ident) (hd : rest.drop (flatListReach rest) = u :: ts)
    (hu : u.kind = .dot) : interfaceReach (t :: rest) = 2 + flatListReach rest + interfaceReach ts := by
  have hts : ts = rest.drop (flatListReach rest + 1) := by rw [← List.drop_drop, hd]; rfl
  rw [interfaceReach, if_pos ht, hts]
  unfold flatListReach at hd ⊢
  simp only [hd, hu, if_true]

theorem interfaceReach_end (h : atKind .dot (rest.drop (flatListReach rest)) = false) :
    interfaceReach (t :: rest) = 0 := by
  rw [interfaceReach]
  unfold flatListReach at h
  simp only
  split
  · split
    · next hd =>
      rw [hd] at h
      exact if_neg (by simpa [atKind] using h)
    · rfl
  · rfl

end

/-! ## Repetition -/

namespace Step

variable {next? : List Token → Option Step} {c : Cursor} {s : Step}

theorem eachFrom_nil (h : c.rest = []) : eachFrom next? c = (.none, c) := by
  rw [eachFrom, dif_pos h]

theorem eachFrom_none (h : next? c.rest = none) : eachFrom next? c = (.none, c) := by
  rw [eachFrom]
  split
  · rfl
  · simp only [h]

theorem eachFrom_some (hr : c.rest ≠ []) (h : next? c.rest = some s) :
    eachFrom next? c = ((s.run c).1 ++ (eachFrom next? (c.past (s.run c).2)).1,
      (eachFrom next? (c.past (s.run c).2)).2) := by
  rw [eachFrom, dif_neg hr]
  split
  · next hn =>
    rw [h] at hn
    cases hn
  · next s' hn =>
    rw [h] at hn
    cases hn
    rfl

end Step

/-! ## Members -/

section

variable {owner? : Option String} {braced : Bool} {c d : Cursor} {t : Token} {rest : List Token}
  {h : Header}
  {s : Scope}

theorem members_nil (hr : c.rest = []) : members owner? braced c = ([], c) := by
  rw [members]
  split
  · rfl
  · next hc =>
    rw [hr] at hc
    cases hc

/-- The members from a cursor on, by what is next. -/
theorem members_cons (hr : c.rest = t :: rest) : members owner? braced c =
    match itemAt owner? braced c t with
    | .close => ([], c)
    | .skipped d => members owner? braced (c.past d)
    | .member h =>
      match h.scope? with
      | none => (h.parts.node h.kind c.pos h.next.pos :: (members owner? braced (c.past h.next)).1,
          (members owner? braced (c.past h.next)).2)
      | some s =>
        let inner := members s.owner? s.isBraced h.next
        let closed := s.close.run inner.2
        ((h.parts ++ ⟨[], none, inner.1⟩ ++ closed.1).node h.kind c.pos closed.2.pos ::
          (members owner? braced (c.past closed.2)).1, (members owner? braced (c.past closed.2)).2) := by
  rw [members]
  split
  · next hc =>
    rw [hr] at hc
    cases hc
  · next t' rest' hc =>
    obtain ⟨rfl, rfl⟩ := List.cons.inj (hr.symm.trans hc)
    split
    · next hi => rw [hi]
    · next d hi => rw [hi]
    · next h hi =>
      simp only
      split
      · next hs => simp only [hi, hs]
      · next s hs => simp only [hi, hs]

end

end DocPages.Source
