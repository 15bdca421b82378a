/-
The first tokens of declarations. A declaration has one, and begins before
every member of its own scope (`StartsAhead`), while what else is in it is part
of its header; so no two declarations begin at the same token
(`eq_of_start_eq`).
-/
import DocPages.Proofs.HeaderEnds
import DocPages.Proofs.MemberHeaders

namespace DocPages.Source

/-! ## Where declarations begin -/

/-- The header of a declaration takes in a token. -/
theorem MemberCase.pos_lt {c : Cursor} {h : Header} (hc : MemberCase c h) (hk : h.kind.isDeclared = true) :
    c.pos < h.next.pos := by
  have hfront := (memberFront.forward c).pos_le
  cases hc with
  | @type kind _ hw =>
    have hpos := pos_advance_of_atKind hw
    have hnext : ((memberFront.run c).2.advance 1).Reaches
        ((Ending.after memberFront (typeHeader kind)).run c).next :=
      ((recordWord kind).forward _).trans (Ending.forward _ _)
    have := hnext.pos_le
    omega
  | constructor hn _ =>
    have hpos := pos_advance_of_atKind hn
    have hnext : ((memberFront.run c).2.advance 1).Reaches
        ((Ending.plain .constructor constructorParts).run c).next :=
      ((parameterList.forward _).trans (Step.forward _ _)).trans (body.forward _)
    have := hnext.pos_le
    omega
  | method hn _ _ =>
    have hpos := pos_advance_of_atKind hn
    have hmethod : (memberFront.run c).2.Reaches (methodFront.run c).2 :=
      (typeReference.forward _).trans (explicitInterface.forward _)
    have hnext : ((methodFront.run c).2.advance 1).Reaches
        ((Ending.plain .method methodParts).run c).next :=
      Step.forward _ _
    have := hmethod.pos_le
    have := hnext.pos_le
    omega
  | other hn =>
    rw [hn] at hk
    cases hk

/-- The node has a token, and what is directly below it is a part of its header or begins after its first
token. -/
structure StartsAhead (n : Node) : Prop where
  nonempty : n.start < n.stop
  below : ∀ m ∈ n.children, m.All (·.kind.isPart = true) ∨ n.start < m.start

theorem startsAhead_of_isMember {ts : List Token} {n : Node} (hm : IsMember ts n)
    (hk : n.kind.isDeclared = true) : StartsAhead n := by
  cases hm with
  | @intro owner? c h inner stop on read le plain inside =>
    have hlt : c.pos < h.next.pos := (read ▸ memberCase owner? c : MemberCase c h).pos_lt hk
    refine ⟨Nat.lt_of_lt_of_le hlt le, fun m hm => ?_⟩
    rcases List.mem_append.1 hm with hm | hm
    · exact .inl (memberHeader_parts owner? c m (read ▸ hm))
    · exact .inr (Nat.lt_of_lt_of_le hlt (inside m hm))

/-! ## Declarations of a unit -/

section

variable {ts : List Token} {p q : Place}

/-- Declarations below a declaration begin later. -/
theorem start_lt_of_mem_below (hp : p ∈ (Tree.ofTokens ts).places) (hpk : p.node.kind.isDeclared = true)
    (hqk : q.node.kind.isDeclared = true) (hq : q ∈ p.below) : p.node.start < q.node.start := by
  obtain ⟨front, m, back, hc, hq⟩ := mem_placesOfAll.1 hq
  have hm : m ∈ p.node.children := by simp [hc]
  have hahead := startsAhead_of_isMember (Tree.isMember_of_isDeclared hp hpk) hpk
  rcases hahead.below m hm with hpart | hlt
  · have hqpart := (hpart.placesFrom hq).here
    rw [isPart_of_isDeclared hqk] at hqpart
    cases hqpart
  · have hframed := ((Tree.ofTokens_framed ts).placesFrom hp).child hm
    exact Nat.lt_of_lt_of_le hlt (range_of_mem_placesFrom hframed hq).1

/-- A declaration has a first token. -/
theorem start_lt_stop (hp : p ∈ (Tree.ofTokens ts).places) (hk : p.node.kind.isDeclared = true) :
    p.node.start < p.node.stop :=
  (startsAhead_of_isMember (Tree.isMember_of_isDeclared hp hk) hk).nonempty

/-- **No two declarations of a unit begin at the same token.** -/
theorem eq_of_start_eq (hp : p ∈ (Tree.ofTokens ts).places) (hq : q ∈ (Tree.ofTokens ts).places)
    (hpk : p.node.kind.isDeclared = true) (hqk : q.node.kind.isDeclared = true)
    (h : p.node.start = q.node.start) : p = q := by
  have hpn := start_lt_stop hp hpk
  have hqn := start_lt_stop hq hqk
  rcases laminar_places (Tree.ofTokens_framed ts) hp hq with hb | hb | hb | hb
  · rcases List.mem_cons.1 hb with rfl | hb
    · rfl
    · have := start_lt_of_mem_below hp hpk hqk hb
      omega
  · rcases List.mem_cons.1 hb with rfl | hb
    · rfl
    · have := start_lt_of_mem_below hq hqk hpk hb
      omega
  · omega
  · omega

end

end DocPages.Source
