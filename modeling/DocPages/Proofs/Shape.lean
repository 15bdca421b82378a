/-
The shape of the tree of a source unit, whatever the source: its places are
numbered in order, each but the first below one that comes before it; children
lie within their parent and after one another; and the words that a node holds,
its name and its modifiers, lie in it and in none of its children.

The nodes that reading makes are framed (`Framed`) because the parts between
two cursors are (`Parts.Between`), which is a `Traversal`.
-/
import DocPages.Proofs.Places
import DocPages.Proofs.Reading

namespace DocPages.Source

/-! ## Frames -/

/-- The index of an identifier between `a` and `b` that is in none of the nodes. -/
structure OwnWord (ts : List Token) (a b : Nat) (nodes : List Node) (i : Nat) : Prop where
  isIdent : ∃ t, ts[i]? = some t ∧ t.kind = .ident
  inside : a ≤ i ∧ i < b
  outside : ∀ n ∈ nodes, i < n.start ∨ n.stop ≤ i

/-- The parts lie between the indices `a` and `b`, the nodes among them one after the other. -/
structure Parts.Between (ts : List Token) (a b : Nat) (p : Parts) : Prop where
  inside : ∀ n ∈ p.children, a ≤ n.start ∧ n.start ≤ n.stop ∧ n.stop ≤ b
  apart : p.children.Pairwise fun m n => m.stop ≤ n.start
  name : ∀ i, p.name? = some i → OwnWord ts a b p.children i
  modifiers : ∀ i ∈ p.modifiers, OwnWord ts a b p.children i
  increasing : p.modifiers.Pairwise (· < ·)

/-- What a node is made of lies in the range that it covers. -/
structure Framed (ts : List Token) (n : Node) : Prop where
  ordered : n.start ≤ n.stop
  inside : n.stop ≤ ts.length
  parts : Parts.Between ts n.start n.stop ⟨n.modifiers, n.name?, n.children⟩

section

variable {ts : List Token} {a b c i : Nat} {p q : Parts} {ms ns : List Node}

theorem OwnWord.left (h : OwnWord ts a b ms i) (hbc : b ≤ c) (hn : ∀ n ∈ ns, b ≤ n.start) :
    OwnWord ts a c (ms ++ ns) i where
  isIdent := h.isIdent
  inside := ⟨h.inside.1, Nat.lt_of_lt_of_le h.inside.2 hbc⟩
  outside n hm := by
    rcases List.mem_append.1 hm with hm | hm
    · exact h.outside n hm
    · exact .inl (Nat.lt_of_lt_of_le h.inside.2 (hn n hm))

theorem OwnWord.right (h : OwnWord ts b c ns i) (hab : a ≤ b) (hm : ∀ n ∈ ms, n.stop ≤ b) :
    OwnWord ts a c (ms ++ ns) i where
  isIdent := h.isIdent
  inside := ⟨Nat.le_trans hab h.inside.1, h.inside.2⟩
  outside n hn := by
    rcases List.mem_append.1 hn with hn | hn
    · exact .inr (Nat.le_trans (hm n hn) h.inside.1)
    · exact h.outside n hn

namespace Parts.Between

theorem none : Parts.none.Between ts a b where
  inside := by simp [Parts.none]
  apart := .nil
  name := by simp [Parts.none]
  modifiers := by simp [Parts.none]
  increasing := .nil

theorem append (hp : p.Between ts a b) (hq : q.Between ts b c) (hab : a ≤ b) (hbc : b ≤ c) :
    (p ++ q).Between ts a c where
  inside n hn := by
    rcases List.mem_append.1 hn with hn | hn
    · have := hp.inside n hn
      omega
    · have := hq.inside n hn
      omega
  apart := by
    refine List.pairwise_append.2 ⟨hp.apart, hq.apart, fun m hm n hn => ?_⟩
    exact Nat.le_trans (hp.inside m hm).2.2 (hq.inside n hn).1
  name i hi := by
    rcases Option.or_eq_some_iff.1 (show p.name?.or q.name? = some i from hi) with h | ⟨-, h⟩
    · exact (hp.name i h).left hbc fun n hn => (hq.inside n hn).1
    · exact (hq.name i h).right hab fun n hn => (hp.inside n hn).2.2
  modifiers i hi := by
    rcases List.mem_append.1 hi with h | h
    · exact (hp.modifiers i h).left hbc fun n hn => (hq.inside n hn).1
    · exact (hq.modifiers i h).right hab fun n hn => (hp.inside n hn).2.2
  increasing := by
    refine List.pairwise_append.2 ⟨hp.increasing, hq.increasing, fun i hi j hj => ?_⟩
    exact Nat.lt_of_lt_of_le (hp.modifiers i hi).inside.2 (hq.modifiers j hj).inside.1

theorem node (h : a ≤ b) (n : Node) (hs : n.start = a) (ht : n.stop = b) :
    Parts.Between ts a b ⟨[], .none, [n]⟩ where
  inside m hm := by
    cases List.mem_singleton.1 hm
    omega
  apart := List.pairwise_singleton _ _
  name := by simp
  modifiers := by simp
  increasing := .nil

end Parts.Between

end

/-! ## Reading makes framed nodes -/

section

variable {ts : List Token} {c d : Cursor}

/-- The parts lie between the cursors, and all their nodes are framed. -/
def FramedBetween (ts : List Token) (c : Cursor) (p : Parts) (d : Cursor) : Prop :=
  c.On ts → d.On ts ∧ c.pos ≤ d.pos ∧ p.Between ts c.pos d.pos ∧ ∀ n ∈ p.children, n.All (Framed ts)

theorem FramedBetween.node {p : Parts} (h : FramedBetween ts c p d) (kind : NodeKind) :
    FramedBetween ts c ⟨[], none, [p.node kind c.pos d.pos]⟩ d := fun hc => by
  obtain ⟨hd, hle, hb, hall⟩ := h hc
  refine ⟨hd, hle, .node hle _ rfl rfl, fun n hn => ?_⟩
  cases List.mem_singleton.1 hn
  exact .intro ⟨hle, hd.2, hb⟩ hall

theorem FramedBetween.reaches (h : c.Reaches d) : FramedBetween ts c .none d :=
  fun hc => ⟨hc.reaches h, h.pos_le, .none, by simp [Parts.none]⟩

theorem FramedBetween.append {e : Cursor} {p q : Parts} (h : FramedBetween ts c p d)
    (h' : FramedBetween ts d q e) : FramedBetween ts c (p ++ q) e := fun hc => by
  obtain ⟨hd, hcd, hp, hpn⟩ := h hc
  obtain ⟨he, hde, hq, hqn⟩ := h' hd
  refine ⟨he, Nat.le_trans hcd hde, hp.append hq hcd hde, fun n hn => ?_⟩
  exact (List.mem_append.1 hn).elim (hpn n) (hqn n)

theorem own_word_here (hc : c.On ts) (h : atKind .ident c.rest = true) :
    (c.advance 1).On ts ∧ c.pos ≤ (c.advance 1).pos ∧ OwnWord ts c.pos (c.advance 1).pos [] c.pos := by
  obtain ⟨t, rest, hr, hk⟩ := eq_cons_of_atKind h
  have hp := Cursor.pos_advance_one hr
  exact ⟨hc.advance 1, by omega, ⟨⟨t, hc.getElem hr, hk⟩, by omega, by simp⟩⟩

/-- Framed nodes are what every header is made of. -/
def frames (ts : List Token) : Traversal where
  holds := FramedBetween ts
  idle c := .reaches (.refl c)
  append h h' := h.append h'
  moves _ := .reaches (.advance _ _)
  enclose _ h := h.node _
  name h hc := by
    obtain ⟨hd, hle, hw⟩ := own_word_here hc h
    exact ⟨hd, hle, ⟨by simp, .nil, fun i hi => by cases hi; exact hw, by simp, .nil⟩, by simp⟩
  modifier h hc := by
    obtain ⟨hd, hle, hw⟩ := own_word_here hc h
    exact ⟨hd, hle, ⟨by simp, .nil, by simp, fun i hi => by cases List.mem_singleton.1 hi; exact hw,
      List.pairwise_singleton _ _⟩, by simp⟩

/-- The header of a member is made of framed parts, whether it opens a scope or not. -/
theorem memberHeader_framed (owner? : Option String) (c : Cursor) :
    FramedBetween ts c ((memberHeader owner?).run c).parts ((memberHeader owner?).run c).next := by
  have h := (frames ts).memberHeader owner? c
  unfold Ending.KeepsAt at h
  split at h
  · exact h
  · obtain ⟨d, hd, -, he⟩ := h
    rw [he, ← ((memberHeader owner?).run c).parts.append_none]
    exact FramedBetween.append hd (.reaches (.advance d 1))

/-- A node around what was read, and one token more if nothing was. -/
theorem FramedBetween.member {p : Parts} (h : FramedBetween ts c p d) (kind : NodeKind) :
    FramedBetween ts c ⟨[], none, [p.node kind c.pos d.pos]⟩ (c.past d) := fun hc => by
  by_cases hl : d.rest.length < c.rest.length
  · rw [Cursor.past_of_shorter hl]
    exact h.node kind hc
  · obtain ⟨hd, hle, _, _⟩ := h hc
    obtain rfl := (hc.reaches_of_le hd hle).eq_of_not_shorter hl
    rw [Cursor.past, if_neg hl, ← Parts.append_none ⟨[], none, _⟩]
    exact (h.node kind).append (.reaches (.advance d 1)) hc

/-- **All nodes of a scope are framed.** -/
theorem ReadsScope.framed {owner? : Option String} {braced : Bool} {ns : List Node}
    (h : ReadsScope owner? braced c ns d) : FramedBetween ts c ⟨[], none, ns⟩ d := by
  have hheader {owner? : Option String} {braced : Bool} {c : Cursor} {t : Token} {h : Header}
      (hi : itemAt owner? braced c t = .member h) : FramedBetween ts c h.parts h.next :=
    itemAt_member hi ▸ memberHeader_framed owner? c
  induction h with
  | done => exact .reaches (.refl _)
  | skipped _ item _ ih => exact (FramedBetween.reaches (Cursor.reaches_past (itemAt_skipped item))).append ih
  | plain _ item _ _ ih => exact ((hheader item).member _).append ih
  | @scope _ _ c d _ _ _ inner _ h s _ item _ _ _ ih₁ ih₂ =>
    have hclosed : FramedBetween ts c (h.parts ++ ⟨[], none, inner⟩ ++ .none) (s.close.run d).2 :=
      ((hheader item).append ih₁).append (.reaches (s.close.forward d))
    rw [Parts.append_none] at hclosed
    exact (hclosed.member h.kind).append ih₂

theorem members_framed (owner? : Option String) (braced : Bool) (c : Cursor) :
    FramedBetween ts c ⟨[], none, (members owner? braced c).1⟩ (members owner? braced c).2 :=
  (members_readsScope owner? braced c).framed

/-- What holds of a member if it holds of the nodes of its own scope holds of all nodes of a scope. A member is
what `memberHeader` read at a cursor, up to some index `stop`, with the nodes `inner` of its own scope if it has
one. -/
theorem ReadsScope.forall_nodes {P : Option String → Node → Prop} {owner? : Option String} {braced : Bool}
    {ns : List Node} (h : ReadsScope owner? braced c ns d) (hc : c.On ts)
    (hmember : ∀ (owner? : Option String) (c : Cursor) (h : Header) (inner : List Node) (stop : Nat), c.On ts →
      (memberHeader owner?).run c = h → h.next.pos ≤ stop →
      (h.scope? = none → inner = [] ∧ stop = h.next.pos) → (∀ m ∈ inner, h.next.pos ≤ m.start) →
      (∀ m ∈ inner, P (h.scope?.bind Scope.owner?) m) →
      P owner? ((h.parts ++ ⟨[], none, inner⟩).node h.kind c.pos stop)) :
    ∀ n ∈ ns, P owner? n := by
  induction h with
  | done => simp
  | skipped _ item _ ih => exact ih (hc.reaches (Cursor.reaches_past (itemAt_skipped item)))
  | @plain owner? braced c _ _ _ _ h _ item scopeless _ ih =>
    have hreaches := itemAt_member_reaches item
    have hnode := hmember owner? c h [] h.next.pos hc (itemAt_member item).symm (Nat.le_refl _)
      (fun _ => ⟨rfl, rfl⟩) (by simp) (by simp)
    rw [show Parts.mk [] none [] = Parts.none from rfl, Parts.append_none] at hnode
    exact List.forall_mem_cons.2 ⟨hnode, ih (hc.reaches (Cursor.reaches_past hreaches))⟩
  | @scope owner? braced c d _ _ _ inner _ h s _ item opens inside _ ih₁ ih₂ =>
    have hreaches := itemAt_member_reaches item
    have hon := hc.reaches hreaches
    have hclose := inside.reaches.trans (s.close.forward d)
    obtain ⟨-, -, hbetween, -⟩ := inside.framed hon
    refine List.forall_mem_cons.2 ⟨?_, ih₂ (hc.reaches (Cursor.reaches_past (hreaches.trans hclose)))⟩
    refine hmember owner? c h inner _ hc (itemAt_member item).symm hclose.pos_le (fun hnone => ?_)
      (fun m hm => (hbetween.inside m hm).1) ?_
    · rw [opens] at hnone
      cases hnone
    · rw [opens]
      exact ih₁ hon

end

/-! ## Trees -/

/-- The places of a tree are a well-formed ordered tree: `numbers` and `root` tell where it begins, `parent`
that each other place belongs to exactly one list of children, the rest how ranges and words lie. -/
structure Tree.WellFormed (tree : Tree) : Prop where
  numbers : tree.places.map (·.number) = List.range tree.places.length
  root : ∃ p, tree.places[0]? = some p ∧ p.node.kind = .compilationUnit ∧ p.parent? = none ∧
    p.node.start = 0 ∧ p.node.stop = tree.tokens.length
  parent : ∀ q ∈ tree.places, q.number ≠ 0 → ∃ p ∈ tree.places, q.parent? = some (p.number, p.node) ∧
    p.number < q.number ∧ (p.children.map (·.number)).count q.number = 1 ∧
    ∀ r ∈ tree.places, q.number ∈ r.children.map (·.number) → r = p
  children : ∀ p ∈ tree.places, p.children.map (·.node) = p.node.children ∧
    (∀ q ∈ p.children, q ∈ tree.places) ∧ (p.children.map (·.number)).Pairwise (· < ·)
  ranges : ∀ p ∈ tree.places, p.node.start ≤ p.node.stop ∧
    ∀ q ∈ p.children, p.node.start ≤ q.node.start ∧ q.node.stop ≤ p.node.stop
  siblings : ∀ p ∈ tree.places, p.children.Pairwise fun q r => q.node.stop ≤ r.node.start
  words : ∀ p ∈ tree.places, ∀ i, p.node.name? = some i ∨ i ∈ p.node.modifiers →
    OwnWord tree.tokens p.node.start p.node.stop p.node.children i
  modifiers : ∀ p ∈ tree.places, p.node.modifiers.Pairwise (· < ·)

theorem Tree.ofTokens_framed (ts : List Token) : (Tree.ofTokens ts).root.All (Framed ts) :=
  ((members_framed none false ⟨0, ts⟩).node .compilationUnit (.start ts)).2.2.2 _
    (List.mem_singleton_self _)

section

variable {root : Node} {p q : Place}

theorem mem_places_of_mem_children (hp : p ∈ root.places) (hq : q ∈ p.children) : q ∈ root.places :=
  below_subset hp (Place.mem_children_iff.1 hq).1

/-- A place with a number in a list of children has the parent that the list belongs to. -/
theorem mem_children_of_number_mem (hp : p ∈ root.places) (hq : q ∈ root.places)
    (h : q.number ∈ p.children.map (·.number)) : q ∈ p.children := by
  obtain ⟨r, hr, hn⟩ := List.mem_map.1 h
  rwa [← eq_of_number_eq (mem_places_of_mem_children hp hr) hq hn]

theorem exists_parent (hq : q ∈ root.places) (h : q.number ≠ 0) :
    ∃ p ∈ root.places, q.parent? = some (p.number, p.node) ∧ q ∈ p.below := by
  cases hp : q.parent? with
  | none => exact absurd ((above_eq_nil_iff hq).1 (List.head?_eq_none_iff.1 hp)) h
  | some m =>
    obtain ⟨i, m⟩ := m
    obtain ⟨p, hp', rfl, rfl, -, hb⟩ := place_of_parent hq hp
    exact ⟨p, hp', rfl, hb⟩

/-! ### Ranges -/

section

variable {ts : List Token} {n : Node} {above : List (Nat × Node)} {k : Nat}

/-- What is among the places of a node lies in its range. -/
theorem range_of_mem_placesFrom (hn : n.All (Framed ts)) (hp : p ∈ n.placesFrom above k) :
    n.start ≤ p.node.start ∧ p.node.stop ≤ n.stop := by
  induction hn generalizing above k with
  | @intro n here below ih =>
    rw [n.placesFrom_eq] at hp
    rcases List.mem_cons.1 hp with rfl | hp
    · exact ⟨Nat.le_refl _, Nat.le_refl _⟩
    · obtain ⟨front, m, back, hc, hp⟩ := mem_placesOfAll.1 hp
      have hm : m ∈ n.children := by simp [hc]
      have := ih m hm hp
      have := here.parts.inside m hm
      omega

theorem child_of_mem_below {root : Node} (hall : root.All (Framed ts)) (hp : p ∈ root.places)
    (hq : q ∈ p.below) :
    ∃ child ∈ p.node.children, child.start ≤ q.node.start ∧ q.node.stop ≤ child.stop := by
  obtain ⟨front, m, back, hc, hq⟩ := mem_placesOfAll.1 hq
  have hm : m ∈ p.node.children := by simp [hc]
  exact ⟨m, hm, range_of_mem_placesFrom ((hall.placesFrom hp).child hm) hq⟩

theorem range_of_mem_below {root : Node} (hall : root.All (Framed ts)) (hp : p ∈ root.places)
    (hq : q ∈ p :: p.below) : p.node.start ≤ q.node.start ∧ q.node.stop ≤ p.node.stop := by
  rcases List.mem_cons.1 hq with rfl | hq
  · exact ⟨Nat.le_refl _, Nat.le_refl _⟩
  · obtain ⟨child, hc, hin⟩ := child_of_mem_below hall hp hq
    have := (hall.placesFrom hp).here.parts.inside child hc
    omega

/-- Of two places one is the other or below it, or their ranges are apart. -/
theorem laminar_placesFrom (hn : n.All (Framed ts)) (hp : p ∈ n.placesFrom above k)
    (hq : q ∈ n.placesFrom above k) :
    q ∈ p :: p.below ∨ p ∈ q :: q.below ∨ p.node.stop ≤ q.node.start ∨ q.node.stop ≤ p.node.start := by
  induction hn generalizing above k with
  | @intro n here below ih =>
    rw [n.placesFrom_eq] at hp hq
    rcases List.mem_cons.1 hp with rfl | hp
    · exact .inl hq
    rcases List.mem_cons.1 hq with rfl | hq
    · exact .inr (.inl (List.mem_cons_of_mem _ hp))
    have hapart := here.parts.apart
    simp only at hapart
    generalize n.children = ns at below ih hp hq hapart
    generalize (k, n) :: above = above' at hp hq
    generalize k + 1 = k' at hp hq
    induction ns generalizing k' with
    | nil => cases hp
    | cons m ns ihn =>
      obtain ⟨hm, hns⟩ := List.pairwise_cons.1 hapart
      have hlater : ∀ {r : Place} {k : Nat}, r ∈ placesOfAll above' k ns → m.stop ≤ r.node.start := by
        intro r k hr
        obtain ⟨front, x, back, hc, hr⟩ := mem_placesOfAll.1 hr
        have hx : x ∈ ns := by simp [hc]
        exact Nat.le_trans (hm x hx) (range_of_mem_placesFrom (below x (List.mem_cons_of_mem _ hx)) hr).1
      have hfirst : ∀ {r : Place}, r ∈ m.placesFrom above' k' → r.node.stop ≤ m.stop := fun hr =>
        (range_of_mem_placesFrom (below m List.mem_cons_self) hr).2
      rw [placesOfAll, List.mem_append] at hp hq
      rcases hp with hp | hp <;> rcases hq with hq | hq
      · exact ih m List.mem_cons_self hp hq
      · exact .inr (.inr (.inl (Nat.le_trans (hfirst hp) (hlater hq))))
      · exact .inr (.inr (.inr (Nat.le_trans (hfirst hq) (hlater hp))))
      · exact ihn (fun x hx => below x (List.mem_cons_of_mem _ hx))
          (fun x hx => ih x (List.mem_cons_of_mem _ hx))
          hns _ hp hq

theorem laminar_places {root : Node} (hall : root.All (Framed ts)) (hp : p ∈ root.places)
    (hq : q ∈ root.places) :
    q ∈ p :: p.below ∨ p ∈ q :: q.below ∨ p.node.stop ≤ q.node.start ∨ q.node.stop ≤ p.node.start :=
  laminar_placesFrom hall hp hq

end

end

theorem Tree.ofTokens_wellFormed (ts : List Token) : (Tree.ofTokens ts).WellFormed := by
  have hframed : ∀ p ∈ (Tree.ofTokens ts).places, Framed ts p.node := fun p hp =>
    ((Tree.ofTokens_framed ts).placesFrom hp).here
  have hnodes : ∀ p : Place, ∀ q ∈ p.children, q.node ∈ p.node.children := fun p q hq =>
    p.nodes_children ▸ List.mem_map_of_mem hq
  exact {
    numbers := by
      have hlen := congrArg List.length (numbers_places (Tree.ofTokens ts).root)
      rw [List.length_map, List.length_range] at hlen
      rw [Tree.places, numbers_places, hlen]
    root := by
      refine ⟨⟨0, (Tree.ofTokens ts).root, []⟩, ?_, rfl, rfl, rfl, ?_⟩
      · rw [Tree.places, Node.places, Node.placesFrom_eq]; rfl
      · have hon := (members_framed none false ⟨0, ts⟩ (.start ts)).1.length
        rw [members_unbraced] at hon
        exact hon
    parent := fun q hq hne => by
      obtain ⟨p, hp, hparent, hb⟩ := exists_parent hq hne
      have hmem : q ∈ p.children := Place.mem_children_iff.2 ⟨hb, by rw [hparent]; rfl⟩
      refine ⟨p, hp, hparent, number_lt_of_mem_below hb, ?_, fun r hr hqr => ?_⟩
      · exact List.count_eq_one_of_mem (p.increasing_children.imp Nat.ne_of_lt) (List.mem_map_of_mem hmem)
      · have hchild := (Place.mem_children_iff.1 (mem_children_of_number_mem hr hq hqr)).2
        rw [hparent] at hchild
        exact eq_of_number_eq hr hp (Option.some.inj hchild).symm
    children := fun p hp =>
      ⟨p.nodes_children, fun q hq => mem_places_of_mem_children hp hq, p.increasing_children⟩
    ranges := fun p hp => ⟨(hframed p hp).ordered, fun q hq => by
      have := (hframed p hp).parts.inside q.node (hnodes p q hq)
      exact ⟨this.1, this.2.2⟩⟩
    siblings := fun p hp => by
      have := (hframed p hp).parts.apart
      rw [← p.nodes_children] at this
      exact List.pairwise_map.1 this
    words := fun p hp i hi => hi.elim ((hframed p hp).parts.name i) ((hframed p hp).parts.modifiers i)
    modifiers := fun p hp => (hframed p hp).parts.increasing }

end DocPages.Source
