/-
Places, from the outside: a tree's places carry the numbers 0, 1, 2, ... in
their order (`numbers_places`); what stands below a place is what has it among
the nodes above (`mem_below_iff`); and the children of a place are the children
of its node, each with the number at which its own part of the list begins
(`Place.children_eq`).
-/
import Mathlib.Data.List.Nodup
import Mathlib.Data.List.Infix
import DocPages.Source.Node

namespace DocPages.Source

/-! ## Nodes -/

/-- Induction from the children of a node to the node. -/
@[elab_as_elim]
theorem Node.ofChildren {P : Node → Prop} (h : ∀ n : Node, (∀ m ∈ n.children, P m) → P n) (n : Node) :
    P n :=
  Node.rec (motive_1 := P) (motive_2 := fun ns => ∀ m ∈ ns, P m)
    (fun kind start stop name? modifiers children ih =>
      h ⟨kind, start, stop, name?, modifiers, children⟩ ih)
    (fun _ hm => absurd hm List.not_mem_nil)
    (fun _ _ hn hns m hm => (List.mem_cons.1 hm).elim (fun e => e ▸ hn) (hns m)) n

/-- The property holds for a node and for every node below it. -/
inductive Node.All (P : Node → Prop) : Node → Prop where
  | intro {n : Node} (here : P n) (below : ∀ m ∈ n.children, Node.All P m) : Node.All P n

namespace Node

theorem All.here {P : Node → Prop} {n : Node} (h : n.All P) : P n := by
  cases h with | intro here _ => exact here

theorem All.child {P : Node → Prop} {n m : Node} (h : n.All P) (hm : m ∈ n.children) : m.All P := by
  cases h with | intro _ below => exact below m hm

theorem size_eq (n : Node) : n.size = 1 + sizeOfAll n.children := by
  cases n; rfl

theorem placesFrom_eq (n : Node) (above : List (Nat × Node)) (k : Nat) :
    n.placesFrom above k = ⟨k, n, above⟩ :: placesOfAll ((k, n) :: above) (k + 1) n.children := by
  cases n; rfl

end Node

/-! ## Lists of nodes -/

/-- A place among those of several nodes is among those of one of them. -/
theorem mem_placesOfAll {p : Place} {above : List (Nat × Node)} : ∀ {k : Nat} {ns : List Node},
    p ∈ placesOfAll above k ns ↔
      ∃ front n back, ns = front ++ n :: back ∧ p ∈ n.placesFrom above (k + sizeOfAll front)
  | k, [] => by simp [placesOfAll]
  | k, m :: ns => by
    simp only [placesOfAll, List.mem_append, mem_placesOfAll]
    constructor
    · rintro (h | ⟨front, n, back, rfl, h⟩)
      · exact ⟨[], m, ns, rfl, by simpa [sizeOfAll] using h⟩
      · exact ⟨m :: front, n, back, rfl, by simpa [sizeOfAll, Nat.add_assoc] using h⟩
    · rintro ⟨front, n, back, he, h⟩
      cases front with
      | nil =>
        obtain ⟨rfl, rfl⟩ := List.cons.inj he
        exact .inl (by simpa [sizeOfAll] using h)
      | cons a front =>
        obtain ⟨rfl, rfl⟩ := List.cons.inj he
        exact .inr ⟨front, n, back, rfl, by simpa [sizeOfAll, Nat.add_assoc] using h⟩

/-- The places of one of several nodes are a stretch of the places of all. -/
theorem placesFrom_infix (above : List (Nat × Node)) (n : Node) (back : List Node) :
    ∀ (front : List Node) (k : Nat),
      n.placesFrom above (k + sizeOfAll front) <:+: placesOfAll above k (front ++ n :: back)
  | [], k => ⟨[], placesOfAll above (k + n.size) back, by simp [placesOfAll, sizeOfAll]⟩
  | a :: front, k => by
    have ih := placesFrom_infix above n back front (k + a.size)
    simp only [sizeOfAll, List.cons_append, placesOfAll, ← Nat.add_assoc]
    exact ih.trans (List.suffix_append _ _).isInfix

/-! ## Numbers -/

theorem numbers_placesOfAll {above : List (Nat × Node)} : ∀ {ns : List Node}
    (_ : ∀ n ∈ ns, ∀ k, (n.placesFrom above k).map (·.number) = List.range' k n.size) (k : Nat),
    (placesOfAll above k ns).map (·.number) = List.range' k (sizeOfAll ns)
  | [], _, _ => rfl
  | n :: ns, h, k => by
    simp only [placesOfAll, sizeOfAll, List.map_append]
    rw [h n (by simp), numbers_placesOfAll (fun m hm => h m (by simp [hm])), List.range'_append_1]

theorem numbers_placesFrom (n : Node) (above : List (Nat × Node)) (k : Nat) :
    (n.placesFrom above k).map (·.number) = List.range' k n.size := by
  induction n using Node.ofChildren generalizing above k with
  | h n ih =>
    rw [n.placesFrom_eq, n.size_eq, List.map_cons, numbers_placesOfAll (fun m hm k => ih m hm _ k),
      Nat.add_comm 1, List.range'_succ]

/-- The numbers of the places of a tree are their positions. -/
theorem numbers_places (root : Node) : root.places.map (·.number) = List.range root.size := by
  rw [Node.places, numbers_placesFrom, List.range_eq_range']

theorem nodup_numbers (root : Node) : (root.places.map (·.number)).Nodup := by
  rw [numbers_places]; exact List.nodup_range

/-- A place of a tree is known by its number. -/
theorem eq_of_number_eq {root : Node} {p q : Place} (hp : p ∈ root.places) (hq : q ∈ root.places)
    (h : p.number = q.number) : p = q :=
  List.inj_on_of_nodup_map (nodup_numbers root) hp hq h

theorem number_of_mem_placesFrom {p : Place} {n : Node} {above : List (Nat × Node)} {k : Nat}
    (h : p ∈ n.placesFrom above k) : k ≤ p.number ∧ p.number < k + n.size := by
  have hm := List.mem_map_of_mem (f := (·.number)) h
  rw [numbers_placesFrom, List.mem_range'_1] at hm
  exact hm

/-! ## Above and below -/

/-- Every place of a node is the node's own, or its parent is numbered from `k` on. -/
theorem parent_of_mem_placesFrom {p : Place} {n : Node} {above : List (Nat × Node)} {k : Nat}
    (h : p ∈ n.placesFrom above k) : p = ⟨k, n, above⟩ ∨ ∃ j m, p.parent? = some (j, m) ∧ k ≤ j := by
  induction n using Node.ofChildren generalizing above k with
  | h n ih =>
    rw [n.placesFrom_eq, List.mem_cons] at h
    refine h.imp id fun h => ?_
    obtain ⟨front, m, back, hc, h⟩ := mem_placesOfAll.1 h
    rcases ih m (by simp [hc]) h with rfl | ⟨j, m', hp, hj⟩
    · exact ⟨k, n, rfl, Nat.le_refl k⟩
    · exact ⟨j, m', hp, by omega⟩

/-- The part of a tree from a place downwards is a stretch of the places of the tree. -/
theorem infix_of_mem_placesFrom {p : Place} {n : Node} {above : List (Nat × Node)} {k : Nat}
    (h : p ∈ n.placesFrom above k) : p :: p.below <:+: n.placesFrom above k := by
  induction n using Node.ofChildren generalizing above k with
  | h n ih =>
    rw [n.placesFrom_eq] at h ⊢
    rcases List.mem_cons.1 h with rfl | h
    · exact List.infix_rfl
    · obtain ⟨front, m, back, hc, h⟩ := mem_placesOfAll.1 h
      have hm := placesFrom_infix ((k, n) :: above) m back front (k + 1)
      rw [← hc] at hm
      exact ((ih m (by simp [hc]) h).trans hm).trans (List.suffix_cons _ _).isInfix

/-- The nodes above a place: some of the places it is among, the first of them the topmost, and then those
above all of these. -/
theorem above_of_mem_placesFrom {p : Place} {n : Node} {above : List (Nat × Node)} {k : Nat}
    (h : p ∈ n.placesFrom above k) : ∃ inner, p.above = inner ++ above ∧
      ∀ a i m b, inner = a ++ (i, m) :: b →
        (⟨i, m, b ++ above⟩ : Place) ∈ n.placesFrom above k ∧ p ∈ (⟨i, m, b ++ above⟩ : Place).below := by
  induction n using Node.ofChildren generalizing above k with
  | h n ih =>
    rw [n.placesFrom_eq] at h ⊢
    rcases List.mem_cons.1 h with rfl | h
    · exact ⟨[], rfl, by simp⟩
    · have hbelow := h
      obtain ⟨front, m, back, hc, h⟩ := mem_placesOfAll.1 h
      obtain ⟨inner, hi, hall⟩ := ih m (by simp [hc]) h
      refine ⟨inner ++ [(k, n)], by simp [hi], fun a i m' b hab => ?_⟩
      rcases List.eq_nil_or_concat b with rfl | ⟨b, l, rfl⟩
      · obtain ⟨rfl, he⟩ := List.append_inj' hab rfl
        simp only [List.cons.injEq, Prod.mk.injEq, and_true] at he
        obtain ⟨rfl, rfl⟩ := he
        exact ⟨by simp, hbelow⟩
      · rw [List.concat_eq_append, ← List.cons_append, ← List.append_assoc] at hab
        obtain ⟨rfl, he⟩ := List.append_inj' hab rfl
        simp only [List.cons.injEq, and_true] at he
        subst he
        obtain ⟨hmem, hb⟩ := hall a i m' b rfl
        simp only [List.concat_eq_append, List.append_assoc, List.cons_append, List.nil_append]
        refine ⟨List.mem_cons_of_mem _ (mem_placesOfAll.2 ⟨front, m, back, hc, hmem⟩), hb⟩

theorem above_suffix_of_mem_below {p q : Place} (h : q ∈ p.below) :
    (p.number, p.node) :: p.above <:+ q.above := by
  obtain ⟨_, _, _, _, h⟩ := mem_placesOfAll.1 h
  obtain ⟨inner, hi, _⟩ := above_of_mem_placesFrom h
  exact ⟨inner, hi.symm⟩

theorem number_lt_of_mem_below {p q : Place} (h : q ∈ p.below) : p.number < q.number := by
  obtain ⟨_, _, _, _, h⟩ := mem_placesOfAll.1 h
  have := number_of_mem_placesFrom h
  omega

section Tree

variable {root : Node} {p q : Place}

theorem below_subset (hp : p ∈ root.places) (hq : q ∈ p.below) : q ∈ root.places :=
  (infix_of_mem_placesFrom hp).subset (List.mem_cons_of_mem _ hq)

/-- A node above a place has a place in the tree, with what is above it, and the first place is below it. -/
theorem place_of_above (hq : q ∈ root.places) {a b : List (Nat × Node)} {i : Nat} {m : Node}
    (h : q.above = a ++ (i, m) :: b) :
    (⟨i, m, b⟩ : Place) ∈ root.places ∧ q ∈ (⟨i, m, b⟩ : Place).below := by
  obtain ⟨inner, hi, hall⟩ := above_of_mem_placesFrom hq
  rw [List.append_nil] at hi
  have hp := hall a i m b (hi.symm.trans h)
  rwa [List.append_nil] at hp

theorem above_place (hq : q ∈ root.places) {i : Nat} {m : Node} (h : (i, m) ∈ q.above) :
    ∃ p ∈ root.places, p.number = i ∧ p.node = m ∧ q ∈ p.below := by
  obtain ⟨a, b, hab⟩ := List.mem_iff_append.1 h
  obtain ⟨hp, hb⟩ := place_of_above hq hab
  exact ⟨_, hp, rfl, rfl, hb⟩

/-- What stands below a place is what has it above. -/
theorem mem_below_iff (hp : p ∈ root.places) (hq : q ∈ root.places) :
    q ∈ p.below ↔ (p.number, p.node) ∈ q.above := by
  constructor
  · intro h
    exact (above_suffix_of_mem_below h).subset (by simp)
  · intro h
    obtain ⟨r, hr, hn, _, hb⟩ := above_place hq h
    rwa [← eq_of_number_eq hr hp hn]

/-- The parent of a place has a place in the tree, and the place is below it. -/
theorem place_of_parent (hq : q ∈ root.places) {i : Nat} {m : Node} (h : q.parent? = some (i, m)) :
    ∃ p ∈ root.places, p.number = i ∧ p.node = m ∧ q.above = (i, m) :: p.above ∧ q ∈ p.below := by
  obtain ⟨b, hb⟩ : ∃ b, q.above = (i, m) :: b := by
    cases ha : q.above with
    | nil => simp [Place.parent?, ha] at h
    | cons x b => exact ⟨b, by simpa [Place.parent?, ha] using h⟩
  obtain ⟨hp, hbelow⟩ := place_of_above hq (a := []) hb
  exact ⟨_, hp, rfl, rfl, hb, hbelow⟩

theorem below_trans {r : Place} (hp : p ∈ root.places) (hq : q ∈ p.below) (hr : r ∈ q.below) :
    r ∈ p.below := by
  have hq' := below_subset hp hq
  refine (mem_below_iff hp (below_subset hq' hr)).2 ((above_suffix_of_mem_below hr).subset ?_)
  exact List.mem_cons_of_mem _ ((mem_below_iff hp hq').1 hq)

theorem parent_of_mem_below (h : q ∈ p.below) : ∃ i m, q.parent? = some (i, m) := by
  obtain ⟨t, ht⟩ := above_suffix_of_mem_below h
  rw [Place.parent?, ← ht]
  cases t with
  | nil => exact ⟨p.number, p.node, rfl⟩
  | cons x t => exact ⟨x.1, x.2, rfl⟩

/-- Only the root has nothing above it. -/
theorem above_eq_nil_iff (hq : q ∈ root.places) : q.above = [] ↔ q.number = 0 := by
  rw [Node.places, root.placesFrom_eq, List.mem_cons] at hq
  rcases hq with rfl | hq
  · simp
  · have hb : q ∈ (⟨0, root, []⟩ : Place).below := hq
    have hn := number_lt_of_mem_below hb
    have hs := above_suffix_of_mem_below hb
    constructor
    · intro h
      rw [h] at hs
      simp at hs
    · simp only at hn
      omega

end Tree

/-! ## Children -/

/-- The places of some nodes alone, without anything below them. -/
def childPlaces (above : List (Nat × Node)) (k : Nat) : List Node → List Place
  | [] => []
  | n :: rest => ⟨k, n, above⟩ :: childPlaces above (k + n.size) rest

theorem nodes_childPlaces (above : List (Nat × Node)) :
    ∀ (k : Nat) (ns : List Node), (childPlaces above k ns).map (·.node) = ns
  | _, [] => rfl
  | k, n :: ns => by simp [childPlaces, nodes_childPlaces above (k + n.size) ns]

theorem above_of_mem_childPlaces {above : List (Nat × Node)} {p : Place} :
    ∀ {k : Nat} {ns : List Node}, p ∈ childPlaces above k ns → p.above = above
  | _, [], h => by simp [childPlaces] at h
  | k, n :: ns, h => by
    simp only [childPlaces, List.mem_cons] at h
    exact h.elim (fun h => h ▸ rfl) above_of_mem_childPlaces

theorem le_number_of_mem_childPlaces {above : List (Nat × Node)} {p : Place} :
    ∀ {k : Nat} {ns : List Node}, p ∈ childPlaces above k ns → k ≤ p.number
  | _, [], h => by simp [childPlaces] at h
  | k, n :: ns, h => by
    simp only [childPlaces, List.mem_cons] at h
    rcases h with rfl | h
    · exact Nat.le_refl _
    · exact Nat.le_trans (Nat.le_add_right ..) (le_number_of_mem_childPlaces h)

theorem increasing_childPlaces (above : List (Nat × Node)) : ∀ (k : Nat) (ns : List Node),
    ((childPlaces above k ns).map (·.number)).Pairwise (· < ·)
  | _, [] => .nil
  | k, n :: ns => by
    simp only [childPlaces, List.map_cons, List.pairwise_cons, List.mem_map, forall_exists_index, and_imp]
    refine ⟨fun j p hp hj => ?_, increasing_childPlaces above (k + n.size) ns⟩
    have := le_number_of_mem_childPlaces hp
    have := n.size_eq
    omega

theorem filter_parent_placesFrom {above : List (Nat × Node)} {i k : Nat} (hik : i < k)
    (ha : above.head?.map Prod.fst = some i) (n : Node) :
    (n.placesFrom above k).filter (fun q => q.parent?.map Prod.fst = some i) = [⟨k, n, above⟩] := by
  have hk : decide ((⟨k, n, above⟩ : Place).parent?.map Prod.fst = some i) = true := decide_eq_true ha
  rw [n.placesFrom_eq, List.filter_cons, if_pos hk]
  congr 1
  rw [List.filter_eq_nil_iff]
  intro q hq
  obtain ⟨front, m, back, hc, hq⟩ := mem_placesOfAll.1 hq
  rcases parent_of_mem_placesFrom hq with rfl | ⟨j, m', hp, hj⟩
  · simp only [Place.parent?, List.head?_cons, Option.map_some, Option.some.injEq, decide_eq_true_eq]
    omega
  · simp only [hp, Option.map_some, Option.some.injEq, decide_eq_true_eq]
    omega

theorem filter_parent_placesOfAll {above : List (Nat × Node)} {i : Nat}
    (ha : above.head?.map Prod.fst = some i) : ∀ {k : Nat} (_ : i < k) (ns : List Node),
      (placesOfAll above k ns).filter (fun q => q.parent?.map Prod.fst = some i) = childPlaces above k ns
  | _, _, [] => rfl
  | k, hik, n :: ns => by
    simp only [placesOfAll, childPlaces, List.filter_append]
    rw [filter_parent_placesFrom hik ha n, filter_parent_placesOfAll ha (Nat.lt_add_right _ hik) ns]
    rfl

namespace Place

theorem children_eq (p : Place) :
    p.children = childPlaces ((p.number, p.node) :: p.above) (p.number + 1) p.node.children :=
  filter_parent_placesOfAll rfl (Nat.lt_succ_self _) _

/-- The nodes of the children are the children of the node. -/
theorem nodes_children (p : Place) : p.children.map (·.node) = p.node.children := by
  rw [p.children_eq, nodes_childPlaces]

theorem increasing_children (p : Place) : (p.children.map (·.number)).Pairwise (· < ·) := by
  rw [p.children_eq]; exact increasing_childPlaces _ _ _

theorem mem_children_iff {p q : Place} :
    q ∈ p.children ↔ q ∈ p.below ∧ q.parent?.map Prod.fst = some p.number := by
  simp [children]

end Place

/-- The parent of what is below a place is the place itself or below it too. -/
theorem mem_children_of_mem_below {root m : Node} {p q : Place} {i : Nat} (hp : p ∈ root.places)
    (hq : q ∈ p.below) (h : q.parent? = some (i, m)) :
    ∃ r ∈ p :: p.below, r.number = i ∧ r.node = m ∧ q ∈ r.children := by
  obtain ⟨r, hr, rfl, rfl, habove, hqr⟩ := place_of_parent (below_subset hp hq) h
  refine ⟨r, ?_, rfl, rfl, Place.mem_children_iff.2 ⟨hqr, by rw [h]; rfl⟩⟩
  have hmem := (mem_below_iff hp (below_subset hp hq)).1 hq
  rw [habove] at hmem
  rcases List.mem_cons.1 hmem with heq | hmem
  · exact eq_of_number_eq hr hp (Prod.mk.inj heq).1.symm ▸ List.mem_cons_self
  · exact List.mem_cons_of_mem _ ((mem_below_iff hp hr).2 hmem)

/-! ## Properties of all nodes -/

theorem Node.All.placesFrom {P : Node → Prop} {n : Node} (h : n.All P) {above : List (Nat × Node)} {k : Nat}
    {p : Place} (hp : p ∈ n.placesFrom above k) : p.node.All P := by
  induction h generalizing above k with
  | @intro n here below ih =>
    rw [n.placesFrom_eq, List.mem_cons] at hp
    rcases hp with rfl | hp
    · exact .intro here below
    · obtain ⟨front, m, back, hc, hp⟩ := mem_placesOfAll.1 hp
      exact ih m (by simp [hc]) hp

theorem Node.all_of_placesFrom {P : Node → Prop} {n : Node} {a : List (Nat × Node)} {k : Nat}
    (h : ∀ p ∈ n.placesFrom a k, P p.node) : n.All P := by
  induction n using Node.ofChildren generalizing a k with
  | h n ih =>
    rw [n.placesFrom_eq] at h
    refine .intro (h ⟨k, n, a⟩ List.mem_cons_self) fun m hm => ?_
    obtain ⟨front, back, hc⟩ := List.append_of_mem hm
    exact ih m hm fun p hp => h p (List.mem_cons_of_mem _ (mem_placesOfAll.2 ⟨front, m, back, hc, hp⟩))

end DocPages.Source
