/-
Traversal with a stack. A stack of pending nodes stands for the parts of the tree
below them, the last one first: visiting one puts its children in its place
(`visits_placesFrom`), so the traversal goes over each part as a whole before it
takes up the next, and it visits the nodes below a node in document order
(`descendants_inDocumentOrder`).
-/
import Mathlib.Data.List.Infix
import Mathlib.Logic.Relation
import DocPages.Proofs.Entries

namespace DocPages.Source

/-! ## What a traversal visits -/

namespace Arena

variable {a : Arena}

theorem next_concat (a : Arena) (stack : List Nat) (id : Nat) :
    a.next (stack ++ [id]) = some (id, stack ++ (a.children id).reverse) := by
  simp [next]

/-- A stack is visited in one way. -/
theorem Visits.unique {stack ids ids' : List Nat} (h : a.Visits stack ids) (h' : a.Visits stack ids') : ids' = ids := by
  induction h generalizing ids' with
  | done hnext =>
    cases h' with
    | done => rfl
    | step hnext' => cases hnext.symm.trans hnext'
  | step hnext _ ih =>
    cases h' with
    | done hnext' => cases hnext.symm.trans hnext'
    | step hnext' further =>
      cases hnext.symm.trans hnext'
      exact congrArg _ (ih further)

end Arena

section

variable {tree : Tree}

theorem visits_placesOfAll {above : List (Nat × Node)} {ns : List Node}
    (hns : ∀ n ∈ ns, ∀ {k : Nat}, n.placesFrom above k ⊆ tree.places → ∀ {stack ids : List Nat},
      tree.arena.Visits stack ids → tree.arena.Visits (stack ++ [k]) (List.range' k n.size ++ ids)) {k : Nat}
    (h : placesOfAll above k ns ⊆ tree.places) {stack ids : List Nat} (hv : tree.arena.Visits stack ids) :
    tree.arena.Visits (stack ++ ((childPlaces above k ns).map (·.number)).reverse)
      (List.range' k (sizeOfAll ns) ++ ids) := by
  induction ns generalizing k with
  | nil => simpa [childPlaces, sizeOfAll] using hv
  | cons n ns ih =>
    rw [placesOfAll, List.append_subset] at h
    have hrest := ih (fun m hm => hns m (by simp [hm])) h.2
    have hfirst := hns n (by simp) h.1 hrest
    rw [← List.append_assoc, List.range'_append_1] at hfirst
    rw [childPlaces, List.map_cons, List.reverse_cons, ← List.append_assoc, sizeOfAll]
    exact hfirst

/-- **A pending node stands for its part of the tree.** The last node of a stack is visited with everything below it,
in the order of their numbers, before the rest of the stack. -/
theorem visits_placesFrom (n : Node) {above : List (Nat × Node)} {k : Nat} (h : n.placesFrom above k ⊆ tree.places)
    {stack ids : List Nat} (hv : tree.arena.Visits stack ids) :
    tree.arena.Visits (stack ++ [k]) (List.range' k n.size ++ ids) := by
  induction n using Node.ofChildren generalizing above k stack ids with
  | h n ih =>
    rw [n.placesFrom_eq, List.cons_subset] at h
    have hchildren := Tree.arena_children h.1
    rw [Place.children_eq] at hchildren
    have hbelow := visits_placesOfAll (fun m hm _ hsub _ _ hv => ih m hm hsub hv) h.2 hv
    rw [← hchildren] at hbelow
    rw [n.size_eq, Nat.add_comm 1, List.range'_succ, List.cons_append]
    exact .step (tree.arena.next_concat stack k) hbelow

theorem visits_below {p : Place} (hp : p ∈ tree.places) :
    tree.arena.Visits (tree.arena.descendants p.number) (p.below.map (·.number)) := by
  have hsub : p.below ⊆ tree.places := fun q hq => below_subset hp hq
  have hnumbers : p.below.map (·.number) = List.range' (p.number + 1) (sizeOfAll p.node.children) :=
    numbers_placesOfAll (fun n _ k => numbers_placesFrom n _ k) _
  have hdone : tree.arena.Visits [] [] := .done rfl
  have hvisits := visits_placesOfAll (fun m _ _ hsub _ _ hv => visits_placesFrom m hsub hv) hsub hdone
  rw [List.append_nil, List.nil_append, ← Place.children_eq, ← Tree.arena_children hp, ← hnumbers] at hvisits
  exact hvisits

end

/-! ## Parent links -/

/-- The node `i` is reached from `j` by one parent link or more. -/
def Arena.IsAbove (a : Arena) (i j : Nat) : Prop :=
  Relation.TransGen (fun i j => a.parent? j = some i) i j

section

variable {tree : Tree} {p q : Place}

theorem isAbove_iff_mem {i : Nat} (hp : p ∈ tree.places) :
    tree.arena.IsAbove i p.number ↔ i ∈ p.above.map Prod.fst := by
  induction habove : p.above generalizing p with
  | nil =>
    rw [Arena.IsAbove, Relation.TransGen.tail'_iff]
    simp [Tree.arena_parent hp, Place.parent?, habove]
  | cons x rest ih =>
    obtain ⟨j, m⟩ := x
    have hparent := (place_of_above (a := []) hp habove).1
    have hlink : ∀ b, tree.arena.parent? p.number = some b ↔ b = j := fun b => by
      rw [Tree.arena_parent hp, Place.parent?, habove]
      exact Option.some_inj.trans eq_comm
    rw [Arena.IsAbove, Relation.TransGen.tail'_iff]
    simp only [hlink, exists_eq_right, Relation.reflTransGen_iff_eq_or_transGen, List.map_cons, List.mem_cons]
    exact or_congr eq_comm (ih hparent rfl)

/-- What is below a place has it above by parent links. -/
theorem isAbove_iff_below (hp : p ∈ tree.places) (hq : q ∈ tree.places) :
    tree.arena.IsAbove p.number q.number ↔ q ∈ p.below := by
  rw [isAbove_iff_mem hq, mem_below_iff hp hq, List.mem_map]
  constructor
  · rintro ⟨⟨i, m⟩, hm, rfl⟩
    obtain ⟨r, hr, hnumber, rfl, -⟩ := above_place hq hm
    rwa [eq_of_number_eq hr hp hnumber] at hm
  · exact fun h => ⟨_, h, rfl⟩

/-- Only entries have anything above them. -/
theorem exists_place_of_isAbove {i j : Nat} (h : tree.arena.IsAbove i j) : ∃ q ∈ tree.places, q.number = j := by
  obtain ⟨b, -, hb⟩ := Relation.TransGen.tail'_iff.1 h
  refine Tree.exists_place ?_
  by_contra hj
  rw [Arena.parent?, List.getElem?_eq_none (Nat.le_of_not_lt hj)] at hb
  cases hb

end

/-! ## Where nodes begin -/

section

variable {ts : List Token} {above : List (Nat × Node)}

theorem starts_placesOfAll {ns : List Node} (hall : ∀ n ∈ ns, n.All (Framed ts))
    (happart : ns.Pairwise fun m n => m.stop ≤ n.start)
    (hns : ∀ n ∈ ns, ∀ k, (n.placesFrom above k).Pairwise fun p q => p.node.start ≤ q.node.start) (k : Nat) :
    (placesOfAll above k ns).Pairwise fun p q => p.node.start ≤ q.node.start := by
  induction ns generalizing k with
  | nil => exact .nil
  | cons n ns ih =>
    obtain ⟨hn, hrest⟩ := List.pairwise_cons.1 happart
    refine List.pairwise_append.2 ⟨hns n (by simp) k, ih (fun m hm => hall m (by simp [hm])) hrest
      (fun m hm => hns m (by simp [hm])) _, fun p hp q hq => ?_⟩
    obtain ⟨front, m, back, hc, hq⟩ := mem_placesOfAll.1 hq
    have hm : m ∈ ns := by simp [hc]
    have hp' := (range_of_mem_placesFrom (hall n (by simp)) hp).2
    have hq' := (range_of_mem_placesFrom (hall m (by simp [hm])) hq).1
    have hmn := hn m hm
    have horder := ((hall n (by simp)).placesFrom hp).here.ordered
    omega

/-- Nodes further on in a tree begin no earlier. -/
theorem starts_placesFrom {n : Node} (hn : n.All (Framed ts)) (k : Nat) :
    (n.placesFrom above k).Pairwise fun p q => p.node.start ≤ q.node.start := by
  induction hn generalizing above k with
  | @intro n here below ih =>
    rw [n.placesFrom_eq]
    refine List.pairwise_cons.2 ⟨fun q hq => ?_, starts_placesOfAll below here.parts.apart (fun m hm k => ih m hm k) _⟩
    obtain ⟨front, m, back, hc, hq⟩ := mem_placesOfAll.1 hq
    have hm : m ∈ n.children := by simp [hc]
    have hq' := (range_of_mem_placesFrom (below m hm) hq).1
    exact Nat.le_trans (here.parts.inside m hm).1 hq'

end

/-! ## Document order -/

/-- The nodes `ids` are those below the node `id`, in document order. -/
structure Arena.InDocumentOrder (a : Arena) (id : Nat) (ids : List Nat) : Prop where
  below : ∀ i, i ∈ ids ↔ a.IsAbove id i
  increasing : ids.Pairwise (· < ·)
  contiguous : ids = List.range' (id + 1) ids.length
  starts : ids.Pairwise fun i j => a.start i ≤ a.start j

theorem inDocumentOrder_below {ts : List Token} {p : Place} (hp : p ∈ (Tree.ofTokens ts).places) :
    (Tree.ofTokens ts).arena.InDocumentOrder p.number (p.below.map (·.number)) := by
  have hnumbers : p.below.map (·.number) = List.range' (p.number + 1) (sizeOfAll p.node.children) :=
    numbers_placesOfAll (fun n _ k => numbers_placesFrom n _ k) _
  have hbelow : ∀ q ∈ p.below, q ∈ (Tree.ofTokens ts).places := fun q hq => below_subset hp hq
  exact {
    below := fun i => by
      rw [List.mem_map]
      constructor
      · rintro ⟨q, hq, rfl⟩
        exact (isAbove_iff_below hp (hbelow q hq)).2 hq
      · intro hi
        obtain ⟨q, hq, rfl⟩ := exists_place_of_isAbove hi
        exact ⟨q, (isAbove_iff_below hp hq).1 hi, rfl⟩
    increasing := by
      rw [hnumbers]
      exact List.pairwise_lt_range'
    contiguous := by
      rw [hnumbers, List.length_range']
    starts := by
      have hstarts : p.below.Pairwise fun q r => q.node.start ≤ r.node.start :=
        (starts_placesFrom (Tree.ofTokens_framed ts) 0).sublist
          ((List.sublist_cons_self p p.below).trans (infix_of_mem_placesFrom hp).sublist)
      rw [List.pairwise_map]
      refine hstarts.imp_of_mem fun hq hr h => ?_
      rwa [Tree.arena_start (hbelow _ hq), Tree.arena_start (hbelow _ hr)] }

/-- **Traversal with a stack is document order.** From whatever node of a source it begins, it comes to an end, and it
visits the nodes that have the node above them by parent links, each once and by increasing numbers, which
are the numbers right after the one of the node; and later ones begin no earlier. These are the nodes that
`Place.below` lists. -/
theorem descendants_inDocumentOrder (source : String) {id : Nat}
    (h : id < (Tree.ofSource source).arena.entries.length) :
    ∃ ids, (Tree.ofSource source).arena.Visits ((Tree.ofSource source).arena.descendants id) ids ∧
      (∀ ids', (Tree.ofSource source).arena.Visits ((Tree.ofSource source).arena.descendants id) ids' → ids' = ids) ∧
      (Tree.ofSource source).arena.InDocumentOrder id ids ∧
      ∃ p ∈ (Tree.ofSource source).places, p.number = id ∧ p.below.map (·.number) = ids := by
  obtain ⟨p, hp, rfl⟩ := Tree.exists_place h
  have hvisits := visits_below hp
  exact ⟨_, hvisits, fun _ hv => hvisits.unique hv, inDocumentOrder_below hp, p, hp, rfl, rfl⟩

/-- The nodes below the first of two types, and none of the second. -/
theorem descendants_inDocumentOrder_sample : ∃ tree, tree = Tree.ofSource
      "namespace N \x7b class A \x7b void M() \x7b\x7d \x7d interface I \x7b void P(); \x7d \x7d" ∧
    3 < tree.arena.entries.length ∧ tree.arena.children 3 = [4] ∧
    tree.arena.Visits (tree.arena.descendants 3) [4, 5, 6, 7] ∧ tree.arena.InDocumentOrder 3 [4, 5, 6, 7] := by
  refine ⟨_, rfl, by decide +kernel, by decide +kernel, ?_⟩
  obtain ⟨ids, hvisits, -, horder, p, hp, hnumber, rfl⟩ := descendants_inDocumentOrder
    "namespace N \x7b class A \x7b void M() \x7b\x7d \x7d interface I \x7b void P(); \x7d \x7d" (show 3 < _ by decide +kernel)
  have hall : ∀ p ∈ (Tree.ofSource
      "namespace N \x7b class A \x7b void M() \x7b\x7d \x7d interface I \x7b void P(); \x7d \x7d").places,
      p.number = 3 → p.below.map (·.number) = [4, 5, 6, 7] := by
    decide +kernel
  rw [hall p hp hnumber] at hvisits horder
  exact ⟨hvisits, horder⟩

end DocPages.Source
