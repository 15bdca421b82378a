/-
The arena of a source. Building it by opening and closing nodes enters the places
of the tree one after the other, so it has them for entries (`Tree.arena_entries`):
the index of an entry is the number of its place, and its links are those between
places. So what holds of the tree holds of the arena, and the arena of every source
is well-formed (`ofSource_wellFormed`).
-/
import DocPages.Proofs.Shape
import DocPages.Source.Arena

namespace DocPages.Source

/-! ## Entries of places -/

def Place.entry (p : Place) : Entry :=
  ⟨p.node.kind, p.parent?.map Prod.fst, p.children.map (·.number), p.node.start, p.node.stop, p.node.name?,
    p.node.modifiers⟩

theorem modify_append {α : Type} {l : List α} {i : Nat} (h : i < l.length) (f : α → α) (m : List α) :
    (l ++ m).modify i f = l.modify i f ++ m := by
  induction l generalizing i with
  | nil => cases h
  | cons x l ih =>
    cases i with
    | zero => rfl
    | succ i =>
      have := ih (Nat.lt_of_succ_lt_succ h)
      simpa using this

theorem modify_length {α : Type} (l : List α) (f : α → α) (x : α) (m : List α) :
    (l ++ x :: m).modify l.length f = l ++ f x :: m := by
  induction l with
  | nil => rfl
  | cons y l ih => simpa using ih

namespace Building

variable {es fs : List Entry} {parent? : Option Nat}

@[simp] theorem length_adopt (ids : List Nat) : (adopt es parent? ids).length = es.length := by
  cases parent? <;> simp [adopt]

theorem adopt_nil : adopt es parent? [] = es := by
  cases parent? with
  | none => rfl
  | some p =>
    have hid : (fun e : Entry => e.adopt []) = id := funext fun e => by simp [Entry.adopt]
    exact (congrArg (es.modify p) hid).trans (List.modify_id p es)

/-- Only earlier entries have further children. -/
theorem adopt_append (h : ∀ p ∈ parent?, p < es.length) (ids : List Nat) :
    adopt (es ++ fs) parent? ids = adopt es parent? ids ++ fs := by
  cases parent? with
  | none => rfl
  | some p => exact modify_append (h p rfl) _ _

theorem adopt_adopt (ids ids' : List Nat) :
    adopt (adopt es parent? ids) parent? ids' = adopt es parent? (ids ++ ids') := by
  cases parent? with
  | none => rfl
  | some p =>
    have hcomp : (fun e : Entry => e.adopt ids') ∘ (fun e : Entry => e.adopt ids) = fun e => e.adopt (ids ++ ids') :=
      funext fun e => by simp [Entry.adopt]
    exact (List.modify_modify_eq _ _ p es).trans (congrArg (es.modify p) hcomp)

/-- The nodes `above` are open, and have entries. -/
structure Stands (b : Building) (above : List (Nat × Node)) : Prop where
  opened : b.opened = above.map Prod.fst
  entered : ∀ i ∈ b.opened, i < b.entries.length

theorem Stands.parent_lt {b : Building} {above : List (Nat × Node)} (h : b.Stands above) :
    ∀ p ∈ b.opened.head?, p < b.entries.length :=
  fun p hp => h.entered p (List.mem_of_mem_head? hp)

/-- The building after some children of the node opened last have been entered, and all places in `ps`. -/
def after (b : Building) (ids : List Nat) (ps : List Place) : Building :=
  ⟨adopt b.entries b.opened.head? ids ++ ps.map Place.entry, b.opened⟩

@[simp] theorem length_after (b : Building) (ids : List Nat) (ps : List Place) :
    (b.after ids ps).entries.length = b.entries.length + ps.length := by
  simp [after]

theorem Stands.after {b : Building} {above : List (Nat × Node)} (h : b.Stands above) (ids : List Nat)
    (ps : List Place) : (b.after ids ps).Stands above where
  opened := h.opened
  entered i hi := by
    rw [length_after]
    exact Nat.lt_add_right _ (h.entered i hi)

theorem Stands.after_after {b : Building} {above : List (Nat × Node)} (h : b.Stands above) (ids ids' : List Nat)
    (ps ps' : List Place) : (b.after ids ps).after ids' ps' = b.after (ids ++ ids') (ps ++ ps') := by
  have hparent : ∀ p ∈ b.opened.head?, p < (adopt b.entries b.opened.head? ids).length := by
    simpa using h.parent_lt
  simp only [Building.after, adopt_append hparent, adopt_adopt, List.map_append, List.append_assoc]

end Building

open Building

/-! ## Building enters the places -/

theorem buildAll_eq {above : List (Nat × Node)} {ns : List Node}
    (hns : ∀ n ∈ ns, ∀ {b : Building}, b.Stands above →
      n.build b = b.after [b.entries.length] (n.placesFrom above b.entries.length)) {b : Building}
    (h : b.Stands above) :
    buildAll ns b = b.after ((childPlaces above b.entries.length ns).map (·.number))
      (placesOfAll above b.entries.length ns) := by
  induction ns generalizing b with
  | nil => simp [buildAll, childPlaces, placesOfAll, after, adopt_nil]
  | cons n ns ih =>
    have hsize : (n.placesFrom above b.entries.length).length = n.size := by
      simpa using congrArg List.length (numbers_placesFrom n above b.entries.length)
    rw [buildAll, hns n (by simp) h, ih (fun m hm => hns m (by simp [hm])) (h.after _ _), h.after_after, length_after,
      hsize]
    rfl

/-- **Building a node enters its places.** The node is a child of the one opened last, and its entries and those of
all below it are the ones of its places. -/
theorem Node.build_eq {above : List (Nat × Node)} (n : Node) {b : Building} (h : b.Stands above) :
    n.build b = b.after [b.entries.length] (n.placesFrom above b.entries.length) := by
  induction n using Node.ofChildren generalizing above b with
  | h n ih =>
    obtain ⟨kind, start, stop, name?, modifiers, children⟩ := n
    let n : Node := ⟨kind, start, stop, name?, modifiers, children⟩
    let k := b.entries.length
    let front := adopt b.entries b.opened.head? [k]
    let ids := (childPlaces ((k, n) :: above) (k + 1) children).map (·.number)
    let first : Entry := ⟨kind, b.opened.head?, [], start, start, name?, modifiers⟩
    have hfront : front.length = k := length_adopt _
    have henter : b.enter kind start name? modifiers = ⟨front ++ [first], k :: b.opened⟩ :=
      congrArg (Building.mk · _) (adopt_append h.parent_lt _)
    have hstands : (b.enter kind start name? modifiers).Stands ((k, n) :: above) := by
      rw [henter]
      refine ⟨congrArg (k :: ·) h.opened, fun i hi => ?_⟩
      rw [List.length_append, hfront, List.length_singleton]
      rcases List.mem_cons.1 hi with rfl | hi
      · exact Nat.lt_succ_self _
      · exact Nat.lt_succ_of_lt (h.entered i hi)
    have hchildren : buildAll children (b.enter kind start name? modifiers) =
        ⟨front ++ first.adopt ids :: (placesOfAll ((k, n) :: above) (k + 1) children).map Place.entry,
          k :: b.opened⟩ := by
      have hadopt : adopt (front ++ [first]) (some k) ids = front ++ [first.adopt ids] := by
        rw [← hfront]
        exact modify_length front _ first []
      rw [buildAll_eq (fun m hm => ih m hm) hstands, henter]
      simp only [after, List.head?_cons, List.length_append, hfront, List.length_singleton]
      rw [hadopt, List.append_assoc]
      rfl
    have hentry : { first.adopt ids with stop := stop } = Place.entry ⟨k, n, above⟩ := by
      have hparent : b.opened.head? = above.head?.map Prod.fst := by rw [h.opened, List.head?_map]
      rw [Place.entry, Place.children_eq]
      exact congrArg (Entry.mk kind · ids start stop name? modifiers) hparent
    have hclose : ∀ rest, (front ++ first.adopt ids :: rest).modify k (fun e => { e with stop := stop }) =
        front ++ Place.entry ⟨k, n, above⟩ :: rest := fun rest => by
      rw [← hentry, ← hfront]
      exact modify_length front _ _ rest
    rw [Node.build, hchildren, Node.placesFrom_eq]
    exact congrArg (Building.mk · b.opened) (hclose _)

/-- The arena of a tree has its places for entries. -/
theorem Tree.arena_entries (tree : Tree) : tree.arena.entries = tree.places.map Place.entry := by
  have hstands : Stands ⟨[], []⟩ [] := ⟨rfl, by simp⟩
  rw [arena, Node.build_eq _ hstands]
  rfl

section

variable {tree : Tree} {p : Place}

theorem Tree.entry_of_mem (hp : p ∈ tree.places) : tree.arena.entries[p.number]? = some p.entry := by
  obtain ⟨i, hi, rfl⟩ := List.mem_iff_getElem.1 hp
  have hnumber : tree.places[i].number = i := by
    have hall : tree.places.map (·.number) = List.range tree.root.size := numbers_places tree.root
    have hlength : i < (tree.places.map (·.number)).length := by rwa [List.length_map]
    simpa using List.getElem_of_eq hall hlength
  rw [tree.arena_entries, hnumber, List.getElem?_map, List.getElem?_eq_getElem hi]
  rfl

theorem Tree.arena_children (hp : p ∈ tree.places) :
    tree.arena.children p.number = p.children.map (·.number) := by
  rw [Arena.children, entry_of_mem hp]
  rfl

theorem Tree.arena_parent (hp : p ∈ tree.places) : tree.arena.parent? p.number = p.parent?.map Prod.fst := by
  rw [Arena.parent?, entry_of_mem hp]
  rfl

theorem Tree.arena_start (hp : p ∈ tree.places) : tree.arena.start p.number = p.node.start := by
  rw [Arena.start, entry_of_mem hp]
  rfl

theorem Tree.exists_place {id : Nat} (h : id < tree.arena.entries.length) : ∃ p ∈ tree.places, p.number = id := by
  have hmem : id ∈ tree.places.map (·.number) := by
    have hlength := congrArg List.length (numbers_places tree.root)
    rw [tree.arena_entries, List.length_map] at h
    rw [Tree.places, numbers_places, List.mem_range]
    rw [List.length_map, List.length_range] at hlength
    rwa [← hlength]
  exact List.mem_map.1 hmem

end

/-! ## Well-formed arenas -/

/-- The entries of the children of an entry. -/
def Arena.childEntries (a : Arena) (e : Entry) : List Entry :=
  e.children.filterMap fun i => a.entries[i]?

/-- The entries of an arena over some tokens are a well-formed ordered tree: `root` tells where it begins, `parent` and
`children` how entries are linked, the rest how their ranges and words lie among the tokens. -/
structure Arena.WellFormed (ts : List Token) (a : Arena) : Prop where
  root : ∃ e, a.entries[0]? = some e ∧ e.kind = .compilationUnit ∧ e.parent? = none ∧
    e.start = 0 ∧ e.stop = ts.length
  parent : ∀ (i : Nat) (e : Entry), a.entries[i]? = some e → i ≠ 0 → ∃ j, e.parent? = some j ∧ j < i ∧
    (a.children j).count i = 1 ∧ ∀ k, i ∈ a.children k → k = j
  children : ∀ (j : Nat) (e : Entry), a.entries[j]? = some e → e.children.Pairwise (· < ·) ∧
    ∀ i ∈ e.children, ∃ f : Entry, a.entries[i]? = some f ∧ f.parent? = some j
  ranges : ∀ e ∈ a.entries, e.start ≤ e.stop ∧ ∀ f ∈ a.childEntries e, e.start ≤ f.start ∧ f.stop ≤ e.stop
  siblings : ∀ e ∈ a.entries, (a.childEntries e).Pairwise fun f g => f.stop ≤ g.start
  words : ∀ e ∈ a.entries, ∀ i, e.name? = some i ∨ i ∈ e.modifiers →
    (∃ t, ts[i]? = some t ∧ t.kind = .ident) ∧ e.start ≤ i ∧ i < e.stop ∧
      ∀ f ∈ a.childEntries e, i < f.start ∨ f.stop ≤ i
  modifiers : ∀ e ∈ a.entries, e.modifiers.Pairwise (· < ·)

section

variable {tree : Tree} {p : Place}

theorem Tree.place_of_entry {i : Nat} {e : Entry} (h : tree.arena.entries[i]? = some e) :
    ∃ p ∈ tree.places, p.number = i ∧ p.entry = e := by
  obtain ⟨p, hp, rfl⟩ := Tree.exists_place (List.getElem?_eq_some_iff.1 h).1
  exact ⟨p, hp, rfl, Option.some.inj ((Tree.entry_of_mem hp).symm.trans h)⟩

theorem Tree.place_of_mem_entries {e : Entry} (h : e ∈ tree.arena.entries) : ∃ p ∈ tree.places, p.entry = e :=
  List.mem_map.1 (tree.arena_entries ▸ h)

/-- What has children in the arena is the entry of a place. -/
theorem Tree.place_of_mem_arena_children {i k : Nat} (h : i ∈ tree.arena.children k) :
    ∃ p ∈ tree.places, p.number = k ∧ i ∈ p.children.map (·.number) := by
  cases he : tree.arena.entries[k]? with
  | none =>
    rw [Arena.children, he] at h
    exact absurd h List.not_mem_nil
  | some e =>
    obtain ⟨p, hp, rfl, -⟩ := Tree.place_of_entry he
    exact ⟨p, hp, rfl, Tree.arena_children hp ▸ h⟩

/-- The children of an entry are those of its place. -/
theorem Tree.childEntries_entry (hp : p ∈ tree.places) :
    tree.arena.childEntries p.entry = p.children.map Place.entry := by
  rw [Arena.childEntries, Place.entry, List.filterMap_map, ← List.filterMap_eq_map]
  exact List.filterMap_congr fun q hq => Tree.entry_of_mem (mem_places_of_mem_children hp hq)

/-- **What holds of the places of a tree holds of its arena.** -/
theorem Tree.WellFormed.arena (h : tree.WellFormed) : tree.arena.WellFormed tree.tokens where
  root := by
    obtain ⟨p, hroot, hkind, hparent, hstart, hstop⟩ := h.root
    refine ⟨p.entry, ?_, hkind, ?_, hstart, hstop⟩
    · rw [tree.arena_entries, List.getElem?_map, hroot]
      rfl
    · rw [Place.entry, hparent]
      rfl
  parent i e he hi := by
    obtain ⟨q, hq, rfl, rfl⟩ := Tree.place_of_entry he
    obtain ⟨p, hp, hparent, hlt, hcount, honly⟩ := h.parent q hq hi
    refine ⟨p.number, ?_, hlt, ?_, fun k hk => ?_⟩
    · rw [Place.entry, hparent]
      rfl
    · rwa [Tree.arena_children hp]
    · obtain ⟨r, hr, rfl, hmem⟩ := Tree.place_of_mem_arena_children hk
      rw [honly r hr hmem]
  children j e he := by
    obtain ⟨p, hp, rfl, rfl⟩ := Tree.place_of_entry he
    refine ⟨(h.children p hp).2.2, fun i hi => ?_⟩
    obtain ⟨q, hq, rfl⟩ := List.mem_map.1 hi
    exact ⟨q.entry, Tree.entry_of_mem (mem_places_of_mem_children hp hq), (Place.mem_children_iff.1 hq).2⟩
  ranges e he := by
    obtain ⟨p, hp, rfl⟩ := Tree.place_of_mem_entries he
    rw [Tree.childEntries_entry hp, List.forall_mem_map]
    exact h.ranges p hp
  siblings e he := by
    obtain ⟨p, hp, rfl⟩ := Tree.place_of_mem_entries he
    rw [Tree.childEntries_entry hp, List.pairwise_map]
    exact h.siblings p hp
  words e he i hi := by
    obtain ⟨p, hp, rfl⟩ := Tree.place_of_mem_entries he
    obtain ⟨hident, hinside, houtside⟩ := h.words p hp i hi
    rw [Tree.childEntries_entry hp, List.forall_mem_map]
    exact ⟨hident, hinside.1, hinside.2, fun q hq => houtside q.node (p.nodes_children ▸ List.mem_map_of_mem hq)⟩
  modifiers e he := by
    obtain ⟨p, hp, rfl⟩ := Tree.place_of_mem_entries he
    exact h.modifiers p hp

end

/-- **The tree of every source is a well-formed ordered tree** over its significant tokens, and so are the entries of
its arena. -/
theorem ofSource_wellFormed (source : String) :
    (Tree.ofSource source).tokens = (TokenStream.ofSource source).tokens ∧
    (Tree.ofSource source).WellFormed ∧
    (Tree.ofSource source).arena.WellFormed (TokenStream.ofSource source).tokens :=
  ⟨rfl, Tree.ofTokens_wellFormed _, (Tree.ofTokens_wellFormed _).arena⟩

end DocPages.Source
