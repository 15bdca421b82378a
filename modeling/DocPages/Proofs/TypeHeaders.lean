/-
Headers of types in full. Where the header of a type ends is told by the tree
(`headerEnd?`): at the brace that opens its scope, at its semicolon, or where the
type ends (`EndsHeader`). The snippet of a type does not ask the tree; it goes up
to the first brace or semicolon, so it is the header on one line if none of the
header's parts has such a mark in it, and is cut at the first of them otherwise
(`typeSnippet_eq_header_iff`).
-/
import DocPages.Proofs.LineBreaks
import Mathlib.Data.List.TakeWhile

namespace DocPages.Source

open Unicode (trim_between)

/-- The index behind the header of a declaration. -/
def headerEnd (ts : List Token) (n : Node) : Nat :=
  (headerEnd? ts n).getD n.stop

/-- The header of a type goes up to the index `stop`. Its parts and its own words are in front of that, its
members behind; and there stands the brace that opens the scope of the members, or the semicolon that ends
the type, or the type has ended. -/
structure EndsHeader (ts : List Token) (n : Node) (stop : Nat) : Prop where
  range : n.start ≤ stop ∧ stop ≤ n.stop
  parts : ∀ m ∈ n.children, m.stop ≤ stop ∨ stop < m.start
  members : ∀ m ∈ n.children, m.kind.isPart = false → stop < m.start ∧ kindAt? ts stop = some .lbrace
  words : ∀ i, n.name? = some i ∨ i ∈ n.modifiers → n.start ≤ i ∧ i < stop
  ending : kindAt? ts stop = some .lbrace ∧ stop < n.stop ∨ kindAt? ts stop = some .semi ∧ n.stop = stop + 1 ∨
    kindAt? ts stop ≠ some .lbrace ∧ n.stop = stop

namespace Tree

/-- The tokens of the header of a type. -/
def typeHeader (tree : Tree) (n : Node) : List Token :=
  between tree.tokens n.start (headerEnd tree.tokens n)

end Tree

/-! ## Where headers of types end -/

section

variable {ts : List Token} {c d : Cursor} {p : Parts} {n : Node} {nodes : List Node} {a i stop : Nat}

theorem OwnWord.lt_of_ne (h : OwnWord ts a (stop + 1) nodes i) (hk : kindAt? ts stop ≠ some .ident) :
    i < stop := by
  obtain ⟨t, ht, hident⟩ := h.isIdent
  have hi := h.inside.2
  have hne : i ≠ stop := by
    rintro rfl
    exact hk (by rw [kindAt?, ht, Option.map_some, hident])
  omega

/-- The words of a header with a mark at its end are in front of that mark. -/
theorem words_of_mark {k : TokenKind} (hp : p.Between ts a (stop + 1)) (hm : kindAt? ts stop = some k)
    (hk : k ≠ .ident) : ∀ i, p.name? = some i ∨ i ∈ p.modifiers → a ≤ i ∧ i < stop := by
  have hne : kindAt? ts stop ≠ some .ident := by simpa [hm] using hk
  rintro i (hi | hi)
  · exact ⟨(hp.name i hi).inside.1, (hp.name i hi).lt_of_ne hne⟩
  · exact ⟨(hp.modifiers i hi).inside.1, (hp.modifiers i hi).lt_of_ne hne⟩

theorem endsHeader_of_scope {kind : NodeKind} {inner : List Node} (owner? : Option String) (hc : c.On ts)
    (hcov : Covered ts c p d) (hl : atKind .lbrace d.rest = true) (hp : p.Between ts c.pos (d.advance 1).pos)
    (hparts : ∀ m ∈ p.children, m.kind.isPart = true) (hstop : (d.advance 1).pos ≤ stop)
    (hin : ∀ m ∈ inner, (d.advance 1).pos ≤ m.start) :
    EndsHeader ts ((p ++ ⟨[], none, inner⟩).node kind c.pos stop)
      (headerEnd ts ((p ++ ⟨[], none, inner⟩).node kind c.pos stop)) := by
  obtain ⟨hd, hle, hpstop, -⟩ := hcov hc
  have hpos := pos_advance_of_atKind hl
  have hmark := kindAt?_of_atKind hd hl
  have hend : headerEnd ts ((p ++ ⟨[], none, inner⟩).node kind c.pos stop) = d.pos := by
    rw [headerEnd, headerEnd?_of_scope (s := .type owner?) hc hcov hl rfl hstop rfl hin, Option.getD_some]
  rw [hpos] at hp hstop hin
  rw [hend]
  exact {
    range := ⟨hle, Nat.le_of_succ_le hstop⟩
    parts := fun m hm => (List.mem_append.1 hm).elim (fun hm => .inl (hpstop m hm)) (fun hm => .inr (hin m hm))
    members := fun m hm hkind => by
      rcases List.mem_append.1 hm with hm | hm
      · rw [hparts m hm] at hkind
        cases hkind
      · exact ⟨hin m hm, hmark⟩
    words := by
      show ∀ i, p.name?.or none = some i ∨ i ∈ p.modifiers ++ [] → c.pos ≤ i ∧ i < d.pos
      rw [Option.or_none, List.append_nil]
      exact words_of_mark hp hmark (by decide)
    ending := .inl ⟨hmark, hstop⟩ }

theorem endsHeader_of_semicolon {kind : NodeKind} (hc : c.On ts) (hcov : Covered ts c p d)
    (hm : atKind .semi d.rest = true) (hp : p.Between ts c.pos (d.advance 1).pos)
    (hparts : ∀ m ∈ p.children, m.kind.isPart = true) :
    EndsHeader ts (p.node kind c.pos (d.advance 1).pos)
      (headerEnd ts (p.node kind c.pos (d.advance 1).pos)) := by
  obtain ⟨hd, hle, hpstop, -⟩ := hcov hc
  have hmark := kindAt?_of_atKind hd hm
  rw [pos_advance_of_atKind hm] at hp ⊢
  have hend : headerEnd ts (p.node kind c.pos (d.pos + 1)) = d.pos := by
    rw [headerEnd, headerEnd?_eq_some hc hcov rfl (Nat.lt_succ_self d.pos) (List.append_nil p.children).symm
      (by simp) (by simp [isHeaderEnd, hmark]), Option.getD_some]
  rw [hend]
  exact {
    range := ⟨hle, Nat.le_succ d.pos⟩
    parts := fun m hm => .inl (hpstop m hm)
    members := fun m hm hkind => by
      rw [hparts m hm] at hkind
      cases hkind
    words := words_of_mark hp hmark (by decide)
    ending := .inr (.inl ⟨hmark, rfl⟩) }

theorem endsHeader_of_bare {kind : NodeKind} (hc : c.On ts) (hcov : Covered ts c p d)
    (hl : atKind .lbrace d.rest = false) (hp : p.Between ts c.pos d.pos)
    (hparts : ∀ m ∈ p.children, m.kind.isPart = true) :
    EndsHeader ts (p.node kind c.pos d.pos) (headerEnd ts (p.node kind c.pos d.pos)) := by
  obtain ⟨hd, hle, hpstop, -⟩ := hcov hc
  have hend : headerEnd ts (p.node kind c.pos d.pos) = d.pos := by
    rw [headerEnd, headerEnd?_eq_none hc hcov rfl rfl rfl]
    rfl
  rw [hend]
  exact {
    range := ⟨hle, Nat.le_refl d.pos⟩
    parts := fun m hm => .inl (hpstop m hm)
    members := fun m hm hkind => by
      rw [hparts m hm] at hkind
      cases hkind
    words := by
      rintro i (hi | hi)
      · exact (hp.name i hi).inside
      · exact (hp.modifiers i hi).inside
    ending := .inr (.inr ⟨kindAt?_ne_of_atKind hd hl, rfl⟩) }

/-- The header of a type ends where the tree says. -/
theorem endsHeader_of_isMember (h : IsMember ts n) (hk : n.kind.isScope = true) (hne : n.kind ≠ .namespaceUnit) :
    EndsHeader ts n (headerEnd ts n) := by
  cases h with
  | @intro owner? c h inner stop on read le plain inside =>
    have hends : HeaderEnds ts c h := read ▸ Ending.EndsAt.memberHeader owner? c
    have hparts : ∀ m ∈ h.parts.children, m.kind.isPart = true := fun m hm =>
      (memberHeader_parts owner? c m (read ▸ hm)).here
    have hbetween : h.parts.Between ts c.pos h.next.pos := read ▸ (memberHeader_framed owner? c on).2.2.1
    cases hends with
    | @scope kind p d s covered fits mark =>
      cases s with
      | block | file => exact absurd fits hne
      | type own? => exact endsHeader_of_scope own? on covered mark hbetween hparts le inside
    | @bare kind p d covered unopened =>
      obtain ⟨rfl, rfl⟩ := plain rfl
      rw [show Parts.mk [] none [] = Parts.none from rfl, Parts.append_none]
      exact endsHeader_of_bare on covered unopened hbetween hparts
    | @semicolon kind p d covered mark =>
      obtain ⟨rfl, rfl⟩ := plain rfl
      rw [show Parts.mk [] none [] = Parts.none from rfl, Parts.append_none]
      exact endsHeader_of_semicolon on covered mark hbetween hparts
    | other hother _ =>
      rw [show ((h.parts ++ ⟨[], none, inner⟩).node h.kind c.pos stop).kind = h.kind from rfl, hother] at hk
      cases hk

end

/-! ## Snippets of types -/

/-- A token that the snippet of a type ends at. -/
def Token.endsSnippet (t : Token) : Bool :=
  t.kind = .lbrace || t.kind = .semi

theorem EndsHeader.head_endsSnippet {ts : List Token} {n : Node} {stop : Nat} (h : EndsHeader ts n stop) :
    ∀ t, (between ts stop n.stop).head? = some t → t.endsSnippet = true := by
  intro t ht
  have hget : ts[stop]? = some t ∧ stop < n.stop := by
    rw [between, List.head?_take] at ht
    split at ht
    · cases ht
    · exact ⟨by rwa [List.head?_drop] at ht, by omega⟩
  have hkind : kindAt? ts stop = some t.kind := by rw [kindAt?, hget.1, Option.map_some]
  rcases h.ending with ⟨hk, -⟩ | ⟨hk, -⟩ | ⟨-, hstop⟩
  · simp [Token.endsSnippet, Option.some.inj (hkind.symm.trans hk)]
  · simp [Token.endsSnippet, Option.some.inj (hkind.symm.trans hk)]
  · omega

theorem takeWhile_append_of_head {α : Type} {p : α → Bool} {xs ys : List α}
    (h : ∀ y, ys.head? = some y → p y = false) : (xs ++ ys).takeWhile p = xs.takeWhile p := by
  have hys : ys.takeWhile p = [] := by
    cases ys with
    | nil => rfl
    | cons y ys => rw [List.takeWhile_cons_of_neg (by simp [h y rfl])]
  induction xs with
  | nil => exact hys
  | cons x xs ih => rw [List.cons_append, List.takeWhile_cons, List.takeWhile_cons, ih]

theorem Tree.snippet_of_type {tree : Tree} {n : Node} (hk : n.kind.isTypeDeclaration = true) :
    tree.snippet n = tree.typeSnippet n := by
  have hmember : (n.kind = .method || n.kind = .constructor) = false := by
    cases hkind : n.kind <;> rw [hkind] at hk <;> first | rfl | cases hk
  rw [Tree.snippet, hmember, if_neg Bool.false_ne_true, if_pos hk]

/-- What the snippet of a type shows is a first part of its header. -/
theorem typeHeaderTokens_eq {tree : Tree} {n : Node} (h : EndsHeader tree.tokens n (headerEnd tree.tokens n)) :
    tree.typeHeaderTokens n = (tree.typeHeader n).takeWhile (!·.endsSnippet) := by
  have hsplit : tree.tokensOf n = tree.typeHeader n ++ between tree.tokens (headerEnd tree.tokens n) n.stop :=
    between_append h.range.1 h.range.2
  have hends : (fun t : Token => t.kind ≠ .lbrace && t.kind ≠ .semi) = (!·.endsSnippet) := by
    funext t
    simp [Token.endsSnippet]
  rw [Tree.typeHeaderTokens, hends, hsplit]
  exact takeWhile_append_of_head fun t ht => by simp [h.head_endsSnippet t ht]

section

variable {ts us : List Token}

/-- Known tokens with a space behind each are, trimmed, the tokens with a space between them. -/
theorem trimmed_spaced (h : ∀ t ∈ ts, ∃ x, t.ReadsBefore x) :
    trimmed (String.join (ts.map (·.text ++ " "))) = " ".intercalate (ts.map (·.text)) := by
  have hspells := spells_words h
  cases ts with
  | nil => rfl
  | cons t ts =>
    rw [map_spaced, List.map_cons, join_spaced]
    refine String.toList_injective ?_
    rw [trimmed, String.toList_ofList, String.toList_append]
    have hblank : ∀ c ∈ " ".toList, Unicode.isBlank c = true := List.forall_mem_singleton.2 rfl
    exact trim_between (List.forall_mem_nil _) hblank hspells.first hspells.last

/-- Known tokens are told by their texts with a space between them. -/
theorem bares_of_words (ht : ∀ t ∈ ts, ∃ x, t.ReadsBefore x) (hu : ∀ u ∈ us, ∃ x, u.ReadsBefore x)
    (h : " ".intercalate (ts.map (·.text)) = " ".intercalate (us.map (·.text))) :
    ts.map Token.bare = us.map Token.bare := by
  rw [← (spells_words ht).bares_end, h, (spells_words hu).bares_end]

end

/-- **The snippet of a type shows its whole header iff no part of the header has a brace or a semicolon in it.**
Where the header ends is told by the tree. Whatever it has in it, the snippet shows the tokens of the header up to its
first brace or semicolon, a space apart. -/
theorem typeSnippet_eq_header_iff (source : String) :
    ∀ p ∈ (Tree.ofSource source).places, p.node.kind.isTypeDeclaration = true → p.node.kind ≠ .enumType →
      (∀ t ∈ (Tree.ofSource source).tokensOf p.node, t.kind ≠ .unknown) →
      EndsHeader (Tree.ofSource source).tokens p.node (headerEnd (Tree.ofSource source).tokens p.node) ∧
      (Tree.ofSource source).snippet p.node = " ".intercalate
        ((((Tree.ofSource source).typeHeader p.node).takeWhile (!·.endsSnippet)).map (·.text)) ∧
      ((Tree.ofSource source).snippet p.node =
          " ".intercalate (((Tree.ofSource source).typeHeader p.node).map (·.text)) ↔
        ∀ t ∈ (Tree.ofSource source).typeHeader p.node, t.endsSnippet = false) := by
  intro p hp hk henum hu
  have hscope : p.node.kind.isScope = true ∧ p.node.kind ≠ .namespaceUnit := by
    revert hk henum
    cases p.node.kind <;> decide
  have hdeclared : p.node.kind.isDeclared = true := by simp [NodeKind.isDeclared, hk]
  have hends := endsHeader_of_isMember (Tree.isMember_of_isDeclared hp hdeclared) hscope.1 hscope.2
  have hreads : ∀ t ∈ (Tree.ofSource source).typeHeader p.node, ∃ x, t.ReadsBefore x := by
    refine (readFrom_of_tokens (between_split _ hends.range.1) fun t ht => hu t ?_).exists_readsBefore
    exact between_subset (Nat.le_refl _) hends.range.2 ht
  have hshown : ∀ t ∈ ((Tree.ofSource source).typeHeader p.node).takeWhile (!·.endsSnippet), ∃ x, t.ReadsBefore x :=
    fun t ht => hreads t (List.takeWhile_subset _ ht)
  have hsnippet : (Tree.ofSource source).snippet p.node = " ".intercalate
      ((((Tree.ofSource source).typeHeader p.node).takeWhile (!·.endsSnippet)).map (·.text)) := by
    rw [← typeHeaderTokens_eq hends] at hshown ⊢
    rw [Tree.snippet_of_type hk]
    exact trimmed_spaced hshown
  refine ⟨hends, hsnippet, ?_⟩
  rw [hsnippet]
  constructor
  · intro h
    have hlength := congrArg List.length (bares_of_words hshown hreads h)
    rw [List.length_map, List.length_map] at hlength
    have hall := (List.takeWhile_prefix _).eq_of_length hlength
    simpa using List.takeWhile_eq_self_iff.1 hall
  · intro h
    rw [List.takeWhile_eq_self_iff.2 (by simpa using h)]

/-- Headers with all their parts, of types with a scope, with a semicolon and cut off by the end of the source. -/
theorem typeSnippet_eq_header_sample : ∃ tree, tree = Tree.ofSource
      "[A(\"\x7b;\")] partial class C<T>(int a)\n  : D<int[]>, E where T : new() \x7b\n class G; \x7d; struct S<T" ∧
    (tree.places.filter (·.node.kind.isTypeDeclaration)).map (fun p => tree.snippet p.node) =
      ["[ A ( \"\x7b;\" ) ] partial class C < T > ( int a ) : D < int [ ] > , E where T : new ( )",
        "class G", "struct S < T"] ∧
    (∀ p ∈ tree.places, ∀ t ∈ tree.tokensOf p.node, t.kind ≠ .unknown) ∧
    (∀ p ∈ tree.places, p.node.kind ≠ .enumType ∧
      (p.node.kind.isTypeDeclaration = true → ∀ t ∈ tree.typeHeader p.node, t.endsSnippet = false)) ∧
    ∀ p ∈ tree.places, p.node.kind.isTypeDeclaration = true →
      EndsHeader tree.tokens p.node (headerEnd tree.tokens p.node) ∧
      tree.snippet p.node = " ".intercalate ((tree.typeHeader p.node).map (·.text)) := by
  refine ⟨_, rfl, ?_, ?known, ?whole, fun p hp hk => ?_⟩
  · decide +kernel
  · decide +kernel
  · decide +kernel
  · obtain ⟨henum, hwhole⟩ := ?whole p hp
    obtain ⟨hends, -, hiff⟩ := typeSnippet_eq_header_iff _ p hp hk henum (?known p hp)
    exact ⟨hends, hiff.2 (hwhole hk)⟩

/-- The attribute of a class has a braced list in it, so its snippet ends inside of the attribute. -/
theorem typeSnippet_not_always_header : ∃ tree,
    tree = Tree.ofSource "namespace N; [A(new[] \x7b 1 \x7d)] class C \x7b \x7d" ∧
    ∃ p ∈ tree.places, p.node.kind = .classType ∧ tree.name? p.node = some "C" ∧
      (∀ t ∈ tree.tokensOf p.node, t.kind ≠ .unknown) ∧ headerEnd? tree.tokens p.node = some 16 ∧
      kindAt? tree.tokens 16 = some .lbrace ∧
      " ".intercalate ((tree.typeHeader p.node).map (·.text)) = "[ A ( new [ ] \x7b 1 \x7d ) ] class C" ∧
      tree.snippet p.node = "[ A ( new [ ]" := by
  refine ⟨_, rfl, ?_⟩
  decide +kernel

end DocPages.Source
