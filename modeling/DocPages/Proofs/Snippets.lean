/-
Snippets of constructors and methods show their headers. A snippet is put
together from the modifiers, the name and the children of a node, with spacing
of its own; read again, it gives the tokens of the header in their order and
nothing else (`memberSnippet_tokens`). What a part adds to the text is told by one
lemma for each way to add it, all in terms of the tokens shown so far (`Shown`).
-/
import DocPages.Proofs.Braces
import DocPages.Proofs.MemberLayout
import DocPages.Proofs.Respelling
import DocPages.Source.Snippet

namespace DocPages.Source

/-! ## Headers -/

/-- Where the header of a member begins: behind the attributes in front of it. -/
def Node.headerStart (n : Node) : Nat :=
  (n.children.takeWhile (·.kind = .attributeList)).getLast?.elim n.start (·.stop)

/-- Where the header of a member ends: in front of its body, or behind its last part if it has none. -/
def Node.headerStop (n : Node) : Nat :=
  match n.children.find? (·.kind.isBody) with
  | some b => b.start
  | none => n.children.getLast?.elim n.start (·.stop)

/-- The tokens of the header of a member. -/
def Tree.headerTokens (tree : Tree) (n : Node) : List Token :=
  between tree.tokens n.headerStart n.headerStop

theorem IsNameFront.kind {ts : List Token} {m : Nat} {k : NodeKind} {front : List Node}
    (h : IsNameFront ts m k front) : ∀ x ∈ front, x.kind = .type ∨ x.kind = .explicitInterface := by
  cases h with
  | constructor => simp
  | method ht => simp [ht]
  | explicit ht hi => simp [ht, hi]

theorem isBody_of_tailMark? {k : NodeKind} {m : TokenKind} (h : k.tailMark? = some m) :
    k ≠ .attributeList ∧ k.isBody = false := by
  cases k <;> first | exact ⟨by decide, rfl⟩ | cases h

theorem eq_parameterList_of_tailMark? {k : NodeKind} (h : k.tailMark? = some .lparen) :
    k = .parameterList := by
  cases k <;> first | rfl | cases h

namespace MemberLayout

variable {ts : List Token} {n : Node} (l : MemberLayout ts n)

include l

/-- The parts in front of the name and behind it are no attributes and no bodies. -/
theorem shown_kind {x : Node} (hx : x ∈ l.front ++ l.tail) :
    x.kind ≠ .attributeList ∧ x.kind.isBody = false := by
  rcases List.mem_append.1 hx with hx | hx
  · rcases l.isFront.kind x hx with h | h <;> simp [h, NodeKind.isBody]
  · obtain ⟨k, hk, -⟩ := (l.isTail x hx).mark
    exact isBody_of_tailMark? hk

theorem headerStart_eq : n.headerStart = l.start := by
  have hattributes : ∀ x ∈ l.attributes, decide (x.kind = .attributeList) = true := by
    simpa using l.attributes_kind
  have hne : l.front ++ l.tail ≠ [] := by simp [l.nonempty]
  obtain ⟨x, rest, hx⟩ := List.exists_cons_of_ne_nil hne
  have hkind : x.kind ≠ .attributeList := (l.shown_kind (hx ▸ List.mem_cons_self)).1
  have htake : n.children.takeWhile (·.kind = .attributeList) = l.attributes := by
    rw [l.children_eq, hx, List.takeWhile_append_of_pos hattributes, List.cons_append,
      List.takeWhile_cons_of_neg (by simp [hkind]), List.append_nil]
  rw [Node.headerStart, htake, l.attributes_tiled.last]

theorem not_isBody {x : Node} (hx : x ∈ l.attributes ++ (l.front ++ l.tail)) : x.kind.isBody = false := by
  rcases List.mem_append.1 hx with hx | hx
  · rw [l.attributes_kind x hx]
    rfl
  · exact (l.shown_kind hx).2

theorem mem_bodies_iff {b : Node} : b ∈ l.bodies ↔ b ∈ n.children ∧ b.kind.isBody = true := by
  constructor
  · intro hb
    refine ⟨?_, (l.isBody b hb).1⟩
    rw [l.children_eq]
    exact List.mem_append_right _ (List.mem_append_right _ hb)
  · rintro ⟨hb, hbody⟩
    rw [l.children_eq, ← List.append_assoc] at hb
    rcases List.mem_append.1 hb with hb | hb
    · rw [l.not_isBody hb] at hbody
      cases hbody
    · exact hb

theorem headerStop_eq : n.headerStop = l.stop := by
  have hparts : (l.attributes ++ (l.front ++ l.tail)).find? (·.kind.isBody) = none := by
    rw [List.find?_eq_none]
    intro x hx
    simp [l.not_isBody hx]
  have hfind : n.children.find? (·.kind.isBody) = l.bodies.find? (·.kind.isBody) := by
    rw [l.children_eq, ← List.append_assoc, List.find?_append, hparts, Option.none_or]
  rw [Node.headerStop, hfind]
  cases hb : l.bodies with
  | nil =>
    have hlast := l.tail_tiled.last
    have hchildren : n.children.getLast? = l.tail.getLast? := by
      rw [l.children_eq, hb, List.append_nil, ← List.append_assoc,
        List.getLast?_append_of_ne_nil _ l.nonempty]
    show n.children.getLast?.elim n.start (·.stop) = l.stop
    rw [hchildren]
    cases ht : l.tail.getLast? with
    | none => exact absurd (List.getLast?_eq_none_iff.1 ht) l.nonempty
    | some x => simpa [ht] using hlast
  | cons b bs =>
    obtain ⟨hbody, hstart⟩ := l.isBody b (hb ▸ List.mem_cons_self)
    have hfirst : (b :: bs).find? (·.kind.isBody) = some b := List.find?_cons_of_pos hbody
    rw [hfirst]
    exact hstart

/-- What a snippet is made of, modifiers and name apart. -/
theorem shown_parts :
    ((n.children.filter (·.kind ≠ .attributeList)).takeWhile fun child => !child.kind.isBody) =
      l.front ++ l.tail := by
  have hattributes : l.attributes.filter (·.kind ≠ .attributeList) = [] := by
    rw [List.filter_eq_nil_iff]
    intro x hx
    simp [l.attributes_kind x hx]
  have hparts : (l.front ++ l.tail).filter (·.kind ≠ .attributeList) = l.front ++ l.tail := by
    rw [List.filter_eq_self]
    intro x hx
    simp [(l.shown_kind hx).1]
  have hbodies :
      (l.bodies.filter (·.kind ≠ .attributeList)).takeWhile (fun child => !child.kind.isBody) = [] := by
    have hall : ∀ b ∈ l.bodies.filter (·.kind ≠ .attributeList), b.kind.isBody = true := by
      intro b hb
      exact (l.isBody b (List.mem_of_mem_filter hb)).1
    cases hb : l.bodies.filter (·.kind ≠ .attributeList) with
    | nil => rfl
    | cons b bs => rw [List.takeWhile_cons_of_neg (by simp [hall b (hb ▸ List.mem_cons_self)])]
  have hshown : ∀ x ∈ l.front ++ l.tail, (!x.kind.isBody) = true := by
    intro x hx
    simp [(l.shown_kind hx).2]
  rw [l.children_eq, List.filter_append, hattributes, List.nil_append, List.filter_append, hparts,
    List.takeWhile_append_of_pos hshown, hbodies, List.append_nil]

theorem ordered :
    n.start ≤ l.start ∧ l.start ≤ l.mid ∧ l.mid ≤ l.name ∧ l.name < l.stop ∧ l.stop ≤ n.stop := by
  have ha := l.attributes_tiled.le
  have hf := l.front_tiled.le
  have ht := l.tail_tiled.le
  have hm := l.le
  have hs := l.stop_le
  omega

end MemberLayout

/-! ## Tokens between two indices -/

section

variable {ts : List Token} {a b k : Nat}

theorem between_single {t : Token} (h : ts[k]? = some t) : between ts k (k + 1) = [t] := by
  have hhead : (ts.drop k).head? = some t := by rw [List.head?_drop, h]
  obtain ⟨rest, hrest⟩ := List.head?_eq_some_iff.1 hhead
  rw [between, hrest, Nat.add_sub_cancel_left, List.take_succ_cons, List.take_zero]

theorem between_cons {t : Token} (h : ts[a]? = some t) (hab : a < b) :
    between ts a b = t :: between ts (a + 1) b := by
  rw [between_append (Nat.le_add_right a 1) hab, between_single h]
  rfl

theorem between_concat {t : Token} (h : ts[k]? = some t) (hak : a ≤ k) :
    between ts a (k + 1) = between ts a k ++ [t] := by
  rw [between_append hak (Nat.le_add_right k 1), between_single h]

theorem between_split (ts : List Token) (hab : a ≤ b) : ts = ts.take a ++ between ts a b ++ ts.drop b := by
  have hdrop : ts.drop b = (ts.drop a).drop (b - a) := by
    rw [List.drop_drop]
    congr 1
    omega
  rw [between, List.append_assoc, hdrop, List.take_append_drop, List.take_append_drop]

theorem exists_of_kindAt? {k : TokenKind} {i : Nat} (h : kindAt? ts i = some k) :
    ∃ t, ts[i]? = some t ∧ t.kind = k :=
  Option.map_eq_some_iff.1 h

end

/-! ## Parts of a snippet -/

/-- Adds a part other than the one that the name goes in front of. -/
def Tree.addPlain (tree : Tree) (out : String) (child : Node) : String :=
  (if child.kind = .parameterList then endTrimmed out else out) ++ tree.text child ++ " "

/-- Any stretch of the tokens from `a` up to `b` is read again from its text on one line. -/
def Tree.IsLegible (tree : Tree) (a b : Nat) : Prop :=
  ∀ x y, a ≤ x → x ≤ y → y ≤ b →
    Spells (Token.joined (between tree.tokens x y)).toList (between tree.tokens x y)

/-- Known tokens of a source are legible. -/
theorem isLegible_of_known {source : String} {a b : Nat}
    (h : ∀ t ∈ between (Tree.ofSource source).tokens a b, t.kind ≠ .unknown) :
    (Tree.ofSource source).IsLegible a b := by
  intro x y hax hxy hyb
  have hknown : ∀ t ∈ between (Tree.ofSource source).tokens x y, t.kind ≠ .unknown := by
    intro t ht
    refine h t ?_
    rw [between_append hax (Nat.le_trans hxy hyb), between_append hxy hyb]
    exact List.mem_append_right _ (List.mem_append_left _ ht)
  exact spells_joined (readFrom_of_tokens (between_split (TokenStream.ofSource source).tokens hxy) hknown)

/-- The text shows the tokens from `a` up to `b` and ends with a space, so that a part may follow. -/
def Tree.Shown (tree : Tree) (a b : Nat) (out : String) : Prop :=
  ∃ prior, out = prior ++ " " ∧ Laid prior (between tree.tokens a b)

section

variable {tree : Tree} {a b m x y : Nat} {out text name : String} {n : Node}

namespace Tree.Shown

theorem part (h : tree.Shown a x out) (hs : Spells text.toList (between tree.tokens x y)) (hax : a ≤ x)
    (hxy : x ≤ y) : tree.Shown a y (out ++ text ++ " ") := by
  obtain ⟨prior, rfl, hl⟩ := h
  refine ⟨prior ++ " " ++ text, rfl, ?_⟩
  rw [between_append hax hxy]
  exact hl.part hs

/-- A part in place of the space, in front of which more may have been added. -/
theorem trimmedPart {c : Char} {w : List Char} (h : Laid out (between tree.tokens a x))
    (hs : Spells text.toList (between tree.tokens x y)) (hw : text.toList = c :: w)
    (hc : isSeparator c = true) (hax : a ≤ x) (hxy : x ≤ y) :
    tree.Shown a y (endTrimmed out ++ text ++ " ") := by
  refine ⟨endTrimmed out ++ text, rfl, ?_⟩
  rw [between_append hax hxy]
  exact h.trimmedPart hs hw hc

end Tree.Shown

/-- The text of a node that begins with a mark. -/
theorem text_of_mark {k : TokenKind} {c : Char} (h : tree.IsLegible a b) (ha : a ≤ n.start)
    (hn : n.start < n.stop) (hb : n.stop ≤ b) (hk : kindAt? tree.tokens n.start = some k)
    (hc : markKind? c = some k) : ∃ w, (tree.text n).toList = c :: w := by
  obtain ⟨t, ht, rfl⟩ := exists_of_kindAt? hk
  have hcons : between tree.tokens n.start n.stop = t :: between tree.tokens (n.start + 1) n.stop :=
    between_cons ht hn
  have hspells := h n.start n.stop ha (Nat.le_of_lt hn) hb
  obtain ⟨z, hz⟩ := hspells.known t (hcons ▸ List.mem_cons_self)
  have hmark : t.text.toList = [c] := hz.eq_mark hc
  have hjoined := joined_append [] t (between tree.tokens (n.start + 1) n.stop)
  rw [List.append_nil, hmark, ← hcons] at hjoined
  exact ⟨_, hjoined⟩

/-- The name of a node, as a text of its own. -/
theorem spells_textAt (h : tree.IsLegible a b) (ha : a ≤ m) (hb : m < b)
    (hm : kindAt? tree.tokens m = some .ident) :
    Spells (tree.textAt m).toList (between tree.tokens m (m + 1)) ∧
      ∀ c, (tree.textAt m).toList.head? = some c → c.isDigit = false := by
  obtain ⟨t, ht, hk⟩ := exists_of_kindAt? hm
  have hsingle := between_single ht
  have htext : tree.textAt m = t.text := by rw [Tree.textAt, ht, Option.elim_some]
  have hspells := h m (m + 1) ha (Nat.le_add_right m 1) hb
  rw [hsingle] at hspells ⊢
  rw [htext]
  refine ⟨hspells, fun c hc => ?_⟩
  obtain ⟨z, hz⟩ := hspells.known t List.mem_cons_self
  rw [Token.ReadsBefore, hk] at hz
  exact hz.not_digit hc

/-! ### Plain parts -/

/-- Parameter lists begin with a parenthesis. -/
def OpensList (ts : List Token) (n : Node) : Prop :=
  n.kind = .parameterList → n.start < n.stop ∧ kindAt? ts n.start = some .lparen

theorem IsTailPart.opensList {ts : List Token} (h : IsTailPart ts n) : OpensList ts n := by
  intro hk
  obtain ⟨k, hmark, hkind⟩ := h.mark
  rw [hk] at hmark
  exact ⟨h.nonempty, hkind.trans hmark.symm⟩

theorem shown_addPlain (h : tree.IsLegible a b) (hn : OpensList tree.tokens n) (hs : tree.Shown a n.start out)
    (ha : a ≤ n.start) (hle : n.start ≤ n.stop) (hb : n.stop ≤ b) :
    tree.Shown a n.stop (tree.addPlain out n) := by
  have hspells : Spells (tree.text n).toList (between tree.tokens n.start n.stop) := h _ _ ha hle hb
  unfold Tree.addPlain
  by_cases hk : n.kind = .parameterList
  · obtain ⟨hlt, hmark⟩ := hn hk
    obtain ⟨w, hw⟩ := text_of_mark (c := '(') h ha hlt hb hmark rfl
    obtain ⟨prior, rfl, hl⟩ := hs
    rw [if_pos hk]
    exact .trimmedPart hl.space hspells hw rfl ha hle
  · rw [if_neg hk]
    exact hs.part hspells ha hle

theorem shown_foldl {ns : List Node} (h : tree.IsLegible a b) (ht : Tiled x ns y)
    (hn : ∀ n ∈ ns, OpensList tree.tokens n) (ha : a ≤ x) (hb : y ≤ b) (hs : tree.Shown a x out) :
    tree.Shown a y (ns.foldl tree.addPlain out) := by
  induction ht generalizing out with
  | nil => exact hs
  | @cons x y n ns hstart hle hrest ih =>
    have hstop := hrest.le
    subst hstart
    have hfirst := shown_addPlain h (hn n List.mem_cons_self) hs ha hle (by omega)
    exact ih (fun m hm => hn m (List.mem_cons_of_mem _ hm)) (by omega) hb hfirst

/-! ### The part with the name -/

theorem addPart_plain {slot i : Nat} (hi : i ≠ slot) :
    tree.addPart name slot out (n, i) = tree.addPlain out n := by
  simp [Tree.addPart, Tree.addPlain, hi]

theorem addPart_named {slot : Nat} (hk : n.kind ≠ .explicitInterface) :
    tree.addPart name slot out (n, slot) = tree.addPlain (out ++ name) n := by
  simp [Tree.addPart, Tree.addPlain, hk]

theorem addPart_interface {slot : Nat} (hk : n.kind = .explicitInterface) :
    tree.addPart name slot out (n, slot) = out ++ tree.text n ++ name ++ " " := by
  simp [Tree.addPart, hk]

/-- Behind the part with the name, all parts are plain. -/
theorem foldl_addPart {slot k : Nat} (hk : slot < k) (ns : List Node) (out : String) :
    (ns.zipIdx k).foldl (tree.addPart name slot) out = ns.foldl tree.addPlain out := by
  induction ns generalizing k out with
  | nil => rfl
  | cons n ns ih =>
    rw [List.zipIdx_cons, List.foldl_cons, List.foldl_cons, addPart_plain (by omega), ih (by omega)]

/-- The name stands in front of the first part behind it. -/
theorem shown_named (h : tree.IsLegible a b) (hm : kindAt? tree.tokens m = some .ident)
    (hn : IsTailPart tree.tokens n) (hstart : n.start = m + 1)
    (hopen : kindAt? tree.tokens (m + 1) = some .lt ∨ kindAt? tree.tokens (m + 1) = some .lparen)
    (ha : a ≤ m) (hb : n.stop ≤ b) (hs : tree.Shown a m out) :
    tree.Shown a n.stop (tree.addPlain (out ++ tree.textAt m) n) := by
  have hlt := hn.nonempty
  have hle : a ≤ n.start := by omega
  obtain ⟨hname, -⟩ := spells_textAt h ha (by omega) hm
  have hspells : Spells (tree.text n).toList (between tree.tokens n.start n.stop) := h _ _ hle (by omega) hb
  unfold Tree.addPlain
  by_cases hk : n.kind = .parameterList
  · obtain ⟨w, hw⟩ := text_of_mark (c := '(') h hle hlt hb (hn.opensList hk).2 rfl
    obtain ⟨prior, rfl, hl⟩ := hs
    have hnamed : Laid (prior ++ " " ++ tree.textAt m) (between tree.tokens a n.start) := by
      rw [hstart, between_append ha (Nat.le_add_right m 1)]
      exact hl.part hname
    rw [if_pos hk]
    exact .trimmedPart hnamed hspells hw rfl hle (by omega)
  · -- Type parameters stand right behind the name, with nothing trimmed: their bracket ends it.
    have hmark : kindAt? tree.tokens n.start = some .lt := by
      obtain ⟨k, hk', hkind⟩ := hn.mark
      rw [hstart] at hkind ⊢
      rcases hopen with ho | ho
      · exact ho
      · obtain rfl : k = .lparen := Option.some.inj (hkind.symm.trans ho)
        exact absurd (eq_parameterList_of_tailMark? hk') hk
    obtain ⟨w, hw⟩ := text_of_mark (c := '<') h hle hlt hb hmark rfl
    have hboth : Spells (tree.textAt m ++ tree.text n).toList (between tree.tokens m n.stop) := by
      rw [hstart] at hspells
      rw [between_append (Nat.le_add_right m 1) (by omega), String.toList_append]
      exact hname.separated hspells hw rfl
    have hpart := hs.part hboth ha (by omega)
    rw [if_neg hk]
    rwa [← String.append_assoc] at hpart

/-- Behind the interface that a member belongs to, the name follows at once. -/
theorem shown_interface (h : tree.IsLegible a b) (hm : kindAt? tree.tokens m = some .ident)
    (hn : Tiled x [n] m) (hlt : n.start < m) (hdot : kindAt? tree.tokens (m - 1) = some .dot)
    (ha : a ≤ x) (hb : m < b) (hs : tree.Shown a x out) :
    tree.Shown a (m + 1) (out ++ tree.text n ++ tree.textAt m ++ " ") := by
  obtain ⟨hstart, -, hrest⟩ := hn.of_cons
  have hstop := hrest.eq_of_nil
  subst hstart hstop
  obtain ⟨k, hk⟩ : ∃ k, n.stop = k + 1 := ⟨n.stop - 1, by omega⟩
  obtain ⟨u, hu, hukind⟩ := exists_of_kindAt? hdot
  obtain ⟨hname, hdigit⟩ := spells_textAt h (by omega) hb hm
  have hspells : Spells (tree.text n).toList (between tree.tokens n.start n.stop) :=
    h _ _ ha (Nat.le_of_lt hlt) (Nat.le_of_lt hb)
  have hlast : (between tree.tokens n.start n.stop).getLast? = some u := by
    rw [hk, Nat.add_sub_cancel] at hu
    rw [hk, between_concat hu (by omega), List.getLast?_concat]
  have hname_ne : (tree.textAt n.stop).toList ≠ [] := by
    obtain ⟨t, ht, -⟩ := exists_of_kindAt? hm
    rw [Ne, hname.nil_iff, between_single ht]
    exact List.cons_ne_nil t []
  -- A dot is a token whatever follows, and a name does not begin with a digit that would make it a number.
  have hjoint : ∀ y t, (between tree.tokens n.start n.stop).getLast? = some t →
      t.ReadsBefore ((tree.textAt n.stop).toList ++ y) := by
    intro y t ht
    rw [hlast] at ht
    obtain rfl := Option.some.inj ht
    obtain ⟨z, hz⟩ := hspells.known u (List.mem_of_getLast? hlast)
    rw [Token.ReadsBefore, hukind] at hz ⊢
    rw [hz.eq_mark (c := '.') rfl]
    exact .mark rfl
  have hboth : Spells (tree.text n ++ tree.textAt n.stop).toList
      (between tree.tokens n.start (n.stop + 1)) := by
    rw [between_append (Nat.le_of_lt hlt) (Nat.le_add_right n.stop 1), String.toList_append]
    exact hspells.tight hname hname_ne hjoint hdigit
  have hpart := hs.part hboth ha (by omega)
  rwa [← String.append_assoc] at hpart

/-- A type in front of the name is a plain part. -/
theorem shown_type (h : tree.IsLegible a b) (hk : n.kind = .type) (hn : Tiled x [n] y) (ha : a ≤ x)
    (hb : y ≤ b) (hs : tree.Shown a x out) : tree.Shown a y (tree.addPart name 1 out (n, 0)) := by
  have hlist : ∀ m ∈ [n], OpensList tree.tokens m := by
    intro m hm hlist
    rw [List.mem_singleton.1 hm, hk] at hlist
    cases hlist
  rw [addPart_plain Nat.zero_ne_one]
  exact shown_foldl h hn hlist ha hb hs

end

/-! ## Snippets -/

section

variable {tree : Tree} {n : Node} {out : String} (l : MemberLayout tree.tokens n)

/-- The name and what stands behind it. -/
theorem shown_tail (h : tree.IsLegible l.start l.stop) (slot : Nat) (hs : tree.Shown l.start l.name out) :
    tree.Shown l.start l.stop ((l.tail.zipIdx slot).foldl (tree.addPart (tree.textAt l.name) slot) out) := by
  obtain ⟨-, hmid, hname, -, -⟩ := l.ordered
  obtain ⟨x, rest, htail⟩ := List.exists_cons_of_ne_nil l.nonempty
  obtain ⟨hstart, -, hrest⟩ := (htail ▸ l.tail_tiled).of_cons
  obtain ⟨hx, hparts⟩ := List.forall_mem_cons.1 (htail ▸ l.isTail)
  have hstop := hrest.le
  have hlt := hx.nonempty
  have hkind : x.kind ≠ .explicitInterface := by
    obtain ⟨k, hk, -⟩ := hx.mark
    intro he
    rw [he] at hk
    cases hk
  have hfirst := shown_named h l.isIdent hx hstart l.opening (by omega) hstop hs
  rw [htail, List.zipIdx_cons, List.foldl_cons, addPart_named hkind, foldl_addPart (Nat.lt_succ_self slot)]
  exact shown_foldl h hrest (fun y hy => (hparts y hy).opensList) (by omega) (Nat.le_refl l.stop) hfirst

/-- **The parts of a member with its name among them show the tokens of its header.** -/
theorem shown_header (h : tree.IsLegible l.start l.stop) (hs : tree.Shown l.start l.mid out) :
    tree.Shown l.start l.stop ((l.front ++ l.tail).zipIdx.foldl
      (tree.addPart (tree.textAt l.name) (if n.kind = .constructor then 0 else 1)) out) := by
  obtain ⟨-, hmid, -, hname, -⟩ := l.ordered
  have hfront := l.isFront
  have hf := l.front_tiled
  generalize l.front = front at hfront hf ⊢
  generalize n.kind = kind at hfront ⊢
  cases hfront with
  | constructor =>
    rw [hf.eq_of_nil] at hs
    exact shown_tail l h 0 hs
  | method htype => exact shown_tail l h 1 (shown_type h htype hf hmid (Nat.le_of_lt hname) hs)
  | @explicit t i htype hi hlt hdot =>
    -- The name follows the interface, so every part behind it is plain.
    obtain ⟨hstart, hle, hi'⟩ := hf.of_cons
    have ht : Tiled l.mid [t] t.stop := .single hstart rfl hle
    have hle' := hi'.le
    have hfirst : tree.Shown l.start t.stop (tree.addPart (tree.textAt l.name) 1 out (t, 0)) :=
      shown_type h htype ht hmid (by omega) hs
    have hboth := shown_interface h l.isIdent hi' hlt hdot (by omega) hname hfirst
    have hfold : ∀ out, (([t, i] ++ l.tail).zipIdx.foldl (tree.addPart (tree.textAt l.name) 1) out) =
        l.tail.foldl tree.addPlain (tree.addPart (tree.textAt l.name) 1 out (t, 0) ++ tree.text i ++
          tree.textAt l.name ++ " ") := fun out => by
      rw [← addPart_interface hi, ← foldl_addPart (Nat.lt_succ_self 1)]
      rfl
    have hlists : ∀ x ∈ l.tail, OpensList tree.tokens x := fun x hx => (l.isTail x hx).opensList
    show tree.Shown _ _ (([t, i] ++ l.tail).zipIdx.foldl (tree.addPart (tree.textAt l.name) 1) out)
    rw [hfold]
    exact shown_foldl h l.tail_tiled hlists (by omega) (Nat.le_refl l.stop) hboth

end

/-- Known tokens with a space between them. -/
theorem spells_words {ts : List Token} (h : ∀ t ∈ ts, ∃ x, t.ReadsBefore x) :
    Spells (" ".intercalate (ts.map (·.text))).toList ts := by
  induction ts with
  | nil => exact .nil
  | cons t ts ih =>
    obtain ⟨ht, hrest⟩ := List.forall_mem_cons.1 h
    have hfirst := Spells.token ht
    cases ts with
    | nil => exact hfirst
    | cons u us =>
      have hbehind := ih hrest
      have hne : t.text.toList ≠ [] := by simp [hfirst.nil_iff]
      have hne' : (" ".intercalate ((u :: us).map (·.text))).toList ≠ [] := fun he =>
        List.cons_ne_nil u us (hbehind.nil_iff.1 he)
      have htext : (" ".intercalate ((t :: u :: us).map (·.text))).toList =
          t.text.toList ++ ([' '] ++ (" ".intercalate ((u :: us).map (·.text))).toList) := by
        simp [String.intercalate_cons_cons]
      rw [htext]
      exact hfirst.spaced hbehind (by simp) (by simp) hne hne'

theorem map_textAt {tree : Tree} {a k : Nat} (h : a + k ≤ tree.tokens.length) :
    (List.range' a k).map tree.textAt = (between tree.tokens a (a + k)).map (·.text) := by
  induction k generalizing a with
  | zero => simp [between]
  | succ k ih =>
    have hlt : a < tree.tokens.length := by omega
    have ht : tree.tokens[a]? = some tree.tokens[a] := List.getElem?_eq_getElem hlt
    have hrest := ih (a := a + 1) (by omega)
    rw [show a + 1 + k = a + (k + 1) by omega] at hrest
    rw [List.range'_succ, List.map_cons, between_cons ht (by omega), List.map_cons, hrest, Tree.textAt, ht,
      Option.elim_some]

/-- The modifiers of a member show the first tokens of its header. -/
theorem shown_modifiers {tree : Tree} {n : Node} (l : MemberLayout tree.tokens n)
    (h : tree.IsLegible l.start l.stop) (hn : n.stop ≤ tree.tokens.length) :
    tree.Shown l.start l.mid (" ".intercalate (tree.modifiersOf n) ++ " ") := by
  obtain ⟨-, hmid, hname, hstop, hle⟩ := l.ordered
  have hspells := h l.start l.mid (Nat.le_refl l.start) hmid (by omega)
  have hwords : tree.modifiersOf n = (between tree.tokens l.start l.mid).map (·.text) := by
    have hmap : (List.range' l.start (l.mid - l.start)).map tree.textAt =
        (between tree.tokens l.start (l.start + (l.mid - l.start))).map (·.text) := map_textAt (by omega)
    rwa [Nat.add_sub_cancel' hmid, ← l.modifiers_eq] at hmap
  rw [hwords]
  exact ⟨_, rfl, .of_spells (spells_words hspells.known)⟩

/-- **A snippet put together from the parts of a member is read as the tokens of its header.** -/
theorem memberSnippet_tokens {source : String} {n : Node} (l : MemberLayout (Tree.ofSource source).tokens n)
    (hn : n.stop ≤ (Tree.ofSource source).tokens.length)
    (hu : ∀ t ∈ (Tree.ofSource source).headerTokens n, t.kind ≠ .unknown) :
    (TokenStream.ofSource ((Tree.ofSource source).memberSnippet n)).tokens.map Token.bare =
      ((Tree.ofSource source).headerTokens n).map Token.bare := by
  rw [Tree.headerTokens, l.headerStart_eq, l.headerStop_eq] at hu ⊢
  have h := isLegible_of_known hu
  have hname : (Tree.ofSource source).nameOf n = (Tree.ofSource source).textAt l.name := by
    rw [Tree.nameOf, Tree.name?, l.name_eq, Option.map_some, Option.getD_some]
  obtain ⟨prior, hout, hlaid⟩ := shown_header l h (shown_modifiers l h hn)
  simp only [Tree.memberSnippet, l.shown_parts, hname, hout]
  exact hlaid.space.bares_trimmed

/-- The snippet of a constructor or a method is read as one range of its tokens. The range leaves out
attributes in front, the body, and a semicolon in place of one; and the name is in it. -/
structure ShowsHeader (tree : Tree) (n : Node) : Prop where
  range : n.start ≤ n.headerStart ∧ n.headerStart ≤ n.headerStop ∧ n.headerStop ≤ n.stop
  name : ∃ i, n.name? = some i ∧ n.headerStart ≤ i ∧ i < n.headerStop
  bodies : ∀ b ∈ n.children, b.kind.isBody = true → n.headerStop ≤ b.start
  ending : (∀ b ∈ n.children, b.kind.isBody = false) →
    n.stop = n.headerStop ∨ n.stop = n.headerStop + 1 ∧ kindAt? tree.tokens n.headerStop = some .semi
  tokens : (TokenStream.ofSource (tree.snippet n)).tokens.map Token.bare =
    (tree.headerTokens n).map Token.bare

/-- **Snippets of constructors and methods show their headers**, unless there is an unknown token in the
header: no token of it is lost, put elsewhere or repeated, and no token of the body is shown. -/
theorem snippet_showsHeader (source : String) :
    ∀ p ∈ (Tree.ofSource source).places, p.node.kind = .constructor ∨ p.node.kind = .method →
      (∀ t ∈ (Tree.ofSource source).headerTokens p.node, t.kind ≠ .unknown) →
      ShowsHeader (Tree.ofSource source) p.node := by
  intro p hp hk hu
  have hdeclared : p.node.kind.isDeclared = true := by
    rcases hk with hk | hk <;> rw [hk] <;> rfl
  have hframed : Framed _ p.node := ((Tree.ofTokens_framed _).placesFrom hp).here
  obtain ⟨l⟩ := memberLayout_of_isMember (Tree.isMember_of_isDeclared hp hdeclared) hk
  obtain ⟨hstart, hmid, hname, hlt, hstop⟩ := l.ordered
  have hsnippet : (Tree.ofSource source).snippet p.node = (Tree.ofSource source).memberSnippet p.node :=
    if_pos (by rcases hk with hk | hk <;> simp [hk])
  refine {
    range := ?_
    name := ⟨l.name, l.name_eq, ?_⟩
    bodies := ?_
    ending := ?_
    tokens := ?_ }
  · rw [l.headerStart_eq, l.headerStop_eq]
    omega
  · rw [l.headerStart_eq, l.headerStop_eq]
    omega
  · intro b hb hbody
    rw [l.headerStop_eq, (l.isBody b (l.mem_bodies_iff.2 ⟨hb, hbody⟩)).2]
  · intro hnone
    rw [l.headerStop_eq]
    refine l.ending (List.eq_nil_iff_forall_not_mem.2 fun b hb => ?_)
    obtain ⟨hchild, hbody⟩ := l.mem_bodies_iff.1 hb
    rw [hnone b hchild] at hbody
    cases hbody
  · rw [hsnippet]
    exact memberSnippet_tokens l hframed.inside hu

/-- A method with all the parts that may stand in front of its name, and a constructor without a body. -/
theorem snippet_showsHeader_sample : ∃ tree,
    tree = Tree.ofSource "class C { [A] static int I.F<T>(int a = 1) where T : new() { } C() : base(); }" ∧
      (tree.places.filter fun p => p.node.kind = .constructor || p.node.kind = .method).map
        (fun p => tree.snippet p.node) = ["static int I.F <T>(int a = 1) where T : new()", "C() : base()"] ∧
      (∀ p ∈ tree.places, p.node.kind = .constructor ∨ p.node.kind = .method →
        ∀ t ∈ tree.headerTokens p.node, t.kind ≠ .unknown) ∧
      ∀ p ∈ tree.places, p.node.kind = .constructor ∨ p.node.kind = .method → ShowsHeader tree p.node := by
  refine ⟨_, rfl, ?_, ?known, fun p hp hk => snippet_showsHeader _ p hp hk (?known p hp hk)⟩
  · decide +kernel
  · decide +kernel

end DocPages.Source
