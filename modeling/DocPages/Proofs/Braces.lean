/-
Reading never loses its place among the braces. Where the marks of a source
nest, braces nest in the range of every node, and a declaration whose header
opens a scope with a brace ends at the brace that closes it
(`ofSource_inStep`).

The one header that breaks this is that of a namespace to the end of the file
within braces: its members go on beyond the brace that closes what is around
it. Where there is none, the members of a scope stop in front of the brace that
closes the scope, because everything read before it leaves braces alone
(`Moves.nests`).
-/
import DocPages.Proofs.HeaderEnds
import DocPages.Proofs.Nesting
import DocPages.Proofs.Shape

namespace DocPages.Source

/-! ## Braces of a declaration -/

/-- The tokens with indices from `a` up to `b`. -/
def between (ts : List Token) (a b : Nat) : List Token :=
  (ts.drop a).take (b - a)

/-- The declaration ends at the brace `m` that closes the brace `b`, or at a semicolon right after that if it is
a type; its parts stand in front of the one brace, its members between the two. -/
structure ClosesAt (ts : List Token) (n : Node) (b m : Nat) : Prop where
  opened : n.start ≤ b ∧ b < m ∧ kindAt? ts b = some .lbrace
  closed : kindAt? ts m = some .rbrace
  nested : bracesNest (between ts (b + 1) m) = true
  stop : n.stop = m + 1 ∨ n.kind ≠ .namespaceUnit ∧ n.stop = m + 2 ∧ kindAt? ts (m + 1) = some .semi
  children : ∀ child ∈ n.children, child.stop ≤ b ∨ b < child.start ∧ child.stop ≤ m

/-- Braces nest in the range of the node; and if it is a declaration with members, a brace that its header
is followed by is its own and is closed at its end. -/
structure InStep (ts : List Token) (n : Node) : Prop where
  nested : bracesNest (between ts n.start n.stop) = true
  closes : n.kind.isScope = true → ∀ b, headerEnd? ts n = some b → kindAt? ts b = some .lbrace →
    ∃ m, ClosesAt ts n b m
  opens : n.kind.isScope = true → headerEnd? ts n = none → kindAt? ts n.stop ≠ some .lbrace

section

variable {ts : List Token} {c d e : Cursor} {p q : Parts}

theorem between_append {a b k : Nat} (hab : a ≤ b) (hbk : b ≤ k) :
    between ts a k = between ts a b ++ between ts b k := by
  unfold between
  rw [show k - a = (b - a) + (k - b) by omega, List.take_add, List.drop_drop, show a + (b - a) = b by omega]

theorem between_eq_take (hc : c.On ts) (n : Nat) : between ts c.pos (c.advance n).pos = c.rest.take n := by
  rw [between, ← hc.1]
  simp only [Cursor.advance, Nat.add_sub_cancel_left, List.length_take]
  rw [← List.take_eq_take_min]

theorem OpenAt.advance_lbrace {depth : Nat} (h : OpenAt depth c.rest) (hl : atKind .lbrace c.rest = true) :
    OpenAt (depth + 1) (c.advance 1).rest := by
  obtain ⟨t, rest, hr, hk⟩ := eq_cons_of_atKind hl
  rw [Cursor.rest_advance_one hr]
  exact OpenAt.lbrace (hr ▸ h) hk

end

/-! ## Reading leaves braces alone -/

/-- What reading from `c` to `d` leaves as it was, with `depth` braces open: as many are open at `d`, and
braces nest in between and in the range of every node. -/
structure Steady (ts : List Token) (depth : Nat) (c : Cursor) (p : Parts) (d : Cursor) : Prop where
  on : d.On ts
  le : c.pos ≤ d.pos
  openAt : OpenAt depth d.rest
  nested : bracesNest (between ts c.pos d.pos) = true
  nodes : ∀ n ∈ p.children, n.All (InStep ts)

namespace Steady

variable {ts : List Token} {depth : Nat} {c d e : Cursor} {p q : Parts}

theorem moves {n : Nat} (hc : c.On ts) (ho : OpenAt depth c.rest) (h : Moves c.rest n) :
    Steady ts depth c .none (c.advance n) where
  on := hc.advance n
  le := Nat.le_add_right ..
  openAt := (h.nests ho).2
  nested := by rw [between_eq_take hc]; exact (h.nests ho).1
  nodes := by simp [Parts.none]

theorem idle (hc : c.On ts) (ho : OpenAt depth c.rest) : Steady ts depth c .none c := by
  have := moves hc ho (.zero _)
  rwa [c.advance_zero] at this

theorem append (h : Steady ts depth c p d) (h' : Steady ts depth d q e) : Steady ts depth c (p ++ q) e where
  on := h'.on
  le := Nat.le_trans h.le h'.le
  openAt := h'.openAt
  nested := by rw [between_append h.le h'.le]; exact bracesNest_append h.nested h'.nested
  nodes n hn := (List.mem_append.1 hn).elim (h.nodes n) (h'.nodes n)

theorem node (h : Steady ts depth c p d) {kind : NodeKind} (hn : InStep ts (p.node kind c.pos d.pos)) :
    Steady ts depth c ⟨[], none, [p.node kind c.pos d.pos]⟩ d where
  on := h.on
  le := h.le
  openAt := h.openAt
  nested := h.nested
  nodes n hm := by
    cases List.mem_singleton.1 hm
    exact .intro hn h.nodes

/-- A node around what was read, and one token more if nothing was. -/
theorem member (hc : c.On ts) (h : Steady ts depth c p d) {kind : NodeKind} {t : Token} {rest : List Token}
    (hn : InStep ts (p.node kind c.pos d.pos)) (hr : c.rest = t :: rest) (hl : t.kind ≠ .lbrace)
    (hr' : t.kind ≠ .rbrace) : Steady ts depth c ⟨[], none, [p.node kind c.pos d.pos]⟩ (c.past d) := by
  unfold Cursor.past
  split
  · exact h.node hn
  · next hl' =>
    obtain rfl : d = c := (hc.reaches_of_le h.on h.le).eq_of_not_shorter hl'
    rw [← Parts.append_none ⟨[], none, _⟩]
    exact (h.node hn).append (moves hc h.openAt (hr ▸ .step hl hr'))

/-- A group in braces whose inside is read with one brace more open. -/
theorem braces (hd : d.On ts) (hl : atKind .lbrace d.rest = true)
    (h : Steady ts (depth + 1) (d.advance 1) p e) (hr : atKind .rbrace e.rest = true) :
    Steady ts depth d p (e.advance 1) := by
  obtain ⟨t, drest, hdr, ht⟩ := eq_cons_of_atKind hl
  obtain ⟨u, erest, her, hu⟩ := eq_cons_of_atKind hr
  have hle := h.le
  have hdpos := Cursor.pos_advance_one hdr
  have hepos := Cursor.pos_advance_one her
  obtain ⟨depth', hdepth, ho⟩ := OpenAt.rbrace (her ▸ h.openAt) hu
  obtain rfl : depth = depth' := by omega
  refine ⟨h.on.advance 1, by omega, ?_, ?_, h.nodes⟩
  · rw [Cursor.rest_advance_one her]
    exact ho
  · have hopen : between ts d.pos (d.advance 1).pos = [t] := by
      rw [between_eq_take hd, hdr]
      rfl
    have hclose : between ts e.pos (e.advance 1).pos = [u] := by
      rw [between_eq_take h.on, her]
      rfl
    have hinner : between ts (d.advance 1).pos (e.advance 1).pos =
        between ts (d.advance 1).pos e.pos ++ between ts e.pos (e.advance 1).pos :=
      between_append hle (by omega)
    rw [between_append (b := (d.advance 1).pos) (by omega) (by omega), hopen, hinner, hclose]
    exact bracesNest_braces h.nested ht hu

end Steady

/-- Whatever the marks are, headers of members leave braces alone. -/
def steadies (ts : List Token) : Traversal where
  holds c p d := ∀ depth, c.On ts → OpenAt depth c.rest → Steady ts depth c p d
  idle _ _ hc ho := .idle hc ho
  append h h' depth hc ho := (h depth hc ho).append (h' depth (h depth hc ho).on (h depth hc ho).openAt)
  moves h _ hc ho := .moves hc ho h
  enclose hk h depth hc ho := (h depth hc ho).node
    ⟨(h depth hc ho).nested, fun hs => absurd hs (by simp [Parts.node, isScope_of_isPart hk]),
      fun hs => absurd hs (by simp [Parts.node, isScope_of_isPart hk])⟩
  name h _ hc ho := { Steady.moves hc ho (.of_atKind h rfl) with nodes := by simp }
  modifier h _ hc ho := { Steady.moves hc ho (.of_atKind h rfl) with nodes := by simp }

/-! ## Members of a scope -/

/-- With `depth` braces open, no namespace to the end of the file is the node or below it; otherwise, none is
below a declaration in braces. -/
structure Permitted (ts : List Token) (depth : Nat) (n : Node) : Prop where
  inside : n.All fun m => IsBraced ts m → ∀ k ∈ m.children, k.All fun l => ¬ IsFileScoped ts l
  open_ : depth ≠ 0 → n.All fun l => ¬ IsFileScoped ts l

/-- Within the braces of a declaration, any number of braces may be open. -/
theorem Permitted.of_braced {ts : List Token} {depth k : Nat} {n m : Node} (h : Permitted ts depth n)
    (hb : IsBraced ts n) (hm : m ∈ n.children) : Permitted ts k m where
  inside := h.inside.child hm
  open_ _ := h.inside.here hb m hm

theorem Permitted.unopened {ts : List Token} {depth : Nat} {n m : Node} (h : Permitted ts depth n)
    (hm : m ∈ n.children) : Permitted ts 0 m where
  inside := h.inside.child hm
  open_ hne := absurd rfl hne

section

variable {ts : List Token} {depth : Nat} {owner? : Option String} {braced : Bool} {c d : Cursor} {t : Token}
  {rest : List Token}

/-- Where braces nest, what is passed over between members is no lone brace. -/
theorem itemAt_skipped_moves (hr : c.rest = t :: rest) (hb : braced = true ↔ depth ≠ 0)
    (ho : OpenAt depth c.rest) (h : itemAt owner? braced c t = .skipped d) :
    ∃ n, Moves c.rest n ∧ c.past d = c.advance n := by
  have hmove : ∀ n, Moves c.rest n → t.kind ≠ .lbrace ∧ t.kind ≠ .rbrace ∨ 0 < n →
      ∃ m, Moves c.rest m ∧ c.past (c.advance n) = c.advance m := by
    intro n hn ht
    unfold Cursor.past
    split
    · exact ⟨n, hn, rfl⟩
    · next hlt =>
      refine ⟨1, ?_, rfl⟩
      rcases ht with ⟨hl, hr'⟩ | hpos
      · exact hr ▸ .step hl hr'
      · simp only [Cursor.advance, hr, List.length_drop, List.length_cons] at hlt
        omega
  have hnot : t.kind = .rbrace → braced = false → False := by
    intro hk hf
    obtain ⟨k, rfl, -⟩ := OpenAt.rbrace (hr ▸ ho) hk
    simp [hb.2 (Nat.succ_ne_zero k)] at hf
  unfold itemAt at h
  split at h
  · cases h
  · next hclose =>
    have hk : t.kind ≠ .rbrace := fun hk => hnot hk (by simpa [hk] using hclose)
    split at h
    · next hsemi =>
      cases h
      have hs : t.kind = .semi := by simpa [hk] using hsemi
      exact hmove 1 (hr ▸ .step (by simp [hs]) hk) (.inr Nat.one_pos)
    · split at h
      · next hl =>
        cases h
        refine hmove _ (.groupReach (k := .lbrace) (by simp [hr, atKind, hl]) nofun) (.inr ?_)
        rw [hr, groupReach]
        omega
      · next hl =>
        split at h
        · cases h
          exact hmove _ (.statementReach _) (.inl ⟨hl, hk⟩)
        · cases h

theorem itemAt_member_kind {h : Header} (hi : itemAt owner? braced c t = .member h) :
    t.kind ≠ .lbrace ∧ t.kind ≠ .rbrace := by
  unfold itemAt at hi
  repeat' split at hi
  all_goals cases hi
  simp_all

theorem Scope.mark_of_isBraced (s : Scope) (hs : s.isBraced = true) : s.mark = .lbrace := by
  cases s with
  | file => cases hs
  | block | type => rfl

theorem Scope.eq_file_of_not_isBraced (s : Scope) (hs : ¬ s.isBraced = true) : s = .file := by
  cases s with
  | file => rfl
  | block | type => exact absurd rfl hs

/-- The end of a scope in braces is its closing brace, and a semicolon after it if it is that of a type. -/
theorem Scope.close_run {s : Scope} (hs : s.isBraced = true) (h : atKind .rbrace c.rest = true) :
    (s.close.run c).2 = c.advance 1 ∨
      s ≠ .block ∧ atKind .semi (c.advance 1).rest = true ∧
        (s.close.run c).2 = (c.advance 1).advance 1 := by
  have hbrace : (Step.eat .rbrace).run c = Step.bump.run c := by
    show (if atKind .rbrace c.rest then Step.bump else Step.idle).run c = _
    rw [if_pos h]
  cases s with
  | file => cases hs
  | block => exact .inl (congrArg Prod.snd hbrace)
  | type owner? =>
    have hrun : (Scope.close (.type owner?)).run c = ((Step.bump ++ Step.eat .semi).run c) := by
      show (_, _) = (_, _)
      rw [hbrace]
    rw [hrun]
    show ((if atKind .semi (c.advance 1).rest then Step.bump else Step.idle).run (c.advance 1)).2 = _ ∨
      _ ∧ _ ∧ ((if atKind .semi (c.advance 1).rest then Step.bump else Step.idle).run (c.advance 1)).2 = _
    split
    · next h => exact .inr ⟨nofun, h, rfl⟩
    · exact .inl rfl

/-! ### The node of a member -/

/-- A member without a scope of its own. -/
theorem inStep_of_scope_none {h : Header} (hc : c.On ts) (he : HeaderEnds ts c h) (hs : h.scope? = none)
    (hst : Steady ts depth c h.parts h.next) : InStep ts (h.parts.node h.kind c.pos h.next.pos) := by
  cases he with
  | scope => cases hs
  | @bare kind p d covered unopened =>
    have hnone : headerEnd? ts (p.node kind c.pos d.pos) = none := headerEnd?_eq_none hc covered rfl rfl rfl
    refine ⟨hst.nested, fun _ b hb => ?_, fun _ _ => kindAt?_ne_of_atKind hst.on unopened⟩
    rw [hnone] at hb
    cases hb
  | @semicolon kind p d covered mark =>
    have hd := (covered hc).1
    have hpos := pos_advance_of_atKind mark
    have hk := kindAt?_of_atKind hd mark
    have hsome : headerEnd? ts (p.node kind c.pos (d.advance 1).pos) = some d.pos :=
      headerEnd?_eq_some hc covered rfl (by simp only [Parts.node]; omega) (List.append_nil p.children).symm
        (by simp) (by simp [isHeaderEnd, hk])
    refine ⟨hst.nested, fun _ b hb hl => ?_, fun _ hn => ?_⟩
    · rw [hsome, Option.some.injEq] at hb
      rw [← hb, hk] at hl
      cases hl
    · rw [hsome] at hn
      cases hn
  | other hk _ => exact ⟨hst.nested, fun h => by simp [Parts.node, hk] at h,
    fun h => by simp [Parts.node, hk] at h⟩

/-- A member with a scope: its header ends at the mark that opens the scope. -/
theorem headerEnd?_of_scope {p : Parts} {s : Scope} {n : Node} {inner : List Node} (hc : c.On ts)
    (hcov : Covered ts c p d) (hm : atKind s.mark d.rest = true) (hs : n.start = c.pos)
    (ht : (d.advance 1).pos ≤ n.stop) (hn : n.children = p.children ++ inner)
    (hi : ∀ m ∈ inner, (d.advance 1).pos ≤ m.start) : headerEnd? ts n = some d.pos := by
  have hpos := pos_advance_of_atKind hm
  refine headerEnd?_eq_some hc hcov hs (by omega) hn (fun m hm => ?_) (isHeaderEnd_of_mark (hcov hc).1 hm)
  have := hi m hm
  omega

/-- A member whose scope is in braces. -/
theorem closesAt_of_scope {p : Parts} {n : Node} {inner : List Node} {e : Cursor} (hc : c.On ts)
    (hcov : Covered ts c p d) (hl : atKind .lbrace d.rest = true)
    (hst : Steady ts depth (d.advance 1) ⟨[], none, inner⟩ e) (hr : atKind .rbrace e.rest = true)
    (hn : n.children = p.children ++ inner)
    (hi : ∀ m ∈ inner, (d.advance 1).pos ≤ m.start ∧ m.start ≤ m.stop ∧ m.stop ≤ e.pos)
    (hstop : n.stop = (e.advance 1).pos ∨ n.kind ≠ .namespaceUnit ∧ atKind .semi (e.advance 1).rest = true ∧
      n.stop = ((e.advance 1).advance 1).pos) (hs : n.start = c.pos) : ClosesAt ts n d.pos e.pos := by
  have hdpos := pos_advance_of_atKind hl
  have hepos := pos_advance_of_atKind hr
  have hle := hst.le
  obtain ⟨hd, hcd, hcstop, -⟩ := hcov hc
  exact {
    opened := ⟨by omega, by omega, kindAt?_of_atKind hd hl⟩
    closed := kindAt?_of_atKind hst.on hr
    nested := by
      rw [← hdpos]
      exact hst.nested
    stop := by
      rcases hstop with h | ⟨hk, hsemi, h⟩
      · exact .inl (by omega)
      · have hspos := pos_advance_of_atKind hsemi
        exact .inr ⟨hk, by omega, hepos ▸ kindAt?_of_atKind (hst.on.advance 1) hsemi⟩
    children := fun m hm => by
      rcases List.mem_append.1 (hn ▸ hm) with hm | hm
      · exact .inl (hcstop m hm)
      · have := hi m hm
        exact .inr ⟨by omega, this.2.2⟩ }

/-- Two cursors on the same tokens are the same if they are at the same index. -/
theorem Cursor.On.eq (hc : c.On ts) (hd : d.On ts) (h : c.pos = d.pos) : c = d := by
  obtain ⟨pos, rest⟩ := c
  obtain ⟨pos', rest'⟩ := d
  obtain ⟨hr, -⟩ := hc
  obtain ⟨hr', -⟩ := hd
  simp only at h hr hr'
  subst h
  rw [hr, hr']

/-- A header that opens a scope: what is in front of the mark is covered by its parts, and leaves braces alone. -/
theorem memberHeader_scope {h : Header} {s : Scope} (hc : c.On ts) (ho : OpenAt depth c.rest)
    (hh : h = (memberHeader owner?).run c) (hs : h.scope? = some s) :
    ∃ d, Covered ts c h.parts d ∧ Steady ts depth c h.parts d ∧ s.fits h.kind ∧
      atKind s.mark d.rest = true ∧ h.next = d.advance 1 := by
  have hkeeps := (steadies ts).memberHeader owner? c
  have hends : (memberHeader owner?).EndsAt ts c := .memberHeader owner? c
  rw [Ending.EndsAt, ← hh] at hends
  rw [Ending.KeepsAt, ← hh, hs] at hkeeps
  obtain ⟨d', hst, hm', hn'⟩ := hkeeps
  have hst := hst depth hc ho
  cases hends with
  | bare => cases hs
  | semicolon => cases hs
  | other _ hn =>
    rw [hn] at hs
    cases hs
  | @scope kind p d s covered fits mark =>
    cases hs
    have hpos := pos_advance_of_atKind mark
    have hpos' := pos_advance_of_atKind hm'
    obtain rfl : d' = d := by
      refine hst.on.eq (covered hc).1 ?_
      have hnext := congrArg Cursor.pos hn'
      simp only at hnext
      omega
    exact ⟨d', covered, hst, fits, mark, rfl⟩

section

variable {kind : NodeKind} {p : Parts} {s : Scope} {inner : List Node} {e : Cursor}

/-- The whole of a member with a scope in braces. -/
theorem steady_of_braced (hc : c.On ts) (hcov : Covered ts c p d) (hst : Steady ts depth c p d)
    (hfits : s.fits kind) (hs : s.isBraced = true) (hl : atKind .lbrace d.rest = true)
    (hin : Steady ts (depth + 1) (d.advance 1) ⟨[], none, inner⟩ e) (hr : atKind .rbrace e.rest = true)
    (hi : ∀ m ∈ inner, (d.advance 1).pos ≤ m.start ∧ m.start ≤ m.stop ∧ m.stop ≤ e.pos) :
    Steady ts depth c (p ++ ⟨[], none, inner⟩) (s.close.run e).2 ∧
      InStep ts ((p ++ ⟨[], none, inner⟩).node kind c.pos (s.close.run e).2.pos) := by
  have hgroup := hst.append (.braces hst.on hl hin hr)
  have hclose := Scope.close_run hs hr
  have hall : Steady ts depth c (p ++ ⟨[], none, inner⟩) (s.close.run e).2 := by
    rcases hclose with h | ⟨-, hsemi, h⟩
    · rw [h]
      exact hgroup
    · rw [h, ← Parts.append_none (p ++ _)]
      exact hgroup.append (.moves hgroup.on hgroup.openAt (.of_atKind hsemi rfl))
  have hstop : (s.close.run e).2.pos = (e.advance 1).pos ∨ kind ≠ .namespaceUnit ∧
      atKind .semi (e.advance 1).rest = true ∧ (s.close.run e).2.pos = ((e.advance 1).advance 1).pos := by
    rcases hclose with h | ⟨hne, hsemi, h⟩
    · exact .inl (congrArg Cursor.pos h)
    · refine .inr ⟨?_, hsemi, congrArg Cursor.pos h⟩
      cases s with
      | block => exact absurd rfl hne
      | file => cases hs
      | type owner? => exact hfits.2
  have hend : headerEnd? ts ((p ++ ⟨[], none, inner⟩).node kind c.pos (s.close.run e).2.pos) = some d.pos :=
    headerEnd?_of_scope hc hcov (s.mark_of_isBraced hs ▸ hl) rfl
      (Nat.le_trans hin.le (s.close.forward e).pos_le) rfl fun m hm => (hi m hm).1
  refine ⟨hall, hall.nested, fun _ b hb _ => ?_, fun _ hn => ?_⟩
  · rw [hend, Option.some.injEq] at hb
    exact ⟨e.pos, hb ▸ closesAt_of_scope hc hcov hl hin hr rfl hi hstop rfl⟩
  · rw [hend] at hn
    cases hn

/-- The whole of a namespace to the end of the file. -/
theorem steady_of_file (hc : c.On ts) (hcov : Covered ts c p d) (hst : Steady ts depth c p d)
    (hs : atKind .semi d.rest = true) (hin : Steady ts depth (d.advance 1) ⟨[], none, inner⟩ e)
    (hi : ∀ m ∈ inner, (d.advance 1).pos ≤ m.start) :
    Steady ts depth c (p ++ ⟨[], none, inner⟩) e ∧
      InStep ts ((p ++ ⟨[], none, inner⟩).node .namespaceUnit c.pos e.pos) := by
  have hmark : Steady ts depth d .none (d.advance 1) := .moves hst.on hst.openAt (.of_atKind hs rfl)
  have hall := hst.append (hmark.append hin)
  have hend : headerEnd? ts ((p ++ ⟨[], none, inner⟩).node .namespaceUnit c.pos e.pos) = some d.pos :=
    headerEnd?_of_scope (s := .file) hc hcov hs rfl hin.le rfl hi
  refine ⟨hall, hall.nested, fun _ b hb hl => ?_, fun _ hn => ?_⟩
  · rw [hend, Option.some.injEq] at hb
    rw [← hb, kindAt?_of_atKind hst.on hs] at hl
    cases hl
  · rw [hend] at hn
    cases hn

end

/-- Where a brace is open, a scope ends at a closing one. -/
theorem ReadsScope.closed {ns : List Node} (h : ReadsScope owner? braced c ns d) (hd : depth ≠ 0)
    (ho : OpenAt depth d.rest) : atKind .rbrace d.rest = true := by
  rcases h.ended with hnil | ⟨-, hr⟩
  · rw [hnil] at ho
    exact absurd ho.nil hd
  · exact hr

/-- **Members of a scope leave braces alone.** -/
theorem ReadsScope.steady {ns : List Node} (h : ReadsScope owner? braced c ns d) (hb : braced = true ↔ depth ≠ 0)
    (hc : c.On ts) (ho : OpenAt depth c.rest) (hp : ∀ n ∈ ns, Permitted ts depth n) :
    Steady ts depth c ⟨[], none, ns⟩ d := by
  induction h generalizing depth with
  | done => exact .idle hc ho
  | skipped next item _ ih =>
    obtain ⟨n, hn, hpast⟩ := itemAt_skipped_moves next hb ho item
    have hmoved := Steady.moves hc ho hn
    rw [← hpast] at hmoved
    exact hmoved.append (ih hb hmoved.on hmoved.openAt hp)
  | @plain owner? _ c _ _ _ _ h next item scopeless _ ih =>
    have hkeeps := (steadies ts).memberHeader owner? c
    have hends : (memberHeader owner?).EndsAt ts c := .memberHeader owner? c
    rw [Ending.EndsAt, ← itemAt_member item] at hends
    rw [Ending.KeepsAt, ← itemAt_member item, scopeless] at hkeeps
    have hst : Steady ts depth c h.parts h.next := hkeeps depth hc ho
    obtain ⟨hl, hrb⟩ := itemAt_member_kind item
    have hnode := hst.member hc (inStep_of_scope_none hc hends scopeless hst) next hl hrb
    exact hnode.append (ih hb hnode.on hnode.openAt fun n hn => hp n (List.mem_cons_of_mem _ hn))
  | @scope _ _ c e _ _ _ inner _ h s next item opens inside _ ih₁ ih₂ =>
    obtain ⟨d, hcov, hst, hfits, hm, hnext⟩ := memberHeader_scope hc ho (itemAt_member item) opens
    obtain ⟨hl, hrb⟩ := itemAt_member_kind item
    have hon : h.next.On ts := hnext ▸ hst.on.advance 1
    obtain ⟨-, hile, hibetween, -⟩ := inside.framed hon
    have hinside := hibetween.inside
    simp only [hnext] at hon hile hinside inside ih₁
    have hmark := kindAt?_of_atKind hst.on hm
    let node := (h.parts ++ ⟨[], none, inner⟩).node h.kind c.pos (s.close.run e).2.pos
    have hend : headerEnd? ts node = some d.pos :=
      headerEnd?_of_scope hc hcov hm rfl (Nat.le_trans hile (s.close.forward e).pos_le) rfl
        fun m hm => (hinside m hm).1
    have hpermitted : Permitted ts depth node := hp _ List.mem_cons_self
    have hchild : ∀ n ∈ inner, n ∈ node.children := fun n hn => List.mem_append_right _ hn
    have hnode : Steady ts depth c (h.parts ++ ⟨[], none, inner⟩) (s.close.run e).2 ∧ InStep ts node := by
      by_cases hbraced : s.isBraced = true
      · rw [s.mark_of_isBraced hbraced] at hm hmark
        have hinner : IsBraced ts node := ⟨hfits.isScope, by rw [headerMark?, hend]; exact hmark⟩
        have hin := ih₁ (by simp [hbraced]) hon (hst.openAt.advance_lbrace hm) fun n hn =>
          hpermitted.of_braced hinner (hchild n hn)
        exact steady_of_braced hc hcov hst hfits hbraced hm hin
          (inside.closed (Nat.succ_ne_zero depth) hin.openAt) hinside
      · obtain rfl := s.eq_file_of_not_isBraced hbraced
        have hfk : h.kind = .namespaceUnit := hfits
        obtain rfl : depth = 0 := Decidable.byContradiction fun hne =>
          (hpermitted.open_ hne).here ⟨hfk, by rw [headerMark?, hend]; exact hmark⟩
        have hin := ih₁ (by simp [hbraced]) hon ((Moves.of_atKind hm rfl).nests hst.openAt).2 fun n hn =>
          hpermitted.unopened (hchild n hn)
        show _ ∧ InStep ts ((h.parts ++ ⟨[], none, inner⟩).node h.kind c.pos e.pos)
        rw [hfk]
        exact steady_of_file hc hcov hst hm hin fun m hm => (hinside m hm).1
    have hmember := hnode.1.member hc hnode.2 next hl hrb
    exact hmember.append (ih₂ hb hmember.on hmember.openAt fun n hn => hp n (List.mem_cons_of_mem _ hn))

end

/-! ## Trees -/

theorem permitted_of_places {ts : List Token} {root n : Node}
    (h : ∀ p ∈ root.places, IsFileScoped ts p.node → ∀ a ∈ p.above, ¬ IsBraced ts a.2)
    (hn : n ∈ root.children) :
    Permitted ts 0 n where
  inside := by
    have hroot : root.All fun m => IsBraced ts m →
        ∀ k ∈ m.children, k.All fun l => ¬ IsFileScoped ts l := by
      refine Node.all_of_placesFrom (a := []) (k := 0) fun p hp hb k hk => ?_
      obtain ⟨front, back, hc⟩ := List.append_of_mem hk
      refine Node.all_of_placesFrom (a := (p.number, p.node) :: p.above)
        (k := p.number + 1 + sizeOfAll front) fun q hq hf => ?_
      have hbelow : q ∈ p.below := mem_placesOfAll.2 ⟨front, k, back, hc, hq⟩
      exact h q (below_subset hp hbelow) hf (p.number, p.node)
        ((above_suffix_of_mem_below hbelow).subset List.mem_cons_self) hb
    exact hroot.child hn
  open_ h := absurd rfl h

/-- Where marks nest and no namespace to the end of the file is within braces, reading keeps in step. -/
theorem Tree.ofTokens_inStep {ts : List Token} (hn : nests [] (ts.map (·.kind)) = true)
    (hf : ∀ p ∈ (Tree.ofTokens ts).places, IsFileScoped ts p.node → ∀ a ∈ p.above, ¬ IsBraced ts a.2) :
    (Tree.ofTokens ts).root.All (InStep ts) := by
  have hopen : OpenAt 0 ts := ⟨[], hn, rfl⟩
  have hst : Steady ts 0 ⟨0, ts⟩ ⟨[], none, (members none false ⟨0, ts⟩).1⟩
      (members none false ⟨0, ts⟩).2 :=
    (members_readsScope none false ⟨0, ts⟩).steady (by simp) (.start ts) hopen fun n hn => permitted_of_places hf hn
  exact .intro ⟨hst.nested, nofun, nofun⟩ hst.nodes

/-- What begins between the braces of a declaration is below it, and what begins after them is not. -/
theorem attached_of_closesAt {ts : List Token} {root : Node} {p q : Place} {b m : Nat}
    (hall : root.All (Framed ts))
    (hp : p ∈ root.places) (hq : q ∈ root.places) (h : ClosesAt ts p.node b m) :
    (b < q.node.start → q.node.start < m → q ∈ p.below) ∧ (m < q.node.start → q ∉ p.below) := by
  obtain ⟨hstart, hbm, -⟩ := h.opened
  refine ⟨fun hb hm => ?_, fun hm hbelow => ?_⟩
  · have hstop : m < p.node.stop := by
      rcases h.stop with h | ⟨-, h, -⟩ <;> omega
    have hqo := (hall.placesFrom hq).here.ordered
    rcases laminar_places hall hp hq with h | h | h | h
    · rcases List.mem_cons.1 h with rfl | h
      · omega
      · exact h
    · have := range_of_mem_below hall hq h
      omega
    · omega
    · omega
  · obtain ⟨child, hc, hin⟩ := child_of_mem_below hall hp hbelow
    have := (hall.placesFrom hq).here.ordered
    rcases h.children child hc with hc | ⟨-, hc⟩ <;> omega

/-- **Reading keeps in step with the braces.** If the marks of a source nest, and no namespace whose header ends
with a semicolon is within a declaration in braces, then braces nest in the range of every node; a namespace or
a type whose header is followed by a brace ends at the brace that closes that one, or a semicolon after it; and
what begins between the two is below it, what begins after them is not. -/
theorem ofSource_inStep (source : String)
    (hn : nests [] ((Tree.ofSource source).tokens.map (·.kind)) = true)
    (hf : ∀ p ∈ (Tree.ofSource source).places, IsFileScoped (Tree.ofSource source).tokens p.node →
      ∀ a ∈ p.above, ¬ IsBraced (Tree.ofSource source).tokens a.2) :
    ∀ p ∈ (Tree.ofSource source).places, InStep (Tree.ofSource source).tokens p.node ∧
      ∀ b m, ClosesAt (Tree.ofSource source).tokens p.node b m → ∀ q ∈ (Tree.ofSource source).places,
        (b < q.node.start → q.node.start < m → q ∈ p.below) ∧ (m < q.node.start → q ∉ p.below) := by
  intro p hp
  refine ⟨((Tree.ofTokens_inStep hn hf).placesFrom hp).here, fun b m hbm q hq => ?_⟩
  exact attached_of_closesAt (Tree.ofTokens_framed _) hp hq hbm

/-- A class in a namespace to the end of the file, with a header that is malformed and one that is not. -/
theorem ofSource_inStep_sample :
    nests [] ((Tree.ofSource "namespace N; class C(<) { int F(int a) { } } class D { };").tokens.map
        (·.kind)) = true ∧
      ∀ p ∈ (Tree.ofSource "namespace N; class C(<) { int F(int a) { } } class D { };").places,
        InStep (Tree.ofSource "namespace N; class C(<) { int F(int a) { } } class D { };").tokens p.node :=
  ⟨by decide +kernel, fun p hp => (ofSource_inStep _ (by decide +kernel) (by decide +kernel) p hp).1⟩

end DocPages.Source
