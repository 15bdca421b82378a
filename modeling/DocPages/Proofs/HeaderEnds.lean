/-
Where the header of a declaration ends, told from the tokens and the tree alone:
at the first brace or semicolon of the declaration that is in none of its parts
(`headerEnd?`). Reading agrees: what it reads of a header in front of that mark
covers every brace and semicolon there (`Covered`), and it goes on into members
exactly behind such a mark (`Ending.EndsAt.memberHeader`).
-/
import DocPages.Proofs.Reading

namespace DocPages.Source

/-! ## Where headers end -/

/-- The kind of the token with an index. -/
def kindAt? (ts : List Token) (i : Nat) : Option TokenKind :=
  ts[i]?.map (·.kind)

/-- The token is one that headers of declarations with members end at. -/
def isHeaderEnd (ts : List Token) (i : Nat) : Bool :=
  kindAt? ts i = some .lbrace || kindAt? ts i = some .semi

/-- Where the header of a declaration ends: at its first brace or semicolon that is in none of its parts. -/
def headerEnd? (ts : List Token) (n : Node) : Option Nat :=
  (List.range' n.start (n.stop - n.start)).find? fun i =>
    isHeaderEnd ts i && n.children.all fun m => i < m.start || m.stop ≤ i

/-- The kind of the mark that the header of a declaration ends at. -/
def headerMark? (ts : List Token) (n : Node) : Option TokenKind :=
  (headerEnd? ts n).bind (kindAt? ts)

/-- A declaration whose members stand in braces that it opens. -/
def IsBraced (ts : List Token) (n : Node) : Prop :=
  n.kind.isScope = true ∧ headerMark? ts n = some .lbrace

/-- A namespace whose header ends with a semicolon. -/
def IsFileScoped (ts : List Token) (n : Node) : Prop :=
  n.kind = .namespaceUnit ∧ headerMark? ts n = some .semi

instance (ts : List Token) (n : Node) : Decidable (IsBraced ts n) :=
  inferInstanceAs (Decidable (_ ∧ _))

instance (ts : List Token) (n : Node) : Decidable (IsFileScoped ts n) :=
  inferInstanceAs (Decidable (_ ∧ _))

section

variable {ts : List Token} {c d e : Cursor} {p q : Parts}

theorem pos_advance_of_atKind {k : TokenKind} (h : atKind k c.rest = true) :
    (c.advance 1).pos = c.pos + 1 := by
  obtain ⟨t, rest, hr, -⟩ := eq_cons_of_atKind h
  exact Cursor.pos_advance_one hr

theorem kindAt?_of_atKind {k : TokenKind} (hc : c.On ts) (h : atKind k c.rest = true) :
    kindAt? ts c.pos = some k := by
  obtain ⟨t, rest, hr, hk⟩ := eq_cons_of_atKind h
  rw [kindAt?, hc.getElem hr, Option.map_some, hk]

theorem kindAt?_ne_of_atKind {k : TokenKind} (hc : c.On ts) (h : atKind k c.rest = false) :
    kindAt? ts c.pos ≠ some k := by
  intro hk
  rw [kindAt?, ← List.head?_drop, ← hc.1] at hk
  cases hr : c.rest with
  | nil => simp [hr] at hk
  | cons t rest =>
    rw [hr] at h hk
    simp_all [atKind]

/-! ## What headers cover -/

/-- Every brace and semicolon between the cursors is in one of the nodes read. -/
def Covered (ts : List Token) (c : Cursor) (p : Parts) (d : Cursor) : Prop :=
  c.On ts → d.On ts ∧ c.pos ≤ d.pos ∧ (∀ n ∈ p.children, n.stop ≤ d.pos) ∧
    ∀ i, c.pos ≤ i → i < d.pos → isHeaderEnd ts i = true → ∃ n ∈ p.children, n.start ≤ i ∧ i < n.stop

theorem Covered.append (h : Covered ts c p d) (h' : Covered ts d q e) : Covered ts c (p ++ q) e :=
    fun hc => by
  obtain ⟨hd, hcd, hps, hp⟩ := h hc
  obtain ⟨he, hde, hqs, hq⟩ := h' hd
  refine ⟨he, Nat.le_trans hcd hde, fun n hn => ?_, fun i hci hie hi => ?_⟩
  · exact (List.mem_append.1 hn).elim (fun hn => Nat.le_trans (hps n hn) hde) (hqs n)
  · by_cases hid : i < d.pos
    · obtain ⟨n, hn, h⟩ := hp i hci hid hi
      exact ⟨n, List.mem_append_left _ hn, h⟩
    · obtain ⟨n, hn, h⟩ := hq i (by omega) hie hi
      exact ⟨n, List.mem_append_right _ hn, h⟩

theorem Covered.idle (ts : List Token) (c : Cursor) : Covered ts c .none c := fun hc =>
  ⟨hc, Nat.le_refl _, by simp [Parts.none], fun i hci hic => by omega⟩

def covers (ts : List Token) : Kept where
  holds := Covered ts
  idle := Covered.idle ts
  append := Covered.append

/-- What is read as one node is covered by it. -/
theorem Covered.node (h : c.Reaches d) (p : Parts) (kind : NodeKind) :
    Covered ts c ⟨[], none, [p.node kind c.pos d.pos]⟩ d := fun hc =>
  ⟨hc.reaches h, h.pos_le, fun n hn => by rw [List.mem_singleton.1 hn]; exact Nat.le_refl _,
    fun _ hci hid _ => ⟨_, List.mem_singleton_self _, hci, hid⟩⟩

/-- A single token of another kind is not what headers end at. -/
theorem Covered.token {k : TokenKind} {p : Parts} (hp : p.children = []) (h : atKind k c.rest = true)
    (hl : k ≠ .lbrace) (hs : k ≠ .semi) : Covered ts c p (c.advance 1) := fun hc => by
  have hpos := pos_advance_of_atKind h
  refine ⟨hc.advance 1, by omega, by simp [hp], fun i hci hid hi => ?_⟩
  obtain rfl : i = c.pos := by omega
  simp [isHeaderEnd, kindAt?_of_atKind hc h, hl, hs] at hi

namespace Step.KeepsAt

theorem leaf_covers {kind : NodeKind} {reach : List Token → Nat} :
    (Step.leaf kind reach).KeepsAt (covers ts) c :=
  Covered.node (.advance c _) _ _

theorem enclose_covers {kind : NodeKind} {s : Step} : (Step.enclose kind s).KeepsAt (covers ts) c :=
  Covered.node (s.forward c) _ _

theorem bump_covers (h : atKind .ident c.rest = true) : Step.bump.KeepsAt (covers ts) c :=
  Covered.token rfl h nofun nofun

theorem nameIfAny_covers (c : Cursor) : nameIfAny.KeepsAt (covers ts) c :=
  .whenAt fun h => Covered.token rfl h nofun nofun

theorem attributes_covers (c : Cursor) : attributes.KeepsAt (covers ts) c := by
  refine .whileAt (fun c _ => leaf_covers) (fun c h => ?_) c
  exact Covered.token rfl h nofun nofun

theorem modifiers_covers (c : Cursor) : modifiers.KeepsAt (covers ts) c := by
  refine .whileAt (fun c h => ?_) (fun c h => ?_) c
  · exact Covered.token rfl (atKind_of_atModifier h) nofun nofun
  · exact Covered.token rfl (atKind_of_atModifier h) nofun nofun

theorem constraints_covers (c : Cursor) : constraints.KeepsAt (covers ts) c := by
  refine .whileAt (fun c _ => leaf_covers) (fun c h => ?_) c
  exact Covered.token rfl (atKind_of_atWord h) nofun nofun

theorem recordWord_covers (kind : NodeKind) (c : Cursor) : (recordWord kind).KeepsAt (covers ts) c := by
  unfold Source.recordWord
  split
  · exact .whenAt fun h => Covered.token rfl (atKind_of_any_atWord h) nofun nofun
  · exact .idle

end Step.KeepsAt

/-! ## How headers end -/

/-- The kinds of declarations that have a scope of that sort. -/
def Scope.fits : Scope → NodeKind → Prop
  | .block, k | .file, k => k = .namespaceUnit
  | .type _, k => k.isScope = true ∧ k ≠ .namespaceUnit

theorem Scope.fits.isScope {s : Scope} {k : NodeKind} (h : s.fits k) : k.isScope = true := by
  cases s with
  | block | file => cases h; rfl
  | type owner? => exact h.1

/-- How a header that begins at `c` ends. If its declaration has members, its parts cover what is in front of
the mark that it ends at. -/
inductive HeaderEnds (ts : List Token) (c : Cursor) : Header → Prop where
  | scope {kind : NodeKind} {p : Parts} {d : Cursor} {s : Scope} (covered : Covered ts c p d)
      (fits : s.fits kind) (mark : atKind s.mark d.rest = true) : HeaderEnds ts c ⟨kind, p, d.advance 1, some s⟩
  | bare {kind : NodeKind} {p : Parts} {d : Cursor} (covered : Covered ts c p d)
      (unopened : atKind .lbrace d.rest = false) : HeaderEnds ts c ⟨kind, p, d, none⟩
  | semicolon {kind : NodeKind} {p : Parts} {d : Cursor} (covered : Covered ts c p d)
      (mark : atKind .semi d.rest = true) : HeaderEnds ts c ⟨kind, p, d.advance 1, none⟩
  | other {h : Header} (hk : h.kind.isScope = false) (hs : h.scope? = none) : HeaderEnds ts c h

/-- The ending makes no declaration with members. -/
def Ending.IsPlain (e : Ending) : Prop :=
  ∀ c : Cursor, (e.run c).kind.isScope = false ∧ (e.run c).scope? = none

namespace Ending.IsPlain

theorem plain {kind : NodeKind} {s : Step} (h : kind.isScope = false) : (Ending.plain kind s).IsPlain :=
  fun _ => ⟨h, rfl⟩

theorem choose {f : List Token → Ending} (h : ∀ ts, (f ts).IsPlain) : (Ending.choose f).IsPlain :=
  fun c => h c.rest c

theorem after {s : Step} {e : Ending} (h : e.IsPlain) : (Ending.after s e).IsPlain :=
  fun c => h (s.run c).2

theorem typedMember : typedMember.IsPlain := by
  refine after (choose fun ts => ?_)
  split
  · exact plain rfl
  · refine after (choose fun ts => ?_)
    split
    · exact plain rfl
    · refine after (choose fun ts => ?_)
      split
      · exact plain rfl
      · split
        · exact plain rfl
        · exact plain rfl

end Ending.IsPlain

/-- How the header that the ending reads at a cursor ends. -/
def Ending.EndsAt (ts : List Token) (e : Ending) (c : Cursor) : Prop :=
  HeaderEnds ts c (e.run c)

namespace Ending.EndsAt

theorem of_plain {e : Ending} (h : e.IsPlain) (c : Cursor) : e.EndsAt ts c :=
  .other (h c).1 (h c).2

theorem choose {f : List Token → Ending} (h : (f c.rest).EndsAt ts c) : (Ending.choose f).EndsAt ts c :=
  h

theorem after {s : Step} {e : Ending} (h : s.KeepsAt (covers ts) c) (h' : e.EndsAt ts (s.run c).2) :
    (Ending.after s e).EndsAt ts c := by
  unfold EndsAt at h' ⊢
  show HeaderEnds ts c { e.run (s.run c).2 with parts := (s.run c).1 ++ (e.run (s.run c).2).parts }
  generalize e.run (s.run c).2 = header at h' ⊢
  cases h' with
  | scope covered fits mark => exact .scope (Covered.append h covered) fits mark
  | bare covered unopened => exact .bare (Covered.append h covered) unopened
  | semicolon covered mark => exact .semicolon (Covered.append h covered) mark
  | other hk hs => exact .other hk hs

theorem opening {kind : NodeKind} {s : Scope} (hs : s.fits kind) (h : atKind s.mark c.rest = true) :
    (Ending.opening kind s).EndsAt ts c := by
  have hne : c.rest.isEmpty = false := by
    obtain ⟨t, rest, hr, -⟩ := eq_cons_of_atKind h
    rw [hr]
    rfl
  simp only [EndsAt, Ending.opening, hne, Bool.false_eq_true, if_false]
  exact .scope ((covers ts).idle c) hs h

theorem namespaceHeader (h : atKind .ident c.rest = true) : namespaceHeader.EndsAt ts c := by
  refine after (.append (.bump_covers h) .leaf_covers) (choose ?_)
  split
  · next h => exact opening rfl h
  · next h =>
    split
    · next h => exact opening rfl h
    · exact .bare ((covers ts).idle _) (Bool.eq_false_iff.2 h)

theorem typeScope (kind : NodeKind) (hk : kind = .enumType ∨ kind.isScope = true ∧ kind ≠ .namespaceUnit)
    (owner? : Option String) (c : Cursor) : (typeScope kind owner?).EndsAt ts c := by
  refine choose ?_
  split
  · next h =>
    split
    · next he => exact of_plain (.plain (he ▸ rfl)) c
    · next he => exact opening (hk.resolve_left he) h
  · next h =>
    show HeaderEnds ts c ⟨kind, ((if atKind .semi c.rest then Step.bump else Step.idle).run c).1,
      ((if atKind .semi c.rest then Step.bump else Step.idle).run c).2, none⟩
    split
    · next hs => exact .semicolon ((covers ts).idle c) hs
    · exact .bare ((covers ts).idle c) (Bool.eq_false_iff.2 h)

theorem typeHeader (kind : NodeKind) (hk : kind = .enumType ∨ kind.isScope = true ∧ kind ≠ .namespaceUnit)
    (h : atKind .ident c.rest = true) : (typeHeader kind).EndsAt ts c := by
  refine after (.append (.bump_covers h) (.recordWord_covers kind _))
    (choose (after ?_ (typeScope kind hk _ _)))
  exact .append (.append (.append (.append (.nameIfAny_covers _) (.whenAt fun _ => .enclose_covers))
    (.whenAt fun _ => .enclose_covers)) (.whenAt fun _ => .leaf_covers)) (.constraints_covers _)

theorem wordHeader (owner? : Option String) (word : String) (rest : List Token)
    (h : atKind .ident c.rest = true) :
    (wordHeader owner? word rest).EndsAt ts c := by
  unfold Source.wordHeader
  split
  · exact namespaceHeader h
  · exact typeHeader _ (.inr ⟨rfl, nofun⟩) h
  · exact typeHeader _ (.inr ⟨rfl, nofun⟩) h
  · exact typeHeader _ (.inr ⟨rfl, nofun⟩) h
  · exact typeHeader _ (.inl rfl) h
  · exact typeHeader _ (.inr ⟨rfl, nofun⟩) h
  · exact of_plain (.plain rfl) c
  · exact of_plain (.plain rfl) c
  · exact of_plain (.plain rfl) c
  · exact of_plain (.plain rfl) c
  · split
    · exact of_plain (.plain rfl) c
    · exact of_plain .typedMember c

theorem memberHeader (owner? : Option String) (c : Cursor) : (memberHeader owner?).EndsAt ts c := by
  refine choose ?_
  split
  · exact of_plain (.plain rfl) c
  · refine after (.append (.attributes_covers c) (.modifiers_covers _)) (choose ?_)
    split
    · exact of_plain (.plain rfl) _
    · next t rest hr =>
      split
      · next ht => exact wordHeader owner? _ rest (by simp [hr, atKind, ht])
      · split
        · exact of_plain (.plain rfl) _
        · exact of_plain (.plain rfl) _

end Ending.EndsAt

end

section

variable {ts : List Token} {c d : Cursor} {p : Parts} {n : Node}

/-- The header of a declaration ends at the mark after what its parts cover. -/
theorem headerEnd?_eq_some (hc : c.On ts) (h : Covered ts c p d) {inner : List Node} (hs : n.start = c.pos)
    (ht : d.pos < n.stop) (hn : n.children = p.children ++ inner) (hi : ∀ m ∈ inner, d.pos < m.start)
    (hm : isHeaderEnd ts d.pos = true) : headerEnd? ts n = some d.pos := by
  obtain ⟨-, hcd, hstop, hcov⟩ := h hc
  refine List.find?_range'_eq_some.2 ⟨?_, ?_, fun i hni hid => ?_⟩
  · simp only [hm, hn, Bool.true_and, List.all_eq_true, List.mem_append, Bool.or_eq_true, decide_eq_true_eq]
    exact fun m hm => hm.elim (fun hm => .inr (hstop m hm)) (fun hm => .inl (hi m hm))
  · rw [List.mem_range'_1]
    omega
  · by_cases he : isHeaderEnd ts i = true
    · obtain ⟨m, hmem, hmi, him⟩ := hcov i (hs ▸ hni) hid he
      simp only [Bool.not_eq_true', Bool.and_eq_false_iff, List.all_eq_false]
      refine .inr ⟨m, hn ▸ List.mem_append_left _ hmem, ?_⟩
      simp only [Bool.or_eq_true, decide_eq_true_eq]
      omega
    · simp [he]

/-- A header that its parts cover has no end mark. -/
theorem headerEnd?_eq_none (hc : c.On ts) (h : Covered ts c p d) (hs : n.start = c.pos)
    (ht : n.stop = d.pos)
    (hn : n.children = p.children) : headerEnd? ts n = none := by
  obtain ⟨-, hcd, -, hcov⟩ := h hc
  refine List.find?_eq_none.2 fun i hi hend => ?_
  rw [List.mem_range'_1] at hi
  simp only [Bool.and_eq_true, List.all_eq_true, Bool.or_eq_true, decide_eq_true_eq] at hend
  obtain ⟨m, hm, hmi, him⟩ := hcov i (by omega) (by omega) hend.1
  have := hend.2 m (hn ▸ hm)
  omega

theorem isHeaderEnd_of_mark {s : Scope} (hd : d.On ts) (h : atKind s.mark d.rest = true) :
    isHeaderEnd ts d.pos = true := by
  have hk := kindAt?_of_atKind hd h
  cases s <;> simp [isHeaderEnd, hk, Scope.mark]

end

end DocPages.Source
