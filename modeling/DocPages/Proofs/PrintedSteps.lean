/-
Steps read what is printed: each part of a header, at the tokens that it is
printed as, comes to the end of them with the parts that were put around them
(`Step.Reads`). What follows may be anything that the part can tell from its own
tokens.
-/
import DocPages.Proofs.PrintedReach

namespace DocPages.Source

/-! ## Printing -/

namespace Printed

variable (p q r : Printed)

@[simp] theorem append_nothing : p ++ nothing = p := by
  obtain ⟨tokens, parts⟩ := p
  show append _ _ = _
  have hparts : ∀ i, parts i ++ Parts.none = parts i := fun i => by
    show Parts.append _ _ = _
    simp [Parts.append, Parts.none]
  simp only [append, nothing, List.append_nil, hparts]

theorem append_assoc : p ++ q ++ r = p ++ (q ++ r) := by
  show append (append p q) r = append p (append q r)
  have hparts : ∀ a b c : Parts, a ++ b ++ c = a ++ (b ++ c) := fun a b c => by
    show Parts.append (Parts.append a b) c = Parts.append a (Parts.append b c)
    simp [Parts.append, Option.or_assoc]
  simp only [append, List.append_assoc, List.length_append, ← Nat.add_assoc, hparts]

@[simp] theorem tokens_append : (p ++ q).tokens = p.tokens ++ q.tokens := rfl
@[simp] theorem tokens_mark (k : TokenKind) : (mark k).tokens = [.mark k] := rfl
@[simp] theorem tokens_name (x : Identifier) : (name x).tokens = [.word x.text] := rfl
@[simp] theorem tokens_modifier (m : ModifierWord) : (modifier m).tokens = [.word m.text] := rfl
@[simp] theorem tokens_node (kind : NodeKind) : (node kind p).tokens = p.tokens := rfl
@[simp] theorem tokens_leaf (kind : NodeKind) (ts : List Token) : (leaf kind ts).tokens = ts := rfl

theorem parts_append (i : Nat) : (p ++ q).parts i = p.parts i ++ q.parts (i + p.tokens.length) := rfl

end Printed

theorem Cursor.advance_append (i : Nat) (ts rest : List Token) :
    (⟨i, ts ++ rest⟩ : Cursor).advance ts.length = ⟨i + ts.length, rest⟩ := by
  simp [Cursor.advance]

/-! ## Steps -/

/-- In front of `rest`, the step reads what is printed, and no more. -/
def Step.Reads (s : Step) (p : Printed) (rest : List Token) : Prop :=
  ∀ i, s.run ⟨i, p.tokens ++ rest⟩ = (p.parts i, ⟨i + p.tokens.length, rest⟩)

namespace Step.Reads

variable {s t : Step} {p q : Printed} {rest : List Token}

theorem idle : Step.idle.Reads .nothing rest :=
  fun _ => rfl

theorem append (hs : s.Reads p (q.tokens ++ rest)) (ht : t.Reads q rest) :
    (s ++ t).Reads (p ++ q) rest := by
  intro i
  show (let first := s.run ⟨i, p.tokens ++ q.tokens ++ rest⟩;
    (first.1 ++ (t.run first.2).1, (t.run first.2).2)) = _
  rw [List.append_assoc, hs i]
  simp only [ht (i + p.tokens.length), Printed.tokens_append, List.length_append, ← Nat.add_assoc]
  rfl

/-- A second step that has nothing to read. -/
theorem append_idle (hs : s.Reads p rest) (ht : t.Reads .nothing rest) : (s ++ t).Reads p rest := by
  have h := append (q := .nothing) hs ht
  rwa [Printed.append_nothing] at h

/-- A first step that has nothing to read. -/
theorem idle_append (hs : s.Reads .nothing (p.tokens ++ rest)) (ht : t.Reads p rest) :
    (s ++ t).Reads p rest :=
  append (p := .nothing) hs ht

theorem skip {reach : List Token → Nat} {ts : List Token} (h : reach (ts ++ rest) = ts.length) :
    (Step.skip reach).Reads (.plain ts) rest := by
  intro i
  show (Parts.none, Cursor.advance ⟨i, ts ++ rest⟩ (reach (ts ++ rest))) = _
  rw [h, Cursor.advance_append]
  rfl

theorem skip_nothing {reach : List Token → Nat} (h : reach rest = 0) :
    (Step.skip reach).Reads .nothing rest :=
  skip (show reach ([] ++ rest) = ([] : List Token).length from h)

theorem bump (t : Token) : Step.bump.Reads (.plain [t]) rest :=
  skip rfl

theorem node {kind : NodeKind} (hs : s.Reads p rest) : (Step.enclose kind s).Reads (.node kind p) rest := by
  intro i
  show (Parts.mk [] none [(s.run ⟨i, p.tokens ++ rest⟩).1.node kind i (s.run ⟨i, p.tokens ++ rest⟩).2.pos],
    (s.run ⟨i, p.tokens ++ rest⟩).2) = _
  rw [hs i]
  rfl

theorem leaf {kind : NodeKind} {reach : List Token → Nat} {ts : List Token}
    (h : reach (ts ++ rest) = ts.length) :
    (Step.leaf kind reach).Reads (.leaf kind ts) rest :=
  node (skip h)

theorem name (x : Identifier) : Step.name.Reads (.name x) rest :=
  fun _ => rfl

theorem modifier (m : ModifierWord) : Step.modifier.Reads (.modifier m) rest :=
  fun _ => rfl

theorem choose {f : List Token → Step} (h : (f (p.tokens ++ rest)).Reads p rest) :
    (Step.choose f).Reads p rest :=
  h

theorem whenAt {c : List Token → Bool} (hc : c (p.tokens ++ rest) = true) (hs : s.Reads p rest) :
    (Step.whenAt c s).Reads p rest := by
  refine choose ?_
  rw [if_pos hc]
  exact hs

theorem whenAt_nothing {c : List Token → Bool} (hc : c rest = false) :
    (Step.whenAt c s).Reads .nothing rest := by
  refine choose ?_
  show (if c rest then s else Step.idle).Reads .nothing rest
  rw [if_neg (by simp [hc])]
  exact idle

theorem eat (k : TokenKind) : (Step.eat k).Reads (.mark k) rest :=
  whenAt (decide_eq_true rfl) (bump _)

theorem each_nothing {next? : List Token → Option Step} (h : next? rest = none) :
    (Step.each next?).Reads .nothing rest :=
  fun _ => eachFrom_none h

theorem each_append {next? : List Token → Option Step} (hp : p.tokens ≠ [])
    (h : next? (p.tokens ++ (q.tokens ++ rest)) = some s) (hs : s.Reads p (q.tokens ++ rest))
    (hq : (Step.each next?).Reads q rest) : (Step.each next?).Reads (p ++ q) rest := by
  intro i
  have hne : p.tokens ++ (q.tokens ++ rest) ≠ [] := by simp [hp]
  have hlt : (q.tokens ++ rest).length < (p.tokens ++ (q.tokens ++ rest)).length := by
    have hpos := List.length_pos_iff.2 hp
    have hlength : (p.tokens ++ (q.tokens ++ rest)).length = p.tokens.length + (q.tokens ++ rest).length :=
      List.length_append
    omega
  have hrest : eachFrom next? ⟨i + p.tokens.length, q.tokens ++ rest⟩ = _ := hq (i + p.tokens.length)
  show eachFrom next? ⟨i, p.tokens ++ q.tokens ++ rest⟩ = _
  rw [List.append_assoc, eachFrom_some hne h, hs i, Cursor.past_of_shorter hlt]
  simp only [hrest, Printed.tokens_append, List.length_append, ← Nat.add_assoc]
  rfl

/-- Items with commas between them, up to the mark that closes the list. -/
theorem separated {next? : List Token → Option Step} {k : TokenKind} {ps : List Printed}
    (hend : next? (.mark k :: rest) = none) (hcomma : ∀ ts, next? (.mark .comma :: ts) = some .bump)
    (hitem : ∀ p ∈ ps, p.tokens ≠ [] ∧ ∀ ts, next? (p.tokens ++ ts) = some s)
    (hs : ∀ p ∈ ps, ∀ ts, (atKind .comma ts = true ∨ atKind k ts = true) → s.Reads p ts) :
    (Step.each next?).Reads (.separated ps) (.mark k :: rest) := by
  have hlater : ∀ ps : List Printed, (∀ p ∈ ps, p.tokens ≠ [] ∧ ∀ ts, next? (p.tokens ++ ts) = some s) →
      (∀ p ∈ ps, ∀ ts, (atKind .comma ts = true ∨ atKind k ts = true) → s.Reads p ts) →
      (Step.each next?).Reads (.afterCommas ps) (.mark k :: rest) ∧
        (atKind .comma ((Printed.afterCommas ps).tokens ++ .mark k :: rest) = true ∨
          atKind k ((Printed.afterCommas ps).tokens ++ .mark k :: rest) = true) := by
    intro ps hitem hs
    induction ps with
    | nil => exact ⟨each_nothing hend, .inr (decide_eq_true rfl)⟩
    | cons p ps ih =>
      obtain ⟨hp, hnext⟩ := hitem p List.mem_cons_self
      obtain ⟨ihr, ihk⟩ := ih (fun q hq => hitem q (List.mem_cons_of_mem _ hq))
        (fun q hq => hs q (List.mem_cons_of_mem _ hq))
      refine ⟨each_append (by simp) (hcomma _) (bump _) (each_append hp (hnext _) ?_ ihr), .inl rfl⟩
      exact hs p List.mem_cons_self _ ihk
  cases ps with
  | nil => exact each_nothing hend
  | cons p ps =>
    obtain ⟨hp, hnext⟩ := hitem p List.mem_cons_self
    obtain ⟨hr, hk⟩ := hlater ps (fun q hq => hitem q (List.mem_cons_of_mem _ hq))
      (fun q hq => hs q (List.mem_cons_of_mem _ hq))
    exact each_append hp (hnext _) (hs p List.mem_cons_self _ hk) hr

theorem whileAt_nothing {c : List Token → Bool} (hc : c rest = false) :
    (Step.whileAt c s).Reads .nothing rest :=
  each_nothing (if_neg (by simp [hc]))

theorem whileAt_concat {c : List Token → Bool} (hend : c rest = false) {ps : List Printed}
    (hp : ∀ p ∈ ps, p.tokens ≠ [] ∧ ∀ ts, c (p.tokens ++ ts) = true ∧ s.Reads p ts) :
    (Step.whileAt c s).Reads (.concat ps) rest := by
  induction ps with
  | nil => exact whileAt_nothing hend
  | cons p ps ih =>
    obtain ⟨hne, h⟩ := hp p List.mem_cons_self
    exact each_append hne (if_pos (h _).1) (h _).2 (ih fun q hq => hp q (List.mem_cons_of_mem _ hq))

end Step.Reads

/-! ## Parts of headers -/

section

open Step.Reads

variable {rest : List Token}

theorem attributes_nothing (h : atKind .lbracket rest = false) : attributes.Reads .nothing rest :=
  whileAt_nothing h

theorem atModifier_word {m : ModifierWord} (ts : List Token) : atModifier (.word m.text :: ts) = true := by
  simp only [atModifier, Bool.or_eq_true, List.any_eq_true]
  exact .inl ⟨m.text, m.isModifier, by simp [atWord_word]⟩

theorem atModifier_name (x : Identifier) (ts : List Token) : atModifier (.word x.text :: ts) = false := by
  have hm : ∀ w ∈ modifierWords, w ∈ testedWords := by decide
  rw [atModifier, x.any_atWord_eq_false hm, x.atWord_eq_false (by decide)]
  rfl

theorem modifiers_reads (ms : List ModifierWord) (h : atModifier rest = false) :
    modifiers.Reads (printedModifiers ms) rest := by
  refine whileAt_concat h fun p hp => ?_
  obtain ⟨m, -, rfl⟩ := List.mem_map.1 hp
  exact ⟨by simp, fun ts => ⟨atModifier_word ts, modifier m⟩⟩

theorem nameIfAny_reads (x : Identifier) : nameIfAny.Reads (.name x) rest :=
  whenAt rfl (name x)

theorem typeReference_reads (t : TypeRef) (h : atKind .ident rest = true) :
    typeReference.Reads (.leaf .type t.tokens) rest := by
  refine whenAt ?_ (leaf (typeReach_printed t h))
  obtain ⟨x, ts, ht⟩ := t.tokens_eq_cons
  rw [Printed.tokens_leaf, ht]
  rfl

theorem typeParameter_reads (x : Identifier) :
    typeParameter.Reads (.node .typeParameter (.name x)) rest := by
  refine node (idle_append (append_idle ?_ ?_) (nameIfAny_reads x))
  · exact attributes_nothing rfl
  · exact whenAt_nothing (x.any_atWord_eq_false (by decide))

theorem typeParameterList_reads (xs : List Identifier) :
    typeParameterList.Reads (printedTypeParameters (some xs)) rest := by
  refine node (append (append (bump _) (separated (k := .gt) (s := typeParameter) rfl (fun _ => rfl) ?_ ?_))
    (eat .gt))
  · intro p hp
    obtain ⟨x, -, rfl⟩ := List.mem_map.1 hp
    exact ⟨by simp, fun ts => rfl⟩
  · intro p hp ts _
    obtain ⟨x, -, rfl⟩ := List.mem_map.1 hp
    exact typeParameter_reads x

theorem typeParameters_reads (typeParameters? : Option (List Identifier)) (h : atKind .lt rest = false) :
    (Step.whenAt (atKind .lt) typeParameterList).Reads (printedTypeParameters typeParameters?) rest := by
  cases typeParameters? with
  | none => exact whenAt_nothing h
  | some xs => exact whenAt rfl (typeParameterList_reads xs)

theorem atKind_of_atKind_or {k k' j : TokenKind} (h : atKind k rest = true ∨ atKind k' rest = true)
    (hk : k ≠ j) (hk' : k' ≠ j) : atKind j rest = false :=
  h.elim (atKind_eq_false · hk) (atKind_eq_false · hk')

theorem defaultValue_reads (default? : Option DefaultExpression)
    (h : atKind .comma rest = true ∨ atKind .rparen rest = true) :
    defaultValue.Reads (printedDefault default?) rest := by
  cases default? with
  | none => exact whenAt_nothing (atKind_of_atKind_or h nofun nofun)
  | some e => exact whenAt rfl (append (bump _) (leaf (defaultReach_default e h)))

theorem parameter_reads (p : ParameterDeclaration)
    (h : atKind .comma rest = true ∨ atKind .rparen rest = true) :
    parameter.Reads p.printed rest := by
  obtain ⟨type, x, default?⟩ := p
  have hend : untilReach (·.kind = .comma) rest = 0 := by
    cases rest with
    | nil => simp [atKind] at h
    | cons t ts =>
      have ht : t.kind = .comma ∨ t.kind = .rparen := by simpa [atKind] using h
      rw [untilReach, runReach, if_pos (by rcases ht with ht | ht <;> simp [ht, Token.isClose])]
  obtain ⟨y, ts, ht⟩ := type.tokens_eq_cons
  have hwords : ∀ us : List Token, parameterWords.any (atWord · (type.tokens ++ us)) = false := fun us => by
    rw [ht]
    exact y.any_atWord_eq_false (by decide)
  have hbracket : ∀ us : List Token, atKind .lbracket (type.tokens ++ us) = false := fun us => by
    rw [ht]
    rfl
  refine node (append_idle (append (append (idle_append (append_idle ?_ ?_) ?_) (nameIfAny_reads x))
    (defaultValue_reads default? h)) (skip_nothing hend))
  · exact attributes_nothing (hbracket _)
  · exact whileAt_nothing (hwords _)
  · exact typeReference_reads type rfl

theorem parameterList_reads (ps : List ParameterDeclaration) :
    parameterList.Reads (printedParameters ps) rest := by
  refine node (append (append (bump _) (separated (k := .rparen) (s := parameter) rfl (fun _ => rfl) ?_ ?_))
    (eat .rparen))
  · intro p hp
    obtain ⟨p, -, rfl⟩ := List.mem_map.1 hp
    obtain ⟨x, ts, ht⟩ := p.type.tokens_eq_cons
    have htokens : ∃ ts', p.printed.tokens = .word x.text :: ts' := by
      simp [ParameterDeclaration.printed, ht]
    obtain ⟨ts', ht'⟩ := htokens
    rw [ht']
    exact ⟨by simp, fun ts => rfl⟩
  · intro p hp ts h
    obtain ⟨p, -, rfl⟩ := List.mem_map.1 hp
    exact parameter_reads p h

theorem constraints_nothing (h : atKind .ident rest = false) : constraints.Reads .nothing rest :=
  whileAt_nothing (atWord_of_atKind h)

theorem body_reads (b : MethodBody) : body.Reads b.printed rest := by
  refine choose ?_
  cases b with
  | missing => exact eat .semi
  | block content => exact leaf (groupReach_braced content rest)
  | arrow e =>
    refine append (leaf ?_) (eat .semi)
    have h := untilReach_arrow e rest
    show 1 + untilReach (·.kind = .semi) (e.tokens ++ .mark .semi :: rest) = _
    rw [h, List.length_cons, Nat.add_comm]

end

end DocPages.Source
