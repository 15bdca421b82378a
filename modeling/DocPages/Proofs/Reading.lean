/-
What reading keeps. A property of what is read between two cursors that one
reading after another keeps (`Kept`) passes through the combinators of steps
and endings; one that also allows for the moves of `Moves` and for nodes put
around what was read (`Traversal`) is kept by the header of every member,
whatever the tokens are (`Traversal.memberHeader`). Headers make up a scope as
`ReadsScope` says, item by item, and what holds of whole scopes is proved by
induction on it.
-/
import DocPages.Proofs.Moves
import DocPages.Source.Tree

namespace DocPages.Source

/-! ## Cursors -/

namespace Cursor

/-- The cursor stands between two tokens of the list `ts`. -/
def On (ts : List Token) (c : Cursor) : Prop :=
  c.rest = ts.drop c.pos ∧ c.pos ≤ ts.length

variable {ts : List Token} {c d : Cursor}

theorem On.start (ts : List Token) : (⟨0, ts⟩ : Cursor).On ts :=
  ⟨rfl, Nat.zero_le _⟩

theorem On.length (h : c.On ts) : c.pos + c.rest.length = ts.length := by
  obtain ⟨hr, hp⟩ := h
  rw [hr, List.length_drop]
  omega

/-- Of two places, the one with fewer tokens ahead is further on. -/
theorem On.pos_lt (hc : c.On ts) (hd : d.On ts) (h : d.rest.length < c.rest.length) : c.pos < d.pos := by
  have := hc.length
  have := hd.length
  omega

theorem On.advance (h : c.On ts) (n : Nat) : (c.advance n).On ts := by
  have hl := h.length
  obtain ⟨hr, hp⟩ := h
  refine ⟨?_, ?_⟩
  · simp only [Cursor.advance, hr, List.drop_drop, List.length_take, List.length_drop]
    by_cases hn : n ≤ ts.length - c.pos
    · rw [Nat.min_eq_left hn]
    · rw [List.drop_eq_nil_of_le (by omega), List.drop_eq_nil_of_le (by omega)]
  · simp only [Cursor.advance, List.length_take]
    omega

theorem On.reaches (h : c.On ts) (hd : c.Reaches d) : d.On ts := by
  obtain ⟨n, rfl⟩ := hd
  exact h.advance n

theorem On.reaches_of_le (hc : c.On ts) (hd : d.On ts) (h : c.pos ≤ d.pos) : c.Reaches d := by
  refine ⟨d.pos - c.pos, ?_⟩
  obtain ⟨pos, rest⟩ := c
  obtain ⟨pos', rest'⟩ := d
  obtain ⟨hr, hp⟩ := hc
  obtain ⟨hr', hp'⟩ := hd
  simp only at h hp hp' hr hr'
  subst hr hr'
  simp only [Cursor.advance, List.length_take, List.length_drop, List.drop_drop, Nat.add_sub_cancel' h,
    mk.injEq, and_true]
  omega

theorem On.getElem (h : c.On ts) {t : Token} {rest : List Token} (hr : c.rest = t :: rest) :
    ts[c.pos]? = some t := by
  rw [← List.head?_drop, ← h.1, hr, List.head?_cons]

theorem Reaches.pos_le (h : c.Reaches d) : c.pos ≤ d.pos := by
  obtain ⟨n, rfl⟩ := h
  exact Nat.le_add_right ..

/-- Moving on without coming nearer to the end is standing still. -/
theorem Reaches.eq_of_not_shorter (h : c.Reaches d) (hl : ¬ d.rest.length < c.rest.length) : d = c := by
  obtain ⟨n, rfl⟩ := h
  simp only [Cursor.advance, List.length_drop] at hl
  rcases Nat.eq_zero_or_pos n with rfl | hn
  · exact c.advance_zero
  · have : c.rest = [] := List.eq_nil_of_length_eq_zero (by omega)
    cases c
    simp_all [Cursor.advance]

theorem pos_advance_one {t : Token} {rest : List Token} (h : c.rest = t :: rest) :
    (c.advance 1).pos = c.pos + 1 := by
  simp [Cursor.advance, h]

theorem rest_advance_one {t : Token} {rest : List Token} (h : c.rest = t :: rest) :
    (c.advance 1).rest = rest := by
  simp [Cursor.advance, h]

end Cursor

/-! ## Parts -/

namespace Parts

@[simp] theorem none_append (p : Parts) : Parts.none ++ p = p := rfl

@[simp] theorem append_none (p : Parts) : p ++ Parts.none = p := by
  obtain ⟨modifiers, name?, children⟩ := p
  show Parts.append _ _ = _
  simp [Parts.append, Parts.none]

theorem append_assoc (p q r : Parts) : p ++ q ++ r = p ++ (q ++ r) := by
  show Parts.append (Parts.append p q) r = Parts.append p (Parts.append q r)
  simp [Parts.append, List.append_assoc, Option.or_assoc]

@[simp] theorem children_append (p q : Parts) : (p ++ q).children = p.children ++ q.children := rfl

end Parts

theorem Step.eat_parts (k : TokenKind) (c : Cursor) : ((Step.eat k).run c).1 = Parts.none := by
  show ((if atKind k c.rest then Step.bump else Step.idle).run c).1 = _
  split <;> rfl

/-- The end of a scope is no part of anything. -/
theorem Scope.close_parts (s : Scope) (c : Cursor) : (s.close.run c).1 = Parts.none := by
  cases s with
  | block => exact Step.eat_parts _ c
  | file => rfl
  | type owner? =>
    show ((Step.eat .rbrace).run c).1 ++ ((Step.eat .semi).run _).1 = _
    rw [Step.eat_parts, Step.eat_parts, Parts.none_append]

/-! ## Kept properties -/

/-- A property of what is read between two cursors that one reading after another keeps. -/
structure Kept where
  holds : Cursor → Parts → Cursor → Prop
  idle : ∀ c, holds c .none c
  append : ∀ {c d e p q}, holds c p d → holds d q e → holds c (p ++ q) e

/-- The property holds of what the step reads at a cursor. -/
def Step.KeepsAt (I : Kept) (s : Step) (c : Cursor) : Prop :=
  I.holds c (s.run c).1 (s.run c).2

/-- The token that a scope of members is opened by. -/
def Scope.mark : Scope → TokenKind
  | .file => .semi
  | _ => .lbrace

/-- The property holds of what the ending reads at a cursor, up to the mark that opens a scope if it does. -/
def Ending.KeepsAt (I : Kept) (e : Ending) (c : Cursor) : Prop :=
  match (e.run c).scope? with
  | none => I.holds c (e.run c).parts (e.run c).next
  | some s => ∃ d, I.holds c (e.run c).parts d ∧ atKind s.mark d.rest = true ∧ (e.run c).next = d.advance 1

section Kept

variable {I : Kept} {c : Cursor}

namespace Step.KeepsAt

theorem idle : Step.idle.KeepsAt I c :=
  I.idle c

theorem append {s t : Step} (h : s.KeepsAt I c) (h' : t.KeepsAt I (s.run c).2) : (s ++ t).KeepsAt I c :=
  I.append h h'

theorem choose {f : List Token → Step} (h : (f c.rest).KeepsAt I c) : (Step.choose f).KeepsAt I c :=
  h

theorem whenAt {p : List Token → Bool} {s : Step} (h : p c.rest = true → s.KeepsAt I c) :
    (Step.whenAt p s).KeepsAt I c := by
  show (if p c.rest then s else Step.idle).KeepsAt I c
  split
  · next hp => exact h hp
  · exact idle

/-- A repetition keeps what each of its steps keeps, if passing over a token where a step stood still keeps
it too. -/
theorem each {next? : List Token → Option Step}
    (h : ∀ (c : Cursor) s, next? c.rest = some s → s.KeepsAt I c)
    (hpast : ∀ (c : Cursor) s, c.rest ≠ [] → next? c.rest = some s → (s.run c).2 = c →
      I.holds c .none (c.advance 1)) (c : Cursor) : (Step.each next?).KeepsAt I c := by
  show I.holds c (eachFrom next? c).1 (eachFrom next? c).2
  fun_induction eachFrom next? c with
  | case1 c => exact I.idle c
  | case2 c => exact I.idle c
  | case3 c hr s hs read _ others ih =>
    refine I.append (d := c.past read.2) ?_ ih
    by_cases hl : read.2.rest.length < c.rest.length
    · rw [Cursor.past_of_shorter hl]
      exact h c s hs
    · have hstill : read.2 = c := (s.forward c).eq_of_not_shorter hl
      have hread : I.holds c read.1 c := by
        have := h c s hs
        rwa [KeepsAt, show (s.run c).2 = c from hstill] at this
      rw [Cursor.past, if_neg hl, ← read.1.append_none]
      exact I.append hread (hpast c s hr hs hstill)

theorem whileAt {p : List Token → Bool} {s : Step} (h : ∀ c : Cursor, p c.rest = true → s.KeepsAt I c)
    (hpast : ∀ c : Cursor, p c.rest = true → I.holds c .none (c.advance 1)) (c : Cursor) :
    (Step.whileAt p s).KeepsAt I c := by
  refine each (fun c s' hs => ?_) (fun c s' _ hs _ => hpast c (Option.ite_none_right_eq_some.1 hs).1) c
  obtain ⟨hp, hs⟩ := Option.ite_none_right_eq_some.1 hs
  obtain rfl := Option.some.inj hs
  exact h c hp

end Step.KeepsAt

namespace Ending.KeepsAt

theorem plain {kind : NodeKind} {s : Step} (h : s.KeepsAt I c) : (Ending.plain kind s).KeepsAt I c :=
  h

theorem opening {kind : NodeKind} {scope : Scope} (h : atKind scope.mark c.rest = true) :
    (Ending.opening kind scope).KeepsAt I c := by
  have hne : c.rest.isEmpty = false := by
    obtain ⟨t, rest, hr, -⟩ := eq_cons_of_atKind h
    rw [hr]
    rfl
  simp only [KeepsAt, Ending.opening, hne, Bool.false_eq_true, if_false]
  exact ⟨c, I.idle c, h, rfl⟩

theorem choose {f : List Token → Ending} (h : (f c.rest).KeepsAt I c) : (Ending.choose f).KeepsAt I c :=
  h

theorem after {s : Step} {e : Ending} (h : s.KeepsAt I c) (h' : e.KeepsAt I (s.run c).2) :
    (Ending.after s e).KeepsAt I c := by
  unfold KeepsAt at h' ⊢
  have hs : ((Ending.after s e).run c).scope? = (e.run (s.run c).2).scope? := rfl
  rw [hs]
  cases hn : (e.run (s.run c).2).scope? with
  | none =>
    rw [hn] at h'
    exact I.append h h'
  | some scope =>
    rw [hn] at h'
    obtain ⟨d, hd, hm, he⟩ := h'
    exact ⟨d, I.append h hd, hm, he⟩

end Ending.KeepsAt

end Kept

/-! ## Words -/

theorem atKind_of_any_atWord {ws : List String} {ts : List Token} (h : ws.any (atWord · ts) = true) :
    atKind .ident ts = true := by
  obtain ⟨w, _, hw⟩ := List.any_eq_true.1 h
  exact atKind_of_atWord hw

theorem atKind_of_atModifier {ts : List Token} (h : atModifier ts = true) : atKind .ident ts = true := by
  rcases Bool.or_eq_true_iff.1 h with h | h
  · exact atKind_of_any_atWord h
  · exact atKind_of_atWord (Bool.and_eq_true_iff.1 h).1

/-! ## Headers -/

/-- The kinds of nodes that have a scope of members. -/
def NodeKind.isScope (k : NodeKind) : Bool :=
  k = .namespaceUnit || k = .classType || k = .interfaceType || k = .structType || k = .recordType

/-- The kinds of nodes that headers are made of, bodies included. The others are units and their members. -/
def NodeKind.isPart (k : NodeKind) : Bool :=
  !(k.isScope || k = .compilationUnit || k = .enumType || k = .constructor || k = .method || k = .property ||
    k = .member)

theorem isScope_of_isPart {k : NodeKind} (h : k.isPart = true) : k.isScope = false := by
  cases k <;> first | rfl | cases h

/-- A kept property that allows for moves, names and modifiers, and for parts around what was read. -/
structure Traversal extends Kept where
  moves : ∀ {c n}, Moves c.rest n → holds c .none (c.advance n)
  enclose : ∀ {c d p kind}, kind.isPart = true → holds c p d →
    holds c ⟨[], none, [p.node kind c.pos d.pos]⟩ d
  name : ∀ {c}, atKind .ident c.rest = true → holds c ⟨[], some c.pos, []⟩ (c.advance 1)
  modifier : ∀ {c}, atKind .ident c.rest = true → holds c ⟨[c.pos], none, []⟩ (c.advance 1)

theorem untilReach_pos {stop : Token → Bool} {t : Token} {rest : List Token} (hs : stop t = false)
    (hc : t.isClose = false) : 0 < untilReach stop (t :: rest) := by
  rw [untilReach, runReach]
  simp only [hs, hc, Bool.or_self, Bool.false_eq_true, if_false]
  omega

/-- A parameter that begins with a brace takes the whole group in. -/
theorem parameter_forward {c : Cursor} (h : atKind .lbrace c.rest = true) : (parameter.run c).2 ≠ c := by
  intro hstill
  let front := attributes ++ Step.whileAt (fun ts => parameterWords.any (atWord · ts)) .modifier ++
    typeReference ++ nameIfAny ++ defaultValue
  let reach := untilReach (·.kind = .comma)
  have hrun : (parameter.run c).2 = (front.run c).2.advance (reach (front.run c).2.rest) := rfl
  have hfront : (front.run c).2 = c := by
    refine (front.forward c).eq_of_not_shorter ?_
    have := (Cursor.Reaches.advance (front.run c).2 (reach (front.run c).2.rest)).length_le
    rw [← hrun, hstill] at this
    omega
  rw [hrun, hfront] at hstill
  obtain ⟨t, rest, hr, hk⟩ := eq_cons_of_atKind h
  have hpos : 0 < reach c.rest := by
    rw [hr]
    exact untilReach_pos (by simp [hk]) (by simp [Token.isClose, hk])
  have hlen := congrArg (·.rest.length) hstill
  simp only [Cursor.advance, List.length_drop, hr, List.length_cons] at hlen hpos
  omega

namespace Traversal

variable (T : Traversal) {c : Cursor}

theorem skip {reach : List Token → Nat} (h : Moves c.rest (reach c.rest)) :
    (Step.skip reach).KeepsAt T.toKept c :=
  T.moves h

theorem leaf {kind : NodeKind} {reach : List Token → Nat} (hk : kind.isPart = true)
    (h : Moves c.rest (reach c.rest)) : (Step.leaf kind reach).KeepsAt T.toKept c :=
  T.enclose hk (T.moves h)

theorem node {kind : NodeKind} {s : Step} (hk : kind.isPart = true) (h : s.KeepsAt T.toKept c) :
    (Step.enclose kind s).KeepsAt T.toKept c :=
  T.enclose hk h

theorem bump {k : TokenKind} (h : atKind k c.rest = true) (hk : k.isBrace = false) :
    Step.bump.KeepsAt T.toKept c :=
  T.moves (.of_atKind h hk)

theorem eat {k : TokenKind} (c : Cursor) (hk : k.isBrace = false) : (Step.eat k).KeepsAt T.toKept c :=
  .whenAt fun h => T.bump h hk

theorem nameStep (h : atKind .ident c.rest = true) : Step.name.KeepsAt T.toKept c :=
  T.name h

theorem modifierStep (h : atKind .ident c.rest = true) : Step.modifier.KeepsAt T.toKept c :=
  T.modifier h

theorem eatWord (ws : List String) (c : Cursor) : (Step.eatWord ws).KeepsAt T.toKept c :=
  .whenAt fun h => T.bump (atKind_of_any_atWord h) rfl

/-! ### Parts -/

theorem attributeList (h : atKind .lbracket c.rest = true) : attributeList.KeepsAt T.toKept c :=
  T.leaf rfl (.groupReach h nofun)

theorem attributes (c : Cursor) : attributes.KeepsAt T.toKept c :=
  .whileAt (fun _ => T.attributeList) (fun _ h => T.moves (.of_atKind h rfl)) c

theorem modifiers (c : Cursor) : modifiers.KeepsAt T.toKept c :=
  .whileAt (fun _ h => T.modifierStep (atKind_of_atModifier h))
    (fun _ h => T.moves (.of_atKind (atKind_of_atModifier h) rfl)) c

theorem nameIfAny (c : Cursor) : nameIfAny.KeepsAt T.toKept c :=
  .whenAt fun h => T.name h

theorem typeReference (c : Cursor) : typeReference.KeepsAt T.toKept c :=
  .whenAt fun _ => T.leaf rfl (.typeReach _)

theorem typeParameter (c : Cursor) : typeParameter.KeepsAt T.toKept c :=
  T.node rfl (((T.attributes c).append (T.eatWord _ _)).append (T.nameIfAny _))

/-- The items of a list up to its end. A token that is passed over because an item stood still is no brace: the
list ends in front of a closing one, and of an opening one unless items take in the group that it begins. -/
theorem listItems {item : Step} {ends : List TokenKind} (hitem : ∀ c, item.KeepsAt T.toKept c) (hclose : .rbrace ∈ ends)
    (hopen : ∀ c : Cursor, atKind .lbrace c.rest = true → .lbrace ∈ ends ∨ (item.run c).2 ≠ c) (c : Cursor) :
    (Step.each fun ts => if ends.any (atKind · ts) then none else if atKind .comma ts then some .bump
      else some item).KeepsAt T.toKept c := by
  refine .each (fun c s hs => ?_) (fun c s hne hs hstill => ?_) c
  · split at hs
    · cases hs
    · split at hs
      · next hc => cases hs; exact T.bump hc rfl
      · cases hs; exact hitem c
  · split at hs
    · cases hs
    · next hend =>
      obtain ⟨t, rest, hr⟩ := List.exists_cons_of_ne_nil hne
      have hnot : ∀ k ∈ ends, t.kind ≠ k := fun k hk ht =>
        hend (List.any_eq_true.2 ⟨k, hk, by simp [hr, atKind, ht]⟩)
      refine T.moves (hr ▸ .step (fun hl => ?_) (hnot _ hclose))
      split at hs
      · next hc => simp [hr, atKind, hl] at hc
      · cases hs
        rcases hopen c (by simp [hr, atKind, hl]) with hmem | hmoves
        · exact hnot _ hmem hl
        · exact hmoves hstill

theorem typeParameterList (h : atKind .lt c.rest = true) : typeParameterList.KeepsAt T.toKept c :=
  T.node rfl (((T.bump h rfl).append
    (T.listItems T.typeParameter (by decide) (fun _ _ => .inl (by decide)) _)).append (T.eat _ rfl))

theorem defaultValue (c : Cursor) : defaultValue.KeepsAt T.toKept c :=
  .whenAt fun h => (T.bump h rfl).append (T.leaf rfl (.defaultReach _))

theorem parameter (c : Cursor) : parameter.KeepsAt T.toKept c := by
  refine T.node rfl ?_
  refine ((((((T.attributes c).append ?_).append (T.typeReference _)).append (T.nameIfAny _)).append
    (T.defaultValue _)).append (T.skip (.untilReach _ _)))
  exact .whileAt (fun _ h => T.modifierStep (atKind_of_any_atWord h))
    (fun _ h => T.moves (.of_atKind (atKind_of_any_atWord h) rfl)) _

theorem parameterList (h : atKind .lparen c.rest = true) : parameterList.KeepsAt T.toKept c :=
  T.node rfl (((T.bump h rfl).append
    (T.listItems T.parameter (by decide) (fun _ h => .inr (parameter_forward h)) _)).append (T.eat _ rfl))

theorem constraints (c : Cursor) : constraints.KeepsAt T.toKept c :=
  .whileAt (fun _ h => T.leaf rfl (.constraintReach h)) (fun _ h => T.moves (.of_atWord h)) c

theorem body (c : Cursor) : body.KeepsAt T.toKept c := by
  refine .choose ?_
  split
  · next h => exact T.leaf rfl (.groupReach h nofun)
  · split
    · next h => exact (T.leaf rfl (.arrowReach h _)).append (T.eat _ rfl)
    · exact T.eat _ rfl

/-! ### Members by kind -/

theorem otherMember (c : Cursor) : otherMember.KeepsAt T.toKept c :=
  .plain (T.skip (.memberReach _))

theorem namespaceHeader (h : atKind .ident c.rest = true) : namespaceHeader.KeepsAt T.toKept c := by
  refine .after ((T.bump h rfl).append (T.leaf rfl (.dottedReach _))) (.choose ?_)
  split
  · next h => exact .opening h
  · split
    · next h => exact .opening h
    · exact .plain .idle

theorem recordWord (kind : NodeKind) (c : Cursor) : (recordWord kind).KeepsAt T.toKept c := by
  unfold Source.recordWord
  split
  · exact T.eatWord _ c
  · exact .idle

theorem typeScope (kind : NodeKind) (owner? : Option String) (c : Cursor) :
    (typeScope kind owner?).KeepsAt T.toKept c := by
  refine .choose ?_
  split
  · next h =>
    split
    · exact .plain ((T.skip (.groupReach h nofun)).append (T.eat _ rfl))
    · exact .opening h
  · exact .plain (T.eat _ rfl)

theorem typeHeader (kind : NodeKind) (h : atKind .ident c.rest = true) :
    (typeHeader kind).KeepsAt T.toKept c := by
  refine .after ((T.bump h rfl).append (T.recordWord kind _)) (.choose (.after ?_ (T.typeScope kind _ _)))
  exact ((((T.nameIfAny _).append (.whenAt T.typeParameterList)).append (.whenAt T.parameterList)).append
    (.whenAt fun h => T.leaf rfl (.baseListReach h))).append (T.constraints _)

theorem constructorHeader (h : atKind .ident c.rest = true) (hp : atKind .lparen c.rest.tail = true) :
    constructorHeader.KeepsAt T.toKept c := by
  have hp' : atKind .lparen (Step.name.run c).2.rest = true := by simpa [Step.name, Cursor.advance] using hp
  refine .plain (((((T.nameStep h).append (T.parameterList hp'))).append (.whenAt fun h => ?_)).append
    (T.body _))
  exact T.leaf rfl (.initializerReach h)

theorem methodHeader (c : Cursor) : methodHeader.KeepsAt T.toKept c :=
  .plain ((((Step.KeepsAt.whenAt T.typeParameterList).append (.whenAt T.parameterList)).append
    (T.constraints _)).append (T.body _))

theorem propertyHeader (c : Cursor) : propertyHeader.KeepsAt T.toKept c := by
  refine .plain (.choose ?_)
  split
  · next h => exact (T.leaf rfl (.groupReach h nofun)).append (.whenAt fun _ => T.skip (.statementReach _))
  · exact T.body c

theorem explicitInterface (c : Cursor) : explicitInterface.KeepsAt T.toKept c :=
  .whenAt fun _ => T.leaf rfl (.interfaceReach _)

theorem typedMember (c : Cursor) : typedMember.KeepsAt T.toKept c := by
  refine .after (T.typeReference c) (.choose ?_)
  split
  · exact T.otherMember _
  · refine .after (T.explicitInterface _) (.choose ?_)
    split
    · exact T.otherMember _
    · next hn =>
      simp only [Bool.not_eq_true', Bool.not_eq_false, atMemberName, Bool.and_eq_true] at hn
      refine .after (T.nameStep hn.1.1) (.choose ?_)
      split
      · exact T.methodHeader _
      · split
        · exact T.propertyHeader _
        · exact T.otherMember _

/-! ### Members -/

theorem wordHeader (owner? : Option String) {t : Token} {rest : List Token} (hr : c.rest = t :: rest)
    (ht : t.kind = .ident) : (wordHeader owner? t.text rest).KeepsAt T.toKept c := by
  have h : atKind .ident c.rest = true := by simp [hr, atKind, ht]
  unfold Source.wordHeader
  split
  · exact T.namespaceHeader h
  · exact T.typeHeader _ h
  · exact T.typeHeader _ h
  · exact T.typeHeader _ h
  · exact T.typeHeader _ h
  · exact T.typeHeader _ h
  · exact .plain (T.skip (.statementReach _))
  · exact T.otherMember c
  · exact T.otherMember c
  · exact T.otherMember c
  · split
    · next hc =>
      simp only [Bool.and_eq_true] at hc
      exact T.constructorHeader h (by rw [hr]; exact hc.2)
    · exact T.typedMember c

theorem declarationHeader (owner? : Option String) (c : Cursor) :
    (declarationHeader owner?).KeepsAt T.toKept c := by
  refine .choose ?_
  split
  · exact .plain .idle
  · next t rest hr =>
    split
    · next ht => exact T.wordHeader owner? hr ht
    · split
      · exact T.otherMember c
      · exact .plain .idle

/-- **The header of every member keeps what a traversal keeps.** -/
theorem memberHeader (owner? : Option String) (c : Cursor) : (memberHeader owner?).KeepsAt T.toKept c := by
  refine .choose ?_
  split
  · next h =>
    simp only [atStandingAttribute, Bool.and_eq_true] at h
    exact .plain (T.attributeList h.1.1)
  · exact .after ((T.attributes c).append (T.modifiers _)) (T.declarationHeader owner? _)

end Traversal

/-! ## Scopes -/

section

variable {owner? : Option String} {braced : Bool} {c d e : Cursor} {t : Token} {rest : List Token} {h : Header}
  {ns : List Node}

theorem itemAt_close (hi : itemAt owner? braced c t = .close) : braced = true ∧ t.kind = .rbrace := by
  unfold itemAt at hi
  split at hi
  · simp_all
  · repeat' split at hi
    all_goals cases hi

theorem itemAt_skipped (hi : itemAt owner? braced c t = .skipped d) : c.Reaches d := by
  unfold itemAt at hi
  repeat' split at hi
  all_goals cases hi
  all_goals exact .advance c _

theorem itemAt_member (hi : itemAt owner? braced c t = .member h) : h = (memberHeader owner?).run c := by
  unfold itemAt at hi
  repeat' split at hi
  all_goals cases hi
  rfl

theorem itemAt_member_reaches (hi : itemAt owner? braced c t = .member h) : c.Reaches h.next :=
  itemAt_member hi ▸ (memberHeader owner?).forward c

/-- The nodes `ns` are read of the scope from the cursor `c` on, up to where the scope ends. This is `members`
item by item, with the nodes of a member's own scope as the last of its children. -/
inductive ReadsScope : Option String → Bool → Cursor → List Node → Cursor → Prop where
  | done {owner? : Option String} {braced : Bool} {c : Cursor}
      (ended : c.rest = [] ∨ braced = true ∧ atKind .rbrace c.rest = true) : ReadsScope owner? braced c [] c
  | skipped {owner? : Option String} {braced : Bool} {c d e : Cursor} {t : Token} {rest : List Token}
      {ns : List Node} (next : c.rest = t :: rest) (item : itemAt owner? braced c t = .skipped d)
      (others : ReadsScope owner? braced (c.past d) ns e) : ReadsScope owner? braced c ns e
  | plain {owner? : Option String} {braced : Bool} {c e : Cursor} {t : Token} {rest : List Token}
      {ns : List Node} {h : Header} (next : c.rest = t :: rest) (item : itemAt owner? braced c t = .member h)
      (scopeless : h.scope? = none) (others : ReadsScope owner? braced (c.past h.next) ns e) :
      ReadsScope owner? braced c (h.parts.node h.kind c.pos h.next.pos :: ns) e
  | scope {owner? : Option String} {braced : Bool} {c d e : Cursor} {t : Token} {rest : List Token}
      {inner ns : List Node} {h : Header} {s : Scope} (next : c.rest = t :: rest)
      (item : itemAt owner? braced c t = .member h) (opens : h.scope? = some s)
      (inside : ReadsScope s.owner? s.isBraced h.next inner d)
      (others : ReadsScope owner? braced (c.past (s.close.run d).2) ns e) :
      ReadsScope owner? braced c
        ((h.parts ++ ⟨[], none, inner⟩).node h.kind c.pos (s.close.run d).2.pos :: ns) e

theorem members_readsScope (owner? : Option String) (braced : Bool) (c : Cursor) :
    ReadsScope owner? braced c (members owner? braced c).1 (members owner? braced c).2 := by
  fun_induction members owner? braced c with
  | case1 owner? braced c hr => exact .done (.inl hr)
  | case2 owner? braced c t rest hr past hi =>
    obtain ⟨hb, hk⟩ := itemAt_close hi
    exact .done (.inr ⟨hb, by simp [hr, atKind, hk]⟩)
  | case3 owner? braced c t rest hr past d hi ih => exact .skipped hr hi ih
  | case4 owner? braced c t rest hr past h hi hs others ih => exact .plain hr hi hs ih
  | case5 owner? braced c t rest hr past h hi s hs enters inner closed parts others ih₁ ih₂ =>
    have hparts : parts = h.parts ++ ⟨[], none, inner.1⟩ := by
      show h.parts ++ ⟨[], none, inner.1⟩ ++ (s.close.run inner.2).1 = _
      rw [s.close_parts, Parts.append_none]
    rw [hparts]
    exact .scope hr hi hs ih₁ ih₂

namespace ReadsScope

theorem reaches (h : ReadsScope owner? braced c ns e) : c.Reaches e := by
  induction h with
  | done => exact .refl _
  | skipped _ item _ ih => exact (Cursor.reaches_past (itemAt_skipped item)).trans ih
  | plain _ item _ _ ih => exact (Cursor.reaches_past (itemAt_member_reaches item)).trans ih
  | @scope _ _ _ d _ _ _ _ _ _ s _ item _ _ _ ih₁ ih₂ =>
    exact (Cursor.reaches_past (((itemAt_member_reaches item).trans ih₁).trans (s.close.forward d))).trans ih₂

/-- A scope ends where the tokens end, or at its closing brace if it has one. -/
theorem ended (h : ReadsScope owner? braced c ns e) : e.rest = [] ∨ braced = true ∧ atKind .rbrace e.rest = true := by
  induction h with
  | done ended => exact ended
  | skipped _ _ _ ih | plain _ _ _ _ ih | scope _ _ _ _ _ _ ih => exact ih

end ReadsScope

theorem reaches_members (owner? : Option String) (braced : Bool) (c : Cursor) :
    c.Reaches (members owner? braced c).2 :=
  (members_readsScope owner? braced c).reaches

/-- A scope without a closing brace of its own ends where the tokens end. -/
theorem members_unbraced (owner? : Option String) (c : Cursor) : (members owner? false c).2.rest = [] :=
  (members_readsScope owner? false c).ended.resolve_right (by simp)

end

end DocPages.Source
