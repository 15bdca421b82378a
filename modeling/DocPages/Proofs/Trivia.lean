/-
Reading is blind to trivia: it sees the kinds and the texts of tokens and
nothing else, so a unit keeps its tree when all trivia are taken from its tokens
(`Tree.root_strip`).
-/
import DocPages.Proofs.Equations
import DocPages.Proofs.Moves

namespace DocPages.Source

/-! ## Tokens -/

/-- The token without its trivia. -/
def Token.strip (t : Token) : Token :=
  ⟨t.kind, t.text, [], []⟩

def Token.bare (t : Token) : BareToken :=
  ⟨t.kind, t.text⟩

namespace Token

variable (t : Token)

@[simp] theorem strip_kind : t.strip.kind = t.kind := rfl
@[simp] theorem strip_text : t.strip.text = t.text := rfl
@[simp] theorem strip_isOpen : t.strip.isOpen = t.isOpen := rfl
@[simp] theorem strip_isClose : t.strip.isClose = t.isClose := rfl
@[simp] theorem strip_isWord (w : String) : t.strip.isWord w = t.isWord w := rfl
@[simp] theorem strip_isPunct (p : String) : t.strip.isPunct p = t.isPunct p := rfl
@[simp] theorem strip_isTypeArgumentPart : t.strip.isTypeArgumentPart = t.isTypeArgumentPart := rfl

end Token

/-- Tokens with the same kinds and texts are the same without trivia. -/
theorem map_strip_eq {ts us : List Token} (h : ts.map Token.bare = us.map Token.bare) :
    ts.map Token.strip = us.map Token.strip := by
  have hstrip : Token.strip = (fun b => ⟨b.kind, b.text, [], []⟩) ∘ Token.bare := rfl
  rw [hstrip, ← List.map_map, ← List.map_map, h]

/-! ## Reaches -/

section

variable (ts : List Token)

@[simp] theorem atKind_strip (k : TokenKind) : atKind k (ts.map .strip) = atKind k ts := by
  cases ts <;> rfl

@[simp] theorem atWord_strip (w : String) : atWord w (ts.map .strip) = atWord w ts := by
  cases ts <;> rfl

@[simp] theorem closeReach_strip (depth : Nat) : closeReach depth (ts.map .strip) =
    closeReach depth ts := by
  induction ts generalizing depth with
  | nil => rfl
  | cons t ts ih => simp only [List.map_cons, closeReach, Token.strip_isOpen, Token.strip_isClose, ih]

@[simp] theorem itemReach_strip (t : Token) : itemReach t.strip (ts.map .strip) = itemReach t ts := by
  simp only [itemReach, Token.strip_isOpen, closeReach_strip]

@[simp] theorem groupReach_strip : groupReach (ts.map .strip) = groupReach ts := by
  cases ts with
  | nil => rfl
  | cons t ts => simp only [List.map_cons, groupReach, itemReach_strip]

theorem runReach_strip {more : Token → List Token → Option Nat}
    (h : ∀ t rest, more t.strip (rest.map .strip) = more t rest) :
    runReach more (ts.map .strip) = runReach more ts := by
  fun_induction runReach more ts with
  | case1 => rw [List.map_nil, runReach]
  | case2 t rest hn => rw [List.map_cons, runReach, h, hn]
  | case3 t rest n hn ih =>
    rw [List.map_cons, runReach, h, hn]
    show 1 + n + runReach more ((rest.map .strip).drop n) = _
    rw [← List.map_drop, ih]

theorem untilReach_strip {stop : Token → Bool} (h : ∀ t : Token, stop t.strip = stop t) :
    untilReach stop (ts.map .strip) = untilReach stop ts :=
  runReach_strip ts fun t rest => by rw [h, itemReach_strip, Token.strip_isClose]

@[simp] theorem statementReach_strip : statementReach (ts.map .strip) = statementReach ts := by
  have hn : untilReach (·.kind = .semi) (ts.map .strip) = untilReach (·.kind = .semi) ts :=
    untilReach_strip ts fun _ => rfl
  simp only [statementReach, hn, ← List.map_drop, atKind_strip]

@[simp] theorem memberReach_strip : memberReach (ts.map .strip) = memberReach ts := by
  have hrun : runReach _ (ts.map .strip) = runReach (fun t rest =>
      if t.kind = .rbrace || t.kind = .semi || t.kind = .lbrace then none else some (itemReach t rest))
        ts :=
    runReach_strip ts fun t rest => by rw [itemReach_strip, Token.strip_kind]
  simp only [memberReach, hrun]
  generalize runReach _ ts = n
  rw [← List.map_drop]
  cases ts.drop n with
  | nil => rfl
  | cons t rest => simp only [List.map_cons, Token.strip_kind, itemReach_strip, ← List.map_drop,
    atKind_strip]

@[simp] theorem angleReach_strip (depth : Nat) : angleReach depth (ts.map .strip) =
    angleReach depth ts := by
  fun_induction angleReach depth ts with
  | case1 => rw [List.map_nil, angleReach]
  | case2 depth t rest hk ih =>
    rw [List.map_cons, angleReach, Token.strip_kind, hk]
    exact congrArg (1 + ·) ih
  | case3 depth t rest hk hd => rw [List.map_cons, angleReach, Token.strip_kind, hk, if_pos hd]
  | case4 depth t rest hk hd ih =>
    rw [List.map_cons, angleReach, Token.strip_kind, hk, if_neg hd]
    exact congrArg (1 + ·) ih
  | case5 depth t rest hk n ih | case6 depth t rest hk n ih =>
    rw [List.map_cons, angleReach, Token.strip_kind, hk, itemReach_strip]
    rw [List.map_drop] at ih
    exact congrArg (1 + n + ·) ih
  | case7 depth t rest hk | case8 depth t rest hk | case9 depth t rest hk =>
    rw [List.map_cons, angleReach, Token.strip_kind, hk]
  | case10 depth t rest _ _ _ _ _ _ _ ih =>
    rw [List.map_cons, angleReach, Token.strip_kind]
    split
    all_goals first | contradiction | exact congrArg (1 + ·) ih

@[simp] theorem flatAngleReach_strip (depth : Nat) :
    flatAngleReach depth (ts.map .strip) = flatAngleReach depth ts := by
  induction ts generalizing depth with
  | nil => rfl
  | cons t ts ih => simp only [List.map_cons, flatAngleReach, Token.strip_kind, ih]

@[simp] theorem typeArgumentsReach_strip (depth : Nat) :
    typeArgumentsReach depth (ts.map .strip) = typeArgumentsReach depth ts := by
  induction ts generalizing depth with
  | nil => rfl
  | cons t ts ih =>
    simp only [List.map_cons, typeArgumentsReach, Token.strip_kind, Token.strip_isTypeArgumentPart, ih]

@[simp] theorem angleListReach_strip : angleListReach (ts.map .strip) = angleListReach ts := by
  cases ts with
  | nil => rfl
  | cons t ts => simp only [List.map_cons, angleListReach, Token.strip_kind, angleReach_strip]

@[simp] theorem dottedReach_strip : dottedReach (ts.map .strip) = dottedReach ts := by
  fun_induction dottedReach ts <;> simp_all [dottedReach]

@[simp] theorem pathReach_strip : pathReach (ts.map .strip) = pathReach ts := by
  fun_induction pathReach ts with
  | case1 ts n a b rest hd hk ih =>
    simp only [Bool.and_eq_true, decide_eq_true_eq] at hk
    have hd' : (ts.map .strip).drop (angleListReach (ts.map .strip)) =
      a.strip :: b.strip :: rest.map .strip := by
      rw [angleListReach_strip, ← List.map_drop, hd]
      rfl
    rw [pathReach_dot hd' hk.1 hk.2, ih, angleListReach_strip]
  | case2 ts n a b rest hd hn hk ih =>
    have hd' : (ts.map .strip).drop (angleListReach (ts.map .strip)) =
      a.strip :: b.strip :: rest.map .strip := by
      rw [angleListReach_strip, ← List.map_drop, hd]
      rfl
    simp only [Bool.and_eq_true, decide_eq_true_eq] at hk
    obtain ⟨⟨ha, hb⟩, hr⟩ := hk
    rw [pathReach_colons hd' ha hb (by rwa [atKind_strip]), ← List.map_tail, ih, angleListReach_strip]
  | case3 ts n a b rest hd hn hk =>
    rw [pathReach_end fun a' b' rest' h => ?_, angleListReach_strip]
    rw [angleListReach_strip, ← List.map_drop, hd, List.map_cons, List.map_cons, List.cons.injEq,
      List.cons.injEq] at h
    obtain ⟨rfl, rfl, rfl⟩ := h
    rw [atKind_strip]
    exact ⟨hn, hk⟩
  | case4 ts n hd =>
    rw [pathReach_end fun a b rest h => ?_, angleListReach_strip]
    rw [angleListReach_strip, ← List.map_drop] at h
    obtain ⟨a, as, ha, rfl, has⟩ := List.map_eq_cons_iff.1 h
    obtain ⟨b, bs, rfl, rfl, rfl⟩ := List.map_eq_cons_iff.1 has
    exact absurd ha (hd a b bs)

@[simp] theorem refReach_strip : refReach (ts.map .strip) = refReach ts := by
  cases ts with
  | nil => rfl
  | cons t ts => simp only [List.map_cons, refReach, Token.strip_isWord, atWord_strip]

@[simp] theorem bareTypeReach_strip : bareTypeReach (ts.map .strip) = bareTypeReach ts := by
  cases ts with
  | nil => rfl
  | cons t ts => simp only [List.map_cons, bareTypeReach, Token.strip_kind, itemReach_strip,
    pathReach_strip]

@[simp] theorem typeSuffixReach_strip : typeSuffixReach (ts.map .strip) = typeSuffixReach ts :=
  runReach_strip ts fun t rest => by
    rw [atKind_strip, atKind_strip, itemReach_strip, Token.strip_kind, Token.strip_isPunct]

@[simp] theorem typeReach_strip : typeReach (ts.map .strip) = typeReach ts := by
  simp only [typeReach, refReach_strip, ← List.map_drop, bareTypeReach_strip, typeSuffixReach_strip]

@[simp] theorem flatListReach_strip : flatListReach (ts.map .strip) = flatListReach ts := by
  rw [flatListReach, atKind_strip, ← List.map_tail, flatAngleReach_strip, flatListReach]

@[simp] theorem interfaceReach_strip : interfaceReach (ts.map .strip) = interfaceReach ts := by
  fun_induction interfaceReach ts with
  | case1 => rw [List.map_nil, interfaceReach]
  | case2 t rest hk n u us hd hu ih =>
    have hn : n = flatListReach rest := rfl
    rw [hn] at hd ih ⊢
    have hd' : (rest.map .strip).drop (flatListReach (rest.map .strip)) = u.strip :: us.map .strip := by
      rw [flatListReach_strip, ← List.map_drop, hd]
      rfl
    have hus : us = rest.drop (flatListReach rest + 1) := by rw [← List.drop_drop, hd]; rfl
    rw [List.map_cons, interfaceReach_dot (by exact hk) hd' hu, hus, ih, flatListReach_strip]
  | case3 t rest hk n u us hd hu =>
    have hn : n = flatListReach rest := rfl
    rw [hn] at hd
    rw [List.map_cons, interfaceReach_end]
    rw [flatListReach_strip, ← List.map_drop, hd]
    exact decide_eq_false hu
  | case4 t rest hk n hd =>
    have hn : n = flatListReach rest := rfl
    rw [hn] at hd
    rw [List.map_cons, interfaceReach_end]
    rw [flatListReach_strip, ← List.map_drop, hd]
    rfl
  | case5 t rest hk => rw [List.map_cons, interfaceReach, Token.strip_kind, if_neg hk]

theorem clauseReach_strip (stops : List TokenKind) : clauseReach stops (ts.map .strip) =
    clauseReach stops ts :=
  runReach_strip ts fun t rest => by
    rw [angleReach_strip, itemReach_strip, Token.strip_kind, Token.strip_isWord, Token.strip_isClose]

@[simp] theorem baseListReach_strip : baseListReach (ts.map .strip) = baseListReach ts := by
  simp only [baseListReach, ← List.map_tail, clauseReach_strip]

@[simp] theorem constraintReach_strip : constraintReach (ts.map .strip) = constraintReach ts := by
  simp only [constraintReach, ← List.map_tail, clauseReach_strip]

@[simp] theorem defaultReach_strip : defaultReach (ts.map .strip) = defaultReach ts :=
  runReach_strip ts fun t rest => by
    rw [typeArgumentsReach_strip, itemReach_strip, Token.strip_kind, Token.strip_isClose]

@[simp] theorem initializerReach_strip : initializerReach (ts.map .strip) = initializerReach ts := by
  simp only [initializerReach, ← List.map_tail, atWord_strip, ← List.map_drop, atKind_strip,
    groupReach_strip]

end

/-! ## Steps -/

def Cursor.strip (c : Cursor) : Cursor :=
  ⟨c.pos, c.rest.map .strip⟩

namespace Cursor

variable (c d : Cursor)

theorem strip_advance (n : Nat) : (c.advance n).strip = c.strip.advance n := by
  simp only [strip, advance, List.map_drop, ← List.map_take, List.length_map]

theorem strip_past : (c.past d).strip = c.strip.past d.strip := by
  unfold past
  simp only [strip, List.length_map]
  split
  · rfl
  · exact c.strip_advance 1

end Cursor

/-- The step reads the same where the trivia are missing. -/
def Step.Blind (s : Step) : Prop :=
  ∀ c : Cursor, s.run c.strip = ((s.run c).1, (s.run c).2.strip)

namespace Step.Blind

variable {s t : Step}

theorem idle : Step.idle.Blind :=
  fun _ => rfl

theorem append (hs : s.Blind) (ht : t.Blind) : (s ++ t).Blind := by
  intro c
  show (_, _) = (_, _)
  rw [hs c, ht]
  rfl

theorem skip {reach : List Token → Nat} (h : ∀ ts : List Token, reach (ts.map .strip) = reach ts) :
    (Step.skip reach).Blind := by
  intro c
  show (Parts.none, c.strip.advance (reach (c.rest.map .strip))) = (Parts.none, _)
  rw [h, ← c.strip_advance]
  rfl

theorem bump : Step.bump.Blind :=
  skip fun _ => rfl

theorem enclose {kind : NodeKind} (hs : s.Blind) : (Step.enclose kind s).Blind := by
  intro c
  have hrun := hs c
  show (Parts.mk [] none [(s.run c.strip).1.node kind c.pos (s.run c.strip).2.pos], (s.run c.strip).2) = _
  rw [hrun]
  rfl

theorem leaf {kind : NodeKind} {reach : List Token → Nat}
    (h : ∀ ts : List Token, reach (ts.map .strip) = reach ts) :
    (Step.leaf kind reach).Blind :=
  (skip h).enclose

theorem name : Step.name.Blind := by
  intro c
  show (_, c.strip.advance 1) = (_, _)
  rw [← c.strip_advance]
  rfl

theorem modifier : Step.modifier.Blind := by
  intro c
  show (_, c.strip.advance 1) = (_, _)
  rw [← c.strip_advance]
  rfl

theorem choose {f : List Token → Step} (h : ∀ ts : List Token, f (ts.map .strip) = f ts)
    (hf : ∀ ts, (f ts).Blind) :
    (Step.choose f).Blind := by
  intro c
  show (f (c.rest.map .strip)).run c.strip = _
  rw [h]
  exact hf c.rest c

theorem whenAt {p : List Token → Bool} (h : ∀ ts : List Token, p (ts.map .strip) = p ts) (hs : s.Blind) :
    (Step.whenAt p s).Blind := by
  refine choose (fun ts => by rw [h]) fun ts => ?_
  split
  · exact hs
  · exact idle

theorem eat (k : TokenKind) : (Step.eat k).Blind :=
  whenAt (atKind_strip · k) bump

theorem eatWord (ws : List String) : (Step.eatWord ws).Blind :=
  whenAt (fun ts => by simp only [atWord_strip]) bump

theorem each {next? : List Token → Option Step} (h : ∀ ts : List Token, next? (ts.map .strip) = next? ts)
    (hs : ∀ ts s, next? ts = some s → s.Blind) : (Step.each next?).Blind := by
  intro c
  show eachFrom next? c.strip = ((eachFrom next? c).1, (eachFrom next? c).2.strip)
  fun_induction eachFrom next? c with
  | case1 c hr => rw [eachFrom_nil (by simp [Cursor.strip, hr])]
  | case2 c hr hn => rw [eachFrom_none (by rw [Cursor.strip, h, hn])]
  | case3 c hr s hn read _ others ih =>
    have hread : s.run c.strip = (read.1, read.2.strip) := hs _ s hn c
    rw [eachFrom_some (by simp [Cursor.strip, hr]) (by rw [Cursor.strip, h, hn]), hread]
    show (read.1 ++ (eachFrom next? (c.strip.past read.2.strip)).1, _) = (_, _)
    rw [← Cursor.strip_past, ih]

theorem whileAt {p : List Token → Bool} (h : ∀ ts : List Token, p (ts.map .strip) = p ts) (hs : s.Blind) :
    (Step.whileAt p s).Blind := by
  refine each (fun ts => by rw [h]) fun ts s' hn => ?_
  split at hn
  · cases hn
    exact hs
  · cases hn

end Step.Blind

/-! ## Parts of headers -/

section

open Step.Blind

theorem attributeList_blind : attributeList.Blind :=
  leaf groupReach_strip

theorem attributes_blind : attributes.Blind :=
  whileAt (atKind_strip · _) attributeList_blind

@[simp] theorem atModifier_strip (ts : List Token) : atModifier (ts.map .strip) = atModifier ts := by
  simp only [atModifier, atWord_strip, ← List.map_tail]

theorem modifiers_blind : modifiers.Blind :=
  whileAt atModifier_strip modifier

theorem nameIfAny_blind : nameIfAny.Blind :=
  whenAt (atKind_strip · _) name

theorem typeReference_blind : typeReference.Blind :=
  whenAt (fun ts => by simp only [atKind_strip]) (leaf typeReach_strip)

theorem typeParameter_blind : typeParameter.Blind :=
  enclose ((attributes_blind.append (eatWord _)).append nameIfAny_blind)

/-- The items of a list up to its end. -/
theorem listItems_blind {item : Step} (h : item.Blind) (ends : List TokenKind) :
    (Step.each fun ts => if ends.any (atKind · ts) then none else if atKind .comma ts then some .bump
      else some item).Blind := by
  refine each (fun ts => by simp only [atKind_strip]) fun ts s hn => ?_
  split at hn
  · cases hn
  · split at hn
    · cases hn
      exact bump
    · cases hn
      exact h

theorem typeParameterList_blind : typeParameterList.Blind :=
  enclose ((bump.append (listItems_blind typeParameter_blind _)).append (eat _))

theorem defaultValue_blind : defaultValue.Blind :=
  whenAt (atKind_strip · _) (bump.append (leaf defaultReach_strip))

theorem parameter_blind : parameter.Blind := by
  refine enclose (.append (.append (.append (.append (.append attributes_blind ?_) typeReference_blind)
    nameIfAny_blind) defaultValue_blind) (skip fun ts => untilReach_strip ts fun _ => rfl))
  exact whileAt (fun ts => by simp only [atWord_strip]) modifier

theorem parameterList_blind : parameterList.Blind :=
  enclose ((bump.append (listItems_blind parameter_blind _)).append (eat _))

theorem constraints_blind : constraints.Blind :=
  whileAt (atWord_strip · _) (leaf constraintReach_strip)

theorem body_blind : body.Blind := by
  refine choose (fun ts => by simp only [atKind_strip]) fun ts => ?_
  split
  · exact leaf groupReach_strip
  · split
    · refine (leaf fun ts => ?_).append (eat _)
      rw [← List.map_tail, untilReach_strip _ fun _ => rfl]
    · exact eat _

theorem recordWord_blind (kind : NodeKind) : (recordWord kind).Blind := by
  unfold recordWord
  split
  · exact eatWord _
  · exact idle

theorem explicitInterface_blind : explicitInterface.Blind :=
  whenAt (fun ts => by rw [interfaceReach_strip]) (leaf interfaceReach_strip)

end

/-! ## Headers -/

def Header.strip (h : Header) : Header :=
  { h with next := h.next.strip }

/-- The ending reads the same header where the trivia are missing. -/
def Ending.Blind (e : Ending) : Prop :=
  ∀ c : Cursor, e.run c.strip = (e.run c).strip

namespace Ending.Blind

variable {s : Step} {e : Ending}

theorem plain {kind : NodeKind} (hs : s.Blind) : (Ending.plain kind s).Blind := by
  intro c
  show Header.mk kind _ _ _ = _
  rw [hs c]
  rfl

theorem opening {kind : NodeKind} {scope : Scope} : (Ending.opening kind scope).Blind := by
  intro c
  show Header.mk kind _ (c.strip.advance 1) (if (c.rest.map Token.strip).isEmpty then none else some
    scope) = _
  rw [← c.strip_advance, List.isEmpty_map]
  rfl

theorem choose {f : List Token → Ending} (h : ∀ ts : List Token, f (ts.map .strip) = f ts)
    (hf : ∀ ts, (f ts).Blind) : (Ending.choose f).Blind := by
  intro c
  show (f (c.rest.map .strip)).run c.strip = _
  rw [h]
  exact hf c.rest c

theorem after (hs : s.Blind) (he : e.Blind) : (Ending.after s e).Blind := by
  intro c
  show Header.mk _ _ _ _ = _
  rw [hs c, he]
  rfl

theorem otherMember : otherMember.Blind :=
  plain (.skip memberReach_strip)

theorem namespaceHeader : namespaceHeader.Blind := by
  refine after (.append .bump (.leaf dottedReach_strip))
    (choose (fun ts => by simp only [atKind_strip]) fun ts => ?_)
  split
  · exact opening
  · split
    · exact opening
    · exact plain .idle

theorem typeScope (kind : NodeKind) (owner? : Option String) : (typeScope kind owner?).Blind := by
  refine choose (fun ts => by simp only [atKind_strip]) fun ts => ?_
  split
  · split
    · exact plain (.append (.skip groupReach_strip) (.eat _))
    · exact opening
  · exact plain (.eat _)

theorem typeHeader (kind : NodeKind) : (typeHeader kind).Blind := by
  refine after (.append .bump (recordWord_blind kind)) (choose (fun ts => ?_) fun ts =>
    after ?_ (typeScope kind _))
  · cases ts <;> rfl
  · exact .append (.append (.append (.append nameIfAny_blind
      (.whenAt (atKind_strip · _) typeParameterList_blind))
      (.whenAt (atKind_strip · _) parameterList_blind))
        (.whenAt (atKind_strip · _) (.leaf baseListReach_strip)))
      constraints_blind

theorem constructorHeader : constructorHeader.Blind :=
  plain (.append (.append (.append .name parameterList_blind)
    (.whenAt (atKind_strip · _) (.leaf initializerReach_strip))) body_blind)

theorem methodHeader : methodHeader.Blind :=
  plain (.append (.append (.append (.whenAt (atKind_strip · _) typeParameterList_blind)
    (.whenAt (atKind_strip · _) parameterList_blind)) constraints_blind) body_blind)

theorem propertyHeader : propertyHeader.Blind := by
  refine plain (.choose (fun ts => by simp only [atKind_strip]) fun ts => ?_)
  split
  · exact .append (.leaf groupReach_strip) (.whenAt (atKind_strip · _) (.skip statementReach_strip))
  · exact body_blind

theorem atMemberName_strip (ts : List Token) : atMemberName (ts.map .strip) = atMemberName ts := by
  simp only [atMemberName, atKind_strip, atWord_strip]

theorem typedMember : typedMember.Blind := by
  refine after typeReference_blind (choose (fun ts => by rw [atMemberName_strip]) fun ts => ?_)
  split
  · exact otherMember
  · refine after explicitInterface_blind (choose (fun ts => by rw [atMemberName_strip]) fun ts => ?_)
    split
    · exact otherMember
    · refine after .name (choose (fun ts => by simp only [atKind_strip]) fun ts => ?_)
      split
      · exact methodHeader
      · split
        · exact propertyHeader
        · exact otherMember

theorem wordHeader_strip (owner? : Option String) (word : String) (rest : List Token) :
    wordHeader owner? word (rest.map .strip) = wordHeader owner? word rest := by
  unfold wordHeader
  simp only [atKind_strip]

theorem wordHeader (owner? : Option String) (word : String) (rest : List Token) :
    (wordHeader owner? word rest).Blind := by
  unfold Source.wordHeader
  split
  · exact namespaceHeader
  · exact typeHeader _
  · exact typeHeader _
  · exact typeHeader _
  · exact typeHeader _
  · exact typeHeader _
  · exact plain (.skip statementReach_strip)
  · exact otherMember
  · exact otherMember
  · exact otherMember
  · split
    · exact constructorHeader
    · exact typedMember

theorem declarationHeader (owner? : Option String) : (declarationHeader owner?).Blind := by
  refine choose (fun ts => ?_) fun ts => ?_
  · cases ts with
    | nil => rfl
    | cons t rest =>
      simp only [List.map_cons, Token.strip_text, Token.strip_isPunct, wordHeader_strip]
      rfl
  · split
    · exact plain .idle
    · split
      · exact wordHeader owner? _ _
      · split
        · exact otherMember
        · exact plain .idle

theorem memberHeader (owner? : Option String) : (memberHeader owner?).Blind := by
  refine choose (fun ts => ?_) fun ts => ?_
  · have h : atStandingAttribute (ts.map .strip) = atStandingAttribute ts := by
      simp only [atStandingAttribute, atKind_strip, atWord_strip, ← List.map_tail, ← List.map_drop]
    rw [h]
  · split
    · exact plain attributeList_blind
    · exact after (.append attributes_blind modifiers_blind) (declarationHeader owner?)

end Ending.Blind

/-! ## Trees -/

def Item.strip : Item → Item
  | .close => .close
  | .skipped next => .skipped next.strip
  | .member header => .member header.strip

theorem itemAt_strip (owner? : Option String) (braced : Bool) (c : Cursor) (t : Token) :
    itemAt owner? braced c.strip t.strip = (itemAt owner? braced c t).strip := by
  have himport : atImport c.strip.rest = atImport c.rest := by
    simp only [Cursor.strip, atImport, atWord_strip, ← List.map_tail]
  have hgroup : groupReach c.strip.rest = groupReach c.rest := groupReach_strip c.rest
  have hstatement : statementReach c.strip.rest = statementReach c.rest := statementReach_strip c.rest
  unfold itemAt
  rw [himport, hgroup, hstatement, Ending.Blind.memberHeader owner? c, ← c.strip_advance,
    ← c.strip_advance, ← c.strip_advance, Token.strip_kind]
  repeat' split
  all_goals rfl

/-- The end of a scope is read the same without trivia. -/
theorem Scope.close_blind (s : Scope) : s.close.Blind := by
  cases s with
  | block => exact .eat _
  | file => exact .idle
  | type owner? => exact .append (.eat _) (.eat _)

/-- **Members are the same without trivia.** -/
theorem members_strip (owner? : Option String) (braced : Bool) (c : Cursor) :
    members owner? braced c.strip = ((members owner? braced c).1, (members owner? braced c).2.strip) := by
  fun_induction members owner? braced c with
  | case1 owner? braced c hr => rw [members_nil (by simp [Cursor.strip, hr])]
  | case2 owner? braced c t rest hr past hi =>
    have hrs : c.strip.rest = t.strip :: rest.map .strip := by simp [Cursor.strip, hr]
    rw [members_cons hrs, itemAt_strip, hi]
    rfl
  | case3 owner? braced c t rest hr past d hi ih =>
    have hrs : c.strip.rest = t.strip :: rest.map .strip := by simp [Cursor.strip, hr]
    rw [members_cons hrs, itemAt_strip, hi]
    show members owner? braced (c.strip.past d.strip) = _
    rw [← Cursor.strip_past, ih]
  | case4 owner? braced c t rest hr past h hi hs others ih =>
    have hrs : c.strip.rest = t.strip :: rest.map .strip := by simp [Cursor.strip, hr]
    rw [members_cons hrs, itemAt_strip, hi]
    simp only [Item.strip, Header.strip, hs]
    rw [← Cursor.strip_past, ih]
    rfl
  | case5 owner? braced c t rest hr past h hi s hs enters inner closed parts others ih₁ ih₂ =>
    have hrs : c.strip.rest = t.strip :: rest.map .strip := by simp [Cursor.strip, hr]
    rw [members_cons hrs, itemAt_strip, hi]
    simp only [Item.strip, Header.strip, hs]
    rw [ih₁, s.close_blind, ← Cursor.strip_past]
    show (_ :: (members owner? braced (c.past closed.2).strip).1,
      (members owner? braced (c.past closed.2).strip).2) = _
    rw [ih₂]
    rfl

/-- **The tree of a unit does not depend on trivia.** -/
theorem Tree.root_strip (ts : List Token) : (Tree.ofTokens (ts.map .strip)).root =
    (Tree.ofTokens ts).root := by
  have h : members none false ⟨0, ts.map .strip⟩ = _ := members_strip none false ⟨0, ts⟩
  simp only [Tree.ofTokens, h]
  rfl

/-- Units with the same kinds and texts of tokens have the same tree. -/
theorem Tree.root_eq_of_bare {ts us : List Token} (h : ts.map Token.bare = us.map Token.bare) :
    (Tree.ofTokens ts).root = (Tree.ofTokens us).root := by
  rw [← Tree.root_strip ts, map_strip_eq h, Tree.root_strip us]

end DocPages.Source
