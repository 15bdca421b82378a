/-
Values with type arguments. The value of a parameter goes on over a list of type
arguments if it recognises it, and otherwise ends at a comma of the list that is
outside of all groups (`Carries`). What ends a value ends its parameter
(`parameter_eq`), so a list that the matchers disagree on may be cut in two
(`angleMatchers_agree`).
-/
import DocPages.Proofs.HeaderEnds
import DocPages.Proofs.PrintedSteps
import DocPages.Proofs.TypeArguments

namespace DocPages.Source

/-! ## Values

Where a list is not recognised, a value goes on behind its opening bracket, and the commas of the list end it.
Groups are passed over all the same, so the commas of a tuple or of a rank do not. -/

mutual

/-- A value goes on over the type, whether it recognises the lists in it or not. -/
def ArgumentType.isKept : ArgumentType → Bool
  | .path names _ => names.isKept
  | .tuple .. => true

def ArgumentPath.isKept : ArgumentPath → Bool
  | .last arguments => isKeptList arguments
  | .more arguments _ rest => isKeptList arguments && rest.isKept

/-- The list is recognised, or has no commas of its own. -/
def isKeptList : List ArgumentType → Bool
  | [] => true
  | t :: rest => (t.isPlain && allPlain rest) || (rest.isEmpty && t.isKept)

end

/-- A value goes on over tokens of these kinds if the verdict is `true`, otherwise it ends at a comma among them. -/
def Carries (b : Bool) (ks : List TokenKind) : Prop :=
  ∀ ts rest, ts.map (·.kind) = ks →
    if b then defaultReach (ts ++ rest) = ts.length + defaultReach rest
    else defaultReach (ts ++ rest) < ts.length ∧ kindAt? ts (defaultReach (ts ++ rest)) = some .comma

theorem defaultReach_cons (t : Token) (rest : List Token) : defaultReach (t :: rest) =
    if t.kind = .comma || t.isClose then 0
    else if t.kind = .lt then 1 + (typeArgumentsReach 1 rest).getD 0 +
      defaultReach (rest.drop ((typeArgumentsReach 1 rest).getD 0))
    else 1 + itemReach t rest + defaultReach (rest.drop (itemReach t rest)) := by
  rw [defaultReach, runReach]
  by_cases hstop : (t.kind = .comma || t.isClose) = true
  · rw [if_pos hstop, if_pos hstop]
  · rw [if_neg hstop, if_neg hstop]
    by_cases hlt : t.kind = .lt
    · rw [if_pos hlt, if_pos hlt]
      rfl
    · rw [if_neg hlt, if_neg hlt]
      rfl

namespace Carries

variable {a b : Bool} {k k' : TokenKind} {ks ls : List TokenKind}

theorem nil : Carries true [] := by
  intro ts rest hts
  simp [List.map_eq_nil_iff.1 hts]

theorem append (h : Carries a ks) (h' : Carries b ls) : Carries (a && b) (ks ++ ls) := by
  intro ts rest hts
  obtain ⟨us, vs, rfl, hus, hvs⟩ := List.map_eq_append_iff.1 hts
  have hfirst := h us (vs ++ rest) hus
  have hlast := h' vs rest hvs
  rw [List.append_assoc, List.length_append]
  cases a with
  | false =>
    obtain ⟨hlt, hcomma⟩ := hfirst
    refine ⟨Nat.lt_of_lt_of_le hlt (Nat.le_add_right _ _), ?_⟩
    rwa [kindAt?, List.getElem?_append_left hlt]
  | true =>
    have hfirst : defaultReach (us ++ (vs ++ rest)) = us.length + defaultReach (vs ++ rest) := hfirst
    rw [hfirst]
    cases b with
    | false =>
      obtain ⟨hlt, hcomma⟩ := hlast
      refine ⟨Nat.add_lt_add_left hlt _, ?_⟩
      rwa [kindAt?, List.getElem?_append_right (Nat.le_add_right _ _), Nat.add_sub_cancel_left]
    | true =>
      have hlast : defaultReach (vs ++ rest) = vs.length + defaultReach rest := hlast
      show us.length + defaultReach (vs ++ rest) = us.length + vs.length + defaultReach rest
      rw [hlast, Nat.add_assoc]

theorem single (hk : k.closing? = none) (hk' : k.isClosing = false) (hc : k ≠ .comma) (hl : k ≠ .lt) :
    Carries true [k] := by
  intro ts rest hts
  obtain ⟨t, rfl, ht⟩ := List.map_eq_singleton_iff.1 hts
  have hopen : t.isOpen = false := by rw [Token.isOpen_eq, ht, hk]; rfl
  have hclose : t.isClose = false := by rw [Token.isClose_eq, ht, hk']
  show defaultReach (t :: rest) = 1 + defaultReach rest
  simp [defaultReach_cons, ht, hc, hl, hclose, itemReach, hopen]

theorem comma (ks : List TokenKind) : Carries false (.comma :: ks) := by
  intro ts rest hts
  obtain ⟨t, us, rfl, ht, -⟩ := List.map_eq_cons_iff.1 hts
  have hend : defaultReach (t :: us ++ rest) = 0 := by
    rw [List.cons_append, defaultReach_cons, if_pos (by simp [ht])]
  rw [hend]
  exact ⟨Nat.succ_pos _, by simp [kindAt?, ht]⟩

theorem group (hk : k.closing? = some k') (h : Passes groupEnd ks) : Carries true (k :: (ks ++ [k'])) := by
  intro ts rest hts
  obtain ⟨t, us, rfl, ht, hus⟩ := List.map_eq_cons_iff.1 hts
  have hopen : t.isOpen = true := by rw [Token.isOpen_eq, ht, hk]; rfl
  have hkind : t.kind ≠ .comma ∧ t.kind ≠ .lt := by
    constructor <;> intro he <;> rw [Token.isOpen, he] at hopen <;> cases hopen
  show defaultReach (t :: (us ++ rest)) = us.length + 1 + defaultReach rest
  simp [defaultReach_cons, hkind, Token.isClose_eq_false hopen, itemReach_of_passes hk h ht hus, Nat.add_comm]

/-- A list that is recognised. -/
theorem recognised (h : Passes typeArgumentsReach ks) : Carries true (.lt :: (ks ++ [.gt])) := by
  intro ts rest hts
  obtain ⟨t, us, rfl, ht, hus⟩ := List.map_eq_cons_iff.1 hts
  have hend := isAngleMatcher_typeArgumentsReach.end_eq h hus rest
  show defaultReach (t :: (us ++ rest)) = us.length + 1 + defaultReach rest
  simp [defaultReach_cons, ht, Token.isClose, hend, Nat.add_comm]

/-- The brackets of a list that is not recognised are passed over one by one. -/
theorem unrecognised (h : Fails typeArgumentsReach ks) (h' : Carries b ks) : Carries b (.lt :: (ks ++ [.gt])) := by
  have hinner : Carries b (ks ++ [.gt]) := by
    have hgt := h'.append (single (k := .gt) rfl rfl (by decide) (by decide))
    rwa [Bool.and_true] at hgt
  intro ts rest hts
  obtain ⟨t, us, rfl, ht, hus⟩ := List.map_eq_cons_iff.1 hts
  have hnone := h.append [.gt] 1 us rest (Nat.le_refl 1) hus
  have hstep : defaultReach (t :: us ++ rest) = 1 + defaultReach (us ++ rest) := by
    simp [defaultReach_cons, ht, Token.isClose, hnone]
  have hrest := hinner us rest hus
  rw [hstep]
  cases b with
  | true =>
    have hrest : defaultReach (us ++ rest) = us.length + defaultReach rest := hrest
    show 1 + defaultReach (us ++ rest) = us.length + 1 + defaultReach rest
    omega
  | false =>
    obtain ⟨hlt, hcomma⟩ := hrest
    rw [Nat.add_comm]
    exact ⟨Nat.succ_lt_succ hlt, hcomma⟩

theorem marks (ms : List TypeMark) : Carries true (ms.flatMap (·.kinds)) := by
  induction ms with
  | nil => exact nil
  | cons m ms ih =>
    cases m with
    | nullable => exact (single (k := .question) rfl rfl (by decide) (by decide)).append ih
    | rank commas => exact (group rfl ((groupEnd_single rfl rfl).replicate commas)).append ih

theorem joint (j : PathJoint) : Carries true j.kinds := by
  cases j with
  | dot => exact single rfl rfl (by decide) (by decide)
  | colons => exact (single (k := .colon) rfl rfl (by decide) (by decide)).append (single rfl rfl (by decide) (by decide))

theorem name (h : Carries b ks) : Carries b (.ident :: ks) :=
  (single (k := .ident) rfl rfl (by decide) (by decide)).append h

mutual

theorem type : ∀ t : ArgumentType, Carries t.isKept t.kinds
  | .path names marks => by
    have hpath := (path names).append (Carries.marks marks)
    rw [Bool.and_true] at hpath
    rwa [ArgumentType.isKept, ArgumentType.kinds]
  | .tuple first second others marks => by
    have hinner := isVerdict_groupEnd.inner first (second :: others)
    rw [laterKinds] at hinner
    rw [ArgumentType.isKept, ArgumentType.kinds]
    exact (group rfl hinner).append (Carries.marks marks)

theorem path : ∀ p : ArgumentPath, Carries p.isKept p.kinds
  | .last arguments => by
    rw [ArgumentPath.isKept, ArgumentPath.kinds]
    exact (types arguments).name
  | .more arguments joint rest => by
    rw [ArgumentPath.isKept, ArgumentPath.kinds]
    exact (types arguments).name.append ((Carries.joint joint).append (path rest))

theorem types : ∀ ts : List ArgumentType, Carries (isKeptList ts) (listKinds ts)
  | [] => by
    rw [isKeptList, listKinds]
    exact nil
  | t :: rest => by
    have hverdict := isVerdict_typeArgumentsReach.inner t rest
    rw [isKeptList, listKinds]
    cases hplain : t.isPlain && allPlain rest with
    | true =>
      rw [hplain] at hverdict
      exact recognised hverdict
    | false =>
      rw [hplain] at hverdict
      rw [Bool.false_or]
      refine unrecognised hverdict ?_
      cases rest with
      | nil =>
        rw [laterKinds, List.append_nil]
        exact type t
      | cons u us =>
        have hcut := (type t).append (comma (u.kinds ++ laterKinds us))
        rw [Bool.and_false] at hcut
        rwa [laterKinds]

end

end Carries

/-! ## Parameters -/

/-- What is read of a parameter in front of its value. -/
def parameterFront : Step :=
  attributes ++ .whileAt (fun ts => parameterWords.any (atWord · ts)) .modifier ++ typeReference ++ nameIfAny

/-- The value of a parameter, and what is behind it up to the next one. -/
def parameterValue : Step :=
  defaultValue ++ .skip (untilReach (·.kind = .comma))

/-- What is read of a parameter that begins at `c` and has a value of `n` tokens: the value is one node, and the
parameter ends with it. -/
def parameterWith (c : Cursor) (n : Nat) : Parts × Cursor :=
  let front := parameterFront.run c
  let value := Parts.none.node .defaultValue (front.2.pos + 1) (front.2.pos + 1 + n)
  let next := front.2.advance (1 + n)
  (⟨[], none, [(front.1 ++ ⟨[], none, [value]⟩).node .parameter c.pos next.pos]⟩, next)

/-- A run ends at a token that it does not go on with. -/
theorem runReach_stops (more : Token → List Token → Option Nat) (ts : List Token) :
    ∀ t rest, ts.drop (runReach more ts) = t :: rest → more t rest = none := by
  fun_induction runReach more ts with
  | case1 =>
    intro t rest h
    cases h
  | case2 t rest hn =>
    intro u us h
    obtain ⟨rfl, rfl⟩ := List.cons.inj h
    exact hn
  | case3 t rest n hn ih =>
    intro u us h
    refine ih u us ?_
    rwa [Nat.add_assoc, Nat.add_comm 1, List.drop_succ_cons, ← List.drop_drop] at h

/-- What stops a value stops the parameter. -/
theorem untilReach_drop_defaultReach (ts : List Token) :
    untilReach (·.kind = .comma) (ts.drop (defaultReach ts)) = 0 := by
  have hstop : ∀ t rest, ts.drop (defaultReach ts) = t :: rest →
      (if t.kind = .comma || t.isClose then none
        else if t.kind = .lt then some ((typeArgumentsReach 1 rest).getD 0)
        else some (itemReach t rest)) = none := runReach_stops _ ts
  cases hd : ts.drop (defaultReach ts) with
  | nil => rw [untilReach, runReach]
  | cons t rest =>
    have hnone := hstop t rest hd
    rw [untilReach, runReach, if_pos]
    split at hnone
    · assumption
    · split at hnone <;> cases hnone

/-- A value is read up to where it stops, and nothing behind it. -/
theorem parameterValue_reads {t : Token} {ts rest : List Token} (ht : t.kind = .eq)
    (hn : defaultReach (ts ++ rest) = ts.length) :
    parameterValue.Reads (.plain [t] ++ .leaf .defaultValue ts) rest := by
  have hstop := untilReach_drop_defaultReach (ts ++ rest)
  rw [hn, List.drop_left] at hstop
  have hvalue : defaultValue.Reads (.plain [t] ++ .leaf .defaultValue ts) rest :=
    .whenAt (decide_eq_true ht) (.append (.bump t) (.leaf hn))
  exact .append_idle hvalue (.skip_nothing hstop)

theorem parameterValue_run {t : Token} (i : Nat) (ts : List Token) (ht : t.kind = .eq) :
    parameterValue.run ⟨i, t :: ts⟩ =
      (⟨[], none, [Parts.none.node .defaultValue (i + 1) (i + 1 + defaultReach ts)]⟩,
        (⟨i, t :: ts⟩ : Cursor).advance (1 + defaultReach ts)) := by
  have hsplit := List.take_append_drop (defaultReach ts) ts
  have hlength : (ts.take (defaultReach ts)).length = defaultReach ts := by
    rw [List.length_take, Nat.min_eq_left (Moves.defaultReach ts).le_length]
  have hend : defaultReach (ts.take (defaultReach ts) ++ ts.drop (defaultReach ts)) =
      (ts.take (defaultReach ts)).length := by rw [hsplit, hlength]
  have hreads := parameterValue_reads ht hend i
  rw [Printed.tokens_append, Printed.tokens_leaf, List.append_assoc, hsplit] at hreads
  have hnext : (⟨i, t :: ts⟩ : Cursor).advance (1 + defaultReach ts) =
      ⟨i + (1 + defaultReach ts), ts.drop (defaultReach ts)⟩ := by
    rw [Nat.add_comm 1, Cursor.advance, List.take_succ_cons, List.length_cons, hlength]
    rfl
  rw [hnext]
  refine hreads.trans (Prod.ext ?_ ?_)
  · show (⟨[], none, [Parts.none.node .defaultValue (i + 1) (i + 1 + (ts.take (defaultReach ts)).length)]⟩ : Parts) = _
    rw [hlength]
  · show Cursor.mk (i + ([t] ++ ts.take (defaultReach ts)).length) _ = _
    rw [List.length_append, hlength]
    rfl

theorem parameter_eq {c : Cursor} {t : Token} {ts : List Token} (hr : (parameterFront.run c).2.rest = t :: ts)
    (ht : t.kind = .eq) : parameter.run c = parameterWith c (defaultReach ts) := by
  have hinner : (parameterFront ++ defaultValue ++ Step.skip (untilReach (·.kind = .comma))).run c =
      ((parameterFront.run c).1 ++ (parameterValue.run (parameterFront.run c).2).1,
        (parameterValue.run (parameterFront.run c).2).2) :=
    Prod.ext (Parts.append_assoc _ _ _) rfl
  have hrun : parameter.run c = (⟨[], none, [((parameterFront.run c).1 ++
      (parameterValue.run (parameterFront.run c).2).1).node .parameter c.pos
        (parameterValue.run (parameterFront.run c).2).2.pos]⟩,
      (parameterValue.run (parameterFront.run c).2).2) :=
    congrArg (fun r : Parts × Cursor => (Parts.mk [] none [r.1.node .parameter c.pos r.2.pos], r.2)) hinner
  rw [hrun, parameterWith]
  generalize parameterFront.run c = front at hr ⊢
  obtain ⟨p, i, rest⟩ := front
  obtain rfl : rest = t :: ts := hr
  rw [parameterValue_run i ts ht]

/-! ## Main result -/

/-- The end of the list at the front for the matcher of values, if it recognises one. -/
def valueListReach? (ts : List Token) : Option Nat :=
  if atKind .lt ts then (typeArgumentsReach 1 ts.tail).map (1 + ·) else none

/-- The kinds of `new S<...>()`. -/
def newKinds (arguments : List ArgumentType) : List TokenKind :=
  .ident :: .ident :: (listKinds arguments ++ [.lparen, .rparen])

theorem carries_new (arguments : List ArgumentType) : Carries (isKeptList arguments) (newKinds arguments) := by
  have h := (Carries.types arguments).name.name.append (Carries.group (k := .lparen) rfl .nil)
  rwa [Bool.and_true] at h

theorem angleListReach_listKinds {first : ArgumentType} {others : List ArgumentType} {ts : List Token}
    (hts : ts.map (·.kind) = listKinds (first :: others)) (rest : List Token) :
    angleListReach (ts ++ rest) = ts.length := by
  rw [listKinds] at hts
  obtain ⟨t, us, rfl, ht, hus⟩ := List.map_eq_cons_iff.1 hts
  have hinner := (isVerdict_typesEnd.inner first others).2
  have hend : angleReach 1 (us ++ rest) = us.length :=
    Option.some.inj (isAngleMatcher_typesEnd.end_eq hinner hus rest)
  simp [angleListReach, ht, hend, Nat.add_comm]

theorem flatListReach_listKinds {first : ArgumentType} {others : List ArgumentType} {ts : List Token}
    (hts : ts.map (·.kind) = listKinds (first :: others)) (rest : List Token) :
    flatListReach (ts ++ rest) = ts.length := by
  rw [listKinds] at hts
  obtain ⟨t, us, rfl, ht, hus⟩ := List.map_eq_cons_iff.1 hts
  have hinner := isVerdict_interfaceEnd.inner first others
  have hend : flatAngleReach 1 (us ++ rest) = us.length :=
    Option.some.inj (isAngleMatcher_interfaceEnd.end_eq hinner hus rest)
  simp [flatListReach, atKind, ht, hend, Nat.add_comm]

theorem valueListReach?_listKinds {first : ArgumentType} {others : List ArgumentType} {ts : List Token}
    (hts : ts.map (·.kind) = listKinds (first :: others)) (rest : List Token) :
    valueListReach? (ts ++ rest) = if allPlain (first :: others) then some ts.length else none := by
  rw [listKinds] at hts
  obtain ⟨t, us, rfl, ht, hus⟩ := List.map_eq_cons_iff.1 hts
  have hinner := isVerdict_typeArgumentsReach.inner first others
  rw [allPlain]
  cases hplain : first.isPlain && allPlain others with
  | true =>
    rw [hplain] at hinner
    have hend := isAngleMatcher_typeArgumentsReach.end_eq hinner hus rest
    simp [valueListReach?, atKind, ht, hend, Nat.add_comm]
  | false =>
    rw [hplain] at hinner
    have hend := Fails.append hinner [.gt] 1 us rest (Nat.le_refl 1) hus
    simp [valueListReach?, atKind, ht, hend]

/-- Where a value `new S<...>()` ends that nothing but a comma or the closing parenthesis follows. -/
theorem defaultReach_new {arguments : List ArgumentType} {value rest : List Token}
    (hvalue : value.map (·.kind) = newKinds arguments) (hrest : atKind .comma rest ∨ atKind .rparen rest) :
    if isKeptList arguments then defaultReach (value ++ rest) = value.length
    else defaultReach (value ++ rest) < value.length ∧
      kindAt? value (defaultReach (value ++ rest)) = some .comma := by
  have hstop : defaultReach rest = 0 := by
    obtain ⟨t, rest, rfl, ht⟩ : ∃ t us, rest = t :: us ∧ (t.kind = .comma ∨ t.kind = .rparen) := by
      rcases hrest with h | h <;> obtain ⟨t, us, rfl, ht⟩ := eq_cons_of_atKind h
      · exact ⟨t, us, rfl, .inl ht⟩
      · exact ⟨t, us, rfl, .inr ht⟩
    rw [defaultReach_cons, if_pos (by rcases ht with ht | ht <;> simp [ht, Token.isClose])]
  have hcarries := carries_new arguments value rest hvalue
  rwa [hstop, Nat.add_zero] at hcarries

/-- **Type arguments end at the same bracket for all matchers, unless a tuple or a double colon is among them.** The
matcher of values takes these to mean that there is no list. A value `new S<...>()` is one node even then if a value
would end at no comma of the list; otherwise the node and its parameter end at that comma. -/
theorem angleMatchers_agree (first : ArgumentType) (others : List ArgumentType) :
    (∀ ts rest : List Token, ts.map (·.kind) = listKinds (first :: others) →
      angleListReach (ts ++ rest) = ts.length ∧ flatListReach (ts ++ rest) = ts.length ∧
      valueListReach? (ts ++ rest) = if allPlain (first :: others) then some ts.length else none) ∧
    ∀ (eq : Token) (value rest : List Token) (c : Cursor), eq.kind = .eq →
      value.map (·.kind) = newKinds (first :: others) → (atKind .comma rest ∨ atKind .rparen rest) →
      (parameterFront.run c).2.rest = eq :: (value ++ rest) →
      ∃ n, parameter.run c = parameterWith c n ∧
        if isKeptList (first :: others) then n = value.length
        else n < value.length ∧ kindAt? value n = some .comma := by
  refine ⟨fun ts rest hts => ?_, fun eq value rest c heq hvalue hrest hr => ?_⟩
  · exact ⟨angleListReach_listKinds hts rest, flatListReach_listKinds hts rest, valueListReach?_listKinds hts rest⟩
  · exact ⟨_, parameter_eq hr heq, defaultReach_new hvalue hrest⟩

/-- A nested list, a rank and nullable types in the list, and a parameter after the one with the value. -/
theorem angleMatchers_agree_sample : ∃ ts value first others,
    ts = (TokenStream.ofSource "(S s = new S<A.B<int[,]?, C>, D>(), int n)").tokens ∧
    value = (ts.drop 4).take 20 ∧ Token.joined value = "new S<A.B<int[,]?, C>, D>()" ∧
    value.map (·.kind) = newKinds (first :: others) ∧ 0 < others.length ∧
    angleListReach (ts.drop 6) = 16 ∧ flatListReach (ts.drop 6) = 16 ∧ valueListReach? (ts.drop 6) = some 16 ∧
    parameter.run ⟨1, ts.tail⟩ = parameterWith ⟨1, ts.tail⟩ value.length := by
  let ts := (TokenStream.ofSource "(S s = new S<A.B<int[,]?, C>, D>(), int n)").tokens
  let first : ArgumentType :=
    .path (.more [] .dot (.last [.path (.last []) [.rank 1, .nullable], .path (.last []) []])) []
  let others : List ArgumentType := [.path (.last []) []]
  obtain ⟨hlists, hvalues⟩ := angleMatchers_agree first others
  obtain ⟨htypes, hinterface, hvalue⟩ := hlists ((ts.drop 6).take 16) ((ts.drop 6).drop 16) (by decide +kernel)
  obtain ⟨n, hrun, hn⟩ := hvalues (ts.getD 3 (.mark .eq)) ((ts.drop 4).take 20) (ts.drop 24)
    ⟨1, ts.tail⟩ (by decide +kernel) (by decide +kernel) (by decide +kernel) (by decide +kernel)
  have hkept : isKeptList (first :: others) = true := by decide +kernel
  have hplain : allPlain (first :: others) = true := by decide +kernel
  have hlength : ((ts.drop 6).take 16).length = 16 := by decide +kernel
  rw [if_pos hkept] at hn
  rw [if_pos hplain] at hvalue
  rw [List.take_append_drop, hlength] at htypes hinterface hvalue
  refine ⟨ts, (ts.drop 4).take 20, first, others, rfl, rfl, by decide +kernel, by decide +kernel, by decide,
    htypes, hinterface, hvalue, hn ▸ hrun⟩

/-- With an alias in the list, the value is cut at the comma behind it. -/
theorem typeArgumentsReach_alias : ∃ tree,
    tree = Tree.ofSource
      "namespace N \x7b class A \x7b public void M(S s = new S<global::A, int>()) \x7b \x7d \x7d \x7d" ∧
    angleListReach (tree.tokens.drop 15) = 8 ∧ flatListReach (tree.tokens.drop 15) = 8 ∧
    valueListReach? (tree.tokens.drop 15) = none ∧
    (tree.places.filter (·.node.kind = .defaultValue)).map (fun p => tree.text p.node) = ["new S<global::A"] ∧
    (tree.places.filter (·.node.kind = .parameter)).map (fun p => tree.text p.node) =
      ["S s = new S<global::A", "int>()"] := by
  refine ⟨_, rfl, ?_⟩
  decide +kernel

end DocPages.Source
