/-
How far reading reaches into what is printed: through nested tokens up to a
mark outside all their groups (`runReach_nested`), and through a type to its
last suffix (`typeReach_printed`).
-/
import DocPages.Proofs.Equations
import DocPages.Proofs.Printing

namespace DocPages.Source

/-! ## Marks and words -/

section

variable {k k' : TokenKind} {w w' : String} {ts : List Token}

@[simp] theorem atKind_mark : atKind k (.mark k' :: ts) = decide (k' = k) := rfl

@[simp] theorem atKind_word : atKind k (.word w :: ts) = decide (.ident = k) := rfl

theorem atKind_eq_false (h : atKind k ts = true) (hk : k ≠ k') : atKind k' ts = false := by
  obtain ⟨t, rest, rfl, rfl⟩ := eq_cons_of_atKind h
  exact decide_eq_false hk

theorem atWord_word : atWord w (.word w' :: ts) = (w' == w) := by
  simp [atWord, Token.isWord, Token.word]

theorem atWord_of_atKind (h : atKind .ident ts = false) : atWord w ts = false := by
  cases ts with
  | nil => rfl
  | cons t ts =>
    have hk : t.kind ≠ .ident := by simpa [atKind] using h
    simp [atWord, Token.isWord, hk]

end

namespace Identifier

variable (x : Identifier) {w : String} {ts : List Token}

/-- A name is never mistaken for a word that reading tests for. -/
theorem atWord_eq_false (hw : w ∈ testedWords) : atWord w (.word x.text :: ts) = false := by
  rw [atWord_word, beq_eq_false_iff_ne]
  intro h
  exact x.ordinary (h ▸ hw)

theorem any_atWord_eq_false {ws : List String} (hw : ∀ w ∈ ws, w ∈ testedWords) :
    ws.any (atWord · (.word x.text :: ts)) = false := by
  rw [List.any_eq_false]
  intro w hmem
  simp [x.atWord_eq_false (hw w hmem)]

end Identifier

/-! ## Nested tokens -/

/-- What is within a group is not outermost. -/
theorem outermost_append {pending inner rest : List TokenKind} {depth : Nat} (hd : 1 ≤ depth)
    (h : nests pending inner = true) :
    outermost (depth + pending.length) (inner ++ rest) = outermost depth rest := by
  induction inner generalizing pending with
  | nil =>
    obtain rfl : pending = [] := by simpa [nests_nil] using h
    rfl
  | cons k inner ih =>
    rw [List.cons_append, outermost]
    rcases nests_cons h with ⟨close, hc, hs⟩ | ⟨hc, tail, rfl, hs⟩ | ⟨hc, hn, hs⟩
    · rw [if_pos (by simp [hc])]
      exact ih hs
    · rw [if_neg (by simp [TokenKind.closing?_eq_none hc]), if_pos hc, List.length_cons,
        ← Nat.add_assoc, Nat.add_sub_cancel]
      exact ih hs
    · rw [if_neg (by simp [hc]), if_neg (by simp [hn]), if_neg (by omega)]
      exact ih hs

theorem outermost_group {t close : Token} {inner rest : List Token} (hc : t.kind.closing? = some close.kind)
    (hi : nests [] (inner.map (·.kind)) = true) :
    outermost 0 ((t :: (inner ++ close :: rest)).map (·.kind)) = outermost 0 (rest.map (·.kind)) := by
  have hclosing := TokenKind.isClosing_of_closing? hc
  have hinner : outermost (1 + 0) (inner.map (·.kind) ++ (close :: rest).map (·.kind)) = _ :=
    outermost_append (Nat.le_refl 1) hi
  rw [List.map_cons, outermost, if_pos (by simp [hc]), List.map_append]
  refine hinner.trans ?_
  rw [List.map_cons, outermost, if_neg (by simp [TokenKind.closing?_eq_none hclosing]), if_pos hclosing]

/-- A run goes through nested tokens if it goes through all groups, and through the tokens outside them. -/
theorem runReach_nested {more : Token → List Token → Option Nat} {stops : TokenKind → Prop}
    (hmore : ∀ t rest, t.isClose = false → (t.isOpen = true ∨ ¬ stops t.kind) →
      more t rest = some (itemReach t rest))
    (ts rest : List Token) (hn : nests [] (ts.map (·.kind)) = true)
    (ho : ∀ k ∈ outermost 0 (ts.map (·.kind)), ¬ stops k) :
    runReach more (ts ++ rest) = ts.length + runReach more rest := by
  induction hl : ts.length using Nat.strongRecOn generalizing ts with
  | ind n ih =>
    subst hl
    cases ts with
    | nil => simp
    | cons t ts =>
      rcases nests_cons hn with ⟨close, hc, -⟩ | ⟨-, _, hp, -⟩ | ⟨hc, hnc, hs⟩
      · have hopen : t.isOpen = true := by rw [Token.isOpen_eq, hc]; rfl
        obtain ⟨inner, close, after, rfl, hclose, hi, ha, hr⟩ := itemReach_of_nests hopen hn
        have hclose' := TokenKind.isClosing_of_closing? hclose
        have hitem : itemReach t (inner ++ close :: after ++ rest) = inner.length + 1 := by
          rw [itemReach, if_pos hopen, List.append_assoc, List.cons_append]
          exact closeReach_group hi hclose'
        rw [outermost_group hclose hi] at ho
        have hafter := ih after.length (by simp; omega) after ha ho rfl
        have hdrop : (inner ++ close :: after ++ rest).drop (inner.length + 1) = after ++ rest := by simp
        rw [List.cons_append, runReach, hmore _ _ (Token.isClose_eq_false hopen) (.inl hopen)]
        simp only [hitem, hdrop, hafter, List.length_cons, List.length_append]
        omega
      · cases hp
      · have hopen : t.isOpen = false := by rw [Token.isOpen_eq, hc]; rfl
        rw [List.map_cons, outermost, if_neg (by simp [hc]), if_neg (by simp [hnc]), if_pos rfl] at ho
        have hstop := ho t.kind List.mem_cons_self
        have hrest := ih ts.length (by simp) ts hs (fun k hk => ho k (List.mem_cons_of_mem _ hk)) rfl
        rw [List.cons_append, runReach, hmore _ _ hnc (.inr hstop)]
        simp only [itemReach, hopen, Bool.false_eq_true, if_false, List.drop_zero, hrest, List.length_cons]
        omega

theorem NestedTokens.kinds_tokens (n : NestedTokens) : n.tokens.map (·.kind) = n.content.map (·.kind) := by
  rw [tokens, List.map_map]
  rfl

theorem NestedTokens.nests_tokens (n : NestedTokens) : nests [] (n.tokens.map (·.kind)) = true := by
  rw [n.kinds_tokens]
  exact n.nested

/-- A group in braces is read to its end. -/
theorem groupReach_braced (n : NestedTokens) (rest : List Token) :
    groupReach (n.braced ++ rest) = n.braced.length := by
  have hclose : closeReach 1 (n.tokens ++ .mark .rbrace :: rest) = n.tokens.length + 1 :=
    closeReach_group n.nests_tokens rfl
  have hb : n.braced ++ rest = .mark .lbrace :: (n.tokens ++ .mark .rbrace :: rest) := by
    simp [NestedTokens.braced]
  have hopen : (Token.mark .lbrace).isOpen = true := rfl
  rw [hb, groupReach, itemReach, if_pos hopen, hclose]
  simp only [NestedTokens.braced, List.length_cons, List.length_append, List.length_nil]
  omega

/-- The body that is an expression ends in front of its semicolon. -/
theorem untilReach_arrow (e : ArrowExpression) (rest : List Token) :
    untilReach (·.kind = .semi) (e.tokens ++ .mark .semi :: rest) = e.tokens.length := by
  have hmore : ∀ t rest, t.isClose = false → (t.isOpen = true ∨ ¬ t.kind = .semi) →
      (if (decide (t.kind = .semi) || t.isClose) = true then none else some (itemReach t rest)) =
        some (itemReach t rest) := fun t rest hc ht => by
    refine if_neg ?_
    rcases ht with ho | hs
    · have hk : t.kind ≠ .semi := fun hk => by simp [Token.isOpen, hk] at ho
      simp [hk, hc]
    · simp [hs, hc]
  have hout : ∀ k ∈ outermost 0 (e.tokens.map (·.kind)), ¬ k = .semi := by
    rw [e.kinds_tokens]
    exact fun k hk he => e.unended (he ▸ hk)
  have hend : runReach (fun t rest => if (decide (t.kind = .semi) || t.isClose) = true then none
      else some (itemReach t rest)) (.mark .semi :: rest) = 0 := by
    rw [runReach]
    rfl
  have h := runReach_nested hmore e.tokens (.mark .semi :: rest) e.nests_tokens hout
  rw [hend] at h
  exact h

/-- A default value ends in front of what separates or closes parameters. -/
theorem defaultReach_default (e : DefaultExpression) {rest : List Token}
    (hr : atKind .comma rest = true ∨ atKind .rparen rest = true) :
    defaultReach (e.tokens ++ rest) = e.tokens.length := by
  have hmore : ∀ t rest, t.isClose = false → (t.isOpen = true ∨ ¬ (t.kind = .comma ∨ t.kind = .lt)) →
      (if (decide (t.kind = .comma) || t.isClose) = true then none
        else if t.kind = .lt then some ((typeArgumentsReach 1 rest).getD 0)
        else some (itemReach t rest)) = some (itemReach t rest) := fun t rest hc ht => by
    have hk : t.kind ≠ .comma ∧ t.kind ≠ .lt := by
      rcases ht with ho | hs
      · exact ⟨fun hk => by simp [Token.isOpen, hk] at ho, fun hk => by simp [Token.isOpen, hk] at ho⟩
      · exact ⟨fun hk => hs (.inl hk), fun hk => hs (.inr hk)⟩
    exact (if_neg (by simp [hk.1, hc])).trans (if_neg hk.2)
  have hout : ∀ k ∈ outermost 0 (e.tokens.map (·.kind)), ¬ (k = .comma ∨ k = .lt) := by
    rw [e.kinds_tokens]
    rintro k hk (rfl | rfl)
    · exact e.unseparated hk
    · exact e.unangled hk
  refine (runReach_nested hmore e.tokens rest e.nests_tokens hout).trans ?_
  cases rest with
  | nil => simp [atKind] at hr
  | cons t rest =>
    have hk : t.kind = .comma ∨ t.kind = .rparen := by simpa [atKind] using hr
    rw [runReach, if_pos (by rcases hk with hk | hk <;> simp [hk, Token.isClose])]
    rfl

/-! ## Types -/

theorem flatMap_nullable (suffixes : List TypeSuffix) :
    (TypeSuffix.nullable :: suffixes).flatMap (·.tokens) = .mark .question :: suffixes.flatMap (·.tokens) := rfl

theorem flatMap_array (suffixes : List TypeSuffix) :
    (TypeSuffix.array :: suffixes).flatMap (·.tokens) =
      .mark .lbracket :: .mark .rbracket :: suffixes.flatMap (·.tokens) := rfl

section

variable (depth : Nat) (rest : List Token)

theorem angleReach_word (w : String) : angleReach depth (.word w :: rest) = 1 + angleReach depth rest := by
  rw [angleReach]
  rfl

theorem angleReach_comma : angleReach depth (.mark .comma :: rest) = 1 + angleReach depth rest := by
  rw [angleReach]
  rfl

theorem angleReach_dot : angleReach depth (.mark .dot :: rest) = 1 + angleReach depth rest := by
  rw [angleReach]
  rfl

theorem angleReach_lt : angleReach depth (.mark .lt :: rest) = 1 + angleReach (depth + 1) rest := by
  rw [angleReach]
  rfl

theorem angleReach_gt :
    angleReach depth (.mark .gt :: rest) = 1 + if depth ≤ 1 then 0 else angleReach (depth - 1) rest := by
  rw [angleReach]
  show (if depth ≤ 1 then 1 else 1 + angleReach (depth - 1) rest) = _
  split <;> rfl

theorem angleReach_suffixes (suffixes : List TypeSuffix) :
    angleReach depth (suffixes.flatMap (·.tokens) ++ rest) =
      (suffixes.flatMap (·.tokens)).length + angleReach depth rest := by
  induction suffixes with
  | nil => simp
  | cons s suffixes ih =>
    cases s with
    | nullable =>
      have h : ∀ ts, angleReach depth (.mark .question :: ts) = 1 + angleReach depth ts := fun ts => by
        rw [angleReach]
        rfl
      rw [flatMap_nullable, List.cons_append, h, ih, List.length_cons]
      omega
    | array =>
      have h : ∀ ts, angleReach depth (.mark .lbracket :: .mark .rbracket :: ts) =
          2 + angleReach depth ts := fun ts => by
        rw [angleReach]
        rfl
      rw [flatMap_array, List.cons_append, List.cons_append, h, ih, List.length_cons, List.length_cons]
      omega

end

mutual

/-- The inside of angle brackets goes on after a type as it was before. -/
theorem angleReach_type {depth : Nat} (hd : 1 ≤ depth) (rest : List Token) :
    ∀ t : TypeRef, angleReach depth (t.tokens ++ rest) = t.tokens.length + angleReach depth rest
  | ⟨path, suffixes⟩ => by
    rw [TypeRef.tokens, List.append_assoc, angleReach_path hd _ path, angleReach_suffixes,
      List.length_append]
    omega

theorem angleReach_path {depth : Nat} (hd : 1 ≤ depth) (rest : List Token) :
    ∀ p : TypePath, angleReach depth (p.tokens ++ rest) = p.tokens.length + angleReach depth rest
  | .last x arguments => by
    rw [TypePath.tokens, List.cons_append, angleReach_word, angleReach_arguments hd rest arguments,
      List.length_cons]
    omega
  | .dot x arguments p => by
    rw [TypePath.tokens, List.cons_append, angleReach_word, List.append_assoc,
      angleReach_arguments hd _ arguments, List.cons_append, angleReach_dot, angleReach_path hd rest p]
    simp only [List.length_cons, List.length_append]
    omega

theorem angleReach_arguments {depth : Nat} (hd : 1 ≤ depth) (rest : List Token) :
    ∀ arguments : List TypeRef, angleReach depth (argumentTokens arguments ++ rest) =
      (argumentTokens arguments).length + angleReach depth rest
  | [] => by simp [argumentTokens]
  | t :: arguments => by
    rw [argumentTokens, List.cons_append, angleReach_lt, List.append_assoc,
      angleReach_type (Nat.succ_le_succ (Nat.zero_le depth)) _ t,
      angleReach_laterArguments (Nat.succ_le_succ (Nat.zero_le depth)) rest arguments,
      if_neg (by omega), Nat.succ_sub_one]
    simp only [List.length_cons, List.length_append]
    omega

/-- The closing bracket after the arguments ends one level of angle brackets. -/
theorem angleReach_laterArguments {depth : Nat} (hd : 1 ≤ depth) (rest : List Token) :
    ∀ arguments : List TypeRef, angleReach depth (laterArgumentTokens arguments ++ rest) =
      (laterArgumentTokens arguments).length + if depth ≤ 1 then 0 else angleReach (depth - 1) rest
  | [] => by
    rw [laterArgumentTokens, List.singleton_append, angleReach_gt]
    rfl
  | t :: arguments => by
    rw [laterArgumentTokens, List.cons_append, angleReach_comma, List.append_assoc,
      angleReach_type hd _ t, angleReach_laterArguments hd rest arguments]
    simp only [List.length_cons, List.length_append]
    omega

end

/-- Type arguments are read as one list in angle brackets. -/
theorem angleListReach_arguments (arguments : List TypeRef) {rest : List Token}
    (hr : atKind .lt rest = false) :
    angleListReach (argumentTokens arguments ++ rest) = (argumentTokens arguments).length := by
  cases arguments with
  | nil =>
    cases rest with
    | nil => rfl
    | cons t rest =>
      have hk : t.kind ≠ .lt := by simpa [atKind] using hr
      exact if_neg hk
  | cons t arguments =>
    have hlt : ∀ ts, angleListReach (.mark .lt :: ts) = 1 + angleReach 1 ts := fun ts => rfl
    rw [argumentTokens, List.cons_append, hlt, List.append_assoc, angleReach_type (Nat.le_refl 1),
      angleReach_laterArguments (Nat.le_refl 1), if_pos (Nat.le_refl 1)]
    simp only [List.length_cons, List.length_append]
    omega

/-- What can come right after a path: no dot, no colon and no angle bracket. -/
theorem pathReach_arguments (arguments : List TypeRef) {rest : List Token} (hl : atKind .lt rest = false)
    (hd : atKind .dot rest = false) (hc : atKind .colon rest = false) :
    pathReach (argumentTokens arguments ++ rest) = (argumentTokens arguments).length := by
  have hlist := angleListReach_arguments arguments hl
  rw [pathReach_end, hlist]
  intro a b ts h
  rw [hlist, List.drop_left] at h
  rw [h] at hd hc
  have ha : a.kind ≠ .dot := by simpa [atKind] using hd
  have ha' : a.kind ≠ .colon := by simpa [atKind] using hc
  simp [ha, ha']

theorem TypePath.tokens_eq_cons (p : TypePath) : ∃ (x : Identifier) (ts : List Token),
    p.tokens = .word x.text :: ts := by
  cases p with
  | last x arguments => exact ⟨x, _, by rw [TypePath.tokens]⟩
  | dot x arguments rest => exact ⟨x, _, by rw [TypePath.tokens]⟩

/-- A type begins with a name. -/
theorem TypeRef.tokens_eq_cons (t : TypeRef) : ∃ (x : Identifier) (ts : List Token),
    t.tokens = .word x.text :: ts := by
  obtain ⟨path, suffixes⟩ := t
  obtain ⟨x, ts, hp⟩ := path.tokens_eq_cons
  exact ⟨x, ts ++ suffixes.flatMap (·.tokens), by rw [TypeRef.tokens, hp, List.cons_append]⟩

/-- A path is read to its last part. -/
theorem bareTypeReach_path {rest : List Token} (hl : atKind .lt rest = false)
    (hd : atKind .dot rest = false) (hc : atKind .colon rest = false) :
    ∀ p : TypePath, bareTypeReach (p.tokens ++ rest) = p.tokens.length
  | .last x arguments => by
    have hw : ∀ ts, bareTypeReach (.word x.text :: ts) = 1 + pathReach ts := fun ts => rfl
    rw [TypePath.tokens, List.cons_append, hw, pathReach_arguments arguments hl hd hc, List.length_cons]
    omega
  | .dot x arguments p => by
    have ih := bareTypeReach_path hl hd hc p
    obtain ⟨y, ts, hp⟩ := p.tokens_eq_cons
    have hw : ∀ (x : String) ts, bareTypeReach (.word x :: ts) = 1 + pathReach ts := fun x ts => rfl
    have hlist : angleListReach (argumentTokens arguments ++ .mark .dot :: .word y.text :: (ts ++ rest)) =
        (argumentTokens arguments).length := angleListReach_arguments arguments rfl
    have hdrop : (argumentTokens arguments ++ .mark .dot :: .word y.text :: (ts ++ rest)).drop
        (angleListReach (argumentTokens arguments ++ .mark .dot :: .word y.text :: (ts ++ rest))) =
        .mark .dot :: .word y.text :: (ts ++ rest) := by
      rw [hlist, List.drop_left]
    rw [hp, List.cons_append, hw, List.length_cons] at ih
    rw [TypePath.tokens, hp, List.cons_append, hw, List.append_assoc, List.cons_append,
      List.cons_append, pathReach_dot hdrop rfl rfl, hlist]
    simp only [List.length_cons, List.length_append]
    omega

theorem typeSuffixReach_suffixes {rest : List Token} (hr : atKind .ident rest = true)
    (suffixes : List TypeSuffix) :
    typeSuffixReach (suffixes.flatMap (·.tokens) ++ rest) = (suffixes.flatMap (·.tokens)).length := by
  induction suffixes with
  | nil =>
    obtain ⟨t, rest, rfl, hk⟩ := eq_cons_of_atKind hr
    rw [List.flatMap_nil, List.nil_append, typeSuffixReach, runReach,
      (if_neg (by simp [Token.isPunct, hk])).trans (if_neg (by simp [hk]))]
    rfl
  | cons s suffixes ih =>
    cases s with
    | nullable =>
      have h : ∀ ts, typeSuffixReach (.mark .question :: ts) =
          1 + 0 + typeSuffixReach (ts.drop 0) := fun ts => by
        rw [typeSuffixReach, runReach]
        rfl
      rw [flatMap_nullable, List.cons_append, h, List.drop_zero, ih, List.length_cons]
      omega
    | array =>
      have h : ∀ ts, typeSuffixReach (.mark .lbracket :: .mark .rbracket :: ts) =
          1 + 1 + typeSuffixReach ((.mark .rbracket :: ts).drop 1) := fun ts => by
        rw [typeSuffixReach, runReach]
        rfl
      rw [flatMap_array, List.cons_append, List.cons_append, h, List.drop_succ_cons, List.drop_zero, ih,
        List.length_cons, List.length_cons]
      omega

theorem atKind_suffixes {k : TokenKind} {rest : List Token} (hr : atKind .ident rest = true)
    (hi : k ≠ .ident) (hq : k ≠ .question) (hb : k ≠ .lbracket) (suffixes : List TypeSuffix) :
    atKind k (suffixes.flatMap (·.tokens) ++ rest) = false := by
  cases suffixes with
  | nil => exact atKind_eq_false hr hi.symm
  | cons s suffixes =>
    cases s with
    | nullable => exact decide_eq_false hq.symm
    | array => exact decide_eq_false hb.symm

/-- **A type that is followed by a name is read to its last suffix.** -/
theorem typeReach_printed (t : TypeRef) {rest : List Token} (hr : atKind .ident rest = true) :
    typeReach (t.tokens ++ rest) = t.tokens.length := by
  have href : refReach (t.tokens ++ rest) = 0 := by
    obtain ⟨x, ts, ht⟩ := t.tokens_eq_cons
    have hx : (Token.word x.text).isWord "ref" = false := by
      have href : atWord "ref" [.word x.text] = false := x.atWord_eq_false (by decide)
      simpa [atWord] using href
    rw [ht, List.cons_append, refReach, if_neg (by simp [hx])]
  obtain ⟨path, suffixes⟩ := t
  have hpath : bareTypeReach (path.tokens ++ (suffixes.flatMap (·.tokens) ++ rest)) = path.tokens.length :=
    bareTypeReach_path (atKind_suffixes (k := .lt) hr (by decide) (by decide) (by decide) suffixes)
      (atKind_suffixes (k := .dot) hr (by decide) (by decide) (by decide) suffixes)
      (atKind_suffixes (k := .colon) hr (by decide) (by decide) (by decide) suffixes) path
  rw [TypeRef.tokens, List.append_assoc] at href ⊢
  simp only [typeReach, href, List.drop_zero, Nat.zero_add, hpath, List.drop_left,
    typeSuffixReach_suffixes hr suffixes, List.length_append]

end DocPages.Source
