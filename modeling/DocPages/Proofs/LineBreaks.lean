/-
Line breaks in snippets. Between the tokens of a header a snippet has nothing but
spaces, whatever the source has there, so what breaks its line is within a token.
Among the tokens that are known only literals can hold a line break
(`IsTokenBefore.oneLine`), and a literal that does is shown with it: the text of
a snippet is on one line exactly when its literals are (`snippet_oneLine`).
-/
import DocPages.Proofs.OneLine

namespace DocPages.Source

open Unicode (isBlank trim trimStart trimEnd)

/-! ## Texts on one line -/

/-- The text has no line break. -/
def IsOneLine (s : String) : Prop :=
  ∀ c ∈ s.toList, isLineBreak c = false

instance (s : String) : Decidable (IsOneLine s) :=
  List.decidableBAll (isLineBreak · = false) s.toList

theorem mem_trimEnd {s : List Char} {c : Char} (h : c ∈ trimEnd s) : c ∈ s := by
  rw [trimEnd, List.mem_reverse] at h
  exact List.mem_reverse.1 ((List.dropWhile_sublist _).subset h)

theorem mem_trim {s : List Char} {c : Char} (h : c ∈ trim s) : c ∈ s :=
  (List.dropWhile_sublist _).subset (mem_trimEnd h)

theorem IsOneLine.append {s t : String} (hs : IsOneLine s) (ht : IsOneLine t) : IsOneLine (s ++ t) := by
  intro c hc
  rw [String.toList_append] at hc
  exact (List.mem_append.1 hc).elim (hs c) (ht c)

theorem IsOneLine.space {s : String} (hs : IsOneLine s) : IsOneLine (s ++ " ") :=
  hs.append (by decide)

theorem IsOneLine.trimmed {s : String} (hs : IsOneLine s) : IsOneLine (trimmed s) := by
  intro c hc
  rw [DocPages.trimmed, String.toList_ofList] at hc
  exact hs c (mem_trim hc)

theorem IsOneLine.endTrimmed {s : String} (hs : IsOneLine s) : IsOneLine (endTrimmed s) := by
  intro c hc
  rw [DocPages.endTrimmed, String.toList_ofList] at hc
  exact hs c (mem_trimEnd hc)

theorem oneLine_join {ss : List String} (h : ∀ s ∈ ss, IsOneLine s) : IsOneLine (String.join ss) := by
  intro c hc
  rw [String.toList_join, List.mem_flatMap] at hc
  obtain ⟨s, hs, hc⟩ := hc
  exact h s hs c hc

theorem oneLine_intercalate {ss : List String} (h : ∀ s ∈ ss, IsOneLine s) :
    IsOneLine (" ".intercalate ss) := by
  induction ss with
  | nil => exact fun c hc => by simp at hc
  | cons s ss ih =>
    obtain ⟨hs, hss⟩ := List.forall_mem_cons.1 h
    cases ss with
    | nil => simpa using hs
    | cons s' ss =>
      rw [String.intercalate_cons_cons]
      exact hs.space.append (ih hss)

/-! ## Tokens on one line -/

/-- The kinds of tokens that may go on in another line: literals, and what is not recognised. -/
def TokenKind.mayBreak (k : TokenKind) : Bool :=
  k = .string || k = .char || k = .unknown

theorem isBlank_of_isLineBreak {c : Char} (h : isLineBreak c = true) : isBlank c = true := by
  rcases Bool.or_eq_true_iff.1 h with h | h
  · rw [beq_iff_eq.1 h]
    decide
  · rw [beq_iff_eq.1 h]
    decide

theorem not_isLineBreak {c : Char} (h : isBlank c = false) : isLineBreak c = false :=
  Bool.eq_false_iff.2 fun hb => by simp [isBlank_of_isLineBreak hb] at h

/-- A known token that is no literal has no white space in it. -/
theorem IsTokenBefore.not_blank {x s : List Char} {k : TokenKind} (h : IsTokenBefore x k s)
    (hk : k.mayBreak = false) : ∀ c ∈ s, isBlank c = false := by
  cases h with
  | word hc hw _ =>
    exact List.forall_mem_cons.2 ⟨isBlank_of_isIdentStart hc, fun d hd => isBlank_of_isIdentPart (hw d hd)⟩
  | atWord hc hw _ =>
    exact List.forall_mem_cons.2 ⟨by decide, List.forall_mem_cons.2
      ⟨isBlank_of_isIdentStart hc, fun d hd => isBlank_of_isIdentPart (hw d hd)⟩⟩
  | whole hc hw _ _ =>
    exact List.forall_mem_cons.2 ⟨isBlank_of_isDigit hc, fun d hd => isBlank_of_isNumberPart (hw d hd)⟩
  | decimal hc hw hd hv _ =>
    refine List.forall_mem_cons.2 ⟨isBlank_of_isDigit hc, List.forall_mem_append.2
      ⟨fun e he => isBlank_of_isNumberPart (hw e he), List.forall_mem_cons.2 ⟨by decide, ?_⟩⟩⟩
    exact List.forall_mem_cons.2 ⟨isBlank_of_isDigit hd, fun e he => isBlank_of_isNumberPart (hv e he)⟩
  | quoted | raw | verbatim | interpolated | char => cases hk
  | fatArrow => exact List.forall_mem_cons.2 ⟨by decide, List.forall_mem_singleton.2 (by decide)⟩
  | equals | slash => exact List.forall_mem_singleton.2 (by decide)
  | operator ho _ => exact fun c hc => List.mem_singleton.1 hc ▸ isBlank_of_isOperator ho
  | mark hm => exact fun c hc => List.mem_singleton.1 hc ▸ isBlank_of_markKind hm

section

variable {source : String}

/-- A token of a source that is no literal and not unknown is on one line. -/
theorem oneLine_of_kind {t : Token} (ht : t ∈ (TokenStream.ofSource source).tokens)
    (hk : t.kind.mayBreak = false) : IsOneLine t.text := by
  obtain ⟨front, back, hsplit⟩ := List.append_of_mem ht
  have htokens : (TokenStream.ofSource source).tokens = front ++ [t] ++ back := by
    rw [hsplit, List.append_assoc, List.singleton_append]
  have hknown : ∀ u ∈ [t], u.kind ≠ .unknown := fun u hu hunknown => by
    rw [List.mem_singleton.1 hu] at hunknown
    rw [hunknown] at hk
    cases hk
  obtain ⟨x, hx⟩ := (readFrom_of_tokens htokens hknown).exists_readsBefore t (List.mem_singleton_self t)
  exact fun c hc => not_isLineBreak (hx.not_blank hk c hc)

/-- A text that is read as some tokens breaks its line where one of them does. -/
theorem oneLine_of_reread {text : String} {ts : List Token} (h : RereadAs text ts) (hs : IsOneLine text) :
    ∀ t ∈ ts, IsOneLine t.text := by
  intro t ht c hc
  have hbare : t.bare ∈ bares (lexemes text.toList) := by
    rw [← bares_ofSource, h]
    exact List.mem_map_of_mem ht
  obtain ⟨l, hl, htoken⟩ := List.mem_filterMap.1 hbare
  have htext : l.text = t.text := by
    cases hk : l.kind with
    | trivia k => simp [hk] at htoken
    | token k =>
      simp only [hk, Option.some.injEq] at htoken
      exact congrArg BareToken.text htoken
  refine hs c ?_
  rw [← lexemes_join text.toList]
  exact List.mem_flatMap.2 ⟨l, hl, htext ▸ hc⟩

end

/-! ## Parts of a snippet -/

theorem oneLine_joined {ts : List Token} (h : ∀ t ∈ ts, IsOneLine t.text) : IsOneLine (Token.joined ts) := by
  induction ts with
  | nil => exact fun c hc => by simp [Token.joined] at hc
  | cons t ts ih =>
    obtain ⟨ht, hts⟩ := List.forall_mem_cons.1 h
    cases ts with
    | nil => simpa [Token.joined] using ht
    | cons u ts =>
      rw [Token.joined_cons]
      refine (ht.append ?_).append (ih hts)
      rcases gap_cases t u with hg | ⟨hg, -⟩
      · rw [hg]
        decide
      · rw [hg]
        decide

theorem between_subset {ts : List Token} {a b x y : Nat} (ha : a ≤ x) (hb : y ≤ b) :
    between ts x y ⊆ between ts a b := by
  by_cases hxy : x ≤ y
  · rw [between_append ha (Nat.le_trans hxy hb), between_append hxy hb]
    exact fun t ht => List.mem_append_right _ (List.mem_append_left _ ht)
  · have hempty : between ts x y = [] := by
      rw [between, show y - x = 0 by omega, List.take_zero]
    simp [hempty]

theorem Tiled.bounds {a b : Nat} {n : Node} {ns : List Node} (h : Tiled a ns b) (hn : n ∈ ns) :
    a ≤ n.start ∧ n.stop ≤ b := by
  induction h with
  | nil => simp at hn
  | cons start ordered rest ih =>
    rcases List.mem_cons.1 hn with rfl | hn
    · exact ⟨Nat.le_of_eq start.symm, rest.le⟩
    · have := ih hn
      omega

section

variable {tree : Tree} {a b : Nat} {name out : String} {n : Node}

theorem oneLine_text (h : ∀ t ∈ between tree.tokens a b, IsOneLine t.text) (ha : a ≤ n.start)
    (hb : n.stop ≤ b) : IsOneLine (tree.text n) :=
  oneLine_joined fun t ht => h t (between_subset ha hb ht)

theorem oneLine_textAt (h : ∀ t ∈ between tree.tokens a b, IsOneLine t.text) {i : Nat} (ha : a ≤ i)
    (hb : i < b) : IsOneLine (tree.textAt i) := by
  rw [Tree.textAt]
  cases ht : tree.tokens[i]? with
  | none => exact fun c hc => by simp at hc
  | some t =>
    refine h t (between_subset (x := i) (y := i + 1) ha hb ?_)
    rw [between_single ht]
    exact List.mem_singleton_self t

theorem oneLine_addPart (ho : IsOneLine out) (hname : IsOneLine name) (hn : IsOneLine (tree.text n))
    (slot i : Nat) : IsOneLine (tree.addPart name slot out (n, i)) := by
  simp only [Tree.addPart]
  split
  · exact ((ho.append hn).append hname).space
  · refine (IsOneLine.append ?_ hn).space
    have hnamed : IsOneLine (if i = slot then out ++ name else out) := by
      split
      · exact ho.append hname
      · exact ho
    split
    · exact hnamed.endTrimmed
    · exact hnamed

theorem oneLine_foldl_addPart (hname : IsOneLine name) (slot : Nat) {ns : List Node}
    (hn : ∀ n ∈ ns, IsOneLine (tree.text n)) (k : Nat) (ho : IsOneLine out) :
    IsOneLine ((ns.zipIdx k).foldl (tree.addPart name slot) out) := by
  induction ns generalizing k out with
  | nil => exact ho
  | cons n ns ih =>
    obtain ⟨hfirst, hrest⟩ := List.forall_mem_cons.1 hn
    rw [List.zipIdx_cons, List.foldl_cons]
    exact ih hrest (k + 1) (oneLine_addPart ho hname hfirst slot k)

/-- The snippet of a member is on one line if the tokens of its header are. -/
theorem oneLine_memberSnippet (l : MemberLayout tree.tokens n)
    (h : ∀ t ∈ tree.headerTokens n, IsOneLine t.text) : IsOneLine (tree.memberSnippet n) := by
  rw [Tree.headerTokens, l.headerStart_eq, l.headerStop_eq] at h
  obtain ⟨-, hmid, hname, hstop, -⟩ := l.ordered
  have hnameOf : IsOneLine (tree.nameOf n) := by
    rw [Tree.nameOf, Tree.name?, l.name_eq, Option.map_some, Option.getD_some]
    exact oneLine_textAt h (by omega) hstop
  have hparts : ∀ x ∈ l.front ++ l.tail, IsOneLine (tree.text x) := by
    intro x hx
    rcases List.mem_append.1 hx with hx | hx
    · have := l.front_tiled.bounds hx
      exact oneLine_text h (by omega) (by omega)
    · have := l.tail_tiled.bounds hx
      exact oneLine_text h (by omega) (by omega)
  have hmodifiers : IsOneLine (" ".intercalate (tree.modifiersOf n)) := by
    refine oneLine_intercalate fun s hs => ?_
    obtain ⟨i, hi, rfl⟩ := List.mem_map.1 hs
    rw [l.modifiers_eq, List.mem_range'_1] at hi
    exact oneLine_textAt h hi.1 (by omega)
  simp only [Tree.memberSnippet, l.shown_parts]
  exact (oneLine_foldl_addPart hnameOf _ hparts 0 hmodifiers.space).trimmed

/-- The snippet of a type is on one line if the tokens in front of its first brace or semicolon are. -/
theorem oneLine_typeSnippet (h : ∀ t ∈ tree.typeHeaderTokens n, IsOneLine t.text) :
    IsOneLine (tree.typeSnippet n) := by
  refine (oneLine_join fun s hs => ?_).trimmed
  obtain ⟨t, ht, rfl⟩ := List.mem_map.1 hs
  exact (h t ht).space

end

/-! ## Snippets -/

namespace Tree

/-- The tokens that the snippet of a declaration shows. -/
def shownTokens (tree : Tree) (n : Node) : List Token :=
  if n.kind = .method || n.kind = .constructor then tree.headerTokens n else tree.typeHeaderTokens n

end Tree

section

variable {source : String} {p : Place}

theorem snippet_cases (hp : p ∈ (Tree.ofSource source).places) (hk : p.node.kind.isDeclared = true) :
    ((Tree.ofSource source).snippet p.node = (Tree.ofSource source).memberSnippet p.node ∧
      (Tree.ofSource source).shownTokens p.node = (Tree.ofSource source).headerTokens p.node ∧
      Nonempty (MemberLayout (Tree.ofSource source).tokens p.node)) ∨
    ((Tree.ofSource source).snippet p.node = (Tree.ofSource source).typeSnippet p.node ∧
      (Tree.ofSource source).shownTokens p.node = (Tree.ofSource source).typeHeaderTokens p.node) := by
  by_cases hm : p.node.kind = .method ∨ p.node.kind = .constructor
  · have hmember : (p.node.kind = .method || p.node.kind = .constructor) = true := by simpa using hm
    exact .inl ⟨if_pos hmember, if_pos hmember,
      memberLayout_of_isMember (Tree.isMember_of_isDeclared hp hk) hm.symm⟩
  · have hmember : ¬ (p.node.kind = .method || p.node.kind = .constructor) = true := by simpa using hm
    have htype : p.node.kind.isTypeDeclaration = true := by
      rw [not_or] at hm
      simpa [NodeKind.isDeclared, hm] using hk
    exact .inr ⟨(if_neg hmember).trans (if_pos htype), if_neg hmember⟩

/-- Without unknown tokens, the snippet of a declaration is read as the tokens that it shows. -/
theorem snippet_reread (hp : p ∈ (Tree.ofSource source).places) (hk : p.node.kind.isDeclared = true)
    (hu : ∀ t ∈ (Tree.ofSource source).shownTokens p.node, t.kind ≠ .unknown) :
    RereadAs ((Tree.ofSource source).snippet p.node) ((Tree.ofSource source).shownTokens p.node) := by
  have hframed : Framed _ p.node := ((Tree.ofTokens_framed _).placesFrom hp).here
  rcases snippet_cases hp hk with ⟨hsnippet, hshown, ⟨l⟩⟩ | ⟨hsnippet, hshown⟩
  · rw [hshown] at hu
    rw [hsnippet, hshown]
    exact memberSnippet_tokens l hframed.inside hu
  · rw [hshown] at hu
    rw [hsnippet, hshown]
    exact typeSnippet_reread hframed.ordered hu

theorem mem_tokens_of_shown (hp : p ∈ (Tree.ofSource source).places) (hk : p.node.kind.isDeclared = true)
    {t : Token} (ht : t ∈ (Tree.ofSource source).shownTokens p.node) :
    t ∈ (TokenStream.ofSource source).tokens := by
  have hbetween : ∀ {a b : Nat}, t ∈ between (TokenStream.ofSource source).tokens a b →
      t ∈ (TokenStream.ofSource source).tokens := fun h => List.mem_of_mem_drop (List.mem_of_mem_take h)
  rcases snippet_cases hp hk with ⟨-, hshown, -⟩ | ⟨-, hshown⟩
  · rw [hshown] at ht
    exact hbetween ht
  · rw [hshown] at ht
    exact hbetween (List.takeWhile_subset _ ht)

end

/-- **A snippet is on one line if the literals and unknown tokens that it shows are**, whatever stands between
the tokens of the declaration. A literal over several lines, on the other hand, is shown as it is. -/
theorem snippet_oneLine (source : String) :
    ∀ p ∈ (Tree.ofSource source).places, p.node.kind.isDeclared = true →
      ((∀ t ∈ (Tree.ofSource source).shownTokens p.node, t.kind.mayBreak = true → IsOneLine t.text) →
        IsOneLine ((Tree.ofSource source).snippet p.node)) ∧
      ((∀ t ∈ (Tree.ofSource source).shownTokens p.node, t.kind ≠ .unknown) →
        IsOneLine ((Tree.ofSource source).snippet p.node) →
        ∀ t ∈ (Tree.ofSource source).shownTokens p.node, IsOneLine t.text) := by
  intro p hp hk
  refine ⟨fun h => ?_, fun hu hs => oneLine_of_reread (snippet_reread hp hk hu) hs⟩
  have hall : ∀ t ∈ (Tree.ofSource source).shownTokens p.node, IsOneLine t.text := by
    intro t ht
    by_cases hb : t.kind.mayBreak = true
    · exact h t ht hb
    · exact oneLine_of_kind (mem_tokens_of_shown hp hk ht) (by simpa using hb)
  rcases snippet_cases hp hk with ⟨hsnippet, hshown, ⟨l⟩⟩ | ⟨hsnippet, hshown⟩
  · rw [hshown] at hall
    rw [hsnippet]
    exact oneLine_memberSnippet l hall
  · rw [hshown] at hall
    rw [hsnippet]
    exact oneLine_typeSnippet hall

/-- Headers over several lines, with comments and directives between their tokens. -/
theorem snippet_oneLine_sample : ∃ tree, tree = Tree.ofSource
      ("[A(\"a\")] // b\r\nclass C\n  : B\n\x7b\n#if X\nC\n(char c = '\\'')\r: base() \x7b \x7d\n" ++
        "void /// d\n M(\nstring s = \"a b\",\n\tint n\n) \x7b \x7d \x7d") ∧
    (tree.places.filter (·.node.kind.isDeclared)).map (fun p => tree.snippet p.node) =
      ["[ A ( \"a\" ) ] class C : B", "C(char c = '\\'') : base()", "void M( string s = \"a b\", int n )"] ∧
    (∀ p ∈ tree.places, p.node.kind.isDeclared = true →
      ∀ t ∈ tree.shownTokens p.node, t.kind.mayBreak = true → IsOneLine t.text) ∧
    ∀ p ∈ tree.places, p.node.kind.isDeclared = true → IsOneLine (tree.snippet p.node) := by
  refine ⟨_, rfl, ?_, ?known, fun p hp hk => (snippet_oneLine _ p hp hk).1 (?known p hp hk)⟩
  · decide +kernel
  · decide +kernel

/-- A verbatim literal as the value of a parameter breaks the line of the snippet. -/
theorem snippet_not_always_oneLine : ∃ tree,
    tree = Tree.ofSource "namespace N \x7b class C \x7b void M(string s = @\"a\nb\") \x7b \x7d \x7d \x7d" ∧
    ∃ p ∈ tree.places, p.node.kind = .method ∧ tree.snippet p.node = "void M(string s = @\"a\nb\")" ∧
      ¬ IsOneLine (tree.snippet p.node) := by
  refine ⟨_, rfl, ?_⟩
  decide +kernel

end DocPages.Source
