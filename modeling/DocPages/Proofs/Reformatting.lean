/-
Sources that are laid out anew. Blanks, line breaks or a comment behind a token
(`IsLayout`) are read as trivia there, and every other lexeme is read as before
(`bares_inserted`), so the tokens stay the same, trivia apart. With them stay the
tree, and all that a page takes from it without looking at trivia: which
declarations there are, their names and the headers of types
(`DeclaresTheSame`). One line of text shows where trivia were, and by that alone
the name of a namespace may change, in its spaces.
-/
import DocPages.Proofs.CommentScope
import DocPages.Proofs.OneLine

namespace DocPages.Source

/-! ## Trivia in front of another text -/

/-- A run of characters of a class is as long in front of any text that begins as the one behind it does. -/
theorem exists_run_staying (p : Char → Bool) (s : List Char) : ∃ w x, s = w ++ x ∧ countWhile p s = w.length ∧
    ∀ x' : List Char, x'.head? = x.head? → countWhile p (w ++ x') = w.length := by
  obtain ⟨w, x, rfl, hw, hx⟩ := exists_run p s
  exact ⟨w, x, rfl, countWhile_append_iff.2 ⟨hw, hx⟩, fun x' hx' =>
    countWhile_append_iff.2 ⟨hw, fun d hd => hx d (hx' ▸ hd)⟩⟩

/-- A comment has a second slash. -/
theorem exists_of_slashReach {rest : List Char} {k : TriviaKind} {n : Nat} (h : slashReach rest = (.trivia k, n)) :
    ∃ r, rest = '/' :: r := by
  unfold slashReach at h
  split at h
  · exact ⟨_, rfl⟩
  · cases h
  · cases h

/-- Trivia are read the same, up to their kind, in front of any text that begins as the one behind them does. -/
theorem exists_trivia_of_reach {c : Char} {rest : List Char} {k : TriviaKind} {n : Nat}
    (h : reach c rest = (.trivia k, n)) : ∃ w x, rest = w ++ x ∧ n = w.length ∧
      ∀ x' : List Char, x'.head? = x.head? → ∃ k', reach c (w ++ x') = (.trivia k', w.length) := by
  cases triviaReach_of_reach h with
  | whitespace hc =>
    obtain ⟨w, x, hrest, hn, hsame⟩ := exists_run_staying isSpacing rest
    refine ⟨w, x, hrest, hn, fun x' hx' => ⟨.whitespace, ?_⟩⟩
    rw [reach, if_pos hc, hsame x' hx']
  | directive hc =>
    obtain ⟨w, x, hrest, hn, hsame⟩ := exists_run_staying (!isLineBreak ·) rest
    refine ⟨w, x, hrest, hn, fun x' hx' => ⟨.directive, ?_⟩⟩
    rw [hc, reach_eq]
    exact congrArg _ (hsame x' hx')
  | comment hc =>
    rw [hc, reach_eq] at h
    obtain ⟨r, rfl⟩ := exists_of_slashReach h
    obtain ⟨w, x, rfl, hn, hsame⟩ := exists_run_staying (!isLineBreak ·) r
    have hlength : ∀ y, lineLength ('/' :: y) = lineLength y + 1 := fun y => by
      rw [lineLength, countWhile_cons, Nat.add_comm]
      rfl
    refine ⟨'/' :: w, x, rfl, (hlength _).trans (congrArg (· + 1) hn), fun x' hx' => ?_⟩
    refine ⟨if startsDocComment ('/' :: (w ++ x')) then .docComment else .lineComment, ?_⟩
    rw [hc, reach_eq]
    exact congrArg _ ((hlength _).trans (congrArg (· + 1) (hsame x' hx')))
  | endOfLine hc =>
    rw [isLineBreak, Bool.or_eq_true, beq_iff_eq, beq_iff_eq] at hc
    rcases hc with rfl | rfl
    · obtain ⟨-, rfl⟩ := Prod.mk.inj h
      exact ⟨[], rest, rfl, rfl, fun x' _ => ⟨.endOfLine, rfl⟩⟩
    · have hreturn : ∀ y, reach '\r' y = (.trivia .endOfLine, if ['\n'].isPrefixOf y then 1 else 0) :=
        fun y => reach_eq '\r' y
      rw [hreturn] at h
      obtain ⟨-, rfl⟩ := Prod.mk.inj h
      by_cases hpair : ['\n'].isPrefixOf rest = true
      · obtain ⟨x, rfl⟩ := List.isPrefixOf_iff_prefix.1 hpair
        exact ⟨['\n'], x, rfl, rfl, fun x' _ => ⟨.endOfLine, rfl⟩⟩
      · refine ⟨[], rest, rfl, if_neg hpair, fun x' hx' => ⟨.endOfLine, ?_⟩⟩
        have hpair' : ¬ ['\n'].isPrefixOf x' = true := by rwa [isPrefixOf_singleton, hx', ← isPrefixOf_singleton]
        rw [List.nil_append, hreturn, if_neg hpair']
        rfl

/-! ## A text put in behind a token -/

/-- The text is trivia wherever a lexeme may begin, and goes on with none in front of it. -/
structure IsGap (gap : List Char) : Prop where
  silent : ∀ y, bares (lexemes (gap ++ y)) = bares (lexemes y)
  separates : ∃ c g, gap = c :: g ∧ isSeparator c = true

/-- The texts of lexemes, one after the other. -/
def textOf (ls : List Lexeme) : List Char :=
  ls.flatMap (·.text.toList)

theorem textOf_append (ls ms : List Lexeme) : textOf (ls ++ ms) = textOf ls ++ textOf ms :=
  List.flatMap_append

theorem textOf_cons (l : Lexeme) (ls : List Lexeme) : textOf (l :: ls) = l.text.toList ++ textOf ls :=
  List.flatMap_cons

theorem textOf_lexemes (s : List Char) : textOf (lexemes s) = s :=
  lexemes_join s

/-- The first lexeme of a text, unless it is unknown, is read in front of any text that stands for the rest. Trivia
go on with a text that begins otherwise. -/
theorem bares_first {s : List Char} {b : Lexeme} {ls : List Lexeme} (h : lexemes s = b :: ls)
    (hb : b.kind ≠ .token .unknown) : ∃ x, s = b.text.toList ++ x ∧ ls = lexemes x ∧
      ∀ x', StandsFor x' x → x'.head? = x.head? ∨ (∃ k, b.kind = .token k) →
        bares (lexemes (b.text.toList ++ x')) = bares [b] ++ bares (lexemes x') := by
  cases s with
  | nil => simp [lexemes] at h
  | cons c rest =>
    obtain ⟨kind, n, hread⟩ : ∃ kind n, reach c rest = (kind, n) := ⟨_, _, rfl⟩
    rw [lexemes_cons hread] at h
    obtain ⟨rfl, rfl⟩ := List.cons.inj h
    cases kind with
    | token k =>
      obtain ⟨w, x, rfl, rfl, hw⟩ := isTokenRead_of_reach hread fun he => hb (congrArg _ he)
      rw [List.take_left, List.drop_left, String.toList_ofList]
      refine ⟨x, rfl, rfl, fun x' hstands _ => ?_⟩
      rw [List.cons_append, lexemes_cons (reach_of_isTokenBefore (hw.standsFor hstands)), List.take_left,
        List.drop_left]
      rfl
    | trivia k =>
      obtain ⟨w, x, rfl, rfl, hsame⟩ := exists_trivia_of_reach hread
      rw [List.take_left, List.drop_left, String.toList_ofList]
      refine ⟨x, rfl, rfl, fun x' _ hhead => ?_⟩
      have hnot : ¬ ∃ k', LexemeKind.trivia k = .token k' := by
        rintro ⟨k', hk⟩
        cases hk
      obtain ⟨k', hread'⟩ := hsame x' (hhead.resolve_right hnot)
      rw [List.cons_append, lexemes_cons hread', List.drop_left]
      rfl

/-- The text is read as the tokens `added` wherever a lexeme may begin, and goes on with none in front of it. -/
structure Adds (gap : List Char) (added : List BareToken) : Prop where
  tokens : ∀ y, bares (lexemes (gap ++ y)) = added ++ bares (lexemes y)
  separates : ∃ c g, gap = c :: g ∧ isSeparator c = true

theorem IsGap.adds {gap : List Char} (hg : IsGap gap) : Adds gap [] :=
  ⟨hg.silent, hg.separates⟩

/-- **A text behind a known token adds its own tokens and changes no other.** The proof goes along the lexemes in
front of the text: each is read as before, since what stands behind it begins as before, and the text itself goes on
with no token. -/
theorem bares_inserted {s gap : List Char} {added : List BareToken} {before after : List Lexeme} {l : Lexeme}
    {k : TokenKind} (hg : Adds gap added) (hs : lexemes s = before ++ l :: after) (hl : l.kind = .token k)
    (hknown : ∀ m ∈ lexemes s, m.kind ≠ .token .unknown) :
    bares (lexemes (textOf before ++ (l.text.toList ++ (gap ++ textOf after)))) =
      bares before ++ (bares [l] ++ (added ++ bares after)) := by
  obtain ⟨g, gs, hgap, hseparator⟩ := hg.separates
  induction before generalizing s with
  | nil =>
    rw [List.nil_append] at hs
    obtain ⟨x, rfl, rfl, hfirst⟩ := bares_first hs (hknown l (by simp [hs]))
    have hstands : StandsFor (gap ++ x) x := by
      rw [hgap]
      exact standsFor_separator hseparator
    have hnone : textOf [] = [] := rfl
    rw [hnone, List.nil_append, textOf_lexemes, hfirst _ hstands (.inr ⟨k, hl⟩), hg.tokens]
    rfl
  | cons b before ih =>
    rw [List.cons_append] at hs
    obtain ⟨x, rfl, hrest, hfirst⟩ := bares_first hs (hknown b (by simp [hs]))
    have hbehind := ih hrest.symm fun m hm => hknown m (by rw [hs, hrest]; exact List.mem_cons_of_mem b hm)
    have hne : textOf before ++ l.text.toList ≠ [] := by
      have hk : k ≠ .unknown := fun he => hknown l (by simp [hs]) (he ▸ hl)
      have htoken := (isTokenBefore_of_mem_lexemes hrest.symm hl hk).ne_nil
      simp [htoken]
    -- What stands behind the first lexeme, without the text put in and with it.
    have hold : x = (textOf before ++ l.text.toList) ++ textOf after := by
      rw [← textOf_lexemes x, ← hrest, textOf_append, textOf_cons, List.append_assoc]
    rw [← List.append_assoc] at hbehind
    have hstands : StandsFor ((textOf before ++ l.text.toList) ++ (gap ++ textOf after)) x := by
      rw [hold, hgap]
      refine standsFor_append hne ?_
      rintro d ⟨⟩ hdigit
      rw [isDigit_of_isSeparator hseparator] at hdigit
      cases hdigit
    have hhead : ((textOf before ++ l.text.toList) ++ (gap ++ textOf after)).head? = x.head? := by
      rw [hold, List.head?_append_of_ne_nil _ hne, List.head?_append_of_ne_nil _ hne]
    rw [textOf_cons, List.append_assoc, ← List.append_assoc (textOf before), hfirst _ hstands (.inl hhead), hbehind,
      ← List.append_assoc, ← bares_append]
    rfl

/-! ## Layout -/

/-- The source of a stream with a text put in right behind its token with index `i`. -/
def TokenStream.insertBehind (s : TokenStream) (i : Nat) (gap : String) : String :=
  spelled ⟨s.tokens.modify i fun t => { t with text := t.text ++ gap }, s.tail⟩

/-- The texts that lay a source out anew: blanks and line breaks, or a comment up to the end of its line. -/
inductive IsLayout : String → Prop where
  | blanks {gap : String} (hne : gap ≠ "") (hg : ∀ c ∈ gap.toList, isSpacing c = true ∨ isLineBreak c = true) :
      IsLayout gap
  | comment {c b : String} (hc : ∀ d ∈ c.toList, isLineBreak d = false) (hb : b ∈ ["\n", "\r\n", "\r"]) :
      IsLayout (" //" ++ c ++ b)

theorem IsLayout.isGap {gap : String} (h : IsLayout gap) : IsGap gap.toList := by
  cases h with
  | blanks hne hg =>
    refine ⟨bares_blanks hg, ?_⟩
    obtain ⟨c, g, hgap⟩ := List.exists_cons_of_ne_nil (mt String.toList_eq_nil_iff.1 hne)
    have hc := hg c (by simp [hgap])
    exact ⟨c, g, hgap, by rcases hc with hc | hc <;> simp [isSeparator, hc]⟩
  | @comment c b hc hb =>
    have hbreak : b.toList.all isLineBreak = true ∧ b.toList ≠ [] := by
      simp only [List.mem_cons, List.not_mem_nil, or_false] at hb
      rcases hb with rfl | rfl | rfl <;> decide
    have hbreaks := List.all_eq_true.1 hbreak.1
    refine ⟨fun y => ?_, ' ', '/' :: '/' :: (c.toList ++ b.toList), by simp, rfl⟩
    have hhead : ∀ d, (b.toList ++ y).head? = some d → (!isLineBreak d) = false := by
      intro d hd
      rw [List.head?_append_of_ne_nil _ hbreak.2] at hd
      simp [hbreaks d (List.mem_of_mem_head? hd)]
    have hlength : lineLength ('/' :: (c.toList ++ (b.toList ++ y))) = ('/' :: c.toList).length :=
      countWhile_append_iff (w := '/' :: c.toList) |>.2 ⟨fun d hd => by
        rcases List.mem_cons.1 hd with rfl | hd
        · rfl
        · simp [hc d hd], hhead⟩
    have hread : reach '/' ('/' :: (c.toList ++ (b.toList ++ y))) = (.trivia _, ('/' :: c.toList).length) :=
      (reach_eq _ _).trans (congrArg _ hlength)
    have htext : (" //" ++ c ++ b).toList ++ y = ' ' :: '/' :: ('/' :: c.toList ++ (b.toList ++ y)) := by simp
    rw [htext, bares_blank (.inl rfl), List.cons_append, lexemes_cons hread, ← List.cons_append, List.drop_left]
    exact bares_blanks (fun d hd => .inr (hbreaks d hd)) y

/-- The tokens of a source are those among its lexemes. -/
theorem exists_token_of_mem_lexemes {source : String} {m : Lexeme} {k : TokenKind}
    (hm : m ∈ lexemes source.toList) (hk : m.kind = .token k) :
    ∃ t ∈ (TokenStream.ofSource source).tokens, t.kind = k := by
  have hbare : BareToken.mk k m.text ∈ (TokenStream.ofSource source).tokens.map Token.bare := by
    rw [bares_ofSource]
    exact List.mem_filterMap.2 ⟨m, hm, by rw [hk]⟩
  obtain ⟨t, ht, heq⟩ := List.mem_map.1 hbare
  exact ⟨t, ht, congrArg BareToken.kind heq⟩

/-- A text behind one of its tokens leaves a source without unknown tokens the tokens it has, and adds its own. -/
theorem bares_insertAdding {source gap : String} {added : List BareToken} {i : Nat} (hg : Adds gap.toList added)
    (hi : i < (TokenStream.ofSource source).tokens.length)
    (hknown : ∀ t ∈ (TokenStream.ofSource source).tokens, t.kind ≠ .unknown) :
    (TokenStream.ofSource ((TokenStream.ofSource source).insertBehind i gap)).tokens.map Token.bare =
      ((TokenStream.ofSource source).tokens.take (i + 1)).map Token.bare ++ added ++
        ((TokenStream.ofSource source).tokens.drop (i + 1)).map Token.bare := by
  have hunknown : ∀ m ∈ lexemes source.toList, m.kind ≠ .token .unknown := fun m hm he => by
    obtain ⟨t, ht, hk⟩ := exists_token_of_mem_lexemes hm he
    exact hknown t ht hk
  have hlexemes : lexemes source.toList = (TokenStream.ofSource source).lexemes :=
    (TokenStream.lexemes_ofLexemes _).symm
  rw [bares_ofSource]
  generalize TokenStream.ofSource source = stream at hi hlexemes ⊢
  -- The lexemes before the token, the token, and those behind it.
  have hsplit : lexemes source.toList =
      ((stream.tokens.take i).flatMap Token.lexemes ++ stream.tokens[i].leading.map Trivia.lexeme) ++
        stream.tokens[i].lexeme :: (stream.tokens[i].trailing.map Trivia.lexeme ++
          ((stream.tokens.drop (i + 1)).flatMap Token.lexemes ++ stream.tail.map Trivia.lexeme)) := by
    rw [hlexemes, stream.lexemes_split hi]
    simp only [Token.lexemes, List.append_assoc, List.cons_append]
  have hinserted : (stream.insertBehind i gap).toList =
      textOf ((stream.tokens.take i).flatMap Token.lexemes ++ stream.tokens[i].leading.map Trivia.lexeme) ++
        (stream.tokens[i].lexeme.text.toList ++ (gap.toList ++ textOf (stream.tokens[i].trailing.map Trivia.lexeme ++
          ((stream.tokens.drop (i + 1)).flatMap Token.lexemes ++ stream.tail.map Trivia.lexeme)))) := by
    rw [TokenStream.insertBehind, TokenStream.spelled_eq, List.modify_eq_take_cons_drop hi]
    simp [TokenStream.lexemes, Token.lexemes, Token.lexeme, textOf]
  have htoken : bares [stream.tokens[i].lexeme] = [stream.tokens[i].bare] := rfl
  rw [hinserted, bares_inserted hg hsplit rfl hunknown, ← List.take_concat_get' _ _ hi, htoken]
  simp only [bares_append, bares_trivia, bares_tokens, List.map_append, List.append_assoc, List.nil_append,
    List.append_nil, List.map_cons, List.map_nil]

/-- A gap behind one of its tokens leaves a source without unknown tokens the tokens it has. -/
theorem bares_insertBehind {source gap : String} {i : Nat} (hg : IsGap gap.toList)
    (hi : i < (TokenStream.ofSource source).tokens.length)
    (hknown : ∀ t ∈ (TokenStream.ofSource source).tokens, t.kind ≠ .unknown) :
    (TokenStream.ofSource ((TokenStream.ofSource source).insertBehind i gap)).tokens.map Token.bare =
      (TokenStream.ofSource source).tokens.map Token.bare := by
  rw [bares_insertAdding hg.adds hi hknown, List.append_nil, ← List.map_append, List.take_append_drop]

/-! ## Trees that are read of the same tokens -/

/-- The trees have the same nodes over the same tokens, trivia apart. -/
structure Tree.SameReading (tree tree' : Tree) : Prop where
  tokens : tree'.tokens.map Token.bare = tree.tokens.map Token.bare
  root : tree'.root = tree.root

/-- A text without its spaces. -/
def unspaced (s : String) : String :=
  String.ofList (s.toList.filter (· ≠ ' '))

theorem unspaced_joined (ts : List Token) :
    unspaced (Token.joined ts) = unspaced (String.join (ts.map (·.text))) := by
  apply String.toList_injective
  simp only [unspaced, String.toList_ofList]
  induction ts with
  | nil => rfl
  | cons t ts ih =>
    cases ts with
    | nil => simp [Token.joined]
    | cons u ts =>
      have hgap : (t.gap u).toList.filter (· ≠ ' ') = [] := by
        rcases gap_cases t u with hg | ⟨hg, -, -⟩ <;> rw [hg] <;> rfl
      rw [Token.joined_cons, String.toList_append, String.toList_append, List.filter_append, List.filter_append, hgap,
        ih]
      simp [String.toList_join]

namespace Tree.SameReading

variable {tree tree' : Tree} (h : tree.SameReading tree') (n : Node)

include h

theorem map_tokensOf : (tree'.tokensOf n).map Token.bare = (tree.tokensOf n).map Token.bare := by
  simp only [tokensOf, List.map_take, List.map_drop, h.tokens]

theorem textAt (i : Nat) : tree'.textAt i = tree.textAt i := by
  have hbare : tree'.tokens[i]?.map Token.bare = tree.tokens[i]?.map Token.bare := by
    rw [← List.getElem?_map, ← List.getElem?_map, h.tokens]
  have htext : ∀ t? : Option Token, t?.elim "" (·.text) = (t?.map Token.bare).elim "" (·.text) := fun t? => by
    cases t? <;> rfl
  rw [Tree.textAt, Tree.textAt, htext, htext, hbare]

theorem name? : tree'.name? n = tree.name? n := by
  simp only [Tree.name?, funext h.textAt]

theorem nameOf : tree'.nameOf n = tree.nameOf n := by
  simp only [Tree.nameOf, h.name?]

theorem modifiersOf : tree'.modifiersOf n = tree.modifiersOf n := by
  simp only [Tree.modifiersOf, funext h.textAt]

theorem places : tree'.places = tree.places := by
  rw [Tree.places, Tree.places, h.root]

/-- The header of a type shows no trivia. -/
theorem typeSnippet : tree'.typeSnippet n = tree.typeSnippet n := by
  have hheader : ∀ ts : List Token, (ts.takeWhile fun t => t.kind ≠ .lbrace && t.kind ≠ .semi).map (·.text ++ " ") =
      ((ts.map Token.bare).takeWhile fun t => t.kind ≠ .lbrace && t.kind ≠ .semi).map (·.text ++ " ") := fun ts => by
    rw [List.takeWhile_map, List.map_map]
    rfl
  simp only [Tree.typeSnippet, hheader, h.map_tokensOf]

/-- One line of text shows trivia by spaces only. -/
theorem unspaced_text : unspaced (tree'.text n) = unspaced (tree.text n) := by
  have htexts : ∀ ts : List Token, ts.map (·.text) = (ts.map Token.bare).map (·.text) := fun ts => by
    rw [List.map_map]
    rfl
  rw [text, text, unspaced_joined, unspaced_joined, htexts, htexts, h.map_tokensOf]

end Tree.SameReading

end DocPages.Source

namespace DocPages

open Source

/-! ## Pages -/

/-- The kind and the name of the declaration that a fragment stands for. -/
def Fragment.declared? : Fragment → Option (DeclarationKind × String)
  | .classEntry d | .interfaceEntry d | .structEntry d | .memberEntry d _ => some (d.kind, d.name)
  | .diagnostic kind name _ => some (kind, name)
  | _ => none

/-- The kinds and names of the declarations that are shown, in their order. -/
def declarationsIn (fragments : List Fragment) : List (DeclarationKind × String) :=
  fragments.filterMap Fragment.declared?

theorem declared?_fragment (tree : Tree) (e : Emission) :
    (e.fragment tree).declared? = some (e.kind, tree.nameOf e.place.node) := by
  obtain ⟨kind, _, _, _⟩ := e
  unfold Emission.fragment
  split
  · rfl
  · cases kind <;> rfl

theorem declared?_of_isDeclaration {f : Fragment} (h : f.declared?.isSome = true) : f.isDeclaration = true := by
  cases f <;> first | rfl | cases h

theorem declarationsIn_filter (fs : List Fragment) :
    declarationsIn (fs.filter (·.isDeclaration)) = declarationsIn fs := by
  rw [declarationsIn, List.filterMap_filter]
  refine List.filterMap_congr fun f _ => ?_
  cases hf : f.declared? with
  | none => simp
  | some d => simp [declared?_of_isDeclaration (f := f) (by rw [hf]; rfl)]

/-- The declarations on the page of a plan when bad comments cost only their own declaration. -/
theorem declarationsIn_shown {tree : Tree} {plan : List PlanEntry} (h : tree.plan? = some plan) :
    declarationsIn (plan.filterMap (·.shown? tree)) =
      (pageEmissions plan).map fun e => (e.kind, tree.nameOf e.place.node) := by
  rw [← declarationsIn_filter, declarations_shown tree ⟨none, none, none⟩ fun e he => isPlain_plan h he, declarationsIn,
    List.filterMap_map]
  rw [← List.filterMap_eq_map]
  exact List.filterMap_congr fun e _ => declared?_fragment tree e

/-- Two units declare the same. What may differ is spelled out by what is not here: comments, and the spaces in texts on
one line, that of the name of the namespace among them. A page that bad comments would cost may be there for one unit
alone, because a comment behind a token is no one's until layout puts it in front of the next one. -/
structure DeclaresTheSame (tree tree' : Tree) : Prop where
  tokens : tree'.tokens.map Token.bare = tree.tokens.map Token.bare
  root : tree'.root = tree.root
  names : ∀ n, tree'.name? n = tree.name? n
  modifiers : ∀ n, tree'.modifiersOf n = tree.modifiersOf n
  namespaceName : tree'.namespaceName?.map unspaced = tree.namespaceName?.map unspaced
  /-- The declarations of the plans, in order and with their places on the page. -/
  planned : tree'.plan?.map pageEmissions = tree.plan?.map pageEmissions
  /-- Where bad comments cost only their own declaration, both units have a page or neither has. -/
  shownIsolated :
    (tree'.document .isolate).page.map declarationsIn = (tree.document .isolate).page.map declarationsIn
  /-- Under each policy, the pages show the same wherever both units have one. -/
  shown : ∀ policy fragments fragments', (tree.document policy).page = .ok fragments →
    (tree'.document policy).page = .ok fragments' → declarationsIn fragments' = declarationsIn fragments
  headers : ∀ n, n.kind.isTypeDeclaration = true → tree'.snippet n = tree.snippet n

namespace Source.Tree.SameReading

variable {tree tree' : Tree} (h : tree.SameReading tree')

include h

theorem namespaceName : tree'.namespaceName?.map unspaced = tree.namespaceName?.map unspaced := by
  have htext : ∀ n? : Option Node, unspaced (n?.elim "" tree'.text) = unspaced (n?.elim "" tree.text) := fun n? => by
    cases n? with
    | none => rfl
    | some n => exact h.unspaced_text n
  simp only [namespaceName?, h.places, Option.map_map, Function.comp_def, htext]

/-- Both units have a page or neither has, and the plans show the same declarations in the same places. -/
theorem plans : (tree.plan? = none ∧ tree'.plan? = none) ∨ ∃ plan plan', tree.plan? = some plan ∧
    tree'.plan? = some plan' ∧ pageEmissions plan' = pageEmissions plan := by
  have hsome : tree'.plan?.isSome = tree.plan?.isSome := by
    simp only [plan?, namespaceName?, Option.isSome_map, h.places]
  have htop : ∀ k, tree'.topLevel k = tree.topLevel k := fun k => by rw [topLevel, topLevel, h.places]
  cases hplan : tree.plan? with
  | none =>
    rw [hplan] at hsome
    exact .inl ⟨rfl, Option.not_isSome_iff_eq_none.1 (Bool.eq_false_iff.1 hsome)⟩
  | some plan =>
    rw [hplan] at hsome
    obtain ⟨plan', hplan'⟩ := Option.isSome_iff_exists.1 hsome
    exact .inr ⟨plan, plan', rfl, hplan', by rw [pageEmissions_plan hplan, pageEmissions_plan hplan', htop, htop]⟩

/-- The plans are shown by entries of the same declarations. -/
theorem declarationsIn_eq {plan plan' : List PlanEntry} (hplan : tree.plan? = some plan)
    (hplan' : tree'.plan? = some plan') :
    declarationsIn (shownBy tree' plan') = declarationsIn (shownBy tree plan) := by
  rcases h.plans with ⟨hnone, -⟩ | ⟨p, p', hp, hp', hsame⟩
  · rw [hnone] at hplan
    cases hplan
  · obtain rfl := Option.some.inj (hp.symm.trans hplan)
    obtain rfl := Option.some.inj (hp'.symm.trans hplan')
    simp only [declarationsIn_shown hp, declarationsIn_shown hp', hsame, h.nameOf]

theorem declaresTheSame : DeclaresTheSame tree tree' where
  tokens := h.tokens
  root := h.root
  names := h.name?
  modifiers := h.modifiersOf
  namespaceName := h.namespaceName
  planned := by
    rcases h.plans with ⟨hnone, hnone'⟩ | ⟨plan, plan', hplan, hplan', hsame⟩
    · rw [hnone, hnone']
    · rw [hplan, hplan', Option.map_some, Option.map_some, hsame]
  shownIsolated := by
    rcases h.plans with ⟨hnone, hnone'⟩ | ⟨plan, plan', hplan, hplan', -⟩
    · rw [document, document, hnone, hnone']
    · rw [page_isolate hplan, page_isolate hplan']
      exact congrArg Except.ok (h.declarationsIn_eq hplan hplan')
  shown policy fragments fragments' hpage hpage' := by
    obtain ⟨plan, hplan, rfl⟩ := fragments_of_page hpage
    obtain ⟨plan', hplan', rfl⟩ := fragments_of_page hpage'
    exact h.declarationsIn_eq hplan hplan'
  headers n hn := by
    have hmember : (n.kind = .method || n.kind = .constructor) = false := by
      cases hkind : n.kind <;> rw [hkind] at hn <;> first | rfl | cases hn
    simp only [snippet, hmember, hn, if_true, Bool.false_eq_true, if_false, h.typeSnippet]

end Source.Tree.SameReading

/-- **Layout and comments never change what is declared.** In a source without unknown tokens, blanks, line breaks or a
comment put in behind any token leave all tokens as they are, and with them everything that is declared. -/
theorem layout_changes_nothing {source gap : String} {i : Nat} (hgap : IsLayout gap)
    (hi : i < (TokenStream.ofSource source).tokens.length)
    (hknown : ∀ t ∈ (TokenStream.ofSource source).tokens, t.kind ≠ .unknown) :
    DeclaresTheSame (Tree.ofSource source)
      (Tree.ofSource ((TokenStream.ofSource source).insertBehind i gap)) := by
  have htokens := bares_insertBehind hgap.isGap hi hknown
  exact Tree.SameReading.declaresTheSame ⟨htokens, Tree.root_eq_of_bare htokens⟩

/-- A comment that holds a quote, a brace and what looks like the start of another, between a division and its
divisor. -/
theorem layout_changes_nothing_sample :
    (TokenStream.ofSource "namespace N; class C { int M(int a) => a/2; }").insertBehind 14 " //\"\x7d /*\r\n" =
      "namespace N; class C \x7b int M(int a) => a/ //\"\x7d /*\r\n2; \x7d" ∧
    DeclaresTheSame (Tree.ofSource "namespace N; class C { int M(int a) => a/2; }")
      (Tree.ofSource "namespace N; class C \x7b int M(int a) => a/ //\"\x7d /*\r\n2; \x7d") := by
  have htext : (TokenStream.ofSource "namespace N; class C { int M(int a) => a/2; }").insertBehind 14
      " //\"\x7d /*\r\n" = "namespace N; class C \x7b int M(int a) => a/ //\"\x7d /*\r\n2; \x7d" := by
    decide +kernel
  refine ⟨htext, ?_⟩
  rw [← htext]
  exact layout_changes_nothing (.comment (c := "\"\x7d /*") (b := "\r\n") (by simp [isLineBreak]) (by decide))
    (by decide +kernel) (by decide +kernel)

/-- Layout does not go by unseen. A blank in the name of a namespace shows in the name. And a line break in front of a
comment makes it the comment of the next declaration; where that is a bad one, a page may be lost to it. -/
theorem layout_not_always_unseen :
    (IsLayout " " ∧ (∀ t ∈ (TokenStream.ofSource "namespace A.B { class C {} }").tokens, t.kind ≠ .unknown) ∧
      (TokenStream.ofSource "namespace A.B { class C {} }").insertBehind 1 " " = "namespace A .B { class C {} }" ∧
      (Tree.ofSource "namespace A.B { class C {} }").namespaceName? = some "A.B" ∧
      (Tree.ofSource "namespace A .B { class C {} }").namespaceName? = some "A .B") ∧
    IsLayout "\n" ∧
      (∀ t ∈ (TokenStream.ofSource "namespace N; class A {} /// <x\nclass B {}").tokens, t.kind ≠ .unknown) ∧
      (TokenStream.ofSource "namespace N; class A {} /// <x\nclass B {}").insertBehind 6 "\n" =
        "namespace N; class A {}\n /// <x\nclass B {}" ∧
      ((Tree.ofSource "namespace N; class A {} /// <x\nclass B {}").document .abort).page.map declarationsIn =
        .ok [(.classType, "A"), (.classType, "B")] ∧
      ((Tree.ofSource "namespace N; class A {}\n /// <x\nclass B {}").document .abort).page.mapError
        DocumentError.message =
        .error "class \x60B\x60: malformed documentation comment: invalid name token at 3:1" := by
  refine ⟨⟨.blanks (by decide) (by simp [isSpacing]), ?_, ?_, ?_, ?_⟩,
    .blanks (by decide) (by simp [isLineBreak]), ?_, ?_, ?_, ?_⟩ <;> decide +kernel

end DocPages
