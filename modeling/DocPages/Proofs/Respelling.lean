/-
Tokens written again and read again. A text spells some tokens (`Spells`) if
reading it in front of another text gives just these, whatever the spacing; so do
the texts that tokens of a source are put on one line by (`spells_joined`), and
texts that spell tokens can be put together, with a space between them or where
a separator follows (`Laid`).
-/
import DocPages.Proofs.Spelling
import DocPages.Proofs.TokenEnds
import DocPages.Proofs.Trivia

namespace DocPages.Source

/-! ## Reading without trivia -/

/-- The tokens among some lexemes. -/
def bares (ls : List Lexeme) : List BareToken :=
  ls.filterMap fun l => match l.kind with
    | .token k => some ⟨k, l.text⟩
    | .trivia _ => none

theorem bares_append (ls ms : List Lexeme) : bares (ls ++ ms) = bares ls ++ bares ms :=
  List.filterMap_append

theorem bares_trivia (run : List Trivia) : bares (run.map Trivia.lexeme) = [] := by
  induction run with
  | nil => rfl
  | cons t run ih => exact ih

theorem bares_lexemes_token (t : Token) : bares t.lexemes = [t.bare] := by
  rw [Token.lexemes, bares_append, bares_trivia]
  exact congrArg (t.bare :: ·) (bares_trivia _)

theorem bares_tokens (ts : List Token) : bares (ts.flatMap Token.lexemes) = ts.map Token.bare := by
  induction ts with
  | nil => rfl
  | cons t ts ih =>
    rw [List.flatMap_cons, bares_append, bares_lexemes_token, ih]
    rfl

/-- The tokens of a stream are those among its lexemes. -/
theorem bares_ofLexemes (ls : List Lexeme) : (TokenStream.ofLexemes ls).tokens.map Token.bare = bares ls := by
  conv_rhs => rw [← TokenStream.lexemes_ofLexemes ls]
  rw [TokenStream.lexemes, bares_append, bares_trivia, bares_tokens, List.append_nil]

theorem bares_ofSource (s : String) :
    (TokenStream.ofSource s).tokens.map Token.bare = bares (lexemes s.toList) :=
  bares_ofLexemes _

theorem lexemes_cons {c : Char} {rest : List Char} {kind : LexemeKind} {n : Nat}
    (h : reach c rest = (kind, n)) :
    lexemes (c :: rest) = ⟨kind, String.ofList (c :: rest.take n)⟩ :: lexemes (rest.drop n) := by
  rw [lexemes, h]

theorem bares_spacing {c : Char} (hc : isSpacing c = true) (y : List Char) :
    bares (lexemes (c :: y)) = bares (lexemes (y.drop (countWhile isSpacing y))) := by
  have hreach : reach c y = (.trivia .whitespace, countWhile isSpacing y) := by
    rw [reach, if_pos hc]
  rw [lexemes_cons hreach]
  rfl

/-- A blank or a line break in front of a text does not matter to its tokens. -/
theorem bares_blank {c : Char} (hc : isSpacing c = true ∨ isLineBreak c = true) (y : List Char) :
    bares (lexemes (c :: y)) = bares (lexemes y) := by
  have hfeed : ∀ z, bares (lexemes ('\n' :: z)) = bares (lexemes z) := fun z => by
    rw [lexemes_cons (show reach '\n' z = (.trivia .endOfLine, 0) from rfl)]
    rfl
  rcases hc with hc | hc
  · rw [bares_spacing hc]
    -- The blank is read as one with those behind it.
    cases y with
    | nil => rfl
    | cons d rest =>
      by_cases hd : isSpacing d = true
      · rw [bares_spacing hd, countWhile_cons, if_pos hd, Nat.add_comm, List.drop_succ_cons]
      · rw [countWhile_cons, if_neg hd, List.drop_zero]
  · rw [isLineBreak, Bool.or_eq_true, beq_iff_eq, beq_iff_eq] at hc
    rcases hc with rfl | rfl
    · exact hfeed y
    · by_cases hpair : ['\n'].isPrefixOf y = true
      · -- The two breaks are the end of one line.
        obtain ⟨z, rfl⟩ := List.isPrefixOf_iff_prefix.1 hpair
        have hreach : reach '\r' (['\n'] ++ z) = (.trivia .endOfLine, 1) := rfl
        rw [lexemes_cons hreach]
        exact (hfeed z).symm
      · have hreach : reach '\r' y = (.trivia .endOfLine, 0) := by
          rw [reach_eq]
          exact congrArg (_, ·) (if_neg hpair)
        rw [lexemes_cons hreach]
        rfl

theorem bares_blanks {g : List Char} (hg : ∀ c ∈ g, isSpacing c = true ∨ isLineBreak c = true) (y : List Char) :
    bares (lexemes (g ++ y)) = bares (lexemes y) := by
  induction g with
  | nil => rfl
  | cons c g ih =>
    obtain ⟨hc, hrest⟩ := List.forall_mem_cons.1 hg
    rw [List.cons_append, bares_blank hc, ih hrest]

theorem bares_spaces {g : List Char} (hg : ∀ c ∈ g, c = ' ') (y : List Char) :
    bares (lexemes (g ++ y)) = bares (lexemes y) :=
  bares_blanks (fun c hc => .inl (by rw [hg c hc]; rfl)) y

/-! ## Tokens in front of texts -/

/-- The text of the token is read as the token in front of `x`. -/
def Token.ReadsBefore (t : Token) (x : List Char) : Prop :=
  IsTokenBefore x t.kind t.text.toList

theorem lexemes_of_readsBefore {t : Token} {x : List Char} (h : t.ReadsBefore x) :
    lexemes (t.text.toList ++ x) = t.lexeme :: lexemes x := by
  obtain ⟨c, w, hw⟩ := List.exists_cons_of_ne_nil h.ne_nil
  rw [Token.ReadsBefore, hw] at h
  have htext : String.ofList (c :: w) = t.text := by rw [← hw, String.ofList_toList]
  rw [hw, List.cons_append, lexemes_cons (reach_of_isTokenBefore h), List.take_left, List.drop_left, htext]
  rfl

theorem bares_of_readsBefore {t : Token} {x : List Char} (h : t.ReadsBefore x) :
    bares (lexemes (t.text.toList ++ x)) = t.bare :: bares (lexemes x) := by
  rw [lexemes_of_readsBefore h]
  rfl

/-- Known tokens among the lexemes of a text are read in front of what comes after them. -/
theorem isTokenBefore_of_mem_lexemes {s : List Char} {before after : List Lexeme} {l : Lexeme} {k : TokenKind}
    (h : lexemes s = before ++ l :: after) (hk : l.kind = .token k) (hne : k ≠ .unknown) :
    IsTokenBefore (after.flatMap (·.text.toList)) k l.text.toList := by
  fun_induction lexemes s generalizing before with
  | case1 => simp at h
  | case2 c rest kind n hr ih =>
    cases before with
    | nil =>
      obtain ⟨rfl, rfl⟩ := List.cons.inj h
      obtain rfl : kind = .token k := hk
      obtain ⟨w, x, rfl, rfl, hw⟩ := isTokenRead_of_reach hr hne
      rw [lexemes_join, List.take_left, List.drop_left]
      simpa using hw
    | cons b before => exact ih (List.cons.inj h).2

/-- What the tokens are written as with their trivia. -/
def spelledAll (ts : List Token) : List Char :=
  ts.flatMap (·.spelled.toList)

/-- What stands behind a token in its source, if the tokens `rest` and the text `tail` follow. -/
def sourceBehind (tail : List Char) (t : Token) (rest : List Token) : List Char :=
  (Trivia.spelled t.trailing).toList ++ (spelledAll rest ++ tail)

/-- Each token is read in front of what stands behind it. -/
def ReadFrom (tail : List Char) : List Token → Prop
  | [] => True
  | t :: rest => t.ReadsBefore (sourceBehind tail t rest) ∧ ReadFrom tail rest

theorem ReadFrom.exists_readsBefore {tail : List Char} {ts : List Token} (h : ReadFrom tail ts) :
    ∀ t ∈ ts, ∃ x, t.ReadsBefore x := by
  induction ts with
  | nil => simp
  | cons t ts ih => exact List.forall_mem_cons.2 ⟨⟨_, h.1⟩, ih h.2⟩

/-- Known tokens of a source are read in front of what follows them there. -/
theorem readFrom_of_tokens {source : String} {front ts back : List Token}
    (h : (TokenStream.ofSource source).tokens = front ++ ts ++ back) (hk : ∀ t ∈ ts, t.kind ≠ .unknown) :
    ReadFrom (spelledAll back ++ (Trivia.spelled (TokenStream.ofSource source).tail).toList) ts := by
  induction ts generalizing front with
  | nil => trivial
  | cons t ts ih =>
    obtain ⟨ht, hts⟩ := List.forall_mem_cons.1 hk
    refine ⟨?_, @ih (front ++ [t]) (by simpa using h) hts⟩
    have hlexemes : lexemes source.toList = (TokenStream.ofSource source).lexemes :=
      (TokenStream.lexemes_ofLexemes _).symm
    rw [TokenStream.lexemes, h] at hlexemes
    have hsplit : lexemes source.toList = (front.flatMap Token.lexemes ++ t.leading.map Trivia.lexeme) ++
        t.lexeme :: (t.trailing.map Trivia.lexeme ++ (ts.flatMap Token.lexemes ++ (back.flatMap Token.lexemes ++
          (TokenStream.ofSource source).tail.map Trivia.lexeme))) := by
      simpa [Token.lexemes] using hlexemes
    have hread := isTokenBefore_of_mem_lexemes hsplit rfl ht
    simpa [Token.ReadsBefore, Token.lexeme, sourceBehind, spelledAll, Trivia.spelled_eq, Token.spelled_eq,
      List.flatMap_assoc] using hread

/-! ## Texts that spell tokens -/

/-- The text `s` is read as the tokens `ts`, and has no white space at its ends. What follows must not go on with
the last of the tokens, nor with a decimal point. -/
structure Spells (s : List Char) (ts : List Token) : Prop where
  reads : ∀ y, (∀ t, ts.getLast? = some t → t.ReadsBefore y) → (∀ c, y.head? = some c → c.isDigit = false) →
    bares (lexemes (s ++ y)) = ts.map Token.bare ++ bares (lexemes y)
  known : ∀ t ∈ ts, ∃ x, t.ReadsBefore x
  first : ∀ c, s.head? = some c → Unicode.isBlank c = false
  last : ∀ c, s.getLast? = some c → Unicode.isBlank c = false
  nil_iff : s = [] ↔ ts = []

theorem isDigit_of_isSeparator {c : Char} (h : isSeparator c = true) : c.isDigit = false :=
  by simpa using forall_isSeparator (p := fun c => !c.isDigit) (by decide) h

namespace Spells

variable {s s' : List Char} {ts ts' : List Token}

theorem nil : Spells [] [] where
  reads _ _ _ := rfl
  known := by simp
  first := by simp
  last := by simp
  nil_iff := by simp

theorem token {t : Token} (h : ∃ x, t.ReadsBefore x) : Spells t.text.toList [t] where
  reads y hy _ := bares_of_readsBefore (hy t rfl)
  known := by simpa using h
  first c hc := by
    obtain ⟨x, hx⟩ := h
    exact hx.head_not_blank hc
  last c hc := by
    obtain ⟨x, hx⟩ := h
    exact hx.last_not_blank hc
  nil_iff := by
    obtain ⟨x, hx⟩ := h
    simp [hx.ne_nil]

/-- The last token may be followed by a separator. -/
theorem readsBefore_separator (h : Spells s ts) {c : Char} (hc : isSeparator c = true) (y : List Char)
    (t : Token) (ht : ts.getLast? = some t) : t.ReadsBefore (c :: y) := by
  obtain ⟨x, hx⟩ := h.known t (List.mem_of_getLast? ht)
  exact IsTokenBefore.standsFor hx (standsFor_separator hc)

/-- The text is read as its tokens at the end of a source. -/
theorem bares_end (h : Spells s ts) : bares (lexemes s) = ts.map Token.bare := by
  have hlast : ∀ t, ts.getLast? = some t → t.ReadsBefore [] := fun t ht => by
    obtain ⟨x, hx⟩ := h.known t (List.mem_of_getLast? ht)
    exact IsTokenBefore.standsFor hx standsFor_nil
  have hreads := h.reads [] hlast (by simp)
  simpa [lexemes, bares] using hreads

/-- Two texts one right after the other, where the second cannot go on with the last token of the first. -/
theorem tight (h : Spells s ts) (h' : Spells s' ts') (hne : s' ≠ [])
    (hjoint : ∀ y t, ts.getLast? = some t → t.ReadsBefore (s' ++ y))
    (hdigit : ∀ c, s'.head? = some c → c.isDigit = false) : Spells (s ++ s') (ts ++ ts') where
  reads y hy hd := by
    have hne' : ts' ≠ [] := fun he => hne (h'.nil_iff.2 he)
    have hlast : ∀ t, ts'.getLast? = some t → t.ReadsBefore y := fun t ht =>
      hy t (by rw [List.getLast?_append_of_ne_nil _ hne', ht])
    have hhead : ∀ c, (s' ++ y).head? = some c → c.isDigit = false := fun c hc =>
      hdigit c (by rwa [List.head?_append_of_ne_nil _ hne] at hc)
    rw [List.append_assoc, h.reads (s' ++ y) (hjoint y) hhead, h'.reads y hlast hd, List.map_append,
      List.append_assoc]
  known t ht := (List.mem_append.1 ht).elim (h.known t) (h'.known t)
  first c hc := by
    cases s with
    | nil => exact h'.first c hc
    | cons d s => exact h.first c hc
  last c hc := h'.last c (by rwa [List.getLast?_append_of_ne_nil _ hne] at hc)
  nil_iff := by simp [h.nil_iff, h'.nil_iff]

/-- Two texts one right after the other, where the second begins with a separator. -/
theorem separated (h : Spells s ts) (h' : Spells s' ts') {c : Char} {w : List Char} (hw : s' = c :: w)
    (hc : isSeparator c = true) : Spells (s ++ s') (ts ++ ts') := by
  subst hw
  refine h.tight h' (List.cons_ne_nil c w) (fun y t => h.readsBefore_separator hc (w ++ y) t) ?_
  rintro d ⟨⟩
  exact isDigit_of_isSeparator hc

/-- Two texts with spaces between them. -/
theorem spaced (h : Spells s ts) (h' : Spells s' ts') {g : List Char} (hg : ∀ c ∈ g, c = ' ') (hne : g ≠ [])
    (hs : s ≠ []) (hs' : s' ≠ []) : Spells (s ++ (g ++ s')) (ts ++ ts') where
  reads y hy hd := by
    obtain ⟨c, g', rfl⟩ := List.exists_cons_of_ne_nil hne
    obtain rfl : c = ' ' := hg c List.mem_cons_self
    have hne' : ts' ≠ [] := fun he => hs' (h'.nil_iff.2 he)
    have hlast : ∀ t, ts'.getLast? = some t → t.ReadsBefore y := fun t ht =>
      hy t (by rw [List.getLast?_append_of_ne_nil _ hne', ht])
    have hspace : ∀ t, ts.getLast? = some t → t.ReadsBefore (' ' :: (g' ++ (s' ++ y))) :=
      h.readsBefore_separator rfl _
    have hhead : ∀ c, (' ' :: (g' ++ (s' ++ y))).head? = some c → c.isDigit = false := by
      rintro c ⟨⟩
      rfl
    have htext : s ++ (' ' :: g' ++ s') ++ y = s ++ ' ' :: (g' ++ (s' ++ y)) := by simp
    rw [htext, h.reads _ hspace hhead, ← List.cons_append, bares_spaces hg, h'.reads y hlast hd,
      List.map_append, List.append_assoc]
  known t ht := (List.mem_append.1 ht).elim (h.known t) (h'.known t)
  first c hc := h.first c (by rwa [List.head?_append_of_ne_nil _ hs] at hc)
  last c hc := by
    have hne' : g ++ s' ≠ [] := by simp [hs']
    rw [List.getLast?_append_of_ne_nil _ hne', List.getLast?_append_of_ne_nil _ hs'] at hc
    exact h'.last c hc
  nil_iff := by
    have := h.nil_iff
    have := h'.nil_iff
    simp_all

end Spells

/-! ## Tokens on one line -/

/-- What stands behind a token on one line, if the tokens `rest` and the text `y` follow. -/
def lineBehind (y : List Char) (t : Token) : List Token → List Char
  | [] => y
  | u :: rest => (t.gap u).toList ++ ((Token.joined (u :: rest)).toList ++ y)

theorem joined_append (y : List Char) (t : Token) (rest : List Token) :
    (Token.joined (t :: rest)).toList ++ y = t.text.toList ++ lineBehind y t rest := by
  cases rest with
  | nil => rfl
  | cons u rest => simp [Token.joined_cons, lineBehind]

theorem gap_cases (t u : Token) : t.gap u = " " ∨ t.gap u = "" ∧ t.trailing = [] ∧ u.leading = [] := by
  unfold Token.gap
  by_cases h : (t.trailing.isEmpty && u.leading.isEmpty) = true
  · rw [if_pos h]
    simpa using h
  · rw [if_neg h]
    exact .inl rfl

section

variable {tail y : List Char} {t u : Token} {rest : List Token}

/-- Tokens with nothing between them in the source have nothing between them on one line. -/
theorem behind_of_tight (tail y : List Char) (rest : List Token) (hg : t.gap u = "") (ht : t.trailing = [])
    (hu : u.leading = []) :
    lineBehind y t (u :: rest) = u.text.toList ++ lineBehind y u rest ∧
    sourceBehind tail t (u :: rest) = u.text.toList ++ sourceBehind tail u rest := by
  refine ⟨?_, ?_⟩
  · show (t.gap u).toList ++ ((Token.joined (u :: rest)).toList ++ y) = _
    rw [hg, joined_append]
    rfl
  · have htrivia : (Trivia.spelled []).toList = [] := rfl
    simp [sourceBehind, spelledAll, Token.spelled, ht, hu, htrivia]

/-- A digit that stands behind a token on one line stands there in the source. -/
theorem digit_behind (hr : ReadFrom tail rest) (hy : ∀ c, y.head? = some c → c.isDigit = false) {d : Char}
    (hd : (lineBehind y t rest).head? = some d) (hdigit : d.isDigit = true) :
    (sourceBehind tail t rest).head? = some d := by
  cases rest with
  | nil =>
    have := hy d hd
    simp [hdigit] at this
  | cons u rest =>
    rcases gap_cases t u with hg | ⟨hg, ht, hu⟩
    · simp only [lineBehind, hg] at hd
      obtain rfl : ' ' = d := by simpa using hd
      cases hdigit
    · obtain ⟨hline, hsource⟩ := behind_of_tight tail y rest hg ht hu
      have hne : u.text.toList ≠ [] := hr.1.ne_nil
      rw [hline, List.head?_append_of_ne_nil _ hne] at hd
      rw [hsource, List.head?_append_of_ne_nil _ hne, hd]

/-- On one line, what stands behind a token goes on with it no more than in the source. -/
theorem standsFor_behind (hr : ReadFrom tail (u :: rest)) (hy : ∀ c, y.head? = some c → c.isDigit = false) :
    StandsFor (lineBehind y t (u :: rest)) (sourceBehind tail t (u :: rest)) := by
  rcases gap_cases t u with hg | ⟨hg, ht, hu⟩
  · simp only [lineBehind, hg]
    exact standsFor_separator rfl
  · obtain ⟨hline, hsource⟩ := behind_of_tight tail y rest hg ht hu
    rw [hline, hsource]
    exact standsFor_append hr.1.ne_nil fun d hd hdigit => digit_behind hr.2 hy hd hdigit

end

/-- **Tokens of a source on one line are read as the same tokens.** -/
theorem spells_joined {tail : List Char} {ts : List Token} (h : ReadFrom tail ts) :
    Spells (Token.joined ts).toList ts := by
  induction ts with
  | nil => exact .nil
  | cons t rest ih =>
    cases rest with
    | nil => exact .token ⟨_, h.1⟩
    | cons u rest =>
      have hrest := ih h.2
      have htext : (Token.joined (t :: u :: rest)).toList =
          t.text.toList ++ ((t.gap u).toList ++ (Token.joined (u :: rest)).toList) := by
        simp [Token.joined_cons]
      have hne : (Token.joined (u :: rest)).toList ≠ [] := fun he => by simp [hrest.nil_iff] at he
      have hgap : ∀ c ∈ (t.gap u).toList, c = ' ' := by
        rcases gap_cases t u with hg | ⟨hg, -, -⟩ <;> simp [hg]
      have hreads : ∀ y, (∀ c, y.head? = some c → c.isDigit = false) →
          t.ReadsBefore (lineBehind y t (u :: rest)) := fun y hy =>
        IsTokenBefore.standsFor h.1 (standsFor_behind h.2 hy)
      refine ⟨fun y hlast hy => ?_, h.exists_readsBefore, fun c hc => ?_, fun c hc => ?_, ?_⟩
      · rw [joined_append, bares_of_readsBefore (hreads y hy), lineBehind, bares_spaces hgap,
          hrest.reads y (fun v hv => hlast v (by rwa [List.getLast?_cons_cons])) hy]
        rfl
      · rw [htext, List.head?_append_of_ne_nil _ h.1.ne_nil] at hc
        exact h.1.head_not_blank hc
      · have hne' : (t.gap u).toList ++ (Token.joined (u :: rest)).toList ≠ [] := by simp [hne]
        rw [htext, List.getLast?_append_of_ne_nil _ hne', List.getLast?_append_of_ne_nil _ hne] at hc
        exact hrest.last c hc
      · rw [htext]
        simp [hne]

/-! ## Texts in the making -/

open Unicode (trimEnd_blanks trimEnd_of_getLast? trim_between)

theorem isBlank_of_space {g : List Char} (hg : ∀ c ∈ g, c = ' ') : ∀ c ∈ g, Unicode.isBlank c = true :=
  fun c hc => by
    rw [hg c hc]
    decide

/-- The text is read as the tokens `ts`, and has no white space at its ends but spaces. -/
def Laid (out : String) (ts : List Token) : Prop :=
  ∃ lead s gap, out.toList = lead ++ (s ++ gap) ∧ (∀ c ∈ lead, c = ' ') ∧ (∀ c ∈ gap, c = ' ') ∧ Spells s ts

namespace Laid

variable {out text : String} {ts ts' : List Token}

theorem of_spells (h : Spells text.toList ts) : Laid text ts :=
  ⟨[], text.toList, [], by simp, by simp, by simp, h⟩

theorem mem_space {g : List Char} (hg : ∀ c ∈ g, c = ' ') : ∀ c ∈ g ++ [' '], c = ' ' := by
  intro c hc
  simp only [List.mem_append, List.mem_singleton] at hc
  exact hc.elim (hg c) id

theorem space (h : Laid out ts) : Laid (out ++ " ") ts := by
  obtain ⟨lead, s, gap, ho, hl, hg, hs⟩ := h
  exact ⟨lead, s, gap ++ [' '], by simp [ho], hl, mem_space hg, hs⟩

/-- A further text behind a space. -/
theorem part (h : Laid out ts) (h' : Spells text.toList ts') : Laid (out ++ " " ++ text) (ts ++ ts') := by
  by_cases htext : text.toList = []
  · have hts : ts' = [] := h'.nil_iff.1 htext
    have hout : out ++ " " ++ text = out ++ " " := by
      apply String.toList_injective
      simp [htext]
    rw [hts, hout, List.append_nil]
    exact h.space
  obtain ⟨lead, s, gap, ho, hl, hg, hs⟩ := h
  by_cases hsne : s = []
  · have hts : ts = [] := hs.nil_iff.1 hsne
    refine ⟨lead ++ (gap ++ [' ']), text.toList, [], by simp [ho, hsne], fun c hc => ?_, by simp, hts ▸ h'⟩
    exact (List.mem_append.1 hc).elim (hl c) (mem_space hg c)
  · refine ⟨lead, s ++ ((gap ++ [' ']) ++ text.toList), [], by simp [ho], hl, by simp, ?_⟩
    exact hs.spaced h' (mem_space hg) (by simp) hsne htext

/-- A further text that begins with a separator, in place of the spaces at the end. -/
theorem trimmedPart (h : Laid out ts) (h' : Spells text.toList ts') {c : Char} {w : List Char}
    (ht : text.toList = c :: w) (hc : isSeparator c = true) : Laid (endTrimmed out ++ text) (ts ++ ts') := by
  obtain ⟨lead, s, gap, ho, hl, hg, hs⟩ := h
  have hout : (endTrimmed out).toList = Unicode.trimEnd (lead ++ s) := by
    rw [endTrimmed, String.toList_ofList, ho, ← List.append_assoc, trimEnd_blanks (isBlank_of_space hg)]
  by_cases hsne : s = []
  · have hts : ts = [] := hs.nil_iff.1 hsne
    have hempty : (endTrimmed out).toList = [] := by
      rw [hout, hsne, List.append_nil, ← List.nil_append lead, trimEnd_blanks (isBlank_of_space hl)]
      rfl
    refine ⟨[], text.toList, [], by simp [hempty], by simp, by simp, hts ▸ h'⟩
  · have hkept : (endTrimmed out).toList = lead ++ s := by
      rw [hout]
      refine trimEnd_of_getLast? fun d hd => hs.last d ?_
      rwa [List.getLast?_append_of_ne_nil _ hsne] at hd
    exact ⟨lead, s ++ text.toList, [], by simp [hkept], hl, by simp, hs.separated h' ht hc⟩

/-- **A text that tokens are laid out in is read as these tokens when it is trimmed.** -/
theorem bares_trimmed (h : Laid out ts) :
    (TokenStream.ofSource (trimmed out)).tokens.map Token.bare = ts.map Token.bare := by
  obtain ⟨lead, s, gap, ho, hl, hg, hs⟩ := h
  have htrim : (trimmed out).toList = s := by
    rw [trimmed, String.toList_ofList, ho]
    exact trim_between (isBlank_of_space hl) (isBlank_of_space hg) hs.first hs.last
  rw [bares_ofSource, htrim, hs.bares_end]

end Laid

end DocPages.Source
