/-
What lexing keeps of a source. The tokens with the trivia around them, and the
trivia that no token owns, are the lexemes of the source in their order
(`TokenStream.lexemes_ofLexemes`), so what they spell is the source. Trivia are
placed by lines (`TokenStream.Placed`): the end of a line closes what trails a
token, and only behind it does anything lead the next one.
-/
import Mathlib.Data.List.Chain
import DocPages.Proofs.Lexing
import DocPages.Source.Token

namespace DocPages.Source

/-! ## The lexemes of a stream -/

def Trivia.lexeme (t : Trivia) : Lexeme :=
  ⟨.trivia t.kind, t.text⟩

def Token.lexeme (t : Token) : Lexeme :=
  ⟨.token t.kind, t.text⟩

/-- A token and the trivia around it, in their order. -/
def Token.lexemes (t : Token) : List Lexeme :=
  t.leading.map Trivia.lexeme ++ t.lexeme :: t.trailing.map Trivia.lexeme

/-- Everything in a stream, in its order. -/
def TokenStream.lexemes (s : TokenStream) : List Lexeme :=
  s.tokens.flatMap Token.lexemes ++ s.tail.map Trivia.lexeme

/-- The lexemes before a token, those of the token with its trivia, and those behind. -/
theorem TokenStream.lexemes_split (s : TokenStream) {i : Nat} (hi : i < s.tokens.length) :
    s.lexemes = (s.tokens.take i).flatMap Token.lexemes ++ (s.tokens[i].lexemes ++
      ((s.tokens.drop (i + 1)).flatMap Token.lexemes ++ s.tail.map Trivia.lexeme)) := by
  have htokens : s.tokens = s.tokens.take i ++ s.tokens[i] :: s.tokens.drop (i + 1) :=
    (List.take_append_drop i _).symm.trans (congrArg _ (List.drop_eq_getElem_cons hi))
  have hflat := congrArg (List.flatMap Token.lexemes) htokens
  rw [List.flatMap_append, List.flatMap_cons] at hflat
  rw [TokenStream.lexemes, hflat, List.append_assoc, List.append_assoc]

/-- The lexemes of a run of trivia behind a token. -/
def runLexemes (r : BareToken × List Trivia) : List Lexeme :=
  ⟨.token r.1.kind, r.1.text⟩ :: r.2.map Trivia.lexeme

theorem lexemes_runs (ls : List Lexeme) :
    (runs ls).1.map Trivia.lexeme ++ (runs ls).2.flatMap runLexemes = ls := by
  induction ls with
  | nil => rfl
  | cons l rest ih =>
    obtain ⟨kind, text⟩ := l
    cases kind with
    | trivia kind => exact congrArg (⟨.trivia kind, text⟩ :: ·) ih
    | token kind => exact congrArg (⟨.token kind, text⟩ :: ·) ih

theorem lexemes_attach (leading : List Trivia) (rs : List (BareToken × List Trivia)) :
    (attach leading rs).lexemes = leading.map Trivia.lexeme ++ rs.flatMap runLexemes := by
  induction rs generalizing leading with
  | nil => simp [attach, TokenStream.lexemes]
  | cons r rest ih =>
    obtain ⟨t, run⟩ := r
    have hrest := ih (afterLine run)
    have hrun : run.map Trivia.lexeme =
        (lineOf run).map Trivia.lexeme ++ (afterLine run).map Trivia.lexeme := by
      rw [← List.map_append, lineOf_append_afterLine]
    simp only [TokenStream.lexemes] at hrest
    simp only [attach, TokenStream.lexemes, List.flatMap_cons, List.append_assoc, hrest, Token.lexemes,
      Token.lexeme, runLexemes, hrun, List.cons_append]

/-- Nothing is lost or moved on the way from lexemes to tokens. -/
theorem TokenStream.lexemes_ofLexemes (ls : List Lexeme) : (TokenStream.ofLexemes ls).lexemes = ls := by
  have h := lexemes_attach (runs ls).1 (runs ls).2
  rw [lexemes_runs] at h
  exact h

/-! ## Texts -/

/-- The texts of some trivia, one after the other. -/
def Trivia.spelled (run : List Trivia) : String :=
  String.join (run.map (·.text))

/-- The text of a token between those of its trivia. -/
def Token.spelled (t : Token) : String :=
  Trivia.spelled t.leading ++ t.text ++ Trivia.spelled t.trailing

def TokenStream.spelled (s : TokenStream) : String :=
  String.join (s.tokens.map Token.spelled) ++ Trivia.spelled s.tail

theorem Trivia.spelled_eq (run : List Trivia) :
    (Trivia.spelled run).toList = (run.map Trivia.lexeme).flatMap (·.text.toList) := by
  simp [Trivia.spelled, String.toList_join, List.flatMap_map, Trivia.lexeme]

theorem Token.spelled_eq (t : Token) : t.spelled.toList = t.lexemes.flatMap (·.text.toList) := by
  simp [Token.spelled, Token.lexemes, Trivia.spelled_eq, Token.lexeme]

theorem TokenStream.spelled_eq (s : TokenStream) : s.spelled.toList = s.lexemes.flatMap (·.text.toList) := by
  have htokens : (String.join (s.tokens.map Token.spelled)).toList =
      (s.tokens.flatMap Token.lexemes).flatMap (·.text.toList) := by
    simp only [String.toList_join, List.flatMap_map, List.flatMap_assoc, Token.spelled_eq]
  simp only [TokenStream.spelled, TokenStream.lexemes, String.toList_append, htokens, Trivia.spelled_eq,
    List.flatMap_append]

/-- What stands between two tokens where texts are put on one line. -/
def Token.gap (t u : Token) : String :=
  if t.trailing.isEmpty && u.leading.isEmpty then "" else " "

theorem Token.joined_cons (t u : Token) (ts : List Token) :
    Token.joined (t :: u :: ts) = t.text ++ t.gap u ++ Token.joined (u :: ts) :=
  rfl

/-! ## Places of trivia -/

/-- The run goes on to the end of a line. -/
def EndsLine (run : List Trivia) : Prop :=
  ∃ e, run.getLast? = some e ∧ e.kind = .endOfLine

/-- All trivia of a stream, those that no token owns included. -/
def TokenStream.trivia (s : TokenStream) : List Trivia :=
  s.tokens.flatMap (fun t => t.leading ++ t.trailing) ++ s.tail

/-- Trivia stand where the lines of the source put them. -/
structure TokenStream.Placed (s : TokenStream) : Prop where
  line : ∀ t ∈ s.tokens, ∀ e ∈ t.trailing.dropLast, e.kind ≠ .endOfLine
  leading : s.tokens.IsChain fun t u => u.leading ≠ [] → EndsLine t.trailing
  tail : ∀ t, s.tokens.getLast? = some t → s.tail ≠ [] → EndsLine t.trailing
  breaks : ∀ e ∈ s.trivia, e.kind ≠ .endOfLine → ∀ c ∈ e.text.toList, isLineBreak c = false

theorem kind_of_mem_dropLast_lineOf {run : List Trivia} {e : Trivia} (h : e ∈ (lineOf run).dropLast) :
    e.kind ≠ .endOfLine := by
  induction run with
  | nil => simp [lineOf] at h
  | cons t rest ih =>
    unfold lineOf at h
    split at h
    · simp at h
    · next ht =>
      cases hl : lineOf rest with
      | nil => simp [hl] at h
      | cons u us =>
        rw [hl] at h ih
        rcases List.mem_cons.1 h with rfl | h
        · exact ht
        · exact ih h

/-- Where something is left of a run after its first line, that line is ended. -/
theorem endsLine_lineOf {run : List Trivia} (h : afterLine run ≠ []) : EndsLine (lineOf run) := by
  induction run with
  | nil => exact absurd rfl h
  | cons t rest ih =>
    unfold afterLine at h
    unfold lineOf
    split
    · next ht => exact ⟨t, rfl, ht⟩
    · next ht =>
      rw [if_neg ht] at h
      obtain ⟨e, he, hk⟩ := ih h
      exact ⟨e, by simp [List.getLast?_cons, he], hk⟩

section

variable (leading : List Trivia) (rs : List (BareToken × List Trivia))

theorem line_attach : ∀ t ∈ (attach leading rs).tokens, ∀ e ∈ t.trailing.dropLast, e.kind ≠ .endOfLine := by
  induction rs generalizing leading with
  | nil => simp [attach]
  | cons r rest ih =>
    intro t ht
    rcases List.mem_cons.1 ht with rfl | ht
    · exact fun e he => kind_of_mem_dropLast_lineOf he
    · exact ih _ t ht

theorem leading_of_head? {t : Token} (h : (attach leading rs).tokens.head? = some t) :
    t.leading = leading := by
  cases rs with
  | nil => simp [attach] at h
  | cons r rest =>
    obtain rfl := Option.some.inj h
    rfl

theorem leading_attach :
    (attach leading rs).tokens.IsChain fun t u => u.leading ≠ [] → EndsLine t.trailing := by
  induction rs generalizing leading with
  | nil => exact .nil
  | cons r rest ih =>
    refine .cons (ih _) fun u hu hne => ?_
    rw [leading_of_head? _ _ hu] at hne
    exact endsLine_lineOf hne

theorem tail_attach {t : Token} (h : (attach leading rs).tokens.getLast? = some t)
    (hne : (attach leading rs).tail ≠ []) : EndsLine t.trailing := by
  induction rs generalizing leading with
  | nil => simp [attach] at h
  | cons r rest ih =>
    cases rest with
    | nil =>
      obtain rfl := Option.some.inj h
      exact endsLine_lineOf hne
    | cons r' rest => exact ih _ (by simpa [attach, List.getLast?_cons] using h) hne

end

/-! ## Line breaks in trivia -/

theorem isLineBreak_of_mem_lineLength {s : List Char} {c : Char} (h : c ∈ s.take (lineLength s)) :
    isLineBreak c = false := by
  simpa using (countWhile_spec _ s).1 c h

/-- The ways in which trivia begin and how far they go. -/
inductive TriviaReach (c : Char) (rest : List Char) : TriviaKind → Nat → Prop where
  | whitespace (h : isSpacing c = true) : TriviaReach c rest .whitespace (countWhile isSpacing rest)
  | endOfLine {n : Nat} (h : isLineBreak c = true) : TriviaReach c rest .endOfLine n
  | directive (h : c = '#') : TriviaReach c rest .directive (lineLength rest)
  | comment {k : TriviaKind} (h : c = '/') (hk : k = .lineComment ∨ k = .docComment) :
      TriviaReach c rest k (lineLength rest)

theorem slashReach_trivia {rest : List Char} {k : TriviaKind} {n : Nat}
    (h : slashReach rest = (.trivia k, n)) : (k = .lineComment ∨ k = .docComment) ∧ n = lineLength rest := by
  unfold slashReach at h
  split at h
  · cases h
    refine ⟨?_, rfl⟩
    split
    · exact .inr rfl
    · exact .inl rfl
  · cases h
  · cases h

theorem quoteReach_ne_trivia (rest : List Char) (k : TriviaKind) (n : Nat) :
    quoteReach rest ≠ (.trivia k, n) := by
  unfold quoteReach
  split <;> nofun

theorem atReach_ne_trivia (rest : List Char) (k : TriviaKind) (n : Nat) :
    atReach rest ≠ (.trivia k, n) := by
  unfold atReach
  repeat' split
  all_goals nofun

theorem dollarReach_ne_trivia (rest : List Char) (k : TriviaKind) (n : Nat) :
    dollarReach rest ≠ (.trivia k, n) := by
  unfold dollarReach
  split <;> nofun

/-- Only blanks, breaks, hash marks and slashes begin trivia. -/
theorem triviaReach_of_reach {c : Char} {rest : List Char} {k : TriviaKind} {n : Nat}
    (h : reach c rest = (.trivia k, n)) : TriviaReach c rest k n := by
  have hc := opener_holds c
  rw [reach_eq] at h
  cases ho : opener c <;> rw [ho] at hc h
  case spacing =>
    cases h
    exact .whitespace hc
  case lineFeed =>
    cases h
    exact .endOfLine (by rw [show c = '\n' from hc]; rfl)
  case carriageReturn =>
    cases h
    exact .endOfLine (by rw [show c = '\r' from hc]; rfl)
  case hash =>
    cases h
    exact .directive hc
  case slash =>
    obtain ⟨hk, rfl⟩ := slashReach_trivia h
    exact .comment hc hk
  case quote => exact absurd h (quoteReach_ne_trivia rest k n)
  case «at» => exact absurd h (atReach_ne_trivia rest k n)
  case dollar => exact absurd h (dollarReach_ne_trivia rest k n)
  case equals =>
    simp only [Opener.reach] at h
    split at h <;> cases h
  all_goals cases h

theorem isSpacing_ne_lineBreak {c : Char} (h : isSpacing c = true) : isLineBreak c = false := by
  simp only [isSpacing, Bool.or_eq_true, beq_iff_eq] at h
  rcases h with (rfl | rfl) | rfl <;> rfl

/-- Trivia other than the end of a line stay on their line. -/
theorem isLineBreak_of_reach {c d : Char} {rest : List Char} {k : TriviaKind} {n : Nat}
    (h : reach c rest = (.trivia k, n)) (hk : k ≠ .endOfLine) (hd : d ∈ c :: rest.take n) :
    isLineBreak d = false := by
  cases triviaReach_of_reach h with
  | whitespace hc =>
    rcases List.mem_cons.1 hd with rfl | hd
    · exact isSpacing_ne_lineBreak hc
    · exact isSpacing_ne_lineBreak ((countWhile_spec _ _).1 _ hd)
  | endOfLine => exact absurd rfl hk
  | directive hc =>
    rcases List.mem_cons.1 hd with rfl | hd
    · rw [hc]; rfl
    · exact isLineBreak_of_mem_lineLength hd
  | comment hc =>
    rcases List.mem_cons.1 hd with rfl | hd
    · rw [hc]; rfl
    · exact isLineBreak_of_mem_lineLength hd

theorem isLineBreak_of_mem_lexemes {s : List Char} {l : Lexeme} {k : TriviaKind} (hl : l ∈ lexemes s)
    (hk : l.kind = .trivia k) (hne : k ≠ .endOfLine) : ∀ c ∈ l.text.toList, isLineBreak c = false := by
  fun_induction lexemes s with
  | case1 => cases hl
  | case2 c rest kind n hr ih =>
    rcases List.mem_cons.1 hl with rfl | hl
    · intro d hd
      have hreach : reach c rest = (.trivia k, n) := hr.trans (congrArg (·, n) hk)
      exact isLineBreak_of_reach hreach hne (by simpa using hd)
    · exact ih hl

/-! ## Streams of sources -/

theorem TokenStream.lexeme_mem_of_trivia {s : TokenStream} {e : Trivia} (h : e ∈ s.trivia) :
    e.lexeme ∈ s.lexemes := by
  rw [TokenStream.trivia, List.mem_append, List.mem_flatMap] at h
  rw [TokenStream.lexemes, List.mem_append, List.mem_flatMap]
  rcases h with ⟨t, ht, he⟩ | h
  · refine .inl ⟨t, ht, ?_⟩
    rw [Token.lexemes, List.mem_append, List.mem_cons]
    rcases List.mem_append.1 he with he | he
    · exact .inl (List.mem_map_of_mem he)
    · exact .inr (.inr (List.mem_map_of_mem he))
  · exact .inr (List.mem_map_of_mem h)

/-- **Lexing loses nothing and puts trivia in their places.** What is in the stream of a source are the lexemes
of the source in their order, so the stream spells the source; the end of a line is at most the last of the trivia
behind a token, only behind one that has it there is anything in front of the next or left over at the end, and no
other trivia break a line. -/
theorem TokenStream.ofSource_lossless (source : String) :
    (TokenStream.ofSource source).lexemes = Source.lexemes source.toList ∧
    (TokenStream.ofSource source).spelled = source ∧
    (TokenStream.ofSource source).Placed := by
  have hlexemes : (TokenStream.ofSource source).lexemes = Source.lexemes source.toList :=
    lexemes_ofLexemes _
  refine ⟨hlexemes, ?_, ?_⟩
  · apply String.toList_injective
    rw [spelled_eq, hlexemes, lexemes_join]
  · exact {
      line := line_attach _ _
      leading := leading_attach _ _
      tail := fun t ht hne => tail_attach _ _ ht hne
      breaks := fun e he hk => by
        have hmem := lexeme_mem_of_trivia he
        rw [hlexemes] at hmem
        exact isLineBreak_of_mem_lexemes hmem rfl hk }

/-- A comment behind a token ends with its line, and the next one leads. -/
example : TokenStream.ofSource "a //x\n#b\nc" =
    ⟨[⟨.ident, "a", [], [⟨.whitespace, " "⟩, ⟨.lineComment, "//x"⟩, ⟨.endOfLine, "\n"⟩]⟩,
      ⟨.ident, "c", [⟨.directive, "#b"⟩, ⟨.endOfLine, "\n"⟩], []⟩], []⟩ := by
  decide +kernel

end DocPages.Source
