/-
Block comments. There is a kind of trivia for them, but no text is read as one
(`kind_ne_blockComment`). A slash and a star begin an unknown token, which goes on
to the first star that a slash follows, whatever stands before it
(`starredReach_body`), and the slash is a token of its own. So a comment put in
behind a token hides what is in it and changes no other token, but it is read as
two tokens itself (`blockComment_readAsTokens`).
-/
import DocPages.Proofs.Reformatting

namespace DocPages.Source

/-! ## The extent of a comment -/

/-- A comment goes on to the first star that a slash follows. The star in front of the body, if there is one, counts
as part of it. -/
theorem starredReach_body {starred : Bool} {body : List Char}
    (h : ¬ ['*', '/'] <:+: (if starred then '*' :: body else body)) (y : List Char) :
    starredReach starred (body ++ '*' :: '/' :: y) = body.length + 1 := by
  induction body generalizing starred with
  | nil => simp [starredReach]
  | cons d body ih =>
    have hopen : ¬ (d = '/' && starred) = true := fun he => by
      obtain ⟨hd, rfl⟩ : d = '/' ∧ starred = true := by simpa using he
      exact h ⟨[], body, by simp [hd]⟩
    have hsuffix : d :: body <:+ (if starred then '*' :: d :: body else d :: body) := by
      split
      · exact List.suffix_cons _ _
      · exact List.suffix_rfl
    have hbody : ¬ ['*', '/'] <:+: (if d == '*' then '*' :: body else body) := fun hin => by
      refine h (List.IsInfix.trans ?_ hsuffix.isInfix)
      by_cases hd : d = '*'
      · rwa [hd] at hin ⊢
      · have hne : (d == '*') = false := by simpa using hd
        rw [hne] at hin
        exact hin.trans (List.suffix_cons d body).isInfix
    rw [List.cons_append, starredReach, if_neg hopen, ih hbody, List.length_cons]
    omega

/-- In front of a blank, a comment is read as an unknown token and the slash that it ends with. -/
theorem lexemes_blockComment {body : List Char} (h : ¬ ['*', '/'] <:+: body) (y : List Char) :
    lexemes ('/' :: '*' :: (body ++ '*' :: '/' :: ' ' :: y)) =
      ⟨.token .unknown, String.ofList ('/' :: '*' :: (body ++ ['*']))⟩ :: ⟨.token .punct, "/"⟩ ::
        lexemes (' ' :: y) := by
  have hread : reach '/' ('*' :: (body ++ '*' :: '/' :: ' ' :: y)) =
      (.token .unknown, ('*' :: (body ++ ['*'])).length) := by
    have hopen : ¬ ['*', '/'] <:+: (if false = true then '*' :: body else body) := h
    have hreach := starredReach_body hopen (' ' :: y)
    rw [reach_eq]
    show (LexemeKind.token .unknown, 1 + starredReach false (body ++ '*' :: '/' :: ' ' :: y)) = _
    rw [hreach, List.length_cons, List.length_append, List.length_singleton, Nat.add_comm]
  have hsplit : '*' :: (body ++ '*' :: '/' :: ' ' :: y) = '*' :: (body ++ ['*']) ++ '/' :: ' ' :: y := by simp
  have hslash : reach '/' (' ' :: y) = (.token .punct, 0) := by
    rw [reach_eq]
    rfl
  rw [lexemes_cons hread, hsplit, List.take_left, List.drop_left, lexemes_cons hslash]
  rfl

/-! ## A comment behind a token -/

theorem adds_blockComment {c : String} (hc : ¬ "*/".toList <:+: c.toList) :
    Adds (" /*" ++ c ++ "*/ ").toList [⟨.unknown, "/*" ++ c ++ "*"⟩, ⟨.punct, "/"⟩] where
  tokens y := by
    have htext : (" /*" ++ c ++ "*/ ").toList ++ y =
        ' ' :: '/' :: '*' :: (c.toList ++ '*' :: '/' :: ' ' :: y) := by simp
    have hunknown : String.ofList ('/' :: '*' :: (c.toList ++ ['*'])) = "/*" ++ c ++ "*" := by
      apply String.toList_injective
      simp
    rw [htext, bares_blank (.inl rfl), lexemes_blockComment hc, hunknown, ← bares_blank (c := ' ') (.inl rfl) y]
    rfl
  separates := ⟨' ', '/' :: '*' :: (c.toList ++ ['*', '/', ' ']), by simp, rfl⟩

/-- No text is read as a block comment. -/
theorem kind_ne_blockComment {s : List Char} {l : Lexeme} (hl : l ∈ lexemes s) :
    l.kind ≠ .trivia .blockComment := by
  fun_induction lexemes s with
  | case1 => cases hl
  | case2 c rest kind n hr ih =>
    rcases List.mem_cons.1 hl with rfl | hl
    · rintro rfl
      cases triviaReach_of_reach hr with
      | comment _ hk => rcases hk with hk | hk <;> cases hk
    · exact ih hl

theorem TokenStream.no_blockComment (source : String) :
    ∀ e ∈ (TokenStream.ofSource source).trivia, e.kind ≠ .blockComment := fun e he hk => by
  have hmem := lexeme_mem_of_trivia he
  rw [(ofSource_lossless source).1] at hmem
  exact kind_ne_blockComment hmem (congrArg LexemeKind.trivia hk)

/-- **A block comment is two tokens.** In a source without unknown tokens, a comment put in behind any token, whatever
is in it, is read as an unknown token that ends with its last star, and the slash behind that. All tokens before it
and behind it stay as they are, and no trivia of the source are a block comment. -/
theorem blockComment_readAsTokens {source c : String} {i : Nat} (hc : ¬ "*/".toList <:+: c.toList)
    (hi : i < (TokenStream.ofSource source).tokens.length)
    (hknown : ∀ t ∈ (TokenStream.ofSource source).tokens, t.kind ≠ .unknown) :
    ∃ commented, commented = TokenStream.ofSource ((TokenStream.ofSource source).insertBehind i (" /*" ++ c ++ "*/ ")) ∧
      commented.tokens.map Token.bare =
        ((TokenStream.ofSource source).tokens.take (i + 1)).map Token.bare ++
          [⟨.unknown, "/*" ++ c ++ "*"⟩, ⟨.punct, "/"⟩] ++
          ((TokenStream.ofSource source).tokens.drop (i + 1)).map Token.bare ∧
      ∀ e ∈ commented.trivia, e.kind ≠ .blockComment :=
  ⟨_, rfl, bares_insertAdding (adds_blockComment hc) hi hknown, TokenStream.no_blockComment _⟩

/-- A comment that holds stars, slashes, a quote and a brace, between a division and its divisor. -/
theorem blockComment_readAsTokens_sample :
    (TokenStream.ofSource "a/2;").insertBehind 1 " /*/**\"\x7d\n/ **/ " = "a/ /*/**\"\x7d\n/ **/ 2;" ∧
    (TokenStream.ofSource "a/ /*/**\"\x7d\n/ **/ 2;").tokens.map Token.bare =
      [⟨.ident, "a"⟩, ⟨.punct, "/"⟩, ⟨.unknown, "/*/**\"\x7d\n/ **"⟩, ⟨.punct, "/"⟩, ⟨.number, "2"⟩, ⟨.semi, ";"⟩] := by
  have htext : (TokenStream.ofSource "a/2;").insertBehind 1 " /*/**\"\x7d\n/ **/ " = "a/ /*/**\"\x7d\n/ **/ 2;" := by
    decide +kernel
  refine ⟨htext, ?_⟩
  have hknown : ∀ t ∈ (TokenStream.ofSource "a/2;").tokens, t.kind ≠ .unknown := by decide +kernel
  obtain ⟨commented, hsource, htokens, -⟩ := blockComment_readAsTokens (c := "/**\"\x7d\n/ *") (i := 1) (by decide)
    (by decide +kernel) hknown
  have hgap : " /*" ++ "/**\"\x7d\n/ *" ++ "*/ " = " /*/**\"\x7d\n/ **/ " := by decide
  rw [hgap, htext] at hsource
  rw [← hsource, htokens]
  decide +kernel

/-- A comment between two words makes tokens of its own and no trivia but blanks. -/
theorem blockComment_not_trivia :
    ¬ "*/".toList <:+: "c".toList ∧ (∀ t ∈ (TokenStream.ofSource "a b").tokens, t.kind ≠ .unknown) ∧
    (TokenStream.ofSource "a b").insertBehind 0 " /*c*/ " = "a /*c*/  b" ∧
    (TokenStream.ofSource "a /*c*/  b").tokens.map Token.bare ≠ (TokenStream.ofSource "a b").tokens.map Token.bare ∧
    ∀ e ∈ (TokenStream.ofSource "a /*c*/  b").trivia, e.kind = .whitespace := by
  refine ⟨by decide, ?_, ?_, ?_, ?_⟩ <;> decide +kernel

end DocPages.Source
