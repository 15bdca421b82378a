/-
The texts of tokens. `IsTokenBefore x k s` tells, by a grammar and without any
reading, that `s` is a token of kind `k` where the text `x` follows; lexing
agrees (`reach_of_isTokenBefore`, `exists_isTokenBefore`), unknown tokens apart.
Each form of token says for itself what must not follow, so that text may be put
in the place of `x` as long as it begins no more than `x` does (`StandsFor`).
-/
import DocPages.Proofs.Lexing
import DocPages.Unicode.Blank

namespace DocPages.Source

/-! ## Literals -/

/-- What stands behind the opening mark of a literal on one line, its closing mark included. -/
inductive QuotedBody (close : Char) : List Char → Prop where
  | close : QuotedBody close [close]
  | escape {e : Char} {w : List Char} (hc : '\\' ≠ close) (he : e ≠ '\n') (hw : QuotedBody close w) :
      QuotedBody close ('\\' :: e :: w)
  | char {c : Char} {w : List Char} (hc : c ≠ close) (hb : isLineBreak c = false) (hs : c ≠ '\\')
      (hw : QuotedBody close w) : QuotedBody close (c :: w)

theorem Extent.more_closed (n m : Nat) : Extent.more n ⟨true, m⟩ = ⟨true, m + n⟩ := by
  rw [Extent.more, Nat.add_comm]

theorem QuotedBody.extent {close : Char} {w : List Char} (h : QuotedBody close w) (x : List Char) :
    quotedExtent close (w ++ x) = ⟨true, w.length⟩ := by
  induction h with
  | close =>
    rw [List.cons_append, quotedExtent.eq_def]
    simp only [if_true, List.length_singleton]
  | @escape e w hc he hw ih =>
    have hb : isLineBreak '\\' = false := by decide
    rw [List.cons_append, quotedExtent.eq_def]
    simp only [if_neg hc, hb, List.cons_append, if_neg he, ih, Extent.more_closed, List.length_cons, if_true,
      Bool.false_eq_true, if_false]
  | @char c w hc hb hs hw ih =>
    rw [List.cons_append, quotedExtent.eq_def]
    simp only [if_neg hc, hb, if_neg hs, ih, Extent.more_closed, List.length_cons, Bool.false_eq_true,
      if_false]

theorem exists_quotedBody {close : Char} {s : List Char} (h : (quotedExtent close s).closed = true) :
    ∃ w x, s = w ++ x ∧ QuotedBody close w ∧ (quotedExtent close s).size = w.length := by
  fun_induction quotedExtent close s with
  | case1 => cases h
  | case2 rest => exact ⟨[close], rest, rfl, .close, rfl⟩
  | case3 => cases h
  | case4 => cases h
  | case5 => cases h
  | case6 e rest he hc hb ih =>
    obtain ⟨w, x, rfl, hw, hs⟩ := ih h
    exact ⟨_, x, rfl, .escape hc he hw, by rw [Extent.more, hs, Nat.add_comm]; rfl⟩
  | case7 c rest hc hb hs ih =>
    obtain ⟨w, x, rfl, hw, hs'⟩ := ih h
    exact ⟨_, x, rfl, .char hc (by simpa using hb) hs hw, by rw [Extent.more, hs', Nat.add_comm]; rfl⟩

/-- What stands behind the opening quote of a verbatim literal. -/
inductive VerbatimBody : List Char → Prop where
  | close : VerbatimBody ['"']
  | doubled {w : List Char} (hw : VerbatimBody w) : VerbatimBody ('"' :: '"' :: w)
  | char {c : Char} {w : List Char} (hc : c ≠ '"') (hw : VerbatimBody w) : VerbatimBody (c :: w)

theorem VerbatimBody.extent {w : List Char} (h : VerbatimBody w) {x : List Char} (hx : x.head? ≠ some '"') :
    verbatimExtent (w ++ x) = ⟨true, w.length⟩ := by
  induction h with
  | close =>
    cases x with
    | nil => rfl
    | cons c x =>
      have hc : c ≠ '"' := fun h => hx (by rw [h]; rfl)
      rw [List.cons_append, List.nil_append, verbatimExtent.eq_def]
      simp only [if_true, if_neg hc, List.length_singleton]
  | doubled hw ih =>
    rw [List.cons_append, List.cons_append, verbatimExtent.eq_def]
    simp only [if_true, ih, Extent.more_closed, List.length_cons]
  | char hc hw ih =>
    rw [List.cons_append, verbatimExtent.eq_def]
    simp only [if_neg hc, ih, Extent.more_closed, List.length_cons]

theorem exists_verbatimBody {s : List Char} (h : (verbatimExtent s).closed = true) :
    ∃ w x, s = w ++ x ∧ VerbatimBody w ∧ (verbatimExtent s).size = w.length ∧ x.head? ≠ some '"' := by
  fun_induction verbatimExtent s with
  | case1 => cases h
  | case2 => exact ⟨['"'], [], rfl, .close, rfl, nofun⟩
  | case3 rest ih =>
    obtain ⟨w, x, rfl, hw, hs, hx⟩ := ih h
    exact ⟨_, x, rfl, .doubled hw, by rw [Extent.more, hs, Nat.add_comm]; rfl, hx⟩
  | case4 e rest he => exact ⟨['"'], e :: rest, rfl, .close, rfl, fun h => he (Option.some.inj h)⟩
  | case5 c rest hc ih =>
    obtain ⟨w, x, rfl, hw, hs, hx⟩ := ih h
    exact ⟨_, x, rfl, .char hc hw, by rw [Extent.more, hs, Nat.add_comm]; rfl, hx⟩

/-- What stands behind the three opening quotes of a raw literal. -/
inductive RawBody : List Char → Prop where
  | close : RawBody ['"', '"', '"']
  | quote {w : List Char} (hp : ['"', '"'].isPrefixOf w = false) (hw : RawBody w) : RawBody ('"' :: w)
  | char {c : Char} {w : List Char} (hc : c ≠ '"') (hw : RawBody w) : RawBody (c :: w)

theorem RawBody.exists_eq {w : List Char} (h : RawBody w) : ∃ c d v, w = c :: d :: v ∧ v ≠ [] := by
  induction h with
  | close => exact ⟨_, _, _, rfl, nofun⟩
  | quote _ _ ih =>
    obtain ⟨c, d, v, rfl, -⟩ := ih
    exact ⟨_, _, _, rfl, nofun⟩
  | char _ _ ih =>
    obtain ⟨c, d, v, rfl, -⟩ := ih
    exact ⟨_, _, _, rfl, nofun⟩

theorem RawBody.extent {w : List Char} (h : RawBody w) (x : List Char) :
    rawExtent (w ++ x) = ⟨true, w.length⟩ := by
  induction h with
  | close =>
    rw [List.cons_append, rawExtent]
    simp only [if_true, List.cons_append, List.isPrefixOf, List.length_cons]
    rfl
  | @quote w hp hw ih =>
    obtain ⟨c, d, v, rfl, hv⟩ := hw.exists_eq
    have hp' : ['"', '"'].isPrefixOf (c :: d :: v ++ x) = false := hp
    have hend : ¬ (c :: d :: v ++ x = [] ∨ c :: d :: v ++ x = ['"']) := by simp
    rw [List.cons_append, rawExtent]
    rw [if_pos rfl, hp', if_neg Bool.false_ne_true, if_neg hend, ih, Extent.more_closed]
    rfl
  | char hc hw ih =>
    rw [List.cons_append, rawExtent, if_neg hc, ih, Extent.more_closed, List.length_cons]

theorem exists_rawBody {s : List Char} (h : (rawExtent s).closed = true) :
    ∃ w x, s = w ++ x ∧ RawBody w ∧ (rawExtent s).size = w.length := by
  fun_induction rawExtent s with
  | case1 => cases h
  | case2 rest hp =>
    obtain ⟨x, rfl⟩ := List.isPrefixOf_iff_prefix.1 hp
    exact ⟨_, x, rfl, .close, rfl⟩
  | case3 => cases h
  | case4 rest hp _ ih =>
    obtain ⟨w, x, rfl, hw, hs⟩ := ih h
    refine ⟨_, x, rfl, .quote ?_ hw, by rw [Extent.more, hs, Nat.add_comm]; rfl⟩
    refine Bool.eq_false_iff.2 fun hp' => hp ?_
    exact List.isPrefixOf_iff_prefix.2 ((List.isPrefixOf_iff_prefix.1 hp').trans (List.prefix_append w x))
  | case5 c rest hc ih =>
    obtain ⟨w, x, rfl, hw, hs⟩ := ih h
    exact ⟨_, x, rfl, .char hc hw, by rw [Extent.more, hs, Nat.add_comm]; rfl⟩

/-! ## Tokens -/

/-- A point and a digit, which go on with a number that has no point yet. -/
def startsDecimal : List Char → Bool
  | '.' :: d :: _ => d.isDigit
  | _ => false

/-- The text is a token of the kind if `x` follows. Unknown tokens have no texts of their own. -/
inductive IsTokenBefore (x : List Char) : TokenKind → List Char → Prop where
  | word {c : Char} {w : List Char} (hc : isIdentStart c = true) (hw : ∀ d ∈ w, isIdentPart d = true)
      (hx : ∀ d, x.head? = some d → isIdentPart d = false) : IsTokenBefore x .ident (c :: w)
  | atWord {c : Char} {w : List Char} (hc : isIdentStart c = true) (hw : ∀ d ∈ w, isIdentPart d = true)
      (hx : ∀ d, x.head? = some d → isIdentPart d = false) : IsTokenBefore x .ident ('@' :: c :: w)
  | whole {c : Char} {w : List Char} (hc : c.isDigit = true) (hw : ∀ d ∈ w, isNumberPart d = true)
      (hx : ∀ d, x.head? = some d → isNumberPart d = false) (hp : startsDecimal x = false) :
      IsTokenBefore x .number (c :: w)
  | decimal {c d : Char} {w v : List Char} (hc : c.isDigit = true) (hw : ∀ d ∈ w, isNumberPart d = true)
      (hd : d.isDigit = true) (hv : ∀ d ∈ v, isNumberPart d = true)
      (hx : ∀ d, x.head? = some d → isNumberPart d = false) :
      IsTokenBefore x .number (c :: (w ++ '.' :: d :: v))
  | quoted {w : List Char} (hw : QuotedBody '"' w) (hx : w = ['"'] → x.head? ≠ some '"') :
      IsTokenBefore x .string ('"' :: w)
  | raw {w : List Char} (hw : RawBody w) : IsTokenBefore x .string ('"' :: '"' :: '"' :: w)
  | verbatim {w : List Char} (hw : VerbatimBody w) (hx : x.head? ≠ some '"') :
      IsTokenBefore x .string ('@' :: '"' :: w)
  | interpolated {w : List Char} (hw : QuotedBody '"' w) : IsTokenBefore x .string ('$' :: '"' :: w)
  | char {w : List Char} (hw : QuotedBody '\'' w) : IsTokenBefore x .char ('\'' :: w)
  | fatArrow : IsTokenBefore x .fatArrow ['=', '>']
  | equals (hx : x.head? ≠ some '>') : IsTokenBefore x .eq ['=']
  | slash (hx : x.head? ≠ some '/') (hs : x.head? ≠ some '*') : IsTokenBefore x .punct ['/']
  | operator {c : Char} (hc : isOperator c = true) (hs : c ≠ '/') : IsTokenBefore x .punct [c]
  | mark {c : Char} {k : TokenKind} (hc : markKind? c = some k) : IsTokenBefore x k [c]

/-! ### What is read of a token -/

theorem numberReach_whole {w x : List Char} (hw : ∀ d ∈ w, isNumberPart d = true)
    (hx : ∀ d, x.head? = some d → isNumberPart d = false) (hp : startsDecimal x = false) :
    numberReach (w ++ x) = w.length := by
  have hcount : countWhile isNumberPart (w ++ x) = w.length := countWhile_append_iff.2 ⟨hw, hx⟩
  simp only [numberReach, hcount, List.drop_left]
  split
  · next d rest => exact if_neg (by simpa [startsDecimal] using hp)
  · rfl

theorem numberReach_decimal {w v x : List Char} {d : Char} (hw : ∀ d ∈ w, isNumberPart d = true)
    (hd : d.isDigit = true) (hv : ∀ d ∈ v, isNumberPart d = true)
    (hx : ∀ d, x.head? = some d → isNumberPart d = false) :
    numberReach (w ++ '.' :: d :: v ++ x) = (w ++ '.' :: d :: v).length := by
  have hpart : isNumberPart d = true := by simp [isNumberPart, Char.isAlphanum, hd]
  have hwhole : countWhile isNumberPart (w ++ '.' :: d :: (v ++ x)) = w.length :=
    countWhile_append_iff.2 ⟨hw, fun e he => by
      rw [← Option.some.inj he]
      decide⟩
  have hrest : countWhile isNumberPart (d :: v ++ x) = (d :: v).length :=
    countWhile_append_iff.2 ⟨fun e he => (List.mem_cons.1 he).elim (· ▸ hpart) (hv e), hx⟩
  have htext : w ++ '.' :: d :: v ++ x = w ++ '.' :: d :: (v ++ x) := by simp
  simp only [htext, numberReach, hwhole, List.drop_left, if_pos hd]
  rw [← List.cons_append, hrest]
  simp only [List.length_append, List.length_cons]
  omega

theorem isPrefixOf_singleton (c : Char) (x : List Char) : [c].isPrefixOf x = decide (x.head? = some c) := by
  cases x with
  | nil => rfl
  | cons d x => simp [List.isPrefixOf, eq_comm, BEq.beq]

theorem quoteReach_quoted {w x : List Char} (hw : QuotedBody '"' w) (hx : w = ['"'] → x.head? ≠ some '"') :
    quoteReach (w ++ x) = (.token .string, w.length) := by
  have hraw : ['"', '"'].isPrefixOf (w ++ x) = false := by
    cases hw with
    | close => simpa [List.isPrefixOf, isPrefixOf_singleton] using hx rfl
    | escape => rfl
    | char hc => simp [List.isPrefixOf, Ne.symm hc]
  simp only [quoteReach, hraw, hw.extent x, Bool.false_eq_true, if_false, Extent.tokenKind, if_true]

theorem quoteReach_raw {w : List Char} (hw : RawBody w) (x : List Char) :
    quoteReach ('"' :: '"' :: (w ++ x)) = (.token .string, ('"' :: '"' :: w).length) := by
  have hraw : ['"', '"'].isPrefixOf ('"' :: '"' :: (w ++ x)) = true := rfl
  simp only [quoteReach, hraw, if_true, List.drop_succ_cons, List.drop_zero, hw.extent x,
    Extent.more_closed, Extent.tokenKind, List.length_cons]

theorem atReach_word {d : Char} (hd : isIdentStart d = true) (rest : List Char) :
    atReach (d :: rest) = (.token .ident, countWhile isIdentPart (d :: rest)) := by
  unfold atReach
  split
  · next h =>
    obtain ⟨rfl, -⟩ := List.cons.inj h
    exact absurd hd (by decide)
  · next h =>
    obtain ⟨rfl, -⟩ := List.cons.inj h
    exact absurd hd (by decide)
  · next h =>
    obtain ⟨rfl, -⟩ := List.cons.inj h
    exact absurd hd (by decide)
  · next h =>
    obtain ⟨rfl, -⟩ := List.cons.inj h
    exact if_pos hd
  · next h => cases h

/-- Lexing reads every token that the grammar tells. -/
theorem reach_of_isTokenBefore {x w : List Char} {c : Char} {k : TokenKind}
    (h : IsTokenBefore x k (c :: w)) : reach c (w ++ x) = (.token k, w.length) := by
  rw [reach_eq]
  cases h with
  | word hc hw hx =>
    rw [opener_letter hc]
    exact congrArg _ (countWhile_append_iff.2 ⟨hw, hx⟩)
  | @atWord d w hc hw hx =>
    have hd : isIdentPart d = true := by simp [isIdentPart, hc]
    have hcount : countWhile isIdentPart (d :: w ++ x) = (d :: w).length :=
      countWhile_append_iff.2 ⟨fun e he => (List.mem_cons.1 he).elim (· ▸ hd) (hw e), hx⟩
    exact (atReach_word hc _).trans (congrArg _ hcount)
  | whole hc hw hx hp =>
    rw [opener_digit hc]
    exact congrArg _ (numberReach_whole hw hx hp)
  | decimal hc hw hd hv hx =>
    rw [opener_digit hc]
    exact congrArg _ (numberReach_decimal hw hd hv hx)
  | quoted hw hx => exact quoteReach_quoted hw hx
  | raw hw => exact quoteReach_raw hw x
  | @verbatim w hw hx =>
    show (((verbatimExtent (w ++ x)).more 1).tokenKind .string, ((verbatimExtent (w ++ x)).more 1).size) = _
    rw [hw.extent hx, Extent.more_closed]
    rfl
  | @interpolated w hw =>
    show (((quotedExtent '"' (w ++ x)).more 1).tokenKind .string,
      ((quotedExtent '"' (w ++ x)).more 1).size) = _
    rw [hw.extent x, Extent.more_closed]
    rfl
  | char hw =>
    show ((quotedExtent '\'' (w ++ x)).tokenKind .char, (quotedExtent '\'' (w ++ x)).size) = _
    rw [hw.extent x]
    rfl
  | fatArrow => rfl
  | equals hx => exact if_neg (by simpa [isPrefixOf_singleton] using hx)
  | slash hx hs =>
    show slashReach x = _
    unfold slashReach
    split
    · exact absurd rfl hx
    · exact absurd rfl hs
    · rfl
  | operator hc hs =>
    rw [opener_operator hc hs]
    rfl
  | mark hc =>
    rw [opener_mark hc]
    rfl

/-! ### What is read is a token -/

theorem exists_run (p : Char → Bool) (s : List Char) : ∃ w x, s = w ++ x ∧ (∀ c ∈ w, p c = true) ∧
    ∀ c, x.head? = some c → p c = false :=
  ⟨_, _, (List.take_append_drop _ _).symm, countWhile_spec p s⟩

theorem exists_startsDecimal {x : List Char} (h : startsDecimal x = true) :
    ∃ d y, x = '.' :: d :: y ∧ d.isDigit = true := by
  unfold startsDecimal at h
  split at h
  · exact ⟨_, _, rfl, h⟩
  · cases h

/-- The text is read as a token of the kind, `n` characters behind `c`. -/
def IsTokenRead (c : Char) (rest : List Char) (k : TokenKind) (n : Nat) : Prop :=
  ∃ w x, rest = w ++ x ∧ n = w.length ∧ IsTokenBefore x k (c :: w)

section

variable {c : Char} {rest : List Char} {k : TokenKind} {n : Nat}

theorem isTokenRead_number (hc : c.isDigit = true) : IsTokenRead c rest .number (numberReach rest) := by
  obtain ⟨w, x, rfl, hw, hx⟩ := exists_run isNumberPart rest
  by_cases hp : startsDecimal x = true
  · obtain ⟨d, y, rfl, hd⟩ := exists_startsDecimal hp
    obtain ⟨v, z, rfl, hv, hz⟩ := exists_run isNumberPart y
    refine ⟨w ++ '.' :: d :: v, z, by simp, ?_, .decimal hc hw hd hv hz⟩
    rw [← numberReach_decimal hw hd hv hz]
    simp
  · have hp' : startsDecimal x = false := by simpa using hp
    exact ⟨w, x, rfl, numberReach_whole hw hx hp', .whole hc hw hx hp'⟩

theorem isTokenRead_word (hc : isIdentStart c = true) :
    IsTokenRead c rest .ident (countWhile isIdentPart rest) := by
  obtain ⟨w, x, rfl, hw, hx⟩ := exists_run isIdentPart rest
  exact ⟨w, x, rfl, countWhile_append_iff.2 ⟨hw, hx⟩, .word hc hw hx⟩

/-- A literal that is a known token is closed. -/
theorem closed_of_tokenKind {e : Extent} {kind : TokenKind} (h : e.tokenKind kind = .token k)
    (hk : k ≠ .unknown) :
    e.closed = true ∧ k = kind := by
  unfold Extent.tokenKind at h
  by_cases hc : e.closed = true
  · rw [if_pos hc] at h
    cases h
    exact ⟨hc, rfl⟩
  · rw [if_neg hc] at h
    cases h
    exact absurd rfl hk

theorem isTokenRead_apostrophe (h : ((quotedExtent '\'' rest).tokenKind .char, (quotedExtent '\'' rest).size) =
    (.token k, n)) (hk : k ≠ .unknown) : IsTokenRead '\'' rest k n := by
  obtain ⟨hkind, rfl⟩ := Prod.mk.inj h
  obtain ⟨hclosed, rfl⟩ := closed_of_tokenKind hkind hk
  obtain ⟨w, x, rfl, hw, hs⟩ := exists_quotedBody hclosed
  exact ⟨w, x, rfl, hs, .char hw⟩

theorem isTokenRead_quote (h : quoteReach rest = (.token k, n)) (hk : k ≠ .unknown) :
    IsTokenRead '"' rest k n := by
  unfold quoteReach at h
  by_cases hp : ['"', '"'].isPrefixOf rest = true
  · rw [if_pos hp] at h
    obtain ⟨hkind, rfl⟩ := Prod.mk.inj h
    obtain ⟨hclosed, rfl⟩ := closed_of_tokenKind hkind hk
    obtain ⟨body, rfl⟩ := List.isPrefixOf_iff_prefix.1 hp
    obtain ⟨w, x, rfl, hw, hs⟩ := exists_rawBody hclosed
    refine ⟨'"' :: '"' :: w, x, rfl, ?_, .raw hw⟩
    rw [List.length_cons, List.length_cons, ← hs]
    exact Nat.add_comm ..
  · rw [if_neg hp] at h
    obtain ⟨hkind, rfl⟩ := Prod.mk.inj h
    obtain ⟨hclosed, rfl⟩ := closed_of_tokenKind hkind hk
    obtain ⟨w, x, rfl, hw, hs⟩ := exists_quotedBody hclosed
    refine ⟨w, x, rfl, hs, .quoted hw ?_⟩
    rintro rfl hx
    refine hp ?_
    simp [isPrefixOf_singleton, hx]

theorem isTokenRead_at (h : atReach rest = (.token k, n)) (hk : k ≠ .unknown) : IsTokenRead '@' rest k n := by
  unfold atReach at h
  split at h
  · obtain ⟨hkind, rfl⟩ := Prod.mk.inj h
    obtain ⟨hclosed, rfl⟩ := closed_of_tokenKind hkind hk
    obtain ⟨w, x, rfl, hw, hs, hx⟩ := exists_verbatimBody hclosed
    refine ⟨'"' :: w, x, rfl, ?_, .verbatim hw hx⟩
    rw [List.length_cons, ← hs]
    exact Nat.add_comm ..
  · cases h
    exact absurd rfl hk
  · cases h
    exact absurd rfl hk
  · next d r _ _ _ =>
    by_cases hd : isIdentStart d = true
    · rw [if_pos hd] at h
      obtain ⟨hkind, rfl⟩ := Prod.mk.inj h
      cases hkind
      obtain ⟨w, x, rfl, hw, hx⟩ := exists_run isIdentPart r
      have hpart : isIdentPart d = true := by simp [isIdentPart, hd]
      refine ⟨d :: w, x, rfl, ?_, .atWord hd hw hx⟩
      rw [countWhile_cons, if_pos hpart, countWhile_append_iff.2 ⟨hw, hx⟩, List.length_cons, Nat.add_comm]
    · rw [if_neg hd] at h
      cases h
      exact absurd rfl hk
  · cases h
    exact absurd rfl hk

theorem isTokenRead_dollar (h : dollarReach rest = (.token k, n)) (hk : k ≠ .unknown) :
    IsTokenRead '$' rest k n := by
  unfold dollarReach at h
  split at h
  · obtain ⟨hkind, rfl⟩ := Prod.mk.inj h
    obtain ⟨hclosed, rfl⟩ := closed_of_tokenKind hkind hk
    obtain ⟨w, x, rfl, hw, hs⟩ := exists_quotedBody hclosed
    refine ⟨'"' :: w, x, rfl, ?_, .interpolated hw⟩
    rw [List.length_cons, ← hs]
    exact Nat.add_comm ..
  all_goals
    cases h
    exact absurd rfl hk

theorem isTokenRead_slash (h : slashReach rest = (.token k, n)) (hk : k ≠ .unknown) :
    IsTokenRead '/' rest k n := by
  unfold slashReach at h
  split at h
  · cases h
  · cases h
    exact absurd rfl hk
  · next hline hblock =>
    cases h
    refine ⟨[], rest, rfl, rfl, .slash (fun hx => ?_) fun hx => ?_⟩
    · obtain ⟨ys, rfl⟩ := List.head?_eq_some_iff.1 hx
      exact hline ys rfl
    · obtain ⟨ys, rfl⟩ := List.head?_eq_some_iff.1 hx
      exact hblock ys rfl

/-- **Lexing reads no other tokens than the grammar tells**, unknown ones apart. -/
theorem isTokenRead_of_reach (h : reach c rest = (.token k, n)) (hk : k ≠ .unknown) :
    IsTokenRead c rest k n := by
  have hc := opener_holds c
  rw [reach_eq] at h
  cases ho : opener c <;> rw [ho] at hc h
  case slash =>
    obtain rfl : c = '/' := hc
    exact isTokenRead_slash h hk
  case letter =>
    cases h
    exact isTokenRead_word hc
  case digit =>
    cases h
    exact isTokenRead_number hc
  case quote =>
    obtain rfl : c = '"' := hc
    exact isTokenRead_quote h hk
  case apostrophe =>
    obtain rfl : c = '\'' := hc
    exact isTokenRead_apostrophe h hk
  case «at» =>
    obtain rfl : c = '@' := hc
    exact isTokenRead_at h hk
  case dollar =>
    obtain rfl : c = '$' := hc
    exact isTokenRead_dollar h hk
  case equals =>
    obtain rfl : c = '=' := hc
    simp only [Opener.reach] at h
    by_cases hp : ['>'].isPrefixOf rest = true
    · rw [if_pos hp] at h
      cases h
      obtain ⟨x, rfl⟩ := List.isPrefixOf_iff_prefix.1 hp
      exact ⟨['>'], x, rfl, rfl, .fatArrow⟩
    · rw [if_neg hp] at h
      cases h
      exact ⟨[], rest, rfl, rfl, .equals (by simpa [isPrefixOf_singleton] using hp)⟩
  case mark kind =>
    cases h
    exact ⟨[], rest, rfl, rfl, .mark hc⟩
  case operator =>
    cases h
    exact ⟨[], rest, rfl, rfl, .operator hc.1 hc.2⟩
  case other =>
    cases h
    exact absurd rfl hk
  all_goals cases h

end

end DocPages.Source
