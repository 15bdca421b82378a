/-
Where tokens end and begin. A token stays one when another text takes the place
of the text behind it, if that text begins no more than the other did
(`IsTokenBefore.standsFor`); and no known token begins or ends with white
space, so trimming a text takes nothing from its tokens.
-/
import DocPages.Proofs.TokenTexts
import DocPages.Unicode.Blank

/-! ## White space -/

namespace DocPages.Unicode

/-! ### Tables -/

/-- No range of one table meets a range of the other. -/
def tablesApart (rs ss : List CodeRange) : Bool :=
  rs.all fun r => ss.all fun s => r.last < s.first || s.last < r.first

theorem inRanges_of_tablesApart {rs ss : List CodeRange} (h : tablesApart rs ss = true) {c : Char}
    (hc : inRanges rs c = true) : inRanges ss c = false := by
  simp only [tablesApart, List.all_eq_true, Bool.or_eq_true, decide_eq_true_eq] at h
  simp only [inRanges, List.any_eq_true, CodeRange.contains, Bool.and_eq_true, decide_eq_true_eq] at hc
  obtain ⟨r, hr, hrc⟩ := hc
  simp only [inRanges, List.any_eq_false, CodeRange.contains, Bool.and_eq_true, decide_eq_true_eq]
  intro s hs hsc
  have := h r hr s hs
  omega

/-! ### Trimming -/

section

variable {s lead gap : List Char}

theorem dropWhile_of_head? {p : Char → Bool} (h : ∀ c, s.head? = some c → p c = false) :
    s.dropWhile p = s := by
  cases s with
  | nil => rfl
  | cons c s => rw [List.dropWhile_cons_of_neg (by simp [h c rfl])]

theorem trimEnd_blanks (hg : ∀ c ∈ gap, isBlank c = true) (s : List Char) : trimEnd (s ++ gap) = trimEnd s := by
  have hreverse : ∀ c ∈ gap.reverse, isBlank c = true := fun c hc => hg c (List.mem_reverse.1 hc)
  rw [trimEnd, trimEnd, List.reverse_append, List.dropWhile_append_of_pos hreverse]

theorem trimEnd_of_getLast? (h : ∀ c, s.getLast? = some c → isBlank c = false) : trimEnd s = s := by
  have hhead : ∀ c, s.reverse.head? = some c → isBlank c = false := fun c hc =>
    h c (by rwa [List.head?_reverse] at hc)
  rw [trimEnd, dropWhile_of_head? hhead, List.reverse_reverse]

/-- Trimming takes white space away from both ends, and nothing else. -/
theorem trim_between (hl : ∀ c ∈ lead, isBlank c = true) (hg : ∀ c ∈ gap, isBlank c = true)
    (hfirst : ∀ c, s.head? = some c → isBlank c = false) (hlast : ∀ c, s.getLast? = some c → isBlank c = false) :
    trim (lead ++ (s ++ gap)) = s := by
  rw [trim, trimStart, List.dropWhile_append_of_pos hl]
  cases s with
  | nil =>
    rw [List.nil_append, ← List.append_nil gap, List.dropWhile_append_of_pos hg]
    rfl
  | cons c s =>
    rw [List.cons_append, List.dropWhile_cons_of_neg (by simp [hfirst c rfl]), ← List.cons_append,
      trimEnd_blanks hg, trimEnd_of_getLast? hlast]

theorem isBlank_of_head?_dropWhile {c : Char} (h : (s.dropWhile isBlank).head? = some c) : isBlank c = false := by
  have hnot := List.head?_dropWhile_not isBlank s
  rwa [h] at hnot

/-- A trimmed text begins with no white space. -/
theorem isBlank_of_head?_trim {c : Char} (h : (trim s).head? = some c) : isBlank c = false := by
  obtain ⟨t, ht⟩ : trim s <+: trimStart s := by
    rw [trim, trimEnd, ← List.reverse_suffix, List.reverse_reverse]
    exact List.dropWhile_suffix _
  obtain ⟨w, hw⟩ := List.head?_eq_some_iff.1 h
  refine isBlank_of_head?_dropWhile (s := s) ?_
  rw [← trimStart, ← ht, hw]
  rfl

/-- A trimmed text ends with no white space. -/
theorem isBlank_of_getLast?_trim {c : Char} (h : (trim s).getLast? = some c) : isBlank c = false := by
  rw [trim, trimEnd, List.getLast?_reverse] at h
  exact isBlank_of_head?_dropWhile h

end

/-! ### Letters and numbers are no white space -/

theorem tablesApart_words : tablesApart (letterRanges ++ numberRanges) blankRanges = true := by
  decide +kernel

theorem isBlank_of_inRanges {c : Char} (h : inRanges letterRanges c = true ∨ inRanges numberRanges c = true) :
    isBlank c = false :=
  inRanges_of_tablesApart tablesApart_words (by rwa [inRanges, List.any_append, Bool.or_eq_true])

theorem isBlank_of_isAlphanum {c : Char} (h : c.isAlphanum = true) : isBlank c = false := by
  have hval : c.toNat = c.val.toNat := rfl
  have hZ : 'Z'.val.toNat = 90 := rfl
  have hz : 'z'.val.toNat = 122 := rfl
  have h9 : '9'.val.toNat = 57 := rfl
  have hA : 'A'.val.toNat = 65 := rfl
  have ha : 'a'.val.toNat = 97 := rfl
  have h0 : '0'.val.toNat = 48 := rfl
  unfold Char.isAlphanum Char.isAlpha Char.isUpper Char.isLower Char.isDigit at h
  simp only [Bool.or_eq_true, Bool.and_eq_true, decide_eq_true_eq, UInt32.le_iff_toNat_le, ge_iff_le] at h
  simp only [isBlank, inRanges, blankRanges, List.any_cons, List.any_nil, CodeRange.contains,
    Bool.or_false, Bool.or_eq_false_iff, Bool.and_eq_false_iff, decide_eq_false_iff_not]
  omega

theorem isBlank_of_isLetter {c : Char} (h : isLetter c = true) : isBlank c = false := by
  unfold isLetter at h
  by_cases ha : isAscii c = true
  · rw [if_pos ha] at h
    exact isBlank_of_isAlphanum (by simp [Char.isAlphanum, h])
  · rw [if_neg ha] at h
    exact isBlank_of_inRanges (.inl h)

theorem isBlank_of_isNumber {c : Char} (h : isNumber c = true) : isBlank c = false := by
  unfold isNumber at h
  by_cases ha : isAscii c = true
  · rw [if_pos ha] at h
    exact isBlank_of_isAlphanum (by simp [Char.isAlphanum, h])
  · rw [if_neg ha] at h
    exact isBlank_of_inRanges (.inr h)

end DocPages.Unicode

namespace DocPages.Source

/-! ## What may stand behind a token -/

/-- The characters that go on with no token, whatever the token is. -/
def isSeparator (c : Char) : Bool :=
  isSpacing c || isLineBreak c || c == '(' || c == '<'

/-- The text `y` goes on with no token that `x` does not go on with. -/
structure StandsFor (y x : List Char) : Prop where
  head : ∀ c, y.head? = some c → isSeparator c = true ∨ x.head? = some c
  decimal : startsDecimal y = true → startsDecimal x = true

section

variable {x y s : List Char}

theorem standsFor_nil : StandsFor [] x where
  head := by simp
  decimal := by simp [startsDecimal]

theorem standsFor_separator {c : Char} (hc : isSeparator c = true) : StandsFor (c :: y) x where
  head d hd := by
    obtain rfl := Option.some.inj hd
    exact .inl hc
  decimal hd := by
    obtain ⟨d, z, h, -⟩ := exists_startsDecimal hd
    obtain ⟨rfl, -⟩ := List.cons.inj h
    cases hc

/-- Two texts with the same beginning stand for one another, if a decimal point at its end is not followed by
more than it was. -/
theorem standsFor_append (hs : s ≠ []) (h : ∀ d, y.head? = some d → d.isDigit = true → x.head? = some d) :
    StandsFor (s ++ y) (s ++ x) := by
  obtain ⟨c, w, rfl⟩ := List.exists_cons_of_ne_nil hs
  refine ⟨fun d hd => .inr hd, fun hd => ?_⟩
  cases w with
  | nil =>
    obtain ⟨d, z, hz, hdigit⟩ := exists_startsDecimal hd
    obtain ⟨rfl, rfl⟩ := List.cons.inj hz
    obtain ⟨ys, rfl⟩ := List.head?_eq_some_iff.1 (h d rfl hdigit)
    exact hdigit
  | cons d w =>
    obtain ⟨e, z, hz, hdigit⟩ := exists_startsDecimal hd
    obtain ⟨rfl, htail⟩ := List.cons.inj hz
    obtain ⟨rfl, -⟩ := List.cons.inj (show d :: (w ++ y) = e :: z from htail)
    exact hdigit

/-- A class that no separator belongs to goes on with no token behind the other text either. -/
theorem StandsFor.not_class (h : StandsFor y x) {p : Char → Bool}
    (hp : ∀ c, isSeparator c = true → p c = false) (hx : ∀ c, x.head? = some c → p c = false) (c : Char) (hc : y.head? = some c) : p c = false :=
  (h.head c hc).elim (hp c) (hx c)

theorem StandsFor.head_ne (h : StandsFor y x) {c : Char} (hc : isSeparator c = false)
    (hx : x.head? ≠ some c) :
    y.head? ≠ some c := by
  intro hy
  rcases h.head c hy with hs | hx'
  · rw [hs] at hc
    cases hc
  · exact hx hx'

/-- What holds of each separator holds of all. -/
theorem forall_isSeparator {p : Char → Bool} (h : [' ', '\t', '\x0c', '\n', '\r', '(', '<'].all p = true) {c : Char}
    (hc : isSeparator c = true) : p c = true := by
  refine List.all_eq_true.1 h c ?_
  simpa [isSeparator, isSpacing, isLineBreak, or_assoc] using hc

theorem isIdentPart_of_isSeparator (c : Char) (h : isSeparator c = true) : isIdentPart c = false :=
  by simpa using forall_isSeparator (p := fun c => !isIdentPart c) (by decide) h

theorem isNumberPart_of_isSeparator (c : Char) (h : isSeparator c = true) : isNumberPart c = false :=
  by simpa using forall_isSeparator (p := fun c => !isNumberPart c) (by decide) h

/-- **A token stays one before any text that stands for the text behind it.** -/
theorem IsTokenBefore.standsFor {k : TokenKind} (ht : IsTokenBefore x k s) (h : StandsFor y x) :
    IsTokenBefore y k s := by
  cases ht with
  | word hc hw hx => exact .word hc hw (h.not_class isIdentPart_of_isSeparator hx)
  | atWord hc hw hx => exact .atWord hc hw (h.not_class isIdentPart_of_isSeparator hx)
  | whole hc hw hx hp =>
    refine .whole hc hw (h.not_class isNumberPart_of_isSeparator hx) ?_
    by_cases hy : startsDecimal y = true
    · rw [h.decimal hy] at hp
      cases hp
    · simpa using hy
  | decimal hc hw hd hv hx => exact .decimal hc hw hd hv (h.not_class isNumberPart_of_isSeparator hx)
  | quoted hw hx => exact .quoted hw fun he => h.head_ne (by decide) (hx he)
  | raw hw => exact .raw hw
  | verbatim hw hx => exact .verbatim hw (h.head_ne (by decide) hx)
  | interpolated hw => exact .interpolated hw
  | char hw => exact .char hw
  | fatArrow => exact .fatArrow
  | equals hx => exact .equals (h.head_ne (by decide) hx)
  | slash hx hs => exact .slash (h.head_ne (by decide) hx) (h.head_ne (by decide) hs)
  | operator hc hs => exact .operator hc hs
  | mark hc => exact .mark hc

end

/-! ## The ends of tokens -/

open Unicode (isBlank isBlank_of_isAlphanum isBlank_of_isLetter isBlank_of_isNumber)

theorem isBlank_of_isIdentStart {c : Char} (h : isIdentStart c = true) : isBlank c = false := by
  rcases Bool.or_eq_true_iff.1 h with h | h
  · exact isBlank_of_isLetter h
  · rw [beq_iff_eq.1 h]
    decide

theorem isBlank_of_isIdentPart {c : Char} (h : isIdentPart c = true) : isBlank c = false := by
  rcases Bool.or_eq_true_iff.1 h with h | h
  · exact isBlank_of_isIdentStart h
  · exact isBlank_of_isNumber h

theorem isBlank_of_isNumberPart {c : Char} (h : isNumberPart c = true) : isBlank c = false := by
  rcases Bool.or_eq_true_iff.1 h with h | h
  · exact isBlank_of_isAlphanum h
  · rw [beq_iff_eq.1 h]
    decide

theorem isBlank_of_isDigit {c : Char} (h : c.isDigit = true) : isBlank c = false :=
  isBlank_of_isAlphanum (by simp [Char.isAlphanum, h])

theorem isBlank_of_isOperator {c : Char} (h : isOperator c = true) : isBlank c = false := by
  have hall : ("!%&*+-/^|~\\".toList.all fun d => !isBlank d) = true := by decide
  have hc := List.all_eq_true.1 hall c (by simpa [isOperator] using h)
  simpa using hc

theorem isBlank_of_markKind {c : Char} {k : TokenKind} (h : markKind? c = some k) : isBlank c = false := by
  unfold markKind? at h
  split at h <;> cases h <;> decide

theorem QuotedBody.getLast? {close : Char} {w : List Char} (h : QuotedBody close w) :
    w.getLast? = some close := by
  induction h with
  | close => rfl
  | escape _ _ _ ih => simp [List.getLast?_cons, ih]
  | char _ _ _ _ ih => simp [List.getLast?_cons, ih]

theorem VerbatimBody.getLast? {w : List Char} (h : VerbatimBody w) : w.getLast? = some '"' := by
  induction h with
  | close => rfl
  | doubled _ ih => simp [List.getLast?_cons, ih]
  | char _ _ ih => simp [List.getLast?_cons, ih]

theorem RawBody.getLast? {w : List Char} (h : RawBody w) : w.getLast? = some '"' := by
  induction h with
  | close => rfl
  | quote _ _ ih => simp [List.getLast?_cons, ih]
  | char _ _ ih => simp [List.getLast?_cons, ih]

/-- The last character of a text that begins with `c` and goes on with characters of a class. -/
theorem getLast?_cons_class {P : Char → Prop} {c d : Char} {w : List Char} (hc : P c) (hw : ∀ e ∈ w, P e)
    (h : (c :: w).getLast? = some d) : P d := by
  rcases List.mem_cons.1 (List.mem_of_getLast? h) with rfl | hd
  · exact hc
  · exact hw d hd

namespace IsTokenBefore

variable {x s : List Char} {k : TokenKind} {c : Char}

theorem ne_nil (h : IsTokenBefore x k s) : s ≠ [] := by
  cases h <;> simp

theorem head_not_blank (h : IsTokenBefore x k s) (hc : s.head? = some c) : isBlank c = false := by
  cases h with
  | word hs _ _ => exact Option.some.inj hc ▸ isBlank_of_isIdentStart hs
  | whole hs _ _ _ => exact Option.some.inj hc ▸ isBlank_of_isDigit hs
  | decimal hs _ _ _ _ => exact Option.some.inj hc ▸ isBlank_of_isDigit hs
  | operator ho _ => exact Option.some.inj hc ▸ isBlank_of_isOperator ho
  | mark hm => exact Option.some.inj hc ▸ isBlank_of_markKind hm
  | _ =>
    obtain rfl := Option.some.inj hc
    decide

theorem last_not_blank (h : IsTokenBefore x k s) (hc : s.getLast? = some c) : isBlank c = false := by
  have hquote : isBlank '"' = false := by decide
  cases h with
  | word hs hw _ =>
    exact getLast?_cons_class (isBlank_of_isIdentStart hs) (fun d hd => isBlank_of_isIdentPart (hw d hd)) hc
  | @atWord d w hs hw _ =>
    rw [List.getLast?_cons_cons] at hc
    exact getLast?_cons_class (isBlank_of_isIdentStart hs) (fun d hd => isBlank_of_isIdentPart (hw d hd)) hc
  | whole hs hw _ _ =>
    exact getLast?_cons_class (isBlank_of_isDigit hs) (fun d hd => isBlank_of_isNumberPart (hw d hd)) hc
  | @decimal e d w v hs hw hd hv _ =>
    refine getLast?_cons_class (P := fun c => isBlank c = false) (isBlank_of_isDigit hs) (fun f hf => ?_) hc
    rcases List.mem_append.1 hf with hf | hf
    · exact isBlank_of_isNumberPart (hw f hf)
    · rcases List.mem_cons.1 hf with rfl | hf
      · decide
      · rcases List.mem_cons.1 hf with rfl | hf
        · exact isBlank_of_isDigit hd
        · exact isBlank_of_isNumberPart (hv f hf)
  | quoted hw _ | raw hw | verbatim hw _ | interpolated hw =>
    simp only [List.getLast?_cons, hw.getLast?, Option.getD_some, Option.some.injEq] at hc
    exact hc ▸ hquote
  | char hw =>
    simp only [List.getLast?_cons, hw.getLast?, Option.getD_some, Option.some.injEq] at hc
    rw [← hc]
    decide
  | fatArrow | equals | slash =>
    obtain rfl := Option.some.inj hc
    decide
  | operator ho _ =>
    obtain rfl := Option.some.inj hc
    exact isBlank_of_isOperator ho
  | mark hm =>
    obtain rfl := Option.some.inj hc
    exact isBlank_of_markKind hm

theorem not_digit (h : IsTokenBefore x .ident s) (hc : s.head? = some c) : c.isDigit = false := by
  cases h with
  | word hs _ _ =>
    obtain rfl := Option.some.inj hc
    refine Bool.eq_false_iff.2 fun hdigit => ?_
    rw [isIdentStart_of_isDigit hdigit] at hs
    cases hs
  | atWord _ _ _ =>
    obtain rfl := Option.some.inj hc
    rfl
  | mark hm =>
    unfold markKind? at hm
    split at hm <;> cases hm

/-- A token of the kind of a mark is that mark. -/
theorem eq_mark (h : IsTokenBefore x k s) (hk : markKind? c = some k) : s = [c] := by
  have hmark : ∀ d, markKind? d = some k → d = c := by
    intro d hd
    unfold markKind? at hk
    split at hk <;> cases hk <;> unfold markKind? at hd <;> split at hd <;> first | rfl | cases hd
  cases h with
  | mark hd => rw [hmark _ hd]
  | _ =>
    unfold markKind? at hk
    split at hk <;> cases hk

end IsTokenBefore

end DocPages.Source
