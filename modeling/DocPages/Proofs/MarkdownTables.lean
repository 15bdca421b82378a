/-
Tables in Markdown. A table keeps its shape if each of its records has one line in
it, with as many bars that no backslash escapes as the line of titles has
(`KeepsShape`). What a text adds to its row can be counted in the text alone. Its
bars are escaped, but one that has a backslash before it already is not, for then
the backslashes escape each other (`barsIn_cellChars`); and the ends of its lines
are blanks, but a carriage return by itself stays (`lineEndsIn_cellChars`). Tables
keep their shape exactly as long as there are none of these (`tables_keepShape`).
-/
import Mathlib.Data.List.Forall2
import DocPages.Proofs.LineBreaks
import DocPages.Render.Markdown

namespace DocPages.Markdown

open Source (IsOneLine isIdentPart isLineBreak)

/-! ## Lines -/

/-- A carriage return that no line feed follows. -/
def IsLoneReturn (c : Char) (rest : List Char) : Prop :=
  c = '\r' ∧ rest.head? ≠ some '\n'

instance (c : Char) (rest : List Char) : Decidable (IsLoneReturn c rest) :=
  inferInstanceAs (Decidable (_ ∧ _))

/-- The text between the ends of lines, and what stands behind the last of them. A line ends at a line feed, at a
carriage return, or at both in this order. -/
def splitLines : List Char → List (List Char)
  | [] => [[]]
  | c :: rest =>
    if c = '\n' ∨ IsLoneReturn c rest then [] :: splitLines rest
    else if c = '\r' then splitLines rest
    else (splitLines rest).modifyHead (c :: ·)

def linesOf (s : String) : List String :=
  (splitLines s.toList).map String.ofList

/-- The number of ends of lines. -/
def lineEndsIn : List Char → Nat
  | [] => 0
  | c :: rest => (if c = '\n' ∨ IsLoneReturn c rest then 1 else 0) + lineEndsIn rest

/-- The number of carriage returns that no line feed follows. -/
def loneReturnsIn : List Char → Nat
  | [] => 0
  | c :: rest => (if IsLoneReturn c rest then 1 else 0) + loneReturnsIn rest

section

variable {s y : List Char} {l : List Char} {c : Char}

theorem ne_of_not_isLineBreak (hc : isLineBreak c = false) : c ≠ '\n' ∧ c ≠ '\r' := by
  simpa [isLineBreak] using hc

theorem not_lineEnd (hc : isLineBreak c = false) : ¬ (c = '\n' ∨ IsLoneReturn c y) := fun h =>
  h.elim (ne_of_not_isLineBreak hc).1 fun h => (ne_of_not_isLineBreak hc).2 h.1

theorem splitLines_append (hl : ∀ c ∈ l, isLineBreak c = false) (y : List Char) :
    splitLines (l ++ y) = (splitLines y).modifyHead (l ++ ·) := by
  induction l with
  | nil =>
    rw [List.nil_append]
    cases splitLines y <;> rfl
  | cons c l ih =>
    obtain ⟨hc, hl⟩ := List.forall_mem_cons.1 hl
    rw [List.cons_append, splitLines, if_neg (not_lineEnd hc), if_neg (ne_of_not_isLineBreak hc).2, ih hl,
      List.modifyHead_modifyHead]
    rfl

theorem lineEndsIn_oneLine (hl : ∀ c ∈ l, isLineBreak c = false) (y : List Char) :
    lineEndsIn (l ++ y) = lineEndsIn y := by
  induction l with
  | nil => rfl
  | cons c l ih =>
    obtain ⟨hc, hl⟩ := List.forall_mem_cons.1 hl
    rw [List.cons_append, lineEndsIn, if_neg (not_lineEnd hc), ih hl, Nat.zero_add]

theorem lineEndsIn_ended (s : List Char) : 0 < lineEndsIn (s ++ ['\n']) := by
  induction s with
  | nil => decide
  | cons c s ih =>
    rw [List.cons_append, lineEndsIn]
    omega

theorem lineEndsIn_append_ended (s y : List Char) :
    lineEndsIn (s ++ ['\n'] ++ y) = lineEndsIn (s ++ ['\n']) + lineEndsIn y := by
  induction s with
  | nil => simp [lineEndsIn, IsLoneReturn]
  | cons c s ih =>
    have hlone : IsLoneReturn c (s ++ ['\n'] ++ y) ↔ IsLoneReturn c (s ++ ['\n']) := by
      cases s <;> simp [IsLoneReturn]
    rw [List.cons_append, List.cons_append, lineEndsIn, lineEndsIn, ih, if_congr (or_congr_right hlone) rfl rfl,
      Nat.add_assoc]

theorem length_splitLines (s : List Char) : (splitLines s).length = lineEndsIn s + 1 := by
  induction s with
  | nil => rfl
  | cons c s ih =>
    rw [splitLines, lineEndsIn]
    split_ifs with hend hreturn
    · rw [List.length_cons, ih, Nat.add_comm 1]
    · rw [ih, Nat.zero_add]
    · rw [List.length_modifyHead, ih, Nat.zero_add]

/-- A text with one end of a line, its last, is a line; a carriage return at its end counts with the line feed. -/
theorem lineEndsIn_eq_one : lineEndsIn (s ++ ['\n']) = 1 ↔
    ∃ l, (∀ c ∈ l, isLineBreak c = false) ∧ (s = l ∨ s = l ++ ['\r']) := by
  constructor
  · intro h
    induction s with
    | nil => exact ⟨[], by simp, .inl rfl⟩
    | cons c s ih =>
      rw [List.cons_append, lineEndsIn] at h
      have hended := lineEndsIn_ended s
      split_ifs at h with hend
      · omega
      · obtain ⟨l, hl, hs⟩ := ih (by omega)
        rw [not_or] at hend
        by_cases hreturn : c = '\r'
        · -- The line feed that follows is the last character, as there is none in the line.
          have hfeed : ∀ d ∈ s, d ≠ '\n' := by
            rcases hs with rfl | rfl
            · exact fun d hd => (ne_of_not_isLineBreak (hl d hd)).1
            · exact List.forall_mem_append.2 ⟨fun d hd => (ne_of_not_isLineBreak (hl d hd)).1, by simp⟩
          have hnil : s = [] := by
            cases s with
            | nil => rfl
            | cons d s => exact absurd ⟨hreturn, by simpa using hfeed d List.mem_cons_self⟩ hend.2
          exact ⟨[], by simp, .inr (by simp [hnil, hreturn])⟩
        · have hc : isLineBreak c = false := by simp [isLineBreak, hend.1, hreturn]
          exact ⟨c :: l, List.forall_mem_cons.2 ⟨hc, hl⟩, hs.imp (congrArg _) (congrArg _)⟩
  · rintro ⟨l, hl, rfl | rfl⟩
    · rw [lineEndsIn_oneLine hl]
      decide
    · rw [List.append_assoc, lineEndsIn_oneLine hl]
      decide

end

/-! ## Bars -/

/-- The number of bars with an even number of backslashes right before them, or with an odd number if `odd` holds.
`escaped` tells that the text stands behind an odd number of them. -/
def barsIn (odd escaped : Bool) : List Char → Nat
  | [] => 0
  | c :: rest => (if c = '|' ∧ escaped = odd then 1 else 0) + barsIn odd (c = '\\' && !escaped) rest

/-- Whether what stands behind the text stands behind an odd number of backslashes. -/
def escapesAfter (escaped : Bool) : List Char → Bool
  | [] => escaped
  | c :: rest => escapesAfter (c = '\\' && !escaped) rest

/-- The bars that separate cells. -/
def bareBars (s : String) : Nat :=
  barsIn false false s.toList

/-- The bars that are escaped. -/
def escapedBars (s : String) : Nat :=
  barsIn true false s.toList

/-- The text ends with an odd number of backslashes. -/
def endsEscaping (s : String) : Bool :=
  escapesAfter false s.toList

/-- The text has none of the characters that make rows and cells. -/
def IsPlain (s : List Char) : Prop :=
  ∀ c ∈ s, c ≠ '|' ∧ c ≠ '\\' ∧ isLineBreak c = false

instance (s : List Char) : Decidable (IsPlain s) :=
  List.decidableBAll _ s

section

variable {s : List Char} {odd : Bool}

theorem barsIn_append (odd escaped : Bool) (s t : List Char) :
    barsIn odd escaped (s ++ t) = barsIn odd escaped s + barsIn odd (escapesAfter escaped s) t := by
  induction s generalizing escaped with
  | nil => simp [barsIn, escapesAfter]
  | cons c s ih => simp only [List.cons_append, barsIn, escapesAfter, ih, Nat.add_assoc]

theorem barsIn_plain (h : IsPlain s) (escaped : Bool) : barsIn odd escaped s = 0 := by
  induction s generalizing escaped with
  | nil => rfl
  | cons c s ih =>
    obtain ⟨⟨hbar, -⟩, hs⟩ := List.forall_mem_cons.1 h
    rw [barsIn, if_neg (fun h => hbar h.1), ih hs]

theorem escapesAfter_plain (h : IsPlain s) : escapesAfter false s = false := by
  induction s with
  | nil => rfl
  | cons c s ih =>
    obtain ⟨⟨-, hslash, -⟩, hs⟩ := List.forall_mem_cons.1 h
    rw [escapesAfter, decide_eq_false hslash, Bool.false_and, ih hs]

end

/-! ## Cells -/

/-- The bars of a text that are bare in its cell are those that it has escaped itself. -/
theorem barsIn_cellChars (escaped : Bool) (s : List Char) :
    barsIn false escaped (cellChars s) = barsIn true escaped s := by
  fun_induction cellChars s generalizing escaped with
  | case1 => rfl
  | case2 rest ih => simp [barsIn, ih]
  | case3 rest ih => simp [barsIn, ih]
  | case4 rest ih => cases escaped <;> simp [barsIn, ih]
  | case5 c rest _ _ hbar ih =>
    rw [barsIn, barsIn, if_neg (fun h => hbar h.1), if_neg (fun h => hbar h.1), ih]

theorem escapesAfter_cellChars (escaped : Bool) (s : List Char) :
    escapesAfter escaped (cellChars s) = escapesAfter escaped s := by
  fun_induction cellChars s generalizing escaped with
  | case1 => rfl
  | case2 rest ih => simp [escapesAfter, ih]
  | case3 rest ih => simp [escapesAfter, ih]
  | case4 rest ih => simp [escapesAfter, ih]
  | case5 c rest _ _ _ ih => exact ih _

theorem lineFeed_notMem_cellChars (s : List Char) : '\n' ∉ cellChars s := by
  fun_induction cellChars s with
  | case1 => simp
  | case2 rest ih => simp [ih]
  | case3 rest ih => simp [ih]
  | case4 rest ih => simp [ih]
  | case5 c rest _ hfeed _ ih => simp [ih, Ne.symm hfeed]

theorem cellChars_eq_nil {s : List Char} : cellChars s = [] ↔ s = [] := by
  fun_induction cellChars s <;> simp

theorem loneReturnsIn_append {s y : List Char} (hy : y.head? ≠ some '\n') :
    loneReturnsIn (s ++ y) = loneReturnsIn s + loneReturnsIn y := by
  induction s with
  | nil => simp [loneReturnsIn]
  | cons c s ih =>
    have hlone : IsLoneReturn c (s ++ y) ↔ IsLoneReturn c s := by
      cases s with
      | nil => simp [IsLoneReturn, hy]
      | cons d s => simp [IsLoneReturn]
    rw [List.cons_append, loneReturnsIn, loneReturnsIn, ih, if_congr hlone rfl rfl, Nat.add_assoc]

/-- The ends of lines in a cell are the carriage returns that stand by themselves in its text, with what comes behind
it. -/
theorem lineEndsIn_cellChars (s y : List Char) :
    lineEndsIn (cellChars s ++ y) + loneReturnsIn y = loneReturnsIn (s ++ y) + lineEndsIn y := by
  fun_induction cellChars s with
  | case1 => exact Nat.add_comm _ _
  | case2 rest ih => simpa [lineEndsIn, loneReturnsIn, IsLoneReturn] using ih
  | case3 rest ih => simpa [lineEndsIn, loneReturnsIn, IsLoneReturn] using ih
  | case4 rest ih => simpa [lineEndsIn, loneReturnsIn, IsLoneReturn] using ih
  | case5 c rest hpair hfeed _ ih =>
    have hlone : IsLoneReturn c (cellChars rest ++ y) ↔ IsLoneReturn c (rest ++ y) := by
      refine and_congr_right fun hc => ?_
      cases rest with
      | nil => rfl
      | cons d rest =>
        obtain ⟨e, es, hcell⟩ := List.exists_cons_of_ne_nil (mt (cellChars_eq_nil (s := d :: rest)).1 (by simp))
        have he : e ≠ '\n' := fun he => lineFeed_notMem_cellChars (d :: rest) (by simp [hcell, he])
        have hd : d ≠ '\n' := fun hd => hpair rest hc (by rw [hd])
        simp [hcell, he, hd]
    rw [List.cons_append, List.cons_append, lineEndsIn, loneReturnsIn, if_congr (or_iff_right hfeed) rfl rfl,
      if_congr hlone rfl rfl]
    omega

theorem lineEndsIn_cell {s y : List Char} (hy : y.head? ≠ some '\n') :
    lineEndsIn (cellChars s ++ y) = loneReturnsIn s + lineEndsIn y := by
  have h := lineEndsIn_cellChars s y
  rw [loneReturnsIn_append hy] at h
  omega

/-- The carriage returns of a text that no line feed follows. -/
def loneReturns (s : String) : Nat :=
  loneReturnsIn s.toList

/-! ## Rows -/

/-- The text ends with the end of a line. -/
def IsEnded (s : String) : Prop :=
  ∃ body, s = body ++ "\n"

theorem IsEnded.append {t : String} (h : IsEnded t) (s : String) : IsEnded (s ++ t) := by
  obtain ⟨body, rfl⟩ := h
  exact ⟨s ++ body, String.append_assoc.symm⟩

/-- The text is one line with its end. -/
structure IsLine (row l : String) : Prop where
  oneLine : IsOneLine l
  ended : row = l ++ "\n" ∨ row = l ++ "\r\n"

/-- The text is one line with its end, with `n` bars between cells. -/
def IsRow (n : Nat) (row : String) : Prop :=
  ∃ l, IsLine row l ∧ bareBars l = n

/-- A text, with no backslash before it, that has `ends` ends of lines and `bars` bars that are not escaped. -/
structure Counts (s : List Char) (ends bars : Nat) : Prop where
  lineEndsIn_eq : lineEndsIn s = ends
  barsIn_eq : barsIn false false s = bars

section

variable {row l : String}

theorem IsLine.bareBars_eq (h : IsLine row l) : bareBars row = bareBars l := by
  rcases h.ended with rfl | rfl <;> simp [bareBars, barsIn_append, barsIn]

theorem IsPlain.infix_of_concat {w s : List Char} {c : Char} (hw : IsPlain w) (hc : isLineBreak c = true)
    (h : w <:+: s ++ [c]) : w <:+: s := by
  rcases List.infix_concat_iff.1 h with hsuffix | h
  · rcases List.suffix_concat_iff.1 hsuffix with rfl | ⟨t, rfl, -⟩
    · exact List.nil_infix
    · have hline := (hw c (by simp)).2.2
      simp [hc] at hline
  · exact h

/-- What a row shows without a line break, its line shows. -/
theorem IsLine.shows {w : List Char} (h : IsLine row l) (hw : IsPlain w) (hin : w <:+: row.toList) :
    w <:+: l.toList := by
  rcases h.ended with rfl | rfl
  · rw [String.toList_append] at hin
    exact hw.infix_of_concat rfl hin
  · have htext : (l ++ "\r\n").toList = l.toList ++ ['\r'] ++ ['\n'] := by simp
    rw [htext] at hin
    exact hw.infix_of_concat rfl (hw.infix_of_concat rfl hin)

/-- A text that ends with its line is one line if there is no other end of a line in it. -/
theorem exists_isLine_iff (h : IsEnded row) : (∃ l, IsLine row l) ↔ lineEndsIn row.toList = 1 := by
  obtain ⟨body, rfl⟩ := h
  have hended : ∀ l : String, (body ++ "\n" = l ++ "\n" ∨ body ++ "\n" = l ++ "\r\n") ↔
      body.toList = l.toList ∨ body.toList = l.toList ++ ['\r'] := fun l => by
    rw [← String.toList_inj, ← String.toList_inj, String.toList_append, String.toList_append, String.toList_append,
      show "\r\n".toList = ['\r'] ++ "\n".toList from rfl, ← List.append_assoc, List.append_cancel_right_eq,
      List.append_cancel_right_eq]
  rw [String.toList_append, show "\n".toList = ['\n'] from rfl, lineEndsIn_eq_one]
  constructor
  · rintro ⟨l, hl, h⟩
    exact ⟨l.toList, hl, (hended l).1 h⟩
  · rintro ⟨l, hl, h⟩
    rw [← String.toList_ofList (l := l)] at h hl
    exact ⟨String.ofList l, hl, (hended _).2 h⟩

theorem isRow_iff {ends bars n : Nat} (h : IsEnded row) (hcounts : Counts row.toList ends bars) :
    IsRow n row ↔ ends = 1 ∧ bars = n := by
  rw [← hcounts.lineEndsIn_eq, ← hcounts.barsIn_eq, ← exists_isLine_iff h, ← bareBars]
  constructor
  · rintro ⟨l, hl, rfl⟩
    exact ⟨⟨l, hl⟩, hl.bareBars_eq⟩
  · rintro ⟨⟨l, hl⟩, rfl⟩
    exact ⟨l, hl, hl.bareBars_eq.symm⟩

end

section

variable {s y : List Char} {c : Char} {ends bars : Nat}

theorem Counts.plain (hs : IsPlain s) (h : Counts y ends bars) : Counts (s ++ y) ends bars where
  lineEndsIn_eq := by rw [lineEndsIn_oneLine fun c hc => (hs c hc).2.2, h.lineEndsIn_eq]
  barsIn_eq := by rw [barsIn_append, barsIn_plain hs, escapesAfter_plain hs, h.barsIn_eq, Nat.zero_add]

theorem Counts.bar (h : Counts y ends bars) : Counts ('|' :: y) ends (1 + bars) where
  lineEndsIn_eq := by simpa [lineEndsIn, IsLoneReturn] using h.lineEndsIn_eq
  barsIn_eq := by simpa [barsIn] using h.barsIn_eq

/-- A cell counts for itself in front of any plain character. -/
theorem Counts.cell (s : List Char) (hc : IsPlain [c]) (h : Counts y ends bars) :
    Counts (cellChars s ++ c :: y) (loneReturnsIn s + ends) (barsIn true false s + bars) where
  lineEndsIn_eq := by
    have hline := (hc c List.mem_cons_self).2.2
    have hhead : (c :: y).head? ≠ some '\n' := by simpa using (ne_of_not_isLineBreak hline).1
    rw [lineEndsIn_cell hhead, lineEndsIn, if_neg (not_lineEnd hline), h.lineEndsIn_eq, Nat.zero_add]
  barsIn_eq := by
    obtain ⟨hbar, hslash, -⟩ := hc c List.mem_cons_self
    rw [barsIn_append, barsIn_cellChars, barsIn, if_neg (fun h => hbar h.1), decide_eq_false hslash, Bool.false_and,
      h.barsIn_eq, Nat.zero_add]

/-- Between bars, a backslash at the end of a cell escapes the second of them. -/
theorem counts_barredCell (s : List Char) :
    Counts (cellChars s ++ ['|', '\n']) (loneReturnsIn s + 1)
      (barsIn true false s + if escapesAfter false s = true then 0 else 1) where
  lineEndsIn_eq := lineEndsIn_cell (by decide)
  barsIn_eq := by
    rw [barsIn_append, barsIn_cellChars, escapesAfter_cellChars]
    cases escapesAfter false s <;> rfl

/-- At the end of a row, a carriage return at the end of a cell counts with the line feed behind it. -/
theorem counts_lastCell (s : String) : Counts (lastCell s).toList (loneReturns (s ++ "\n") + 1) (escapedBars s) := by
  by_cases hs : s = ""
  · subst hs
    exact ⟨by decide, by decide⟩
  · have htext : (lastCell s).toList = [' '] ++ (cellChars s.toList ++ ['\n']) := by simp [lastCell, cell, hs]
    rw [htext]
    refine .plain (by decide) ⟨?_, ?_⟩
    · have h := lineEndsIn_cellChars s.toList ['\n']
      rw [loneReturns, String.toList_append]
      exact h
    · rw [barsIn_append, barsIn_cellChars]
      simp [barsIn, escapedBars]

end

/-- Every character is one of an identifier. -/
def IsName (s : String) : Prop :=
  ∀ c ∈ s.toList, c = '@' ∨ isIdentPart c = true

instance (s : String) : Decidable (IsName s) :=
  List.decidableBAll _ s.toList

theorem IsName.isPlain {s : String} (h : IsName s) : IsPlain s.toList := by
  intro c hc
  rcases h c hc with rfl | hpart
  · decide
  · have hbar : c ≠ '|' := by
      rintro rfl
      exact absurd hpart (by decide)
    have hslash : c ≠ '\\' := by
      rintro rfl
      exact absurd hpart (by decide)
    exact ⟨hbar, hslash, Source.not_isLineBreak (Source.isBlank_of_isIdentPart hpart)⟩

theorem counts_propertyRow {p : PropertyRow} (h : IsName p.name) :
    Counts (propertyRow p).toList (loneReturns p.comment + 1)
      (1 + (1 + (escapedBars p.comment + if endsEscaping p.comment = true then 0 else 1))) := by
  have htext : (propertyRow p).toList =
      '|' :: (p.name.toList ++ '|' :: (cellChars p.comment.toList ++ ['|', '\n'])) := by
    simp [propertyRow, cell]
  rw [htext]
  exact .bar (.plain h.isPlain (.bar (counts_barredCell _)))

theorem counts_typeParameterRow {p : TypeParameter} (h : IsName p.name) :
    Counts (typeParameterRow p).toList (loneReturns (p.description ++ "\n") + 1) (1 + escapedBars p.description) := by
  have htext : (typeParameterRow p).toList =
      "**\x60".toList ++ (p.name.toList ++ ("\x60** ".toList ++ '|' :: (lastCell p.description).toList)) := by
    simp [typeParameterRow, code]
  rw [htext]
  exact .plain (by decide) (.plain h.isPlain (.plain (by decide) (.bar (counts_lastCell _))))

theorem counts_parameterRow {p : Parameter} (h : IsName p.name) :
    Counts (parameterRow p).toList
      (loneReturns p.type + (p.default?.elim 0 loneReturns + (loneReturns (p.description ++ "\n") + 1)))
      (escapedBars p.type + (p.default?.elim 0 escapedBars + (1 + escapedBars p.description))) := by
  obtain ⟨type, name, default?, description⟩ := p
  have hlast := (counts_lastCell description).bar
  cases default? with
  | none =>
    have htext : (parameterRow ⟨type, name, none, description⟩).toList = cellChars type.toList ++
        ' ' :: ("**\x60".toList ++ (name.toList ++ ("\x60** ".toList ++ '|' :: (lastCell description).toList))) := by
      simp [parameterRow, code, cell]
    rw [htext, Option.elim_none, Option.elim_none, Nat.zero_add, Nat.zero_add]
    exact .cell _ (by decide) (.plain (by decide) (.plain h.isPlain (.plain (by decide) hlast)))
  | some d =>
    have hdefault := Counts.cell (c := '\x60') d.toList (by decide) (.plain (s := [' ']) (by decide) hlast)
    have htext : (parameterRow ⟨type, name, some d, description⟩).toList = cellChars type.toList ++
        ' ' :: ("**\x60".toList ++ (name.toList ++ ("\x60** = \x60".toList ++
          (cellChars d.toList ++ '\x60' :: ([' '] ++ '|' :: (lastCell description).toList))))) := by
      simp [parameterRow, code, cell]
    rw [htext, Option.elim_some, Option.elim_some]
    exact .cell _ (by decide) (.plain (by decide) (.plain h.isPlain (.plain (by decide) hdefault)))

/-! ## Tables -/

/-- Behind a line of titles and a rule, a table has one line for each of the names, in their order, which shows the
name and has as many bars between cells as there are between the titles. An empty line ends the table. -/
def KeepsShape (titles rule : String) (names : List String) (text : String) : Prop :=
  ∃ ls, linesOf text = titles :: rule :: (ls ++ ["", ""]) ∧
    List.Forall₂ (fun name l => name.toList <:+: l.toList ∧ bareBars l = bareBars titles) names ls

theorem linesOf_append {row l : String} (h : IsLine row l) (y : String) : linesOf (row ++ y) = l :: linesOf y := by
  rcases h.ended with rfl | rfl
  · have htext : (l ++ "\n" ++ y).toList = l.toList ++ '\n' :: y.toList := by simp
    rw [linesOf, htext, splitLines_append h.oneLine, splitLines, if_pos (.inl rfl)]
    simp [linesOf]
  · have htext : (l ++ "\r\n" ++ y).toList = l.toList ++ '\r' :: '\n' :: y.toList := by simp
    have hpair : ¬ ('\r' = '\n' ∨ IsLoneReturn '\r' ('\n' :: y.toList)) := by simp [IsLoneReturn]
    rw [linesOf, htext, splitLines_append h.oneLine, splitLines, if_neg hpair, if_pos rfl, splitLines,
      if_pos (.inl rfl)]
    simp [linesOf]

theorem length_linesOf (s : String) : (linesOf s).length = lineEndsIn s.toList + 1 := by
  rw [linesOf, List.length_map, length_splitLines]

section

variable {α : Type} {row : α → String} {as : List α}

theorem join_cons_ended (a : α) (as : List α) :
    String.join ((a :: as).map row) ++ "\n" = row a ++ (String.join (as.map row) ++ "\n") := by
  apply String.toList_injective
  simp [String.toList_join]

/-- Rows that are lines are the lines of their text. -/
theorem linesOf_rows {P : α → String → Prop} (h : ∀ a ∈ as, ∃ l, IsLine (row a) l ∧ P a l) :
    ∃ ls, linesOf (String.join (as.map row) ++ "\n") = ls ++ ["", ""] ∧
      List.Forall₂ (fun a l => IsLine (row a) l ∧ P a l) as ls := by
  induction as with
  | nil =>
    rw [List.map_nil]
    exact ⟨[], by decide, .nil⟩
  | cons a as ih =>
    obtain ⟨⟨l, hl⟩, has⟩ := List.forall_mem_cons.1 h
    obtain ⟨ls, hlines, hls⟩ := ih has
    refine ⟨l :: ls, ?_, .cons hl hls⟩
    rw [join_cons_ended, linesOf_append hl.1, hlines, List.cons_append]

theorem lineEndsIn_join_cons {a : α} (h : IsEnded (row a)) (as : List α) :
    lineEndsIn (String.join ((a :: as).map row) ++ "\n").toList =
      lineEndsIn (row a).toList + lineEndsIn (String.join (as.map row) ++ "\n").toList := by
  obtain ⟨body, hbody⟩ := h
  rw [join_cons_ended, String.toList_append, hbody, String.toList_append]
  exact lineEndsIn_append_ended _ _

theorem IsEnded.lineEndsIn_pos {s : String} (h : IsEnded s) : 0 < lineEndsIn s.toList := by
  obtain ⟨body, rfl⟩ := h
  rw [String.toList_append]
  exact lineEndsIn_ended _

theorem length_lt_lineEndsIn (h : ∀ a ∈ as, IsEnded (row a)) :
    as.length < lineEndsIn (String.join (as.map row) ++ "\n").toList := by
  induction as with
  | nil =>
    show 0 < _
    rw [List.map_nil]
    decide
  | cons a as ih =>
    obtain ⟨ha, has⟩ := List.forall_mem_cons.1 h
    rw [lineEndsIn_join_cons ha, List.length_cons]
    have hrest := ih has
    have hfirst := ha.lineEndsIn_pos
    omega

/-- Rows that have no more ends of lines than there are rows are lines. -/
theorem isLine_of_count (h : ∀ a ∈ as, IsEnded (row a))
    (hcount : lineEndsIn (String.join (as.map row) ++ "\n").toList = as.length + 1) :
    ∀ a ∈ as, ∃ l, IsLine (row a) l := by
  induction as with
  | nil => simp
  | cons a as ih =>
    obtain ⟨ha, has⟩ := List.forall_mem_cons.1 h
    rw [lineEndsIn_join_cons ha, List.length_cons] at hcount
    have hrest := length_lt_lineEndsIn has
    have hfirst := ha.lineEndsIn_pos
    exact List.forall_mem_cons.2 ⟨(exists_isLine_iff ha).2 (by omega), ih has (by omega)⟩

/-- A table keeps its shape exactly when each of its rows is a line with the bars it should have. -/
theorem keepsShape_iff {titles rule : String} {name : α → String} (htitles : IsOneLine titles) (hrule : IsOneLine rule)
    (hended : ∀ a ∈ as, IsEnded (row a))
    (hname : ∀ a ∈ as, IsPlain (name a).toList ∧ (name a).toList <:+: (row a).toList) :
    KeepsShape titles rule (as.map name)
      (titles ++ "\n" ++ (rule ++ "\n" ++ (String.join (as.map row) ++ "\n"))) ↔
      ∀ a ∈ as, IsRow (bareBars titles) (row a) := by
  rw [KeepsShape, linesOf_append ⟨htitles, .inl rfl⟩, linesOf_append ⟨hrule, .inl rfl⟩]
  constructor
  · rintro ⟨ls, hlines, hnames⟩
    have hbody : linesOf (String.join (as.map row) ++ "\n") = ls ++ ["", ""] := by simpa using hlines
    have hcount : lineEndsIn (String.join (as.map row) ++ "\n").toList = as.length + 1 := by
      have hlength := congrArg List.length hbody
      have hnames := hnames.length_eq
      rw [length_linesOf, List.length_append] at hlength
      rw [List.length_map] at hnames
      simpa [hnames] using hlength
    obtain ⟨ls', hlines', hrows⟩ := linesOf_rows (P := fun _ _ => True) fun a ha =>
      (isLine_of_count hended hcount a ha).imp fun _ hl => ⟨hl, trivial⟩
    obtain rfl : ls' = ls := List.append_cancel_right (hlines'.symm.trans hbody)
    intro a ha
    obtain ⟨i, hi, rfl⟩ := List.getElem_of_mem ha
    have hi' : i < ls'.length := hrows.length_eq ▸ hi
    exact ⟨ls'[i], (hrows.get hi hi').1, (hnames.get (by simpa using hi) hi').2⟩
  · intro h
    obtain ⟨ls, hlines, hrows⟩ := linesOf_rows
      (P := fun a l => (name a).toList <:+: l.toList ∧ bareBars l = bareBars titles) fun a ha => by
        obtain ⟨l, hl, hbars⟩ := h a ha
        exact ⟨l, hl, hl.shows (hname a ha).1 (hname a ha).2, hbars⟩
    exact ⟨ls, by rw [hlines], List.forall₂_map_left_iff.2 (hrows.imp fun _ _ hl => hl.2)⟩

end

/-! ## Records -/

/-- The text of a cell adds no bar and no end of a line to its row. -/
def FitsCell (s : String) : Prop :=
  escapedBars s = 0 ∧ loneReturns s = 0

instance (s : String) : Decidable (FitsCell s) :=
  inferInstanceAs (Decidable (_ ∧ _))

/-- The text of a cell with a bar right behind it, which the text may escape in place of one that it adds. -/
def FitsBarredCell (s : String) : Prop :=
  escapedBars s = (if endsEscaping s = true then 1 else 0) ∧ loneReturns s = 0

instance (s : String) : Decidable (FitsBarredCell s) :=
  inferInstanceAs (Decidable (_ ∧ _))

/-- The text of a cell with the end of the row right behind it. -/
def FitsLastCell (s : String) : Prop :=
  escapedBars s = 0 ∧ loneReturns (s ++ "\n") = 0

instance (s : String) : Decidable (FitsLastCell s) :=
  inferInstanceAs (Decidable (_ ∧ _))

theorem isEnded_propertyRow (p : PropertyRow) : IsEnded (propertyRow p) :=
  ⟨"|" ++ p.name ++ "|" ++ cell p.comment ++ "|", String.toList_injective (by simp [propertyRow])⟩

theorem name_infix_propertyRow (p : PropertyRow) : p.name.toList <:+: (propertyRow p).toList :=
  ⟨['|'], '|' :: (cellChars p.comment.toList ++ ['|', '\n']), by simp [propertyRow, cell]⟩

theorem isRow_propertyRow {p : PropertyRow} (h : IsName p.name) :
    IsRow 3 (propertyRow p) ↔ FitsBarredCell p.comment := by
  rw [isRow_iff (isEnded_propertyRow p) (counts_propertyRow h), FitsBarredCell]
  split_ifs <;> omega

theorem isEnded_lastCell (s : String) : IsEnded (lastCell s) :=
  ⟨_, rfl⟩

theorem isEnded_typeParameterRow (p : TypeParameter) : IsEnded (typeParameterRow p) :=
  (isEnded_lastCell _).append _

theorem name_infix_typeParameterRow (p : TypeParameter) : p.name.toList <:+: (typeParameterRow p).toList :=
  ⟨"**\x60".toList, "\x60** |".toList ++ (lastCell p.description).toList, by simp [typeParameterRow, code]⟩

theorem isRow_typeParameterRow {p : TypeParameter} (h : IsName p.name) :
    IsRow 1 (typeParameterRow p) ↔ FitsLastCell p.description := by
  rw [isRow_iff (isEnded_typeParameterRow p) (counts_typeParameterRow h), FitsLastCell]
  omega

theorem isEnded_parameterRow (p : Parameter) : IsEnded (parameterRow p) :=
  (isEnded_lastCell _).append _

theorem name_infix_parameterRow (p : Parameter) : p.name.toList <:+: (parameterRow p).toList := by
  have htext : (parameterRow p).toList = (cell p.type ++ " **\x60").toList ++ p.name.toList ++
      ("\x60**" ++ p.default?.elim "" (fun d => " = " ++ code (cell d)) ++ " |" ++ lastCell p.description).toList := by
    simp only [parameterRow, code, String.toList_append, List.append_assoc]
    rfl
  exact ⟨_, _, htext.symm⟩

theorem isRow_parameterRow {p : Parameter} (h : IsName p.name) :
    IsRow 1 (parameterRow p) ↔ FitsCell p.type ∧ (∀ d ∈ p.default?, FitsCell d) ∧ FitsLastCell p.description := by
  have hdefault : (∀ d ∈ p.default?, FitsCell d) ↔
      p.default?.elim 0 escapedBars = 0 ∧ p.default?.elim 0 loneReturns = 0 := by
    cases p.default? <;> simp [FitsCell]
  rw [isRow_iff (isEnded_parameterRow p) (counts_parameterRow h), hdefault, FitsCell, FitsLastCell]
  omega

theorem keepsShape_propertyTable {rows : List PropertyRow} (h : ∀ p ∈ rows, IsName p.name) :
    KeepsShape "|Property|Description|" "|---|---|" (rows.map (·.name)) (fragment (.propertyTable rows)) ↔
      ∀ p ∈ rows, FitsBarredCell p.comment := by
  have htext : fragment (.propertyTable rows) = "|Property|Description|" ++ "\n" ++
      ("|---|---|" ++ "\n" ++ (String.join (rows.map propertyRow) ++ "\n")) := by
    have hhead : "|Property|Description|\n|---|---|\n" = "|Property|Description|" ++ "\n" ++ ("|---|---|" ++ "\n") := by
      decide
    show "|Property|Description|\n|---|---|\n" ++ String.join (rows.map propertyRow) ++ "\n" = _
    rw [hhead, String.append_assoc, String.append_assoc]
  have hbars : bareBars "|Property|Description|" = 3 := by decide
  rw [htext, keepsShape_iff (by decide) (by decide) (fun p _ => isEnded_propertyRow p)
    (fun p hp => ⟨(h p hp).isPlain, name_infix_propertyRow p⟩), hbars]
  exact forall₂_congr fun p hp => isRow_propertyRow (h p hp)

/-- The text of a table with the titles `title` and Description for records of some names, empty without records,
which keeps its shape exactly if `fits` holds. -/
structure IsTable (title : String) (names : List String) (fits : Prop) (text : String) : Prop where
  empty : names = [] → text = ""
  shape : names ≠ [] → (KeepsShape (title ++ "|Description") "---|---" names text ↔ fits)

theorem isTable_table {α : Type} {title : String} {row name : α → String} {fits : α → Prop} {as : List α}
    (htitle : IsOneLine title) (hended : ∀ a ∈ as, IsEnded (row a))
    (hname : ∀ a ∈ as, IsPlain (name a).toList ∧ (name a).toList <:+: (row a).toList)
    (hfits : ∀ a ∈ as, IsRow (bareBars (title ++ "|Description")) (row a) ↔ fits a) :
    IsTable title (as.map name) (∀ a ∈ as, fits a) (table title (as.map row)) where
  empty hnames := by
    rw [List.map_eq_nil_iff.1 hnames]
    rfl
  shape hnames := by
    have htext : table title (as.map row) = title ++ "|Description" ++ "\n" ++
        ("---|---" ++ "\n" ++ (String.join (as.map row) ++ "\n")) := by
      rw [table, if_neg (by simpa using hnames)]
      apply String.toList_injective
      simp
    rw [htext, keepsShape_iff (htitle.append (by decide)) (by decide) hended hname]
    exact forall₂_congr hfits

theorem isTable_typeParameters {ps : List TypeParameter} (h : ∀ p ∈ ps, IsName p.name) :
    IsTable "Type Parameter" (ps.map (·.name)) (∀ p ∈ ps, FitsLastCell p.description)
      (table "Type Parameter" (ps.map typeParameterRow)) := by
  have hbars : bareBars ("Type Parameter" ++ "|Description") = 1 := by decide
  refine isTable_table (by decide) (fun p _ => isEnded_typeParameterRow p)
    (fun p hp => ⟨(h p hp).isPlain, name_infix_typeParameterRow p⟩) fun p hp => ?_
  rw [hbars]
  exact isRow_typeParameterRow (h p hp)

theorem isTable_parameters {ps : List Parameter} (h : ∀ p ∈ ps, IsName p.name) :
    IsTable "Parameter" (ps.map (·.name))
      (∀ p ∈ ps, FitsCell p.type ∧ (∀ v ∈ p.default?, FitsCell v) ∧ FitsLastCell p.description)
      (table "Parameter" (ps.map parameterRow)) := by
  have hbars : bareBars ("Parameter" ++ "|Description") = 1 := by decide
  refine isTable_table (by decide) (fun p _ => isEnded_parameterRow p)
    (fun p hp => ⟨(h p hp).isPlain, name_infix_parameterRow p⟩) fun p hp => ?_
  rw [hbars]
  exact isRow_parameterRow (h p hp)

/-- The tables of a method or a constructor begin on lines of their own. -/
theorem isEnded_front (d : Declaration) (level : Nat) :
    IsEnded (entry d level ++ (if d.returns.isEmpty then "" else "**Returns:** " ++ d.returns ++ "\n\n")) := by
  have hpair : IsEnded "\n\n" := ⟨"\n", rfl⟩
  have hentry : IsEnded (entry d level) := by
    rw [entry]
    split
    · have hfence : IsEnded "\n\x60\x60\x60\n\n" := ⟨"\n\x60\x60\x60\n", rfl⟩
      rw [String.append_empty]
      exact hfence.append _
    · exact (hpair.append _).append _
  split
  · rwa [String.append_empty]
  · exact (hpair.append _).append _

/-- **Tables keep their shape exactly when the texts in them fit their cells.** A text fits its cell if no bar in it is
escaped already and none of its carriage returns stands without a line feed. The comment of a property may have one
such bar if it ends with a backslash itself, and a description may end with a carriage return. Any other bars and
ends of lines are allowed. -/
theorem tables_keepShape {rows : List PropertyRow} {d : Declaration} (level : Nat) (hrows : ∀ p ∈ rows, IsName p.name)
    (htypes : ∀ p ∈ d.typeParameters, IsName p.name) (hparameters : ∀ p ∈ d.parameters, IsName p.name) :
    (KeepsShape "|Property|Description|" "|---|---|" (rows.map (·.name)) (fragment (.propertyTable rows)) ↔
      ∀ p ∈ rows, FitsBarredCell p.comment) ∧
    ∃ front types parameters, fragment (.memberEntry d level) = front ++ "\n" ++ types ++ parameters ∧
      IsTable "Type Parameter" (d.typeParameters.map (·.name))
        (∀ p ∈ d.typeParameters, FitsLastCell p.description) types ∧
      IsTable "Parameter" (d.parameters.map (·.name))
        (∀ p ∈ d.parameters, FitsCell p.type ∧ (∀ v ∈ p.default?, FitsCell v) ∧ FitsLastCell p.description)
        parameters := by
  obtain ⟨front, hfront⟩ := isEnded_front d level
  have htext : fragment (.memberEntry d level) = front ++ "\n" ++
      table "Type Parameter" (d.typeParameters.map typeParameterRow) ++
      table "Parameter" (d.parameters.map parameterRow) := by
    rw [← hfront]
    rfl
  exact ⟨keepsShape_propertyTable hrows, front, _, _, htext, isTable_typeParameters htypes,
    isTable_parameters hparameters⟩

/-- Bars, ends of lines and backslashes in every cell. -/
theorem tables_keepShape_sample :
    ∃ (rows : List PropertyRow) (d : Declaration) (front types parameters : String),
      rows = [⟨"A", "a | b\r\nc"⟩, ⟨"@b", "\\| \\"⟩] ∧ d.typeParameters = [⟨"T", "||\n\r"⟩, ⟨"U", ""⟩] ∧
      d.parameters = [⟨"A<(B, C)>", "a", some "'|'", "\\"⟩, ⟨"int", "b", none, "c\r"⟩] ∧
      KeepsShape "|Property|Description|" "|---|---|" ["A", "@b"] (fragment (.propertyTable rows)) ∧
      fragment (.memberEntry d 3) = front ++ "\n" ++ types ++ parameters ∧
      KeepsShape "Type Parameter|Description" "---|---" ["T", "U"] types ∧
      KeepsShape "Parameter|Description" "---|---" ["a", "b"] parameters := by
  obtain ⟨hproperties, front, types, parameters, htext, htypes, hparameters⟩ :=
    @tables_keepShape [⟨"A", "a | b\r\nc"⟩, ⟨"@b", "\\| \\"⟩]
      ⟨.method, "M", "void M<T, U>(A<(B, C)> a = '|', int b)", "", "",
        [⟨"A<(B, C)>", "a", some "'|'", "\\"⟩, ⟨"int", "b", none, "c\r"⟩], [⟨"T", "||\n\r"⟩, ⟨"U", ""⟩]⟩
      3 (by decide +kernel) (by decide +kernel) (by decide +kernel)
  exact ⟨_, _, front, types, parameters, rfl, rfl, rfl, hproperties.2 (by decide +kernel), htext,
    (htypes.shape (by simp)).2 (by decide +kernel), (hparameters.shape (by simp)).2 (by decide +kernel)⟩

/-- A bar that a comment has escaped makes a cell of its own, and a carriage return by itself makes a line. -/
theorem tables_not_always_keepShape :
    (fragment (.propertyTable [⟨"A", "a \\| b"⟩]) = "|Property|Description|\n|---|---|\n|A|a \\\\| b|\n\n" ∧
      ¬ KeepsShape "|Property|Description|" "|---|---|" ["A"] (fragment (.propertyTable [⟨"A", "a \\| b"⟩]))) ∧
    ∃ front text, fragment (.memberEntry ⟨.method, "M", "void M(int a)", "", "", [⟨"int", "a", none, "b\rc"⟩], []⟩ 3) =
        front ++ "\n" ++ text ∧
      text = "Parameter|Description\n---|---\nint **\x60a\x60** | b\rc\n\n" ∧
      ¬ KeepsShape "Parameter|Description" "---|---" ["a"] text := by
  have hproperties := @keepsShape_propertyTable [⟨"A", "a \\| b"⟩] (by decide)
  have hparameters := @isTable_parameters [⟨"int", "a", none, "b\rc"⟩] (by decide)
  exact ⟨⟨by decide +kernel, hproperties.not.2 (by decide)⟩,
    "### method \x60M\x60\n\x60\x60\x60csharp\nvoid M(int a)\n\x60\x60\x60\n", _, by decide +kernel, by decide +kernel,
    (hparameters.shape (by simp)).not.2 (by decide)⟩

end DocPages.Markdown
