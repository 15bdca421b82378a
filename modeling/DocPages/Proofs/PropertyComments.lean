/-
The comment that a property is shown with. What is kept of the trivia in front of
a declaration is their longest end without a documentation comment and without
the end of a blank line (`attached_longest`), so a comment in front of a property
is among what is kept unless it stands apart from it (`IsApart`): above a blank line or
a documentation comment, or behind a token on its line (`suffix_iff_isApart`). The row of a property shows
what the plain comments there say, or else the first one behind it
(`property_showsOwnComment`).
-/
import Mathlib.Data.List.TakeWhile
import DocPages.Declaration
import DocPages.Proofs.Reformatting
import DocPages.Proofs.TreeGrammar

namespace DocPages

open Source Unicode

/-! ## Blank lines -/

/-- The line that the lexemes end with holds nothing but white space. -/
def IsBlankLine (before : List Lexeme) : Prop :=
  ∃ earlier line, before = earlier ++ line ∧ (∀ l, earlier.getLast? = some l → l.kind = .trivia .endOfLine) ∧
    ∀ l ∈ line, l.kind = .trivia .whitespace

/-- What cuts comments off from what comes behind it: a documentation comment, and the end of a blank line. -/
def Cuts (before : List Lexeme) (l : Lexeme) : Prop :=
  l.kind = .trivia .docComment ∨ l.kind = .trivia .endOfLine ∧ IsBlankLine before

/-- Nothing cuts the lexemes `s`, which `front` stands in front of. -/
def Unbroken (front s : List Lexeme) : Prop :=
  ∀ a l b, s = a ++ l :: b → ¬ Cuts (front ++ a) l

section

variable {front s before : List Lexeme} {l : Lexeme}

theorem isBlankLine_nil : IsBlankLine [] :=
  ⟨[], [], rfl, by simp, by simp⟩

theorem isBlankLine_concat :
    IsBlankLine (before ++ [l]) ↔
      l.kind = .trivia .endOfLine ∨ l.kind = .trivia .whitespace ∧ IsBlankLine before := by
  constructor
  · rintro ⟨earlier, line, he, hearlier, hline⟩
    rcases List.eq_nil_or_concat line with rfl | ⟨line, l', rfl⟩
    · rw [List.append_nil] at he
      exact .inl (hearlier l (by simp [← he]))
    · rw [List.concat_eq_append, ← List.append_assoc] at he
      obtain ⟨rfl, hl⟩ := List.append_inj' he rfl
      obtain rfl : l = l' := by simpa using hl
      exact .inr ⟨hline l (by simp), earlier, line, rfl, hearlier, fun m hm => hline m (by simp [hm])⟩
  · rintro (hl | ⟨hl, earlier, line, rfl, hearlier, hline⟩)
    · refine ⟨before ++ [l], [], by simp, fun m hm => ?_, by simp⟩
      obtain rfl : l = m := by simpa using hm
      exact hl
    · refine ⟨earlier, line ++ [l], by simp, hearlier, fun m hm => ?_⟩
      rcases List.mem_append.1 hm with hm | hm
      · exact hline m hm
      · rw [List.mem_singleton.1 hm]
        exact hl

theorem unbroken_nil : Unbroken front [] := by
  intro a l b h
  simp at h

theorem Unbroken.concat (h : Unbroken front s) (hl : ¬ Cuts (front ++ s) l) : Unbroken front (s ++ [l]) := by
  intro a m b he
  rcases List.eq_nil_or_concat b with rfl | ⟨b, m', rfl⟩
  · obtain ⟨rfl, hm⟩ := List.append_inj' he rfl
    obtain rfl : l = m := by simpa using hm
    exact hl
  · rw [List.concat_eq_append, ← List.cons_append, ← List.append_assoc] at he
    exact h a m b (List.append_inj' he rfl).1

end

/-! ## What is kept of leading trivia -/

def lexemesOf (run : List Trivia) : List Lexeme :=
  run.map Trivia.lexeme

@[simp] theorem lexemesOf_append (run run' : List Trivia) : lexemesOf (run ++ run') = lexemesOf run ++ lexemesOf run' :=
  List.map_append

/-- Nothing cuts the trivia `s`, and something does right before them unless they are all there are. -/
structure IsKept (front s : List Trivia) : Prop where
  unbroken : Unbroken (lexemesOf front) (lexemesOf s)
  cut : front = [] ∨ ∃ f t, front = f ++ [t] ∧ Cuts (lexemesOf f) t.lexeme

theorem isKept_cut {front : List Trivia} {t : Trivia} (h : Cuts (lexemesOf front) t.lexeme) :
    IsKept (front ++ [t]) [] :=
  ⟨unbroken_nil, .inr ⟨front, t, rfl, h⟩⟩

theorem IsKept.concat {front s : List Trivia} {t : Trivia} (h : IsKept front s)
    (ht : ¬ Cuts (lexemesOf (front ++ s)) t.lexeme) : IsKept front (s ++ [t]) := by
  refine ⟨?_, h.cut⟩
  rw [lexemesOf_append]
  exact h.unbroken.concat (by rwa [lexemesOf_append] at ht)

/-- Where a scan stands: it has kept `s`, and it knows whether the line is blank so far. -/
structure Scanned (front s : List Trivia) (blank : Bool) : Prop where
  kept : IsKept front s
  blank_iff : blank = true ↔ IsBlankLine (lexemesOf (front ++ s))

section

variable {front s : List Trivia} {t : Trivia} {blank blank' : Bool}

theorem isBlankLine_trivia (run : List Trivia) : IsBlankLine (lexemesOf (run ++ [t])) ↔
    t.kind = .endOfLine ∨ t.kind = .whitespace ∧ IsBlankLine (lexemesOf run) := by
  have hlast : lexemesOf (run ++ [t]) = lexemesOf run ++ [t.lexeme] := by simp [lexemesOf]
  rw [hlast, isBlankLine_concat]
  simp [Trivia.lexeme]

theorem Scanned.more (h : Scanned front s blank) (hcut : ¬ Cuts (lexemesOf (front ++ s)) t.lexeme)
    (hblank : blank' = true ↔ t.kind = .endOfLine ∨ t.kind = .whitespace ∧ blank = true) :
    Scanned front (s ++ [t]) blank' where
  kept := h.kept.concat hcut
  blank_iff := by rw [hblank, ← List.append_assoc, isBlankLine_trivia, h.blank_iff]

theorem Scanned.anew (hcut : Cuts (lexemesOf (front ++ s)) t.lexeme) (hblank : blank' = true ↔ t.kind = .endOfLine) :
    Scanned (front ++ s ++ [t]) [] blank' where
  kept := isKept_cut hcut
  blank_iff := by
    have hwhite : t.kind ≠ .whitespace := by
      rintro hk
      rcases hcut with hcut | ⟨hcut, -⟩ <;> simp [Trivia.lexeme, hk] at hcut
    rw [hblank, List.append_nil, isBlankLine_trivia]
    simp [hwhite]

theorem attachedFrom_isKept {rest : List Trivia} (h : Scanned front s blank) :
    ∃ front', front ++ (s ++ rest) = front' ++ attachedFrom (s ++ rest) blank rest ∧
      IsKept front' (attachedFrom (s ++ rest) blank rest) := by
  induction rest generalizing front s blank with
  | nil =>
    rw [List.append_nil]
    exact ⟨front, rfl, h.kept⟩
  | cons t rest ih =>
    -- Either the scan goes on with one more, or it starts anew behind what cuts.
    have hmore : ∀ blank', Scanned front (s ++ [t]) blank' →
        ∃ front', front ++ (s ++ t :: rest) = front' ++ attachedFrom (s ++ t :: rest) blank' rest ∧
          IsKept front' (attachedFrom (s ++ t :: rest) blank' rest) := fun blank' hnext => by
      simpa using ih hnext
    have hanew : ∀ blank', Scanned (front ++ s ++ [t]) [] blank' →
        ∃ front', front ++ (s ++ t :: rest) = front' ++ attachedFrom rest blank' rest ∧
          IsKept front' (attachedFrom rest blank' rest) := fun blank' hnext => by
      simpa using ih hnext
    cases hk : t.kind with
    | whitespace =>
      simp only [attachedFrom, hk]
      exact hmore blank (h.more (by simp [Cuts, Trivia.lexeme, hk]) (by simp [hk]))
    | endOfLine =>
      simp only [attachedFrom, hk]
      by_cases hb : blank = true
      · rw [if_pos hb]
        exact hanew true (.anew (.inr ⟨congrArg _ hk, h.blank_iff.1 hb⟩) (by simp [hk]))
      · rw [if_neg hb]
        refine hmore true (h.more ?_ (by simp [hk]))
        rintro (hcut | ⟨-, hcut⟩)
        · simp [Trivia.lexeme, hk] at hcut
        · exact hb (h.blank_iff.2 hcut)
    | docComment =>
      simp only [attachedFrom, hk]
      exact hanew false (.anew (.inl (congrArg _ hk)) (by simp [hk]))
    | lineComment | blockComment | directive =>
      simp only [attachedFrom, hk]
      exact hmore false (h.more (by simp [Cuts, Trivia.lexeme, hk]) (by simp [hk]))

end

theorem attached_isKept (run : List Trivia) : ∃ front, run = front ++ attached run ∧ IsKept front (attached run) := by
  have h : Scanned [] [] true := ⟨⟨unbroken_nil, .inl rfl⟩, iff_of_true rfl isBlankLine_nil⟩
  exact attachedFrom_isKept h

/-- The longest end of some trivia that nothing cuts. -/
structure IsLongestUnbroken (run s : List Trivia) : Prop where
  unbroken : ∃ front, run = front ++ s ∧ Unbroken (lexemesOf front) (lexemesOf s)
  longest : ∀ front s', run = front ++ s' → Unbroken (lexemesOf front) (lexemesOf s') → s' <:+ s

/-- **What is kept of leading trivia is the longest end that nothing cuts.** -/
theorem attached_longest (run : List Trivia) : IsLongestUnbroken run (attached run) := by
  obtain ⟨front, hrun, hkept⟩ := attached_isKept run
  refine ⟨⟨front, hrun, hkept.unbroken⟩, fun front' s' hrun' hunbroken => ?_⟩
  rcases List.append_eq_append_iff.1 (hrun.symm.trans hrun') with ⟨x, -, hs⟩ | ⟨x, hfront, hs⟩
  · exact ⟨x, hs.symm⟩
  · -- The other end begins further in front, unless what stands between them cuts it.
    rcases List.eq_nil_or_concat x with rfl | ⟨x, t, rfl⟩
    · rw [hs]
      exact List.suffix_rfl
    · rw [List.concat_eq_append] at hfront hs
      obtain hnil | ⟨f, t', hcut, hcuts⟩ := hkept.cut
      · rw [hnil] at hfront
        simp at hfront
      · rw [hcut, ← List.append_assoc] at hfront
        obtain ⟨rfl, ht⟩ := List.append_inj' hfront rfl
        obtain rfl : t' = t := by simpa using ht
        rw [lexemesOf_append] at hcuts
        exact absurd hcuts (hunbroken (lexemesOf x) t'.lexeme (lexemesOf (attached run)) (by simp [hs, lexemesOf]))

/-! ## What comments say -/

/-- The text behind all slashes that a comment begins with, without the white space around it. -/
def Tells (comment said : String) : Prop :=
  ∃ slashes lead gap, comment.toList = '/' :: '/' :: (slashes ++ (lead ++ (said.toList ++ gap))) ∧
    (∀ c ∈ slashes, c = '/') ∧ (lead ++ (said.toList ++ gap)).head? ≠ some '/' ∧
    (∀ c ∈ lead ++ gap, isBlank c = true) ∧
    (∀ c, said.toList.head? = some c ∨ said.toList.getLast? = some c → isBlank c = false)

/-- What the plain comments among some trivia say, in their order, those left out that say nothing. -/
inductive SaidIn : List Trivia → List String → Prop where
  | nil : SaidIn [] []
  | comment {t : Trivia} {run : List Trivia} {said : String} {others : List String} (kind : t.kind = .lineComment)
      (text : Tells t.text said) (nonempty : said ≠ "") (rest : SaidIn run others) : SaidIn (t :: run) (said :: others)
  | silent {t : Trivia} {run : List Trivia} {others : List String} (kind : t.kind = .lineComment)
      (text : Tells t.text "") (rest : SaidIn run others) : SaidIn (t :: run) others
  | other {t : Trivia} {run : List Trivia} {others : List String} (kind : t.kind ≠ .lineComment)
      (rest : SaidIn run others) : SaidIn (t :: run) others

/-- A text lies between the white space that trimming takes from its ends. -/
theorem exists_trim (s : List Char) :
    ∃ lead gap, s = lead ++ (trim s ++ gap) ∧ ∀ c ∈ lead ++ gap, isBlank c = true := by
  refine ⟨s.takeWhile isBlank, ((trimStart s).reverse.takeWhile isBlank).reverse, ?_, ?_⟩
  · rw [trim, trimEnd, ← List.reverse_append, List.takeWhile_append_dropWhile, List.reverse_reverse, trimStart,
      List.takeWhile_append_dropWhile]
  · intro c hc
    rcases List.mem_append.1 hc with hc | hc
    · exact List.mem_takeWhile_imp hc
    · exact List.mem_takeWhile_imp (List.mem_reverse.1 hc)

theorem tells_plainComment {text : String} (h : ['/', '/'] <+: text.toList) : Tells text (plainComment text) := by
  obtain ⟨s, hs⟩ := h
  have htoList : (plainComment text).toList = trim (s.dropWhile (· = '/')) := by
    have hslashes : "//".toList.isPrefixOf text.toList = true := by rw [← hs]; rfl
    simp only [plainComment, if_pos hslashes, trimmed, String.toList_ofList]
    rw [← hs]
    rfl
  obtain ⟨lead, gap, hsplit, hblank⟩ := exists_trim (s.dropWhile (· = '/'))
  refine ⟨s.takeWhile (· = '/'), lead, gap, ?_, ?_, ?_, hblank, ?_⟩
  · rw [htoList, ← hsplit, List.takeWhile_append_dropWhile, ← hs]
    rfl
  · exact fun c hc => by simpa using List.mem_takeWhile_imp hc
  · rw [htoList, ← hsplit]
    intro hhead
    have hnot := List.head?_dropWhile_not (· = '/') s
    rw [hhead] at hnot
    simp at hnot
  · rw [htoList]
    exact fun c hc => hc.elim isBlank_of_head?_trim isBlank_of_getLast?_trim

theorem plainComments_cons (t : Trivia) (run : List Trivia) :
    plainComments (t :: run) =
      if t.kind = .lineComment ∧ plainComment t.text ≠ "" then plainComment t.text :: plainComments run
      else plainComments run := by
  by_cases hk : t.kind = .lineComment
  · by_cases hs : plainComment t.text = "" <;> simp [plainComments, hk, hs]
  · simp [plainComments, hk]

/-- Every plain comment is told by its two slashes. -/
def SlashesOpen (run : List Trivia) : Prop :=
  ∀ t ∈ run, t.kind = .lineComment → ['/', '/'] <+: t.text.toList

theorem saidIn_plainComments {run : List Trivia} (h : SlashesOpen run) : SaidIn run (plainComments run) := by
  induction run with
  | nil => exact .nil
  | cons t run ih =>
    have hrest := ih fun u hu => h u (List.mem_cons_of_mem t hu)
    rw [plainComments_cons]
    by_cases hk : t.kind = .lineComment
    · have htells := tells_plainComment (h t List.mem_cons_self hk)
      by_cases hs : plainComment t.text = ""
      · rw [if_neg (by simp [hs])]
        exact .silent hk (hs ▸ htells) hrest
      · rw [if_pos ⟨hk, hs⟩]
        exact .comment hk htells hs hrest
    · rw [if_neg (by simp [hk])]
      exact .other hk hrest

/-- A plain comment of a source begins with two slashes. -/
theorem slashes_of_mem_lexemes {s : List Char} {l : Lexeme} (hl : l ∈ lexemes s) (hk : l.kind = .trivia .lineComment) :
    ['/', '/'] <+: l.text.toList := by
  fun_induction lexemes s with
  | case1 => cases hl
  | case2 c rest kind n hr ih =>
    rcases List.mem_cons.1 hl with rfl | hl
    · obtain rfl : kind = .trivia .lineComment := hk
      cases triviaReach_of_reach hr with
      | comment hc =>
        rw [hc, reach_eq] at hr
        obtain ⟨r, rfl⟩ := exists_of_slashReach hr
        have hlength : lineLength ('/' :: r) = lineLength r + 1 := by
          rw [lineLength, countWhile_cons, Nat.add_comm]
          rfl
        exact ⟨r.take (lineLength r), by simp [hc, hlength]⟩
    · exact ih hl

/-! ## Comments that stand apart -/

/-- What parts a comment `c` from what comes behind the lexemes `x ++ c :: y`. -/
inductive IsApart (x : List Lexeme) (c : Lexeme) (y : List Lexeme) : Prop where
  /-- A blank line behind the comment. -/
  | blankLine {u v : List Lexeme} {e : Lexeme} (split : y = u ++ e :: v) (kind : e.kind = .trivia .endOfLine)
      (blank : IsBlankLine (x ++ c :: u))
  | docComment {d : Lexeme} (mem : d ∈ y) (kind : d.kind = .trivia .docComment)
  | token {t : Lexeme} {k : TokenKind} (mem : t ∈ y) (kind : t.kind = .token k)
  /-- The comment is behind a token on its line. -/
  | trailing {u v : List Lexeme} {t : Lexeme} {k : TokenKind} (split : x = u ++ t :: v) (kind : t.kind = .token k)
      (line : ∀ l ∈ v, l.kind ≠ .trivia .endOfLine)

/-- What stands in front of the leading trivia of a token: nothing, or another token with its trivia, which end their
line if there are any behind them. -/
inductive Precedes (leading : List Trivia) : List Lexeme → Prop where
  | start : Precedes leading []
  | token {front : List Lexeme} {t : Token} (line : ∀ e ∈ t.trailing.dropLast, e.kind ≠ .endOfLine)
      (ended : leading ≠ [] → EndsLine t.trailing) : Precedes leading (front ++ t.lexemes)

theorem append_eq_append_cons {α : Type} {p q x y : List α} {c : α} (h : p ++ q = x ++ c :: y) :
    (∃ y', p = x ++ c :: y' ∧ y = y' ++ q) ∨ ∃ x', x = p ++ x' ∧ q = x' ++ c :: y := by
  rcases List.append_eq_append_iff.1 h with ⟨x', hx, hq⟩ | ⟨y', hp, hy⟩
  · exact .inr ⟨x', hx, hq⟩
  · cases y' with
    | nil => exact .inr ⟨[], by simpa using hp.symm, hy.symm⟩
    | cons c' y' =>
      obtain ⟨rfl, rfl⟩ := List.cons.inj hy
      exact .inl ⟨y', hp, rfl⟩

theorem kind_of_mem_lexemesOf {run : List Trivia} {l : Lexeme} (h : l ∈ lexemesOf run) (k : TokenKind) :
    l.kind ≠ .token k := by
  obtain ⟨t, -, rfl⟩ := List.mem_map.1 h
  nofun

theorem getLast?_lexemes {t : Token} {e : Trivia} (h : t.trailing.getLast? = some e) (front : List Lexeme) :
    (front ++ t.lexemes).getLast? = some e.lexeme := by
  simp [Token.lexemes, List.getLast?_append, List.getLast?_cons, List.getLast?_map, h]

section

variable {before x y : List Lexeme} {leading s : List Trivia} {c : Lexeme}

/-- Whether a line is blank is told by what is behind anything in it that is no white space. -/
theorem isBlankLine_behind (hc : c.kind ≠ .trivia .whitespace) (u : List Lexeme) :
    IsBlankLine (x ++ c :: u) ↔ IsBlankLine (c :: u) := by
  induction u using List.reverseRecOn with
  | nil =>
    rw [isBlankLine_concat, ← List.nil_append [c], isBlankLine_concat]
    simp [hc]
  | append_singleton u l ih =>
    rw [← List.cons_append, ← List.append_assoc, isBlankLine_concat, isBlankLine_concat, ih]

/-- What is not kept stands apart. -/
theorem IsKept.isApart {f : List Trivia} (h : IsKept f s) (hp : Precedes leading before)
    (hc : c.kind = .trivia .lineComment) (hsplit : before ++ lexemesOf f = x ++ c :: y) :
    IsApart x c (y ++ lexemesOf s) := by
  rcases append_eq_append_cons hsplit with ⟨y', hbefore, rfl⟩ | ⟨a, rfl, hf⟩
  · cases hp with
    | start => simp at hbefore
    | @token front t line _ =>
      rw [Token.lexemes, ← List.append_assoc] at hbefore
      rcases append_eq_append_cons hbefore with ⟨y'', -, rfl⟩ | ⟨a, rfl, htrailing⟩
      · exact .token (t := t.lexeme) (by simp) rfl
      · cases a with
        | nil =>
          obtain ⟨rfl, -⟩ := List.cons.inj htrailing
          cases hc
        | cons l a =>
          obtain ⟨rfl, hline⟩ := List.cons.inj htrailing
          refine .trailing rfl rfl fun l hl heol => ?_
          have hmem : l ∈ (t.trailing.map Trivia.lexeme).dropLast := by
            rw [show t.trailing.map Trivia.lexeme = a ++ c :: y' from hline, List.dropLast_append_of_ne_nil (by simp)]
            exact List.mem_append_left _ hl
          rw [← List.map_dropLast] at hmem
          obtain ⟨e, he, rfl⟩ := List.mem_map.1 hmem
          exact line e he (LexemeKind.trivia.inj heol)
  · obtain rfl | ⟨g, t, rfl, hcut⟩ := h.cut
    · simp [lexemesOf] at hf
    · rw [lexemesOf_append] at hf
      rcases append_eq_append_cons hf with ⟨y', hg, rfl⟩ | ⟨a', -, hlast⟩
      · -- What cuts is behind the comment.
        rcases hcut with hdoc | ⟨heol, hblank⟩
        · exact .docComment (d := t.lexeme) (by simp [lexemesOf]) hdoc
        · refine .blankLine (u := y') (e := t.lexeme) (v := lexemesOf s) (by simp [lexemesOf]) heol ?_
          rw [isBlankLine_behind (by simp [hc])]
          rwa [hg, isBlankLine_behind (by simp [hc])] at hblank
      · -- The comment itself does not cut.
        have hself : t.lexeme = c := by
          cases a' with
          | nil => exact (List.cons.inj hlast).1
          | cons l a' => simp [lexemesOf] at hlast
        rw [Cuts, hself, hc] at hcut
        rcases hcut with hcut | ⟨hcut, -⟩ <;> cases hcut

/-- What is kept does not stand apart. -/
theorem IsKept.not_isApart {f : List Trivia} (h : IsKept f s) (hp : Precedes (f ++ s) before)
    (hc : c.kind = .trivia .lineComment) (hsplit : lexemesOf s = x ++ c :: y) :
    ¬ IsApart (before ++ lexemesOf f ++ x) c y := by
  have htoken : ∀ l ∈ lexemesOf f ++ x, ∀ k, l.kind ≠ .token k := fun l hl => by
    have hmem : l ∈ lexemesOf (f ++ s) := by
      rw [lexemesOf_append, hsplit, ← List.append_assoc]
      exact List.mem_append_left _ hl
    exact kind_of_mem_lexemesOf hmem
  rintro (⟨rfl, heol, hblank⟩ | ⟨hmem, hdoc⟩ | ⟨hmem, hkind⟩ | ⟨hx, hkind, hline⟩)
  case blankLine u v e =>
    refine h.unbroken (x ++ c :: u) e v (by simp [hsplit]) (.inr ⟨heol, ?_⟩)
    rw [isBlankLine_behind (by simp [hc])] at hblank
    rwa [← List.append_assoc, isBlankLine_behind (by simp [hc])]
  case docComment d =>
    obtain ⟨u, v, rfl⟩ := List.append_of_mem hmem
    exact h.unbroken (x ++ c :: u) d v (by simp [hsplit]) (.inl hdoc)
  case token t k =>
    exact kind_of_mem_lexemesOf (by rw [hsplit]; simp [hmem]) k hkind
  case trailing u v t k =>
    rw [List.append_assoc] at hx
    rcases append_eq_append_cons hx with ⟨v', hbefore, rfl⟩ | ⟨u', -, hmem⟩
    · cases hp with
      | start => simp at hbefore
      | token _ ended =>
        -- The line of the token is ended in front of the leading trivia.
        have hne : f ++ s ≠ [] := fun he => by
          rw [(List.append_eq_nil_iff.1 he).2] at hsplit
          simp [lexemesOf] at hsplit
        obtain ⟨e, he, heol⟩ := ended hne
        have hlast := congrArg List.getLast? hbefore
        rw [getLast?_lexemes he] at hlast
        rcases List.eq_nil_or_concat v' with rfl | ⟨v', l, rfl⟩
        · obtain rfl : e.lexeme = t := by simpa using hlast
          cases hkind
        · obtain rfl : e.lexeme = l := by simpa [List.getLast?_cons] using hlast
          exact hline e.lexeme (by simp) (congrArg _ heol)
    · exact htoken t (by rw [hmem]; simp) k hkind

/-- Of the plain comments in front of a token, those that do not stand apart from it are kept. -/
theorem suffix_iff_isApart (hp : Precedes leading before) (hc : c.kind = .trivia .lineComment)
    (hsplit : before ++ lexemesOf leading = x ++ c :: y) :
    lexemesOf (attached leading) <:+ y ↔ IsApart x c y := by
  obtain ⟨f, hrun, hkept⟩ := attached_isKept leading
  rw [hrun, lexemesOf_append, ← List.append_assoc] at hsplit
  rcases append_eq_append_cons hsplit with ⟨y', hfront, rfl⟩ | ⟨x', rfl, hs⟩
  · exact iff_of_true (List.suffix_append y' _) (hkept.isApart hp hc hfront)
  · rw [hrun] at hp
    refine iff_of_false (fun hsuffix => ?_) (hkept.not_isApart hp hc hs)
    have hlength := hsuffix.length_le
    rw [hs, List.length_append, List.length_cons] at hlength
    omega

end

/-! ## Properties of a source -/

/-- What stands in front of a token of a source. -/
theorem precedes_of_token {source : String} {i : Nat} (hi : i < (TokenStream.ofSource source).tokens.length) :
    Precedes (TokenStream.ofSource source).tokens[i].leading
      (((TokenStream.ofSource source).tokens.take i).flatMap Token.lexemes) := by
  obtain ⟨-, -, hplaced⟩ := TokenStream.ofSource_lossless source
  cases i with
  | zero => exact .start
  | succ i =>
    rw [← List.take_concat_get' _ i (by omega), List.flatMap_append, List.flatMap_singleton]
    exact .token (hplaced.line _ (List.getElem_mem _)) (hplaced.leading.getElem i hi)

/-- In a source, too, those comments in front of a token are kept that do not stand apart from it. -/
theorem exists_kept {source : String} {i : Nat} {t : Token} (h : (TokenStream.ofSource source).tokens[i]? = some t) :
    ∃ before after, lexemes source.toList = before ++ lexemesOf t.leading ++ t.lexeme :: after ∧
      bares before = ((TokenStream.ofSource source).tokens.take i).map Token.bare ∧
      ∀ x c y, before ++ lexemesOf t.leading = x ++ c :: y → c.kind = .trivia .lineComment →
        (lexemesOf (attached t.leading) <:+ y ↔ IsApart x c y) := by
  obtain ⟨hi, rfl⟩ := List.getElem?_eq_some_iff.1 h
  have hlexemes := (TokenStream.ofSource source).lexemes_split hi
  rw [(TokenStream.ofSource_lossless source).1, Token.lexemes, List.append_assoc, List.cons_append,
    ← List.append_assoc] at hlexemes
  exact ⟨_, _, hlexemes, bares_tokens _, fun x c y hsplit hc => suffix_iff_isApart (precedes_of_token hi) hc hsplit⟩

/-- The comment of a node: what the plain comments in front of it say that do not stand apart from it, or else the
first one behind it that says anything, on its last line. -/
structure HasComment (source : String) (n : Node) (comment : String) (first last : Token)
    (above behind : List String) : Prop where
  begins : (TokenStream.ofSource source).tokens[n.start]? = some first
  ends : n.start < n.stop ∧ (TokenStream.ofSource source).tokens[n.stop - 1]? = some last
  saidAbove : SaidIn (attached first.leading) above
  saidBehind : SaidIn last.trailing behind
  shown : comment = if above = [] then behind.headD "" else " ".intercalate above
  kept : ∃ before after, lexemes source.toList = before ++ lexemesOf first.leading ++ first.lexeme :: after ∧
    bares before = ((TokenStream.ofSource source).tokens.take n.start).map Token.bare ∧
    ∀ x c y, before ++ lexemesOf first.leading = x ++ c :: y → c.kind = .trivia .lineComment →
      (lexemesOf (attached first.leading) <:+ y ↔ IsApart x c y)
  line : ∀ e ∈ last.trailing.dropLast, e.kind ≠ .endOfLine

section

variable {source : String} {p : Place}

/-- A property has tokens, its name among them. -/
theorem property_covers (hp : p ∈ (Tree.ofSource source).places) (hk : p.node.kind = .property) :
    p.node.start < p.node.stop ∧ p.node.stop ≤ (TokenStream.ofSource source).tokens.length := by
  have hframed : Framed _ p.node := ((Tree.ofTokens_framed _).placesFrom hp).here
  have hnamed : p.node.kind.isNamed = true := by rw [hk]; rfl
  obtain ⟨i, hi⟩ := Option.isSome_iff_exists.1 (((Tree.ofTokens_conforms _).placesFrom hp).here.named hnamed)
  have hinside := (hframed.parts.name i hi).inside
  exact ⟨by omega, hframed.inside⟩

theorem slashesOpen_of_subset {run : List Trivia} (h : run ⊆ (TokenStream.ofSource source).trivia) :
    SlashesOpen run := by
  intro t ht hk
  have hmem := TokenStream.lexeme_mem_of_trivia (h ht)
  rw [(TokenStream.ofSource_lossless source).1] at hmem
  exact slashes_of_mem_lexemes hmem (congrArg LexemeKind.trivia hk)

theorem around_subset {t : Token} (ht : t ∈ (TokenStream.ofSource source).tokens) :
    t.leading ++ t.trailing ⊆ (TokenStream.ofSource source).trivia :=
  fun _ he => List.mem_append_left _ (List.mem_flatMap.2 ⟨t, ht, he⟩)

theorem Source.Tree.leading_eq {n : Node} {t : Token} (ht : (Tree.ofSource source).tokens[n.start]? = some t)
    (hn : n.start < n.stop) : (Tree.ofSource source).leading n = t.leading := by
  rw [Tree.leading, Tree.tokensOf, List.head?_take, if_neg (by omega), List.head?_drop, ht, Option.elim_some]

theorem Source.Tree.trailing_eq {n : Node} {t : Token} (ht : (Tree.ofSource source).tokens[n.stop - 1]? = some t)
    (hn : n.start < n.stop) (hstop : n.stop ≤ (TokenStream.ofSource source).tokens.length) :
    (Tree.ofSource source).trailing n = t.trailing := by
  have hlength : ((Tree.ofSource source).tokensOf n).length = n.stop - n.start := by
    rw [Tree.tokensOf, List.length_take, List.length_drop]
    exact Nat.min_eq_left (Nat.sub_le_sub_right hstop _)
  have hlast : ((Tree.ofSource source).tokensOf n).getLast? = some t := by
    rw [List.getLast?_eq_getElem?, hlength, Tree.tokensOf, List.getElem?_take_of_lt (by omega), List.getElem?_drop,
      show n.start + (n.stop - n.start - 1) = n.stop - 1 by omega, ht]
  rw [Tree.trailing, hlast, Option.elim_some]

end

/-- **The comment that is shown for a property is its own.** What is kept of the trivia in front of a declaration is
their longest end without a documentation comment and the end of a blank line. Of the plain comments anywhere in front
of a property, those are kept that no blank line, documentation comment or token parts from it and that are not behind
a token on their line; the property is shown with what they say, or else with what the first comment behind it says, on
its last line. -/
theorem property_showsOwnComment (source : String) :
    (∀ run, IsLongestUnbroken run (attached run)) ∧
    ∀ p ∈ (Tree.ofSource source).places, p.node.kind = .property → ∃ first last above behind,
      HasComment source p.node ((Tree.ofSource source).propertyRow p.node).comment first last above behind := by
  refine ⟨attached_longest, fun p hp hk => ?_⟩
  obtain ⟨hn, hstop⟩ := property_covers hp hk
  obtain ⟨first, hfirst⟩ : ∃ t, (TokenStream.ofSource source).tokens[p.node.start]? = some t :=
    ⟨_, List.getElem?_eq_getElem (by omega)⟩
  obtain ⟨last, hlast⟩ : ∃ t, (TokenStream.ofSource source).tokens[p.node.stop - 1]? = some t :=
    ⟨_, List.getElem?_eq_getElem (by omega)⟩
  have hfirstTrivia := around_subset (List.mem_of_getElem? hfirst)
  have hlastTrivia := around_subset (List.mem_of_getElem? hlast)
  obtain ⟨front, hfront, -⟩ := attached_isKept first.leading
  refine ⟨first, last, plainComments (attached first.leading), plainComments last.trailing, {
    begins := hfirst
    ends := ⟨hn, hlast⟩
    saidAbove := saidIn_plainComments (slashesOpen_of_subset fun e he => hfirstTrivia (List.mem_append_left _ ?_))
    saidBehind := saidIn_plainComments (slashesOpen_of_subset fun e he => hlastTrivia (List.mem_append_right _ he))
    shown := ?_
    kept := exists_kept hfirst
    line := (TokenStream.ofSource_lossless source).2.2.line last (List.mem_of_getElem? hlast) }⟩
  · rw [hfront]
    exact List.mem_append_right _ he
  · rw [Tree.propertyRow, Tree.leading_eq hfirst hn, Tree.trailing_eq hlast hn hstop]
    simp only [List.isEmpty_iff]

/-- Comments of another declaration, above a blank line and above a documentation comment, and two that are kept. -/
theorem property_showsOwnComment_sample : ∃ source,
    source = "class C \x7b\n int a; // other\n // apart\n \n// too\n /// doc\n//// kept \n//\n#if X\n // as well\n" ++
      " int B \x7b \x7d\n\n int D => 1; // behind\n \x7d" ∧
    ((Tree.ofSource source).places.filter (·.node.kind = .property)).map
      (fun p => (Tree.ofSource source).propertyRow p.node) = [⟨"B", "kept as well"⟩, ⟨"D", "behind"⟩] ∧
    ∃ p ∈ (Tree.ofSource source).places, p.node.kind = .property ∧ ∃ first last above behind,
      HasComment source p.node ((Tree.ofSource source).propertyRow p.node).comment first last above behind := by
  have hproperty : ∀ source, (∃ p ∈ (Tree.ofSource source).places, p.node.kind = .property) →
      ∃ p ∈ (Tree.ofSource source).places, p.node.kind = .property ∧ ∃ first last above behind,
        HasComment source p.node ((Tree.ofSource source).propertyRow p.node).comment first last above behind :=
    fun source ⟨p, hp, hk⟩ => ⟨p, hp, hk, (property_showsOwnComment source).2 p hp hk⟩
  refine ⟨_, rfl, ?_, hproperty _ ?_⟩
  · decide +kernel
  · decide +kernel

end DocPages
