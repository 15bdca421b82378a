/-
Lexemes by the class of the character they open with (`Opener`). `reach` asks
about that character alone before it looks at what follows, so it is a function of
the class and the rest (`reach_eq`), and proofs about it go by cases on the
class.
-/
import DocPages.Source.Lexeme

namespace DocPages.Source

/-! ## Openers -/

/-- The classes of characters that lexemes are told by. -/
inductive Opener where
  | spacing | lineFeed | carriageReturn | hash | slash | letter | digit | quote | apostrophe | at | dollar
  | equals
  /-- A mark that is a token by itself. -/
  | mark (kind : TokenKind)
  | operator | other
deriving DecidableEq

def opener (c : Char) : Opener :=
  if isSpacing c then .spacing
  else if c = '\n' then .lineFeed
  else if c = '\r' then .carriageReturn
  else if c = '#' then .hash
  else if c = '/' then .slash
  else if isIdentStart c then .letter
  else if c.isDigit then .digit
  else if c = '"' then .quote
  else if c = '\'' then .apostrophe
  else if c = '@' then .at
  else if c = '$' then .dollar
  else if c = '=' then .equals
  else match markKind? c with
    | some kind => .mark kind
    | none => if isOperator c then .operator else .other

/-- The lexeme that a character of a class begins in front of `rest`. -/
def Opener.reach (rest : List Char) : Opener → LexemeKind × Nat
  | .spacing => (.trivia .whitespace, countWhile isSpacing rest)
  | .lineFeed => (.trivia .endOfLine, 0)
  | .carriageReturn => (.trivia .endOfLine, if ['\n'].isPrefixOf rest then 1 else 0)
  | .hash => (.trivia .directive, lineLength rest)
  | .slash => slashReach rest
  | .letter => (.token .ident, countWhile isIdentPart rest)
  | .digit => (.token .number, numberReach rest)
  | .quote => quoteReach rest
  | .apostrophe => ((quotedExtent '\'' rest).tokenKind .char, (quotedExtent '\'' rest).size)
  | .at => atReach rest
  | .dollar => dollarReach rest
  | .equals => if ['>'].isPrefixOf rest then (.token .fatArrow, 1) else (.token .eq, 0)
  | .mark kind => (.token kind, 0)
  | .operator => (.token .punct, 0)
  | .other => (.token .unknown, 0)

/-- What a lexeme is and how far it goes depends on its first character by the class of it only. -/
theorem reach_eq (c : Char) (rest : List Char) : reach c rest = (opener c).reach rest := by
  have hlast : (match markKind? c with
      | some kind => Opener.mark kind
      | none => if isOperator c then .operator else .other).reach rest =
      match markKind? c with
      | some kind => (.token kind, 0)
      | none => (.token (if isOperator c then .punct else .unknown), 0) := by
    cases markKind? c with
    | some kind => rfl
    | none =>
      by_cases h : isOperator c = true <;>
        simp only [h, Bool.false_eq_true, if_true, if_false, Opener.reach]
  simp only [opener, apply_ite (Opener.reach rest), hlast]
  rfl

/-- What a class says about its characters. -/
def Opener.Holds (c : Char) : Opener → Prop
  | .spacing => isSpacing c = true
  | .lineFeed => c = '\n'
  | .carriageReturn => c = '\r'
  | .hash => c = '#'
  | .slash => c = '/'
  | .letter => isIdentStart c = true
  | .digit => c.isDigit = true
  | .quote => c = '"'
  | .apostrophe => c = '\''
  | .at => c = '@'
  | .dollar => c = '$'
  | .equals => c = '='
  | .mark kind => markKind? c = some kind
  | .operator => isOperator c = true ∧ c ≠ '/'
  | .other => True

theorem Opener.holds_ite {c : Char} {p : Prop} [Decidable p] {o o' : Opener} (h : p → o.Holds c)
    (h' : ¬ p → o'.Holds c) : (if p then o else o').Holds c := by
  split
  · next hp => exact h hp
  · next hp => exact h' hp

theorem opener_holds (c : Char) : (opener c).Holds c := by
  refine Opener.holds_ite id fun _ => Opener.holds_ite id fun _ => Opener.holds_ite id fun _ => ?_
  refine Opener.holds_ite id fun _ => Opener.holds_ite id fun hslash => Opener.holds_ite id fun _ => ?_
  refine Opener.holds_ite id fun _ => Opener.holds_ite id fun _ => Opener.holds_ite id fun _ => ?_
  refine Opener.holds_ite id fun _ => Opener.holds_ite id fun _ => Opener.holds_ite id fun _ => ?_
  cases hm : markKind? c with
  | some kind => exact hm
  | none => exact Opener.holds_ite (fun h => ⟨h, hslash⟩) fun _ => trivial

/-! ### Characters of a class -/

/-- Letters and digits are none of the characters that blanks, directives and comments open with. -/
theorem opener_alphanumeric {c : Char} (h : (isIdentStart c || c.isDigit) = true) :
    opener c = if isIdentStart c then .letter else .digit := by
  have hne : ∀ d, (isIdentStart d || d.isDigit) = false → c ≠ d := by
    rintro d hd rfl
    rw [h] at hd
    cases hd
  have hspace : isSpacing c = false := by
    simp [isSpacing, hne ' ' (by decide), hne '\t' (by decide), hne '\x0c' (by decide)]
  simp only [opener, hspace, hne '\n' (by decide), hne '\r' (by decide), hne '#' (by decide),
    hne '/' (by decide), Bool.false_eq_true, if_false]
  split
  · rfl
  · next hs => exact if_pos (by simpa [hs] using h)

theorem opener_letter {c : Char} (h : isIdentStart c = true) : opener c = .letter := by
  rw [opener_alphanumeric (by simp [h]), if_pos h]

theorem isIdentStart_of_isDigit {c : Char} (h : c.isDigit = true) : isIdentStart c = false := by
  have hn : 48 ≤ c.toNat ∧ c.toNat ≤ 57 := by simpa [Char.isDigit, UInt32.le_iff_toNat_le] using h
  have hascii : Unicode.isAscii c = true := by
    simp only [Unicode.isAscii, decide_eq_true_eq]
    omega
  have halpha : c.isAlpha = false := by
    have hupper : ¬ c.val ≥ 'A'.val := fun h => by
      have : 65 ≤ c.toNat := h
      omega
    have hlower : ¬ c.val ≥ 'a'.val := fun h => by
      have : 97 ≤ c.toNat := h
      omega
    unfold Char.isAlpha Char.isUpper Char.isLower
    simp only [hupper, hlower, false_and, decide_false, Bool.false_and, Bool.or_false]
  have hu : c ≠ '_' := by
    rintro rfl
    exact absurd h (by decide)
  simp [isIdentStart, Unicode.isLetter, hascii, halpha, hu]

theorem opener_digit {c : Char} (h : c.isDigit = true) : opener c = .digit := by
  rw [opener_alphanumeric (by simp [h]), if_neg (by simp [isIdentStart_of_isDigit h])]

theorem opener_mark {c : Char} {k : TokenKind} (h : markKind? c = some k) : opener c = .mark k := by
  unfold markKind? at h
  split at h <;> cases h <;> rfl

theorem opener_operator {c : Char} (h : isOperator c = true) (hs : c ≠ '/') : opener c = .operator := by
  have hall : ("!%&*+-/^|~\\".toList.all fun d => d = '/' || opener d = .operator) = true := by decide
  have hc := List.all_eq_true.1 hall c (by simpa [isOperator] using h)
  simpa [hs] using hc

/-! ## Runs of characters -/

theorem countWhile_cons (p : Char → Bool) (c : Char) (s : List Char) :
    countWhile p (c :: s) = if p c then 1 + countWhile p s else 0 := by
  unfold countWhile
  rw [List.takeWhile_cons]
  split
  · rw [List.length_cons, Nat.add_comm]
  · rfl

/-- A run ends where the first character of another class stands. -/
theorem countWhile_append_iff {p : Char → Bool} {w x : List Char} : countWhile p (w ++ x) = w.length ↔
    (∀ c ∈ w, p c = true) ∧ ∀ c, x.head? = some c → p c = false := by
  induction w with
  | nil =>
    cases x with
    | nil => simp [countWhile]
    | cons c x => by_cases h : p c = true <;> simp [countWhile_cons, h]
  | cons c w ih =>
    rw [List.cons_append, countWhile_cons, List.length_cons]
    by_cases h : p c = true
    · rw [if_pos h, Nat.add_comm 1, Nat.add_right_cancel_iff, ih]
      simp [h]
    · simp [h]

/-- A run holds characters of its class only, and one of another class is next. -/
theorem countWhile_spec (p : Char → Bool) (s : List Char) : (∀ c ∈ s.take (countWhile p s), p c = true) ∧
    ∀ c, (s.drop (countWhile p s)).head? = some c → p c = false := by
  have hle : countWhile p s ≤ s.length := (List.takeWhile_sublist p).length_le
  refine countWhile_append_iff.1 ?_
  rw [List.take_append_drop, List.length_take, Nat.min_eq_left hle]

end DocPages.Source
