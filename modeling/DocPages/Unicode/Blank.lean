/-
White space, and text without the white space at its ends.
-/
import DocPages.Unicode.CodeRange

namespace DocPages.Unicode

/-- The white space of every script, line ends included. -/
def blankRanges : List CodeRange :=
  [⟨0x9, 0xD⟩, ⟨0x20, 0x20⟩, ⟨0x85, 0x85⟩, ⟨0xA0, 0xA0⟩, ⟨0x1680, 0x1680⟩, ⟨0x2000, 0x200A⟩, ⟨0x2028, 0x2029⟩,
   ⟨0x202F, 0x202F⟩, ⟨0x205F, 0x205F⟩, ⟨0x3000, 0x3000⟩]

def isBlank (c : Char) : Bool :=
  inRanges blankRanges c

/-- Core's white space is blank here too. -/
theorem isBlank_of_isWhitespace {c : Char} (h : c.isWhitespace) : isBlank c := by
  simp only [Char.isWhitespace, Bool.or_eq_true, decide_eq_true_eq] at h
  rcases h with ((h | h) | h) | h <;> subst h <;> decide

/-! ## Trimming -/

def trimStart (s : List Char) : List Char :=
  s.dropWhile isBlank

def trimEnd (s : List Char) : List Char :=
  (s.reverse.dropWhile isBlank).reverse

def trim (s : List Char) : List Char :=
  trimEnd (trimStart s)

end DocPages.Unicode

namespace DocPages

/-- The text without the white space at both ends. -/
def trimmed (s : String) : String :=
  String.ofList (Unicode.trim s.toList)

/-- The text without the white space at its end. -/
def endTrimmed (s : String) : String :=
  String.ofList (Unicode.trimEnd s.toList)

end DocPages
