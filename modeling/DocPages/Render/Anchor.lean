/-
Anchors: how a heading is linked to from its own page. The anchor of a heading
is its text in lower case, without punctuation and with hyphens for spaces.
-/
import DocPages.Unicode.Alphabetic
import DocPages.Unicode.LowerCase

namespace DocPages.Anchor

/-- The characters of a heading that its anchor keeps. -/
def isKept (c : Char) : Bool :=
  Unicode.isAlphanumeric c || c == ' ' || c == '-'

/-- The anchor of a heading. -/
def slug (heading : String) : String :=
  let kept := (Unicode.lower heading.toList).filter isKept
  String.ofList (kept.map fun c => if c = ' ' then '-' else c)

/-- A link to a heading of the same page. -/
def link (heading : String) : String :=
  "[" ++ heading ++ "](#" ++ slug heading ++ ")"

/-- A link as an item of a list. -/
def item (heading : String) : String :=
  "- " ++ link heading

end DocPages.Anchor
