/-
Snippets: the header of a declaration on one line, as it is shown on a page.
The header of a type is its tokens up to the first brace or semicolon, spaced
apart. The header of a method or a constructor is put together from its parts
up to the body, without attributes.
-/
import DocPages.Source.Tree
import DocPages.Unicode.Blank

namespace DocPages.Source.Tree

/-- The header of a type, every token a space apart. -/
def typeSnippet (tree : Tree) (n : Node) : String :=
  let header := (tree.tokensOf n).takeWhile fun t => t.kind ≠ .lbrace && t.kind ≠ .semi
  trimmed (String.join (header.map (·.text ++ " ")))

/-- Adds a part to a header. The name goes in front of the part with index `slot`, behind it if that is
the interface that the member belongs to. A parameter list follows without a space. -/
def addPart (tree : Tree) (name : String) (slot : Nat) (out : String) (part : Node × Nat) : String :=
  let (child, i) := part
  if i = slot && child.kind = .explicitInterface then out ++ tree.text child ++ name ++ " "
  else
    let out := if i = slot then out ++ name else out
    let out := if child.kind = .parameterList then endTrimmed out else out
    out ++ tree.text child ++ " "

/-- The header of a method or a constructor. The return type of a method stands in front of its name. -/
def memberSnippet (tree : Tree) (n : Node) : String :=
  let slot := if n.kind = .constructor then 0 else 1
  let parts := n.children.filter (·.kind ≠ .attributeList) |>.takeWhile fun child => !child.kind.isBody
  let front := " ".intercalate (tree.modifiersOf n) ++ " "
  trimmed (parts.zipIdx.foldl (tree.addPart (tree.nameOf n) slot) front)

def snippet (tree : Tree) (n : Node) : String :=
  if n.kind = .method || n.kind = .constructor then tree.memberSnippet n
  else if n.kind.isTypeDeclaration then tree.typeSnippet n
  else tree.text n

end DocPages.Source.Tree
