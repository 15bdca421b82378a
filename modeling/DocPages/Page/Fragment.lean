/-
Fragments: the pieces a page is put together from. A page is a list of them,
the same for every format; a renderer turns each into text, and the text of
the page is theirs in order.
-/
import DocPages.Declaration

namespace DocPages

/-- The categories of members on the page of a type, each with a section of its own. -/
inductive Category where
  | properties | structs | constructors | methods
deriving DecidableEq, Repr

def Category.title : Category → String
  | .properties => "Properties"
  | .structs => "Structs"
  | .constructors => "Constructors"
  | .methods => "Methods"

inductive Fragment where
  /-- What stands before everything else. -/
  | opening (namespaceName : String)
  | namespaceLine (namespaceName : String)
  | classEntry (d : Declaration)
  | interfaceEntry (d : Declaration)
  | structEntry (d : Declaration)
  /-- A method or a constructor, with the level of its heading. -/
  | memberEntry (d : Declaration) (level : Nat)
  | propertyTable (rows : List PropertyRow)
  /-- Links to the sections of a type. -/
  | navigation (categories : List Category)
  | sectionHeading (category : Category)
  /-- Between two types. -/
  | separator
  /-- In place of a declaration whose comment cannot be read. -/
  | diagnostic (kind : DeclarationKind) (name message : String)
  /-- What stands after everything else. -/
  | closing
deriving DecidableEq, Repr

/-- An output format. -/
structure Renderer where
  /-- The extension of page files. -/
  extension : String
  fragment : Fragment → String

/-- The text of a page. -/
def Renderer.page (r : Renderer) (fragments : List Fragment) : String :=
  String.join (fragments.map r.fragment)

end DocPages
