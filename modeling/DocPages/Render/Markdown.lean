/-
Pages in Markdown, in the flavour that knows tables and fenced code.
-/
import DocPages.Page.Fragment
import DocPages.Render.Anchor

namespace DocPages.Markdown

/-! ## Cells -/

/-- Text that stays in its cell: line ends are blanks and bars are escaped. -/
def cellChars : List Char → List Char
  | [] => []
  | '\r' :: '\n' :: rest => ' ' :: cellChars rest
  | '\n' :: rest => ' ' :: cellChars rest
  | '|' :: rest => '\\' :: '|' :: cellChars rest
  | c :: rest => c :: cellChars rest

def cell (s : String) : String :=
  String.ofList (cellChars s.toList)

/-- The last cell of a row without outer bars, through the end of the row. -/
def lastCell (s : String) : String :=
  (if s.isEmpty then "" else " " ++ cell s) ++ "\n"

/-- Text in the typeface of code. -/
def code (s : String) : String :=
  "\x60" ++ s ++ "\x60"

/-! ## Tables -/

def typeParameterRow (p : TypeParameter) : String :=
  "**" ++ code p.name ++ "** |" ++ lastCell p.description

def parameterRow (p : Parameter) : String :=
  cell p.type ++ " **" ++ code p.name ++ "**" ++ p.default?.elim "" (fun d => " = " ++ code (cell d)) ++
    " |" ++ lastCell p.description

/-- A table without outer bars; no table if it has no rows. -/
def table (title : String) (rows : List String) : String :=
  if rows.isEmpty then "" else title ++ "|Description\n---|---\n" ++ String.join rows ++ "\n"

def propertyRow (p : PropertyRow) : String :=
  "|" ++ p.name ++ "|" ++ cell p.comment ++ "|\n"

/-! ## Entries -/

/-- A heading of a level. There is no limit to the level. -/
def heading (level : Nat) (text : String) : String :=
  String.ofList (List.replicate level '#') ++ " " ++ text ++ "\n"

/-- Heading, signature and summary of a declaration. -/
def entry (d : Declaration) (level : Nat) : String :=
  heading level (d.kind.word ++ " " ++ code d.name) ++ "\x60\x60\x60csharp\n" ++ d.snippet ++
    "\n\x60\x60\x60\n\n" ++ (if d.summary.isEmpty then "" else d.summary ++ "\n\n")

/-- The entry of a method or a constructor. -/
def memberEntry (d : Declaration) (level : Nat) : String :=
  entry d level ++ (if d.returns.isEmpty then "" else "**Returns:** " ++ d.returns ++ "\n\n") ++
    table "Type Parameter" (d.typeParameters.map typeParameterRow) ++
    table "Parameter" (d.parameters.map parameterRow)

/-! ## Fragments -/

def fragment : Fragment → String
  | .opening _ => ""
  | .namespaceLine name => "**Namespace:** " ++ name ++ "\n\n"
  | .classEntry d => entry d 1
  | .interfaceEntry d => entry d 1
  | .structEntry d => entry d 3
  | .memberEntry d level => memberEntry d level
  | .propertyTable rows =>
    "|Property|Description|\n|---|---|\n" ++ String.join (rows.map propertyRow) ++ "\n"
  | .navigation categories =>
    "**Navigate**\n" ++ String.join (categories.map fun c => Anchor.item c.title ++ "\n") ++ "\n"
  | .sectionHeading c => heading 2 c.title
  | .separator => "---\n\n"
  | .diagnostic kind name message =>
    "> **Warning:** " ++ kind.word ++ " " ++ code name ++ " could not be documented: " ++ cell message ++ "\n\n"
  | .closing => ""

def renderer : Renderer := ⟨"md", fragment⟩

end DocPages.Markdown
