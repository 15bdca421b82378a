/-
Pages in HTML: one document for each page, with its style in its head. All
text that comes from the source is escaped.
-/
import DocPages.Page.Fragment
import DocPages.Render.Anchor

namespace DocPages.Html

/-! ## Text and elements -/

/-- A character of text. Quotes are escaped too, so that the text may stand in an attribute. -/
def escapeChar (c : Char) : List Char :=
  if c = '&' then "&amp;".toList
  else if c = '<' then "&lt;".toList
  else if c = '>' then "&gt;".toList
  else if c = '"' then "&quot;".toList
  else [c]

def escape (s : String) : String :=
  String.ofList (s.toList.flatMap escapeChar)

/-- Text in the typeface of code. -/
def code (s : String) : String :=
  "<code>" ++ escape s ++ "</code>"

/-- A labelled line. -/
def labelled (label text : String) : String :=
  "<p><strong>" ++ label ++ ":</strong> " ++ escape text ++ "</p>\n"

/-! ## Tables -/

/-- A row of two cells that hold markup. -/
def row (first second : String) : String :=
  "<tr><td>" ++ first ++ "</td><td>" ++ second ++ "</td></tr>\n"

def table (title : String) (rows : List String) : String :=
  "<table>\n<tr><th>" ++ title ++ "</th><th>Description</th></tr>\n" ++ String.join rows ++ "</table>\n"

/-- A table, or nothing if it has no rows. -/
def tableIfAny (title : String) (rows : List String) : String :=
  if rows.isEmpty then "" else table title rows

def typeParameterRow (p : TypeParameter) : String :=
  row (code p.name) (escape p.description)

def parameterRow (p : Parameter) : String :=
  row (escape p.type ++ " " ++ code p.name ++ p.default?.elim "" (fun d => " = " ++ code d))
    (escape p.description)

def propertyRow (p : PropertyRow) : String :=
  row (escape p.name) (escape p.comment)

/-! ## Entries -/

/-- A heading is of one of six levels. -/
def headingTag (level : Nat) : String :=
  s!"h{max 1 (min 6 level)}"

/-- Heading, signature and summary of a declaration. -/
def entry (d : Declaration) (level : Nat) : String :=
  "<" ++ headingTag level ++ ">" ++ d.kind.word ++ " " ++ code d.name ++ "</" ++ headingTag level ++ ">\n" ++
    "<pre><code class=\"language-csharp\">" ++ escape d.snippet ++ "</code></pre>\n" ++
    (if d.summary.isEmpty then "" else "<p>" ++ escape d.summary ++ "</p>\n")

/-- The entry of a method or a constructor. -/
def memberEntry (d : Declaration) (level : Nat) : String :=
  entry d level ++ (if d.returns.isEmpty then "" else labelled "Returns" d.returns) ++
    tableIfAny "Type Parameter" (d.typeParameters.map typeParameterRow) ++
    tableIfAny "Parameter" (d.parameters.map parameterRow)

/-! ## Fragments -/

def style : String :=
  "<style>\n" ++
  "body \x7b font-family: system-ui, sans-serif; max-width: 48em; margin: 2em auto; padding: 0 1em; \x7d\n" ++
  "code \x7b background: #f4f4f4; padding: 0.15em 0.3em; border-radius: 3px; \x7d\n" ++
  "pre \x7b background: #f4f4f4; padding: 1em; border-radius: 5px; overflow-x: auto; \x7d\n" ++
  "table \x7b border-collapse: collapse; \x7d\n" ++
  "th, td \x7b border: 1px solid #ddd; padding: 0.3em 0.6em; text-align: left; \x7d\n" ++
  ".warning \x7b border-left: 4px solid #d9822b; padding-left: 1em; \x7d\n" ++
  "</style>\n"

def opening (title : String) : String :=
  "<!DOCTYPE html>\n<html>\n<head>\n<meta charset=\"utf-8\">\n<title>" ++ escape title ++ "</title>\n" ++
    style ++ "</head>\n<body>\n"

def navigationItem (c : Category) : String :=
  "  <li><a href=\"#" ++ Anchor.slug c.title ++ "\">" ++ c.title ++ "</a></li>\n"

def fragment : Fragment → String
  | .opening name => opening name
  | .namespaceLine name => labelled "Namespace" name
  | .classEntry d => entry d 1
  | .interfaceEntry d => entry d 1
  | .structEntry d => entry d 3
  | .memberEntry d level => memberEntry d level
  | .propertyTable rows => table "Property" (rows.map propertyRow)
  | .navigation categories =>
    "<nav>\n<strong>Navigate</strong>\n<ul>\n" ++ String.join (categories.map navigationItem) ++
      "</ul>\n</nav>\n"
  | .sectionHeading c => "<h2 id=\"" ++ Anchor.slug c.title ++ "\">" ++ c.title ++ "</h2>\n"
  | .separator => "<hr>\n"
  | .diagnostic kind name message =>
    "<p class=\"warning\"><strong>Warning:</strong> " ++ kind.word ++ " " ++ code name ++
      " could not be documented: " ++ escape message ++ "</p>\n"
  | .closing => "</body>\n</html>\n"

def renderer : Renderer := ⟨"html", fragment⟩

end DocPages.Html
