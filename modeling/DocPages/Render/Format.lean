/-
Output formats by name.
-/
import DocPages.Render.Html
import DocPages.Render.Markdown

namespace DocPages

/-- A name that no format has. -/
structure UnknownFormat where
  name : String
deriving DecidableEq, Repr

def UnknownFormat.message (u : UnknownFormat) : String :=
  "unknown format: " ++ u.name ++ ". Use markdown or html"

/-- The renderer of a format. -/
def rendererFor : String → Except UnknownFormat Renderer
  | "markdown" | "md" => .ok Markdown.renderer
  | "html" => .ok Html.renderer
  | name => .error ⟨name⟩

end DocPages
