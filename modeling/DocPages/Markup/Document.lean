/-
Documents: an element with all that is inside it. The content of elements is
read item by item, with the elements that are still open kept in a list;
reading ends where the outermost one is closed, after which nothing but
comments, instructions and white space may come.

`Content.within` gives the elements inside an element in document order, and
`Content.allText` all text inside it.
-/
import DocPages.Markup.Tag

namespace DocPages.Markup

/-! ## Content -/

inductive Content where
  | text (s : String)
  | element (name : String) (attributes : List Attribute) (children : List Content)

mutual

/-- All text inside, in document order. -/
def Content.allText : Content → String
  | .text s => s
  | .element _ _ children => textOfAll children

def textOfAll : List Content → String
  | [] => ""
  | c :: rest => c.allText ++ textOfAll rest

end

/-! ## Items of content -/

/-- Whether `needle` stands somewhere in the text. -/
def hasInfix (needle : List Char) : List Char → Bool
  | [] => needle.isEmpty
  | c :: rest => needle.isPrefixOf (c :: rest) || hasInfix needle rest

/-- What content is made of. -/
inductive Item where
  | text (s : String)
  | opening (tag : StartTag)
  /-- A close tag, with the number of characters of the document from it on. -/
  | closing (name : QName) (left : Nat)
  /-- A comment or an instruction. -/
  | nothing

/-- A comment after its opening mark; it began where the document had `left` characters to go. -/
def comment (left : Nat) : Reader Item := do
  let text ← Reader.charsUntil ("-->".toList.isPrefixOf ·)
  Reader.literal "-->"
  if hasInfix ['-', '-'] text || text.getLast? = some '-' then Reader.failAt left .dashesInComment
  return .nothing

/-- A section of character data after its opening mark. -/
def characterSection : Reader Item := do
  let text ← Reader.charsUntil ("]]>".toList.isPrefixOf ·)
  Reader.literal "]]>"
  return .text (String.ofList (normaliseLines text))

/-- An instruction after its opening mark. -/
def instruction : Reader Item := do
  let name ← plainName <$> Reader.ahead
  if name.isEmpty then Reader.fail .invalidName
  Reader.drop name.length
  Reader.spaces
  discard (Reader.charsUntil ("?>".toList.isPrefixOf ·))
  Reader.literal "?>"
  return .nothing

/-- What an opening bracket begins, after that bracket. -/
def markup : Reader Item := do
  let s ← Reader.ahead
  let start := s.length + 1
  if "!--".toList.isPrefixOf s then
    Reader.drop 3
    comment start
  else if "![CDATA[".toList.isPrefixOf s then
    Reader.drop 8
    characterSection
  else if ['!'].isPrefixOf s || s.isEmpty then Reader.failAt start .unknownToken
  else if "?xml ".toList.isPrefixOf s then Reader.failAt start .unexpectedDeclaration
  else if ['?'].isPrefixOf s then
    Reader.drop 1
    instruction
  else if ['/'].isPrefixOf s then
    Reader.drop 1
    let name ← closeTag
    return .closing name start
  else
    let tag ← startTag
    return .opening tag

/-- Text up to the next bracket, after its first character. -/
def characterData (first : Char) : Reader Item := do
  if !isLegal first then Reader.failAt ((← Reader.left) + 1) (.illegal first)
  let more ← Reader.charsUntil (['<'].isPrefixOf ·)
  let text := first :: more
  if hasInfix "]]>".toList text then Reader.fail .strayEndMark
  let ps ← Reader.ofExcept (pieces (← Reader.left) text)
  return .text (textOfPieces ps)

/-- The item of content that begins with a character. -/
def item (first : Char) : Reader Item :=
  if first = '<' then markup else characterData first

/-! ## Elements -/

/-- An element that is not closed yet. -/
structure Frame where
  name : QName
  attributes : List Attribute
  inScope : Namespaces
  /-- Its content so far, the last part first. -/
  reversed : List Content

namespace Frame

def add (f : Frame) (c : Content) : Frame :=
  { f with reversed := c :: f.reversed }

/-- The element, once it is closed. -/
def element (f : Frame) : Content :=
  .element f.name.name f.attributes f.reversed.reverse

/-- The element that a start tag opens where the declarations `outer` hold: attributes are resolved before
the name of the element. -/
def ofTag (outer : Namespaces) (tag : StartTag) : Except Fault Frame :=
  let inScope := tag.contents.declared ++ outer
  match resolveAttributes inScope [] tag.contents.attributes with
  | .error e => .error e
  | .ok attributes =>
    if tag.name.qualifier.isEmpty || (inScope.lookup tag.name.qualifier).isSome then
      .ok ⟨tag.name, attributes, inScope, []⟩
    else .error ⟨.unknownQualifier tag.name.qualifier, tag.left⟩

end Frame

/-- The element `top` with the rest of its content, and the text after the outermost of the open elements. -/
def contentOf (top : Frame) (outer : List Frame) (s : List Char) : Except Fault (Content × List Char) :=
  match s with
  | [] => .error ⟨.unclosedRoot, 0⟩
  | c :: rest =>
    match item c rest with
    | .error e => .error e
    | .ok (.nothing, r) => contentOf top outer r.1
    | .ok (.text t, r) => contentOf (top.add (.text t)) outer r.1
    | .ok (.opening tag, r) =>
      match Frame.ofTag top.inScope tag with
      | .error e => .error e
      | .ok frame =>
        if tag.isEmpty then contentOf (top.add frame.element) outer r.1
        else contentOf frame (top :: outer) r.1
    | .ok (.closing name left, r) =>
      if name = top.name then
        match outer with
        | [] => .ok (top.element, r.1)
        | next :: others => contentOf (next.add top.element) others r.1
      else .error ⟨.closeMismatch top.name.written name.written, left⟩
termination_by s.length
decreasing_by all_goals exact Nat.lt_succ_of_le r.2

/-- What may come after the root element: white space, comments and instructions. -/
def epilogue (s : List Char) : Except Fault Unit :=
  have hle := Reader.length_dropWhile_le isSpace s
  match hs : s.dropWhile isSpace with
  | [] => .ok ()
  | c :: rest =>
    if "<!--".toList.isPrefixOf (c :: rest) || "<?".toList.isPrefixOf (c :: rest) then
      match markup rest with
      | .error e => .error e
      | .ok (_, r) =>
        have : r.1.length < s.length := by
          rw [hs] at hle
          exact Nat.lt_of_le_of_lt r.2 hle
        epilogue r.1
    else .error ⟨.unknownToken, (c :: rest).length⟩
termination_by s.length

/-- A document that begins with the start tag of its root element. -/
def document (s : List Char) : Except Fault Content :=
  match s with
  | '<' :: rest =>
    match startTag rest with
    | .error e => .error e
    | .ok (tag, r) =>
      match Frame.ofTag [] tag with
      | .error e => .error e
      | .ok frame =>
        match if tag.isEmpty then .ok (frame.element, r.1) else contentOf frame [] r.1 with
        | .error e => .error e
        | .ok (root, after) => (epilogue after).map fun _ => root
  | _ => .error ⟨.unknownToken, s.length⟩

/-! ## Elements inside an element -/

mutual

/-- The elements of some content in document order: name, attributes and text. -/
def Content.elements : Content → List (String × List Attribute × String)
  | .text _ => []
  | .element name attributes children =>
    (name, attributes, textOfAll children) :: elementsOfAll children

def elementsOfAll : List Content → List (String × List Attribute × String)
  | [] => []
  | c :: rest => c.elements ++ elementsOfAll rest

end

/-- The elements below the root. -/
def Content.within : Content → List (String × List Attribute × String)
  | .text _ => []
  | .element _ _ children => elementsOfAll children

end DocPages.Markup
