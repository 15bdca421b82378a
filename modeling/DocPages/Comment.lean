/-
Documentation comments. The lines of a comment, put together and enclosed in
one element, are a document; its elements are the entries of the comment. A
plain tag is looked up by its first entry (`TagSet.tag`), an entry with a name
by its last one (`TagSet.item`).
-/
import DocPages.Markup.Document
import DocPages.Source.Token
import DocPages.Unicode.Blank

namespace DocPages

open Source (Trivia)

/-! ## Tag sets -/

/-- One element of a documentation comment. -/
structure Entry where
  tag : String
  /-- The value of its `name` attribute. -/
  name? : Option String
  text : String
deriving DecidableEq, Repr

/-- The entries of a documentation comment in document order. -/
structure TagSet where
  entries : List Entry
deriving DecidableEq, Repr

namespace TagSet

/-- The text of the first element with a tag, empty if there is none. -/
def tag (s : TagSet) (t : String) : String :=
  (s.entries.find? (·.tag = t)).elim "" (·.text)

/-- The text of the last element with a tag and a name, empty if there is none. -/
def item (s : TagSet) (t name : String) : String :=
  (s.entries.reverse.find? fun e => e.tag = t && e.name? = some name).elim "" (·.text)

/-- The description of a parameter. -/
def param (s : TagSet) (name : String) : String :=
  s.item "param" name

/-- The description of a type parameter. -/
def typeParam (s : TagSet) (name : String) : String :=
  s.item "typeparam" name

/-- The tags of entries that describe a parameter without naming it. -/
def nameless (s : TagSet) : List String :=
  s.entries.filter (fun e => e.name? = none && (e.tag = "param" || e.tag = "typeparam")) |>.map (·.tag)

end TagSet

/-! ## Reading a comment -/

/-- A documentation comment that is not a well-formed document. -/
structure MalformedComment where
  document : List Char
  fault : Markup.Fault
deriving DecidableEq, Repr

def MalformedComment.message (m : MalformedComment) : String :=
  "malformed documentation comment: " ++ m.fault.message m.document

/-- A line of a comment without its marker and the white space around it. -/
def commentLine (text : String) : String :=
  let s := Unicode.trimStart text.toList
  trimmed (String.ofList (if "///".toList.isPrefixOf s then s.drop 3 else s))

/-- The entry of an element. Its name is an attribute without a namespace. -/
def Entry.ofElement (e : String × List Markup.Attribute × String) : Entry :=
  let (tag, attributes, text) := e
  ⟨tag, (attributes.find? fun a => a.uri? = none && a.name = "name").map (·.value), trimmed text⟩

/-- The document that the lines of a comment make up. -/
def documentOfLines (lines : List String) : List Char :=
  ("<doc>\n" ++ "\n".intercalate lines ++ "\n</doc>").toList

/-- The documentation comment among the trivia in front of a declaration. -/
def TagSet.ofTrivia (trivia : List Trivia) : Except MalformedComment TagSet :=
  let lines := trivia.filter (·.kind = .docComment) |>.map (commentLine ·.text)
  if lines.isEmpty then .ok ⟨[]⟩
  else
    let document := documentOfLines lines
    match Markup.document document with
    | .ok root => .ok ⟨root.within.map Entry.ofElement⟩
    | .error fault => .error ⟨document, fault⟩

end DocPages
