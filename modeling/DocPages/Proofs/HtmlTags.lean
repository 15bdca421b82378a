/-
The tags of HTML pages. A reader goes through the text of a page character by
character and collects tags (`scan`). Escaped text shows it none, so a page has
the tags of the markup around its texts: properly nested ones, which are the
same whatever the texts are (`Fragment.blanked`).
-/
import DocPages.Proofs.Sections
import DocPages.Render.Html

namespace DocPages

open Command (pageOf)
open Source (Place Tree)

namespace Html

/-! ## Reading tags -/

/-- A tag as a reader of a page sees it. -/
inductive Tag where
  /-- The attributes are the text after the name. -/
  | opening (name attributes : String)
  | closing (name : String)
deriving DecidableEq, Repr

/-- The tag with these characters between its brackets. -/
def Tag.ofInside : List Char → Tag
  | '/' :: name => .closing (.ofList name)
  | inside => .opening (.ofList (inside.takeWhile (· ≠ ' '))) (.ofList (inside.dropWhile (· ≠ ' ')))

/-- Where a reader of a page stands; inside of a tag, with what it has of it in reverse. -/
inductive Mode where
  | text
  | tag (inside : List Char)
  | quoted (mark : Char) (inside : List Char)
deriving DecidableEq, Repr

/-- Where a character takes the reader, and the tag that it ends. Brackets in quotes are no brackets. -/
def Mode.next : Mode → Char → Mode × List Tag
  | .text, c => (if c = '<' then .tag [] else .text, [])
  | .tag inside, c =>
    if c = '>' then (.text, [.ofInside inside.reverse])
    else if c = '"' ∨ c = '\'' then (.quoted c (c :: inside), [])
    else (.tag (c :: inside), [])
  | .quoted mark inside, c => (if c = mark then .tag (c :: inside) else .quoted mark (c :: inside), [])

/-- Where some text takes the reader, and the tags in it. -/
def scan : Mode → List Char → Mode × List Tag
  | m, [] => (m, [])
  | m, c :: cs =>
    let (m, ts) := m.next c
    let (last, rest) := scan m cs
    (last, ts ++ rest)

/-- The tags of a text that does not end inside of one. -/
def tags? (s : String) : Option (List Tag) :=
  let (last, ts) := scan .text s.toList
  if last = .text then some ts else none

theorem scan_append (m : Mode) (cs ds : List Char) :
    scan m (cs ++ ds) = ((scan (scan m cs).1 ds).1, (scan m cs).2 ++ (scan (scan m cs).1 ds).2) := by
  induction cs generalizing m with
  | nil => rfl
  | cons c cs ih => simp only [List.cons_append, scan, ih, List.append_assoc]

/-- A text with these tags, outside of which it begins and ends. -/
structure Reads (s : String) (ts : List Tag) : Prop where
  scan_eq : scan .text s.toList = (.text, ts)

instance (s : String) (ts : List Tag) : Decidable (Reads s ts) :=
  decidable_of_iff (scan .text s.toList = (.text, ts)) ⟨.mk, Reads.scan_eq⟩

theorem Reads.tags?_eq {s : String} {ts : List Tag} (h : Reads s ts) : tags? s = some ts := by
  simp only [tags?, h.scan_eq, if_true]

theorem Reads.append {s s' : String} {ts ts' : List Tag} (h : Reads s ts) (h' : Reads s' ts') :
    Reads (s ++ s') (ts ++ ts') where
  scan_eq := by rw [String.toList_append, scan_append, h.scan_eq, h'.scan_eq]

/-- A tag whose name is a text of its own. -/
theorem Reads.append_tag {s bracket name rest : String} {ts ts' : List Tag} (h : Reads s ts)
    (h' : Reads (bracket ++ name ++ rest) ts') : Reads (s ++ bracket ++ name ++ rest) (ts ++ ts') := by
  rw [String.append_assoc, String.append_assoc, ← @String.append_assoc bracket]
  exact h.append h'

theorem reads_empty : Reads "" [] := ⟨rfl⟩

theorem Reads.of_scan {cs : List Char} {ts : List Tag} (h : scan .text cs = (.text, ts)) :
    Reads (String.ofList cs) ts :=
  ⟨by rw [String.toList_ofList, h]⟩

/-- A text without brackets has no tags. -/
theorem reads_plain {cs : List Char} (h : '<' ∉ cs) : Reads (String.ofList cs) [] := by
  refine .of_scan ?_
  induction cs with
  | nil => rfl
  | cons c cs ih =>
    rw [List.mem_cons, not_or] at h
    simp [scan, Mode.next, Ne.symm h.1, ih h.2]

/-- A text in quotes does not end the tag it stands in. -/
theorem scan_quoted {cs : List Char} (h : '"' ∉ cs) (inside : List Char) :
    scan (.quoted '"' inside) cs = (.quoted '"' (cs.reverse ++ inside), []) := by
  induction cs generalizing inside with
  | nil => rfl
  | cons c cs ih =>
    rw [List.mem_cons, not_or] at h
    simp [scan, Mode.next, Ne.symm h.1, ih h.2]

/-- A tag whose last attribute is a text in quotes. -/
theorem Reads.quoted {cs inside : List Char} {value : String} {ts : List Tag} {t : Tag}
    (hs : scan .text cs = (.quoted '"' inside, ts)) (hvalue : '"' ∉ value.toList)
    (ht : Tag.ofInside (inside.reverse ++ (value.toList ++ ['"'])) = t) :
    Reads (String.ofList cs ++ value ++ "\">") (ts ++ [t]) where
  scan_eq := by
    have hclose : ∀ cs, scan (.quoted '"' cs) "\">".toList = (.text, [.ofInside (cs.reverse ++ ['"'])]) := fun cs => by
      simp [scan, Mode.next]
    rw [String.toList_append, String.toList_append, scan_append, scan_append, String.toList_ofList, hs,
      scan_quoted hvalue, hclose, ← ht]
    simp

theorem reads_space : Reads " " [] := by decide

theorem Reads.join {α : Type} {f : α → String} {tags : α → List Tag} (h : ∀ a, Reads (f a) (tags a)) :
    ∀ as : List α, Reads (String.join (as.map f)) (as.flatMap tags)
  | [] => reads_empty
  | a :: as => by
    rw [List.map_cons, String.join_cons, List.flatMap_cons]
    exact (h a).append (.join h as)

/-! ## Tags that nest -/

/-- The names of tags that stand alone. -/
def standAlone : List String := ["!DOCTYPE", "meta", "hr"]

/-- A tag that belongs to a pair. -/
def Tag.isPaired : Tag → Bool
  | .opening name _ => name ∉ standAlone
  | .closing _ => true

/-- Every tag that opens is closed by name, the last one first. The elements with the names `pending` are open
already. -/
def nests : (pending : List String) → List Tag → Bool
  | pending, [] => pending.isEmpty
  | pending, .opening name _ :: rest => nests (name :: pending) rest
  | pending, .closing name :: rest => pending.head? = some name && nests pending.tail rest

/-- Of the tags that belong to pairs, each is in one with another of these. -/
def Closed (ts : List Tag) : Prop :=
  ∀ pending rest, nests pending (ts.filter Tag.isPaired ++ rest) = nests pending rest

theorem closed_nil : Closed [] :=
  fun _ _ => rfl

theorem Closed.append {ts ts' : List Tag} (h : Closed ts) (h' : Closed ts') : Closed (ts ++ ts') :=
  fun pending rest => by rw [List.filter_append, List.append_assoc, h, h']

theorem Closed.flatMap {α : Type} {tags : α → List Tag} {as : List α} (h : ∀ a ∈ as, Closed (tags a)) :
    Closed (as.flatMap tags) := by
  induction as with
  | nil => exact closed_nil
  | cons a as ih =>
    rw [List.flatMap_cons]
    exact (h a List.mem_cons_self).append (ih fun b hb => h b (List.mem_cons_of_mem a hb))

/-- An element with the tags `inner` in it. -/
def element (name attributes : String) (inner : List Tag) : List Tag :=
  .opening name attributes :: inner ++ [.closing name]

theorem Closed.element {name attributes : String} {inner : List Tag} (hname : name ∉ standAlone)
    (h : Closed inner) : Closed (element name attributes inner) := fun pending rest => by
  have hpaired : (Html.element name attributes inner).filter Tag.isPaired =
      .opening name attributes :: (inner.filter Tag.isPaired ++ [.closing name]) := by
    simp [Html.element, Tag.isPaired, hname]
  rw [hpaired, List.cons_append, nests, List.append_assoc, h]
  simp [nests]

/-! ## The tags of each piece of a page -/

def codeTags : List Tag := element "code" "" []

def labelledTags : List Tag := element "p" "" (element "strong" "" [])

def rowTags (first second : List Tag) : List Tag :=
  element "tr" "" (element "td" "" first ++ element "td" "" second)

def tableTags {α : Type} (ofRow : α → List Tag) (rows : List α) : List Tag :=
  element "table" "" (element "tr" "" (element "th" "" [] ++ element "th" "" []) ++ rows.flatMap ofRow)

def tableTagsIfAny {α : Type} (ofRow : α → List Tag) (rows : List α) : List Tag :=
  if rows.isEmpty then [] else tableTags ofRow rows

def typeParameterTags (_ : TypeParameter) : List Tag :=
  rowTags codeTags []

def parameterTags (p : Parameter) : List Tag :=
  rowTags (codeTags ++ p.default?.elim [] fun _ => codeTags) []

def propertyTags (_ : PropertyRow) : List Tag :=
  rowTags [] []

def entryTags (d : Declaration) (level : Nat) : List Tag :=
  element (headingTag level) "" codeTags ++
    element "pre" "" (element "code" " class=\"language-csharp\"" []) ++
    (if d.summary.isEmpty then [] else element "p" "" [])

def memberEntryTags (d : Declaration) (level : Nat) : List Tag :=
  entryTags d level ++ (if d.returns.isEmpty then [] else labelledTags) ++
    tableTagsIfAny typeParameterTags d.typeParameters ++ tableTagsIfAny parameterTags d.parameters

def navigationItemTags (c : Category) : List Tag :=
  element "li" "" (element "a" (" href=\"#" ++ Anchor.slug c.title ++ "\"") [])

def navigationTags (categories : List Category) : List Tag :=
  element "nav" "" (element "strong" "" [] ++ element "ul" "" (categories.flatMap navigationItemTags))

/-- The tags of a fragment. -/
def fragmentTags : Fragment → List Tag
  | .opening _ =>
    [.opening "!DOCTYPE" " html", .opening "html" "", .opening "head" "", .opening "meta" " charset=\"utf-8\""] ++
      element "title" "" [] ++ element "style" "" [] ++ [.closing "head", .opening "body" ""]
  | .namespaceLine _ => labelledTags
  | .classEntry d => entryTags d 1
  | .interfaceEntry d => entryTags d 1
  | .structEntry d => entryTags d 3
  | .memberEntry d level => memberEntryTags d level
  | .propertyTable rows => tableTags propertyTags rows
  | .navigation categories => navigationTags categories
  | .sectionHeading c => element "h2" (" id=\"" ++ Anchor.slug c.title ++ "\"") []
  | .separator => [.opening "hr" ""]
  | .diagnostic _ _ _ => element "p" " class=\"warning\"" (element "strong" "" [] ++ codeTags)
  | .closing => [.closing "body", .closing "html"]

/-! ## A reader finds these tags -/

theorem scan_escapeChar (c : Char) : scan .text (escapeChar c) = (.text, []) := by
  unfold escapeChar
  split_ifs with h₁ h₂ h₃ h₄
  · decide
  · decide
  · decide
  · decide
  · simp [scan, Mode.next, h₂]

/-- Escaped text shows a reader no tag. -/
theorem reads_escape (s : String) : Reads (escape s) [] where
  scan_eq := by
    rw [escape, String.toList_ofList]
    induction s.toList with
    | nil => rfl
    | cons c cs ih => rw [List.flatMap_cons, scan_append, scan_escapeChar, ih, List.nil_append]

theorem reads_code (s : String) : Reads (code s) codeTags := by
  have hopen : Reads "<code>" [.opening "code" ""] := by decide
  have hclose : Reads "</code>" [.closing "code"] := by decide
  exact (hopen.append (reads_escape s)).append hclose

theorem reads_labelled {label : String} (hlabel : Reads label []) (text : String) :
    Reads (labelled label text) labelledTags := by
  have hopen : Reads "<p><strong>" [.opening "p" "", .opening "strong" ""] := by decide
  have hmiddle : Reads ":</strong> " [.closing "strong"] := by decide
  have hclose : Reads "</p>\n" [.closing "p"] := by decide
  exact (((hopen.append hlabel).append hmiddle).append (reads_escape text)).append hclose

theorem reads_row {first second : String} {ts ts' : List Tag} (h : Reads first ts) (h' : Reads second ts') :
    Reads (row first second) (rowTags ts ts') := by
  have hopen : Reads "<tr><td>" [.opening "tr" "", .opening "td" ""] := by decide
  have hmiddle : Reads "</td><td>" [.closing "td", .opening "td" ""] := by decide
  have hclose : Reads "</td></tr>\n" [.closing "td", .closing "tr"] := by decide
  simpa [row, rowTags, element] using (((hopen.append h).append hmiddle).append h').append hclose

theorem reads_table {title : String} (htitle : Reads title []) {α : Type} {f : α → String} {ofRow : α → List Tag}
    (h : ∀ a, Reads (f a) (ofRow a)) (rows : List α) :
    Reads (table title (rows.map f)) (tableTags ofRow rows) := by
  have hopen : Reads "<table>\n<tr><th>" [.opening "table" "", .opening "tr" "", .opening "th" ""] := by decide
  have hmiddle : Reads "</th><th>Description</th></tr>\n"
      [.closing "th", .opening "th" "", .closing "th", .closing "tr"] := by decide
  have hclose : Reads "</table>\n" [.closing "table"] := by decide
  exact (((hopen.append htitle).append hmiddle).append (.join h rows)).append hclose

theorem reads_tableIfAny {title : String} (htitle : Reads title []) {α : Type} {f : α → String}
    {ofRow : α → List Tag} (h : ∀ a, Reads (f a) (ofRow a)) (rows : List α) :
    Reads (tableIfAny title (rows.map f)) (tableTagsIfAny ofRow rows) := by
  rw [tableIfAny, tableTagsIfAny, List.isEmpty_map]
  split
  · exact reads_empty
  · exact reads_table htitle h rows

theorem reads_typeParameterRow (p : TypeParameter) : Reads (typeParameterRow p) (typeParameterTags p) :=
  reads_row (reads_code p.name) (reads_escape p.description)

theorem reads_parameterRow (p : Parameter) : Reads (parameterRow p) (parameterTags p) := by
  have hequals : Reads " = " [] := by decide
  have hdefault : Reads (p.default?.elim "" fun d => " = " ++ code d) (p.default?.elim [] fun _ => codeTags) := by
    cases p.default? with
    | none => exact reads_empty
    | some d => exact hequals.append (reads_code d)
  exact reads_row ((((reads_escape p.type).append reads_space).append (reads_code p.name)).append hdefault)
    (reads_escape p.description)

theorem reads_propertyRow (p : PropertyRow) : Reads (propertyRow p) (propertyTags p) :=
  reads_row (reads_escape p.name) (reads_escape p.comment)

theorem headingTag_mem (level : Nat) : headingTag level ∈ ["h1", "h2", "h3", "h4", "h5", "h6"] := by
  have hlevel : max 1 (min 6 level) ∈ [1, 2, 3, 4, 5, 6] := by simp; omega
  exact List.mem_map_of_mem (f := fun n : Nat => s!"h{n}") hlevel

theorem reads_headingTag (level : Nat) :
    Reads ("<" ++ headingTag level ++ ">") [.opening (headingTag level) ""] ∧
      Reads ("</" ++ headingTag level ++ ">\n") [.closing (headingTag level)] := by
  have hall : ∀ name ∈ ["h1", "h2", "h3", "h4", "h5", "h6"],
      Reads ("<" ++ name ++ ">") [.opening name ""] ∧ Reads ("</" ++ name ++ ">\n") [.closing name] := by
    decide
  exact hall _ (headingTag_mem level)

theorem reads_word (kind : DeclarationKind) : Reads kind.word [] := by
  cases kind <;> decide

theorem reads_entry (d : Declaration) (level : Nat) : Reads (entry d level) (entryTags d level) := by
  have hpre : Reads "<pre><code class=\"language-csharp\">"
      [.opening "pre" "", .opening "code" " class=\"language-csharp\""] := by decide
  have hpre' : Reads "</code></pre>\n" [.closing "code", .closing "pre"] := by decide
  have hsummary : Reads (if d.summary.isEmpty then "" else "<p>" ++ escape d.summary ++ "</p>\n")
      (if d.summary.isEmpty then [] else element "p" "" []) := by
    split
    · exact reads_empty
    · have hopen : Reads "<p>" [.opening "p" ""] := by decide
      have hclose : Reads "</p>\n" [.closing "p"] := by decide
      exact (hopen.append (reads_escape _)).append hclose
  obtain ⟨hopen, hclose⟩ := reads_headingTag level
  have hheading := ((hopen.append (reads_word d.kind)).append reads_space).append (reads_code d.name)
  exact ((((hheading.append_tag hclose).append hpre).append (reads_escape d.snippet)).append hpre').append hsummary

theorem reads_memberEntry (d : Declaration) (level : Nat) :
    Reads (memberEntry d level) (memberEntryTags d level) := by
  have hreturns : Reads (if d.returns.isEmpty then "" else labelled "Returns" d.returns)
      (if d.returns.isEmpty then [] else labelledTags) := by
    split
    · exact reads_empty
    · exact reads_labelled (by decide) _
  exact (((reads_entry d level).append hreturns).append
    (reads_tableIfAny (by decide) reads_typeParameterRow d.typeParameters)).append
    (reads_tableIfAny (by decide) reads_parameterRow d.parameters)

theorem reads_title (c : Category) : Reads c.title [] := by
  cases c <;> decide

set_option maxRecDepth 2000 in
/-- An anchor ends no attribute. -/
theorem quote_not_mem_slug (heading : String) : '"' ∉ (Anchor.slug heading).toList := by
  rw [Anchor.slug, String.toList_ofList, List.mem_map]
  rintro ⟨c, hc, hquote⟩
  have hkept := (List.mem_filter.1 hc).2
  split at hquote
  · cases hquote
  · have hother : Anchor.isKept '"' = false := by decide
    rw [hquote, hother] at hkept
    cases hkept

theorem reads_navigationItem (c : Category) : Reads (navigationItem c) (navigationItemTags c) := by
  have hopen : Reads ("  <li><a href=\"#" ++ Anchor.slug c.title ++ "\">")
      ([.opening "li" ""] ++ [.opening "a" (" href=\"#" ++ Anchor.slug c.title ++ "\"")]) := by
    refine .quoted rfl (quote_not_mem_slug c.title) ?_
    simp [Tag.ofInside, ← String.toList_inj]
  have hclose : Reads "</a></li>\n" [.closing "a", .closing "li"] := by decide
  exact (hopen.append (reads_title c)).append hclose

theorem reads_navigation (categories : List Category) :
    Reads (fragment (.navigation categories)) (navigationTags categories) := by
  have hopen : Reads "<nav>\n<strong>Navigate</strong>\n<ul>\n"
      [.opening "nav" "", .opening "strong" "", .closing "strong", .opening "ul" ""] := by decide
  have hclose : Reads "</ul>\n</nav>\n" [.closing "ul", .closing "nav"] := by decide
  have htags : navigationTags categories =
      [.opening "nav" "", .opening "strong" "", .closing "strong", .opening "ul" ""] ++
        categories.flatMap navigationItemTags ++ [.closing "ul", .closing "nav"] := by
    simp [navigationTags, element]
  rw [htags]
  exact (hopen.append (.join reads_navigationItem categories)).append hclose

theorem reads_sectionHeading (c : Category) :
    Reads (fragment (.sectionHeading c)) (fragmentTags (.sectionHeading c)) := by
  have hopen : Reads ("<h2 id=\"" ++ Anchor.slug c.title ++ "\">")
      ([] ++ [.opening "h2" (" id=\"" ++ Anchor.slug c.title ++ "\"")]) := by
    refine .quoted rfl (quote_not_mem_slug c.title) ?_
    simp [Tag.ofInside, ← String.toList_inj]
  have hclose : Reads "</h2>\n" [.closing "h2"] := by decide
  exact (hopen.append (reads_title c)).append hclose

theorem reads_style : Reads style (element "style" "" []) := by
  have hopen : Reads "<style>\n" [.opening "style" ""] := by decide
  have hclose : Reads "</style>\n" [.closing "style"] := by decide
  exact ((((((hopen.append (reads_plain (by decide))).append (reads_plain (by decide))).append
    (reads_plain (by decide))).append (reads_plain (by decide))).append (reads_plain (by decide))).append
    (reads_plain (by decide))).append hclose

/-- A reader finds the tags of a fragment in its text. -/
theorem reads_fragment (f : Fragment) : Reads (fragment f) (fragmentTags f) := by
  cases f with
  | opening name =>
    have hbefore : Reads "<!DOCTYPE html>\n<html>\n<head>\n<meta charset=\"utf-8\">\n<title>"
        [.opening "!DOCTYPE" " html", .opening "html" "", .opening "head" "", .opening "meta" " charset=\"utf-8\"",
          .opening "title" ""] := .of_scan (by decide)
    have htitle : Reads "</title>\n" [.closing "title"] := by decide
    have hafter : Reads "</head>\n<body>\n" [.closing "head", .opening "body" ""] := by decide
    exact (((hbefore.append (reads_escape name)).append htitle).append reads_style).append hafter
  | namespaceLine name => exact reads_labelled (by decide) name
  | classEntry d => exact reads_entry d 1
  | interfaceEntry d => exact reads_entry d 1
  | structEntry d => exact reads_entry d 3
  | memberEntry d level => exact reads_memberEntry d level
  | propertyTable rows => exact reads_table (by decide) reads_propertyRow rows
  | navigation categories => exact reads_navigation categories
  | sectionHeading c => exact reads_sectionHeading c
  | separator => decide
  | diagnostic kind name message =>
    have hopen : Reads "<p class=\"warning\"><strong>Warning:</strong> "
        [.opening "p" " class=\"warning\"", .opening "strong" "", .closing "strong"] := by decide
    have hmiddle : Reads " could not be documented: " [] := by decide
    have hclose : Reads "</p>\n" [.closing "p"] := by decide
    exact (((((hopen.append (reads_word kind)).append reads_space).append (reads_code name)).append hmiddle).append
      (reads_escape message)).append hclose
  | closing => decide

theorem reads_page (fragments : List Fragment) :
    Reads (renderer.page fragments) (fragments.flatMap fragmentTags) :=
  .join reads_fragment fragments

/-! ## The tags of a page nest -/

theorem closed_code : Closed codeTags :=
  .element (by decide) closed_nil

theorem closed_labelled : Closed labelledTags :=
  .element (by decide) (.element (by decide) closed_nil)

theorem closed_row {first second : List Tag} (h : Closed first) (h' : Closed second) :
    Closed (rowTags first second) :=
  .element (by decide) (.append (.element (by decide) h) (.element (by decide) h'))

theorem closed_table {α : Type} {ofRow : α → List Tag} (h : ∀ a, Closed (ofRow a)) (rows : List α) :
    Closed (tableTags ofRow rows) :=
  have hheading : Closed (element "th" "" []) := .element (by decide) closed_nil
  .element (by decide) (.append (.element (by decide) (hheading.append hheading)) (.flatMap fun a _ => h a))

theorem closed_tableIfAny {α : Type} {ofRow : α → List Tag} (h : ∀ a, Closed (ofRow a)) (rows : List α) :
    Closed (tableTagsIfAny ofRow rows) := by
  rw [tableTagsIfAny]
  split
  · exact closed_nil
  · exact closed_table h rows

theorem closed_parameter (p : Parameter) : Closed (parameterTags p) := by
  refine closed_row (.append closed_code ?_) closed_nil
  cases p.default? with
  | none => exact closed_nil
  | some _ => exact closed_code

theorem closed_entry (d : Declaration) (level : Nat) : Closed (entryTags d level) := by
  have hheading : headingTag level ∉ standAlone := by
    have hall : ∀ name ∈ ["h1", "h2", "h3", "h4", "h5", "h6"], name ∉ standAlone := by decide
    exact hall _ (headingTag_mem level)
  refine .append (.append (.element hheading closed_code) (.element (by decide) (.element (by decide) closed_nil))) ?_
  split
  · exact closed_nil
  · exact .element (by decide) closed_nil

theorem closed_memberEntry (d : Declaration) (level : Nat) : Closed (memberEntryTags d level) := by
  refine .append (.append (.append (closed_entry d level) ?_) (closed_tableIfAny (fun _ => ?_) _))
    (closed_tableIfAny closed_parameter _)
  · split
    · exact closed_nil
    · exact closed_labelled
  · exact closed_row closed_code closed_nil

end Html

/-- A fragment that stands between the opening and the closing of a page. -/
def Fragment.isInner : Fragment → Bool
  | .opening _ | .closing => false
  | _ => true

namespace Html

theorem closed_fragment {f : Fragment} (h : f.isInner = true) : Closed (fragmentTags f) := by
  cases f with
  | opening | closing => cases h
  | namespaceLine => exact closed_labelled
  | classEntry d => exact closed_entry d 1
  | interfaceEntry d => exact closed_entry d 1
  | structEntry d => exact closed_entry d 3
  | memberEntry d level => exact closed_memberEntry d level
  | propertyTable rows => exact closed_table (fun _ => closed_row closed_nil closed_nil) rows
  | navigation categories =>
    exact .element (by decide) (.append (.element (by decide) closed_nil)
      (.element (by decide) (.flatMap fun _ _ => .element (by decide) (.element (by decide) closed_nil))))
  | sectionHeading c => exact .element (by decide) closed_nil
  | separator => exact fun _ _ => rfl
  | diagnostic kind name message => exact .element (by decide) (.append (.element (by decide) closed_nil) closed_code)

/-- The tags of a page nest, whatever stands between its opening and its closing. -/
theorem nests_page (name : String) {inner : List Fragment} (h : ∀ f ∈ inner, f.isInner = true) :
    nests [] (((Fragment.opening name :: inner ++ [Fragment.closing]).flatMap fragmentTags).filter Tag.isPaired) =
      true := by
  have hopening : (fragmentTags (.opening name)).filter Tag.isPaired =
      [.opening "html" "", .opening "head" ""] ++ element "title" "" [] ++ element "style" "" [] ++
        [.closing "head", .opening "body" ""] := rfl
  have hclosing : (fragmentTags .closing).filter Tag.isPaired = [.closing "body", .closing "html"] := rfl
  have hinner := Closed.flatMap fun f hf => closed_fragment (h f hf)
  rw [List.cons_append, List.flatMap_cons, List.flatMap_append, List.flatMap_singleton, List.filter_append,
    List.filter_append, hopening, hclosing]
  calc nests [] _ = nests ["body", "html"] ((inner.flatMap fragmentTags).filter Tag.isPaired ++
        [.closing "body", .closing "html"]) := rfl
    _ = nests ["body", "html"] [.closing "body", .closing "html"] := hinner _ _
    _ = true := rfl

end Html

/-! ## Only opening and closing are at the ends of a page -/

section

variable {tree : Tree} {kind : DeclarationKind} {p : Place}

theorem isInner_of_isDeclaration {f : Fragment} (h : f.isDeclaration = true) : f.isInner = true := by
  cases f <;> first | rfl | cases h

theorem isInner_entryOf (level : Nat) : (entryOf tree kind level p).isInner = true :=
  isInner_of_isDeclaration (isDeclaration_fragment tree _)

theorem IsSectionBody.isInner {c : Category} {body : List Fragment} (h : IsSectionBody tree p c body) :
    ∀ f ∈ body, f.isInner = true := by
  cases h with
  | properties => exact List.forall_mem_singleton.2 rfl
  | structs _ _ _ =>
    intro f hf
    obtain ⟨g, -, hf⟩ := List.mem_flatMap.1 hf
    rcases List.mem_cons.1 hf with rfl | hf
    · exact isInner_entryOf 3
    · obtain ⟨q, -, rfl⟩ := List.mem_map.1 hf
      exact isInner_entryOf 4
  | constructors | methods => exact List.forall_mem_map.2 fun q _ => isInner_entryOf 3

theorem IsTypePage.isInner {fragments : List Fragment} (h : IsTypePage tree kind p fragments) :
    ∀ f ∈ fragments, f.isInner = true := by
  obtain ⟨order, present, bodies⟩ := h
  rename_i sections
  refine List.forall_mem_cons.2 ⟨isInner_entryOf 3, ?_⟩
  cases sections with
  | nil => exact fun f hf => absurd hf List.not_mem_nil
  | cons s sections =>
    refine List.forall_mem_cons.2 ⟨rfl, fun f hf => ?_⟩
    obtain ⟨s', hs, hf⟩ := List.mem_flatMap.1 hf
    rcases List.mem_cons.1 hf with rfl | hf
    · rfl
    · exact (bodies s' hs).isInner f hf

theorem isInner_typePages {places : List Place} {pages : List (List Fragment)}
    (h : List.Forall₂ (IsTypePage tree kind) places pages) :
    ∀ f ∈ [Fragment.separator].intercalate pages, f.isInner = true := by
  intro f hf
  rcases mem_intercalate hf with hf | ⟨page, hpage, hf⟩
  · rw [List.mem_singleton.1 hf]
    rfl
  · obtain ⟨p, hp⟩ := typePage_of_mem h page hpage
    exact hp.isInner f hf

theorem IsPage.ends {fragments : List Fragment} (h : IsPage tree fragments) :
    ∃ name inner, fragments = .opening name :: inner ++ [.closing] ∧ ∀ f ∈ inner, f.isInner = true := by
  obtain ⟨named, areClasses, areInterfaces, ofClasses, ofInterfaces⟩ := h
  rename_i name classes interfaces classPages interfacePages
  refine ⟨name, .namespaceLine name :: ([.separator].intercalate classPages ++
    [.separator].intercalate interfacePages), by simp, List.forall_mem_cons.2 ⟨rfl, fun f hf => ?_⟩⟩
  rcases List.mem_append.1 hf with hf | hf
  · exact isInner_typePages ofClasses f hf
  · exact isInner_typePages ofInterfaces f hf

end

/-! ## Texts have no part in the tags -/

/-- All that may be seen of a text that is left out if it is empty. -/
def presence (s : String) : String :=
  if s.isEmpty then "" else " "

theorem isEmpty_presence (s : String) : (presence s).isEmpty = s.isEmpty := by
  unfold presence
  split
  · next h => rw [h]; rfl
  · next h => rw [eq_false_of_ne_true h]; rfl

/-- A declaration without its texts. What is left is its kind, which of its optional texts there are, and the
number of its parameters. -/
def Declaration.blanked (d : Declaration) : Declaration where
  kind := d.kind
  name := ""
  snippet := ""
  summary := presence d.summary
  returns := presence d.returns
  parameters := d.parameters.map fun p => ⟨"", "", p.default?.map fun _ => "", ""⟩
  typeParameters := d.typeParameters.map fun _ => ⟨"", ""⟩

/-- A fragment without the texts that come from the source. -/
def Fragment.blanked : Fragment → Fragment
  | .opening _ => .opening ""
  | .namespaceLine _ => .namespaceLine ""
  | .classEntry d => .classEntry d.blanked
  | .interfaceEntry d => .interfaceEntry d.blanked
  | .structEntry d => .structEntry d.blanked
  | .memberEntry d level => .memberEntry d.blanked level
  | .propertyTable rows => .propertyTable (rows.map fun _ => ⟨"", ""⟩)
  | .navigation categories => .navigation categories
  | .sectionHeading c => .sectionHeading c
  | .separator => .separator
  | .diagnostic kind _ _ => .diagnostic kind "" ""
  | .closing => .closing

namespace Html

theorem entryTags_blanked (d : Declaration) (level : Nat) : entryTags d.blanked level = entryTags d level := by
  simp only [entryTags, Declaration.blanked, isEmpty_presence]

theorem tableTags_map {α : Type} {ofRow : α → List Tag} {f : α → α} (h : ∀ a, ofRow (f a) = ofRow a)
    (rows : List α) : tableTags ofRow (rows.map f) = tableTags ofRow rows := by
  simp only [tableTags, List.flatMap_map, h]

theorem tableTagsIfAny_map {α : Type} {ofRow : α → List Tag} {f : α → α} (h : ∀ a, ofRow (f a) = ofRow a)
    (rows : List α) : tableTagsIfAny ofRow (rows.map f) = tableTagsIfAny ofRow rows := by
  simp only [tableTagsIfAny, List.isEmpty_map, tableTags_map h]

theorem memberEntryTags_blanked (d : Declaration) (level : Nat) :
    memberEntryTags d.blanked level = memberEntryTags d level := by
  have hparameter : ∀ p : Parameter,
      parameterTags ⟨"", "", p.default?.map fun _ => "", ""⟩ = parameterTags p := fun p => by
    rw [parameterTags, parameterTags]
    cases p.default? <;> rfl
  have htypeParameter : ∀ p : TypeParameter, typeParameterTags ⟨"", ""⟩ = typeParameterTags p := fun _ => rfl
  simp only [memberEntryTags, entryTags_blanked]
  simp only [Declaration.blanked, isEmpty_presence, tableTagsIfAny_map hparameter,
    tableTagsIfAny_map htypeParameter]

/-- A fragment has the tags it has without its texts. -/
theorem fragmentTags_blanked (f : Fragment) : fragmentTags f.blanked = fragmentTags f := by
  cases f with
  | classEntry d => exact entryTags_blanked d 1
  | interfaceEntry d => exact entryTags_blanked d 1
  | structEntry d => exact entryTags_blanked d 3
  | memberEntry d level => exact memberEntryTags_blanked d level
  | propertyTable rows =>
    have hrow : ∀ row : PropertyRow, propertyTags ⟨"", ""⟩ = propertyTags row := fun _ => rfl
    exact tableTags_map hrow rows
  | _ => rfl

theorem tags_of_blanked {fragments others : List Fragment}
    (h : others.map Fragment.blanked = fragments.map Fragment.blanked) :
    others.flatMap fragmentTags = fragments.flatMap fragmentTags := by
  have hblanked : ∀ fs : List Fragment, fs.flatMap fragmentTags = (fs.map Fragment.blanked).flatMap fragmentTags :=
    fun fs => by simp only [List.flatMap_map, fragmentTags_blanked]
  rw [hblanked others, h, ← hblanked]

end Html

/-- **No source breaks an HTML page.** The tags of a page nest, those that stand alone apart, and a page of
fragments that differ in their texts only has the same tags with the same attributes. -/
theorem html_tags {source : String} {policy : Policy} {text : String}
    (h : (pageOf Html.renderer policy source).2 = .ok text) :
    ∃ fragments tags, ((Tree.ofSource source).document policy).page = .ok fragments ∧
      text = Html.renderer.page fragments ∧ Html.tags? text = some tags ∧
      Html.nests [] (tags.filter Html.Tag.isPaired) = true ∧
      ∀ others : List Fragment, others.map Fragment.blanked = fragments.map Fragment.blanked →
        Html.tags? (Html.renderer.page others) = some tags := by
  obtain ⟨fragments, hpage, rfl⟩ := page_of_pageOf h
  refine ⟨fragments, fragments.flatMap Html.fragmentTags, hpage, rfl, (Html.reads_page fragments).tags?_eq, ?_, ?_⟩
  · obtain ⟨plan, hplan, rfl⟩ := fragments_of_page hpage
    obtain ⟨name, inner, hends, hinner⟩ := (isPage_plan hplan).ends
    rw [hends]
    exact Html.nests_page name hinner
  · intro others hothers
    rw [← Html.tags_of_blanked hothers]
    exact (Html.reads_page others).tags?_eq

/-- A method whose default value, summary and heading would end elements of the page. -/
def sampleSource : String :=
  "namespace N; class A<T> \x7b\n/// <summary>&lt;/body></summary>\nvoid M<U>(string s = \"</td>\") \x7b\x7d \x7d"

theorem html_tags_sample : ∃ text, (pageOf Html.renderer .isolate sampleSource).2 = .ok text ∧
    ∃ tags, Html.tags? text = some tags ∧ Html.nests [] (tags.filter Html.Tag.isPaired) = true := by
  have hok : (pageOf Html.renderer .isolate sampleSource).2.isOk = true := by decide +kernel
  cases h : (pageOf Html.renderer .isolate sampleSource).2 with
  | error e =>
    rw [h] at hok
    cases hok
  | ok text =>
    obtain ⟨fragments, tags, -, -, htags, hnests, -⟩ := html_tags h
    exact ⟨text, rfl, tags, htags, hnests⟩

end DocPages
