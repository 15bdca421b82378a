/-
Documentation comments that are written entry by entry, each with its opening
tag, the lines of its text and its closing tag on lines of their own. What is
read of such a comment are the entries it was written for, in their order. So
a tag has the text of its first entry, and a tag with a name that of the last
entry with both.
-/
import DocPages.Comment
import DocPages.Proofs.MarkupReading
import Mathlib.Data.List.Forall2

namespace DocPages

open Markup (IsWord IsValueChar Reads Frame Content encode)
open Source (Trivia)

/-! ## Entries as they are written -/

/-- A line of text that is read back as it is. -/
structure IsTextLine (l : String) : Prop where
  trimmed : trimmed l = l
  legal : ∀ c ∈ l.toList, Markup.isLegal c = true
  unbroken : ∀ c ∈ l.toList, Source.isLineBreak c = false

theorem isTextLine_iff {l : String} : IsTextLine l ↔
    DocPages.trimmed l = l ∧ l.toList.all (fun c => Markup.isLegal c && !Source.isLineBreak c) = true := by
  simp only [List.all_eq_true, Bool.and_eq_true, Bool.not_eq_true']
  exact ⟨fun h => ⟨h.trimmed, fun c hc => ⟨h.legal c hc, h.unbroken c hc⟩⟩,
    fun h => ⟨h.1, fun c hc => (h.2 c hc).1, fun c hc => (h.2 c hc).2⟩⟩

instance (l : String) : Decidable (IsTextLine l) :=
  decidable_of_iff _ isTextLine_iff.symm

/-- An entry of a comment with the lines of its text, of which the first and the last are not empty. -/
structure WrittenEntry where
  tag : String
  name? : Option String
  lines : List String
  isTag : IsWord tag.toList
  /-- Names are words of the documented language. -/
  isName : ∀ name, name? = some name → Source.IsTokenBefore [] .ident name.toList
  isText : ∀ l ∈ lines, IsTextLine l
  first : lines.head? ≠ some ""
  last : lines.getLast? ≠ some ""

namespace WrittenEntry

def text (e : WrittenEntry) : String :=
  "\n".intercalate e.lines

def openingTag (e : WrittenEntry) : String :=
  match e.name? with
  | none => "<" ++ e.tag ++ ">"
  | some name => "<" ++ e.tag ++ " name=\"" ++ name ++ "\">"

def closingTag (e : WrittenEntry) : String :=
  "</" ++ e.tag ++ ">"

/-- The lines of markup for an entry. -/
def markup (e : WrittenEntry) : List String :=
  e.openingTag :: (e.lines.map (fun l => String.ofList (encode l.toList)) ++ [e.closingTag])

/-- The entry that is to be read. -/
def entry (e : WrittenEntry) : Entry :=
  ⟨e.tag, e.name?, e.text⟩

end WrittenEntry

/-- The text of a comment on one line shows a line of markup behind its marker, with any white space between. -/
def IsCommentLine (content text : String) : Prop :=
  ∃ indent lead gap, (∀ c ∈ indent ++ lead ++ gap, Unicode.isBlank c = true) ∧
    text.toList = indent ++ ("///".toList ++ (lead ++ (content.toList ++ gap)))

/-- The documentation comments among the trivia show the markup of the entries, line by line. -/
def IsWritten (entries : List WrittenEntry) (trivia : List Trivia) : Prop :=
  List.Forall₂ IsCommentLine (entries.flatMap (·.markup))
    ((trivia.filter (·.kind = .docComment)).map (·.text))

/-- A tag set gives back the texts of the entries: of a tag the first one, of a tag with a name the last one, and
nothing where there is none. -/
structure TagSet.Holds (tags : TagSet) (entries : List WrittenEntry) : Prop where
  first : ∀ before e after, entries = before ++ e :: after → (∀ f ∈ before, f.tag ≠ e.tag) →
    tags.tag e.tag = e.text
  noTag : ∀ t, (∀ e ∈ entries, e.tag ≠ t) → tags.tag t = ""
  last : ∀ before e after name, entries = before ++ e :: after → e.name? = some name →
    (∀ f ∈ after, f.tag = e.tag → f.name? ≠ some name) → tags.item e.tag name = e.text
  noItem : ∀ t name, (∀ e ∈ entries, e.tag = t → e.name? ≠ some name) → tags.item t name = ""

/-! ## Lines -/

theorem trimmed_eq_iff {s : String} : trimmed s = s ↔
    (∀ c, s.toList.head? = some c → Unicode.isBlank c = false) ∧
      ∀ c, s.toList.getLast? = some c → Unicode.isBlank c = false := by
  have htrim : trimmed s = s ↔ Unicode.trim s.toList = s.toList := by
    rw [trimmed, ← String.toList_inj, String.toList_ofList]
  rw [htrim]
  refine ⟨fun h => ⟨fun c hc => ?_, fun c hc => ?_⟩, fun h => ?_⟩
  · exact Unicode.isBlank_of_head?_trim (s := s.toList) (by rwa [h])
  · exact Unicode.isBlank_of_getLast?_trim (s := s.toList) (by rwa [h])
  · rw [Unicode.trim, Unicode.trimStart, Unicode.dropWhile_of_head? h.1, Unicode.trimEnd_of_getLast? h.2]

theorem commentLine_of_isCommentLine {content text : String} (h : IsCommentLine content text)
    (hcontent : trimmed content = content) : commentLine text = content := by
  obtain ⟨indent, lead, gap, hblank, htext⟩ := h
  simp only [List.mem_append, or_imp, forall_and] at hblank
  obtain ⟨⟨hindent, hlead⟩, hgap⟩ := hblank
  have hstart : Unicode.trimStart text.toList = "///".toList ++ (lead ++ (content.toList ++ gap)) := by
    rw [htext, Unicode.trimStart, List.dropWhile_append_of_pos hindent]
    rfl
  obtain ⟨hfirst, hlast⟩ := trimmed_eq_iff.1 hcontent
  have hrest : commentLine text = trimmed (String.ofList (lead ++ (content.toList ++ gap))) := by
    rw [commentLine, hstart]
    rfl
  rw [hrest, trimmed, String.toList_ofList, Unicode.trim_between hlead hgap hfirst hlast, String.ofList_toList]

theorem map_commentLine {contents texts : List String} (h : List.Forall₂ IsCommentLine contents texts)
    (hcontents : ∀ l ∈ contents, trimmed l = l) : texts.map commentLine = contents := by
  induction h with
  | nil => rfl
  | cons hline _ ih =>
    rw [List.forall_mem_cons] at hcontents
    rw [List.map_cons, commentLine_of_isCommentLine hline hcontents.1, ih hcontents.2]

/-- Lines of text, each with its line end. -/
def ended (lines : List String) : List Char :=
  lines.flatMap (·.toList ++ ['\n'])

theorem ended_cons (l : String) (ls : List String) : ended (l :: ls) = l.toList ++ '\n' :: ended ls := by
  rw [ended, List.flatMap_cons, List.append_assoc]
  rfl

theorem ended_append (ls ms : List String) : ended (ls ++ ms) = ended ls ++ ended ms :=
  List.flatMap_append

theorem ended_eq {lines : List String} (h : lines ≠ []) :
    ended lines = ("\n".intercalate lines).toList ++ ['\n'] := by
  induction lines with
  | nil => exact absurd rfl h
  | cons l ls ih =>
    cases ls with
    | nil => simp [ended]
    | cons m ms =>
      rw [ended_cons, ih (by simp), String.intercalate_cons_cons]
      simp

theorem head?_intercalate {l : String} (hl : l ≠ "") (ls : List String) :
    ("\n".intercalate (l :: ls)).toList.head? = l.toList.head? := by
  have hne : l.toList ≠ [] := fun h => hl (String.toList_eq_nil_iff.1 h)
  cases ls with
  | nil => rw [String.intercalate_singleton]
  | cons m ms =>
    rw [String.intercalate_cons_cons, String.append_assoc, String.toList_append, List.head?_append_of_ne_nil _ hne]

theorem getLast?_intercalate {l : String} (hl : l ≠ "") (ls : List String) :
    ("\n".intercalate (ls ++ [l])).toList.getLast? = l.toList.getLast? := by
  have hne : l.toList ≠ [] := fun h => hl (String.toList_eq_nil_iff.1 h)
  induction ls with
  | nil => rw [List.nil_append, String.intercalate_singleton]
  | cons m ms ih =>
    have hrest : ("\n".intercalate (ms ++ [l])).toList ≠ [] := fun h => by
      rw [h] at ih
      exact hne (List.getLast?_eq_none_iff.1 ih.symm)
    obtain ⟨x, xs, hx⟩ := List.exists_cons_of_ne_nil (List.append_ne_nil_of_right_ne_nil ms (List.cons_ne_nil l []))
    rw [List.cons_append, hx, String.intercalate_cons_cons, ← hx, String.toList_append,
      List.getLast?_append_of_ne_nil _ hrest, ih]

theorem ended_encode (lines : List String) :
    ended (lines.map fun l => String.ofList (encode l.toList)) = encode (ended lines) := by
  induction lines with
  | nil => rfl
  | cons l ls ih =>
    have hbreak : Markup.encodeChar '\n' = ['\n'] := rfl
    rw [List.map_cons, ended_cons, ended_cons, ih, String.toList_ofList]
    simp only [encode, List.flatMap_append, List.flatMap_cons, hbreak, List.singleton_append]

/-! ## Names -/

set_option maxRecDepth 4000 in
/-- A word has none of the characters that an attribute would not give back. -/
theorem isValueChar_of_isIdentPart {c : Char} (h : Source.isIdentPart c = true) : IsValueChar c := by
  -- Control characters and the space, the three special ones, and the two that no document may hold.
  have hother : ∀ n ∈ List.range 0x21 ++ [0x22, 0x26, 0x3C, 0xFFFE, 0xFFFF],
      Source.isIdentPart (Char.ofNat n) = false := by
    decide
  have hne : ∀ n ∈ List.range 0x21 ++ [0x22, 0x26, 0x3C, 0xFFFE, 0xFFFF], c.toNat ≠ n := fun n hn hc => by
    have hpart := hother n hn
    rw [← hc, Char.ofNat_toNat, h] at hpart
    cases hpart
  have hlow : ¬ c.toNat < 0x21 := fun hc => hne _ (List.mem_append_left _ (List.mem_range.2 hc)) rfl
  refine ⟨?_, ?_, ?_⟩
  · rw [Markup.isLegal, if_neg (by omega)]
    simp [hne 0xFFFE (by simp), hne 0xFFFF (by simp)]
  · rw [Bool.eq_false_iff]
    intro hspace
    simp only [Markup.isSpace, Bool.or_eq_true, beq_iff_eq] at hspace
    rcases hspace with ((rfl | rfl) | rfl) | rfl <;> exact hlow (by decide)
  · refine ⟨?_, ?_, ?_⟩ <;> rintro rfl
    · exact hne 0x22 (by decide) rfl
    · exact hne 0x3C (by decide) rfl
    · exact hne 0x26 (by decide) rfl

theorem isValueChar_of_ident {w : List Char} (h : Source.IsTokenBefore [] .ident w) : ∀ c ∈ w, IsValueChar c := by
  have hstart : ∀ {c}, Source.isIdentStart c = true → IsValueChar c := fun hc =>
    isValueChar_of_isIdentPart (by rw [Source.isIdentPart, hc]; rfl)
  cases h with
  | word hc hw => exact List.forall_mem_cons.2 ⟨hstart hc, fun d hd => isValueChar_of_isIdentPart (hw d hd)⟩
  | atWord hc hw =>
    have hat : IsValueChar '@' := ⟨by decide, by decide, by decide⟩
    exact List.forall_mem_cons.2 ⟨hat, List.forall_mem_cons.2
      ⟨hstart hc, fun d hd => isValueChar_of_isIdentPart (hw d hd)⟩⟩
  | mark hc =>
    unfold Source.markKind? at hc
    split at hc <;> cases hc

/-! ## What is read of an entry -/

namespace WrittenEntry

variable (e : WrittenEntry)

def attributes : List Markup.Attribute :=
  e.name?.elim [] fun name => [⟨none, "name", name⟩]

/-- The element that is read of an entry. -/
def content : Content :=
  .element e.tag e.attributes [.text (String.ofList ('\n' :: ended e.lines))]

theorem openingTag_toList : ∃ w, e.openingTag.toList = '<' :: (w ++ ['>']) := by
  rw [openingTag]
  split
  · exact ⟨e.tag.toList, by simp⟩
  · next name _ => exact ⟨e.tag.toList ++ " name=\"".toList ++ name.toList ++ ['"'], by simp⟩

theorem contentOf_openingTag {top : Frame} (hscope : top.inScope = []) (outer : List Frame) (r : List Char) :
    Markup.contentOf top outer (e.openingTag.toList ++ r) =
      Markup.contentOf ⟨⟨"", e.tag⟩, e.attributes, [], []⟩ (top :: outer) r := by
  obtain ⟨c, t, hct⟩ := List.exists_cons_of_ne_nil e.isTag.nonempty
  have htag := e.isTag
  have hc : c.isAlpha = true := htag.letters c (by rw [hct]; exact List.mem_cons_self)
  have hname : String.ofList (c :: t) = e.tag := by rw [← hct, String.ofList_toList]
  rw [hct] at htag
  cases hn : e.name? with
  | none =>
    have hchars : e.openingTag.toList ++ r = '<' :: c :: (t ++ '>' :: r) := by
      simp [openingTag, hn, hct]
    have hattributes : e.attributes = [] := by rw [attributes, hn]; rfl
    rw [hchars]
    refine Markup.contentOf_opening (Markup.item_opening hc (Markup.startTag_plain htag)) ?_ rfl
    rw [hscope, hname, hattributes]
    rfl
  | some name =>
    have hchars : e.openingTag.toList ++ r =
        '<' :: c :: (t ++ ' ' :: ("name".toList ++ '=' :: '"' :: (name.toList ++ '"' :: '>' :: r))) := by
      simp [openingTag, hn, hct]
    have hattributes : e.attributes = [⟨none, "name", name⟩] := by rw [attributes, hn]; rfl
    obtain ⟨left, left', htagRead⟩ := Markup.startTag_named (r := r) htag (isValueChar_of_ident (e.isName name hn))
    rw [hchars]
    refine Markup.contentOf_opening (Markup.item_opening hc htagRead) ?_ rfl
    rw [hscope, hname, hattributes, String.ofList_toList]
    rfl

theorem contentOf_closingTag {top next : Frame} (hname : top.name = ⟨"", e.tag⟩) (outer : List Frame)
    (r : List Char) : Markup.contentOf top (next :: outer) (e.closingTag.toList ++ r) =
      Markup.contentOf (next.add top.element) outer r := by
  have hchars : e.closingTag.toList ++ r = '<' :: '/' :: (e.tag.toList ++ '>' :: r) := by
    simp [closingTag]
  have hclose := Markup.item_closing (Markup.closeTag_reads (r := r) e.isTag)
  rw [String.ofList_toList, ← hname] at hclose
  rw [hchars, Markup.contentOf_closing hclose]

theorem ended_legal : ∀ c ∈ ended e.lines, Markup.isLegal c = true ∧ c ≠ '\r' := by
  intro c hc
  obtain ⟨l, hl, hc⟩ := List.mem_flatMap.1 hc
  rcases List.mem_append.1 hc with hc | hc
  · refine ⟨(e.isText l hl).legal c hc, ?_⟩
    rintro rfl
    exact Bool.noConfusion ((e.isText l hl).unbroken '\r' hc)
  · rw [List.mem_singleton.1 hc]
    decide

/-- An entry is added to the element it stands in. The line end after it is left for what follows. -/
theorem contentOf_entry (top : Frame) (hscope : top.inScope = []) (outer : List Frame) (r : List Char) :
    Markup.contentOf top outer (ended e.markup ++ r) =
      Markup.contentOf (top.add e.content) outer ('\n' :: r) := by
  have hchars : ended e.markup ++ r = e.openingTag.toList ++ '\n' :: (encode (ended e.lines) ++
      (e.closingTag.toList ++ '\n' :: r)) := by
    rw [markup, ended_cons, ended_append, ended_encode]
    simp [ended]
  have hclosing : e.closingTag.toList ++ '\n' :: r = '<' :: (e.closingTag.toList.tail ++ '\n' :: r) := by
    simp [closingTag]
  have htext : Reads (Markup.item '\n') (encode (ended e.lines) ++ '<' :: (e.closingTag.toList.tail ++ '\n' :: r))
      (.text (String.ofList ('\n' :: ended e.lines))) ('<' :: (e.closingTag.toList.tail ++ '\n' :: r)) :=
    Markup.item_text ⟨rfl, by decide⟩ (List.forall_mem_cons.2 ⟨by decide, e.ended_legal⟩)
  rw [hchars, e.contentOf_openingTag hscope, hclosing, Markup.contentOf_text htext, ← hclosing,
    e.contentOf_closingTag rfl]
  rfl

/-- The markup of an entry has no white space around its lines. -/
theorem trimmed_of_mem_markup {l : String} (h : l ∈ e.markup) : trimmed l = l := by
  have htag : ∀ {t : String} {w : List Char}, t.toList = '<' :: (w ++ ['>']) → trimmed t = t := fun {t w} ht => by
    refine trimmed_eq_iff.2 ⟨fun c hc => ?_, fun c hc => ?_⟩
    · rw [ht] at hc
      rw [← Option.some.inj hc]
      decide
    · rw [ht, ← List.cons_append, List.getLast?_concat] at hc
      rw [← Option.some.inj hc]
      decide
  rcases List.mem_cons.1 h with rfl | h
  · obtain ⟨w, hw⟩ := e.openingTag_toList
    exact htag hw
  rcases List.mem_append.1 h with h | h
  · obtain ⟨m, hm, rfl⟩ := List.mem_map.1 h
    obtain ⟨hfirst, hlast⟩ := trimmed_eq_iff.1 (e.isText m hm).trimmed
    refine trimmed_eq_iff.2 ⟨fun c hc => ?_, fun c hc => ?_⟩ <;> rw [String.toList_ofList] at hc
    · rcases Markup.head?_encode hc with rfl | hc
      · decide
      · exact hfirst c hc
    · rcases Markup.getLast?_encode hc with rfl | hc
      · decide
      · exact hlast c hc
  · obtain rfl := List.mem_singleton.1 h
    exact htag (w := '/' :: e.tag.toList) (by simp [closingTag])

/-- What is read between the tags of an entry is its text, but for the line ends at both sides. -/
theorem trimmed_lines : trimmed (String.ofList ('\n' :: ended e.lines)) = e.text := by
  rw [trimmed, String.toList_ofList, ← String.toList_inj, String.toList_ofList]
  by_cases hlines : e.lines = []
  · rw [hlines, text, hlines]
    rfl
  have hfirst : ∀ c, e.text.toList.head? = some c → Unicode.isBlank c = false := fun c hc => by
    obtain ⟨l, ls, hl⟩ := List.exists_cons_of_ne_nil hlines
    have hne : l ≠ "" := fun h => e.first (by rw [hl, h]; rfl)
    rw [text, hl, head?_intercalate hne] at hc
    exact (trimmed_eq_iff.1 (e.isText l (by rw [hl]; exact List.mem_cons_self)).trimmed).1 c hc
  have hlast : ∀ c, e.text.toList.getLast? = some c → Unicode.isBlank c = false := fun c hc => by
    obtain ⟨ls, l, hl⟩ := (List.eq_nil_or_concat' e.lines).resolve_left hlines
    have hne : l ≠ "" := fun h => e.last (by rw [hl, h, List.getLast?_concat])
    rw [text, hl, getLast?_intercalate hne] at hc
    exact (trimmed_eq_iff.1 (e.isText l (by rw [hl]; exact List.mem_concat_self)).trimmed).2 c hc
  have hbreak : ∀ c ∈ ['\n'], Unicode.isBlank c = true := List.forall_mem_singleton.2 (by decide)
  rw [ended_eq hlines]
  exact Unicode.trim_between hbreak hbreak hfirst hlast

end WrittenEntry

/-! ## What is read of a comment -/

/-- The content of a document with the entries, each on lines of its own. -/
def contents (entries : List WrittenEntry) : List Content :=
  .text "\n" :: entries.flatMap fun e => [e.content, .text "\n"]

/-- **Every entry becomes one element of the root, in order.** -/
theorem contentOf_entries (entries : List WrittenEntry) :
    ∀ top : Frame, top.inScope = [] → top.name = ⟨"", "doc"⟩ →
    Markup.contentOf top [] ('\n' :: (ended (entries.flatMap (·.markup)) ++ "</doc>".toList)) =
      .ok (.element "doc" top.attributes (top.reversed.reverse ++ contents entries), []) := by
  -- A line end in front of a tag is text of its own, so the induction takes one with each entry.
  have hbreak : ∀ (top : Frame) (outer : List Frame) (r : List Char), Markup.contentOf top outer ('\n' :: '<' :: r) =
      Markup.contentOf (top.add (.text "\n")) outer ('<' :: r) := fun top outer r =>
    Markup.contentOf_text (Markup.item_text (s := []) ⟨rfl, by decide⟩ (List.forall_mem_singleton.2 (by decide)))
  induction entries with
  | nil =>
    intro top _ hname
    have hclose : Reads (Markup.item '<') "/doc>".toList (.closing (top.add (.text "\n")).name 6) [] := by
      rw [show (top.add (.text "\n")).name = _ from hname]
      exact Markup.item_closing (Markup.closeTag_reads (t := "doc".toList) (by decide))
    refine (hbreak top [] "/doc>".toList).trans ((Markup.contentOf_last hclose).trans ?_)
    simp [Frame.element, Frame.add, contents, hname]
  | cons e es ih =>
    intro top hscope hname
    obtain ⟨w, hw⟩ : ∃ w, ended e.markup = '<' :: w := by
      obtain ⟨w, hw⟩ := e.openingTag_toList
      exact ⟨_, by rw [WrittenEntry.markup, ended_cons, hw, List.cons_append]⟩
    have hread := e.contentOf_entry (top.add (.text "\n")) hscope []
      (ended (es.flatMap (·.markup)) ++ "</doc>".toList)
    have hrest := ih ((top.add (.text "\n")).add e.content) hscope hname
    rw [List.flatMap_cons, ended_append, List.append_assoc, hw, List.cons_append, hbreak, ← List.cons_append, ← hw,
      hread, hrest]
    simp [Frame.add, contents]

theorem document_entries {entries : List WrittenEntry} (h : entries.flatMap (·.markup) ≠ []) :
    Markup.document (documentOfLines (entries.flatMap (·.markup))) = .ok (.element "doc" [] (contents entries)) := by
  have hchars : documentOfLines (entries.flatMap (·.markup)) =
      '<' :: ("doc".toList ++ '>' :: ('\n' :: (ended (entries.flatMap (·.markup)) ++ "</doc>".toList))) := by
    rw [documentOfLines, ended_eq h]
    simp
  obtain ⟨_, hstart⟩ := Markup.startTag_plain (t := "doc".toList)
    (r := '\n' :: (ended (entries.flatMap (·.markup)) ++ "</doc>".toList)) (by decide)
  have hframe : Frame.ofTag [] ⟨⟨"", String.ofList "doc".toList⟩, ⟨[], []⟩, false,
      ("doc".toList ++ '>' :: ('\n' :: (ended (entries.flatMap (·.markup)) ++ "</doc>".toList))).length⟩ =
      .ok ⟨⟨"", "doc"⟩, [], [], []⟩ := rfl
  have hcontent := contentOf_entries entries ⟨⟨"", "doc"⟩, [], [], []⟩ rfl rfl
  have hend : Markup.epilogue [] = .ok () := by
    rw [Markup.epilogue]
    rfl
  rw [hchars, Markup.document]
  simp only [hstart, hframe, hcontent, hend, Bool.false_eq_true, if_false]
  rfl

theorem elementsOfAll_append (cs ds : List Content) :
    Markup.elementsOfAll (cs ++ ds) = Markup.elementsOfAll cs ++ Markup.elementsOfAll ds := by
  induction cs with
  | nil => rfl
  | cons c cs ih => rw [List.cons_append, Markup.elementsOfAll, Markup.elementsOfAll, ih, List.append_assoc]

theorem ofElement_content (e : WrittenEntry) : e.content.elements.map Entry.ofElement = [e.entry] := by
  have hname : (e.attributes.find? fun a => a.uri? = none && a.name = "name").map (·.value) = e.name? := by
    rw [WrittenEntry.attributes]
    cases e.name? <;> rfl
  have htext : Markup.textOfAll [.text (String.ofList ('\n' :: ended e.lines))] =
      String.ofList ('\n' :: ended e.lines) := String.append_empty
  simp only [WrittenEntry.content, Content.elements, Markup.elementsOfAll, List.append_nil, htext, List.map_cons,
    List.map_nil, Entry.ofElement, hname, e.trimmed_lines]
  rfl

theorem entries_contents (entries : List WrittenEntry) :
    (Markup.elementsOfAll (contents entries)).map Entry.ofElement = entries.map (·.entry) := by
  rw [contents, Markup.elementsOfAll]
  show (Markup.elementsOfAll _).map _ = _
  induction entries with
  | nil => rfl
  | cons e es ih =>
    rw [List.flatMap_cons, elementsOfAll_append, List.map_append, ih]
    show (e.content.elements ++ []).map _ ++ _ = _
    rw [List.append_nil, ofElement_content]
    rfl

theorem ofTrivia_of_isWritten {entries : List WrittenEntry} {trivia : List Trivia} (h : IsWritten entries trivia) :
    TagSet.ofTrivia trivia = .ok ⟨entries.map (·.entry)⟩ := by
  have hlines : (trivia.filter (·.kind = .docComment)).map (commentLine ·.text) = entries.flatMap (·.markup) := by
    have hread := map_commentLine h fun l hl => by
      obtain ⟨e, -, hl⟩ := List.mem_flatMap.1 hl
      exact e.trimmed_of_mem_markup hl
    rwa [List.map_map] at hread
  rw [TagSet.ofTrivia, hlines]
  cases entries with
  | nil => rfl
  | cons e es =>
    have hne : (e :: es).flatMap (·.markup) ≠ [] := by simp [WrittenEntry.markup]
    have hempty : ¬ ((e :: es).flatMap (·.markup)).isEmpty = true := by rwa [List.isEmpty_iff]
    simp only [if_neg hempty, document_entries hne, Content.within, entries_contents]

/-! ## Looking entries up -/

/-- The entries of a comment, looked up as a tag set does. -/
theorem holds_entries (entries : List WrittenEntry) : TagSet.Holds ⟨entries.map (·.entry)⟩ entries where
  first before e after hentries hbefore := by
    have hnone : (before.map (·.entry)).find? (·.tag = e.tag) = none := by
      simpa [WrittenEntry.entry] using hbefore
    rw [TagSet.tag, hentries, List.map_append, List.find?_append, hnone, Option.none_or, List.map_cons,
      List.find?_cons_of_pos (by simp [WrittenEntry.entry])]
    rfl
  noTag t h := by
    have hnone : (entries.map (·.entry)).find? (·.tag = t) = none := by
      simpa [WrittenEntry.entry] using h
    rw [TagSet.tag, hnone]
    rfl
  last before e after name hentries hname hafter := by
    have hnone : (after.map (·.entry)).reverse.find? (fun f => f.tag = e.tag && f.name? = some name) = none := by
      simpa [WrittenEntry.entry] using hafter
    rw [TagSet.item, hentries, List.map_append, List.map_cons, List.reverse_append, List.reverse_cons,
      List.append_assoc, List.find?_append, hnone, Option.none_or, List.singleton_append,
      List.find?_cons_of_pos (by simp [WrittenEntry.entry, hname])]
    rfl
  noItem t name h := by
    have hnone : (entries.map (·.entry)).reverse.find? (fun f => f.tag = t && f.name? = some name) = none := by
      simpa [WrittenEntry.entry] using h
    rw [TagSet.item, hnone]
    rfl

/-- **A comment gives back what was written in it.** Lines of markup for a list of entries, whatever else is
among the trivia, are read without fault, and looking up a tag or a name gives the text of the entry it stands for. -/
theorem ofTrivia_holds {entries : List WrittenEntry} {trivia : List Trivia} (h : IsWritten entries trivia) :
    ∃ tags, TagSet.ofTrivia trivia = .ok tags ∧ tags.Holds entries :=
  ⟨_, ofTrivia_of_isWritten h, holds_entries entries⟩

/-- A summary with special characters and an empty line, a parameter described twice, and an empty summary. -/
def sampleEntries : List WrittenEntry :=
  [⟨"summary", none, ["a < b", "", "&& \"c\""], by decide, by simp, by decide, by decide, by decide⟩,
    ⟨"param", some "x", ["old"], by decide,
      fun _ h => Option.some.inj h ▸ .word (by decide) (by simp) (by simp), by decide, by decide, by decide⟩,
    ⟨"param", some "x", ["new"], by decide,
      fun _ h => Option.some.inj h ▸ .word (by decide) (by simp) (by simp), by decide, by decide, by decide⟩,
    ⟨"summary", none, [], by decide, by simp, by decide, by decide, by decide⟩]

/-- The sample as it stands in a source, with a comment of another kind on a line between. -/
def sampleTrivia : List Trivia :=
  [⟨.whitespace, "  "⟩, ⟨.docComment, "/// <summary>"⟩, ⟨.endOfLine, "\n"⟩, ⟨.docComment, "/// a &lt; b"⟩,
    ⟨.docComment, "/// "⟩, ⟨.lineComment, "// <note>"⟩, ⟨.docComment, "/// &amp;&amp; \"c\""⟩,
    ⟨.docComment, "/// </summary>"⟩, ⟨.docComment, "/// <param name=\"x\">"⟩, ⟨.docComment, "/// old"⟩,
    ⟨.docComment, "/// </param>"⟩, ⟨.docComment, "/// <param name=\"x\">"⟩, ⟨.docComment, "/// new"⟩,
    ⟨.docComment, "/// </param>"⟩, ⟨.docComment, "/// <summary>"⟩, ⟨.docComment, "/// </summary>"⟩]

theorem ofTrivia_holds_sample : IsWritten sampleEntries sampleTrivia ∧
    ∃ tags, TagSet.ofTrivia sampleTrivia = .ok tags ∧ tags.Holds sampleEntries ∧
      tags.tag "summary" = "a < b\n\n&& \"c\"" ∧ tags.item "param" "x" = "new" := by
  have hlines : (sampleTrivia.filter (·.kind = .docComment)).map (·.text) =
      (sampleEntries.flatMap (·.markup)).map ("/// " ++ ·) := by
    decide
  have hwritten : IsWritten sampleEntries sampleTrivia := by
    rw [IsWritten, hlines, List.forall₂_map_right_iff]
    exact List.forall₂_same.2 fun l _ => ⟨[], [' '], [], List.forall_mem_singleton.2 (by decide), by simp⟩
  obtain ⟨tags, hread, htags⟩ := ofTrivia_holds hwritten
  refine ⟨hwritten, tags, hread, htags, ?_, ?_⟩
  · exact htags.first [] _ _ rfl (by simp)
  · exact htags.last (sampleEntries.take 2) _ _ "x" rfl rfl (by decide)

end DocPages
