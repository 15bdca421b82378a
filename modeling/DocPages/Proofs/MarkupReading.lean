/-
What is read of markup that is written in a plain way: tags with ASCII names,
attributes and text with their special characters replaced by references. Each
reader, in front of anything that does not go on with what it reads, takes just
what was written and gives back what it was written for (`Reads`).
-/
import DocPages.Markup.Document
import DocPages.Proofs.TokenEnds

namespace DocPages.Markup

/-! ## Readers -/

/-- The reader takes `s` up to `r`, and gives back `a`. -/
def Reads {α : Type} (p : Reader α) (s : List Char) (a : α) (r : List Char) : Prop :=
  ∃ h : r.length ≤ s.length, p s = .ok (a, ⟨r, h⟩)

namespace Reads

variable {α β : Type} {a : α} {b : β} {p q : Reader α} {s r r' w : List Char} {c : Char}

theorem of_run (t : {r : List Char // r.length ≤ s.length}) (h : p s = .ok (a, t)) (ht : t.1 = r) :
    Reads p s a r := by
  subst ht
  exact ⟨t.2, h⟩

theorem pure (a : α) (s : List Char) : Reads (Pure.pure a : Reader α) s a s :=
  ⟨Nat.le_refl _, rfl⟩

theorem bind {f : α → Reader β} (h : Reads p s a r) (h' : Reads (f a) r b r') : Reads (p >>= f) s b r' := by
  obtain ⟨hle, hp⟩ := h
  obtain ⟨hle', hf⟩ := h'
  refine ⟨Nat.le_trans hle' hle, ?_⟩
  show Reader.bind p f s = _
  simp only [Reader.bind, hp, hf]

theorem discard (h : Reads p s a r) : Reads (discard p) s () r := by
  show Reads (p >>= fun _ => Pure.pure ()) s () r
  exact h.bind (.pure () r)

theorem ite_pos {x : Prop} [Decidable x] (hx : x) (h : Reads p s a r) : Reads (if x then p else q) s a r := by
  rwa [if_pos hx]

theorem ite_neg {x : Prop} [Decidable x] (hx : ¬ x) (h : Reads q s a r) : Reads (if x then p else q) s a r := by
  rwa [if_neg hx]

theorem left (s : List Char) : Reads Reader.left s s.length s :=
  ⟨Nat.le_refl _, rfl⟩

theorem ahead (s : List Char) : Reads Reader.ahead s s s :=
  ⟨Nat.le_refl _, rfl⟩

theorem drop_one (c : Char) (r : List Char) : Reads (Reader.drop 1) (c :: r) () r :=
  ⟨Nat.le_succ _, rfl⟩

theorem char (c : Char) (r : List Char) : Reads (Reader.char c) (c :: r) () r :=
  ⟨Nat.le_succ _, if_pos rfl⟩

theorem ofExcept {e : Except Fault α} (h : e = .ok a) (s : List Char) : Reads (Reader.ofExcept e) s a s := by
  subst h
  exact pure a s

theorem spaces (hr : ∀ c, r.head? = some c → isSpace c = false) : Reads Reader.spaces r () r := by
  have hread : Reads (Reader.takeWhile isSpace) r (r.takeWhile isSpace) r :=
    of_run _ rfl (Unicode.dropWhile_of_head? hr)
  exact hread.discard

/-- Legal characters up to one where the reader stops. -/
theorem charsUntil {stop : List Char → Bool} (hc : isLegal c = true) (hstop : stop (c :: r) = true)
    (hw : ∀ d ∈ w, isLegal d = true ∧ ∀ t, stop (d :: t) = false) :
    Reads (Reader.charsUntil stop) (w ++ c :: r) w (c :: r) := by
  induction w with
  | nil => exact ⟨Nat.le_refl _, by simp [Reader.charsUntil, hc, hstop]⟩
  | cons d w ih =>
    obtain ⟨hle, hread⟩ := ih fun e he => hw e (List.mem_cons_of_mem d he)
    obtain ⟨hd, hgo⟩ := hw d List.mem_cons_self
    exact ⟨Nat.le_succ_of_le hle, by simp [Reader.charsUntil, hd, hgo, hread]⟩

end Reads

/-! ## Names -/

/-- The name of an element or an attribute, of ASCII letters alone. -/
structure IsWord (t : List Char) : Prop where
  nonempty : t ≠ []
  letters : ∀ c ∈ t, c.isAlpha = true

theorem isWord_iff {t : List Char} : IsWord t ↔ t ≠ [] ∧ t.all Char.isAlpha = true :=
  ⟨fun h => ⟨h.nonempty, List.all_eq_true.2 h.letters⟩, fun h => ⟨h.1, List.all_eq_true.1 h.2⟩⟩

instance (t : List Char) : Decidable (IsWord t) :=
  decidable_of_iff _ isWord_iff.symm

theorem qname_reads {t r : List Char} {c : Char} (ht : IsWord t) (hc : isNamePart c = false) :
    Reads qname (t ++ c :: r) ⟨"", String.ofList t⟩ (c :: r) := by
  have hpart : ∀ d ∈ t, isNamePart d = true := fun d hd => by
    simp [isNamePart, isNameStart, ht.letters d hd]
  have htake : (t ++ c :: r).takeWhile isNamePart = t := by
    rw [List.takeWhile_append_of_pos hpart, List.takeWhile_cons_of_neg (by simp [hc]), List.append_nil]
  have hdrop : (t ++ c :: r).dropWhile isNamePart = c :: r := by
    rw [List.dropWhile_append_of_pos hpart, List.dropWhile_cons_of_neg (by simp [hc])]
  have hcolon : ':' ∉ t := fun h => by
    have := ht.letters ':' h
    revert this
    decide
  obtain ⟨d, w, rfl⟩ := List.exists_cons_of_ne_nil ht.nonempty
  have hstart : isNameStart d = true := by simp [isNameStart, ht.letters d List.mem_cons_self]
  have hrun : QName.ofRun? (d :: w) = some ⟨"", String.ofList (d :: w)⟩ := by
    simp [QName.ofRun?, hcolon, List.count_eq_zero_of_not_mem hcolon, hstart]
  refine .of_run ⟨_, Reader.length_dropWhile_le _ _⟩ ?_ hdrop
  unfold qname
  rw [htake, hrun]

theorem closeTag_reads {t r : List Char} (ht : IsWord t) : Reads closeTag (t ++ '>' :: r) ⟨"", String.ofList t⟩ r := by
  have hname := qname_reads (c := '>') (r := r) ht (by decide)
  exact hname.bind ((Reads.spaces (by simp; decide)).bind ((Reads.char '>' r).bind (.pure _ r)))

theorem tagRest_end (t : TagContents) (r : List Char) : Reads (tagRest t) ('>' :: r) (t, false) r := by
  have hdrop : ('>' :: r).dropWhile isSpace = '>' :: r := rfl
  unfold Reads
  rw [tagRest]
  split
  · next hs => cases hs
  · next r' hs =>
    cases hs
    exact ⟨Nat.le_succ _, rfl⟩
  · next hs => cases hs
  · next hne _ hs => exact absurd (List.cons.inj hs).1.symm hne

theorem startTag_plain {t r : List Char} (ht : IsWord t) :
    Reads startTag (t ++ '>' :: r) ⟨⟨"", String.ofList t⟩, ⟨[], []⟩, false, (t ++ '>' :: r).length⟩ r := by
  have hname := qname_reads (c := '>') (r := r) ht (by decide)
  have hqualifier : ¬ "" = "xmlns" := by decide
  exact (Reads.left _).bind (hname.bind (.ite_neg hqualifier ((tagRest_end ⟨[], []⟩ r).bind (.pure _ r))))

theorem pieces_plain {w : List Char} (after : Nat) (hw : '&' ∉ w) : pieces after w = .ok (w.map .plain) := by
  induction w with
  | nil => rw [pieces]; rfl
  | cons c w ih =>
    rw [List.mem_cons, not_or] at hw
    rw [pieces, if_neg (Ne.symm hw.1), ih hw.2]
    rfl

/-- A character that may stand in the value of an attribute as it is. -/
structure IsValueChar (c : Char) : Prop where
  legal : isLegal c = true
  notSpace : isSpace c = false
  plain : c ≠ '"' ∧ c ≠ '<' ∧ c ≠ '&'

theorem valueOfPieces_plain {w : List Char} (hw : ∀ c ∈ w, isSpace c = false) :
    valueOfPieces (w.map .plain) = w := by
  induction w with
  | nil => rfl
  | cons c w ih =>
    have hc := hw c List.mem_cons_self
    have hreturn : c ≠ '\r' := fun h => by
      rw [h] at hc
      cases hc
    rw [List.map_cons, valueOfPieces, ih fun d hd => hw d (List.mem_cons_of_mem c hd)]
    simp [hreturn, hc]

theorem rawAttribute_reads {a w r : List Char} (ha : IsWord a) (hw : ∀ c ∈ w, IsValueChar c) :
    Reads rawAttribute (a ++ '=' :: '"' :: (w ++ '"' :: r))
      ⟨⟨"", String.ofList a⟩, String.ofList w, (a ++ '=' :: '"' :: (w ++ '"' :: r)).length⟩ r := by
  have hname := qname_reads (c := '=') (r := '"' :: (w ++ '"' :: r)) ha (by decide)
  have hquote : Reads quoteMark ('"' :: (w ++ '"' :: r)) '"' (w ++ '"' :: r) := ⟨Nat.le_succ _, rfl⟩
  have htext : Reads (Reader.charsUntil fun s => s.head? = some '"' || s.head? = some '<') (w ++ '"' :: r) w
      ('"' :: r) := .charsUntil (by decide) (by simp) fun c hc => ⟨(hw c hc).legal, fun t => by simp [(hw c hc).plain]⟩
  have hamp : '&' ∉ w := fun h => (hw '&' h).plain.2.2 rfl
  refine (Reads.left _).bind (hname.bind ((Reads.spaces (by simp; decide)).bind ((Reads.char '=' _).bind
    ((Reads.spaces (by simp; decide)).bind (hquote.bind (htext.bind ((Reads.left _).bind ((Reads.char '"' r).bind
      ((Reads.ofExcept (pieces_plain _ hamp) r).bind ?_)))))))))
  rw [valueOfPieces_plain fun c hc => (hw c hc).notSpace]
  exact .pure _ r

/-- One attribute more, with white space in front of it. -/
theorem tagRest_attribute {t t' : TagContents} {a : RawAttribute} {c : Char} {s r r' r'' : List Char}
    {x : TagContents × Bool} (hs : s.dropWhile isSpace = c :: r) (hlt : (c :: r).length < s.length)
    (hc : c ≠ '>' ∧ c ≠ '/') (ha : Reads rawAttribute (c :: r) a r') (hadd : t.add a = .ok t')
    (hrest : Reads (tagRest t') r' x r'') : Reads (tagRest t) s x r'' := by
  obtain ⟨hle, ha⟩ := ha
  obtain ⟨hle', hrest⟩ := hrest
  unfold Reads
  rw [tagRest]
  split
  · next heq => rw [hs] at heq; cases heq
  · next heq => rw [hs] at heq; exact absurd (List.cons.inj heq).1 hc.1
  · next heq => rw [hs] at heq; exact absurd (List.cons.inj heq).1 hc.2
  · next heq =>
    rw [hs] at heq
    obtain ⟨rfl, rfl⟩ := List.cons.inj heq
    refine ⟨Nat.le_trans hle' (Nat.le_trans hle (Nat.le_of_lt hlt)), ?_⟩
    rw [dif_pos hlt]
    simp only [ha, hadd, hrest]

/-- A start tag whose only attribute is a name. -/
theorem startTag_named {t w r : List Char} (ht : IsWord t) (hw : ∀ c ∈ w, IsValueChar c) : ∃ left left',
    Reads startTag (t ++ ' ' :: ("name".toList ++ '=' :: '"' :: (w ++ '"' :: '>' :: r)))
      ⟨⟨"", String.ofList t⟩, ⟨[], [⟨⟨"", "name"⟩, String.ofList w, left⟩]⟩, false, left'⟩ r := by
  have hword : IsWord "name".toList := by decide
  have hattribute := rawAttribute_reads (r := '>' :: r) hword hw
  have hrest := tagRest_attribute (t := ⟨[], []⟩) (s := ' ' :: ("name".toList ++ '=' :: '"' :: (w ++ '"' :: '>' :: r)))
    rfl (Nat.lt_succ_self _) (by decide) hattribute rfl (tagRest_end _ r)
  have hname := qname_reads (c := ' ') (r := "name".toList ++ '=' :: '"' :: (w ++ '"' :: '>' :: r)) ht
    (by decide)
  have hqualifier : ¬ "" = "xmlns" := by decide
  exact ⟨_, _, (Reads.left _).bind (hname.bind (.ite_neg hqualifier (hrest.bind (.pure _ r))))⟩

/-! ## Text -/

/-- A character of text, the special ones as references. -/
def encodeChar (c : Char) : List Char :=
  if c = '&' then "&amp;".toList
  else if c = '<' then "&lt;".toList
  else if c = '>' then "&gt;".toList
  else [c]

def encode (s : List Char) : List Char :=
  s.flatMap encodeChar

/-- What a character of encoded text is read as. -/
def pieceOf (c : Char) : Piece :=
  if c = '&' ∨ c = '<' ∨ c = '>' then .given c else .plain c

theorem encodeChar_cases (c : Char) :
    (c = '&' ∧ encodeChar c = '&' :: 'a' :: 'm' :: 'p' :: [';']) ∨
    (c = '<' ∧ encodeChar c = '&' :: 'l' :: 't' :: [';']) ∨
    (c = '>' ∧ encodeChar c = '&' :: 'g' :: 't' :: [';']) ∨
    ((c ≠ '&' ∧ c ≠ '<' ∧ c ≠ '>') ∧ encodeChar c = [c]) := by
  by_cases hamp : c = '&'
  · exact .inl ⟨hamp, by rw [hamp]; rfl⟩
  by_cases hlt : c = '<'
  · exact .inr (.inl ⟨hlt, by rw [hlt]; rfl⟩)
  by_cases hgt : c = '>'
  · exact .inr (.inr (.inl ⟨hgt, by rw [hgt]; rfl⟩))
  · exact .inr (.inr (.inr ⟨⟨hamp, hlt, hgt⟩, by rw [encodeChar, if_neg hamp, if_neg hlt, if_neg hgt]⟩))

theorem pieces_reference {after n : Nat} {c : Char} {s : List Char} {ps : List Piece}
    (hr : reference? s = some (.char c, n)) (hs : pieces after (s.drop n) = .ok ps) :
    pieces after ('&' :: s) = .ok (.given c :: ps) := by
  rw [pieces, if_pos rfl]
  simp only [hr, hs]
  rfl

/-- Encoded text is read as the text it was made of. -/
theorem pieces_encode (after : Nat) (s : List Char) : pieces after (encode s) = .ok (s.map pieceOf) := by
  induction s with
  | nil => rw [encode, List.flatMap_nil, pieces]; rfl
  | cons c s ih =>
    rw [encode, List.flatMap_cons, ← encode]
    rcases encodeChar_cases c with ⟨rfl, h⟩ | ⟨rfl, h⟩ | ⟨rfl, h⟩ | ⟨hc, h⟩
    · rw [h]
      exact pieces_reference (n := 4) rfl ih
    · rw [h]
      exact pieces_reference (n := 3) rfl ih
    · rw [h]
      exact pieces_reference (n := 3) rfl ih
    · rw [h, List.singleton_append, pieces, if_neg hc.1, ih]
      simp [pieceOf, hc, Except.map]

/-- Encoded text has no brackets. -/
theorem encode_chars {s : List Char} (hs : ∀ c ∈ s, isLegal c = true) :
    ∀ d ∈ encode s, isLegal d = true ∧ d ≠ '<' ∧ d ≠ '>' := by
  have hreferences : ∀ w ∈ ["&amp;".toList, "&lt;".toList, "&gt;".toList],
      w.all (fun d => isLegal d && d != '<' && d != '>') = true := by
    decide
  intro d hd
  have hreference : ∀ w ∈ ["&amp;".toList, "&lt;".toList, "&gt;".toList], d ∈ w →
      isLegal d = true ∧ d ≠ '<' ∧ d ≠ '>' := fun w hw hd => by
    simpa [and_assoc] using List.all_eq_true.1 (hreferences w hw) d hd
  obtain ⟨c, hc, hd⟩ := List.mem_flatMap.1 hd
  rcases encodeChar_cases c with ⟨-, h⟩ | ⟨-, h⟩ | ⟨-, h⟩ | ⟨hne, h⟩ <;> rw [h] at hd
  · exact hreference _ (by simp) hd
  · exact hreference _ (by simp) hd
  · exact hreference _ (by simp) hd
  · obtain rfl := List.mem_singleton.1 hd
    exact ⟨hs d hc, hne.2⟩

/-- A character is written as it is or as a reference. -/
theorem encodeChar_eq_or (c : Char) : encodeChar c = [c] ∨ ∃ name, encodeChar c = ('&' :: name) ++ [';'] := by
  rcases encodeChar_cases c with ⟨-, h⟩ | ⟨-, h⟩ | ⟨-, h⟩ | ⟨-, h⟩
  · exact .inr ⟨['a', 'm', 'p'], h⟩
  · exact .inr ⟨['l', 't'], h⟩
  · exact .inr ⟨['g', 't'], h⟩
  · exact .inl h

theorem head?_encode {s : List Char} {d : Char} (h : (encode s).head? = some d) : d = '&' ∨ s.head? = some d := by
  cases s with
  | nil => cases h
  | cons c s =>
    rw [encode, List.flatMap_cons] at h
    rcases encodeChar_eq_or c with hc | ⟨name, hc⟩ <;> rw [hc] at h
    · exact .inr h
    · exact .inl (Option.some.inj h).symm

theorem getLast?_encode {s : List Char} {d : Char} (h : (encode s).getLast? = some d) :
    d = ';' ∨ s.getLast? = some d := by
  rcases List.eq_nil_or_concat s with rfl | ⟨s, c, rfl⟩
  · cases h
  · rw [encode, List.concat_eq_append, List.flatMap_append, List.flatMap_singleton, List.getLast?_append] at h
    rw [List.concat_eq_append, List.getLast?_concat]
    rcases encodeChar_eq_or c with hc | ⟨name, hc⟩ <;> rw [hc] at h
    · exact .inr h
    · rw [List.getLast?_concat] at h
      exact .inl (Option.some.inj h).symm

/-! ### Line ends -/

/-- Without carriage returns there is nothing to normalise. -/
theorem addPieces_pieceOf {s : List Char} (hs : '\r' ∉ s) : ∀ g : Gathered, '\r' ∉ g.reversed →
    (g.addPieces (s.map pieceOf)).reversed = s.reverse ++ g.reversed := by
  induction s with
  | nil => exact fun g _ => rfl
  | cons c s ih =>
    intro g hg
    rw [List.mem_cons, not_or] at hs
    have hadd : ∀ kept, '\r' ∉ (⟨c :: g.reversed, kept⟩ : Gathered).reversed := fun _ h =>
      (List.mem_cons.1 h).elim hs.1 hg
    have hplain : ∀ isLast, g.addPlain c isLast = ⟨c :: g.reversed, false⟩ := fun isLast => by
      have hkept : (if isLast && decide (c = '\r') then '\n' else c) = c := if_neg (by simp [Ne.symm hs.1])
      simp only [Gathered.addPlain, hkept]
      split
      · next h => exact absurd (h ▸ List.mem_cons_self) hg
      · rfl
    rw [List.map_cons, List.reverse_cons, List.append_assoc, List.singleton_append]
    by_cases hc : c = '&' ∨ c = '<' ∨ c = '>'
    · rw [pieceOf, if_pos hc, Gathered.addPieces, ih hs.2 _ (hadd true)]
    · rw [pieceOf, if_neg hc, Gathered.addPieces]
      split
      · rw [ih hs.2 _ (hadd false)]
      · rw [hplain, ih hs.2 _ (hadd false)]

theorem textOfPieces_pieceOf {s : List Char} (hs : '\r' ∉ s) :
    textOfPieces (s.map pieceOf) = String.ofList s := by
  rw [textOfPieces, addPieces_pieceOf hs ⟨[], false⟩ List.not_mem_nil, List.append_nil, List.reverse_reverse]

theorem hasInfix_of_not_mem {needle : List Char} {c : Char} (hc : c ∈ needle) : ∀ {s : List Char}, c ∉ s →
    hasInfix needle s = false
  | [], _ => by
    cases needle with
    | nil => cases hc
    | cons => rfl
  | d :: s, hs => by
    have hprefix : needle.isPrefixOf (d :: s) = false := by
      rw [Bool.eq_false_iff, ne_eq, List.isPrefixOf_iff_prefix]
      exact fun h => hs (h.subset hc)
    rw [hasInfix, hprefix, hasInfix_of_not_mem hc fun h => hs (List.mem_cons_of_mem d h)]
    rfl

/-! ## Items of content -/

theorem isPrefixOf_of_ne {c d : Char} (h : d ≠ c) (w s : List Char) : (c :: w).isPrefixOf (d :: s) = false := by
  simp [List.isPrefixOf, Ne.symm h]

theorem characterData_reads {first : Char} {s r : List Char} (hfirst : encodeChar first = [first] ∧ first ≠ '>')
    (hs : ∀ c ∈ first :: s, isLegal c = true ∧ c ≠ '\r') :
    Reads (characterData first) (encode s ++ '<' :: r) (.text (String.ofList (first :: s))) ('<' :: r) := by
  have hchars := encode_chars fun c hc => (hs c (List.mem_cons_of_mem first hc)).1
  have htext : Reads (Reader.charsUntil (['<'].isPrefixOf ·)) (encode s ++ '<' :: r) (encode s) ('<' :: r) :=
    .charsUntil (by decide) rfl fun d hd => ⟨(hchars d hd).1, isPrefixOf_of_ne (hchars d hd).2.1 []⟩
  have hinfix : ¬ hasInfix "]]>".toList (first :: encode s) = true := by
    rw [hasInfix_of_not_mem (c := '>') (by decide) fun h => ?_]
    · exact Bool.false_ne_true
    · rcases List.mem_cons.1 h with h | h
      · exact hfirst.2 h.symm
      · exact (hchars '>' h).2.2 rfl
  have hpieces : pieces ('<' :: r).length (first :: encode s) = .ok ((first :: s).map pieceOf) := by
    have h := pieces_encode ('<' :: r).length (first :: s)
    rwa [encode, List.flatMap_cons, hfirst.1] at h
  have hreturn : '\r' ∉ first :: s := fun h => (hs '\r' h).2 rfl
  have hlegal : ¬ (!isLegal first) = true := by simp [(hs first List.mem_cons_self).1]
  rw [← textOfPieces_pieceOf hreturn]
  exact .ite_neg hlegal (htext.bind (.ite_neg hinfix ((Reads.left _).bind
    ((Reads.ofExcept hpieces _).bind (.pure _ _)))))

theorem item_text {first : Char} {s r : List Char} (hfirst : encodeChar first = [first] ∧ first ≠ '>')
    (hs : ∀ c ∈ first :: s, isLegal c = true ∧ c ≠ '\r') :
    Reads (item first) (encode s ++ '<' :: r) (.text (String.ofList (first :: s))) ('<' :: r) := by
  have hbracket : first ≠ '<' := by
    rintro rfl
    exact absurd hfirst.1 (by decide)
  exact .ite_neg hbracket (characterData_reads hfirst hs)

theorem item_opening {t r : List Char} {c : Char} {tag : StartTag} (hc : c.isAlpha = true)
    (h : Reads startTag (c :: t) tag r) : Reads (item '<') (c :: t) (.opening tag) r := by
  have hother : ∀ d, d.isAlpha = false → ∀ w, ¬ (d :: w).isPrefixOf (c :: t) = true := fun d hd w => by
    have hne : c ≠ d := fun he => by
      rw [he, hd] at hc
      cases hc
    rw [isPrefixOf_of_ne hne]
    exact Bool.false_ne_true
  refine (Reads.ahead _).bind (.ite_neg (hother '!' (by decide) _) (.ite_neg (hother '!' (by decide) _)
    (.ite_neg ?_ (.ite_neg (hother '?' (by decide) _) (.ite_neg (hother '?' (by decide) _)
      (.ite_neg (hother '/' (by decide) _) (h.bind (.pure _ r))))))))
  · simpa using hother '!' (by decide) []

theorem item_closing {t r : List Char} {name : QName} (h : Reads closeTag t name r) :
    Reads (item '<') ('/' :: t) (.closing name (t.length + 2)) r := by
  have hother : ∀ d, d ≠ '/' → ∀ w, ¬ (d :: w).isPrefixOf ('/' :: t) = true := fun d hd w => by
    rw [isPrefixOf_of_ne hd.symm]
    exact Bool.false_ne_true
  refine (Reads.ahead _).bind (.ite_neg (hother '!' (by decide) _) (.ite_neg (hother '!' (by decide) _)
    (.ite_neg ?_ (.ite_neg (hother '?' (by decide) _) (.ite_neg (hother '?' (by decide) _)
      (.ite_pos rfl ((Reads.drop_one '/' t).bind (h.bind (.pure _ r)))))))))
  simp

/-! ## Content -/

section

variable {top : Frame} {outer : List Frame} {c : Char} {s r : List Char}

theorem contentOf_text {t : String} (h : Reads (item c) s (.text t) r) :
    contentOf top outer (c :: s) = contentOf (top.add (.text t)) outer r := by
  obtain ⟨_, h⟩ := h
  rw [contentOf]
  simp only [h]

theorem contentOf_opening {tag : StartTag} {frame : Frame} (h : Reads (item c) s (.opening tag) r)
    (hframe : Frame.ofTag top.inScope tag = .ok frame) (hempty : tag.isEmpty = false) :
    contentOf top outer (c :: s) = contentOf frame (top :: outer) r := by
  obtain ⟨_, h⟩ := h
  rw [contentOf]
  simp only [h, hframe, hempty, Bool.false_eq_true, if_false]

theorem contentOf_closing {next : Frame} {left : Nat} (h : Reads (item c) s (.closing top.name left) r) :
    contentOf top (next :: outer) (c :: s) = contentOf (next.add top.element) outer r := by
  obtain ⟨_, h⟩ := h
  rw [contentOf]
  simp only [h, if_true]

theorem contentOf_last {left : Nat} (h : Reads (item c) s (.closing top.name left) r) :
    contentOf top [] (c :: s) = .ok (top.element, r) := by
  obtain ⟨_, h⟩ := h
  rw [contentOf]
  simp only [h, if_true]

end

end DocPages.Markup
