/-
Escaping of text, and reading escaped text back. The pass over the characters does
what replacing the four characters one after the other does, ampersands first
(`replaceInTurn_eq`). In what it makes no character opens markup or ends a value, and
ampersands only begin references (`IsEscaped`); there is no other such text
(`isEscaped_iff`), and each is made of one text only, the one that reading it from
left to right gives (`unescape`).
-/
import Mathlib.Data.List.Infix
import DocPages.Render.Html

namespace DocPages.Html

open String.Slice.Pattern (SearchStep)
open String.Slice.Pattern.Model (IsValidSearchFrom LawfulToForwardSearcherModel MatchesAt)

/-! ## Replacing a character -/

/-- What stands for a character where `text` replaces `c`. -/
def substitute (c : Char) (text : List Char) (x : Char) : List Char :=
  if x = c then text else [x]

theorem flatMap_substitute {c : Char} {l : List Char} (hc : c ∉ l) (text : List Char) :
    l.flatMap (substitute c text) = l := by
  induction l with
  | nil => rfl
  | cons x l ih =>
    obtain ⟨hx, hl⟩ := List.ne_and_not_mem_of_not_mem_cons hc
    rw [List.flatMap_cons, substitute, if_neg (Ne.symm hx), ih hl, List.singleton_append]

section

variable {s : String.Slice} {start stop : s.Pos} {c : Char}

theorem notMem_slice (h : start ≤ stop) (hno : ∀ p, start ≤ p → p < stop → ¬ MatchesAt c p) :
    c ∉ (s.slice start stop h).copy.toList := by
  rw [String.Slice.mem_toList_copy_iff_exists_get]
  rintro ⟨p, hp, hget⟩
  have hlt : String.Slice.Pos.ofSlice p < stop := by
    simpa using String.Slice.Pos.ofSlice_lt_ofSlice_iff.2 ((String.Slice.Pos.lt_endPos_iff p).2 hp)
  rw [String.Slice.Pos.get_eq_get_ofSlice] at hget
  exact hno _ String.Slice.Pos.le_ofSlice hlt (String.Slice.Pattern.Model.Char.matchesAt_iff.2 ⟨_, hget⟩)

/-- Going through the steps of a search for a character puts the rest of the text, with the character replaced,
behind the text so far. -/
theorem toList_foldl_steps {steps : List (SearchStep s)} (hsteps : IsValidSearchFrom c start steps)
    {front rest : String} (hsplits : start.Splits front rest) (text sofar : String) :
    (steps.foldl (fun
      | sofar, .matched _ _ => sofar ++ text.toSlice
      | sofar, .rejected p q => sofar ++ s.slice! p q) sofar).toList =
      sofar.toList ++ rest.toList.flatMap (substitute c text.toList) := by
  induction hsteps generalizing front rest sofar with
  | endPos =>
    rw [(String.Slice.splits_endPos_iff.1 hsplits).2]
    simp
  | matched hmatch _ ih =>
    obtain ⟨hp, rfl, hget⟩ := String.Slice.Pattern.Model.Char.isLongestMatchAt_iff.1 hmatch
    obtain ⟨rest, rfl⟩ := hsplits.exists_eq_singleton_append hp
    rw [List.foldl_cons, ih hsplits.next]
    simp [substitute, hget]
  | mismatched hlt hno _ ih =>
    have hle := Std.le_of_lt hlt
    obtain ⟨front', rest', hp, hq⟩ := String.Slice.copy_slice_eq_iff_splits.1 ⟨hle, rfl⟩
    obtain rfl := hsplits.eq_right hp
    -- A stretch that the search rejects is copied, and replacing leaves it as it is.
    rw [List.foldl_cons, ih hq]
    simp [← String.Slice.slice_eq_slice! (h := hle), flatMap_substitute (notMem_slice hle hno)]

end

theorem toList_replace (s : String) (c : Char) (text : String) :
    (s.replace c text).toList = s.toList.flatMap (substitute c text.toList) := by
  rw [String.replace, String.Slice.replace, ← Std.Iter.foldl_toList]
  refine (toList_foldl_steps (LawfulToForwardSearcherModel.isValidSearchFrom_toList _)
    (String.Slice.splits_startPos _) text "").trans ?_
  simp

/-! ## Replacements one after the other -/

/-- Text with the four characters replaced in turn, each in all that the replacements before it have made. -/
def replaceInTurn (s : String) : String :=
  (((s.replace '&' "&amp;").replace '<' "&lt;").replace '>' "&gt;").replace '"' "&quot;"

/-- A reference that one replacement puts in passes all the later ones, since it holds none of their characters. -/
theorem substitute_inTurn (c : Char) :
    (((substitute '&' "&amp;".toList c).flatMap (substitute '<' "&lt;".toList)).flatMap
      (substitute '>' "&gt;".toList)).flatMap (substitute '"' "&quot;".toList) = escapeChar c := by
  unfold escapeChar
  split_ifs with h₁ h₂ h₃ h₄
  · rw [h₁]
    decide
  · rw [h₂]
    decide
  · rw [h₃]
    decide
  · rw [h₄]
    decide
  · simp [substitute, h₁, h₂, h₃, h₄]

theorem replaceInTurn_eq (s : String) : replaceInTurn s = escape s := by
  apply String.toList_injective
  rw [replaceInTurn, escape, String.toList_ofList, toList_replace, toList_replace, toList_replace, toList_replace,
    List.flatMap_assoc, List.flatMap_assoc, List.flatMap_assoc]
  exact List.flatMap_congr fun c _ => by
    rw [← substitute_inTurn, List.flatMap_assoc, List.flatMap_assoc]

/-! ## References -/

/-- The references in escaped text. -/
def references : List String :=
  ["&amp;", "&lt;", "&gt;", "&quot;"]

/-- What opens and ends tags, and what ends the value of an attribute. -/
def marks : List Char :=
  ['<', '>', '"']

/-- Text that may stand in markup and in the values of attributes: it has no marks of its own, and every ampersand
in it begins one of the references. -/
structure IsEscaped (s : List Char) : Prop where
  unmarked : ∀ c ∈ s, c ∉ marks
  refers : ∀ rest, '&' :: rest <:+ s → ∃ r ∈ references, r.toList <+: '&' :: rest

/-- A reference is the escaped form of some character, and nothing in it is special but its ampersand. -/
theorem exists_of_mem_references {r : String} (hr : r ∈ references) :
    ∃ c name, escapeChar c = r.toList ∧ r.toList = '&' :: name ∧ ∀ x ∈ name, x ∉ '&' :: marks := by
  simp only [references, List.mem_cons, List.not_mem_nil, or_false] at hr
  obtain rfl | rfl | rfl | rfl := hr
  · exact ⟨'&', ['a', 'm', 'p', ';'], rfl, rfl, by simp [marks]⟩
  · exact ⟨'<', ['l', 't', ';'], rfl, rfl, by simp [marks]⟩
  · exact ⟨'>', ['g', 't', ';'], rfl, rfl, by simp [marks]⟩
  · exact ⟨'"', ['q', 'u', 'o', 't', ';'], rfl, rfl, by simp [marks]⟩

theorem escapeChar_cases (c : Char) :
    (∃ r ∈ references, escapeChar c = r.toList) ∨ c ∉ '&' :: marks ∧ escapeChar c = [c] := by
  unfold escapeChar
  split_ifs with hamp hlt hgt hquot
  · exact .inl ⟨"&amp;", by decide, rfl⟩
  · exact .inl ⟨"&lt;", by decide, rfl⟩
  · exact .inl ⟨"&gt;", by decide, rfl⟩
  · exact .inl ⟨"&quot;", by decide, rfl⟩
  · exact .inr ⟨by simp [marks, hamp, hlt, hgt, hquot], rfl⟩

theorem escapeChar_plain {c : Char} (hc : c ∉ '&' :: marks) : escapeChar c = [c] := by
  simp only [marks, List.mem_cons, List.not_mem_nil, or_false, not_or] at hc
  simp [escapeChar, hc]

theorem escapeChar_ne_nil (c : Char) : escapeChar c ≠ [] := by
  obtain ⟨r, hr, hc⟩ | ⟨_, hc⟩ := escapeChar_cases c
  · obtain ⟨_, name, _, hname, _⟩ := exists_of_mem_references hr
    simp [hc, hname]
  · simp [hc]

section

variable {s t : List Char} {c : Char}

theorem suffix_of_append {rest : List Char} (hs : c ∉ s) (h : c :: rest <:+ s ++ t) : c :: rest <:+ t := by
  induction s with
  | nil => exact h
  | cons x s ih =>
    obtain ⟨hx, hs⟩ := List.ne_and_not_mem_of_not_mem_cons hs
    obtain heq | h := List.suffix_cons_iff.1 h
    · exact absurd (List.cons.inj heq).1 hx
    · exact ih hs h

theorem isEscaped_nil : IsEscaped [] where
  unmarked := by simp
  refers rest h := by simp at h

theorem IsEscaped.behind (h : IsEscaped (s ++ t)) : IsEscaped t where
  unmarked := (List.forall_mem_append.1 h.unmarked).2
  refers rest hrest := h.refers rest (hrest.trans (List.suffix_append s t))

theorem IsEscaped.plain_append (h : IsEscaped t) (hs : ∀ c ∈ s, c ∉ '&' :: marks) : IsEscaped (s ++ t) where
  unmarked := List.forall_mem_append.2
    ⟨fun c hc => (List.ne_and_not_mem_of_not_mem_cons (hs c hc)).2, h.unmarked⟩
  -- An ampersand is not among the plain characters, so it stands further back.
  refers rest hrest := h.refers rest (suffix_of_append (fun hamp => hs _ hamp List.mem_cons_self) hrest)

theorem IsEscaped.reference_append {r : String} (h : IsEscaped t) (hr : r ∈ references) :
    IsEscaped (r.toList ++ t) := by
  obtain ⟨_, name, _, hname, hplain⟩ := exists_of_mem_references hr
  have hbehind : IsEscaped (name ++ t) := h.plain_append hplain
  constructor
  · rw [hname, List.cons_append, List.forall_mem_cons]
    exact ⟨by decide, hbehind.unmarked⟩
  · intro rest hrest
    rw [hname, List.cons_append] at hrest
    obtain heq | hrest := List.suffix_cons_iff.1 hrest
    · rw [heq, ← List.cons_append, ← hname]
      exact ⟨r, hr, List.prefix_append _ t⟩
    · exact hbehind.refers rest hrest

theorem IsEscaped.escapeChar_append (h : IsEscaped t) (c : Char) : IsEscaped (escapeChar c ++ t) := by
  obtain ⟨r, hr, hc⟩ | ⟨hplain, hc⟩ := escapeChar_cases c
  · rw [hc]
    exact h.reference_append hr
  · rw [hc]
    exact h.plain_append (List.forall_mem_singleton.2 hplain)

theorem isEscaped_flatMap (s : List Char) : IsEscaped (s.flatMap escapeChar) := by
  induction s with
  | nil => exact isEscaped_nil
  | cons c s ih => exact ih.escapeChar_append c

/-- Escaped text begins with what some character is escaped as. -/
theorem IsEscaped.exists_escapeChar (h : IsEscaped (c :: t)) : ∃ x y, c :: t = escapeChar x ++ y := by
  by_cases hamp : c = '&'
  · rw [hamp] at h ⊢
    obtain ⟨r, hr, y, hy⟩ := h.refers t List.suffix_rfl
    obtain ⟨x, _, hx, _⟩ := exists_of_mem_references hr
    exact ⟨x, y, by rw [hx, hy]⟩
  · have hplain : c ∉ '&' :: marks := List.not_mem_cons_of_ne_of_not_mem hamp (h.unmarked c List.mem_cons_self)
    exact ⟨c, t, by rw [escapeChar_plain hplain, List.singleton_append]⟩

/-- There is no escaped text but what escaping makes. The induction is on the length, since what stands behind a
reference is not the tail of the text. -/
theorem IsEscaped.exists_text (h : IsEscaped t) : ∃ s : List Char, s.flatMap escapeChar = t := by
  induction hn : t.length using Nat.strongRecOn generalizing t with
  | ind n ih =>
    cases t with
    | nil => exact ⟨[], rfl⟩
    | cons c t =>
      obtain ⟨x, y, hxy⟩ := h.exists_escapeChar
      have hlength : y.length < n := by
        have hpos := List.length_pos_iff.2 (escapeChar_ne_nil x)
        rw [← hn, hxy, List.length_append]
        omega
      rw [hxy] at h ⊢
      obtain ⟨s, hs⟩ := ih _ hlength h.behind rfl
      exact ⟨x :: s, by rw [List.flatMap_cons, hs]⟩

end

/-! ## Reading escaped text -/

/-- The characters that some text stands for, read from left to right. An ampersand that begins none of the
references stands for itself. -/
def unescapeChars : List Char → List Char
  | [] => []
  | '&' :: 'a' :: 'm' :: 'p' :: ';' :: rest => '&' :: unescapeChars rest
  | '&' :: 'l' :: 't' :: ';' :: rest => '<' :: unescapeChars rest
  | '&' :: 'g' :: 't' :: ';' :: rest => '>' :: unescapeChars rest
  | '&' :: 'q' :: 'u' :: 'o' :: 't' :: ';' :: rest => '"' :: unescapeChars rest
  | c :: rest => c :: unescapeChars rest

def unescape (s : String) : String :=
  String.ofList (unescapeChars s.toList)

theorem unescapeChars_cons {c : Char} (hc : c ≠ '&') (rest : List Char) :
    unescapeChars (c :: rest) = c :: unescapeChars rest := by
  rw [unescapeChars] <;> simp [hc]

theorem unescapeChars_escapeChar (c : Char) (rest : List Char) :
    unescapeChars (escapeChar c ++ rest) = c :: unescapeChars rest := by
  unfold escapeChar
  split_ifs with h₁ h₂ h₃ h₄
  · rw [h₁]
    rfl
  · rw [h₂]
    rfl
  · rw [h₃]
    rfl
  · rw [h₄]
    rfl
  · exact unescapeChars_cons h₁ rest

theorem unescapeChars_flatMap (s : List Char) : unescapeChars (s.flatMap escapeChar) = s := by
  induction s with
  | nil => rfl
  | cons c s ih => rw [List.flatMap_cons, unescapeChars_escapeChar, ih]

theorem unescape_escape (s : String) : unescape (escape s) = s := by
  rw [unescape, escape, String.toList_ofList, unescapeChars_flatMap, String.ofList_toList]

theorem isEscaped_escape (s : String) : IsEscaped (escape s).toList := by
  rw [escape, String.toList_ofList]
  exact isEscaped_flatMap s.toList

theorem isEscaped_iff (t : String) : IsEscaped t.toList ↔ escape (unescape t) = t := by
  constructor
  · intro h
    obtain ⟨s, hs⟩ := h.exists_text
    rw [escape, unescape, String.toList_ofList, ← hs, unescapeChars_flatMap, hs, String.ofList_toList]
  · intro h
    rw [← h]
    exact isEscaped_escape _

/-- **Escaping is one pass that can be undone.** It is what the four replacements make, whatever the text holds
already, and works on each part of a text by itself. Escaped text has no character left that markup would take for
its own, reading it gives back the text it was made of, and so no two texts look alike when escaped; and what has
no such character is the escaped form of what it reads as. -/
theorem escape_roundTrip (s t : String) :
    replaceInTurn s = escape s ∧ escape (s ++ t) = escape s ++ escape t ∧ IsEscaped (escape s).toList ∧
      unescape (escape s) = s ∧ (escape s = escape t ↔ s = t) ∧ (IsEscaped t.toList ↔ escape (unescape t) = t) := by
  have happend : escape (s ++ t) = escape s ++ escape t := by
    rw [escape, escape, escape, String.toList_append, List.flatMap_append, String.ofList_append]
  have hinjective : escape s = escape t ↔ s = t := by
    refine ⟨fun h => ?_, congrArg escape⟩
    rw [← unescape_escape s, h, unescape_escape]
  exact ⟨replaceInTurn_eq s, happend, isEscaped_escape s, unescape_escape s, hinjective, isEscaped_iff t⟩

/-- Text that looks escaped is escaped again. -/
example : escape "&lt;" = "&amp;lt;" ∧ unescape "&amp;lt;" = "&lt;" := by decide

end DocPages.Html
