/-
Patterns for the source files below a folder. A text without wildcards stands
for itself in a pattern, so its segments are followed one by one (`Stands`) and
lead where they lead as a path; only a dot at the very front is lost on the way.
Below the folder the pattern finds what has the ending of a source file.
-/
import Mathlib.Data.List.DropRight
import DocPages.Command.Inputs
import DocPages.Proofs.DiskChanges

namespace DocPages.Files

/-! ## Tokens -/

/-- A character that stands for itself in a pattern. -/
def IsLiteral (c : Char) : Prop :=
  c ≠ '*' ∧ c ≠ '?' ∧ c ≠ '['

instance (c : Char) : Decidable (IsLiteral c) :=
  inferInstanceAs (Decidable (_ ∧ _ ∧ _))

theorem globToken_literal {c : Char} (h : IsLiteral c) (index : Nat) (before? : Option Char) (rest : List Char) :
    globToken index before? c rest = .ok (.char c, 0) := by
  obtain ⟨hrun, hany, hbracket⟩ := h
  simp only [globToken, if_neg hany, if_neg hrun, if_neg hbracket]

theorem globTokensFrom_literal {cs : List Char} (h : ∀ c ∈ cs, IsLiteral c) (index : Nat) (before? : Option Char)
    (ds : List Char) : globTokensFrom index before? (cs ++ ds) =
      (globTokensFrom (index + cs.length) (cs.getLast?.or before?) ds).map (cs.map .char ++ ·) := by
  induction cs generalizing index before? with
  | nil =>
    simp only [List.nil_append, List.length_nil, Nat.add_zero, List.getLast?_nil, Option.none_or, List.map_nil]
    cases globTokensFrom index before? ds <;> rfl
  | cons c cs ih =>
    rw [List.forall_mem_cons] at h
    rw [List.cons_append, globTokensFrom, globToken_literal h.1]
    simp only [Nat.add_zero, List.take_zero, List.drop_zero, List.getLast?_singleton]
    have hlast : cs.getLast?.or (some c) = (c :: cs).getLast?.or before? := by
      rw [List.getLast?_cons]
      cases cs.getLast? <;> rfl
    rw [ih h.2, List.length_cons, Nat.add_assoc, Nat.add_comm 1, hlast]
    cases globTokensFrom (index + (cs.length + 1)) ((c :: cs).getLast?.or before?) ds <;> rfl

theorem globTokens_literal {cs : List Char} (h : ∀ c ∈ cs, IsLiteral c) : globTokens cs = .ok (cs.map .char) := by
  have htokens := globTokensFrom_literal h 0 none []
  rw [List.append_nil, globTokensFrom] at htokens
  rw [globTokens, htokens, Except.map, List.append_nil]

/-- The ending of source files, as tokens. -/
def sourceTokens : List GlobToken :=
  [.anyRun, .char '.', .char 'c', .char 's']

theorem globTokens_folders (index : Nat) (before? : Option Char) :
    globTokensFrom index before? "/**/*.cs".toList = .ok (.char '/' :: .folders :: .char '/' :: sourceTokens) := by
  simp [globTokensFrom, globToken, Except.map, sourceTokens]

theorem globMatches_literal {cs s : List Char} : globMatches (cs.map .char) s = true ↔ s = cs := by
  induction cs generalizing s with
  | nil => simp [globMatches]
  | cons c cs ih =>
    cases s with
    | nil => simp [globMatches]
    | cons d s => simp [globMatches, GlobToken.matches, ih]

theorem globMatches_sourceTokens {s : List Char} : globMatches sourceTokens s = true ↔ ".cs".toList <:+ s := by
  have hending : ∀ n, globMatches (".cs".toList.map .char) (s.drop n) = true ↔ s.drop n = ".cs".toList := fun n =>
    globMatches_literal
  rw [sourceTokens, globMatches, List.any_eq_true]
  constructor
  · rintro ⟨n, -, hn⟩
    rw [← (hending n).1 hn]
    exact List.drop_suffix n s
  · rintro ⟨front, rfl⟩
    refine ⟨front.length, ?_, (hending _).2 (List.drop_left ..)⟩
    rw [List.mem_range, List.length_append]
    omega

/-! ## Parts -/

theorem mapM_char (cs : List Char) : (cs.map GlobToken.char).mapM GlobToken.char? = some cs := by
  induction cs with
  | nil => rfl
  | cons c cs ih =>
    rw [List.map_cons, List.mapM_cons, ih]
    rfl

theorem GlobPart.ofTokens_literal (cs : List Char) : ofTokens (cs.map .char) = .plain (String.ofList cs) := by
  have hfolders : cs.map GlobToken.char ≠ [.folders] := by
    cases cs <;> simp
  rw [ofTokens, if_neg hfolders, mapM_char]

theorem collapse_plain (ss : List String) (ts : List GlobToken) :
    collapse (ss.map .plain ++ [.folders, .wild ts]) = ss.map .plain ++ [.folders, .wild ts] := by
  induction ss with
  | nil => simp [collapse]
  | cons s ss ih => simp [collapse, ih]

/-- The parts for the source files below a folder. -/
def sourceParts : List GlobPart :=
  [.folders, .wild sourceTokens]

theorem mapM_parts {ss : List String} (h : ∀ s ∈ ss, ∀ c ∈ s.toList, IsLiteral c) :
    (ss ++ ["**", "*.cs"]).mapM (fun s => GlobPart.ofTokens <$> globTokens s.toList) =
      (.ok (ss.map .plain ++ sourceParts) : Except GlobError (List GlobPart)) := by
  induction ss with
  | nil =>
    have hfolders : globTokens "**".toList = .ok [.folders] := by
      simp [globTokens, globTokensFrom, globToken, Except.map]
    have hsources : globTokens "*.cs".toList = .ok sourceTokens := by
      simp [globTokens, globTokensFrom, globToken, Except.map, sourceTokens]
    simp only [List.nil_append, List.mapM_cons, hfolders, hsources]
    rfl
  | cons s ss ih =>
    rw [List.forall_mem_cons] at h
    rw [List.cons_append, List.mapM_cons, globTokens_literal h.1, ih h.2]
    simp only [Functor.map, Except.map, GlobPart.ofTokens_literal, String.ofList_toList]
    rfl

/-! ## The pattern of a folder -/

theorem segmentsAt_replicate (mark : Char) (cs : List Char) (n : Nat) :
    segmentsAt mark (cs ++ List.replicate n mark) = segmentsAt mark cs ++ List.replicate n "" := by
  induction n generalizing cs with
  | zero => simp
  | succ n ih =>
    have hmarks := ih []
    rw [List.nil_append] at hmarks
    rw [List.replicate_succ, segmentsAt_append, hmarks]
    rfl

/-- A text is what is left of it without the slashes at its end, and these. -/
theorem exists_slashes (cs : List Char) : ∃ n, cs = cs.rdropWhile (· = '/') ++ List.replicate n '/' := by
  refine ⟨(cs.rtakeWhile (· = '/')).length, ?_⟩
  have hslashes : ∀ c ∈ cs.rtakeWhile (· = '/'), c = '/' := fun c hc => by
    simpa using List.mem_rtakeWhile_imp hc
  rw [← List.eq_replicate_of_mem hslashes, List.rdropWhile_append_rtakeWhile]

/-- The segments of a path that lead on from where it begins, down to the last one that is no trailing slash. -/
def Path.steps (p : Path) : List String :=
  let all := segments (p.text.toList.rdropWhile (· = '/'))
  if p.isAbsolute then all.tail else all

/-- A text that begins with a slash, or of which nothing is left, has nothing in front of its first slash. -/
theorem segments_of_slash {cs : List Char} (h : cs = [] ∨ cs.head? = some '/') :
    segments cs = "" :: (segments cs).tail := by
  rcases h with rfl | h
  · rfl
  · obtain ⟨rest, rfl⟩ := List.head?_eq_some_iff.1 h
    simp [segments, segmentsAt]

theorem Path.isAbsolute_trimmed {p : Path} (h : p.isAbsolute = true) :
    p.text.toList.rdropWhile (· = '/') = [] ∨ (p.text.toList.rdropWhile (· = '/')).head? = some '/' := by
  refine or_iff_not_imp_left.2 fun hne => ?_
  obtain ⟨n, hslashes⟩ := exists_slashes p.text.toList
  rw [isAbsolute_iff, hslashes, List.head?_append_of_ne_nil _ hne] at h
  exact h

/-- What a path is cut into: nothing in front of the first slash if it is absolute, its steps, and nothing behind
trailing slashes. -/
theorem Path.segments_eq_steps (p : Path) : ∃ n, segments p.text.toList =
    (if p.isAbsolute then [""] else []) ++ p.steps ++ List.replicate n "" := by
  obtain ⟨n, hslashes⟩ := exists_slashes p.text.toList
  refine ⟨n, ?_⟩
  have hsegments : segments p.text.toList =
      segments (p.text.toList.rdropWhile (· = '/')) ++ List.replicate n "" :=
    (congrArg segments hslashes).trans (segmentsAt_replicate '/' _ n)
  rw [hsegments, steps]
  split_ifs with habsolute
  · exact congrArg (· ++ List.replicate n "") (segments_of_slash (isAbsolute_trimmed habsolute))
  · rfl

theorem Path.slash_not_mem_steps {p : Path} {s : String} (h : s ∈ p.steps) : '/' ∉ s.toList := by
  rw [steps] at h
  split_ifs at h
  · exact not_mem_of_mem_segmentsAt (List.mem_of_mem_tail h)
  · exact not_mem_of_mem_segmentsAt h

theorem Path.mem_of_mem_steps {p : Path} {s : String} (h : s ∈ p.steps) {c : Char} (hc : c ∈ s.toList) :
    c ∈ p.text.toList := by
  have htrimmed : c ∈ p.text.toList.rdropWhile (· = '/') := by
    rw [steps] at h
    split_ifs at h
    · exact (mem_of_mem_segmentsAt (List.mem_of_mem_tail h) hc).1
    · exact (mem_of_mem_segmentsAt h hc).1
  exact (List.rdropWhile_prefix _ _).subset htrimmed

open Command (folderPattern)

theorem toList_folderPattern (p : Path) :
    (folderPattern p.text).toList = p.text.toList.rdropWhile (· = '/') ++ "/**/*.cs".toList := by
  rw [folderPattern, String.toList_append, String.toList_ofList]
  rfl

theorem isAbsolute_folderPattern {p : Path} (hne : p.text ≠ "") :
    ['/'].isPrefixOf (folderPattern p.text).toList = p.isAbsolute := by
  have hhead : (folderPattern p.text).toList.head? = some '/' ↔ p.text.toList.head? = some '/' := by
    obtain ⟨n, hslashes⟩ := exists_slashes p.text.toList
    rw [toList_folderPattern]
    generalize p.text.toList.rdropWhile (· = '/') = trimmed at hslashes
    cases trimmed with
    | cons c cs => rw [hslashes, List.cons_append, List.cons_append, List.head?_cons, List.head?_cons]
    | nil =>
      -- The path consists of slashes.
      cases n with
      | zero => exact absurd (String.toList_eq_nil_iff.1 hslashes) hne
      | succ n => simp [hslashes, List.replicate_succ]
  exact Bool.eq_iff_iff.2 (((Path.mk _).isAbsolute_iff.trans hhead).trans p.isAbsolute_iff.symm)

theorem globComponents_folderPattern {p : Path} (hne : p.text ≠ "") :
    globComponents (if p.isAbsolute then (folderPattern p.text).toList.drop 1 else (folderPattern p.text).toList) =
      p.steps ++ ["**", "*.cs"] := by
  have hsegments : segments (folderPattern p.text).toList =
      segments (p.text.toList.rdropWhile (· = '/')) ++ ["**", "*.cs"] := by
    rw [toList_folderPattern]
    exact segmentsAt_append '/' _ "**/*.cs".toList
  have hcut : segments (if p.isAbsolute then (folderPattern p.text).toList.drop 1
      else (folderPattern p.text).toList) = p.steps ++ ["**", "*.cs"] := by
    rw [Path.steps]
    split_ifs with habsolute
    · have hslash := (Path.mk (folderPattern p.text)).isAbsolute_iff.1
        ((isAbsolute_folderPattern hne).trans habsolute)
      obtain ⟨rest, hrest⟩ := List.head?_eq_some_iff.1 hslash
      rw [hrest, segments_of_slash (Path.isAbsolute_trimmed habsolute)] at hsegments
      rw [hrest, List.drop_one, List.tail_cons]
      exact (List.cons.inj hsegments).2
    · exact hsegments
  rw [globComponents, hcut]
  simp

/-- The pattern of a folder that is spelled without wildcards. -/
theorem ofPattern_folder {p : Path} (hne : p.text ≠ "") (h : ∀ c ∈ p.text.toList, IsLiteral c) :
    Glob.ofPattern (folderPattern p.text) =
      .ok ⟨⟨if p.isAbsolute then "/" else "."⟩, p.steps.map .plain ++ sourceParts, false⟩ := by
  have htrimmed : ∀ c ∈ p.text.toList.rdropWhile (· = '/'), IsLiteral c := fun c hc =>
    h c ((List.rdropWhile_prefix _ _).subset hc)
  obtain ⟨ts, hts⟩ : ∃ ts, globTokens (folderPattern p.text).toList = .ok ts := by
    rw [toList_folderPattern, globTokens, globTokensFrom_literal htrimmed, globTokens_folders]
    exact ⟨_, rfl⟩
  have hlast : (folderPattern p.text).toList.getLast? = some 's' := by
    rw [toList_folderPattern]
    simp
  have hparts := mapM_parts fun s hs c hc => h c (Path.mem_of_mem_steps hs hc)
  simp only [Glob.ofPattern, hts, isAbsolute_folderPattern hne, globComponents_folderPattern hne, hparts, hlast]
  have hcollapse : collapse (p.steps.map .plain ++ sourceParts) = p.steps.map .plain ++ sourceParts :=
    collapse_plain p.steps sourceTokens
  exact congrArg (fun parts => Except.ok (Glob.mk _ parts false)) hcollapse

/-! ## Following a pattern -/

namespace Path

/-- The components of a path but for a dot at its front. -/
def bare (p : Path) : List Component :=
  p.components.filter (· ≠ .here)

theorem bare_eq {p : Path} (h : .here ∉ p.components) : p.bare = p.components :=
  List.filter_eq_self.2 fun c hc => by
    simp only [ne_eq, decide_not, Bool.not_eq_true', decide_eq_false_iff_not]
    exact fun he => h (he ▸ hc)

theorem innerComponent?_ne_here (s : String) : innerComponent? s ≠ some .here := by
  unfold innerComponent?
  split_ifs <;> simp

/-- Only a slash has nothing in front of it. -/
theorem head_segments_ne {c : Char} {cs : List Char} (hc : c ≠ '/') : (segments (c :: cs)).head? ≠ some "" := by
  intro hblank
  rw [segments, segmentsAt, if_neg hc, List.head?_cons, Option.some.injEq] at hblank
  have hchars := congrArg String.toList hblank
  simp at hchars

theorem front_ne_nil {p : Path} (hp : p.text ≠ "") : p.front ≠ [] := by
  intro hnil
  rcases p.segments_eq_front with hfront | hfront
  · exact segmentsAt_ne_nil '/' _ (hfront.trans hnil)
  · -- A text with no other segment than an empty one is empty.
    rw [hnil, List.nil_append] at hfront
    cases hchars : p.text.toList with
    | nil => exact hp (String.toList_eq_nil_iff.1 hchars)
    | cons c cs =>
      rw [hchars] at hfront
      by_cases hc : c = '/'
      · rw [hc, segments_of_slash (.inr rfl)] at hfront
        exact segmentsAt_ne_nil '/' cs (List.cons.inj hfront).2
      · exact head_segments_ne hc (congrArg List.head? hfront)

theorem filterMap_segment (s : String) : [s].filterMap innerComponent? = (innerComponent? s).toList := by
  cases hs : innerComponent? s <;> simp [hs]

/-- What a segment that is joined to a path adds to its components. -/
theorem components_join_segment {p : Path} {s : String} (hp : p.text ≠ "") (hs : '/' ∉ s.toList) :
    (p.join s).components = p.components ++ (innerComponent? s).toList := by
  have happend : ∀ isAbsolute, componentsOf isAbsolute (p.front ++ [s]) =
      componentsOf isAbsolute p.front ++ (innerComponent? s).toList := fun isAbsolute => by
    unfold componentsOf
    rw [List.filterMap_append, filterMap_segment, List.head?_append_of_ne_nil _ (front_ne_nil hp)]
    split_ifs <;> rfl
  rw [components_eq, components_eq, segments_join p hs, isAbsolute_join p hs, happend]
  rcases p.segments_eq_front with hfront | hfront
  · rw [hfront]
  · rw [hfront, componentsOf_blank]

theorem isAbsolute_of_segment {s : String} (hs : '/' ∉ s.toList) : (Path.mk s).isAbsolute = false := by
  rw [← Bool.not_eq_true, isAbsolute_iff]
  exact fun h => hs (List.mem_of_mem_head? h)

theorem segments_of_segment {s : String} (hs : '/' ∉ s.toList) : segments s.toList = [s] := by
  rw [segments, segmentsAt_of_not_mem hs, String.ofList_toList]

theorem components_of_segment {s : String} (hs : '/' ∉ s.toList) :
    (Path.mk s).components = if s = "." then [.here] else (innerComponent? s).toList := by
  rw [components_eq, isAbsolute_of_segment hs, segments_of_segment hs, componentsOf, filterMap_segment]
  split_ifs <;> simp_all [innerComponent?]

theorem text_join_ne {p : Path} (hp : p.text ≠ "") (s : String) : (p.join s).text ≠ "" := by
  rw [join]
  split_ifs <;> simp [String.append_eq_empty_iff, hp]

end Path

/-- Following a pattern has led to the folder at `l`, on the path `q`. The current folder is written only as long as
nothing else is. -/
structure Stands (d : Disk) (q : Path) (l : Location) : Prop where
  locate : d.locate q = .ok (l, .folder)
  front : q = ⟨"."⟩ ∨ .here ∉ q.components

namespace Stands

variable {d : Disk} {q : Path} {l : Location}

theorem folder (h : Stands d q l) : d.tree.get? l = some .folder :=
  (Disk.locate_eq_ok.1 h.locate).2.2

theorem child_eq (h : Stands d q l) (s : String) : q.child s = if q = ⟨"."⟩ then ⟨s⟩ else q.join s := by
  have hdot : (Path.mk ".").components = [.here] := rfl
  rw [Path.child]
  rcases h.front with rfl | hhere
  · rw [if_pos hdot, if_pos rfl]
  · have hne : q.components ≠ [.here] := fun he => hhere (by simp [he])
    have hq : q ≠ ⟨"."⟩ := fun he => hne (he ▸ hdot)
    rw [if_neg hne, if_neg hq]

/-- Where a segment leads from a folder. -/
theorem locate_child (h : Stands d q l) {s : String} (hs : '/' ∉ s.toList) (hblank : q = ⟨"."⟩ → s ≠ "")
    {e : FileEntry} (he : d.tree.get? (Disk.follow l s) = some e) :
    d.locate (q.child s) = .ok (Disk.follow l s, e) := by
  obtain ⟨hne, hdescend, hfolder⟩ := Disk.locate_eq_ok.1 h.locate
  have hstep : d.descend l [s] = .ok (Disk.follow l s) := Disk.descend_cons_ok.2 ⟨hfolder, rfl⟩
  rw [h.child_eq]
  split_ifs with hdot
  · subst hdot
    have hl : l = d.here := Disk.eq_of_descend hdescend
    refine Disk.locate_eq_ok.2 ⟨hblank rfl, ?_, he⟩
    rw [Path.segments_of_segment hs, Disk.origin, Path.isAbsolute_of_segment hs, ← hl]
    exact hstep
  · refine Disk.locate_eq_ok.2 ⟨Path.text_join_ne hne s, ?_, he⟩
    rw [Path.segments_join q hs, Disk.origin, Path.isAbsolute_join q hs]
    refine Disk.descend_append_ok.2 ⟨l, ?_, hstep⟩
    rcases q.segments_eq_front with hfront | hfront
    · rw [← hfront]
      exact hdescend
    · -- The empty segment behind the front leads nowhere else.
      rw [hfront] at hdescend
      obtain ⟨k, hk, hblank⟩ := Disk.descend_append_ok.1 hdescend
      rw [Disk.eq_of_descend hblank]
      exact hk

theorem front_child (h : Stands d q l) {s : String} (hs : '/' ∉ s.toList) :
    q.child s = ⟨"."⟩ ∨ .here ∉ (q.child s).components := by
  have hinner : .here ∉ (innerComponent? s).toList := fun hmem =>
    Path.innerComponent?_ne_here s (Option.mem_toList.1 hmem)
  rw [h.child_eq]
  split_ifs with hdot
  · rw [Path.components_of_segment hs]
    split_ifs with hs'
    · exact .inl (congrArg Path.mk hs')
    · exact .inr hinner
  · rw [Path.components_join_segment (Disk.locate_eq_ok.1 h.locate).1 hs, List.mem_append, not_or]
    exact .inr ⟨h.front.resolve_left hdot, hinner⟩

theorem bare_child (h : Stands d q l) {s : String} (hs : '/' ∉ s.toList) :
    (q.child s).bare = q.bare ++ (innerComponent? s).toList := by
  have hkept : (innerComponent? s).toList.filter (· ≠ .here) = (innerComponent? s).toList := by
    have := Path.innerComponent?_ne_here s
    cases hc : innerComponent? s <;> simp_all
  rw [h.child_eq, Path.bare, Path.bare]
  split_ifs with hdot
  · subst hdot
    rw [Path.components_of_segment hs]
    split_ifs with hs'
    · subst hs'
      rfl
    · exact hkept
  · rw [Path.components_join_segment (Disk.locate_eq_ok.1 h.locate).1 hs, List.filter_append, hkept]

/-- Only dots keep the current folder. -/
theorem of_child_eq_dot (h : Stands d q l) {s : String} (hs : '/' ∉ s.toList) (hdot : q.child s = ⟨"."⟩) :
    q = ⟨"."⟩ ∧ s = "." := by
  rw [h.child_eq] at hdot
  split_ifs at hdot with hq
  · exact ⟨hq, congrArg Path.text hdot⟩
  · have hcomponents := Path.components_join_segment (Disk.locate_eq_ok.1 h.locate).1 hs
    have hhere : .here ∈ q.components ++ (innerComponent? s).toList := by
      rw [← hcomponents, hdot]
      exact List.mem_singleton_self _
    rcases List.mem_append.1 hhere with hhere | hhere
    · exact absurd hhere (h.front.resolve_left hq)
    · exact absurd (Option.mem_toList.1 hhere) (Path.innerComponent?_ne_here s)

/-- A folder on the way. -/
theorem child (h : Stands d q l) {s : String} (hs : '/' ∉ s.toList) (hblank : q = ⟨"."⟩ → s ≠ "")
    (he : d.tree.get? (Disk.follow l s) = some .folder) : Stands d (q.child s) (Disk.follow l s) :=
  ⟨h.locate_child hs hblank he, h.front_child hs⟩

end Stands

/-! ## What a pattern finds -/

section

variable {d : Disk} {q : Path} {l : Location}

/-- Segments without wildcards are followed like those of a path, except that nothing is found if one of them is
empty as long as only dots are in front of it. -/
theorem matchesBelow_plain (h : Stands d q l) {ss : List String} {m : Location} (hdescend : d.descend l ss = .ok m)
    (hm : d.tree.get? m = some .folder) (hslash : ∀ s ∈ ss, '/' ∉ s.toList)
    (hblank : q = ⟨"."⟩ → (ss.dropWhile (· = ".")).head? ≠ some "") :
    ∃ q', Stands d q' m ∧ q'.bare = q.bare ++ ss.filterMap innerComponent? ∧
      ∀ parts, matchesBelow d q (ss.map .plain ++ parts) = matchesBelow d q' parts := by
  induction ss generalizing q l with
  | nil =>
    obtain rfl := Except.ok.inj hdescend
    exact ⟨q, h, (List.append_nil _).symm, fun _ => rfl⟩
  | cons s ss ih =>
    obtain ⟨-, hrest⟩ := Disk.descend_cons_ok.1 hdescend
    rw [List.forall_mem_cons] at hslash
    have hfolder : d.tree.get? (Disk.follow l s) = some .folder := by
      cases ss with
      | nil => exact Except.ok.inj hrest ▸ hm
      | cons t ts => exact (Disk.descend_cons_ok.1 hrest).1
    have hs : q = ⟨"."⟩ → s ≠ "" := fun hdot he => by
      subst he
      exact hblank hdot (by simp)
    obtain ⟨q', hq', hbare, hmatches⟩ := ih (h.child hslash.1 hs hfolder) hrest hslash.2 fun hdot => by
      obtain ⟨hq, rfl⟩ := h.of_child_eq_dot hslash.1 hdot
      exact hblank hq
    refine ⟨q', hq', ?_, ?_⟩
    · rw [hbare, h.bare_child hslash.1, List.append_assoc, ← Path.filterMap_segment, ← List.filterMap_append]
      rfl
    · have hleads : (if s = "." || s = ".." then d.isFolder q else d.isPresent (q.child s)) = true := by
        split_ifs
        · rw [Disk.isFolder, Disk.folder?_eq_some.2 h.locate]
          rfl
        · rw [Disk.isPresent, h.locate_child hslash.1 hs hfolder]
          rfl
      intro parts
      rw [List.map_cons, List.cons_append, matchesBelow]
      simp only [hleads, if_true]
      exact hmatches parts

/-- A path without a dot at its front has the components that its steps stand for. -/
theorem Path.bare_eq_steps (p : Path) :
    p.bare = (if p.isAbsolute then [.root] else []) ++ p.steps.filterMap innerComponent? := by
  obtain ⟨n, hsegments⟩ := p.segments_eq_steps
  have hblanks : (List.replicate n "").filterMap innerComponent? = [] := by
    induction n with
    | zero => rfl
    | succ n ih => simp [List.replicate_succ, innerComponent?]
  have hinner : (segments p.text.toList).filterMap innerComponent? = p.steps.filterMap innerComponent? := by
    rw [hsegments, List.filterMap_append, List.filterMap_append, hblanks]
    split_ifs <;> simp [innerComponent?]
  have hkept : (p.steps.filterMap innerComponent?).filter (· ≠ .here) = p.steps.filterMap innerComponent? :=
    List.filter_eq_self.2 fun c hc => by
      obtain ⟨s, -, hs⟩ := List.mem_filterMap.1 hc
      simp only [ne_eq, decide_not, Bool.not_eq_true', decide_eq_false_iff_not]
      exact fun he => innerComponent?_ne_here s (he ▸ hs)
  rw [bare, components_eq, componentsOf, hinner]
  split_ifs <;> simp only [List.filter_cons, hkept] <;> rfl

/-- The steps of a path lead where the path leads. -/
theorem descend_steps {p : Path} (hp : d.locate p = .ok (l, .folder)) :
    d.tree.get? (d.origin p) = some .folder ∧ d.descend (d.origin p) p.steps = .ok l := by
  obtain ⟨-, hdescend, -⟩ := Disk.locate_eq_ok.1 hp
  obtain ⟨n, hsegments⟩ := p.segments_eq_steps
  have horigin : d.tree.get? (d.origin p) = some .folder := by
    obtain ⟨s, ss, hs⟩ := List.exists_cons_of_ne_nil (segmentsAt_ne_nil '/' p.text.toList)
    rw [segments, hs] at hdescend
    exact (Disk.descend_cons_ok.1 hdescend).1
  rw [hsegments] at hdescend
  obtain ⟨k, hsteps, hblanks⟩ := Disk.descend_append_ok.1 hdescend
  obtain ⟨m, hfirst, hsteps⟩ := Disk.descend_append_ok.1 hsteps
  have hm : m = d.origin p := by
    rw [Disk.eq_of_descend hfirst]
    split_ifs <;> rfl
  have hk : l = k := by
    rw [Disk.eq_of_descend hblanks]
    exact Disk.foldl_follow_empty k fun s hs => (List.mem_replicate.1 hs).2
  exact ⟨horigin, hk ▸ hm ▸ hsteps⟩

/-- The pattern of a folder leads to that folder, on a path with the same components but for a dot at the front. -/
theorem exists_stands {p : Path} (hp : d.locate p = .ok (l, .folder))
    (hblank : p.isAbsolute = false → (p.steps.dropWhile (· = ".")).head? ≠ some "") :
    ∃ q, Stands d q l ∧ q.bare = p.bare ∧ ∀ parts,
      matchesBelow d ⟨if p.isAbsolute then "/" else "."⟩ (p.steps.map .plain ++ parts) = matchesBelow d q parts := by
  obtain ⟨horigin, hsteps⟩ := descend_steps hp
  have hslash : ∀ s ∈ p.steps, '/' ∉ s.toList := fun s hs => Path.slash_not_mem_steps hs
  have hl := (Disk.locate_eq_ok.1 hp).2.2
  rw [p.bare_eq_steps]
  cases habsolute : p.isAbsolute with
  | true =>
    rw [Disk.origin, if_pos habsolute] at horigin hsteps
    have hroot : Stands d ⟨"/"⟩ [] := ⟨Disk.locate_eq_ok.2 ⟨by decide, rfl, rfl⟩, .inr (by decide)⟩
    exact matchesBelow_plain hroot hsteps hl hslash fun hdot => absurd hdot (by decide)
  | false =>
    rw [Disk.origin, habsolute] at horigin hsteps
    have hhere : d.descend d.here ["."] = .ok d.here := Disk.descend_cons_ok.2 ⟨horigin, rfl⟩
    have hdot : Stands d ⟨"."⟩ d.here := ⟨Disk.locate_eq_ok.2 ⟨by decide, hhere, horigin⟩, .inl rfl⟩
    exact matchesBelow_plain hdot hsteps hl hslash fun _ => hblank habsolute

/-- The paths of what is below a folder. -/
theorem locate_below (h : Stands d q l) {names : List String} (hnames : ∀ s ∈ names, IsFileName s) {e : FileEntry}
    (he : d.tree.get? (l ++ names) = some e) :
    d.locate (names.foldl Path.child q) = .ok (l ++ names, e) ∧
      (names.foldl Path.child q).bare = q.bare ++ names.map .name ∧
      (names.foldl Path.child q = ⟨"."⟩ ∨ .here ∉ (names.foldl Path.child q).components) := by
  induction names using List.reverseRecOn generalizing e with
  | nil =>
    rw [List.append_nil] at he ⊢
    obtain rfl := Option.some.inj (h.folder.symm.trans he)
    exact ⟨h.locate, (List.append_nil _).symm, h.front⟩
  | append_singleton names s ih =>
    rw [List.forall_mem_append, List.forall_mem_singleton] at hnames
    obtain ⟨hfront, hs⟩ := hnames
    rw [← List.append_assoc] at he ⊢
    have hdrop : (l ++ names ++ [s]).dropLast = l ++ names := List.dropLast_concat
    have hfolder : d.tree.get? (l ++ names) = some .folder := hdrop ▸ FileTree.get?_dropLast he
    obtain ⟨hlocate, hbare, hhere⟩ := ih hfront hfolder
    have hstands : Stands d (names.foldl Path.child q) (l ++ names) := ⟨hlocate, hhere⟩
    have hfollow : Disk.follow (l ++ names) s = l ++ names ++ [s] :=
      Disk.follow_ne ⟨hs.ne_empty, hs.ne_here, hs.ne_up⟩
    rw [← hfollow] at he ⊢
    rw [List.foldl_append]
    refine ⟨hstands.locate_child hs.plain (fun _ => hs.ne_empty) he, ?_, hstands.front_child hs.plain⟩
    rw [List.foldl_cons, List.foldl_nil, hstands.bare_child hs.plain, hbare, hs.innerComponent, List.map_append,
      List.append_assoc]
    rfl

/-- The files with the ending of source files below a folder. -/
theorem matchesBelow_sources (h : Stands d q l) : matchesBelow d q sourceParts =
    ((d.tree.below l).filter fun names => names.getLast?.any fun s => ".cs".toList.isSuffixOf s.toList).map
      (·.foldl Path.child q) := by
  have hfolder : d.folder? q = some l := Disk.folder?_eq_some.2 h.locate
  have hending : ∀ s : String, (GlobPart.wild sourceTokens).matches s = ".cs".toList.isSuffixOf s.toList := fun s =>
    Bool.eq_iff_iff.2 (globMatches_sourceTokens.trans List.isSuffixOf_iff_suffix.symm)
  simp only [sourceParts, matchesBelow, hfolder, hending]
  induction d.tree.below l with
  | nil => rfl
  | cons names rest ih =>
    rw [List.flatMap_cons, ih, List.filter_cons]
    split_ifs <;> rfl

end

end DocPages.Files
