/-
Paths by their parts. A path is cut at its slashes, so what is cut out of it
has none; a name joined to a path adds one component to it. The order of paths
is the lexicographic order of their keys, and paths with equal keys are those
with equal components.
-/
import Mathlib.Data.List.Lex
import DocPages.Files.Path

namespace DocPages.Files

/-! ## Segments -/

theorem segmentsAt_ne_nil (mark : Char) (cs : List Char) : segmentsAt mark cs ≠ [] := by
  cases cs with
  | nil => exact List.cons_ne_nil _ _
  | cons c cs =>
    rw [segmentsAt]
    split <;> exact List.cons_ne_nil _ _

theorem segmentsAt_append (mark : Char) (cs ds : List Char) :
    segmentsAt mark (cs ++ mark :: ds) = segmentsAt mark cs ++ segmentsAt mark ds := by
  induction cs with
  | nil => simp [segmentsAt]
  | cons c cs ih =>
    obtain ⟨s, ss, hs⟩ := List.exists_cons_of_ne_nil (segmentsAt_ne_nil mark cs)
    rw [List.cons_append, segmentsAt, segmentsAt, ih, hs]
    by_cases hc : c = mark <;> simp [hc]

theorem segmentsAt_of_not_mem {mark : Char} {cs : List Char} (h : mark ∉ cs) :
    segmentsAt mark cs = [String.ofList cs] := by
  induction cs with
  | nil => rfl
  | cons c cs ih =>
    rw [List.mem_cons, not_or] at h
    rw [segmentsAt, ih h.2, if_neg (Ne.symm h.1)]
    simp

/-- The characters of a segment are those of the whole, without the mark. -/
theorem mem_of_mem_segmentsAt {mark : Char} {cs : List Char} {s : String} (h : s ∈ segmentsAt mark cs) {c : Char}
    (hc : c ∈ s.toList) : c ∈ cs ∧ c ≠ mark := by
  induction cs generalizing s with
  | nil =>
    rw [List.mem_singleton.1 h] at hc
    exact absurd hc List.not_mem_nil
  | cons d cs ih =>
    obtain ⟨t, ts, hs⟩ := List.exists_cons_of_ne_nil (segmentsAt_ne_nil mark cs)
    rw [segmentsAt, hs] at h
    rw [hs] at ih
    have hlater {u : String} (hu : u ∈ t :: ts) (hc : c ∈ u.toList) : c ∈ d :: cs ∧ c ≠ mark :=
      (ih hu hc).imp_left (List.mem_cons_of_mem d)
    split at h
    · rcases List.mem_cons.1 h with rfl | h
      · exact absurd hc List.not_mem_nil
      · exact hlater h hc
    · next hd =>
      rcases List.mem_cons.1 h with rfl | h
      · have hc : c = d ∨ c ∈ t.toList := by simpa using hc
        rcases hc with rfl | hc
        · exact ⟨List.mem_cons_self, hd⟩
        · exact hlater List.mem_cons_self hc
      · exact hlater (List.mem_cons_of_mem _ h) hc

theorem not_mem_of_mem_segmentsAt {mark : Char} {cs : List Char} {s : String} (h : s ∈ segmentsAt mark cs) :
    mark ∉ s.toList := fun hc =>
  (mem_of_mem_segmentsAt h hc).2 rfl

/-! ## File names -/

/-- A text that can be the name of an entry of a folder. -/
structure IsFileName (s : String) : Prop where
  ne_empty : s ≠ ""
  ne_here : s ≠ "."
  ne_up : s ≠ ".."
  plain : '/' ∉ s.toList

theorem innerComponent?_eq_name {segment s : String} :
    innerComponent? segment = some (.name s) ↔ segment = s ∧ s ≠ "" ∧ s ≠ "." ∧ s ≠ ".." := by
  unfold innerComponent?
  split_ifs with hdot hup
  · simp only [Bool.or_eq_true, decide_eq_true_eq] at hdot
    grind
  · grind
  · simp only [Bool.or_eq_true, decide_eq_true_eq, not_or] at hdot
    grind

theorem IsFileName.innerComponent {s : String} (h : IsFileName s) : innerComponent? s = some (.name s) :=
  innerComponent?_eq_name.2 ⟨rfl, h.ne_empty, h.ne_here, h.ne_up⟩

theorem mem_of_mem_stem {s : String} {c : Char} (h : c ∈ (stem s).toList) : c ∈ s.toList := by
  simp only [stem] at h
  split at h
  · exact h
  · rw [String.toList_ofList, List.mem_reverse] at h
    exact List.mem_reverse.1 ((List.dropWhile_suffix _).subset (List.mem_of_mem_tail h))

/-! ## Components -/

/-- The components of a path with these segments. -/
def componentsOf (isAbsolute : Bool) (ss : List String) : List Component :=
  if isAbsolute then .root :: ss.filterMap innerComponent?
  else if ss.head? = some "." then .here :: ss.filterMap innerComponent?
  else ss.filterMap innerComponent?

theorem Path.components_eq (p : Path) : p.components = componentsOf p.isAbsolute (segments p.text.toList) := rfl

theorem isFileName_of_mem_components {p : Path} {s : String} (h : .name s ∈ p.components) : IsFileName s := by
  have hinner : .name s ∈ (segments p.text.toList).filterMap innerComponent? := by
    rw [Path.components] at h
    split_ifs at h
    · exact List.mem_of_ne_of_mem (by simp) h
    · exact List.mem_of_ne_of_mem (by simp) h
    · exact h
  obtain ⟨segment, hs, hsegment⟩ := List.mem_filterMap.1 hinner
  obtain ⟨rfl, hempty, hhere, hup⟩ := innerComponent?_eq_name.1 hsegment
  exact ⟨hempty, hhere, hup, not_mem_of_mem_segmentsAt hs⟩

theorem componentsOf_concat (isAbsolute : Bool) (ss : List String) {s : String} (hs : IsFileName s) :
    componentsOf isAbsolute (ss ++ [s]) = componentsOf isAbsolute ss ++ [.name s] := by
  unfold componentsOf
  rw [List.filterMap_append, List.filterMap_cons_some hs.innerComponent, List.filterMap_nil]
  cases ss with
  | nil => cases isAbsolute <;> simp [hs.ne_here]
  | cons t ts => grind

theorem componentsOf_blank (isAbsolute : Bool) (ss : List String) :
    componentsOf isAbsolute (ss ++ [""]) = componentsOf isAbsolute ss := by
  have hblank : innerComponent? "" = none := rfl
  unfold componentsOf
  rw [List.filterMap_append, List.filterMap_cons_none hblank, List.filterMap_nil, List.append_nil]
  cases ss <;> simp

/-! ## Joined paths -/

namespace Path

/-- The segments of a path in front of a name that is joined to it. -/
def front (p : Path) : List String :=
  if p.text.isEmpty || p.text.toList.getLast? = some '/' then (segments p.text.toList).dropLast
  else segments p.text.toList

theorem segments_join (p : Path) {s : String} (hs : '/' ∉ s.toList) :
    segments (p.join s).text.toList = p.front ++ [s] := by
  have hname : segments s.toList = [s] := by
    rw [segments, segmentsAt_of_not_mem hs, String.ofList_toList]
  unfold join front
  split_ifs with h
  · rw [Bool.or_eq_true, decide_eq_true_eq] at h
    rw [String.toList_append]
    rcases h with hempty | hslash
    · rw [String.isEmpty_iff.1 hempty]
      exact hname
    · -- The text ends in a slash, behind which its last segment is empty.
      obtain ⟨cs, hcs⟩ : ∃ cs, p.text.toList = cs ++ ['/'] := ⟨_, (List.dropLast_append_getLast? _ hslash).symm⟩
      rw [segments] at hname
      rw [hcs, List.append_assoc, List.singleton_append, segments, segments, segmentsAt_append, segmentsAt_append,
        hname, segmentsAt, List.dropLast_concat]
  · rw [String.toList_append, String.toList_append, List.append_assoc, ← hname]
    exact segmentsAt_append '/' p.text.toList s.toList

/-- What a path has besides its front stands for nothing. -/
theorem segments_eq_front (p : Path) : segments p.text.toList = p.front ∨ segments p.text.toList = p.front ++ [""] := by
  unfold front
  split_ifs with h
  · rw [Bool.or_eq_true, decide_eq_true_eq] at h
    refine .inr ?_
    rcases h with hempty | hslash
    · rw [String.isEmpty_iff.1 hempty]
      rfl
    · obtain ⟨cs, hcs⟩ : ∃ cs, p.text.toList = cs ++ ['/'] := ⟨_, (List.dropLast_append_getLast? _ hslash).symm⟩
      rw [hcs, segments, segmentsAt_append, segmentsAt, List.dropLast_concat]
  · exact .inl rfl

theorem isAbsolute_iff (p : Path) : p.isAbsolute = true ↔ p.text.toList.head? = some '/' := by
  rw [isAbsolute]
  cases p.text.toList with
  | nil => simp
  | cons c cs => simp [List.isPrefixOf, @eq_comm _ '/']

theorem isAbsolute_join (p : Path) {s : String} (hs : '/' ∉ s.toList) : (p.join s).isAbsolute = p.isAbsolute := by
  have hname : s.toList.head? ≠ some '/' := fun h => hs (List.mem_of_mem_head? h)
  rw [Bool.eq_iff_iff, isAbsolute_iff, isAbsolute_iff, join]
  split_ifs with h
  · rw [String.toList_append, List.head?_append]
    cases p.text.toList.head? with
    | none => simpa using hname
    | some c => rfl
  · have hne : p.text.toList ≠ [] := fun he => h (by simp [String.toList_eq_nil_iff.1 he])
    rw [String.toList_append, String.toList_append, List.append_assoc, List.head?_append_of_ne_nil _ hne]

end Path

/-! ## The order of paths -/

theorem Component.key_injective : Function.Injective Component.key := fun a b h => by
  have hchars : Function.Injective Char.toNat := fun _ _ => Char.toNat_inj.1
  cases a <;> cases b <;> simp [Component.key] at h ⊢
  exact String.toList_inj.1 (hchars.list_map h)

namespace Path

theorem key_eq_iff {p q : Path} : p.key = q.key ↔ p.components = q.components :=
  Component.key_injective.list_map.eq_iff

theorem le_iff {p q : Path} : p.le q = true ↔ p.key ≤ q.key := by
  have hlt : (fun a b : List Nat => a.lex b fun m n => decide (m < n)) = fun a b => decide (a < b) := by
    funext a b
    rw [List.lex_eq_decide_lex, decide_eq_decide]
    simp only [decide_eq_true_eq]
    rfl
  rw [Path.le, hlt, Bool.not_eq_true', ← Bool.not_eq_true, List.lex_eq_true_iff_lex, ← not_lt]
  simp only [decide_eq_true_eq]
  rfl

theorem le_trans {p q r : Path} (hpq : p.le q = true) (hqr : q.le r = true) : p.le r = true :=
  le_iff.2 ((le_iff.1 hpq).trans (le_iff.1 hqr))

theorem le_total (p q : Path) : (p.le q || q.le p) = true := by
  rw [Bool.or_eq_true, le_iff, le_iff]
  exact LinearOrder.le_total _ _

end Path

end DocPages.Files
