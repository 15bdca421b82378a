/-
The units that the inputs of a run come to. Every unit is a file of the disk
under a name that can be part of a file name (`OnDisk`). Arranged, their paths
strictly increase; a name that several of them have gives way to the whole path
(`IsNamedAmong`); and names that are equal after that are an error.
-/
import DocPages.Command.Inputs
import DocPages.Proofs.DiskChanges
import DocPages.Proofs.Emission

namespace DocPages.Command

open Files

/-! ## Names of pages -/

/-- A name that is put together from components has no slash. -/
theorem slash_not_mem_dottedName {cs : List Component} (h : ∀ s, .name s ∈ cs → '/' ∉ s.toList) :
    '/' ∉ (dottedName cs).toList := by
  intro hslash
  rw [dottedName, String.toList_intercalate] at hslash
  rcases mem_intercalate hslash with hdot | ⟨chars, hchars, hslash⟩
  · revert hdot
    decide
  · obtain ⟨s, hs, rfl⟩ := List.mem_map.1 hchars
    rcases List.mem_append.1 hs with hs | hs
    · obtain ⟨c, hc, hname⟩ := List.mem_filterMap.1 hs
      cases c <;> cases hname
      exact h s (List.dropLast_subset _ hc) hslash
    · split at hs
      · next t hlast =>
        obtain ⟨c, hc, hname⟩ := Option.bind_eq_some_iff.1 (Option.mem_toList.1 hs)
        cases c <;> cases hname
        obtain ⟨rfl, -⟩ := innerComponent?_eq_name.1 hc
        exact h t (List.mem_of_getLast? hlast) (mem_of_mem_stem hslash)
      · cases hs

/-- A file of the disk, under a name that can be part of a file name. -/
structure SourceUnit.OnDisk (d : Disk) (u : SourceUnit) : Prop where
  file : d.isFile u.path = true
  plain : '/' ∉ u.name.toList

section

variable {d : Disk} {p : Path}

theorem getLast_components_of_isFile (h : d.isFile p = true) :
    ∃ s, IsFileName s ∧ p.components.getLast? = some (.name s) := by
  obtain ⟨l, content, hl⟩ := Disk.isFile_iff.1 h
  obtain ⟨ss, s, hsegments, hs⟩ := Disk.last_of_file hl
  exact ⟨s, hs, by rw [Path.components_eq, hsegments, componentsOf_concat _ _ hs, List.getLast?_concat]⟩

theorem SourceUnit.OnDisk.ofFile (h : d.isFile p = true) : (SourceUnit.ofFile p).OnDisk d := by
  obtain ⟨s, hs, hlast⟩ := getLast_components_of_isFile h
  refine ⟨h, ?_⟩
  rw [SourceUnit.ofFile, fileStem, hlast]
  exact fun hslash => hs.plain (mem_of_mem_stem hslash)

theorem SourceUnit.OnDisk.below {folder : Path} {u : SourceUnit} (h : d.isFile p = true)
    (hu : unitBelow? folder p = some u) : u.OnDisk d := by
  simp only [unitBelow?] at hu
  split_ifs at hu
  · cases hu
    exact ⟨h, slash_not_mem_dottedName fun s hs =>
      (isFileName_of_mem_components (List.mem_of_mem_drop hs)).plain⟩
  · cases hu
    exact .ofFile h

theorem isFile_of_filesMatching {pattern : String} {found : List Path} (h : filesMatching d pattern = .ok found) :
    ∀ p ∈ found, d.isFile p = true := by
  unfold filesMatching at h
  cases hg : Glob.ofPattern pattern with
  | error e =>
    rw [hg] at h
    cases h
  | ok g =>
    rw [hg] at h
    obtain rfl := Except.ok.inj h
    exact fun p hp => (List.mem_filter.1 hp).2

theorem onDisk_of_expandInput {input : String} {notes : List Note} {units : List SourceUnit}
    (h : expandInput d input = .ok (notes, units)) : ∀ u ∈ units, u.OnDisk d := by
  unfold expandInput at h
  split_ifs at h with hfile hfolder
  · cases h
    exact List.forall_mem_singleton.2 (.ofFile hfile)
  · split at h
    · cases h
    · next found hfound =>
      cases h
      intro u hu
      obtain ⟨p, hp, hpu⟩ := List.mem_filterMap.1 hu
      exact .below (isFile_of_filesMatching hfound p hp) hpu
  · split at h
    · cases h
    · next found hfound =>
      cases h
      exact List.forall_mem_map.2 fun p hp => .ofFile (isFile_of_filesMatching hfound p hp)

theorem onDisk_of_expandAll {inputs : List String} {units : List SourceUnit}
    (h : (expandAll d inputs).units = .ok units) : ∀ u ∈ units, u.OnDisk d := by
  induction inputs generalizing units with
  | nil =>
    cases h
    exact fun u hu => absurd hu List.not_mem_nil
  | cons input rest ih =>
    rw [expandAll] at h
    split at h
    · cases h
    · next first hfirst =>
      dsimp only at h
      cases hothers : (expandAll d rest).units with
      | error f =>
        rw [hothers] at h
        cases h
      | ok others =>
        rw [hothers] at h
        cases h
        exact List.forall_mem_append.2 ⟨onDisk_of_expandInput hfirst, ih hothers⟩

end

/-! ## The order of units -/

theorem dropRepeated_sublist (us : List SourceUnit) : (dropRepeated us).Sublist us := by
  induction us using dropRepeated.induct with
  | case1 u v rest heq ih =>
    rw [dropRepeated, if_pos heq]
    exact ih.trans ((List.sublist_cons_self v rest).cons_cons u)
  | case2 u v rest hne ih =>
    rw [dropRepeated, if_neg hne]
    exact ih.cons_cons u
  | case3 us hshort =>
    rw [dropRepeated]
    exact hshort

/-- Of units in the order of their paths, those that are left have different paths. -/
theorem dropRepeated_increasing {us : List SourceUnit} (h : us.Pairwise fun u v => u.path.key ≤ v.path.key) :
    (dropRepeated us).Pairwise fun u v => u.path.key < v.path.key := by
  induction us using dropRepeated.induct with
  | case1 u v rest heq ih =>
    rw [dropRepeated, if_pos heq]
    exact ih (h.sublist ((List.sublist_cons_self v rest).cons_cons u))
  | case2 u v rest hne ih =>
    rw [dropRepeated, if_neg hne]
    obtain ⟨hu, hrest⟩ := List.pairwise_cons.1 h
    refine List.pairwise_cons.2 ⟨fun w hw => ?_, ih hrest⟩
    have huv : u.path.key < v.path.key :=
      lt_of_le_of_ne (hu v List.mem_cons_self) fun he => hne (Path.key_eq_iff.1 he)
    have hvw : v.path.key ≤ w.path.key := by
      rcases List.mem_cons.1 ((dropRepeated_sublist _).subset hw) with rfl | hw
      · exact le_rfl
      · exact (List.pairwise_cons.1 hrest).1 w hw
    exact lt_of_lt_of_le huv hvw
  | case3 us hshort =>
    rw [dropRepeated]
    · match us, hshort with
      | [], _ => exact .nil
      | [u], _ => exact List.pairwise_singleton _ u
      | u :: v :: rest, hshort => exact absurd rfl (hshort u v rest)
    · exact hshort

theorem arrange_increasing (us : List SourceUnit) : (arrange us).Pairwise fun u v => u.path.key < v.path.key := by
  refine dropRepeated_increasing ((List.pairwise_mergeSort ?_ ?_ us).imp Path.le_iff.1)
  · exact fun u v w => Path.le_trans
  · exact fun u v => Path.le_total _ _

theorem dropRepeated_of_increasing {us : List SourceUnit} (h : us.Pairwise fun u v => u.path.key < v.path.key) :
    dropRepeated us = us := by
  induction us using dropRepeated.induct with
  | case1 u v rest heq ih =>
    have hlt : u.path.key < v.path.key := (List.pairwise_cons.1 h).1 v List.mem_cons_self
    exact absurd (Path.key_eq_iff.2 heq) hlt.ne
  | case2 u v rest hne ih => rw [dropRepeated, if_neg hne, ih (List.pairwise_cons.1 h).2]
  | case3 us hshort =>
    rw [dropRepeated]
    exact hshort

/-- Of units in the order of their paths, only repeated ones are left out. -/
theorem arrange_of_sorted {us : List SourceUnit} (h : us.Pairwise fun u v => u.path.key ≤ v.path.key) :
    arrange us = dropRepeated us := by
  rw [arrange, List.mergeSort_of_pairwise (h.imp fun hle => Path.le_iff.2 hle)]

/-- Units whose paths increase stay as they are. -/
theorem arrange_of_increasing {us : List SourceUnit} (h : us.Pairwise fun u v => u.path.key < v.path.key) :
    arrange us = us := by
  rw [arrange_of_sorted (h.imp fun hlt => hlt.le), dropRepeated_of_increasing h]

theorem mem_of_mem_arrange {us : List SourceUnit} {u : SourceUnit} (h : u ∈ arrange us) : u ∈ us :=
  List.mem_mergeSort.1 ((dropRepeated_sublist _).subset h)

/-- A path that is left out is that of a unit which is not. -/
theorem exists_mem_dropRepeated {us : List SourceUnit} {u : SourceUnit} (h : u ∈ us) :
    ∃ v ∈ dropRepeated us, v.path.components = u.path.components := by
  induction us using dropRepeated.induct generalizing u with
  | case1 w v rest heq ih =>
    rw [dropRepeated, if_pos heq]
    rcases List.mem_cons.1 h with rfl | h
    · exact ih List.mem_cons_self
    · rcases List.mem_cons.1 h with rfl | h
      · rw [← heq]
        exact ih List.mem_cons_self
      · exact ih (List.mem_cons_of_mem _ h)
  | case2 w v rest hne ih =>
    rw [dropRepeated, if_neg hne]
    rcases List.mem_cons.1 h with rfl | h
    · exact ⟨u, List.mem_cons_self, rfl⟩
    · obtain ⟨x, hx, hcomponents⟩ := ih h
      exact ⟨x, List.mem_cons_of_mem _ hx, hcomponents⟩
  | case3 us hshort =>
    rw [dropRepeated]
    · exact ⟨u, h, rfl⟩
    · exact hshort

theorem exists_mem_arrange {us : List SourceUnit} {u : SourceUnit} (h : u ∈ us) :
    ∃ v ∈ arrange us, v.path.components = u.path.components :=
  exists_mem_dropRepeated (List.mem_mergeSort.2 h)

theorem nodup_arrange (us : List SourceUnit) : (arrange us).Nodup :=
  (arrange_increasing us).imp fun {_ _} hlt he => by
    rw [he] at hlt
    exact lt_irrefl _ hlt

/-! ## Names that are shared -/

/-- The unit that `u` becomes among the units `us`: under its own name if no other has it, or else named after
its whole path. -/
structure IsNamedAmong (us : List SourceUnit) (u named : SourceUnit) : Prop where
  path : named.path = u.path
  kept : (∀ v ∈ us, v.name = u.name → v = u) → named.name = u.name
  qualified : (∃ v ∈ us, v.name = u.name ∧ v ≠ u) → named.name = u.qualifiedName

theorem sharesName_iff {us : List SourceUnit} (h : us.Nodup) {u : SourceUnit} (hu : u ∈ us) :
    sharesName us u = true ↔ ∃ v ∈ us, v.name = u.name ∧ v ≠ u := by
  have hcount : us.countP (·.name = u.name) = (us.erase u).countP (·.name = u.name) + 1 := by
    rw [(List.perm_cons_erase hu).countP_eq, List.countP_cons_of_pos (by simp)]
  rw [sharesName, decide_eq_true_iff, hcount, gt_iff_lt, Nat.lt_add_left_iff_pos, List.countP_pos_iff]
  simp only [h.mem_erase_iff, decide_eq_true_eq]
  grind

theorem isNamedAmong_qualify {us : List SourceUnit} (h : us.Nodup) :
    List.Forall₂ (IsNamedAmong us) us (qualify us) := by
  rw [qualify, List.forall₂_map_right_iff, List.forall₂_same]
  intro u hu
  split_ifs with hshares
  · exact ⟨rfl, fun honly => by grind [sharesName_iff h hu], fun _ => rfl⟩
  · exact ⟨rfl, fun _ => rfl, fun hother => absurd ((sharesName_iff h hu).2 hother) hshares⟩

theorem IsNamedAmong.unique {us : List SourceUnit} {u a b : SourceUnit} (ha : IsNamedAmong us u a)
    (hb : IsNamedAmong us u b) : a = b := by
  have hname : a.name = b.name := by
    by_cases hother : ∃ v ∈ us, v.name = u.name ∧ v ≠ u
    · rw [ha.qualified hother, hb.qualified hother]
    · have honly : ∀ v ∈ us, v.name = u.name → v = u := fun v hv he => by grind
      rw [ha.kept honly, hb.kept honly]
  cases a
  cases b
  exact congrArg₂ SourceUnit.mk (ha.path.trans hb.path.symm) hname

theorem eq_qualify {us named : List SourceUnit} (h : us.Nodup)
    (hnamed : List.Forall₂ (IsNamedAmong us) us named) : named = qualify us := by
  have hunique : Relator.RightUnique (IsNamedAmong us) := fun _ _ _ => IsNamedAmong.unique
  exact hunique.forall₂ hnamed (isNamedAmong_qualify h)

theorem qualify_increasing {us : List SourceUnit} (h : us.Pairwise fun u v => u.path.key < v.path.key) :
    (qualify us).Pairwise fun u v => u.path.key < v.path.key := by
  rw [qualify, List.pairwise_map]
  refine h.imp fun {u v} huv => ?_
  split_ifs <;> exact huv

/-- A unit keeps its path. -/
theorem exists_mem_qualify {us : List SourceUnit} {u : SourceUnit} (h : u ∈ us) :
    ∃ v ∈ qualify us, v.path = u.path := by
  refine ⟨_, List.mem_map_of_mem h, ?_⟩
  split_ifs <;> rfl

theorem onDisk_qualify {d : Disk} {us : List SourceUnit} (h : ∀ u ∈ us, u.OnDisk d) :
    ∀ u ∈ qualify us, u.OnDisk d := by
  refine List.forall_mem_map.2 fun u hu => ?_
  split_ifs
  · exact ⟨(h u hu).file, slash_not_mem_dottedName fun s hs => (isFileName_of_mem_components hs).plain⟩
  · exact h u hu

theorem firstRepeated_eq_none {seen names : List String} :
    firstRepeated seen names = none ↔ names.Nodup ∧ ∀ n ∈ names, n ∉ seen := by
  induction names generalizing seen with
  | nil => simp [firstRepeated]
  | cons name rest ih =>
    rw [firstRepeated]
    split_ifs with hseen
    · simp_all
    · rw [ih]
      simp_all
      grind

/-! ## Expansions -/

theorem expandInputs_of_found {d : Disk} {inputs : List String} {found : List SourceUnit}
    (h : (expandAll d inputs).units = .ok found) :
    (expandInputs d inputs).units =
      (firstRepeated [] ((qualify (arrange found)).map (·.name))).elim (.ok (qualify (arrange found))) fun name =>
        .error ⟨"more than one input maps to the page name " ++ name, none⟩ := by
  simp only [expandInputs, h]
  cases firstRepeated [] ((qualify (arrange found)).map (·.name)) <;> rfl

/-- An expansion that succeeds leaves no two names equal. -/
theorem expandInputs_ok {d : Disk} {inputs : List String} {units : List SourceUnit}
    (h : (expandInputs d inputs).units = .ok units) : ∃ found, (expandAll d inputs).units = .ok found ∧
      units = qualify (arrange found) ∧ (units.map (·.name)).Nodup := by
  cases hfound : (expandAll d inputs).units with
  | error f =>
    simp only [expandInputs, hfound] at h
    cases h
  | ok found =>
    rw [expandInputs_of_found hfound] at h
    cases hrepeated : firstRepeated [] ((qualify (arrange found)).map (·.name)) with
    | none =>
      rw [hrepeated] at h
      obtain rfl := Except.ok.inj h
      exact ⟨found, rfl, rfl, (firstRepeated_eq_none.1 hrepeated).1⟩
    | some name =>
      rw [hrepeated] at h
      cases h

/-- Names that are equal in the end are an error. -/
theorem expandInputs_clash {d : Disk} {inputs : List String} {found : List SourceUnit}
    (h : (expandAll d inputs).units = .ok found) (hclash : ¬ ((qualify (arrange found)).map (·.name)).Nodup) :
    ∃ name, (expandInputs d inputs).units =
      .error ⟨"more than one input maps to the page name " ++ name, none⟩ := by
  rw [expandInputs_of_found h]
  cases hrepeated : firstRepeated [] ((qualify (arrange found)).map (·.name)) with
  | none => exact absurd (firstRepeated_eq_none.1 hrepeated).1 hclash
  | some name => exact ⟨name, rfl⟩

theorem onDisk_of_expandInputs {d : Disk} {inputs : List String} {units : List SourceUnit}
    (h : (expandInputs d inputs).units = .ok units) : ∀ u ∈ units, u.OnDisk d := by
  obtain ⟨found, hfound, rfl, -⟩ := expandInputs_ok h
  exact onDisk_qualify fun u hu => onDisk_of_expandAll hfound u (mem_of_mem_arrange hu)

end DocPages.Command
