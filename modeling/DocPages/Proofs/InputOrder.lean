/-
The order of the inputs. Which files are found does not depend on it, nor does
the order of the units, which is that of their paths. Names may: units with one
path keep the name of the first of them (`find?_arrange`), so that a file that
is found under several names is shown under the one found first. Where that is
the same name, so is the outcome (`expandInputs_perm`).
-/
import Mathlib.Data.List.Sort
import DocPages.Proofs.FolderInputs
import DocPages.Proofs.SourceUnits

namespace DocPages.Command

open Files

/-! ## What an expansion comes to -/

/-- A unit up to the way its path is written: the components of the path, and the name. -/
def SourceUnit.essence (u : SourceUnit) : List Component × String :=
  (u.path.components, u.name)

/-- Two expansions come to the same: both fail, or both give the same units in the same order. -/
inductive SameOutcome : Except Failure (List SourceUnit) → Except Failure (List SourceUnit) → Prop
  | failed (f f' : Failure) : SameOutcome (.error f) (.error f')
  | found {us us' : List SourceUnit} (h : us.map SourceUnit.essence = us'.map SourceUnit.essence) :
    SameOutcome (.ok us) (.ok us')

/-- The name under which a path is found first. -/
def firstName? (us : List SourceUnit) (cs : List Component) : Option String :=
  (us.find? (·.path.components = cs)).map (·.name)

/-! ## Units that are found -/

section

variable {d : Disk} {inputs inputs' : List String} {found found' : List SourceUnit}

/-- The units of one input, none if it cannot be expanded. -/
def unitsOf (d : Disk) (input : String) : List SourceUnit :=
  (expandInput d input).toOption.elim [] (·.2)

/-- All inputs together can be expanded if each can, and come to what each comes to. -/
theorem expandAll_eq_ok : (expandAll d inputs).units = .ok found ↔
    (∀ input ∈ inputs, ∃ r, expandInput d input = .ok r) ∧ inputs.flatMap (unitsOf d) = found := by
  induction inputs generalizing found with
  | nil =>
    rw [List.flatMap_nil]
    exact ⟨fun h => ⟨fun _ hmem => absurd hmem List.not_mem_nil, Except.ok.inj h⟩, fun h => congrArg _ h.2⟩
  | cons input rest ih =>
    rw [expandAll, List.forall_mem_cons, List.flatMap_cons]
    cases hinput : expandInput d input with
    | error f =>
      constructor
      · intro hfound
        cases hfound
      · rintro ⟨⟨⟨_, hfirst⟩, -⟩, -⟩
        cases hfirst
    | ok first =>
      have hunits : unitsOf d input = first.2 := by
        rw [unitsOf, hinput]
        rfl
      rw [hunits]
      dsimp only
      cases hothers : (expandAll d rest).units with
      | error f =>
        constructor
        · intro hfound
          cases hfound
        · rintro ⟨⟨-, hall⟩, -⟩
          rw [ih.2 ⟨hall, rfl⟩] at hothers
          cases hothers
      | ok others =>
        obtain ⟨hall, rfl⟩ := ih.1 hothers
        exact ⟨fun h => ⟨⟨⟨_, rfl⟩, hall⟩, Except.ok.inj h⟩, fun h => congrArg _ h.2⟩

/-- In another order, the same units are found. -/
theorem expandAll_perm (h : inputs.Perm inputs') (hfound : (expandAll d inputs).units = .ok found) :
    ∃ found', (expandAll d inputs').units = .ok found' ∧ found.Perm found' := by
  obtain ⟨hall, rfl⟩ := expandAll_eq_ok.1 hfound
  exact ⟨_, expandAll_eq_ok.2 ⟨fun input hmem => hall input (h.mem_iff.2 hmem), rfl⟩, h.flatMap_right _⟩

/-- Inputs that cannot all be expanded have no units. -/
theorem expandInputs_of_error {f : Failure} (h : (expandAll d inputs).units = .error f) :
    (expandInputs d inputs).units = .error f := by
  simp only [expandInputs, h]

end

/-! ## The first of the units with one path -/

section

variable {us us' : List SourceUnit}

/-- Sorting is stable: units with one path stay in their order. -/
theorem find?_mergeSort (us : List SourceUnit) (cs : List Component) :
    (us.mergeSort fun u v => u.path.le v.path).find? (·.path.components = cs) =
      us.find? (·.path.components = cs) := by
  have hequal : (us.filter (·.path.components = cs)).Pairwise fun u v => u.path.le v.path = true := by
    refine List.pairwise_of_forall_mem_list fun u hu v hv => ?_
    have hpath := (List.mem_filter.1 hu).2
    have hpath' := (List.mem_filter.1 hv).2
    simp only [decide_eq_true_eq] at hpath hpath'
    exact Path.le_iff.2 (Path.key_eq_iff.2 (hpath.trans hpath'.symm)).le
  have hkept := (List.sublist_mergeSort ?_ ?_ hequal List.filter_sublist).filter (·.path.components = cs)
  · rw [List.filter_filter] at hkept
    simp only [Bool.and_self] at hkept
    rw [← List.head?_filter, ← List.head?_filter]
    refine congrArg List.head? (hkept.eq_of_length ?_).symm
    exact ((List.mergeSort_perm us _).filter _).length_eq.symm
  · exact fun u v w => Path.le_trans
  · exact fun u v => Path.le_total _ _

theorem find?_dropRepeated (us : List SourceUnit) (cs : List Component) :
    (dropRepeated us).find? (·.path.components = cs) = us.find? (·.path.components = cs) := by
  induction us using dropRepeated.induct with
  | case1 u v rest heq ih =>
    rw [dropRepeated, if_pos heq, ih]
    simp only [List.find?_cons, heq]
    split <;> rfl
  | case2 u v rest hne ih =>
    rw [dropRepeated, if_neg hne, List.find?_cons, ih]
    rfl
  | case3 us hshort =>
    rw [dropRepeated]
    exact hshort

/-- Of the units with one path, the first is kept. -/
theorem find?_arrange (us : List SourceUnit) (cs : List Component) :
    (arrange us).find? (·.path.components = cs) = us.find? (·.path.components = cs) := by
  rw [arrange, find?_dropRepeated, find?_mergeSort]

/-- Among units with different paths, each is found by its path. -/
theorem find?_path {u : SourceUnit} (h : us.Pairwise fun u v => u.path.key < v.path.key) (hu : u ∈ us) :
    us.find? (·.path.components = u.path.components) = some u := by
  induction h with
  | nil => cases hu
  | @cons v rest hfirst hrest ih =>
    rcases List.mem_cons.1 hu with rfl | hu
    · exact List.find?_cons_of_pos (decide_eq_true rfl)
    · have hne : ¬ v.path.components = u.path.components := fun he =>
        (hfirst u hu).ne (Path.key_eq_iff.2 he)
      rw [List.find?_cons_of_neg (by simpa using hne), ih hu]

theorem firstName?_of_mem_arrange {u : SourceUnit} (h : u ∈ arrange us) :
    firstName? us u.path.components = some u.name := by
  rw [firstName?, ← find?_arrange, find?_path (arrange_increasing us) h]
  rfl

/-! ## Units in another order -/

/-- Where all units with one path have one name, their order makes no difference to the first name. -/
theorem firstName?_perm (h : us.Perm us')
    (hagree : ∀ u ∈ us, ∀ v ∈ us, u.path.components = v.path.components → u.name = v.name)
    (cs : List Component) : firstName? us cs = firstName? us' cs := by
  have hfirst : ∀ {vs : List SourceUnit} {u : SourceUnit},
      vs.find? (·.path.components = cs) = some u → u ∈ vs ∧ u.path.components = cs := fun hu =>
    ⟨List.mem_of_find?_eq_some hu, by simpa using List.find?_some hu⟩
  cases hu : us.find? (·.path.components = cs) with
  | none =>
    have hnone : us'.find? (·.path.components = cs) = none := by
      rw [List.find?_eq_none] at hu ⊢
      exact fun v hv => hu v (h.mem_iff.2 hv)
    rw [firstName?, firstName?, hu, hnone]
  | some u =>
    obtain ⟨hmem, hpath⟩ := hfirst hu
    cases hv : us'.find? (·.path.components = cs) with
    | none => exact absurd (decide_eq_true hpath) (List.find?_eq_none.1 hv u (h.mem_iff.1 hmem))
    | some v =>
      obtain ⟨hmem', hpath'⟩ := hfirst hv
      rw [firstName?, firstName?, hu, hv, Option.map_some, Option.map_some,
        hagree u hmem v (h.mem_iff.2 hmem') (hpath.trans hpath'.symm)]

/-- The same units in another order are arranged on the same paths. -/
theorem arrange_perm_paths (h : us.Perm us') :
    (arrange us).map (·.path.components) = (arrange us').map (·.path.components) := by
  have hmem : ∀ {vs ws : List SourceUnit}, vs.Perm ws → ∀ k,
      k ∈ (arrange vs).map (·.path.key) → k ∈ (arrange ws).map (·.path.key) := by
    intro vs ws hperm k hk
    obtain ⟨u, hu, rfl⟩ := List.mem_map.1 hk
    obtain ⟨v, hv, hpath⟩ := exists_mem_arrange (hperm.mem_iff.1 (mem_of_mem_arrange hu))
    exact List.mem_map.2 ⟨v, hv, Path.key_eq_iff.2 hpath⟩
  have hkeys : (arrange us).map (·.path.key) = (arrange us').map (·.path.key) :=
    List.Pairwise.eq_of_mem_iff (List.pairwise_map.2 (arrange_increasing us))
      (List.pairwise_map.2 (arrange_increasing us')) fun k => ⟨hmem h k, hmem h.symm k⟩
  have hcomponents : ∀ vs : List SourceUnit,
      vs.map (·.path.key) = (vs.map (·.path.components)).map (List.map Component.key) := fun vs =>
    List.map_map.symm
  rw [hcomponents, hcomponents] at hkeys
  exact Component.key_injective.list_map.list_map hkeys

/-- The same units in another order are arranged in the same way if each path has the same name first. -/
theorem arrange_perm (h : us.Perm us') (hnames : ∀ cs, firstName? us cs = firstName? us' cs) :
    (arrange us).map SourceUnit.essence = (arrange us').map SourceUnit.essence := by
  have hpaths : ∀ vs : List SourceUnit, (arrange vs).map SourceUnit.essence =
      ((arrange vs).map (·.path.components)).map fun cs => (cs, (firstName? vs cs).getD "") := by
    intro vs
    rw [List.map_map]
    refine List.map_congr_left fun u hu => ?_
    rw [Function.comp_apply, firstName?_of_mem_arrange hu]
    rfl
  rw [hpaths us, hpaths us', arrange_perm_paths h]
  simp only [hnames]

theorem essence_qualify (us : List SourceUnit) : (qualify us).map SourceUnit.essence =
    (us.map SourceUnit.essence).map fun e =>
      if (us.map SourceUnit.essence).countP (·.2 = e.2) > 1 then (e.1, dottedName e.1) else e := by
  rw [qualify, List.map_map, List.map_map]
  refine List.map_congr_left fun u hu => ?_
  simp only [Function.comp_apply, sharesName, List.countP_map, decide_eq_true_eq]
  exact apply_ite SourceUnit.essence _ _ _

theorem names_eq {us us' : List SourceUnit} (h : us.map SourceUnit.essence = us'.map SourceUnit.essence) :
    us.map (·.name) = us'.map (·.name) := by
  have hnames := congrArg (List.map Prod.snd) h
  rwa [List.map_map, List.map_map] at hnames

theorem paths_qualify (us : List SourceUnit) :
    (qualify us).map (·.path.components) = us.map (·.path.components) := by
  rw [qualify, List.map_map]
  refine List.map_congr_left fun u _ => ?_
  simp only [Function.comp_apply]
  split_ifs <;> rfl

end

/-! ## Inputs in another order -/

section

variable {d : Disk} {inputs inputs' : List String}

/-- Whatever file is found, the two lists of inputs find it first under the same name. -/
def SameFirstNames (d : Disk) (inputs inputs' : List String) : Prop :=
  ∀ found found', (expandAll d inputs).units = .ok found → (expandAll d inputs').units = .ok found' →
    ∀ cs, firstName? found cs = firstName? found' cs

/-- It is enough that the units found agree on the names of files. -/
theorem sameFirstNames_of_agree (h : inputs.Perm inputs')
    (hagree : ∀ input ∈ inputs, ∀ input' ∈ inputs, ∀ u ∈ unitsOf d input, ∀ v ∈ unitsOf d input',
      u.path.components = v.path.components → u.name = v.name) : SameFirstNames d inputs inputs' := by
  intro found found' hfound hfound' cs
  obtain ⟨-, rfl⟩ := expandAll_eq_ok.1 hfound
  obtain ⟨-, rfl⟩ := expandAll_eq_ok.1 hfound'
  refine firstName?_perm (h.flatMap_right _) (fun u hu v hv => ?_) cs
  obtain ⟨input, hinput, hu⟩ := List.mem_flatMap.1 hu
  obtain ⟨input', hinput', hv⟩ := List.mem_flatMap.1 hv
  exact hagree input hinput input' hinput' u hu v hv

/-- What is no folder gives files their own names. -/
theorem name_of_mem_unitsOf {input : String} (hinput : d.isFolder ⟨input⟩ = false) {u : SourceUnit}
    (hu : u ∈ unitsOf d input) : d.isFile u.path = true ∧ u.name = fileStem u.path := by
  rw [unitsOf] at hu
  cases hok : expandInput d input with
  | error f =>
    rw [hok] at hu
    exact absurd hu List.not_mem_nil
  | ok r =>
    rw [hok] at hu
    refine ⟨(onDisk_of_expandInput hok u hu).file, ?_⟩
    rw [expandInput, hinput, if_neg Bool.false_ne_true] at hok
    split at hok
    · cases hok
      rw [List.mem_singleton.1 hu]
      rfl
    · split at hok <;> cases hok
      obtain ⟨p, -, rfl⟩ := List.mem_map.1 hu
      rfl

/-- Without folders, the order of the inputs makes no difference. -/
theorem sameFirstNames_of_no_folders (h : inputs.Perm inputs')
    (hinputs : ∀ input ∈ inputs, d.isFolder ⟨input⟩ = false) : SameFirstNames d inputs inputs' := by
  refine sameFirstNames_of_agree h fun input hinput input' hinput' u hu v hv hpath => ?_
  obtain ⟨hfile, hname⟩ := name_of_mem_unitsOf (hinputs input hinput) hu
  obtain ⟨-, hname'⟩ := name_of_mem_unitsOf (hinputs input' hinput') hv
  obtain ⟨s, -, hlast⟩ := getLast_components_of_isFile hfile
  rw [hname, hname', fileStem, fileStem, ← hpath, hlast]

/-- **The order of the inputs makes no difference to the paths, and none to the names either unless it changes the
name that a file is found under first.** -/
theorem expandInputs_perm (h : inputs.Perm inputs') :
    (∀ units units', (expandInputs d inputs).units = .ok units → (expandInputs d inputs').units = .ok units' →
      units.map (·.path.components) = units'.map (·.path.components)) ∧
    (SameFirstNames d inputs inputs' →
      SameOutcome (expandInputs d inputs).units (expandInputs d inputs').units) := by
  refine ⟨fun units units' hunits hunits' => ?_, fun hnames => ?_⟩
  · obtain ⟨found, hfound, rfl, -⟩ := expandInputs_ok hunits
    obtain ⟨found', hfound', rfl, -⟩ := expandInputs_ok hunits'
    obtain ⟨_, hfound'', hperm⟩ := expandAll_perm h hfound
    obtain rfl := Except.ok.inj (hfound''.symm.trans hfound')
    rw [paths_qualify, paths_qualify, arrange_perm_paths hperm]
  · cases hfound : (expandAll d inputs).units with
    | error f =>
      cases hfound' : (expandAll d inputs').units with
      | error f' =>
        rw [expandInputs_of_error hfound, expandInputs_of_error hfound']
        exact .failed f f'
      | ok found' =>
        obtain ⟨found, hok, -⟩ := expandAll_perm h.symm hfound'
        rw [hok] at hfound
        cases hfound
    | ok found =>
      obtain ⟨found', hfound', hperm⟩ := expandAll_perm h hfound
      have hunits : (qualify (arrange found)).map SourceUnit.essence =
          (qualify (arrange found')).map SourceUnit.essence := by
        rw [essence_qualify, essence_qualify, arrange_perm hperm (hnames found found' hfound hfound')]
      rw [expandInputs_of_found hfound, expandInputs_of_found hfound', names_eq hunits]
      cases firstRepeated [] ((qualify (arrange found')).map (·.name)) with
      | none => exact .found hunits
      | some name => exact .failed _ _

/-! ### A sample with a file that is given twice -/

def nestedTree : FileTree where
  entries := [(["d"], .folder), (["d", "sub"], .folder),
    (["d", "sub", "A.cs"], .file "namespace N; class A {}".toUTF8)]
  nodup := by decide
  closed := by decide

def nestedDisk : Disk := ⟨nestedTree, []⟩

/-- Its own folder gives the file the name that it has by itself. -/
theorem expandInputs_perm_sample :
    SameOutcome (expandInputs nestedDisk ["d/sub", "d/sub/A.cs"]).units
      (expandInputs nestedDisk ["d/sub/A.cs", "d/sub"]).units := by
  have hperm : ["d/sub", "d/sub/A.cs"].Perm ["d/sub/A.cs", "d/sub"] := .swap _ _ _
  exact (expandInputs_perm hperm).2 (sameFirstNames_of_agree hperm (by decide +kernel))

/-- One file that is found under two names is a unit under the first. -/
theorem expandInputs_of_pair {p : Path} {name name' : String}
    (h : (expandAll d inputs).units = .ok [⟨p, name⟩, ⟨p, name'⟩]) :
    (expandInputs d inputs).units = .ok [⟨p, name⟩] := by
  have harrange : arrange [⟨p, name⟩, ⟨p, name'⟩] = [⟨p, name⟩] := by
    have hsorted : [(⟨p, name⟩ : SourceUnit), ⟨p, name'⟩].Pairwise fun u v => u.path.key ≤ v.path.key :=
      List.pairwise_pair.2 le_rfl
    rw [arrange_of_sorted hsorted]
    simp [dropRepeated]
  rw [expandInputs_of_found h, harrange]
  simp [qualify, sharesName, firstRepeated]

/-- The outcome is not always the same: from a folder further up, the file has another name than by itself. -/
theorem expandInputs_not_always_perm :
    ¬ ∀ (d : Disk) (inputs inputs' : List String), inputs.Perm inputs' →
      (∀ input ∈ inputs, d.isFile ⟨input⟩ ∨ d.isFolder ⟨input⟩ ∨ ∃ g, Glob.ofPattern input = .ok g) →
      SameOutcome (expandInputs d inputs).units (expandInputs d inputs').units := by
  intro hall
  have hsame := hall nestedDisk ["d", "d/sub/A.cs"] ["d/sub/A.cs", "d"] (.swap _ _ _)
    (List.forall_mem_cons.2 ⟨.inr (.inl (by decide +kernel)), List.forall_mem_singleton.2 (.inl (by decide +kernel))⟩)
  have hfolder : (expandAll nestedDisk ["d", "d/sub/A.cs"]).units =
      .ok [⟨⟨"d/sub/A.cs"⟩, "sub.A"⟩, ⟨⟨"d/sub/A.cs"⟩, "A"⟩] := by
    decide +kernel
  have hfile : (expandAll nestedDisk ["d/sub/A.cs", "d"]).units =
      .ok [⟨⟨"d/sub/A.cs"⟩, "A"⟩, ⟨⟨"d/sub/A.cs"⟩, "sub.A"⟩] := by
    decide +kernel
  rw [expandInputs_of_pair hfolder, expandInputs_of_pair hfile] at hsame
  cases hsame with
  | found h => exact absurd (congrArg (List.map Prod.snd) h) (by decide)

end

end DocPages.Command
