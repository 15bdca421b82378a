/-
Folders as inputs. A folder that is spelled without wildcards and without a dot
at the front contributes the source files below it, build output left out, each
under the name of its way from the folder (`CoversFolder`). With a dot at the
front, the paths found no longer begin with the folder's own, so each file is
taken by itself: build output is not left out, and folders are not in the names.
-/
import DocPages.Proofs.FolderPatterns
import DocPages.Proofs.SourceUnits

namespace DocPages.Files

/-! ## Names in a tree -/

instance (s : String) : Decidable (IsFileName s) :=
  decidable_of_iff (s ≠ "" ∧ s ≠ "." ∧ s ≠ ".." ∧ '/' ∉ s.toList)
    ⟨fun ⟨hempty, hhere, hup, hplain⟩ => ⟨hempty, hhere, hup, hplain⟩,
      fun h => ⟨h.ne_empty, h.ne_here, h.ne_up, h.plain⟩⟩

namespace FileTree

variable {t : FileTree} {l names : Location}

/-- Every entry of the tree has a name that a path can spell. -/
def HasFileNames (t : FileTree) : Prop :=
  ∀ e ∈ t.entries, ∀ s ∈ e.1, IsFileName s

theorem HasFileNames.of_get? (h : t.HasFileNames) {e : FileEntry} (he : t.get? (l ++ names) = some e) :
    ∀ s ∈ names, IsFileName s := by
  intro s hs
  rw [get?, if_neg (by simp [List.ne_nil_of_mem hs])] at he
  exact h _ (mem_of_lookup he) s (List.mem_append_right l hs)

/-- What is below a folder, by the ways from it. -/
theorem mem_below : names ∈ t.below l ↔ names ≠ [] ∧ ∃ e, t.get? (l ++ names) = some e := by
  rw [below, List.mem_filterMap]
  constructor
  · rintro ⟨⟨k, e⟩, hmem, hsome⟩
    dsimp only at hsome
    split_ifs at hsome with hbelow
    rw [Bool.and_eq_true, List.isPrefixOf_iff_prefix, decide_eq_true_eq] at hbelow
    obtain ⟨⟨rest, rfl⟩, hlonger⟩ := hbelow
    rw [List.drop_left] at hsome
    obtain rfl := Option.some.inj hsome
    rw [List.length_append] at hlonger
    have hne : rest ≠ [] := fun he => by simp [he] at hlonger
    exact ⟨hne, e, by rw [get?, if_neg (by simp [hne])]; exact lookup_of_mem t.nodup hmem⟩
  · rintro ⟨hne, e, he⟩
    rw [get?, if_neg (by simp [hne])] at he
    refine ⟨_, mem_of_lookup he, ?_⟩
    have hlength := List.length_pos_of_ne_nil hne
    simp [List.isPrefixOf_iff_prefix, hlength]

/-- Nothing is below a folder twice. -/
theorem nodup_below (t : FileTree) (l : Location) : (t.below l).Nodup := by
  have hways : t.below l = (t.entries.map Prod.fst).filterMap fun k =>
      if l.isPrefixOf k && l.length < k.length then some (k.drop l.length) else none := by
    rw [List.filterMap_map]
    rfl
  rw [hways]
  refine t.nodup.filterMap fun k k' names hk hk' => ?_
  rw [Option.mem_def] at hk hk'
  split_ifs at hk hk' with hbelow hbelow'
  rw [Bool.and_eq_true, List.isPrefixOf_iff_prefix] at hbelow hbelow'
  obtain ⟨⟨rest, rfl⟩, -⟩ := hbelow
  obtain ⟨⟨rest', rfl⟩, -⟩ := hbelow'
  rw [List.drop_left, Option.some.injEq] at hk hk'
  rw [hk, hk']

end FileTree

end DocPages.Files

namespace DocPages.Command

open Files

/-! ## Source files of a folder -/

/-- The file `s`, which the folders `folders` lead to from the folder at `l`, is a source file. -/
structure IsSource (t : FileTree) (l folders : Location) (s : String) : Prop where
  file : ∃ content, t.get? (l ++ folders ++ [s]) = some (.file content)
  ending : ".cs".toList <:+ s.toList

/-- The units are the source files below the folder at `l`, each of them once, that no folder for build output is on
the way to. They are named after their ways. -/
structure CoversFolder (d : Disk) (l : Location) (units : List SourceUnit) : Prop where
  once : (units.map fun u => locationOf d.here u.path).Nodup
  files : ∀ k, (∃ u ∈ units, locationOf d.here u.path = k) ↔ ∃ folders s, k = l ++ folders ++ [s] ∧
    IsSource d.tree l folders s ∧ ∀ f ∈ folders, f ≠ "bin" ∧ f ≠ "obj"
  names : ∀ u ∈ units, ∀ folders s, locationOf d.here u.path = l ++ folders ++ [s] → IsFileName (stem s) →
    u.name = ".".intercalate (folders ++ [stem s])

section

variable {d : Disk} {q : Path} {l : Location}

/-- The paths that the pattern of a folder finds. -/
def sourcePaths (d : Disk) (q : Path) (l : Location) : List Path :=
  (((d.tree.below l).filter fun names => names.getLast?.any fun s => ".cs".toList.isSuffixOf s.toList).map
    (·.foldl Path.child q)).filter d.isFile

theorem expandInput_folder {input : String} (hplain : ∀ c ∈ input.toList, IsLiteral c)
    (hfolder : d.folder? ⟨input⟩ = some l)
    (hblank : (Files.Path.mk input).isAbsolute = false →
      ((Files.Path.mk input).steps.dropWhile (· = ".")).head? ≠ some "") :
    ∃ q, Stands d q l ∧ q.bare = (Files.Path.mk input).bare ∧
      expandInput d input = .ok ([], (sourcePaths d q l).filterMap (unitBelow? ⟨input⟩)) := by
  have hlocate := Disk.folder?_eq_some.1 hfolder
  obtain ⟨q, hq, hbare, hmatches⟩ := exists_stands hlocate hblank
  refine ⟨q, hq, hbare, ?_⟩
  have hfile : d.isFile ⟨input⟩ = false := by rw [Disk.isFile, hlocate]
  have hfound : filesMatching d (folderPattern input) = .ok (sourcePaths d q l) := by
    have hpattern := @ofPattern_folder ⟨input⟩ (Disk.locate_eq_ok.1 hlocate).1 hplain
    dsimp only at hpattern
    rw [filesMatching, hpattern, sourcePaths, ← matchesBelow_sources hq, ← hmatches]
    simp [Except.map, Glob.run]
  rw [expandInput, hfile, Disk.isFolder, hfolder, hfound]
  rfl

/-- A path that is found leads to a file exactly if there is one at its location. -/
theorem isFile_below (hq : Stands d q l) (hnames : d.tree.HasFileNames) {names : Location} {e : FileEntry}
    (he : d.tree.get? (l ++ names) = some e) :
    d.isFile (names.foldl Path.child q) = true ↔ ∃ content, e = .file content := by
  have hlocate := (locate_below hq (hnames.of_get? he) he).1
  rw [Disk.isFile, hlocate]
  cases e <;> simp

theorem mem_sourcePaths (hq : Stands d q l) (hnames : d.tree.HasFileNames) {p : Path} :
    p ∈ sourcePaths d q l ↔ ∃ folders s, IsSource d.tree l folders s ∧ p = (folders ++ [s]).foldl Path.child q := by
  simp only [sourcePaths, List.mem_filter, List.mem_map, FileTree.mem_below, Option.any_eq_true,
    List.isSuffixOf_iff_suffix]
  constructor
  · rintro ⟨⟨names, ⟨⟨-, e, he⟩, s, hlast, hending⟩, rfl⟩, hfile⟩
    obtain ⟨content, rfl⟩ := (isFile_below hq hnames he).1 hfile
    obtain ⟨folders, rfl⟩ : ∃ folders, names = folders ++ [s] := ⟨_, (List.dropLast_append_getLast? s hlast).symm⟩
    exact ⟨folders, s, ⟨⟨content, by rwa [List.append_assoc]⟩, hending⟩, rfl⟩
  · rintro ⟨folders, s, ⟨⟨content, hcontent⟩, hending⟩, rfl⟩
    rw [List.append_assoc] at hcontent
    refine ⟨⟨folders ++ [s], ⟨⟨by simp, _, hcontent⟩, s, List.getLast?_concat, hending⟩, rfl⟩, ?_⟩
    exact (isFile_below hq hnames hcontent).2 ⟨content, rfl⟩

/-- Where the path of a source file leads, and what it consists of. -/
theorem IsSource.locate (hq : Stands d q l) (hnames : d.tree.HasFileNames) {folders : Location} {s : String}
    (h : IsSource d.tree l folders s) :
    locationOf d.here ((folders ++ [s]).foldl Path.child q) = l ++ folders ++ [s] ∧
      ((folders ++ [s]).foldl Path.child q).components = q.bare ++ (folders ++ [s]).map .name := by
  obtain ⟨content, hcontent⟩ := h.file
  rw [List.append_assoc] at hcontent ⊢
  obtain ⟨hlocate, hbare, hfront⟩ := locate_below hq (hnames.of_get? hcontent) hcontent
  refine ⟨(Disk.location_of_locate hlocate).symm, ?_⟩
  rcases hfront with hdot | hfront
  · -- A dot has no name in it.
    rw [hdot] at hbare
    have hcomponents : (Files.Path.mk ".").components = [.here] := rfl
    exact absurd hbare.symm (by simp [Path.bare, hcomponents])
  · rw [← hbare, Path.bare_eq hfront]

/-- No two of the paths lead to one place. -/
theorem nodup_sourcePaths (hq : Stands d q l) (hnames : d.tree.HasFileNames) :
    ((sourcePaths d q l).map (locationOf d.here)).Nodup := by
  have hinjective : Function.Injective (l ++ · : Location → Location) := fun _ _ => List.append_cancel_left
  have hways := (d.tree.nodup_below l).map hinjective
  have hlocations : (d.tree.below l).map (l ++ ·) =
      ((d.tree.below l).map (·.foldl Path.child q)).map (locationOf d.here) := by
    rw [List.map_map]
    refine List.map_congr_left fun names hmem => ?_
    obtain ⟨-, e, he⟩ := FileTree.mem_below.1 hmem
    exact Disk.location_of_locate (locate_below hq (hnames.of_get? he) he).1
  rw [hlocations] at hways
  exact hways.sublist ((List.filter_sublist.trans (List.filter_sublist.map _)).map _)

/-! ## Units of a folder -/

/-- The units that the source files of a folder become, if each keeps its path. -/
theorem nodup_units (hq : Stands d q l) (hnames : d.tree.HasFileNames) {unit? : Path → Option SourceUnit}
    (hpath : ∀ p u, unit? p = some u → u.path = p) :
    (((sourcePaths d q l).filterMap unit?).map fun u => locationOf d.here u.path).Nodup := by
  have hsublist : (((sourcePaths d q l).filterMap unit?).map (·.path)).Sublist (sourcePaths d q l) := by
    induction sourcePaths d q l with
    | nil => exact .slnil
    | cons p ps ih =>
      rw [List.filterMap_cons]
      split
      · exact ih.cons p
      · next u hu =>
        rw [List.map_cons, hpath p u hu]
        exact ih.cons_cons p
  have hmap := (nodup_sourcePaths hq hnames).sublist (hsublist.map (locationOf d.here))
  rwa [List.map_map] at hmap

theorem isSkipped_names (folders : Location) (s : String) :
    isSkipped ((folders ++ [s]).map .name) = true ↔ ∃ f ∈ folders, f = "bin" ∨ f = "obj" := by
  simp [isSkipped, Component.name?, skippedFolders]

theorem dottedName_names (folders : Location) {s : String} (hs : IsFileName (stem s)) :
    dottedName ((folders ++ [s]).map .name) = ".".intercalate (folders ++ [stem s]) := by
  have hfolders : (folders.map Component.name).filterMap Component.name? = folders := by
    rw [List.filterMap_map]
    exact List.filterMap_some
  simp only [dottedName, List.map_append, List.map_cons, List.map_nil, List.getLast?_concat, List.dropLast_concat,
    hs.innerComponent, hfolders]
  rfl

theorem path_of_unitBelow {folder p : Path} {u : SourceUnit} (h : unitBelow? folder p = some u) : u.path = p := by
  simp only [unitBelow?] at h
  split_ifs at h
  · cases h
    rfl
  · cases h
    rfl

/-- A file below a folder whose path begins with the folder's own. -/
theorem unitBelow_of_append {folder p : Path} {cs : List Component} (h : p.components = folder.components ++ cs) :
    unitBelow? folder p = if isSkipped cs then none else some ⟨p, dottedName cs⟩ := by
  have hprefix : folder.components.isPrefixOf p.components = true := by
    rw [h, List.isPrefixOf_iff_prefix]
    exact List.prefix_append _ _
  rw [unitBelow?, if_pos hprefix, h, List.drop_left]

/-- A file below a folder whose path does not begin with the folder's own. -/
theorem unitBelow_by_itself {folder p : Path} (h : ¬ folder.components <+: p.components) :
    unitBelow? folder p = some (.ofFile p) := by
  rw [unitBelow?, if_neg fun hprefix => h (List.isPrefixOf_iff_prefix.1 hprefix)]

/-- Following the pattern of a path without a dot at the front, nothing is lost. -/
theorem head_steps_ne {p : Path} (hne : p.text ≠ "") (hrelative : p.isAbsolute = false)
    (hdot : .here ∉ p.components) : (p.steps.dropWhile (· = ".")).head? ≠ some "" := by
  obtain ⟨n, hsegments⟩ := p.segments_eq_steps
  rw [hrelative] at hsegments
  have hsteps : p.steps ≠ [] := by
    rw [Path.steps, hrelative]
    exact segmentsAt_ne_nil '/' _
  obtain ⟨s, ss, hs⟩ := List.exists_cons_of_ne_nil hsteps
  rw [hs] at hsegments ⊢
  have hhere : s ≠ "." := fun he => hdot (by
    rw [Path.components_eq, hrelative, hsegments, he]
    exact List.mem_cons_self)
  have hempty : s ≠ "" := fun he => by
    rw [he] at hsegments
    cases hchars : p.text.toList with
    | nil => exact hne (String.toList_eq_nil_iff.1 hchars)
    | cons c cs =>
      rw [hchars] at hsegments
      have hslash : c ≠ '/' := fun hc => by
        rw [(p.isAbsolute_iff).2 (by rw [hchars, hc]; rfl)] at hrelative
        cases hrelative
      exact Path.head_segments_ne hslash (congrArg List.head? hsegments)
  simpa [hhere] using hempty

/-- **A folder contributes its source files.** The input is spelled without wildcards and without a dot at the front;
it may be absolute or not, and have slashes at the end or dots inside. -/
theorem folder_sources {input : String} (hnames : d.tree.HasFileNames) (hfolder : d.folder? ⟨input⟩ = some l)
    (hplain : ∀ c ∈ input.toList, IsLiteral c) (hdot : .here ∉ (Files.Path.mk input).components) :
    ∃ units, expandInput d input = .ok ([], units) ∧ CoversFolder d l units := by
  have hne := (Disk.locate_eq_ok.1 (Disk.folder?_eq_some.1 hfolder)).1
  obtain ⟨q, hq, hbare, hunits⟩ := expandInput_folder hplain hfolder fun hrelative =>
    head_steps_ne hne hrelative hdot
  rw [Path.bare_eq hdot] at hbare
  refine ⟨_, hunits, ?_⟩
  -- What becomes of a file.
  have hunit : ∀ folders s, IsSource d.tree l folders s →
      unitBelow? ⟨input⟩ ((folders ++ [s]).foldl Path.child q) =
        if isSkipped ((folders ++ [s]).map .name) then none
        else some ⟨(folders ++ [s]).foldl Path.child q, dottedName ((folders ++ [s]).map .name)⟩ :=
    fun folders s hs => unitBelow_of_append (by rw [(hs.locate hq hnames).2, hbare])
  refine ⟨nodup_units hq hnames fun p u => path_of_unitBelow, fun k => ?_, fun u hu => ?_⟩
  · constructor
    · rintro ⟨u, hu, rfl⟩
      obtain ⟨p, hp, hpu⟩ := List.mem_filterMap.1 hu
      obtain ⟨folders, s, hs, rfl⟩ := (mem_sourcePaths hq hnames).1 hp
      rw [hunit folders s hs] at hpu
      split_ifs at hpu with hskipped
      rw [isSkipped_names] at hskipped
      obtain rfl := Option.some.inj hpu
      exact ⟨folders, s, (hs.locate hq hnames).1, hs, fun f hf =>
        ⟨fun he => hskipped ⟨f, hf, .inl he⟩, fun he => hskipped ⟨f, hf, .inr he⟩⟩⟩
    · rintro ⟨folders, s, rfl, hs, hkept⟩
      have hskipped : ¬ isSkipped ((folders ++ [s]).map .name) := by
        rw [isSkipped_names]
        rintro ⟨f, hf, he | he⟩
        · exact (hkept f hf).1 he
        · exact (hkept f hf).2 he
      refine ⟨⟨_, dottedName ((folders ++ [s]).map .name)⟩, List.mem_filterMap.2
        ⟨_, (mem_sourcePaths hq hnames).2 ⟨folders, s, hs, rfl⟩, ?_⟩, (hs.locate hq hnames).1⟩
      rw [hunit folders s hs, if_neg hskipped]
  · intro folders s hlocation hstem
    obtain ⟨p, hp, hpu⟩ := List.mem_filterMap.1 hu
    obtain ⟨folders', s', hs', rfl⟩ := (mem_sourcePaths hq hnames).1 hp
    rw [path_of_unitBelow hpu, (hs'.locate hq hnames).1, List.append_assoc, List.append_assoc,
      List.append_cancel_left_eq] at hlocation
    obtain ⟨rfl, hlast⟩ := List.append_inj' hlocation rfl
    obtain rfl := List.singleton_inj.1 hlast
    rw [hunit folders' s' hs'] at hpu
    split_ifs at hpu
    obtain rfl := Option.some.inj hpu
    exact dottedName_names folders' hstem

end

/-! ### A sample with build output -/

def buildTree : FileTree where
  entries := [(["d"], .folder), (["d", "App.cs"], .file "namespace N; class A {}".toUTF8), (["d", "obj"], .folder),
    (["d", "obj", "Gen.cs"], .file "namespace N; class G {}".toUTF8)]
  nodup := by decide
  closed := by decide

def buildDisk : Disk := ⟨buildTree, []⟩

theorem hasFileNames_build : buildDisk.tree.HasFileNames := by
  unfold FileTree.HasFileNames
  decide +kernel

theorem folder_sources_sample :
    ∃ units, expandInput buildDisk "d/" = .ok ([], units) ∧ CoversFolder buildDisk ["d"] units :=
  folder_sources hasFileNames_build (by decide +kernel) (by simp [IsLiteral]) (by decide +kernel)

/-- Not every spelling of a folder makes it contribute its source files only: with a dot at the front, build output
is among them. -/
theorem folder_sources_not_always :
    ¬ ∀ (d : Disk) (input : String) (l : Location), d.tree.HasFileNames → d.folder? ⟨input⟩ = some l →
      ∃ units, expandInput d input = .ok ([], units) ∧ CoversFolder d l units := by
  intro hall
  obtain ⟨units, hunits, hcovers⟩ := hall buildDisk "./d" ["d"] hasFileNames_build (by decide +kernel)
  have hfound : expandInput buildDisk "./d" =
      .ok ([], [⟨⟨"d/App.cs"⟩, "App"⟩, ⟨⟨"d/obj/Gen.cs"⟩, "Gen"⟩]) := by
    decide +kernel
  obtain rfl : units = _ := congrArg Prod.snd (Except.ok.inj (hunits.symm.trans hfound))
  obtain ⟨folders, s, hlocation, -, hkept⟩ :=
    (hcovers.files ["d", "obj", "Gen.cs"]).1 ⟨⟨⟨"d/obj/Gen.cs"⟩, "Gen"⟩, by simp, by decide +kernel⟩
  obtain ⟨rfl, -⟩ : folders = ["obj"] ∧ [s] = ["Gen.cs"] := by
    have hway : folders ++ [s] = ["obj"] ++ ["Gen.cs"] := by simpa using hlocation.symm
    exact List.append_inj' hway rfl
  exact (hkept "obj" (by simp)).2 rfl

/-! ## Folders behind a dot -/

/-- A folder that is spelled with a dot at the front contributes every source file below it, also those of build
output, and each under its own name. Spellings with an empty segment right behind the dot are left aside. -/
theorem folder_sources_of_dot {d : Disk} {l : Location} {input : String} (hnames : d.tree.HasFileNames)
    (hfolder : d.folder? ⟨input⟩ = some l) (hplain : ∀ c ∈ input.toList, IsLiteral c)
    (hdot : .here ∈ (Files.Path.mk input).components)
    (hblank : ((Files.Path.mk input).steps.dropWhile (· = ".")).head? ≠ some "") :
    ∃ units, expandInput d input = .ok ([], units) ∧ ∀ k name,
      (∃ u ∈ units, locationOf d.here u.path = k ∧ u.name = name) ↔
        ∃ folders s, k = l ++ folders ++ [s] ∧ IsSource d.tree l folders s ∧ name = stem s := by
  obtain ⟨q, hq, hbare, hunits⟩ := expandInput_folder hplain hfolder fun _ => hblank
  refine ⟨_, hunits, fun k name => ?_⟩
  have hunit : ∀ folders s, IsSource d.tree l folders s →
      unitBelow? ⟨input⟩ ((folders ++ [s]).foldl Path.child q) =
        some ⟨(folders ++ [s]).foldl Path.child q, stem s⟩ := fun folders s hs => by
    have hcomponents := (hs.locate hq hnames).2
    rw [unitBelow_by_itself, SourceUnit.ofFile, fileStem, hcomponents]
    · simp
    · intro hprefix
      have hhere := hprefix.subset hdot
      rw [hcomponents] at hhere
      simp [Path.bare] at hhere
  constructor
  · rintro ⟨u, hu, rfl, rfl⟩
    obtain ⟨p, hp, hpu⟩ := List.mem_filterMap.1 hu
    obtain ⟨folders, s, hs, rfl⟩ := (mem_sourcePaths hq hnames).1 hp
    rw [hunit folders s hs] at hpu
    obtain rfl := Option.some.inj hpu
    exact ⟨folders, s, (hs.locate hq hnames).1, hs, rfl⟩
  · rintro ⟨folders, s, rfl, hs, rfl⟩
    exact ⟨_, List.mem_filterMap.2 ⟨_, (mem_sourcePaths hq hnames).2 ⟨folders, s, hs, rfl⟩, hunit folders s hs⟩,
      (hs.locate hq hnames).1, rfl⟩

end DocPages.Command
