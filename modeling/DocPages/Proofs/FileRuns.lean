/-
Whole runs over files. No page is lost to a name that another unit has, because
names are told apart before anything is written; and units have no part in each
other's pages, because a page follows from the content of one file and goes to
one place. A unit without a page is counted, and leaves nothing else behind.
-/
import DocPages.Proofs.UnitTurns

namespace DocPages.Command

open Files

/-! ## Runs over files -/

/-- The policy that the options ask for. -/
def policyOf (o : Options) : Policy :=
  if o.strict then .abort else .isolate

/-- The arguments of the environment ask for pages of files in a known format. The folder for pages, if they are
not printed, has been created, which makes the disk `d` of the one at the start. -/
structure FileRun (env : Environment) (o : Options) (renderer : Renderer) (d : Disk) (folder? : Option Path) :
    Prop where
  arguments : Invocation.ofArguments env.arguments = .run o
  inputs : o.inputs ≠ []
  format : rendererFor o.format = .ok renderer
  prepared : prepareFolder o (.ofDisk env.disk) = .ok (.ofDisk d, folder?)

/-- The session in which the first unit has its turn. -/
def firstTurn (d : Disk) (inputs : List String) : Session :=
  (Session.ofDisk d).note (expandInputs d inputs).notes

@[simp] theorem disk_firstTurn (d : Disk) (inputs : List String) : (firstTurn d inputs).disk = d := rfl

/-- The settings of a run over files. -/
abbrev settingsOf (renderer : Renderer) (o : Options) (folder? : Option Path) : Settings :=
  ⟨renderer, policyOf o, folder?⟩

/-- All units of a run in turn. -/
def allTurns (renderer : Renderer) (o : Options) (folder? : Option Path) (units : List SourceUnit) (d : Disk) :
    Session × Except Failure Nat :=
  runUnits (settingsOf renderer o folder?) units.length 1 units (firstTurn d o.inputs)

namespace FileRun

variable {env : Environment} {o : Options} {renderer : Renderer} {d : Disk} {folder? : Option Path}

theorem prepared_cases (h : FileRun env o renderer d folder?) :
    (folder? = none ∧ d = env.disk) ∨ (∃ folder, folder? = some folder ∧ env.disk.createFolders folder = .ok d) := by
  have hprepared := h.prepared
  rw [prepareFolder] at hprepared
  split_ifs at hprepared
  · injection hprepared with heq
    injection heq with hsession hfolder
    injection hsession with hdisk
    exact .inl ⟨hfolder.symm, hdisk.symm⟩
  · split at hprepared
    · cases hprepared
    · next folder _ =>
      split at hprepared
      · next disk hcreate =>
        injection hprepared with heq
        injection heq with hsession hfolder
        injection hsession with hdisk
        exact .inr ⟨⟨folder⟩, hfolder.symm, hdisk ▸ hcreate⟩
      · cases hprepared

/-- Preparing a run changes no file. -/
theorem sameFiles (h : FileRun env o renderer d folder?) : Disk.SameFiles env.disk d := by
  rcases h.prepared_cases with ⟨-, rfl⟩ | ⟨folder, -, hcreate⟩
  · exact .refl _
  · exact Disk.createFolders_files hcreate

theorem run_of_error (h : FileRun env o renderer d folder?) {f : Failure}
    (hunits : (expandInputs d o.inputs).units = .error f) :
    run env = (firstTurn d o.inputs).outcome (thresholdFor o env.level?) (some f) := by
  have hinputs : o.inputs.isEmpty = false := by simpa using h.inputs
  rw [run, h.arguments]
  simp only [runOptions, h.format, hinputs, Bool.false_eq_true, if_false, runFiles, h.prepared]
  rw [show (Session.ofDisk d).disk = d from rfl, hunits]
  rfl

theorem run_of_turns (h : FileRun env o renderer d folder?) {units : List SourceUnit} {failed : Nat}
    (hunits : (expandInputs d o.inputs).units = .ok units)
    (hturns : (allTurns renderer o folder? units d).2 = .ok failed) :
    run env = (allTurns renderer o folder? units d).1.outcome (thresholdFor o env.level?)
      (failureOfCount failed units.length) := by
  have hinputs : o.inputs.isEmpty = false := by simpa using h.inputs
  rw [run, h.arguments]
  simp only [runOptions, h.format, hinputs, Bool.false_eq_true, if_false, runFiles, h.prepared]
  rw [show (Session.ofDisk d).disk = d from rfl, hunits]
  have hall : runUnits ⟨renderer, if o.strict then .abort else .isolate, folder?⟩ units.length 1 units
      ((Session.ofDisk d).note (expandInputs d o.inputs).notes) =
        ((allTurns renderer o folder? units d).1, .ok failed) := Prod.ext rfl hturns
  simp only [hall]

end FileRun

/-! ## Places of pages -/

theorem isFileName_page {format name : String} {renderer : Renderer} (hformat : rendererFor format = .ok renderer)
    (hname : '/' ∉ name.toList) : IsFileName (name ++ "." ++ renderer.extension) := by
  have hextension : renderer.extension = "md" ∨ renderer.extension = "html" := by
    unfold rendererFor at hformat
    split at hformat
    · exact .inl (Except.ok.inj hformat ▸ rfl)
    · exact .inl (Except.ok.inj hformat ▸ rfl)
    · exact .inr (Except.ok.inj hformat ▸ rfl)
    · cases hformat
  have hchars : (name ++ "." ++ renderer.extension).toList = name.toList ++ '.' :: renderer.extension.toList := by
    simp [String.toList_append]
  have hlong : 3 ≤ (name ++ "." ++ renderer.extension).toList.length := by
    rcases hextension with he | he <;> simp [he]
  refine ⟨?_, ?_, ?_, ?_⟩
  · intro h
    simp [h] at hlong
  · intro h
    simp [h] at hlong
  · intro h
    simp [h] at hlong
  · rw [hchars]
    rcases hextension with he | he <;> simp [he, hname]

section

variable {env : Environment} {o : Options} {renderer : Renderer} {d : Disk} {folder? : Option Path}
variable {units : List SourceUnit}

/-- Pages with different names go to different places. -/
theorem FileRun.nodup_pageLocation (h : FileRun env o renderer d folder?)
    (hunits : (expandInputs d o.inputs).units = .ok units) (folder : Path) :
    (units.map (pageLocation (settingsOf renderer o folder?) folder d.here)).Nodup := by
  obtain ⟨found, -, -, hnames⟩ := expandInputs_ok hunits
  have hplain := onDisk_of_expandInputs hunits
  have hlocation : ∀ u ∈ units, pageLocation (settingsOf renderer o folder?) folder d.here u =
      locationOf d.here folder ++ [u.name ++ "." ++ renderer.extension] := fun u hu =>
    Disk.location_join d.here folder (isFileName_page h.format (hplain u hu).plain)
  rw [List.map_congr_left hlocation]
  have hinjective : Function.Injective fun name =>
      locationOf d.here folder ++ [name ++ "." ++ renderer.extension] := fun name name' he => by
    simpa [← String.toList_inj, String.toList_append] using he
  have hmap := hnames.map hinjective
  rwa [List.map_map] at hmap

/-- Two page paths of a run lead to one place only if the units are the same, so a page is there in the end as it
was when its unit had its turn. -/
theorem FileRun.page_kept (h : FileRun env o renderer d folder?) {folder : Path} {failed : Nat}
    (hunits : (expandInputs d o.inputs).units = .ok units) (hfolder : folder? = some folder)
    (hturns : (allTurns renderer o folder? units d).2 = .ok failed) {before after : List SourceUnit}
    {u : SourceUnit} {page : String} (hsplit : units = before ++ u :: after)
    (hpage : pageIn? renderer (policyOf o) (runUnits (settingsOf renderer o folder?) units.length 1 before
      (firstTurn d o.inputs)).1.disk u = some page) :
    (run env).disk.tree.get? (pageLocation (settingsOf renderer o folder?) folder d.here u) =
      some (.file page.toUTF8) := by
  have hdistinct := h.nodup_pageLocation hunits folder
  have hdisk : (run env).disk = (allTurns renderer o folder? units d).1.disk := by
    rw [h.run_of_turns hunits hturns]
    rfl
  subst hsplit
  have hsettings : (settingsOf renderer o folder?).folder? = some folder := hfolder
  obtain ⟨⟨failed₁, hbefore⟩, index, failed₂, hafter⟩ := runUnits_append hturns
  obtain ⟨_, hturnsBefore, -⟩ := turns_of_runUnits hbefore
  obtain ⟨pages, hturnsAfter, -⟩ := turns_of_runUnits (congrArg Prod.snd hafter)
  have hhere := (hturnsBefore.unchanged hsettings).2.1.here
  rw [List.map_append, List.nodup_append] at hdistinct
  have hkept := hturnsAfter.kept hsettings (by rw [hhere]; exact hdistinct.2.1)
  rw [hhere, congrArg Prod.fst hafter] at hkept
  rw [hdisk]
  refine hkept u page ?_
  cases hturnsAfter with
  | skipped _ unmade =>
    rw [hpage] at unmade
    cases unmade
  | delivered _ _ made =>
    rw [hpage] at made
    cases made
    exact List.mem_cons_self

/-- **No page is lost to a name that another unit has.** The units that the inputs come to have paths that strictly
increase, among them every path that was found, and names no two of which are equal: their own, if no other unit has
it, or else their whole paths. If such names clash, that is an error, and nothing is written. If pages are written,
and none fails to be, then a page is there in the end as it was made when its unit had its turn; that holds even if it
goes to the file of a unit. -/
theorem pages_not_lost (d : Disk) (inputs : List String) :
    (∀ units, (expandInputs d inputs).units = .ok units →
      (units.Pairwise fun u v => u.path.key < v.path.key) ∧ (units.map (·.name)).Nodup ∧
      ∃ found, (expandAll d inputs).units = .ok found ∧
        List.Forall₂ (IsNamedAmong (arrange found)) (arrange found) units ∧
        ∀ u ∈ found, ∃ v ∈ units, v.path.components = u.path.components) ∧
    (∀ found named, (expandAll d inputs).units = .ok found →
      List.Forall₂ (IsNamedAmong (arrange found)) (arrange found) named → ¬ (named.map (·.name)).Nodup →
      ∃ name, (expandInputs d inputs).units =
        .error ⟨"more than one input maps to the page name " ++ name, none⟩) ∧
    ∀ env o renderer folder?, FileRun env o renderer d folder? → o.inputs = inputs →
      (∀ f, (expandInputs d inputs).units = .error f →
        (run env).output = "" ∧ Disk.SameFiles env.disk (run env).disk) ∧
      ∀ units folder failed, (expandInputs d inputs).units = .ok units → folder? = some folder →
        (allTurns renderer o folder? units d).2 = .ok failed →
        (units.map (pageLocation (settingsOf renderer o folder?) folder d.here)).Nodup ∧
        ∀ before u after page, units = before ++ u :: after →
          pageIn? renderer (policyOf o) (runUnits (settingsOf renderer o folder?) units.length 1 before
            (firstTurn d inputs)).1.disk u = some page →
          (run env).disk.tree.get? (pageLocation (settingsOf renderer o folder?) folder d.here u) =
            some (.file page.toUTF8) := by
  refine ⟨fun units hunits => ?_, fun found named hfound hnamed hclash => ?_, ?_⟩
  · obtain ⟨found, hfound, rfl, hnames⟩ := expandInputs_ok hunits
    refine ⟨qualify_increasing (arrange_increasing found), hnames, found, hfound,
      isNamedAmong_qualify (nodup_arrange found), fun u hu => ?_⟩
    obtain ⟨v, hv, hcomponents⟩ := exists_mem_arrange hu
    obtain ⟨w, hw, hpath⟩ := exists_mem_qualify hv
    exact ⟨w, hw, hpath ▸ hcomponents⟩
  · rw [eq_qualify (nodup_arrange found) hnamed] at hclash
    exact expandInputs_clash hfound hclash
  · rintro env o renderer folder? h rfl
    refine ⟨fun f hf => ?_, fun units folder failed hunits hfolder hturns => ?_⟩
    · rw [h.run_of_error hf]
      exact ⟨rfl, h.sameFiles⟩
    · exact ⟨h.nodup_pageLocation hunits folder, fun before u after page hsplit hpage =>
        h.page_kept hunits hfolder hturns hsplit hpage⟩

end

/-! ### A sample

Two files of one name, one that is no text, one that may not be read and one without a namespace. A further file has
the name that one of the first two is given. -/

def sampleTree : FileTree where
  entries := [(["G.cs"], .file ⟨#[0xFF]⟩), (["L.cs"], .file "namespace N; class L { }".toUTF8), (["a"], .folder),
    (["a", "F.cs"], .file "namespace N; class A { }".toUTF8), (["b"], .folder),
    (["b", "F.cs"], .file "namespace N; class B { }".toUTF8), (["b", "H.cs"], .file "class H { }".toUTF8),
    (["a.F.cs"], .file .empty)]
  barred := [(.reading, ["L.cs"])]
  nodup := by decide
  closed := by decide
  files := by decide

def sampleDisk : Disk := ⟨sampleTree, []⟩

/-- The sample with the folder for its pages. -/
def preparedDisk : Disk := ⟨sampleTree.addFolder [] "out", []⟩

def sampleInputs : List String := ["G.cs", "L.cs", "a/F.cs", "b/F.cs", "b/H.cs"]

def sampleEnvironment (options : List String) : Environment := ⟨options ++ sampleInputs, sampleDisk, .empty, none⟩

def writingOptions : Options := ⟨some "out", none, false, false, false, sampleInputs⟩

def sampleUnits : List SourceUnit :=
  [⟨⟨"G.cs"⟩, "G"⟩, ⟨⟨"L.cs"⟩, "L"⟩, ⟨⟨"a/F.cs"⟩, "a.F"⟩, ⟨⟨"b/F.cs"⟩, "b.F"⟩, ⟨⟨"b/H.cs"⟩, "H"⟩]

def samplePage (name : String) : String :=
  "**Namespace:** N\n\n# class \x60" ++ name ++ "\x60\n\x60\x60\x60csharp\nclass " ++ name ++ "\n\x60\x60\x60\n\n"

theorem fileRun_writing : FileRun (sampleEnvironment ["-o", "out"]) writingOptions Markdown.renderer preparedDisk
    (some ⟨"out"⟩) :=
  ⟨by decide +kernel, by decide, rfl, rfl⟩

theorem expandInputs_sample :
    ∀ d ∈ [sampleDisk, preparedDisk], (expandInputs d sampleInputs).units = .ok sampleUnits := by
  have hfound : ∀ d ∈ [sampleDisk, preparedDisk], (expandAll d sampleInputs).units =
      .ok [⟨⟨"G.cs"⟩, "G"⟩, ⟨⟨"L.cs"⟩, "L"⟩, ⟨⟨"a/F.cs"⟩, "F"⟩, ⟨⟨"b/F.cs"⟩, "F"⟩, ⟨⟨"b/H.cs"⟩, "H"⟩] := by
    decide +kernel
  intro d hd
  rw [expandInputs_of_found (hfound d hd), arrange_of_increasing (by decide +kernel)]
  decide +kernel

theorem allTurns_writing :
    (allTurns Markdown.renderer writingOptions (some ⟨"out"⟩) sampleUnits preparedDisk).2 = .ok 3 := by
  decide +kernel

theorem pages_not_lost_sample :
    (sampleUnits.map (·.name)).Nodup ∧
    (∃ name, (expandInputs sampleDisk ["a/F.cs", "a.F.cs", "b/F.cs"]).units =
      .error ⟨"more than one input maps to the page name " ++ name, none⟩) ∧
    (run (sampleEnvironment ["-o", "out"])).disk.tree.get? ["out", "a.F.md"] =
      some (.file (samplePage "A").toUTF8) := by
  have hunits := expandInputs_sample preparedDisk (by simp)
  refine ⟨((pages_not_lost preparedDisk sampleInputs).1 sampleUnits hunits).2.1, ?_, ?_⟩
  · have hfound : (expandAll sampleDisk ["a/F.cs", "a.F.cs", "b/F.cs"]).units =
        .ok [⟨⟨"a/F.cs"⟩, "F"⟩, ⟨⟨"a.F.cs"⟩, "a.F"⟩, ⟨⟨"b/F.cs"⟩, "F"⟩] := by
      decide +kernel
    refine (pages_not_lost sampleDisk _).2.1 _ _ hfound (isNamedAmong_qualify (nodup_arrange _)) ?_
    rw [arrange_of_increasing (by decide +kernel)]
    decide +kernel
  · have hpages := ((pages_not_lost preparedDisk sampleInputs).2.2 _ _ _ _ fileRun_writing rfl).2 sampleUnits ⟨"out"⟩ 3
      hunits rfl allTurns_writing
    exact hpages.2 (sampleUnits.take 2) ⟨⟨"a/F.cs"⟩, "a.F"⟩ (sampleUnits.drop 3) (samplePage "A") rfl
      (by decide +kernel)

/-! ## Units by themselves -/

section

variable {env : Environment} {o : Options} {renderer : Renderer} {d : Disk} {folder? : Option Path}
variable {units : List SourceUnit}

/-- The page of a unit is that of what its file holds at the start, if that may be read. -/
theorem FileRun.pageIn_eq (h : FileRun env o renderer d folder?) (hunits : (expandInputs d o.inputs).units = .ok units)
    {u : SourceUnit} (hu : u ∈ units) :
    ∃ content, env.disk.tree.get? (locationOf env.disk.here u.path) = some (.file content) ∧
      pageIn? renderer (policyOf o) d u =
        if env.disk.tree.allows .reading (locationOf env.disk.here u.path) then
          pageOfContent? renderer (policyOf o) content
        else none := by
  obtain ⟨l, content, hlocate⟩ := Disk.isFile_iff.1 (onDisk_of_expandInputs hunits u hu).file
  have hl : l = locationOf env.disk.here u.path := h.sameFiles.here ▸ Disk.location_of_locate hlocate
  rw [← hl]
  refine ⟨content, (h.sameFiles.files l content).1 (Disk.locate_eq_ok.1 hlocate).2.2, ?_⟩
  rw [pageIn?_of_locate hlocate, FileTree.allows, FileTree.allows, h.sameFiles.barred]

/-- The units of a run have the pages of their files on the disk at the start of it. -/
theorem turns_of_apart {failed : Nat} (hunits : (expandInputs d o.inputs).units = .ok units)
    (hturns : (allTurns renderer o folder? units d).2 = .ok failed)
    (hapart : ∀ folder, folder? = some folder → ∀ u ∈ units, ∀ v ∈ units,
      pageLocation (settingsOf renderer o folder?) folder d.here u ≠ locationOf d.here v.path) :
    Turns (settingsOf renderer o folder?) (firstTurn d o.inputs) units
      (units.map (pageIn? renderer (policyOf o) d)) (allTurns renderer o folder? units d).1 ∧
      failed = units.countP fun u => (pageIn? renderer (policyOf o) d u).isNone := by
  obtain ⟨pages, hall, rfl⟩ := turns_of_runUnits hturns
  have hpages : pages = units.map (pageIn? renderer (policyOf o) d) := by
    cases hfolder : folder? with
    | none =>
      have hprinted := (hall.printed hfolder).2.2
      rwa [disk_firstTurn] at hprinted
    | some folder =>
      have hwritten := hall.pages_eq hfolder
      rw [disk_firstTurn] at hwritten
      exact hwritten (fun v hv => (onDisk_of_expandInputs hunits v hv).file) (hapart folder hfolder)
  subst hpages
  refine ⟨hall, ?_⟩
  rw [List.count, List.countP_map]
  exact List.countP_congr fun u _ => by simp

/-- The files at the end of turns in which every unit has the page of its file at the start: the pages, and
elsewhere what was there. -/
theorem FileRun.files_of_turns (h : FileRun env o renderer d folder?)
    (hunits : (expandInputs d o.inputs).units = .ok units) {folder : Path} (hfolder : folder? = some folder)
    {s : Session} (hall : Turns (settingsOf renderer o folder?) (firstTurn d o.inputs) units
      (units.map (pageIn? renderer (policyOf o) d)) s) (l : Location) (content : ByteArray) :
    s.disk.tree.get? l = some (.file content) ↔
      (∃ u ∈ units, ∃ page, pageIn? renderer (policyOf o) d u = some page ∧
        l = pageLocation (settingsOf renderer o folder?) folder d.here u ∧ content = page.toUTF8) ∨
      ((∀ u ∈ units, (pageIn? renderer (policyOf o) d u).isSome →
        l ≠ pageLocation (settingsOf renderer o folder?) folder d.here u) ∧
        env.disk.tree.get? l = some (.file content)) := by
  have hzip : ∀ u page, (u, some page) ∈ units.zip (units.map (pageIn? renderer (policyOf o) d)) ↔
      u ∈ units ∧ pageIn? renderer (policyOf o) d u = some page := fun u page => by
    rw [← List.map_prod_left_eq_zip]
    simp
  have hkept : ∀ u ∈ units, ∀ page, pageIn? renderer (policyOf o) d u = some page →
      s.disk.tree.get? (pageLocation (settingsOf renderer o folder?) folder d.here u) =
        some (.file page.toUTF8) := fun u hu page hpage => by
    have hkept := hall.kept hfolder
    rw [disk_firstTurn] at hkept
    exact hkept (h.nodup_pageLocation hunits folder) u page ((hzip u page).2 ⟨hu, hpage⟩)
  by_cases hpage : ∃ u ∈ units, ∃ page, pageIn? renderer (policyOf o) d u = some page ∧
      l = pageLocation (settingsOf renderer o folder?) folder d.here u
  · obtain ⟨u, hu, page, hsome, rfl⟩ := hpage
    have hother : ¬ ∀ v ∈ units, (pageIn? renderer (policyOf o) d v).isSome →
        pageLocation (settingsOf renderer o folder?) folder d.here u ≠
          pageLocation (settingsOf renderer o folder?) folder d.here v := fun hne =>
      hne u hu (by rw [hsome]; rfl) rfl
    constructor
    · intro hfile
      rw [hkept u hu page hsome] at hfile
      injection hfile with hfile
      injection hfile with hfile
      exact .inl ⟨u, hu, page, hsome, rfl, hfile.symm⟩
    · rintro (⟨v, hv, page', hsome', hl, rfl⟩ | ⟨hne, -⟩)
      · rw [hl]
        exact hkept v hv page' hsome'
      · exact absurd hne hother
  · have hne : ∀ u ∈ units, (pageIn? renderer (policyOf o) d u).isSome →
        l ≠ pageLocation (settingsOf renderer o folder?) folder d.here u := fun u hu hsome hl =>
      hpage ⟨u, hu, _, (Option.some_get hsome).symm, hl⟩
    have hframe := (hall.unchanged hfolder).2.2 l
    rw [disk_firstTurn] at hframe
    rw [hframe fun u page hu => hne u ((hzip u page).1 hu).1 (by rw [((hzip u page).1 hu).2]; rfl),
      h.sameFiles.files]
    constructor
    · exact fun hfile => .inr ⟨hne, hfile⟩
    · rintro (⟨u, hu, page, hsome, hl, -⟩ | ⟨-, hfile⟩)
      · exact absurd ⟨u, hu, page, hsome, hl⟩ hpage
      · exact hfile

theorem status_outcome (s : Session) (threshold : Threshold) (failed total : Nat) :
    (s.outcome threshold (failureOfCount failed total)).status = 0 ↔ failed = 0 := by
  rw [failureOfCount]
  split_ifs with hzero <;> simp [Session.outcome, hzero]

/-- The line of the error output that counts the units without pages. -/
def countLine (failed total : Nat) : String :=
  s!"Error: {failed} of {total} source files could not be documented"

theorem errors_outcome {s : Session} {threshold : Threshold} {failed total : Nat} (h : failed ≠ 0) :
    (s.outcome threshold (failureOfCount failed total)).errors.getLast? = some (countLine failed total) := by
  rw [failureOfCount, if_neg h]
  simp [Session.outcome, Failure.lines, countLine, String.append_assoc, toString]

/-- **Units are independent, and failures are contained.** A unit has the page that its file's content makes, or none
if the file may not be read, be the other units what they may, and units without one leave nothing behind but their
number. The pages are all that is printed, in the order of the units, or else the only files that are not as they
were. -/
theorem units_independent (h : FileRun env o renderer d folder?)
    (hunits : (expandInputs d o.inputs).units = .ok units)
    (hwritten : ∃ failed, (allTurns renderer o folder? units d).2 = .ok failed)
    (hapart : ∀ folder, folder? = some folder → ∀ u ∈ units, ∀ v ∈ units,
      pageLocation (settingsOf renderer o folder?) folder d.here u ≠ locationOf d.here v.path) :
    (∀ u ∈ units, ∃ content, env.disk.tree.get? (locationOf env.disk.here u.path) = some (.file content) ∧
      pageIn? renderer (policyOf o) d u =
        if env.disk.tree.allows .reading (locationOf env.disk.here u.path) then
          pageOfContent? renderer (policyOf o) content
        else none) ∧
    (folder? = none →
      (run env).output = String.join (units.filterMap (pageIn? renderer (policyOf o) d)) ∧
      (run env).disk = env.disk) ∧
    (∀ folder, folder? = some folder →
      (run env).output = "" ∧ (run env).disk.tree.barred = env.disk.tree.barred ∧
        ∀ l content, (run env).disk.tree.get? l = some (.file content) ↔
        (∃ u ∈ units, ∃ page, pageIn? renderer (policyOf o) d u = some page ∧
          l = pageLocation (settingsOf renderer o folder?) folder d.here u ∧ content = page.toUTF8) ∨
        ((∀ u ∈ units, (pageIn? renderer (policyOf o) d u).isSome →
          l ≠ pageLocation (settingsOf renderer o folder?) folder d.here u) ∧
          env.disk.tree.get? l = some (.file content))) ∧
    ((run env).status = 0 ↔ ∀ u ∈ units, (pageIn? renderer (policyOf o) d u).isSome) ∧
    ((run env).status ≠ 0 → (run env).errors.getLast? =
      some (countLine (units.countP fun u => (pageIn? renderer (policyOf o) d u).isNone) units.length)) := by
  obtain ⟨failed, hturns⟩ := hwritten
  obtain ⟨hall, hfailed⟩ := turns_of_apart hunits hturns hapart
  have hnone : failed = 0 ↔ ∀ u ∈ units, (pageIn? renderer (policyOf o) d u).isSome := by
    rw [hfailed, List.countP_eq_zero]
    simp [Option.isSome_iff_ne_none]
  rw [h.run_of_turns hunits hturns]
  refine ⟨fun u hu => h.pageIn_eq hunits hu, fun hprint => ?_, fun folder hfolder => ?_, ?_, ?_⟩
  · obtain ⟨hdisk, houtput, -⟩ := hall.printed hprint
    obtain ⟨-, rfl⟩ | ⟨folder, hfolder, -⟩ := h.prepared_cases
    · refine ⟨houtput.trans ?_, hdisk⟩
      rw [List.filterMap_map]
      exact String.empty_append
    · rw [hprint] at hfolder
      cases hfolder
  · obtain ⟨houtput, hfolders, -⟩ := hall.unchanged hfolder
    exact ⟨houtput, hfolders.barred.trans h.sameFiles.barred, h.files_of_turns hunits hfolder hall⟩
  · rw [← hnone]
    exact status_outcome _ _ failed units.length
  · intro hstatus
    rw [← hfailed]
    exact errors_outcome fun hzero => hstatus ((status_outcome _ _ failed units.length).2 hzero)

end

def printingOptions : Options := ⟨none, none, true, false, false, sampleInputs⟩

theorem fileRun_printing :
    FileRun (sampleEnvironment ["--print"]) printingOptions Markdown.renderer sampleDisk none :=
  ⟨by decide +kernel, by decide, rfl, rfl⟩

/-- The theorem at the sample. The file that may not be read would have a page, and has none. -/
theorem units_independent_sample :
    ((run (sampleEnvironment ["-o", "out"])).status ≠ 0 ∧
      (run (sampleEnvironment ["-o", "out"])).disk.tree.get? ["out", "b.F.md"] =
        some (.file (samplePage "B").toUTF8) ∧
      pageOfContent? Markdown.renderer .isolate "namespace N; class L { }".toUTF8 = some (samplePage "L") ∧
      (∀ content, (run (sampleEnvironment ["-o", "out"])).disk.tree.get? ["out", "L.md"] ≠ some (.file content)) ∧
      (run (sampleEnvironment ["-o", "out"])).errors.getLast? =
        some "Error: 3 of 5 source files could not be documented") ∧
    (run (sampleEnvironment ["--print"])).output = samplePage "A" ++ samplePage "B" := by
  constructor
  · have hpages : ∀ u ∈ sampleUnits, (pageLocation (settingsOf Markdown.renderer writingOptions (some ⟨"out"⟩))
        ⟨"out"⟩ [] u).head? = some "out" := by
      decide +kernel
    have hunits : ∀ v ∈ sampleUnits, (locationOf [] v.path).head? ≠ some "out" := by decide +kernel
    obtain ⟨-, -, hfiles, hstatus, herrors⟩ := units_independent fileRun_writing
      (expandInputs_sample preparedDisk (by simp)) ⟨3, allTurns_writing⟩ (by
        rintro folder ⟨⟩ u hu v hv he
        exact hunits v hv (he ▸ hpages u hu))
    have hfailed : (run (sampleEnvironment ["-o", "out"])).status ≠ 0 := fun hzero => by
      have hsome := hstatus.1 hzero ⟨⟨"G.cs"⟩, "G"⟩ (by decide)
      revert hsome
      decide +kernel
    have hpage : pageIn? Markdown.renderer .isolate preparedDisk ⟨⟨"b/F.cs"⟩, "b.F"⟩ = some (samplePage "B") := by
      decide +kernel
    have hthere := ((hfiles ⟨"out"⟩ rfl).2.2 ["out", "b.F.md"] (samplePage "B").toUTF8).2
      (.inl ⟨_, by decide, samplePage "B", hpage, by decide +kernel, rfl⟩)
    have hothers : ∀ u ∈ sampleUnits, (pageIn? Markdown.renderer .isolate preparedDisk u).isSome →
        ["out", "L.md"] ≠ pageLocation (settingsOf Markdown.renderer writingOptions (some ⟨"out"⟩)) ⟨"out"⟩ [] u := by
      decide +kernel
    have hunread : ∀ content,
        (run (sampleEnvironment ["-o", "out"])).disk.tree.get? ["out", "L.md"] ≠ some (.file content) := by
      intro content hfile
      rcases ((hfiles ⟨"out"⟩ rfl).2.2 _ content).1 hfile with ⟨u, hu, page, hpage, hlocation, -⟩ | ⟨-, hbefore⟩
      · exact hothers u hu (hpage ▸ rfl) hlocation
      · cases hbefore
    have hcount : (sampleUnits.countP fun u => (pageIn? Markdown.renderer .isolate preparedDisk u).isNone) = 3 := by
      decide +kernel
    have herror := herrors hfailed
    rw [show policyOf writingOptions = .isolate from rfl, hcount] at herror
    exact ⟨hfailed, hthere, by decide +kernel, hunread, herror⟩
  · obtain ⟨-, hprinted, -⟩ := units_independent fileRun_printing
      (expandInputs_sample sampleDisk (by simp)) ⟨3, by decide +kernel⟩ (by rintro folder ⟨⟩)
    rw [(hprinted rfl).1]
    decide +kernel

end DocPages.Command
