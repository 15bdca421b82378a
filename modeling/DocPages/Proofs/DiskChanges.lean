/-
What changes on a disk and what stays. Creating folders leaves every file as it
was (`SameFiles`); writing a file leaves every folder as it was (`SameFolders`)
and puts the content at the one location that the path leads to. Neither has a
part in what may be read and written. So a path that leads elsewhere is read as
before, or as little as before.
-/
import Mathlib.Data.List.TakeWhile
import DocPages.Command.Reach
import DocPages.Proofs.PathParts

namespace DocPages.Files

open Command (locationOf)

/-! ## Entries of a tree -/

namespace FileTree

variable {t : FileTree}

theorem isFolder_iff {l : Location} : t.isFolder l = true ↔ t.get? l = some .folder :=
  decide_eq_true_iff

theorem isFolder_eq_false {l : Location} : t.isFolder l = false ↔ t.get? l ≠ some .folder :=
  decide_eq_false_iff_not

/-- Every entry lies in a folder. -/
theorem get?_dropLast {l : Location} {e : FileEntry} (h : t.get? l = some e) :
    t.get? l.dropLast = some .folder := by
  by_cases hl : l = []
  · rw [hl]
    rfl
  · rw [get?, if_neg hl] at h
    rw [get?]
    split_ifs with hdrop
    · rfl
    · exact lookup_of_mem t.nodup ((t.closed _ (mem_of_lookup h)).2 hdrop)

theorem get?_insert {parent : Location} {name : String} {e : FileEntry} (hp : t.isFolder parent)
    (hn : t.get? (parent ++ [name]) = none) (l : Location) :
    (t.insert parent name e hp hn).get? l = if l = parent ++ [name] then some e else t.get? l := by
  by_cases hl : l = parent ++ [name]
  · subst hl
    rw [get?, if_neg (by simp)] at hn
    rw [get?, if_neg (by simp), if_pos rfl, insert, List.lookup_append, hn]
    simp
  · have hne : (l == parent ++ [name]) = false := beq_false_of_ne hl
    rw [if_neg hl, get?, get?, insert, List.lookup_append, List.lookup_cons, hne]
    simp

theorem get?_replace {k : Location} {content : ByteArray} (hk : t.isFolder k = false)
    (hthere : t.get? k ≠ none) (l : Location) :
    (t.replace k content hk).get? l = if l = k then some (.file content) else t.get? l := by
  have hroot : k ≠ [] := fun h => isFolder_eq_false.1 hk (by rw [h]; rfl)
  have hlookup : ∀ es : List (Location × FileEntry),
      (es.map fun e => if e.1 = k then (k, FileEntry.file content) else e).lookup l =
        if l = k then (es.lookup l).map fun _ => .file content else es.lookup l := fun es => by
    induction es with
    | nil => simp
    | cons e es ih =>
      rw [List.map_cons, List.lookup_cons, List.lookup_cons, ih]
      by_cases he : e.1 = k <;> by_cases hl : l = e.1 <;> grind
  rw [get?, if_neg hroot] at hthere
  rw [get?, replace, hlookup, get?]
  split_ifs with hl hk' hk'
  · exact absurd (hk' ▸ hl) hroot
  · rfl
  · obtain ⟨e, he⟩ := Option.ne_none_iff_exists'.1 hthere
    rw [hk', he]
    rfl
  · rfl

theorem get?_putFile {parent : Location} {name : String} {content : ByteArray} (hp : t.isFolder parent = true)
    (hn : t.isFolder (parent ++ [name]) = false) (l : Location) :
    (t.putFile parent name content).get? l =
      if l = parent ++ [name] then some (.file content) else t.get? l := by
  rw [putFile, dif_pos hp]
  by_cases hnone : t.get? (parent ++ [name]) = none
  · rw [dif_pos hnone]
    exact get?_insert hp hnone l
  · rw [dif_neg hnone, dif_pos hn]
    exact get?_replace hn hnone l

theorem barred_putFile (t : FileTree) (parent : Location) (name : String) (content : ByteArray) :
    (t.putFile parent name content).barred = t.barred := by
  rw [putFile]
  split_ifs <;> rfl

theorem barred_addFolder (t : FileTree) (parent : Location) (name : String) :
    (t.addFolder parent name).barred = t.barred := by
  rw [addFolder]
  split_ifs <;> rfl

/-- A new folder is where nothing was. -/
theorem get?_addFolder (t : FileTree) (parent : Location) (name : String) (l : Location) :
    (t.addFolder parent name).get? l = t.get? l ∨
      t.get? l = none ∧ (t.addFolder parent name).get? l = some .folder := by
  rw [addFolder]
  split_ifs with hp hn
  · rw [get?_insert]
    split_ifs with hl
    · exact .inr ⟨hl ▸ hn, rfl⟩
    · exact .inl rfl
  · exact .inl rfl
  · exact .inl rfl

end FileTree

namespace Disk

variable {d d' : Disk} {p : Path}

/-! ## Following paths -/

theorem descend_cons_ok {l m : Location} {s : String} {ss : List String} :
    d.descend l (s :: ss) = .ok m ↔ d.tree.get? l = some .folder ∧ d.descend (follow l s) ss = .ok m := by
  rw [descend]
  split <;> simp_all

theorem descend_append_ok {l m : Location} {ss ts : List String} :
    d.descend l (ss ++ ts) = .ok m ↔ ∃ k, d.descend l ss = .ok k ∧ d.descend k ts = .ok m := by
  induction ss generalizing l with
  | nil => simp [descend]
  | cons s ss ih =>
    rw [List.cons_append, descend_cons_ok, ih]
    simp only [descend_cons_ok]
    grind

theorem eq_of_descend {l m : Location} {ss : List String} (h : d.descend l ss = .ok m) : m = ss.foldl follow l := by
  induction ss generalizing l with
  | nil => exact (Except.ok.inj h).symm
  | cons s ss ih => exact ih (descend_cons_ok.1 h).2

theorem locate_eq_ok {l : Location} {e : FileEntry} : d.locate p = .ok (l, e) ↔
    p.text ≠ "" ∧ d.descend (d.origin p) (segments p.text.toList) = .ok l ∧ d.tree.get? l = some e := by
  rw [locate]
  split_ifs with h
  · simp [String.isEmpty_iff.1 h]
  · have hne : p.text ≠ "" := fun he => h (by rw [he]; rfl)
    split
    · next hd => simp [hd]
    · next k hd =>
      split
      · next hk => grind
      · next hk => grind

/-- A path leads to the place that its segments name. -/
theorem location_of_locate {l : Location} {e : FileEntry} (h : d.locate p = .ok (l, e)) :
    l = locationOf d.here p :=
  eq_of_descend (locate_eq_ok.1 h).2.1

theorem isFile_iff : d.isFile p = true ↔ ∃ l content, d.locate p = .ok (l, .file content) := by
  rw [isFile]
  split
  · next l content h => simp [h]
  · next h =>
    simp only [Bool.false_eq_true, false_iff, not_exists]
    exact h

/-- A file is read if that is allowed. -/
theorem read_of_locate {l : Location} {content : ByteArray} (h : d.locate p = .ok (l, .file content)) :
    d.read p = if d.tree.allows .reading l then .ok content else .error .denied := by
  simp only [read, h]

theorem folder?_eq_some {l : Location} : d.folder? p = some l ↔ d.locate p = .ok (l, .folder) := by
  rw [folder?]
  split
  · next k h => simp [h]
  · next h => simp only [reduceCtorEq, false_iff]; exact h l

theorem follow_ne {l : Location} {s : String} (hs : s ≠ "" ∧ s ≠ "." ∧ s ≠ "..") : follow l s = l ++ [s] := by
  simp [follow, hs]

/-- A segment that leads from a folder to what is no folder is a name. -/
theorem ne_of_follow {l : Location} {s : String} (hl : d.tree.get? l = some .folder)
    (h : d.tree.get? (follow l s) ≠ some .folder) : s ≠ "" ∧ s ≠ "." ∧ s ≠ ".." := by
  refine ⟨?_, ?_, ?_⟩ <;> rintro rfl
  · exact h hl
  · exact h hl
  · exact h (FileTree.get?_dropLast hl)

/-- The last segment of a path to a file is its name. -/
theorem last_of_file {l : Location} {content : ByteArray} (h : d.locate p = .ok (l, .file content)) :
    ∃ ss s, segments p.text.toList = ss ++ [s] ∧ IsFileName s := by
  obtain ⟨-, hdescend, hfile⟩ := locate_eq_ok.1 h
  have hsplit := List.dropLast_append_getLast (segmentsAt_ne_nil '/' p.text.toList)
  refine ⟨_, _, hsplit.symm, ?_⟩
  rw [segments, ← hsplit, descend_append_ok] at hdescend
  obtain ⟨k, -, hlast⟩ := hdescend
  obtain ⟨hk, hlast⟩ := descend_cons_ok.1 hlast
  have hl : l = _ := (Except.ok.inj hlast).symm
  obtain ⟨hempty, hhere, hup⟩ := ne_of_follow hk (by rw [← hl, hfile]; simp)
  exact ⟨hempty, hhere, hup, not_mem_of_mem_segmentsAt (List.getLast_mem _)⟩

/-! ## Writing files -/

/-- Two disks with the same folders. -/
structure SameFolders (d d' : Disk) : Prop where
  here : d'.here = d.here
  barred : d'.tree.barred = d.tree.barred
  folders : ∀ l, d'.tree.get? l = some .folder ↔ d.tree.get? l = some .folder

theorem SameFolders.refl (d : Disk) : SameFolders d d := ⟨rfl, rfl, fun _ => .rfl⟩

theorem SameFolders.trans {d₁ d₂ d₃ : Disk} (h : SameFolders d₁ d₂) (h' : SameFolders d₂ d₃) : SameFolders d₁ d₃ :=
  ⟨h'.here.trans h.here, h'.barred.trans h.barred, fun l => (h'.folders l).trans (h.folders l)⟩

/-- Paths are followed through folders alone. -/
theorem SameFolders.descend (h : SameFolders d d') {l m : Location} {ss : List String} :
    d'.descend l ss = .ok m ↔ d.descend l ss = .ok m := by
  induction ss generalizing l with
  | nil => exact .rfl
  | cons s ss ih => rw [descend_cons_ok, descend_cons_ok, h.folders, ih]

/-- A path leads to what is at its location, as long as the folders are the same. What is a file stays one and is
read as before, whether that is allowed or not. -/
theorem SameFolders.read (h : SameFolders d d') (hfile : d.isFile p = true)
    (hkept : d'.tree.get? (locationOf d.here p) = d.tree.get? (locationOf d.here p)) :
    d'.isFile p = true ∧ d'.read p = d.read p := by
  obtain ⟨l, content, hl⟩ := isFile_iff.1 hfile
  obtain ⟨hne, hdescend, hthere⟩ := locate_eq_ok.1 hl
  rw [← location_of_locate hl] at hkept
  have horigin : d'.origin p = d.origin p := by rw [origin, origin, h.here]
  have hl' : d'.locate p = .ok (l, .file content) :=
    locate_eq_ok.2 ⟨hne, horigin ▸ h.descend.2 hdescend, hkept.trans hthere⟩
  refine ⟨isFile_iff.2 ⟨l, content, hl'⟩, ?_⟩
  rw [read_of_locate hl, read_of_locate hl', FileTree.allows, FileTree.allows, h.barred]

theorem foldl_follow_empty (l : Location) {ss : List String} (h : ∀ s ∈ ss, s = "") : ss.foldl follow l = l := by
  induction ss with
  | nil => rfl
  | cons s ss ih =>
    rw [List.forall_mem_cons] at h
    rw [List.foldl_cons, h.1]
    exact ih h.2

/-- A name that is joined to a path leads on from there. -/
theorem location_join (here : Location) (p : Path) {s : String} (hs : IsFileName s) :
    locationOf here (p.join s) = locationOf here p ++ [s] := by
  have hfollow : ∀ l, follow l s = l ++ [s] := fun l => follow_ne ⟨hs.ne_empty, hs.ne_here, hs.ne_up⟩
  rw [locationOf, locationOf, p.segments_join hs.plain, p.isAbsolute_join hs.plain, List.foldl_append]
  rcases p.segments_eq_front with hfront | hfront
  · rw [hfront]
    exact hfollow _
  · rw [hfront, List.foldl_append]
    exact hfollow _

/-- The folder and the name that make up the location of a path. -/
theorem location_of_parentOf {l : Location} {name : String} (h : d.parentOf p = .ok (l, name)) :
    d.tree.get? l = some .folder ∧ follow l name = locationOf d.here p := by
  have hall : segments p.text.toList =
      ((segments p.text.toList).reverse.dropWhile (· = "")).reverse ++
        ((segments p.text.toList).reverse.takeWhile (· = "")).reverse := by
    rw [← List.reverse_append, List.takeWhile_append_dropWhile, List.reverse_reverse]
  have hblank : ∀ s ∈ ((segments p.text.toList).reverse.takeWhile (· = "")).reverse, s = "" := fun s hs => by
    simpa using List.mem_takeWhile_imp (List.mem_reverse.1 hs)
  rw [parentOf] at h
  cases hlast : ((segments p.text.toList).reverse.dropWhile (· = "")).reverse.getLast? with
  | none =>
    rw [hlast] at h
    cases h
  | some last =>
    rw [hlast] at h
    dsimp only at h
    split at h
    · cases h
    · next k hdescend =>
      split at h
      · next hk =>
        cases h
        refine ⟨hk, ?_⟩
        rw [locationOf, hall, List.foldl_append, foldl_follow_empty _ hblank,
          ← List.dropLast_append_getLast? _ hlast, List.foldl_append, eq_of_descend hdescend]
        rfl
      · cases h
      · cases h

/-- What writing a file comes to. -/
theorem write_ok {content : ByteArray} (h : d.write p content = .ok d') :
    SameFolders d d' ∧ ∀ l, d'.tree.get? l =
      if l = locationOf d.here p then some (.file content) else d.tree.get? l := by
  unfold write at h
  split at h
  · cases h
  · next k name hparent =>
    split_ifs at h with hfolder hbarred
    obtain ⟨hk, hlocation⟩ := location_of_parentOf hparent
    have hother : d.tree.get? (follow k name) ≠ some .folder :=
      FileTree.isFolder_eq_false.1 (eq_false_of_ne_true hfolder)
    have hname : follow k name = k ++ [name] := follow_ne (ne_of_follow hk hother)
    have hput := @FileTree.get?_putFile _ _ _ content (FileTree.isFolder_iff.2 hk)
      (hname ▸ eq_false_of_ne_true hfolder)
    rw [← hname, hlocation] at hput
    obtain rfl := Except.ok.inj h
    refine ⟨⟨rfl, FileTree.barred_putFile .., fun l => ?_⟩, hput⟩
    rw [hput l]
    split_ifs with hl
    · rw [hl, ← hlocation]
      exact iff_of_false (by simp) hother
    · exact .rfl

/-! ## Creating folders -/

/-- Two disks with the same files, of which the same may be read and written. -/
structure SameFiles (d d' : Disk) : Prop where
  here : d'.here = d.here
  barred : d'.tree.barred = d.tree.barred
  files : ∀ l content, d'.tree.get? l = some (.file content) ↔ d.tree.get? l = some (.file content)

theorem SameFiles.refl (d : Disk) : SameFiles d d := ⟨rfl, rfl, fun _ _ => .rfl⟩

theorem SameFiles.trans {d₁ d₂ d₃ : Disk} (h : SameFiles d₁ d₂) (h' : SameFiles d₂ d₃) : SameFiles d₁ d₃ :=
  ⟨h'.here.trans h.here, h'.barred.trans h.barred, fun l content => (h'.files l content).trans (h.files l content)⟩

theorem createFolder_files (h : d.createFolder p = .ok d') : SameFiles d d' := by
  unfold createFolder at h
  split at h
  · cases h
  · next l name _ =>
    split_ifs at h
    obtain rfl := Except.ok.inj h
    refine ⟨rfl, FileTree.barred_addFolder .., fun k content => ?_⟩
    rcases FileTree.get?_addFolder d.tree l name k with hk | ⟨hnone, hnew⟩
    · rw [hk]
    · simp [hnone, hnew]

theorem ensureFolder_files (h : d.ensureFolder p = .ok d') : SameFiles d d' := by
  unfold ensureFolder at h
  split at h
  · next hcreate =>
    obtain rfl := Except.ok.inj h
    exact createFolder_files hcreate
  · split_ifs at h
    obtain rfl := Except.ok.inj h
    exact .refl d

theorem createFoldersUp_files {cs : List Component} (h : d.createFoldersUp p cs = .ok d') : SameFiles d d' := by
  induction cs generalizing p d' with
  | nil =>
    obtain rfl := Except.ok.inj h
    exact .refl d
  | cons c cs ih =>
    rw [createFoldersUp] at h
    split at h
    · split at h
      · cases h
      · next hup => exact (ih hup).trans (ensureFolder_files h)
    · exact ensureFolder_files h

/-- **Creating folders changes no file.** -/
theorem createFolders_files (h : d.createFolders p = .ok d') : SameFiles d d' :=
  createFoldersUp_files h

end Disk

end DocPages.Files
