/-
File trees: which files and folders there are, what the files hold, and which
of them may not be read or not be written. A location is the list of names that
leads to an entry from the root, the root itself having the empty one. Every
entry of a tree lies in a folder of the tree, and no location has two entries.
Folders can be entered, listed and added to by everyone.
-/

namespace DocPages.Files

abbrev Location := List String

/-- What is at a location. Whether a file may be read is for the tree to say. -/
inductive FileEntry where
  | file (content : ByteArray)
  | folder

instance : DecidableEq FileEntry
  | .file a, .file b => decidable_of_iff (a.data = b.data) (by rw [FileEntry.file.injEq, ByteArray.ext_iff])
  | .file _, .folder => .isFalse (by simp)
  | .folder, .file _ => .isFalse (by simp)
  | .folder, .folder => .isTrue rfl

/-- What can be done with the content of a file. -/
inductive Access where
  | reading | writing
deriving DecidableEq, Repr

structure FileTree where
  entries : List (Location × FileEntry)
  /-- What may not be done with which files. -/
  barred : List (Access × Location) := []
  nodup : (entries.map Prod.fst).Nodup
  closed : ∀ e ∈ entries, e.1 ≠ [] ∧ (e.1.dropLast ≠ [] → (e.1.dropLast, .folder) ∈ entries)
  /-- Only files that there are are barred. -/
  files : ∀ b ∈ barred, b.2 ∈ entries.map Prod.fst ∧ (b.2, .folder) ∉ entries := by simp

/-! ## Looking up -/

theorem lookup_of_mem {es : List (Location × FileEntry)} (h : (es.map Prod.fst).Nodup) {l : Location}
    {e : FileEntry} (hm : (l, e) ∈ es) : es.lookup l = some e := by
  induction es with
  | nil => cases hm
  | cons p rest ih =>
    simp only [List.map_cons, List.nodup_cons] at h
    rcases List.mem_cons.1 hm with rfl | hr
    · simp
    · have hne : l ≠ p.1 := fun he => h.1 (he ▸ List.mem_map_of_mem (f := Prod.fst) hr)
      rw [List.lookup_cons, beq_false_of_ne hne]
      exact ih h.2 hr

theorem mem_of_lookup {es : List (Location × FileEntry)} {l : Location} {e : FileEntry}
    (h : es.lookup l = some e) : (l, e) ∈ es := by
  induction es with
  | nil => simp at h
  | cons p rest ih =>
    rw [List.lookup_cons] at h
    by_cases hl : l = p.1
    · simp only [hl, beq_self_eq_true] at h
      cases h
      simp [hl]
    · rw [beq_false_of_ne hl] at h
      exact List.mem_cons_of_mem _ (ih h)

namespace FileTree

/-- The entry at a location. -/
def get? (t : FileTree) (l : Location) : Option FileEntry :=
  if l = [] then some .folder else t.entries.lookup l

def isFolder (t : FileTree) (l : Location) : Bool :=
  t.get? l = some .folder

/-- What may be done with the file at a location. -/
def allows (t : FileTree) (a : Access) (l : Location) : Bool :=
  (a, l) ∉ t.barred

/-- The names of the entries in a folder. -/
def namesIn (t : FileTree) (l : Location) : List String :=
  t.entries.filterMap fun e => if e.1 ≠ [] ∧ e.1.dropLast = l then e.1.getLast? else none

/-- The locations of everything below a folder, as they lead on from that folder. -/
def below (t : FileTree) (l : Location) : List Location :=
  t.entries.filterMap fun e => if l.isPrefixOf e.1 && l.length < e.1.length then some (e.1.drop l.length) else none

/-! ## Changing a tree -/

def empty : FileTree where
  entries := []
  nodup := .nil
  closed := by simp

theorem not_mem_of_get? {t : FileTree} {l : Location} (h : t.get? l = none) : l ∉ t.entries.map Prod.fst := by
  intro hl
  obtain ⟨⟨k, e⟩, hm, rfl⟩ := List.mem_map.1 hl
  rw [get?, if_neg (t.closed _ hm).1, lookup_of_mem t.nodup hm] at h
  cases h

/-- Adds an entry to a folder that has no entry of that name. -/
def insert (t : FileTree) (parent : Location) (name : String) (e : FileEntry)
    (hp : t.isFolder parent) (hn : t.get? (parent ++ [name]) = none) : FileTree where
  entries := t.entries ++ [(parent ++ [name], e)]
  barred := t.barred
  nodup := by
    rw [List.map_append, List.nodup_append]
    refine ⟨t.nodup, by simp, ?_⟩
    intro a ha b hb hab
    simp only [List.map_cons, List.map_nil, List.mem_singleton] at hb
    exact not_mem_of_get? hn (hb ▸ hab ▸ ha)
  closed := by
    intro x hx
    rcases List.mem_append.1 hx with hx | hx
    · exact ⟨(t.closed x hx).1, fun h => List.mem_append_left _ ((t.closed x hx).2 h)⟩
    · rw [List.mem_singleton] at hx
      subst hx
      refine ⟨by simp, fun h => ?_⟩
      simp only [List.dropLast_concat] at h ⊢
      simp only [isFolder, get?, h, if_false, decide_eq_true_eq] at hp
      exact List.mem_append_left _ (mem_of_lookup hp)
  files := by
    intro b hb
    obtain ⟨hmem, hfile⟩ := t.files b hb
    refine ⟨by rw [List.map_append]; exact List.mem_append_left _ hmem, fun h => ?_⟩
    rcases List.mem_append.1 h with h | h
    · exact hfile h
    · have hnew : b.2 = parent ++ [name] := congrArg Prod.fst (List.mem_singleton.1 h)
      exact not_mem_of_get? hn (hnew ▸ hmem)

/-- An entry with another content stays where it is. -/
theorem fst_replaced (e : Location × FileEntry) (l : Location) (content : ByteArray) :
    (if e.1 = l then (l, FileEntry.file content) else e).1 = e.1 := by
  split
  · next h => exact h.symm
  · rfl

theorem map_fst_replaced (es : List (Location × FileEntry)) (l : Location) (content : ByteArray) :
    (es.map fun e => if e.1 = l then (l, FileEntry.file content) else e).map Prod.fst = es.map Prod.fst := by
  rw [List.map_map]
  exact List.map_congr_left fun e _ => fst_replaced e l content

/-- Gives a file another content. -/
def replace (t : FileTree) (l : Location) (content : ByteArray) (hl : t.isFolder l = false) : FileTree where
  entries := t.entries.map fun e => if e.1 = l then (l, .file content) else e
  barred := t.barred
  nodup := by
    rw [map_fst_replaced]
    exact t.nodup
  closed := by
    intro x hx
    obtain ⟨e, he, rfl⟩ := List.mem_map.1 hx
    rw [fst_replaced]
    refine ⟨(t.closed e he).1, fun h => ?_⟩
    have hm := (t.closed e he).2 h
    refine List.mem_map.2 ⟨_, hm, ?_⟩
    have hne : e.1.dropLast ≠ l := by
      intro heq
      have := lookup_of_mem t.nodup hm
      rw [heq] at this h
      simp [isFolder, get?, h, this] at hl
    simp [hne]
  files := by
    intro b hb
    obtain ⟨hmem, hfile⟩ := t.files b hb
    refine ⟨by rw [map_fst_replaced]; exact hmem, fun h => ?_⟩
    obtain ⟨e, he, heq⟩ := List.mem_map.1 h
    split at heq
    · cases heq
    · exact hfile (heq ▸ he)

/-- Bars the file at a location from something, if there is one. -/
def bar (t : FileTree) (a : Access) (l : Location) : FileTree :=
  if h : l ∈ t.entries.map Prod.fst ∧ (l, .folder) ∉ t.entries then
    { t with barred := (a, l) :: t.barred, files := List.forall_mem_cons.2 ⟨h, t.files⟩ }
  else t

/-- Adds a folder, unless there is no folder to hold it or the name is taken. -/
def addFolder (t : FileTree) (parent : Location) (name : String) : FileTree :=
  if hp : t.isFolder parent then
    if hn : t.get? (parent ++ [name]) = none then t.insert parent name .folder hp hn else t
  else t

/-- Adds a file or gives it another content, unless there is no folder to hold it or it is a folder. -/
def putFile (t : FileTree) (parent : Location) (name : String) (content : ByteArray) : FileTree :=
  if hp : t.isFolder parent then
    if hn : t.get? (parent ++ [name]) = none then t.insert parent name (.file content) hp hn
    else if hl : t.isFolder (parent ++ [name]) = false then t.replace (parent ++ [name]) content hl
    else t
  else t

end FileTree

end DocPages.Files
