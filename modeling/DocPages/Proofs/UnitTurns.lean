/-
Units taken in turn. Each turn reads one file and either leaves everything as it
is or delivers one page (`Turns`). Printed pages follow each other in the order
of the units. Pages that are written change nothing but the files they go to, so
pages with different files are all there in the end, and units whose files no
page goes to are read as they were in the beginning.
-/
import DocPages.Command.Run
import DocPages.Proofs.SourceUnits

namespace DocPages.Command

open Files

/-! ## Pages of files -/

/-- The page of a source file with this content, if it has one. -/
def pageOfContent? (renderer : Renderer) (policy : Policy) (content : ByteArray) : Option String :=
  (textOf? content).bind fun source => (pageOf renderer policy source).2.toOption

/-- The page of the file of a unit: a matter of its content alone, given the format and the policy. -/
def pageIn? (renderer : Renderer) (policy : Policy) (d : Disk) (u : SourceUnit) : Option String :=
  (d.read u.path).toOption.bind (pageOfContent? renderer policy)

theorem unitPage_toOption (settings : Settings) (d : Disk) (u : SourceUnit) :
    (unitPage settings d u).2.toOption = pageIn? settings.renderer settings.policy d u := by
  rw [unitPage, pageIn?]
  cases d.read u.path with
  | error e => rfl
  | ok content =>
    simp only [Except.toOption, Option.bind_some, pageOfContent?]
    cases textOf? content with
    | none => rfl
    | some source =>
      simp only [Option.bind_some]
      cases (pageOf settings.renderer settings.policy source).2 <;> rfl

/-- A file that cannot be read has no page. -/
theorem pageIn?_of_locate {renderer : Renderer} {policy : Policy} {d : Disk} {u : SourceUnit} {l : Location}
    {content : ByteArray} (h : d.locate u.path = .ok (l, .file content)) :
    pageIn? renderer policy d u =
      if d.tree.allows .reading l then pageOfContent? renderer policy content else none := by
  rw [pageIn?, Disk.read_of_locate h]
  split_ifs <;> rfl

/-! ## Turns -/

@[simp] theorem Session.disk_note (s : Session) (ns : List Note) : (s.note ns).disk = s.disk := rfl

@[simp] theorem Session.output_note (s : Session) (ns : List Note) : (s.note ns).output = s.output := rfl

/-- The units `us`, taken in turn from the session `s` on, have the pages `pages` and end in the session `s'`. -/
inductive Turns (settings : Settings) : Session → List SourceUnit → List (Option String) → Session → Prop where
  | done (s : Session) : Turns settings s [] [] s
  | skipped {s s' : Session} {u : SourceUnit} {us : List SourceUnit} {pages : List (Option String)}
      (notes : List Note) (unmade : pageIn? settings.renderer settings.policy s.disk u = none)
      (rest : Turns settings (s.note notes) us pages s') : Turns settings s (u :: us) (none :: pages) s'
  | delivered {s s₁ s' : Session} {u : SourceUnit} {us : List SourceUnit} {pages : List (Option String)}
      {page : String} (before after : List Note)
      (made : pageIn? settings.renderer settings.policy s.disk u = some page)
      (put : deliver settings u page (s.note before) = .ok s₁)
      (rest : Turns settings (s₁.note after) us pages s') : Turns settings s (u :: us) (some page :: pages) s'

section

variable {settings : Settings} {total index failed : Nat} {u : SourceUnit} {us : List SourceUnit} {s s' : Session}
variable {pages : List (Option String)}

theorem runUnits_skipped {notes : List Note} {reason : String}
    (h : unitPage settings s.disk u = (notes, .error reason)) :
    runUnits settings total index (u :: us) s =
      ((runUnits settings total (index + 1) us (s.note (notes ++ [.skippedUnit u.path.text reason]))).1,
        (runUnits settings total (index + 1) us (s.note (notes ++ [.skippedUnit u.path.text reason]))).2.map
          (· + 1)) := by
  rw [runUnits, h]

theorem runUnits_delivered {notes : List Note} {page : String} {s₁ : Session}
    (h : unitPage settings s.disk u = (notes, .ok page)) (hput : deliver settings u page (s.note notes) = .ok s₁) :
    runUnits settings total index (u :: us) s =
      runUnits settings total (index + 1) us (s₁.note [.completed u.name index total]) := by
  rw [runUnits, h]
  simp only [hput]

theorem runUnits_stopped {notes : List Note} {page : String} {f : Failure}
    (h : unitPage settings s.disk u = (notes, .ok page)) (hput : deliver settings u page (s.note notes) = .error f) :
    runUnits settings total index (u :: us) s = (s.note notes, .error f) := by
  rw [runUnits, h]
  simp only [hput]

/-- A turn that does not stop the run gives the unit the page `page?`, or none, and the run goes on from some session
`s₁` with whichever units there are. -/
theorem runUnits_cons (h : (runUnits settings total index (u :: us) s).2 = .ok failed) :
    ∃ (page? : Option String) (s₁ : Session),
      (∀ {us pages s'}, Turns settings s₁ us pages s' → Turns settings s (u :: us) (page? :: pages) s') ∧
      ∀ us, runUnits settings total index (u :: us) s = ((runUnits settings total (index + 1) us s₁).1,
        (runUnits settings total (index + 1) us s₁).2.map (· + [page?].count none)) := by
  have hpage := unitPage_toOption settings s.disk u
  cases hunit : unitPage settings s.disk u with | mk notes result =>
  rw [hunit] at hpage
  cases result with
  | error reason => exact ⟨none, _, .skipped _ hpage.symm, fun us => runUnits_skipped hunit⟩
  | ok page =>
    cases hput : deliver settings u page (s.note notes) with
    | error f =>
      rw [runUnits_stopped hunit hput] at h
      cases h
    | ok s₁ =>
      refine ⟨some page, s₁.note [.completed u.name index total], .delivered _ _ hpage.symm hput, fun us => ?_⟩
      rw [runUnits_delivered hunit hput]
      refine Prod.ext rfl ?_
      cases (runUnits settings total (index + 1) us (s₁.note [.completed u.name index total])).2 <;> rfl

theorem map_eq_ok {r : Except Failure Nat} {f : Nat → Nat} (h : r.map f = .ok failed) :
    ∃ others, r = .ok others ∧ failed = f others := by
  cases r with
  | error _ => cases h
  | ok others => exact ⟨others, rfl, (Except.ok.inj h).symm⟩

/-- A run in which no page fails to be written takes every unit in turn. -/
theorem turns_of_runUnits (h : (runUnits settings total index us s).2 = .ok failed) :
    ∃ pages, Turns settings s us pages (runUnits settings total index us s).1 ∧ failed = pages.count none := by
  induction us generalizing index s failed with
  | nil =>
    obtain rfl := Except.ok.inj h
    exact ⟨[], .done s, rfl⟩
  | cons u us ih =>
    obtain ⟨page?, s₁, hturn, hrest⟩ := runUnits_cons h
    rw [hrest] at h ⊢
    obtain ⟨others, hothers, rfl⟩ := map_eq_ok h
    obtain ⟨pages, hturns, rfl⟩ := ih hothers
    refine ⟨page? :: pages, hturn hturns, ?_⟩
    rw [Nat.add_comm, ← List.count_append, List.singleton_append]

/-- The turns of some units are followed by those of the others. -/
theorem runUnits_append {before after : List SourceUnit}
    (h : (runUnits settings total index (before ++ after) s).2 = .ok failed) :
    (∃ failed₁, (runUnits settings total index before s).2 = .ok failed₁) ∧ ∃ index₂ failed₂,
      runUnits settings total index₂ after (runUnits settings total index before s).1 =
        ((runUnits settings total index (before ++ after) s).1, .ok failed₂) := by
  induction before generalizing index s failed with
  | nil => exact ⟨⟨0, rfl⟩, index, failed, Prod.ext rfl h⟩
  | cons u before ih =>
    rw [List.cons_append] at h ⊢
    obtain ⟨_, s₁, -, hrest⟩ := runUnits_cons h
    rw [hrest] at h ⊢
    obtain ⟨others, hothers, -⟩ := map_eq_ok h
    obtain ⟨⟨failed₁, hbefore⟩, hafter⟩ := ih hothers
    rw [hrest, hbefore]
    exact ⟨⟨_, rfl⟩, hafter⟩

/-! ## Printed pages -/

theorem Turns.printed (hprint : settings.folder? = none) (h : Turns settings s us pages s') :
    s'.disk = s.disk ∧ s'.output = s.output ++ String.join (pages.filterMap id) ∧
      pages = us.map (pageIn? settings.renderer settings.policy s.disk) := by
  induction h with
  | done s => simp
  | skipped notes unmade rest ih =>
    obtain ⟨hdisk, houtput, hpages⟩ := ih
    exact ⟨hdisk, houtput, by rw [List.map_cons, unmade, hpages]; rfl⟩
  | delivered before after made put rest ih =>
    obtain ⟨hdisk, houtput, hpages⟩ := ih
    simp only [deliver, hprint] at put
    obtain rfl := Except.ok.inj put
    refine ⟨hdisk, ?_, by rw [List.map_cons, made, hpages]; rfl⟩
    rw [houtput]
    simp [String.append_assoc]

/-! ## Written pages -/

/-- Where the page of a unit goes. -/
def pageLocation (settings : Settings) (folder : Path) (here : Location) (u : SourceUnit) : Location :=
  locationOf here (pagePath settings folder u)

variable {folder : Path}

/-- What delivering a page to the folder comes to. -/
theorem deliver_ok {page : String} (hfolder : settings.folder? = some folder)
    (h : deliver settings u page s = .ok s') :
    s'.output = s.output ∧ Disk.SameFolders s.disk s'.disk ∧ ∀ l, s'.disk.tree.get? l =
      if l = pageLocation settings folder s.disk.here u then some (.file page.toUTF8) else s.disk.tree.get? l := by
  simp only [deliver, hfolder] at h
  split at h
  · next d hwrite =>
    obtain rfl := Except.ok.inj h
    exact ⟨rfl, Disk.write_ok hwrite⟩
  · cases h

/-- Turns change no file but those that pages go to. -/
theorem Turns.unchanged (hfolder : settings.folder? = some folder) (h : Turns settings s us pages s') :
    s'.output = s.output ∧ Disk.SameFolders s.disk s'.disk ∧
      ∀ l, (∀ u page, (u, some page) ∈ us.zip pages → l ≠ pageLocation settings folder s.disk.here u) →
        s'.disk.tree.get? l = s.disk.tree.get? l := by
  induction h with
  | done s => exact ⟨rfl, .refl s.disk, fun _ _ => rfl⟩
  | skipped notes unmade rest ih =>
    obtain ⟨houtput, hfolders, hrest⟩ := ih
    exact ⟨houtput, hfolders, fun l hl => hrest l fun v page hv => hl v page (List.mem_cons_of_mem _ hv)⟩
  | @delivered s s₁ s' u us pages page before after made put rest ih =>
    obtain ⟨houtput, hfolders, hrest⟩ := ih
    obtain ⟨houtput₁, hfolders₁, hput⟩ := deliver_ok hfolder put
    refine ⟨houtput.trans houtput₁, hfolders₁.trans hfolders, fun l hl => ?_⟩
    have hhead : l ≠ pageLocation settings folder s.disk.here u := hl u page List.mem_cons_self
    have htail : s'.disk.tree.get? l = s₁.disk.tree.get? l := hrest l fun v page hv => by
      rw [show (s₁.note after).disk.here = s.disk.here from hfolders₁.here]
      exact hl v page (List.mem_cons_of_mem _ hv)
    exact (htail.trans (hput l)).trans (if_neg hhead)

/-- Pages that go to different files are all there in the end. -/
theorem Turns.kept (hfolder : settings.folder? = some folder)
    (hdistinct : (us.map (pageLocation settings folder s.disk.here)).Nodup) (h : Turns settings s us pages s') :
    ∀ u page, (u, some page) ∈ us.zip pages →
      s'.disk.tree.get? (pageLocation settings folder s.disk.here u) = some (.file page.toUTF8) := by
  induction h with
  | done s => exact fun u page h => absurd h List.not_mem_nil
  | skipped notes unmade rest ih =>
    rw [List.map_cons, List.nodup_cons] at hdistinct
    intro v page hv
    rcases List.mem_cons.1 hv with hv | hv
    · cases hv
    · exact ih hdistinct.2 v page hv
  | @delivered s s₁ s' u us pages page before after made put rest ih =>
    obtain ⟨-, hfolders, hput⟩ := deliver_ok hfolder put
    have hhere : (s₁.note after).disk.here = s.disk.here := hfolders.here
    rw [List.map_cons, List.nodup_cons] at hdistinct
    rw [hhere] at ih
    intro v page' hv
    rcases List.mem_cons.1 hv with hv | hv
    · obtain ⟨rfl, rfl⟩ : v = u ∧ page' = page := by simpa using hv
      -- No later page goes where this one is.
      have hlater : ∀ w page', (w, some page') ∈ us.zip pages →
          pageLocation settings folder s.disk.here v ≠ pageLocation settings folder (s₁.note after).disk.here w :=
        fun w page' hw he => hdistinct.1 (by
          rw [he, hhere]
          exact List.mem_map_of_mem (List.of_mem_zip hw).1)
      rw [(Turns.unchanged hfolder rest).2.2 _ hlater]
      exact (hput _).trans (if_pos rfl)
    · exact ih hdistinct.2 v page' hv

/-- Units whose files no page goes to have the pages they had in the beginning. -/
theorem Turns.pages_eq (hfolder : settings.folder? = some folder) (h : Turns settings s us pages s')
    (hfiles : ∀ v ∈ us, s.disk.isFile v.path = true)
    (hapart : ∀ u ∈ us, ∀ v ∈ us, pageLocation settings folder s.disk.here u ≠ locationOf s.disk.here v.path) :
    pages = us.map (pageIn? settings.renderer settings.policy s.disk) := by
  induction h with
  | done s => rfl
  | skipped notes unmade rest ih =>
    rw [List.map_cons, unmade, ih (fun v hv => hfiles v (List.mem_cons_of_mem _ hv)) fun u hu v hv =>
      hapart u (List.mem_cons_of_mem _ hu) v (List.mem_cons_of_mem _ hv)]
    rfl
  | @delivered s s₁ s' u us pages page before after made put rest ih =>
    obtain ⟨-, hfolders, hput⟩ := deliver_ok hfolder put
    have hhere : (s₁.note after).disk.here = s.disk.here := hfolders.here
    have hsame : ∀ v ∈ us, (s₁.note after).disk.isFile v.path = true ∧
        (s₁.note after).disk.read v.path = s.disk.read v.path := fun v hv =>
      hfolders.read (hfiles v (List.mem_cons_of_mem _ hv)) ((hput _).trans (if_neg
        (hapart u List.mem_cons_self v (List.mem_cons_of_mem _ hv)).symm))
    rw [hhere] at ih
    rw [List.map_cons, made, ih (fun v hv => (hsame v hv).1) fun u hu v hv =>
      hapart u (List.mem_cons_of_mem _ hu) v (List.mem_cons_of_mem _ hv)]
    refine congrArg (some page :: ·) (List.map_congr_left fun v hv => ?_)
    rw [pageIn?, pageIn?, (hsame v hv).2]

end

end DocPages.Command
