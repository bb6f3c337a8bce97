import QueryHive.Library.Runs
import QueryHive.Export.Plan

/-! An export is all of its rows in order, or leaves the folder as it was. Until
the commit nothing is changed but the staged files, which were not there before;
deleting them gives the old folder back. While no call has failed, the staged files
of the closed parts hold full parts and the open one the rest, so what the commit
moves is what was written. -/
namespace QueryHive.Export
open QueryHive.Library.Files QueryHive.Library.Numeral QueryHive.Library.Runs

variable {ρ : Type}

/-- A call on an exporter, with how its operations go. -/
inductive Action (ρ : Type) where
  | new (faults : Faults)
  | writeRow (row : ρ) (faults : Faults)
  | markCancelled
  | finish (faults : Faults)
  | abort (faults : Faults)
  | drop (faults : Faults)

/-- One export from before `new` until after its drop: the folder, the exporter,
and what happened so far. -/
structure World (ρ : Type) where
  spec : ExportSpec
  disk : Folder ρ
  exporter : Option (Exporter ρ) := none
  /-- `new` was not called yet. -/
  fresh : Bool := true
  /-- The files moved to target names. -/
  placed : Nat := 0
  /-- The rows of the `write_row` calls that succeeded. -/
  written : List ρ := []
  /-- A writer failed inside a row, or on closing its part, before the export was finished. -/
  spoiled : Bool := false
  /-- A `finish` committed. -/
  delivered : Bool := false
  /-- The files listed when `finish` last returned `Ok`. -/
  report : Option (List Path) := none

def World.begin (spec : ExportSpec) (disk : Folder ρ) : World ρ := { spec := spec, disk := disk }

def World.work (w : World ρ) (e : Exporter ρ) : Work ρ := ⟨e, w.disk, w.placed⟩

def World.after (w : World ρ) (work : Work ρ) : World ρ :=
  { w with exporter := some work.exporter, disk := work.disk, placed := work.placed }

def succeeded (result : Except ExportError Unit) : Bool := result.toBool

/-- A row went in only partly, or the open part was not closed. -/
def Exporter.halfDone (e : Exporter ρ) : Bool :=
  match e.writer with
  | some writer => writer.torn
  | none => decide (e.part < e.files.length)

/-- One call. -/
def step (w : World ρ) : Action ρ → Option (World ρ)
  | .new faults =>
    if w.fresh then
      (newExporter faults w.disk w.spec).map fun (result, work) =>
        if succeeded result then { w.after work with fresh := false }
        else { w with fresh := false, disk := work.disk }
    else none
  | .writeRow row faults =>
    w.exporter.bind fun e =>
      (writeRow faults (w.work e) row).map fun (result, work) =>
        if succeeded result then { w.after work with written := w.written ++ [row] }
        else { w.after work with spoiled := w.spoiled || !e.finished && work.exporter.halfDone }
  | .markCancelled => w.exporter.map fun e => { w with exporter := some { e with cancelled := true } }
  | .finish faults =>
    w.exporter.map fun e =>
      let (result, work) := finish faults (w.work e)
      if succeeded result then
        { w.after work with delivered := w.delivered || !e.finished, report := some work.exporter.files }
      else w.after work
  | .abort faults => w.exporter.map fun e => w.after (abort faults (w.work e))
  | .drop faults =>
    w.exporter.map fun e => { w with exporter := none, disk := (abort faults (w.work e)).disk }

/-- Every look-up sees what is there. -/
def Seeing (faults : Faults) : Prop := ∀ path, faults.hidden path = false

def Removing (faults : Faults) : Prop := ∀ path, faults.removes path = true

/-- An `open` that fails leaves no file. -/
def Tidy (faults : Faults) (format : Format) : Prop := faults.opening = .broke → format.late = true

/-- The parts are all there: every writer was opened, and the second part too if
the first is named as one of several. -/
def Exporter.whole (e : Exporter ρ) : Prop := e.finished = false ∧ (e.writer.isNone → e.part ≠ 1)

/-- The calls that keep the promise: an `open` that fails leaves no file, look-ups
and removals work, no row is written to a full part once the export is finished,
and `finish` is not called after a writer failed, the second part could not be
opened or the export was thrown away. -/
def Sane (w : World ρ) : Action ρ → Prop
  | .new faults => Seeing faults ∧ Tidy faults w.spec.format
  | .writeRow _ faults =>
    Seeing faults ∧ Tidy faults w.spec.format ∧ ∀ e ∈ w.exporter, e.finished = true → e.full = false
  | .markCancelled => True
  | .finish faults =>
    Seeing faults ∧ Removing faults ∧ (w.delivered = true ∨ w.spoiled = false ∧ ∀ e ∈ w.exporter, e.whole)
  | .abort faults | .drop faults => Removing faults

/-- The folder is what it was but for the staged files, which were not there. -/
structure Clean (start : Folder ρ) (work : Work ρ) : Prop where
  untouched : ∀ path, path ∉ work.exporter.staging → work.disk path = start path
  fresh : ∀ path ∈ work.exporter.staging, start path = none
  writing : ∀ writer, work.exporter.writer = some writer → writer.path ∈ work.exporter.staging
  named : work.exporter.staging.length ≤ work.exporter.files.length

/-- A path with nothing there now had nothing there before. -/
theorem Clean.absent (clean : Clean start work) (gone : work.disk path = none) : start path = none := by
  by_cases staged : path ∈ work.exporter.staging
  · exact clean.fresh path staged
  · rw [← clean.untouched path staged, gone]

theorem finish_frame (faults : Faults) (format : Format) (disk : Folder ρ) (writer : Writer ρ) {path : Path}
    (other : path ≠ writer.path) : (writer.finish faults format disk).2 path = disk path := by
  unfold Writer.finish
  split
  · rfl
  · split
    · exact put_other other disk _
    · rfl
    · dsimp only
      split
      · exact put_other other disk _
      · rfl

/-- What no call changes. -/
def Exporter.settings (e : Exporter ρ) : Format × Path × List Char × Option Nat :=
  (e.format, e.outDir, e.basename, e.limit)

/-- A step inside an export that is neither finished nor thrown away by it. -/
structure Carries (start : Folder ρ) (work next : Work ρ) : Prop where
  clean : Clean start work → Clean start next
  settings : next.exporter.settings = work.exporter.settings
  finished : next.exporter.finished = work.exporter.finished
  placed : next.placed = work.placed

theorem Carries.refl (work : Work ρ) : Carries start work work := ⟨id, rfl, rfl, rfl⟩

theorem Carries.trans (first : Carries start work middle) (second : Carries start middle next) :
    Carries start work next :=
  ⟨second.clean ∘ first.clean, second.settings.trans first.settings, second.finished.trans first.finished,
    second.placed.trans first.placed⟩

theorem closePart_carries (faults : Faults) (work : Work ρ) : Carries start work (closePart faults work).2 := by
  unfold closePart
  split
  · exact .refl work
  · next writer open' =>
    refine ⟨fun clean => ⟨fun path outside => ?_, clean.fresh, (fun _ gone => by cases gone), clean.named⟩,
      rfl, rfl, rfl⟩
    have other : path ≠ writer.path := fun same => outside (same ▸ clean.writing writer open')
    exact (finish_frame faults work.exporter.format work.disk writer other).trans (clean.untouched path outside)

theorem visible_eq (seeing : Seeing faults) (disk : Folder ρ) (path : Path) :
    visible faults disk path = (disk path).isSome := by
  rw [visible, seeing path]
  exact Bool.and_true _

theorem stagingPath_free {disk : Folder ρ} (seeing : Seeing faults)
    (found : stagingPath faults disk final = some staging) :
    disk staging = none := by
  unfold stagingPath at found
  simp only [visible_eq seeing] at found
  split at found
  · next free =>
    cases found
    simpa using free
  · split at found
    · cases found
    · next free =>
      cases found
      simpa using free

theorem requireFree_ok {disk : Folder ρ} (seeing : Seeing faults) (free : requireFree faults disk path = .ok ()) :
    disk path = none := by
  unfold requireFree at free
  rw [visible_eq seeing] at free
  split at free
  · cases free
  · next absent => simpa using absent

def Exporter.path (e : Exporter ρ) (index : Nat) : Path := partPath e.outDir e.basename e.format.extension index

def Exporter.opened (e : Exporter ρ) (index : Nat) (staging : Path) : Exporter ρ :=
  { e with
    writer := some ⟨staging, [], false⟩
    files := e.files ++ [e.path index]
    staging := e.staging ++ [staging] }

/-- The folder with a part's writer just opened. -/
def begun (format : Format) (disk : Folder ρ) (staging : Path) : Folder ρ :=
  if format.late then disk else disk.write staging .unfinished

theorem openWriter_spec (tidy : Tidy faults format) {disk : Folder ρ} (absent : disk path = none) :
    (∃ error, openWriter faults format disk path = (.error error, disk)) ∨
      openWriter faults format disk path = (.ok ⟨path, [], false⟩, begun format disk path) := by
  unfold openWriter begun
  rw [absent]
  cases opening : faults.opening with
  | refused => exact .inl ⟨.io, rfl⟩
  | opened => cases format.late <;> exact .inr rfl
  | broke =>
    rw [tidy opening]
    exact .inl ⟨.io, rfl⟩

/-- What `open_part` did: nothing, or it opened a writer on a new staged file. -/
theorem openPart_cases (seeing : Seeing faults) (tidy : Tidy faults work.exporter.format)
    (ran : openPart faults work index = some (result, next)) :
    (∃ error, result = .error error ∧ next = work) ∨
    ∃ staging, result = .ok () ∧ work.disk staging = none ∧
      next = { work with
        exporter := work.exporter.opened index staging
        disk := begun work.exporter.format work.disk staging } := by
  unfold openPart at ran
  dsimp only at ran
  split at ran
  · next error _ =>
    cases ran
    exact .inl ⟨error, rfl, rfl⟩
  · obtain ⟨staging, found, opened⟩ := Option.map_eq_some_iff.mp ran
    have absent := stagingPath_free seeing found
    obtain ⟨error, failed⟩ | opens := openWriter_spec tidy absent
    · rw [failed] at opened
      cases opened
      exact .inl ⟨error, rfl, rfl⟩
    · rw [opens] at opened
      cases opened
      exact .inr ⟨staging, rfl, absent, rfl⟩

theorem openPart_carries (seeing : Seeing faults) (tidy : Tidy faults work.exporter.format)
    (ran : openPart faults work index = some (result, next)) : Carries start work next := by
  obtain ⟨error, -, rfl⟩ | ⟨staging, -, absent, rfl⟩ := openPart_cases seeing tidy ran
  · exact .refl _
  refine ⟨fun clean => ⟨fun path outside => ?_, fun path inside => ?_, fun writer open' => ?_, ?_⟩, rfl, rfl, rfl⟩
  · have ⟨before, other⟩ : path ∉ work.exporter.staging ∧ path ≠ staging := by simpa [Exporter.opened] using outside
    rw [← clean.untouched path before]
    dsimp only [begun]
    split
    · rfl
    · exact put_other other work.disk _
  · obtain before | same := List.mem_append.mp inside
    · exact clean.fresh path before
    · exact List.mem_singleton.mp same ▸ clean.absent absent
  · cases open'
    exact List.mem_append_right _ List.mem_cons_self
  · have paired := clean.named
    simp only [Exporter.opened, List.length_append, List.length_singleton]
    omega

theorem nameFirst_carries (work : Work ρ) : Carries start work (nameFirst work) := by
  unfold nameFirst
  dsimp only
  split
  · refine ⟨fun clean => ⟨clean.untouched, clean.fresh, clean.writing, ?_⟩, rfl, rfl, rfl⟩
    rw [List.length_set]
    exact clean.named
  · exact .refl work

theorem nextPart_carries (work : Work ρ) :
    Carries start work { work with exporter := work.exporter.nextPart } :=
  ⟨fun clean => ⟨clean.untouched, clean.fresh, clean.writing, clean.named⟩, rfl, rfl, rfl⟩

/-- What `roll_over` did: it was refused, the open part did not close, or it got
as far as opening the next part. -/
theorem rollOver_cases (ran : rollOver faults work = some (result, next)) :
    (∃ error, result = .error error ∧ next = work) ∨
    (work.exporter.part = 0 → requireFree faults work.disk work.exporter.renamed = .ok ()) ∧
      ((∃ error, result = .error error ∧ closePart faults (nameFirst work) = (.error error, next)) ∨
      ∃ closed, closePart faults (nameFirst work) = (.ok (), closed) ∧
        openPart faults { closed with exporter := closed.exporter.nextPart } (closed.exporter.part + 1) =
          some (result, next)) := by
  unfold rollOver at ran
  split at ran
  · next error _ =>
    cases ran
    exact .inl ⟨error, rfl, rfl⟩
  · next free =>
    refine .inr ⟨fun first => by rwa [if_pos first] at free, ?_⟩
    split at ran
    · next error after failed =>
      cases ran
      exact .inl ⟨error, rfl, failed⟩
    · next closed went => exact .inr ⟨closed, went, ran⟩

theorem rollOver_carries (seeing : Seeing faults) (tidy : Tidy faults work.exporter.format)
    (ran : rollOver faults work = some (result, next)) : Carries start work next := by
  have named : Carries start work (nameFirst work) := nameFirst_carries work
  have closes := named.trans (closePart_carries faults (nameFirst work))
  obtain ⟨error, -, rfl⟩ | ⟨-, ⟨error, -, failed⟩ | ⟨closed, went, opens⟩⟩ := rollOver_cases ran
  · exact .refl _
  · rwa [failed] at closes
  · rw [went] at closes
    have format : closed.exporter.format = work.exporter.format := congrArg Prod.fst closes.settings
    refine (closes.trans (nextPart_carries closed)).trans (openPart_carries seeing ?_ opens)
    rwa [show closed.exporter.nextPart.format = work.exporter.format from format]

theorem putRow_carries (faults : Faults) (work : Work ρ) (row : ρ) : Carries start work (putRow faults work row).2 := by
  unfold putRow Writer.writeRow
  dsimp only
  split
  · exact .refl work
  · next writer open' =>
    cases faults.writes <;>
      exact ⟨fun clean => ⟨clean.untouched, clean.fresh,
          fun _ same => by cases same; exact clean.writing writer open', clean.named⟩, rfl, rfl, rfl⟩

theorem writeRow_carries (seeing : Seeing faults) (tidy : Tidy faults work.exporter.format)
    (ran : writeRow faults work row = some (result, next)) : Carries start work next := by
  unfold writeRow at ran
  split at ran
  · obtain ⟨⟨rolled, middle⟩, went, rest⟩ := Option.map_eq_some_iff.mp ran
    have carried : Carries start work middle := rollOver_carries seeing tidy went
    cases rolled with
    | error error =>
      cases rest
      exact carried
    | ok _ =>
      have put : Carries start middle (putRow faults middle row).2 := putRow_carries faults middle row
      dsimp only at rest
      rw [rest] at put
      exact carried.trans put
  · have put : Carries start work (putRow faults work row).2 := putRow_carries faults work row
    rw [Option.some.inj ran] at put
    exact put

theorem removeFiles_all (removing : Removing faults) (disk : Folder ρ) (paths : List Path) (path : Path) :
    removeFiles faults disk paths path = if path ∈ paths then none else disk path := by
  have removal : removeFile (ρ := ρ) faults = Disk.remove := by
    funext disk path
    exact if_pos (removing path)
  rw [removeFiles, removal, remove_all]
  congr

/-- Deleting the staged files gives the old folder back. -/
theorem Clean.restored (clean : Clean start work) (removing : Removing faults) :
    removeFiles faults work.disk work.exporter.staging = start := by
  funext path
  rw [removeFiles_all removing]
  split
  · next staged => exact (clean.fresh path staged).symm
  · next outside => exact clean.untouched path outside

theorem placeAll_failed {disk : Folder ρ} (ran : placeAll faults disk placed pairs = (.error error, after, count)) :
    placed < count ∨ count = placed ∧ after = removeFiles faults disk (pairs.map Prod.fst) := by
  have grows : ∀ (pairs : List (Path × Path)) (disk : Folder ρ) (placed : Nat),
      placed ≤ (placeAll faults disk placed pairs).2.2 := by
    intro pairs
    induction pairs with
    | nil => exact fun _ placed => Nat.le_refl placed
    | cons pair rest ih =>
      intro disk placed
      unfold placeAll
      split
      · exact Nat.le_of_succ_le (ih _ _)
      · exact Nat.le_refl placed
  cases pairs with
  | nil => cases ran
  | cons pair rest =>
    unfold placeAll at ran
    split at ran
    · next moved _ =>
      have more := grows rest moved (placed + 1)
      rw [ran] at more
      exact .inl more
    · cases ran
      exact .inr ⟨rfl, rfl⟩

/-- What `finish` did to an export that was not finished: it closed the open part
and committed, or it failed and aborted. -/
theorem finish_cases (unfinished : work.exporter.finished = false) (ran : finish faults work = (result, next)) :
    (∃ closed, closePart faults work.marked = (.ok (), closed) ∧
      commit faults closed = (.ok (), next) ∧ result = .ok ()) ∨
    ∃ error, result = .error error ∧
      ((∃ closed, closePart faults work.marked = (.error error, closed) ∧
        next = abort faults closed) ∨
      ∃ closed failed, closePart faults work.marked = (.ok (), closed) ∧
        commit faults closed = (.error error, failed) ∧ next = abort faults failed) := by
  unfold finish at ran
  rw [unfinished] at ran
  simp only [Bool.false_eq_true, if_false] at ran
  split at ran
  · next error closed went =>
    cases ran
    exact .inr ⟨error, rfl, .inl ⟨closed, went, rfl⟩⟩
  · next closed went =>
    split at ran
    · next error failed broke =>
      cases ran
      exact .inr ⟨error, rfl, .inr ⟨closed, failed, went, broke, rfl⟩⟩
    · next done committed =>
      cases ran
      exact .inl ⟨closed, went, committed, rfl⟩

theorem abort_restores (removing : Removing faults) (clean : Clean start work) : (abort faults work).disk = start :=
  clean.restored removing

/-- Throwing away after a commit that failed with no file moved gives the old folder back. -/
theorem commit_failed_restores (removing : Removing faults) (clean : Clean start work)
    (ran : commit faults work = (.error error, next)) (still : next.placed = work.placed) :
    (abort faults next).disk = start := by
  unfold commit at ran
  dsimp only at ran
  split at ran
  · cases ran
    exact clean.restored removing
  · generalize placing : placeAll faults work.disk work.placed (work.exporter.staging.zip work.exporter.files) =
      outcome at ran
    obtain ⟨result, disk, count⟩ := outcome
    cases ran
    obtain moved | ⟨-, rfl⟩ := placeAll_failed placing
    · exact absurd still (Nat.ne_of_gt moved)
    · have whole : (work.exporter.staging.zip work.exporter.files).map Prod.fst = work.exporter.staging :=
        List.map_fst_zip clean.named
      change removeFiles faults work.disk ((work.exporter.staging.zip work.exporter.files).map Prod.fst) = start
      rw [whole, clean.restored removing]

/-- An export whose `finish` failed is over, and before the first rename the folder is as it was. -/
theorem finish_failed (removing : Removing faults) (clean : Clean start work)
    (unfinished : work.exporter.finished = false) (ran : finish faults work = (.error error, next)) :
    next.exporter.finished = true ∧ next.exporter.staging = [] ∧ next.exporter.writer = none ∧
      (next.placed = work.placed → next.disk = start) := by
  have closing : Carries start work.marked (closePart faults work.marked).2 := closePart_carries _ _
  have marked : Clean start work.marked := ⟨clean.untouched, clean.fresh, clean.writing, clean.named⟩
  obtain ⟨_, _, _, done⟩ | ⟨_, -, ⟨closed, went, rfl⟩ | ⟨closed, failed, went, broke, rfl⟩⟩ :=
    finish_cases unfinished ran
  · cases done
  all_goals
    rw [went] at closing
    have clean := closing.clean marked
  · exact ⟨rfl, rfl, rfl, fun _ => abort_restores removing clean⟩
  · refine ⟨rfl, rfl, rfl, fun still => commit_failed_restores removing clean broke ?_⟩
    exact still.trans closing.placed.symm

end QueryHive.Export
