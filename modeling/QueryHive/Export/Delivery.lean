import Mathlib.Data.List.Nodup
import QueryHive.Export.Staging
import QueryHive.Library.Result

/-! What a finished export has delivered. While no writer has failed, the staged
files of the closed parts hold full parts and the open one the rest; the commit
moves each to the name it is listed under. A run of calls that meets the
conditions of `Sane` either delivers every row in order or, as long as no file was
moved, leaves the folder to be restored by deleting what was staged. -/
namespace QueryHive.Export
open QueryHive.Library.Files QueryHive.Library.Numeral QueryHive.Library.Result QueryHive.Library.Runs

variable {ρ : Type}

/-! ### Names of the parts -/

/-- The numbered names of so many parts. -/
def several (spec : ExportSpec) (count : Nat) : List Path :=
  (List.range count).map fun index => join spec.outDir (numbered spec.basename spec.format.extension index)

def listing (spec : ExportSpec) (count : Nat) : List Path :=
  if count = 1 then [partPath spec.outDir spec.basename spec.format.extension 0] else several spec count

@[simp] theorem several_length (spec : ExportSpec) (count : Nat) : (several spec count).length = count := by
  rw [several, List.length_map, List.length_range]

@[simp] theorem listing_length (spec : ExportSpec) (count : Nat) : (listing spec count).length = count := by
  unfold listing
  split
  · next one => exact one.symm
  · exact several_length spec count

theorem numbered_inj (same : numbered basename extension first = numbered basename extension second) :
    first = second := by
  have suffixes := List.append_cancel_left (List.append_cancel_left same)
  have indices := congrArg value (List.append_cancel_right suffixes)
  rw [value_padded, value_padded] at indices
  exact Nat.succ.inj indices

theorem join_inj (alike : first.head? = second.head?) (same : join folder first = join folder second) :
    first = second := by
  unfold join at same
  rw [alike] at same
  split at same
  · exact same
  · split at same
    · exact List.append_cancel_left same
    · exact (List.cons.inj (List.append_cancel_left same)).2

theorem numbered_head (basename extension : List Char) (index : Nat) :
    (numbered basename extension index).head? = (basename ++ ['_']).head? := by
  cases basename <;> rfl

theorem several_nodup (spec : ExportSpec) (count : Nat) : (several spec count).Nodup := by
  refine List.Nodup.map (fun first second same => ?_) List.nodup_range
  refine numbered_inj (join_inj ?_ same)
  rw [numbered_head, numbered_head]

theorem several_succ (spec : ExportSpec) (positive : 0 < count) :
    several spec (count + 1) =
      several spec count ++ [partPath spec.outDir spec.basename spec.format.extension count] := by
  rw [several, List.range_succ, List.map_append, partPath, if_neg (Nat.ne_of_gt positive)]
  rfl

theorem listing_many (spec : ExportSpec) (many : count ≠ 1) : listing spec count = several spec count := if_neg many

/-! ### Rows split over parts -/

/-- The rows in order, every part but the last holding exactly the limit and the
last at least one row and at most the limit; no rows are one empty part. -/
structure Split (limit : Option Nat) (rows : List ρ) (parts : List (List ρ)) : Prop where
  whole : parts.flatten = rows
  full : ∀ part ∈ parts.dropLast, limit = some part.length
  room : ∀ part ∈ parts.getLast?, ∀ most ∈ limit, part.length ≤ most
  begun : ∀ part ∈ parts.getLast?, rows ≠ [] → part ≠ []
  empty : rows = [] → parts = [[]]

theorem rowLimit_pos (limited : rowLimit format rowsPerFile = some limit) : 0 < limit := by
  have inside := List.min?_mem limited
  exact of_decide_eq_true (List.mem_filter.mp inside).2

/-- A split export delivered: the rows, the names, and that no numbered name was taken. -/
structure Delivered (spec : ExportSpec) (start disk : Folder ρ) (rows : List ρ) (files : List Path) : Prop where
  names : files = listing spec files.length
  parts : ∃ parts, Split (rowLimit spec.format spec.rowsPerFile) rows parts ∧
    List.Forall₂ (fun file part => disk.read file = some (.sheet part false)) files parts
  fresh : 1 < files.length → ∀ file ∈ files, start file = none

/-! ### Moving staged files -/

/-- The staged files of closed parts. -/
structure Staged (disk : Folder ρ) (stagings : List Path) (parts : List (List ρ)) : Prop where
  sheets : List.Forall₂ (fun path part => disk path = some (.file (.sheet part false))) stagings parts
  apart : stagings.Nodup

theorem Staged.frame {later : Folder ρ} (staged : Staged disk stagings parts)
    (same : ∀ path ∈ stagings, later path = disk path) : Staged later stagings parts := by
  refine ⟨?_, staged.apart⟩
  have inside : List.Forall₂ (fun path part => path ∈ stagings ∧ disk path = some (.file (.sheet part false)))
      stagings parts := (List.forall₂_and_left stagings parts).mpr ⟨fun _ member => member, staged.sheets⟩
  refine inside.imp fun path part both => ?_
  rw [same path both.1, both.2]

/-- The staged file of a closed part is there. -/
theorem sheets_present {disk : Folder ρ}
    (sheets : List.Forall₂ (fun path part => disk path = some (.file (.sheet part false))) stagings parts)
    (inside : path ∈ stagings) : disk path ≠ none := by
  induction sheets with
  | nil => cases inside
  | cons sheet _ ih =>
    cases inside with
    | head => exact fun absent => by rw [sheet] at absent; cases absent
    | tail _ later => exact ih later

theorem Staged.concat {disk : Folder ρ} (staged : Staged disk stagings parts) (new : path ∉ stagings) (part : List ρ) :
    Staged (disk.write path (.sheet part false)) (stagings ++ [path]) (parts ++ [part]) := by
  have kept : Staged (disk.write path (.sheet part false)) stagings parts := staged.frame fun other inside =>
    put_other (fun same : other = path => new (same ▸ inside)) disk _
  have extended := staged.apart.concat new
  rw [List.concat_eq_append] at extended
  exact ⟨List.rel_append kept.sheets (.cons (put_same disk path _) .nil), extended⟩

theorem place_renames {disk : Folder ρ} (moved : place faults disk staging final = .ok after) :
    ∃ target, placeTarget faults disk final = .ok target ∧ disk.rename staging target = some after := by
  unfold place at moved
  split at moved
  · cases moved
  · next target found =>
    split at moved
    · cases moved
    · split at moved
      · cases moved
      · split at moved
        · next renamed =>
          cases moved
          exact ⟨target, found, renamed⟩
        · cases moved

theorem placeTarget_plain {disk : Folder ρ} (plain : ∀ link, disk final ≠ some (.link link)) :
    placeTarget faults disk final = .ok final := by
  unfold placeTarget
  split
  · next link found => exact absurd found (plain link)
  · rfl

theorem placeTarget_link {disk : Folder ρ} (found : placeTarget faults disk final = .ok target) :
    target = final ∨ disk.canonicalize final = some target := by
  unfold placeTarget at found
  split at found
  · split at found
    · cases found
      exact .inl rfl
    · split at found
      · next place leads =>
        split at found
        · cases found
          exact .inr leads
        · cases found
      · cases found
  · cases found
    exact .inl rfl

theorem place_read {disk : Folder ρ} (there : disk staging = some (.file content))
    (moved : place faults disk staging final = .ok after) : after.read final = some content := by
  obtain ⟨target, found, renamed⟩ := place_renames moved
  have arrived := rename_target there renamed
  obtain rfl | leads := placeTarget_link found
  · exact read_file arrived
  obtain ⟨node, atPlace, plain⟩ := resolve_place leads
  have links : ∀ path link, disk path = some (.link link) → after path = some (.link link) := by
    intro path link isLink
    rw [rename_other renamed ?_ ?_, isLink]
    · rintro rfl
      rw [there] at isLink
      cases isLink
    · rintro rfl
      rw [atPlace] at isLink
      cases isLink
      exact plain link rfl
  have still : after.canonicalize final = some target :=
    resolve_congr leads links arrived fun _ same => by cases same
  rw [Disk.read, still]
  simp only [Option.bind_some, arrived]

/-- Every name that was free and distinct gets its part, and nothing else is touched. -/
theorem placeAll_moves {disk : Folder ρ} {stagings files : List Path} {parts : List (List ρ)}
    (staged : Staged disk stagings parts) (paired : files.length = stagings.length)
    (free : ∀ file ∈ files, disk file = none) (apart : files.Nodup)
    (ran : placeAll faults disk placed (stagings.zip files) = (.ok (), after, count)) :
    List.Forall₂ (fun file part => after file = some (.file (.sheet part false))) files parts ∧
      count = placed + files.length ∧ ∀ path, path ∉ stagings → path ∉ files → after path = disk path := by
  induction stagings generalizing disk files parts placed with
  | nil =>
    obtain rfl := List.length_eq_zero_iff.mp paired
    cases staged.sheets
    cases ran
    exact ⟨.nil, rfl, fun _ _ _ => rfl⟩
  | cons staging stagings ih =>
    obtain ⟨sheets, distinct⟩ := staged
    cases sheets with | cons sheet sheets =>
    cases files with
    | nil => cases paired
    | cons final files =>
    obtain ⟨unlike, apart⟩ := List.nodup_cons.mp apart
    obtain ⟨new, distinct⟩ := List.nodup_cons.mp distinct
    rw [List.zip_cons_cons, placeAll] at ran
    split at ran
    · next moved placing =>
      obtain ⟨target, found, renamed⟩ := place_renames placing
      have absent := free final List.mem_cons_self
      rw [placeTarget_plain fun link there => by rw [absent] at there; cases there] at found
      cases found
      have arrived := rename_target sheet renamed
      have frame : ∀ path, path ≠ staging → path ≠ final → moved path = disk path := fun path => rename_other renamed
      have rest : Staged moved stagings _ := Staged.frame ⟨sheets, distinct⟩ fun path inside => by
        refine frame path (fun same => new (same ▸ inside)) fun same => ?_
        exact sheets_present sheets inside (same ▸ absent)
      have later : ∀ file ∈ files, moved file = none := by
        intro file inside
        have other : file ≠ final := fun same => unlike (same ▸ inside)
        rw [frame file ?_ other]
        · exact free file (List.mem_cons_of_mem _ inside)
        · rintro rfl
          rw [free file (List.mem_cons_of_mem _ inside)] at sheet
          cases sheet
      obtain ⟨delivered, counted, untouched⟩ := ih rest (Nat.succ.inj paired) later apart ran
      have kept := (untouched final (fun inside => sheets_present sheets inside absent) unlike).trans arrived
      refine ⟨.cons kept delivered, ?_, fun path out away => ?_⟩
      · rw [counted, List.length_cons]
        omega
      · rw [List.mem_cons, not_or] at out away
        rw [untouched path out.2 away.2, frame path out.1 away.1]
    · cases ran

/-! ### Progress -/

/-- The export so far: every part is closed. -/
structure Closed (written : List ρ) (parts : List (List ρ)) (work : Work ρ) : Prop where
  writer : work.exporter.writer = none
  staged : Staged work.disk work.exporter.staging parts
  rows : parts.flatten = written

/-- The export so far: closed parts, and an open one on a staged file of its own. -/
structure Filling (written : List ρ) (closed : List (List ρ)) (current : List ρ) (stagings : List Path)
    (pending : Path) (work : Work ρ) : Prop where
  writer : work.exporter.writer = some ⟨pending, current, false⟩
  staging : work.exporter.staging = stagings ++ [pending]
  staged : Staged work.disk stagings closed
  apart : pending ∉ stagings
  rows : closed.flatten ++ current = written

/-- The counts and names that go with it: the closed parts are full. -/
structure Open (spec : ExportSpec) (written : List ρ) (closed : List (List ρ)) (current : List ρ)
    (stagings : List Path) (pending : Path) (work : Work ρ) : Prop
    extends Filling written closed current stagings pending work where
  part : work.exporter.part = closed.length
  inPart : work.exporter.inPart = current.length
  files : work.exporter.files = listing spec (closed.length + 1)
  full : ∀ part ∈ closed, work.exporter.limit = some part.length
  room : ∀ most ∈ work.exporter.limit, current.length ≤ most

/-- Between a full part and the next, which could not be opened. -/
structure Between (spec : ExportSpec) (written : List ρ) (parts : List (List ρ)) (work : Work ρ) : Prop
    extends Closed written parts work where
  part : work.exporter.part = parts.length
  inPart : work.exporter.inPart = 0
  files : work.exporter.files = several spec parts.length
  full : ∀ part ∈ parts, work.exporter.limit = some part.length
  nonempty : parts ≠ []

def Exporter.released (e : Exporter ρ) : Exporter ρ := { e with writer := none }

theorem closePart_cases {work : Work ρ} (open' : work.exporter.writer = some writer) :
    (∃ error disk, closePart faults work =
      (.error error, { work with exporter := work.exporter.released, disk := disk })) ∨
    closePart faults work = (.ok (), { work with
      exporter := work.exporter.released
      disk := work.disk.write writer.path (.sheet writer.rows writer.torn) }) := by
  unfold closePart
  rw [open']
  dsimp only
  unfold Writer.finish
  split
  · exact .inl ⟨.io, work.disk, rfl⟩
  · cases faults.closing with
    | closed => exact .inr rfl
    | refused => exact .inl ⟨.io, work.disk, rfl⟩
    | broke => exact .inl ⟨.io, _, rfl⟩

theorem closePart_none {work : Work ρ} (gone : work.exporter.writer = none) :
    closePart faults work = (.ok (), work) := by
  rw [closePart, gone]

theorem Filling.close {work next : Work ρ} (progress : Filling written closed current stagings pending work)
    (went : closePart faults work = (.ok (), next)) :
    Closed written (closed ++ [current]) next ∧ next.exporter = work.exporter.released := by
  obtain ⟨error, disk, failed⟩ | went' := @closePart_cases _ _ faults _ progress.writer
  · rw [failed] at went
    cases went
  · rw [went'] at went
    cases went
    refine ⟨⟨rfl, ?_, by rw [List.flatten_append, List.flatten_singleton, progress.rows]⟩, rfl⟩
    dsimp only [Exporter.released]
    rw [progress.staging]
    exact progress.staged.concat progress.apart current

theorem Closed.start (closed : Closed written parts work) (part : work.exporter.part = parts.length)
    (inPart : work.exporter.inPart = 0) (absent : work.disk staging = none)
    (files : work.exporter.files ++ [work.exporter.path index] = listing spec (parts.length + 1))
    (full : ∀ part ∈ parts, work.exporter.limit = some part.length) :
    Open spec written parts [] work.exporter.staging staging { work with
      exporter := work.exporter.opened index staging
      disk := begun work.exporter.format work.disk staging } where
  part := part
  inPart := inPart
  writer := rfl
  files := files
  staging := rfl
  staged := closed.staged.frame fun path inside => by
    unfold begun
    split
    · rfl
    · refine put_other (fun same => ?_) work.disk _
      exact sheets_present closed.staged.sheets inside (same ▸ absent)
  apart inside := sheets_present closed.staged.sheets inside absent
  rows := by rw [List.append_nil, closed.rows]
  full := full
  room most _ := Nat.zero_le most

theorem putRow_open {work : Work ρ} (open' : work.exporter.writer = some writer) :
    putRow faults work row =
      if faults.writes then
        (.ok (), { work with exporter := { work.exporter with
          writer := some { writer with rows := writer.rows ++ [row] }
          inPart := work.exporter.inPart + 1
          rows := work.exporter.rows + 1 } })
      else (.error .io, { work with
        exporter := { work.exporter with writer := some { writer with torn := true } } }) := by
  unfold putRow Writer.writeRow
  dsimp only
  rw [open']
  cases faults.writes <;> rfl

theorem putRow_closed {work : Work ρ} (gone : work.exporter.writer = none) :
    putRow faults work row = (.error alreadyFinished, work) := by
  rw [putRow, gone]

/-- A row put in the open part, or a writer that failed inside it. -/
theorem Open.put {work next : Work ρ} (progress : Open spec written closed current stagings pending work)
    (room : ∀ most ∈ work.exporter.limit, current.length < most) (put : putRow faults work row = (result, next)) :
    (result = .ok () ∧ Open spec (written ++ [row]) closed (current ++ [row]) stagings pending next) ∨
      (∃ error, result = .error error) ∧ next.exporter.halfDone = true := by
  rw [putRow_open progress.writer] at put
  split at put
  · cases put
    refine .inl ⟨rfl, ?_⟩
    exact {
      part := progress.part
      inPart := by rw [List.length_append, ← progress.inPart]; rfl
      writer := rfl
      files := progress.files
      staging := progress.staging
      staged := progress.staged
      apart := progress.apart
      rows := by rw [← List.append_assoc, progress.rows]
      full := progress.full
      room := fun most limited => by rw [List.length_append]; exact room most limited }
  · cases put
    exact .inr ⟨⟨.io, rfl⟩, rfl⟩

def ExportSpec.settings (spec : ExportSpec) : Format × Path × List Char × Option Nat :=
  (spec.format, spec.outDir, spec.basename, rowLimit spec.format spec.rowsPerFile)

theorem settings_eq {e : Exporter ρ} {spec : ExportSpec} (made : e.settings = spec.settings) :
    e.format = spec.format ∧ e.outDir = spec.outDir ∧ e.basename = spec.basename ∧
      e.limit = rowLimit spec.format spec.rowsPerFile := by
  simpa only [Exporter.settings, ExportSpec.settings, Prod.mk.injEq] using made

theorem path_of_settings {e : Exporter ρ} {spec : ExportSpec} (made : e.settings = spec.settings) (index : Nat) :
    e.path index = partPath spec.outDir spec.basename spec.format.extension index := by
  obtain ⟨format, outDir, basename, -⟩ := settings_eq made
  rw [Exporter.path, format, outDir, basename]

theorem renamed_of_settings {e : Exporter ρ} {spec : ExportSpec} (made : e.settings = spec.settings) :
    e.renamed = join spec.outDir (numbered spec.basename spec.format.extension 0) := by
  obtain ⟨format, outDir, basename, -⟩ := settings_eq made
  rw [Exporter.renamed, format, outDir, basename]

theorem Filling.named (progress : Filling written closed current stagings pending work) :
    Filling written closed current stagings pending (nameFirst work) := by
  unfold nameFirst
  dsimp only
  split
  · exact ⟨progress.writer, progress.staging, progress.staged, progress.apart, progress.rows⟩
  · exact progress

/-- After the first roll-over every part has a numbered name. -/
theorem nameFirst_files {work : Work ρ} {spec : ExportSpec} (made : work.exporter.settings = spec.settings)
    (files : work.exporter.files = listing spec (work.exporter.part + 1)) :
    (nameFirst work).exporter.files = several spec (work.exporter.part + 1) := by
  unfold nameFirst
  dsimp only
  split
  · next first =>
    dsimp only
    rw [files, renamed_of_settings made, first]
    rfl
  · next later =>
    rw [files]
    exact listing_many spec (by omega)

/-- How much of the export there is, while no writer has failed. -/
def Progress (spec : ExportSpec) (written : List ρ) (work : Work ρ) : Prop :=
  (∃ closed current stagings pending, Open spec written closed current stagings pending work ∧
    (closed ≠ [] → current ≠ [])) ∨
  ∃ parts, Between spec written parts work

theorem full_limit {e : Exporter ρ} (full : e.full = true) : ∃ limit, e.limit = some limit ∧ limit ≤ e.inPart := by
  unfold Exporter.full at full
  cases limited : e.limit with
  | none =>
    rw [limited] at full
    cases full
  | some limit =>
    rw [limited] at full
    exact ⟨limit, rfl, of_decide_eq_true full⟩

theorem room_of_not_full {e : Exporter ρ} (notFull : ¬e.full = true) : ∀ most ∈ e.limit, e.inPart < most := by
  intro most limited
  by_contra reached
  refine notFull ?_
  rw [Exporter.full, limited]
  exact decide_eq_true (Nat.le_of_not_lt reached)

@[simp] theorem nameFirst_part (work : Work ρ) : (nameFirst work).exporter.part = work.exporter.part := by
  unfold nameFirst
  dsimp only
  split <;> rfl

theorem nameFirst_settings (work : Work ρ) : (nameFirst work).exporter.settings = work.exporter.settings :=
  (@nameFirst_carries _ work.disk work).settings

/-- The part that was full and is closed leaves the export between two parts. -/
theorem Open.closing {work middle : Work ρ} {spec : ExportSpec} (made : work.exporter.settings = spec.settings)
    (progress : Open spec written closed current stagings pending work) (full : work.exporter.full = true)
    (went : closePart faults (nameFirst work) = (.ok (), middle)) :
    Between spec written (closed ++ [current]) { middle with exporter := middle.exporter.nextPart } := by
  obtain ⟨closes, released⟩ := progress.toFilling.named.close went
  obtain ⟨limit, limited, reached⟩ := full_limit full
  rw [progress.inPart] at reached
  have sameLimit : middle.exporter.limit = work.exporter.limit := by
    rw [released]
    exact congrArg (·.2.2.2) (nameFirst_settings work)
  have files : work.exporter.files = listing spec (work.exporter.part + 1) := by rw [progress.part, progress.files]
  exact {
    writer := closes.writer
    staged := closes.staged
    rows := closes.rows
    part := by
      rw [Exporter.nextPart, released, List.length_append]
      exact congrArg (· + 1) ((nameFirst_part work).trans progress.part)
    inPart := rfl
    files := by
      rw [Exporter.nextPart, released, List.length_append, List.length_singleton, ← progress.part]
      exact nameFirst_files made files
    full := fun part inside => by
      change middle.exporter.limit = some part.length
      rw [sameLimit]
      obtain before | last := List.mem_append.mp inside
      · exact progress.full part before
      · rw [List.mem_singleton.mp last, limited, Nat.le_antisymm (progress.room limit limited) reached]
    nonempty := by simp }

theorem Between.start {work next : Work ρ} {spec : ExportSpec} (between : Between spec written parts work)
    (made : work.exporter.settings = spec.settings) (seeing : Seeing faults) (tidy : Tidy faults spec.format)
    (ran : openPart faults work work.exporter.part = some (result, next)) :
    (∃ error, result = .error error) ∧ next = work ∨
      result = .ok () ∧ ∃ stagings pending, Open spec written parts [] stagings pending next := by
  obtain ⟨error, rfl, rfl⟩ | ⟨staging, rfl, absent, rfl⟩ := openPart_cases seeing ((settings_eq made).1 ▸ tidy) ran
  · exact .inl ⟨⟨error, rfl⟩, rfl⟩
  · have positive : 0 < parts.length := List.length_pos_iff.mpr between.nonempty
    refine .inr ⟨rfl, _, staging, between.toClosed.start between.part between.inPart absent ?_ between.full⟩
    rw [between.files, path_of_settings made, between.part, listing_many spec (by omega), several_succ spec positive]

/-- A roll-over from a full part: refused, stuck on a writer, stopped before the
next part, or on to an empty one. -/
theorem Open.roll {work next : Work ρ} {spec : ExportSpec} (made : work.exporter.settings = spec.settings)
    (seeing : Seeing faults) (tidy : Tidy faults spec.format)
    (progress : Open spec written closed current stagings pending work) (full : work.exporter.full = true)
    (ran : rollOver faults work = some (result, next)) :
    (∃ error, result = .error error) ∧
        (next = work ∨ next.exporter.halfDone = true ∨ Between spec written (closed ++ [current]) next) ∨
      result = .ok () ∧ ∃ stagings pending, Open spec written (closed ++ [current]) [] stagings pending next := by
  obtain ⟨error, rfl, rfl⟩ | ⟨-, ⟨error, rfl, failed⟩ | ⟨middle, went, opens⟩⟩ := rollOver_cases ran
  · exact .inl ⟨⟨error, rfl⟩, .inl rfl⟩
  · obtain ⟨_, disk, stuck⟩ | went := @closePart_cases _ _ faults _ progress.toFilling.named.writer
    · rw [stuck] at failed
      cases failed
      refine .inl ⟨⟨error, rfl⟩, .inr (.inl (decide_eq_true ?_))⟩
      change (nameFirst work).exporter.part < (nameFirst work).exporter.files.length
      rw [nameFirst_files made (by rw [progress.part, progress.files]), several_length, nameFirst_part]
      exact Nat.lt_succ_self _
    · rw [went] at failed
      cases failed
  · have between := progress.closing made full went
    have settings : middle.exporter.nextPart.settings = spec.settings := by
      rw [Exporter.nextPart, (progress.toFilling.named.close went).2]
      exact (nameFirst_settings work).trans made
    obtain ⟨failed, rfl⟩ | opened := between.start settings seeing tidy opens
    · exact .inl ⟨failed, .inr (.inr between)⟩
    · exact .inr opened

theorem Open.putProgress {work next : Work ρ} (open' : Open spec written closed current stagings pending work)
    (room : ∀ most ∈ work.exporter.limit, current.length < most) (put : putRow faults work row = (result, next)) :
    result = .ok () ∧ Progress spec (written ++ [row]) next ∨
      (∃ error, result = .error error) ∧ (next.exporter.halfDone = true ∨ Progress spec written next) := by
  obtain ⟨rfl, after⟩ | ⟨failed, torn⟩ := open'.put room put
  · exact .inl ⟨rfl, .inl ⟨_, _, _, _, after, fun _ => by simp⟩⟩
  · exact .inr ⟨failed, .inl torn⟩

/-- A row goes in as the next one, or it fails and leaves the export as far as it
was unless a writer failed. -/
theorem writeRow_progress {work next : Work ρ} {spec : ExportSpec} (made : work.exporter.settings = spec.settings)
    (seeing : Seeing faults) (tidy : Tidy faults spec.format) (progress : Progress spec written work)
    (ran : writeRow faults work row = some (result, next)) :
    result = .ok () ∧ Progress spec (written ++ [row]) next ∨
      (∃ error, result = .error error) ∧ (next.exporter.halfDone = true ∨ Progress spec written next) := by
  have positive : ∀ limit ∈ work.exporter.limit, 0 < limit := fun limit limited =>
    rowLimit_pos ((settings_eq made).2.2.2 ▸ limited)
  unfold writeRow at ran
  obtain ⟨closed, current, stagings, pending, open', begun⟩ | ⟨parts, between⟩ := progress
  · split at ran
    · next full =>
      obtain ⟨⟨rolled, middle⟩, went, rest⟩ := Option.map_eq_some_iff.mp ran
      obtain ⟨⟨error, rfl⟩, left⟩ | ⟨rfl, _, _, opened⟩ := open'.roll made seeing tidy full went
      · cases rest
        refine .inr ⟨⟨error, rfl⟩, ?_⟩
        obtain rfl | stuck | between := left
        · exact .inr (.inl ⟨_, _, _, _, open', begun⟩)
        · exact .inl stuck
        · exact .inr (.inr ⟨_, between⟩)
      · have settings : middle.exporter.settings = spec.settings :=
          (@rollOver_carries _ _ _ _ _ work.disk seeing ((settings_eq made).1 ▸ tidy) went).settings.trans made
        refine opened.putProgress (fun most limited => ?_) rest
        rw [(settings_eq settings).2.2.2] at limited
        exact rowLimit_pos limited
    · next notFull =>
      refine open'.putProgress (fun most limited => ?_) (Option.some.inj ran)
      rw [← open'.inPart]
      exact room_of_not_full notFull most limited
  · have notFull : ¬work.exporter.full = true := fun full => by
      obtain ⟨limit, limited, reached⟩ := full_limit full
      have := positive limit limited
      rw [between.inPart] at reached
      omega
    rw [if_neg notFull, putRow_closed between.writer] at ran
    cases ran
    exact .inr ⟨⟨_, rfl⟩, .inr (.inr ⟨parts, between⟩)⟩

/-! ### The commit -/

theorem Open.split {work : Work ρ} {spec : ExportSpec} (open' : Open spec written closed current stagings pending work)
    (made : work.exporter.settings = spec.settings) (begun : closed ≠ [] → current ≠ []) :
    Split (rowLimit spec.format spec.rowsPerFile) written (closed ++ [current]) := by
  have limit := (settings_eq made).2.2.2
  have single : current = [] → closed = [] := fun empty => by_contra fun more => begun more empty
  have last : ∀ part ∈ (closed ++ [current]).getLast?, part = current := by
    intro part inside
    rw [List.getLast?_concat] at inside
    exact (Option.some.inj inside).symm
  refine ⟨by rw [List.flatten_append, List.flatten_singleton, open'.rows], ?_, ?_, ?_, ?_⟩
  · rw [List.dropLast_concat, ← limit]
    exact open'.full
  · rintro part inside most limited
    rw [last part inside]
    exact open'.room most (limit ▸ limited)
  · rintro part inside some' empty
    rw [last part inside] at empty
    rw [← open'.rows, empty, single empty] at some'
    exact some' rfl
  · intro empty
    have nothing := open'.rows
    rw [empty] at nothing
    have gone := (List.append_eq_nil_iff.mp nothing).2
    rw [gone, single gone]
    rfl

theorem Between.split {work : Work ρ} {spec : ExportSpec} (between : Between spec written parts work)
    (made : work.exporter.settings = spec.settings) :
    Split (rowLimit spec.format spec.rowsPerFile) written parts := by
  have limit := (settings_eq made).2.2.2
  have full : ∀ part ∈ parts, rowLimit spec.format spec.rowsPerFile = some part.length := limit ▸ between.full
  have begun : ∀ part ∈ parts, part ≠ [] := by
    rintro part inside rfl
    exact absurd (rowLimit_pos (full [] inside)) (Nat.lt_irrefl 0)
  refine ⟨between.rows, fun part inside => full part (List.dropLast_subset parts inside), ?_, ?_, ?_⟩
  · intro part last most limited
    rw [full part (List.mem_of_getLast? last)] at limited
    exact Nat.le_of_eq (Option.some.inj limited)
  · exact fun part last _ => begun part (List.mem_of_getLast? last)
  · intro empty
    obtain ⟨part, inside⟩ := List.exists_mem_of_ne_nil parts between.nonempty
    have nothing : part = [] := List.flatten_eq_nil_iff.mp (between.rows.trans empty) part inside
    exact absurd nothing (begun part inside)

theorem Split.nonempty (split : Split limit rows parts) : parts ≠ [] := by
  rintro rfl
  exact List.cons_ne_nil _ _ (split.empty split.whole.symm).symm

theorem commit_delivers {work next : Work ρ} {spec : ExportSpec} (seeing : Seeing faults) (clean : Clean start work)
    (closed : Closed written parts work) (split : Split (rowLimit spec.format spec.rowsPerFile) written parts)
    (names : work.exporter.files = listing spec parts.length) (ran : commit faults work = (.ok (), next)) :
    Delivered spec start next.disk written work.exporter.files ∧ 0 < next.placed ∧
      next.exporter = { work.exporter with staging := [] } := by
  have paired : work.exporter.files.length = work.exporter.staging.length := by
    rw [names, listing_length, closed.staged.sheets.length_eq]
  have count : work.exporter.files.length = parts.length := by rw [names, listing_length]
  have some' : 0 < parts.length := List.length_pos_iff.mpr split.nonempty
  unfold commit at ran
  dsimp only at ran
  split at ran
  · cases ran
  next checks =>
  generalize placing : placeAll faults work.disk work.placed (work.exporter.staging.zip work.exporter.files) =
    outcome at ran
  obtain ⟨result, disk, placed⟩ := outcome
  cases ran
  by_cases several' : 1 < parts.length
  · rw [count, if_pos several'] at checks
    have free : ∀ file ∈ work.exporter.files, work.disk file = none := fun file inside =>
      requireFree_ok seeing (forM_ok checks file inside)
    have apart : work.exporter.files.Nodup := by
      rw [names, listing_many spec (by omega)]
      exact several_nodup spec _
    obtain ⟨moved, counted, -⟩ := placeAll_moves closed.staged paired free apart placing
    refine ⟨⟨by rw [count, names], ⟨parts, split, moved.imp fun _ _ => read_file⟩, ?_⟩, ?_, rfl⟩
    · exact fun _ file inside => clean.absent (free file inside)
    · change 0 < placed
      omega
  · obtain ⟨part, rfl⟩ := List.length_eq_one_iff.mp (by omega : parts.length = 1)
    obtain ⟨final, files⟩ := List.length_eq_one_iff.mp count
    obtain ⟨staging, stagings⟩ := List.length_eq_one_iff.mp (paired.symm.trans count)
    have sheet := closed.staged.sheets
    rw [stagings] at sheet placing
    rw [files] at placing
    cases sheet with | cons sheet _ =>
    rw [List.zip_cons_cons, placeAll] at placing
    split at placing
    · next after moved =>
      cases placing
      refine ⟨⟨by rw [count, names], ⟨[part], split, ?_⟩, ?_⟩, Nat.succ_pos _, rfl⟩
      · rw [files]
        exact .cons (place_read sheet moved) .nil
      · intro many
        rw [files] at many
        exact absurd many (Nat.lt_irrefl 1)
    · cases placing

/-- A `finish` that returns `Ok` on an export with all of its parts delivers the rows. -/
theorem finish_delivers {work next : Work ρ} {spec : ExportSpec} (made : work.exporter.settings = spec.settings)
    (seeing : Seeing faults) (clean : Clean start work) (progress : Progress spec written work)
    (whole : work.exporter.whole) (ran : finish faults work = (.ok (), next)) :
    Delivered spec start next.disk written next.exporter.files ∧ 0 < next.placed ∧
      next.exporter.finished = true ∧ next.exporter.staging = [] ∧ next.exporter.writer = none := by
  obtain ⟨closed, went, committed, -⟩ | ⟨_, failed, -⟩ := finish_cases whole.1 ran
  · have marked : Clean start work.marked := ⟨clean.untouched, clean.fresh, clean.writing, clean.named⟩
    have closing : Carries start work.marked (closePart faults work.marked).2 := closePart_carries _ _
    rw [went] at closing
    have finished : closed.exporter.finished = true := closing.finished
    obtain ⟨parts, current, stagings, pending, open', begun⟩ | ⟨parts, between⟩ := progress
    · have filling : Filling written parts current stagings pending work.marked :=
        ⟨open'.writer, open'.staging, open'.staged, open'.apart, open'.rows⟩
      obtain ⟨closes, released⟩ := filling.close went
      have names : closed.exporter.files = listing spec (parts ++ [current]).length := by
        rw [released, List.length_append]
        exact open'.files
      obtain ⟨delivered, moved, after⟩ :=
        commit_delivers seeing (closing.clean marked) closes (open'.split made begun) names committed
      rw [after]
      exact ⟨delivered, moved, finished, rfl, closes.writer⟩
    · have gone : work.marked.exporter.writer = none := between.writer
      rw [closePart_none gone] at went
      cases went
      have several' : parts.length ≠ 1 := fun one =>
        whole.2 (by rw [between.writer]; rfl) (between.part.trans one)
      have closes : Closed written parts work.marked := ⟨between.writer, between.staged, between.rows⟩
      have names : work.exporter.files = listing spec parts.length := by
        rw [listing_many spec several']
        exact between.files
      obtain ⟨delivered, moved, after⟩ :=
        commit_delivers seeing (closing.clean marked) closes (between.split made) names committed
      rw [after]
      exact ⟨delivered, moved, finished, rfl, closes.writer⟩
  · cases failed

/-! ### Whole exports -/

/-- An export that was delivered has its rows in the files it lists; one that moved
no file has left what was there, and nothing of its own once it is over. -/
structure Kept (start : Folder ρ) (w : World ρ) : Prop where
  delivered : ∀ files, w.report = some files → Delivered w.spec start w.disk w.written files
  untouched : w.placed = 0 → ∀ path, start path ≠ none → w.disk path = start path
  restored : w.placed = 0 → (∀ e ∈ w.exporter, e.finished = true) → w.disk = start

/-- What holds of an exporter in the world it works in. -/
structure Sound (start : Folder ρ) (w : World ρ) (e : Exporter ρ) : Prop where
  made : e.settings = w.spec.settings
  clean : w.placed = 0 → Clean start (w.work e)
  ended : e.finished = true → e.staging = [] ∧ e.writer = none
  running : e.finished = false → w.placed = 0 ∧ w.delivered = false ∧ w.report = none
  progress : e.finished = false → w.spoiled = false → Progress w.spec w.written (w.work e)
  listed : ∀ files, w.report = some files → e.files = files

structure Invariant (spec : ExportSpec) (start : Folder ρ) (w : World ρ) : Prop where
  asked : w.spec = spec
  fresh : w.fresh = true → w = World.begin spec start
  exporter : ∀ e ∈ w.exporter, Sound start w e
  gone : w.exporter = none → w.placed = 0 → w.disk = start
  reported : w.report.isSome → w.delivered = true
  delivered : w.delivered = true → ∃ files, w.report = some files ∧ Delivered w.spec start w.disk w.written files

theorem Invariant.kept (inv : Invariant spec start w) : Kept start w := by
  refine ⟨fun files reported => ?_, fun none' path there => ?_, fun none' ended => ?_⟩
  · obtain ⟨others, same, delivered⟩ := inv.delivered (inv.reported (by rw [reported]; rfl))
    rw [reported] at same
    exact Option.some.inj same ▸ delivered
  · cases held : w.exporter with
    | none => rw [inv.gone held none']
    | some e =>
      have clean := (inv.exporter e held).clean none'
      exact clean.untouched path fun staged => there (clean.fresh path staged)
  · cases held : w.exporter with
    | none => exact inv.gone held none'
    | some e =>
      have sound := inv.exporter e held
      funext path
      refine (sound.clean none').untouched path fun staged => ?_
      rw [World.work, (sound.ended (ended e held)).1] at staged
      exact List.not_mem_nil staged

theorem invariant_begin (spec : ExportSpec) (start : Folder ρ) : Invariant spec start (World.begin spec start) where
  asked := rfl
  fresh _ := rfl
  exporter _ held := by cases held
  gone _ _ := rfl
  reported some' := by cases some'
  delivered done := by cases done

/-- What `new` did: nothing, or it left an exporter with an empty first part. -/
theorem newExporter_cases {start : Folder ρ} {spec : ExportSpec} {work : Work ρ} (seeing : Seeing faults)
    (tidy : Tidy faults spec.format) (ran : newExporter faults start spec = some (result, work)) :
    (∃ error, result = .error error) ∧ work.disk = start ∨
      result = .ok () ∧ work.exporter.settings = spec.settings ∧ work.exporter.finished = false ∧ work.placed = 0 ∧
        Clean start work ∧ Progress spec [] work := by
  have begin' : Clean start (⟨spec.exporter, start, 0⟩ : Work ρ) :=
    ⟨fun _ _ => rfl, fun _ inside => absurd inside List.not_mem_nil, (fun _ none' => by cases none'), Nat.le_refl 0⟩
  have closed : Closed [] [] (⟨spec.exporter, start, 0⟩ : Work ρ) := ⟨rfl, ⟨.nil, .nil⟩, rfl⟩
  unfold newExporter at ran
  dsimp only at ran
  split at ran
  · cases ran
    exact .inl ⟨⟨.io, rfl⟩, rfl⟩
  · have carries := @openPart_carries _ _ _ _ _ _ start seeing tidy ran
    obtain ⟨error, rfl, rfl⟩ | ⟨staging, rfl, absent, rfl⟩ := openPart_cases seeing tidy ran
    · exact .inl ⟨⟨error, rfl⟩, rfl⟩
    · refine .inr ⟨rfl, carries.settings, carries.finished, carries.placed, carries.clean begin', .inl ?_⟩
      have opened := @Closed.start _ _ _ _ _ 0 spec closed rfl rfl absent rfl fun _ inside =>
        absurd inside List.not_mem_nil
      exact ⟨[], [], [], staging, opened, fun some' => absurd rfl some'⟩

theorem new_invariant (inv : Invariant spec start w) (sane : Sane w (.new faults))
    (ran : step w (.new faults) = some next) :
    Invariant spec start next := by
  obtain ⟨seeing, tidy⟩ := sane
  dsimp only [step] at ran
  split at ran
  · next fresh =>
    obtain rfl := inv.fresh fresh
    obtain ⟨⟨result, work⟩, made, rfl⟩ := Option.map_eq_some_iff.mp ran
    obtain ⟨⟨error, rfl⟩, same⟩ | ⟨rfl, settings, finished, none', clean, progress⟩ :=
      newExporter_cases seeing tidy made
    · exact {
        asked := rfl
        fresh := fun no => by cases no
        exporter := fun _ held => by cases held
        gone := fun _ _ => same
        reported := fun some' => by cases some'
        delivered := fun done => by cases done }
    · exact {
        asked := rfl
        fresh := fun no => by cases no
        exporter := fun e held => by
          cases held
          exact {
            made := settings
            clean := fun _ => clean
            ended := fun ended => absurd (finished.symm.trans ended) (by decide)
            running := fun _ => ⟨none', rfl, rfl⟩
            progress := fun _ _ => progress
            listed := fun _ listed => by cases listed }
        gone := fun none' => by cases none'
        reported := fun some' => by cases some'
        delivered := fun done => by cases done }
  · cases ran

/-- A row written or missed, while the export is not finished, keeps the invariant. -/
theorem Invariant.carry {w : World ρ} (inv : Invariant spec start w) (held : w.exporter = some e)
    (unfinished : e.finished = false) (carries : Carries start (w.work e) work) (written : List ρ) (spoiled : Bool)
    (progress : spoiled = false → Progress w.spec written work) :
    Invariant spec start { w.after work with written := written, spoiled := spoiled } := by
  have sound := inv.exporter e held
  have ⟨none', undelivered, unreported⟩ := sound.running unfinished
  have still : work.exporter.finished = false := carries.finished.trans unfinished
  exact {
    asked := inv.asked
    fresh := fun fresh => by
      have begin' := inv.fresh fresh
      rw [begin'] at held
      cases held
    exporter := fun later same => by
      cases same
      exact {
        made := carries.settings.trans sound.made
        clean := fun _ => carries.clean (sound.clean none')
        ended := fun ended => absurd (still.symm.trans ended) (by decide)
        running := fun _ => ⟨carries.placed.trans none', undelivered, unreported⟩
        progress := fun _ => progress
        listed := fun files listed => by cases unreported.symm.trans listed }
    gone := fun nothing => by cases nothing
    reported := inv.reported
    delivered := fun done => absurd (undelivered.symm.trans done) (by decide) }

theorem after_work {w : World ρ} (held : w.exporter = some e) : w.after (w.work e) = w := by
  cases w
  cases held
  rfl

theorem writeRow_over {work next : Work ρ} (writer : work.exporter.writer = none) (notFull : work.exporter.full = false)
    (ran : writeRow faults work row = some (result, next)) : result = .error alreadyFinished ∧ next = work := by
  rw [writeRow, notFull, putRow_closed writer] at ran
  cases ran
  exact ⟨rfl, rfl⟩

theorem writeRow_invariant (inv : Invariant spec start w) (sane : Sane w (.writeRow row faults))
    (ran : step w (.writeRow row faults) = some next) : Invariant spec start next := by
  obtain ⟨seeing, tidy, notFull⟩ := sane
  obtain ⟨e, held, ran⟩ := Option.bind_eq_some_iff.mp ran
  obtain ⟨⟨result, work⟩, wrote, rfl⟩ := Option.map_eq_some_iff.mp ran
  have sound := inv.exporter e held
  cases finished : e.finished with
  | true =>
    obtain ⟨rfl, rfl⟩ := writeRow_over (sound.ended finished).2 (notFull e held finished) wrote
    change Invariant spec start { w.after (w.work e) with spoiled := w.spoiled || !true && e.halfDone }
    rw [after_work held, Bool.not_true, Bool.false_and, Bool.or_false]
    exact inv
  | false =>
    have carries : Carries start (w.work e) work := writeRow_carries seeing ((settings_eq sound.made).1 ▸ tidy) wrote
    cases result with
    | ok _ =>
      refine inv.carry held finished carries (w.written ++ [row]) w.spoiled fun unspoiled => ?_
      obtain ⟨-, progress⟩ | ⟨⟨_, failed⟩, -⟩ :=
        writeRow_progress sound.made seeing tidy (sound.progress finished unspoiled) wrote
      · exact progress
      · cases failed
    | error error =>
      refine inv.carry held finished carries w.written _ fun unspoiled => ?_
      rw [Bool.or_eq_false_iff] at unspoiled
      obtain ⟨failed, -⟩ | ⟨-, half | progress⟩ :=
        writeRow_progress sound.made seeing tidy (sound.progress finished unspoiled.1) wrote
      · cases failed
      · rw [half] at unspoiled
        exact absurd unspoiled.2 (by decide)
      · exact progress

theorem finish_settings {work next : Work ρ} (ran : finish faults work = (result, next)) :
    next.exporter.settings = work.exporter.settings := by
  have commits : ∀ work : Work ρ, (commit faults work).2.exporter.settings = work.exporter.settings := by
    intro work
    unfold commit
    dsimp only
    split <;> rfl
  have closes : (closePart faults work.marked).2.exporter.settings = work.exporter.settings :=
    (@closePart_carries _ work.disk faults work.marked).settings
  cases finished : work.exporter.finished with
  | true =>
    rw [finish, finished] at ran
    cases ran
    rfl
  | false =>
    obtain ⟨closed, went, committed, -⟩ | ⟨_, -, ⟨closed, went, rfl⟩ | ⟨closed, failed, went, broke, rfl⟩⟩ :=
      finish_cases finished ran
    all_goals rw [went] at closes
    · have same := commits closed
      rw [committed] at same
      exact same.trans closes
    · exact closes
    · have same := commits closed
      rw [broke] at same
      exact same.trans closes

/-- An export that is over keeps the invariant through a call that moves or restores. -/
theorem Invariant.ended {w next : World ρ} (inv : Invariant spec start w) (held : w.exporter = some e)
    (asked : next.spec = w.spec) (fresh : next.fresh = w.fresh) (later : next.exporter = some e')
    (settings : e'.settings = e.settings) (finished : e'.finished = true) (staging : e'.staging = [])
    (writer : e'.writer = none) (disk : next.placed = 0 → next.disk = start)
    (reported : next.report.isSome → next.delivered = true)
    (delivered : next.delivered = true →
      next.report = some e'.files ∧ Delivered next.spec start next.disk next.written e'.files) :
    Invariant spec start next where
  asked := asked.trans inv.asked
  fresh fresh' := by
    have begin' := inv.fresh (fresh.symm.trans fresh')
    rw [begin'] at held
    cases held
  exporter other same := by
    rw [later] at same
    cases same
    exact {
      made := by rw [settings, (inv.exporter e held).made, asked]
      clean := fun none' => by
        refine ⟨fun path _ => congrFun (disk none') path, fun path inside => ?_, fun w open' => ?_, ?_⟩
        · rw [World.work, staging] at inside
          exact absurd inside List.not_mem_nil
        · rw [World.work, writer] at open'
          cases open'
        · rw [World.work, staging]
          exact Nat.zero_le _
      ended := fun _ => ⟨staging, writer⟩
      running := fun running => absurd (running.symm.trans finished) (by decide)
      progress := fun running => absurd (running.symm.trans finished) (by decide)
      listed := fun files listed => by
        have same := (delivered (reported (by rw [listed]; rfl))).1
        rw [listed] at same
        exact (Option.some.inj same).symm }
  gone nothing := by
    rw [later] at nothing
    cases nothing
  reported := reported
  delivered done := ⟨_, delivered done⟩

theorem finish_invariant (inv : Invariant spec start w) (sane : Sane w (.finish faults))
    (ran : step w (.finish faults) = some next) : Invariant spec start next := by
  obtain ⟨seeing, removing, allowed⟩ := sane
  obtain ⟨e, held, rfl⟩ := Option.map_eq_some_iff.mp ran
  have sound := inv.exporter e held
  cases finished : e.finished with
  | true =>
    -- only an export that was delivered may be finished again
    obtain done | ⟨-, whole⟩ := allowed
    · obtain ⟨files, reported, -⟩ := inv.delivered done
      have again : finish faults (w.work e) = (.ok (), w.work e) := if_pos finished
      rw [again]
      change Invariant spec start
        { w.after (w.work e) with delivered := w.delivered || !true, report := some e.files }
      rw [after_work held, Bool.not_true, Bool.or_false, sound.listed files reported, ← reported]
      exact inv
    · exact absurd ((whole e held).1.symm.trans finished) (by decide)
  | false =>
    have ⟨none', undelivered, unreported⟩ := sound.running finished
    have clean := sound.clean none'
    generalize went : finish faults (w.work e) = outcome
    obtain ⟨result, work⟩ := outcome
    have settings : work.exporter.settings = e.settings := finish_settings went
    cases result with
    | ok _ =>
      obtain done | ⟨unspoiled, whole⟩ := allowed
      · exact absurd (undelivered.symm.trans done) (by decide)
      obtain ⟨delivered, moved, ended, staging, writer⟩ :=
        finish_delivers sound.made seeing clean (sound.progress finished unspoiled) (whole e held) went
      refine inv.ended held rfl rfl rfl settings ended staging writer ?_ ?_ ?_
      · exact fun still => absurd (still : work.placed = 0) (Nat.ne_of_gt moved)
      · exact fun _ => Bool.or_true w.delivered
      · exact fun _ => ⟨rfl, delivered⟩
    | error error =>
      obtain ⟨ended, staging, writer, restored⟩ := finish_failed removing clean finished went
      refine inv.ended held rfl rfl rfl settings ended staging writer ?_ ?_ ?_
      · exact fun still => restored (still.trans none'.symm)
      · exact inv.reported
      · exact fun done => absurd (undelivered.symm.trans done) (by decide)

/-- Throwing an export away restores the folder, or leaves it when it was over. -/
theorem abort_kept (inv : Invariant spec start w) (removing : Removing faults) (held : w.exporter = some e) :
    (w.placed = 0 → (abort faults (w.work e)).disk = start) ∧
      (w.delivered = true → w.report = some e.files ∧
        Delivered w.spec start (abort faults (w.work e)).disk w.written e.files) := by
  have sound := inv.exporter e held
  refine ⟨fun none' => abort_restores removing (sound.clean none'), fun done => ?_⟩
  obtain ⟨files, reported, delivered⟩ := inv.delivered done
  have ended : e.finished = true := by
    by_contra running
    have undelivered := (sound.running (eq_false_of_ne_true running)).2.1
    exact absurd (undelivered.symm.trans done) (by decide)
  have still : (abort faults (w.work e)).disk = w.disk := by
    change removeFiles faults w.disk e.staging = w.disk
    rw [(sound.ended ended).1]
    rfl
  rw [still, sound.listed files reported]
  exact ⟨reported, delivered⟩

theorem abort_invariant (inv : Invariant spec start w) (removing : Removing faults)
    (ran : step w (.abort faults) = some next) : Invariant spec start next := by
  obtain ⟨e, held, rfl⟩ := Option.map_eq_some_iff.mp ran
  obtain ⟨restored, delivered⟩ := abort_kept inv removing held
  exact inv.ended held rfl rfl rfl rfl rfl rfl rfl restored inv.reported delivered

theorem drop_invariant (inv : Invariant spec start w) (removing : Removing faults)
    (ran : step w (.drop faults) = some next) : Invariant spec start next := by
  obtain ⟨e, held, rfl⟩ := Option.map_eq_some_iff.mp ran
  obtain ⟨restored, delivered⟩ := abort_kept inv removing held
  exact {
    asked := inv.asked
    fresh := fun fresh => by
      have begin' := inv.fresh fresh
      rw [begin'] at held
      cases held
    exporter := fun _ same => by cases same
    gone := fun _ => restored
    reported := inv.reported
    delivered := fun done => ⟨e.files, delivered done⟩ }

/-- `mark_cancelled` changes nothing that is written. -/
def Exporter.stopped (e : Exporter ρ) : Exporter ρ := { e with cancelled := true }

theorem Progress.stopped {w : World ρ} (progress : Progress spec written (w.work e)) :
    Progress spec written (w.work e.stopped) := by
  obtain ⟨closed, current, stagings, pending, open', begun⟩ | ⟨parts, between⟩ := progress
  · refine .inl ⟨closed, current, stagings, pending, ?_, begun⟩
    exact ⟨⟨open'.writer, open'.staging, open'.staged, open'.apart, open'.rows⟩, open'.part, open'.inPart, open'.files,
      open'.full, open'.room⟩
  · refine .inr ⟨parts, ?_⟩
    exact ⟨⟨between.writer, between.staged, between.rows⟩, between.part, between.inPart, between.files, between.full,
      between.nonempty⟩

theorem cancelled_invariant (inv : Invariant spec start w) (ran : step w .markCancelled = some next) :
    Invariant spec start next := by
  obtain ⟨e, held, rfl⟩ := Option.map_eq_some_iff.mp ran
  have sound := inv.exporter e held
  by_cases finished : e.finished = true
  · obtain ⟨staging, writer⟩ := sound.ended finished
    refine inv.ended held rfl rfl rfl rfl finished staging writer (fun none' => ?_) inv.reported fun done => ?_
    · exact inv.kept.restored none' fun other same => by
        rw [held] at same
        cases same
        exact finished
    · obtain ⟨files, reported, delivered⟩ := inv.delivered done
      change w.report = some e.files ∧ Delivered w.spec start w.disk w.written e.files
      rw [sound.listed files reported]
      exact ⟨reported, delivered⟩
  · have carries : Carries start (w.work e) (w.work e.stopped) :=
      ⟨fun clean => ⟨clean.untouched, clean.fresh, clean.writing, clean.named⟩, rfl, rfl, rfl⟩
    exact inv.carry held (eq_false_of_ne_true finished) carries w.written w.spoiled fun unspoiled =>
      (sound.progress (eq_false_of_ne_true finished) unspoiled).stopped

theorem step_invariant (w : World ρ) (action : Action ρ) (next : World ρ) (inv : Invariant spec start w)
    (sane : Sane w action) (ran : step w action = some next) : Invariant spec start next := by
  cases action with
  | new faults => exact new_invariant inv sane ran
  | writeRow row faults => exact writeRow_invariant inv sane ran
  | markCancelled => exact cancelled_invariant inv ran
  | finish faults => exact finish_invariant inv sane ran
  | abort faults => exact abort_invariant inv sane ran
  | drop faults => exact drop_invariant inv sane ran

/-- In every run of calls that meet the conditions of `Sane`, on any folder, an
export that reports its files has delivered them, and one that moved none has left
what was there. -/
theorem export_kept (spec : ExportSpec) (start : Folder ρ) (actions : List (Action ρ)) (w : World ρ)
    (sane : Along step Sane (World.begin spec start) actions)
    (ran : run step (World.begin spec start) actions = some w) :
    Kept start w :=
  (run_invariant_along (Invariant spec start) step_invariant (invariant_begin spec start) sane ran).kept

def smallSpec : ExportSpec := { format := .csv, outDir := ['/', 'o'], basename := ['r'], rowsPerFile := some 1 }

theorem export_kept_split :
    ∃ w, run step (World.begin smallSpec fun _ => none)
        [.new {}, .writeRow 7 {}, .writeRow 8 {}, .finish {}] = some w ∧
      w.report = some (listing smallSpec 2) ∧ Kept (fun _ => none) w := by
  refine ⟨_, rfl, rfl, export_kept smallSpec (fun _ => none)
    [.new {}, .writeRow 7 {}, .writeRow 8 {}, .finish {}] _ ?_ rfl⟩
  have seeing : Seeing {} := fun _ => rfl
  have tidy : Tidy {} Format.csv := fun broke => by cases broke
  refine along_cons ⟨seeing, tidy⟩ rfl (along_cons ⟨seeing, tidy, ?_⟩ rfl (along_cons ⟨seeing, tidy, ?_⟩ rfl
    (along_cons ⟨seeing, fun _ => rfl, .inr ⟨rfl, ?_⟩⟩ rfl along_nil)))
  · intro e held finished
    cases held
    cases finished
  · intro e held finished
    cases held
    cases finished
  · intro e held
    cases held
    exact ⟨rfl, fun gone => by cases gone⟩

/-- The disk fills up while the first writer writes its header: `open` fails with
its file created, the path is not yet recorded, and the file stays. -/
theorem failed_open_leaves_staged :
    ∃ w, run step (World.begin smallSpec fun _ => none) [.new { opening := .broke }] = some w ∧
      ¬Kept (ρ := Nat) (fun _ => none) w := by
  refine ⟨_, rfl, fun kept => ?_⟩
  have empty := congrFun (kept.restored rfl fun _ held => by cases held)
    (plainStaging (join ['/', 'o'] ['r', '.', 'c', 's', 'v']))
  cases empty

end QueryHive.Export
