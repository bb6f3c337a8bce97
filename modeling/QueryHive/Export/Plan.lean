import QueryHive.Library.Files
import QueryHive.Library.Numeral
import QueryHive.Library.Text

/-! One export, possibly several files. Every part is written under a staged name
next to its target and moved there by `finish`. Any file operation and any call of
a writer may fail: what fails is an input of each call, like the folder the export
finds. -/
namespace QueryHive.Export
open QueryHive.Library.Files QueryHive.Library.Numeral QueryHive.Library.Text

inductive Format where
  | text | csv | json | xml | html | sql | xlsx | xls | dbf | parquet
  deriving DecidableEq, Repr

def Format.extension : Format → List Char
  | .text => ['t', 'x', 't']
  | .csv => ['c', 's', 'v']
  | .json => ['j', 's', 'o', 'n']
  | .xml => ['x', 'm', 'l']
  | .html => ['h', 't', 'm', 'l']
  | .sql => ['s', 'q', 'l']
  | .xlsx => ['x', 'l', 's', 'x']
  | .xls => ['x', 'l', 's']
  | .dbf => ['d', 'b', 'f']
  | .parquet => ['p', 'a', 'r', 'q', 'u', 'e', 't']

/-- Data rows per file before the export splits into parts. -/
def Format.maxRows : Format → Option Nat
  | .xls => some (65536 - 1)
  | .xlsx => some (1048576 - 1)
  | _ => none

/-- The one writer that keeps its rows and creates its file when it finishes. -/
def Format.late (format : Format) : Bool := format = .xls

/-- `row_limit`: the smaller of the two ceilings, a zero being none. -/
def rowLimit (format : Format) (rowsPerFile : Option Nat) : Option Nat :=
  (([format.maxRows, rowsPerFile].filterMap id).filter (0 < ·)).min?

abbrev Path := List Char

/-- `Path::join`: an absolute name replaces the folder. -/
def join (folder name : Path) : Path :=
  if name.head? = some '/' then name
  else if folder = [] ∨ folder.getLast? = some '/' then folder ++ name
  else folder ++ '/' :: name

/-- The name of part `index` when the export is split. -/
def numbered (basename extension : List Char) (index : Nat) : List Char :=
  basename ++ (['_', 'p', 'a', 'r', 't'] ++ (padded 2 (index + 1) ++ '.' :: extension))

/-- `part_path`: part zero has the plain name, later ones are numbered from one. -/
def partPath (outDir : Path) (basename extension : List Char) (index : Nat) : Path :=
  if index = 0 then join outDir (basename ++ '.' :: extension) else join outDir (numbered basename extension index)

def isSlash (c : Char) : Bool := c == '/'

/-- `file_name`: the last component of a path. -/
def fileName (path : Path) : List Char :=
  match splitLast isSlash path with
  | some (_, _, name) => name
  | none => path

/-- `with_file_name`. -/
def withFileName (path : Path) (name : List Char) : Path :=
  match splitLast isSlash path with
  | some (folder, slash, _) => folder ++ slash :: name
  | none => name

def partSuffix : List Char := ['.', 'q', 'h', 'p', 'a', 'r', 't']

def plainStaging (final : Path) : Path := withFileName final ('.' :: (fileName final ++ partSuffix))

def uniqueStaging (final : Path) (process counter : Nat) : Path :=
  withFileName final ('.' :: (fileName final ++ '.' :: (padded 0 process ++ '-' :: (padded 0 counter ++ partSuffix))))

inductive ExportError where
  | io
  | usage (message : String)
  deriving DecidableEq, Repr

/-- What a file holds: another program's bytes, a part whose writer has not
finished, or the rows of a part, spoiled if a row went in only partly. -/
inductive Content (ρ : Type) where
  | foreign (bytes : List UInt8)
  | unfinished
  | sheet (rows : List ρ) (torn : Bool)
  deriving DecidableEq, Repr

/-- How `open` goes: it may fail before or after it has created the file. -/
inductive Opening where
  | opened | refused | broke
  deriving DecidableEq, Repr

/-- How a writer's `finish` goes: it may fail with a file begun or not. -/
inductive Closing where
  | closed | refused | broke
  deriving DecidableEq, Repr

/-- How the operations inside one call go. `hidden` is a look-up that fails on a
path where something is; `unseen` is the one `place` makes. The counter is the
one the search for a free staged name stops at. -/
structure Faults where
  makesDir : Bool := true
  hidden : Path → Bool := fun _ => false
  process : Nat := 0
  counter : Nat := 0
  opening : Opening := .opened
  writes : Bool := true
  closing : Closing := .closed
  unseen : Path → Bool := fun _ => false
  resolves : Path → Bool := fun _ => true
  permits : Path → Bool := fun _ => true
  renames : Path → Bool := fun _ => true
  removes : Path → Bool := fun _ => true

abbrev Folder (ρ : Type) := Disk Path (Content ρ)

variable {ρ : Type}

/-- `symlink_metadata(path).is_ok()`. -/
def visible (faults : Faults) (disk : Folder ρ) (path : Path) : Bool := (disk path).isSome && !faults.hidden path

/-- `require_free`: refuse to put a part where a file already is. -/
def requireFree (faults : Faults) (disk : Folder ρ) (path : Path) : Except ExportError Unit :=
  if visible faults disk path then
    .error (.usage (String.ofList path ++ " already exists, and a split export does not replace a part. " ++
      "Move or delete it, or choose another name."))
  else .ok ()

/-- `staging_path`: the plain name while it is free, else one that is; nothing
where the search would not stop at this counter. -/
def stagingPath (faults : Faults) (disk : Folder ρ) (final : Path) : Option Path :=
  if !visible faults disk (plainStaging final) then some (plainStaging final)
  else
    let unique := uniqueStaging final faults.process faults.counter
    if visible faults disk unique then none else some unique

/-- `remove_file` with its error dropped. -/
def removeFile (faults : Faults) (disk : Folder ρ) (path : Path) : Folder ρ :=
  if faults.removes path then disk.remove path else disk

def removeFiles (faults : Faults) (disk : Folder ρ) (paths : List Path) : Folder ρ :=
  paths.foldl (removeFile faults) disk

/-- Where `place` moves a file to: a link is followed. -/
def placeTarget (faults : Faults) (disk : Folder ρ) (final : Path) : Except ExportError Path :=
  match disk final with
  | some (.link _) =>
    if faults.unseen final then .ok final
    else match disk.canonicalize final with
      | some target => if faults.resolves final then .ok target else .error dangling
      | none => .error dangling
  | _ => .ok final
where
  dangling : ExportError :=
    .usage (String.ofList final ++ " is a symbolic link that points nowhere. Remove it or choose another name.")

/-- `metadata(target).is_file()`. -/
def isFile : Option (Node Path (Content ρ)) → Bool
  | some (.file _) => true
  | _ => false

/-- `place`: move a staged file onto its target. A file that is replaced lends its
permissions first. -/
def place (faults : Faults) (disk : Folder ρ) (staging final : Path) : Except ExportError (Folder ρ) :=
  match placeTarget faults disk final with
  | .error error => .error error
  | .ok target =>
    if isFile (disk target) && !faults.permits staging then .error .io
    else if !faults.renames staging then .error .io
    else match disk.rename staging target with
      | some disk => .ok disk
      | none => .error .io

/-- An open writer: its file, the rows it took, and whether one went in only partly. -/
structure Writer (ρ : Type) where
  path : Path
  rows : List ρ
  torn : Bool
  deriving DecidableEq, Repr

/-- `open`: most writers create their file here. -/
def openWriter (faults : Faults) (format : Format) (disk : Folder ρ) (path : Path) :
    Except ExportError (Writer ρ) × Folder ρ :=
  if faults.opening = .refused then (.error .io, disk)
  else if format.late then (if faults.opening = .opened then .ok ⟨path, [], false⟩ else .error .io, disk)
  else if (disk path).isSome then (.error .io, disk)
  else (if faults.opening = .opened then .ok ⟨path, [], false⟩ else .error .io, disk.write path .unfinished)

/-- `Writer::write_row`. -/
def Writer.writeRow (faults : Faults) (writer : Writer ρ) (row : ρ) : Except ExportError Unit × Writer ρ :=
  if faults.writes then (.ok (), { writer with rows := writer.rows ++ [row] })
  else (.error .io, { writer with torn := true })

/-- `Writer::finish`. -/
def Writer.finish (faults : Faults) (format : Format) (disk : Folder ρ) (writer : Writer ρ) :
    Except ExportError Unit × Folder ρ :=
  if format.late && (disk writer.path).isSome then (.error .io, disk)
  else match faults.closing with
    | .closed => (.ok (), disk.write writer.path (.sheet writer.rows writer.torn))
    | .refused => (.error .io, disk)
    | .broke => (.error .io, if format.late then disk.write writer.path .unfinished else disk)

structure Exporter (ρ : Type) where
  format : Format
  outDir : Path
  basename : List Char
  limit : Option Nat
  part : Nat
  inPart : Nat
  writer : Option (Writer ρ)
  files : List Path
  staging : List Path
  rows : Nat
  cancelled : Bool
  finished : Bool

/-- The exporter, the folder it works in, and how many files it has moved to
target names so far. -/
structure Work (ρ : Type) where
  exporter : Exporter ρ
  disk : Folder ρ
  placed : Nat

/-- `close_part`: the warnings it collects are left out. -/
def closePart (faults : Faults) (work : Work ρ) : Except ExportError Unit × Work ρ :=
  match work.exporter.writer with
  | none => (.ok (), work)
  | some writer =>
    let (result, disk) := writer.finish faults work.exporter.format work.disk
    (result, { work with exporter := { work.exporter with writer := none }, disk := disk })

/-- `open_part`. -/
def openPart (faults : Faults) (work : Work ρ) (index : Nat) : Option (Except ExportError Unit × Work ρ) :=
  let e := work.exporter
  let path := partPath e.outDir e.basename e.format.extension index
  match if 0 < index then requireFree faults work.disk path else .ok () with
  | .error error => some (.error error, work)
  | .ok () =>
    (stagingPath faults work.disk path).map fun staging =>
      match openWriter faults e.format work.disk staging with
      | (.error error, disk) => (.error error, { work with disk := disk })
      | (.ok writer, disk) =>
        (.ok (), { work with
          exporter := { e with writer := some writer, files := e.files ++ [path], staging := e.staging ++ [staging] }
          disk := disk })

/-- The name the first part takes once there is a second. -/
def Exporter.renamed (e : Exporter ρ) : Path := join e.outDir (numbered e.basename e.format.extension 0)

/-- `files[0] = renamed`, in the first roll-over. -/
def nameFirst (work : Work ρ) : Work ρ :=
  let e := work.exporter
  if e.part = 0 then { work with exporter := { e with files := e.files.set 0 e.renamed } } else work

/-- `part += 1; in_part = 0`. -/
def Exporter.nextPart (e : Exporter ρ) : Exporter ρ := { e with part := e.part + 1, inPart := 0 }

/-- `roll_over`: close the full part and start the next, naming the first on the way. -/
def rollOver (faults : Faults) (work : Work ρ) : Option (Except ExportError Unit × Work ρ) :=
  match if work.exporter.part = 0 then requireFree faults work.disk work.exporter.renamed else .ok () with
  | .error error => some (.error error, work)
  | .ok () =>
    match closePart faults (nameFirst work) with
    | (.error error, work) => some (.error error, work)
    | (.ok (), work) =>
      openPart faults { work with exporter := work.exporter.nextPart } (work.exporter.part + 1)

def Exporter.full (e : Exporter ρ) : Bool := e.limit.any fun limit => limit ≤ e.inPart

def alreadyFinished : ExportError := .usage "this export has already been finished"

/-- The rest of `write_row`, with the next part open if it was needed. -/
def putRow (faults : Faults) (work : Work ρ) (row : ρ) : Except ExportError Unit × Work ρ :=
  let e := work.exporter
  match e.writer with
  | none => (.error alreadyFinished, work)
  | some writer =>
    match writer.writeRow faults row with
    | (.error error, writer) => (.error error, { work with exporter := { e with writer := some writer } })
    | (.ok (), writer) =>
      (.ok (), { work with
        exporter := { e with writer := some writer, inPart := e.inPart + 1, rows := e.rows + 1 } })

/-- `write_row`: one row, opening the next part first if this one is full. -/
def writeRow (faults : Faults) (work : Work ρ) (row : ρ) : Option (Except ExportError Unit × Work ρ) :=
  if work.exporter.full then
    (rollOver faults work).map fun
      | (.error error, work) => (.error error, work)
      | (.ok (), work) => putRow faults work row
  else some (putRow faults work row)

/-- `abort`: drop the open writer and delete every staged file. `Drop` does the same. -/
def abort (faults : Faults) (work : Work ρ) : Work ρ :=
  let e := work.exporter
  { work with
    exporter := { e with finished := true, writer := none, staging := [] }
    disk := removeFiles faults work.disk e.staging }

/-- The loop of `commit` over the staged parts and their names. -/
def placeAll (faults : Faults) (disk : Folder ρ) (placed : Nat) :
    List (Path × Path) → Except ExportError Unit × Folder ρ × Nat
  | [] => (.ok (), disk, placed)
  | (staging, final) :: rest =>
    match place faults disk staging final with
    | .ok disk => placeAll faults disk (placed + 1) rest
    | .error error => (.error error, removeFiles faults disk (staging :: rest.map Prod.fst), placed)

/-- `commit`: rename every staged part to its name. A split export checks the
names first. -/
def commit (faults : Faults) (work : Work ρ) : Except ExportError Unit × Work ρ :=
  let e := work.exporter
  match if 1 < e.files.length then e.files.forM (requireFree faults work.disk) else .ok () with
  | .error error => (.error error, work)
  | .ok () =>
    let (result, disk, placed) := placeAll faults work.disk work.placed (e.staging.zip e.files)
    (result, { exporter := { e with staging := [] }, disk := disk, placed := placed })

/-- `finished = true`. -/
def Work.marked (work : Work ρ) : Work ρ := { work with exporter := { work.exporter with finished := true } }

/-- `finish`: close the part that is open and commit; a failure aborts. -/
def finish (faults : Faults) (work : Work ρ) : Except ExportError Unit × Work ρ :=
  if work.exporter.finished then (.ok (), work)
  else
    match closePart faults work.marked with
    | (.error error, work) => (.error error, abort faults work)
    | (.ok (), work) =>
      match commit faults work with
      | (.error error, work) => (.error error, abort faults work)
      | (.ok (), work) => (.ok (), work)

/-- What an export is asked for. -/
structure ExportSpec where
  format : Format
  outDir : Path
  basename : List Char
  rowsPerFile : Option Nat

def ExportSpec.exporter (spec : ExportSpec) : Exporter ρ :=
  { format := spec.format, outDir := spec.outDir, basename := spec.basename,
    limit := rowLimit spec.format spec.rowsPerFile, part := 0, inPart := 0, writer := none, files := [], staging := [],
    rows := 0, cancelled := false, finished := false }

/-- `Exporter::new`: nothing but the folder is left when it fails, since the
exporter is dropped with no staged file recorded. -/
def newExporter (faults : Faults) (disk : Folder ρ) (spec : ExportSpec) : Option (Except ExportError Unit × Work ρ) :=
  let work : Work ρ := { exporter := spec.exporter, disk := disk, placed := 0 }
  if !faults.makesDir then some (.error .io, work)
  else openPart faults work 0

end QueryHive.Export
