import QueryHive.Library.Bytes
import QueryHive.Library.Medium
import QueryHive.Library.Runs
import QueryHive.Library.Shares

/-! What the operators of the analytics helper spill (`spill.rs` of the helper, over the records and the file of the
result store's `spill.rs`). Writers and readers of many files take turns; the quota check of a seal and its locked
append are two turns, and so are a reader's look at the list of records and the read that follows. The cipher is
`ring`'s. -/
namespace QueryHive.Analytics.Spilling
open Library Library.Bytes Library.Medium Library.Runs Library.Shares Library.Tally

abbrev Octets := List UInt8

/-- Plaintext per record: the writer seals when it holds this much. -/
def recordPlaintext : Nat := 2 ^ 20

/-- What a `u64` keeps of a sum. -/
def u64 (n : Nat) : Nat := n % 2 ^ 64

/-- What a `u32` keeps of a number. -/
def u32 (n : Nat) : Nat := n % 2 ^ 32

theorem u64_of_lt (small : n < 2 ^ 64) : u64 n = n := Nat.mod_eq_of_lt small

/-! ### The cipher -/

/-- The key of the process, as what sealing and opening under it do with a nonce and the additional data. -/
structure Aead where
  /-- The ciphertext and its tag. -/
  sealInPlaceSeparateTag : Octets → Octets → Octets → Octets × Octets
  openInPlace : Octets → Octets → Octets → Option Octets

/-- A tag has 16 bytes, and what was sealed opens. -/
structure Aead.Lawful (aead : Aead) : Prop where
  opens : ∀ nonce aad plain, aead.openInPlace nonce aad
    ((aead.sealInPlaceSeparateTag nonce aad plain).1 ++ (aead.sealInPlaceSeparateTag nonce aad plain).2) = some plain
  cipher : ∀ nonce aad plain, (aead.sealInPlaceSeparateTag nonce aad plain).1.length = plain.length
  tag : ∀ nonce aad plain, (aead.sealInPlaceSeparateTag nonce aad plain).2.length = 16

/-- `DOMAIN_HELPER`. -/
def domainHelper : Octets := [0x51, 0x48, 0x44, 0x31]

/-- `nonce_bytes`: four zero bytes, then the counter, the highest byte first. -/
def nonceBytes (counter : Nat) : Octets := List.replicate 4 0 ++ (leBytes 8 counter).reverse

/-- `aad`. -/
def aad (domain : Octets) (storeId chunkIndex : Nat) : Octets := domain ++ leBytes 8 storeId ++ leBytes 4 chunkIndex

/-- The record that `SpillCipher::seal` makes under a counter. -/
def sealRecord (aead : Aead) (counter storeId chunkIndex : Nat) (plain : Octets) : Octets :=
  let (cipher, tag) := aead.sealInPlaceSeparateTag (nonceBytes counter) (aad domainHelper storeId chunkIndex) plain
  cipher ++ tag

/-! ### One file -/

/-- Why a spill operation failed. -/
inductive SpillError where
  | auth
  | diskFull
  | quota
  | io
  deriving DecidableEq, Repr

/-- `Record`: where a record is on disk and the counter it was sealed under. -/
structure Record where
  offset : Nat
  len : Nat
  nonce : Nat
  deriving DecidableEq, Repr

/-- The call of the writer that seals. -/
inductive Call where
  | write
  | flush
  | finish
  deriving DecidableEq, Repr

/-- Where the writer is: in no call, before the quota check of a text it has taken from its buffer, or past that check
and before the append, with the bytes in use that the check saw. -/
inductive Phase where
  | idle
  | checking (call : Call) (plain : Octets)
  | appending (call : Call) (plain : Octets) (seen : Nat)
  deriving DecidableEq, Repr

/-- The text that the writer has taken from its buffer. -/
def Phase.plain : Phase → Octets
  | .idle => []
  | .checking _ plain | .appending _ plain _ => plain

/-- `read_stream`: the next record's index, the record that was found and not read yet, and what was handed out. -/
structure ReadStream where
  index : Nat
  pending : Option Record
  items : List (Except SpillError Octets)
  ended : Bool

def ReadStream.delivered (stream : ReadStream) : Octets :=
  stream.items.flatMap fun
    | .ok bytes => bytes
    | .error _ => []

/-- `Shared` with its `Inner`: the backing file and the list of its records. -/
structure Shared where
  id : Nat
  disk : Octets
  nextOffset : Nat
  records : List Record
  size : Nat
  deriving DecidableEq, Repr

namespace Shared

/-- `Shared::open`. -/
def openRecord (aead : Aead) (shared : Shared) (index : Nat) (record : Record) : Except SpillError Octets :=
  match pread shared.disk record.offset record.len with
  | none => .error .io
  | some buf =>
    match aead.openInPlace (nonceBytes record.nonce) (aad domainHelper shared.id (u32 index)) buf with
    | none => .error .auth
    | some plain => .ok plain

/-- A write to the disk that failed after some bytes of the record. -/
def torn (shared : Shared) (written : Octets) : Shared :=
  { shared with disk := pwrite 0 shared.disk shared.nextOffset written }

/-- `SpillFile::append` and the record's entry. -/
def append (shared : Shared) (record : Octets) (nonce : Nat) : Shared :=
  { shared with
    disk := pwrite 0 shared.disk shared.nextOffset record
    nextOffset := u64 (shared.nextOffset + record.length)
    records := shared.records ++ [⟨shared.nextOffset, u32 record.length, nonce⟩]
    size := u64 (shared.size + u32 record.length) }

def lens (shared : Shared) : Nat := tally Record.len shared.records

end Shared

/-- `EncryptedSpillWriter`. What it was given, what of it had been given when a flush or a finish last succeeded, and
the last error of a call are what the promises about it speak of. -/
structure Writer where
  buffer : Octets
  phase : Phase
  given : Octets
  flushed : Octets
  failed : Option SpillError
  deriving DecidableEq, Repr

namespace Writer

/-- The head of the loop in `write`: a full record's text is taken, or the call returns. -/
def takeFull (writer : Writer) : Writer :=
  if recordPlaintext ≤ writer.buffer.length then
    { writer with
      buffer := writer.buffer.drop recordPlaintext
      phase := .checking .write (writer.buffer.take recordPlaintext) }
  else { writer with phase := .idle }

/-- `write`, up to its first seal. -/
def write (writer : Writer) (data : Octets) : Option Writer :=
  match writer.phase with
  | .idle => some { writer with buffer := writer.buffer ++ data, given := writer.given ++ data }.takeFull
  | _ => none

/-- The text in the buffer is taken to be sealed; with nothing there the call succeeds. -/
def sealRest (writer : Writer) (call : Call) : Option Writer :=
  match writer.phase with
  | .idle => some (if writer.buffer = [] then { writer with flushed := writer.given }
    else { writer with buffer := [], phase := .checking call writer.buffer })
  | _ => none

/-- `flush`, up to its seal. -/
def flush (writer : Writer) : Option Writer := writer.sealRest .flush

/-- `finish`, up to its seal. -/
def finish (writer : Writer) : Option Writer := writer.sealRest .finish

/-- A call returns an error. The text it had taken is gone. -/
def fail (writer : Writer) (error : SpillError) : Writer := { writer with phase := .idle, failed := some error }

def sealed (writer : Writer) : Call → Writer
  | .write => writer.takeFull
  | .flush | .finish => { writer with phase := .idle, flushed := writer.given }

/-- The quota check of `Shared::seal`. -/
def check (writer : Writer) (used quota : Nat) : Option Writer :=
  match writer.phase with
  | .checking call plain => some (if quota < u64 (used + plain.length + 16) then writer.fail .quota
    else { writer with phase := .appending call plain used })
  | _ => none

end Writer

/-- `EncryptedSpillFile` with its writer and its streams. -/
structure File where
  shared : Shared
  writer : Writer
  streams : List ReadStream
  dropped : Bool

namespace File

def create (id : Nat) : File :=
  { shared := { id, disk := [], nextOffset := 0, records := [], size := 0 }
    writer := { buffer := [], phase := .idle, given := [], flushed := [], failed := none }
    streams := []
    dropped := false }

def turn (file : File) (writer : Writer) : File := { file with writer }

/-- `read_stream`. -/
def readStream (file : File) : File := { file with streams := file.streams ++ [⟨0, none, [], false⟩] }

/-- A poll's look at the list of records. -/
def poll (file : File) (j : Nat) : Option File :=
  file.streams[j]?.bind fun stream =>
    if stream.ended || stream.pending.isSome then none
    else some { file with streams := file.streams.set j (match file.shared.records[stream.index]? with
      | none => { stream with ended := true }
      | some record => { stream with pending := some record }) }

/-- The read of the record that a poll has found. -/
def read (aead : Aead) (file : File) (j : Nat) : Option File :=
  file.streams[j]?.bind fun stream => stream.pending.map fun record =>
    { file with streams := file.streams.set j { stream with
        index := stream.index + 1, pending := none
        items := stream.items ++ [file.shared.openRecord aead stream.index record] } }

def lens (file : File) : Nat := file.shared.lens

def onDisk (file : File) : Nat := if file.dropped then 0 else file.lens

end File

/-! ### All files -/

/-- `EncryptedTempFiles` and the files it has made. -/
structure World where
  /-- The cipher's counter. -/
  counter : Nat
  nextFile : Nat
  used : Nat
  quota : Nat
  made : Nat
  written : Nat
  files : List File

/-- `SpillStats`. -/
structure SpillStats where
  files : Nat
  bytes : Nat
  deriving DecidableEq, Repr

/-- What the cipher and the disk do with a record. -/
inductive Outcome where
  | appended
  | sealingFailed
  /-- The disk took so many bytes and then failed, as full or otherwise. -/
  | diskFailed (taken : Nat) (full : Bool)
  deriving DecidableEq, Repr

/-- A turn of a writer, a reader or the owner of a file. -/
inductive Op where
  | create (made : Bool)
  | write (i : Nat) (data : Octets)
  | flush (i : Nat)
  | finish (i : Nat)
  | check (i : Nat)
  | append (i : Nat) (outcome : Outcome)
  | readStream (i : Nat)
  | poll (i j : Nat)
  | read (i j : Nat)
  | drop (i : Nat)
  deriving DecidableEq, Repr

namespace World

def start (quota : Nat) : World :=
  { counter := 1, nextFile := 1, used := 0, quota, made := 0, written := 0, files := [] }

/-- `bytes_on_disk`. -/
def bytesOnDisk (world : World) : Nat := world.used

/-- `stats`. -/
def stats (world : World) : SpillStats := { files := world.made, bytes := world.written }

def put (world : World) (i : Nat) (file : File) : World := { world with files := world.files.set i file }

def live (world : World) (i : Nat) : Option File := world.files[i]?.filter (!·.dropped)

/-- `create_file`. -/
def createFile (world : World) (made : Bool) : World :=
  let world' := { world with nextFile := u64 (world.nextFile + 1) }
  if made then { world' with made := u64 (world.made + 1), files := world.files ++ [.create world.nextFile] }
  else world'

/-- The locked part of `Shared::seal`. -/
def sealLocked (aead : Aead) (world : World) (i : Nat) (file : File) (call : Call) (plain : Octets)
    (outcome : Outcome) : World :=
  if world.counter = 2 ^ 64 - 1 then world.put i (file.turn (file.writer.fail .io))
  else
    let record := sealRecord aead world.counter file.shared.id (u32 file.shared.records.length) plain
    let claimed := { world with counter := world.counter + 1 }
    match outcome with
    | .sealingFailed => claimed.put i (file.turn (file.writer.fail .io))
    | .diskFailed taken full => claimed.put i { file with
        shared := file.shared.torn (record.take taken), writer := file.writer.fail (if full then .diskFull else .io) }
    | .appended => { claimed.put i { file with
        shared := file.shared.append record world.counter, writer := file.writer.sealed call } with
        used := u64 (world.used + u32 record.length), written := u64 (world.written + u32 record.length) }

/-- `Drop` of a file nobody holds: its writer is in no call and its streams in no read. -/
def dropFile (world : World) (i : Nat) (file : File) : Option World :=
  match file.writer.phase with
  | .idle =>
    if file.streams.all (·.pending.isNone) then
      some { world.put i { file with dropped := true } with used := u64 (world.used + (2 ^ 64 - file.shared.size)) }
    else none
  | _ => none

def turn (world : World) (i : Nat) (change : Writer → Option Writer) : Option World :=
  (world.live i).bind fun file => (change file.writer).map fun writer => world.put i (file.turn writer)

def step (aead : Aead) (world : World) : Op → Option World
  | .create made => some (world.createFile made)
  | .write i data => world.turn i (·.write data)
  | .flush i => world.turn i (·.flush)
  | .finish i => world.turn i (·.finish)
  | .check i => world.turn i (·.check world.used world.quota)
  | .append i outcome => (world.live i).bind fun file =>
    match file.writer.phase with
    | .appending call plain _ => some (world.sealLocked aead i file call plain outcome)
    | _ => none
  | .readStream i => (world.live i).map fun file => world.put i file.readStream
  | .poll i j => (world.live i).bind fun file => (file.poll j).map (world.put i)
  | .read i j => (world.live i).bind fun file => (file.read aead j).map (world.put i)
  | .drop i => (world.live i).bind (world.dropFile i)

end World

/-! ### What is promised -/

/-- The next poll of the stream would end it. -/
def ReadStream.AtEnd (shared : Shared) (stream : ReadStream) : Prop :=
  stream.ended = false ∧ stream.pending = none ∧ shared.records[stream.index]? = none

/-- Streams hand out what was given, everything that was flushed before they end, and the counters count the records. -/
structure Spilled (quota : Nat) (world : World) : Prop where
  delivered : ∀ file ∈ world.files, ∀ stream ∈ file.streams, stream.delivered <+: file.writer.given
  complete : ∀ file ∈ world.files, ∀ stream ∈ file.streams, stream.AtEnd file.shared →
    file.writer.flushed <+: stream.delivered
  counted : world.bytesOnDisk = tally File.onDisk world.files
  cleared : (∀ file ∈ world.files, file.dropped = true) → world.bytesOnDisk = 0
  within : world.bytesOnDisk ≤ quota
  written : world.stats.bytes = tally File.lens world.files

def CheckFits (used : Nat) : Phase → Prop
  | .checking _ plain => used + plain.length + 16 < 2 ^ 64
  | _ => True

/-- A writer appends that has returned no error; the bytes that came into use since its check fit into the room that the
check left, and the sum of all records fits its counter. -/
def AppendFits (world : World) (failed : Option SpillError) : Phase → Prop
  | .appending _ plain seen => failed = none ∧ world.used - seen ≤ world.quota - (seen + plain.length + 16) ∧
    world.written + plain.length + 16 < 2 ^ 64
  | _ => True

/-- A turn that keeps clear of a writer's lost text, of a check that is out of date and of the counters' ends. -/
def Fits (world : World) : Op → Prop
  | .flush i | .finish i => ∀ file ∈ world.live i, file.writer.buffer = [] → file.writer.failed = none
  | .check i => ∀ file ∈ world.live i, CheckFits world.used file.writer.phase
  | .append i outcome => world.counter ≠ 2 ^ 64 - 1 → outcome = .appended →
    ∀ file ∈ world.live i, AppendFits world file.writer.failed file.writer.phase
  | .create _ | .write _ _ | .readStream _ | .poll _ _ | .read _ _ | .drop _ => True

/-! ### The records of a file -/

/-- The records of a file hold these texts, one after another from the file's start. -/
structure Stored (aead : Aead) (shared : Shared) (plains : List Octets) : Prop where
  count : plains.length = shared.records.length
  opens : ∀ k record plain, shared.records[k]? = some record → plains[k]? = some plain →
    shared.openRecord aead k record = .ok plain
  placed : ∀ record ∈ shared.records, record.offset + record.len ≤ shared.nextOffset
  inside : shared.nextOffset ≤ shared.disk.length
  offset : shared.nextOffset = shared.lens
  size : shared.size = shared.lens

section
variable {aead : Aead} {shared : Shared} {plains : List Octets} {plain : Octets}

theorem length_sealRecord (lawful : aead.Lawful) (counter storeId chunkIndex : Nat) (plain : Octets) :
    (sealRecord aead counter storeId chunkIndex plain).length = plain.length + 16 := by
  rw [sealRecord, List.length_append, lawful.cipher, lawful.tag]

theorem openInPlace_sealRecord (lawful : aead.Lawful) (counter storeId chunkIndex : Nat) (plain : Octets) :
    aead.openInPlace (nonceBytes counter) (aad domainHelper storeId chunkIndex)
      (sealRecord aead counter storeId chunkIndex plain) =
      some plain :=
  lawful.opens _ _ _

theorem openRecord_torn {record : Record} (before : record.offset + record.len ≤ shared.nextOffset)
    (inside : shared.nextOffset ≤ shared.disk.length) (written : Octets) (k : Nat) :
    (shared.torn written).openRecord aead k record = shared.openRecord aead k record := by
  have kept : pread (shared.torn written).disk record.offset record.len = pread shared.disk record.offset record.len :=
    pread_pwrite_before before inside 0 written
  rw [Shared.openRecord, Shared.openRecord, kept]
  rfl

theorem Stored.torn (stored : Stored aead shared plains) (written : Octets) :
    Stored aead (shared.torn written) plains where
  count := stored.count
  opens k record plain here text := by
    have before := stored.placed record (List.mem_of_getElem? here)
    exact (openRecord_torn before stored.inside written k).trans (stored.opens k record plain here text)
  placed := stored.placed
  inside := by
    have long : (shared.torn written).disk.length = _ := length_pwrite stored.inside 0 written
    rw [long]
    exact Nat.le_trans stored.inside (Nat.le_max_left _ _)
  offset := stored.offset
  size := stored.size

theorem append_eq {record : Octets} (short : record.length < 2 ^ 32)
    (small : shared.nextOffset + record.length < 2 ^ 64) (same : shared.size = shared.nextOffset) (nonce : Nat) :
    shared.append record nonce = { shared with
      disk := pwrite 0 shared.disk shared.nextOffset record
      nextOffset := shared.nextOffset + record.length
      records := shared.records ++ [⟨shared.nextOffset, record.length, nonce⟩]
      size := shared.size + record.length } := by
  have len : u32 record.length = record.length := Nat.mod_eq_of_lt short
  rw [Shared.append, len, u64_of_lt small, u64_of_lt (same ▸ small)]

theorem record_fits (short : plain.length ≤ recordPlaintext) {record : Octets}
    (len : record.length = plain.length + 16) :
    record.length < 2 ^ 32 := by
  unfold recordPlaintext at short
  omega

theorem Stored.lens_append (stored : Stored aead shared plains) (short : plain.length ≤ recordPlaintext)
    (small : shared.lens + (plain.length + 16) < 2 ^ 64) {record : Octets} (len : record.length = plain.length + 16)
    (nonce : Nat) :
    (shared.append record nonce).lens = shared.lens + (plain.length + 16) := by
  have room : shared.nextOffset + record.length < 2 ^ 64 := by
    rw [stored.offset, len]
    exact small
  rw [append_eq (record_fits short len) room (stored.size.trans stored.offset.symm), ← len]
  exact tally_append _ _

/-- A sealed record holds its text behind the others. -/
theorem Stored.append (lawful : aead.Lawful) (stored : Stored aead shared plains)
    (short : plain.length ≤ recordPlaintext) (small : shared.lens + (plain.length + 16) < 2 ^ 64) (counter : Nat) :
    Stored aead (shared.append (sealRecord aead counter shared.id (u32 shared.records.length) plain) counter)
      (plains ++ [plain]) := by
  let record := sealRecord aead counter shared.id (u32 shared.records.length) plain
  have len : record.length = plain.length + 16 := length_sealRecord lawful counter shared.id _ plain
  have fits : record.length < 2 ^ 32 := record_fits short len
  have room : shared.nextOffset + record.length < 2 ^ 64 := by
    rw [stored.offset, len]
    exact small
  have same : shared.size = shared.nextOffset := stored.size.trans stored.offset.symm
  have inside := stored.inside
  rw [append_eq fits room same]
  constructor
  case count =>
    rw [List.length_append, List.length_append, stored.count]
    rfl
  case opens =>
    intro k found text here taken
    rcases Nat.lt_or_ge k shared.records.length with old | new
    · have here' := (List.getElem?_append_left old).symm.trans here
      have taken' := (List.getElem?_append_left (stored.count ▸ old)).symm.trans taken
      have before := stored.placed found (List.mem_of_getElem? here')
      exact (openRecord_torn before inside record k).trans (stored.opens k found text here' taken')
    · have last : k = shared.records.length := by
        have below := (List.getElem?_eq_some_iff.mp here).1
        rw [List.length_append, List.length_singleton] at below
        omega
      subst last
      rw [List.getElem?_concat_length] at here
      rw [← stored.count, List.getElem?_concat_length] at taken
      cases here
      cases taken
      have read : pread (pwrite 0 shared.disk shared.nextOffset record) shared.nextOffset record.length = some record :=
        pread_pwrite inside 0 record
      have opened := openInPlace_sealRecord lawful counter shared.id (u32 shared.records.length) plain
      rw [Shared.openRecord]
      dsimp only
      rw [read]
      dsimp only
      rw [opened]
  case placed =>
    intro found inside'
    rcases List.mem_append.mp inside' with old | new
    · exact Nat.le_trans (stored.placed found old) (Nat.le_add_right _ _)
    · cases List.mem_singleton.mp new
      exact Nat.le_refl _
  case inside => exact length_pwrite inside 0 record ▸ Nat.le_max_right _ _
  case offset =>
    refine Eq.trans ?_ (tally_append _ _).symm
    exact congrArg (· + record.length) stored.offset
  case size =>
    refine Eq.trans ?_ (tally_append _ _).symm
    exact congrArg (· + record.length) stored.size

end

/-! ### The bytes of a writer and its streams -/

/-- What a writer that has returned no error has taken and left in its buffer. -/
def Ready (quota : Nat) (buffer : Octets) : Phase → Prop
  | .idle => buffer.length < recordPlaintext
  | .checking call plain => plain.length ≤ recordPlaintext ∧ (call ≠ .write → buffer = [])
  | .appending call plain seen =>
    plain.length ≤ recordPlaintext ∧ (call ≠ .write → buffer = []) ∧ seen + plain.length + 16 ≤ quota

/-- The texts in the records are a first part of what a writer was given, with all of it that was flushed. With no error
so far, what was given is in the records, taken, or in the buffer. -/
structure Told (quota : Nat) (plains : List Octets) (writer : Writer) : Prop where
  front : plains.flatten <+: writer.given
  flushed : writer.flushed <+: plains.flatten
  whole : writer.failed = none → plains.flatten ++ writer.phase.plain ++ writer.buffer = writer.given
  ready : writer.failed = none → Ready quota writer.buffer writer.phase

section
variable {quota : Nat} {plains : List Octets} {writer next : Writer}

theorem takeFull_told (front : plains.flatten <+: writer.given) (flushed : writer.flushed <+: plains.flatten)
    (whole : writer.failed = none → plains.flatten ++ writer.buffer = writer.given) :
    Told quota plains writer.takeFull := by
  unfold Writer.takeFull
  by_cases full : recordPlaintext ≤ writer.buffer.length
  · rw [if_pos full]
    refine ⟨front, flushed, fun fine => ?_, fun _ => ⟨List.length_take_le _ _, fun other => absurd rfl other⟩⟩
    change plains.flatten ++ writer.buffer.take recordPlaintext ++ writer.buffer.drop recordPlaintext = writer.given
    rw [List.append_assoc, List.take_append_drop]
    exact whole fine
  · rw [if_neg full]
    refine ⟨front, flushed, fun fine => ?_, fun _ => Nat.lt_of_not_le full⟩
    change plains.flatten ++ [] ++ writer.buffer = writer.given
    rw [List.append_nil]
    exact whole fine

theorem write_told (told : Told quota plains writer) (data : Octets) (stepped : writer.write data = some next) :
    Told quota plains next := by
  unfold Writer.write at stepped
  split at stepped
  case h_1 idle =>
    cases stepped
    refine takeFull_told (told.front.trans (List.prefix_append _ _)) told.flushed fun fine => ?_
    have whole := told.whole fine
    rw [idle, Phase.plain, List.append_nil] at whole
    change plains.flatten ++ (writer.buffer ++ data) = writer.given ++ data
    rw [← List.append_assoc, whole]
  case h_2 => cases stepped

theorem sealRest_told (told : Told quota plains writer) (call : Call) (fits : writer.buffer = [] → writer.failed = none)
    (stepped : writer.sealRest call = some next) : Told quota plains next := by
  unfold Writer.sealRest at stepped
  split at stepped
  case h_1 idle =>
    cases stepped
    have whole := told.whole
    have ready := told.ready
    rw [idle] at whole ready
    by_cases empty : writer.buffer = []
    · rw [if_pos empty]
      have all := whole (fits empty)
      rw [empty, Phase.plain, List.append_nil, List.append_nil] at all
      exact ⟨told.front, all ▸ List.prefix_rfl, told.whole, told.ready⟩
    · rw [if_neg empty]
      refine ⟨told.front, told.flushed, fun fine => ?_, fun fine => ⟨Nat.le_of_lt (ready fine), fun _ => rfl⟩⟩
      have all := whole fine
      rw [Phase.plain, List.append_nil] at all
      exact (List.append_nil _).trans all
  case h_2 => cases stepped

theorem fail_told (told : Told quota plains writer) (error : SpillError) : Told quota plains (writer.fail error) :=
  ⟨told.front, told.flushed, nofun, nofun⟩

theorem check_told (told : Told quota plains writer) (fits : CheckFits used writer.phase)
    (stepped : writer.check used quota = some next) : Told quota plains next := by
  unfold Writer.check at stepped
  split at stepped
  case h_1 call plain checking =>
    cases stepped
    rw [checking] at fits
    by_cases more : quota < u64 (used + plain.length + 16)
    · rw [if_pos more]
      exact fail_told told .quota
    · rw [if_neg more]
      rw [u64_of_lt fits] at more
      have whole := told.whole
      have ready := told.ready
      rw [checking] at whole ready
      exact ⟨told.front, told.flushed, whole, fun fine => ⟨(ready fine).1, (ready fine).2, Nat.le_of_not_lt more⟩⟩
  case h_2 => cases stepped

theorem sealed_told (told : Told quota plains writer) (appending : writer.phase = .appending call plain seen)
    (fine : writer.failed = none) : Told quota (plains ++ [plain]) (writer.sealed call) := by
  have whole := told.whole fine
  have ready := told.ready fine
  rw [appending, Phase.plain] at whole
  rw [appending] at ready
  have texts : (plains ++ [plain]).flatten = plains.flatten ++ plain := List.flatten_concat
  have all : (plains ++ [plain]).flatten ++ writer.buffer = writer.given := texts ▸ whole
  have front : (plains ++ [plain]).flatten <+: writer.given := ⟨_, all⟩
  have flushed : writer.flushed <+: (plains ++ [plain]).flatten := told.flushed.trans ⟨plain, texts.symm⟩
  -- Only a write leaves anything in the buffer.
  have returned (other : call ≠ .write) :
      Told quota (plains ++ [plain]) { writer with phase := .idle, flushed := writer.given } := by
    have empty : writer.buffer = [] := ready.2.1 other
    have sum : (plains ++ [plain]).flatten = writer.given := by
      rw [empty, List.append_nil] at all
      exact all
    refine ⟨front, sum ▸ List.prefix_rfl, fun _ => ?_, fun _ => ?_⟩
    · change (plains ++ [plain]).flatten ++ [] ++ writer.buffer = writer.given
      rw [List.append_nil]
      exact all
    · change writer.buffer.length < recordPlaintext
      rw [empty]
      exact Nat.two_pow_pos 20
  cases call with
  | write => exact takeFull_told front flushed fun _ => all
  | flush => exact returned nofun
  | finish => exact returned nofun

end

/-! ### The streams -/

/-- A stream has handed out the first texts, and what it is about to read is the next record. -/
structure Reading (shared : Shared) (plains : List Octets) (stream : ReadStream) : Prop where
  index : stream.index ≤ plains.length
  items : stream.items = (plains.take stream.index).map .ok
  pending : ∀ record, stream.pending = some record → shared.records[stream.index]? = some record

/-- A file, its writer and its streams agree on the texts of the records. -/
structure Good (aead : Aead) (quota : Nat) (file : File) (plains : List Octets) : Prop where
  stored : Stored aead file.shared plains
  told : Told quota plains file.writer
  streams : ∀ stream ∈ file.streams, Reading file.shared plains stream

section
variable {aead : Aead} {quota : Nat} {file next : File} {plains : List Octets}

theorem Reading.delivered {stream : ReadStream} (reading : Reading shared plains stream) :
    stream.delivered = (plains.take stream.index).flatten := by
  rw [ReadStream.delivered, reading.items, List.flatMap_map]
  exact List.flatMap_id

/-- The bytes that were handed out are the first that were given. -/
theorem Good.delivered {stream : ReadStream} (good : Good aead quota file plains) (inside : stream ∈ file.streams) :
    stream.delivered <+: file.writer.given := by
  have first : (plains.take stream.index).flatten <+: plains.flatten :=
    ⟨(plains.drop stream.index).flatten, by rw [← List.flatten_append, List.take_append_drop]⟩
  rw [(good.streams stream inside).delivered]
  exact first.trans good.told.front

/-- A stream that is about to end has handed out all that was flushed. -/
theorem Good.complete {stream : ReadStream} (good : Good aead quota file plains) (inside : stream ∈ file.streams)
    (atEnd : stream.AtEnd file.shared) : file.writer.flushed <+: stream.delivered := by
  have past : plains.length ≤ stream.index := good.stored.count ▸ List.getElem?_eq_none_iff.mp atEnd.2.2
  rw [(good.streams stream inside).delivered, List.take_of_length_le past]
  exact good.told.flushed

theorem create_good (aead : Aead) (quota id : Nat) : Good aead quota (.create id) [] where
  stored := ⟨rfl, nofun, nofun, Nat.le_refl 0, rfl, rfl⟩
  told := ⟨List.prefix_rfl, List.prefix_rfl, fun _ => rfl, fun _ => Nat.two_pow_pos 20⟩
  streams := nofun

theorem readStream_good (good : Good aead quota file plains) : Good aead quota file.readStream plains where
  stored := good.stored
  told := good.told
  streams stream inside := by
    rcases List.mem_append.mp inside with old | new
    · exact good.streams stream old
    · cases List.mem_singleton.mp new
      exact ⟨Nat.zero_le _, rfl, nofun⟩

theorem poll_good (good : Good aead quota file plains) (stepped : file.poll j = some next) :
    Good aead quota next plains ∧ next.shared = file.shared ∧ next.dropped = file.dropped := by
  obtain ⟨stream, found, stepped⟩ := Option.bind_eq_some_iff.mp stepped
  obtain ⟨-, same⟩ := Option.ite_none_left_eq_some.mp stepped
  cases same
  have reading := good.streams stream (List.mem_of_getElem? found)
  refine ⟨⟨good.stored, good.told, fun other inside => ?_⟩, rfl, rfl⟩
  rcases List.mem_or_eq_of_mem_set inside with old | rfl
  · exact good.streams other old
  · cases looked : file.shared.records[stream.index]? with
    | none => exact ⟨reading.index, reading.items, reading.pending⟩
    | some record =>
      refine ⟨reading.index, reading.items, fun record' same => ?_⟩
      cases same
      exact looked

theorem read_good (good : Good aead quota file plains) (stepped : file.read aead j = some next) :
    Good aead quota next plains ∧ next.shared = file.shared ∧ next.dropped = file.dropped := by
  obtain ⟨stream, found, stepped⟩ := Option.bind_eq_some_iff.mp stepped
  obtain ⟨record, pending, same⟩ := Option.map_eq_some_iff.mp stepped
  cases same
  have reading := good.streams stream (List.mem_of_getElem? found)
  have looked := reading.pending record pending
  have below : stream.index < plains.length := good.stored.count ▸ (List.getElem?_eq_some_iff.mp looked).1
  have text : plains[stream.index]? = some plains[stream.index] := List.getElem?_eq_getElem below
  have opened := good.stored.opens stream.index record _ looked text
  refine ⟨⟨good.stored, good.told, fun other inside => ?_⟩, rfl, rfl⟩
  rcases List.mem_or_eq_of_mem_set inside with old | rfl
  · exact good.streams other old
  · refine ⟨below, ?_, nofun⟩
    change stream.items ++ [file.shared.openRecord aead stream.index record] = (plains.take (stream.index + 1)).map .ok
    rw [opened, reading.items, List.take_succ_eq_append_getElem below, List.map_append]
    rfl

theorem turn_good (good : Good aead quota file plains) (told : Told quota plains writer) :
    Good aead quota (file.turn writer) plains :=
  ⟨good.stored, told, good.streams⟩

theorem torn_good (good : Good aead quota file plains) (written : Octets) (error : SpillError) :
    Good aead quota { file with shared := file.shared.torn written, writer := file.writer.fail error } plains :=
  ⟨good.stored.torn written, fail_told good.told error, fun stream inside =>
    have reading := good.streams stream inside
    ⟨reading.index, reading.items, reading.pending⟩⟩

/-- A record that is appended holds what the writer had taken, and what streams have read stays. -/
theorem append_good (lawful : aead.Lawful) (good : Good aead quota file plains)
    (appending : file.writer.phase = .appending call plain seen) (fine : file.writer.failed = none)
    (small : file.lens + (plain.length + 16) < 2 ^ 64) (counter : Nat) :
    Good aead quota { file with
      shared := file.shared.append (sealRecord aead counter file.shared.id
        (u32 file.shared.records.length) plain) counter
      writer := file.writer.sealed call } (plains ++ [plain]) := by
  have ready := good.told.ready fine
  rw [appending] at ready
  refine ⟨good.stored.append lawful ready.1 small counter, sealed_told good.told appending fine,
    fun stream inside => ?_⟩
  have reading := good.streams stream inside
  refine ⟨Nat.le_trans reading.index (List.length_append ▸ Nat.le_add_right _ _), ?_, fun record pending => ?_⟩
  · rw [List.take_append_of_le_length reading.index]
    exact reading.items
  · have looked := reading.pending record pending
    exact (List.getElem?_append_left (List.getElem?_eq_some_iff.mp looked).1).trans looked

end

/-! ### All files -/

/-- Every file is good, and the counters are the sums they stand for. -/
structure Kept (aead : Aead) (quota : Nat) (world : World) : Prop where
  cap : world.quota = quota
  files : ∀ file ∈ world.files, ∃ plains, Good aead quota file plains
  used : world.used = tally File.onDisk world.files
  within : world.used ≤ quota
  written : world.written = tally File.lens world.files
  below : world.used ≤ world.written
  small : world.written < 2 ^ 64

section
variable {aead : Aead} {quota : Nat} {world next : World} {file new : File} {plains : List Octets}

theorem start_kept (aead : Aead) (quota : Nat) : Kept aead quota (World.start quota) :=
  ⟨rfl, nofun, rfl, Nat.zero_le _, rfl, Nat.le_refl 0, Nat.two_pow_pos 64⟩

theorem live_found (live : world.live i = some file) : world.files[i]? = some file ∧ file.dropped = false := by
  obtain ⟨found, exists'⟩ := Option.filter_eq_some_iff.mp live
  exact ⟨found, Bool.not_eq_true' _ ▸ exists'⟩

theorem Kept.good (inv : Kept aead quota world) (live : world.live i = some file) :
    ∃ plains, Good aead quota file plains :=
  inv.files file (List.mem_of_getElem? (live_found live).1)

theorem files_put (inv : Kept aead quota world) (good : Good aead quota new plains) (i : Nat) :
    ∀ file ∈ (world.put i new).files, ∃ plains, Good aead quota file plains := by
  intro file inside
  rcases List.mem_or_eq_of_mem_set inside with old | rfl
  · exact inv.files file old
  · exact ⟨plains, good⟩

/-- A file whose records grow by some bytes counts these. -/
theorem grown_kept (inv : Kept aead quota world) (live : world.live i = some file) (good : Good aead quota new plains)
    (dropped : new.dropped = file.dropped) (n : Nat) (grown : new.lens = file.lens + n) (room : world.used + n ≤ quota)
    (small : world.written + n < 2 ^ 64) :
    Kept aead quota { world.put i new with used := world.used + n, written := world.written + n } := by
  obtain ⟨found, exists'⟩ := live_found live
  have onDisk : file.onDisk = file.lens := by rw [File.onDisk, exists', if_neg Bool.false_ne_true]
  have onDisk' : new.onDisk = new.lens := by rw [File.onDisk, dropped, exists', if_neg Bool.false_ne_true]
  have used := tally_set File.onDisk found new
  have written := tally_set File.lens found new
  rw [onDisk, onDisk', grown, ← inv.used] at used
  rw [grown, ← inv.written] at written
  refine ⟨inv.cap, files_put inv good i, ?_, room, ?_, Nat.add_le_add_right inv.below n, small⟩
  · change world.used + n = tally File.onDisk (world.files.set i new)
    omega
  · change world.written + n = tally File.lens (world.files.set i new)
    omega

theorem put_kept (inv : Kept aead quota world) (live : world.live i = some file) (good : Good aead quota new plains)
    (lens : new.lens = file.lens) (dropped : new.dropped = file.dropped) : Kept aead quota (world.put i new) :=
  grown_kept inv live good dropped 0 lens inv.within inv.small

theorem turn_kept (change : Writer → Option Writer) (inv : Kept aead quota world)
    (kept : ∀ file ∈ world.live i, ∀ plains writer, Told quota plains file.writer → change file.writer = some writer →
      Told quota plains writer) (stepped : world.turn i change = some next) : Kept aead quota next := by
  obtain ⟨file, live, stepped⟩ := Option.bind_eq_some_iff.mp stepped
  obtain ⟨writer, changed, same⟩ := Option.map_eq_some_iff.mp stepped
  cases same
  obtain ⟨plains, good⟩ := inv.good live
  exact put_kept inv live (turn_good good (kept file live plains writer good.told changed)) rfl rfl

theorem tally_create {id : Nat} {weight : File → Nat} (nothing : weight (.create id) = 0) (files : List File) :
    tally weight (files ++ [.create id]) = tally weight files := by
  rw [tally_append, tally_cons, tally_nil, nothing]
  rfl

theorem createFile_kept (inv : Kept aead quota world) (made : Bool) : Kept aead quota (world.createFile made) := by
  cases made with
  | false => exact ⟨inv.cap, inv.files, inv.used, inv.within, inv.written, inv.below, inv.small⟩
  | true =>
    refine ⟨inv.cap, fun file inside => ?_, inv.used.trans (tally_create rfl _).symm, inv.within,
      inv.written.trans (tally_create rfl _).symm, inv.below, inv.small⟩
    rcases List.mem_append.mp inside with old | new
    · exact inv.files file old
    · cases List.mem_singleton.mp new
      exact ⟨[], create_good aead quota world.nextFile⟩

/-- The cipher's counter is no part of the invariant. -/
theorem Kept.claimed (inv : Kept aead quota world) (counter : Nat) : Kept aead quota { world with counter } :=
  ⟨inv.cap, inv.files, inv.used, inv.within, inv.written, inv.below, inv.small⟩

theorem sealLocked_kept (lawful : aead.Lawful) (inv : Kept aead quota world) (live : world.live i = some file)
    (appending : file.writer.phase = .appending call plain seen) (outcome : Outcome)
    (fits : world.counter ≠ 2 ^ 64 - 1 → outcome = .appended → AppendFits world file.writer.failed file.writer.phase) :
    Kept aead quota (world.sealLocked aead i file call plain outcome) := by
  obtain ⟨plains, good⟩ := inv.good live
  obtain ⟨found, exists'⟩ := live_found live
  unfold World.sealLocked
  by_cases exhausted : world.counter = 2 ^ 64 - 1
  · rw [if_pos exhausted]
    exact put_kept inv live (turn_good good (fail_told good.told .io)) rfl rfl
  · rw [if_neg exhausted]
    have claimed := inv.claimed (world.counter + 1)
    cases outcome with
    | sealingFailed => exact put_kept claimed live (turn_good good (fail_told good.told .io)) rfl rfl
    | diskFailed taken full => exact put_kept claimed live (torn_good good _ _) rfl rfl
    | appended =>
      obtain ⟨fine, room, small⟩ := appending ▸ fits exhausted rfl
      have ready := good.told.ready fine
      rw [appending] at ready
      obtain ⟨short, -, checked⟩ := ready
      have own : file.lens ≤ world.written := inv.written ▸ le_tally File.lens (List.mem_of_getElem? found)
      have fits : file.lens + (plain.length + 16) < 2 ^ 64 := by omega
      let record := sealRecord aead world.counter file.shared.id (u32 file.shared.records.length) plain
      have len : record.length = plain.length + 16 :=
        length_sealRecord lawful world.counter file.shared.id (u32 file.shared.records.length) plain
      have grown := good.stored.lens_append short fits len world.counter
      have good' := append_good lawful good appending fine fits world.counter
      have same : u32 record.length = plain.length + 16 := (Nat.mod_eq_of_lt (record_fits short len)).trans len
      have below := inv.below
      rw [inv.cap] at room
      -- What came into use since the check fits in the room it left.
      have room' : world.used + (plain.length + 16) ≤ quota := by omega
      have used : u64 (world.used + u32 record.length) = world.used + (plain.length + 16) := by
        rw [same, u64_of_lt (by omega)]
      have written : u64 (world.written + u32 record.length) = world.written + (plain.length + 16) := by
        rw [same, u64_of_lt (by omega)]
      have kept := grown_kept claimed live good' rfl (plain.length + 16) grown room' small
      rw [← used, ← written] at kept
      exact kept

theorem dropFile_kept (inv : Kept aead quota world) (live : world.live i = some file)
    (stepped : world.dropFile i file = some next) : Kept aead quota next := by
  unfold World.dropFile at stepped
  split at stepped
  case h_1 idle =>
    obtain ⟨-, same⟩ := Option.ite_none_right_eq_some.mp stepped
    cases same
    obtain ⟨plains, good⟩ := inv.good live
    obtain ⟨found, exists'⟩ := live_found live
    let gone : File := { file with dropped := true }
    have onDisk : file.onDisk = file.lens := by rw [File.onDisk, exists', if_neg Bool.false_ne_true]
    have used := tally_set File.onDisk found gone
    have written := tally_set File.lens found gone
    have nothing : gone.onDisk = 0 := rfl
    have lens : gone.lens = file.lens := rfl
    rw [onDisk, nothing, ← inv.used] at used
    rw [lens] at written
    have below := inv.below
    have small := inv.small
    have freed : u64 (world.used + (2 ^ 64 - file.shared.size)) = world.used - file.lens := by
      have size : file.shared.size = file.lens := good.stored.size
      have wrapped : world.used + (2 ^ 64 - file.lens) = world.used - file.lens + 2 ^ 64 := by omega
      rw [size, wrapped, u64, Nat.add_mod_right, Nat.mod_eq_of_lt (by omega)]
    have good' : Good aead quota gone plains := ⟨good.stored, good.told, good.streams⟩
    rw [freed]
    refine ⟨inv.cap, files_put inv good' i, ?_, Nat.le_trans (Nat.sub_le _ _) inv.within,
      inv.written.trans (Nat.add_right_cancel written).symm, Nat.le_trans (Nat.sub_le _ _) inv.below, inv.small⟩
    change world.used - file.lens = tally File.onDisk (world.files.set i gone)
    omega
  case h_2 => cases stepped

theorem step_kept (lawful : aead.Lawful) (world : World) (op : Op) (next : World) (inv : Kept aead quota world)
    (fits : Fits world op) (stepped : world.step aead op = some next) : Kept aead quota next := by
  cases op with
  | create made =>
    cases stepped
    exact createFile_kept inv made
  | write i data =>
    exact turn_kept (·.write data) inv (fun _ _ _ _ told changed => write_told told data changed) stepped
  | flush i =>
    exact turn_kept (·.flush) inv (fun file live _ _ told changed =>
      sealRest_told told .flush (fits file live) changed) stepped
  | finish i =>
    exact turn_kept (·.finish) inv (fun file live _ _ told changed =>
      sealRest_told told .finish (fits file live) changed) stepped
  | check i =>
    refine turn_kept (·.check world.used world.quota) inv (fun file live _ _ told changed => ?_) stepped
    rw [inv.cap] at changed
    exact check_told told (fits file live) changed
  | append i outcome =>
    obtain ⟨file, live, stepped⟩ := Option.bind_eq_some_iff.mp stepped
    split at stepped
    case h_1 call plain seen appending =>
      cases stepped
      exact sealLocked_kept lawful inv live appending outcome fun more done => fits more done file live
    case h_2 => cases stepped
  | readStream i =>
    obtain ⟨file, live, same⟩ := Option.map_eq_some_iff.mp stepped
    cases same
    obtain ⟨plains, good⟩ := inv.good live
    exact put_kept inv live (readStream_good good) rfl rfl
  | poll i j =>
    obtain ⟨file, live, stepped⟩ := Option.bind_eq_some_iff.mp stepped
    obtain ⟨polled, changed, same⟩ := Option.map_eq_some_iff.mp stepped
    cases same
    obtain ⟨plains, good⟩ := inv.good live
    obtain ⟨good', shared, dropped⟩ := poll_good good changed
    exact put_kept inv live good' (congrArg Shared.lens shared) dropped
  | read i j =>
    obtain ⟨file, live, stepped⟩ := Option.bind_eq_some_iff.mp stepped
    obtain ⟨read, changed, same⟩ := Option.map_eq_some_iff.mp stepped
    cases same
    obtain ⟨plains, good⟩ := inv.good live
    obtain ⟨good', shared, dropped⟩ := read_good good changed
    exact put_kept inv live good' (congrArg Shared.lens shared) dropped
  | drop i =>
    obtain ⟨file, live, stepped⟩ := Option.bind_eq_some_iff.mp stepped
    exact dropFile_kept inv live stepped

theorem Kept.spilled (inv : Kept aead quota world) : Spilled quota world where
  delivered file inside stream streams :=
    have ⟨_, good⟩ := inv.files file inside
    good.delivered streams
  complete file inside stream streams atEnd :=
    have ⟨_, good⟩ := inv.files file inside
    good.complete streams atEnd
  counted := inv.used
  cleared all := by
    have nothing : tally File.onDisk world.files = 0 := tally_zero fun file inside => if_pos (all file inside)
    exact inv.used.trans nothing
  within := inv.within
  written := inv.written

/-- In a run where no writer seals or flushes after an error, every check still stands at its append and no sum leaves a
`u64`, what is spilled reads back and the counters count it. -/
theorem spill_reads_back (lawful : aead.Lawful) (ran : run (World.step aead) (World.start quota) ops = some world)
    (along : Along (World.step aead) Fits (World.start quota) ops) : Spilled quota world :=
  (run_invariant_along (Kept aead quota) (step_kept lawful) (start_kept aead quota) along ran).spilled

end

/-! ### Under a cipher that only masks -/

def maskTag (nonce aad : Octets) : Octets := (nonce.reverse.take 4 ++ aad.reverse.take 12).rightpad 16 0

/-- A cipher that masks every byte and marks a record with its counter, its index and its file. -/
def mask : Aead where
  sealInPlaceSeparateTag nonce aad plain := (plain.map (· ^^^ 0x5a), maskTag nonce aad)
  openInPlace nonce aad record :=
    if record.drop (record.length - 16) = maskTag nonce aad then
      some ((record.take (record.length - 16)).map (· ^^^ 0x5a))
    else none

theorem length_maskTag (nonce aad : Octets) : (maskTag nonce aad).length = 16 := by
  rw [maskTag, List.length_rightpad, List.length_append, List.length_take, List.length_take]
  omega

theorem mask_lawful : mask.Lawful where
  opens nonce aad plain := by
    have tag := length_maskTag nonce aad
    have masked : (plain.map (· ^^^ (0x5a : UInt8))).length = plain.length := List.length_map _
    have front : (plain.map (· ^^^ (0x5a : UInt8)) ++ maskTag nonce aad).length - 16 =
      (plain.map (· ^^^ (0x5a : UInt8))).length := by
      rw [List.length_append, tag, Nat.add_sub_cancel]
    have twice : (fun byte : UInt8 => byte ^^^ 0x5a ^^^ 0x5a) = id := by
      funext byte
      rw [UInt8.xor_assoc, UInt8.xor_self, UInt8.xor_zero]
      rfl
    unfold mask
    dsimp only
    rw [front, List.drop_left, if_pos rfl, List.take_left, List.map_map]
    exact congrArg some ((congrArg (List.map · plain) twice).trans (List.map_id plain))
  cipher _ _ _ := List.length_map _
  tag nonce aad _ := length_maskTag nonce aad

instance decidableCheckFits (used : Nat) : (phase : Phase) → Decidable (CheckFits used phase)
  | .checking _ plain => inferInstanceAs (Decidable (used + plain.length + 16 < 2 ^ 64))
  | .idle | .appending _ _ _ => inferInstanceAs (Decidable True)

instance decidableAppendFits (world : World) (failed : Option SpillError) :
    (phase : Phase) → Decidable (AppendFits world failed phase)
  | .appending _ plain seen => inferInstanceAs (Decidable (failed = none ∧
      world.used - seen ≤ world.quota - (seen + plain.length + 16) ∧ world.written + plain.length + 16 < 2 ^ 64))
  | .idle | .checking _ _ => inferInstanceAs (Decidable True)

instance decidableFits (world : World) : (op : Op) → Decidable (Fits world op)
  | .flush i | .finish i =>
    inferInstanceAs (Decidable (∀ file ∈ world.live i, file.writer.buffer = [] → file.writer.failed = none))
  | .check i => inferInstanceAs (Decidable (∀ file ∈ world.live i, CheckFits world.used file.writer.phase))
  | .append i outcome => inferInstanceAs (Decidable (world.counter ≠ 2 ^ 64 - 1 → outcome = .appended →
      ∀ file ∈ world.live i, AppendFits world file.writer.failed file.writer.phase))
  | .create _ | .write _ _ | .readStream _ | .poll _ _ | .read _ _ | .drop _ => inferInstanceAs (Decidable True)

/-- One writer flushes, another's disk is full, and a stream reads to the end. -/
theorem spill_reads_back_run :
    ∃ world, run (World.step mask) (World.start 50)
      [.create true, .create true, .readStream 0, .write 0 [1, 2, 3], .write 1 [4],
        .flush 0, .finish 1, .check 0, .check 1, .append 0 .appended, .append 1 (.diskFailed 5 true),
          .poll 0 0, .read 0 0,
        .poll 0 0, .drop 1] = some world ∧ Spilled 50 world ∧ world.bytesOnDisk = 19 := by
  have along : Along (World.step mask) Fits (World.start 50)
    [.create true, .create true, .readStream 0, .write 0 [1, 2, 3],
      .write 1 [4], .flush 0, .finish 1, .check 0, .check 1, .append 0 .appended,
        .append 1 (.diskFailed 5 true), .poll 0 0,
      .read 0 0, .poll 0 0, .drop 1] := by decide
  exact ⟨_, rfl, spill_reads_back mask_lawful rfl along, rfl⟩

/-- Two checks before either append let both records in where there is room for one. -/
theorem stale_check : ¬∀ (aead : Aead) (quota : Nat) (ops : List Op) (world : World), aead.Lawful →
    run (World.step aead) (World.start quota) ops = some world → Spilled quota world := by
  intro every
  have spilled := every mask 20 [.create true, .create true, .write 0 [1], .write 1 [2], .flush 0, .flush 1,
    .check 0, .check 1,
    .append 0 .appended, .append 1 .appended] _ mask_lawful rfl
  exact absurd spilled.within (by decide)

/-- The text of a flush over the quota is gone: the stream begins with what was written after it. -/
example : (run (World.step mask) (World.start 20) [.create true, .create true, .readStream 0, .write 1 [1],
    .flush 1, .check 1,
    .append 1 .appended, .write 0 [2], .flush 0, .check 0, .drop 1, .write 0 [3], .flush 0, .check 0,
      .append 0 .appended,
    .poll 0 0, .read 0 0]).map (fun world => world.files.map fun file =>
      (file.writer.given, file.streams.map (·.delivered))) =
      some [([2, 3], [[3]]), ([1], [])] := by decide

end QueryHive.Analytics.Spilling
