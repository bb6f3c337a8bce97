import QueryHive.Library.Sections
import QueryHive.Library.Utf16

/-! The `.xls` writer's two containers: the records of the shared string table, which break where a
record is full, and the compound document that the whole stream is put in. -/
namespace QueryHive.Export.Xls
open QueryHive.Library Bytes Utf16

/-- `MAX_RECORD_DATA`. -/
def maxRecordData : Nat := 8224

/-- `record`: the type, the length, the payload. -/
def record (recordType : Nat) (data : List UInt8) : List UInt8 :=
  leBytes 2 recordType ++ leBytes 2 data.length ++ data

/-- The payloads so far: the last one still grows, and there always is one. -/
structure Chunks where
  finished : List (List UInt8)
  last : List UInt8
  deriving DecidableEq, Repr

namespace Chunks

def push (chunks : Chunks) (chunk : List UInt8) : Chunks := ⟨chunks.finished ++ [chunks.last], chunk⟩

def extend (chunks : Chunks) (bytes : List UInt8) : Chunks := { chunks with last := chunks.last ++ bytes }

def all (chunks : Chunks) : List (List UInt8) := chunks.finished ++ [chunks.last]

end Chunks

def isCompressed (text : String) : Bool := text.toList.all (·.toNat < 256)

def optionsOf (text : String) : UInt8 := if isCompressed text then 0x00 else 0x01

/-- The bytes of a character as it is written. -/
def unitOf (text : String) : Nat := if isCompressed text then 1 else 2

def charactersOf (text : String) : List UInt8 :=
  if isCompressed text then text.toList.map fun character => UInt8.ofNat character.toNat
  else (encodeUtf16 text.toList).flatMap (leBytes 2)

/-- The loop over the characters that are left, for so many turns. -/
def fill (options : UInt8) (unit : Nat) : Nat → Chunks → List UInt8 → Option Chunks
  | 0, _, _ => none
  | turns + 1, chunks, left =>
    if left = [] then some chunks
    else
      let space := maxRecordData - chunks.last.length
      let take := min space left.length / unit * unit
      -- Not even one whole unit fits.
      if take = 0 then fill options unit turns (chunks.push [options]) left
      else
        let chunks := chunks.extend (left.take take)
        let left := left.drop take
        fill options unit turns (if left = [] then chunks else chunks.push [options]) left

/-- One string. The header does not straddle a boundary. -/
def addString (chunks : Chunks) (text : String) : Option Chunks :=
  let chunks := if chunks.last.length + 3 + unitOf text > maxRecordData then chunks.push [] else chunks
  let chunks := chunks.extend (leBytes 2 text.toList.length ++ [optionsOf text])
  fill (optionsOf text) (unitOf text) ((charactersOf text).length + 1) chunks (charactersOf text)

/-- `sst_header`. -/
def sstHeader (count : Nat) : List UInt8 := leBytes 4 count ++ leBytes 4 count

def sstChunks (strings : List String) : Option Chunks := strings.foldlM addString ⟨[], sstHeader strings.length⟩

/-- The first chunk carries the table, the rest continue it. -/
def recordsOf (chunks : List (List UInt8)) : List UInt8 :=
  (chunks.mapIdx fun position chunk => record (if position = 0 then 0x00FC else 0x003C) chunk).flatten

/-- `sst_records`. -/
def sstRecords (strings : List String) : Option (List UInt8) :=
  (sstChunks strings).map fun chunks => recordsOf chunks.all

/-- `MINI_STREAM_CUTOFF`. -/
def miniStreamCutoff : Nat := 4096

/-- `SECTOR`. -/
def sector : Nat := 512

def freesect : Nat := 0xFFFFFFFF

def endofchain : Nat := 0xFFFFFFFE

def fatsect : Nat := 0xFFFFFFFD

/-- `Vec::resize`, with zeros or another filler. -/
def resize {α : Type} (items : List α) (size : Nat) (filler : α) : List α :=
  items.take size ++ List.replicate (size - items.length) filler

/-- `directory_entry`. -/
def directoryEntry (name : String) (kind : UInt8) (left right child start size : Nat) : List UInt8 :=
  let encoded := (encodeUtf16 name.toList).flatMap (leBytes 2) ++ [0, 0]
  resize
    (resize encoded 64 0 ++ leBytes 2 encoded.length ++ [kind, 1] ++ leBytes 4 left ++ leBytes 4 right ++
      leBytes 4 child ++ List.replicate 16 0 ++ leBytes 4 0 ++ List.replicate 16 0 ++ leBytes 4 start ++
      leBytes 8 size)
    128 0

def padded (stream : List UInt8) : List UInt8 :=
  let stream := if stream.length < miniStreamCutoff then resize stream miniStreamCutoff 0 else stream
  if stream.length % sector ≠ 0 then resize stream ((stream.length + sector - 1) / sector * sector) 0 else stream

/-- The entries of the allocation table: the stream's chain, the table's own sector, the directory's. -/
def fatEntries (sectors : Nat) : List Nat :=
  let chain := ((List.range sectors).map (· + 1)).modifyLast fun _ => endofchain
  resize (chain ++ [fatsect, endofchain]) 128 freesect

def header (sectors : Nat) : List UInt8 :=
  let fatSector := sectors
  let directorySector := sectors + 1
  [0xD0, 0xCF, 0x11, 0xE0, 0xA1, 0xB1, 0x1A, 0xE1] ++ List.replicate 16 0 ++ leBytes 2 0x003E ++ leBytes 2 3 ++
    leBytes 2 0xFFFE ++ leBytes 2 9 ++ leBytes 2 6 ++ List.replicate 6 0 ++ leBytes 4 0 ++ leBytes 4 1 ++
    leBytes 4 directorySector ++ leBytes 4 0 ++ leBytes 4 miniStreamCutoff ++ leBytes 4 endofchain ++
    leBytes 4 0 ++ leBytes 4 endofchain ++ leBytes 4 0 ++
    (List.range 109).flatMap fun index => leBytes 4 (if index = 0 then fatSector else freesect)

/-- The directory: the root, whose child is the stream, and the stream. -/
def directory (size : Nat) : List UInt8 :=
  resize
    (directoryEntry "Root Entry" 5 freesect freesect 1 endofchain 0 ++
      directoryEntry "Workbook" 2 freesect freesect freesect 0 size)
    sector 0

/-- `ole2`. -/
def ole2 (stream : List UInt8) : List UInt8 :=
  let stream := padded stream
  let sectors := stream.length / sector
  header sectors ++ stream ++ (fatEntries sectors).flatMap (leBytes 4) ++ directory stream.length

end QueryHive.Export.Xls
