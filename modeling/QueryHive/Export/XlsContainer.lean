import Mathlib.Data.List.ModifyLast
import QueryHive.Export.Xls

/-! The compound document against the rules of its container. A reader goes from the header to the
allocation table, from there along the directory, and along the stream's own chain. The table is one
sector of 128 entries: it has room for the chain of 126 sectors beside its own and the directory's. -/
namespace QueryHive.Export.Xls
open QueryHive.Library Bytes Utf16 Sections

/-- What a reader finds in a document. -/
structure Container where
  fatSectors : List Nat
  fat : List Nat
  directorySectors : List Nat
  chain : List Nat
  stream : List UInt8
  deriving DecidableEq, Repr

def signature : List UInt8 := [0xD0, 0xCF, 0x11, 0xE0, 0xA1, 0xB1, 0x1A, 0xE1]

def sectorAt (file : List UInt8) (index : Nat) : Option (List UInt8) :=
  slice file (sector + index * sector) (sector + (index + 1) * sector)

def joined (file : List UInt8) (sectors : List Nat) : Option (List UInt8) :=
  (sectors.mapM (sectorAt file)).map List.flatten

def numbersIn (data : List UInt8) : Option (List Nat) :=
  (List.range (data.length / 4)).mapM fun index => readAt 4 data (4 * index)

def isStream (name : String) (entry : List UInt8) : Bool :=
  let encoded := (encodeUtf16 name.toList).flatMap (leBytes 2) ++ [0, 0]
  readAt 2 entry 64 = some encoded.length && slice entry 0 encoded.length = some encoded && readAt 1 entry 66 = some 2

/-- Where a stream starts and how long it is, as its directory entry says. -/
def findStream (directory : List UInt8) (name : String) : Option (Nat × Nat) := do
  let entries ← (List.range (directory.length / 128)).mapM fun index =>
    slice directory (index * 128) ((index + 1) * 128)
  let entry ← entries.find? (isStream name)
  let start ← readAt 4 entry 116
  let size ← readAt 8 entry 120
  some (start, size)

/-- The document's workbook. One with further table sectors, or a stream below the cutoff, is not read. -/
def readContainer (file : List UInt8) : Option Container := do
  guard (file.take 8 = signature)
  let shift ← readAt 2 file 30
  guard (2 ^ shift = sector)
  let fatCount ← readAt 4 file 44
  let directoryStart ← readAt 4 file 48
  let cutoff ← readAt 4 file 56
  let moreTables ← readAt 4 file 68
  guard (moreTables = endofchain)
  let difat ← (List.range 109).mapM fun index => readAt 4 file (76 + 4 * index)
  let fatSectors := difat.take fatCount
  let table ← joined file fatSectors
  let fat ← numbersIn table
  let directorySectors ← follow fat endofchain fat.length directoryStart
  let directory ← joined file directorySectors
  let (start, size) ← findStream directory "Workbook"
  guard (cutoff ≤ size)
  let chain ← follow fat endofchain fat.length start
  let content ← joined file chain
  guard (size ≤ content.length)
  some ⟨fatSectors, fat, directorySectors, chain, content.take size⟩

def paddedLength (length : Nat) : Nat := max miniStreamCutoff ((length + (sector - 1)) / sector * sector)

theorem padded_eq (stream : List UInt8) :
    padded stream = stream ++ List.replicate (paddedLength stream.length - stream.length) 0 := by
  have grown : ∀ (items : List UInt8) size, items.length ≤ size →
      resize items size 0 = items ++ List.replicate (size - items.length) 0 := by
    intro items size fits
    rw [resize, List.take_of_length_le fits]
  unfold padded paddedLength
  by_cases short : stream.length < miniStreamCutoff
  · have whole : (resize stream miniStreamCutoff 0).length % sector = 0 := by
      rw [grown _ _ (Nat.le_of_lt short), List.length_append, List.length_replicate,
        Nat.add_sub_cancel' (Nat.le_of_lt short)]
      rfl
    have least : (stream.length + (sector - 1)) / sector * sector ≤ miniStreamCutoff := by
      simp only [sector, miniStreamCutoff] at *
      omega
    rw [if_pos short, if_neg (by simpa using whole), Nat.max_eq_left least, grown _ _ (Nat.le_of_lt short)]
  · have most : miniStreamCutoff ≤ (stream.length + (sector - 1)) / sector * sector := by
      simp only [sector, miniStreamCutoff] at *
      omega
    rw [if_neg short, Nat.max_eq_right most]
    by_cases whole : stream.length % sector = 0
    · have same : (stream.length + (sector - 1)) / sector * sector = stream.length := by
        simp only [sector] at *
        omega
      rw [if_neg (by simpa using whole), same, Nat.sub_self, List.replicate_zero, List.append_nil]
    · have up : stream.length ≤ (stream.length + (sector - 1)) / sector * sector := by
        simp only [sector] at *
        omega
      rw [if_pos whole]
      exact grown _ _ up

theorem length_le_paddedLength (length : Nat) : length ≤ paddedLength length := by
  simp only [paddedLength, sector]
  omega

theorem length_padded (stream : List UInt8) : (padded stream).length = paddedLength stream.length := by
  have least := length_le_paddedLength stream.length
  rw [padded_eq, List.length_append, List.length_replicate]
  omega

/-- Whole sectors, and at least as many as the cutoff has. -/
theorem paddedLength_eq (length : Nat) : ∃ sectors, 8 ≤ sectors ∧ paddedLength length = sectors * sector := by
  refine ⟨max 8 ((length + (sector - 1)) / sector), Nat.le_max_left _ _, ?_⟩
  simp only [paddedLength, sector, miniStreamCutoff]
  omega

def sectorsOf (data : List UInt8) : List (List UInt8) :=
  (List.range (data.length / sector)).map fun index => (data.drop (index * sector)).take sector

theorem flatten_sectorsOf {data : List UInt8} (whole : data.length = sectors * sector) :
    (sectorsOf data).flatten = data := by
  have positive : 0 < sector := by decide
  have count : data.length / sector = sectors := by rw [whole, Nat.mul_div_cancel _ positive]
  rw [sectorsOf, count]
  clear count
  induction sectors generalizing data with
  | zero =>
    rw [Nat.zero_mul] at whole
    rw [List.length_eq_zero_iff.mp whole]
    rfl
  | succ sectors ih =>
    have rest := @ih (data.drop sector) (by rw [List.length_drop, whole, Nat.succ_mul, Nat.add_sub_cancel])
    rw [List.range_succ_eq_map, List.map_cons, List.map_map, List.flatten_cons, Nat.zero_mul, List.drop_zero]
    have later : (List.range sectors).map ((fun index => (data.drop (index * sector)).take sector) ∘ Nat.succ) =
        (List.range sectors).map fun index => ((data.drop sector).drop (index * sector)).take sector := by
      apply List.map_congr_left
      intro index _
      rw [Function.comp_apply, List.drop_drop, Nat.succ_mul, Nat.add_comm]
    rw [later, rest, List.take_append_drop]

theorem sectorsOf_length (data : List UInt8) : (sectorsOf data).length = data.length / sector := by
  rw [sectorsOf, List.length_map, List.length_range]

theorem length_of_sectorsOf {data : List UInt8} : ∀ part ∈ sectorsOf data, part.length = sector := by
  intro part inside
  obtain ⟨index, place, rfl⟩ := List.mem_map.mp inside
  have below := List.mem_range.mp place
  have fits : (index + 1) * sector ≤ data.length :=
    Nat.le_trans (Nat.mul_le_mul_right _ below) (Nat.div_mul_le_self _ _)
  rw [Nat.succ_mul] at fits
  rw [List.length_take, List.length_drop]
  omega

theorem fatEntries_eq (room : last + 3 ≤ 128) :
    fatEntries (last + 1) = (List.range last).map (· + 1) ++
      (endofchain :: fatsect :: endofchain :: List.replicate (125 - last) freesect) := by
  have chain : ((List.range (last + 1)).map (· + 1)).modifyLast (fun _ => endofchain) =
      (List.range last).map (· + 1) ++ [endofchain] := by
    rw [List.range_succ, List.map_append, List.map_singleton, List.modifyLast_concat]
  have length : ((List.range last).map (· + 1) ++ [endofchain] ++ [fatsect, endofchain]).length = last + 3 := by simp
  have left : 128 - (last + 3) = 125 - last := by omega
  rw [fatEntries, chain, resize, List.take_of_length_le (by omega), length, left]
  simp

theorem length_fatEntries (room : last + 3 ≤ 128) : (fatEntries (last + 1)).length = 128 := by
  rw [fatEntries_eq room]
  simp only [List.length_append, List.length_map, List.length_range, List.length_cons, List.length_replicate]
  omega

theorem fatEntries_link (room : last + 3 ≤ 128) (inside : index < last) :
    (fatEntries (last + 1))[index]? = some (index + 1) := by
  rw [fatEntries_eq room, List.getElem?_append_left (by simpa)]
  simp [inside]

/-- Behind the chain stand the table's own entry and the directory's. -/
theorem fatEntries_tail (room : last + 3 ≤ 128) (index : Nat) :
    (fatEntries (last + 1))[last + index]? =
      (endofchain :: fatsect :: endofchain :: List.replicate (125 - last) freesect)[index]? := by
  rw [fatEntries_eq room, List.getElem?_append_right (by simp)]
  simp

theorem fatEntries_small (room : last + 3 ≤ 128) : ∀ entry ∈ fatEntries (last + 1), entry < 256 ^ 4 := by
  intro entry inside
  rw [fatEntries_eq room] at inside
  rcases List.mem_append.mp inside with link | mark
  · obtain ⟨index, place, rfl⟩ := List.mem_map.mp link
    have below := List.mem_range.mp place
    omega
  · simp only [List.mem_cons, List.mem_replicate] at mark
    rcases mark with rfl | rfl | rfl | ⟨-, rfl⟩ <;> decide

theorem numbersIn_table (small : ∀ entry ∈ entries, entry < 256 ^ 4) :
    numbersIn (tableBytes 4 entries) = some entries := by
  have count : (tableBytes 4 entries).length / 4 = entries.length := by
    rw [length_tableBytes, Nat.mul_div_cancel_left _ (by decide)]
  rw [numbersIn, count]
  apply mapM_places
  intro index entry place
  have found := readAt_table [] 4 [] place
  rw [Nat.mod_eq_of_lt (small entry (List.mem_of_getElem? place)), List.nil_append, List.append_nil, List.length_nil,
    Nat.zero_add] at found
  exact found

/-- The entries of the header that name the table's sectors. -/
def difat (fatSector : Nat) : List Nat := (List.range 109).map fun index => if index = 0 then fatSector else freesect

theorem length_header (sectors : Nat) : (header sectors).length = sector := by simp [header, sector]

theorem header_eq (sectors : Nat) : header sectors = (header sectors).take 76 ++ tableBytes 4 (difat sectors) := by
  have entries : tableBytes 4 (difat sectors) = (List.range 109).flatMap fun index =>
      leBytes 4 (if index = 0 then sectors else freesect) := by
    rw [tableBytes, difat, List.flatMap_map]
  rw [entries]
  rfl

theorem readAt_header {sectors : Nat} {rest : List UInt8} (inside : position + count ≤ sector)
    (field : ((header sectors ++ rest).drop position).take count = leBytes count value) (small : value < 256 ^ count) :
    readAt count (header sectors ++ rest) position = some value := by
  have fits : position + count ≤ (header sectors ++ rest).length := by
    rw [List.length_append, length_header]
    omega
  rw [readAt, if_pos fits, field, leValue_leBytes, Nat.mod_eq_of_lt small]

theorem header_fatCount (sectors : Nat) (rest : List UInt8) : readAt 4 (header sectors ++ rest) 44 = some 1 :=
  readAt_header (by decide) rfl (by decide)

theorem header_directoryStart (small : sectors + 1 < 256 ^ 4) (rest : List UInt8) :
    readAt 4 (header sectors ++ rest) 48 = some (sectors + 1) :=
  readAt_header (by decide) rfl small

theorem header_difat (small : sectors < 256 ^ 4) (rest : List UInt8) :
    ((List.range 109).mapM fun index => readAt 4 (header sectors ++ rest) (76 + 4 * index)) = some (difat sectors) := by
  have count : (difat sectors).length = 109 := by rw [difat, List.length_map, List.length_range]
  have entries : ∀ entry ∈ difat sectors, entry < 256 ^ 4 := by
    intro entry inside
    obtain ⟨index, -, rfl⟩ := List.mem_map.mp inside
    split
    · exact small
    · decide
  rw [← count]
  apply mapM_places
  intro index entry place
  have found := readAt_table ((header sectors).take 76) 4 rest place
  rw [Nat.mod_eq_of_lt (entries entry (List.mem_of_getElem? place)), ← List.append_assoc, ← header_eq] at found
  exact found

theorem length_resize {α : Type} (items : List α) (size : Nat) (filler : α) :
    (resize items size filler).length = size := by
  rw [resize, List.length_append, List.length_take, List.length_replicate]
  omega

def rootEntry : List UInt8 := directoryEntry "Root Entry" 5 freesect freesect 1 endofchain 0

def workbookEntry (size : Nat) : List UInt8 := directoryEntry "Workbook" 2 freesect freesect freesect 0 size

theorem directory_eq (size : Nat) :
    directory size = [rootEntry, workbookEntry size, List.replicate 128 0, List.replicate 128 0].flatten := by
  have root : rootEntry.length = 128 := length_resize _ _ _
  have workbook : (workbookEntry size).length = 128 := length_resize _ _ _
  have both : (rootEntry ++ workbookEntry size).length = 256 := by rw [List.length_append, root, workbook]
  have room : sector - 256 = 128 + 128 := rfl
  rw [directory, resize]
  change (rootEntry ++ workbookEntry size).take sector ++
    List.replicate (sector - (rootEntry ++ workbookEntry size).length) 0 = _
  rw [List.take_of_length_le (by rw [both]; decide), both, room, List.replicate_add]
  simp

theorem root_not_stream : isStream "Workbook" rootEntry = false := by decide +kernel

theorem workbook_stream (size : Nat) : isStream "Workbook" (workbookEntry size) = true := rfl

theorem findStream_directory (small : size < 256 ^ 8) : findStream (directory size) "Workbook" = some (0, size) := by
  have sizes : ∀ part ∈ [rootEntry, workbookEntry size, List.replicate 128 0, List.replicate 128 0],
    part.length = 128 := by
    intro part inside
    simp only [List.mem_cons, List.not_mem_nil, or_false] at inside
    rcases inside with rfl | rfl | rfl | rfl
    · exact length_resize _ _ _
    · exact length_resize _ _ _
    · exact List.length_replicate
    · exact List.length_replicate
  have entries : ((List.range 4).mapM fun index => slice (directory size) (index * 128) ((index + 1) * 128)) =
      some [rootEntry, workbookEntry size, List.replicate 128 0, List.replicate 128 0] := by
    have found := mapM_slices [] [] sizes
    simp only [List.append_nil, List.nil_append, List.length_nil, Nat.zero_add, ← directory_eq] at found
    exact found
  have count : (directory size).length / 128 = 4 := by
    rw [directory, length_resize]
    rfl
  have start : readAt 4 (workbookEntry size) 116 = some 0 := rfl
  have length : readAt 8 (workbookEntry size) 120 = some size := by
    have field : ((workbookEntry size).drop 120).take 8 = leBytes 8 size := rfl
    have fits : 120 + 8 ≤ (workbookEntry size).length := Nat.le_of_eq (length_resize _ _ _).symm
    rw [readAt, if_pos fits, field, leValue_leBytes, Nat.mod_eq_of_lt small]
  rw [findStream, count, entries]
  simp only [Option.bind_eq_bind, Option.bind_some, List.find?_cons, root_not_stream, workbook_stream, start, length]

/-- The sectors behind the header: the stream's, the table's, the directory's. -/
def bodyOf (stream : List UInt8) : List (List UInt8) :=
  sectorsOf (padded stream) ++
    [tableBytes 4 (fatEntries ((padded stream).length / sector)), directory (padded stream).length]

theorem ole2_eq (stream : List UInt8) :
    ole2 stream = header ((padded stream).length / sector) ++ ((bodyOf stream).flatten ++ []) := by
  obtain ⟨sectors, -, whole⟩ := paddedLength_eq stream.length
  rw [← length_padded] at whole
  rw [ole2, bodyOf, List.flatten_append, flatten_sectorsOf whole]
  simp [tableBytes]

theorem sectors_of_padded (room : paddedLength stream.length ≤ 126 * sector) :
    ∃ last, last + 3 ≤ 128 ∧ (padded stream).length = (last + 1) * sector ∧
      (padded stream).length / sector = last + 1 := by
  obtain ⟨sectors, least, whole⟩ := paddedLength_eq stream.length
  have positive : 0 < sector := by decide
  have most : sectors ≤ 126 := by
    rw [whole] at room
    exact Nat.le_of_mul_le_mul_right room positive
  refine ⟨sectors - 1, by omega, ?_, ?_⟩
  · rw [length_padded, whole, Nat.sub_add_cancel (by omega)]
  · rw [length_padded, whole, Nat.mul_div_cancel _ positive, Nat.sub_add_cancel (by omega)]

theorem length_of_bodyOf (room : last + 3 ≤ 128) (count : (padded stream).length / sector = last + 1) :
    ∀ part ∈ bodyOf stream, part.length = sector := by
  intro part inside
  rcases List.mem_append.mp inside with own | table
  · exact length_of_sectorsOf part own
  · simp only [List.mem_cons, List.not_mem_nil, or_false] at table
    rcases table with rfl | rfl
    · rw [length_tableBytes, count, length_fatEntries room]
      rfl
    · exact length_resize _ _ _

theorem readContainer_ole2 (room : last + 3 ≤ 128) (whole : (padded stream).length = (last + 1) * sector)
    (count : (padded stream).length / sector = last + 1) :
    readContainer (ole2 stream) =
      some ⟨[last + 1], fatEntries (last + 1), [last + 2], List.range (last + 1), padded stream⟩ := by
  have sizes := length_of_bodyOf room count
  have file : ole2 stream = header (last + 1) ++ ((bodyOf stream).flatten ++ []) := by rw [← count, ole2_eq]
  have found : ∀ index part, (bodyOf stream)[index]? = some part → sectorAt (ole2 stream) index = some part := by
    intro index part place
    have read := slice_equal (header (last + 1)) [] sizes place
    rwa [length_header, ← file] at read
  have streamSectors : (sectorsOf (padded stream)).length = last + 1 := by rw [sectorsOf_length, count]
  have table : joined (ole2 stream) [last + 1] = some (tableBytes 4 (fatEntries (last + 1))) := by
    have own : (bodyOf stream)[last + 1]? = some (tableBytes 4 (fatEntries (last + 1))) := by
      rw [bodyOf, List.getElem?_append_right (Nat.le_of_eq streamSectors), streamSectors, Nat.sub_self, count]
      rfl
    rw [joined, List.mapM_cons, found _ _ own]
    simp
  have listed : joined (ole2 stream) [last + 2] = some (directory ((last + 1) * sector)) := by
    have own : (bodyOf stream)[last + 2]? = some (directory (padded stream).length) := by
      rw [bodyOf, List.getElem?_append_right (Nat.le_trans (Nat.le_of_eq streamSectors) (Nat.le_succ _)), streamSectors,
        Nat.succ_sub (Nat.le_refl _), Nat.sub_self]
      rfl
    rw [joined, List.mapM_cons, found _ _ own, whole]
    simp
  have content : joined (ole2 stream) (List.range (last + 1)) = some (padded stream) := by
    have parts : (List.range (sectorsOf (padded stream)).length).mapM (sectorAt (ole2 stream)) =
        some (sectorsOf (padded stream)) :=
      mapM_places fun index part place => found index part (by
        rw [bodyOf, List.getElem?_append_left (List.getElem?_eq_some_iff.mp place).1, place])
    rw [joined, ← streamSectors, parts, Option.map_some, flatten_sectorsOf whole]
  have entries := length_fatEntries room
  have directoryChain : follow (fatEntries (last + 1)) endofchain (fatEntries (last + 1)).length (last + 2) =
    some [last + 2] := by
    have ends : (fatEntries (last + 1))[last + 2 + 0]? = some endofchain := fatEntries_tail room 2
    have far : last + 2 + 0 < endofchain := by
      simp only [endofchain]
      omega
    have run := follow_run (last + 2) 0 (fatEntries (last + 1)).length
      (fun i inside => absurd inside (Nat.not_lt_zero i))
      ends far (by omega)
    exact run
  have streamChain : follow (fatEntries (last + 1)) endofchain (fatEntries (last + 1)).length 0 =
      some (List.range (last + 1)) := by
    have ends : (fatEntries (last + 1))[0 + last]? = some endofchain := by
      rw [Nat.zero_add]
      exact fatEntries_tail room 0
    have far : 0 + last < endofchain := by
      simp only [endofchain]
      omega
    have run := follow_run 0 last (fatEntries (last + 1)).length
      (fun i inside => by
        rw [Nat.zero_add]
        exact fatEntries_link room inside) ends far (by omega)
    rwa [← List.range_eq_range'] at run
  have small : last + 1 + 1 < 256 ^ 4 := by omega
  have signed : (ole2 stream).take 8 = signature := by
    rw [file]
    rfl
  have shift : readAt 2 (ole2 stream) 30 = some 9 := by
    rw [file]
    exact readAt_header (by decide) rfl (by decide)
  have cutoff : readAt 4 (ole2 stream) 56 = some miniStreamCutoff := by
    rw [file]
    exact readAt_header (by decide) rfl (by decide)
  have moreTables : readAt 4 (ole2 stream) 68 = some endofchain := by
    rw [file]
    exact readAt_header (by decide) rfl (by decide)
  have start := header_directoryStart small ((bodyOf stream).flatten ++ [])
  have tables := header_difat (Nat.lt_of_succ_lt small) ((bodyOf stream).flatten ++ [])
  have tableCount := header_fatCount (last + 1) ((bodyOf stream).flatten ++ [])
  rw [← file] at start tables tableCount
  have first : (difat (last + 1)).take 1 = [last + 1] := rfl
  have size : (last + 1) * sector < 256 ^ 8 := by
    simp only [sector]
    omega
  have long : miniStreamCutoff ≤ (last + 1) * sector := by
    rw [← whole, length_padded]
    exact Nat.le_max_left _ _
  rw [readContainer]
  simp only [signed, shift, cutoff, moreTables, start, tables, tableCount, first, table, Option.bind_eq_bind,
    Option.bind_some, numbersIn_table (fatEntries_small room), directoryChain, listed, findStream_directory size,
    streamChain, content, guard, if_pos long, if_pos (Nat.le_of_eq whole.symm)]
  have sized : 2 ^ 9 = sector := rfl
  rw [if_pos sized, ← whole, List.take_length]
  rfl

/-- A stream that fits in 126 sectors is read back from its document, behind it the zeros that pad it
to the cutoff and to whole sectors. Each sector of the file has one role: it is in the stream's chain,
it is the table's and marked so, it is the directory's, or it is free. -/
theorem container_reads_back (stream : List UInt8) (fits : stream.length ≤ 126 * sector) :
    ∃ container, readContainer (ole2 stream) = some container ∧
      container.stream = stream ++ List.replicate (paddedLength stream.length - stream.length) 0 ∧
      (container.chain ++ container.fatSectors ++ container.directorySectors).Nodup ∧
      ∀ index, sector + (index + 1) * sector ≤ (ole2 stream).length →
        index ∈ container.chain ∨ (index ∈ container.fatSectors ∧ container.fat[index]? = some fatsect) ∨
          index ∈ container.directorySectors ∨ container.fat[index]? = some freesect := by
  have padding : paddedLength stream.length ≤ 126 * sector := by
    simp only [paddedLength, sector, miniStreamCutoff] at *
    omega
  obtain ⟨last, room, whole, count⟩ := sectors_of_padded padding
  refine ⟨_, readContainer_ole2 room whole count, padded_eq stream, ?_, ?_⟩
  · have all : List.range (last + 1) ++ [last + 1] ++ [last + 2] = List.range (last + 3) := by
      rw [← List.range_succ, ← List.range_succ]
    rw [all]
    exact List.nodup_range
  · intro index inside
    have length : (ole2 stream).length = sector + (last + 3) * sector := by
      rw [ole2, count]
      simp only [List.length_append, length_header, whole, directory, length_resize]
      have table : ((fatEntries (last + 1)).flatMap (leBytes 4)).length = sector := by
        have length := length_tableBytes 4 (fatEntries (last + 1))
        rw [length_fatEntries room] at length
        exact length
      rw [table]
      simp only [sector]
      omega
    have below : index < last + 3 := by
      have positive : 0 < sector := by decide
      rw [length] at inside
      exact Nat.le_of_mul_le_mul_right (Nat.le_of_add_le_add_left inside) positive
    rcases Nat.lt_trichotomy index (last + 1) with chained | rfl | after
    · exact .inl (List.mem_range.mpr chained)
    · exact .inr (.inl ⟨List.mem_singleton_self _, fatEntries_tail room 1⟩)
    · have last : index = last + 2 := by omega
      exact .inr (.inr (.inl (List.mem_singleton.mpr last)))

/-- A short stream. -/
theorem three_bytes_read_back :
    ∃ container, readContainer (ole2 [1, 2, 3]) = some container ∧
      container.stream = [1, 2, 3] ++ List.replicate 4093 0 := by
  obtain ⟨container, read, stream, -⟩ := container_reads_back [1, 2, 3] (by decide)
  exact ⟨container, read, stream⟩

/-- An empty stream comes back as the zeros that pad it. -/
theorem empty_stream_padded : ∃ container, readContainer (ole2 []) = some container ∧ container.stream ≠ [] := by
  obtain ⟨last, room, whole, count⟩ := @sectors_of_padded [] (by decide)
  refine ⟨_, readContainer_ole2 room whole count, ?_⟩
  rw [padded_eq]
  exact List.append_ne_nil_of_right_ne_nil _ (by decide)

end QueryHive.Export.Xls
