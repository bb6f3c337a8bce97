import QueryHive.Export.Xls

/-! The shared string table against the rules its readers follow. The writer fills one record after
another and always ends; a string that breaks across records says its width again, so its units come
back whatever the places it breaks at. The length a reader goes by is the writer's count of
characters, which is the count of units where no character needs two. -/
namespace QueryHive.Export.Xls
open QueryHive.Library Bytes Utf16 Sections

/-- The payloads one after another, with a mark where each ends. -/
def marked (chunks : List (List UInt8)) : List (Option UInt8) := chunks.flatMap fun chunk => chunk.map some ++ [none]

/-- Whether an option byte says that each character has two bytes. -/
def isWide (options : UInt8) : Bool := options.toNat % 2 = 1

/-- So many units. Where a record ends among them, the next one says their width again. -/
def readUnits : Bool → Nat → List (Option UInt8) → Option (List Nat × List (Option UInt8))
  | _, 0, rest => some ([], rest)
  | _, left + 1, none :: some options :: rest => readUnits (isWide options) (left + 1) rest
  | false, left + 1, some byte :: rest =>
    (readUnits false left rest).map fun (units, rest) => (byte.toNat :: units, rest)
  | true, left + 1, some low :: some high :: rest =>
    (readUnits true left rest).map fun (units, rest) => (leValue [low, high] :: units, rest)
  | _, _ + 1, _ => none

def readString (tokens : List (Option UInt8)) : Option (List Char × List (Option UInt8)) :=
  match tokens.dropWhile Option.isNone with
  | some low :: some high :: some options :: rest => do
    let (units, rest) ← readUnits (isWide options) (leValue [low, high]) rest
    let text ← decodeUtf16 units
    some (text, rest)
  | _ => none

def readStrings : Nat → List (Option UInt8) → Option (List String)
  | 0, _ => some []
  | left + 1, tokens => do
    let (text, rest) ← readString tokens
    let texts ← readStrings left rest
    some (String.ofList text :: texts)

/-- The table in the payloads of its records: how many strings there are, then the strings. -/
def readSst : List (List UInt8) → Option (List String)
  | [] => none
  | first :: more => do
    let count ← readAt 4 first 4
    readStrings count (marked (first.drop 8 :: more))

/-- The records of a stream, their types and payloads. -/
def readRecords : Nat → List UInt8 → Option (List (Nat × List UInt8))
  | 0, bytes => if bytes = [] then some [] else none
  | turns + 1, bytes =>
    if bytes = [] then some []
    else do
      let kind ← readAt 2 bytes 0
      let length ← readAt 2 bytes 2
      let payload ← slice bytes 4 (4 + length)
      let records ← readRecords turns (bytes.drop (4 + length))
      some ((kind, payload) :: records)

/-- The table is one SST record and the CONTINUE records behind it. -/
def readTable (bytes : List UInt8) : Option (List String) :=
  match readRecords bytes.length bytes with
  | some ((kind, first) :: more) =>
    if kind = 0x00FC ∧ ∀ entry ∈ more, entry.1 = 0x003C then readSst (first :: more.map Prod.snd) else none
  | _ => none

theorem length_record (kind : Nat) (data : List UInt8) : (record kind data).length = 4 + data.length := by
  simp only [record, List.length_append, length_leBytes]

theorem readRecords_record (small : kind < 65536) (fits : data.length < 65536) (turns : Nat) (rest : List UInt8) :
    readRecords (turns + 1) (record kind data ++ rest) =
      (readRecords turns rest).map ((kind, data) :: ·) := by
  have nonempty : record kind data ++ rest ≠ [] := by
    intro empty
    have none := congrArg List.length empty
    rw [List.length_append, length_record] at none
    simp only [List.length_nil] at none
    omega
  have kindRead : readAt 2 (record kind data ++ rest) 0 = some kind := by
    have found := readAt_front [] 2 kind (leBytes 2 data.length ++ data ++ rest)
    rw [Nat.mod_eq_of_lt (show kind < 256 ^ 2 from small)] at found
    rw [record, List.append_assoc, List.append_assoc]
    simpa only [List.nil_append, List.length_nil, List.append_assoc] using found
  have lengthRead : readAt 2 (record kind data ++ rest) 2 = some data.length := by
    have found := readAt_front (leBytes 2 kind) 2 data.length (data ++ rest)
    rw [Nat.mod_eq_of_lt (show data.length < 256 ^ 2 from fits), length_leBytes] at found
    rw [record, List.append_assoc, List.append_assoc]
    exact found
  have payload : slice (record kind data ++ rest) 4 (4 + data.length) = some data := by
    have found := slice_front (leBytes 2 kind ++ leBytes 2 data.length) data rest
    rw [List.length_append, length_leBytes, length_leBytes] at found
    rw [record, List.append_assoc]
    exact found
  have later : (record kind data ++ rest).drop (4 + data.length) = rest := by
    rw [← length_record kind data, List.drop_left]
  rw [readRecords, if_neg nonempty, kindRead, lengthRead]
  simp only [Option.bind_eq_bind, Option.bind_some, payload, later]
  cases readRecords turns rest <;> rfl

theorem readRecords_flatten {entries : List (Nat × List UInt8)}
    (fits : ∀ entry ∈ entries, entry.1 < 65536 ∧ entry.2.length < 65536) (enough : entries.length ≤ turns) :
    readRecords turns (entries.map fun entry => record entry.1 entry.2).flatten = some entries := by
  induction entries generalizing turns with
  | nil => cases turns <;> rfl
  | cons entry entries ih =>
    cases turns with
    | zero => simp at enough
    | succ turns =>
      have own := fits entry List.mem_cons_self
      rw [List.map_cons, List.flatten_cons, readRecords_record own.1 own.2,
        ih (fun other inside => fits other (List.mem_cons_of_mem _ inside)) (Nat.le_of_succ_le_succ enough)]
      rfl

theorem recordsOf_cons (first : List UInt8) (more : List (List UInt8)) :
    recordsOf (first :: more) =
      (((0x00FC, first) :: more.map fun chunk => (0x003C, chunk)).map fun entry => record entry.1 entry.2).flatten := by
  have later : more.mapIdx (fun position chunk => record (if position + 1 = 0 then 0x00FC else 0x003C) chunk) =
      more.map (record 0x003C) := by
    apply List.ext_getElem
    · simp
    · intro i _ _
      simp
  rw [recordsOf, List.mapIdx_cons, later, List.map_cons, List.map_map]
  rfl

def Chunks.marked (chunks : Chunks) : List (Option UInt8) := Xls.marked chunks.finished ++ chunks.last.map some

theorem marked_all (chunks : Chunks) : marked chunks.all = chunks.marked ++ [none] := by
  simp [Chunks.marked, marked, Chunks.all]

theorem marked_push (chunks : Chunks) (chunk : List UInt8) :
    (chunks.push chunk).marked = chunks.marked ++ none :: chunk.map some := by
  simp [Chunks.marked, marked, Chunks.push]

theorem marked_extend (chunks : Chunks) (bytes : List UInt8) :
    (chunks.extend bytes).marked = chunks.marked ++ bytes.map some := by
  simp [Chunks.marked, Chunks.extend]

/-- No payload is longer than a record holds. -/
def Chunks.Bounded (chunks : Chunks) : Prop := ∀ chunk ∈ chunks.all, chunk.length ≤ maxRecordData

theorem Chunks.Bounded.last {chunks : Chunks} (bounded : chunks.Bounded) : chunks.last.length ≤ maxRecordData :=
  bounded _ (List.mem_append_right _ (List.mem_singleton_self _))

theorem Chunks.Bounded.push {chunks : Chunks} (bounded : chunks.Bounded) (fits : chunk.length ≤ maxRecordData) :
    (chunks.push chunk).Bounded := by
  intro other inside
  rcases List.mem_append.mp inside with before | same
  · exact bounded other before
  · rw [List.mem_singleton.mp same]
    exact fits

theorem Chunks.Bounded.extend {chunks : Chunks} (bounded : chunks.Bounded)
    (fits : chunks.last.length + bytes.length ≤ maxRecordData) : (chunks.extend bytes).Bounded := by
  intro other inside
  rcases List.mem_append.mp inside with before | same
  · exact bounded other (List.mem_append_left _ before)
  · rw [List.mem_singleton.mp same, Chunks.extend, List.length_append]
    exact fits

def widthByte (wide : Bool) : UInt8 := if wide then 0x01 else 0x00

/-- How many bytes a unit of a width has. -/
def widthSize (wide : Bool) : Nat := if wide then 2 else 1

def widthBytes (wide : Bool) (unit : Nat) : List UInt8 := if wide then leBytes 2 unit else [UInt8.ofNat unit]

theorem length_widthBytes (wide : Bool) (unit : Nat) : (widthBytes wide unit).length = widthSize wide := by
  cases wide <;> rfl

theorem length_units (wide : Bool) (units : List Nat) :
    (units.flatMap (widthBytes wide)).length = units.length * widthSize wide := by
  induction units with
  | nil => simp
  | cons unit units ih =>
    rw [List.flatMap_cons, List.length_append, ih, length_widthBytes, List.length_cons, Nat.succ_mul, Nat.add_comm]

/-- How the units of a string stand in the payloads: one after another, and where a record ends
among them, the option byte again. -/
inductive Spread (wide : Bool) : List Nat → List (Option UInt8) → Prop
  | done : Spread wide [] []
  | unit : Spread wide units tokens → Spread wide (unit :: units) ((widthBytes wide unit).map some ++ tokens)
  | broken : Spread wide (unit :: units) tokens → Spread wide (unit :: units) (none :: some (widthByte wide) :: tokens)

theorem Spread.append (front : List Nat) (spread : Spread wide units tokens) :
    Spread wide (front ++ units) ((front.flatMap (widthBytes wide)).map some ++ tokens) := by
  induction front with
  | nil => exact spread
  | cons unit front ih =>
    rw [List.flatMap_cons, List.map_append, List.append_assoc]
    exact ih.unit

theorem split_units (wide : Bool) {units : List Nat} (inside : whole ≤ units.length) :
    (units.flatMap (widthBytes wide)).take (whole * widthSize wide) = (units.take whole).flatMap (widthBytes wide) ∧
      (units.flatMap (widthBytes wide)).drop (whole * widthSize wide) =
      (units.drop whole).flatMap (widthBytes wide) := by
  have length : ((units.take whole).flatMap (widthBytes wide)).length = whole * widthSize wide := by
    rw [length_units, List.length_take, Nat.min_eq_left inside]
  have split : units.flatMap (widthBytes wide) =
      (units.take whole).flatMap (widthBytes wide) ++ (units.drop whole).flatMap (widthBytes wide) := by
    rw [← List.flatMap_append, List.take_append_drop]
  rw [split]
  exact ⟨List.take_left' length, List.drop_left' length⟩

theorem fill_spread {wide : Bool} {units : List Nat} {chunks : Chunks} (bounded : chunks.Bounded)
    (room : units ≠ [] → chunks.last.length + widthSize wide ≤ maxRecordData)
    (enough : units.length * widthSize wide < turns) :
    ∃ after tokens, fill (widthByte wide) (widthSize wide) turns chunks (units.flatMap (widthBytes wide)) = some after ∧
      after.Bounded ∧ Spread wide units tokens ∧ after.marked = chunks.marked ++ tokens := by
  induction turns generalizing units chunks with
  | zero => exact absurd enough (Nat.not_lt_zero _)
  | succ turns ih =>
    have positive : 0 < widthSize wide := by cases wide <;> decide
    have small : widthSize wide ≤ 2 := by cases wide <;> decide
    by_cases empty : units = []
    · subst empty
      exact ⟨chunks, [], by rw [fill]; exact if_pos rfl, bounded, .done, (List.append_nil _).symm⟩
    have count : 0 < units.length := List.length_pos_iff.mpr empty
    have left := length_units wide units
    have fits := room empty
    generalize bytesLeft : units.flatMap (widthBytes wide) = characters at *
    have some_left : characters ≠ [] := by
      rw [← List.length_pos_iff, left]
      exact Nat.mul_pos count positive
    -- `whole` units are taken, at least one of them.
    obtain ⟨whole, taken⟩ : ∃ whole, min
      (maxRecordData - chunks.last.length) characters.length / widthSize wide = whole :=
      ⟨_, rfl⟩
    have least : 1 ≤ whole := by
      rw [← taken, Nat.one_le_div_iff positive, left]
      exact Nat.le_min.mpr ⟨by omega, Nat.le_mul_of_pos_left _ count⟩
    have most : whole * widthSize wide ≤ min (maxRecordData - chunks.last.length) characters.length := by
      rw [← taken]
      exact Nat.div_mul_le_self _ _
    have least' : widthSize wide ≤ whole * widthSize wide := Nat.le_mul_of_pos_left _ least
    have inside : whole ≤ units.length := by
      have bound : whole * widthSize wide ≤ units.length * widthSize wide := by
        rw [← left]
        exact Nat.le_trans most (Nat.min_le_right _ _)
      exact Nat.le_of_mul_le_mul_right bound positive
    obtain ⟨front, back⟩ := split_units wide inside
    rw [bytesLeft] at front back
    have grown : (chunks.extend ((units.take whole).flatMap (widthBytes wide))).Bounded := by
      apply bounded.extend
      rw [length_units, List.length_take, Nat.min_eq_left inside]
      have bound := bounded.last
      omega
    have fewer : (units.drop whole).length * widthSize wide < turns := by
      rw [List.length_drop, Nat.sub_mul]
      omega
    rw [fill, if_neg some_left]
    simp only [taken]
    rw [if_neg (by omega), front, back]
    by_cases spent : units.drop whole = []
    · obtain ⟨after, tokens, filled, afterBounded, spread, shown⟩ := ih grown (fun more => absurd spent more) fewer
      have all : units.take whole = units := by
        rw [← List.append_nil (units.take whole), ← spent, List.take_append_drop]
      have written : (units.drop whole).flatMap (widthBytes wide) = [] := by rw [spent, List.flatMap_nil]
      rw [spent] at spread
      refine ⟨after, (units.flatMap (widthBytes wide)).map some ++ tokens, ?_, afterBounded, ?_, ?_⟩
      · rw [if_pos written]
        exact filled
      · have joined := spread.append units
        rwa [List.append_nil] at joined
      · rw [shown, marked_extend, all, List.append_assoc]
    · have again : [widthByte wide].length ≤ maxRecordData := by cases wide <;> decide
      have roomy : units.drop whole ≠ [] →
          ((chunks.extend ((units.take whole).flatMap (widthBytes wide))).push [widthByte wide]).last.length +
            widthSize wide ≤ maxRecordData := by
        intro _
        have bound : 1 + widthSize wide ≤ maxRecordData := by cases wide <;> decide
        exact bound
      obtain ⟨after, tokens, filled, afterBounded, spread, shown⟩ := ih (grown.push again) roomy fewer
      have written : ¬(units.drop whole).flatMap (widthBytes wide) = [] := by
        rw [← List.length_eq_zero_iff, length_units]
        have more := List.length_pos_iff.mpr spent
        exact Nat.ne_of_gt (Nat.mul_pos more positive)
      obtain ⟨unit, rest, later⟩ := List.exists_cons_of_ne_nil spent
      refine ⟨after, ((units.take whole).flatMap (widthBytes wide)).map some ++ none :: some (widthByte wide) :: tokens,
        ?_, afterBounded, ?_, ?_⟩
      · rw [if_neg written]
        exact filled
      · have joined := (Spread.broken (later ▸ spread)).append (units.take whole)
        rwa [← later, List.take_append_drop] at joined
      · rw [shown, marked_push, marked_extend]
        simp only [List.map_cons, List.map_nil, List.append_assoc, List.cons_append, List.nil_append]

/-- Whether a string's characters have two bytes each. -/
def wideText (text : String) : Bool := !isCompressed text

theorem optionsOf_eq (text : String) : optionsOf text = widthByte (wideText text) := by
  cases compressed : isCompressed text <;> simp [optionsOf, widthByte, wideText, compressed]

theorem unitOf_eq (text : String) : unitOf text = widthSize (wideText text) := by
  cases compressed : isCompressed text <;> simp [unitOf, widthSize, wideText, compressed]

/-- A character below 256 is one unit. -/
theorem encodeUtf16_compressed {text : List Char} (compressed : text.all (·.toNat < 256)) :
    encodeUtf16 text = text.map Char.toNat := by
  induction text with
  | nil => rfl
  | cons c text ih =>
    simp only [List.all_cons, Bool.and_eq_true, decide_eq_true_eq] at compressed
    have small : c.toNat < 0x10000 := Nat.lt_trans compressed.1 (by decide)
    rw [encodeUtf16, List.flatMap_cons, unitsOf, if_pos small, List.map_cons, ← ih compressed.2]
    rfl

theorem charactersOf_eq (text : String) :
    charactersOf text = (encodeUtf16 text.toList).flatMap (widthBytes (wideText text)) := by
  cases compressed : isCompressed text with
  | false =>
    rw [charactersOf, compressed, wideText, compressed]
    rfl
  | true =>
    rw [charactersOf, compressed, wideText, compressed, encodeUtf16_compressed compressed, if_pos rfl,
      List.map_eq_flatMap, List.flatMap_map]
    rfl

def stringHeader (text : String) : List UInt8 := leBytes 2 text.toList.length ++ [optionsOf text]

/-- How strings stand in the payloads. A new record may start in front of a header. -/
inductive Laid : List String → List (Option UInt8) → Prop
  | none : Laid [] []
  | next (gap : ∀ token ∈ mark, token = Option.none) (spread : Spread (wideText text) (encodeUtf16 text.toList) tokens)
      (laid : Laid texts rest) : Laid (text :: texts) (mark ++ ((stringHeader text).map some ++ (tokens ++ rest)))

theorem addString_laid (bounded : Chunks.Bounded chunks) (text : String) :
    ∃ after mark tokens, addString chunks text = some after ∧ after.Bounded ∧
      (∀ token ∈ mark, token = Option.none) ∧ Spread (wideText text) (encodeUtf16 text.toList) tokens ∧
      after.marked = chunks.marked ++ (mark ++ ((stringHeader text).map some ++ tokens)) := by
  have header : (stringHeader text).length = 3 := by
    rw [stringHeader, List.length_append, length_leBytes]
    rfl
  have size : widthSize (wideText text) ≤ 2 := by cases wideText text <;> decide
  have filled : ∀ start : Chunks, start.Bounded → start.last.length + 3 + widthSize (wideText text) ≤ maxRecordData →
      ∃ after tokens, fill (optionsOf text) (unitOf text) ((charactersOf text).length + 1)
          (start.extend (stringHeader text)) (charactersOf text) = some after ∧ after.Bounded ∧
        Spread (wideText text) (encodeUtf16 text.toList) tokens ∧
        after.marked = start.marked ++ ((stringHeader text).map some ++ tokens) := by
    intro start fits room
    have grown : (start.extend (stringHeader text)).Bounded := fits.extend (by omega)
    have roomy : encodeUtf16 text.toList ≠ [] →
        (start.extend (stringHeader text)).last.length + widthSize (wideText text) ≤ maxRecordData := by
      intro _
      rw [Chunks.extend, List.length_append, header]
      exact room
    have turns : (encodeUtf16 text.toList).length * widthSize (wideText text) < (charactersOf text).length + 1 := by
      rw [charactersOf_eq, length_units]
      exact Nat.lt_succ_self _
    obtain ⟨after, tokens, done, afterBounded, spread, shown⟩ := fill_spread grown roomy turns
    rw [← charactersOf_eq, ← optionsOf_eq, ← unitOf_eq] at done
    refine ⟨after, tokens, done, afterBounded, spread, ?_⟩
    rw [shown, marked_extend, List.append_assoc]
  by_cases full : chunks.last.length + 3 + unitOf text > maxRecordData
  · have room : 0 + 3 + widthSize (wideText text) ≤ maxRecordData := by
      have bound : 0 + 3 + 2 ≤ maxRecordData := by decide
      omega
    obtain ⟨after, tokens, done, afterBounded, spread, shown⟩ :=
      filled (chunks.push []) (bounded.push (Nat.zero_le _)) room
    refine ⟨after, [Option.none], tokens, ?_, afterBounded, by simp, spread, ?_⟩
    · rw [addString]
      simp only [if_pos full]
      exact done
    · rw [shown, marked_push]
      simp
  · have room : chunks.last.length + 3 + widthSize (wideText text) ≤ maxRecordData := by
      rw [← unitOf_eq]
      exact Nat.not_lt.mp full
    obtain ⟨after, tokens, done, afterBounded, spread, shown⟩ := filled chunks bounded room
    refine ⟨after, [], tokens, ?_, afterBounded, by simp, spread, shown⟩
    rw [addString]
    simp only [if_neg full]
    exact done

theorem addStrings_laid (bounded : Chunks.Bounded chunks) (strings : List String) :
    ∃ after tokens, strings.foldlM addString chunks = some after ∧ after.Bounded ∧ Laid strings tokens ∧
      after.marked = chunks.marked ++ tokens := by
  induction strings generalizing chunks with
  | nil => exact ⟨chunks, [], rfl, bounded, .none, (List.append_nil _).symm⟩
  | cons text strings ih =>
    obtain ⟨middle, mark, tokens, added, middleBounded, gap, spread, shown⟩ := addString_laid bounded text
    obtain ⟨after, rest, more, afterBounded, laid, shown'⟩ := ih middleBounded
    refine ⟨after, _, ?_, afterBounded, .next gap spread laid, ?_⟩
    · rw [List.foldlM_cons, added]
      exact more
    · rw [shown', shown]
      simp only [List.append_assoc]

theorem isWide_widthByte (wide : Bool) : isWide (widthByte wide) = wide := by cases wide <;> rfl

theorem readUnits_zero (wide : Bool) (rest : List (Option UInt8)) : readUnits wide 0 rest = some ([], rest) := by
  rw [readUnits]

theorem readUnits_mark (wide : Bool) (left : Nat) (options : UInt8) (rest : List (Option UInt8)) :
    readUnits wide (left + 1) (none :: some options :: rest) = readUnits (isWide options) (left + 1) rest := by
  cases wide <;> rfl

theorem readUnits_narrow (left : Nat) (byte : UInt8) (rest : List (Option UInt8)) :
    readUnits false (left + 1) (some byte :: rest) =
      (readUnits false left rest).map fun (units, rest) => (byte.toNat :: units, rest) := rfl

theorem readUnits_wide (left : Nat) (low high : UInt8) (rest : List (Option UInt8)) :
    readUnits true (left + 1) (some low :: some high :: rest) =
      (readUnits true left rest).map fun (units, rest) => (leValue [low, high] :: units, rest) := rfl

theorem readUnits_unit {wide : Bool} (small : unit < if wide then 65536 else 256) (left : Nat)
    (rest : List (Option UInt8)) :
    readUnits wide (left + 1) ((widthBytes wide unit).map some ++ rest) =
      (readUnits wide left rest).map fun (units, rest) => (unit :: units, rest) := by
  cases wide with
  | false =>
    have own : (UInt8.ofNat unit).toNat = unit := UInt8.toNat_ofNat_of_lt' small
    simp [widthBytes, readUnits_narrow, own]
  | true =>
    have own : leValue (leBytes 2 unit) = unit := by
      rw [leValue_leBytes]
      exact Nat.mod_eq_of_lt small
    have shape : (leBytes 2 unit).map some = [some (UInt8.ofNat unit), some (UInt8.ofNat (unit / 256))] := rfl
    have pair : leValue [UInt8.ofNat unit, UInt8.ofNat (unit / 256)] = unit := own
    simp [widthBytes, shape, readUnits_wide, pair]

/-- Where they break does not matter: so many units are read, and all of them leave what follows. -/
theorem readUnits_spread {wide : Bool} (spread : Spread wide units tokens)
    (small : ∀ unit ∈ units, unit < if wide then 65536 else 256) (rest : List (Option UInt8))
    (part : count ≤ units.length) :
    ∃ after, readUnits wide count (tokens ++ rest) = some (units.take count, after) ∧
      (count = units.length → after = rest) := by
  induction spread generalizing count with
  | done =>
    have none : count = 0 := Nat.le_zero.mp part
    subst none
    exact ⟨rest, readUnits_zero wide rest, fun _ => rfl⟩
  | @unit units tokens unit spread ih =>
    cases count with
    | zero => exact ⟨_, readUnits_zero wide _, fun short => absurd short (by simp)⟩
    | succ count =>
      obtain ⟨after, read, all⟩ := ih (fun other inside => small other (List.mem_cons_of_mem _ inside))
        (Nat.le_of_succ_le_succ part)
      refine ⟨after, ?_, fun whole => all (Nat.succ.inj whole)⟩
      rw [List.append_assoc, readUnits_unit (small unit List.mem_cons_self), read]
      rfl
  | @broken unit units tokens spread ih =>
    cases count with
    | zero => exact ⟨_, readUnits_zero wide _, fun short => absurd short (by simp)⟩
    | succ count =>
      obtain ⟨after, read, all⟩ := ih small part
      refine ⟨after, ?_, all⟩
      rw [List.cons_append, List.cons_append, readUnits_mark, isWide_widthByte]
      exact read

/-- Each character is one UTF-16 unit. -/
def OneUnitEach (text : String) : Prop := ∀ c ∈ text.toList, c.toNat < 0x10000

theorem oneUnitEach_iff (text : String) : OneUnitEach text ↔ text.toList.length = (encodeUtf16 text.toList).length := by
  have none : text.toList.countP (fun c => 0x10000 ≤ c.toNat) = 0 ↔ OneUnitEach text := by
    simp [List.countP_eq_zero, OneUnitEach]
  rw [length_encodeUtf16, ← none]
  omega

theorem units_small (text : String) :
    ∀ unit ∈ encodeUtf16 text.toList, unit < if wideText text then 65536 else 256 := by
  intro unit inside
  cases compressed : isCompressed text with
  | false =>
    rw [wideText, compressed]
    exact encodeUtf16_lt _ unit inside
  | true =>
    rw [wideText, compressed]
    rw [encodeUtf16_compressed compressed] at inside
    obtain ⟨c, place, rfl⟩ := List.mem_map.mp inside
    exact of_decide_eq_true (List.all_eq_true.mp compressed c place)

theorem readString_laid (gap : ∀ token ∈ mark, token = none)
    (spread : Spread (wideText text) (encodeUtf16 text.toList) tokens)
    (short : (encodeUtf16 text.toList).length ≤ 32767) (rest : List (Option UInt8)) :
    ∃ after, readString (mark ++ ((stringHeader text).map some ++ (tokens ++ rest))) =
        (decodeUtf16 ((encodeUtf16 text.toList).take text.toList.length)).map (·, after) ∧
      (OneUnitEach text → after = rest) := by
  have fewer : text.toList.length ≤ (encodeUtf16 text.toList).length := by
    rw [length_encodeUtf16]
    exact Nat.le_add_right _ _
  obtain ⟨after, read, all⟩ := readUnits_spread spread (units_small text) rest fewer
  refine ⟨after, ?_, fun single => all ((oneUnitEach_iff text).mp single)⟩
  have count : leValue [UInt8.ofNat text.toList.length, UInt8.ofNat (text.toList.length / 256)] =
    text.toList.length := by
    have back := leValue_leBytes 2 text.toList.length
    rw [Nat.mod_eq_of_lt (Nat.lt_of_le_of_lt (Nat.le_trans fewer short) (by decide))] at back
    exact back
  have header : (stringHeader text).map some =
      [some (UInt8.ofNat text.toList.length), some (UInt8.ofNat (text.toList.length / 256)),
      some (optionsOf text)] := rfl
  have start : (mark ++ ((stringHeader text).map some ++ (tokens ++ rest))).dropWhile Option.isNone =
      (stringHeader text).map some ++ (tokens ++ rest) := by
    rw [List.dropWhile_append_of_pos (fun token inside => by rw [gap token inside]; rfl), header]
    rfl
  rw [readString, start, header]
  simp only [List.cons_append, List.nil_append, count, optionsOf_eq, isWide_widthByte, read, Option.bind_eq_bind,
    Option.bind_some]
  cases decodeUtf16 ((encodeUtf16 text.toList).take text.toList.length) <;> rfl

/-- The strings come back exactly when each character of theirs is one unit, and all are counted. -/
theorem readStrings_laid_iff (laid : Laid strings tokens)
    (short : ∀ text ∈ strings, (encodeUtf16 text.toList).length ≤ 32767) (count : Nat) (rest : List (Option UInt8)) :
    readStrings count (tokens ++ rest) = some strings ↔ count = strings.length ∧ ∀ text ∈ strings,
      OneUnitEach text := by
  induction laid generalizing count with
  | none =>
    cases count with
    | zero => simp [readStrings]
    | succ count =>
      constructor
      · intro same
        rw [readStrings] at same
        obtain ⟨⟨text, later⟩, -, more⟩ := Option.bind_eq_some_iff.mp same
        obtain ⟨texts, -, joined⟩ := Option.bind_eq_some_iff.mp more
        simp at joined
      · rintro ⟨none, -⟩
        cases none
  | @next mark text tokens texts later gap spread laid ih =>
    cases count with
    | zero => simp [readStrings]
    | succ count =>
      have own := short text List.mem_cons_self
      obtain ⟨after, read, all⟩ := readString_laid gap spread own (later ++ rest)
      have continued := ih (fun other inside => short other (List.mem_cons_of_mem _ inside))
      rw [List.append_assoc, List.append_assoc, List.append_assoc, readStrings, read]
      by_cases single : OneUnitEach text
      · have whole : (encodeUtf16 text.toList).take text.toList.length = encodeUtf16 text.toList := by
          rw [(oneUnitEach_iff text).mp single, List.take_length]
        rw [whole, decodeUtf16_encodeUtf16, all single]
        simp only [Option.map_some, Option.bind_eq_bind, Option.bind_some, String.ofList_toList, List.length_cons,
          List.forall_mem_cons, single, true_and, Nat.add_right_cancel_iff]
        rw [← continued]
        cases readStrings count (later ++ rest) <;> simp
      · constructor
        · intro same
          obtain ⟨⟨other, place⟩, found, more⟩ := Option.bind_eq_some_iff.mp same
          obtain ⟨others, -, joined⟩ := Option.bind_eq_some_iff.mp more
          obtain ⟨rfl, -⟩ := List.cons.inj (Option.some.inj joined)
          obtain ⟨decoded, spelled, same⟩ := Option.map_eq_some_iff.mp found
          obtain ⟨rfl, -⟩ := Prod.mk.inj same
          -- A text that was cut short is not the one that was written.
          have again := encodeUtf16_of_decode
            (fun unit inside => encodeUtf16_lt _ unit (List.mem_of_mem_take inside)) spelled
          rw [String.toList_ofList] at again
          have length := congrArg List.length again
          rw [List.length_take, length_encodeUtf16] at length
          exact absurd ((oneUnitEach_iff (String.ofList decoded)).mpr (by
            rw [String.toList_ofList, length_encodeUtf16]
            omega)) single
        · rintro ⟨-, each⟩
          exact absurd (each text List.mem_cons_self) single

theorem marked_front {first : List UInt8} (same : marked (first :: more) = bytes.map some ++ rest) :
    ∃ later, first = bytes ++ later ∧ marked (later :: more) = rest := by
  induction bytes generalizing first with
  | nil => exact ⟨first, rfl, same⟩
  | cons byte bytes ih =>
    cases first with
    | nil => simp [marked] at same
    | cons own first =>
      have pair : some own :: marked (first :: more) = some byte :: (bytes.map some ++ rest) := by
        simpa [marked] using same
      obtain ⟨head, tail⟩ := List.cons.inj pair
      obtain ⟨later, rfl, rest⟩ := ih tail
      exact ⟨later, by rw [Option.some.inj head, List.cons_append], rest⟩

/-- The table is written for every list of strings, in records within the limit. It is read back as
the list exactly when no string has a character of two units, and the count of strings fits 32 bits. -/
theorem string_table_round_trips_iff (strings : List String)
    (short : ∀ text ∈ strings, (encodeUtf16 text.toList).length ≤ 32767) :
    ∃ chunks, sstChunks strings = some chunks ∧ sstRecords strings = some (recordsOf chunks.all) ∧
      (∀ chunk ∈ chunks.all, chunk.length ≤ maxRecordData) ∧
      (readTable (recordsOf chunks.all) = some strings ↔
        (∀ text ∈ strings, OneUnitEach text) ∧ strings.length < 2 ^ 32) := by
  have empty : (⟨[], sstHeader strings.length⟩ : Chunks).Bounded := by
    intro chunk inside
    rw [List.mem_singleton.mp inside, sstHeader, List.length_append, length_leBytes]
    decide
  obtain ⟨chunks, tokens, written, bounded, laid, shown⟩ := addStrings_laid empty strings
  refine ⟨chunks, written, ?_, bounded, ?_⟩
  · rw [sstRecords, sstChunks, written]
    rfl
  obtain ⟨first, more, all⟩ : ∃ first more, chunks.all = first :: more :=
    List.exists_cons_of_ne_nil (List.append_ne_nil_of_right_ne_nil _ (List.cons_ne_nil _ _))
  have marks : marked (first :: more) = (sstHeader strings.length).map some ++ (tokens ++ [none]) := by
    rw [← all, marked_all, shown, Chunks.marked]
    simp [marked]
  obtain ⟨later, rfl, rest⟩ := marked_front marks
  have counted : readAt 4 (sstHeader strings.length ++ later) 4 = some (strings.length % 2 ^ 32) := by
    have found := readAt_front (leBytes 4 strings.length) 4 strings.length later
    rw [length_leBytes, ← List.append_assoc] at found
    exact found
  have dropped : (sstHeader strings.length ++ later).drop 8 = later := by
    rw [List.drop_left' (by rw [sstHeader, List.length_append, length_leBytes])]
  have read : readTable (recordsOf chunks.all) = readStrings (strings.length % 2 ^ 32) (tokens ++ [none]) := by
    have fits : ∀ entry ∈ ((0x00FC, sstHeader strings.length ++ later) :: more.map fun chunk => (0x003C, chunk)),
        entry.1 < 65536 ∧ entry.2.length < 65536 := by
      have limit : maxRecordData < 65536 := by decide
      intro entry inside
      rcases List.mem_cons.mp inside with rfl | inside
      · exact ⟨show 0x00FC < 65536 by decide, Nat.lt_of_le_of_lt (bounded _ (all ▸ List.mem_cons_self)) limit⟩
      · obtain ⟨chunk, place, rfl⟩ := List.mem_map.mp inside
        exact ⟨show 0x003C < 65536 by decide, Nat.lt_of_le_of_lt (bounded _ (all ▸ List.mem_cons_of_mem _ place)) limit⟩
    have turns : ∀ entries : List (Nat × List UInt8),
        entries.length ≤ (entries.map fun entry => record entry.1 entry.2).flatten.length := by
      intro entries
      induction entries with
      | nil => exact Nat.le_refl _
      | cons entry entries ih =>
        rw [List.map_cons, List.flatten_cons, List.length_append, length_record, List.length_cons]
        omega
    have found := readRecords_flatten fits (turns _)
    have kinds : ∀ entry ∈ more.map (fun chunk => ((0x003C : Nat), chunk)), entry.1 = 0x003C := by
      intro entry inside
      obtain ⟨chunk, -, rfl⟩ := List.mem_map.mp inside
      rfl
    have payloads : (more.map fun chunk => ((0x003C : Nat), chunk)).map Prod.snd = more := by
      rw [List.map_map]
      exact List.map_id _
    rw [all, recordsOf_cons, readTable, found]
    simp only [true_and, if_pos kinds, payloads, readSst, counted, Option.bind_eq_bind, Option.bind_some, dropped, rest]
  rw [read, readStrings_laid_iff laid short]
  constructor
  · rintro ⟨count, each⟩
    refine ⟨each, ?_⟩
    rw [← count]
    exact Nat.mod_lt _ (by decide)
  · rintro ⟨each, fits⟩
    exact ⟨Nat.mod_eq_of_lt fits, each⟩

/-- Two strings, one of them with a character beyond Latin-1. -/
theorem two_strings_round_trip :
    ∃ chunks, sstChunks ["id", "π"] = some chunks ∧ readTable (recordsOf chunks.all) = some ["id", "π"] := by
  obtain ⟨chunks, written, -, -, read⟩ := string_table_round_trips_iff ["id", "π"] (by decide)
  exact ⟨chunks, written, read.mpr ⟨by simp [OneUnitEach], by decide⟩⟩

/-- A character of two units is counted as one, and what is read is not the list that was written. -/
theorem astral_string_lost :
    (∀ text ∈ ["😀"], (encodeUtf16 text.toList).length ≤ 32767) ∧
      ∃ bytes, sstRecords ["😀"] = some bytes ∧ readTable bytes ≠ some ["😀"] := by
  refine ⟨by decide, _, rfl, by decide⟩

end QueryHive.Export.Xls
