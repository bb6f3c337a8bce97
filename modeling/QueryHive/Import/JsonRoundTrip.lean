import QueryHive.Export.JsonRead
import QueryHive.Import.JsonRuns

/-! The JSON files of an export, read by the JSON source: the objects of the rows come back in their order,
with their members, as long as they are within the limits of the source. -/
namespace QueryHive.Import.JsonSource
open QueryHive.Library Text JsonText Export.Json
open QueryHive.Store (Json)

/-- The object that was read has the members of this one, with texts that are read as their values. -/
def Holds (serde : Serde) (item : Element × Obj) (object : Json) : Prop :=
  ∃ members, object = .object members ∧
    List.Forall₂ (fun pair member => pair.1 = member.1 ∧ readJson serde pair.2.toList = some member.2) item.2 members

section
variable {fromSlice : List UInt8 → Except String Obj} {serde : Serde} {bound : Limits}

theorem isObject_of_text (reads : ReadsObjects fromSlice) (lawful : serde.Lawful) {members : List (String × Json)}
    (spells : Spells true (.value (treeOf serde (.object members))) text)
    (shallow : (treeOf serde (.object members)).depth ≤ maxDepth)
    (fits : (encodeUtf8 text).length ≤ bound.maxElementBytes) :
    ∃ obj, IsObject fromSlice bound (encodeUtf8 text) obj ∧
      ∀ element, Holds serde (element, obj) (.object members) := by
  obtain ⟨raws, raw, bear⟩ := raw_of_object spells
  have is : IsRawObject raws text := ⟨[], text, [], by simp, blank_nil, raw, blank_nil⟩
  obtain ⟨obj, parsed⟩ := (reads.accepts (encodeUtf8 text)).mpr ⟨_, text, rfl, is⟩
  have within : rawDepth raws + 1 ≤ maxDepth := by
    rw [rawDepth_bears bear]
    exact shallow
  refine ⟨obj, ⟨⟨raws, text, rfl, raw, within⟩, fits, parsed⟩, fun element => ⟨members, rfl, ?_⟩⟩
  rw [reads.members is parsed]
  clear is parsed raw spells shallow within fits
  induction members generalizing raws with
  | nil =>
    cases bear
    exact .nil
  | cons member rest ih =>
    cases bear with
    | @cons first _ _ _ stands later =>
      refine .cons ⟨(congrArg String.ofList stands.1).trans String.ofList_toList, ?_⟩ (ih _ later)
      have strict : IsText true (treeOf serde member.2) first.text :=
        ⟨[], first.text, [], by simp, blank_nil, stands.2.1, blank_nil⟩
      rw [readJson, String.toList_ofList, parse_text strict]
      exact jsonOf_treeOf lawful member.2

/-- An object that the source can take in one piece, printed so. -/
def Takes (serde : Serde) (bound : Limits) (text : Json → List Char) (object : Json) : Prop :=
  (∃ members, object = .object members) ∧ (treeOf serde object).depth ≤ maxDepth ∧
    (encodeUtf8 (text object)).length ≤ bound.maxElementBytes

theorem item_of_text (reads : ReadsObjects fromSlice) (lawful : serde.Lawful) {text : Json → List Char}
    (spells : ∀ object, Spells true (.value (treeOf serde object)) (text object))
    (takes : Takes serde bound text object) :
    ∃ obj, IsObject fromSlice bound (encodeUtf8 (text object)) obj ∧ ∀ element, Holds serde (element, obj) object := by
  obtain ⟨⟨members, rfl⟩, shallow, fits⟩ := takes
  exact isObject_of_text reads lawful (spells _) shallow fits

theorem linesText_split (object : Json) (rest : List Json) : encodeUtf8 (linesText serde (object :: rest)) =
    encodeUtf8 (compact serde object) ++ (encodeUtf8 ['\n'] ++ encodeUtf8 (linesText serde rest)) := by
  rw [← encodeUtf8_append, ← encodeUtf8_append]
  simp [linesText]

theorem moreText_split (indent : Nat) (object : Json) (rest : List Json) (tail : List UInt8) :
    encodeUtf8 (moreText serde indent (object :: rest)) ++ tail = encodeUtf8 [',', '\n', ' ', ' '] ++
      (encodeUtf8 (elementText serde indent object) ++ (encodeUtf8 (moreText serde indent rest) ++ tail)) := by
  rw [← List.append_assoc, ← List.append_assoc, ← encodeUtf8_append, ← encodeUtf8_append]
  simp [moreText]

theorem items_lines (reads : ReadsObjects fromSlice) (lawful : serde.Lawful) {objects : List Json}
    (takes : ∀ object ∈ objects, Takes serde bound (compact serde) object) (count : Nat) (before : List UInt8)
    (blank : Blanks gap) :
    ∃ items rest, Items fromSlice bound .stream count before items
      (gap ++ encodeUtf8 (linesText serde objects)) .stream rest ∧
      Blanks rest ∧ List.Forall₂ (Holds serde) items objects := by
  induction objects generalizing count before gap with
  | nil =>
    refine ⟨[], gap, ?_, blank, .nil⟩
    rw [linesText, List.flatMap_nil, encodeUtf8, List.flatMap_nil, List.append_nil]
    exact .nil
  | cons object rest ih =>
    obtain ⟨first, later⟩ := List.forall_mem_cons.mp takes
    obtain ⟨obj, is, holds⟩ := item_of_text reads lawful (spells_compact lawful) first
    have ends : Blanks (encodeUtf8 ['\n']) := blanks_encode (by decide)
    obtain ⟨items, last, more, blank', hold⟩ :=
      ih later (count + 1) (before ++ (gap ++ encodeUtf8 (compact serde object))) ends
    rw [linesText_split]
    exact ⟨_, last, .cons (.stream blank) is more, blank', .cons (holds _) hold⟩

theorem items_more (reads : ReadsObjects fromSlice) (lawful : serde.Lawful) (indent : Nat) {objects : List Json}
    (takes : ∀ object ∈ objects, Takes serde bound (elementText serde indent) object) (count : Nat)
    (before tail : List UInt8) :
    ∃ items,
      Items fromSlice bound .behind count before items (encodeUtf8 (moreText serde indent objects) ++ tail)
        .behind tail ∧
      List.Forall₂ (Holds serde) items objects := by
  induction objects generalizing count before with
  | nil => exact ⟨[], .nil, .nil⟩
  | cons object rest ih =>
    obtain ⟨first, later⟩ := List.forall_mem_cons.mp takes
    obtain ⟨obj, is, holds⟩ := item_of_text reads lawful (elementText_spells lawful indent) first
    have lead : Lead .behind (encodeUtf8 [',', '\n', ' ', ' ']) :=
      .behind (List.forall_mem_nil _) (blanks_encode (by decide : Blank ['\n', ' ', ' ']))
    obtain ⟨items, more, hold⟩ := ih later (count + 1)
      (before ++ (encodeUtf8 [',', '\n', ' ', ' '] ++ encodeUtf8 (elementText serde indent object)))
    rw [moreText_split]
    exact ⟨_, .cons lead is more, .cons (holds _) hold⟩

theorem begins_lines {objects : List Json} (all : ∀ object ∈ objects, ∃ members, object = .object members)
    (head : (encodeUtf8 (linesText serde objects)).head? = some b) : b = Json.openBrace := by
  cases objects with
  | nil => cases head
  | cons object rest =>
    obtain ⟨members, rfl⟩ := all object List.mem_cons_self
    exact (Option.some.inj head).symm

/-- A file of lines does not begin with the mark. -/
theorem unmarked_lines {objects : List Json} (all : ∀ object ∈ objects, ∃ members, object = .object members) :
    ¬mark <+: encodeUtf8 (linesText serde objects) := by
  rintro ⟨rest, same⟩
  have first := begins_lines (b := 0xEF) all (by rw [← same]; rfl)
  exact absurd first (by decide)

theorem unmarked_array (indent : Nat) (objects : List Json) :
    ¬mark <+: encodeUtf8 (arrayText serde indent objects) := by
  have opened : ∀ text, ¬mark <+: encodeUtf8 ('[' :: text) := by
    rintro text ⟨rest, same⟩
    rw [encodeUtf8_cons] at same
    cases same
  cases objects with
  | nil => exact opened _
  | cons object rest => exact opened _

theorem opens_lines {objects : List Json} (all : ∀ object ∈ objects, ∃ members, object = .object members) :
    Opens (markOf (encodeUtf8 (linesText serde objects))) (encodeUtf8 (linesText serde objects)) .stream ([] ++ [])
      (encodeUtf8 (linesText serde objects)) := by
  rw [markOf, if_neg (unmarked_lines all)]
  exact .stream (List.forall_mem_nil _) rfl fun b head => by
    rw [begins_lines all head]
    decide

/-- What stands in the file of an array behind the bracket. -/
def arrayRest (serde : Serde) (indent : Nat) : List Json → List UInt8
  | [] => encodeUtf8 ['\n', ']', '\n']
  | object :: rest =>
    encodeUtf8 ['\n', ' ', ' '] ++ (encodeUtf8 (elementText serde indent object) ++
      (encodeUtf8 (moreText serde indent rest) ++ encodeUtf8 ['\n', ']', '\n']))

theorem opens_array (indent : Nat) (objects : List Json) :
    Opens (markOf (encodeUtf8 (arrayText serde indent objects))) (encodeUtf8 (arrayText serde indent objects)) .first
      ([] ++ [] ++ [Json.openBracket]) (arrayRest serde indent objects) := by
  rw [markOf, if_neg (unmarked_array indent objects)]
  refine .array (List.forall_mem_nil _) ?_
  cases objects with
  | nil => rfl
  | cons object rest =>
    have split : arrayText serde indent (object :: rest) =
        '[' :: (['\n', ' ', ' '] ++ (elementText serde indent object ++
          (moreText serde indent rest ++ ['\n', ']', '\n']))) := by
      simp [arrayText]
    rw [split, encodeUtf8_cons, encodeUtf8_append, encodeUtf8_append, encodeUtf8_append]
    rfl

theorem complete_lines (reads : ReadsObjects fromSlice) (lawful : serde.Lawful) {objects : List Json}
    (takes : ∀ object ∈ objects, Takes serde bound (compact serde) object) :
    ∃ items, Complete fromSlice bound (encodeUtf8 (linesText serde objects)) items ∧
      List.Forall₂ (Holds serde) items objects := by
  obtain ⟨items, rest, all, blank, hold⟩ := items_lines reads lawful takes 0 [] (List.forall_mem_nil _)
  exact ⟨items, ⟨.stream, [] ++ [], _, .stream, rest, opens_lines fun object inside => (takes object inside).1, all,
    .stream blank⟩, hold⟩

theorem complete_array (reads : ReadsObjects fromSlice) (lawful : serde.Lawful) (indent : Nat) {objects : List Json}
    (takes : ∀ object ∈ objects, Takes serde bound (elementText serde indent) object) :
    ∃ items, Complete fromSlice bound (encodeUtf8 (arrayText serde indent objects)) items ∧
      List.Forall₂ (Holds serde) items objects := by
  have newline : Blanks (encodeUtf8 ['\n']) := blanks_encode (by decide)
  cases objects with
  | nil => exact ⟨[], ⟨.first, _, _, .first, _, opens_array indent [], .nil, .first newline newline⟩, .nil⟩
  | cons object rest =>
    obtain ⟨first, later⟩ := List.forall_mem_cons.mp takes
    obtain ⟨obj, is, holds⟩ := item_of_text reads lawful (elementText_spells lawful indent) first
    have lead : Lead .first (encodeUtf8 ['\n', ' ', ' ']) := .first (blanks_encode (by decide))
    obtain ⟨items, more, hold⟩ := items_more reads lawful indent later 1
      ([] ++ [] ++ [Json.openBracket] ++ (encodeUtf8 ['\n', ' ', ' '] ++ encodeUtf8 (elementText serde indent object)))
      (encodeUtf8 ['\n', ']', '\n'])
    exact ⟨_, ⟨.first, _, _, .behind, _, opens_array indent _, .cons lead is more, .behind newline newline⟩,
      .cons (holds _) hold⟩

theorem unbraced_blanks (blank : Blanks gap) : Json.openBrace ∉ gap := fun inside => absurd (blank _ inside) (by decide)

theorem unbraced_beside {b : UInt8} (blank : Blanks gap) (other : Json.openBrace ≠ b) (blank' : Blanks gap') :
    Json.openBrace ∉ gap ++ b :: gap' := by
  rw [List.mem_append, List.mem_cons]
  rintro (inside | same | inside)
  · exact unbraced_blanks blank inside
  · exact other same
  · exact unbraced_blanks blank' inside

theorem unbraced_lead {place : Place} {lead : List UInt8} (leads : Lead place lead) : Json.openBrace ∉ lead := by
  cases leads with
  | stream blank => exact unbraced_blanks blank
  | first blank => exact unbraced_blanks blank
  | behind blank blank' => exact unbraced_beside blank (by decide) blank'

theorem unbraced_last {place : Place} {rest : List UInt8} (last : Last place rest) : Json.openBrace ∉ rest := by
  cases last with
  | stream blank => exact unbraced_blanks blank
  | first blank blank' => exact unbraced_beside blank (by decide) blank'
  | behind blank blank' => exact unbraced_beside blank (by decide) blank'

/-- What stands in front of the first of these bytes. -/
theorem front_unique {b : UInt8} (free : b ∉ front) (free' : b ∉ front')
    (same : front ++ b :: rest = front' ++ b :: rest') :
    front = front' := by
  have taken : ∀ front rest : List UInt8, b ∉ front → (front ++ b :: rest).takeWhile (· ≠ b) = front := by
    intro front rest free
    rw [List.takeWhile_append_of_pos fun c inside => by simpa using ne_of_mem_of_not_mem inside free,
      List.takeWhile_cons_of_neg (by simp), List.append_nil]
  rw [← taken front rest free, same, taken front' rest' free']

/-- An object of a file that is complete is within the limits, and what follows it is complete. -/
theorem takes_of_items (accepts : Accepts fromSlice) {text : Json → List Char} {place final : Place} {count : Nat}
    {before lead tail rest : List UInt8} {found : List (Element × Obj)} {object : Json}
    (is : ∃ members, object = .object members) (spells : Spells true (.value (treeOf serde object)) (text object))
    (free : Json.openBrace ∉ lead)
    (items : Items fromSlice bound place count before found (lead ++ (encodeUtf8 (text object) ++ tail)) final rest)
    (last : Last final rest) :
    Takes serde bound text object ∧
      ∃ place count before found, Items fromSlice bound place count before found tail final rest := by
  obtain ⟨members, rfl⟩ := is
  obtain ⟨body, bytes, _⟩ := object_scans spells
  generalize whole : lead ++ (encodeUtf8 (text (.object members)) ++ tail) = ahead at items
  cases items with
  | nil =>
    refine absurd ?_ (unbraced_last last)
    rw [← whole, bytes, List.cons_append]
    exact List.mem_append_right lead List.mem_cons_self
  | cons leads is more =>
    obtain ⟨framed, _⟩ := (isObject_iff accepts).mp is
    obtain ⟨body', rfl⟩ := framed.cons
    have opened := whole
    rw [bytes, List.cons_append, List.cons_append] at opened
    obtain rfl := front_unique free (unbraced_lead leads) opened
    obtain ⟨shallow, same, rfl⟩ := framed_of_spells spells framed.framed (List.append_cancel_left whole)
    exact ⟨⟨⟨members, rfl⟩, shallow, same ▸ framed.fits⟩, _, _, _, _, more⟩

theorem takes_lines (accepts : Accepts fromSlice) (lawful : serde.Lawful) {objects : List Json} {place final : Place}
    {count : Nat} {before gap rest : List UInt8} {found : List (Element × Obj)}
    (all : ∀ object ∈ objects, ∃ members, object = .object members) (free : Json.openBrace ∉ gap)
    (items : Items fromSlice bound place count before found (gap ++ encodeUtf8 (linesText serde objects)) final rest)
    (last : Last final rest) : ∀ object ∈ objects, Takes serde bound (compact serde) object := by
  induction objects generalizing place count before gap found with
  | nil => exact List.forall_mem_nil _
  | cons object objects ih =>
    obtain ⟨first, later⟩ := List.forall_mem_cons.mp all
    rw [linesText_split] at items
    obtain ⟨takes, _, _, _, _, more⟩ := takes_of_items accepts first (spells_compact lawful object) free items last
    have ends : Blanks (encodeUtf8 ['\n']) := blanks_encode (by decide)
    exact List.forall_mem_cons.mpr ⟨takes, ih later (unbraced_blanks ends) more⟩

theorem takes_more (accepts : Accepts fromSlice) (lawful : serde.Lawful) (indent : Nat) {objects : List Json}
    {place final : Place} {count : Nat} {before tail rest : List UInt8} {found : List (Element × Obj)}
    (all : ∀ object ∈ objects, ∃ members, object = .object members)
    (items : Items fromSlice bound place count before found
    (encodeUtf8 (moreText serde indent objects) ++ tail) final rest)
    (last : Last final rest) : ∀ object ∈ objects, Takes serde bound (elementText serde indent) object := by
  induction objects generalizing place count before found with
  | nil => exact List.forall_mem_nil _
  | cons object objects ih =>
    obtain ⟨first, later⟩ := List.forall_mem_cons.mp all
    rw [moreText_split] at items
    have free : Json.openBrace ∉ encodeUtf8 [',', '\n', ' ', ' '] := by decide
    obtain ⟨takes, _, _, _, _, more⟩ := takes_of_items accepts first
      (elementText_spells lawful indent object) free items last
    exact List.forall_mem_cons.mpr ⟨takes, ih later more⟩

theorem takes_of_complete_lines (accepts : Accepts fromSlice) (lawful : serde.Lawful) {objects : List Json}
    (all : ∀ object ∈ objects, ∃ members, object = .object members)
    (complete : Complete fromSlice bound (encodeUtf8 (linesText serde objects)) found) :
    ∀ object ∈ objects, Takes serde bound (compact serde) object := by
  obtain ⟨place, before, ahead, final, rest, opens, items, last⟩ := complete
  obtain ⟨rfl, rfl, rfl⟩ := opens_unique opens (opens_lines all)
  exact takes_lines accepts lawful all (List.not_mem_nil : Json.openBrace ∉ ([] : List UInt8)) items last

theorem takes_of_complete_array (accepts : Accepts fromSlice) (lawful : serde.Lawful) (indent : Nat)
    {objects : List Json} (all : ∀ object ∈ objects, ∃ members, object = .object members)
    (complete : Complete fromSlice bound (encodeUtf8 (arrayText serde indent objects)) found) :
    ∀ object ∈ objects, Takes serde bound (elementText serde indent) object := by
  obtain ⟨place, before, ahead, final, rest, opens, items, last⟩ := complete
  obtain ⟨rfl, rfl, rfl⟩ := opens_unique opens (opens_array indent objects)
  cases objects with
  | nil => exact List.forall_mem_nil _
  | cons object objects =>
    obtain ⟨first, later⟩ := List.forall_mem_cons.mp all
    have free : Json.openBrace ∉ encodeUtf8 ['\n', ' ', ' '] := by decide
    obtain ⟨takes, _, _, _, _, more⟩ := takes_of_items accepts first
      (elementText_spells lawful indent object) free items last
    exact List.forall_mem_cons.mpr ⟨takes, takes_more accepts lawful indent later more last⟩

/-- The source delivers these objects of a file exactly when it takes each of them. -/
theorem delivers_iff_takes {reader : Reader} {path : String} {text : Json → List Char} {objects : List Json}
    (exact : Exact fromSlice bound reader path)
    (written : (∀ object ∈ objects, Takes serde bound text object) →
      ∃ items, Complete fromSlice bound reader.bytes items ∧ List.Forall₂ (Holds serde) items objects)
    (read : ∀ items, Complete fromSlice bound reader.bytes items → ∀ object ∈ objects, Takes serde bound text object) :
    (∃ items, Delivers fromSlice (unread reader path bound) items ∧ List.Forall₂ (Holds serde) items objects) ↔
      ∀ object ∈ objects, Takes serde bound text object := by
  constructor
  · rintro ⟨items, delivers, _⟩
    exact read items ((exact.complete items).mp delivers)
  · intro takes
    obtain ⟨items, complete, hold⟩ := written takes
    exact ⟨items, (exact.complete items).mpr complete, hold⟩

end

section
variable {floats : Store.Buffer.FloatText} {quotient : BitVec 128 → UInt8 → UInt64}

theorem get_rowMembers_absent {name : String} {object : List (String × Json)} {cells : List (String × Store.Value)}
    (absent : ∀ cell ∈ cells, cell.1 ≠ name) :
    Json.get name (rowMembers floats quotient object cells) = Json.get name object := by
  induction cells generalizing object with
  | nil => rfl
  | cons cell rest ih =>
    obtain ⟨first, later⟩ := List.forall_mem_cons.mp absent
    exact (ih later).trans (Json.get_insert_other first _ _)

theorem get_rowMembers {names : List String} {row : List Store.Value} {object : List (String × Json)} {i : Nat}
    (named : names[i]? = some name) (cell : row[i]? = some value) (last : ∀ j, i < j → names[j]? ≠ some name) :
    Json.get name (rowMembers floats quotient object (names.zip row)) =
      some (Store.toJsonValue floats quotient value) := by
  induction names generalizing row object i with
  | nil => cases named
  | cons first names ih =>
    cases row with
    | nil => cases cell
    | cons value' row =>
      cases i with
      | zero =>
        cases named
        cases cell
        have absent : ∀ cell ∈ names.zip row, cell.1 ≠ name := by
          intro cell inside same
          obtain ⟨j, there⟩ := List.mem_iff_getElem?.mp (List.of_mem_zip inside).1
          exact last (j + 1) (Nat.succ_pos j) (there.trans (congrArg some same))
        exact (get_rowMembers_absent absent).trans (Json.get_insert_self _ _ _)
      | succ i => exact ih named cell fun j later => last (j + 1) (Nat.succ_lt_succ later)

theorem get_rowMembers_some {name : String} (object : List (String × Json)) {cells : List (String × Store.Value)}
    {cell : String × Store.Value} (inside : cell ∈ cells) (named : cell.1 = name) :
    ∃ cell ∈ cells, cell.1 = name ∧
      Json.get name (rowMembers floats quotient object cells) = some (Store.toJsonValue floats quotient cell.2) := by
  induction cells generalizing object cell with
  | nil => cases inside
  | cons first rest ih =>
    by_cases again : ∃ later ∈ rest, later.1 = name
    · obtain ⟨later, inside', named'⟩ := again
      obtain ⟨kept, there, same, found⟩ := ih (Json.insert first.1 (Store.toJsonValue floats quotient first.2) object)
        inside' named'
      exact ⟨kept, List.mem_cons_of_mem first there, same, found⟩
    · have absent : ∀ later ∈ rest, later.1 ≠ name := fun later inside' named' => again ⟨later, inside', named'⟩
      rcases List.mem_cons.mp inside with rfl | inside
      · subst named
        exact ⟨cell, List.mem_cons_self, rfl, (get_rowMembers_absent absent).trans (Json.get_insert_self _ _ _)⟩
      · exact absurd named (absent cell inside)

theorem unrepeated_rowMembers {object : List (String × Json)} (cells : List (String × Store.Value))
    (unrepeated : Json.Unrepeated object) : Json.Unrepeated (rowMembers floats quotient object cells) := by
  induction cells generalizing object with
  | nil => exact unrepeated
  | cons cell rest ih => exact ih (Json.unrepeated_insert unrepeated)

end

/-- Floats as the numbers of their bits, in the place of the shortest decimals. -/
def bitsSerde : Serde where
  string := printString
  float bits := Nat.toDigits 10 bits.toNat ++ ['.', '0']
  readNumber token :=
    if '.' ∈ token then
      let bits := UInt64.ofNat (Numeral.value (token.takeWhile Char.isDigit))
      if finite : Store.isFiniteFloat bits = true then some (.float bits finite) else none
    else match token with
      | '-' :: digits =>
        let n := Int64.ofInt (-Numeral.value digits)
        if negative : n < 0 then some (.negInt n negative) else none
      | digits => some (.posInt (UInt64.ofNat (Numeral.value digits)))

theorem point_notMem (n : Nat) : '.' ∉ Nat.toDigits 10 n := fun inside =>
  absurd (Numeral.digit_of_allDigits (Numeral.allDigits_toDigits n) inside) (by decide)

theorem toDigits_ne_minus (n : Nat) (rest : List Char) : Nat.toDigits 10 n ≠ '-' :: rest := by
  intro same
  have digits := Numeral.allDigits_toDigits n
  rw [same] at digits
  exact absurd (Numeral.digit_of_allDigits digits List.mem_cons_self) (by decide)

theorem digits_of_toDigits (n : Nat) (c : Char) (inside : c ∈ Nat.toDigits 10 n) : c.isDigit = true :=
  Numeral.digit_of_allDigits (Numeral.allDigits_toDigits n) inside

theorem takeWhile_digits (n : Nat) : (Nat.toDigits 10 n ++ ['.', '0']).takeWhile Char.isDigit = Nat.toDigits 10 n := by
  rw [List.takeWhile_append_of_pos (digits_of_toDigits n)]
  simp

theorem dropWhile_digits (n : Nat) : (Nat.toDigits 10 n ++ ['.', '0']).dropWhile Char.isDigit = ['.', '0'] := by
  rw [List.dropWhile_append_of_pos (digits_of_toDigits n)]
  rfl

theorem isNumber_point (n : Nat) : JsonText.isNumber (Nat.toDigits 10 n ++ ['.', '0']) = true := by
  rw [JsonText.isNumber, List.all_append, all_numberChars (Numeral.allDigits_toDigits n), Bool.true_and]
  · rw [isUnsigned, takeWhile_digits, dropWhile_digits, toDigits_whole]
    decide
  · intro rest same
    obtain ⟨first, more, led⟩ := List.exists_cons_of_ne_nil (Nat.toDigits_ne_nil : Nat.toDigits 10 n ≠ [])
    rw [led] at same
    cases same
    exact absurd led (toDigits_ne_minus n more)

theorem int64_negative {n : Int64} (negative : n < 0) : Int64.ofInt (-(n.toInt.natAbs : Int)) = n := by
  have below : n.toInt < 0 := Int64.lt_iff_toInt_lt.mp negative
  rw [show -(n.toInt.natAbs : Int) = n.toInt by omega, Int64.ofInt_toInt]

theorem lawful_bitsSerde : bitsSerde.Lawful where
  string_spells := spells_printString
  float_number bits _ := isNumber_point bits.toNat
  number_read number := by
    cases number with
    | posInt n =>
      rw [numberText, bitsSerde]
      dsimp only
      rw [if_neg (point_notMem _)]
      split
      · next rest same => exact absurd same (toDigits_ne_minus _ rest)
      · rw [Numeral.value_toDigits, UInt64.ofNat_toNat]
    | negInt n negative =>
      have absent : '.' ∉ '-' :: Nat.toDigits 10 n.toInt.natAbs := by
        rw [List.mem_cons, not_or]
        exact ⟨by decide, point_notMem _⟩
      rw [numberText, bitsSerde]
      dsimp only
      rw [if_neg absent]
      simp only [Numeral.value_toDigits, int64_negative negative, dif_pos negative]
    | float bits finite =>
      rw [numberText, bitsSerde]
      dsimp only
      rw [if_pos (by simp), takeWhile_digits, Numeral.value_toDigits, UInt64.ofNat_toNat, dif_pos finite]

def objectText (serde : Serde) (options : Export.Json.Options) (object : Json) : List Char :=
  if options.jsonl then compact serde object else elementText serde options.indent object

/-- An object that the source takes: not larger than it allows, nor deeper. -/
def InLimits (serde : Serde) (options : Export.Json.Options) (object : Json) : Prop :=
  (treeOf serde object).depth ≤ maxDepth ∧ (encodeUtf8 (objectText serde options object)).length ≤ maxElementBytes

/-- The values a reader of JSON finds in the file: the items of its array, or the values on its lines. -/
def readFile (serde : Serde) (options : Export.Json.Options) (file : List UInt8) : Option (List Json) :=
  if options.jsonl then readLines serde file else readArray serde file

theorem readFile_export {serde : Serde} (lawful : serde.Lawful) (floats : Store.Buffer.FloatText)
    (quotient : BitVec 128 → UInt8 → UInt64) (columns : List Export.Dbf.ColumnMeta) (options : Export.Json.Options)
    (rows : List (List Store.Value)) :
    readFile serde options (export_ floats quotient serde columns options rows) =
      some (rowObjects floats quotient columns rows) := by
  rw [readFile]
  split
  · next lines => rw [export_lines floats quotient columns options rows lines, readLines_linesText lawful]
  · next array =>
    rw [export_array floats quotient lawful columns options rows (by simpa using array), readArray_arrayText lawful]

/-- In every row the cells under one name have one value. -/
def Unclashed (floats : Store.Buffer.FloatText) (quotient : BitVec 128 → UInt8 → UInt64)
    (columns : List Export.Dbf.ColumnMeta) (rows : List (List Store.Value)) : Prop :=
  ∀ row ∈ rows, ∀ (i j : Nat) (column column' : Export.Dbf.ColumnMeta) (value value' : Store.Value),
    columns[i]? = some column → columns[j]? = some column' → column.name = column'.name → row[i]? = some value →
    row[j]? = some value' → Store.toJsonValue floats quotient value = Store.toJsonValue floats quotient value'

def Recovers (floats : Store.Buffer.FloatText) (quotient : BitVec 128 → UInt8 → UInt64)
    (columns : List Export.Dbf.ColumnMeta) (rows : List (List Store.Value)) (objects : List Json) : Prop :=
  ∀ (k i : Nat) row column value, rows[k]? = some row → columns[i]? = some column → row[i]? = some value →
    ∃ members, objects[k]? = some (.object members) ∧
      Json.get column.name members = some (Store.toJsonValue floats quotient value)

section
variable {floats : Store.Buffer.FloatText} {quotient : BitVec 128 → UInt8 → UInt64}
  {columns : List Export.Dbf.ColumnMeta} {rows : List (List Store.Value)}

theorem rowObjects_get {k : Nat} {row : List Store.Value} (there : rows[k]? = some row) :
    (rowObjects floats quotient columns rows)[k]? =
      some (.object (rowMembers floats quotient [] ((columns.map Export.Dbf.ColumnMeta.name).zip row))) := by
  rw [rowObjects, List.getElem?_map, there]
  rfl

theorem zip_names {row : List Store.Value} {i : Nat} {column : Export.Dbf.ColumnMeta} {value : Store.Value}
    (named : columns[i]? = some column) (cell : row[i]? = some value) :
    ((columns.map Export.Dbf.ColumnMeta.name).zip row)[i]? = some (column.name, value) := by
  rw [List.getElem?_zip_eq_some, List.getElem?_map, named]
  exact ⟨rfl, cell⟩

/-- Every cell is recovered exactly when no other cell of its row stands under its name with another value. -/
theorem recovers_iff : Recovers floats quotient columns rows (rowObjects floats quotient columns rows) ↔
    Unclashed floats quotient columns rows := by
  constructor
  · intro recovers row inside i j column column' value value' named named' same cell cell'
    obtain ⟨k, there⟩ := List.mem_iff_getElem?.mp inside
    obtain ⟨members, object, kept⟩ := recovers k i row column value there named cell
    obtain ⟨members', object', kept'⟩ := recovers k j row column' value' there named' cell'
    obtain rfl := Json.object.inj (Option.some.inj (object.symm.trans object'))
    rw [same] at kept
    exact Option.some.inj (kept.symm.trans kept')
  · intro unclashed k i row column value there named cell
    refine ⟨_, rowObjects_get there, ?_⟩
    obtain ⟨⟨name, value'⟩, inside, same, kept⟩ := get_rowMembers_some []
      (List.mem_of_getElem? (zip_names named cell)) rfl
    obtain ⟨j, place⟩ := List.mem_iff_getElem?.mp inside
    rw [List.getElem?_zip_eq_some, List.getElem?_map] at place
    obtain ⟨named', cell'⟩ := place
    obtain ⟨column', column_, rfl⟩ := Option.map_eq_some_iff.mp named'
    rw [kept]
    exact congrArg some (unclashed row (List.mem_of_getElem? there) j i column' column value' value column_ named
      same cell' cell)

end

/-- A JSON export is read back: every reader of JSON finds an object for each row, in which a cell is the member of its
column unless a later column has the same name. Every cell is recovered exactly when the cells under one name have one
value, and the JSON source finds the same objects exactly when they are within its limits. -/
theorem json_export_reads_back {fromSlice : List UInt8 → Except String Obj} {serde : Serde} (lawful : serde.Lawful)
    (reads : ReadsObjects fromSlice) (floats : Store.Buffer.FloatText) (quotient : BitVec 128 → UInt8 → UInt64)
    (columns : List Export.Dbf.ColumnMeta) (options : Export.Json.Options) (rows : List (List Store.Value)) :
    readFile serde options (export_ floats quotient serde columns options rows) =
        some (rowObjects floats quotient columns rows) ∧
      (∀ (k i : Nat) row column value, rows[k]? = some row → columns[i]? = some column → row[i]? = some value →
        (∀ (j : Nat) (later : Export.Dbf.ColumnMeta), i < j → columns[j]? = some later → later.name ≠ column.name) →
        ∃ members, (rowObjects floats quotient columns rows)[k]? = some (.object members) ∧ Json.Unrepeated members ∧
          Json.get column.name members = some (Store.toJsonValue floats quotient value)) ∧
      (Recovers floats quotient columns rows (rowObjects floats quotient columns rows) ↔
        Unclashed floats quotient columns rows) ∧
      ∀ reader path, reader.bytes = export_ floats quotient serde columns options rows →
        ((∃ items, Delivers fromSlice (unread reader path ⟨maxElementBytes⟩) items ∧
          List.Forall₂ (Holds serde) items (rowObjects floats quotient columns rows)) ↔
          ∀ object ∈ rowObjects floats quotient columns rows, InLimits serde options object) := by
  refine ⟨readFile_export lawful floats quotient columns options rows, ?_, recovers_iff, ?_⟩
  · intro k i row column value there named cell last
    refine ⟨_, rowObjects_get there, unrepeated_rowMembers _ List.nodup_nil, ?_⟩
    refine get_rowMembers (by rw [List.getElem?_map, named]; rfl) cell fun j later same => ?_
    rw [List.getElem?_map] at same
    obtain ⟨column', there', same⟩ := Option.map_eq_some_iff.mp same
    exact last j column' later there' same
  · intro reader path bytes
    have objects : ∀ object ∈ rowObjects floats quotient columns rows, ∃ members, object = .object members := by
      intro object inside
      obtain ⟨row, _, rfl⟩ := List.mem_map.mp inside
      exact ⟨_, rfl⟩
    have within : (∀ object ∈ rowObjects floats quotient columns rows, InLimits serde options object) ↔
        ∀ object ∈ rowObjects floats quotient columns rows,
          Takes serde ⟨maxElementBytes⟩ (objectText serde options) object :=
      forall₂_congr fun object inside => (and_iff_right (objects object inside)).symm
    rw [within]
    by_cases lines : options.jsonl = true
    · have text : objectText serde options = compact serde := funext fun object => if_pos lines
      rw [export_lines floats quotient columns options rows lines] at bytes
      have exact : Exact fromSlice ⟨maxElementBytes⟩ reader path :=
        exact_of_unsplit reads.accepts fun marked => absurd (bytes ▸ marked) (unmarked_lines objects)
      rw [text]
      refine delivers_iff_takes exact ?_ ?_ <;> rw [bytes]
      · exact complete_lines reads lawful
      · exact fun items => takes_of_complete_lines reads.accepts lawful objects
    · have text : objectText serde options = elementText serde options.indent := funext fun object => if_neg lines
      rw [export_array floats quotient lawful columns options rows (by simpa using lines)] at bytes
      have exact : Exact fromSlice ⟨maxElementBytes⟩ reader path :=
        exact_of_unsplit reads.accepts fun marked => absurd (bytes ▸ marked) (unmarked_array options.indent _)
      rw [text]
      refine delivers_iff_takes exact ?_ ?_ <;> rw [bytes]
      · exact complete_array reads lawful options.indent
      · exact fun items => takes_of_complete_array reads.accepts lawful options.indent objects

def twoColumns : List Export.Dbf.ColumnMeta := [⟨"id", "bigint"⟩, ⟨"name", "text"⟩]

def twoRows : List (List Store.Value) := [[.int 1, .text "x"], [.int (-2), .null]]

def twoRowsFile : Reader :=
  ⟨[export_ Store.Buffer.oneAndAHalf (fun _ _ => 0) bitsSerde twoColumns ⟨false, 2⟩ twoRows], by decide⟩

theorem json_export_reads_back_twoRows :
    (∃ members, (rowObjects Store.Buffer.oneAndAHalf (fun _ _ => 0) twoColumns twoRows)[1]? = some (.object members) ∧
      Json.Unrepeated members ∧ Json.get "id" members = some (.number (.negInt (-2) (by decide)))) ∧
    ∃ items, Delivers parsedObject (unread twoRowsFile "rows.json" ⟨maxElementBytes⟩) items ∧
      List.Forall₂ (Holds bitsSerde) items (rowObjects Store.Buffer.oneAndAHalf (fun _ _ => 0) twoColumns twoRows) := by
  obtain ⟨_, cells, recovered, delivered⟩ :=
    json_export_reads_back lawful_bitsSerde reads_parsedObject Store.Buffer.oneAndAHalf
    (fun _ _ => 0) twoColumns ⟨false, 2⟩ twoRows
  refine ⟨cells 1 0 [.int (-2), .null] ⟨"id", "bigint"⟩ (.int (-2)) rfl rfl rfl ?_,
    (delivered twoRowsFile "rows.json" rfl).mpr ?_⟩
  · intro j later behind named
    match j, behind, named with
    | 1, _, named =>
      cases named
      decide
  · exact List.forall_mem_cons.mpr ⟨⟨by decide +kernel, by decide +kernel⟩,
      List.forall_mem_cons.mpr ⟨⟨by decide +kernel, by decide +kernel⟩, List.forall_mem_nil _⟩⟩

/-- The cell of a column is lost when a later column has its name. -/
theorem json_export_overwrites :
    ¬∀ (columns : List Export.Dbf.ColumnMeta) (options : Export.Json.Options)
      (rows : List (List Store.Value)) (k i : Nat)
      (row : List Store.Value) (column : Export.Dbf.ColumnMeta) (value : Store.Value),
      rows[k]? = some row → columns[i]? = some column → row[i]? = some value →
      ∃ objects members,
        readFile bitsSerde options (export_ Store.Buffer.oneAndAHalf
          (fun _ _ => 0) bitsSerde columns options rows) = some objects ∧
        objects[k]? = some (.object members) ∧
        Json.get column.name members = some (Store.toJsonValue Store.Buffer.oneAndAHalf (fun _ _ => 0) value) := by
  intro every
  obtain ⟨objects, members, read, there, kept⟩ := every [⟨"a", "int"⟩, ⟨"a", "int"⟩] ⟨true, 2⟩ [[.int 1, .int 2]] 0 0
    [.int 1, .int 2] ⟨"a", "int"⟩ (.int 1) rfl rfl rfl
  rw [readFile_export lawful_bitsSerde] at read
  cases read
  cases there
  cases kept

end QueryHive.Import.JsonSource
