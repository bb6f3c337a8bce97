import QueryHive.Import.JsonElements
import QueryHive.Import.JsonShapes
import QueryHive.Library.RawJson

/-! Runs of the JSON source: its calls give the objects of a file that has one of the two shapes, and of any other
file those of its longest beginning and then an error. -/
namespace QueryHive.Import.JsonSource
open QueryHive.Library Json Text JsonText

/-- What is relied on: `serde_json` accepts exactly the texts of JSON objects, of whose strings it decodes the names
only. -/
def Accepts (fromSlice : List UInt8 → Except String Obj) : Prop :=
  ∀ bytes, (∃ obj, fromSlice bytes = .ok obj) ↔ ∃ members text, bytes = encodeUtf8 text ∧ IsRawObject members text

/-- What is relied on: `serde_json` accepts exactly the texts of objects, and gives their members in order, each with
the text of its value. -/
structure ReadsObjects (fromSlice : List UInt8 → Except String Obj) : Prop where
  accepts : Accepts fromSlice
  members : ∀ {members : List RawMember} {text : List Char} {obj : Obj}, IsRawObject members text →
    fromSlice (encodeUtf8 text) = .ok obj →
    obj = members.map fun member => (String.ofList member.key, String.ofList member.text)

/-- Objects as a reader of JSON texts finds them. -/
def parsedObject (bytes : List UInt8) : Except String Obj :=
  match (fromUtf8 bytes).bind fun text => memberTexts text.toList with
  | some pairs => .ok (pairs.map fun pair => (String.ofList pair.1, String.ofList pair.2))
  | none => .error "not an object"

theorem parsedObject_raw (raw : IsRawObject members text) :
    parsedObject (encodeUtf8 text) = .ok (members.map fun member =>
      (String.ofList member.key, String.ofList member.text)) := by
  have found : memberTexts text = some (members.map RawMember.taken) := memberTexts_iff.mpr ⟨members, raw, rfl⟩
  rw [parsedObject, Ascii.fromUtf8_encodeUtf8, Option.bind_some, String.toList_ofList, found]
  simp only [List.map_map]
  rfl

theorem reads_parsedObject : ReadsObjects parsedObject where
  accepts bytes := by
    constructor
    · rintro ⟨obj, parsed⟩
      rw [parsedObject] at parsed
      split at parsed
      · next pairs found =>
        obtain ⟨text, spelled, found⟩ := Option.bind_eq_some_iff.mp found
        obtain ⟨members, is, _⟩ := memberTexts_iff.mp found
        exact ⟨members, text.toList, by rw [← Ascii.utf8_eq, utf8_of_fromUtf8 spelled], is⟩
      · cases parsed
    · rintro ⟨members, text, rfl, is⟩
      exact ⟨_, parsedObject_raw is⟩
  members is parsed := by
    rw [parsedObject_raw is] at parsed
    exact (Except.ok.inj parsed).symm

example : parsedObject (encodeUtf8 "\x7b\"a\":\"\\ud800\"\x7d".toList) = .ok [("a", "\"\\ud800\"")] := by decide +kernel

/-- The bytes of an object that is within the limits. -/
structure IsObject (fromSlice : List UInt8 → Except String Obj) (bound : Limits) (element : List UInt8)
    (obj : Obj) : Prop where
  spelled : ∃ members text, element = encodeUtf8 text ∧ RawObject members text ∧ rawDepth members + 1 ≤ maxDepth
  fits : element.length ≤ bound.maxElementBytes
  parsed : fromSlice element = .ok obj

/-- An object of the file, where it begins. -/
def placed (element : List UInt8) (before : List UInt8) (count : Nat) : Element :=
  ⟨element, lineAt before, before.length, count + 1⟩

/-- Objects one behind another, from one place of a file to another. -/
inductive Items (fromSlice : List UInt8 → Except String Obj) (bound : Limits) :
    Place → Nat → List UInt8 → List (Element × Obj) → List UInt8 → Place → List UInt8 → Prop
  | nil {count : Nat} {before ahead : List UInt8} : Items fromSlice bound place count before [] ahead place ahead
  | cons {count : Nat} {before ahead rest : List UInt8} (leads : Lead place lead)
    (is : IsObject fromSlice bound element obj)
      (more : Items fromSlice bound place.next (count + 1) (before ++ (lead ++ element)) items ahead final rest) :
      Items fromSlice bound place count before ((placed element (before ++ lead) count, obj) :: items)
        (lead ++ (element ++ ahead)) final rest

section
variable {fromSlice : List UInt8 → Except String Obj} {bound : Limits} {element : List UInt8} {obj : Obj}

theorem raw_of_framed {text : List Char} (is : IsRawObject members text)
    (opened : (encodeUtf8 text).head? = some openBrace) (framed : Frames (outside 0) (encodeUtf8 text)) :
    RawObject members text := by
  obtain ⟨before, body, after, rfl, lead, raw, trail⟩ := is
  have none : before = [] := by
    cases before with
    | nil => rfl
    | cons c rest =>
      obtain ⟨b, bytes, ws⟩ := blank_byte (lead c List.mem_cons_self)
      rw [List.cons_append, encodeUtf8_cons, bytes] at opened
      obtain rfl := Option.some.inj opened
      cases ws
  subst none
  obtain ⟨members', _, spells⟩ := raw.spells
  rw [List.nil_append, encodeUtf8_append] at framed
  rw [encodeUtf8_eq_nil (frames_whole spells framed), List.nil_append, List.append_nil]
  exact raw

theorem frames_raw_iff {text : List Char} (raw : RawObject members text) :
    Frames (outside 0) (encodeUtf8 text) ↔ rawDepth members + 1 ≤ maxDepth := by
  obtain ⟨members', deep, spells⟩ := raw.spells
  rw [frames_object_iff spells, Tree.depth, deep]

/-- The framer lets exactly the objects within the limits through to the parser. -/
theorem isObject_iff (accepts : Accepts fromSlice) :
    IsObject fromSlice bound element obj ↔ IsElement bound element ∧ fromSlice element = .ok obj := by
  constructor
  · rintro ⟨⟨members, text, rfl, raw, shallow⟩, fits, parsed⟩
    obtain ⟨members', _, spells⟩ := raw.spells
    obtain ⟨body, bytes, _⟩ := object_scans spells
    exact ⟨⟨by rw [bytes]; rfl, (frames_raw_iff raw).mpr shallow, fits⟩, parsed⟩
  · rintro ⟨⟨opened, framed, fits⟩, parsed⟩
    obtain ⟨members, text, rfl, is⟩ := (accepts element).mp ⟨obj, parsed⟩
    have raw := raw_of_framed is opened framed
    exact ⟨⟨members, text, rfl, raw, (frames_raw_iff raw).mp framed⟩, fits, parsed⟩

variable {source after : JsonSource} {place : Place} {count : Nat} {before ahead lead rest : List UInt8}

theorem nextObject_parsed (next : nextElement source = .ok (some given, after))
    (parsed : fromSlice given.bytes = .ok obj) :
    nextObject fromSlice source = .ok (some (given, obj), after) := by
  simp only [nextObject, next, bind, Except.bind, parsed]
  rfl

theorem nextObject_refused (next : nextElement source = .ok (some given, after))
    (parsed : fromSlice given.bytes = .error why) :
    ∃ error, nextObject fromSlice source = .error error := by
  simp only [nextObject, next, bind, Except.bind, parsed]
  exact ⟨_, rfl⟩

theorem nextObject_object (accepts : Accepts fromSlice)
    (stands : Stands place bound count before (lead ++ (element ++ rest)) source)
    (leads : Lead place lead) (is : IsObject fromSlice bound element obj) :
    ∃ after, nextObject fromSlice source = .ok (some (placed element (before ++ lead) count, obj), after) ∧
      Stands place.next bound (count + 1) (before ++ (lead ++ element)) rest after := by
  obtain ⟨framed, parsed⟩ := (isObject_iff accepts).mp is
  obtain ⟨after, given, left⟩ := nextElement_element stands leads framed
  exact ⟨after, nextObject_parsed given parsed, left⟩

theorem nextObject_some {item : Element × Obj} (accepts : Accepts fromSlice)
    (stands : Stands place bound count before ahead source)
    (ok : nextObject fromSlice source = .ok (some item, after)) :
    ∃ lead element rest, ahead = lead ++ (element ++ rest) ∧ Lead place lead ∧
      item.1 = placed element (before ++ lead) count ∧ IsObject fromSlice bound element item.2 ∧
      Stands place.next bound (count + 1) (before ++ (lead ++ element)) rest after := by
  rcases next : nextElement source with error | ⟨_ | given, between⟩
  · rw [nextObject, next] at ok
    cases ok
  · rw [nextObject, next] at ok
    cases ok
  · cases parsed : fromSlice given.bytes with
    | error error =>
      obtain ⟨why, refused⟩ := nextObject_refused next parsed
      cases refused.symm.trans ok
    | ok obj =>
      rw [nextObject_parsed next parsed] at ok
      cases ok
      obtain ⟨lead, rest, rfl, leads, framed, same, left⟩ := nextElement_some stands next
      exact ⟨lead, given.bytes, rest, rfl, leads, same, (isObject_iff accepts).mpr ⟨framed, parsed⟩, left⟩

theorem nextObject_last (stands : Stands place bound count before ahead source) (last : Last place ahead) :
    ∃ after, nextObject fromSlice source = .ok (none, after) := by
  obtain ⟨after, ended⟩ := nextElement_last stands last
  exact ⟨after, by rw [nextObject, ended]; rfl⟩

theorem nextObject_none (stands : Stands place bound count before ahead source)
    (ok : nextObject fromSlice source = .ok (none, after)) : Last place ahead := by
  rcases next : nextElement source with error | ⟨_ | given, between⟩
  · rw [nextObject, next] at ok
    cases ok
  · exact nextElement_none stands next
  · cases parsed : fromSlice given.bytes with
    | error error =>
      obtain ⟨why, refused⟩ := nextObject_refused next parsed
      cases refused.symm.trans ok
    | ok obj =>
      rw [nextObject_parsed next parsed] at ok
      cases ok

theorem gives_items {final : Place} (accepts : Accepts fromSlice)
    (stands : Stands place bound count before ahead source)
    (items : Items fromSlice bound place count before found ahead final rest) :
    ∃ count' before' after, Gives fromSlice source found after ∧ Stands final bound count' before' rest after := by
  induction items generalizing source with
  | nil => exact ⟨_, _, source, .nil source, stands⟩
  | cons leads is _ ih =>
    obtain ⟨between, given, left⟩ := nextObject_object accepts stands leads is
    obtain ⟨count', before', after, gives, further⟩ := ih left
    exact ⟨count', before', after, .cons given gives, further⟩

theorem items_of_gives (accepts : Accepts fromSlice) (stands : Stands place bound count before ahead source)
    (gives : Gives fromSlice source found after) :
    ∃ final count' before' rest, Items fromSlice bound place count before found ahead final rest ∧
      Stands final bound count' before' rest after := by
  induction gives generalizing place count before ahead with
  | nil source => exact ⟨place, count, before, ahead, .nil, stands⟩
  | @cons item _ source between after given _ ih =>
    obtain ⟨lead, element, rest, rfl, leads, same, is, left⟩ := nextObject_some accepts stands given
    obtain ⟨final, count', before', rest', items, further⟩ := ih left
    obtain ⟨element', obj⟩ := item
    obtain rfl : element' = _ := same
    exact ⟨final, count', before', rest', .cons leads is items, further⟩

theorem delivers_or_fails (accepts : Accepts fromSlice) (stands : Stands place bound count before ahead source) :
    ∃ items, Delivers fromSlice source items ∨ Fails fromSlice source items := by
  induction total : ahead.length using Nat.strong_induction_on generalizing source place count before ahead with
  | _ size ih =>
    cases next : nextObject fromSlice source with
    | error error => exact ⟨[], .inr ⟨source, error, .nil source, next⟩⟩
    | ok result =>
      obtain ⟨_ | item, between⟩ := result
      · exact ⟨[], .inl ⟨source, between, .nil source, next⟩⟩
      · obtain ⟨lead, element, rest, rfl, _, _, is, left⟩ := nextObject_some accepts stands next
        obtain ⟨body, cons⟩ := ((isObject_iff accepts).mp is).1.cons
        have shorter : rest.length < size := by
          rw [← total, cons]
          simp only [List.length_append, List.length_cons]
          omega
        obtain ⟨items, ⟨last, after, gives, ended⟩ | ⟨last, error, gives, failed⟩⟩ := ih rest.length shorter left rfl
        · exact ⟨item :: items, .inl ⟨last, after, .cons next gives, ended⟩⟩
        · exact ⟨item :: items, .inr ⟨last, error, .cons next gives, failed⟩⟩

theorem gives_agree {found' : List (Element × Obj)} {after' : JsonSource} (gives : Gives fromSlice source found after)
    (gives' : Gives fromSlice source found' after') :
    (∃ more, found' = found ++ more ∧ Gives fromSlice after more after') ∨
      (∃ more, found = found' ++ more ∧ Gives fromSlice after' more after) := by
  induction gives generalizing found' after' with
  | nil source => exact .inl ⟨found', rfl, gives'⟩
  | @cons item items source between after given more ih =>
    cases gives' with
    | nil => exact .inr ⟨item :: items, rfl, .cons given more⟩
    | cons given' more' =>
      cases given.symm.trans given'
      rcases ih more' with ⟨rest, rfl, further⟩ | ⟨rest, rfl, further⟩
      · exact .inl ⟨rest, rfl, further⟩
      · exact .inr ⟨rest, rfl, further⟩

/-- The objects of a part that the end of the file follows are delivered, and no others. -/
theorem delivers_iff (accepts : Accepts fromSlice) (stands : Stands place bound count before ahead source) :
    Delivers fromSlice source found ↔
      ∃ final rest, Items fromSlice bound place count before found ahead final rest ∧ Last final rest := by
  constructor
  · rintro ⟨between, after, gives, ended⟩
    obtain ⟨final, count', before', rest, items, left⟩ := items_of_gives accepts stands gives
    exact ⟨final, rest, items, nextObject_none left ended⟩
  · rintro ⟨final, rest, items, last⟩
    obtain ⟨count', before', between, gives, left⟩ := gives_items accepts stands items
    obtain ⟨after, ended⟩ := nextObject_last left last
    exact ⟨between, after, gives, ended⟩

theorem fails_longest {found' : List (Element × Obj)} {final : Place} (accepts : Accepts fromSlice)
    (stands : Stands place bound count before ahead source) (fails : Fails fromSlice source found)
    (items : Items fromSlice bound place count before found' ahead final rest) : found' <+: found := by
  obtain ⟨between, error, gives, failed⟩ := fails
  obtain ⟨_, _, after, gives', _⟩ := gives_items accepts stands items
  rcases gives_agree gives gives' with ⟨more, rfl, further⟩ | ⟨more, rfl, _⟩
  · cases further with
    | nil => exact ⟨[], by rw [List.append_nil, List.append_nil]⟩
    | cons given _ => cases failed.symm.trans given
  · exact List.prefix_append found' more

theorem delivers_of_same {next : JsonSource} (same : nextObject fromSlice source = nextObject fromSlice next) :
    Delivers fromSlice source found ↔ Delivers fromSlice next found := by
  constructor <;> rintro ⟨between, after, gives, ended⟩
  · cases gives with
    | nil => exact ⟨next, after, .nil next, same ▸ ended⟩
    | cons given more => exact ⟨between, after, .cons (same ▸ given) more, ended⟩
  · cases gives with
    | nil => exact ⟨source, after, .nil source, same ▸ ended⟩
    | cons given more => exact ⟨between, after, .cons (same ▸ given) more, ended⟩

theorem fails_of_same {next : JsonSource} (same : nextObject fromSlice source = nextObject fromSlice next) :
    Fails fromSlice source found ↔ Fails fromSlice next found := by
  constructor <;> rintro ⟨between, error, gives, failed⟩
  · cases gives with
    | nil => exact ⟨next, error, .nil next, same ▸ failed⟩
    | cons given more => exact ⟨between, error, .cons (same ▸ given) more, failed⟩
  · cases gives with
    | nil => exact ⟨source, error, .nil source, same ▸ failed⟩
    | cons given more => exact ⟨between, error, .cons (same ▸ given) more, failed⟩

end

/-- The file is one of the two shapes, with these objects. -/
def Complete (fromSlice : List UInt8 → Except String Obj) (bound : Limits) (bytes : List UInt8)
    (found : List (Element × Obj)) :
    Prop :=
  ∃ place before ahead final rest, Opens (markOf bytes) bytes place before ahead ∧
    Items fromSlice bound place 0 before found ahead final rest ∧ Last final rest

/-- The file begins like one of the two shapes, up to the last of these objects. -/
def Begins (fromSlice : List UInt8 → Except String Obj) (bound : Limits) (bytes : List UInt8)
    (found : List (Element × Obj)) :
    Prop :=
  ∃ place before ahead final rest, Opens (markOf bytes) bytes place before ahead ∧
    Items fromSlice bound place 0 before found ahead final rest

/-- What the framer is for: of a file of one of the two shapes its objects, and of any other those of its longest
beginning and then an error. -/
structure Exact (fromSlice : List UInt8 → Except String Obj) (bound : Limits) (reader : Reader)
    (path : String) : Prop where
  complete : ∀ found, Delivers fromSlice (unread reader path bound) found ↔ Complete fromSlice bound reader.bytes found
  otherwise : (∀ found, ¬Complete fromSlice bound reader.bytes found) →
    ∃ found, Fails fromSlice (unread reader path bound) found ∧ Begins fromSlice bound reader.bytes found ∧
      ∀ found', Begins fromSlice bound reader.bytes found' → found' <+: found

/-- The mark of UTF-8, when there is one, is in the first chunk. -/
def Unsplit (reader : Reader) : Prop := mark <+: reader.bytes → mark <+: reader.fillBuf

instance (reader : Reader) : Decidable (Unsplit reader) :=
  inferInstanceAs (Decidable (mark <+: reader.bytes → mark <+: reader.fillBuf))

/-- There is nothing to give: the file breaks off before its first object, and is not empty. -/
def Barren (fromSlice : List UInt8 → Except String Obj) (bound : Limits) (bytes : List UInt8) : Prop :=
  (∀ found, ¬Complete fromSlice bound bytes found) ∧ ∀ found, Begins fromSlice bound bytes found → found = []

section
variable {fromSlice : List UInt8 → Except String Obj} {bound : Limits} {reader : Reader} {path : String}

theorem near_unread : Near .unstarted bound 0 [] reader.bytes (unread reader path bound) :=
  ⟨rfl, rfl, rfl, rfl, rfl, rfl, rfl⟩

theorem blanks_split {gap rest : List UInt8} (blank : Blanks gap) (other : ∀ b, rest.head? = some b → isWs b = false) :
    (gap ++ rest).takeWhile isWs = gap ∧ (gap ++ rest).dropWhile isWs = rest := by
  rw [List.takeWhile_append_of_pos blank, List.dropWhile_append_of_pos blank]
  cases rest with
  | nil => exact ⟨List.append_nil gap, rfl⟩
  | cons b rest =>
    have bare : ¬isWs b = true := by simp [other b rfl]
    rw [List.takeWhile_cons_of_neg bare, List.dropWhile_cons_of_neg bare, List.append_nil]
    exact ⟨rfl, rfl⟩

/-- A file begins in one way. -/
theorem opens_unique {front bytes before before' ahead ahead' : List UInt8} {place place' : Place}
    (opens : Opens front bytes place before ahead) (opens' : Opens front bytes place' before' ahead') :
    place = place' ∧ before = before' ∧ ahead = ahead' := by
  have bracket : ∀ more b, (openBracket :: more : List UInt8).head? = some b → isWs b = false := by
    rintro more b head
    obtain rfl := Option.some.inj head
    decide
  have same : ∀ gap rest gap' rest', bytes = front ++ gap ++ rest → bytes = front ++ gap' ++ rest' →
      Blanks gap → Blanks gap' → (∀ b, rest.head? = some b → isWs b = false) →
      (∀ b, rest'.head? = some b → isWs b = false) → gap = gap' ∧ rest = rest' := by
    intro gap rest gap' rest' whole whole' blank blank' other other'
    have both : gap ++ rest = gap' ++ rest' := by
      rw [whole, List.append_assoc, List.append_assoc] at whole'
      exact List.append_cancel_left whole'
    obtain ⟨taken, left⟩ := blanks_split blank other
    obtain ⟨taken', left'⟩ := blanks_split blank' other'
    exact ⟨by rw [← taken, both, taken'], by rw [← left, both, left']⟩
  cases opens with
  | array blank whole =>
    rw [List.append_assoc _ [openBracket]] at whole
    cases opens' with
    | array blank' whole' =>
      rw [List.append_assoc _ [openBracket]] at whole'
      obtain ⟨rfl, rest⟩ := same _ _ _ _ whole whole' blank blank' (bracket _) (bracket _)
      exact ⟨rfl, rfl, List.append_cancel_left rest⟩
    | stream blank' whole' other' =>
      obtain ⟨_, rest⟩ := same _ _ _ _ whole whole' blank blank' (bracket _) fun b head => (other' b head).1
      exact absurd rfl (other' openBracket (by rw [← rest]; rfl)).2
  | stream blank whole other =>
    cases opens' with
    | array blank' whole' =>
      rw [List.append_assoc _ [openBracket]] at whole'
      obtain ⟨_, rest⟩ := same _ _ _ _ whole whole' blank blank' (fun b head => (other b head).1) (bracket _)
      exact absurd rfl (other openBracket (by rw [rest]; rfl)).2
    | stream blank' whole' other' =>
      obtain ⟨rfl, rfl⟩ := same _ _ _ _ whole whole' blank blank' (fun b head => (other b head).1) fun b head =>
        (other' b head).1
      exact ⟨rfl, rfl, rfl⟩

theorem exists_opens (front rest : List UInt8) :
    ∃ place before ahead, Opens front (front ++ rest) place before ahead := by
  have blank : Blanks (rest.takeWhile isWs) := fun b inside => List.mem_takeWhile_imp inside
  have split : rest = rest.takeWhile isWs ++ rest.dropWhile isWs := (List.takeWhile_append_dropWhile).symm
  have first := List.head?_dropWhile_not isWs rest
  generalize rest.takeWhile isWs = gap at blank split
  generalize rest.dropWhile isWs = more at split first
  subst split
  by_cases opens : more.head? = some openBracket
  · obtain ⟨ahead, rfl⟩ := List.head?_eq_some_iff.mp opens
    exact ⟨.first, _, ahead, .array blank (by simp)⟩
  · refine ⟨.stream, _, more, .stream blank (List.append_assoc _ _ _).symm fun b head => ⟨?_, ?_⟩⟩
    · rw [head] at first
      exact first
    · rintro rfl
      exact opens head

theorem mark_prefix_markOf (bytes : List UInt8) : ∃ rest, bytes = markOf bytes ++ rest := by
  unfold markOf
  split
  · next marked => exact ⟨_, marked.choose_spec.symm⟩
  · exact ⟨bytes, rfl⟩

/-- A character that is neither a blank nor the beginning of an array or of an object. -/
def isOther (b : UInt8) : Prop := isWs b = false ∧ b ≠ openBrace ∧ b ≠ openBracket

/-- Of a file that begins with another character nothing is an object, nor its end. -/
theorem stuck {bytes before ahead rest : List UInt8} {place final : Place} {found : List (Element × Obj)}
    (accepts : Accepts fromSlice) (head : bytes.head? = some b) (other : isOther b)
    (opens : Opens [] bytes place before ahead)
    (items : Items fromSlice bound place 0 before found ahead final rest) : found = [] ∧ ¬Last final rest := by
  have here : Opens [] bytes .stream ([] ++ []) bytes := .stream (List.forall_mem_nil _) rfl fun b' head' => by
    obtain rfl := Option.some.inj (head.symm.trans head')
    exact ⟨other.1, other.2.2⟩
  obtain ⟨rfl, rfl, rfl⟩ := opens_unique opens here
  have blanks : ∀ gap more : List UInt8, Blanks gap → (gap ++ openBrace :: more).head? ≠ some b := by
    intro gap more blank begins
    cases gap with
    | nil => exact other.2.1 (Option.some.inj begins).symm
    | cons first gap =>
      obtain rfl := Option.some.inj begins
      exact absurd (blank first List.mem_cons_self) (by simp [other.1])
  cases items with
  | nil =>
    refine ⟨rfl, fun last => ?_⟩
    cases last with
    | stream blank => exact absurd (blank b (List.mem_of_head? head)) (by simp [other.1])
  | cons leads is _ =>
    obtain ⟨body, rfl⟩ := ((isObject_iff accepts).mp is).1.cons
    cases leads with
    | stream blank => exact absurd head (blanks _ _ blank)

theorem barren_of_head {bytes : List UInt8} (accepts : Accepts fromSlice) (head : bytes.head? = some b)
    (other : isOther b) (unmarked : markOf bytes = []) : Barren fromSlice bound bytes := by
  refine ⟨?_, ?_⟩
  · rintro found ⟨place, before, ahead, final, rest, opens, items, last⟩
    exact (stuck accepts head other (unmarked ▸ opens) items).2 last
  · rintro found ⟨place, before, ahead, final, rest, opens, items⟩
    exact (stuck accepts head other (unmarked ▸ opens) items).1

theorem begins_nil (bytes : List UInt8) : Begins fromSlice bound bytes [] := by
  obtain ⟨rest, split⟩ := mark_prefix_markOf bytes
  obtain ⟨place, before, ahead, opens⟩ := exists_opens (markOf bytes) rest
  rw [← split] at opens
  exact ⟨place, before, ahead, place, ahead, opens, .nil⟩

/-- A source that gives an error at once is right about a file that has nothing to give, and about no other. -/
theorem exact_of_failing (failing : nextObject fromSlice (unread reader path bound) = .error e) :
    Exact fromSlice bound reader path ↔ Barren fromSlice bound reader.bytes := by
  have gives : ∀ found after, Gives fromSlice (unread reader path bound) found after → found = [] ∧
    after = unread reader path bound := by
    intro found after gives
    cases gives with
    | nil => exact ⟨rfl, rfl⟩
    | cons given _ => cases failing.symm.trans given
  have nothing : ∀ found, ¬Delivers fromSlice (unread reader path bound) found := by
    rintro found ⟨between, after, given, ended⟩
    obtain ⟨_, rfl⟩ := gives found between given
    cases failing.symm.trans ended
  constructor
  · intro exact
    have incomplete : ∀ found, ¬Complete fromSlice bound reader.bytes found := fun found complete =>
      nothing found ((exact.complete found).mpr complete)
    obtain ⟨found, ⟨between, _, given, _⟩, _, longest⟩ := exact.otherwise incomplete
    obtain ⟨rfl, _⟩ := gives found between given
    exact ⟨incomplete, fun found' begins => List.prefix_nil.mp (longest found' begins)⟩
  · rintro ⟨incomplete, none⟩
    refine ⟨fun found => ⟨fun delivers => absurd delivers (nothing found),
      fun complete => absurd complete (incomplete found)⟩,
      fun _ => ⟨[], ⟨_, e, .nil _, failing⟩, begins_nil reader.bytes, fun found' begins => ?_⟩⟩
    have empty : found' = [] := none found' begins
    exact empty ▸ List.nil_prefix

theorem exact_of_started {source : JsonSource} {place : Place} {before ahead : List UInt8} (accepts : Accepts fromSlice)
    (same : nextObject fromSlice (unread reader path bound) = nextObject fromSlice source)
    (opens : Opens (markOf reader.bytes) reader.bytes place before ahead)
    (stands : Stands place bound 0 before ahead source) :
    Exact fromSlice bound reader path := by
  have complete : ∀ found, Delivers fromSlice (unread reader path bound) found ↔
    Complete fromSlice bound reader.bytes found := by
    intro found
    rw [delivers_of_same same, delivers_iff accepts stands]
    constructor
    · rintro ⟨final, rest, items, last⟩
      exact ⟨place, before, ahead, final, rest, opens, items, last⟩
    · rintro ⟨place', before', ahead', final, rest, opens', items, last⟩
      obtain ⟨rfl, rfl, rfl⟩ := opens_unique opens opens'
      exact ⟨final, rest, items, last⟩
  refine ⟨complete, fun incomplete => ?_⟩
  obtain ⟨found, delivers | fails⟩ := delivers_or_fails accepts stands
  · exact absurd ((complete found).mp ((delivers_of_same same).mpr delivers)) (incomplete found)
  · refine ⟨found, (fails_of_same same).mpr fails, ?_, ?_⟩
    · obtain ⟨between, _, gives, _⟩ := fails
      obtain ⟨final, _, _, rest, items, _⟩ := items_of_gives accepts stands gives
      exact ⟨place, before, ahead, final, rest, opens, items⟩
    · rintro found' ⟨place', before', ahead', final, rest, opens', items⟩
      obtain ⟨rfl, rfl, rfl⟩ := opens_unique opens opens'
      exact fails_longest accepts stands fails items

theorem nextObject_of_same {source : JsonSource} (same : nextElement (unread reader path bound) = nextElement source) :
    nextObject fromSlice (unread reader path bound) = nextObject fromSlice source := by
  rw [nextObject, nextObject, same]

/-- A file with a mark of UTF-16 holds nothing, and the source refuses it. -/
theorem refused_of_error (accepts : Accepts fromSlice) (failed : start (unread reader path bound) = .error e) :
    nextObject fromSlice (unread reader path bound) = .error e ∧ Barren fromSlice bound reader.bytes := by
  obtain ⟨b, head, which⟩ := start_error failed
  have other : isOther b := by rcases which with rfl | rfl <;> exact ⟨by decide, by decide, by decide⟩
  have unmarked : markOf reader.bytes = [] := by
    refine if_neg ?_
    rintro ⟨rest, marked⟩
    have first : some 0xEF = some b := by
      rw [← head, show (unread reader path bound).reader = reader from rfl, ← marked]
      rfl
    obtain rfl := Option.some.inj first
    rcases which with which | which <;> cases which
  have unstarted : (unread reader path bound).mode = .unstarted := rfl
  refine ⟨?_, barren_of_head accepts head other unmarked⟩
  rw [nextObject, nextElement, if_pos unstarted, failed]
  rfl

/-- A mark that a chunk holds is the mark of the file, and a chunk without it begins a file without it when it is not
cut. -/
theorem markOf_fillBuf (unsplit : Unsplit reader) : markOf reader.fillBuf = markOf reader.bytes := by
  obtain ⟨rest, split⟩ := reader.bytes_split
  by_cases marked : mark <+: reader.fillBuf
  · rw [markOf, markOf, if_pos marked, if_pos (split ▸ marked.trans (List.prefix_append _ rest))]
  · rw [markOf, markOf, if_neg marked, if_neg fun whole => marked (unsplit whole)]

/-- The framer is exact wherever the chunks are cut behind the mark. -/
theorem exact_of_unsplit (accepts : Accepts fromSlice) (unsplit : Unsplit reader) :
    Exact fromSlice bound reader path := by
  cases started : start (unread reader path bound) with
  | error e =>
    obtain ⟨failing, barren⟩ := refused_of_error accepts started
    exact (exact_of_failing failing).mpr barren
  | ok source =>
    obtain ⟨place, before, ahead, opens, stands⟩ := start_ok near_unread rfl started
    have same : nextObject fromSlice (unread reader path bound) = nextObject fromSlice source :=
      nextObject_of_same (started_of_stands stands rfl started)
    exact exact_of_started accepts same (markOf_fillBuf unsplit ▸ opens) stands

/-- The source takes the first byte of a mark that is cut for the beginning of an object. -/
theorem failing_of_split (accepts : Accepts fromSlice) (cut : ¬Unsplit reader) :
    ∃ e, nextObject fromSlice (unread reader path bound) = .error e := by
  obtain ⟨whole, cut⟩ : mark <+: reader.bytes ∧ ¬mark <+: reader.fillBuf := Classical.not_imp.mp cut
  cases started : start (unread reader path bound) with
  | error e => exact ⟨e, (refused_of_error accepts started).1⟩
  | ok source =>
    obtain ⟨place, before, ahead, opens, stands⟩ := start_ok near_unread rfl started
    have none : markOf reader.fillBuf = [] := if_neg cut
    replace opens : Opens [] reader.bytes place before ahead := none ▸ opens
    have head : reader.bytes.head? = some 0xEF := by
      obtain ⟨rest, marked⟩ := whole
      rw [← marked]
      rfl
    have other : isOther 0xEF := ⟨by decide, by decide, by decide⟩
    rw [nextObject_of_same (started_of_stands stands rfl started)]
    cases next : nextObject fromSlice source with
    | error e => exact ⟨e, rfl⟩
    | ok result =>
      obtain ⟨_ | item, after⟩ := result
      · have here : Items fromSlice bound place 0 before [] ahead place ahead := .nil
        exact absurd (nextObject_none stands next) (stuck accepts head other opens here).2
      · obtain ⟨lead, element, rest, rfl, leads, _, is, _⟩ := nextObject_some accepts stands next
        cases (stuck accepts head other opens (.cons leads is .nil)).1

/-- The framer is exact: it accepts the two shapes and nothing else, wherever the chunks are cut, unless a cut goes
through the mark of UTF-8 of a file that holds anything. -/
theorem framer_exact_iff (accepts : Accepts fromSlice) (bound : Limits) (reader : Reader) (path : String) :
    Exact fromSlice bound reader path ↔ Unsplit reader ∨ Barren fromSlice bound reader.bytes := by
  by_cases unsplit : Unsplit reader
  · exact ⟨fun _ => .inl unsplit, fun _ => exact_of_unsplit accepts unsplit⟩
  · obtain ⟨e, failing⟩ := failing_of_split accepts unsplit
    rw [exact_of_failing failing]
    exact ⟨.inr, fun either => either.resolve_left unsplit⟩

/-- An empty object behind the mark, in one chunk, -/
def wholeMark : Reader := ⟨[[0xEF, 0xBB, 0xBF, 0x7B, 0x7D]], by decide⟩

def cutMark : Reader := ⟨[[0xEF], [0xBB, 0xBF, 0x7B, 0x7D]], by decide⟩

theorem framer_exact_wholeMark : Exact parsedObject ⟨maxElementBytes⟩ wholeMark "rows.json" :=
  (framer_exact_iff reads_parsedObject.accepts ⟨maxElementBytes⟩ wholeMark "rows.json").mpr (.inl (by decide))

theorem framer_fails_cutMark : ¬Exact parsedObject ⟨maxElementBytes⟩ cutMark "rows.json" := by
  intro exact
  have is : IsObject parsedObject ⟨maxElementBytes⟩ [0x7B, 0x7D] [] :=
    ⟨⟨[], ['{', '}'], rfl, .empty (List.forall_mem_nil _), by decide⟩, by decide, rfl⟩
  have complete : Complete parsedObject ⟨maxElementBytes⟩ cutMark.bytes [(placed [0x7B, 0x7D] mark 0, [])] :=
    ⟨.stream, mark ++ [], [0x7B, 0x7D], .stream, [],
      .stream (List.forall_mem_nil _) rfl fun b head => by cases head; decide,
      .cons (.stream (List.forall_mem_nil _)) is .nil, .stream (List.forall_mem_nil _)⟩
  obtain ⟨between, after, given, _⟩ := (exact.complete _).mpr complete
  obtain ⟨e, failing⟩ : ∃ e, nextObject parsedObject (unread cutMark "rows.json" ⟨maxElementBytes⟩) = .error e :=
    failing_of_split reads_parsedObject.accepts (by decide)
  cases given with
  | cons first _ => cases failing.symm.trans first

end

end QueryHive.Import.JsonSource
