import QueryHive.Import.JsonFraming

/-! The shapes of a JSON file, as runs of bytes: what may stand in front of an object, and what behind the last. The
calls of the source find exactly the objects of the shape, each where it begins. -/
namespace QueryHive.Import.JsonSource
open QueryHive.Library.Json

/-- In a stream, or in an array in front of its first element or behind one. -/
inductive Place where
  | stream | first | behind
  deriving DecidableEq, Repr

def Place.mode : Place → Mode
  | .stream => .stream
  | .first | .behind => .array

def Place.next : Place → Place
  | .stream => .stream
  | .first | .behind => .behind

/-- What stands in front of an object. -/
inductive Lead : Place → List UInt8 → Prop
  | stream (blank : Blanks gap) : Lead .stream gap
  | first (blank : Blanks gap) : Lead .first gap
  | behind (blank : Blanks gap) (blank' : Blanks gap') : Lead .behind (gap ++ comma :: gap')

/-- What stands behind the last object. -/
inductive Last : Place → List UInt8 → Prop
  | stream (blank : Blanks gap) : Last .stream gap
  | first (blank : Blanks gap) (blank' : Blanks gap') : Last .first (gap ++ closeBracket :: gap')
  | behind (blank : Blanks gap) (blank' : Blanks gap') : Last .behind (gap ++ closeBracket :: gap')

def lineAt (before : List UInt8) : Nat := 1 + before.count lineFeed

/-- The bytes of an object the framer lets through. -/
structure IsElement (bound : Limits) (element : List UInt8) : Prop where
  opened : element.head? = some openBrace
  framed : Frames ⟨0, false, false⟩ element
  fits : element.length ≤ bound.maxElementBytes

/-- The source is behind so many objects and some bytes, and in front of others. -/
structure Near (kind : Mode) (bound : Limits) (count : Nat) (before ahead : List UInt8)
    (source : JsonSource) : Prop where
  mode : source.mode = kind
  count : source.count = count
  limits : source.limits = bound
  going : source.done = false
  line : source.line = lineAt before
  offset : source.offset = before.length
  bytes : source.reader.bytes = ahead

def Place.flags : Place → JsonSource → Prop
  | .stream, _ => True
  | .first, source => source.expectElement = true ∧ source.count = 0
  | .behind, source => source.expectElement = false

structure Stands (place : Place) (bound : Limits) (count : Nat) (before ahead : List UInt8)
    (source : JsonSource) : Prop where
  near : Near place.mode bound count before ahead source
  flags : place.flags source

section
variable {source next after : JsonSource} {kind : Mode} {place : Place} {bound : Limits} {count : Nat}
  {before ahead gap gap' lead element rest : List UInt8} {byte : UInt8}

theorem Near.advances (near : Near kind bound count before (taken ++ rest) source)
    (advances : Advances taken source next) :
    Near kind bound count (before ++ taken) rest next where
  mode := advances.mode.trans near.mode
  count := advances.count.trans near.count
  limits := advances.limits.trans near.limits
  going := advances.done.trans near.going
  line := by rw [advances.line, near.line, lineAt, lineAt, List.count_append, Nat.add_assoc]
  offset := by rw [advances.offset, near.offset, List.length_append]
  bytes := advances.rest near.bytes

/-- The blanks in front of something else are gone over. -/
theorem Near.skipBlanks (near : Near kind bound count before (gap ++ byte :: rest) source) (blank : Blanks gap)
    (other : isWs byte = false) :
    Near kind bound count (before ++ gap) (byte :: rest) (skipWs source) ∧ Advances gap source (skipWs source) := by
  obtain ⟨advances, _⟩ := skipWs_before blank other near.bytes
  exact ⟨near.advances advances, advances⟩

theorem Near.skipAll (near : Near kind bound count before ahead source) :
    ∃ gap rest, ahead = gap ++ rest ∧ Blanks gap ∧ (∀ b, rest.head? = some b → isWs b = false) ∧
      Near kind bound count (before ++ gap) rest (skipWs source) ∧ Advances gap source (skipWs source) := by
  obtain ⟨advances, _⟩ := advances_skipWs source
  have split : ahead = source.reader.bytes.takeWhile isWs ++ source.reader.bytes.dropWhile isWs := by
    rw [List.takeWhile_append_dropWhile, near.bytes]
  refine ⟨_, _, split, fun b inside => List.mem_takeWhile_imp inside, ?_, (split ▸ near).advances advances, advances⟩
  intro b head
  have first := List.head?_dropWhile_not isWs source.reader.bytes
  rw [head] at first
  exact first

theorem Near.skipEnd (near : Near kind bound count before gap source) (blank : Blanks gap) :
    (skipWs source).peek = none ∧ Advances gap source (skipWs source) := by
  have blanks : Blanks source.reader.bytes := near.bytes ▸ blank
  obtain ⟨advances, left⟩ := skipWs_end blanks
  exact ⟨by rw [peek_eq, left]; rfl, near.bytes ▸ advances⟩

theorem Near.peek (near : Near kind bound count before ahead source) : source.peek = ahead.head? := by
  rw [peek_eq, near.bytes]

theorem Near.bump (near : Near kind bound count before (byte :: rest) source) :
    Near kind bound count (before ++ [byte]) rest (bump byte source) := by
  have split : Near kind bound count before ([byte] ++ rest) source := near
  exact split.advances (advances_bump near.peek)

theorem brace_not_ws : isWs openBrace = false := by decide

theorem approach_lead (stands : Stands place bound count before (lead ++ openBrace :: rest) source)
    (leads : Lead place lead) :
    ∃ next, approach (skipWs source) = .ok (true, next) ∧
      Near place.mode bound count (before ++ lead) (openBrace :: rest) next := by
  obtain ⟨near, flags⟩ := stands
  cases leads with
  | stream blank =>
    obtain ⟨skipped, _⟩ := near.skipBlanks blank brace_not_ws
    refine ⟨_, ?_, skipped⟩
    rw [approach, if_neg (by rw [skipped.mode]; decide), if_neg (by rw [skipped.peek]; simp)]
  | first blank =>
    obtain ⟨skipped, advances⟩ := near.skipBlanks blank brace_not_ws
    refine ⟨_, ?_, skipped⟩
    have array : (skipWs source).mode = .array := skipped.mode
    rw [approach, if_pos array, skipped.peek]
    simp only [List.head?_cons, if_neg (by decide : openBrace ≠ closeBracket),
      if_pos (advances.expectElement.trans flags.1)]
  | @behind gap gap' blank blank' =>
    rw [List.append_assoc, List.cons_append] at near
    obtain ⟨skipped, advances⟩ := near.skipBlanks blank (by decide)
    have bumped := skipped.bump
    have expecting : Near .array bound count (before ++ gap ++ [comma]) (gap' ++ openBrace :: rest)
        { bump comma (skipWs source) with expectElement := true } :=
      ⟨bumped.mode, bumped.count, bumped.limits, bumped.going, bumped.line, bumped.offset, bumped.bytes⟩
    obtain ⟨there, _⟩ := expecting.skipBlanks blank' brace_not_ws
    refine ⟨_, ?_, by simpa [Place.mode] using there⟩
    have array : (skipWs source).mode = .array := skipped.mode
    rw [approach, if_pos array, skipped.peek]
    simp only [List.head?_cons, if_neg (by decide : comma ≠ closeBracket), advances.expectElement.trans flags,
      Bool.false_eq_true, if_false, if_true, there.peek, Option.some.injEq,
        if_neg (by decide : openBrace ≠ closeBracket)]

theorem approach_last (stands : Stands place bound count before ahead source) (last : Last place ahead) :
    ∃ next, approach (skipWs source) = .ok (false, next) := by
  obtain ⟨near, flags⟩ := stands
  have closed : ∀ gap gap', Blanks gap → Blanks gap' → place.mode = .array → ahead = gap ++ closeBracket :: gap' →
      source.count = 0 ∨ source.expectElement = false → ∃ next, approach (skipWs source) = .ok (false, next) := by
    rintro gap gap' blank blank' inArray rfl last
    obtain ⟨skipped, advances⟩ := near.skipBlanks blank (by decide)
    have bumped := skipped.bump
    obtain ⟨nothing, _⟩ := bumped.skipEnd blank'
    refine ⟨{ skipWs (bump closeBracket (skipWs source)) with done := true }, ?_⟩
    rw [approach, if_pos (skipped.mode.trans inArray), skipped.peek]
    simp only [List.head?_cons, if_true, advances.count, advances.expectElement, if_pos last, nothing,
      Option.isSome_none,
      Bool.false_eq_true, if_false]
  cases last with
  | stream blank =>
    obtain ⟨nothing, advances⟩ := near.skipEnd blank
    refine ⟨{ skipWs source with done := true }, ?_⟩
    rw [approach, if_neg (by rw [advances.mode, near.mode]; decide), if_pos nothing]
  | first blank blank' => exact closed _ _ blank blank' rfl rfl (.inl flags.2)
  | behind blank blank' => exact closed _ _ blank blank' rfl rfl (.inr flags)

/-- Nothing else is gone over in front of an object or at the end. -/
theorem approach_ok (stands : Stands place bound count before ahead source)
    (ok : approach (skipWs source) = .ok (due, next)) :
    (due = true ∧ ∃ lead rest, ahead = lead ++ rest ∧ Lead place lead ∧
    Near place.mode bound count (before ++ lead) rest next) ∨
      (due = false ∧ Last place ahead) := by
  obtain ⟨near, flags⟩ := stands
  obtain ⟨gap, rest, rfl, blank, first, skipped, advances⟩ := near.skipAll
  rw [approach] at ok
  split at ok
  · next array =>
    have inArray : place.mode = .array := skipped.mode.symm.trans array
    rw [skipped.peek] at ok
    cases rest with
    | nil => cases ok
    | cons byte more =>
      simp only [List.head?_cons] at ok
      split at ok
      · next closes =>
        subst closes
        split at ok
        · split at ok
          · cases ok
          · next nothing =>
            cases ok
            have bumped := skipped.bump
            obtain ⟨gap', rest', rfl, blank', _, there, _⟩ := bumped.skipAll
            rw [there.peek] at nothing
            obtain rfl : rest' = [] := by simpa using nothing
            rw [List.append_nil]
            refine .inr ⟨rfl, ?_⟩
            cases place with
            | stream => cases inArray
            | first => exact .first blank blank'
            | behind => exact .behind blank blank'
        · cases ok
      · split at ok
        · next expecting =>
          cases ok
          refine .inl ⟨rfl, gap, _, rfl, ?_, skipped⟩
          cases place with
          | stream => cases inArray
          | first => exact .first blank
          | behind => exact absurd (expecting.symm.trans (advances.expectElement.trans flags)) (by decide)
        · next behind =>
          split at ok
          · next separates =>
            subst separates
            split at ok
            · cases ok
            · cases ok
              have bumped := skipped.bump
              have expecting : Near place.mode bound count (before ++ gap ++ [comma]) more
                  { bump comma (skipWs source) with expectElement := true } :=
                ⟨bumped.mode, bumped.count, bumped.limits, bumped.going, bumped.line, bumped.offset, bumped.bytes⟩
              obtain ⟨gap', rest', rfl, blank', _, there, _⟩ := expecting.skipAll
              refine .inl ⟨rfl, gap ++ comma :: gap', rest', by simp, ?_, by simpa using there⟩
              cases place with
              | stream => cases inArray
              | first => exact absurd (advances.expectElement.trans flags.1) behind
              | behind => exact .behind blank blank'
          · cases ok
  · next stream =>
    have inStream : place = .stream := by
      cases place with
      | stream => rfl
      | first => exact absurd skipped.mode stream
      | behind => exact absurd skipped.mode stream
    subst inStream
    split at ok
    · next nothing =>
      cases ok
      rw [skipped.peek, List.head?_eq_none_iff] at nothing
      rw [nothing, List.append_nil]
      exact .inr ⟨rfl, .stream blank⟩
    · cases ok
      exact .inl ⟨rfl, gap, rest, rfl, .stream blank, skipped⟩

theorem IsElement.cons (is : IsElement bound element) : ∃ body, element = openBrace :: body :=
  List.head?_eq_some_iff.mp is.opened

theorem readElement_element (is : IsElement bound element)
    (near : Near kind bound count before (element ++ rest) source) :
    ∃ after, readElement source = .ok (⟨element, lineAt before, before.length, count + 1⟩, after) ∧
      Near kind bound (count + 1) (before ++ element) rest after ∧ after.expectElement = false := by
  have fits : ([] : List UInt8).length + element.length ≤ source.limits.maxElementBytes := by
    rw [near.limits, List.length_nil, Nat.zero_add]
    exact is.fits
  obtain ⟨after, read, advances⟩ := readObject_frames source.line source.offset [] is.framed near.bytes fits
  rw [List.nil_append, near.line, near.offset] at read
  have left := near.advances advances
  obtain ⟨body, cons⟩ := is.cons
  have peeked : source.peek = some openBrace := by
    rw [near.peek, cons]
    rfl
  refine ⟨{ after with count := after.count + 1, expectElement := false }, ?_,
    ⟨left.mode, congrArg (· + 1) left.count, left.limits, left.going, left.line, left.offset, left.bytes⟩, rfl⟩
  rw [readElement, peeked]
  simp only [if_true, near.line, near.offset, near.count, read]
  rfl

theorem readElement_ok {given : Element} (near : Near kind bound count before ahead source)
    (ok : readElement source = .ok (given, after)) :
    ∃ rest, ahead = given.bytes ++ rest ∧ IsElement bound given.bytes ∧
      given = ⟨given.bytes, lineAt before, before.length, count + 1⟩ ∧
      Near kind bound (count + 1) (before ++ given.bytes) rest after ∧ after.expectElement = false := by
  rw [readElement] at ok
  dsimp only at ok
  split at ok
  · cases ok
  · next byte peeked =>
    split at ok
    · next opens =>
      subst opens
      cases read : readObject source.line source.offset source [] ⟨0, false, false⟩ with
      | error e =>
        rw [read] at ok
        cases ok
      | ok result =>
        obtain ⟨bytes, between⟩ := result
        rw [read] at ok
        cases ok
        obtain ⟨_, rfl, frames, fits, advances⟩ := readObject_ok read
        have split := near.bytes.symm.trans advances.bytes
        subst split
        have left := near.advances advances
        refine ⟨_, rfl, ⟨?_, frames, near.limits ▸ fits⟩, by rw [near.line, near.offset, near.count],
          ⟨left.mode, congrArg (· + 1) left.count, left.limits, left.going, left.line, left.offset, left.bytes⟩, rfl⟩
        rw [near.peek] at peeked
        cases bytes with
        | nil =>
          obtain ⟨_, scanned⟩ := frames
          cases scanned
        | cons first body => exact peeked
    · cases ok

theorem Place.started (place : Place) : place.mode ≠ .unstarted := by cases place <;> decide

theorem Near.stands (near : Near place.mode bound count before rest source) (behind : source.expectElement = false) :
    Stands place.next bound count before rest source := by
  cases place with
  | stream => exact ⟨near, trivial⟩
  | first => exact ⟨near, behind⟩
  | behind => exact ⟨near, behind⟩

theorem nextElement_at (stands : Stands place bound count before ahead source) :
    nextElement source = (do
      let (due, source) ← approach (skipWs source)
      if due then
        let (element, source) ← readElement source
        return (some element, source)
      else return (none, source)) := by
  rw [nextElement, if_neg (by rw [stands.near.mode]; exact place.started)]
  simp only [pure_bind, stands.near.going, Bool.false_eq_true, if_false]

theorem nextElement_due (stands : Stands place bound count before ahead source)
    (due : approach (skipWs source) = .ok (true, next)) :
    nextElement source = (readElement next).map fun (element, source) => (some element, source) := by
  rw [nextElement_at stands, due]
  cases read : readElement next <;> (show bind (readElement next) _ = _; rw [read]; rfl)

/-- An object behind what may stand in front of one is given, and where it begins. -/
theorem nextElement_element (stands : Stands place bound count before (lead ++ (element ++ rest)) source)
    (leads : Lead place lead) (is : IsElement bound element) :
    ∃ after, nextElement source =
      .ok (some ⟨element, lineAt (before ++ lead), (before ++ lead).length, count + 1⟩, after) ∧
      Stands place.next bound (count + 1) (before ++ (lead ++ element)) rest after := by
  obtain ⟨body, cons⟩ := is.cons
  have there : Stands place bound count before (lead ++ openBrace :: (body ++ rest)) source := by
    rw [← List.cons_append, ← cons]
    exact stands
  obtain ⟨next, due, near⟩ := approach_lead there leads
  rw [← List.cons_append, ← cons] at near
  obtain ⟨after, read, left, behind⟩ := readElement_element is near
  refine ⟨after, ?_, by rw [← List.append_assoc]; exact left.stands behind⟩
  rw [nextElement_due stands due, read]
  rfl

theorem nextElement_some {given : Element} (stands : Stands place bound count before ahead source)
    (ok : nextElement source = .ok (some given, after)) :
    ∃ lead rest, ahead = lead ++ (given.bytes ++ rest) ∧ Lead place lead ∧ IsElement bound given.bytes ∧
      given = ⟨given.bytes, lineAt (before ++ lead), (before ++ lead).length, count + 1⟩ ∧
      Stands place.next bound (count + 1) (before ++ (lead ++ given.bytes)) rest after := by
  cases due : approach (skipWs source) with
  | error e =>
    rw [nextElement_at stands, due] at ok
    cases ok
  | ok result =>
    obtain ⟨due', next⟩ := result
    rcases approach_ok stands due with ⟨rfl, lead, rest, rfl, leads, near⟩ | ⟨rfl, _⟩
    · rw [nextElement_due stands due] at ok
      cases read : readElement next with
      | error e =>
        rw [read] at ok
        cases ok
      | ok result =>
        obtain ⟨element', between⟩ := result
        rw [read] at ok
        cases ok
        obtain ⟨rest, rfl, is, placed, left, behind⟩ := readElement_ok near read
        exact ⟨lead, rest, rfl, leads, is, placed, by rw [← List.append_assoc]; exact left.stands behind⟩
    · rw [nextElement_at stands, due] at ok
      cases ok

theorem nextElement_last (stands : Stands place bound count before ahead source) (last : Last place ahead) :
    ∃ after, nextElement source = .ok (none, after) := by
  obtain ⟨next, ended⟩ := approach_last stands last
  exact ⟨next, by rw [nextElement_at stands, ended]; rfl⟩

theorem nextElement_none (stands : Stands place bound count before ahead source)
    (ok : nextElement source = .ok (none, after)) :
    Last place ahead := by
  cases due : approach (skipWs source) with
  | error e =>
    rw [nextElement_at stands, due] at ok
    cases ok
  | ok result =>
    obtain ⟨due', next⟩ := result
    rcases approach_ok stands due with ⟨rfl, _⟩ | ⟨_, last⟩
    · rw [nextElement_due stands due] at ok
      cases read : readElement next <;> (rw [read] at ok; cases ok)
    · exact last

def mark : List UInt8 := [0xEF, 0xBB, 0xBF]

/-- The beginning of a file behind its mark: blanks, and the bracket of an array or none. -/
inductive Opens (front bytes : List UInt8) : Place → List UInt8 → List UInt8 → Prop
  | array {gap ahead : List UInt8} (blank : Blanks gap) (whole : bytes = front ++ gap ++ [openBracket] ++ ahead) :
      Opens front bytes .first (front ++ gap ++ [openBracket]) ahead
  | stream {gap ahead : List UInt8} (blank : Blanks gap) (whole : bytes = front ++ gap ++ ahead)
      (other : ∀ b, ahead.head? = some b → isWs b = false ∧ b ≠ openBracket) :
      Opens front bytes .stream (front ++ gap) ahead

def markOf (bytes : List UInt8) : List UInt8 := if mark <+: bytes then mark else []

theorem Near.take3 (near : Near kind bound count [] (mark ++ rest) source) (marked : mark <+: source.reader.fillBuf) :
    Near kind bound count mark rest { source with reader := source.reader.consume 3, offset := source.offset + 3 } := by
  obtain ⟨more, head⟩ := marked
  have short : 3 ≤ source.reader.fillBuf.length := by
    rw [← head, List.length_append]
    exact Nat.le_add_right 3 _
  refine ⟨near.mode, near.count, near.limits, near.going, near.line, ?_, ?_⟩
  · show source.offset + 3 = 3
    rw [near.offset]
    rfl
  · show (source.reader.consume 3).bytes = rest
    rw [Reader.bytes_consume short, near.bytes]
    rfl

/-- Where the source is once it has started: what it takes for the mark is what the first chunk shows of it. -/
theorem start_ok (near : Near .unstarted bound 0 [] ahead source) (expecting : source.expectElement = true)
    (ok : start source = .ok next) :
    ∃ place before rest, Opens (markOf source.reader.fillBuf) ahead place before rest ∧
      Stands place bound 0 before rest next := by
  rw [start] at ok
  dsimp only at ok
  split at ok
  · cases ok
  · -- Behind the mark.
    have marked : ∃ rest, ahead = markOf source.reader.fillBuf ++ rest ∧
        Near .unstarted bound 0 (markOf source.reader.fillBuf) rest
          (if mark <+: source.reader.fillBuf then
            { source with reader := source.reader.consume 3, offset := source.offset + 3 } else source) := by
      unfold markOf
      split
      · next marked =>
        obtain ⟨more, head⟩ := marked
        obtain ⟨rest, split⟩ := source.reader.bytes_split
        have whole : ahead = mark ++ (more ++ rest) := by
          rw [← near.bytes, split, ← head, List.append_assoc]
        exact ⟨more ++ rest, whole, (whole ▸ near).take3 ⟨more, head⟩⟩
      · exact ⟨ahead, rfl, near⟩
    have kept : (if mark <+: source.reader.fillBuf then
        { source with reader := source.reader.consume 3, offset := source.offset + 3 }
        else source).expectElement = true := by
      split <;> exact expecting
    obtain ⟨rest, rfl, behind⟩ := marked
    unfold mark at behind kept
    generalize (if [0xEF, 0xBB, 0xBF] <+: source.reader.fillBuf then _ else source : JsonSource) =
      between at ok behind kept
    obtain ⟨gap, rest, rfl, blank, other, skipped, advances⟩ := behind.skipAll
    split at ok
    · next opens =>
      cases ok
      rw [skipped.peek] at opens
      obtain ⟨more, rfl⟩ := List.head?_eq_some_iff.mp opens
      have bumped := skipped.bump
      refine ⟨.first, _, more, .array blank (by simp), ⟨rfl, bumped.count, bumped.limits, bumped.going, bumped.line,
        bumped.offset, bumped.bytes⟩, advances.expectElement.trans kept, bumped.count⟩
    · next closed =>
      cases ok
      rw [skipped.peek] at closed
      refine ⟨.stream, _, rest, .stream blank (by simp) fun b head => ⟨other b head, ?_⟩,
        ⟨rfl, skipped.count, skipped.limits,
        skipped.going, skipped.line, skipped.offset, skipped.bytes⟩, trivial⟩
      rintro rfl
      exact closed head

theorem start_error (failed : start source = .error e) :
    ∃ b, source.reader.bytes.head? = some b ∧ (b = 0xFF ∨ b = 0xFE) := by
  obtain ⟨rest, split⟩ := source.reader.bytes_split
  rw [start] at failed
  dsimp only at failed
  split at failed
  · next marked =>
    rcases marked with ⟨more, head⟩ | ⟨more, head⟩
    · exact ⟨0xFF, by rw [split, ← head]; rfl, .inl rfl⟩
    · exact ⟨0xFE, by rw [split, ← head]; rfl, .inr rfl⟩
  · generalize skipWs _ = between at failed
    split at failed <;> cases failed

theorem started_of_stands (stands : Stands place bound count before ahead next) (unstarted : source.mode = .unstarted)
    (ok : start source = .ok next) : nextElement source = nextElement next := by
  rw [nextElement, if_pos unstarted, ok, nextElement, if_neg (by rw [stands.near.mode]; exact place.started)]
  rfl

end

end QueryHive.Import.JsonSource
