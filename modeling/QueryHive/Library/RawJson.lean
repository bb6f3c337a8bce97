import QueryHive.Library.JsonRead

/-! Objects as a reader of JSON finds them that decodes their names and leaves the values as their texts. Of a string in
a value it asks no more than four digits behind each `\u`. -/
namespace QueryHive.Library.JsonText

/-- A member with the text of its value, and what that spells. -/
structure RawMember where
  key : List Char
  text : List Char
  value : Tree

def RawMember.taken (member : RawMember) : List Char × List Char := (member.key, member.text)

inductive RawMembers : List RawMember → List Char → Prop
  | last (lead : Blank before) (chars : Chars true key body) (gap : Blank beforeColon) (gap' : Blank afterColon)
      (value : Spells false (.value tree) text) (trail : Blank after) :
      RawMembers [⟨key, text, tree⟩]
        (before ++ '"' :: (body ++ '"' :: (beforeColon ++ ':' :: (afterColon ++ (text ++ after)))))
  | next (lead : Blank before) (chars : Chars true key body) (gap : Blank beforeColon) (gap' : Blank afterColon)
      (value : Spells false (.value tree) text) (trail : Blank after) (more : RawMembers members rest) :
      RawMembers (⟨key, text, tree⟩ :: members)
        (before ++ '"' :: (body ++ '"' :: (beforeColon ++ ':' :: (afterColon ++ (text ++ (after ++ ',' :: rest))))))

inductive RawObject : List RawMember → List Char → Prop
  | empty (blank : Blank gap) : RawObject [] ('{' :: (gap ++ ['}']))
  | filled (inner : RawMembers members body) : RawObject members ('{' :: (body ++ ['}']))

/-- One object with blanks around it. -/
def IsRawObject (members : List RawMember) (text : List Char) : Prop :=
  ∃ before body after, text = before ++ (body ++ after) ∧ Blank before ∧ RawObject members body ∧ Blank after

/-- How deep the values of members are. -/
def rawDepth : List RawMember → Nat
  | [] => 0
  | member :: rest => max member.value.depth (rawDepth rest)

theorem RawMembers.spells (raw : RawMembers members text) :
    ∃ members', membersDepth members' = rawDepth members ∧ Spells false (.members members') text := by
  induction raw with
  | last lead chars gap gap' value trail =>
    obtain ⟨key', loose⟩ := chars.loose
    exact ⟨_, rfl, .lastMember lead loose gap gap' value trail⟩
  | next lead chars gap gap' value trail _ ih =>
    obtain ⟨key', loose⟩ := chars.loose
    obtain ⟨members', deep, spells⟩ := ih
    exact ⟨_, by rw [membersDepth, deep]; rfl, .nextMember lead loose gap gap' value trail spells⟩

theorem RawObject.spells (raw : RawObject members text) :
    ∃ members', membersDepth members' = rawDepth members ∧ Spells false (.value (.object members')) text := by
  cases raw with
  | empty blank => exact ⟨[], rfl, .emptyObject blank⟩
  | filled inner =>
    obtain ⟨members', deep, spells⟩ := inner.spells
    exact ⟨members', deep, .object spells⟩

/-- The member has this name, and its text is a strict text of this value. -/
def RawMember.Bears (raw : RawMember) (member : List Char × Tree) : Prop :=
  raw.key = member.1 ∧ Spells true (.value member.2) raw.text ∧ raw.value.depth = member.2.depth

theorem raw_of_members (spells : Spells true (.members members) text) :
    ∃ raws, RawMembers raws text ∧ List.Forall₂ RawMember.Bears raws members := by
  induction members generalizing text with
  | nil => cases spells
  | cons member members ih =>
    cases spells with
    | @lastMember _ _ _ _ _ _ text after lead chars gap gap' value trail =>
      obtain ⟨tree, deep, loose⟩ := loosened value
      exact ⟨[⟨_, text, tree⟩], .last lead chars gap gap' loose trail, .cons ⟨rfl, value, deep⟩ .nil⟩
    | @nextMember _ _ _ _ _ _ text _ _ _ lead chars gap gap' value trail inner =>
      obtain ⟨tree, deep, loose⟩ := loosened value
      obtain ⟨raws, raw, bear⟩ := ih inner
      exact ⟨⟨_, text, tree⟩ :: raws, .next lead chars gap gap' loose trail raw, .cons ⟨rfl, value, deep⟩ bear⟩

theorem raw_of_object (spells : Spells true (.value (.object members)) text) :
    ∃ raws, RawObject raws text ∧ List.Forall₂ RawMember.Bears raws members := by
  cases spells with
  | emptyObject blank => exact ⟨[], .empty blank, .nil⟩
  | object inner =>
    obtain ⟨raws, raw, bear⟩ := raw_of_members inner
    exact ⟨raws, .filled raw, bear⟩

theorem rawDepth_bears (bear : List.Forall₂ RawMember.Bears raws members) : rawDepth raws = membersDepth members := by
  induction bear with
  | nil => rfl
  | cons first _ ih => rw [rawDepth, membersDepth, ih, first.2.2]

/-- The text of a value that stands behind blanks and in front of the rest. -/
def textOf (text behind : List Char) : List Char :=
  let value := text.dropWhile isBlank
  value.take (value.length - behind.length)

def readMember (fuel : Nat) (text : List Char) : Option ((List Char × List Char) × List Char) := do
  let opened ← expect '"' text
  let (key, named) ← readChars true (opened.length + 1) opened
  let start ← expect ':' named
  let (_, behind) ← readValue false fuel start
  return ((key, textOf start behind), behind)

/-- The members up to the closing brace. -/
def readTexts : Nat → List Char → Option (List (List Char × List Char) × List Char)
  | 0, _ => none
  | fuel + 1, text => do
    let (member, behind) ← readMember fuel text
    match expect ',' behind with
    | some rest => (readTexts fuel rest).map fun (members, after) => (member :: members, after)
    | none => (expect '}' behind).map fun after => ([member], after)

/-- What stands behind an opening brace. -/
def readBraced (text : List Char) : Option (List (List Char × List Char) × List Char) :=
  match expect '}' text with
  | some after => some ([], after)
  | none => readTexts (2 * text.length + 1) text

def memberTexts (text : List Char) : Option (List (List Char × List Char)) := do
  let (members, after) ← readBraced (← expect '{' text)
  if after.all isBlank then some members else none

theorem textOf_value (blank : Blank gap) (spells : Spells strict (.value tree) text) (behind : List Char) :
    textOf (gap ++ (text ++ behind)) behind = text := by
  obtain ⟨c, rest, rfl, bare⟩ := spells_head spells
  have skipped : (gap ++ (c :: rest ++ behind)).dropWhile isBlank = c :: rest ++ behind := by
    refine dropWhile_blank blank fun first head => ?_
    obtain rfl := Option.some.inj head
    exact not_blank_of_parts bare
  simp only [textOf, skipped, List.length_append, Nat.add_sub_cancel, List.take_left]

theorem readMember_spelled (lead : Blank before) (chars : Chars true key body) (gap : Blank beforeColon)
    (gap' : Blank afterColon) (value : Spells false (.value tree) text) (parted : Parted rest)
    (enough : 2 * text.length ≤ fuel) :
    readMember fuel (before ++ '"' :: (body ++ '"' :: (beforeColon ++ ':' :: (afterColon ++ (text ++ rest))))) =
      some ((key, text), rest) := by
  have read := read_of_spells value afterColon rest fuel gap' parted enough
  simp only [readMember, Option.bind_eq_bind, expect_part lead (by decide : isBlank '"' = false), Option.bind_some,
    readChars_string chars, expect_part gap (by decide : isBlank ':' = false), read, textOf_value gap' value]
  rfl

theorem readTexts_raw (raw : RawMembers members body) (rest : List Char) (enough : 2 * body.length + 1 ≤ fuel) :
    readTexts fuel (body ++ '}' :: rest) = some (members.map RawMember.taken, rest) := by
  obtain ⟨fuel, rfl⟩ := Nat.exists_eq_add_of_le' (by omega : 1 ≤ fuel)
  induction raw generalizing fuel with
  | @last _ _ _ _ _ _ text after lead chars gap gap' value trail =>
    simp only [List.length_append, List.length_cons] at enough
    have read := readMember_spelled lead chars gap gap' value
      (parted_blank trail (by decide) : Parted (after ++ '}' :: rest))
      (by omega : 2 * text.length ≤ fuel)
    have open_ : expect ',' (after ++ '}' :: rest) = none := expect_other trail (by decide) (by decide) _
    have closed : expect '}' (after ++ '}' :: rest) = some rest := expect_part trail (by decide) _
    simp only [List.append_assoc, List.cons_append, readTexts, read, open_, closed, Option.bind_eq_bind,
      Option.bind_some]
    rfl
  | @next _ _ _ _ _ _ text after _ more lead chars gap gap' value trail _ ih =>
    simp only [List.length_append, List.length_cons] at enough
    have read := readMember_spelled lead chars gap gap' value
      (parted_blank trail (by decide) : Parted (after ++ ',' :: (more ++ '}' :: rest)))
      (by omega : 2 * text.length ≤ fuel)
    have separated : expect ',' (after ++ ',' :: (more ++ '}' :: rest)) = some (more ++ '}' :: rest) :=
      expect_part trail (by decide) _
    obtain ⟨fuel, rfl⟩ := Nat.exists_eq_add_of_le' (by omega : 1 ≤ fuel)
    simp only [List.append_assoc, List.cons_append]
    rw [readTexts, read]
    simp only [Option.bind_eq_bind, Option.bind_some, separated, ih fuel (by omega)]
    rfl

theorem raw_of_readTexts (read : readTexts fuel text = some (pairs, rest)) :
    ∃ members body, text = body ++ '}' :: rest ∧ RawMembers members body ∧ pairs = members.map RawMember.taken := by
  induction fuel generalizing text pairs with
  | zero => cases read
  | succ fuel ih =>
    simp only [readTexts, readMember, Option.bind_eq_bind, Option.bind_eq_some_iff] at read
    obtain ⟨⟨member, behind⟩, ⟨opened, quoted, ⟨key, named⟩, string, start, coloned, ⟨tree, left⟩, valued,
      same⟩, read⟩ := read
    cases same
    obtain ⟨before, rfl, lead⟩ := split_of_expect quoted
    obtain ⟨name, rfl, chars⟩ := chars_of_readChars string
    obtain ⟨gap, rfl, blank⟩ := split_of_expect coloned
    obtain ⟨gap', value, rfl, blank', spells⟩ := (spelled_of_read fuel).value valued
    rw [textOf_value blank' spells] at read
    split at read
    · next more separated =>
      obtain ⟨⟨others, after⟩, inner, same⟩ := Option.map_eq_some_iff.mp read
      cases same
      obtain ⟨gap'', rfl, trail⟩ := split_of_expect separated
      obtain ⟨members, body, rfl, raw, rfl⟩ := ih inner
      exact ⟨_, _, by simp, .next lead chars blank blank' spells trail raw, rfl⟩
    · obtain ⟨after, closed, same⟩ := Option.map_eq_some_iff.mp read
      cases same
      obtain ⟨gap'', rfl, trail⟩ := split_of_expect closed
      exact ⟨_, _, by simp, .last lead chars blank blank' spells trail, rfl⟩

/-- The members of an object are found, and of nothing else any. -/
theorem memberTexts_iff : memberTexts text = some pairs ↔
    ∃ members, IsRawObject members text ∧ pairs = members.map RawMember.taken := by
  constructor
  · intro found
    simp only [memberTexts, Option.bind_eq_bind, Option.bind_eq_some_iff] at found
    obtain ⟨inner, braced, ⟨members, after⟩, read, found⟩ := found
    obtain ⟨before, rfl, lead⟩ := split_of_expect braced
    split at found
    · next blank =>
      cases found
      have trail : Blank after := List.all_eq_true.mp blank
      rw [readBraced] at read
      split at read
      · next closed =>
        cases read
        obtain ⟨gap, rfl, empty⟩ := split_of_expect closed
        exact ⟨[], ⟨before, '{' :: (gap ++ ['}']), after, by simp, lead, .empty empty, trail⟩, rfl⟩
      · obtain ⟨raws, body, rfl, raw, rfl⟩ := raw_of_readTexts read
        exact ⟨raws, ⟨before, '{' :: (body ++ ['}']), after, by simp, lead, .filled raw, trail⟩, rfl⟩
    · cases found
  · rintro ⟨members, ⟨before, object, after, rfl, lead, raw, trail⟩, rfl⟩
    have opened : ∀ inner, expect '{' (before ++ ('{' :: (inner ++ ['}']) ++ after)) =
      some (inner ++ '}' :: after) := by
      intro inner
      rw [List.cons_append, expect_part lead (by decide), List.append_assoc, List.singleton_append]
    cases raw with
    | empty blank =>
      simp only [memberTexts, readBraced, opened, Option.bind_eq_bind, Option.bind_some,
        expect_part blank (by decide : isBlank '}' = false)]
      exact if_pos (List.all_eq_true.mpr trail)
    | @filled _ body inner =>
      have unclosed : expect '}' (body ++ '}' :: after) = none := by
        obtain ⟨gap, rest, rfl, blank⟩ : ∃ gap rest, body = gap ++ '"' :: rest ∧ Blank gap := by
          cases inner with
          | last lead => exact ⟨_, _, rfl, lead⟩
          | next lead => exact ⟨_, _, rfl, lead⟩
        rw [List.append_assoc, List.cons_append]
        exact expect_other blank (by decide) (by decide) _
      have read := readTexts_raw inner after (by simp only [List.length_append]; omega :
        2 * body.length + 1 ≤ 2 * (body ++ '}' :: after).length + 1)
      simp only [memberTexts, readBraced, opened, Option.bind_eq_bind, Option.bind_some, unclosed, read]
      exact if_pos (List.all_eq_true.mpr trail)

end QueryHive.Library.JsonText
