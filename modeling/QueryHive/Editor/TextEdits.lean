import QueryHive.Editor.TextBuffer

/-! The indexes of a text against counting from its start: what `byte_of` and `utf16_of` answer, and
that every edit keeps them. A checkpoint is honest when it stands at a character and counts the
units before it; where the checkpoints stand does not matter otherwise. -/
namespace QueryHive.Editor.TextIndex
open Library Library.Runs Library.Text Library.Weights

theorem asU32_eq {n : Int} {m : Nat} (same : n = m) (small : m < 2 ^ 32) : asU32 n = m := by
  rw [asU32, same]
  omega

theorem lenUtf16_pos (c : Char) : 0 < lenUtf16 c := by
  unfold lenUtf16
  split <;> decide

theorem lenUtf16_le (c : Char) : lenUtf16 c ≤ c.utf8Size := by
  have positive := c.utf8Size_pos
  unfold lenUtf16
  split
  · next wide =>
    have past : ∀ n : UInt32, n.toNat < 0x10000 → ¬c.val ≤ n := fun n low below => by
      have := UInt32.le_iff_toNat_le.mp below
      exact absurd (Nat.le_trans wide this) (by omega)
    unfold Char.utf8Size
    rw [if_neg (past _ (by decide)), if_neg (past _ (by decide)), if_neg (past _ (by decide))]
    decide
  · exact positive

theorem utf8Len_cons (c : Char) (text : List Char) : utf8Len (c :: text) = c.utf8Size + utf8Len text :=
  total_cons Char.utf8Size c text

theorem utf8Len_append (front rest : List Char) : utf8Len (front ++ rest) = utf8Len front + utf8Len rest :=
  total_append Char.utf8Size front rest

theorem utf16Len_append (front rest : List Char) : utf16Len (front ++ rest) = utf16Len front + utf16Len rest :=
  total_append lenUtf16 front rest

theorem utf16Len_le (text : List Char) : utf16Len text ≤ utf8Len text := total_le_total lenUtf16_le text

/-- A byte and the units before it, where a character of the text starts or the text ends. -/
def At (text : List Char) (mark : Nat × Nat) : Prop :=
  ∃ front rest, text = front ++ rest ∧ mark = (utf8Len front, utf16Len front)

/-- The bytes behind the line feeds of a text. -/
def lineEnds : (place : Nat) → List Char → List Nat
  | _, [] => []
  | place, c :: rest =>
    if c = '\n' then (place + 1) :: lineEnds (place + c.utf8Size) rest else lineEnds (place + c.utf8Size) rest

def lineStarts (text : List Char) : List Nat := 0 :: lineEnds 0 text

theorem lineEnds_append (place : Nat) (front rest : List Char) :
    lineEnds place (front ++ rest) = lineEnds place front ++ lineEnds (place + utf8Len front) rest := by
  induction front generalizing place with
  | nil => rfl
  | cons c front ih =>
    rw [List.cons_append, lineEnds, lineEnds, ih, utf8Len_cons, Nat.add_assoc]
    split <;> rfl

/-- A line starts behind each line feed, and nowhere else. -/
theorem mem_lineEnds {text : List Char} :
    n ∈ lineEnds place text ↔ ∃ front rest, text = front ++ '\n' :: rest ∧ n = place + utf8Len front + 1 := by
  induction text generalizing place with
  | nil => simp [lineEnds]
  | cons c text ih =>
    have later : n ∈ lineEnds (place + c.utf8Size) text ↔
        ∃ front rest, text = front ++ '\n' :: rest ∧ n = place + utf8Len (c :: front) + 1 := by
      rw [ih]
      simp only [utf8Len_cons, Nat.add_assoc]
    have split : (∃ front rest, c :: text = front ++ '\n' :: rest ∧ n = place + utf8Len front + 1) ↔
        (c = '\n' ∧ n = place + 1) ∨ ∃ front rest, text = front ++ '\n' :: rest ∧
        n = place + utf8Len (c :: front) + 1 := by
      constructor
      · rintro ⟨front, rest, same, at_⟩
        cases front with
        | nil => exact .inl ⟨(List.cons.inj same).1, at_⟩
        | cons d front =>
          obtain ⟨rfl, later⟩ := List.cons.inj same
          exact .inr ⟨front, rest, later, at_⟩
      · rintro (⟨rfl, here⟩ | ⟨front, rest, rfl, at_⟩)
        · exact ⟨[], text, rfl, here⟩
        · exact ⟨c :: front, rest, rfl, at_⟩
    rw [split, lineEnds]
    split
    · next feed => rw [List.mem_cons, later, and_iff_right feed]
    · next other => rw [later, or_iff_right fun both => other both.1]

theorem lineEnds_bounds (inside : n ∈ lineEnds place text) : place < n ∧ n ≤ place + utf8Len text := by
  obtain ⟨front, rest, rfl, rfl⟩ := mem_lineEnds.mp inside
  have feed : Char.utf8Size '\n' = 1 := rfl
  rw [utf8Len_append, utf8Len_cons, feed]
  omega

theorem lineEnds_ascending (place : Nat) (text : List Char) : (lineEnds place text).Pairwise (· < ·) := by
  induction text generalizing place with
  | nil => exact List.Pairwise.nil
  | cons c text ih =>
    rw [lineEnds]
    split
    · next feed =>
      refine List.pairwise_cons.mpr ⟨fun n inside => ?_, ih _⟩
      have past := (lineEnds_bounds inside).1
      rw [feed] at past
      exact past
    · exact ih _

theorem cutLines_eq (small : place + utf8Len text < 2 ^ 32) : cutLines place text = lineEnds place text := by
  induction text generalizing place with
  | nil => rfl
  | cons c text ih =>
    rw [utf8Len_cons, ← Nat.add_assoc] at small
    have positive := c.utf8Size_pos
    have byte : asU32 place = place := asU32_eq rfl (by omega)
    have next : asU32 (place + 1 : Int) = place + 1 := asU32_eq rfl (by omega)
    rw [cutLines, lineEnds, ih small, byte]
    simp only [next]

theorem lineEnds_moved {delta : Int} {place : Nat} (next : Nat) (moved : place + delta = next)
    (small : next + utf8Len text < 2 ^ 32) :
    ((lineEnds place text).map fun start : Nat => asU32 (start + delta)) = lineEnds next text := by
  induction text generalizing place next with
  | nil => rfl
  | cons c text ih =>
    rw [utf8Len_cons, ← Nat.add_assoc] at small
    have positive := c.utf8Size_pos
    have rest := @ih (place + c.utf8Size) (next + c.utf8Size) (by omega) small
    have here : asU32 ((place + 1 : Nat) + delta) = next + 1 := asU32_eq (by omega) (by omega)
    rw [lineEnds, lineEnds]
    split
    · rw [List.map_cons, rest, here]
    · exact rest

theorem feeds_of_char (c : Char) (place : Nat) :
    ((String.utf8EncodeChar c).zipIdx place).filter (·.1 = 0x0A) = if c = '\n' then [(0x0A, place)] else [] := by
  split
  · next feed => rw [feed]; rfl
  · next other =>
    refine List.filter_eq_nil_iff.mpr fun entry inside same => other ?_
    have byte := List.fst_mem_of_mem_zipIdx inside
    rw [of_decide_eq_true same] at byte
    exact (ascii_mem_utf8EncodeChar (by decide)).mp byte

theorem bornLines_eq (small : first + utf8Len new < 2 ^ 32) : TextBuffer.bornLines first new = lineEnds first new := by
  suffices each : ∀ place, first + place + utf8Len new < 2 ^ 32 →
      (((encodeUtf8 new).zipIdx place).filter (·.1 = 0x0A)).map (fun entry => asU32 (first + entry.2 + 1)) =
        lineEnds (first + place) new by
    exact each 0 small
  clear small
  intro place small
  induction new generalizing place with
  | nil => rfl
  | cons c new ih =>
    rw [utf8Len_cons, ← Nat.add_assoc] at small
    have positive := c.utf8Size_pos
    have rest := ih (place + c.utf8Size) (by omega)
    rw [← Nat.add_assoc] at rest
    have here : asU32 (first + place + 1 : Int) = first + place + 1 := asU32_eq (by omega) (by omega)
    have bytes : encodeUtf8 (c :: new) = String.utf8EncodeChar c ++ encodeUtf8 new := rfl
    rw [bytes, List.zipIdx_append, List.filter_append, List.map_append, feeds_of_char, String.length_utf8EncodeChar,
      rest, lineEnds]
    split
    · rw [List.map_cons, here]
      rfl
    · rfl

structure Indexed (buffer : TextBuffer) : Prop where
  small : utf8Len buffer.text ≤ maxBytes
  start : ∃ rest, buffer.marks = (0, 0) :: rest
  honest : ∀ mark ∈ buffer.marks, At buffer.text mark
  ascending : buffer.marks.Pairwise (·.1 ≤ ·.1)
  lines : buffer.lines = lineStarts buffer.text
  len16 : buffer.len16 = utf16Len buffer.text

theorem maxBytes_eq : maxBytes = 2147483647 := rfl

theorem last_mark (indexed : Indexed buffer) (before : Nat × Nat → Bool) (first : before (0, 0) = true) :
    ∃ front rest, buffer.text = front ++ rest ∧ before (utf8Len front, utf16Len front) = true ∧
      (buffer.marks.takeWhile before).getLast? = some (utf8Len front, utf16Len front) := by
  obtain ⟨later, whole⟩ := indexed.start
  have nonempty : buffer.marks.takeWhile before ≠ [] := by
    rw [whole, List.takeWhile_cons_of_pos first]
    exact List.cons_ne_nil _ _
  have last := List.getLast?_eq_getLast_of_ne_nil nonempty
  have member := List.getLast_mem nonempty
  obtain ⟨front, rest, split, same⟩ := indexed.honest _ ((List.takeWhile_prefix before).subset member)
  have taken := List.mem_takeWhile_imp member
  rw [same] at last taken
  exact ⟨front, rest, split, taken, last⟩

theorem walkUnits_reaches (front rest before : List Char) (small : utf16Len (before ++ front) < 2 ^ 32) :
    walkUnits (utf16Len (before ++ front)) (front ++ rest) (utf8Len before) (utf16Len before) =
      .ok (utf8Len (before ++ front)) := by
  induction front generalizing before with
  | nil =>
    rw [List.append_nil]
    cases rest with
    | nil => rfl
    | cons c rest => exact if_pos rfl
  | cons c front ih =>
    have whole : before ++ c :: front = before ++ [c] ++ front := List.append_cons ..
    have later := ih (before ++ [c]) (whole ▸ small)
    have units : utf16Len (before ++ [c]) = utf16Len before + lenUtf16 c := utf16Len_append before [c]
    have bytes : utf8Len (before ++ [c]) = utf8Len before + c.utf8Size := utf8Len_append before [c]
    have grows : utf16Len (before ++ c :: front) = utf16Len before + lenUtf16 c + utf16Len front := by
      rw [whole, utf16Len_append, units]
    have positive := lenUtf16_pos c
    have next : asU32 (utf16Len before + lenUtf16 c : Int) = utf16Len before + lenUtf16 c := asU32_eq rfl (by omega)
    rw [units, bytes, ← whole] at later
    rw [List.cons_append, walkUnits, if_neg (by omega), if_neg (by rw [next]; omega), next, later]

theorem walkUnits_splits (front : List Char) (c : Char) (rest before : List Char)
    (low : utf16Len (before ++ front) < target) (high : target < utf16Len (before ++ front) + lenUtf16 c)
    (small : utf16Len (before ++ front) + lenUtf16 c < 2 ^ 32) :
    walkUnits target (front ++ c :: rest) (utf8Len before) (utf16Len before) = .error (.refused .splitsCharacter) := by
  induction front generalizing before with
  | nil =>
    rw [List.append_nil] at low high small
    have next : asU32 (utf16Len before + lenUtf16 c : Int) = utf16Len before + lenUtf16 c := asU32_eq rfl small
    rw [List.nil_append, walkUnits, if_neg (by omega), if_pos (by rw [next]; exact high)]
  | cons d front ih =>
    have whole : before ++ d :: front = before ++ [d] ++ front := List.append_cons ..
    have units : utf16Len (before ++ [d]) = utf16Len before + lenUtf16 d := utf16Len_append before [d]
    have bytes : utf8Len (before ++ [d]) = utf8Len before + d.utf8Size := utf8Len_append before [d]
    have grows : utf16Len (before ++ d :: front) = utf16Len before + lenUtf16 d + utf16Len front := by
      rw [whole, utf16Len_append, units]
    have later := ih (before ++ [d]) (whole ▸ low) (whole ▸ high) (whole ▸ small)
    have positive := lenUtf16_pos d
    have next : asU32 (utf16Len before + lenUtf16 d : Int) = utf16Len before + lenUtf16 d := asU32_eq rfl (by omega)
    rw [units, bytes] at later
    rw [List.cons_append, walkUnits, if_neg (by omega), if_neg (by rw [next]; omega), next, later]

section
variable (indexed : Indexed buffer)
include indexed

theorem units_small : utf16Len buffer.text ≤ 2147483647 :=
  Nat.le_trans (utf16Len_le _) (maxBytes_eq ▸ indexed.small)

theorem byteOf_boundary (split : buffer.text = front ++ rest) :
    buffer.byteOf (utf16Len front) = .ok (utf8Len front) := by
  have small := units_small indexed
  have inside : utf16Len front ≤ buffer.len16 := by
    rw [indexed.len16, split, utf16Len_append]
    exact Nat.le_add_right _ _
  obtain ⟨known, behind, cut, low, last⟩ := last_mark indexed (fun mark => mark.2 ≤ utf16Len front)
    (decide_eq_true (Nat.zero_le _))
  obtain ⟨middle, rfl, rfl⟩ := cut_before lenUtf16_pos (cut.symm.trans split) (of_decide_eq_true low)
  rw [indexed.len16] at inside
  rw [TextBuffer.byteOf, if_neg (by rw [indexed.len16]; omega), last]
  simp only [cut, dropTo_total Char.utf8Size_pos]
  exact walkUnits_reaches middle rest known (by omega)

theorem byteOf_inside (split : buffer.text = front ++ c :: rest) (low : utf16Len front < target)
    (high : target < utf16Len front + lenUtf16 c) : buffer.byteOf target = .error (.refused .splitsCharacter) := by
  have small := units_small indexed
  have whole : utf16Len buffer.text = utf16Len front + (lenUtf16 c + utf16Len rest) := by
    rw [split, utf16Len_append]
    exact congrArg (utf16Len front + ·) (total_cons lenUtf16 c rest)
  obtain ⟨known, behind, cut, before, last⟩ := last_mark indexed (fun mark => mark.2 ≤ target)
    (decide_eq_true (Nat.zero_le _))
  have start : utf16Len known ≤ utf16Len front := by
    by_contra past
    obtain ⟨middle, rfl, there⟩ := cut_before lenUtf16_pos (split.symm.trans cut) (Nat.le_of_lt (Nat.not_le.mp past))
    cases middle with
    | nil => exact past (by rw [List.append_nil])
    | cons d middle =>
      obtain ⟨rfl, -⟩ := List.cons.inj there
      have bound : utf16Len (front ++ c :: middle) ≤ target := of_decide_eq_true before
      have more : utf16Len (front ++ c :: middle) = utf16Len front + (lenUtf16 c + utf16Len middle) := by
        rw [utf16Len_append]
        exact congrArg (utf16Len front + ·) (total_cons lenUtf16 c middle)
      omega
  obtain ⟨middle, rfl, rfl⟩ := cut_before lenUtf16_pos (cut.symm.trans split) start
  rw [TextBuffer.byteOf, if_neg (by rw [indexed.len16]; omega), last]
  simp only [cut, dropTo_total Char.utf8Size_pos]
  exact walkUnits_splits middle c rest known low high (by omega)

theorem byteOf_past (past : utf16Len buffer.text < target) : buffer.byteOf target = .error (.refused .outOfBounds) := by
  rw [TextBuffer.byteOf, if_pos (by rw [indexed.len16]; exact past)]

theorem byteOf_cases (target : Nat) :
    (∃ front rest, buffer.text = front ++ rest ∧ utf16Len front = target ∧ buffer.byteOf target = .ok (utf8Len front)) ∨
      ∃ error, buffer.byteOf target = .error (.refused error) := by
  rcases Nat.lt_or_ge (utf16Len buffer.text) target with past | inside
  · exact .inr ⟨_, byteOf_past indexed past⟩
  rcases cut_cases buffer.text inside with ⟨front, rest, split, rfl⟩ | ⟨front, c, rest, split, low, high⟩
  · exact .inl ⟨front, rest, split, rfl, byteOf_boundary indexed split⟩
  · exact .inr ⟨_, byteOf_inside indexed split low high⟩

theorem utf16Of_boundary (split : buffer.text = front ++ rest) :
    buffer.utf16Of (utf8Len front) = .ok (utf16Len front) := by
  have small := units_small indexed
  have bytes : utf8Len buffer.text = utf8Len front + utf8Len rest := by rw [split, utf8Len_append]
  have units : utf16Len buffer.text = utf16Len front + utf16Len rest := by rw [split, utf16Len_append]
  have floor : floorBoundary buffer.text (utf8Len front) = utf8Len front := by
    have there : (dropTo Char.utf8Size buffer.text (utf8Len front)).isSome = true := by
      rw [split, dropTo_total Char.utf8Size_pos]
      rfl
    cases place : utf8Len front with
    | zero => rfl
    | succ n =>
      rw [place] at there
      rw [floorBoundary, if_pos there]
  obtain ⟨known, behind, cut, low, last⟩ := last_mark indexed (fun mark => mark.1 ≤ utf8Len front)
    (decide_eq_true (Nat.zero_le _))
  obtain ⟨middle, rfl, rfl⟩ := cut_before Char.utf8Size_pos (cut.symm.trans split) (of_decide_eq_true low)
  rw [TextBuffer.utf16Of, Nat.min_eq_left (by omega)]
  simp only [floor, last]
  simp only [cut, sliceTo_total Char.utf8Size_pos]
  rw [utf16Len_append] at units
  have part : asU32 (utf16Len middle : Nat) = utf16Len middle := asU32_eq rfl (by omega)
  rw [part, utf16Len_append]
  exact congrArg Except.ok (asU32_eq rfl (by omega))

end

/-- Checkpoints that are cut anew are honest, and stand one after another in their stretch. -/
theorem cutMarks_spec (before part after : List Char) (last : Nat)
    (small : utf8Len before + utf8Len part < 2 ^ 32) :
    (∀ mark ∈ cutMarks (utf8Len before) last (utf16Len before) part,
      At (before ++ part ++ after) mark ∧ utf8Len before ≤ mark.1 ∧ mark.1 ≤ utf8Len (before ++ part)) ∧
    (cutMarks (utf8Len before) last (utf16Len before) part).Pairwise (·.1 ≤ ·.1) := by
  induction part generalizing before last with
  | nil => exact ⟨nofun, List.Pairwise.nil⟩
  | cons c part ih =>
    rw [utf8Len_cons] at small
    have units : utf16Len (before ++ [c]) = utf16Len before + lenUtf16 c := utf16Len_append before [c]
    have bytes : utf8Len (before ++ [c]) = utf8Len before + c.utf8Size := utf8Len_append before [c]
    have less := utf16Len_le (before ++ [c])
    have next : asU32 (utf16Len before + lenUtf16 c : Int) = utf16Len (before ++ [c]) := asU32_eq (by omega) (by omega)
    have whole : before ++ [c] ++ part ++ after = before ++ c :: part ++ after := by
      rw [← List.append_cons before c part]
    have ends : utf8Len (before ++ [c] ++ part) = utf8Len (before ++ c :: part) := by
      rw [← List.append_cons before c part]
    have later (last : Nat) :
        (∀ mark ∈ cutMarks (utf8Len before + c.utf8Size) last (utf16Len (before ++ [c])) part,
          At (before ++ c :: part ++ after) mark ∧ utf8Len before ≤ mark.1 ∧ mark.1 ≤ utf8Len (before ++ c :: part)) ∧
        (cutMarks (utf8Len before + c.utf8Size) last (utf16Len (before ++ [c])) part).Pairwise (·.1 ≤ ·.1) := by
      obtain ⟨each, ascending⟩ := ih (before ++ [c]) last (by omega)
      rw [whole, ends, bytes] at each
      rw [bytes] at ascending
      refine ⟨fun mark inside => ?_, ascending⟩
      obtain ⟨honest, low, high⟩ := each mark inside
      exact ⟨honest, by omega, high⟩
    rw [cutMarks, next]
    split
    · have here : asU32 (utf8Len before : Nat) = utf8Len before := asU32_eq rfl (by omega)
      obtain ⟨each, ascending⟩ := later (utf8Len before)
      rw [here]
      constructor
      · intro mark inside
        rcases List.mem_cons.mp inside with rfl | inside
        · refine ⟨⟨before, c :: part ++ after, List.append_assoc .., rfl⟩, Nat.le_refl _, ?_⟩
          rw [utf8Len_append]
          exact Nat.le_add_right _ _
        · exact each mark inside
      · exact List.pairwise_cons.mpr ⟨fun mark inside => (each mark inside).2.1, ascending⟩
    · exact later last

theorem countUnits_eq (small : units + utf16Len text < 2 ^ 32) : countUnits units text = units + utf16Len text := by
  induction text generalizing units with
  | nil => rfl
  | cons c text ih =>
    have whole : utf16Len (c :: text) = lenUtf16 c + utf16Len text := total_cons lenUtf16 c text
    have next : asU32 (units + lenUtf16 c : Int) = units + lenUtf16 c := asU32_eq rfl (by omega)
    rw [countUnits, next, ih (by omega), whole, Nat.add_assoc]

theorem new_indexed (opened : TextBuffer.new text = .ok buffer) : Indexed buffer ∧ buffer.text = text := by
  unfold TextBuffer.new at opened
  split at opened
  · cases opened
  next fits =>
  cases opened
  have bytes := maxBytes_eq
  have less := utf16Len_le text
  obtain ⟨honest, ascending⟩ := cutMarks_spec [] text [] 0 (show 0 + utf8Len text < 2 ^ 32 by omega)
  rw [List.nil_append, List.append_nil] at honest
  refine ⟨⟨Nat.not_lt.mp fits, ⟨_, rfl⟩, ?_, ?_, ?_, ?_⟩, rfl⟩
  · exact List.forall_mem_cons.mpr ⟨⟨[], text, rfl, rfl⟩, fun mark inside => (honest mark inside).1⟩
  · exact List.pairwise_cons.mpr ⟨fun mark _ => Nat.zero_le _, ascending⟩
  · exact congrArg (0 :: ·) (cutLines_eq (by omega))
  · exact (countUnits_eq (by omega)).trans (Nat.zero_add _)

theorem not_below {list : List (Nat × Nat)} (ascending : list.Pairwise (·.1 ≤ ·.1)) (below : Nat → Bool)
    (down : ∀ low high, low ≤ high → below high = true → below low = true)
    (inside : mark ∈ list.dropWhile (below ·.1)) : below mark.1 = false := by
  induction list with
  | nil => cases inside
  | cons first list ih =>
    obtain ⟨least, ascending⟩ := List.pairwise_cons.mp ascending
    rw [List.dropWhile_cons] at inside
    split at inside
    · exact ih ascending inside
    · next stays =>
      rcases List.mem_cons.mp inside with rfl | later
      · exact Bool.eq_false_iff.mpr stays
      · exact Bool.eq_false_iff.mpr fun high => stays (down _ _ (least mark later) high)

theorem cut_where {front rest : List Nat} {keep : Nat → Bool} (kept : ∀ n ∈ front, keep n = true)
    (gone : ∀ n ∈ rest, keep n = false) :
    (front ++ rest).takeWhile keep = front ∧ (front ++ rest).dropWhile keep = rest := by
  have stops : rest.takeWhile keep = [] ∧ rest.dropWhile keep = rest := by
    cases rest with
    | nil => exact ⟨rfl, rfl⟩
    | cons n rest =>
      have other : ¬keep n = true := Bool.eq_false_iff.mp (gone n List.mem_cons_self)
      exact ⟨List.takeWhile_cons_of_neg other, List.dropWhile_cons_of_neg other⟩
  rw [List.takeWhile_append_of_pos kept, List.dropWhile_append_of_pos kept, stops.1, stops.2, List.append_nil]
  exact ⟨rfl, rfl⟩

/-- The checkpoints up to the edit. -/
def keptMarks (buffer : TextBuffer) (front : List Char) : List (Nat × Nat) :=
  buffer.marks.takeWhile (·.1 ≤ utf8Len front)

/-- Those behind the edit, before they are moved. -/
def behindMarks (buffer : TextBuffer) (front middle : List Char) : List (Nat × Nat) :=
  (buffer.marks.dropWhile (·.1 ≤ utf8Len front)).dropWhile (·.1 < utf8Len (front ++ middle))

/-- A checkpoint that `new` in the place of `middle` moves. -/
def moveMark (middle new : List Char) (mark : Nat × Nat) : Nat × Nat :=
  (asU32 (mark.1 + (utf8Len new - utf8Len middle : Int)), asU32 (mark.2 + (utf16Len new - utf16Len middle : Int)))

theorem moveMark_place (fits : utf8Len (front ++ new ++ s) ≤ maxBytes) :
    moveMark middle new (utf8Len (front ++ middle ++ s), utf16Len (front ++ middle ++ s)) =
      (utf8Len (front ++ new ++ s), utf16Len (front ++ new ++ s)) := by
  have limit := maxBytes_eq
  have less := utf16Len_le (front ++ new ++ s)
  simp only [utf8Len_append, utf16Len_append] at fits less ⊢
  exact Prod.ext (asU32_eq (by push_cast; omega) (by omega)) (asU32_eq (by push_cast; omega) (by omega))

section
variable (indexed : Indexed buffer) (split : buffer.text = front ++ middle ++ back)
  (fits : utf8Len (front ++ new ++ back) ≤ maxBytes)
include indexed split

theorem kept_at (inside : mark ∈ keptMarks buffer front) :
    mark.1 ≤ utf8Len front ∧ ∃ known r, front = known ++ r ∧ mark = (utf8Len known, utf16Len known) := by
  have taken := List.mem_takeWhile_imp inside
  have low : mark.1 ≤ utf8Len front := of_decide_eq_true taken
  obtain ⟨known, behind, cut, rfl⟩ := indexed.honest mark ((List.takeWhile_prefix _).subset inside)
  rw [List.append_assoc] at split
  obtain ⟨r, longer, -⟩ := cut_before Char.utf8Size_pos (cut.symm.trans split) low
  exact ⟨low, known, r, longer, rfl⟩

theorem behind_at (inside : mark ∈ behindMarks buffer front middle) :
    ∃ s t, back = s ++ t ∧ mark = (utf8Len (front ++ middle ++ s), utf16Len (front ++ middle ++ s)) := by
  have ascending := indexed.ascending.sublist (List.dropWhile_sublist fun mark => decide (mark.1 ≤ utf8Len front))
  have past : decide (mark.1 < utf8Len (front ++ middle)) = false :=
    not_below ascending (fun byte => decide (byte < utf8Len (front ++ middle)))
      (fun low high order less => decide_eq_true (Nat.lt_of_le_of_lt order (of_decide_eq_true less))) inside
  have member := ((List.dropWhile_sublist _).trans (List.dropWhile_sublist _)).subset inside
  obtain ⟨known, t, cut, rfl⟩ := indexed.honest mark member
  obtain ⟨s, rfl, rest⟩ := cut_before Char.utf8Size_pos (split.symm.trans cut) (Nat.not_lt.mp (of_decide_eq_false past))
  exact ⟨s, t, rest, rfl⟩

include fits

theorem moved_at (inside : mark ∈ behindMarks buffer front middle) :
    ∃ s t, back = s ++ t ∧ mark = (utf8Len (front ++ middle ++ s), utf16Len (front ++ middle ++ s)) ∧
      moveMark middle new mark = (utf8Len (front ++ new ++ s), utf16Len (front ++ new ++ s)) := by
  obtain ⟨s, t, rfl, rfl⟩ := behind_at indexed split inside
  refine ⟨s, t, rfl, rfl, moveMark_place (Nat.le_trans ?_ fits)⟩
  rw [← List.append_assoc _ s, utf8Len_append _ t]
  exact Nat.le_add_right _ _

theorem edited_lines :
    buffer.lines.takeWhile (· ≤ utf8Len front) ++ TextBuffer.bornLines (utf8Len front) new ++
      (buffer.lines.dropWhile (· ≤ utf8Len (front ++ middle))).map
        (fun start : Nat => asU32 (start + (utf8Len new - utf8Len middle : Int))) =
        lineStarts (front ++ new ++ back) := by
  have limit := maxBytes_eq
  have lines : buffer.lines = 0 :: lineEnds 0 front ++
      (lineEnds (utf8Len front) middle ++ lineEnds (utf8Len (front ++ middle)) back) := by
    rw [indexed.lines, split, lineStarts, lineEnds_append, lineEnds_append, Nat.zero_add, Nat.zero_add,
      List.append_assoc]
    rfl
  have own : ∀ n ∈ 0 :: lineEnds 0 front, decide (n ≤ utf8Len front) = true := by
    refine List.forall_mem_cons.mpr ⟨decide_eq_true (Nat.zero_le _), fun n inside => decide_eq_true ?_⟩
    have bounds := (lineEnds_bounds inside).2
    rwa [Nat.zero_add] at bounds
  have later : ∀ n ∈ lineEnds (utf8Len front) middle ++ lineEnds (utf8Len (front ++ middle)) back,
      decide (n ≤ utf8Len front) = false := by
    intro n inside
    rw [utf8Len_append] at inside
    refine decide_eq_false ?_
    rcases List.mem_append.mp inside with inside | inside
    all_goals
      have bounds := lineEnds_bounds inside
      omega
  have upTo : ∀ n ∈ 0 :: lineEnds 0 front ++ lineEnds (utf8Len front) middle,
    decide (n ≤ utf8Len (front ++ middle)) = true := by
    intro n inside
    rw [utf8Len_append]
    refine decide_eq_true ?_
    rcases List.mem_append.mp inside with inside | inside
    · have low : n ≤ utf8Len front := of_decide_eq_true (own n inside)
      omega
    · exact (lineEnds_bounds inside).2
  have behind : ∀ n ∈ lineEnds (utf8Len (front ++ middle)) back, decide (n ≤ utf8Len (front ++ middle)) = false :=
    fun n inside => decide_eq_false (Nat.not_le.mpr (lineEnds_bounds inside).1)
  have first := (cut_where own later).1
  have last := (cut_where upTo behind).2
  rw [List.append_assoc] at last
  simp only [utf8Len_append] at fits
  rw [lines, first, last, bornLines_eq (by omega),
    lineEnds_moved (utf8Len front + utf8Len new) (by rw [utf8Len_append]; push_cast; omega) (by omega),
    lineStarts, lineEnds_append, lineEnds_append, Nat.zero_add, Nat.zero_add, utf8Len_append]
  rfl

/-- The checkpoints that move keep their order, and the first of them, or the end of the text, is
where the stretch around the edit ends. -/
theorem moved_first :
    ((behindMarks buffer front middle).map (moveMark middle new)).Pairwise (·.1 ≤ ·.1) ∧
    ∃ s t, back = s ++ t ∧
      ((behindMarks buffer front middle).map (moveMark middle new)).head?.elim
      (utf8Len (front ++ new ++ back)) Prod.fst =
        utf8Len (front ++ new ++ s) ∧
      ∀ mark ∈ (behindMarks buffer front middle).map (moveMark middle new), utf8Len (front ++ new ++ s) ≤ mark.1 := by
  have ordered : ((behindMarks buffer front middle).map (moveMark middle new)).Pairwise (·.1 ≤ ·.1) := by
    refine List.pairwise_map.mpr ?_
    have ascending := (indexed.ascending.sublist (List.dropWhile_sublist fun mark =>
      decide (mark.1 ≤ utf8Len front))).sublist
      (List.dropWhile_sublist fun mark => decide (mark.1 < utf8Len (front ++ middle)))
    refine ascending.imp_of_mem fun {mark later} inside inside' order => ?_
    obtain ⟨s, -, -, place, moved⟩ := moved_at indexed split fits inside
    obtain ⟨s', -, -, place', moved'⟩ := moved_at indexed split fits inside'
    rw [moved, moved']
    rw [place, place'] at order
    simp only [utf8Len_append] at order ⊢
    omega
  refine ⟨ordered, ?_⟩
  cases first : behindMarks buffer front middle with
  | nil => exact ⟨back, [], (List.append_nil back).symm, rfl, nofun⟩
  | cons mark later =>
    rw [first, List.map_cons] at ordered
    obtain ⟨s, t, rest, -, moved⟩ := moved_at indexed split fits (first ▸ List.mem_cons_self : mark ∈ _)
    have place : (moveMark middle new mark).1 = utf8Len (front ++ new ++ s) := by rw [moved]
    refine ⟨s, t, rest, place, List.forall_mem_cons.mpr ⟨Nat.le_of_eq place.symm, fun mark inside => ?_⟩⟩
    rw [← place]
    exact (List.pairwise_cons.mp ordered).1 mark inside

omit fits in
/-- The last checkpoint that stays is where that stretch begins. -/
theorem kept_last :
    ∃ known r, front = known ++ r ∧ (keptMarks buffer front).getLast? = some (utf8Len known, utf16Len known) ∧
      ∀ mark ∈ keptMarks buffer front, mark.1 ≤ utf8Len known := by
  obtain ⟨known, behind, cut, low, last⟩ := last_mark indexed (fun mark => mark.1 ≤ utf8Len front)
    (decide_eq_true (Nat.zero_le _))
  rw [List.append_assoc] at split
  obtain ⟨r, longer, -⟩ := cut_before Char.utf8Size_pos (cut.symm.trans split) (of_decide_eq_true low)
  refine ⟨known, r, longer, last, fun mark inside => ?_⟩
  have ascending := indexed.ascending.sublist (List.takeWhile_sublist fun mark => decide (mark.1 ≤ utf8Len front))
  obtain ⟨before, whole⟩ := List.getLast?_eq_some_iff.mp last
  rw [keptMarks, whole] at inside
  rw [whole] at ascending
  rcases List.mem_append.mp inside with earlier | own
  · exact (List.pairwise_append.mp ascending).2.2 mark earlier _ List.mem_cons_self
  · rw [List.mem_singleton.mp own]

/-- The stretch around the edit is cut anew between two checkpoints that stand, and all of them are
honest and ascending again. -/
theorem edited_marks :
    ∃ low units region, (keptMarks buffer front).getLast? = some (low, units) ∧
      sliceTo Char.utf8Size (front ++ new ++ back) low
        (((behindMarks buffer front middle).map (moveMark middle new)).head?.elim
        (utf8Len (front ++ new ++ back)) Prod.fst) =
          some region ∧
      ∀ marks, marks = keptMarks buffer front ++ cutMarks low low units region ++
          (behindMarks buffer front middle).map (moveMark middle new) →
        (∃ rest, marks = (0, 0) :: rest) ∧ (∀ mark ∈ marks, At (front ++ new ++ back) mark) ∧
          marks.Pairwise (·.1 ≤ ·.1) := by
  have limit := maxBytes_eq
  obtain ⟨known, r, longer, last, lowest⟩ := kept_last indexed split
  obtain ⟨ordered, s, t, rest, high, above⟩ := moved_first indexed split fits
  have text : front ++ new ++ back = known ++ (r ++ new ++ s ++ t) := by
    rw [longer, rest]
    simp only [List.append_assoc]
  have stretch : front ++ new ++ s = known ++ (r ++ new ++ s) := by
    rw [longer]
    simp only [List.append_assoc]
  have bytes : utf8Len (front ++ new ++ back) = utf8Len known + utf8Len (r ++ new ++ s) + utf8Len t := by
    rw [text, utf8Len_append, utf8Len_append, Nat.add_assoc]
  obtain ⟨fresh, cut⟩ := cutMarks_spec known (r ++ new ++ s) t (utf8Len known) (by omega)
  refine ⟨utf8Len known, utf16Len known, r ++ new ++ s, last, ?_, ?_⟩
  · rw [high, stretch, text]
    exact sliceTo_total Char.utf8Size_pos known (r ++ new ++ s) t
  rintro marks rfl
  refine ⟨?_, ?_, ?_⟩
  · obtain ⟨later, whole⟩ := indexed.start
    have stays : keptMarks buffer front = (0, 0) :: later.takeWhile (·.1 ≤ utf8Len front) := by
      rw [keptMarks, whole]
      exact List.takeWhile_cons_of_pos (decide_eq_true (Nat.zero_le _))
    rw [stays, List.append_assoc]
    exact ⟨_, List.cons_append⟩
  · intro mark inside
    rw [List.append_assoc] at inside
    rcases List.mem_append.mp inside with stays | inside
    · obtain ⟨-, before, gap, same, rfl⟩ := kept_at indexed split stays
      exact ⟨before, gap ++ new ++ back, by rw [same]; simp only [List.append_assoc], rfl⟩
    rcases List.mem_append.mp inside with cutAnew | moved
    · obtain ⟨honest, -⟩ := fresh mark cutAnew
      rwa [text, ← List.append_assoc]
    · obtain ⟨mark, member, rfl⟩ := List.mem_map.mp moved
      obtain ⟨s, t, same, -, place⟩ := moved_at indexed split fits member
      exact ⟨front ++ new ++ s, t, by rw [same]; simp only [List.append_assoc], place⟩
  · have stays := indexed.ascending.sublist (List.takeWhile_sublist fun mark => decide (mark.1 ≤ utf8Len front))
    refine List.pairwise_append.mpr ⟨List.pairwise_append.mpr ⟨stays, cut, ?_⟩, ordered, ?_⟩
    · exact fun mark inside later inside' => Nat.le_trans (lowest mark inside) (fresh later inside').2.1
    · intro mark inside later inside'
      refine Nat.le_trans ?_ (above later inside')
      rw [stretch]
      rcases List.mem_append.mp inside with stays | cutAnew
      · refine Nat.le_trans (lowest mark stays) ?_
        rw [utf8Len_append]
        exact Nat.le_add_right _ _
      · exact (fresh mark cutAnew).2.2

end

/-- An edit: the units `[start, start + len)` become `new`. -/
structure Edit where
  start : Nat
  len : Nat
  new : List Char
  deriving DecidableEq, Repr

/-- The replacement in a text without an index, counting units from its start. -/
def replaceUnits (text : List Char) (edit : Edit) : Option (List Char) :=
  (takeTo lenUtf16 text edit.start).bind fun front =>
    (dropTo lenUtf16 text (edit.start + edit.len)).map fun back => front ++ edit.new ++ back

/-- A call of `edit` that returns `Ok`. -/
def step (buffer : TextBuffer) (edit : Edit) : Option TextBuffer :=
  match TextBuffer.edit edit.start edit.len edit.new buffer with
  | .ok () next => some next
  | .error _ _ => none

section Run

variable (buffer : TextBuffer)

theorem get_run : (get : EStateM Stop TextBuffer TextBuffer) buffer = .ok buffer buffer := rfl

theorem throw_run (stop : Stop) : (throw stop : EStateM Stop TextBuffer α) buffer = .error stop buffer := rfl

theorem modify_run (change : TextBuffer → TextBuffer) :
    (modify change : EStateM Stop TextBuffer PUnit) buffer = .ok ⟨⟩ (change buffer) := rfl

end Run

theorem edit_ok (narrow : ¬2 ^ 32 ≤ start + len) (first : buffer.byteOf start = .ok low)
    (last : buffer.byteOf (start + len) = .ok high)
    (room : ¬maxBytes < utf8Len buffer.text - (high - low) + utf8Len new)
    (text : TextBuffer.replaceRange buffer.text low high new = some next)
    (begins : (buffer.marks.takeWhile (·.1 ≤ low)).getLast? = some (byte, units))
    (moved : (((buffer.marks.dropWhile (·.1 ≤ low)).dropWhile (·.1 < high)).map fun mark =>
      (asU32 (mark.1 + (utf8Len new - (high - low : Nat) : Int)),
      asU32 (mark.2 + (asU32 (utf16Len new) - len : Int)))) = shifted)
    (region : sliceTo Char.utf8Size next byte (shifted.head?.elim (utf8Len next) Prod.fst) = some part) :
    TextBuffer.edit start len new buffer =
      .ok ()
        { buffer with
          text := next
          marks := buffer.marks.takeWhile (·.1 ≤ low) ++ cutMarks byte byte units part ++ shifted
          lines := buffer.lines.takeWhile (· ≤ low) ++ TextBuffer.bornLines low new ++
            (buffer.lines.dropWhile (· ≤ high)).map fun start : Nat =>
            asU32 (start + (utf8Len new - (high - low : Nat) : Int))
          len16 := asU32 (buffer.len16 + (asU32 (utf16Len new) - len : Int)) } := by
  simp only [TextBuffer.edit, narrow, if_false, bind, EStateM.bind, pure, EStateM.pure, get_run, MonadExcept.ofExcept,
    first, last, room, modify_run, text, TextBuffer.orPanic, begins, moved, region]

theorem edit_refused
    (why : 2 ^ 32 ≤ start + len ∨ (∃ error, buffer.byteOf start = .error (.refused error)) ∨
      ∃ low, buffer.byteOf start = .ok low ∧ ((∃ error, buffer.byteOf (start + len) = .error (.refused error)) ∨
        ∃ high, buffer.byteOf (start + len) = .ok high ∧ maxBytes < utf8Len buffer.text - (high - low) + utf8Len new)) :
    ∃ error, TextBuffer.edit start len new buffer = .error (.refused error) buffer := by
  by_cases wide : 2 ^ 32 ≤ start + len
  · refine ⟨.outOfBounds, ?_⟩
    simp only [TextBuffer.edit, wide, if_true, bind, EStateM.bind, throw_run]
  rcases why with wide' | ⟨error, first⟩ | ⟨low, first, ⟨error, last⟩ | ⟨high, last, room⟩⟩
  · exact absurd wide' wide
  · refine ⟨error, ?_⟩
    simp only [TextBuffer.edit, wide, if_false, bind, EStateM.bind, pure, get_run, MonadExcept.ofExcept,
      first, throw_run]
  · refine ⟨error, ?_⟩
    simp only [TextBuffer.edit, wide, if_false, bind, EStateM.bind, pure, EStateM.pure, get_run, MonadExcept.ofExcept,
      first, last, throw_run]
  · refine ⟨.tooLarge, ?_⟩
    simp only [TextBuffer.edit, wide, if_false, bind, EStateM.bind, pure, EStateM.pure, get_run, MonadExcept.ofExcept,
      first, last, room, if_true, throw_run]

theorem replaceRange_cut (front middle back new : List Char) :
    TextBuffer.replaceRange (front ++ middle ++ back) (utf8Len front) (utf8Len (front ++ middle)) new =
      some (front ++ new ++ back) := by
  have order : utf8Len front ≤ utf8Len (front ++ middle) := by
    rw [utf8Len_append]
    exact Nat.le_add_right _ _
  have before : takeTo Char.utf8Size (front ++ middle ++ back) (utf8Len front) = some front := by
    rw [List.append_assoc]
    exact takeTo_total Char.utf8Size_pos front _
  have after := dropTo_total Char.utf8Size_pos (front ++ middle) back
  rw [TextBuffer.replaceRange, if_pos order, before, after]
  rfl

theorem replaceUnits_cut (front middle back new : List Char) :
    replaceUnits (front ++ middle ++ back) ⟨utf16Len front, utf16Len middle, new⟩ = some (front ++ new ++ back) := by
  have before : takeTo lenUtf16 (front ++ middle ++ back) (utf16Len front) = some front := by
    rw [List.append_assoc]
    exact takeTo_total lenUtf16_pos front _
  have after := dropTo_total lenUtf16_pos (front ++ middle) back
  rw [total_append] at after
  rw [replaceUnits, before, after]
  rfl

/-- The checkpoints that an edit leaves: those up to it, a stretch that is cut anew and those behind it. -/
def Recut (buffer : TextBuffer) (edit : Edit) (next : TextBuffer) : Prop :=
  ∃ front middle back low units region, buffer.text = front ++ middle ++ back ∧ edit.start = utf16Len front ∧
    edit.len = utf16Len middle ∧ next.text = front ++ edit.new ++ back ∧ utf8Len next.text ≤ maxBytes ∧
    (keptMarks buffer front).getLast? = some (low, units) ∧
    sliceTo Char.utf8Size next.text low
      (((behindMarks buffer front middle).map (moveMark middle edit.new)).head?.elim (utf8Len next.text) Prod.fst) =
        some region ∧
    next.marks = keptMarks buffer front ++ cutMarks low low units region ++
      (behindMarks buffer front middle).map (moveMark middle edit.new)

/-- An edit replaces its units and keeps the indexes, or is refused and changes nothing. -/
theorem edit_spec (indexed : Indexed buffer) (start len : Nat) (new : List Char) :
    (∃ next, TextBuffer.edit start len new buffer = .ok () next ∧ Indexed next ∧
      replaceUnits buffer.text ⟨start, len, new⟩ = some next.text ∧ Recut buffer ⟨start, len, new⟩ next) ∨
      ∃ error, TextBuffer.edit start len new buffer = .error (.refused error) buffer := by
  by_cases narrow : 2 ^ 32 ≤ start + len
  · exact .inr (edit_refused (.inl narrow))
  rcases byteOf_cases indexed start with ⟨front, behind, split, rfl, first⟩ | refused
  swap
  · exact .inr (edit_refused (.inr (.inl refused)))
  rcases byteOf_cases indexed (utf16Len front + len) with ⟨upTo, back, split', there, last⟩ | refused
  swap
  · exact .inr (edit_refused (.inr (.inr ⟨_, first, .inl refused⟩)))
  have order : utf16Len front ≤ utf16Len upTo := there.symm ▸ Nat.le_add_right _ _
  obtain ⟨middle, rfl, rfl⟩ := cut_before lenUtf16_pos (split.symm.trans split') order
  rw [utf16Len_append] at there
  obtain rfl := Nat.add_left_cancel there
  have bytes : utf8Len (front ++ middle) - utf8Len front = utf8Len middle := by
    rw [utf8Len_append, Nat.add_sub_cancel_left]
  have left : utf8Len buffer.text - utf8Len middle + utf8Len new = utf8Len (front ++ new ++ back) := by
    rw [split']
    simp only [utf8Len_append]
    omega
  by_cases room : maxBytes < utf8Len buffer.text - (utf8Len (front ++ middle) - utf8Len front) + utf8Len new
  · exact .inr (edit_refused (.inr (.inr ⟨_, first, .inr ⟨_, last, room⟩⟩)))
  have fits : utf8Len (front ++ new ++ back) ≤ maxBytes := by
    rw [bytes, left] at room
    exact Nat.not_lt.mp room
  have limit := maxBytes_eq
  have less := utf16Len_le (front ++ new ++ back)
  have units16 : asU32 (utf16Len new : Nat) = utf16Len new := by
    simp only [utf8Len_append, utf16Len_append] at fits less
    exact asU32_eq rfl (by omega)
  have moved : (behindMarks buffer front middle).map (fun mark =>
        (asU32 (mark.1 + (utf8Len new - (utf8Len (front ++ middle) - utf8Len front : Nat) : Int)),
          asU32 (mark.2 + (asU32 (utf16Len new) - utf16Len middle : Int)))) =
      (behindMarks buffer front middle).map (moveMark middle new) := by
    rw [bytes, units16]
    rfl
  obtain ⟨low, units, region, begins, cut, marks⟩ := edited_marks indexed split' fits
  obtain ⟨start, honest, ascending⟩ := marks _ rfl
  have replaced := replaceRange_cut front middle back new
  have counted := replaceUnits_cut front middle back new
  rw [← split'] at replaced counted
  refine .inl ⟨_, edit_ok narrow first last room replaced begins moved cut,
    ⟨fits, start, honest, ascending, ?_, ?_⟩, counted,
    front, middle, back, low, units, region, split', rfl, rfl, rfl, fits, begins, cut, rfl⟩
  · rw [bytes]
    exact edited_lines indexed split' fits
  · dsimp only
    rw [units16, indexed.len16, split']
    simp only [utf16Len_append] at less ⊢
    exact asU32_eq (by push_cast; omega) (by omega)

theorem step_indexed (indexed : Indexed buffer) (stepped : step buffer edit = some next) :
    Indexed next ∧ replaceUnits buffer.text edit = some next.text ∧ Recut buffer edit next := by
  rcases edit_spec indexed edit.start edit.len edit.new with ⟨after, done, spec⟩ | ⟨error, refused⟩
  · rw [step, done] at stepped
    cases stepped
    exact spec
  · rw [step, refused] at stepped
    cases stepped

/-- The indexes go with the text through any edits, and the text is what the replacements make of it. -/
theorem run_indexed (indexed : Indexed buffer) (ran : run step buffer edits = some last) :
    Indexed last ∧ run replaceUnits buffer.text edits = some last.text := by
  induction edits generalizing buffer with
  | nil =>
    cases ran
    exact ⟨indexed, rfl⟩
  | cons edit edits ih =>
    obtain ⟨next, stepped, later⟩ := run_cons_some ran
    obtain ⟨kept, counted, -⟩ := step_indexed indexed stepped
    obtain ⟨final, text⟩ := ih kept later
    exact ⟨final, by rw [run_cons, counted]; exact text⟩

/-- After any edits the text is the one the same replacements give, a line starts at its start and
behind each line feed, and bytes and UTF-16 units are converted as counting from the start would;
an edit that is refused leaves everything as it is. -/
theorem indexes_count (opened : TextBuffer.new text = .ok buffer) (ran : run step buffer edits = some last) :
    run replaceUnits text edits = some last.text ∧
    (last.lines.Pairwise (· < ·) ∧
      ∀ n, n ∈ last.lines ↔ n = 0 ∨ ∃ front rest, last.text = front ++ '\n' :: rest ∧ n = utf8Len front + 1) ∧
    last.len16 = utf16Len last.text ∧
    (∀ front rest, last.text = front ++ rest →
      last.utf16Of (utf8Len front) = .ok (utf16Len front) ∧ last.byteOf (utf16Len front) = .ok (utf8Len front)) ∧
    (∀ front c rest target, last.text = front ++ c :: rest → utf16Len front < target →
      target < utf16Len front + lenUtf16 c → last.byteOf target = .error (.refused .splitsCharacter)) ∧
    (∀ target, utf16Len last.text < target → last.byteOf target = .error (.refused .outOfBounds)) ∧
    ∀ start len new stop after, TextBuffer.edit start len new last = .error stop after →
      after = last ∧ ∃ error, stop = .refused error := by
  obtain ⟨begun, rfl⟩ := new_indexed opened
  obtain ⟨indexed, replaced⟩ := run_indexed begun ran
  refine ⟨replaced, ⟨?_, fun n => ?_⟩, indexed.len16, fun front rest split => ?_,
    fun front c rest target split low high => ?_,
    fun target past => byteOf_past indexed past, fun start len new stop after ended => ?_⟩
  · rw [indexed.lines]
    exact List.pairwise_cons.mpr ⟨fun n inside => (lineEnds_bounds inside).1, lineEnds_ascending 0 last.text⟩
  · rw [indexed.lines, lineStarts, List.mem_cons, mem_lineEnds]
    simp only [Nat.zero_add]
  · exact ⟨utf16Of_boundary indexed split, byteOf_boundary indexed split⟩
  · exact byteOf_inside indexed split low high
  · rcases edit_spec indexed start len new with ⟨next, done, -⟩ | ⟨error, refused⟩
    · rw [done] at ended
      cases ended
    · rw [refused] at ended
      cases ended
      exact ⟨rfl, error, rfl⟩

/-- A line feed for a surrogate pair, then nothing for it again. -/
theorem indexes_count_twice :
    ∃ buffer last, TextBuffer.new ['a', '😀', 'b'] = .ok buffer ∧
      run step buffer [⟨1, 2, ['\n', 'é']⟩, ⟨1, 1, []⟩] = some last ∧
      run replaceUnits ['a', '😀', 'b'] [⟨1, 2, ['\n', 'é']⟩, ⟨1, 1, []⟩] = some last.text ∧
      last.len16 = utf16Len last.text := by
  have opened : TextBuffer.new ['a', '😀', 'b'] = .ok ⟨['a', '😀', 'b'], [(0, 0)], [0], 4, 1, []⟩ := rfl
  have ran : run step ⟨['a', '😀', 'b'], [(0, 0)], [0], 4, 1, []⟩ [⟨1, 2, ['\n', 'é']⟩, ⟨1, 1, []⟩] =
      some ⟨['a', 'é', 'b'], [(0, 0)], [0], 3, 1, []⟩ := rfl
  obtain ⟨text, -, units, -⟩ := indexes_count opened ran
  exact ⟨_, _, opened, ran, text, units⟩

end QueryHive.Editor.TextIndex
