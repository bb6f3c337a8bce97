import Mathlib.Data.List.Chain
import QueryHive.Editor.TextEdits

/-! Where the checkpoints of a text stand after any edits: at characters, with their units counted, and a chunk and a
character apart at most. They stand one after another unless an edit deletes just what is between two of them. -/
namespace QueryHive.Editor.TextIndex
open Library Library.Runs Library.Weights

def endMark (text : List Char) : Nat × Nat := (utf8Len text, utf16Len text)

/-- The second stands no further behind the first than a stretch is cut. -/
def Close (mark next : Nat × Nat) : Prop := next.1 ≤ mark.1 + (chunk + 3)

def Dense (buffer : TextBuffer) : Prop := (buffer.marks ++ [endMark buffer.text]).IsChain Close

/-- The checkpoints stand one after another. -/
def Strict (buffer : TextBuffer) : Prop := buffer.marks.Pairwise (·.1 < ·.1)

theorem chunk_eq : chunk = 1024 := rfl

/-- A stretch is cut into pieces of a chunk, and up to a character more. -/
theorem cutMarks_dense {position last units : Nat} {part : List Char} (small : position + utf8Len part < 2 ^ 32)
    (near : position ≤ last + (chunk + 3)) {mark upTo : Nat × Nat} (first : mark.1 = last)
    (ends : upTo.1 = position + utf8Len part) :
    (mark :: (cutMarks position last units part ++ [upTo])).IsChain Close := by
  induction part generalizing position last units mark with
  | nil =>
    rw [cutMarks, List.nil_append, List.isChain_pair, Close, first, ends]
    exact near
  | cons c part ih =>
    rw [utf8Len_cons] at small ends
    have size := c.utf8Size_le_four
    have chunk := chunk_eq
    rw [cutMarks]
    split
    · have here : asU32 (position : Nat) = position := asU32_eq rfl (by omega)
      rw [here, List.cons_append]
      refine List.isChain_cons_cons.mpr ⟨?_, ih (by omega) (by omega) rfl (by omega)⟩
      rw [Close, first]
      exact near
    · exact ih (by omega) (by omega) first (by omega)

/-- The pieces are at least a chunk, and no checkpoint stands at the end of the stretch. -/
theorem cutMarks_strict {position last units : Nat} {part : List Char} (small : position + utf8Len part < 2 ^ 32)
    (order : last ≤ position) :
    (∀ mark ∈ cutMarks position last units part, last < mark.1 ∧ position ≤ mark.1 ∧ mark.1 < position + utf8Len part) ∧
      (cutMarks position last units part).Pairwise (·.1 < ·.1) := by
  induction part generalizing position last units with
  | nil => exact ⟨nofun, List.Pairwise.nil⟩
  | cons c part ih =>
    rw [utf8Len_cons] at small ⊢
    have size := c.utf8Size_pos
    have chunk := chunk_eq
    rw [cutMarks]
    split
    · have here : asU32 (position : Nat) = position := asU32_eq rfl (by omega)
      obtain ⟨bounds, strict⟩ := @ih (position + c.utf8Size) position (asU32 (units + lenUtf16 c)) (by omega) (by omega)
      rw [here]
      refine ⟨List.forall_mem_cons.mpr ⟨⟨by omega, Nat.le_refl _, by omega⟩, fun mark inside => ?_⟩,
        List.pairwise_cons.mpr ⟨fun mark inside => (bounds mark inside).1, strict⟩⟩
      obtain ⟨above, low, high⟩ := bounds mark inside
      exact ⟨by omega, by omega, by omega⟩
    · obtain ⟨bounds, strict⟩ := @ih (position + c.utf8Size) last (asU32 (units + lenUtf16 c)) (by omega) (by omega)
      refine ⟨fun mark inside => ?_, strict⟩
      obtain ⟨above, low, high⟩ := bounds mark inside
      exact ⟨above, by omega, by omega⟩

theorem new_spaced (opened : TextBuffer.new text = .ok buffer) : Dense buffer ∧ Strict buffer := by
  unfold TextBuffer.new at opened
  split at opened
  · cases opened
  next fits =>
  cases opened
  have bytes := maxBytes_eq
  have small : 0 + utf8Len text < 2 ^ 32 := by omega
  obtain ⟨bounds, strict⟩ := @cutMarks_strict 0 0 0 text small (Nat.le_refl _)
  constructor
  · exact cutMarks_dense small (Nat.zero_le _) rfl (Nat.zero_add _).symm
  · exact List.pairwise_cons.mpr ⟨fun mark inside => (bounds mark inside).1, strict⟩

section
variable (indexed : Indexed buffer) (split : buffer.text = front ++ middle ++ back)
  (fits : utf8Len (front ++ new ++ back) ≤ maxBytes)
include indexed split

theorem moved_or_end (inside : mark ∈ behindMarks buffer front middle ++ [endMark buffer.text]) :
    ∃ s t, back = s ++ t ∧ mark = (utf8Len (front ++ middle ++ s), utf16Len (front ++ middle ++ s)) := by
  rcases List.mem_append.mp inside with behind | ends
  · exact behind_at indexed split behind
  · rw [List.mem_singleton.mp ends, split]
    exact ⟨back, [], (List.append_nil back).symm, rfl⟩

include fits

theorem moved_dense (dense : Dense buffer) :
    ((behindMarks buffer front middle).map (moveMark middle new) ++
    [endMark (front ++ new ++ back)]).IsChain Close := by
  have suffix : behindMarks buffer front middle ++ [endMark buffer.text] <:+ buffer.marks ++ [endMark buffer.text] := by
    obtain ⟨before, whole⟩ := (List.dropWhile_suffix _).trans (List.dropWhile_suffix _ : buffer.marks.dropWhile _ <:+ _)
    exact ⟨before, by rw [← List.append_assoc]; exact congrArg (· ++ _) whole⟩
  have ends : [endMark (front ++ new ++ back)] = [endMark buffer.text].map (moveMark middle new) := by
    rw [List.map_singleton, split, endMark, endMark, moveMark_place fits]
  rw [ends, ← List.map_append, List.isChain_map]
  refine (dense.suffix suffix).imp_of_mem_imp fun mark next inside inside' close => ?_
  obtain ⟨s, t, rfl, rfl⟩ := moved_or_end indexed split inside
  obtain ⟨s', t', rest, rfl⟩ := moved_or_end indexed split inside'
  have part : utf8Len (front ++ new ++ s) ≤ maxBytes := by
    rw [← List.append_assoc, utf8Len_append] at fits
    exact Nat.le_trans (Nat.le_add_right _ _) fits
  have part' : utf8Len (front ++ new ++ s') ≤ maxBytes := by
    rw [rest, ← List.append_assoc, utf8Len_append] at fits
    exact Nat.le_trans (Nat.le_add_right _ _) fits
  rw [Close, moveMark_place part, moveMark_place part']
  rw [Close] at close
  simp only [utf8Len_append] at close ⊢
  omega

/-- The stretch that is cut anew, between the last checkpoint that stays and what follows it. -/
theorem recut_region (last : (keptMarks buffer front).getLast? = some (low, units))
    (cut : sliceTo Char.utf8Size (front ++ new ++ back) low
      (((behindMarks buffer front middle).map (moveMark middle new)).head?.elim
        (utf8Len (front ++ new ++ back)) Prod.fst) = some region) :
    ∃ known r s t, front = known ++ r ∧ back = s ++ t ∧ region = r ++ new ++ s ∧ low = utf8Len known ∧
      ((behindMarks buffer front middle).map (moveMark middle new)).head?.elim
        (utf8Len (front ++ new ++ back)) Prod.fst = low + utf8Len region ∧
      low + utf8Len region ≤ maxBytes := by
  obtain ⟨known, r, longer, begins, -⟩ := kept_last indexed split
  obtain ⟨-, s, t, rest, high, -⟩ := moved_first indexed split fits
  rw [begins] at last
  cases last
  have stretch : front ++ new ++ s = known ++ (r ++ new ++ s) := by
    rw [longer]
    simp only [List.append_assoc]
  have text : front ++ new ++ back = known ++ (r ++ new ++ s ++ t) := by
    rw [longer, rest]
    simp only [List.append_assoc]
  rw [high, stretch, text, sliceTo_total Char.utf8Size_pos] at cut
  cases cut
  rw [high, stretch, utf8Len_append]
  refine ⟨known, r, s, t, longer, rest, rfl, rfl, rfl, ?_⟩
  rw [text, ← List.append_assoc, utf8Len_append, utf8Len_append] at fits
  exact Nat.le_trans (Nat.le_add_right _ _) fits

end

theorem head_of_elim {list : List (Nat × Nat)} (last : Nat × Nat) (place : list.head?.elim last.1 Prod.fst = n) :
    ∃ first later, list ++ [last] = first :: later ∧ first.1 = n := by
  cases list with
  | nil => exact ⟨last, [], rfl, place⟩
  | cons first later => exact ⟨first, later ++ [last], rfl, place⟩

theorem recut_dense (indexed : Indexed buffer) (dense : Dense buffer) (recut : Recut buffer edit next) :
    Dense next := by
  obtain ⟨front, middle, back, low, units, region, split, -, -, text, fits, last, cut, marks⟩ := recut
  rw [text] at fits cut
  obtain ⟨-, -, -, -, -, -, -, -, high, small⟩ := recut_region indexed split fits last cut
  have limit := maxBytes_eq
  obtain ⟨before, kept⟩ := List.getLast?_eq_some_iff.mp last
  have begins : (before ++ [(low, units)]).IsChain Close :=
    kept ▸ dense.prefix ((List.takeWhile_prefix _).trans (List.prefix_append _ _))
  obtain ⟨first, later, follows, place⟩ := head_of_elim (endMark (front ++ edit.new ++ back)) high
  have fresh : ([(low, units)] ++ (cutMarks low low units region ++ [first])).IsChain Close :=
    cutMarks_dense (by omega) (Nat.le_add_right _ _) rfl place
  have ends := moved_dense indexed split fits dense
  rw [follows, ← List.singleton_append] at ends
  have whole := begins.append_overlap fresh (List.cons_ne_nil _ _)
  rw [← List.append_assoc] at whole
  have all := whole.append_overlap ends (List.cons_ne_nil _ _)
  have same : next.marks ++ [endMark next.text] = before ++ [(low, units)] ++ cutMarks low low units region ++
    [first] ++ later := by
    rw [marks, kept, text, List.append_assoc, follows]
    simp only [List.append_assoc, List.singleton_append]
  rw [Dense, same]
  exact all

/-- The edit deletes what is between two checkpoints, and nothing more. -/
def Joins (buffer : TextBuffer) (edit : Edit) : Prop :=
  edit.new = [] ∧ 0 < edit.len ∧ edit.start ∈ buffer.marks.map Prod.snd ∧
    edit.start + edit.len ∈ buffer.marks.map Prod.snd

instance (buffer : TextBuffer) (edit : Edit) : Decidable (Joins buffer edit) := inferInstanceAs (Decidable (_ ∧ _))

theorem utf8Len_eq_zero (text : List Char) (empty : utf8Len text = 0) : text = [] := by
  cases text with
  | nil => rfl
  | cons c rest =>
    rw [utf8Len_cons] at empty
    have := c.utf8Size_pos
    omega

/-- A member of a list stands where a test still holds, or behind that. -/
theorem while_cases {list : List (Nat × Nat)} (test : Nat × Nat → Bool) (inside : mark ∈ list) :
    (mark ∈ list.takeWhile test ∧ test mark = true) ∨ mark ∈ list.dropWhile test := by
  rw [← List.takeWhile_append_dropWhile (p := test) (l := list)] at inside
  exact (List.mem_append.mp inside).imp_left fun taken => ⟨taken, List.mem_takeWhile_imp taken⟩

theorem same_place (one : text = front ++ rest) (two : text = front' ++ rest')
    (units : utf16Len front = utf16Len front') :
    front = front' := by
  obtain ⟨gap, longer, -⟩ := cut_before lenUtf16_pos (one.symm.trans two) (Nat.le_of_eq units)
  cases gap with
  | nil => rw [longer, List.append_nil]
  | cons c gap =>
    have more : utf16Len (c :: gap) = lenUtf16 c + utf16Len gap := total_cons lenUtf16 c gap
    have positive := lenUtf16_pos c
    rw [longer, utf16Len_append] at units
    omega

section
variable (indexed : Indexed buffer) (split : buffer.text = front ++ middle ++ back)
  (fits : utf8Len (front ++ new ++ back) ≤ maxBytes)
include indexed split

omit split in
theorem behind_past (inside : mark ∈ behindMarks buffer front middle) : utf8Len front < mark.1 := by
  have past := not_below indexed.ascending (fun byte => decide (byte ≤ utf8Len front))
    (fun low high order below => decide_eq_true (Nat.le_trans order (of_decide_eq_true below)))
    ((List.dropWhile_sublist _).subset inside)
  exact Nat.not_le.mp (of_decide_eq_false past)

omit split in
theorem kept_of_place (inside : (utf8Len front, utf16Len front) ∈ buffer.marks) :
    (utf8Len front, utf16Len front) ∈ keptMarks buffer front := by
  refine ((while_cases _ inside).imp_left And.left).resolve_right fun past => ?_
  have below := not_below indexed.ascending (fun byte => decide (byte ≤ utf8Len front))
    (fun low high order below => decide_eq_true (Nat.le_trans order (of_decide_eq_true below))) past
  exact of_decide_eq_false below (Nat.le_refl _)

omit indexed split in
theorem behind_of_place (deletes : 0 < utf8Len middle)
    (inside : (utf8Len (front ++ middle), utf16Len (front ++ middle)) ∈ buffer.marks) :
    (utf8Len (front ++ middle), utf16Len (front ++ middle)) ∈ behindMarks buffer front middle := by
  refine (while_cases _ ((while_cases _ inside).resolve_left ?_)).resolve_left ?_
  · rintro ⟨-, low⟩
    have low : utf8Len (front ++ middle) ≤ utf8Len front := of_decide_eq_true low
    rw [utf8Len_append] at low
    omega
  · rintro ⟨-, low⟩
    exact Nat.lt_irrefl _ (of_decide_eq_true low)

include fits

theorem apart_or_joins (edit : Edit) (here : edit.start = utf16Len front) (long : edit.len = utf16Len middle)
    (own : edit.new = new) (last : (keptMarks buffer front).getLast? = some (low, units))
    (inside : mark ∈ (behindMarks buffer front middle).map (moveMark middle new)) :
    low < mark.1 ∨ Joins buffer edit := by
  obtain ⟨place, behind, rfl⟩ := List.mem_map.mp inside
  obtain ⟨s, t, rest, same, moved⟩ := moved_at indexed split fits behind
  have member := List.mem_of_getLast? last
  obtain ⟨-, known, r, longer, known'⟩ := kept_at indexed split member
  obtain ⟨rfl, rfl⟩ := Prod.mk.inj known'
  rw [moved]
  by_contra! meets
  obtain ⟨close, apart⟩ := meets
  rw [longer] at close
  simp only [utf8Len_append] at close
  have r' := utf8Len_eq_zero r (by omega)
  have new' := utf8Len_eq_zero new (by omega)
  have s' := utf8Len_eq_zero s (by omega)
  subst r' new' s'
  rw [List.append_nil] at longer same
  have past := behind_past indexed behind
  rw [same, utf8Len_append] at past
  refine apart ⟨own, ?_, ?_, ?_⟩
  · rw [long]
    cases middle with
    | nil => exact absurd past (by simp)
    | cons c middle =>
      rw [utf16Len, total_cons]
      exact Nat.lt_of_lt_of_le (lenUtf16_pos c) (Nat.le_add_right _ _)
  · rw [here, longer]
    exact List.mem_map_of_mem ((List.takeWhile_prefix _).subset member)
  · rw [here, long, ← utf16Len_append]
    have there := ((List.dropWhile_sublist _).trans (List.dropWhile_sublist _)).subset behind
    rw [same] at there
    exact List.mem_map_of_mem (f := Prod.snd) there

end

theorem recut_strict (indexed : Indexed buffer) (strict : Strict buffer) (recut : Recut buffer edit next)
    (apart : ¬Joins buffer edit) : Strict next := by
  obtain ⟨front, middle, back, low, units, region, split, here, long, text, fits, last, cut, marks⟩ := recut
  rw [text] at fits cut
  obtain ⟨-, -, -, -, -, -, -, -, high, small⟩ := recut_region indexed split fits last cut
  have limit := maxBytes_eq
  obtain ⟨fresh, ascending⟩ := @cutMarks_strict low low units region (by omega) (Nat.le_refl _)
  obtain ⟨known, -, -, last', lowest⟩ := kept_last indexed split
  have own : low = utf8Len known := congrArg Prod.fst (Option.some.inj (last.symm.trans last'))
  have stays : (keptMarks buffer front).Pairwise (·.1 < ·.1) := strict.sublist (List.takeWhile_sublist _)
  obtain ⟨-, s, -, -, high', above⟩ := moved_first indexed split fits
  have moved : ((behindMarks buffer front middle).map (moveMark middle edit.new)).Pairwise (·.1 < ·.1) := by
    refine List.pairwise_map.mpr ?_
    have behind : (behindMarks buffer front middle).Pairwise (·.1 < ·.1) :=
      strict.sublist ((List.dropWhile_sublist _).trans (List.dropWhile_sublist _))
    refine behind.imp_of_mem fun inside inside' order => ?_
    obtain ⟨s, -, -, place, there⟩ := moved_at indexed split fits inside
    obtain ⟨s', -, -, place', there'⟩ := moved_at indexed split fits inside'
    rw [there, there']
    rw [place, place'] at order
    simp only [utf8Len_append] at order ⊢
    omega
  rw [Strict, marks]
  refine List.pairwise_append.mpr ⟨List.pairwise_append.mpr ⟨stays, ascending,
    fun mark inside later inside' => ?_⟩, moved,
    fun mark inside later inside' => ?_⟩
  · have upTo := lowest mark inside
    have past := (fresh later inside').1
    omega
  · rcases List.mem_append.mp inside with stays | cutAnew
    · have upTo := lowest mark stays
      have past := (apart_or_joins indexed split fits edit here long rfl last inside').resolve_right apart
      omega
    · have within := (fresh mark cutAnew).2.2
      have past := above later inside'
      omega

theorem joins_meet (indexed : Indexed buffer) (recut : Recut buffer edit next) (joins : Joins buffer edit) :
    ¬Strict next := by
  obtain ⟨front, middle, back, low, units, region, split, here, long, text, fits, -, -, marks⟩ := recut
  obtain ⟨empty, deletes, starts, ends⟩ := joins
  rw [text] at fits
  rw [here] at starts ends
  rw [long, ← utf16Len_append] at ends
  -- Both are honest, so they stand at the two ends of the edit.
  obtain ⟨mark, member, units⟩ := List.mem_map.mp starts
  obtain ⟨mark', member', units'⟩ := List.mem_map.mp ends
  obtain ⟨known, rest, cut, rfl⟩ := indexed.honest mark member
  obtain ⟨known', rest', cut', rfl⟩ := indexed.honest mark' member'
  rw [List.append_assoc] at split
  obtain rfl := (same_place cut split units).symm
  rw [← List.append_assoc] at split
  obtain rfl := same_place cut' split units'
  have more : 0 < utf8Len middle := Nat.lt_of_lt_of_le (long ▸ deletes) (utf16Len_le middle)
  have stays := kept_of_place indexed member
  have moves := List.mem_map_of_mem (f := moveMark middle edit.new) (behind_of_place more member')
  have small : utf8Len (front ++ [] ++ []) ≤ maxBytes := by
    rw [empty, utf8Len_append] at fits
    rw [List.append_nil]
    exact Nat.le_trans (Nat.le_add_right _ _) fits
  have place : moveMark middle edit.new (utf8Len (front ++ middle), utf16Len (front ++ middle)) =
    (utf8Len front, utf16Len front) := by
    have moved := @moveMark_place front edit.new [] middle (by rw [empty]; exact small)
    rwa [List.append_nil, List.append_nil, empty, List.append_nil, ← empty] at moved
  rw [place] at moves
  intro strict
  rw [Strict, marks] at strict
  exact Nat.lt_irrefl _ ((List.pairwise_append.mp strict).2.2 _ (List.mem_append_left _ stays) _ moves)

/-- The checkpoints are well placed: from the start of the text on, one after another, each at a character with the
units before it, and never further apart than two chunks and a character. -/
structure WellPlaced (buffer : TextBuffer) : Prop where
  start : buffer.marks.head? = some (0, 0)
  ascending : buffer.marks.IsChain fun mark next => mark.1 < next.1 ∧ mark.2 < next.2
  honest : ∀ mark ∈ buffer.marks, At buffer.text mark
  near : (buffer.marks ++ [endMark buffer.text]).IsChain fun mark next => next.1 - mark.1 ≤ 2 * chunk + 4

theorem units_order (first : At text mark) (second : At text later) (order : mark.1 < later.1) : mark.2 < later.2 := by
  obtain ⟨front, rest, cut, rfl⟩ := first
  obtain ⟨front', rest', cut', rfl⟩ := second
  obtain ⟨gap, rfl, -⟩ := cut_before Char.utf8Size_pos (cut.symm.trans cut') (Nat.le_of_lt order)
  cases gap with
  | nil => exact absurd order (by rw [List.append_nil]; exact Nat.lt_irrefl _)
  | cons c gap =>
    have more : utf16Len (c :: gap) = lenUtf16 c + utf16Len gap := total_cons lenUtf16 c gap
    have positive := lenUtf16_pos c
    rw [utf16Len_append]
    omega

/-- Checkpoints that count are well placed when they are close and stand one after another. -/
theorem wellPlaced_iff (indexed : Indexed buffer) (dense : Dense buffer) : WellPlaced buffer ↔ Strict buffer := by
  constructor
  · intro placed
    have chain : buffer.marks.IsChain (·.1 < ·.1) := placed.ascending.imp fun _ _ order => order.1
    exact chain.pairwise
  · intro strict
    refine ⟨?_, ?_, indexed.honest, dense.imp fun mark next close => ?_⟩
    · obtain ⟨rest, whole⟩ := indexed.start
      rw [whole]
      rfl
    · refine strict.isChain.imp_of_mem_imp fun mark next inside inside' order => ⟨order, ?_⟩
      exact units_order (indexed.honest mark inside) (indexed.honest next inside') order
    · rw [Close] at close
      have := chunk_eq
      omega

/-- What is true of a buffer after any edits, wherever its checkpoints meet. -/
def Kept (buffer : TextBuffer) : Prop := Indexed buffer ∧ Dense buffer

theorem step_kept (kept : Kept buffer) (stepped : step buffer edit = some next) : Kept next := by
  obtain ⟨indexed, -, recut⟩ := step_indexed kept.1 stepped
  exact ⟨indexed, recut_dense kept.1 kept.2 recut⟩

theorem step_placed_iff (kept : Kept buffer) (placed : WellPlaced buffer) (stepped : step buffer edit = some next) :
    WellPlaced next ↔ ¬Joins buffer edit := by
  obtain ⟨indexed, -, recut⟩ := step_indexed kept.1 stepped
  rw [wellPlaced_iff indexed (recut_dense kept.1 kept.2 recut)]
  constructor
  · exact fun strict joins => joins_meet kept.1 recut joins strict
  · exact recut_strict kept.1 ((wellPlaced_iff kept.1 kept.2).mp placed) recut

/-- Every state of the run is well placed. -/
def AllPlaced (buffer : TextBuffer) (edits : List Edit) : Prop :=
  ∀ front rest state, edits = front ++ rest → run step buffer front = some state → WellPlaced state

theorem allPlaced_cons (placed : WellPlaced buffer) (stepped : step buffer edit = some next) :
    AllPlaced buffer (edit :: edits) ↔ AllPlaced next edits := by
  constructor
  · rintro all front rest state rfl ran
    exact all (edit :: front) rest state rfl (by rw [run_cons, stepped]; exact ran)
  · intro all front rest state split ran
    cases front with
    | nil =>
      cases ran
      exact placed
    | cons first front =>
      obtain ⟨rfl, rfl⟩ := List.cons.inj split
      rw [run_cons, stepped] at ran
      exact all front rest state rfl ran

theorem allPlaced_iff (kept : Kept buffer) (placed : WellPlaced buffer) (ran : run step buffer edits = some last) :
    AllPlaced buffer edits ↔ Along step (fun state edit => ¬Joins state edit) buffer edits := by
  induction edits generalizing buffer with
  | nil =>
    refine ⟨fun _ => along_nil, fun _ front rest state split ran => ?_⟩
    obtain ⟨rfl, -⟩ := List.append_eq_nil_iff.mp split.symm
    cases ran
    exact placed
  | cons edit edits ih =>
    obtain ⟨next, stepped, later⟩ := run_cons_some ran
    have here := step_placed_iff kept placed stepped
    have after := step_kept kept stepped
    rw [allPlaced_cons placed stepped]
    constructor
    · intro all
      have placed' : WellPlaced next := all [] edits next rfl rfl
      exact along_cons (here.mp placed') stepped ((ih after placed' later).mp all)
    · intro along
      have placed' : WellPlaced next := here.mpr along.1
      exact (ih after placed' later).mpr (along.2 next stepped)

theorem new_placed (opened : TextBuffer.new text = .ok buffer) : Kept buffer ∧ WellPlaced buffer := by
  have kept : Kept buffer := ⟨(new_indexed opened).1, (new_spaced opened).1⟩
  exact ⟨kept, (wellPlaced_iff kept.1 kept.2).mpr (new_spaced opened).2⟩

/-- From a text on, all states of a run of successful edits have their checkpoints well placed exactly when none of the
edits deletes just what is between two checkpoints. -/
theorem checkpoints_placed_iff (opened : TextBuffer.new text = .ok buffer) (ran : run step buffer edits = some last) :
    AllPlaced buffer edits ↔ Along step (fun state edit => ¬Joins state edit) buffer edits :=
  allPlaced_iff (new_placed opened).1 (new_placed opened).2 ran

theorem new_of_toOption (opened : (TextBuffer.new text).toOption = some buffer) : TextBuffer.new text = .ok buffer := by
  cases result : TextBuffer.new text with
  | ok created =>
    rw [result] at opened
    cases opened
    rfl
  | error =>
    rw [result] at opened
    cases opened

/-- A text of more than a chunk, typed in behind its second checkpoint, then in front of it, then cut around it. -/
def longText : List Char := List.replicate 1030 'a'

def longEdits : List Edit := [⟨1026, 0, ['é']⟩, ⟨10, 10, ['\n']⟩, ⟨1010, 8, []⟩]

theorem longEdits_apart : (TextBuffer.new longText).toOption.any fun buffer =>
    buffer.marks == [(0, 0), (1024, 1024)] && (run step buffer (longEdits.take 2)).any
      (·.marks == [(0, 0), (1015, 1015)]) &&
      (run step buffer longEdits).isSome &&
      decide (Along step (fun state edit => ¬Joins state edit) buffer longEdits) := by
  decide +kernel

theorem checkpoints_placed_iff_typed : ∃ buffer last, TextBuffer.new longText = .ok buffer ∧
    buffer.marks = [(0, 0), (1024, 1024)] ∧ run step buffer longEdits = some last ∧ AllPlaced buffer longEdits := by
  obtain ⟨buffer, found, checked⟩ := (Option.any_eq_true _ _).mp longEdits_apart
  simp only [Bool.and_eq_true, decide_eq_true_eq, beq_iff_eq] at checked
  obtain ⟨⟨⟨marks, -⟩, ended⟩, apart⟩ := checked
  obtain ⟨last, ran⟩ := Option.isSome_iff_exists.mp ended
  have opened := new_of_toOption found
  exact ⟨buffer, last, opened, marks, ran, (checkpoints_placed_iff opened ran).mpr apart⟩

theorem meeting_marks :
    ((TextBuffer.new (List.replicate 1025 'a')).toOption.bind fun buffer => step buffer ⟨0, 1024, []⟩).map (·.marks) =
      some [(0, 0), (0, 0)] := by
  decide +kernel

/-- The first chunk of a text is deleted, and its checkpoint meets the one at the start. -/
theorem checkpoints_meet : ¬∀ text buffer edits last, TextBuffer.new text = .ok buffer →
    run step buffer edits = some last → WellPlaced last := by
  intro every
  obtain ⟨last, ran, marks⟩ := Option.map_eq_some_iff.mp meeting_marks
  obtain ⟨buffer, opened, stepped⟩ := Option.bind_eq_some_iff.mp ran
  have placed := every (List.replicate 1025 'a') buffer [⟨0, 1024, []⟩] last (new_of_toOption opened)
    (by rw [run_cons, stepped]; rfl)
  have order := placed.ascending
  rw [marks] at order
  exact absurd (List.isChain_pair.mp order).1 (Nat.lt_irrefl 0)

end QueryHive.Editor.TextIndex
