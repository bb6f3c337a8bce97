import QueryHive.Editor.TextEdits
import QueryHive.Library.Intervals

/-! The ranges the UI still has to paint (`paint.rs`), as a list of half-open ranges of UTF-16 offsets. Every operation
walks the list and relies on its order; what they do to the offsets covered is arithmetic of sets. -/
namespace QueryHive.Editor.Ranges
open Library Library.Intervals Library.Runs
open TextIndex (asU32 asU32_eq)

/-- A range `[start, end)`. -/
abbrev Range := Nat × Nat

/-- `RangeSet`. -/
abbrev RangeSet := List Range

/-- `whole`. -/
def whole (len : Nat) : RangeSet := if 0 < len then [(0, len)] else []

/-- The loop of `add`: the new range takes in those it reaches. -/
def absorb : Range → RangeSet → Range × RangeSet
  | new, [] => (new, [])
  | new, range :: later =>
    if range.1 ≤ new.2 then absorb (min new.1 range.1, max new.2 range.2) later else (new, range :: later)

/-- `add`. -/
def add (set : RangeSet) (start stop : Nat) : RangeSet :=
  if stop ≤ start then set
  else
    let (joined, after) := absorb (start, stop) (set.dropWhile (·.2 < start))
    set.takeWhile (·.2 < start) ++ joined :: after

/-- What `subtract` leaves of one range. -/
def cutOut (start stop : Nat) (range : Range) : RangeSet :=
  if range.2 ≤ start ∨ stop ≤ range.1 then [range]
  else (if range.1 < start then [(range.1, start)] else []) ++ if stop < range.2 then [(stop, range.2)] else []

/-- `subtract`. -/
def subtract (set : RangeSet) (start stop : Nat) : RangeSet := set.flatMap (cutOut start stop)

/-- `push` of `edit`: a range that reaches the last one joins it. -/
def push (out : RangeSet) (range : Range) : RangeSet :=
  match out.getLast? with
  | some last => if range.1 ≤ last.2 then out.dropLast ++ [(last.1, max last.2 range.2)] else out ++ [range]
  | none => [range]

/-- The body of the loop of `edit`. -/
def editRange (start oldEnd : Nat) (delta : Int) (out : RangeSet) (range : Range) : RangeSet :=
  let out := if range.1 < start then push out (range.1, min range.2 start) else out
  if oldEnd < range.2 then push out (asU32 ((max range.1 oldEnd : Nat) + delta), asU32 (range.2 + delta)) else out

/-- `edit`. -/
def edit (set : RangeSet) (start oldLen newLen : Nat) : RangeSet :=
  set.foldl (editRange start (asU32 (start + oldLen)) (newLen - oldLen)) []

/-- `intersect`. -/
def intersect (set : RangeSet) (start stop : Nat) : RangeSet :=
  ((set.dropWhile (·.2 ≤ start)).takeWhile (·.1 < stop)).map fun range => (max range.1 start, min range.2 stop)

/-- `outside`. -/
def outside (set : RangeSet) (start stop : Nat) : Bool := set.any fun range => range.1 < start || stop < range.2

/-- The inner loop of `minus`, from an offset of a range on. -/
def minusFrom (stop : Nat) : (offset : Nat) → RangeSet → RangeSet
  | offset, [] => if offset < stop then [(offset, stop)] else []
  | offset, range :: later =>
    if stop ≤ range.1 then if offset < stop then [(offset, stop)] else []
    else (if offset < range.1 then [(offset, range.1)] else []) ++ minusFrom stop (max offset range.2) later

/-- `minus`. -/
def minus (a b : RangeSet) : RangeSet := a.flatMap fun range => minusFrom range.2 range.1 (b.dropWhile (·.2 ≤ range.1))

theorem whole_spec (len : Nat) : Ordered (whole len) ∧ Apart (whole len) ∧ cover (whole len) = Set.Ico 0 len := by
  unfold whole
  split
  · next long => exact ⟨ordered_cons.mpr ⟨⟨long, nofun⟩, ordered_nil⟩, List.pairwise_singleton _ _, by simp⟩
  · next short => exact ⟨ordered_nil, List.Pairwise.nil, by simp [Nat.eq_zero_of_not_pos short]⟩

/-- The new range and those it takes in cover what they covered before, and reach none of the others. -/
theorem absorb_spec {new : Range} {list : RangeSet} (ordered : Ordered list) (proper : new.1 < new.2)
    (reached : ∀ range ∈ list, new.1 ≤ range.2) :
    Set.Ico (absorb new list).1.1 (absorb new list).1.2 ∪ cover (absorb new list).2 = Set.Ico new.1 new.2 ∪ cover list ∧
      (∀ range ∈ (absorb new list).2, (absorb new list).1.2 < range.1) ∧ (absorb new list).2 <:+ list ∧
      (absorb new list).1.1 < (absorb new list).1.2 ∧
      ∀ n ≤ new.1, (∀ range ∈ list, n ≤ range.1) → n ≤ (absorb new list).1.1 := by
  induction list generalizing new with
  | nil => exact ⟨rfl, nofun, List.suffix_refl _, proper, fun n low _ => low⟩
  | cons range later ih =>
    obtain ⟨⟨own, behind⟩, ordered'⟩ := ordered_cons.mp ordered
    have touches := reached range List.mem_cons_self
    rw [absorb]
    split
    · next joins =>
      obtain ⟨covers, apart, suffix, proper', least⟩ := @ih (min new.1 range.1, max new.2 range.2) ordered'
        (by dsimp only; omega) fun next inside => by
          have := behind next inside
          have := ordered'.proper next inside
          dsimp only
          omega
      refine ⟨?_, apart, suffix.trans (List.suffix_cons _ _), proper', fun n low every => ?_⟩
      · rw [covers, cover_cons, ← Set.union_assoc, Set.Ico_union_Ico' joins touches]
      · exact least n (le_min low (every range List.mem_cons_self)) fun next inside =>
          every next (List.mem_cons_of_mem _ inside)
    · next past =>
      refine ⟨rfl, fun next inside => ?_, List.suffix_refl _, proper, fun n low _ => low⟩
      rcases List.mem_cons.mp inside with rfl | inside
      · exact Nat.not_le.mp past
      · have := behind next inside
        have := ordered'.proper next inside
        dsimp only
        omega

theorem ends_split {set : RangeSet} (ordered : Ordered set) (offset : Nat) :
    (∀ range ∈ set.takeWhile (·.2 < offset), range.2 < offset) ∧ ∀ range ∈ set.dropWhile (·.2 < offset),
    offset ≤ range.2 := by
  refine ⟨fun range inside => ?_, ?_⟩
  · have taken := List.mem_takeWhile_imp inside
    exact of_decide_eq_true taken
  induction set with
  | nil => exact nofun
  | cons first later ih =>
    obtain ⟨⟨own, behind⟩, ordered'⟩ := ordered_cons.mp ordered
    rw [List.dropWhile_cons]
    split
    · exact ih ordered'
    · next past =>
      have past : offset ≤ first.2 := by simpa using past
      refine List.forall_mem_cons.mpr ⟨past, fun range inside => ?_⟩
      have := behind range inside
      have := ordered'.proper range inside
      omega

/-- Adding a range covers it as well, keeps the order, and leaves ranges apart that were apart. -/
theorem add_spec {set : RangeSet} (ordered : Ordered set) (start stop : Nat) :
    Ordered (add set start stop) ∧ cover (add set start stop) = cover set ∪ Set.Ico start stop ∧
      (Apart set → Apart (add set start stop)) := by
  unfold add
  split
  · next empty => exact ⟨ordered, by simp [Set.Ico_eq_empty_of_le empty], id⟩
  next proper =>
  dsimp only
  rw [Nat.not_le] at proper
  have whole := List.takeWhile_append_dropWhile (p := fun range => decide (range.2 < start)) (l := set)
  obtain ⟨low, high⟩ := ends_split ordered start
  generalize set.takeWhile (fun range => decide (range.2 < start)) = before at whole low ⊢
  generalize set.dropWhile (fun range => decide (range.2 < start)) = list at whole high ⊢
  subst whole
  have ordered' := ordered.sublist (List.sublist_append_right before list)
  obtain ⟨covers, past, suffix, own, least⟩ := @absorb_spec (start, stop) list ordered' proper high
  have cross := (List.pairwise_append.mp ordered.sorted).2.2
  have first := ordered.sublist (List.sublist_append_left before list)
  have later := ordered'.sublist suffix.sublist
  refine ⟨⟨fun range inside => ?_, ?_⟩, ?_, fun apart => ?_⟩
  · rcases List.mem_append.mp inside with early | inside
    · exact first.proper range early
    rcases List.mem_cons.mp inside with rfl | late
    · exact own
    · exact later.proper range late
  · refine List.pairwise_append.mpr ⟨first.sorted,
      List.pairwise_cons.mpr ⟨fun range inside => Nat.le_of_lt (past range inside),
      later.sorted⟩, fun range early next inside => ?_⟩
    rcases List.mem_cons.mp inside with rfl | late
    · exact least range.2 (Nat.le_of_lt (low range early)) fun next inside => cross range early next inside
    · exact cross range early next (suffix.subset late)
  · rw [cover_append, cover_append, cover_cons, covers, Set.union_assoc, Set.union_comm (cover list)]
  · obtain ⟨apart, apart', strict⟩ := List.pairwise_append.mp apart
    refine List.pairwise_append.mpr ⟨apart, List.pairwise_cons.mpr ⟨past, apart'.sublist suffix.sublist⟩,
      fun range early next inside => ?_⟩
    rcases List.mem_cons.mp inside with rfl | late
    · exact least (range.2 + 1) (low range early) fun next inside => strict range early next inside
    · exact strict range early next (suffix.subset late)

theorem cutOut_cover (start stop : Nat) (range : Range) :
    cover (cutOut start stop range) = Set.Ico range.1 range.2 \ Set.Ico start stop := by
  ext x
  unfold cutOut
  split
  · simp only [cover_cons, cover_nil, Set.union_empty, Set.mem_sdiff, Set.mem_Ico]
    omega
  · simp only [cover_append, Set.mem_union, Set.mem_sdiff, Set.mem_Ico]
    split <;> split <;> simp only [cover_cons, cover_nil, Set.union_empty, Set.mem_Ico,
      Set.mem_empty_iff_false, or_false,
      false_or, false_iff] <;> omega

/-- An empty or reversed range is subtracted inside one of the set, which cuts it in two that touch or overlap. -/
def Splits (set : RangeSet) (start stop : Nat) : Prop := stop ≤ start ∧ ∃ range ∈ set, range.1 < stop ∧ start < range.2

instance (set : RangeSet) (start stop : Nat) : Decidable (Splits set start stop) := inferInstanceAs (Decidable (_ ∧ _))

/-- What is left of a range is inside it, in order and apart, unless it is split. -/
theorem cutOut_spec {range : Range} (proper : range.1 < range.2)
    (whole : ¬(stop ≤ start ∧ range.1 < stop ∧ start < range.2)) :
    (∀ piece ∈ cutOut start stop range, range.1 ≤ piece.1 ∧ piece.1 < piece.2 ∧ piece.2 ≤ range.2) ∧
      Apart (cutOut start stop range) := by
  unfold cutOut Apart
  split
  · exact ⟨by simp [proper], List.pairwise_singleton _ _⟩
  · split <;> split <;> simp <;> omega

/-- Subtracting a range covers what is not in it, and keeps ranges apart unless it splits one. -/
theorem subtract_spec {set : RangeSet} (ordered : Ordered set) (apart : Apart set) (start stop : Nat)
    (whole : ¬Splits set start stop) :
    Ordered (subtract set start stop) ∧ Apart (subtract set start stop) ∧
      cover (subtract set start stop) = cover set \ Set.Ico start stop := by
  have each : ∀ range ∈ set, (∀ piece ∈ cutOut start stop range, range.1 ≤ piece.1 ∧ piece.1 < piece.2 ∧
    piece.2 ≤ range.2) ∧
      Apart (cutOut start stop range) := fun range inside =>
    cutOut_spec (ordered.proper range inside) fun split => whole ⟨split.1, range, inside, split.2⟩
  have strict : Apart (subtract set start stop) := by
    refine List.pairwise_flatMap.mpr ⟨fun range inside => (each range inside).2, ?_⟩
    refine apart.imp_of_mem fun inside inside' order piece part piece' part' => ?_
    have := ((each _ inside).1 piece part).2.2
    have := ((each _ inside').1 piece' part').1
    omega
  refine ⟨apart_ordered (fun piece inside => ?_) strict, strict, ?_⟩
  · obtain ⟨range, member, part⟩ := List.mem_flatMap.mp inside
    exact ((each range member).1 piece part).2.1
  · ext x
    rw [subtract, mem_cover_flatMap]
    simp only [cutOut_cover, Set.mem_sdiff]
    exact ⟨fun ⟨range, member, within, off⟩ => ⟨⟨range, member, within⟩, off⟩,
      fun ⟨⟨range, member, within⟩, off⟩ => ⟨range, member, within, off⟩⟩

theorem push_spec {out : RangeSet} {range : Range} (ordered : Ordered out) (apart : Apart out)
    (proper : range.1 < range.2) (behind : ∀ before ∈ out, before.2 ≤ range.1) :
    Ordered (push out range) ∧ Apart (push out range) ∧ cover (push out range) = cover out ∪ Set.Ico range.1 range.2 ∧
      ∀ before ∈ push out range, before.2 ≤ range.2 := by
  unfold push
  cases ends : out.getLast? with
  | none =>
    rw [List.getLast?_eq_none_iff.mp ends]
    exact ⟨ordered_cons.mpr ⟨⟨proper, nofun⟩, ordered_nil⟩, List.pairwise_singleton _ _, by simp, by simp⟩
  | some last =>
    obtain ⟨init, rfl⟩ := List.getLast?_eq_some_iff.mp ends
    obtain ⟨first, -, strict⟩ := List.pairwise_append.mp apart
    have inner : ∀ before ∈ init, before.1 < before.2 ∧ before.2 < last.1 := fun before inside =>
      ⟨ordered.proper before (List.mem_append_left _ inside), strict before inside last List.mem_cons_self⟩
    have own := ordered.proper last (List.mem_append_right _ List.mem_cons_self)
    have reach := behind last (List.mem_append_right _ List.mem_cons_self)
    dsimp only
    split
    · next touches =>
      rw [List.dropLast_concat]
      have joined : Apart (init ++ [(last.1, max last.2 range.2)]) :=
        List.pairwise_append.mpr
          ⟨first, List.pairwise_singleton _ _, by simpa using fun a b inside => (inner (a, b) inside).2⟩
      refine ⟨apart_ordered (fun before inside => ?_) joined, joined, ?_, fun before inside => ?_⟩
      · rcases List.mem_append.mp inside with inside | inside
        · exact (inner before inside).1
        · rw [List.mem_singleton.mp inside]
          exact Nat.lt_of_lt_of_le own (Nat.le_max_left _ _)
      · have union := Set.Ico_union_Ico' touches (by omega : last.1 ≤ range.2)
        rw [min_eq_left (by omega)] at union
        simp only [cover_append, cover_cons, cover_nil, Set.union_empty, Set.union_assoc, union]
      · rcases List.mem_append.mp inside with inside | inside
        · have := inner before inside
          omega
        · rw [List.mem_singleton.mp inside]
          exact max_le (by omega) (Nat.le_refl _)
    · next past =>
      have all : ∀ before ∈ init ++ [last], before.2 < range.1 := fun before inside => by
        rcases List.mem_append.mp inside with inside | inside
        · have := inner before inside
          omega
        · rw [List.mem_singleton.mp inside]
          exact Nat.not_le.mp past
      have apart' : Apart (init ++ [last] ++ [range]) :=
        List.pairwise_append.mpr
          ⟨apart, List.pairwise_singleton _ _, by simpa using fun a b inside => all (a, b) (by simpa using inside)⟩
      refine ⟨apart_ordered (fun before inside => ?_) apart', apart',
        by rw [cover_append, cover_cons, cover_nil, Set.union_empty], fun before inside => ?_⟩
      · rcases List.mem_append.mp inside with inside | inside
        · exact ordered.proper before inside
        · rw [List.mem_singleton.mp inside]
          exact proper
      · rcases List.mem_append.mp inside with inside | inside
        · have := all before inside
          omega
        · rw [List.mem_singleton.mp inside]

theorem pushes_spec {out list : RangeSet} (ordered : Ordered out) (apart : Apart out) (more : Ordered list)
    (behind : ∀ before ∈ out, ∀ range ∈ list, before.2 ≤ range.1) :
    Ordered (list.foldl push out) ∧ Apart (list.foldl push out) ∧
      cover (list.foldl push out) = cover out ∪ cover list := by
  induction list generalizing out with
  | nil => exact ⟨ordered, apart, by simp⟩
  | cons range later ih =>
    obtain ⟨⟨proper, first⟩, more⟩ := ordered_cons.mp more
    obtain ⟨ordered', apart', covers, ends⟩ := push_spec ordered apart proper fun before inside =>
      behind before inside range List.mem_cons_self
    obtain ⟨kept, strict, all⟩ := ih ordered' apart' more fun before inside next inside' =>
      Nat.le_trans (ends before inside) (first next inside')
    exact ⟨kept, strict, by rw [List.foldl_cons, all, covers, cover_cons, Set.union_assoc]⟩

/-- Where an offset outside the replaced part goes. -/
def shift (start oldLen newLen offset : Nat) : Nat := if offset < start then offset else offset - oldLen + newLen

def editPieces (start oldLen newLen : Nat) (range : Range) : RangeSet :=
  (if range.1 < start then [(range.1, min range.2 start)] else []) ++
    if start + oldLen < range.2 then [(max range.1 (start + oldLen) - oldLen + newLen,
      range.2 - oldLen + newLen)] else []

/-- The pieces are pushed one after another, where every offset fits a `u32`. -/
theorem edit_eq {set : RangeSet} (small : start + oldLen < 2 ^ 31) (short : newLen < 2 ^ 31)
    (ends : ∀ range ∈ set, range.1 < 2 ^ 31 ∧ range.2 < 2 ^ 31) :
    edit set start oldLen newLen = (set.flatMap (editPieces start oldLen newLen)).foldl push [] := by
  have oldEnd : asU32 (start + oldLen) = start + oldLen := asU32_eq rfl (by omega)
  rw [edit, List.foldl_flatMap, oldEnd]
  refine List.foldl_ext _ _ _ fun out range inside => ?_
  have bounds := ends range inside
  have moved : ∀ offset : Nat, start + oldLen ≤ offset → offset < 2 ^ 31 →
      asU32 (offset + ((newLen : Int) - oldLen)) = offset - oldLen + newLen := fun offset low high =>
    asU32_eq (by omega) (by omega)
  unfold editRange editPieces
  dsimp only
  rw [List.foldl_append]
  by_cases before : range.1 < start <;> by_cases behind : start + oldLen < range.2
  all_goals simp only [before, behind, if_true, if_false, List.foldl_cons, List.foldl_nil]
  all_goals rw [moved _ (Nat.le_max_right _ _) (max_lt bounds.1 (by omega)), moved _ (Nat.le_of_lt behind) bounds.2]

theorem editPieces_bounds {range piece : Range} (proper : range.1 < range.2)
    (inside : piece ∈ editPieces start oldLen newLen range) : piece.1 < piece.2 ∧
      (range.1 ≤ piece.1 ∧ piece.2 ≤ range.2 ∧ piece.2 ≤ start ∨
        start + newLen ≤ piece.1 ∧ range.1 - oldLen + newLen ≤ piece.1 ∧ start + oldLen < range.2 ∧
          piece.2 = range.2 - oldLen + newLen) := by
  unfold editPieces at inside
  rcases List.mem_append.mp inside with inside | inside
  · split at inside
    · rw [List.mem_singleton.mp inside]
      dsimp only
      omega
    · cases inside
  · split at inside
    · rw [List.mem_singleton.mp inside]
      dsimp only
      omega
    · cases inside

theorem mem_editPieces (start oldLen newLen : Nat) (range : Range) (x : Nat) :
    x ∈ cover (editPieces start oldLen newLen range) ↔ (range.1 ≤ x ∧ x < range.2 ∧ x < start) ∨
      (start + newLen ≤ x ∧ range.1 ≤ x - newLen + oldLen ∧ x - newLen + oldLen < range.2) := by
  unfold editPieces
  rw [cover_append, Set.mem_union]
  split <;> split <;>
    simp only [cover_cons, cover_nil, Set.union_empty, Set.mem_Ico, Set.mem_empty_iff_false, or_false, false_or,
      false_iff] <;> omega

theorem editPieces_cover (start oldLen newLen : Nat) (range : Range) : cover (editPieces start oldLen newLen range) =
    shift start oldLen newLen '' (Set.Ico range.1 range.2 \ Set.Ico start (start + oldLen)) := by
  ext x
  simp only [mem_editPieces, Set.mem_image, Set.mem_sdiff, Set.mem_Ico, shift]
  constructor
  · rintro (⟨low, high, before⟩ | ⟨behind, low, high⟩)
    · exact ⟨x, ⟨⟨low, high⟩, by omega⟩, if_pos before⟩
    · exact ⟨x - newLen + oldLen, ⟨⟨low, high⟩, by omega⟩, by rw [if_neg (by omega)]; omega⟩
  · rintro ⟨n, ⟨⟨low, high⟩, off⟩, rfl⟩
    split <;> omega

/-- An edit covers what is left of the old offsets, shifted, and leaves no two ranges that touch. -/
theorem edit_spec {set : RangeSet} (ordered : Ordered set) (small : start + oldLen < 2 ^ 31) (short : newLen < 2 ^ 31)
    (ends : ∀ range ∈ set, range.2 < 2 ^ 31) :
    Ordered (edit set start oldLen newLen) ∧ Apart (edit set start oldLen newLen) ∧
      cover (edit set start oldLen newLen) =
        shift start oldLen newLen '' (cover set \ Set.Ico start (start + oldLen)) := by
  have pieces : Ordered (set.flatMap (editPieces start oldLen newLen)) := by
    refine ⟨fun piece inside => ?_, List.pairwise_flatMap.mpr ⟨fun range member => ?_, ?_⟩⟩
    · obtain ⟨range, member, part⟩ := List.mem_flatMap.mp inside
      exact (editPieces_bounds (ordered.proper range member) part).1
    · unfold editPieces
      split <;> split <;> simp
      omega
    · refine ordered.sorted.imp_of_mem fun {range later} inside inside' order piece part piece' part' => ?_
      have one := editPieces_bounds (ordered.proper range inside) part
      have two := editPieces_bounds (ordered.proper later inside') part'
      omega
  rw [edit_eq small short fun range inside => ⟨Nat.lt_trans (ordered.proper range inside) (ends range inside),
    ends range inside⟩]
  obtain ⟨kept, apart, covers⟩ := pushes_spec ordered_nil List.Pairwise.nil pieces nofun
  refine ⟨kept, apart, ?_⟩
  rw [covers, cover_nil, Set.empty_union]
  ext x
  rw [mem_cover_flatMap]
  simp only [editPieces_cover, Set.mem_image, Set.mem_sdiff]
  constructor
  · rintro ⟨range, member, n, ⟨within, off⟩, same⟩
    exact ⟨n, ⟨⟨range, member, within⟩, off⟩, same⟩
  · rintro ⟨n, ⟨⟨range, member, within⟩, off⟩, same⟩
    exact ⟨range, member, n, ⟨within, off⟩, same⟩

theorem mem_dropWhile {set : RangeSet} (test : Range → Bool) (inside : range ∈ set) (fails : test range = false) :
    range ∈ set.dropWhile test := by
  rw [← List.takeWhile_append_dropWhile (p := test) (l := set)] at inside
  refine (List.mem_append.mp inside).resolve_left fun taken => ?_
  exact absurd ((List.mem_takeWhile_imp taken).symm.trans fails) (by decide)

theorem mem_takeWhile {set : RangeSet} (ordered : Ordered set) (inside : range ∈ set) {stop : Nat}
    (starts : range.1 < stop) :
    range ∈ set.takeWhile (·.1 < stop) := by
  induction set with
  | nil => cases inside
  | cons first later ih =>
    obtain ⟨⟨own, behind⟩, ordered'⟩ := ordered_cons.mp ordered
    have early : first.1 < stop := by
      rcases List.mem_cons.mp inside with rfl | inside
      · exact starts
      · have := behind range inside
        omega
    have front : (first :: later).takeWhile (fun range => decide (range.1 < stop)) =
      first :: later.takeWhile (·.1 < stop) :=
      List.takeWhile_cons_of_pos (decide_eq_true early)
    rw [front]
    exact List.mem_cons.mpr ((List.mem_cons.mp inside).imp_right (ih ordered'))

theorem intersect_cover {set : RangeSet} (ordered : Ordered set) (start stop : Nat) :
    cover (intersect set start stop) = cover set ∩ Set.Ico start stop := by
  ext x
  constructor
  · rintro ⟨piece, inside, low, high⟩
    obtain ⟨range, member, rfl⟩ := List.mem_map.mp inside
    have own := (List.dropWhile_sublist _).subset ((List.takeWhile_prefix _).subset member)
    exact ⟨⟨range, own, (Nat.max_le.mp low).1, (Nat.lt_min.mp high).1⟩, (Nat.max_le.mp low).2, (Nat.lt_min.mp high).2⟩
  · rintro ⟨⟨range, inside, low, high⟩, above, below⟩
    have kept := mem_dropWhile (fun range => decide (range.2 ≤ start)) inside (decide_eq_false (by omega))
    have starts : range.1 < stop := Nat.lt_of_le_of_lt low below
    have member := mem_takeWhile (ordered.sublist (List.dropWhile_sublist _)) kept starts
    exact ⟨_, List.mem_map_of_mem member, max_le low above, lt_min high below⟩

theorem outside_iff {set : RangeSet} (ordered : Ordered set) (start stop : Nat) :
    outside set start stop = true ↔ ¬cover set ⊆ Set.Ico start stop := by
  simp only [outside, List.any_eq_true, Bool.or_eq_true, decide_eq_true_eq, Set.not_subset]
  constructor
  · rintro ⟨range, inside, before | behind⟩
    · exact ⟨range.1, ⟨range, inside, Nat.le_refl _, ordered.proper range inside⟩,
        fun within => Nat.not_lt.mpr within.1 before⟩
    · have proper := ordered.proper range inside
      refine ⟨range.2 - 1, ⟨range, inside, by omega, by omega⟩, fun within => ?_⟩
      have := within.2
      omega
  · rintro ⟨x, ⟨range, inside, low, high⟩, off⟩
    refine ⟨range, inside, ?_⟩
    rw [Set.mem_Ico] at off
    omega

/-- The inner loop leaves what the other ranges do not cover. -/
theorem minusFrom_cover {list : RangeSet} (ordered : Ordered list) (offset stop : Nat) :
    cover (minusFrom stop offset list) = Set.Ico offset stop \ cover list := by
  induction list generalizing offset with
  | nil =>
    rw [minusFrom]
    split
    · simp
    · next empty => simp [Set.Ico_eq_empty empty]
  | cons range later ih =>
    obtain ⟨⟨own, first⟩, ordered'⟩ := ordered_cons.mp ordered
    ext x
    have behind : x ∈ cover later → range.2 ≤ x := ordered.behind
    have mem : x ∈ cover (range :: later) ↔ (range.1 ≤ x ∧ x < range.2) ∨ x ∈ cover later := by
      rw [cover_cons, Set.mem_union, Set.mem_Ico]
    rw [minusFrom]
    split
    · have single : x ∈ cover (if offset < stop then [(offset, stop)] else []) ↔ offset ≤ x ∧ x < stop := by
        split <;> simp
        omega
      rw [single, Set.mem_sdiff, mem, Set.mem_Ico]
      by_cases covered : x ∈ cover later
      · have := behind covered
        simp only [covered, or_true, not_true_eq_false, and_false, iff_false]
        omega
      · simp only [covered, or_false]
        omega
    · have gap : x ∈ cover (if offset < range.1 then [(offset, range.1)] else []) ↔ offset ≤ x ∧ x < range.1 := by
        split <;> simp
        omega
      rw [cover_append, Set.mem_union, ih ordered', gap, Set.mem_sdiff, Set.mem_sdiff, mem, Set.mem_Ico, Set.mem_Ico]
      by_cases covered : x ∈ cover later
      · have := behind covered
        simp only [covered, or_true, not_true_eq_false, and_false, or_false, iff_false]
        omega
      · simp only [covered, or_false, not_false_eq_true, and_true]
        omega

theorem minus_cover {a b : RangeSet} (ordered : Ordered b) : cover (minus a b) = cover a \ cover b := by
  ext x
  rw [minus, mem_cover_flatMap]
  constructor
  · rintro ⟨range, inside, covered⟩
    rw [minusFrom_cover (ordered.sublist (List.dropWhile_sublist _))] at covered
    refine ⟨⟨range, inside, covered.1⟩, fun ⟨other, member, within⟩ =>
      covered.2 ⟨other, mem_dropWhile _ member ?_, within⟩⟩
    have := covered.1.1
    have := within.2
    exact decide_eq_false (by omega)
  · rintro ⟨⟨range, inside, within⟩, off⟩
    refine ⟨range, inside, ?_⟩
    rw [minusFrom_cover (ordered.sublist (List.dropWhile_sublist _))]
    exact ⟨within, fun ⟨other, member, covered⟩ => off ⟨other, (List.dropWhile_sublist _).subset member, covered⟩⟩

/-- An operation on a set. -/
inductive Op where
  | whole (len : Nat)
  | add (start stop : Nat)
  | subtract (start stop : Nat)
  | edit (start oldLen newLen : Nat)
  deriving DecidableEq, Repr

namespace Op

/-- The offsets of an operation are below `2^31`. -/
def Small : Op → Prop
  | whole len => len < 2 ^ 31
  | add start stop | subtract start stop => start < 2 ^ 31 ∧ stop < 2 ^ 31
  | edit start oldLen newLen => start + oldLen < 2 ^ 31 ∧ start + newLen < 2 ^ 31

instance : (op : Op) → Decidable op.Small
  | whole _ => inferInstanceAs (Decidable (_ < _))
  | add _ _ | subtract _ _ | edit _ _ _ => inferInstanceAs (Decidable (_ ∧ _))

def apply (set : RangeSet) : Op → RangeSet
  | whole len => Ranges.whole len
  | add start stop => Ranges.add set start stop
  | subtract start stop => Ranges.subtract set start stop
  | edit start oldLen newLen => Ranges.edit set start oldLen newLen

def image (offsets : Set Nat) : Op → Set Nat
  | whole len => Set.Ico 0 len
  | add start stop => offsets ∪ Set.Ico start stop
  | subtract start stop => offsets \ Set.Ico start stop
  | edit start oldLen newLen => shift start oldLen newLen '' (offsets \ Set.Ico start (start + oldLen))

/-- `add` and `edit` join what touches. -/
def Joins : Op → Prop
  | add _ _ | edit _ _ _ => True
  | whole _ | subtract _ _ => False

/-- The operation does not cut a range in two by subtracting nothing from it. -/
def Clean (set : RangeSet) : Op → Prop
  | subtract start stop => ¬Splits set start stop
  | whole _ | add _ _ | edit _ _ _ => True

instance (set : RangeSet) : (op : Op) → Decidable (op.Clean set)
  | subtract _ _ => inferInstanceAs (Decidable (¬_))
  | whole _ | add _ _ | edit _ _ _ => inferInstanceAs (Decidable True)

end Op

/-- An operation with all offsets below `2^31`, those of the set included. -/
def step (set : RangeSet) (op : Op) : Option RangeSet :=
  if op.Small ∧ ∀ range ∈ set, range.2 < 2 ^ 31 then some (op.apply set) else none

/-- What an operation and the questions after it answer is arithmetic of sets. -/
structure Exact (set : RangeSet) (op : Op) (next : RangeSet) : Prop where
  ordered : Ordered next
  apart : op.Joins → Apart next
  covers : cover next = op.image (cover set)
  intersect : ∀ start stop, cover (intersect next start stop) = cover next ∩ Set.Ico start stop
  outside : ∀ start stop, outside next start stop = true ↔ ¬cover next ⊆ Set.Ico start stop
  minus : ∀ other, Ordered other → cover (minus next other) = cover next \ cover other ∧
    cover (minus other next) = cover other \ cover next

/-- One operation on ranges that are apart leaves them apart and does what it is meant to. -/
theorem step_exact {set : RangeSet} {op : Op} (ordered : Ordered set) (apart : Apart set) (clean : op.Clean set)
    (stepped : step set op = some next) : Exact set op next ∧ Apart next := by
  obtain ⟨⟨small, ends⟩, same⟩ := Option.ite_none_right_eq_some.mp stepped
  cases same
  have kept : Ordered (op.apply set) ∧ Apart (op.apply set) ∧ cover (op.apply set) = op.image (cover set) := by
    cases op with
    | whole len => exact whole_spec len
    | add start stop =>
      obtain ⟨kept, covers, apart'⟩ := add_spec ordered start stop
      exact ⟨kept, apart' apart, covers⟩
    | subtract start stop => exact subtract_spec ordered apart start stop clean
    | edit start oldLen newLen => exact edit_spec ordered small.1 (by have := small.2; omega) ends
  exact ⟨⟨kept.1, fun _ => kept.2.1, kept.2.2, intersect_cover kept.1, outside_iff kept.1,
    fun other ordered' => ⟨minus_cover ordered', minus_cover kept.1⟩⟩, kept.2.1⟩

/-- Every operation of a run is exact. -/
def AllExact (set : RangeSet) (ops : List Op) : Prop :=
  ∀ front op rest before next, ops = front ++ op :: rest → run step set front = some before →
    step before op = some next → Exact before op next

theorem allExact_of_apart {set : RangeSet} {ops : List Op} (ordered : Ordered set) (apart : Apart set)
    (along : Along step (fun set op => op.Clean set) set ops) : AllExact set ops := by
  induction ops generalizing set with
  | nil => exact fun front op rest before next split => absurd split (by simp)
  | cons first later ih =>
    intro front op rest before next split ran stepped
    cases front with
    | nil =>
      obtain ⟨rfl, -⟩ := List.cons.inj split
      cases ran
      exact (step_exact ordered apart along.1 stepped).1
    | cons _ front =>
      obtain ⟨rfl, rfl⟩ := List.cons.inj split
      obtain ⟨after, stepped', ran⟩ := run_cons_some ran
      obtain ⟨exact', apart'⟩ := step_exact ordered apart along.1 stepped'
      exact ih exact'.ordered apart' (along.2 after stepped') front op rest before next rfl ran stepped

/-- From the empty set on, every operation of a run is exact when none subtracts nothing from inside a range. -/
theorem range_sets_exact (ops : List Op) (along : Along step (fun set op => op.Clean set) [] ops) : AllExact [] ops :=
  allExact_of_apart ordered_nil List.Pairwise.nil along

/-- A part is painted, some of it anew, and the text is edited across it. -/
theorem range_sets_exact_painted : AllExact [] [.whole 10, .subtract 2 6, .add 3 5, .edit 1 4 2] :=
  range_sets_exact [.whole 10, .subtract 2 6, .add 3 5, .edit 1 4 2] (by decide)

/-- An empty range painted inside a range cuts it in two that touch, and adding a range elsewhere leaves them so. -/
theorem touching_ranges : ¬∀ ops, AllExact [] ops := by
  intro every
  have exact' := every [.whole 10, .subtract 5 5, .add 20 30] [.whole 10, .subtract 5 5] (.add 20 30) []
    [(0, 5), (5, 10)] [(0, 5), (5, 10), (20, 30)] rfl rfl rfl
  exact absurd (exact'.apart trivial) (by unfold Apart; decide)

end QueryHive.Editor.Ranges
