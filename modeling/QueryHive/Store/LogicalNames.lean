import QueryHive.Library.Occurrences
import QueryHive.Library.Text
import QueryHive.Store.Render

/-! The column names SQL sees. `logical_names` counts each name, without regard to the case of
ASCII letters, and gives every repetition the number of its occurrence. Nothing checks that a
numbered name is new: it can be the name another column has of its own. -/
namespace QueryHive.Store.LogicalNames
open QueryHive.Library Occurrences

/-- What the schema reads of a column. -/
structure ColumnMeta where
  name : String
  deriving DecidableEq, Repr

/-- `str::to_ascii_lowercase`. -/
def toAsciiLowercase (text : String) : String := String.ofList (text.toList.map Char.toLower)

/-- The name of a column, `column_<i>` where the server gave none. -/
def ownName (index : Nat) (column : ColumnMeta) : String :=
  if column.name = "" then "column_" ++ natText index else column.name

/-- The loop of `logical_names`; the counts are 32 bits wide and wrap. -/
def namesFrom (counts : String → UInt32) (index : Nat) : List ColumnMeta → List String
  | [] => []
  | column :: rest =>
    let name := ownName index column
    let key := toAsciiLowercase name
    let used := counts key
    let counts := Function.update counts key (used + 1)
    (if used = 0 then name else name ++ "_" ++ natText (used + 1).toNat) :: namesFrom counts (index + 1) rest

/-- `logical_names`. -/
def logicalNames (columns : List ColumnMeta) : List String := namesFrom (fun _ => 0) 0 columns

/-- The names of the columns before any is numbered, as the loop compares them. -/
def ownKeys (columns : List ColumnMeta) : List String :=
  columns.mapIdx fun index column => toAsciiLowercase (ownName index column)

/-- The key a column is given for the `number`-th repetition of its name, counted from zero. -/
def label (occurrence : String × Nat) : String :=
  if occurrence.2 % 2 ^ 32 = 0 then occurrence.1
  else occurrence.1 ++ "_" ++ natText ((occurrence.2 + 1) % 2 ^ 32)

theorem namesFrom_length (counts : String → UInt32) (index : Nat) (columns : List ColumnMeta) :
    (namesFrom counts index columns).length = columns.length := by
  induction columns generalizing counts index with
  | nil => rfl
  | cons column rest ih => simp [namesFrom, ih]

theorem toLower_digit {c : Char} (digit : c.isDigit = true) : c.toLower = c := by
  rcases Text.toLower_cases c with ⟨upper, -⟩ | same
  · have bounds := Numeral.digit_toNat digit
    have capital : c.val ≥ 'A'.val ∧ c.val ≤ 'Z'.val := of_decide_eq_true upper
    have low : 65 ≤ c.toNat := UInt32.le_iff_toNat_le.mp capital.1
    omega
  · exact same

theorem toAsciiLowercase_numbered (name : String) (n : Nat) :
    toAsciiLowercase (name ++ "_" ++ natText n) = toAsciiLowercase name ++ "_" ++ natText n := by
  have digits : (Nat.toDigits 10 n).map Char.toLower = Nat.toDigits 10 n := by
    rw [List.map_congr_left (g := id), List.map_id]
    intro c inside
    exact toLower_digit (Numeral.digit_of_allDigits (Numeral.allDigits_toDigits n) inside)
  rw [← String.toList_inj]
  simp [toAsciiLowercase, natText, digits]

theorem counts_step (before : List String) (key : String) :
    Function.update (fun key => UInt32.ofNat (before.count key)) key (UInt32.ofNat (before.count key) + 1) =
      fun other => UInt32.ofNat ((key :: before).count other) := by
  funext other
  by_cases same : other = key
  · subst same
    rw [Function.update_self, List.count_cons_self, UInt32.ofNat_add]
    rfl
  · rw [Function.update_of_ne same, List.count_cons_of_ne (Ne.symm same)]

theorem label_step (name : String) (number : Nat) :
    toAsciiLowercase (if UInt32.ofNat number = 0 then name else name ++ "_" ++ natText
      (UInt32.ofNat number + 1).toNat) =
      label (toAsciiLowercase name, number) := by
  have fresh : UInt32.ofNat number = 0 ↔ number % 2 ^ 32 = 0 := by
    rw [← UInt32.toNat_inj, UInt32.toNat_ofNat']
    rfl
  have next : (UInt32.ofNat number + 1).toNat = (number + 1) % 2 ^ 32 := by
    rw [UInt32.toNat_add, UInt32.toNat_ofNat']
    exact Nat.mod_add_mod number (2 ^ 32) 1
  simp only [fresh, label]
  split
  · rfl
  · rw [toAsciiLowercase_numbered, next]

theorem namesFrom_keys (before : List String) (index : Nat) (columns : List ColumnMeta) :
    (namesFrom (fun key => UInt32.ofNat (before.count key)) index columns).map toAsciiLowercase =
      (numberedFrom before (columns.mapIdx fun i column =>
      toAsciiLowercase (ownName (index + i) column))).map label := by
  induction columns generalizing before index with
  | nil => rfl
  | cons column rest ih =>
    have places : (fun (i : Nat) (column : ColumnMeta) => toAsciiLowercase (ownName (index + (i + 1)) column)) =
        fun i column => toAsciiLowercase (ownName (index + 1 + i) column) := by
      funext i column
      rw [Nat.add_assoc, Nat.add_comm 1 i]
    rw [List.mapIdx_cons, places, numberedFrom, namesFrom]
    simp only [List.map_cons, counts_step, ih, label_step, Nat.add_zero]

theorem logicalNames_keys (columns : List ColumnMeta) :
    (logicalNames columns).map toAsciiLowercase = (numbered (ownKeys columns)).map label := by
  have keys := namesFrom_keys [] 0 columns
  simpa [logicalNames, numbered, ownKeys] using keys

theorem numbered_name_inj (same : name ++ "_" ++ natText m = other ++ "_" ++ natText n) : name = other ∧ m = n := by
  have clear : ∀ k, ∀ c ∈ Nat.toDigits 10 k, (c == '_') = false := by
    intro k c inside
    have digit := Numeral.digit_of_allDigits (Numeral.allDigits_toDigits k) inside
    rw [beq_eq_false_iff_ne]
    rintro rfl
    exact absurd digit (by decide)
  have split : ∀ (text : String) k, Text.splitLast (· == '_') (text ++ "_" ++ natText k).toList =
      some (text.toList, '_', Nat.toDigits 10 k) := by
    intro text k
    have parts : Text.splitLast (· == '_') (text.toList ++ '_' :: Nat.toDigits 10 k) =
        some (text.toList, '_', Nat.toDigits 10 k) := Text.splitLast_at text.toList rfl (clear k)
    simpa [natText] using parts
  have pieces := split name m
  rw [same, split other n] at pieces
  simp only [Option.some.injEq, Prod.mk.injEq, true_and] at pieces
  refine ⟨(String.toList_inj.mp pieces.1).symm, ?_⟩
  rw [← Numeral.value_toDigits m, ← pieces.2, Numeral.value_toDigits]

/-- No key comes back to its first number, and none is another one with a number given to it. -/
def NamesApart (columns : List ColumnMeta) : Prop :=
  ∀ key ∈ ownKeys columns, (ownKeys columns).count key ≤ 2 ^ 32 ∧
    ∀ number < (ownKeys columns).count key, 0 < number →
      key ++ "_" ++ natText ((number + 1) % 2 ^ 32) ∉ ownKeys columns

instance (columns : List ColumnMeta) : Decidable (NamesApart columns) :=
  inferInstanceAs (Decidable (∀ key ∈ ownKeys columns, _ ∧ ∀ number < _, 0 < number → _))

theorem label_first (key : String) (number : Nat) (first : number % 2 ^ 32 = 0) :
    label (key, number) = key := if_pos first

theorem label_later (key : String) (number : Nat) (later : number % 2 ^ 32 ≠ 0) :
    label (key, number) = key ++ "_" ++ natText ((number + 1) % 2 ^ 32) := if_neg later

/-- Two occurrences with one label are the same when no key is another one with its number. -/
theorem label_inj (apart : NamesApart columns) {first second : String × Nat}
    (inside : first.2 < (ownKeys columns).count first.1) (inside' : second.2 < (ownKeys columns).count second.1)
    (same : label first = label second) : first = second := by
  obtain ⟨key, number⟩ := first
  obtain ⟨key', number'⟩ := second
  dsimp only at inside inside'
  have member : key ∈ ownKeys columns := List.count_pos_iff.mp (by omega)
  have member' : key' ∈ ownKeys columns := List.count_pos_iff.mp (by omega)
  obtain ⟨few, fresh⟩ := apart key member
  obtain ⟨few', fresh'⟩ := apart key' member'
  by_cases start : number % 2 ^ 32 = 0 <;> by_cases start' : number' % 2 ^ 32 = 0
  · rw [label_first key number start, label_first key' number' start'] at same
    rw [same, show number = number' by omega]
  · rw [label_first key number start, label_later key' number' start'] at same
    exact absurd (same ▸ member) (fresh' number' inside' (by omega))
  · rw [label_later key number start, label_first key' number' start'] at same
    exact absurd (same ▸ member') (fresh number inside (by omega))
  · rw [label_later key number start, label_later key' number' start'] at same
    obtain ⟨keys, numbers⟩ := numbered_name_inj same
    rw [keys, show number = number' by omega]

/-- The names are as many as the columns; they are all different, the case of ASCII letters
aside, exactly when no column's own name is the numbered one another column is given. -/
theorem logical_names_distinct_iff (columns : List ColumnMeta) :
    ((logicalNames columns).length = columns.length ∧ ((logicalNames columns).map toAsciiLowercase).Nodup) ↔
      NamesApart columns := by
  have length : (logicalNames columns).length = columns.length := namesFrom_length _ 0 columns
  rw [and_iff_right length, logicalNames_keys, nodup_labels_iff]
  constructor
  · intro apart key member
    have present : 0 < (ownKeys columns).count key := List.count_pos_iff.mpr member
    constructor
    · by_contra many
      have wraps := apart (key, 0) (key, 2 ^ 32) present (Nat.lt_of_not_le many)
        ((label_first key 0 rfl).trans (label_first key _ (Nat.mod_self _)).symm)
      cases wraps
    · intro number inside later taken
      have own := List.count_pos_iff.mpr taken
      have small : number % 2 ^ 32 ≠ 0 := by
        intro wrapped
        have wraps := apart (key, 0) (key, number) present inside (label_first key number wrapped).symm
        cases wraps
        exact Nat.lt_irrefl 0 later
      have meet := apart (key, number) (_, 0) inside own (label_later key number small)
      exact Nat.ne_of_gt later (Prod.mk.inj meet).2
  · intro apart first second inside inside' same
    exact label_inj apart inside inside' same

/-- A column that is called what the second of two others is renamed to. -/
theorem numbered_name_taken :
    ¬∀ columns, (logicalNames columns).length = columns.length ∧
      ((logicalNames columns).map toAsciiLowercase).Nodup := by
  intro always
  have distinct := (always [⟨"a"⟩, ⟨"A"⟩, ⟨"a_2"⟩]).2
  revert distinct
  decide

example : logicalNames [⟨"a"⟩, ⟨"A"⟩, ⟨"a_2"⟩, ⟨""⟩] = ["a", "A_2", "a_2", "column_3"] := by decide

end QueryHive.Store.LogicalNames
