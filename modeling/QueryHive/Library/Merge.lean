import QueryHive.Library.Table

/-! Merging rows into a table by rank: a row takes the place of the one with its key when it ranks higher, and otherwise
nothing changes. What a table holds after that depends only on which rows it has heard of, not on their order or number,
as long as the highest rank of a key is not shared by two rows. -/
namespace QueryHive.Library.Table

universe u v w
variable {κ : Type u} {ρ : Type v} {τ : Type w} [LinearOrder κ] [LinearOrder τ] {key : ρ → κ} {rank : ρ → τ}
  {table other : Table key} {rows others heard : List ρ} {row : ρ}

def merge (rank : ρ → τ) (table : Table key) (row : ρ) : Table key :=
  match table.find (key row) with
  | some old => if rank old < rank row then table.upsert row else table
  | none => table.upsert row

def mergeAll (rank : ρ → τ) (table : Table key) (rows : List ρ) : Table key := rows.foldl (merge rank) table

def Heard (table : Table key) (rows heard : List ρ) : Prop := ∀ row, row ∈ heard ↔ row ∈ table ∨ row ∈ rows

/-- No two rows share the highest rank of a key. -/
def Unambiguous (key : ρ → κ) (rank : ρ → τ) (heard : List ρ) : Prop :=
  ∀ a ∈ heard, ∀ b ∈ heard, key a = key b → rank a = rank b → (∀ c ∈ heard, key c = key a → rank c ≤ rank a) → a = b

theorem mem_merge (inside : r ∈ merge rank table row) : r = row ∨ r ∈ table := by
  unfold merge at inside
  split at inside
  · split at inside
    · exact (mem_upsert_iff.mp inside).imp_right And.left
    · exact .inr inside
  · exact (mem_upsert_iff.mp inside).imp_right And.left

theorem merge_rises (rank : ρ → τ) (there : r = row ∨ r ∈ table) :
    ∃ s ∈ merge rank table row, key s = key r ∧ rank r ≤ rank s := by
  have upserted (above : r ∈ table → key r = key row → rank r ≤ rank row) :
      ∃ s ∈ table.upsert row, key s = key r ∧ rank r ≤ rank s := by
    by_cases same : key r = key row
    · exact ⟨row, mem_upsert_iff.mpr (.inl rfl), same.symm, there.elim (fun is => is ▸ le_refl _) fun inside =>
        above inside same⟩
    · have inside := there.resolve_left fun is => same (is ▸ rfl)
      exact ⟨r, mem_upsert_iff.mpr (.inr ⟨inside, same⟩), rfl, le_refl _⟩
  unfold merge
  split
  next old found =>
    obtain ⟨inside, named⟩ := find_eq_some_iff.mp found
    split
    next higher => exact upserted fun here same => (unique here inside (same.trans named.symm)) ▸ higher.le
    next lower =>
      rcases there with rfl | here
      · exact ⟨old, inside, named, not_lt.mp lower⟩
      · exact ⟨r, here, rfl, le_refl _⟩
  next missing => exact upserted fun here same => absurd same (find_eq_none_iff.mp missing r here)

theorem mem_mergeAll (inside : r ∈ mergeAll rank table rows) : r ∈ table ∨ r ∈ rows := by
  induction rows generalizing table with
  | nil => exact .inl inside
  | cons row rows ih =>
    rcases ih inside with merged | later
    · exact (mem_merge merged).elim (fun is => .inr (is ▸ List.mem_cons_self)) .inl
    · exact .inr (List.mem_cons_of_mem _ later)

theorem mergeAll_rises (rank : ρ → τ) (there : r ∈ table ∨ r ∈ rows) :
    ∃ s ∈ mergeAll rank table rows, key s = key r ∧ rank r ≤ rank s := by
  induction rows generalizing table r with
  | nil => exact ⟨r, there.resolve_right List.not_mem_nil, rfl, le_refl _⟩
  | cons row rows ih =>
    have now : r ∈ rows ∨ r = row ∨ r ∈ table := by
      rw [List.mem_cons] at there
      tauto
    rcases now with later | here
    · exact ih (.inr later)
    · obtain ⟨s, merged, same, above⟩ := merge_rises rank here
      obtain ⟨t, last, same', above'⟩ := ih (.inl merged)
      exact ⟨t, last, same'.trans same, above.trans above'⟩

theorem mergeAll_highest (knows : Heard table rows heard) (left : a ∈ mergeAll rank table rows) (inside : c ∈ heard)
    (same : key c = key a) : rank c ≤ rank a := by
  obtain ⟨s, there, named, above⟩ := mergeAll_rises rank ((knows c).mp inside)
  rwa [unique there left (named.trans same)] at above

theorem mergeAll_agree (settled : Unambiguous key rank heard) (knows : Heard table rows heard)
    (knows' : Heard other others heard) :
    mergeAll rank table rows = mergeAll rank other others := by
  have half {a : ρ} {table other : Table key} {rows others : List ρ} (knows : Heard table rows heard)
    (knows' : Heard other others heard)
      (left : a ∈ mergeAll rank table rows) : a ∈ mergeAll rank other others := by
    have inside := (knows a).mpr (mem_mergeAll left)
    obtain ⟨b, there, same, above⟩ := mergeAll_rises rank ((knows' a).mp inside)
    have heardOf := (knows' b).mpr (mem_mergeAll there)
    have equal := le_antisymm above (mergeAll_highest knows left heardOf same)
    rwa [settled a inside b heardOf same.symm equal fun c inside same => mergeAll_highest knows left inside same]
  exact ext_mem fun a => ⟨half knows knows', half knows' knows⟩

theorem first_stays (highest : ∀ c ∈ heard, key c = key a → rank c ≤ rank a) :
    a ∈ mergeAll rank ({} : Table key) (a :: heard) := by
  have stays {rows : List ρ} (among : ∀ c ∈ rows, c ∈ heard) {table : Table key} (here : a ∈ table) :
      a ∈ mergeAll rank table rows := by
    induction rows generalizing table with
    | nil => exact here
    | cons row rows ih =>
      refine ih (fun _ later => among _ (List.mem_cons_of_mem _ later)) ?_
      have below := highest row (among row List.mem_cons_self)
      unfold merge
      split
      next old found =>
        obtain ⟨there, named⟩ := find_eq_some_iff.mp found
        split
        next higher =>
          refine mem_upsert_iff.mpr (.inr ⟨here, fun same => ?_⟩)
          rw [unique there here (named.trans same.symm)] at higher
          exact absurd (below same.symm) (not_le.mpr higher)
        next => exact here
      next missing => exact mem_upsert_iff.mpr (.inr ⟨here, find_eq_none_iff.mp missing a here⟩)
  exact stays (fun _ => id) (mem_upsert_iff.mpr (.inl rfl))

theorem heard_first (inside : a ∈ heard) : Heard ({} : Table key) (a :: heard) heard := fun _ =>
  ⟨fun there => .inr (List.mem_cons_of_mem _ there),
    fun either => either.elim (fun none => absurd none List.not_mem_nil)
    fun there => (List.mem_cons.mp there).elim (fun is => is ▸ inside) id⟩

theorem heard_all : Heard ({} : Table key) rows rows := fun _ => (or_iff_right List.not_mem_nil).symm

theorem mergeAll_differ (a b : ρ) (same : key a = key b) (tied : rank a = rank b)
    (highest : ∀ c ∈ heard, key c = key a → rank c ≤ rank a)
    (agree : mergeAll rank ({} : Table key) (a :: heard) = mergeAll rank {} (b :: heard)) : a = b := by
  have left := first_stays highest
  have right := first_stays fun c inside named => tied ▸ highest c inside (named.trans same.symm)
  exact unique left (agree ▸ right) same

end QueryHive.Library.Table
