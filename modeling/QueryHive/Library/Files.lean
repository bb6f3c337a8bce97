import Mathlib.Logic.Function.Basic

/-! A disk as a map from paths to what is there: a file, a symbolic link or a
folder. Creating, removing and renaming change the paths they name and no other;
following links leads to the same place as long as no link on the way changes. -/
namespace QueryHive.Library.Files

universe u v
variable {π : Type u} {κ : Type v}

/-- What a path names. -/
inductive Node (π : Type u) (κ : Type v) where
  | file (content : κ)
  | link (target : π)
  | folder

/-- What is on a disk; `none` where nothing is. -/
abbrev Disk (π : Type u) (κ : Type v) := π → Option (Node π κ)

/-- Follow links, so many at most, to something that is no link. -/
def Disk.resolve (disk : Disk π κ) : Nat → π → Option π
  | 0, _ => none
  | hops + 1, path =>
    match disk path with
    | none => none
    | some (.link target) => disk.resolve hops target
    | some _ => some path

/-- The links a system follows before it gives up. -/
def maxHops : Nat := 40

/-- `canonicalize`: the place a path leads to. -/
def Disk.canonicalize (disk : Disk π κ) (path : π) : Option π := disk.resolve (maxHops + 1) path

def Disk.read (disk : Disk π κ) (path : π) : Option κ :=
  (disk.canonicalize path).bind fun place =>
    match disk place with
    | some (.file content) => some content
    | _ => none

section
variable [DecidableEq π]

def Disk.put (disk : Disk π κ) (path : π) (node : Option (Node π κ)) : Disk π κ := Function.update disk path node

def Disk.write (disk : Disk π κ) (path : π) (content : κ) : Disk π κ := disk.put path (some (.file content))

def Disk.remove (disk : Disk π κ) (path : π) : Disk π κ := disk.put path none

/-- Move what is at one path to another, over a file or a link that is there, but
not over a folder. A path moved to itself stays. -/
def Disk.rename (disk : Disk π κ) (source target : π) : Option (Disk π κ) :=
  match disk source, disk target with
  | none, _ | _, some .folder => none
  | some node, _ => some (if source = target then disk else (disk.remove source).put target (some node))

@[simp] theorem put_same (disk : Disk π κ) (path : π) (node : Option (Node π κ)) : disk.put path node path = node := by
  rw [Disk.put, Function.update_self]

theorem put_other {path other : π} (different : other ≠ path) (disk : Disk π κ) (node : Option (Node π κ)) :
    disk.put path node other = disk other := by
  rw [Disk.put, Function.update_of_ne different]

theorem put_eq (disk : Disk π κ) (path other : π) (node : Option (Node π κ)) :
    disk.put path node other = if other = path then node else disk other := by
  by_cases same : other = path
  · rw [same, put_same, if_pos rfl]
  · rw [put_other same, if_neg same]

theorem rename_target {disk : Disk π κ} (there : disk source = some node)
    (moved : disk.rename source target = some after) :
    after target = some node := by
  unfold Disk.rename at moved
  rw [there] at moved
  split at moved
  · cases moved
  · cases moved
  · next found _ =>
    cases found
    cases moved
    by_cases same : source = target
    · rw [if_pos same, ← same, there]
    · rw [if_neg same, put_same]

theorem rename_other {disk : Disk π κ} (moved : disk.rename source target = some after) (fromSource : path ≠ source)
    (fromTarget : path ≠ target) : after path = disk path := by
  unfold Disk.rename at moved
  split at moved
  · cases moved
  · cases moved
  · cases moved
    by_cases same : source = target
    · rw [if_pos same]
    · rw [if_neg same, put_other fromTarget, Disk.remove, put_other fromSource]

theorem remove_all (disk : Disk π κ) (paths : List π) (path : π) :
    paths.foldl Disk.remove disk path = if path ∈ paths then none else disk path := by
  induction paths generalizing disk with
  | nil => simp
  | cons first paths ih =>
    rw [List.foldl_cons, ih, Disk.remove, put_eq]
    by_cases later : path ∈ paths
    · simp [later]
    · by_cases same : path = first <;> simp [later, same]

end

theorem resolve_place {disk : Disk π κ} (leads : disk.resolve hops path = some place) :
    ∃ node, disk place = some node ∧ ∀ target, node ≠ .link target := by
  induction hops generalizing path with
  | zero => cases leads
  | succ hops ih =>
    unfold Disk.resolve at leads
    split at leads
    · cases leads
    · exact ih leads
    · next node plain there =>
      cases leads
      exact ⟨node, there, plain⟩

/-- Links lead to the same place while every link stays and the place holds no link. -/
theorem resolve_congr {disk later : Disk π κ} (leads : disk.resolve hops path = some place)
    (links : ∀ path target, disk path = some (.link target) → later path = some (.link target))
    (there : later place = some node) (plain : ∀ target, node ≠ .link target) :
    later.resolve hops path = some place := by
  induction hops generalizing path with
  | zero => cases leads
  | succ hops ih =>
    unfold Disk.resolve at leads ⊢
    split at leads
    · cases leads
    · next target found =>
      rw [links path target found]
      exact ih leads
    · cases leads
      rw [there]
      cases node with
      | link target => exact absurd rfl (plain target)
      | file content => rfl
      | folder => rfl

theorem read_file {disk : Disk π κ} (there : disk path = some (.file content)) : disk.read path = some content := by
  have leads : disk.canonicalize path = some path := by
    unfold Disk.canonicalize Disk.resolve
    rw [there]
  rw [Disk.read, leads]
  simp only [Option.bind_some, there]

end QueryHive.Library.Files
