import Mathlib.Data.List.Basic

/-! A file that is written and read at places. What is written reads back, also after later
writes as long as these begin behind it. -/
namespace QueryHive.Library.Medium

universe u
variable {α : Type u} {content : List α}

/-- The content with other entries from a place on. A gap before the place is filled up. -/
def pwrite (hole : α) (content : List α) (place : Nat) (data : List α) : List α :=
  content.take place ++ List.replicate (place - content.length) hole ++ data ++ content.drop (place + data.length)

/-- So many entries from a place on, if they are there. -/
def pread (content : List α) (place len : Nat) : Option (List α) :=
  if place + len ≤ content.length then some ((content.drop place).take len) else none

theorem pwrite_inside (inside : place ≤ content.length) (hole : α) (data : List α) :
    pwrite hole content place data = content.take place ++ (data ++ content.drop (place + data.length)) := by
  rw [pwrite, Nat.sub_eq_zero_of_le inside, List.replicate_zero, List.append_nil, List.append_assoc]

theorem length_pwrite (inside : place ≤ content.length) (hole : α) (data : List α) :
    (pwrite hole content place data).length = max content.length (place + data.length) := by
  rw [pwrite_inside inside, List.length_append, List.length_append, List.length_take, List.length_drop]
  omega

theorem pread_pwrite (inside : place ≤ content.length) (hole : α) (data : List α) :
    pread (pwrite hole content place data) place data.length = some data := by
  have front : (content.take place).length = place := List.length_take_of_le inside
  have long : place + data.length ≤ (pwrite hole content place data).length :=
    length_pwrite inside hole data ▸ Nat.le_max_right _ _
  rw [pread, if_pos long, pwrite_inside inside, List.drop_append_of_le_length (Nat.le_of_eq front.symm),
    List.drop_eq_nil_of_le (Nat.le_of_eq front), List.nil_append, List.take_left]

theorem pread_pwrite_before (before : start + len ≤ place) (inside : place ≤ content.length) (hole : α)
    (data : List α) :
    pread (pwrite hole content place data) start len = pread content start len := by
  have front : (content.take place).length = place := List.length_take_of_le inside
  have long : start + len ≤ (pwrite hole content place data).length := by
    rw [length_pwrite inside]
    omega
  have short : start ≤ (content.take place).length := by omega
  have covered : len ≤ ((content.take place).drop start).length := by
    rw [List.length_drop]
    omega
  rw [pread, if_pos long, pread, if_pos (Nat.le_trans before inside), pwrite_inside inside,
    List.drop_append_of_le_length short, List.take_append_of_le_length covered, List.drop_take, List.take_take,
    Nat.min_eq_left (by omega)]

end QueryHive.Library.Medium
