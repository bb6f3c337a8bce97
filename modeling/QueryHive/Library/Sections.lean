import Mathlib.Data.List.Induction
import QueryHive.Library.Bytes

/-! A buffer laid out in sections, read at byte positions. A number or a table of numbers behind
some bytes is found at their length, whatever follows it. -/
namespace QueryHive.Library.Sections
open Bytes

universe u
variable {α : Type u} {front back : List UInt8}

/-- The number in so many bytes from a position on; a read past the end fails. -/
def readAt (count : Nat) (data : List UInt8) (position : Nat) : Option Nat :=
  if position + count ≤ data.length then some (leValue ((data.drop position).take count)) else none

/-- The bytes from a position up to another; a range that is not there fails. -/
def slice (data : List UInt8) (first last : Nat) : Option (List UInt8) :=
  if first ≤ last ∧ last ≤ data.length then some ((data.drop first).take (last - first)) else none

theorem readAt_front (front : List UInt8) (count n : Nat) (back : List UInt8) :
    readAt count (front ++ (leBytes count n ++ back)) front.length = some (n % 256 ^ count) := by
  have inside : front.length + count ≤ (front ++ (leBytes count n ++ back)).length := by
    rw [List.length_append, List.length_append, length_leBytes]
    omega
  have taken : ((front ++ (leBytes count n ++ back)).drop front.length).take count = leBytes count n := by
    rw [List.drop_left, List.take_left' (length_leBytes count n)]
  rw [readAt, if_pos inside, taken, leValue_leBytes]

/-- Numbers of so many bytes, one after another. -/
def tableBytes (count : Nat) (entries : List Nat) : List UInt8 := entries.flatMap (leBytes count)

theorem length_tableBytes (count : Nat) (entries : List Nat) :
    (tableBytes count entries).length = count * entries.length := by
  induction entries with
  | nil => rfl
  | cons entry entries ih =>
    rw [tableBytes, List.flatMap_cons, List.length_append, length_leBytes, List.length_cons, Nat.mul_succ, Nat.add_comm]
    exact congrArg (· + count) ih

/-- An entry of a table is at its place behind the table's start. -/
theorem readAt_table (front : List UInt8) (count : Nat) (back : List UInt8) {entries : List Nat}
    (place : entries[k]? = some n) :
    readAt count (front ++ (tableBytes count entries ++ back)) (front.length + count * k) = some (n % 256 ^ count) := by
  have split : tableBytes count entries =
      tableBytes count (entries.take k) ++ (leBytes count n ++ tableBytes count (entries.drop (k + 1))) := by
    obtain ⟨inside, rfl⟩ := List.getElem?_eq_some_iff.mp place
    rw [tableBytes, tableBytes, tableBytes, ← List.flatMap_cons, ← List.flatMap_append, List.getElem_cons_drop,
      List.take_append_drop]
  have start : (front ++ tableBytes count (entries.take k)).length = front.length + count * k := by
    have inside := (List.getElem?_eq_some_iff.mp place).1
    rw [List.length_append, length_tableBytes, List.length_take, Nat.min_eq_left (Nat.le_of_lt inside)]
  rw [split, List.append_assoc, List.append_assoc, ← List.append_assoc, ← start, readAt_front]

theorem slice_front (front middle back : List UInt8) :
    slice (front ++ (middle ++ back)) front.length (front.length + middle.length) = some middle := by
  have inside : front.length ≤ front.length + middle.length ∧
      front.length + middle.length ≤ (front ++ (middle ++ back)).length := by
    rw [List.length_append, List.length_append]
    omega
  rw [slice, if_pos inside, List.drop_left, Nat.add_sub_cancel_left, List.take_left]

theorem slice_part (front : List UInt8) {parts : List (List UInt8)} (place : parts[k]? = some part) :
    slice (front ++ parts.flatten) (front.length + (parts.take k).flatten.length)
      (front.length + (parts.take (k + 1)).flatten.length) = some part := by
  obtain ⟨inside, rfl⟩ := List.getElem?_eq_some_iff.mp place
  have next : (parts.take (k + 1)).flatten = (parts.take k).flatten ++ parts[k] := by
    rw [List.take_succ_eq_append_getElem inside, List.flatten_append, List.flatten_singleton]
  have whole : parts.flatten = (parts.take k).flatten ++ (parts[k] ++ (parts.drop (k + 1)).flatten) := by
    rw [← List.flatten_cons, List.getElem_cons_drop, ← List.flatten_append, List.take_append_drop]
  rw [next, whole, ← List.append_assoc, List.length_append, ← Nat.add_assoc, ← List.length_append, slice_front]

theorem slice_equal (front back : List UInt8) {parts : List (List UInt8)} (sizes : ∀ part ∈ parts, part.length = size)
    (place : parts[k]? = some part) :
    slice (front ++ (parts.flatten ++ back)) (front.length + k * size) (front.length + (k + 1) * size) = some part := by
  obtain ⟨inside, rfl⟩ := List.getElem?_eq_some_iff.mp place
  have whole : parts.flatten = (parts.take k).flatten ++ (parts[k] ++ (parts.drop (k + 1)).flatten) := by
    rw [← List.flatten_cons, List.getElem_cons_drop, ← List.flatten_append, List.take_append_drop]
  have before : (parts.take k).flatten.length = k * size := by
    have equal : ∀ length ∈ (parts.take k).map List.length, length = size := by
      intro length member
      obtain ⟨part, taken, rfl⟩ := List.mem_map.mp member
      exact sizes part (List.mem_of_mem_take taken)
    rw [List.length_flatten, List.eq_replicate_of_mem equal, List.sum_replicate_nat, List.length_map, List.length_take,
      Nat.min_eq_left (Nat.le_of_lt inside)]
  have own := sizes parts[k] (List.getElem_mem inside)
  have found := slice_front (front ++ (parts.take k).flatten) parts[k] ((parts.drop (k + 1)).flatten ++ back)
  rw [List.length_append, before, own] at found
  rw [whole, Nat.succ_mul, ← Nat.add_assoc, ← found]
  simp only [List.append_assoc]

theorem mapM_places {read : Nat → Option α} {entries : List α} (each : ∀ i entry, entries[i]? = some entry →
    read i = some entry) :
    (List.range entries.length).mapM read = some entries := by
  induction entries using List.reverseRecOn with
  | nil => rfl
  | append_singleton entries entry ih =>
    have before := ih fun i other place =>
      each i other (by rw [List.getElem?_append_left (List.getElem?_eq_some_iff.mp place).1, place])
    have last := each entries.length entry (by simp)
    rw [List.length_append, List.length_singleton, List.range_succ, List.mapM_append, before, List.mapM_cons, last]
    rfl

theorem mapM_slices (front back : List UInt8) {parts : List (List UInt8)} (sizes : ∀ part ∈ parts, part.length = size) :
    ((List.range parts.length).mapM fun index =>
      slice (front ++ (parts.flatten ++ back)) (front.length + index * size) (front.length + (index + 1) * size)) =
      some parts :=
  mapM_places fun _ _ place => slice_equal front back sizes place

/-- The sections from one on, each naming the next in a table, up to the mark that ends a chain. -/
def follow (table : List Nat) (stop : Nat) : Nat → Nat → Option (List Nat)
  | 0, section_ => if section_ = stop then some [] else none
  | turns + 1, section_ =>
    if section_ = stop then some []
    else do
      let next ← table[section_]?
      let rest ← follow table stop turns next
      some (section_ :: rest)

/-- Sections that each name their neighbour are followed to the last of them. -/
theorem follow_run {table : List Nat} (first count turns : Nat)
    (links : ∀ i, i < count → table[first + i]? = some (first + i + 1))
    (ends : table[first + count]? = some stop) (far : first + count < stop) (enough : count < turns) :
    follow table stop turns first = some (List.range' first (count + 1)) := by
  induction count generalizing first turns with
  | zero =>
    cases turns with
    | zero => exact absurd enough (Nat.not_lt_zero _)
    | succ turns =>
      have here : first ≠ stop := Nat.ne_of_lt far
      have past : follow table stop turns stop = some [] := by cases turns <;> simp [follow]
      rw [Nat.add_zero] at ends
      rw [follow, if_neg here, ends]
      simp only [Option.bind_eq_bind, Option.bind_some, past]
      rfl
  | succ count ih =>
    cases turns with
    | zero => exact absurd enough (Nat.not_lt_zero _)
    | succ turns =>
      have here : first ≠ stop := by omega
      have next : table[first]? = some (first + 1) := links 0 (Nat.zero_lt_succ _)
      have rest := ih (first + 1) turns
        (fun i inside => by
          have link := links (i + 1) (Nat.succ_lt_succ inside)
          rwa [← Nat.add_assoc, Nat.add_right_comm] at link)
        (by rwa [Nat.add_right_comm, Nat.add_assoc]) (by omega) (Nat.lt_of_succ_lt_succ enough)
      rw [follow, if_neg here, next]
      simp only [Option.bind_eq_bind, Option.bind_some, rest]
      rfl

end QueryHive.Library.Sections
