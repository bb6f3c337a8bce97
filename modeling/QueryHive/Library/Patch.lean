import Mathlib.Data.List.Basic

/-! Edits of a text at positions in ascending order: each cuts some items and puts the same
insertion in their place. The edits can be carried out one after another or as one replacement
of the stretch they span, and a text given in blocks is edited block by block. -/
namespace QueryHive.Library.Patch

variable {α : Type*}

/-- `text[start..stop]`. -/
def slice (text : List α) (start stop : Nat) : List α := (text.take stop).drop start

theorem slice_append (front body tail : List α) :
    slice (front ++ (body ++ tail)) front.length (front.length + body.length) = body := by
  rw [slice, List.take_length_add_append, List.drop_left, List.take_left]

/-- What the edits put between the first position and the end of the last cut. -/
def pieces (text insert : List α) : Nat → List (Nat × Nat) → List α
  | _, [] => []
  | done, (position, cut) :: rest => slice text done position ++ insert ++ pieces text insert (position + cut) rest

/-- The text from `done` on with the edits carried out. -/
def patch (text insert : List α) : Nat → List (Nat × Nat) → List α
  | done, [] => text.drop done
  | done, (position, cut) :: rest => slice text done position ++ insert ++ patch text insert (position + cut) rest

def patchEnd (done : Nat) (edits : List (Nat × Nat)) : Nat :=
  match edits.getLast? with
  | none => done
  | some (position, cut) => position + cut

theorem pieces_drop (text insert : List α) (done : Nat) (edits : List (Nat × Nat)) :
    pieces text insert done edits ++ text.drop (patchEnd done edits) = patch text insert done edits := by
  induction edits generalizing done with
  | nil => rfl
  | cons edit rest ih =>
    obtain ⟨position, cut⟩ := edit
    have same : patchEnd done ((position, cut) :: rest) = patchEnd (position + cut) rest := by
      unfold patchEnd
      cases rest with
      | nil => rfl
      | cons => rw [List.getLast?_cons_cons, List.getLast?_cons]
    rw [pieces, patch, same, List.append_assoc, ih]

/-- One replacement from the first position to the end of the last cut does it all. -/
theorem replace_eq_patch (text insert : List α) (position cut : Nat) (rest : List (Nat × Nat)) :
    text.take position ++ pieces text insert position ((position, cut) :: rest) ++
      text.drop (patchEnd position ((position, cut) :: rest)) = patch text insert 0 ((position, cut) :: rest) := by
  have empty : slice text position position = [] := by
    rw [slice, List.drop_eq_nil_iff, List.length_take]
    exact Nat.min_le_left _ _
  rw [List.append_assoc, pieces_drop, patch, patch, empty, slice, List.drop_zero]
  simp

/-- A stretch of the text, and the edit in it, at a position of its own. -/
structure Block (α : Type*) where
  body : List α
  edit : Option (Nat × Nat)

/-- The edit lies within the block. -/
def Block.Fits (block : Block α) : Prop :=
  ∀ position cut, block.edit = some (position, cut) → position + cut ≤ block.body.length

/-- The edits of blocks that begin at `start`. -/
def editsOf (start : Nat) : List (Block α) → List (Nat × Nat)
  | [] => []
  | block :: rest =>
    match block.edit with
    | none => editsOf (start + block.body.length) rest
    | some (position, cut) => (start + position, cut) :: editsOf (start + block.body.length) rest

def Block.patched (insert : List α) (block : Block α) : List α :=
  match block.edit with
  | none => block.body
  | some (position, cut) => block.body.take position ++ insert ++ block.body.drop (position + cut)

theorem patch_blocks (insert done pending tail : List α) (blocks : List (Block α))
    (fits : ∀ block ∈ blocks, block.Fits) :
    patch (done ++ (pending ++ (blocks.flatMap Block.body ++ tail))) insert done.length
        (editsOf (done.length + pending.length) blocks) =
      pending ++ (blocks.flatMap (Block.patched insert) ++ tail) := by
  induction blocks generalizing done pending with
  | nil => simp [editsOf, patch]
  | cons block rest ih =>
    have ih := fun done pending => ih done pending (fun inner listed => fits inner (List.mem_cons_of_mem _ listed))
    have fits := fits block List.mem_cons_self
    cases edited : block.edit with
    | none =>
      have next := ih done (pending ++ block.body)
      simp only [List.length_append, List.append_assoc] at next
      simp only [editsOf, edited, List.flatMap_cons, Block.patched, List.append_assoc, Nat.add_assoc]
      exact next
    | some edit =>
      obtain ⟨position, cut⟩ := edit
      have fits := fits position cut edited
      have whole : block.body = block.body.take (position + cut) ++ block.body.drop (position + cut) :=
        (List.take_append_drop _ _).symm
      have next := ih (done ++ (pending ++ block.body.take (position + cut))) (block.body.drop (position + cut))
      have covers : done ++ (pending ++ (block.body ++ (rest.flatMap Block.body ++ tail))) =
          done ++ (pending ++ block.body.take (position + cut)) ++
            (block.body.drop (position + cut) ++ (rest.flatMap Block.body ++ tail)) := by
        conv_lhs => rw [whole]
        simp only [List.append_assoc]
      have reach : (done ++ (pending ++ block.body.take (position + cut))).length =
          done.length + pending.length + position + cut := by
        rw [List.length_append, List.length_append, List.length_take_of_le fits]
        omega
      have behind : (block.body.drop (position + cut)).length = block.body.length - (position + cut) := by simp
      have between : slice (done ++ (pending ++ (block.body ++ (rest.flatMap Block.body ++ tail)))) done.length
          (done.length + pending.length + position) = pending ++ block.body.take position := by
        have split : pending ++ (block.body ++ (rest.flatMap Block.body ++ tail)) =
            (pending ++ block.body.take position) ++
              (block.body.drop position ++ (rest.flatMap Block.body ++ tail)) := by
          conv_lhs => rw [← List.take_append_drop position block.body]
          simp only [List.append_assoc]
        have long : (pending ++ block.body.take position).length = pending.length + position := by
          rw [List.length_append, List.length_take_of_le (by omega)]
        rw [split, Nat.add_assoc, ← long]
        exact slice_append _ _ _
      rw [reach, behind, ← covers] at next
      have stop : done.length + pending.length + position + cut + (block.body.length - (position + cut)) =
          done.length + pending.length + block.body.length := by omega
      rw [stop] at next
      simp only [editsOf, edited, List.flatMap_cons, Block.patched, patch, List.append_assoc, between]
      rw [next]

theorem insert_then_cut (body insert : List α) (position : Nat) (fits : position ≤ body.length) :
    (body.take position ++ insert ++ body.drop position).take position ++
      (body.take position ++ insert ++ body.drop position).drop (position + insert.length) = body := by
  have long : (body.take position).length = position := List.length_take_of_le fits
  have front : (body.take position ++ insert ++ body.drop position).take position = body.take position := by
    rw [List.append_assoc]
    exact List.take_left' long
  have back : (body.take position ++ insert ++ body.drop position).drop (position + insert.length) =
      body.drop position := List.drop_left' (by rw [List.length_append, long])
  rw [front, back, List.take_append_drop]

end QueryHive.Library.Patch
