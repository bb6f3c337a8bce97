import Mathlib.Data.List.Induction

/-! Chains of items, each with a digest of itself and of the digest before it. The last
digest commits to the whole chain: where the digests used do not collide and the mark a
chain begins with is not one of them, two chains with the same last digest are the same. -/
namespace QueryHive.Library.Chain

universe u v
variable {Item : Type u} {Digest : Type v}

/-- An item with the digest it links back to and its own. -/
structure Link (Item : Type u) (Digest : Type v) where
  prev : Digest
  item : Item
  digest : Digest

def endOf (start : Digest) (links : List (Link Item Digest)) : Digest :=
  (links.getLast?.map Link.digest).getD start

@[simp] theorem endOf_nil (start : Digest) : endOf start ([] : List (Link Item Digest)) = start := rfl

@[simp] theorem endOf_concat (start : Digest) (links : List (Link Item Digest)) (link : Link Item Digest) :
    endOf start (links ++ [link]) = link.digest := by
  simp [endOf]

variable (hash : Digest → Item → Digest)

def Chained : Digest → List (Link Item Digest) → Prop
  | _, [] => True
  | start, link :: rest =>
    link.prev = start ∧ link.digest = hash link.prev link.item ∧ Chained link.digest rest

theorem chained_concat {start : Digest} {links : List (Link Item Digest)} {link : Link Item Digest} :
    Chained hash start (links ++ [link]) ↔
      Chained hash start links ∧ link.prev = endOf start links ∧ link.digest = hash link.prev link.item := by
  induction links generalizing start with
  | nil => simp [Chained]
  | cons first rest ih =>
    have later : endOf start (first :: rest) = endOf first.digest rest := by
      cases rest using List.reverseRecOn with
      | nil => rfl
      | append_singleton rest last => rw [← List.cons_append, endOf_concat, endOf_concat]
    rw [List.cons_append, Chained, ih, Chained, later]
    tauto

theorem chained_unique {start : Digest} {links others : List (Link Item Digest)}
    (unmarked : ∀ prev item, hash prev item ≠ start)
    (distinct : ∀ link ∈ links, ∀ other ∈ others, hash link.prev link.item = hash other.prev other.item →
      link.prev = other.prev ∧ link.item = other.item)
    (chained : Chained hash start links) (chained' : Chained hash start others)
    (same : endOf start links = endOf start others) : links = others := by
  -- Backwards: the last links agree on the digest before them, which ends the two shorter chains.
  induction links using List.reverseRecOn generalizing others with
  | nil =>
    cases others using List.reverseRecOn with
    | nil => rfl
    | append_singleton others other =>
      rw [endOf_nil, endOf_concat, ((chained_concat hash).mp chained').2.2] at same
      exact absurd same.symm (unmarked _ _)
  | append_singleton links link ih =>
    obtain ⟨before, links_to, digest⟩ := (chained_concat hash).mp chained
    cases others using List.reverseRecOn with
    | nil =>
      rw [endOf_nil, endOf_concat, digest] at same
      exact absurd same (unmarked _ _)
    | append_singleton others other =>
      obtain ⟨before', links_to', digest'⟩ := (chained_concat hash).mp chained'
      rw [endOf_concat, endOf_concat] at same
      obtain ⟨prev, item⟩ := distinct link (by simp) other (by simp) (by rw [← digest, ← digest', same])
      have shorter := ih (fun link inside other there => distinct link (by simp [inside]) other (by simp [there]))
        before before' (by rw [← links_to, ← links_to', prev])
      have last : link = other := by
        cases link
        cases other
        cases prev
        cases item
        cases same
        rfl
      rw [shorter, last]

end QueryHive.Library.Chain
