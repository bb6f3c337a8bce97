import Mathlib.Data.List.Infix

/-! Wildcard patterns over any alphabet: one symbol stands for any run, another for
any one symbol, and every other symbol for itself. What a pattern covers is defined
without an algorithm; the lemmas say how a matcher may take one symbol at a time. -/
namespace QueryHive.Library.Wildcard

variable {α : Type} {star query : α}

/-- The pattern covers the text. -/
inductive Covers (star query : α) : List α → List α → Prop
  | nil : Covers star query [] []
  | nothing (rest : Covers star query pattern text) : Covers star query (star :: pattern) text
  | more (rest : Covers star query (star :: pattern) text) : Covers star query (star :: pattern) (c :: text)
  | any (rest : Covers star query pattern text) : Covers star query (query :: pattern) (c :: text)
  | same (rest : Covers star query pattern text) : Covers star query (c :: pattern) (c :: text)

@[simp] theorem covers_nil : Covers star query [] text ↔ text = [] := by
  constructor
  · intro covers
    cases covers
    rfl
  · rintro rfl
    exact .nil

theorem covers_star : Covers star query (star :: pattern) text ↔
    Covers star query pattern text ∨ Covers star query (star :: pattern) text.tail := by
  constructor
  · intro covers
    cases covers with
    | nothing rest => exact .inl rest
    | more rest => exact .inr rest
    | any rest => exact .inr (.nothing rest)
    | same rest => exact .inr (.nothing rest)
  · rintro (rest | rest)
    · exact .nothing rest
    · cases text with
      | nil => exact rest
      | cons c text => exact .more rest

theorem Covers.longer (covers : Covers star query (star :: pattern) text) (extra : List α) :
    Covers star query (star :: pattern) (extra ++ text) := by
  induction extra with
  | nil => exact covers
  | cons c extra ih => exact .more ih

theorem covers_star_drop : Covers star query (star :: pattern) text ↔ ∃ n, Covers star query pattern (text.drop n) := by
  constructor
  · intro covers
    induction text with
    | nil =>
      rcases covers_star.mp covers with here | later
      · exact ⟨0, here⟩
      · cases later with
        | nothing rest => exact ⟨0, rest⟩
    | cons c text ih =>
      rcases covers_star.mp covers with here | later
      · exact ⟨0, here⟩
      · obtain ⟨n, covers⟩ := ih later
        exact ⟨n + 1, covers⟩
  · rintro ⟨n, covers⟩
    rw [← List.take_append_drop n text]
    exact (Covers.nothing covers).longer _

theorem covers_cons (plain : x ≠ star) : Covers star query (x :: pattern) text ↔
    ∃ c rest, text = c :: rest ∧ (x = query ∨ x = c) ∧ Covers star query pattern rest := by
  constructor
  · intro covers
    cases covers with
    | nothing => exact absurd rfl plain
    | more => exact absurd rfl plain
    | any rest => exact ⟨_, _, rfl, .inl rfl, rest⟩
    | same rest => exact ⟨_, _, rfl, .inr rfl, rest⟩
  · rintro ⟨c, rest, rfl, rfl | rfl, covers⟩
    · exact .any covers
    · exact .same covers

theorem Covers.after_plain (plain : star ∉ part) (covers : Covers star query (part ++ pattern) text) :
    part.length ≤ text.length ∧ Covers star query pattern (text.drop part.length) := by
  induction part generalizing text with
  | nil => exact ⟨Nat.zero_le _, covers⟩
  | cons x part ih =>
    rw [List.mem_cons, not_or] at plain
    obtain ⟨here, later⟩ := plain
    obtain ⟨c, rest, rfl, -, covers⟩ := (covers_cons (Ne.symm here)).mp covers
    obtain ⟨fits, covers⟩ := ih later covers
    exact ⟨Nat.succ_le_succ fits, covers⟩

theorem covers_empty : Covers star query pattern [] ↔ ∀ x ∈ pattern, x = star := by
  induction pattern with
  | nil => simp
  | cons x pattern ih =>
    by_cases starred : x = star
    · subst starred
      rw [covers_star, List.tail_nil, List.forall_mem_cons, ← ih]
      constructor
      · rintro (rest | rest)
        · exact ⟨rfl, rest⟩
        · cases rest
          exact ⟨rfl, ‹_›⟩
      · exact fun ⟨_, rest⟩ => .inl rest
    · simp [covers_cons starred, starred]

theorem covers_queries (text : List α) : Covers star query (List.replicate text.length query) text := by
  induction text with
  | nil => exact .nil
  | cons c text ih => exact .any ih

theorem covers_queries_star (head tail : List α) :
    Covers star query (List.replicate head.length query ++ star :: List.replicate tail.length query)
      (head ++ tail) := by
  induction head with
  | nil => exact .nothing (covers_queries tail)
  | cons c head ih => exact .any ih

theorem covers_self (pattern : List α) : Covers star query pattern pattern := by
  induction pattern with
  | nil => exact .nil
  | cons x pattern ih => exact .same ih

theorem covers_star_query (covers : Covers star query (star :: pattern) text) (c : α) :
    Covers star query (star :: query :: pattern) (c :: text) := by
  obtain ⟨n, covers⟩ := covers_star_drop.mp covers
  refine covers_star_drop.mpr ⟨min n text.length, ?_⟩
  have inside : min n text.length < (c :: text).length := Nat.lt_succ_of_le (Nat.min_le_right _ _)
  rw [List.drop_eq_getElem_cons inside, List.drop_succ_cons]
  refine .any ?_
  rcases Nat.le_total n text.length with short | long
  · rwa [Nat.min_eq_left short]
  · rwa [Nat.min_eq_right long, List.drop_length, ← List.drop_eq_nil_of_le long]

/-- The piece of a text that one symbol of a pattern takes. -/
inductive Takes (star query : α) : α → List α → Prop
  | run (piece : List α) : Takes star query star piece
  | any (c : α) : Takes star query query [c]
  | own (c : α) : Takes star query c [c]

theorem covers_iff_pieces : Covers star query pattern text ↔
    ∃ pieces, List.Forall₂ (Takes star query) pattern pieces ∧ text = pieces.flatten := by
  constructor
  · intro covers
    induction covers with
    | nil => exact ⟨[], .nil, rfl⟩
    | nothing _ ih =>
      obtain ⟨pieces, takes, rfl⟩ := ih
      exact ⟨[] :: pieces, .cons (.run []) takes, rfl⟩
    | more _ ih =>
      obtain ⟨pieces, takes, rfl⟩ := ih
      cases takes with
      | cons _ takes => exact ⟨_ :: _, .cons (.run (_ :: _)) takes, rfl⟩
    | any _ ih =>
      obtain ⟨pieces, takes, rfl⟩ := ih
      exact ⟨[_] :: pieces, .cons (.any _) takes, rfl⟩
    | same _ ih =>
      obtain ⟨pieces, takes, rfl⟩ := ih
      exact ⟨[_] :: pieces, .cons (.own _) takes, rfl⟩
  · rintro ⟨pieces, takes, rfl⟩
    induction takes with
    | nil => exact .nil
    | cons take _ ih =>
      cases take with
      | run => exact (Covers.nothing ih).longer _
      | any => exact .any ih
      | own => exact .same ih

end QueryHive.Library.Wildcard
