import QueryHive.Library.Wildcard
import Mathlib.Data.List.TakeWhile

/-! The `*`/`?` matcher that `known_hosts` host patterns and `ssh_config` share. What it
matches is covered, and it decides what is covered unless its search sets a `*` of the
pattern against a `*` of the text: that one is taken literally, and not tried again. -/
namespace QueryHive.Tunnel.Pattern
open QueryHive.Library.Wildcard

/-- `b'*'`. -/
def asterisk : UInt8 := 42

/-- `b'?'`. -/
def question : UInt8 := 63

/-- The loop of `glob`: where it is in the pattern and in the text, the last `*` it met
and the place in the text to resume from. -/
def globFrom (pattern text : List UInt8) (p t : Nat) (star : Option Nat) (resume : Nat)
    (ahead : resume ≤ t) : Bool :=
  if reading : t < text.length then
    if pattern[p]? = some question ∨ pattern[p]? = some text[t] then
      globFrom pattern text (p + 1) (t + 1) star resume (Nat.le_succ_of_le ahead)
    else if pattern[p]? = some asterisk then
      globFrom pattern text (p + 1) t (some p) t (Nat.le_refl t)
    else match star with
      | some star =>
        globFrom pattern text (star + 1) (resume + 1) (some star) (resume + 1) (Nat.le_refl (resume + 1))
      | none => false
  else ((pattern.drop p).dropWhile (· = asterisk)).isEmpty
termination_by (text.length - resume, pattern.length - p)
decreasing_by
  · have inside : p < pattern.length := by grind
    exact Prod.Lex.right _ (by omega)
  · have inside : p < pattern.length := by grind
    rw [Prod.lex_def]
    omega
  · exact Prod.Lex.left _ _ (by omega)

/-- `glob`, on the bytes of the pattern and of the text. -/
def glob (pattern text : List UInt8) : Bool := globFrom pattern text 0 0 none 0 (Nat.le_refl 0)

/-- Both sides have the same symbol here, as the loop compares them. -/
def Same (pattern text : List UInt8) (p t : Nat) : Prop :=
  pattern[p]? = some question ∨ pattern[p]? = text[t]?

/-- The states that the loop of `glob` comes through on this pattern and text. -/
inductive Reach (pattern text : List UInt8) : Nat → Nat → Option Nat → Nat → Prop
  | start : Reach pattern text 0 0 none 0
  | read {star : Option Nat} (reached : Reach pattern text p t star resume) (reading : t < text.length)
    (same : Same pattern text p t) : Reach pattern text (p + 1) (t + 1) star resume
  | star {star : Option Nat} (reached : Reach pattern text p t star resume) (reading : t < text.length)
    (differs : ¬Same pattern text p t) (starred : pattern[p]? = some asterisk) : Reach pattern text (p + 1) t (some p) t
  | retry (reached : Reach pattern text p t (some s) resume) (reading : t < text.length)
    (differs : ¬Same pattern text p t) (plain : pattern[p]? ≠ some asterisk) :
    Reach pattern text (s + 1) (resume + 1) (some s) (resume + 1)

/-- Somewhere in the search a `*` of the pattern stands against a `*` of the text. -/
def Meets (pattern text : List UInt8) : Prop :=
  ∃ p t star resume, Reach pattern text p t star resume ∧ pattern[p]? = some asterisk ∧ text[t]? = some asterisk

variable {pattern text : List UInt8} {p t resume : Nat} {star : Option Nat}

/-- What is left to try: the rest of the pattern on the rest of the text, or the last `*`
on one symbol more. -/
def Left (pattern text : List UInt8) (p t : Nat) (star : Option Nat) (resume : Nat) : Prop :=
  Covers asterisk question (pattern.drop p) (text.drop t) ∨
    ∃ s, star = some s ∧ Covers asterisk question (asterisk :: pattern.drop (s + 1)) (text.drop (resume + 1))

/-- Between the last `*` and the place in the pattern stand as many symbols as were read
since, none of them a `*`. -/
def Since (pattern : List UInt8) (p t : Nat) (star : Option Nat) (resume : Nat) : Prop :=
  ∀ s, star = some s →
    ∃ part, pattern.drop (s + 1) = part ++ pattern.drop p ∧ asterisk ∉ part ∧ resume + part.length = t

/-- Whatever the last `*` could still cover, the rest of the pattern covers further on. -/
theorem Since.later (since : Since pattern p t star resume)
    (retry : ∃ s, star = some s ∧ Covers asterisk question (asterisk :: pattern.drop (s + 1))
    (text.drop (resume + 1))) :
    ∃ more, t ≤ more ∧ Covers asterisk question (pattern.drop p) (text.drop more) := by
  obtain ⟨s, found, covers⟩ := retry
  obtain ⟨part, split, plain, read⟩ := since s found
  obtain ⟨n, covers⟩ := covers_star_drop.mp covers
  rw [split, List.drop_drop] at covers
  obtain ⟨-, covers⟩ := covers.after_plain plain
  rw [List.drop_drop] at covers
  exact ⟨resume + 1 + n + part.length, by omega, covers⟩

theorem covers_read (reading : t < text.length) (same : Same pattern text p t) :
    ∃ x, pattern.drop p = x :: pattern.drop (p + 1) ∧ pattern[p]? = some x ∧ (x = question ∨ x = text[t]) ∧
      (Covers asterisk question (pattern.drop (p + 1)) (text.drop (t + 1)) →
        Covers asterisk question (pattern.drop p) (text.drop t)) := by
  rw [Same, List.getElem?_eq_getElem reading] at same
  obtain ⟨x, symbol, same⟩ : ∃ x, pattern[p]? = some x ∧ (x = question ∨ x = text[t]) := by
    rcases same with same | same <;> exact ⟨_, same, by simp⟩
  obtain ⟨inside, value⟩ := List.getElem?_eq_some_iff.mp symbol
  have split : pattern.drop p = x :: pattern.drop (p + 1) := by rw [List.drop_eq_getElem_cons inside, value]
  refine ⟨x, split, symbol, same, fun covers => ?_⟩
  rw [split, List.drop_eq_getElem_cons reading]
  rcases same with rfl | rfl
  · exact .any covers
  · exact .same covers

/-- A symbol other than `*` that was read on both sides leaves the same to try. -/
theorem left_read (apart : ¬(pattern[p]? = some asterisk ∧ text[t]? = some asterisk)) (reading : t < text.length)
    (same : Same pattern text p t) :
    ∃ x, pattern.drop p = x :: pattern.drop (p + 1) ∧ x ≠ asterisk ∧
      (Covers asterisk question (pattern.drop p) (text.drop t) ↔
        Covers asterisk question (pattern.drop (p + 1)) (text.drop (t + 1))) := by
  obtain ⟨x, split, symbol, same, behind⟩ := covers_read reading same
  have plain : x ≠ asterisk := by
    rintro rfl
    rcases same with same | same
    · cases same
    · exact apart ⟨symbol, by rw [List.getElem?_eq_getElem reading, same]⟩
  refine ⟨x, split, plain, fun covers => ?_, behind⟩
  rw [split, covers_cons plain, List.drop_eq_getElem_cons reading] at covers
  obtain ⟨c, rest, cut, -, covers⟩ := covers
  cases cut
  exact covers

/-- A symbol that is neither `*` nor read on both sides leaves nothing here. -/
theorem nothing_here (reading : t < text.length) (differs : ¬Same pattern text p t)
    (plain : pattern[p]? ≠ some asterisk) : ¬ Covers asterisk question (pattern.drop p) (text.drop t) := by
  rw [Same, List.getElem?_eq_getElem reading] at differs
  rw [List.drop_eq_getElem_cons reading]
  by_cases inside : p < pattern.length
  · rw [List.getElem?_eq_getElem inside, Option.some.injEq, Option.some.injEq] at differs
    rw [List.getElem?_eq_getElem inside, Ne, Option.some.injEq] at plain
    rw [List.drop_eq_getElem_cons inside, covers_cons plain]
    rintro ⟨c, rest, split, same, -⟩
    cases split
    exact differs same
  · rw [List.drop_eq_nil_of_le (Nat.le_of_not_lt inside), covers_nil]
    exact List.cons_ne_nil _ _

/-- Right after a `*`, what is left is that the `*` covers from here on. -/
theorem left_restart (s t : Nat) : Left pattern text (s + 1) t (some s) t ↔
    Covers asterisk question (asterisk :: pattern.drop (s + 1)) (text.drop t) := by
  simp [Left, @covers_star _ _ _ _ (text.drop t)]

theorem since_restart (s t : Nat) : Since pattern (s + 1) t (some s) t := by
  rintro _ ⟨⟩
  exact ⟨[], rfl, List.not_mem_nil, rfl⟩

/-- At the end of the text the rest of the pattern has to be a run of `*`. -/
theorem ended_covers (pattern : List UInt8) :
    (pattern.dropWhile (· = asterisk)).isEmpty ↔ Covers asterisk question pattern [] := by
  rw [List.isEmpty_iff, List.dropWhile_eq_nil_iff, covers_empty]
  simp

/-- The loop matches only where something that is left to try covers. -/
theorem left_of_globFrom (ahead : resume ≤ t) (found : globFrom pattern text p t star resume ahead = true) :
    Left pattern text p t star resume := by
  fun_induction globFrom pattern text p t star resume ahead with
  | case1 p t star resume ahead reading same ih =>
    rw [← List.getElem?_eq_getElem reading] at same
    obtain ⟨_, _, _, _, behind⟩ := covers_read reading same
    exact (ih found).imp behind id
  | case2 p t star resume ahead reading differs starred ih =>
    obtain ⟨inside, value⟩ := List.getElem?_eq_some_iff.mp starred
    have split : pattern.drop p = asterisk :: pattern.drop (p + 1) := by rw [List.drop_eq_getElem_cons inside, value]
    rw [Left, split]
    exact .inl ((left_restart p t).mp (ih found))
  | case3 p t resume ahead reading differs plain s ih =>
    exact .inr ⟨s, rfl, (left_restart s (resume + 1)).mp (ih found)⟩
  | case4 p t resume ahead reading differs plain => cases found
  | case5 p t star resume ahead ended =>
    rw [Left, List.drop_eq_nil_of_le (Nat.le_of_not_lt ended)]
    exact .inl ((ended_covers _).mp found)

/-- While no `*` comes to stand against a `*`, the loop decides whether something that is
left to try covers. -/
theorem globFrom_left (apart : ¬Meets pattern text) (reached : Reach pattern text p t star resume) (ahead : resume ≤ t)
    (since : Since pattern p t star resume) :
    globFrom pattern text p t star resume ahead ↔ Left pattern text p t star resume := by
  fun_induction globFrom pattern text p t star resume ahead with
  | case1 p t star resume ahead reading same ih =>
    rw [← List.getElem?_eq_getElem reading] at same
    have here : ¬(pattern[p]? = some asterisk ∧ text[t]? = some asterisk) :=
      fun both => apart ⟨_, _, _, _, reached, both⟩
    obtain ⟨x, split, plain, here⟩ := left_read here reading same
    rw [ih (reached.read reading same), Left, Left, here]
    intro s found
    obtain ⟨part, before, noStar, read⟩ := since s found
    refine ⟨part ++ [x], ?_, ?_, ?_⟩
    · rw [before, split, List.append_assoc, List.singleton_append]
    · simp [noStar, Ne.symm plain]
    · rw [List.length_append, List.length_singleton]
      omega
  | case2 p t star resume ahead reading differs starred ih =>
    rw [← List.getElem?_eq_getElem reading] at differs
    obtain ⟨inside, value⟩ := List.getElem?_eq_some_iff.mp starred
    have split : pattern.drop p = asterisk :: pattern.drop (p + 1) := by rw [List.drop_eq_getElem_cons inside, value]
    rw [ih (reached.star reading differs starred) (since_restart p t), left_restart, ← split, Left]
    -- What the `*` before this one could still cover, this one covers.
    refine ⟨.inl, fun left => left.elim id fun retry => ?_⟩
    obtain ⟨more, further, covers⟩ := since.later retry
    rw [split] at covers ⊢
    rw [← List.take_append_drop (more - t) (text.drop t), List.drop_drop, Nat.add_sub_cancel' further]
    exact covers.longer _
  | case3 p t resume ahead reading differs plain s ih =>
    rw [← List.getElem?_eq_getElem reading] at differs
    rw [ih (reached.retry reading differs plain) (since_restart s (resume + 1)), left_restart, Left]
    constructor
    · exact fun covers => .inr ⟨s, rfl, covers⟩
    · rintro (here | ⟨_, ⟨⟩, covers⟩)
      · exact absurd here (nothing_here reading differs plain)
      · exact covers
  | case4 p t resume ahead reading differs plain =>
    rw [← List.getElem?_eq_getElem reading] at differs
    simp [Left, nothing_here reading differs plain]
  | case5 p t star resume ahead ended =>
    have atEnd : ∀ more, t ≤ more → text.drop more = [] := fun more further =>
      List.drop_eq_nil_of_le (Nat.le_trans (Nat.le_of_not_lt ended) further)
    rw [ended_covers, Left, atEnd t (Nat.le_refl t)]
    refine ⟨.inl, fun left => left.elim id fun retry => ?_⟩
    obtain ⟨more, further, covers⟩ := since.later retry
    rwa [atEnd more further] at covers

/-- While no `*` comes to stand against a `*`, `glob` decides what the pattern covers. -/
theorem glob_covers_apart (apart : ¬Meets pattern text) :
    glob pattern text ↔ Covers asterisk question pattern text := by
  have since : Since pattern 0 0 none 0 := by
    rintro _ ⟨⟩
  rw [glob, globFrom_left apart .start (Nat.le_refl 0) since, Left]
  simp

theorem apart_of_text (clear : asterisk ∉ text) : ¬Meets pattern text :=
  fun ⟨_, _, _, _, _, _, starred⟩ => clear (List.mem_of_getElem? starred)

theorem apart_of_pattern (clear : asterisk ∉ pattern) : ¬Meets pattern text :=
  fun ⟨_, _, _, _, _, starred, _⟩ => clear (List.mem_of_getElem? starred)

/-- On a text without a `*`, `glob` decides what the pattern covers. -/
theorem glob_covers (clear : asterisk ∉ text) : glob pattern text ↔ Covers asterisk question pattern text :=
  glob_covers_apart (apart_of_text clear)

/-- A pattern that is read symbol for symbol to the end of the text is judged by what it
has left there. -/
theorem globFrom_read (pattern text : List UInt8) (t : Nat)
    (same : ∀ i, t ≤ i → i < text.length → pattern[i]? = some question ∨ pattern[i]? = text[i]?) :
    globFrom pattern text t t none 0 (Nat.zero_le t) =
      ((pattern.drop (max t text.length)).dropWhile (· = asterisk)).isEmpty := by
  induction remaining : text.length - t generalizing t with
  | zero =>
    rw [globFrom, dif_neg (by omega), Nat.max_eq_left (by omega)]
  | succ remaining ih =>
    have reading : t < text.length := by omega
    have here := same t (Nat.le_refl t) reading
    rw [List.getElem?_eq_getElem reading] at here
    rw [globFrom, dif_pos reading, if_pos here, ih (t + 1) (fun i later => same i (by omega)) (by omega)]
    rw [Nat.max_eq_right (by omega), Nat.max_eq_right (by omega)]

/-- The pattern that `glob` misreads on a text with a `*`: a `?` for every symbol, and a
`*` more in the text's own place for one. -/
def stumble (head tail : List UInt8) : List UInt8 :=
  List.replicate head.length question ++ asterisk :: List.replicate (tail.length + 1) question

/-- Every text with a `*` is covered by a pattern that `glob` says does not match it. -/
theorem glob_stumbles (head tail : List UInt8) :
    glob (stumble head tail) (head ++ asterisk :: tail) = false ∧
      Covers asterisk question (stumble head tail) (head ++ asterisk :: tail) := by
  have split : stumble head tail =
      (List.replicate head.length question ++ asterisk :: List.replicate tail.length question) ++ [question] := by
    rw [stumble, List.replicate_succ', List.append_assoc, List.cons_append]
  have length : max 0 (head ++ asterisk :: tail).length =
      (List.replicate head.length question ++ asterisk :: List.replicate tail.length question).length := by
    simp
  constructor
  · rw [glob, globFrom_read]
    · rw [length, split, List.drop_left]
      decide
    · intro i _ within
      rcases Nat.lt_trichotomy i head.length with before | rfl | after
      · exact .inl (by grind [stumble])
      · exact .inr (by grind [stumble])
      · exact .inl (by grind [stumble])
  · exact covers_queries_star head (asterisk :: tail)

/-- The pieces of the text, one for each symbol of the pattern: `*` takes any, `?` a single symbol, and every other
symbol itself. -/
def CutsInto (pattern text : List UInt8) : Prop :=
  ∃ pieces, List.Forall₂ (Takes asterisk question) pattern pieces ∧ text = pieces.flatten

/-- `glob` says exactly whether the text can be cut so. -/
def Exact (pattern text : List UInt8) : Prop := glob pattern text = true ↔ CutsInto pattern text

/-- The loop goes symbol by symbol while it has met no `*` and both sides have the same. -/
theorem globFrom_same (at_pattern : pattern.drop p = x :: rest) (at_text : text.drop t = x :: behind) (ahead : 0 ≤ t) :
    globFrom pattern text p t none 0 ahead = globFrom pattern text (p + 1) (t + 1) none 0 (Nat.zero_le _) := by
  have reading : t < text.length := by
    have long := congrArg List.length at_text
    rw [List.length_drop, List.length_cons] at long
    omega
  have here : text[t] = x := by
    rw [List.drop_eq_getElem_cons reading, List.cons.injEq] at at_text
    exact at_text.1
  have symbol : pattern[p]? = some x := by rw [← List.head?_drop, at_pattern, List.head?_cons]
  rw [globFrom, dif_pos reading, if_pos (.inr (by rw [symbol, here]))]

theorem drop_succ_of (place : pattern.drop p = x :: rest) : pattern.drop (p + 1) = rest := by
  rw [← List.drop_drop, place, List.drop_one, List.tail_cons]

/-- Another byte than this one. -/
def otherThan (c : UInt8) : UInt8 := if c = 0 then 1 else 0

theorem otherThan_ne (c : UInt8) : otherThan c ≠ c := by
  unfold otherThan
  split
  · next zero => rw [zero]; decide
  · next other => exact Ne.symm other

/-- What is put behind a `*` of the text so that the rest of a pattern is misread: its own `*` again, any symbol for
a `?`, and in front of the first other symbol one that differs. -/
def misread : List UInt8 → List UInt8
  | [] => [0]
  | c :: rest =>
    if c = asterisk then asterisk :: misread rest
    else if c = question then 0 :: misread rest
    else otherThan c :: c :: rest

theorem covers_misread (rest : List UInt8) (c : UInt8) :
    Covers asterisk question (asterisk :: rest) (c :: misread rest) := by
  induction rest generalizing c with
  | nil => exact .more (.more (.nothing .nil))
  | cons x rest ih =>
    rw [misread]
    split
    · next starred =>
      subst starred
      exact .more (.nothing (ih asterisk))
    · split
      · next single =>
        subst single
        exact covers_star_query (ih 0) c
      · exact .more (.more (.nothing (.same (covers_self rest))))

theorem globFrom_misread (at_pattern : pattern.drop p = rest) (at_text : text.drop t = misread rest) (ahead : 0 ≤ t) :
    globFrom pattern text p t none 0 ahead = false := by
  induction rest generalizing p t with
  | nil =>
    have reading : t < text.length := by
      have long := congrArg List.length at_text
      rw [List.length_drop, misread, List.length_singleton] at long
      omega
    have past : pattern[p]? = none := by rw [← List.head?_drop, at_pattern, List.head?_nil]
    rw [globFrom, dif_pos reading, if_neg (by simp [past]), if_neg (by simp [past])]
  | cons x rest ih =>
    have next := drop_succ_of at_pattern
    have symbol : pattern[p]? = some x := by rw [← List.head?_drop, at_pattern, List.head?_cons]
    rw [misread] at at_text
    split at at_text
    · next starred =>
      subst starred
      rw [globFrom_same at_pattern at_text]
      exact ih next (drop_succ_of at_text) _
    · split at at_text
      · next single =>
        subst single
        have reading : t < text.length := by
          have long := congrArg List.length at_text
          rw [List.length_drop, List.length_cons] at long
          omega
        rw [globFrom, dif_pos reading, if_pos (.inl symbol)]
        exact ih next (drop_succ_of at_text) _
      · next plain other =>
        have reading : t < text.length := by
          have long := congrArg List.length at_text
          rw [List.length_drop, List.length_cons] at long
          omega
        have here : text[t] = otherThan x := by
          rw [List.drop_eq_getElem_cons reading, List.cons.injEq] at at_text
          exact at_text.1
        have differs : ¬(pattern[p]? = some question ∨ pattern[p]? = some text[t]) := by
          rw [symbol, here, Option.some.injEq, Option.some.injEq]
          rintro (single | same)
          · exact other single
          · exact otherThan_ne x same.symm
        rw [globFrom, dif_pos reading, if_neg differs, if_neg (by rw [symbol, Option.some.injEq]; exact plain)]

/-- A text that a pattern with a `*` covers and `glob` says it does not match. -/
def tripText (head tail : List UInt8) : List UInt8 := head ++ asterisk :: misread tail

theorem glob_trips (head tail : List UInt8) :
    glob (head ++ asterisk :: tail) (tripText head tail) = false ∧
      Covers asterisk question (head ++ asterisk :: tail) (tripText head tail) := by
  constructor
  · have walk : ∀ n ≤ head.length, glob (head ++ asterisk :: tail) (tripText head tail) =
        globFrom (head ++ asterisk :: tail) (tripText head tail) n n none 0 (Nat.zero_le n) := by
      intro n within
      induction n with
      | zero => rfl
      | succ n ih =>
        have inside : n < head.length := within
        have split (behind : List UInt8) : (head ++ behind).drop n = head[n] :: (head.drop (n + 1) ++ behind) := by
          rw [List.drop_append_of_le_length (Nat.le_of_lt inside), List.drop_eq_getElem_cons inside, List.cons_append]
        rw [ih (Nat.le_of_lt inside), tripText]
        exact globFrom_same (split _) (split _) _
    rw [walk head.length (Nat.le_refl _), tripText,
      globFrom_same (List.drop_left) (List.drop_left)]
    exact globFrom_misread (drop_succ_of List.drop_left) (drop_succ_of List.drop_left) _
  · have behind := covers_misread tail asterisk
    rw [tripText]
    induction head with
    | nil => exact behind
    | cons c head ih => exact .same ih

/-- What `glob` matches is cut into pieces, whatever stands against what; where no `*` of the pattern comes to stand
against a `*` of the text it is exact, and so it is where one of the two has none; every text and every pattern that
has one is misread with some other. -/
theorem glob_exact_iff (pattern text : List UInt8) :
    (glob pattern text = true → CutsInto pattern text) ∧
      (¬Meets pattern text → Exact pattern text) ∧
      ((∀ pattern, Exact pattern text) ↔ asterisk ∉ text) ∧
      ((∀ text, Exact pattern text) ↔ asterisk ∉ pattern) := by
  have exact_of (pattern text : List UInt8) (apart : ¬Meets pattern text) : Exact pattern text := by
    rw [Exact, CutsInto, ← covers_iff_pieces]
    exact glob_covers_apart apart
  have tripped {pattern text : List UInt8} (wrong : glob pattern text = false ∧ Covers asterisk question pattern text) :
      ¬Exact pattern text := by
    intro exact
    rw [Exact, CutsInto, ← covers_iff_pieces, wrong.1] at exact
    cases exact.mpr wrong.2
  refine ⟨fun found => ?_, exact_of pattern text,
    ⟨fun all inside => ?_, fun clear _ => exact_of _ _ (apart_of_text clear)⟩,
    ⟨fun all inside => ?_, fun clear _ => exact_of _ _ (apart_of_pattern clear)⟩⟩
  · rw [CutsInto, ← covers_iff_pieces]
    simpa [Left] using left_of_globFrom (Nat.le_refl 0) found
  · obtain ⟨head, tail, rfl⟩ := List.append_of_mem inside
    exact tripped (glob_stumbles head tail) (all _)
  · obtain ⟨head, tail, rfl⟩ := List.append_of_mem inside
    exact tripped (glob_trips head tail) (all _)

/-- `*` does not match `*a`. -/
theorem glob_misses_star : ¬Exact [asterisk] [asterisk, 97] := by
  have wrong : glob [asterisk] [asterisk, 97] = false := by simp [glob, globFrom, asterisk, question]
  rw [Exact, wrong]
  intro exact
  cases exact.mpr ⟨[[asterisk, 97]], .cons (.run _) .nil, rfl⟩

end QueryHive.Tunnel.Pattern
