import QueryHive.Library.Tally

/-! Objects and the parties that hold shares in them. A turn lets one party change one
object and go on as other parties. An object that counts its shares counts them right in
every state when each turn trades the shares it takes and gives against its count. -/
namespace QueryHive.Library.Shares
open QueryHive.Library.Tally

universe u v
variable {ω : Type u} {τ : Type v} {measure : ω → Nat} {share : Nat → τ → Nat}
  {objects : List ω} {parties news : List τ} {party : τ} {old new : ω} {i e : Nat}

/-- The parties after the one at `i` went on as the others. -/
def goOn (parties : List τ) (i : Nat) (news : List τ) : List τ := parties.eraseIdx i ++ news

def Counted (measure : ω → Nat) (share : Nat → τ → Nat) (objects : List ω) (parties : List τ) : Prop :=
  ∀ (e : Nat) (object : ω), objects[e]? = some object → measure object = tally (share e) parties

theorem tally_goOn (weight : τ → Nat) (acting : parties[i]? = some party) (news : List τ) :
    tally weight (goOn parties i news) + weight party = tally weight parties + tally weight news := by
  have taken := tally_erase weight acting
  rw [goOn, tally_append]
  omega

theorem mem_goOn (member : other ∈ goOn parties i news) : other ∈ parties ∨ other ∈ news :=
  (List.mem_append.mp member).imp_left List.mem_of_mem_eraseIdx

/-- What holds of every party holds after a turn when it holds of the parties the acting
one went on as. -/
theorem forall_goOn {P : τ → Prop} (all : ∀ party ∈ parties, P party) (fresh : ∀ party ∈ news, P party) :
    ∀ party ∈ goOn parties i news, P party :=
  fun other member => (mem_goOn member).elim (all other) (fresh other)

/-- A turn at one object keeps the counts when it trades shares against the count there
and leaves the shares in every other object as they are. -/
theorem Counted.turn (counted : Counted measure share objects parties) (acting : parties[i]? = some party)
    (here : objects[e]? = some old)
    (traded : measure new + share e party = measure old + tally (share e) news)
    (elsewhere : ∀ other, other ≠ e → tally (share other) news = share other party) :
    Counted measure share (objects.set e new) (goOn parties i news) := by
  intro other object found
  have went := tally_goOn (share other) acting news
  by_cases same : other = e
  · subst same
    have length : other < objects.length := (List.getElem?_eq_some_iff.mp here).1
    rw [List.getElem?_set_self length] at found
    cases found
    have before := counted other old here
    omega
  · rw [List.getElem?_set_ne (Ne.symm same)] at found
    have before := counted other object found
    have kept := elsewhere other same
    omega

/-- A turn that touches no object keeps the counts when it keeps the shares. -/
theorem Counted.aside (counted : Counted measure share objects parties) (acting : parties[i]? = some party)
    (kept : ∀ e, tally (share e) news = share e party) :
    Counted measure share objects (goOn parties i news) := by
  intro e object found
  have went := tally_goOn (share e) acting news
  have before := counted e object found
  have same := kept e
  omega

theorem Counted.set (counted : Counted measure share objects parties) (here : objects[e]? = some old) (new : ω)
    (same : measure new = measure old) : Counted measure share (objects.set e new) parties := by
  intro other object found
  by_cases at_e : other = e
  · subst at_e
    have length : other < objects.length := (List.getElem?_eq_some_iff.mp here).1
    rw [List.getElem?_set_self length] at found
    cases found
    rw [same, counted other old here]
  · rw [List.getElem?_set_ne (Ne.symm at_e)] at found
    exact counted other object found

theorem Counted.join (counted : Counted measure share objects parties) (empty : ∀ e, tally (share e) news = 0) :
    Counted measure share objects (parties ++ news) := by
  intro e object found
  rw [tally_append, empty e, Nat.add_zero]
  exact counted e object found

theorem Counted.grow (counted : Counted measure share objects parties)
    (fresh : measure new = tally (share objects.length) parties) :
    Counted measure share (objects ++ [new]) parties := by
  intro e object found
  rcases Nat.lt_trichotomy e objects.length with within | rfl | beyond
  · rw [List.getElem?_append_left within] at found
    exact counted e object found
  · rw [List.getElem?_append_right (Nat.le_refl _), Nat.sub_self] at found
    cases found
    exact fresh
  · rw [List.getElem?_eq_none (by rw [List.length_append]; exact beyond)] at found
    cases found

theorem Counted.mapIdx (counted : Counted measure share objects parties) (change : Nat → ω → ω)
    (same : ∀ e object, measure (change e object) = measure object) :
    Counted measure share (objects.mapIdx change) parties := by
  intro e object found
  rw [List.getElem?_mapIdx] at found
  obtain ⟨before, there, rfl⟩ := Option.map_eq_some_iff.mp found
  rw [same, counted e before there]

/-- The measures of the objects are what a count of the shares says. -/
theorem tally_indicator (held : τ → Bool) (parties : List τ) :
    tally (fun party => if held party then 1 else 0) parties = (parties.filter held).length := by
  induction parties with
  | nil => rfl
  | cons party rest ih =>
    rw [tally_cons, ih, List.filter_cons]
    split
    · rw [List.length_cons, Nat.add_comm]
    · rw [Nat.zero_add]

theorem le_tally (weight : τ → Nat) (member : party ∈ parties) : weight party ≤ tally weight parties := by
  obtain ⟨i, found⟩ := List.mem_iff_getElem?.mp member
  exact Nat.le_trans (Nat.le_add_left _ _) (Nat.le_of_eq (tally_erase weight found))

theorem tally_zero {weight : τ → Nat} (none' : ∀ party ∈ parties, weight party = 0) : tally weight parties = 0 := by
  induction parties with
  | nil => rfl
  | cons party rest ih =>
    rw [tally_cons, none' party List.mem_cons_self, ih fun other member => none' other (List.mem_cons_of_mem _ member)]

end QueryHive.Library.Shares
