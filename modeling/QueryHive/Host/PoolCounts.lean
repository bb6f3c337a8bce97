import QueryHive.Host.PoolTurns
import QueryHive.Library.Runs
import Mathlib.Data.List.Nodup

/-! The pool's counts and the places of its sessions: every interleaving of its sections
keeps the books, so the counts are those of the live guards, and no session is lost but
with the future or task that held it. -/
namespace QueryHive.Host.Pool
open QueryHive.Core QueryHive.Host QueryHive.Library.Tally QueryHive.Library.Shares QueryHive.Library.Runs

variable {ι κ : Type}

/-- What holds of the pool in every state: its counts, the places of its sessions, and
which entries anything refers to. -/
structure Books (pool : SessionPool ι κ) : Prop where
  leased : ∀ lane, Counted (·.leased lane) (leaseShare lane) pool.entries pool.parties
  pending : Counted (·.pending) pendingShare pool.entries pool.parties
  once : ∀ session, tally (idles session) pool.entries + tally (holds session) pool.parties +
      (pool.closed.count session + pool.dropped.count session) = (List.range pool.world.opened).count session
  few : ∀ entry ∈ pool.entries, entry.idle.length ≤ idleMax
  placed : ∀ party ∈ pool.parties, party.Placed
  known : ∀ party ∈ pool.parties, ∀ e, party.entry = some e → e < pool.entries.length ∧ e ∉ pool.evicted
  mapped : ∀ slot ∈ pool.map, slot.2 ∉ pool.evicted ∧
    ∃ entry, pool.entries[slot.2]? = some entry ∧ entry.identity = slot.1
  keys : (pool.map.map Prod.fst).Nodup
  evicted : ∀ e ∈ pool.evicted, e < pool.entries.length
  gone : ∀ (e : Nat) (entry : Entry ι κ), pool.entries[e]? = some entry →
    e ∈ pool.map.map Prod.snd ∨ e ∈ pool.evicted ∨ entry.retired = true
  cleared : ∀ (e : Nat) (entry : Entry ι κ), pool.entries[e]? = some entry →
    entry.retired = true ∨ e ∈ pool.evicted → entry.idle = []

theorem books_empty : Books ({} : SessionPool ι κ) where
  leased _ _ _ found := nomatch found
  pending _ _ found := nomatch found
  once _ := rfl
  few _ member := nomatch member
  placed _ member := nomatch member
  known _ member := nomatch member
  mapped _ member := nomatch member
  keys := List.nodup_nil
  evicted _ member := nomatch member
  gone _ _ found := nomatch found
  cleared _ _ found := nomatch found

/-- What one entry became under `set`. -/
theorem getElem?_set_cases {xs : List α} {e i : Nat} {new x : α} (found : (xs.set e new)[i]? = some x) :
    i = e ∧ x = new ∨ i ≠ e ∧ xs[i]? = some x := by
  by_cases same : i = e
  · subst same
    rw [List.getElem?_set_self'] at found
    obtain ⟨-, -, rfl⟩ := Option.map_eq_some_iff.mp found
    exact .inl ⟨rfl, rfl⟩
  · rw [List.getElem?_set_ne (Ne.symm same)] at found
    exact .inr ⟨same, found⟩

variable {pool : SessionPool ι κ} {party : Party ι κ} {entry : Entry ι κ} {taken : Turn ι κ}

theorem getElem?_concat_cases {xs : List α} {i : Nat} {new x : α} (found : (xs ++ [new])[i]? = some x) :
    xs[i]? = some x ∨ i = xs.length ∧ x = new := by
  obtain within | beyond := Nat.lt_or_ge i xs.length
  · rw [List.getElem?_append_left within] at found
    exact .inl found
  · rw [List.getElem?_append_right beyond] at found
    obtain ⟨short, rfl⟩ := List.getElem?_eq_some_iff.mp found
    rw [List.length_singleton] at short
    refine .inr ⟨by omega, ?_⟩
    rw [List.getElem_singleton]

theorem Books.turn (books : Books pool) (acting : pool.parties[i]? = some party) (at_e : party.entry = some e)
    (here : pool.entries[e]? = some entry) (fair : Fair pool.world e party entry taken) (tunnels : Nat) :
    Books { pool with
      world := { pool.world with opened := pool.world.opened + taken.opened, tunnels := tunnels }
      entries := pool.entries.set e taken.entry
      parties := goOn pool.parties i taken.news
      closed := pool.closed ++ taken.closed
      dropped := pool.dropped ++ taken.dropped } := by
  have member : party ∈ pool.parties := List.mem_of_getElem? acting
  have inside : entry ∈ pool.entries := List.mem_of_getElem? here
  obtain ⟨within, -⟩ := books.known party member e at_e
  have nowhere : ∀ other, other ≠ e → party.entry ≠ some other := fun other ne same =>
    ne (Option.some.inj (same.symm.trans at_e))
  have elsewhere : ∀ other, other ≠ e → ∀ new ∈ taken.news, new.entry ≠ some other := fun other ne new fresh same => by
    obtain at_e | none' := fair.here new fresh
    · exact ne (Option.some.inj (same.symm.trans at_e))
    · rw [none'] at same
      cases same
  refine {
    leased := fun lane => (books.leased lane).turn acting here (fair.leased lane ?_) fun other ne => ?_
    pending := books.pending.turn acting here (fair.pending ?_) fun other ne => ?_
    once := fun session => ?_
    few := fun other member => ?_
    placed := forall_goOn books.placed fair.placed
    known := forall_goOn (fun other member e found => ?_) fun new fresh other found => ?_
    mapped := fun slot member => ?_
    keys := books.keys
    evicted := fun other member => ?_
    gone := fun other found there => ?_
    cleared := fun other found there => ?_ }
  · exact Nat.le_trans (le_tally (leaseShare lane e) member) (Nat.le_of_eq (books.leased lane e entry here).symm)
  · rw [leaseShare_other (nowhere other ne)]
    exact tally_zero fun new fresh => leaseShare_other (elsewhere other ne new fresh) lane
  · exact Nat.le_trans (le_tally (pendingShare e) member) (Nat.le_of_eq (books.pending e entry here).symm)
  · rw [pendingShare_other (nowhere other ne)]
    exact tally_zero fun new fresh => pendingShare_other (elsewhere other ne new fresh)
  · have before := books.once session
    have moved := fair.sessions session
    have parties := tally_goOn (holds session) acting taken.news
    have entries := tally_set (idles session) here taken.entry
    dsimp only
    rw [List.range_add, List.count_append, List.count_append, List.count_append, ← List.range'_eq_map_range]
    omega
  · obtain old | rfl := List.mem_or_eq_of_mem_set member
    · exact books.few other old
    · exact fair.few (books.few entry inside)
  · rw [List.length_set]
    exact books.known other member e found
  · rw [List.length_set]
    obtain same | none' := fair.here new fresh
    · exact Option.some.inj (same.symm.trans found) ▸ books.known party member e at_e
    · rw [none'] at found
      cases found
  · obtain ⟨kept, old, found, identity⟩ := books.mapped slot member
    refine ⟨kept, ?_⟩
    dsimp only
    by_cases same : slot.2 = e
    · rw [same] at found ⊢
      cases here.symm.trans found
      exact ⟨taken.entry, List.getElem?_set_self within, (congrArg PoolKey.identity fair.key).trans identity⟩
    · exact ⟨old, by rw [List.getElem?_set_ne (Ne.symm same)]; exact found, identity⟩
  · rw [List.length_set]
    exact books.evicted other member
  · obtain ⟨rfl, rfl⟩ | ⟨-, old⟩ := getElem?_set_cases there
    · rw [fair.retired]
      exact books.gone other entry here
    · exact books.gone other found old
  · obtain ⟨rfl, rfl⟩ | ⟨-, old⟩ := getElem?_set_cases there
    · rw [fair.retired]
      rintro (retired | evicted)
      · exact fair.cleared retired (books.cleared other entry here (.inl retired))
      · exact absurd evicted (books.known party member other at_e).2
    · exact books.cleared other found old

theorem aside_free (went : party.aside event = some (news, closed, dropped)) : ∀ new ∈ news, new.entry = none := by
  unfold Party.aside at went
  split at went <;> cases went
  · exact forall_none
  · exact forall_none
  · intro new member
    rw [mem_closeInBackground member]
    rfl
  · exact forall_one rfl
  · exact forall_none
  · exact forall_none

theorem placed_free {party : Party ι κ} (free : party.entry = none) : party.Placed := by
  cases party <;> trivial

/-- A party that refers to no entry goes on without any guard. -/
theorem Books.aside (books : Books pool) (acting : pool.parties[i]? = some party) (nowhere : party.entry = none)
    (went : party.aside event = some (news, closed, dropped)) :
    Books { pool with
      parties := goOn pool.parties i news, closed := pool.closed ++ closed, dropped := pool.dropped ++ dropped } := by
  have free := aside_free went
  have moved : ∀ session, tally (holds session) news + (closed.count session + dropped.count session) =
      holds session party := by
    intro session
    unfold Party.aside at went
    split at went <;> cases went
    · simp [holds, Party.sessions]
    · simp [holds, Party.sessions]
    · simp [holds, Party.sessions, List.count_cons]
    · simp [holds, Party.sessions, List.count_cons]
    · simp [holds, Party.sessions]
    · simp [holds, Party.sessions]
  refine { books with
    leased := fun lane => (books.leased lane).aside acting fun e => ?_
    pending := books.pending.aside acting fun e => ?_
    once := fun session => ?_
    placed := forall_goOn books.placed fun new fresh => placed_free (free new fresh)
    known := forall_goOn books.known fun new fresh e found => ?_ }
  · rw [leaseShare_other (by rw [nowhere]; simp)]
    exact tally_zero fun new fresh => leaseShare_other (by rw [free new fresh]; simp) lane
  · rw [pendingShare_other (by rw [nowhere]; simp)]
    exact tally_zero fun new fresh => pendingShare_other (by rw [free new fresh]; simp)
  · have before := books.once session
    have trade := moved session
    have parties := tally_goOn (holds session) acting news
    dsimp only
    rw [List.count_append, List.count_append]
    omega
  · rw [free new fresh] at found
    cases found

theorem Books.join (books : Books pool) (lanes : ∀ lane e, leaseShare lane e party = 0)
    (guards : ∀ e, pendingShare e party = 0) (empty : ∀ session, holds session party = 0) (placed : party.Placed)
    (known : ∀ e, party.entry = some e → e < pool.entries.length ∧ e ∉ pool.evicted) :
    Books { pool with parties := pool.parties ++ [party] } := by
  refine { books with
    leased := fun lane => (books.leased lane).join fun e => by rw [tally_cons, lanes]; rfl
    pending := books.pending.join fun e => by rw [tally_cons, guards]; rfl
    once := fun session => ?_
    placed := fun other member => ?_
    known := fun other member => ?_ }
  · have before := books.once session
    have nothing := empty session
    dsimp only
    rw [tally_append, tally_cons, tally_nil]
    omega
  · obtain old | new := List.mem_append.mp member
    · exact books.placed other old
    · rw [List.mem_singleton.mp new]
      exact placed
  · obtain old | new := List.mem_append.mp member
    · exact books.known other old
    · rw [List.mem_singleton.mp new]
      exact known

theorem Books.slot_unique (books : Books pool) (first : slot ∈ pool.map) (second : other ∈ pool.map)
    (same : slot.1 = other.1) : slot = other :=
  List.inj_on_of_nodup_map books.keys first second same

theorem Books.retire (books : Books pool) (here : pool.entries[e]? = some entry) : Books (pool.retire e entry) := by
  have closing : ∀ new ∈ closeInBackground (entry.idle.map (·.ride)), new.entry = none ∧ new.Placed := by
    intro new member
    rw [mem_closeInBackground member]
    exact ⟨rfl, trivial⟩
  refine { books with
    leased := fun lane => ((books.leased lane).set here { entry with retired := true, idle := [] } rfl).join
      fun e => closes_leaseShare lane e _
    pending := (books.pending.set here { entry with retired := true, idle := [] } rfl).join fun e =>
      closes_pendingShare e _
    once := fun session => ?_
    few := fun other member => ?_
    placed := fun other member => ?_
    known := fun other member e found => ?_
    mapped := fun slot member => ?_
    evicted := fun other member => ?_
    gone := fun other found there => ?_
    cleared := fun other found there => ?_ }
  · have before := books.once session
    have entries := tally_set (idles session) here { entry with retired := true, idle := [] }
    have none' : idles session { entry with retired := true, idle := [] } = 0 := rfl
    have taken : idles session entry = (entry.idle.map (·.ride.session.id)).count session := rfl
    rw [SessionPool.retire]
    dsimp only
    rw [tally_append, closes_idle]
    omega
  · obtain old | rfl := List.mem_or_eq_of_mem_set member
    · exact books.few other old
    · exact Nat.zero_le _
  · exact (List.mem_append.mp member).elim (books.placed other) fun new => (closing other new).2
  · rw [SessionPool.retire, List.length_set]
    obtain old | new := List.mem_append.mp member
    · exact books.known other old e found
    · rw [(closing other new).1] at found
      cases found
  · obtain ⟨kept, old, found, identity⟩ := books.mapped slot member
    refine ⟨kept, ?_⟩
    rw [SessionPool.retire]
    by_cases same : slot.2 = e
    · rw [same] at found ⊢
      cases here.symm.trans found
      exact ⟨_, List.getElem?_set_self (List.getElem?_eq_some_iff.mp here).1, identity⟩
    · exact ⟨old, by rw [List.getElem?_set_ne (Ne.symm same)]; exact found, identity⟩
  · rw [SessionPool.retire, List.length_set]
    exact books.evicted other member
  · obtain ⟨-, rfl⟩ | ⟨-, old⟩ := getElem?_set_cases there
    · exact .inr (.inr rfl)
    · exact books.gone other found old
  · obtain ⟨-, rfl⟩ | ⟨-, old⟩ := getElem?_set_cases there
    · exact fun _ => rfl
    · exact books.cleared other found old

section
variable [DecidableEq ι]

theorem Books.insert (books : Books pool) (key : PoolKey ι κ)
    (replaced : ∀ slot ∈ pool.map, slot.1 = key.identity → ∀ entry, pool.entries[slot.2]? = some entry →
    entry.retired = true) :
    Books (pool.insert key) := by
  have grown : pool.entries.length < (pool.entries ++
      [({ identity := key.identity, credential := key.credential } : Entry ι κ)]).length := by
    rw [List.length_append]
    exact Nat.lt_succ_self _
  have nobody : ∀ party ∈ pool.parties, party.entry ≠ some pool.entries.length := fun party member found =>
    absurd (books.known party member _ found).1 (Nat.lt_irrefl _)
  refine { books with
    leased := fun lane => (books.leased lane).grow ?_
    pending := books.pending.grow ?_
    once := fun session => ?_
    few := fun entry member => ?_
    known := fun party member e found => ?_
    mapped := fun slot member => ?_
    keys := ?_
    evicted := fun e member => Nat.lt_trans (books.evicted e member) grown
    gone := fun e entry found => ?_
    cleared := fun e entry found => ?_ }
  · exact (tally_zero fun party member => leaseShare_other (nobody party member) lane).symm
  · exact (tally_zero fun party member => pendingShare_other (nobody party member)).symm
  · have before := books.once session
    simp only [SessionPool.insert, tally_append, tally_cons, tally_nil, idles, List.map_nil, List.count_nil]
    exact before
  · obtain old | new := List.mem_append.mp member
    · exact books.few entry old
    · rw [List.mem_singleton.mp new]
      exact Nat.zero_le _
  · obtain ⟨within, kept⟩ := books.known party member e found
    exact ⟨Nat.lt_trans within grown, kept⟩
  · obtain rfl | old := List.mem_cons.mp member
    · exact ⟨fun evicted => Nat.lt_irrefl _ (books.evicted _ evicted), _, List.getElem?_concat_length, rfl⟩
    · obtain ⟨kept, entry, found, identity⟩ := books.mapped slot (List.mem_of_mem_filter old)
      refine ⟨kept, entry, ?_, identity⟩
      rw [SessionPool.insert, List.getElem?_append_left (List.getElem?_eq_some_iff.mp found).1]
      exact found
  · rw [SessionPool.insert, List.map_cons]
    refine List.nodup_cons.mpr ⟨fun member => ?_, books.keys.sublist (List.filter_sublist.map _)⟩
    obtain ⟨slot, inside, same⟩ := List.mem_map.mp member
    exact of_decide_eq_true (List.mem_filter.mp inside).2 same
  · rw [SessionPool.insert] at found ⊢
    obtain old | ⟨rfl, rfl⟩ := getElem?_concat_cases found
    · obtain mapped | evicted | retired := books.gone e entry old
      · obtain ⟨slot, inside, rfl⟩ := List.mem_map.mp mapped
        by_cases same : slot.1 = key.identity
        · exact .inr (.inr (replaced slot inside same entry old))
        · refine .inl (List.mem_map.mpr ⟨slot, List.mem_cons_of_mem _ (List.mem_filter.mpr ⟨inside, ?_⟩), rfl⟩)
          exact decide_eq_true same
      · exact .inr (.inl evicted)
      · exact .inr (.inr retired)
    · exact .inl List.mem_cons_self
  · rw [SessionPool.insert] at found
    obtain old | ⟨rfl, rfl⟩ := getElem?_concat_cases found
    · exact books.cleared e entry old
    · exact fun _ => rfl

theorem find_some (found : pool.find identity = some (e, entry)) :
    (∃ slot ∈ pool.map, slot.1 = identity ∧ slot.2 = e) ∧ pool.entries[e]? = some entry := by
  obtain ⟨slot, there, mapped⟩ := Option.bind_eq_some_iff.mp found
  obtain ⟨known, here, same⟩ := Option.map_eq_some_iff.mp mapped
  cases same
  have named := List.find?_some there
  exact ⟨⟨slot, List.mem_of_find?_eq_some there, of_decide_eq_true named, rfl⟩, here⟩

theorem Books.find_none (books : Books pool) (missing : pool.find identity = none) :
    ∀ slot ∈ pool.map, slot.1 ≠ identity := by
  intro slot member same
  obtain ⟨slot', there⟩ := Option.isSome_iff_exists.mp
    (List.find?_isSome.mpr ⟨slot, member, decide_eq_true same⟩ : (pool.map.find? (·.1 = identity)).isSome)
  obtain ⟨-, entry, here, -⟩ := books.mapped slot' (List.mem_of_find?_eq_some there)
  rw [SessionPool.find, there, Option.bind_some, here] at missing
  cases missing

variable [DecidableEq κ]

theorem Books.entryFor (books : Books pool) (key : PoolKey ι κ) :
    Books (pool.entryFor key).2 ∧ (pool.entryFor key).1 ∉ (pool.entryFor key).2.evicted ∧
      ∃ entry, (pool.entryFor key).2.entries[(pool.entryFor key).1]? = some entry ∧ entry.key = key := by
  have fresh {grown : SessionPool ι κ} (same : grown.entries.length = pool.entries.length)
      (kept : grown.evicted = pool.evicted) :
      pool.entries.length ∉ (grown.insert key).evicted ∧
        ∃ entry, (grown.insert key).entries[pool.entries.length]? = some entry ∧ entry.key = key := by
    refine ⟨fun evicted => ?_, _, by rw [← same]; exact List.getElem?_concat_length, rfl⟩
    rw [SessionPool.insert, kept] at evicted
    exact Nat.lt_irrefl _ (books.evicted _ evicted)
  unfold SessionPool.entryFor
  split
  · next missing => exact ⟨books.insert key fun slot member same =>
      absurd same (books.find_none missing slot member), fresh rfl rfl⟩
  · next e entry found =>
    obtain ⟨⟨slot, member, named, at_e⟩, here⟩ := find_some found
    split
    · next credential =>
      obtain ⟨kept, entry', here', identity⟩ := books.mapped slot member
      rw [at_e] at kept here'
      cases here.symm.trans here'
      refine ⟨books, kept, entry, here, ?_⟩
      rw [Entry.key, identity, named, credential]
    · refine ⟨(books.retire here).insert key fun other inside same entry' there => ?_,
        fresh (by rw [SessionPool.retire, List.length_set]) rfl⟩
      cases books.slot_unique inside member (same.trans named.symm)
      rw [SessionPool.retire, at_e, List.getElem?_set_self (List.getElem?_eq_some_iff.mp here).1] at there
      cases there
      rfl

theorem Books.arrive (books : Books pool) (key : PoolKey ι κ) (arriving : Nat → Party ι κ)
    (lanes : ∀ lane e e', leaseShare lane e (arriving e') = 0) (guards : ∀ e e', pendingShare e (arriving e') = 0)
    (empty : ∀ session e, holds session (arriving e) = 0) (placed : ∀ e, (arriving e).Placed)
    (there : ∀ e, (arriving e).entry = some e) : Books (pool.arrive key arriving) := by
  obtain ⟨kept, live, entry, here, -⟩ := books.entryFor key
  refine kept.join (fun lane e => lanes lane e _) (fun e => guards e _) (fun session => empty session _)
    (placed _) fun e found => ?_
  cases (there _).symm.trans found
  exact ⟨(List.getElem?_eq_some_iff.mp here).1, live⟩

end

theorem idles_mapIdx (taken : Nat → Idle ι κ → Bool) (entries : List (Entry ι κ)) (session : Nat) :
    tally (idles session) (entries.mapIdx fun e entry => { entry with idle := entry.idle.filter (!taken e ·) }) +
        ((entries.mapIdx fun e entry => entry.idle.filter (taken e)).flatten.map (·.ride.session.id)).count session =
      tally (idles session) entries := by
  induction entries generalizing taken with
  | nil => rfl
  | cons entry rest ih =>
    have later := ih fun e => taken (e + 1)
    have first := count_filter_split (taken 0) (·.ride.session.id) entry.idle session
    simp only [List.mapIdx_cons, List.flatten_cons, List.map_append, List.count_append, tally_cons]
    simp only [idles] at later first ⊢
    omega

theorem Books.evict (books : Books pool) (ttl : Nat) : Books (pool.evict ttl) := by
  have there {e : Nat} {entry : Entry ι κ} (found : (pool.evict ttl).entries[e]? = some entry) :
      ∃ old, pool.entries[e]? = some old ∧ entry = { old with idle := old.idle.filter (!pool.expires ttl e ·) } := by
    rw [SessionPool.evict, List.getElem?_mapIdx] at found
    obtain ⟨old, here, rfl⟩ := Option.map_eq_some_iff.mp found
    exact ⟨old, here, rfl⟩
  have length : (pool.evict ttl).entries.length = pool.entries.length := List.length_mapIdx
  refine { books with
    leased := fun lane => ((books.leased lane).mapIdx
      (fun e entry => { entry with idle := entry.idle.filter (!pool.expires ttl e ·) }) fun _ _ =>
      rfl).join fun _ => rfl
    pending := (books.pending.mapIdx
      (fun e entry => { entry with idle := entry.idle.filter (!pool.expires ttl e ·) }) fun _ _ =>
      rfl).join fun _ => rfl
    once := fun session => ?_
    few := fun entry member => ?_
    placed := fun party member => ?_
    known := fun party member e found => ?_
    mapped := fun slot member => ?_
    evicted := fun e member => ?_
    gone := fun e entry found => ?_
    cleared := fun e entry found gone => ?_ }
  · have before := books.once session
    have entries := idles_mapIdx (pool.expires ttl) pool.entries session
    rw [SessionPool.evict]
    dsimp only
    rw [tally_append, tally_cons, tally_nil, holds, Party.sessions, List.map_map]
    simp only [Function.comp_def]
    omega
  · obtain ⟨e, found⟩ := List.mem_iff_getElem?.mp member
    obtain ⟨old, here, rfl⟩ := there found
    exact Nat.le_trans (List.length_filter_le _ _) (books.few old (List.mem_of_getElem? here))
  · obtain old | new := List.mem_append.mp member
    · exact books.placed party old
    · rw [List.mem_singleton.mp new]
      exact trivial
  · rw [length]
    obtain old | new := List.mem_append.mp member
    · exact books.known party old e found
    · rw [List.mem_singleton.mp new] at found
      cases found
  · obtain ⟨kept, old, found, identity⟩ := books.mapped slot member
    refine ⟨kept, { old with idle := old.idle.filter (!pool.expires ttl slot.2 ·) }, ?_, identity⟩
    rw [SessionPool.evict, List.getElem?_mapIdx, found]
    rfl
  · rw [length]
    exact books.evicted e member
  · obtain ⟨old, here, rfl⟩ := there found
    exact books.gone e old here
  · obtain ⟨old, here, rfl⟩ := there found
    rw [books.cleared e old here gone]
    rfl

/-- An entry that the sweep forgets holds nothing, and nobody refers to it. -/
theorem forgotten (lost : pool.keeps e = false) :
    (∀ party ∈ pool.parties, party.entry ≠ some e) ∧
      ∀ entry, pool.entries[e]? = some entry → entry.idle = [] := by
  rw [SessionPool.keeps, Bool.or_eq_false_iff] at lost
  refine ⟨fun party member same => ?_, fun entry found => ?_⟩
  · have none' := lost.1
    rw [SessionPool.refers, List.any_eq_false] at none'
    exact none' party member (decide_eq_true same)
  · have empty := lost.2
    rw [found, Option.any_some, Bool.or_eq_false_iff, Bool.or_eq_false_iff, Bool.or_eq_false_iff,
      Bool.or_eq_false_iff] at empty
    simpa using empty.1.1.1.1

theorem Books.sweep (books : Books pool) (acting : pool.parties[i]? = some (.evicting [])) : Books (pool.sweep i) := by
  have lost {e : Nat} (member : e ∈ (pool.map.filter (!pool.keeps ·.2)).map (·.2)) : pool.keeps e = false := by
    obtain ⟨slot, inside, rfl⟩ := List.mem_map.mp member
    simpa using (List.mem_filter.mp inside).2
  refine { books with
    leased := fun lane => (books.leased lane).aside acting fun _ => rfl
    pending := books.pending.aside acting fun _ => rfl
    once := fun session => ?_
    placed := forall_goOn books.placed forall_none
    known := fun party member e found => ?_
    mapped := fun slot member => ?_
    keys := books.keys.sublist (List.filter_sublist.map _)
    evicted := fun e member => ?_
    gone := fun e entry found => ?_
    cleared := fun e entry found gone => ?_ }
  · have before := books.once session
    have parties := tally_goOn (holds session) acting []
    have nothing : holds session (.evicting [] : Party ι κ) = 0 := rfl
    rw [SessionPool.sweep]
    dsimp only
    rw [tally_nil] at parties
    omega
  · obtain old | new := mem_goOn member
    · obtain ⟨within, kept⟩ := books.known party old e found
      refine ⟨within, fun evicted => ?_⟩
      obtain before | now := List.mem_append.mp evicted
      · exact kept before
      · exact (forgotten (lost now)).1 party old found
    · cases new
  · obtain ⟨inside, keeps⟩ := List.mem_filter.mp member
    obtain ⟨kept, there⟩ := books.mapped slot inside
    refine ⟨fun evicted => ?_, there⟩
    obtain before | now := List.mem_append.mp evicted
    · exact kept before
    · rw [lost now] at keeps
      cases keeps
  · obtain before | now := List.mem_append.mp member
    · exact books.evicted e before
    · obtain ⟨slot, inside, rfl⟩ := List.mem_map.mp now
      obtain ⟨-, entry, found, -⟩ := books.mapped slot (List.mem_of_mem_filter inside)
      exact (List.getElem?_eq_some_iff.mp found).1
  · obtain mapped | evicted | retired := books.gone e entry found
    · obtain ⟨slot, inside, rfl⟩ := List.mem_map.mp mapped
      cases keeps : pool.keeps slot.2 with
      | true => exact .inl (List.mem_map.mpr ⟨slot, List.mem_filter.mpr ⟨inside, keeps⟩, rfl⟩)
      | false =>
        refine .inr (.inl (List.mem_append_right _ (List.mem_map.mpr ⟨slot, List.mem_filter.mpr ⟨inside, ?_⟩, rfl⟩)))
        rw [keeps]
        rfl
    · exact .inr (.inl (List.mem_append_left _ evicted))
    · exact .inr (.inr retired)
  · obtain retired | evicted := gone
    · exact books.cleared e entry found (.inl retired)
    · obtain before | now := List.mem_append.mp evicted
      · exact books.cleared e entry found (.inr before)
      · exact (forgotten (lost now)).2 entry found

section
variable [DecidableEq ι] [DecidableEq κ]

theorem step_books (pool : SessionPool ι κ) (action : Action ι κ) (next : SessionPool ι κ) (books : Books pool)
    (stepped : pool.step action = some next) : Books next := by
  cases action with
  | checkout config lane =>
    cases stepped
    exact books.arrive _ _ (fun _ _ _ => rfl) (fun _ _ => rfl) (fun _ _ => rfl) (fun _ => trivial) fun _ => rfl
  | warm config =>
    cases stepped
    exact books.arrive _ _ (fun _ _ _ => rfl) (fun _ _ => rfl) (fun _ _ => rfl) (fun _ => trivial) fun _ => rfl
  | openUnleased config =>
    cases stepped
    exact books.arrive _ _ (fun _ _ _ => rfl) (fun _ _ => rfl) (fun _ _ => rfl) (fun _ => trivial) fun _ => rfl
  | evict ttl =>
    cases stepped
    exact books.evict ttl
  | sweep i =>
    obtain ⟨acting, same⟩ := Option.ite_none_right_eq_some.mp stepped
    cases same
    exact books.sweep acting
  | elapse time =>
    cases stepped
    exact { books with }
  | tunnelDies tunnel =>
    cases stepped
    exact { books with }
  | turn i event =>
    obtain ⟨party, acting, went⟩ := Option.bind_eq_some_iff.mp stepped
    cases at_e : party.entry with
    | some e =>
      rw [at_e] at went
      obtain ⟨entry, here, went⟩ := Option.bind_eq_some_iff.mp went
      obtain ⟨turn, took, rfl⟩ := Option.map_eq_some_iff.mp went
      exact books.turn acting at_e here (turn_fair (books.placed party (List.mem_of_getElem? acting)) at_e took) _
    | none =>
      rw [at_e] at went
      obtain ⟨⟨news, closed, dropped⟩, took, rfl⟩ := Option.map_eq_some_iff.mp went
      exact books.aside acting at_e took

end

/-- The live `LeaseGuard`s of a lane. -/
def SessionPool.leaseGuards (e : Nat) (lane : Lane) (pool : SessionPool ι κ) : Nat :=
  (pool.parties.filter (·.lease = some (e, lane))).length

/-- The live `PendingGuard`s. -/
def SessionPool.pendingGuards (e : Nat) (pool : SessionPool ι κ) : Nat :=
  (pool.parties.filter (·.pending = some e)).length

def SessionPool.idle (session : Nat) (pool : SessionPool ι κ) : Nat := tally (idles session) pool.entries

def SessionPool.owned (place : Place) (session : Nat) (pool : SessionPool ι κ) : Nat :=
  tally (fun party => if party.place = place then holds session party else 0) pool.parties

def SessionPool.handedToClose (session : Nat) (pool : SessionPool ι κ) : Nat :=
  pool.owned .closing session + pool.closed.count session

/-- The counts are those of the live guards, and every session is in one place. -/
structure Exact (pool : SessionPool ι κ) : Prop where
  leased : ∀ (e : Nat) (entry : Entry ι κ) (lane : Lane), pool.entries[e]? = some entry →
    entry.leased lane = pool.leaseGuards e lane
  pending : ∀ (e : Nat) (entry : Entry ι κ), pool.entries[e]? = some entry → entry.pending = pool.pendingGuards e
  unsaturated : ∀ party ∈ pool.parties, ∀ (e : Nat) (entry : Entry ι κ), pool.entries[e]? = some entry →
    (∀ lane, party.lease = some (e, lane) → 0 < entry.leased lane) ∧ (party.pending = some e → 0 < entry.pending)
  few : ∀ entry ∈ pool.entries, entry.idle.length ≤ idleMax
  once : ∀ session < pool.world.opened,
    pool.idle session + pool.owned .lent session + pool.owned .returning session + pool.handedToClose session +
      pool.dropped.count session = 1
  evicted : ∀ e ∈ pool.evicted, (∀ party ∈ pool.parties, party.entry ≠ some e) ∧
    ∀ entry, pool.entries[e]? = some entry → entry.idle = []
  unheld : ∀ (e : Nat) (entry : Entry ι κ), pool.entries[e]? = some entry → (∀ lane, pool.leaseGuards e lane = 0) →
    pool.pendingGuards e = 0 → (∀ lane, entry.leased lane = 0) ∧ entry.pending = 0

theorem leaseGuards_eq (e : Nat) (lane : Lane) (pool : SessionPool ι κ) :
    pool.leaseGuards e lane = tally (leaseShare lane e) pool.parties := by
  rw [SessionPool.leaseGuards, ← tally_indicator]
  simp only [decide_eq_true_eq]
  rfl

theorem pendingGuards_eq (e : Nat) (pool : SessionPool ι κ) :
    pool.pendingGuards e = tally (pendingShare e) pool.parties := by
  rw [SessionPool.pendingGuards, ← tally_indicator]
  simp only [decide_eq_true_eq]
  rfl

theorem owned_total (session : Nat) (parties : List (Party ι κ)) :
    tally (fun party => if party.place = .lent then holds session party else 0) parties +
        tally (fun party => if party.place = .returning then holds session party else 0) parties +
        tally (fun party => if party.place = .closing then holds session party else 0) parties =
      tally (holds session) parties := by
  induction parties with
  | nil => rfl
  | cons party rest ih =>
    simp only [tally_cons]
    cases party.place <;> simp only [↓reduceIte, reduceCtorEq] <;> omega

theorem Books.exact (books : Books pool) : Exact pool := by
  have leased {e : Nat} {entry : Entry ι κ} (lane : Lane) (here : pool.entries[e]? = some entry) :
      entry.leased lane = pool.leaseGuards e lane := by
    rw [leaseGuards_eq]
    exact books.leased lane e entry here
  have pending {e : Nat} {entry : Entry ι κ} (here : pool.entries[e]? = some entry) :
      entry.pending = pool.pendingGuards e := by
    rw [pendingGuards_eq]
    exact books.pending e entry here
  exact {
    leased := fun e entry lane => leased lane
    pending := fun e entry => pending
    unsaturated := fun party member e entry here => by
      refine ⟨fun lane holds => ?_, fun holds => ?_⟩
      · rw [leased lane here]
        exact List.length_pos_of_mem (List.mem_filter.mpr ⟨member, decide_eq_true holds⟩)
      · rw [pending here]
        exact List.length_pos_of_mem (List.mem_filter.mpr ⟨member, decide_eq_true holds⟩)
    few := books.few
    once := fun session opened => by
      have total := books.once session
      have parties := owned_total session pool.parties
      rw [List.count_eq_one_of_mem List.nodup_range (List.mem_range.mpr opened)] at total
      simp only [SessionPool.idle, SessionPool.owned, SessionPool.handedToClose]
      omega
    evicted := fun e gone => ⟨fun party member at_e => (books.known party member e at_e).2 gone,
      fun entry here => books.cleared e entry here (.inr gone)⟩
    unheld := fun e entry here lanes none' => ⟨fun lane => (leased lane here).trans (lanes lane),
      (pending here).trans none'⟩ }

/-- A step that drops a session unclosed: the task that closes or brings it back is
dropped, or a long operation leaves it, or a call replaces a lost connection. -/
def Party.loses (event : Event) : Party ι κ → Bool
  | opening (.replacement _ _ _) _ _ (.connecting _) => event = .ended .ok
  | returning _ _ _ _ | resetting _ _ | unleased _ _ | closing _ | evicting _ => event = .ended .dropped
  | _ => false

def SessionPool.loses (pool : SessionPool ι κ) : Action ι κ → Bool
  | .turn i event => pool.parties[i]?.any (·.loses event)
  | _ => false

theorem look_drops (world : World) (config : Config ι κ) (e : Nat) (lane : Lane) (waited : Bool) (entry : Entry ι κ) :
    (look world config e lane waited entry).dropped = [] := by
  unfold look
  dsimp only
  split <;> rfl

theorem openIdle_drops (only : Bool) (config : Config ι κ) (e : Nat) (others : List (Party ι κ)) (entry : Entry ι κ) :
    (openIdle only config e others entry).dropped = [] := by
  unfold openIdle
  split <;> rfl

theorem giveUp_drops (world : World) (how : Awaited) (purpose : Purpose ι κ) (entry : Entry ι κ) :
    (giveUp world how purpose entry).dropped = [] := by
  cases purpose <;> rfl

theorem ensureTunnel_drops {world : World} {purpose : Purpose ι κ} {config : Config ι κ}
    (took : ensureTunnel world purpose config e entry = some taken) : taken.dropped = [] := by
  unfold ensureTunnel at took
  dsimp only at took
  split at took
  · cases took
    rfl
  · split at took
    · cases took
    · split at took
      · cases took
        rfl
      · split at took <;> cases took <;> rfl

theorem opens_drops {world : World} {purpose : Purpose ι κ} {config : Config ι κ} {phase : Phase} {event : Event}
    (took : opens world purpose config e phase event entry = some taken)
    (careful : (Party.opening purpose config e phase).loses event = false) : taken.dropped = [] := by
  unfold opens at took
  split at took
  · exact ensureTunnel_drops took
  · cases took
    exact giveUp_drops _ _ _ _
  · cases took
    rfl
  · cases took
    exact giveUp_drops _ _ _ _
  · cases took
    cases purpose with
    | lease lane | idle | unleased => rfl
    | replacement borrower weather op => cases careful
  · cases took
    exact giveUp_drops _ _ _ _
  · cases took

theorem lent_drops {world : World} {borrower : Lent ι κ} {event : Event}
    (took : borrower.turn world event entry = some taken) : taken.dropped = [] := by
  unfold Lent.turn at took
  split at took
  · split at took <;> cases took <;> rfl
  · cases took
    rfl
  · cases took
    rfl
  · cases took
    rfl
  · obtain ⟨lease, -, rfl⟩ := Option.map_eq_some_iff.mp took
    rfl
  · cases took
  · cases took

theorem turn_drops {world : World} {event : Event} (took : party.turn world event entry = some taken)
    (careful : party.loses event = false) : taken.dropped = [] := by
  unfold Party.turn at took
  split at took
  · cases took
    exact look_drops _ _ _ _ _ _
  · cases took
    rfl
  · exact opens_drops took careful
  · exact lent_drops took
  · cases took
    exact openIdle_drops _ _ _ _ _
  · split at took <;> cases took <;> rfl
  · cases careful
  · cases careful
  · cases took
    rfl
  · cases took
    rfl
  · cases took
    rfl
  · cases took
    rfl
  · cases took
    exact openIdle_drops _ _ _ _ _
  · cases took

theorem aside_drops {event : Event} (took : party.aside event = some (news, closed, dropped))
    (careful : party.loses event = false) : dropped = [] := by
  unfold Party.aside at took
  split at took <;> cases took <;> first | rfl | cases careful

section
variable [DecidableEq ι] [DecidableEq κ]

theorem arrive_dropped (key : PoolKey ι κ) (arriving : Nat → Party ι κ) (pool : SessionPool ι κ) :
    (pool.arrive key arriving).dropped = pool.dropped := by
  unfold SessionPool.arrive SessionPool.entryFor
  dsimp only
  split
  · rfl
  · split <;> rfl

theorem step_drops (pool : SessionPool ι κ) (action : Action ι κ) (next : SessionPool ι κ)
    (none' : pool.dropped = []) (careful : pool.loses action = false) (stepped : pool.step action = some next) :
    next.dropped = [] := by
  cases action with
  | checkout config lane | warm config | openUnleased config =>
    cases stepped
    exact (arrive_dropped _ _ _).trans none'
  | evict ttl | elapse time | tunnelDies tunnel =>
    cases stepped
    exact none'
  | sweep i =>
    obtain ⟨-, same⟩ := Option.ite_none_right_eq_some.mp stepped
    cases same
    exact none'
  | turn i event =>
    obtain ⟨party, acting, went⟩ := Option.bind_eq_some_iff.mp stepped
    rw [SessionPool.loses, acting, Option.any_some] at careful
    cases at_e : party.entry with
    | some e =>
      rw [at_e] at went
      obtain ⟨entry, here, went⟩ := Option.bind_eq_some_iff.mp went
      obtain ⟨taken, took, rfl⟩ := Option.map_eq_some_iff.mp went
      exact List.append_eq_nil_iff.mpr ⟨none', turn_drops took careful⟩
    | none =>
      rw [at_e] at went
      obtain ⟨⟨news, closed, dropped⟩, took, rfl⟩ := Option.map_eq_some_iff.mp went
      exact List.append_eq_nil_iff.mpr ⟨none', aside_drops took careful⟩

/-- In every state of every interleaving the counts are those of the live guards, and
every session the pool opened is idle, lent, on its way back, handed to a close, or
dropped; and none was dropped in a run that lost no session with its task or to a
replacement. -/
theorem counts_exact (actions : List (Action ι κ)) (pool : SessionPool ι κ)
    (ran : run SessionPool.step {} actions = some pool) :
    Exact pool ∧
      (Along SessionPool.step (fun pool action => pool.loses action = false) {} actions → pool.dropped = []) :=
  ⟨(run_invariant Books step_books books_empty ran).exact,
    fun along => run_invariant_along (·.dropped = []) step_drops rfl along ran⟩
end

/-- A preview's session on PostgreSQL, with no tunnel. -/
def previewConfig : Config Nat Nat := ⟨⟨⟨.postgres, false, 0⟩, 0⟩, ⟨none, none⟩⟩

/-- A checkout opens a session, which is reset, parked and lent again. -/
def reuse : List (Action Nat Nat) :=
  [.checkout previewConfig .query, .turn 0 .go, .turn 0 .go, .turn 0 (.ended .ok), .turn 0 .release, .turn 0 .go,
    .turn 0 (.ended .ok), .turn 0 .go, .checkout previewConfig .query, .turn 0 .go]

theorem counts_exact_reused : ∃ pool, run SessionPool.step {} reuse = some pool ∧ Exact pool ∧ pool.dropped = [] := by
  obtain ⟨pool, ran⟩ : ∃ pool, run SessionPool.step {} reuse = some pool := Option.isSome_iff_exists.mp rfl
  obtain ⟨exact', dropped⟩ := counts_exact reuse pool ran
  exact ⟨pool, ran, exact', dropped (by decide)⟩

/-- The task that resets a session is dropped: the session is neither idle nor lent nor on
its way back, and nobody closed it. -/
theorem dropped_reset_unclosed :
    ∃ pool, run SessionPool.step ({} : SessionPool Nat Nat)
        [.checkout previewConfig .query, .turn 0 .go, .turn 0 .go, .turn 0 (.ended .ok), .turn 0 .release, .turn 0 .go,
          .turn 0 (.ended .dropped)] = some pool ∧
      pool.world.opened = 1 ∧
      pool.idle 0 + pool.owned .lent 0 + pool.owned .returning 0 + pool.handedToClose 0 = 0 :=
  ⟨_, rfl, rfl, rfl⟩

end QueryHive.Host.Pool
