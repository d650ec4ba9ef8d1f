import ApiCerberus.Lib.Table
import ApiCerberus.Lib.Text
import ApiCerberus.Lib.Transition

/-!
# Persisted queries

`internal/graphql/apq.go:20-305`. `Get` takes the lock twice and looks at the entry in between, so a step is one of its
sections (`Action.get`, `resume`). A clock reading is any number.

The list is not always the list of the keys: a hit whose entry has gone since it was found puts its key back into the
list. And it is not always in the order of use: a `Set` of a key that is there leaves it where it was (`apq_drifts`).
`apq_lru`: what always holds, and what holds where neither happens.
-/

namespace GraphQL.Apq

open Transition

structure PersistedQuery where
  query : Text
  hash : Text
  createdAt : Int
  lastUsed : Int
  useCount : Nat

structure Stats where
  hits : Nat
  misses : Nat
  evictions : Nat

/-- The map has pointers, to `objects`: a `Get` may hold one that the map has no more. -/
structure Cache where
  objects : List PersistedQuery
  entries : FinMap Text Nat
  lruList : List Text
  maxSize : Nat
  ttl : Int
  stats : Stats

/-- Values that are not positive are replaced by defaults. -/
def newInMemoryAPQCache (maxSize ttl : Int) : Cache where
  objects := []
  entries := .empty
  lruList := []
  maxSize := if maxSize ≤ 0 then 10000 else maxSize.toNat
  ttl := if ttl ≤ 0 then 24 * 60 * 60 * 1000000000 else ttl
  stats := ⟨0, 0, 0⟩

def Has (m : FinMap Text Nat) (hash : Text) : Prop := (m.get? hash).isSome

instance (m : FinMap Text Nat) (hash : Text) : Decidable (Has m hash) := inferInstanceAs (Decidable (_ = true))

/-- While there are too many entries, the first key of the list goes. -/
def evict (maxSize : Nat) : List Text → FinMap Text Nat → List Text × FinMap Text Nat
  | [], m => ([], m)
  | oldest :: rest, m => if maxSize ≤ m.rows.length then evict maxSize rest (m.erase oldest) else (oldest :: rest, m)

namespace Cache

variable (c : Cache)

/-- The time to live counts from the last use. -/
def isExpired (now : Int) (entry : Nat) : Bool := (c.objects[entry]?).any fun e => c.ttl < now - e.lastUsed

def use (now : Int) (entry : Nat) : Cache :=
  { c with objects := c.objects.modify entry fun e => { e with lastUsed := now, useCount := e.useCount + 1 } }

def hit : Cache := { c with stats := { c.stats with hits := c.stats.hits + 1 } }

def miss : Cache := { c with stats := { c.stats with misses := c.stats.misses + 1 } }

/-- `delete` on the map, and `removeFromLRU`. -/
def remove (hash : Text) : Cache := { c with entries := c.entries.erase hash, lruList := c.lruList.erase hash }

def moveToEnd (hash : Text) : Cache := { c with lruList := c.lruList.erase hash ++ [hash] }

/-- A query that is there is only marked as used. -/
def set (query hash : Text) (now : Int) : Cache :=
  match c.entries.get? hash with
  | some entry => c.use now entry
  | none =>
    let (lruList, entries) := evict c.maxSize c.lruList c.entries
    { c with
      objects := c.objects ++ [⟨query, hash, now, now, 1⟩]
      entries := entries.set hash c.objects.length
      lruList := lruList ++ [hash]
      stats := { c.stats with evictions := c.stats.evictions + (c.lruList.length - lruList.length) } }

def delete (hash : Text) : Bool × Cache := if Has c.entries hash then (true, c.remove hash) else (false, c)

/-- In any order of the map: removals of different keys commute. -/
def cleanup (now : Int) : Cache := ((c.entries.rows.filter fun r => c.isExpired now r.2).map Prod.fst).foldl remove c

end Cache

/-- Where a `Get` is. -/
inductive Get
  | missed
  | found (hash : Text) (entry : Nat)
  | expired (hash : Text)
  | hit (hash : Text) (entry : Nat)
  | returned (entry : Option Nat)

structure State where
  cache : Cache
  gets : List Get
  /-- How many hits and `Set`s there were. -/
  uses : Nat
  /-- Which of them was the last one of a key. -/
  lastUse : Text → Nat

def State.used (s : State) (hash : Text) : State :=
  { s with uses := s.uses + 1, lastUse := fun k => if k = hash then s.uses else s.lastUse k }

/-- `Get` has several critical sections, the others have one. -/
inductive Action
  | get (hash : Text)
  /-- The next section of the `Get` number `i`. -/
  | resume (i : Nat) (now : Int)
  | set (query hash : Text) (now : Int)
  | delete (hash : Text)
  | cleanup (now : Int)

/-- The read lock is given up before the write lock is taken. -/
def resume (s : State) (i : Nat) (now : Int) : Option State :=
  match s.gets[i]? with
  | some .missed => some { s with cache := s.cache.miss, gets := s.gets.set i (.returned none) }
  | some (.found hash entry) =>
    some { s with gets := s.gets.set i (if s.cache.isExpired now entry then .expired hash else .hit hash entry) }
  | some (.expired hash) => some { s with cache := (s.cache.remove hash).miss, gets := s.gets.set i (.returned none) }
  | some (.hit hash entry) =>
    some (State.used
      { s with cache := ((s.cache.use now entry).hit).moveToEnd hash, gets := s.gets.set i (.returned
        (some entry)) } hash)
  | some (.returned _) | none => none

def step (s : State) : Action → Option State
  | .get hash => some { s with gets := s.gets ++ [(s.cache.entries.get? hash).elim .missed (.found hash)] }
  | .resume i now => resume s i now
  | .set query hash now => some (State.used { s with cache := s.cache.set query hash now } hash)
  | .delete hash => some { s with cache := (s.cache.delete hash).2 }
  | .cleanup now => some { s with cache := s.cache.cleanup now }

def start (maxSize ttl : Int) : State := ⟨newInMemoryAPQCache maxSize ttl, [], 0, fun _ => 0⟩

def apq (maxSize ttl : Int) : System State Action := ⟨fun s => s = start maxSize ttl, step⟩

/-- A hit finds its key in the map when it takes the lock again. -/
def Intact (s : State) : Action → Prop
  | .resume i _ => ∀ hash entry, s.gets[i]? = some (.hit hash entry) → Has s.cache.entries hash
  | _ => True

/-- A `Set` is of a key that is not there. -/
def Fresh (s : State) : Action → Prop
  | .set _ hash _ => ¬ Has s.cache.entries hash
  | _ => True

/-! ## The list and the map -/

/-- Every key has its place in the list. -/
def Covers (l : List Text) (m : FinMap Text Nat) : Prop := ∀ k, Has m k → k ∈ l

/-- The list has the keys of the map, each once. -/
structure Exact (l : List Text) (m : FinMap Text Nat) : Prop where
  nodup : l.Nodup
  mem_iff : ∀ k, k ∈ l ↔ Has m k

/-- The keys stand in the order of their last use. -/
structure Ranked (uses : Nat) (lastUse : Text → Nat) (l : List Text) : Prop where
  ordered : l.Pairwise fun k k' => lastUse k < lastUse k'
  bounded : ∀ k ∈ l, lastUse k < uses

variable {l : List Text} {m : FinMap Text Nat} {k k' : Text} {n : Nat}

@[simp] theorem has_erase : Has (m.erase k) k' ↔ k' ≠ k ∧ Has m k' := by
  unfold Has
  rw [FinMap.get?_erase]
  split <;> simp [*]

@[simp] theorem has_set : Has (m.set k n) k' ↔ k' = k ∨ Has m k' := by
  unfold Has
  rw [FinMap.get?_set]
  split <;> simp [*]

theorem length_erase_le (m : FinMap Text Nat) (k : Text) : (m.erase k).rows.length ≤ m.rows.length :=
  List.length_filter_le ..

theorem length_erase_lt (h : Has m k) : (m.erase k).rows.length < m.rows.length := by
  obtain ⟨v, hv⟩ := Option.isSome_iff_exists.1 h
  rw [(FinMap.rows_perm_erase hv).length_eq]
  exact Nat.lt_succ_self _

theorem length_set_of_not_has (h : ¬ Has m k) : (m.set k n).rows.length = m.rows.length + 1 := by
  rw [(FinMap.rows_set_perm m k n).length_eq, FinMap.erase_of_none (Option.not_isSome_iff_eq_none.1 h),
    List.length_cons]

theorem Covers.remove (h : Covers l m) (k : Text) : Covers (l.erase k) (m.erase k) := by
  intro k' hk'
  obtain ⟨hne, hhas⟩ := has_erase.1 hk'
  exact (List.mem_erase_of_ne hne).2 (h k' hhas)

theorem Covers.moveToEnd (h : Covers l m) (k : Text) : Covers (l.erase k ++ [k]) m := by
  intro k' hk'
  by_cases hne : k' = k
  · simp [hne]
  · exact List.mem_append_left _ ((List.mem_erase_of_ne hne).2 (h k' hk'))

theorem Covers.add (h : Covers l m) (k : Text) (n : Nat) : Covers (l ++ [k]) (m.set k n) := by
  intro k' hk'
  rcases has_set.1 hk' with rfl | hhas
  · simp
  · exact List.mem_append_left _ (h k' hhas)

theorem Exact.remove (h : Exact l m) (k : Text) : Exact (l.erase k) (m.erase k) where
  nodup := h.nodup.erase k
  mem_iff k' := by rw [h.nodup.mem_erase_iff, h.mem_iff, has_erase]

theorem Exact.moveToEnd (h : Exact l m) (hk : Has m k) : Exact (l.erase k ++ [k]) m where
  nodup := by
    refine List.nodup_append.2 ⟨h.nodup.erase k, List.pairwise_singleton _ k, fun a ha b hb heq => ?_⟩
    rw [heq, List.mem_singleton.1 hb] at ha
    exact h.nodup.not_mem_erase ha
  mem_iff k' := by
    rw [List.mem_append, h.nodup.mem_erase_iff, h.mem_iff, List.mem_singleton]
    by_cases hne : k' = k
    · simp [hne, hk]
    · simp [hne]

theorem Exact.add (h : Exact l m) (hk : ¬ Has m k) (n : Nat) : Exact (l ++ [k]) (m.set k n) where
  nodup := by
    refine List.nodup_append.2 ⟨h.nodup, List.pairwise_singleton _ k, fun a ha b hb heq => ?_⟩
    rw [heq, List.mem_singleton.1 hb] at ha
    exact hk ((h.mem_iff k).1 ha)
  mem_iff k' := by rw [List.mem_append, List.mem_singleton, h.mem_iff, has_set, or_comm]

section Ranks

variable {uses : Nat} {lastUse : Text → Nat}

theorem Ranked.sublist {l' : List Text} (h : Ranked uses lastUse l) (hsub : l'.Sublist l) : Ranked uses lastUse l' :=
  ⟨h.ordered.sublist hsub, fun k hk => h.bounded k (hsub.subset hk)⟩

/-- The key that is used goes to the end. -/
theorem Ranked.use (h : Ranked uses lastUse l) (hk : k ∉ l) :
    Ranked (uses + 1) (fun k' => if k' = k then uses else lastUse k') (l ++ [k]) := by
  have hother : ∀ a ∈ l, a ≠ k := fun a ha heq => hk (heq ▸ ha)
  constructor
  · refine List.pairwise_append.2 ⟨h.ordered.imp_of_mem ?_, List.pairwise_singleton _ _, ?_⟩
    · intro a b ha hb hlt
      rwa [if_neg (hother a ha), if_neg (hother b hb)]
    · intro a ha b hb
      rw [List.mem_singleton.1 hb, if_pos rfl, if_neg (hother a ha)]
      exact h.bounded a ha
  · intro a ha
    rcases List.mem_append.1 ha with ha | ha
    · rw [if_neg (hother a ha)]
      exact (h.bounded a ha).trans (Nat.lt_succ_self _)
    · rw [List.mem_singleton.1 ha, if_pos rfl]
      exact Nat.lt_succ_self _

end Ranks

/-! ## What keeps removals -/

section Removals

variable {P : List Text → FinMap Text Nat → Prop} (hremove : ∀ l m k, P l m → P (l.erase k) (m.erase k))

include hremove

theorem removeAll (gone : List Text) (h : P l m) : P (gone.foldl List.erase l) (gone.foldl FinMap.erase m) := by
  induction gone generalizing l m with
  | nil => exact h
  | cons k gone ih => exact ih (hremove l m k h)

theorem evicted (maxSize : Nat) (h : P l m) : P (evict maxSize l m).1 (evict maxSize l m).2 := by
  induction l generalizing m with
  | nil => exact h
  | cons oldest rest ih =>
    unfold evict
    split
    · have hpop := hremove _ _ oldest h
      rw [List.erase_cons_head] at hpop
      exact ih hpop
    · exact h

end Removals

theorem evict_of_lt (h : m.rows.length < n) : evict n l m = (l, m) := by
  cases l with
  | nil => rfl
  | cons oldest rest => exact if_neg (Nat.not_le.2 h)

theorem length_evict_lt (h : Covers l m) (hn : 0 < n) : (evict n l m).2.rows.length < n := by
  induction l generalizing m with
  | nil =>
    have hnil : m.rows = [] := by
      refine List.eq_nil_iff_forall_not_mem.2 fun r hr => ?_
      have hhas : Has m r.1 := by simp [Has, FinMap.get?_eq_some_iff.2 (show (r.1, r.2) ∈ m.rows from hr)]
      exact List.not_mem_nil (h _ hhas)
    simpa [evict, hnil] using hn
  | cons oldest rest ih =>
    unfold evict
    split
    · have hpop := h.remove oldest
      rw [List.erase_cons_head] at hpop
      exact ih hpop
    · exact Nat.not_le.1 ‹_›

/-! ## Steps -/

variable {s t : State} {a : Action}

theorem foldl_remove (gone : List Text) (c : Cache) :
    (gone.foldl Cache.remove c).lruList = gone.foldl List.erase c.lruList ∧
      (gone.foldl Cache.remove c).entries =
        gone.foldl FinMap.erase c.entries ∧ (gone.foldl Cache.remove c).maxSize = c.maxSize := by
  induction gone generalizing c with
  | nil => exact ⟨rfl, rfl, rfl⟩
  | cons k gone ih => exact ih (c.remove k)

/-- A step takes keys away, or it is a hit, or a `Set` of a key that is there, or of a new one. -/
inductive Effect (s t : State) : Action → Prop
  | removes {a : Action} (gone : List Text) : t.cache.lruList = gone.foldl List.erase s.cache.lruList →
      t.cache.entries = gone.foldl FinMap.erase s.cache.entries → t.uses = s.uses → t.lastUse = s.lastUse → Effect s t a
  | hits (i : Nat) (now : Int) (hash : Text) (entry : Nat) : s.gets[i]? = some (.hit hash entry) →
      t.cache.lruList = s.cache.lruList.erase hash ++ [hash] → t.cache.entries = s.cache.entries → t.uses = s.uses + 1 →
      t.lastUse = (s.used hash).lastUse → Effect s t (.resume i now)
  | overwrites (query hash : Text) (now : Int) : Has s.cache.entries hash → t.cache.lruList = s.cache.lruList →
      t.cache.entries = s.cache.entries → Effect s t (.set query hash now)
  | adds (query hash : Text) (now : Int) (entry : Nat) : ¬ Has s.cache.entries hash →
      t.cache.lruList = (evict s.cache.maxSize s.cache.lruList s.cache.entries).1 ++ [hash] →
      t.cache.entries = (evict s.cache.maxSize s.cache.lruList s.cache.entries).2.set hash entry → t.uses = s.uses + 1 →
      t.lastUse = (s.used hash).lastUse → Effect s t (.set query hash now)

/-- All that a step does to the list and to the order of uses. -/
theorem step_effect (h : step s a = some t) : t.cache.maxSize = s.cache.maxSize ∧ Effect s t a := by
  cases a with
  | get hash =>
    cases h
    exact ⟨rfl, .removes [] rfl rfl rfl rfl⟩
  | resume i now =>
    simp only [step, resume] at h
    split at h
    · cases h
      exact ⟨rfl, .removes [] rfl rfl rfl rfl⟩
    · cases h
      exact ⟨rfl, .removes [] rfl rfl rfl rfl⟩
    · rename_i hash _
      cases h
      exact ⟨rfl, .removes [hash] rfl rfl rfl rfl⟩
    · rename_i hash entry hget
      cases h
      exact ⟨rfl, .hits i now hash entry hget rfl rfl rfl rfl⟩
    · cases h
    · cases h
  | set query hash now =>
    cases h
    cases hget : s.cache.entries.get? hash with
    | some entry =>
      have hset : s.cache.set query hash now = s.cache.use now entry := by simp [Cache.set, hget]
      refine ⟨?_, .overwrites query hash now (by simp [Has, hget]) ?_ ?_⟩ <;> simp [State.used, hset, Cache.use]
    | none =>
      refine ⟨?_, .adds query hash now s.cache.objects.length (by simp [Has, hget]) ?_ ?_ ?_ ?_⟩ <;>
        simp [State.used, Cache.set, hget]
  | delete hash =>
    cases h
    by_cases hhas : Has s.cache.entries hash
    · exact ⟨by simp [Cache.delete, hhas, Cache.remove],
        .removes [hash] (by simp [Cache.delete, hhas, Cache.remove])
          (by simp [Cache.delete, hhas, Cache.remove]) rfl rfl⟩
    · exact ⟨by simp [Cache.delete, hhas],
        .removes [] (by simp [Cache.delete, hhas]) (by simp [Cache.delete, hhas]) rfl rfl⟩
  | cleanup now =>
    cases h
    obtain ⟨hlist, hmap, hmax⟩ :=
      foldl_remove ((s.cache.entries.rows.filter fun r => s.cache.isExpired now r.2).map Prod.fst) s.cache
    exact ⟨hmax, .removes _ hlist hmap rfl rfl⟩

/-- What holds in every state. -/
structure Sound (s : State) : Prop where
  room : 0 < s.cache.maxSize
  small : s.cache.entries.rows.length ≤ s.cache.maxSize
  covers : Covers s.cache.lruList s.cache.entries

/-- Whatever the interleaving, the cache stays within its size. -/
theorem Sound.step (hs : Sound s) (h : step s a = some t) : Sound t := by
  obtain ⟨hmax, heffect⟩ := step_effect h
  obtain ⟨hroom, hsmall, hcovers⟩ := hs
  refine ⟨hmax ▸ hroom, ?_, ?_⟩
  · rw [hmax]
    cases heffect with
    | removes gone _ hmap =>
      rw [hmap]
      exact removeAll (P := fun _ m => m.rows.length ≤ s.cache.maxSize)
        (fun _ m k hle => (length_erase_le m k).trans hle)
        (l := []) gone hsmall
    | hits i now hash entry _ _ hmap => rwa [hmap]
    | overwrites query hash now _ _ hmap => rwa [hmap]
    | adds query hash now entry hnew _ hmap =>
      have hlt := length_evict_lt hcovers hroom
      have hnot : ¬ Has (evict s.cache.maxSize s.cache.lruList s.cache.entries).2 hash :=
        evicted (P := fun _ m => ¬ Has m hash) (fun _ m k hnot hhas => hnot (has_erase.1 hhas).2) _ hnew
      rw [hmap, length_set_of_not_has hnot]
      exact hlt
  · cases heffect with
    | removes gone hlist hmap =>
      rw [hlist, hmap]
      exact removeAll (P := Covers) (fun _ _ k h => h.remove k) gone hcovers
    | hits i now hash entry _ hlist hmap =>
      rw [hlist, hmap]
      exact hcovers.moveToEnd hash
    | overwrites query hash now _ hlist hmap => rwa [hlist, hmap]
    | adds query hash now entry _ hlist hmap =>
      rw [hlist, hmap]
      exact (evicted (P := Covers) (fun _ _ k h => h.remove k) _ hcovers).add hash entry

def State.Exact (s : State) : Prop := Apq.Exact s.cache.lruList s.cache.entries

theorem State.Exact.step (hs : s.Exact) (hintact : Intact s a) (h : step s a = some t) : t.Exact := by
  unfold State.Exact
  cases (step_effect h).2 with
  | removes gone hlist hmap =>
    rw [hlist, hmap]
    exact removeAll (P := Apq.Exact) (fun _ _ k h => h.remove k) gone hs
  | hits i now hash entry hget hlist hmap =>
    rw [hlist, hmap]
    exact Apq.Exact.moveToEnd hs (hintact hash entry hget)
  | overwrites query hash now _ hlist hmap =>
    rw [hlist, hmap]
    exact hs
  | adds query hash now entry hnew hlist hmap =>
    rw [hlist, hmap]
    have hexact := evicted (P := Apq.Exact) (fun _ _ k h => h.remove k) s.cache.maxSize hs
    exact hexact.add (evicted (P := fun _ m => ¬ Has m hash)
      (fun _ m k hnot hhas => hnot (has_erase.1 hhas).2) _ hnew) entry

def State.Ranked (s : State) : Prop := Apq.Ranked s.uses s.lastUse s.cache.lruList

theorem State.Ranked.step (hs : s.Ranked) (hexact : s.Exact) (hfresh : Fresh s a)
    (h : step s a = some t) : t.Ranked := by
  unfold State.Ranked at hs ⊢
  cases (step_effect h).2 with
  | removes gone hlist _ huses hlast =>
    rw [hlist, huses, hlast]
    exact removeAll (P := fun l _ => Apq.Ranked s.uses s.lastUse l) (fun _ _ k h => h.sublist List.erase_sublist)
      (m := s.cache.entries) gone hs
  | hits i now hash entry _ hlist _ huses hlast =>
    rw [hlist, huses, hlast]
    exact (hs.sublist List.erase_sublist).use hexact.nodup.not_mem_erase
  | overwrites query hash now hhas => exact absurd hhas hfresh
  | adds query hash now entry hnew hlist _ huses hlast =>
    rw [hlist, huses, hlast]
    have hkept := evicted (P := fun l _ => Apq.Ranked s.uses s.lastUse l ∧ hash ∉ l)
      (fun l _ k h => ⟨h.1.sublist List.erase_sublist, fun hmem => h.2 (List.mem_of_mem_erase hmem)⟩) s.cache.maxSize
      (m := s.cache.entries) ⟨hs, fun hmem => hnew ((hexact.mem_iff hash).1 hmem)⟩
    exact hkept.1.use hkept.2

/-- A hit whose entry has gone puts its key into the list, and nothing into the map. -/
theorem not_exact_of_not_intact (hintact : ¬ Intact s a) (h : step s a = some t) : ¬ t.Exact := by
  cases a with
  | resume i now =>
    obtain ⟨hash, entry, hget, hgone⟩ : ∃ hash entry, s.gets[i]? = some
        (.hit hash entry) ∧ ¬ Has s.cache.entries hash := by
      simpa [Intact] using hintact
    simp only [step, resume, hget, Option.some.injEq] at h
    subst h
    exact fun hexact => hgone ((hexact.mem_iff hash).1 (by simp [State.used, Cache.moveToEnd]))
  | get hash => exact absurd trivial hintact
  | set query hash now => exact absurd trivial hintact
  | delete hash => exact absurd trivial hintact
  | cleanup now => exact absurd trivial hintact

/-! ## Runs -/

section Runs

variable {maxSize ttl : Int}

theorem sound_of_reach (h : Reach (apq maxSize ttl) (fun _ _ => True) s) : Sound s := by
  refine Reach.invariant (P := Sound) ?_ (fun s a t _ hs _ hstep => hs.step hstep) h
  rintro s rfl
  refine ⟨?_, Nat.zero_le _, fun k hk => absurd hk (by simp [start, newInMemoryAPQCache, Has, FinMap.get?_empty])⟩
  simp only [start, newInMemoryAPQCache]
  split <;> omega

theorem exact_of_reach (h : Reach (apq maxSize ttl) Intact s) : s.Exact := by
  refine Reach.invariant (P := State.Exact) ?_ (fun s a t _ hs hok hstep => hs.step hok hstep) h
  rintro s rfl
  exact ⟨List.nodup_nil, fun k => by simp [start, newInMemoryAPQCache, Has, FinMap.get?_empty]⟩

theorem ranked_of_reach (h : Reach (apq maxSize ttl) (fun s a => Intact s a ∧ Fresh s a) s) : s.Ranked := by
  refine Reach.invariant (P := State.Ranked) ?_ (fun s a t hr hs hok hstep => ?_) h
  · rintro s rfl
    exact ⟨List.Pairwise.nil, by simp [start, newInMemoryAPQCache]⟩
  · exact hs.step (exact_of_reach (hr.mono fun _ _ h => h.1)) hok.2 hstep

end Runs

/-- A full cache loses the first key of the list, and only that one. -/
theorem evict_full (h : Exact l m) (hroom : 0 < n) (hsmall : m.rows.length ≤ n) (hfull : n ≤ m.rows.length) :
    ∃ oldest rest, l = oldest :: rest ∧ evict n l m = (rest, m.erase oldest) := by
  cases l with
  | nil =>
    have hlt := length_evict_lt (fun k hk => (h.mem_iff k).2 hk) hroom
    exact absurd hlt (Nat.not_lt.2 hfull)
  | cons oldest rest =>
    have hlt := length_erase_lt ((h.mem_iff oldest).1 List.mem_cons_self)
    exact ⟨oldest, rest, rfl, by rw [evict, if_pos hfull, evict_of_lt (by omega)]⟩

/-- **The cache**: there are never more than `maxSize` entries, and the list has all their keys. It has no others, and
each of them once, as long as every hit finds its key in the map; a hit that does not ends that. If besides no `Set` is
of a key that is there, then a `Set` into a full cache removes the key whose last hit or `Set` is the oldest, and no
other. -/
theorem apq_lru (maxSize ttl : Int) (s : State) (h : Reach (apq maxSize ttl) (fun _ _ => True) s) :
    s.cache.entries.rows.length ≤ s.cache.maxSize ∧ Covers s.cache.lruList s.cache.entries ∧
      (Reach (apq maxSize ttl) Intact s → s.Exact) ∧
      (∀ a t, ¬ Intact s a → step s a = some t → ¬ t.Exact) ∧
      (Reach (apq maxSize ttl) (fun s a => Intact s a ∧ Fresh s a) s → ∀ query hash now, ¬ Has s.cache.entries hash →
        s.cache.maxSize ≤ s.cache.entries.rows.length →
        ∃ oldest, Has s.cache.entries oldest ∧
          (∀ k, Has (s.cache.set query hash now).entries k ↔ k = hash ∨ k ≠ oldest ∧ Has s.cache.entries k) ∧
          ∀ k, Has s.cache.entries k → k ≠ oldest → s.lastUse oldest < s.lastUse k) := by
  obtain ⟨hroom, hsmall, hcovers⟩ := sound_of_reach h
  refine ⟨hsmall, hcovers, exact_of_reach, fun a t => not_exact_of_not_intact,
    fun hreach query hash now hnew hfull => ?_⟩
  have hexact : s.Exact := exact_of_reach (hreach.mono fun _ _ h => h.1)
  have hranked : s.Ranked := ranked_of_reach hreach
  obtain ⟨oldest, rest, hlist, hevict⟩ := evict_full hexact hroom hsmall hfull
  refine ⟨oldest, (hexact.mem_iff oldest).1 (by simp [hlist]), fun k => ?_, fun k hk hne => ?_⟩
  · have hset : (s.cache.set query hash now).entries =
        (s.cache.entries.erase oldest).set hash s.cache.objects.length := by
      simp [Cache.set, Option.not_isSome_iff_eq_none.1 hnew, hevict]
    rw [hset, has_set, has_erase]
  · have hmem : k ∈ rest := by simpa [hlist, hne] using (hexact.mem_iff k).2 hk
    have hordered := hranked.ordered
    rw [hlist] at hordered
    exact List.rel_of_pairwise_cons hordered hmem

/-! ## Three keys -/

def first : Text := ['a']

def second : Text := ['b']

def third : Text := ['c']

def runOf (actions : List Action) : Option State := (apq 2 0).exec (fun _ _ => True) (start 2 0) actions

/-- Two `Set`s, and then a hit. -/
def setSetHit : List Action := [.set [] first 0, .set [] second 1, .get first, .resume 0 2, .resume 0 3]

theorem apq_lru_setSetHit : ∃ s, runOf setSetHit = some s ∧ s.cache.lruList = [second, first] ∧ s.Exact ∧
    ∃ oldest, Has s.cache.entries oldest ∧ ∀ k, Has s.cache.entries k → k ≠ oldest →
      s.lastUse oldest < s.lastUse k := by
  have hrun : ∃ s, runOf setSetHit = some s ∧ Run (apq 2 0) (fun s a => Intact s a ∧ Fresh s a) (start 2 0) s := by
    refine ⟨_,
      rfl, .tail (a := .resume 0 3) (.tail (a := .resume 0 2) (.tail (a := .get first) (.tail (a := .set [] second 1)
      (.tail (a := .set [] first 0) .refl ?_ rfl) ?_ rfl) ?_ rfl) ?_ rfl) ?_ rfl⟩
    · exact ⟨trivial, by unfold Fresh; decide +kernel⟩
    · exact ⟨trivial, by unfold Fresh; decide +kernel⟩
    · exact ⟨trivial, trivial⟩
    · exact ⟨fun hash entry h => (nomatch h), trivial⟩
    · refine ⟨fun hash entry h => ?_, trivial⟩
      cases h
      decide +kernel
  obtain ⟨s, hs, hrun⟩ := hrun
  have hreach : Reach (apq 2 0) (fun s a => Intact s a ∧ Fresh s a) s := ⟨_, rfl, hrun⟩
  have hfacts : (runOf setSetHit).map (fun s => (s.cache.lruList, s.cache.maxSize, s.cache.entries.rows.map Prod.fst)) =
      some ([second, first], 2, [first, second]) := by decide +kernel
  rw [hs] at hfacts
  simp only [Option.map_some, Option.some.injEq, Prod.mk.injEq] at hfacts
  obtain ⟨hlist, hmax, hkeys⟩ := hfacts
  obtain ⟨-, -, hexact, -, hevicts⟩ := apq_lru 2 0 s (hreach.mono fun _ _ _ => trivial)
  have hcount : s.cache.entries.rows.length = 2 := by simpa using congrArg List.length hkeys
  have hnew : ¬ Has s.cache.entries third := fun hhas => by
    have hmem := ((hexact (hreach.mono fun _ _ h => h.1)).mem_iff third).2 hhas
    rw [hlist] at hmem
    exact absurd hmem (by decide)
  obtain ⟨oldest, hhas, -, hfirst⟩ := hevicts hreach [] third 4 hnew (by omega)
  exact ⟨s, hs, hlist, hexact (hreach.mono fun _ _ h => h.1), oldest, hhas, hfirst⟩

/-- **What goes wrong.** A key that is set again is still the next one to go, before one that was used earlier. A key
that is deleted while a hit of it is under way stays in the list; set again, it is there twice. -/
theorem apq_drifts :
    (∃ s, runOf [.set [] first 0, .set [] second 1, .set [] first 2] = some s ∧ s.lastUse second < s.lastUse first ∧
      ¬ Has (s.cache.set [] third 3).entries first ∧ Has (s.cache.set [] third 3).entries second) ∧
    (∃ s, runOf [.set [] first 0, .get first, .resume 0 1, .delete first, .resume 0 2] = some s ∧
      s.cache.lruList = [first] ∧ s.cache.entries.rows = [] ∧ (s.cache.set [] first 3).lruList = [first, first]) := by
  refine ⟨⟨_, rfl, ?_, ?_, ?_⟩, ⟨_, rfl, ?_, ?_, ?_⟩⟩ <;> decide +kernel

end GraphQL.Apq
