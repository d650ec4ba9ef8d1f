import Mathlib.Algebra.BigOperators.Group.List.Basic
import ApiCerberus.Lib.LinkedList
import ApiCerberus.Lib.Transition
import ApiCerberus.Plugin.Cache

/-!
# The cache under its lock

What `c.mu` guards in `internal/plugin/cache.go`, with the list of `container/list` and its elements, and the calls that
take the lock more than once: `Get` (`:245-277`) looks a key up under the read lock, and takes the write lock afterwards
to move the entry that it found, or to delete the key. `Slot` is a `*CacheEntry` in the map, with its `listElement`.

`evictUntilSpaceLocked` goes on while there is too little space and the list is not empty. A round without progress
would repeat for ever: it happens if the last key of the list has no entry.
-/

namespace Plugin

/-- A `*list.Element`; `id` is its allocation. -/
structure Element where
  id : Nat
  value : Text
  deriving DecidableEq

/-- An entry, with its element in the list. -/
structure Slot where
  entry : CacheEntry
  listElement : Element

/-- The map, the list and the counters under one lock. -/
structure LockedCache where
  cfg : CacheConfig
  entries : FinMap Text Slot
  lruList : LinkedList Element
  count : Int
  size : Int
  memoryUsed : Int
  allocated : Nat

namespace LockedCache

def removeEntryLocked (c : LockedCache) (s : Slot) : LockedCache :=
  { c with
    lruList := c.lruList.remove s.listElement
    entries := c.entries.erase s.entry.key
    count := c.count - 1
    size := c.size - 1
    memoryUsed := c.memoryUsed - s.entry.size }

def deleteEntry (c : LockedCache) (key : Text) : LockedCache :=
  match c.entries.get? key with
  | none => c
  | some s => c.removeEntryLocked s

/-- The entry at the back of the list goes. -/
def evictLRULocked (c : LockedCache) : LockedCache :=
  match c.lruList.back with
  | none => c
  | some elem => c.deleteEntry elem.value

/-- The loop condition. -/
def Full (c : LockedCache) (needed : Int) : Prop := c.cfg.maxMemoryBytes < c.memoryUsed + needed ∧ 0 < c.lruList.len

instance (c : LockedCache) (needed : Int) : Decidable (c.Full needed) := inferInstanceAs (Decidable (_ ∧ _))

/-- The loop, for at most `n` rounds; `none` if it goes on after them. -/
def evictUntilSpaceLocked (needed : Int) : Nat → LockedCache → Option LockedCache
  | 0, c => if c.Full needed then none else some c
  | n + 1, c => if c.Full needed then evictUntilSpaceLocked needed n c.evictLRULocked else some c

def newEntry (cfg : CacheConfig) (now : Int) (key : Text) (response : Response) (ttl : Int)
    (tags : List Text) : CacheEntry where
  key := key
  response := response
  expiresAt := now + if ttl ≤ 0 then cfg.ttl else ttl
  tags := normalizeTags tags
  size := (response.body.length + headerSize response.headers : Nat)

/-- `c.entries[key] = entry`, with a new element at the front. -/
def insert (c : LockedCache) (e : CacheEntry) : LockedCache :=
  let elem : Element := ⟨c.allocated, e.key⟩
  { c with
    entries := c.entries.set e.key ⟨e, elem⟩
    lruList := c.lruList.pushFront elem
    count := c.count + 1
    size := c.size + 1
    memoryUsed := c.memoryUsed + e.size
    allocated := c.allocated + 1 }

/-- The check of the memory limit, with at most `rounds` rounds of the loop. -/
def fitMemory (c : LockedCache) (needed : Int) (rounds : Nat) : Option LockedCache :=
  if 0 < c.cfg.maxMemoryBytes ∧ c.cfg.maxMemoryBytes < c.memoryUsed + needed then
    evictUntilSpaceLocked needed rounds c else some c

/-- The check of the count limit. -/
def fitCount (c : LockedCache) : LockedCache :=
  if 0 < c.cfg.maxSize ∧ c.cfg.maxSize ≤ c.entries.rows.length then c.evictLRULocked else c

/-- Room is made first, then the old entry of the key goes. -/
def set (c : LockedCache) (rounds : Nat) (now : Int) (key : Text) (response : Response) (ttl : Int)
    (tags : List Text) : Option LockedCache :=
  if !c.cfg.cacheableStatusCodes.contains response.statusCode then some c
  else
    let e := newEntry c.cfg now key response ttl tags
    (c.fitMemory e.size rounds).map fun c => (c.fitCount.deleteEntry key).insert e

/-- The keys of the entries that `p` holds of. -/
def keysWhere (c : LockedCache) (p : Text → CacheEntry → Bool) : List Text :=
  (c.entries.rows.filter fun r => p r.1 r.2.entry).map Prod.fst

def deleteKeys (c : LockedCache) (keys : List Text) : LockedCache := keys.foldl deleteEntry c

def deleteByPattern (c : LockedCache) (re : Text → Bool) : LockedCache := c.deleteKeys (c.keysWhere fun key _ => re key)

def deleteByTag (c : LockedCache) (tag : Text) : LockedCache :=
  let tag := Text.toLower (Text.trimSpace tag)
  if !c.cfg.tagsEnabled || tag = [] then c else c.deleteKeys (c.keysWhere fun _ e => e.tags.contains tag)

def deleteByTags (c : LockedCache) (tags : List Text) : LockedCache :=
  let tagSet := (tags.map fun t => Text.toLower (Text.trimSpace t)).filter (· ≠ [])
  if !c.cfg.tagsEnabled || tags = [] then c else c.deleteKeys (c.keysWhere fun _ e => e.tags.any tagSet.contains)

def cleanupExpired (c : LockedCache) (now : Int) : LockedCache := c.deleteKeys (c.keysWhere fun _ e => e.isExpired now)

/-- The list is emptied element by element. -/
def clear (c : LockedCache) : LockedCache :=
  { c with
    lruList := (c.entries.rows.foldl (fun l r => l.remove r.2.listElement) c.lruList).init
    memoryUsed := c.entries.rows.foldl (fun m r => m - r.2.entry.size) c.memoryUsed
    entries := .empty
    count := 0
    size := 0 }

/-- `MoveToFront` of an entry that `Get` found earlier. -/
def touch (c : LockedCache) (s : Slot) : LockedCache := { c with lruList := c.lruList.moveToFront s.listElement }

/-! ## Bookkeeping -/

/-- The keys in the list, from the front to the back. -/
def keys (c : LockedCache) : List Text := c.lruList.linked.map Element.value

/-- The sizes of the entries. -/
def sizes (c : LockedCache) : Int := (c.entries.rows.map fun r => r.2.entry.size).sum

/-- The list, the map and the counters tell the same. -/
structure Consistent (c : LockedCache) : Prop where
  list : c.lruList.Valid
  /-- Each key once. -/
  nodup : c.keys.Nodup
  mem_keys : ∀ k, k ∈ c.keys ↔ (c.entries.get? k).isSome = true
  /-- An entry has the element of its own key. -/
  own : ∀ k s, c.entries.get? k = some s → s.entry.key = k ∧ s.listElement.value = k ∧ s.listElement ∈ c.lruList.linked
  count_eq : c.count = c.entries.rows.length
  size_eq : c.size = c.entries.rows.length
  memory_eq : c.memoryUsed = c.sizes
  bounded : 0 < c.cfg.maxSize → (c.entries.rows.length : Int) ≤ c.cfg.maxSize

section
variable {c : LockedCache} {key : Text} {s : Slot}

/-- A key and the others. -/
theorem Consistent.keys_perm (h : c.Consistent) (hs : c.entries.get? key = some s) :
    c.keys.Perm (key :: (c.lruList.linked.erase s.listElement).map Element.value) := by
  obtain ⟨-, hvalue, hmem⟩ := h.own key s hs
  have hperm := (List.perm_cons_erase hmem).map Element.value
  rwa [List.map_cons, hvalue] at hperm

/-- The element, the row and the counters go together. -/
theorem Consistent.removeEntryLocked (h : c.Consistent) (hs : c.entries.get? key = some s) :
    (c.removeEntryLocked s).Consistent := by
  obtain ⟨hkey, hvalue, -⟩ := h.own key s hs
  have hkeys : (c.removeEntryLocked s).keys = (c.lruList.linked.erase s.listElement).map Element.value := by
    rw [keys, LockedCache.removeEntryLocked]
    dsimp only
    rw [h.list.linked_remove]
  have hperm := h.keys_perm hs
  have hnodup := List.nodup_cons.1 (hperm.nodup_iff.1 h.nodup)
  have hrows := FinMap.rows_perm_erase hs
  have hentries : (c.removeEntryLocked s).entries = c.entries.erase key := by
    rw [LockedCache.removeEntryLocked, hkey]
  have hlen := hrows.length_eq
  rw [List.length_cons] at hlen
  refine ⟨h.list.remove s.listElement, ?_, fun k => ?_, fun k s' hs' => ?_, ?_, ?_, ?_, fun hpos => ?_⟩
  · rw [hkeys]
    exact hnodup.2
  · rw [hkeys, hentries, FinMap.get?_erase]
    have hmem := hperm.mem_iff (a := k)
    rw [h.mem_keys, List.mem_cons] at hmem
    by_cases hk : k = key
    · subst hk
      rw [if_pos rfl]
      exact iff_of_false hnodup.1 nofun
    · rw [if_neg hk, hmem, or_iff_right hk]
  · rw [hentries, FinMap.get?_erase] at hs'
    split at hs'
    · cases hs'
    · rename_i hk
      obtain ⟨hkey', hvalue', hmem'⟩ := h.own k s' hs'
      refine ⟨hkey', hvalue', ?_⟩
      have hne : s'.listElement ≠ s.listElement := fun heq => hk (by rw [← hvalue', heq, hvalue])
      show s'.listElement ∈ (c.lruList.remove s.listElement).linked
      rw [h.list.linked_remove, h.list.nodup.mem_erase_iff]
      exact ⟨hne, hmem'⟩
  · have := h.count_eq
    rw [hentries]
    show c.count - 1 = _
    omega
  · have := h.size_eq
    rw [hentries]
    show c.size - 1 = _
    omega
  · have hsum := (hrows.map fun r => r.2.entry.size).sum_eq
    rw [List.map_cons, List.sum_cons] at hsum
    have hmemory := h.memory_eq
    rw [sizes] at hmemory ⊢
    rw [hentries]
    show c.memoryUsed - s.entry.size = _
    rw [hmemory, hsum, add_sub_cancel_left]
  · have := h.bounded hpos
    rw [hentries]
    show ((c.entries.erase key).rows.length : Int) ≤ c.cfg.maxSize
    omega

theorem Consistent.deleteEntry (h : c.Consistent) (key : Text) : (c.deleteEntry key).Consistent := by
  unfold LockedCache.deleteEntry
  split
  · exact h
  · rename_i s hs
    exact h.removeEntryLocked hs

theorem Consistent.deleteKeys (h : c.Consistent) (keys : List Text) : (c.deleteKeys keys).Consistent := by
  induction keys generalizing c with
  | nil => exact h
  | cons key keys ih => exact ih (h.deleteEntry key)

/-- The list has one element for each entry. -/
theorem Consistent.length_eq (h : c.Consistent) : c.lruList.linked.length = c.entries.rows.length := by
  have hnodup : (c.entries.rows.map Prod.fst).Nodup := by
    refine List.pairwise_map.2 (c.entries.sorted.imp fun hlt => ne_of_lt hlt)
  have hperm : c.keys.Perm (c.entries.rows.map Prod.fst) := by
    refine (List.perm_ext_iff_of_nodup h.nodup hnodup).2 fun k => ?_
    rw [h.mem_keys, Option.isSome_iff_exists, List.mem_map]
    constructor
    · rintro ⟨s, hs⟩
      exact ⟨(k, s), FinMap.get?_eq_some_iff.1 hs, rfl⟩
    · rintro ⟨r, hr, rfl⟩
      exact ⟨r.2, FinMap.get?_eq_some_iff.2 hr⟩
  have hlen := hperm.length_eq
  rwa [keys, List.length_map, List.length_map] at hlen

/-- The last key of the list has an entry, so that a round of the loop removes one. -/
theorem Consistent.evictLRULocked_cases (h : c.Consistent) :
    c.lruList.linked = [] ∧ c.evictLRULocked = c ∨
      ∃ key s, c.keys.getLast? = some key ∧ c.entries.get? key = some s ∧ c.evictLRULocked = c.removeEntryLocked s := by
  unfold LockedCache.evictLRULocked LinkedList.back
  cases hlast : c.lruList.linked.getLast? with
  | none => exact Or.inl ⟨List.getLast?_eq_none_iff.1 hlast, rfl⟩
  | some elem =>
    have hmem : elem.value ∈ c.keys := List.mem_map.2 ⟨elem, List.mem_of_getLast? hlast, rfl⟩
    obtain ⟨s, hs⟩ := Option.isSome_iff_exists.1 ((h.mem_keys elem.value).1 hmem)
    refine Or.inr ⟨elem.value, s, ?_, hs, ?_⟩
    · rw [keys, List.getLast?_map, hlast]
      rfl
    · dsimp only
      rw [LockedCache.deleteEntry, hs]

theorem Consistent.evictLRULocked (h : c.Consistent) : c.evictLRULocked.Consistent := by
  rcases h.evictLRULocked_cases with ⟨-, heq⟩ | ⟨key, s, -, hs, heq⟩
  · rw [heq]
    exact h
  · rw [heq]
    exact h.removeEntryLocked hs

theorem Consistent.length_removeEntryLocked (h : c.Consistent) (hs : c.entries.get? key = some s) :
    (c.removeEntryLocked s).entries.rows.length + 1 = c.entries.rows.length := by
  have hlen := (FinMap.rows_perm_erase hs).length_eq
  rw [LockedCache.removeEntryLocked, (h.own key s hs).1]
  rw [List.length_cons] at hlen
  exact hlen.symm

/-- What a round keeps holds after the loop, and so does its exit condition. -/
theorem evictUntilSpaceLocked_spec {needed : Int} {P : LockedCache → Prop}
    (hround : ∀ c : LockedCache, P c → P c.evictLRULocked) :
    ∀ {n : Nat} {c c' : LockedCache}, P c → evictUntilSpaceLocked needed n c = some c' → P c' ∧ ¬ c'.Full needed
  | 0, c, c', hc, heq => by
    unfold evictUntilSpaceLocked at heq
    split at heq
    · cases heq
    · rename_i hstop
      cases heq
      exact ⟨hc, hstop⟩
  | n + 1, c, c', hc, heq => by
    unfold evictUntilSpaceLocked at heq
    split at heq
    · exact evictUntilSpaceLocked_spec hround (hround c hc) heq
    · rename_i hstop
      cases heq
      exact ⟨hc, hstop⟩

/-- **The loop ends**: as many rounds as there are entries are enough, whatever is needed. -/
theorem Consistent.evictUntilSpaceLocked_ends (needed : Int) : ∀ (n : Nat)
    {c : LockedCache}, c.Consistent → c.entries.rows.length ≤ n →
    ∃ c', c.evictUntilSpaceLocked needed n = some c'
  | 0, c, h, hn => by
    have hlen : c.lruList.len = 0 := by
      have := h.length_eq
      rw [h.list.len_eq]
      omega
    have hstop : ¬ c.Full needed := fun hfull => by
      have := hfull.2
      omega
    exact ⟨c, if_neg hstop⟩
  | n + 1, c, h, hn => by
    unfold LockedCache.evictUntilSpaceLocked
    split
    · rename_i hfull
      rcases h.evictLRULocked_cases with ⟨hnil, -⟩ | ⟨key, s, -, hs, heq⟩
      · have := hfull.2
        rw [h.list.len_eq, hnil] at this
        exact absurd this (lt_irrefl _)
      · have hlen := h.length_removeEntryLocked hs
        rw [heq]
        exact Consistent.evictUntilSpaceLocked_ends needed n (h.removeEntryLocked hs) (by omega)
    · exact ⟨c, rfl⟩

theorem cfg_deleteEntry (c : LockedCache) (key : Text) : (c.deleteEntry key).cfg = c.cfg := by
  unfold LockedCache.deleteEntry
  split <;> rfl

theorem cfg_evictLRULocked (c : LockedCache) : c.evictLRULocked.cfg = c.cfg := by
  unfold LockedCache.evictLRULocked
  split
  · rfl
  · exact c.cfg_deleteEntry _

variable {rounds : Nat}

/-- What a round keeps holds when the memory has been checked, and then there is space or nothing else. -/
theorem fitMemory_spec {needed : Int} {c' : LockedCache} {P : LockedCache → Prop}
    (hround : ∀ c : LockedCache, P c → P c.evictLRULocked) (hc : P c) (heq : c.fitMemory needed rounds = some c') :
    P c' ∧ c'.cfg = c.cfg ∧ (0 < c.cfg.maxMemoryBytes → c'.memoryUsed + needed ≤ c.cfg.maxMemoryBytes ∨
      c'.lruList.len ≤ 0) := by
  unfold LockedCache.fitMemory at heq
  split at heq
  · have hboth : ∀ d : LockedCache, (P d ∧ d.cfg = c.cfg) → P d.evictLRULocked ∧ d.evictLRULocked.cfg = c.cfg :=
      fun d hd => ⟨hround d hd.1, d.cfg_evictLRULocked.trans hd.2⟩
    obtain ⟨⟨hP, hcfg⟩, hstop⟩ := evictUntilSpaceLocked_spec hboth ⟨hc, rfl⟩ heq
    refine ⟨hP, hcfg, fun _ => ?_⟩
    rw [Full, not_and_or, not_lt, not_lt, hcfg] at hstop
    exact hstop
  · rename_i hroom
    cases heq
    exact ⟨hc, rfl, fun hpos => .inl (not_lt.1 fun hlt => hroom ⟨hpos, hlt⟩)⟩

/-- The count check leaves room for one more. -/
theorem Consistent.fitCount (h : c.Consistent) :
    c.fitCount.Consistent ∧ c.fitCount.cfg = c.cfg ∧
      (0 < c.cfg.maxSize → (c.fitCount.entries.rows.length : Int) < c.cfg.maxSize) := by
  unfold LockedCache.fitCount
  split
  · rename_i hfull
    rcases h.evictLRULocked_cases with ⟨hnil, -⟩ | ⟨key, s, -, hs, heq⟩
    · have hlen := h.length_eq
      rw [hnil, List.length_nil] at hlen
      omega
    · have hlen := h.length_removeEntryLocked hs
      have hbound := h.bounded hfull.1
      rw [heq]
      exact ⟨h.removeEntryLocked hs, rfl, fun _ => by omega⟩
  · rename_i hroom
    exact ⟨h, rfl, fun hpos => not_le.1 fun hle => hroom ⟨hpos, hle⟩⟩

/-- A key that is not there gets one element and one row. -/
theorem Consistent.insert (h : c.Consistent) {e : CacheEntry} (hnew : c.entries.get? e.key = none)
    (hroom : 0 < c.cfg.maxSize → (c.entries.rows.length : Int) < c.cfg.maxSize) : (c.insert e).Consistent := by
  have hkeys : (c.insert e).keys = e.key :: c.keys := rfl
  have hnot : e.key ∉ c.keys := by
    rw [h.mem_keys, hnew]
    nofun
  have hrows : (c.insert e).entries.rows.Perm ((e.key, ⟨e, ⟨c.allocated, e.key⟩⟩) :: c.entries.rows) := by
    have hperm := FinMap.rows_set_perm c.entries e.key ⟨e, ⟨c.allocated, e.key⟩⟩
    rwa [FinMap.erase_of_none hnew] at hperm
  have hlen := hrows.length_eq
  rw [List.length_cons] at hlen
  have hself : (c.insert e).entries.get? e.key = some ⟨e, ⟨c.allocated, e.key⟩⟩ :=
    (FinMap.get?_set ..).trans (if_pos rfl)
  have hother : ∀ k, k ≠ e.key → (c.insert e).entries.get? k = c.entries.get? k :=
    fun k hk => (FinMap.get?_set ..).trans (if_neg hk)
  refine ⟨h.list.pushFront fun hmem => hnot (List.mem_map.2 ⟨_, hmem, rfl⟩), ?_, fun k => ?_, fun k s hs => ?_, ?_, ?_,
    ?_, fun hpos => ?_⟩
  · rw [hkeys]
    exact List.nodup_cons.2 ⟨hnot, h.nodup⟩
  · rw [hkeys, List.mem_cons, h.mem_keys]
    by_cases hk : k = e.key
    · rw [hk, hself]
      exact iff_of_true (.inl rfl) rfl
    · rw [hother k hk]
      exact or_iff_right hk
  · by_cases hk : k = e.key
    · subst hk
      obtain rfl := Option.some.inj (hself.symm.trans hs)
      exact ⟨rfl, rfl, List.mem_cons_self⟩
    · rw [hother k hk] at hs
      obtain ⟨hkey, hvalue, hmem⟩ := h.own k s hs
      exact ⟨hkey, hvalue, List.mem_cons_of_mem _ hmem⟩
  · have := h.count_eq
    show c.count + 1 = _
    omega
  · have := h.size_eq
    show c.size + 1 = _
    omega
  · have hsum := (hrows.map fun r => r.2.entry.size).sum_eq
    rw [List.map_cons, List.sum_cons] at hsum
    have hmemory := h.memory_eq
    rw [sizes] at hmemory ⊢
    show c.memoryUsed + e.size = _
    rw [hmemory, hsum, add_comm]
  · have := hroom hpos
    show ((c.insert e).entries.rows.length : Int) ≤ c.cfg.maxSize
    omega

theorem Consistent.entries_deleteEntry (h : c.Consistent)
    (key : Text) : (c.deleteEntry key).entries = c.entries.erase key := by
  unfold LockedCache.deleteEntry
  split
  · rename_i hs
    exact (FinMap.erase_of_none hs).symm
  · rename_i s hs
    rw [LockedCache.removeEntryLocked, (h.own key s hs).1]

theorem Consistent.length_deleteEntry_le (h : c.Consistent) (key : Text) :
    (c.deleteEntry key).entries.rows.length ≤ c.entries.rows.length := by
  unfold LockedCache.deleteEntry
  split
  · exact Nat.le_refl _
  · rename_i s hs
    have := h.length_removeEntryLocked hs
    omega

/-- What `Set` does, once the status is one to cache. -/
theorem set_cases {now : Int} {response : Response} {ttl : Int} {tags : List Text} {c' : LockedCache}
    (heq : c.set rounds now key response ttl tags = some c') :
    c' = c ∨ ∃ c₁, c.fitMemory (newEntry c.cfg now key response ttl tags).size rounds = some c₁ ∧
      c' = (c₁.fitCount.deleteEntry key).insert (newEntry c.cfg now key response ttl tags) := by
  unfold LockedCache.set at heq
  split at heq
  · cases heq
    exact Or.inl rfl
  · obtain ⟨c₁, hfit, rfl⟩ := Option.map_eq_some_iff.1 heq
    exact Or.inr ⟨c₁, hfit, rfl⟩

theorem Consistent.set {now : Int} {response : Response} {ttl : Int} {tags : List Text} {c' : LockedCache}
    (h : c.Consistent) (heq : c.set rounds now key response ttl tags = some c') : c'.Consistent ∧ c'.cfg = c.cfg := by
  rcases set_cases heq with rfl | ⟨c₁, hfit, rfl⟩
  · exact ⟨h, rfl⟩
  · obtain ⟨h₁, hcfg₁, -⟩ := fitMemory_spec (P := Consistent) (fun _ => Consistent.evictLRULocked) h hfit
    obtain ⟨h₂, hcfg₂, hroom⟩ := h₁.fitCount
    have hcfg := cfg_deleteEntry c₁.fitCount key
    refine ⟨(h₂.deleteEntry key).insert ?_ fun hpos => ?_, ?_⟩
    · rw [h₂.entries_deleteEntry, FinMap.get?_erase]
      exact if_pos rfl
    · have hle := h₂.length_deleteEntry_le key
      rw [hcfg, hcfg₂] at hpos ⊢
      have := hroom hpos
      omega
    · show (c₁.fitCount.deleteEntry key).cfg = c.cfg
      rw [hcfg, hcfg₂, hcfg₁]

/-- **`Set` ends.** -/
theorem Consistent.set_ends (h : c.Consistent) (hrounds : c.entries.rows.length ≤ rounds) (now : Int) (key : Text)
    (response : Response) (ttl : Int) (tags : List Text) : ∃ c', c.set rounds now key response ttl tags = some c' := by
  have hfit : ∀ needed, ∃ c₁, c.fitMemory needed rounds = some c₁ := by
    intro needed
    unfold LockedCache.fitMemory
    split
    · exact h.evictUntilSpaceLocked_ends needed rounds hrounds
    · exact ⟨c, rfl⟩
  unfold LockedCache.set
  split
  · exact ⟨c, rfl⟩
  · obtain ⟨c₁, hc₁⟩ := hfit (newEntry c.cfg now key response ttl tags).size
    dsimp only
    rw [hc₁]
    exact ⟨_, rfl⟩

theorem Consistent.touch (h : c.Consistent) (s : Slot) : (c.touch s).Consistent := by
  have hperm := h.list.perm_moveToFront s.listElement
  have hkeys : (c.touch s).keys.Perm c.keys := hperm.map Element.value
  exact
    { h with
      list := h.list.moveToFront s.listElement
      nodup := hkeys.nodup_iff.2 h.nodup
      mem_keys := fun k => hkeys.mem_iff.trans (h.mem_keys k)
      own := fun k s' hs' => by
        obtain ⟨hkey, hvalue, hmem⟩ := h.own k s' hs'
        exact ⟨hkey, hvalue, hperm.mem_iff.2 hmem⟩ }

theorem Consistent.mem_listElements (h : c.Consistent) {e : Element} (he : e ∈ c.lruList.linked) :
    e ∈ c.entries.rows.map fun r => r.2.listElement := by
  have hkey : e.value ∈ c.keys := List.mem_map.2 ⟨e, he, rfl⟩
  obtain ⟨s, hs⟩ := Option.isSome_iff_exists.1 ((h.mem_keys e.value).1 hkey)
  obtain ⟨-, hvalue, hmem⟩ := h.own e.value s hs
  have hsame : s.listElement = e := List.inj_on_of_nodup_map h.nodup hmem he hvalue
  exact List.mem_map.2 ⟨(e.value, s), FinMap.get?_eq_some_iff.1 hs, hsame⟩

/-- `Clear` takes every element out of the list before `Init`. -/
theorem Consistent.clear (h : c.Consistent) : c.clear.Consistent ∧ c.clear.memoryUsed = 0 := by
  have hlist : ∀ (rows : List (Text × Slot)) (l : LinkedList Element), l.Valid →
      (rows.foldl (fun l r => l.remove r.2.listElement) l).Valid ∧
        (rows.foldl (fun l r => l.remove r.2.listElement) l).linked =
          l.linked.diff (rows.map fun r => r.2.listElement) := by
    intro rows
    induction rows with
    | nil => exact fun l hl => ⟨hl, rfl⟩
    | cons r rows ih =>
      intro l hl
      obtain ⟨hvalid, hlinked⟩ := ih _ (hl.remove r.2.listElement)
      rw [hl.linked_remove] at hlinked
      exact ⟨hvalid, hlinked.trans (List.diff_cons ..).symm⟩
  have hmemory : ∀ (rows : List (Text × Slot)) (m : Int),
      rows.foldl (fun m r => m - r.2.entry.size) m = m - (rows.map fun r => r.2.entry.size).sum := by
    intro rows
    induction rows with
    | nil => exact fun m => (sub_zero m).symm
    | cons r rows ih =>
      intro m
      rw [List.foldl_cons, ih, List.map_cons, List.sum_cons, sub_sub]
  obtain ⟨hvalid, hlinked⟩ := hlist c.entries.rows c.lruList h.list
  have hnil : (c.entries.rows.foldl (fun l r => l.remove r.2.listElement) c.lruList).linked = [] := by
    refine List.eq_nil_iff_forall_not_mem.2 fun e he => ?_
    rw [hlinked, h.list.nodup.mem_sdiff_iff] at he
    exact he.2 (h.mem_listElements he.1)
  have hzero : c.clear.memoryUsed = 0 := by
    show c.entries.rows.foldl (fun m r => m - r.2.entry.size) c.memoryUsed = 0
    rw [hmemory, h.memory_eq, sizes, sub_self]
  refine ⟨⟨hvalid.init hnil, List.nodup_nil, fun k => iff_of_false nofun nofun, nofun, rfl, rfl, hzero, fun hpos => ?_⟩,
    hzero⟩
  exact Int.le_of_lt hpos

end

def new (cfg : CacheConfig) : LockedCache := ⟨cfg.withDefaults, .empty, .new, 0, 0, 0, 0⟩

theorem Consistent.new (cfg : CacheConfig) : (new cfg).Consistent :=
  ⟨.new, List.nodup_nil, fun _ => iff_of_false nofun nofun, nofun, rfl, rfl, rfl, fun hpos => Int.le_of_lt hpos⟩

end LockedCache

/-! ## Concurrent calls -/

/-- A call of `Get` that has looked its key up: the entry had expired, or it is to be moved to the front. -/
inductive Lookup
  | expired (key : Text)
  | hit (s : Slot)

/-- `calls` has the calls of `Get` that wait for the write lock. -/
structure Shared (ι : Type*) where
  cache : LockedCache
  calls : ι → Option Lookup

/-- One critical section each; a pattern is the `MatchString` of its expression. -/
inductive CacheAction (ι : Type*)
  | lookup (i : ι) (now : Int) (key : Text)
  | finish (i : ι)
  | set (rounds : Nat) (now : Int) (key : Text) (response : Response) (ttl : Int) (tags : List Text)
  | delete (key : Text)
  | deleteByPattern (re : Text → Bool)
  | deleteByTag (tag : Text)
  | deleteByTags (tags : List Text)
  | clear
  | cleanupExpired (now : Int)

namespace LockedCache

/-- The first section of `Get`. -/
def lookup (c : LockedCache) (now : Int) (key : Text) : Option Lookup :=
  (c.entries.get? key).map fun s => if s.entry.isExpired now then .expired key else .hit s

/-- The second section of `Get`. -/
def finish (c : LockedCache) : Lookup → LockedCache
  | .expired key => c.deleteEntry key
  | .hit s => c.touch s

/-- What an action does to the cache. -/
def act {ι : Type*} (c : LockedCache) (calls : ι → Option Lookup) : CacheAction ι → Option LockedCache
  | .lookup .. => some c
  | .finish i => (calls i).map c.finish
  | .set rounds now key response ttl tags => c.set rounds now key response ttl tags
  | .delete key => some (c.deleteEntry key)
  | .deleteByPattern re => some (c.deleteByPattern re)
  | .deleteByTag tag => some (c.deleteByTag tag)
  | .deleteByTags tags => some (c.deleteByTags tags)
  | .clear => some c.clear
  | .cleanupExpired now => some (c.cleanupExpired now)

end LockedCache

namespace Shared

variable {ι : Type*} [DecidableEq ι]

/-- Calls that wait are not asked again until they have finished. -/
def nextCalls (s : Shared ι) : CacheAction ι → ι → Option Lookup
  | .lookup i now key => if (s.calls i).isNone then Function.update s.calls i (s.cache.lookup now key) else s.calls
  | .finish i => Function.update s.calls i none
  | _ => s.calls

def step (s : Shared ι) (a : CacheAction ι) : Option (Shared ι) :=
  (s.cache.act s.calls a).map fun c => ⟨c, s.nextCalls a⟩

def system (ι : Type*) [DecidableEq ι] (cfg : CacheConfig) : Transition.System (Shared ι) (CacheAction ι) where
  init s := s = ⟨.new cfg, fun _ => none⟩
  step := step

end Shared

namespace LockedCache

variable {ι : Type*} {c c' : LockedCache} {calls : ι → Option Lookup}

theorem cfg_deleteKeys (c : LockedCache) (keys : List Text) : (c.deleteKeys keys).cfg = c.cfg := by
  induction keys generalizing c with
  | nil => rfl
  | cons key keys ih => exact (ih _).trans (c.cfg_deleteEntry key)

/-- Every action but `Set` and `Clear` moves an element to the front or deletes keys. -/
theorem act_cases {a : CacheAction ι} (h : c.act calls a = some c') :
    (∃ s, c' = c.touch s) ∨ (∃ keys, c' = c.deleteKeys keys) ∨ (a = .clear ∧ c' = c.clear) ∨
      ∃ rounds now key response ttl tags, a = .set rounds now key response ttl tags ∧
        c.set rounds now key response ttl tags = some c' := by
  have hsame : ∃ keys, c = c.deleteKeys keys := ⟨[], rfl⟩
  cases a with
  | lookup i now key =>
    cases h
    exact .inr (.inl hsame)
  | finish i =>
    obtain ⟨l, -, rfl⟩ := Option.map_eq_some_iff.1 h
    cases l with
    | expired key => exact .inr (.inl ⟨[key], rfl⟩)
    | hit s => exact .inl ⟨s, rfl⟩
  | set rounds now key response ttl tags => exact .inr (.inr (.inr ⟨rounds, now, key, response, ttl, tags, rfl, h⟩))
  | delete key =>
    cases h
    exact .inr (.inl ⟨[key], rfl⟩)
  | deleteByPattern re =>
    cases h
    exact .inr (.inl ⟨_, rfl⟩)
  | deleteByTag tag =>
    cases h
    refine .inr (.inl ?_)
    unfold deleteByTag
    dsimp only
    split
    · exact hsame
    · exact ⟨_, rfl⟩
  | deleteByTags tags =>
    cases h
    refine .inr (.inl ?_)
    unfold deleteByTags
    dsimp only
    split
    · exact hsame
    · exact ⟨_, rfl⟩
  | clear =>
    cases h
    exact .inr (.inr (.inl ⟨rfl, rfl⟩))
  | cleanupExpired now =>
    cases h
    exact .inr (.inl ⟨_, rfl⟩)

theorem Consistent.act {a : CacheAction ι} (h : c.Consistent) (hact : c.act calls a = some c') : c'.Consistent ∧
    c'.cfg = c.cfg := by
  rcases act_cases hact with ⟨s, rfl⟩ | ⟨keys, rfl⟩ | ⟨-, rfl⟩ | ⟨rounds, now, key, response, ttl, tags, -, hset⟩
  · exact ⟨h.touch s, rfl⟩
  · exact ⟨h.deleteKeys keys, c.cfg_deleteKeys keys⟩
  · exact ⟨h.clear.1, rfl⟩
  · exact h.set hset

end LockedCache

section
variable {ι : Type*} [DecidableEq ι] {cfg : CacheConfig} {s : Shared ι}

/-- A call of `Get` may hold an entry that was removed or replaced meanwhile: its element belongs to no list any
more. -/
theorem Shared.consistent (h : Transition.Reach (Shared.system ι cfg) (fun _ _ => True) s) :
    s.cache.Consistent ∧ s.cache.cfg = cfg.withDefaults := by
  refine Transition.Reach.invariant (P := fun s : Shared ι => s.cache.Consistent ∧
    s.cache.cfg = cfg.withDefaults) ?_ ?_ h
  · rintro s rfl
    exact ⟨.new cfg, rfl⟩
  · rintro s a t - ⟨hs, hcfg⟩ - hstep
    obtain ⟨c', hact, rfl⟩ := Option.map_eq_some_iff.1 hstep
    obtain ⟨hgood, hsame⟩ := hs.act hact
    exact ⟨hgood, hsame.trans hcfg⟩

/-- **The books of the cache are right in every reachable state**, and `Set` ends from each of them. -/
theorem Shared.books (h : Transition.Reach (Shared.system ι cfg) (fun _ _ => True) s) :
    s.cache.Consistent ∧ s.cache.cfg.maxSize = cfg.maxSize ∧ ∀ (now : Int) (key : Text) (response : Response)
    (ttl : Int) (tags : List Text)
      (rounds : Nat), s.cache.entries.rows.length ≤ rounds →
        ∃ c', s.cache.set rounds now key response ttl tags = some c' := by
  obtain ⟨hgood, hcfg⟩ := Shared.consistent h
  refine ⟨hgood, ?_, fun now key response ttl tags rounds hrounds => hgood.set_ends hrounds now key response ttl tags⟩
  rw [hcfg]
  rfl

end

/-- A cache for one entry, 100 bytes at most. -/
def smallCache : CacheConfig := ⟨0, 1, 100, [], [], [], [], false⟩

/-- `false` finds `a`, which is then replaced, evicted and stored again before `false` moves its element. -/
def staleRun : List (CacheAction Bool) :=
  [.set 0 0 ['a'] ⟨200, .empty, [1]⟩ 0 [], .lookup false 1 ['a'], .set 1 2 ['a'] ⟨200, .empty, [2]⟩ 0 [],
    .set 1 3 ['b'] ⟨200, .empty, [3]⟩ 0 [], .set 1 4 ['a'] ⟨200, .empty, [4, 5]⟩ 0 [], .finish false]

theorem Shared.books_staleRun :
    ((Shared.system Bool smallCache).exec (fun _ _ => True) ⟨.new smallCache, fun _ => none⟩ staleRun).isSome = true ∧
      ∀ s ∈ (Shared.system Bool smallCache).exec (fun _ _ => True) ⟨.new smallCache,
        fun _ => none⟩ staleRun, s.cache.Consistent :=
  ⟨by decide +kernel, fun _ hs => (Shared.books (Transition.Reach.of_exec rfl staleRun hs)).1⟩

end Plugin
