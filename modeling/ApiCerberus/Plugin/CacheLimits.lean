import Mathlib.Algebra.Order.BigOperators.Group.List
import ApiCerberus.Plugin.CacheLock

/-!
# The limits of the cache

`Set` makes room before it takes the old entry of its key away (`cache.go:310-327`), and it makes room until nothing is
left (`:793-797`). So an entry that is larger than `MaxMemoryBytes` is stored as well, alone, and a key that is stored
again is counted twice while room is made: another entry is evicted for it, unless its own is the next to go. With the
entries that fit, and without the second case, the limit and the evictions are as they should be (`memory_limit`).
-/

namespace Plugin

namespace LockedCache

variable {c c' : LockedCache} {key : Text} {old : Slot}

/-! ## Rooms made by deletions -/

theorem deleteKeys_append (c : LockedCache) (keys keys' : List Text) :
    (c.deleteKeys keys).deleteKeys keys' = c.deleteKeys (keys ++ keys') :=
  List.foldl_append.symm

theorem evictLRULocked_deletes (c : LockedCache) : ∃ keys, c.evictLRULocked = c.deleteKeys keys := by
  unfold evictLRULocked
  split
  · exact ⟨[], rfl⟩
  · exact ⟨[_], rfl⟩

theorem fitCount_deletes (c : LockedCache) : ∃ keys, c.fitCount = c.deleteKeys keys := by
  unfold fitCount
  split
  · exact c.evictLRULocked_deletes
  · exact ⟨[], rfl⟩

theorem deletes_evictLRULocked {d : LockedCache} (h : ∃ keys, d = c.deleteKeys keys) :
    ∃ keys, d.evictLRULocked = c.deleteKeys keys := by
  obtain ⟨keys, rfl⟩ := h
  obtain ⟨keys', heq⟩ := (c.deleteKeys keys).evictLRULocked_deletes
  exact ⟨keys ++ keys', heq.trans (c.deleteKeys_append keys keys')⟩

theorem Consistent.get?_deleteKeys (h : c.Consistent) (keys : List Text) (k : Text) :
    (c.deleteKeys keys).entries.get? k = if k ∈ keys then none else c.entries.get? k := by
  induction keys generalizing c with
  | nil => simp [LockedCache.deleteKeys]
  | cons key keys ih =>
    show ((c.deleteEntry key).deleteKeys keys).entries.get? k = _
    rw [ih (h.deleteEntry key), h.entries_deleteEntry, FinMap.get?_erase]
    by_cases hk : k ∈ keys <;> by_cases heq : k = key <;> simp [hk, heq]

/-! ## Memory -/

structure Limited (c : LockedCache) : Prop extends c.Consistent where
  nonneg : ∀ k s, c.entries.get? k = some s → 0 ≤ s.entry.size
  /-- A total that is too large is that of one entry. -/
  fits : 0 < c.cfg.maxMemoryBytes → c.memoryUsed ≤ c.cfg.maxMemoryBytes ∨ c.entries.rows.length = 1

theorem Consistent.memoryUsed_of_empty (h : c.Consistent) (hnil : c.entries.rows.length = 0) : c.memoryUsed = 0 := by
  rw [h.memory_eq, sizes, List.length_eq_zero_iff.1 hnil]
  rfl

/-- Deletions free memory. -/
theorem Limited.deleteEntry (h : c.Limited) (key : Text) :
    (c.deleteEntry key).Limited ∧ (c.deleteEntry key).memoryUsed ≤ c.memoryUsed ∧
      (c.deleteEntry key).entries.rows.length ≤ c.entries.rows.length := by
  cases hs : c.entries.get? key with
  | none =>
    have hsame : c.deleteEntry key = c := by rw [LockedCache.deleteEntry, hs]
    rw [hsame]
    exact ⟨h, le_refl _, Nat.le_refl _⟩
  | some s =>
    have heq : c.deleteEntry key = c.removeEntryLocked s := by rw [LockedCache.deleteEntry, hs]
    have hgood := h.removeEntryLocked hs
    have hlen := h.length_removeEntryLocked hs
    have hsize := h.nonneg key s hs
    have hmemory : (c.removeEntryLocked s).memoryUsed = c.memoryUsed - s.entry.size := rfl
    rw [heq]
    refine ⟨⟨hgood, fun k s' hs' => ?_, fun hpos => ?_⟩, by omega, by omega⟩
    · rw [← heq, h.entries_deleteEntry, FinMap.get?_erase] at hs'
      split at hs'
      · cases hs'
      · exact h.nonneg k s' hs'
    · refine .inl ?_
      rcases h.fits hpos with hle | hone
      · show c.memoryUsed - s.entry.size ≤ c.cfg.maxMemoryBytes
        omega
      · rw [hgood.memoryUsed_of_empty (by omega)]
        exact Int.le_of_lt hpos

theorem Limited.deleteKeys (h : c.Limited) (keys : List Text) :
    (c.deleteKeys keys).Limited ∧ (c.deleteKeys keys).memoryUsed ≤ c.memoryUsed ∧
      (c.deleteKeys keys).entries.rows.length ≤ c.entries.rows.length := by
  induction keys generalizing c with
  | nil => exact ⟨h, le_refl _, Nat.le_refl _⟩
  | cons key keys ih =>
    obtain ⟨hgood, hmemory, hlen⟩ := h.deleteEntry key
    obtain ⟨hgood', hmemory', hlen'⟩ := ih hgood
    exact ⟨hgood', hmemory'.trans hmemory, hlen'.trans hlen⟩

theorem Limited.evictLRULocked (h : c.Limited) : c.evictLRULocked.Limited := by
  obtain ⟨keys, heq⟩ := c.evictLRULocked_deletes
  rw [heq]
  exact (h.deleteKeys keys).1

variable {rounds : Nat} {needed : Int}

/-- The new entry fits, or it is the only one. -/
theorem Limited.set {now : Int} {response : Response} {ttl : Int} {tags : List Text} (h : c.Limited)
    (heq : c.set rounds now key response ttl tags = some c') : c'.Limited := by
  have hgood := h.toConsistent.set heq
  rcases set_cases heq with rfl | ⟨c₁, hfit, rfl⟩
  · exact h
  · obtain ⟨h₁, hcfg₁, hroom⟩ := fitMemory_spec (P := Limited) (fun _ => Limited.evictLRULocked) h hfit
    obtain ⟨keys, hkeys⟩ := c₁.fitCount_deletes
    have hrest : c₁.fitCount.deleteEntry key = c₁.deleteKeys (keys ++ [key]) := by
      rw [hkeys]
      exact c₁.deleteKeys_append keys [key]
    obtain ⟨h₂, hmemory, hlen⟩ := h₁.deleteKeys (keys ++ [key])
    rw [← hrest] at h₂ hmemory hlen
    generalize he : newEntry c.cfg now key response ttl tags = e at *
    have hkey : e.key = key := by rw [← he]; rfl
    have hnone : (c₁.fitCount.deleteEntry key).entries.get? e.key = none := by
      rw [hrest, ← deleteKeys_append, hkey]
      show (((c₁.deleteKeys keys).deleteEntry key).entries.get? key) = none
      rw [(h₁.deleteKeys keys).1.entries_deleteEntry, FinMap.get?_erase]
      exact if_pos rfl
    refine ⟨hgood.1, fun k s hs => ?_, fun hpos => ?_⟩
    · by_cases hk : k = e.key
      · have hself : ((c₁.fitCount.deleteEntry key).insert e).entries.get? k =
          some ⟨e, ⟨(c₁.fitCount.deleteEntry key).allocated, e.key⟩⟩ :=
          (FinMap.get?_set ..).trans (if_pos hk)
        obtain rfl := Option.some.inj (hself.symm.trans hs)
        show 0 ≤ e.size
        rw [← he]
        exact Int.natCast_nonneg _
      · exact h₂.nonneg k s (((FinMap.get?_set ..).trans (if_neg hk)).symm.trans hs)
    · rw [hgood.2] at hpos ⊢
      rcases hroom hpos with hle | hnil
      · refine .inl ?_
        show (c₁.fitCount.deleteEntry key).memoryUsed + e.size ≤ _
        omega
      · -- the loop went on until the list was empty
        refine .inr ?_
        have hrows := (FinMap.rows_set_perm (c₁.fitCount.deleteEntry key).entries e.key
          ⟨e, ⟨(c₁.fitCount.deleteEntry key).allocated, e.key⟩⟩).length_eq
        rw [FinMap.erase_of_none hnone, List.length_cons] at hrows
        have hempty := h₁.length_eq
        rw [h₁.list.len_eq] at hnil
        show ((c₁.fitCount.deleteEntry key).entries.set e.key _).rows.length = 1
        omega

theorem Limited.act {ι : Type*} {calls : ι → Option Lookup} {a : CacheAction ι} (h : c.Limited)
    (hact : c.act calls a = some c') :
    c'.Limited := by
  rcases act_cases hact with ⟨s, rfl⟩ | ⟨keys, rfl⟩ | ⟨-, rfl⟩ | ⟨rounds, now, key, response, ttl, tags, -, hset⟩
  · exact ⟨h.touch s, h.nonneg, h.fits⟩
  · exact (h.deleteKeys keys).1
  · refine ⟨h.clear.1, nofun, fun hpos => .inl ?_⟩
    rw [h.clear.2]
    exact Int.le_of_lt hpos
  · exact h.set hset

theorem Limited.size_le (h : c.Limited) {s : Slot} (hs : c.entries.get? key = some s) :
    s.entry.size ≤ c.memoryUsed := by
  have hsum := ((FinMap.rows_perm_erase hs).map fun r => r.2.entry.size).sum_eq
  have hrest : 0 ≤ ((c.entries.erase key).rows.map fun r => r.2.entry.size).sum := by
    refine List.sum_nonneg fun n hn => ?_
    obtain ⟨r, hr, rfl⟩ := List.mem_map.1 hn
    have hget : (c.entries.erase key).get? r.1 = some r.2 := FinMap.get?_eq_some_iff.2 hr
    rw [FinMap.get?_erase] at hget
    split at hget
    · cases hget
    · exact h.nonneg r.1 r.2 hget
  rw [h.memory_eq, sizes, hsum, List.map_cons, List.sum_cons]
  exact le_add_of_nonneg_right hrest

/-- The limit holds as long as no entry is larger. -/
theorem Limited.memory_iff (h : c.Limited) (hpos : 0 < c.cfg.maxMemoryBytes) :
    c.memoryUsed ≤ c.cfg.maxMemoryBytes ↔ ∀ k s, c.entries.get? k = some s → s.entry.size ≤ c.cfg.maxMemoryBytes := by
  constructor
  · exact fun hle k s hs => (h.size_le hs).trans hle
  · intro hall
    rcases h.fits hpos with hle | hone
    · exact hle
    · obtain ⟨r, hr⟩ := List.length_eq_one_iff.1 hone
      have hget : c.entries.get? r.1 = some r.2 :=
        FinMap.get?_eq_some_iff.2 (by rw [hr]; exact List.mem_singleton_self r)
      have hsum : c.memoryUsed = r.2.entry.size := by
        rw [h.memory_eq, sizes, hr, List.map_singleton, List.sum_singleton]
      rw [hsum]
      exact hall r.1 r.2 hget

/-! ## A key that is stored again -/

theorem evictUntilSpaceLocked_of_not_full (h : ¬ c.Full needed) : ∀ n, evictUntilSpaceLocked needed n c = some c
  | 0 => if_neg h
  | _ + 1 => if_neg h

/-- The first round of the loop. -/
theorem evictUntilSpaceLocked_of_full {n : Nat} (h : c.Full needed) (heq : evictUntilSpaceLocked needed n c = some c') :
    ∃ m, evictUntilSpaceLocked needed m c.evictLRULocked = some c' := by
  cases n with
  | zero =>
    rw [evictUntilSpaceLocked, if_pos h] at heq
    cases heq
  | succ n =>
    rw [evictUntilSpaceLocked, if_pos h] at heq
    exact ⟨n, heq⟩

/-- Room for `needed` more bytes and one more entry, the old entry of the key not taken away. -/
def HasRoom (c : LockedCache) (needed : Int) : Prop :=
  c.memoryUsed + needed ≤ c.cfg.maxMemoryBytes ∧ (0 < c.cfg.maxSize → (c.entries.rows.length : Int) < c.cfg.maxSize)

/-- What is left of the other entries once room has been made. -/
theorem Consistent.room_iff {c₁ : LockedCache} (h : c.Consistent) (hpos : 0 < c.cfg.maxMemoryBytes)
    (hold : c.entries.get? key = some old) (htotal : c.memoryUsed - old.entry.size + needed ≤ c.cfg.maxMemoryBytes)
    (hfit : c.fitMemory needed rounds = some c₁) :
    (∀ k, k ≠ key → c₁.fitCount.entries.get? k = c.entries.get? k) ↔ c.keys.getLast? = some key ∨ c.HasRoom needed := by
  have hmem : key ∈ c.keys := (h.mem_keys key).2 (by rw [hold]; rfl)
  have hlen : 0 < c.lruList.len := by
    have hpos : 0 < c.keys.length := List.length_pos_of_mem hmem
    rw [keys, List.length_map] at hpos
    rw [h.list.len_eq]
    exact Int.natCast_pos.2 hpos
  obtain ⟨last, s, hlast, hs, hevict⟩ := h.evictLRULocked_cases.resolve_left fun hnil => by
    rw [keys, hnil.1] at hmem
    cases hmem
  have hother : ∀ k, k ≠ last → c.evictLRULocked.entries.get? k = c.entries.get? k := by
    intro k hk
    rw [hevict, LockedCache.removeEntryLocked, (h.own last s hs).1]
    exact (FinMap.get?_erase ..).trans (if_neg hk)
  have hgone : c.evictLRULocked.entries.get? last = none := by
    rw [hevict, LockedCache.removeEntryLocked, (h.own last s hs).1]
    exact (FinMap.get?_erase ..).trans (if_pos rfl)
  have hevictLen := h.length_removeEntryLocked hs
  rw [← hevict] at hevictLen
  have hconsistent := h.evictLRULocked
  by_cases hkey : last = key
  · -- its own entry is the next to go, and with it there is room
    subst hkey
    obtain rfl : s = old := Option.some.inj (hs.symm.trans hold)
    refine iff_of_true (fun k hk => ?_) (.inl hlast)
    unfold fitMemory at hfit
    split at hfit
    · rename_i hfull
      obtain ⟨m, hm⟩ := evictUntilSpaceLocked_of_full ⟨hfull.2, hlen⟩ hfit
      have hstop : ¬ c.evictLRULocked.Full needed := by
        rw [hevict]
        exact fun hfull => not_lt.2 htotal hfull.1
      obtain rfl := Option.some.inj ((evictUntilSpaceLocked_of_not_full hstop m).symm.trans hm)
      have hcount : c.evictLRULocked.fitCount = c.evictLRULocked := by
        refine if_neg fun hcount => ?_
        have := h.bounded (c.cfg_evictLRULocked ▸ hcount.1)
        rw [c.cfg_evictLRULocked] at hcount
        omega
      rw [hcount]
      exact hother k hk
    · cases hfit
      unfold LockedCache.fitCount
      split
      · exact hother k hk
      · rfl
  · have hkept : ∀ keys, (c.evictLRULocked.deleteKeys keys).entries.get? last ≠ c.entries.get? last := by
      intro keys
      rw [hconsistent.get?_deleteKeys, hgone, ite_self, hs]
      exact (Option.some_ne_none s).symm
    rw [or_iff_right fun heq => hkey (Option.some.inj (hlast.symm.trans heq))]
    unfold fitMemory at hfit
    split at hfit
    · rename_i hfull
      obtain ⟨m, hm⟩ := evictUntilSpaceLocked_of_full ⟨hfull.2, hlen⟩ hfit
      obtain ⟨⟨keys, rfl⟩, -⟩ := evictUntilSpaceLocked_spec (P := fun d => ∃ keys, d = c.evictLRULocked.deleteKeys keys)
        (fun _ => deletes_evictLRULocked) ⟨[], rfl⟩ hm
      obtain ⟨keys', hcount⟩ := (c.evictLRULocked.deleteKeys keys).fitCount_deletes
      rw [deleteKeys_append] at hcount
      refine iff_of_false (fun hall => ?_) fun hroom => not_lt.2 hroom.1 hfull.2
      have := hall last hkey
      rw [hcount] at this
      exact hkept _ this
    · rename_i hroom
      cases hfit
      have hle : c.memoryUsed + needed ≤ c.cfg.maxMemoryBytes := not_lt.1 fun hlt => hroom ⟨hpos, hlt⟩
      unfold LockedCache.fitCount
      split
      · rename_i hcount
        exact iff_of_false (fun hall => hkept [] (hall last hkey)) fun hroom => not_lt.2 hcount.2 (hroom.2 hcount.1)
      · rename_i hcount
        exact iff_of_true (fun _ _ => rfl) ⟨hle, fun hsize => not_le.1 fun hge => hcount ⟨hsize, hge⟩⟩

/-- A key that is stored again: the other entries. -/
theorem Consistent.replace_iff {now : Int} {response : Response} {ttl : Int} {tags : List Text} (h : c.Consistent)
    (hpos : 0 < c.cfg.maxMemoryBytes) (hold : c.entries.get? key = some old)
    (hcode : c.cfg.cacheableStatusCodes.contains response.statusCode = true)
    (heq : c.set rounds now key response ttl tags = some c')
    (htotal : c.memoryUsed - old.entry.size + (newEntry c.cfg now key response ttl tags).size ≤ c.cfg.maxMemoryBytes) :
    (∀ k, k ≠ key → c'.entries.get? k = c.entries.get? k) ↔
      c.keys.getLast? = some key ∨ c.HasRoom (newEntry c.cfg now key response ttl tags).size := by
  rw [LockedCache.set, hcode] at heq
  obtain ⟨c₁, hfit, rfl⟩ := Option.map_eq_some_iff.1 heq
  rw [← h.room_iff hpos hold htotal hfit]
  have h₂ := (fitMemory_spec (P := Consistent) (fun _ => Consistent.evictLRULocked) h hfit).1.fitCount.1
  refine forall₂_congr fun k hk => ?_
  have hrest : (c₁.fitCount.deleteEntry key).entries.get? k = c₁.fitCount.entries.get? k := by
    rw [h₂.entries_deleteEntry]
    exact (FinMap.get?_erase ..).trans (if_neg hk)
  have hset : ((c₁.fitCount.deleteEntry key).insert (newEntry c.cfg now key response ttl tags)).entries.get? k =
      (c₁.fitCount.deleteEntry key).entries.get? k := (FinMap.get?_set ..).trans (if_neg hk)
  rw [hset, hrest]

end LockedCache

section
variable {ι : Type*} [DecidableEq ι] {cfg : CacheConfig} {s : Shared ι}

theorem Shared.limited (h : Transition.Reach (Shared.system ι cfg) (fun _ _ => True) s) : s.cache.Limited := by
  refine Transition.Reach.invariant (P := fun s : Shared ι => s.cache.Limited) ?_ ?_ h
  · rintro s rfl
    exact ⟨.new cfg, nofun, fun hpos => .inl (Int.le_of_lt hpos)⟩
  · rintro s a t - hs - hstep
    obtain ⟨c', hact, rfl⟩ := Option.map_eq_some_iff.1 hstep
    exact hs.act hact

/-- **The limits, where they hold**: the memory is within its limit exactly if no entry alone is larger, and a key that
is stored again, with a total that fits, leaves the other entries exactly if its own was the next to go or there was
room for both. -/
theorem Shared.memory_limit (hpos : 0 < cfg.maxMemoryBytes)
    (h : Transition.Reach (Shared.system ι cfg) (fun _ _ => True) s) :
    (s.cache.memoryUsed ≤ cfg.maxMemoryBytes ↔ ∀ k e, s.cache.entries.get? k = some e →
      e.entry.size ≤ cfg.maxMemoryBytes) ∧
      ∀ (rounds : Nat) (now : Int) (key : Text) (response : Response) (ttl : Int) (tags : List Text) (old : Slot)
      (c' : LockedCache),
        s.cache.entries.get? key = some old → s.cache.cfg.cacheableStatusCodes.contains response.statusCode = true →
        s.cache.set rounds now key response ttl tags = some c' →
        s.cache.memoryUsed - old.entry.size + (LockedCache.newEntry s.cache.cfg now key response ttl tags).size ≤
          cfg.maxMemoryBytes →
        ((∀ k, k ≠ key → c'.entries.get? k = s.cache.entries.get? k) ↔
          s.cache.keys.getLast? = some key ∨
            s.cache.HasRoom (LockedCache.newEntry s.cache.cfg now key response ttl tags).size) := by
  have hgood := Shared.limited h
  have hmax : s.cache.cfg.maxMemoryBytes = cfg.maxMemoryBytes := by
    rw [(Shared.consistent h).2]
    rfl
  rw [← hmax] at hpos ⊢
  exact ⟨hgood.memory_iff hpos, fun rounds now key response ttl tags old c' hold hcode heq htotal =>
    hgood.toConsistent.replace_iff hpos hold hcode heq htotal⟩

end

/-- Ten bytes, two entries. -/
def tinyCache : CacheConfig := ⟨0, 2, 10, [], [], [], [], false⟩

def body (n : Nat) : Response := ⟨200, .empty, List.replicate n 0⟩

/-- What a history does to a tiny cache. -/
def tinyRun (as : List (CacheAction Unit)) : Option (Shared Unit) :=
  (Shared.system Unit tinyCache).exec (fun _ _ => True) ⟨.new tinyCache, fun _ => none⟩ as

theorem tinyRun_reach {as : List (CacheAction Unit)} {s : Shared Unit} (h : s ∈ tinyRun as) :
    Transition.Reach (Shared.system Unit tinyCache) (fun _ _ => True) s := .of_exec rfl as h

/-- Two entries of two bytes, of which `b` is the next to go. -/
def twoStored : List (CacheAction Unit) := [.set 0 0 ['b'] (body 2) 0 [], .set 1 1 ['a'] (body 2) 0 []]

/-- `b` is stored again, and the other entry stays. -/
theorem Shared.memory_limit_twoStored :
    ∃ s ∈ tinyRun twoStored, (s.cache.memoryUsed ≤ tinyCache.maxMemoryBytes ↔
        ∀ k e, s.cache.entries.get? k = some e → e.entry.size ≤ tinyCache.maxMemoryBytes) ∧
      ∃ c', s.cache.set 2 2 ['b'] (body 2) 0 [] = some c' ∧ ∀ k, k ≠ ['b'] →
        c'.entries.get? k = s.cache.entries.get? k := by
  have hrun : (tinyRun twoStored).any (fun s => (s.cache.entries.get? ['b']).any fun old =>
      (s.cache.set 2 2 ['b'] (body 2) 0 []).any fun _ =>
        decide (s.cache.cfg.cacheableStatusCodes.contains (body 2).statusCode = true ∧
          s.cache.memoryUsed - old.entry.size + (LockedCache.newEntry s.cache.cfg 2 ['b'] (body 2) 0 []).size ≤
            tinyCache.maxMemoryBytes ∧
          s.cache.keys.getLast? = some ['b'])) = true := by
    decide +kernel
  obtain ⟨s, hs, hrun⟩ := (Option.any_eq_true ..).1 hrun
  obtain ⟨old, hold, hrun⟩ := (Option.any_eq_true ..).1 hrun
  obtain ⟨c', hset, hrun⟩ := (Option.any_eq_true ..).1 hrun
  obtain ⟨hcode, htotal, hlast⟩ := of_decide_eq_true hrun
  obtain ⟨hmemory, hreplace⟩ := Shared.memory_limit (show 0 < tinyCache.maxMemoryBytes by decide) (tinyRun_reach hs)
  exact ⟨s, hs, hmemory, c', hset, (hreplace 2 2 ['b'] (body 2) 0 [] old c' hold hcode hset htotal).2 (.inl hlast)⟩

/-- Eleven bytes are stored in a cache for ten; and `b` is evicted for the second value of `a`, with four bytes in use
before and after. -/
theorem Shared.limits_missed :
    (∃ s, Transition.Reach (Shared.system Unit tinyCache) (fun _ _ => True) s ∧ 0 < tinyCache.maxMemoryBytes ∧
      tinyCache.maxMemoryBytes < s.cache.memoryUsed) ∧
    ∃ s old c', Transition.Reach (Shared.system Unit tinyCache) (fun _ _ => True) s ∧
      s.cache.entries.get? ['a'] = some old ∧
      s.cache.set 2 2 ['a'] (body 2) 0 [] = some c' ∧
        s.cache.memoryUsed - old.entry.size + 2 ≤ tinyCache.maxMemoryBytes ∧
      (s.cache.entries.rows.length : Int) ≤ tinyCache.maxSize ∧ (s.cache.entries.get? ['b']).isSome = true ∧
      (c'.entries.get? ['b']).isNone = true := by
  constructor
  · have hrun : (tinyRun [.set 0 0 ['a'] (body 11) 0 []]).any
        (fun s => decide (tinyCache.maxMemoryBytes < s.cache.memoryUsed)) = true := by
      decide +kernel
    obtain ⟨s, hs, hmemory⟩ := (Option.any_eq_true ..).1 hrun
    exact ⟨s, tinyRun_reach hs, by decide, of_decide_eq_true hmemory⟩
  · have hrun : (tinyRun twoStored).any (fun s => (s.cache.entries.get? ['a']).any fun old =>
        (s.cache.set 2 2 ['a'] (body 2) 0 []).any fun c' =>
          decide (s.cache.memoryUsed - old.entry.size + 2 ≤ tinyCache.maxMemoryBytes ∧
            (s.cache.entries.rows.length : Int) ≤ tinyCache.maxSize ∧ (s.cache.entries.get? ['b']).isSome = true ∧
            (c'.entries.get? ['b']).isNone = true)) = true := by
      decide +kernel
    obtain ⟨s, hs, hrun⟩ := (Option.any_eq_true ..).1 hrun
    obtain ⟨old, hold, hrun⟩ := (Option.any_eq_true ..).1 hrun
    obtain ⟨c', hset, hrun⟩ := (Option.any_eq_true ..).1 hrun
    exact ⟨s, old, c', tinyRun_reach hs, hold, hset, of_decide_eq_true hrun⟩

end Plugin
