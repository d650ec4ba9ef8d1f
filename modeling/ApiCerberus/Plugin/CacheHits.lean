import ApiCerberus.Plugin.CacheLimits

/-!
# What a hit returns

The bounded cache against a map without limits (`remember`): every `Set` of a status to cache enters its response, and
the deletions take away what they say. The cache evicts on its own, so it holds a part of this map. A hit is the last
response stored under its key and not deleted since (`hit_is_last_stored`).
-/

namespace Plugin

namespace LockedCache

variable {ι : Type*} {c c' : LockedCache} {k : Text} {m : Text → Option CacheEntry}

/-- What a cache without limits holds after an action. -/
def remember (cfg : CacheConfig) (m : Text → Option CacheEntry) : CacheAction ι → Text → Option CacheEntry
  | .set _ now key response ttl tags =>
    if cfg.cacheableStatusCodes.contains response.statusCode then
      Function.update m key (some (newEntry cfg now key response ttl tags)) else m
  | .delete key => Function.update m key none
  | .deleteByPattern re => fun k => (m k).filter fun _ => !re k
  | .deleteByTag tag =>
    let tag := Text.toLower (Text.trimSpace tag)
    if !cfg.tagsEnabled || tag = [] then m else fun k => (m k).filter fun e => !e.tags.contains tag
  | .deleteByTags tags =>
    let tagSet := (tags.map fun t => Text.toLower (Text.trimSpace t)).filter (· ≠ [])
    if !cfg.tagsEnabled || tags = [] then m else fun k => (m k).filter fun e => !e.tags.any tagSet.contains
  | .clear => fun _ => none
  | _ => m

/-- The cache holds a part of `m`. -/
def Within (c : LockedCache) (m : Text → Option CacheEntry) : Prop :=
  ∀ k s, c.entries.get? k = some s → m k = some s.entry

theorem Within.deleteKeys (h : c.Consistent) (hm : c.Within m) (keys : List Text) : (c.deleteKeys keys).Within m := by
  intro k s hs
  rw [h.get?_deleteKeys] at hs
  split at hs
  · cases hs
  · exact hm k s hs

theorem Within.deleteWhere (h : c.Consistent) (hm : c.Within m) (p : Text → CacheEntry → Bool) :
    (c.deleteKeys (c.keysWhere p)).Within fun k => (m k).filter fun e => !p k e := by
  intro k s hs
  rw [h.get?_deleteKeys] at hs
  split at hs
  · cases hs
  · rename_i hnot
    have hp : p k s.entry = false := by
      by_contra hp
      rw [Bool.not_eq_false] at hp
      exact hnot (List.mem_map.2 ⟨(k, s), List.mem_filter.2 ⟨FinMap.get?_eq_some_iff.1 hs, hp⟩, rfl⟩)
    show (m k).filter _ = some s.entry
    rw [hm k s hs]
    simp [hp]

/-- A stored entry replaces what was remembered of its key. -/
theorem Within.set {rounds : Nat} {now : Int} {key : Text} {response : Response} {ttl : Int} {tags : List Text}
    (h : c.Consistent)
    (hm : c.Within m) (hset : c.set rounds now key response ttl tags = some c') :
    c'.Within (remember c.cfg m (.set rounds now key response ttl tags : CacheAction ι)) := by
  unfold LockedCache.set at hset
  split at hset
  · rename_i hstatus
    cases hset
    rw [Bool.not_eq_true', ← Bool.not_eq_true] at hstatus
    rw [remember, if_neg hstatus]
    exact hm
  · rename_i hstatus
    rw [Bool.not_eq_true', Bool.not_eq_false] at hstatus
    obtain ⟨c₁, hfit, rfl⟩ := Option.map_eq_some_iff.1 hset
    -- room is made by deletions only
    obtain ⟨⟨h₁, keys, rfl⟩, -⟩ := fitMemory_spec (P := fun d => d.Consistent ∧ ∃ keys, d = c.deleteKeys keys)
      (fun d hd => ⟨hd.1.evictLRULocked, deletes_evictLRULocked hd.2⟩) ⟨h, [], rfl⟩ hfit
    obtain ⟨keys', hcount⟩ := (c.deleteKeys keys).fitCount_deletes
    rw [remember, if_pos hstatus]
    intro k s hs
    by_cases hk : k = key
    · subst hk
      obtain rfl := Option.some.inj (((FinMap.get?_set ..).trans (if_pos rfl)).symm.trans hs)
      exact Function.update_self ..
    · have hold := ((FinMap.get?_set ..).trans (if_neg hk)).symm.trans hs
      rw [hcount] at hold
      rw [Function.update_of_ne hk]
      have h₂ := h₁.deleteKeys keys'
      exact Within.deleteKeys h₂ (Within.deleteKeys h₁ (hm.deleteKeys h keys) keys') [key] k s hold

/-- **One action**: the part of the map that the cache holds stays a part. -/
theorem Within.act {calls : ι → Option Lookup} {a : CacheAction ι} (h : c.Consistent) (hm : c.Within m)
    (hact : c.act calls a = some c') : c'.Within (remember c.cfg m a) := by
  cases a with
  | lookup i now key =>
    cases hact
    exact hm
  | finish i =>
    obtain ⟨l, -, rfl⟩ := Option.map_eq_some_iff.1 hact
    cases l with
    | expired key => exact hm.deleteKeys h [key]
    | hit s => exact hm
  | set rounds now key response ttl tags => exact hm.set h hact
  | delete key =>
    cases hact
    intro k s hs
    rw [h.entries_deleteEntry, FinMap.get?_erase] at hs
    split at hs
    · cases hs
    · rename_i hk
      exact (Function.update_of_ne hk ..).trans (hm k s hs)
  | deleteByPattern re =>
    cases hact
    exact hm.deleteWhere h fun key _ => re key
  | deleteByTag tag =>
    cases hact
    simp only [LockedCache.deleteByTag, remember]
    split
    · exact hm
    · exact hm.deleteWhere h fun _ e => e.tags.contains _
  | deleteByTags tags =>
    cases hact
    simp only [LockedCache.deleteByTags, remember]
    split
    · exact hm
    · exact hm.deleteWhere h fun _ e => e.tags.any _
  | clear =>
    cases hact
    exact fun k s hs => by cases hs
  | cleanupExpired now =>
    cases hact
    exact hm.deleteKeys h _

end LockedCache

namespace Shared

open LockedCache

variable {ι : Type*} [DecidableEq ι] {cfg : CacheConfig}

/-- What the actions leave of a map without limits. -/
def rememberAll (cfg : CacheConfig) (as : List (CacheAction ι)) : Text → Option CacheEntry :=
  as.foldl (remember cfg.withDefaults) fun _ => none

theorem within_exec : ∀ (as : List (CacheAction ι)) {s t : Shared ι}
    {m : Text → Option CacheEntry}, s.cache.Consistent →
    s.cache.Within m → (system ι cfg).exec (fun _ _ => True) s as = some t →
      t.cache.Within (as.foldl (remember s.cache.cfg) m)
  | [], s, t, m, _, hm, hexec => by
    cases hexec
    exact hm
  | a :: as, s, t, m, h, hm, hexec => by
    rw [Transition.System.exec, if_pos trivial] at hexec
    obtain ⟨u, hu, hrest⟩ := Option.bind_eq_some_iff.1 hexec
    obtain ⟨c', hact, rfl⟩ := Option.map_eq_some_iff.1 hu
    obtain ⟨h', hcfg⟩ := h.act hact
    have hwithin := within_exec as h' (hm.act h hact) hrest
    rwa [hcfg] at hwithin

/-- **A hit is the last stored response**: whatever calls are interleaved, `Get` finds what was stored last under its
key and not deleted since, and only before it expires. -/
theorem hit_is_last_stored {as : List (CacheAction ι)} {s : Shared ι} {now : Int} {key : Text} {slot : Slot}
    (hexec : (system ι cfg).exec (fun _ _ => True) ⟨.new cfg, fun _ => none⟩ as = some s)
    (hhit : s.cache.lookup now key = some (.hit slot)) : rememberAll cfg as key = some slot.entry ∧
      now ≤ slot.entry.expiresAt := by
  have hempty : (LockedCache.new cfg).Within fun _ => none := fun k s hs => by cases hs
  have hwithin := within_exec as (Consistent.new cfg) hempty hexec
  obtain ⟨slot', hslot, hkind⟩ := Option.map_eq_some_iff.1 hhit
  split at hkind
  · cases hkind
  · rename_i hfresh
    cases hkind
    refine ⟨hwithin key slot hslot, not_lt.1 fun hlt => hfresh ?_⟩
    exact decide_eq_true hlt

/-- After the run, `a` is found with the response stored last. -/
theorem hit_is_last_stored_staleRun :
    ∃ s slot, (system Bool smallCache).exec (fun _ _ => True) ⟨.new smallCache, fun _ => none⟩ staleRun = some s ∧
      s.cache.lookup 5 ['a'] = some (.hit slot) ∧ slot.entry.response.body = [4, 5] ∧
      rememberAll smallCache staleRun ['a'] = some slot.entry := by
  have hrun : ((system Bool smallCache).exec (fun _ _ => True) ⟨.new smallCache, fun _ => none⟩ staleRun).bind (fun s =>
      (s.cache.entries.get? ['a']).bind fun slot => if slot.entry.isExpired 5 then none
        else some slot.entry.response.body) =
      some [4, 5] := by decide +kernel
  obtain ⟨s, hs, hview⟩ := Option.bind_eq_some_iff.1 hrun
  obtain ⟨slot, hslot, hbody⟩ := Option.bind_eq_some_iff.1 hview
  split at hbody
  · cases hbody
  · rename_i hfresh
    have hhit : s.cache.lookup 5 ['a'] = some (.hit slot) := by rw [lookup, hslot, Option.map_some, if_neg hfresh]
    exact ⟨s, slot, hs, hhit, Option.some.inj hbody, (hit_is_last_stored hs hhit).1⟩

end Shared

end Plugin
