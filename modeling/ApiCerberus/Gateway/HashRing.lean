import Mathlib.Data.List.Rotate
import Mathlib.Data.List.Sort
import ApiCerberus.Gateway.Balancers

/-!
# An unhealthy target is as good as removed

`ConsistentHash.Next` finds the place of a key on the ring by a binary search and goes on from there, past the points of
unhealthy targets. On a ring without two points at one place this is a walk around the ring of the healthy targets
(`next_eq_healthy`): to skip the points of a target is to take them away. So an update moves only the keys of the
targets that come or go (`next_updateTargets_ne`).
-/

namespace Balancers

/-! ## `sort.Search` -/

/-- Up to the result the predicate is false, from it on it is true. -/
theorem searchLoop_spec {f : Nat → Bool} {n : Nat} (hmono : ∀ i j, i ≤ j → j < n → f i = true → f j = true) :
    ∀ fuel i j, i ≤ j → j ≤ n → j - i ≤ fuel → (∀ k < i, f k = false) → (∀ k, j ≤ k → k < n → f k = true) →
      searchLoop f fuel i j ≤ n ∧ (∀ k < searchLoop f fuel i j, f k = false) ∧ ∀ k, searchLoop f fuel i j ≤ k →
        k < n → f k = true := by
  intro fuel
  induction fuel with
  | zero =>
    intro i j hij hjn hfuel hlow hhigh
    have hji : j = i := by omega
    subst hji
    exact ⟨hjn, hlow, hhigh⟩
  | succ fuel ih =>
    intro i j hij hjn hfuel hlow hhigh
    rw [searchLoop]
    by_cases hlt : i < j
    · rw [if_pos hlt]
      split
      · rename_i hmid
        refine ih i ((i + j) / 2) (by omega) (by omega) (by omega) hlow fun k hk hkn => ?_
        exact hmono _ k hk hkn hmid
      · rename_i hmid
        refine ih ((i + j) / 2 + 1) j (by omega) hjn (by omega) (fun k hk => ?_) hhigh
        by_contra htrue
        rw [Bool.not_eq_false] at htrue
        exact hmid (hmono k _ (by omega) (by omega) htrue)
    · have hji : j = i := by omega
      subst hji
      rw [if_neg hlt]
      exact ⟨hjn, hlow, hhigh⟩

/-! ## Around the ring -/

variable {α : Type*}

theorem filterMap_getElem?_range (l : List α) : ((List.range l.length).filterMap fun i => l[i]?) = l := by
  induction l using List.reverseRecOn with
  | nil => rfl
  | append_singleton l x ih =>
    have hinit : ((List.range l.length).filterMap fun i => (l ++ [x])[i]?) = l := by
      rw [List.filterMap_congr fun i hi => List.getElem?_append_left (List.mem_range.1 hi), ih]
    rw [List.length_append, List.length_singleton, List.range_succ, List.filterMap_append, hinit]
    simp

theorem filterMap_mod_range (l : List α) (idx : Nat) :
    ((List.range l.length).filterMap fun i => l[(idx + i) % l.length]?) = l.rotate idx := by
  have hall := filterMap_getElem?_range (l.rotate idx)
  rw [List.length_rotate] at hall
  rw [← hall]
  refine List.filterMap_congr fun i hi => ?_
  rw [List.getElem?_rotate (List.mem_range.1 hi), Nat.add_comm]

/-- A list that a predicate cuts in two. -/
theorem filter_eq_drop {p : α → Bool} {l : List α} {idx : Nat} (hlow : ∀ k < idx, ∀ x, l[k]? = some x → p x = false)
    (hhigh : ∀ k, idx ≤ k → ∀ x, l[k]? = some x → p x = true) :
    l.filter p = l.drop idx ∧ (l.filter fun x => !p x) = l.take idx := by
  have htake : ∀ x ∈ l.take idx, p x = false := by
    intro x hx
    obtain ⟨k, hk, rfl⟩ := List.mem_take_iff_getElem.1 hx
    exact hlow k (by omega) _ (List.getElem?_eq_getElem _)
  have hdrop : ∀ x ∈ l.drop idx, p x = true := by
    intro x hx
    obtain ⟨k, hk⟩ := List.getElem?_of_mem hx
    rw [List.getElem?_drop] at hk
    exact hhigh (idx + k) (by omega) x hk
  constructor
  · rw [← List.take_append_drop idx l, List.filter_append, List.filter_eq_nil_iff.2 fun x hx => by simp [htake x hx],
      List.filter_eq_self.2 hdrop, List.take_append_drop, List.nil_append]
  · rw [← List.take_append_drop idx l, List.filter_append, List.filter_eq_self.2 fun x hx => by simp [htake x hx],
      List.filter_eq_nil_iff.2 fun x hx => by simp [hdrop x hx], List.take_append_drop, List.append_nil]

/-- The first that passes two tests is the first that passes the second, unless that one fails the first. -/
theorem find?_and_ne {p q : α → Bool} : ∀ {l : List α}, (l.find? fun x => p x && q x) ≠ l.find? q →
    ∃ x, l.find? q = some x ∧ p x = false
  | [], hne => absurd rfl hne
  | a :: l, hne => by
    cases hq : q a with
    | false =>
      simp only [List.find?_cons, hq, Bool.and_false] at hne ⊢
      exact find?_and_ne hne
    | true =>
      refine ⟨a, by simp [hq], Bool.eq_false_of_not_eq_true fun hp => hne ?_⟩
      simp [hp, hq]

/-- The points from `hash` on, and then those before it. -/
def around (hash : UInt32) (ring : List RingEntry) : List RingEntry :=
  (ring.filter fun e => hash ≤ e.hash) ++ ring.filter fun e => !decide (hash ≤ e.hash)

/-- On a ring in order, the loop goes around it from the place of the key. -/
theorem walk_eq_around {ring : List RingEntry} (hsorted : ring.Pairwise fun e e' => e.hash ≤ e'.hash) (hash : UInt32) :
    ((List.range ring.length).filterMap fun i =>
      ring[((if ring.length ≤ searchLoop (fun i => ring[i]?.any fun e => hash ≤ e.hash) ring.length 0 ring.length then 0
        else searchLoop (fun i => ring[i]?.any fun e => hash ≤ e.hash) ring.length 0 ring.length) + i) % ring.length]?)
          = around hash ring := by
  have hmono : ∀ i j, i ≤ j → j < ring.length → (ring[i]?.any fun e => hash ≤ e.hash) = true →
      (ring[j]?.any fun e => hash ≤ e.hash) = true := by
    intro i j hij hj hi
    have hin : i < ring.length := by omega
    rw [List.getElem?_eq_getElem hj, Option.any_some, decide_eq_true_iff]
    rw [List.getElem?_eq_getElem hin, Option.any_some, decide_eq_true_iff] at hi
    rcases Nat.lt_or_eq_of_le hij with hlt | rfl
    · exact UInt32.le_trans hi (List.pairwise_iff_getElem.1 hsorted i j hin hj hlt)
    · exact hi
  obtain ⟨hle, hlow, hhigh⟩ := searchLoop_spec hmono ring.length 0 ring.length (Nat.zero_le _) le_rfl (by omega)
    (fun k hk => absurd hk (Nat.not_lt_zero k))
    (fun k hk hkn => absurd hkn (by omega))
  generalize searchLoop (fun i => ring[i]?.any fun e => hash ≤ e.hash) ring.length 0 ring.length = idx at hle hlow hhigh
  obtain ⟨hge, hlt⟩ := @filter_eq_drop RingEntry (fun e => hash ≤ e.hash) ring idx
    (fun k hk x hx => by simpa [hx] using hlow k hk) (fun k hk x hx => by
      have hkn : k < ring.length := (List.getElem?_eq_some_iff.1 hx).1
      simpa [hx] using hhigh k hk hkn)
  rw [filterMap_mod_range, around, hge, hlt]
  split
  · have hall : idx = ring.length := by omega
    rw [hall, List.rotate_zero, List.drop_length, List.take_length, List.nil_append]
  · exact List.rotate_eq_drop_append_take hle

theorem around_filter (hash : UInt32) (p : RingEntry → Bool) (ring : List RingEntry) :
    around hash (ring.filter p) = (around hash ring).filter p := by
  rw [around, around, List.filter_append, List.filter_filter, List.filter_filter, List.filter_filter,
    List.filter_filter]
  simp only [Bool.and_comm]

/-! ## The points of some of the targets -/

theorem pairwise_rebuildRing (targets : List UpstreamTarget) : (rebuildRing targets).Pairwise fun e e' =>
    e.hash ≤ e'.hash := by
  have : Std.Total fun e e' : RingEntry => e.hash ≤ e'.hash := ⟨fun e e' => UInt32.le_total e.hash e'.hash⟩
  have : IsTrans RingEntry fun e e' => e.hash ≤ e'.hash := ⟨fun _ _ _ h h' => UInt32.le_trans h h'⟩
  exact List.pairwise_insertionSort _ _

/-- The points of one target. -/
def pointsOf (replicas : Nat) (t : UpstreamTarget) : List RingEntry :=
  (List.range replicas).map fun i => ⟨crc32 (bytes (targetKey t ++ '#' :: Text.decimal i)), t⟩

theorem ringPoints_cons (replicas : Nat) (t : UpstreamTarget) (ts : List UpstreamTarget) :
    ringPoints replicas (t :: ts) = pointsOf replicas t ++ ringPoints replicas ts := rfl

theorem filter_pointsOf (replicas : Nat) (p : UpstreamTarget → Bool) (t : UpstreamTarget) :
    ((pointsOf replicas t).filter fun e => p e.target) = if p t then pointsOf replicas t else [] := by
  have htarget : ∀ e ∈ pointsOf replicas t, e.target = t := by
    intro e he
    obtain ⟨i, -, rfl⟩ := List.mem_map.1 he
    rfl
  split
  · rename_i hp
    exact List.filter_eq_self.2 fun e he => by rw [htarget e he, hp]
  · rename_i hp
    exact List.filter_eq_nil_iff.2 fun e he => by rw [htarget e he]; exact hp

theorem ringPoints_filter (replicas : Nat) (p : UpstreamTarget → Bool) (targets : List UpstreamTarget) :
    ringPoints replicas (targets.filter p) = (ringPoints replicas targets).filter fun e => p e.target := by
  induction targets with
  | nil => rfl
  | cons t targets ih =>
    rw [ringPoints_cons, List.filter_append, filter_pointsOf, ← ih, List.filter_cons]
    split
    · exact ringPoints_cons replicas t _
    · rfl

/-- No two points of the targets are at one place. -/
def DistinctPoints (targets : List UpstreamTarget) : Prop := ((ringPoints 120 targets).map RingEntry.hash).Nodup

/-- **The ring of some of the targets** is the ring of all without the points of the others. -/
theorem rebuildRing_filter {targets : List UpstreamTarget} (h : DistinctPoints targets) (p : UpstreamTarget → Bool) :
    rebuildRing (targets.filter p) = (rebuildRing targets).filter fun e => p e.target := by
  have hperm : (rebuildRing (targets.filter p)).Perm ((rebuildRing targets).filter fun e => p e.target) := by
    refine (List.perm_insertionSort _ _).trans ?_
    rw [ringPoints_filter]
    exact ((List.perm_insertionSort _ _).filter _).symm
  refine hperm.eq_of_pairwise (fun e e' he he' hle hle' => ?_) (pairwise_rebuildRing _)
    ((pairwise_rebuildRing targets).filter _)
  have hmem : ∀ e ∈ (rebuildRing targets).filter fun e => p e.target, e ∈ ringPoints 120 targets := fun e he =>
    List.mem_insertionSort _ |>.1 (List.mem_of_mem_filter he)
  exact List.inj_on_of_nodup_map h (hmem e (hperm.mem_iff.1 he)) (hmem e' he') (UInt32.le_antisymm hle hle')

/-! ## `Next` -/

namespace ConsistentHash

/-- A balancer as `UpdateTargets` leaves it, whatever is reported afterwards. -/
def Built (ch : ConsistentHash) : Prop := ch.ring = rebuildRing ch.pool.targets

variable {ch : ConsistentHash} {call : NextCall}

theorem next_eq (hbuilt : ch.Built) (call : NextCall) : ch.next call =
    ((around (crc32 (bytes (keyOf call))) (rebuildRing ch.pool.targets)).filter
      fun e => ch.pool.isHealthy e.target).head?.elim
      .noHealthyTargets fun e => .selected e.target := by
  have hwalk := walk_eq_around (pairwise_rebuildRing ch.pool.targets) (crc32 (bytes (keyOf call)))
  have hring : ch.ring = rebuildRing ch.pool.targets := hbuilt
  rw [next, hring, List.head?_filter, hwalk]
  cases List.find? (fun e => ch.pool.isHealthy e.target)
    (around (crc32 (bytes (keyOf call))) (rebuildRing ch.pool.targets)) <;> rfl

theorem built_new (targets : List UpstreamTarget) : (newConsistentHash targets).Built := rfl

/-- **An unhealthy target is as good as removed.** -/
theorem next_eq_healthy (hbuilt : ch.Built) (hdistinct : DistinctPoints ch.pool.targets) (call : NextCall) :
    ch.next call = (newConsistentHash ch.pool.healthyTargets).next call := by
  have hhealthy : ∀ t, (newConsistentHash ch.pool.healthyTargets).pool.isHealthy t = true := by
    intro t
    rw [Pool.isHealthy, show (newConsistentHash ch.pool.healthyTargets).pool =
      Pool.empty.updateTargets ch.pool.healthyTargets from rfl,
      Pool.get?_updateTargets]
    split <;> rfl
  have htargets : (newConsistentHash ch.pool.healthyTargets).pool.targets = ch.pool.targets.filter ch.pool.isHealthy :=
    rfl
  have hself : ∀ l : List RingEntry, (l.filter
    fun e => (newConsistentHash ch.pool.healthyTargets).pool.isHealthy e.target) = l :=
    fun l => List.filter_eq_self.2 fun e _ => hhealthy e.target
  rw [next_eq hbuilt, next_eq (built_new _), hself, htargets, rebuildRing_filter hdistinct, around_filter]

theorem Built.reportHealth (hbuilt : ch.Built) (key : Text) (healthy : Bool) : (ch.reportHealth key healthy).Built :=
  hbuilt

theorem isHealthy_reportHealth (p : Pool) (key : Text) (healthy : Bool) (t : UpstreamTarget) :
    (p.reportHealth key healthy).isHealthy t = if targetKey t = key then healthy else p.isHealthy t := by
  rw [Pool.isHealthy, Pool.reportHealth, FinMap.get?_set]
  split <;> rfl

/-- What `Next` makes of the point it finds. -/
def outcome (e : Option RingEntry) : Outcome := e.elim .noHealthyTargets fun e => .selected e.target

/-- A target that becomes unhealthy gives away the keys that were its own. -/
theorem eq_of_next_reportHealth_ne (hbuilt : ch.Built) {key : Text}
    (hne : (ch.reportHealth key false).next call ≠ ch.next call) : ∃ t, ch.next call = .selected t ∧
      targetKey t = key := by
  have hboth : (fun e : RingEntry => (ch.reportHealth key false).pool.isHealthy e.target) =
      fun e => decide (targetKey e.target ≠ key) && ch.pool.isHealthy e.target := by
    funext e
    rw [show (ch.reportHealth key false).pool = ch.pool.reportHealth key false from rfl, isHealthy_reportHealth]
    split
    · simp [*]
    · simp [*]
  rw [next_eq (hbuilt.reportHealth key false), next_eq hbuilt, List.head?_filter, List.head?_filter, hboth,
    show (ch.reportHealth key false).pool.targets = ch.pool.targets from rfl] at hne
  obtain ⟨e, hfind, hkey⟩ := find?_and_ne (ne_of_apply_ne outcome hne)
  rw [next_eq hbuilt, List.head?_filter, hfind]
  exact ⟨e.target, rfl, by simpa using hkey⟩

/-- **Skipping is removing**, so that a target that becomes unhealthy gives away its own keys only, and gets them
back. -/
theorem next_healthy_only {ch : ConsistentHash} (hbuilt : ch.Built) (hdistinct : DistinctPoints ch.pool.targets)
    (call : NextCall) (key : Text) :
    ch.next call = (newConsistentHash ch.pool.healthyTargets).next call ∧
    ((ch.reportHealth key false).next call ≠ ch.next call → ∃ t, ch.next call = .selected t ∧ targetKey t = key) ∧
    (ch.pool.health.get? key ≠ some false → ((ch.reportHealth key false).reportHealth key true).next call =
      ch.next call) := by
  refine ⟨next_eq_healthy hbuilt hdistinct call, eq_of_next_reportHealth_ne hbuilt, fun hkey => ?_⟩
  have hsame : ∀ t, ((ch.reportHealth key false).reportHealth key true).pool.isHealthy t = ch.pool.isHealthy t := by
    intro t
    rw [show ((ch.reportHealth key false).reportHealth key true).pool =
      (ch.pool.reportHealth key false).reportHealth key true from rfl,
      isHealthy_reportHealth, isHealthy_reportHealth]
    split
    · rename_i heq
      rw [Pool.isHealthy, heq]
      cases hget : ch.pool.health.get? key with
      | none => rfl
      | some b =>
        cases b with
        | true => rfl
        | false => exact absurd hget hkey
    · rfl
  rw [next_eq ((hbuilt.reportHealth key false).reportHealth key true), next_eq hbuilt]
  simp only [hsame]
  rfl

theorem distinctPoints_both : DistinctPoints [targetA, targetB] := by
  unfold DistinctPoints
  decide +kernel

/-- Of two targets one is away, and comes back. -/
theorem next_healthy_only_both : DistinctPoints (newConsistentHash [targetA, targetB]).pool.targets ∧
    (let away := (newConsistentHash [targetA, targetB]).reportHealth "a".toList false
     away.next plainCall = (newConsistentHash away.pool.healthyTargets).next plainCall) ∧
    (((newConsistentHash [targetA, targetB]).reportHealth "a".toList false).reportHealth "a".toList true).next
      plainCall = (newConsistentHash [targetA, targetB]).next plainCall :=
  ⟨distinctPoints_both,
    (next_healthy_only ((built_new _).reportHealth "a".toList false) distinctPoints_both plainCall "a".toList).1,
    (next_healthy_only (built_new [targetA, targetB]) distinctPoints_both plainCall "a".toList).2.2 (by decide)⟩

/-! ## `UpdateTargets` -/

theorem isHealthy_updateTargets (p : Pool) {targets : List UpstreamTarget} {t : UpstreamTarget} (ht : t ∈ targets) :
    (p.updateTargets targets).isHealthy t = p.isHealthy t := by
  rw [Pool.isHealthy, Pool.get?_updateTargets, if_pos ⟨t, ht, rfl⟩]
  rfl

/-- Of two balancers, one with a part of the targets of the other, those keys differ that the other gives to the
rest. -/
theorem eq_of_next_filter_ne {all some : ConsistentHash} (hall : all.Built) (hsome : some.Built)
    (hdistinct : DistinctPoints all.pool.targets)
    {p : UpstreamTarget → Bool} (htargets : some.pool.targets = all.pool.targets.filter p)
    (hhealth : ∀ t ∈ some.pool.targets, some.pool.isHealthy t = all.pool.isHealthy t)
    (hne : some.next call ≠ all.next call) :
    ∃ t, all.next call = .selected t ∧ p t = false := by
  have hring : ∀ hash, ((around hash (rebuildRing some.pool.targets)).filter fun e => some.pool.isHealthy e.target) =
      (around hash (rebuildRing all.pool.targets)).filter fun e => p e.target && all.pool.isHealthy e.target := by
    intro hash
    have hmem : ∀ e ∈ around hash (rebuildRing some.pool.targets), e.target ∈ some.pool.targets := by
      intro e he
      rw [around, List.mem_append] at he
      exact mem_rebuildRing.1 ⟨e, he.elim List.mem_of_mem_filter List.mem_of_mem_filter, rfl⟩
    rw [List.filter_congr fun e he => hhealth _ (hmem e he), htargets, rebuildRing_filter hdistinct, around_filter,
      List.filter_filter]
    simp only [Bool.and_comm]
  rw [next_eq hsome, next_eq hall, hring, List.head?_filter, List.head?_filter] at hne
  obtain ⟨e, hfind, hp⟩ := find?_and_ne (ne_of_apply_ne outcome hne)
  rw [next_eq hall, List.head?_filter, hfind]
  exact ⟨e.target, rfl, hp⟩

/-- **An update moves few keys**: if targets are removed, only the keys that they had; if targets are added, only keys
that they get. -/
theorem next_updateTargets_ne (hbuilt : ch.Built) {targets : List UpstreamTarget} {p : UpstreamTarget → Bool}
    (hne : (ch.updateTargets targets).next call ≠ ch.next call) :
    (targets = ch.pool.targets.filter p → DistinctPoints ch.pool.targets →
      ∃ t, ch.next call = .selected t ∧ p t = false) ∧
    (ch.pool.targets = targets.filter p → DistinctPoints targets →
      ∃ t, (ch.updateTargets targets).next call = .selected t ∧ p t = false) := by
  have hupdated : (ch.updateTargets targets).Built := rfl
  have hhealth : ∀ t ∈ targets, (ch.updateTargets targets).pool.isHealthy t = ch.pool.isHealthy t :=
    fun t ht => isHealthy_updateTargets ch.pool ht
  refine ⟨fun hfilter hdistinct => eq_of_next_filter_ne hbuilt hupdated hdistinct hfilter hhealth hne,
    fun hfilter hdistinct => ?_⟩
  refine eq_of_next_filter_ne hupdated hbuilt hdistinct hfilter (fun t ht => (hhealth t ?_).symm) hne.symm
  rw [hfilter] at ht
  exact List.mem_of_mem_filter ht

/-- Of two targets the one that has the key is removed. -/
theorem next_updateTargets_ne_both : DistinctPoints (newConsistentHash [targetA, targetB]).pool.targets ∧
    ∃ t, (newConsistentHash [targetA, targetB]).next plainCall = .selected t ∧ t.id ≠ "b".toList := by
  have hne : ((newConsistentHash [targetA, targetB]).updateTargets [targetB]).next plainCall ≠
    (newConsistentHash [targetA, targetB]).next plainCall := by decide +kernel
  obtain ⟨t, ht, hid⟩ :=
    (next_updateTargets_ne (built_new [targetA, targetB])
      (p := fun t => t.id = "b".toList) hne).1 rfl distinctPoints_both
  exact ⟨distinctPoints_both, t, ht, by simpa using hid⟩

end ConsistentHash

end Balancers
