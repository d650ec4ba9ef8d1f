import ApiCerberus.RateLimit.Concurrency
import Mathlib.Algebra.Order.Archimedean.Basic

/-!
# Purging idle state

`decisions` are calls of `Allow` and of `RateLimit.purgeAll` (`internal/plugin/rate_limit.go:244-264`). `purgeLimiter`
gives the present time to every `PurgeStale`. The two windows take it for what it is, and drop what no longer counts.
For the two buckets it is a cutoff, so a purge drops every bucket whose last call was earlier than the purge itself,
however empty or full the bucket is. The next call finds a new one. That goes unnoticed only if a bucket recovers
completely within a nanosecond (`purge_unnoticed_iff`).
-/

namespace RateLimit

open Keyed

/-- The event with the key under which the state is kept. -/
def stored : Event Text Time → Event Text Time
  | .call key t => .call (stateKey key) t
  | .sweep t => .sweep t

/-- The answers to the calls of a history that starts without any state. -/
def decisions {σ : Type} (c : Cell Time σ Decision) (purge : Time → σ → Option σ)
    (es : List (Event Text Time)) : List Bool :=
  (run c purge (fun _ => none) (es.map stored)).map Decision.allowed

def RateLimiter.decisions : RateLimiter → List (Event Text Time) → List Bool
  | .tokenBucket tb => RateLimit.decisions tb.cell TokenBucket.purgeStale
  | .fixedWindow fw => RateLimit.decisions fw.cell fw.purgeStale
  | .slidingWindow sw => RateLimit.decisions sw.cell sw.purgeStale
  | .leakyBucket lb => RateLimit.decisions lb.cell LeakyBucket.purgeStale

/-- The answers are the same without the purges. -/
def Unnoticed (answers : List (Event Text Time) → List Bool) : Prop :=
  ∀ es : List (Event Text Time), es.Pairwise (fun e e' => e.time ≤ e'.time) →
    answers es = answers (es.filter Event.isCall)

@[simp] theorem stored_time (e : Event Text Time) : (stored e).time = e.time := by cases e <;> rfl

@[simp] theorem stored_isCall (e : Event Text Time) : (stored e).isCall = e.isCall := by cases e <;> rfl

variable {σ : Type} {c : Cell Time σ Decision} {purge : Time → σ → Option σ}

theorem unnoticed_of_alike {R : Time → Option σ → Option σ → Prop} (hR : Alike c purge R) :
    Unnoticed (decisions c purge) := by
  intro es hes
  have hstored : (es.map stored).Pairwise fun e e' => e.time ≤ e'.time := by
    simpa [List.pairwise_map] using hes
  have hnone : ∀ k : Text, ∀ e ∈ es.map stored, R e.time ((fun _ => none) k) ((fun _ => none) k) :=
    fun _ e _ => hR.none e.time
  have hcalls : (es.map stored).filter Event.isCall = (es.filter Event.isCall).map stored := by
    simp [List.filter_map, Function.comp_def]
  simp only [decisions, run_eq_run_calls hR hstored hnone, hcalls]

/-! ## The windows -/

theorem FixedWindow.windowID_mono (fw : FixedWindow) {t t' : Time} (h : t ≤ t') : fw.windowID t ≤ fw.windowID t' :=
  Int.tdiv_le_tdiv fw.windowSeconds_pos (Int.ediv_le_ediv (by decide) h)

/-- A counter of an earlier window starts anew, as a new one does. -/
theorem FixedWindow.unnoticed (fw : FixedWindow) : Unnoticed (decisions fw.cell fw.purgeStale) := by
  refine unnoticed_of_alike (alike_of_reset (P := fun _ => True)
    (Q := fun t s => 0 < s.windowID ∧ s.windowID < fw.windowID t) (fun _ => trivial) (fun _ _ _ => trivial) ?_ ?_ ?_)
  · intro t t' s hle hs
    exact ⟨hs.1, hs.2.trans_le (fw.windowID_mono hle)⟩
  · intro t s _ hs
    have hold : s.windowID ≠ fw.windowID t := hs.2.ne
    have hnew : (0 : Int) ≠ fw.windowID t := (hs.1.trans hs.2).ne
    simp [cell, allow, ensureWindow, hold, hnew]
  · intro t s
    by_cases hs : 0 < s.windowID ∧ s.windowID < fw.windowID t - 2
    · exact Or.inr ⟨by simp [purgeStale, hs], hs.1, by omega⟩
    · exact Or.inl (by simp [purgeStale, hs])

namespace SlidingWindow

variable (sw : SlidingWindow)

theorem slotID_mono {t t' : Time} (h : t ≤ t') : sw.slotID t ≤ sw.slotID t' := Int.tdiv_le_tdiv sw.subWindow_pos h

theorem pruneLocked_pruneLocked (state : SlidingWindowState) {slot slot' : Int} (h : slot ≤ slot') :
    sw.pruneLocked (sw.pruneLocked state slot) slot' = sw.pruneLocked state slot' := by
  simp only [pruneLocked, SlidingWindowState.mk.injEq]
  refine FinMap.ext ?_
  simp only [FinMap.filter, List.filter_filter]
  refine List.filter_congr fun r _ => ?_
  simp only [Bool.and_eq_left_iff_imp, decide_eq_true_eq]
  omega

/-- What counts at time `t`. -/
def counted (t : Time) (state : Option SlidingWindowState) : SlidingWindowState :=
  sw.pruneLocked (state.getD ⟨.empty⟩) (sw.slotID t)

/-- Only the slots that a purge keeps are ever counted. -/
theorem unnoticed : Unnoticed (decisions sw.cell sw.purgeStale) := by
  have hsame : ∀ {t : Time} {a b : Option SlidingWindowState}, sw.counted t a = sw.counted t b →
      sw.allow t (a.getD ⟨.empty⟩) = sw.allow t (b.getD ⟨.empty⟩) := by
    intro t a b h
    simp only [counted] at h
    simp only [allow, h]
  refine unnoticed_of_alike (R := fun t a b => sw.counted t a = sw.counted t b)
    ⟨fun _ => rfl, ?_, fun h => congrArg Prod.fst (hsame h), ?_, ?_⟩
  · intro t t' a b hle h
    have hprune := fun state => sw.pruneLocked_pruneLocked state (sw.slotID_mono hle)
    simp only [counted] at h ⊢
    rw [← hprune (a.getD _), h, hprune]
  · intro t a b h
    exact congrArg (fun r => sw.counted t (some r.2)) (hsame h)
  · intro t a b h
    rw [h]
    cases b with
    | none => rfl
    | some s =>
      have hprune := sw.pruneLocked_pruneLocked s (le_refl (sw.slotID t))
      by_cases hrows : (sw.pruneLocked s (sw.slotID t)).counts.rows = []
      · have hempty : sw.pruneLocked s (sw.slotID t) = ⟨.empty⟩ := by
          have hmap : (sw.pruneLocked s (sw.slotID t)).counts = .empty := FinMap.ext hrows
          rw [← hmap]
        have hdrop : sw.purgeStale t s = none := by simp [purgeStale, hrows]
        simp only [counted, Option.bind_some, hdrop, Option.getD_none, Option.getD_some]
        rw [← hempty, hprune]
      · simp [counted, purgeStale, hrows, hprune]

end SlidingWindow

/-! ## The buckets -/

theorem seconds_pos {t t' : Time} (h : t < t') : 1 / 1000000000 ≤ seconds (t' - t) := by
  have : ((1 : Int) : ℚ) ≤ ((t' - t : Int) : ℚ) := by exact_mod_cast Int.sub_pos_of_lt h
  simp only [seconds]
  simp only [Int.cast_one] at this
  linarith

namespace TokenBucket

variable (tb : TokenBucket)

/-- A nanosecond fills the bucket. -/
def Instant : Prop := tb.capacity * 1000000000 ≤ tb.rate

variable {tb} {state : TokenBucketState} {t : Time}

theorem refill_now (tb : TokenBucket) (tokens : ℚ) (t : Time) : tb.refill ⟨tokens, t⟩ t = ⟨tokens, t⟩ := by
  simp [refill, seconds]

theorem allow_congr {state' : TokenBucketState} (h : (tb.refill state t).tokens = (tb.refill state' t).tokens) :
    tb.allow t state = tb.allow t state' := by
  simp only [allow, h]

theorem Instant.refill (h : tb.Instant) (hstate : 0 ≤ state.tokens) (hlast : state.last < t) :
    (tb.refill state t).tokens = tb.capacity := by
  have hcap : (tb.capacity : ℚ) * 1000000000 ≤ tb.rate := by exact_mod_cast h
  have hpos : (0 : ℚ) < tb.capacity := by exact_mod_cast tb.capacity_pos
  have hrate : ¬ tb.rate ≤ 0 := by
    have := tb.capacity_pos
    simp only [Instant] at h
    omega
  have hsec := seconds_pos hlast
  have helapsed : ¬ seconds (t - state.last) ≤ 0 := by linarith
  have hfull : (tb.capacity : ℚ) ≤ state.tokens + seconds (t - state.last) * tb.rate := by
    have : 1 / 1000000000 * (tb.capacity * 1000000000) ≤ seconds (t - state.last) * tb.rate :=
      mul_le_mul hsec hcap (by positivity) (by linarith)
    linarith
  simp [TokenBucket.refill, hrate, helapsed, hfull]

theorem Instant.unnoticed (h : tb.Instant) : Unnoticed (decisions tb.cell purgeStale) := by
  refine unnoticed_of_alike (alike_of_reset (P := fun s => 0 ≤ s.tokens) (Q := fun t s => s.last < t) ?_ ?_ ?_ ?_ ?_)
  · intro t
    simpa [cell] using tb.capacity_pos.le
  · intro t s _
    exact le_max_right _ _
  · intro t t' s hle hs
    exact hs.trans_le hle
  · intro t s hs hlast
    refine allow_congr ?_
    rw [h.refill hs hlast]
    exact congrArg TokenBucketState.tokens (tb.refill_now tb.capacity t).symm
  · intro t s
    by_cases hs : s.last < t
    · exact Or.inr ⟨by simp [purgeStale, hs], hs⟩
    · exact Or.inl (by simp [purgeStale, hs])

end TokenBucket

namespace LeakyBucket

variable (lb : LeakyBucket)

/-- A nanosecond empties the bucket. -/
def Instant : Prop := lb.capacity * 1000000000 ≤ lb.leakRate

variable {lb} {state : LeakyBucketState} {t : Time}

theorem drainLocked_now (queue : ℚ) : lb.drainLocked ⟨queue, t⟩ t = ⟨queue, t⟩ := by
  simp [drainLocked, seconds]

theorem allow_congr {state' : LeakyBucketState} (h : lb.drainLocked state t = lb.drainLocked state' t) :
    lb.allow t state = lb.allow t state' := by
  simp only [allow, h]

theorem Instant.drainLocked (h : lb.Instant) (hstate : state.queue ≤ lb.capacity) (hlast : state.updatedAt < t) :
    lb.drainLocked state t = ⟨0, t⟩ := by
  have hcap : (lb.capacity : ℚ) * 1000000000 ≤ lb.leakRate := by exact_mod_cast h
  have hpos : (0 : ℚ) < lb.capacity := by exact_mod_cast lb.capacity_pos
  have hsec := seconds_pos hlast
  have helapsed : ¬ seconds (t - state.updatedAt) ≤ 0 := by linarith
  have hempty : state.queue - seconds (t - state.updatedAt) * lb.leakRate ≤ 0 := by
    have : 1 / 1000000000 * (lb.capacity * 1000000000) ≤ seconds (t - state.updatedAt) * lb.leakRate :=
      mul_le_mul hsec hcap (by positivity) (by linarith)
    linarith
  simp [LeakyBucket.drainLocked, helapsed, hempty]

/-- The queue holds whole requests, and no more than it may. -/
def Whole (lb : LeakyBucket) (state : LeakyBucketState) : Prop := ∃ n : Int, state.queue = n ∧ n ≤ lb.capacity

/-- One more is let in if there is room for it. -/
theorem Whole.enter (hdrained : lb.Whole (lb.drainLocked state t)) : lb.Whole (lb.allow t state).2 := by
  obtain ⟨n, hn, hle⟩ := hdrained
  simp only [LeakyBucket.allow, hn, Int.floor_intCast]
  split
  · exact ⟨n, hn, hle⟩
  · exact ⟨n + 1, by simp, by omega⟩

theorem drainLocked_of_le (h : t ≤ state.updatedAt) : lb.drainLocked state t = state := by
  have helapsed : seconds (t - state.updatedAt) ≤ 0 := by
    have : seconds (t - state.updatedAt) ≤ seconds 0 := TokenBucket.seconds_le.2 (Int.sub_nonpos_of_le h)
    simpa [seconds] using this
  exact if_pos helapsed

theorem Whole.allow (h : lb.Instant) (hstate : lb.Whole state) : lb.Whole (lb.allow t state).2 := by
  refine Whole.enter ?_
  by_cases hlast : state.updatedAt < t
  · obtain ⟨n, hn, hle⟩ := hstate
    rw [h.drainLocked (by rw [hn]; exact_mod_cast hle) hlast]
    exact ⟨0, by simp, lb.capacity_pos.le⟩
  · rwa [drainLocked_of_le (not_lt.1 hlast)]

theorem Instant.unnoticed (h : lb.Instant) : Unnoticed (decisions lb.cell purgeStale) := by
  refine unnoticed_of_alike (alike_of_reset (P := lb.Whole) (Q := fun t s => s.updatedAt < t) ?_ ?_ ?_ ?_ ?_)
  · intro t
    exact ⟨0, by simp [cell], lb.capacity_pos.le⟩
  · intro t s hs
    exact Whole.allow h hs
  · intro t t' s hle hs
    exact hs.trans_le hle
  · intro t s hs hlast
    obtain ⟨n, hn, hle⟩ := hs
    refine allow_congr ?_
    rw [h.drainLocked (by rw [hn]; exact_mod_cast hle) hlast]
    exact (drainLocked_now 0).symm
  · intro t s
    by_cases hs : s.updatedAt < t
    · exact Or.inr ⟨by simp [purgeStale, hs], hs⟩
    · exact Or.inl (by simp [purgeStale, hs])

end LeakyBucket

/-! ## What a purge shows

The same number of calls at each of the times `0`, `1`, ..., `j`, a purge at `j + 1`, and as many calls again. -/

def globalKey : Text := "_global".toList

@[simp] theorem stateKey_globalKey : stateKey globalKey = globalKey := by decide +kernel

def batch (n : Nat) (t : Time) : List (Event Text Time) := List.replicate n (.call globalKey t)

def batches (n : Nat) : Nat → List (Event Text Time)
  | 0 => batch n 0
  | j + 1 => batches n j ++ batch n (j + 1)

@[simp] theorem map_stored_batch (n : Nat) (t : Time) : (batch n t).map stored = batch n t := by
  simp [batch, stored]

@[simp] theorem filter_isCall_batch (n : Nat) (t : Time) : (batch n t).filter Event.isCall = batch n t := by
  simp [batch, Event.isCall]

@[simp] theorem map_stored_batches (n j : Nat) : (batches n j).map stored = batches n j := by
  induction j with
  | zero => simp [batches]
  | succ j ih => simp [batches, ih]

@[simp] theorem filter_isCall_batches (n j : Nat) : (batches n j).filter Event.isCall = batches n j := by
  induction j with
  | zero => simp [batches]
  | succ j ih => simp [batches, ih]

theorem time_of_mem_batch {n : Nat} {t : Time} {e : Event Text Time} (h : e ∈ batch n t) : e.time = t := by
  rw [List.eq_of_mem_replicate h]
  rfl

theorem time_of_mem_batches {n j : Nat} {e : Event Text Time} (h : e ∈ batches n j) : e.time ≤ j := by
  induction j with
  | zero => simpa using (time_of_mem_batch h).le
  | succ j ih =>
    rcases List.mem_append.1 h with h | h
    · exact (ih h).trans (by simp)
    · simpa using (time_of_mem_batch h).le

theorem pairwise_batch (n : Nat) (t : Time) : (batch n t).Pairwise fun e e' => e.time ≤ e'.time :=
  List.pairwise_replicate.2 (Or.inr le_rfl)

theorem pairwise_batches (n j : Nat) : (batches n j).Pairwise fun e e' => e.time ≤ e'.time := by
  induction j with
  | zero => exact pairwise_batch n 0
  | succ j ih =>
    refine List.pairwise_append.2 ⟨ih, pairwise_batch n _, fun e he e' he' => ?_⟩
    rw [time_of_mem_batch he']
    exact (time_of_mem_batches he).trans (by simp)

/-- If the purge drops the state, the last batch tells the state from a new one. -/
theorem Unnoticed.burst (h : Unnoticed (decisions c purge)) {n j : Nat} {x : σ}
    (hx : after c purge (fun _ => none) (batches n j) globalKey = some x) (hdrop : purge (j + 1) x = none) :
    (burst c (j + 1) n x).1.map Decision.allowed = (burst c (j + 1) n (c.fresh (j + 1))).1.map Decision.allowed := by
  have hes : (batches n j ++ .sweep (j + 1) :: batch n (j + 1)).Pairwise fun e e' => e.time ≤ e'.time := by
    refine List.pairwise_append.2 ⟨pairwise_batches n j, List.pairwise_cons.2 ⟨?_, pairwise_batch n _⟩, ?_⟩
    · intro e he
      exact (time_of_mem_batch he).ge
    · intro e he e' he'
      have hlater : e'.time = j + 1 := by
        rcases List.mem_cons.1 he' with rfl | he'
        · rfl
        · exact time_of_mem_batch he'
      rw [hlater]
      exact (time_of_mem_batches he).trans (by simp)
  have heq := h _ hes
  simp only [decisions, List.map_append, List.map_cons, List.filter_append, List.filter_cons, filter_isCall_batches,
    filter_isCall_batch, map_stored_batches, map_stored_batch, run_append, stored, Event.isCall, run] at heq
  have hlast := List.append_cancel_left heq
  simp only [Bool.false_eq_true, if_false, map_stored_batch] at hlast
  simp only [batch, run_burst, hx, hdrop, Option.bind_some, Option.getD_some, Option.getD_none] at hlast
  exact hlast.symm

theorem all_allowed_iff {l l' : List Decision} (h : l.map Decision.allowed = l'.map Decision.allowed) :
    (∀ d ∈ l, d.allowed = true) ↔ ∀ d ∈ l', d.allowed = true := by
  have hl : ∀ l : List Decision, (∀ d ∈ l, d.allowed = true) ↔ ∀ b ∈ l.map Decision.allowed, b = true := by simp
  rw [hl, hl, h]

namespace TokenBucket

variable {tb : TokenBucket} {state : TokenBucketState} {t : Time} {n : Nat}

theorem cell_enter : tb.cell.enter = tb.allow := rfl

/-- Calls at one time are all allowed iff there is a token for each. -/
theorem burst_allowed (h : 0 ≤ (tb.refill state t).tokens) :
    (∀ d ∈ (burst tb.cell t n state).1, d.allowed = true) ↔ (n : ℚ) ≤ (tb.refill state t).tokens := by
  induction n generalizing state with
  | zero => simpa [burst] using h
  | succ n ih =>
    simp only [burst, List.forall_mem_cons, cell_enter]
    by_cases hone : 1 ≤ (tb.refill state t).tokens
    · have hnext : tb.refill (tb.allow t state).2 t = ⟨(tb.refill state t).tokens - 1, t⟩ := by
        have hpos : 0 ≤ (tb.refill state t).tokens - 1 := by linarith
        simp only [allow, hone, if_true, max_eq_left hpos, refill_now]
      rw [ih (by rw [hnext]; simpa using hone), hnext]
      simp [allow, hone, le_sub_iff_add_le]
    · simp only [allow, hone, decide_false, Bool.false_eq_true, false_and, false_iff, not_le]
      push_cast
      linarith [not_le.1 hone, (Nat.cast_nonneg n : (0 : ℚ) ≤ n)]

theorem burst_tokens (h : ((n + 1 : Nat) : ℚ) ≤ (tb.refill state t).tokens) :
    (burst tb.cell t (n + 1) state).2 = ⟨(tb.refill state t).tokens - (n + 1 : Nat), t⟩ := by
  induction n generalizing state with
  | zero =>
    have hone : 1 ≤ (tb.refill state t).tokens := by simpa using h
    have hpos : 0 ≤ (tb.refill state t).tokens - 1 := by linarith
    simp [burst, cell_enter, allow, hone, hpos]
  | succ n ih =>
    push_cast at h
    have hone : 1 ≤ (tb.refill state t).tokens := by linarith [(Nat.cast_nonneg n : (0 : ℚ) ≤ n)]
    have hnext : tb.refill (tb.allow t state).2 t = ⟨(tb.refill state t).tokens - 1, t⟩ := by
      have hpos : 0 ≤ (tb.refill state t).tokens - 1 := by linarith
      simp only [allow, hone, if_true, max_eq_left hpos, refill_now]
    have hrest := @ih (tb.allow t state).2 (by rw [hnext]; push_cast; linarith)
    rw [burst, cell_enter, hrest, hnext]
    push_cast
    ring_nf

theorem instant_of_refill (h : (tb.capacity : ℚ) ≤ (tb.refill ⟨0, 0⟩ 1).tokens) : tb.Instant := by
  have hpos : (0 : ℚ) < tb.capacity := by exact_mod_cast tb.capacity_pos
  have hsec : seconds (1 - 0) = 1 / 1000000000 := by simp [seconds]
  simp only [refill, hsec] at h
  split at h
  · linarith
  · split at h
    · linarith
    · have hrate : (tb.capacity : ℚ) * 1000000000 ≤ tb.rate := by linarith [h.trans (min_le_left _ _)]
      exact_mod_cast hrate

/-- As many calls as the bucket holds, twice, with a nanosecond between: the second ones are allowed only if the
nanosecond fills the bucket. -/
theorem instant_of_unnoticed (h : Unnoticed (decisions tb.cell purgeStale)) : tb.Instant := by
  obtain ⟨n, hn⟩ : ∃ n : Nat, tb.capacity = (n + 1 : Nat) := ⟨tb.capacity.toNat - 1, by have := tb.capacity_pos; omega⟩
  have hcap : (tb.capacity : ℚ) = (n + 1 : Nat) := by rw [hn]; simp
  have hfresh : ∀ t, tb.refill (tb.cell.fresh t) t = ⟨tb.capacity, t⟩ := fun t => tb.refill_now _ t
  have hempty : after tb.cell purgeStale (fun _ => none) (batches (n + 1) 0) globalKey = some ⟨0, 0⟩ := by
    have hfirst := @burst_tokens tb (tb.cell.fresh 0) 0 n (by rw [hfresh, hcap])
    rw [batches, batch, after_burst, Option.getD_none, hfirst, hfresh, hcap, sub_self]
  have hlast := all_allowed_iff (h.burst hempty (by simp [purgeStale]))
  have hfill : ((n + 1 : Nat) : ℚ) ≤ (tb.refill ⟨0, 0⟩ 1).tokens := by
    refine (burst_allowed (refill_nonneg _ le_rfl)).1 (hlast.2 ((burst_allowed ?_).2 ?_))
    · simpa [hfresh] using tb.capacity_pos.le
    · simp only [hfresh, hcap]
      exact le_rfl
  exact instant_of_refill (by rwa [hcap])

end TokenBucket

namespace LeakyBucket

variable {lb : LeakyBucket} {state : LeakyBucketState} {t : Time} {n : Nat} {queue : ℚ}

theorem cell_enter : lb.cell.enter = lb.allow := rfl

/-- Calls at one time are all allowed iff there is room for each. -/
theorem burst_allowed : (∀ d ∈ (burst lb.cell t n ⟨queue, t⟩).1, d.allowed = true) ↔ n = 0 ∨
    n + ⌊queue⌋ ≤ lb.capacity := by
  induction n generalizing queue with
  | zero => simp [burst]
  | succ n ih =>
    simp only [burst, List.forall_mem_cons, cell_enter, allow, drainLocked_now]
    split
    · rename_i hfull
      have hnone : lb.capacity < n + 1 + ⌊queue⌋ := by omega
      simp [hnone]
    · rename_i hroom
      have hsucc : n = 0 ∨ n + (⌊queue⌋ + 1) ≤ lb.capacity ↔ (n + 1 : Nat) + ⌊queue⌋ ≤ lb.capacity := by omega
      simp only [ih, Int.floor_add_one, hsucc]
      simp

theorem burst_queue (h : n + ⌊queue⌋ ≤ lb.capacity) : (burst lb.cell t n ⟨queue, t⟩).2 = ⟨queue + n, t⟩ := by
  induction n generalizing queue with
  | zero => simp [burst]
  | succ n ih =>
    have hroom : ¬ lb.capacity < ⌊queue⌋ + 1 := by push_cast at h; omega
    have hrest := @ih (queue + 1) (by rw [Int.floor_add_one]; push_cast at h; omega)
    simp only [burst, cell_enter, allow, drainLocked_now, hroom, if_false, hrest]
    push_cast
    ring_nf

theorem burst_drained (h : lb.drainLocked state t = ⟨queue, t⟩) :
    burst lb.cell t (n + 1) state = burst lb.cell t (n + 1) ⟨queue, t⟩ := by
  have hallow : lb.allow t state = lb.allow t ⟨queue, t⟩ := allow_congr (by rw [h, drainLocked_now])
  simp only [burst, cell_enter, hallow]

/-- What a full bucket keeps over a nanosecond. -/
def kept (lb : LeakyBucket) : ℚ := lb.capacity - lb.leakRate / 1000000000

theorem drainLocked_full (h : 0 < lb.kept) (j : Nat) :
    lb.drainLocked ⟨j * lb.kept + lb.capacity, j⟩ (j + 1) = ⟨(j + 1 : Nat) * lb.kept, j + 1⟩ := by
  have helapsed : seconds ((j : Time) + 1 - j) = 1 / 1000000000 := by simp [seconds]
  have hpos : ¬ (1 / 1000000000 : ℚ) ≤ 0 := by norm_num
  have hrest : (j * lb.kept + lb.capacity - 1 / 1000000000 * lb.leakRate : ℚ) = (j + 1 : Nat) * lb.kept := by
    push_cast
    simp only [kept]
    ring
  have hnonneg : (0 : ℚ) ≤ (j + 1 : Nat) * lb.kept := by positivity
  simp only [drainLocked, helapsed, hpos, if_false, hrest, max_eq_left hnonneg]

/-- As long as nobody notices the purges, every batch is allowed although the queue grows. -/
theorem after_batches (h : Unnoticed (decisions lb.cell purgeStale)) (hkept : 0 < lb.kept) {n : Nat}
    (hn : lb.capacity = (n + 1 : Nat)) (j : Nat) :
    after lb.cell purgeStale (fun _ => none) (batches (n + 1) j) globalKey = some ⟨j * lb.kept + lb.capacity, j⟩ ∧
      j * lb.kept < 1 := by
  have hcap : (lb.capacity : ℚ) = (n + 1 : Nat) := by rw [hn]; simp
  induction j with
  | zero =>
    have hfirst := @burst_queue lb 0 (n + 1) 0 (by rw [hn]; simp)
    refine ⟨?_, by simp⟩
    rw [batches, batch, after_burst, Option.getD_none]
    simp only [cell] at hfirst ⊢
    rw [hfirst, hcap]
    simp
  | succ j ih =>
    obtain ⟨hafter, -⟩ := ih
    have hdrained := drainLocked_full hkept j
    have hlast := all_allowed_iff (h.burst hafter (by simp [purgeStale]))
    rw [burst_drained hdrained] at hlast
    have hnew : ∀ d ∈ (burst lb.cell ((j : Time) + 1) (n + 1) (lb.cell.fresh (j + 1))).1, d.allowed = true :=
      burst_allowed.2 (Or.inr (by rw [hn]; simp))
    have hroom : ((n + 1 : Nat) : Int) + ⌊((j + 1 : Nat) * lb.kept : ℚ)⌋ ≤ lb.capacity := by
      rcases burst_allowed.1 (hlast.2 hnew) with hzero | hroom
      · cases hzero
      · exact hroom
    constructor
    · rw [batches, after_append, batch, after_burst, hafter, Option.getD_some, burst_drained hdrained,
        burst_queue hroom, hcap]
      simp
    · have hfloor : ⌊((j + 1 : Nat) * lb.kept : ℚ)⌋ < 1 := by omega
      simpa using Int.floor_lt.1 hfloor

theorem instant_of_unnoticed (h : Unnoticed (decisions lb.cell purgeStale)) : lb.Instant := by
  obtain ⟨n, hn⟩ : ∃ n : Nat, lb.capacity = (n + 1 : Nat) := ⟨lb.capacity.toNat - 1, by have := lb.capacity_pos; omega⟩
  by_contra hinst
  have hkept : 0 < lb.kept := by
    have : (lb.leakRate : ℚ) < lb.capacity * 1000000000 := by exact_mod_cast not_le.1 hinst
    simp only [kept]
    linarith
  obtain ⟨j, hj⟩ := exists_nat_gt (1 / lb.kept)
  have hgrown : 1 < j * lb.kept := by rwa [div_lt_iff₀ hkept] at hj
  linarith [(after_batches h hkept hn j).2]

end LeakyBucket

/-! ## All limiters -/

/-- A purge takes nothing that counts: the limiter is a window, or a bucket that a nanosecond restores. -/
def RateLimiter.Restored : RateLimiter → Prop
  | .tokenBucket tb => tb.Instant
  | .leakyBucket lb => lb.Instant
  | .fixedWindow _ | .slidingWindow _ => True

theorem RateLimiter.unnoticed_iff (l : RateLimiter) : Unnoticed l.decisions ↔ l.Restored := by
  cases l with
  | tokenBucket tb => exact ⟨TokenBucket.instant_of_unnoticed, TokenBucket.Instant.unnoticed⟩
  | fixedWindow fw => exact ⟨fun _ => trivial, fun _ => fw.unnoticed⟩
  | slidingWindow sw => exact ⟨fun _ => trivial, fun _ => sw.unnoticed⟩
  | leakyBucket lb => exact ⟨LeakyBucket.instant_of_unnoticed, LeakyBucket.Instant.unnoticed⟩

/-- **Purging goes unnoticed** for the limiters of a configuration iff they are windows, or recover within a
nanosecond. -/
theorem purge_unnoticed_iff {algorithm : Text} {cfg : RateLimitConfig} {l : RateLimiter} {limit : Int}
    (_ : newRateLimiter algorithm cfg = .ok (l, limit)) : Unnoticed l.decisions ↔ l.Restored :=
  l.unnoticed_iff

/-- Ten requests a second, two at once. -/
def tenPerSecond (algorithm : Text) : RateLimitConfig := ⟨algorithm, 10, 2, 10, 1000000000⟩

theorem purge_unnoticed_iff_window :
    ∃ l limit, newRateLimiter "fixed_window".toList (tenPerSecond "fixed_window".toList) = .ok (l, limit) ∧
      (Unnoticed l.decisions ↔ l.Restored) ∧ l.Restored :=
  ⟨.fixedWindow (newFixedWindow 10 1000000000), 10, rfl,
    @purge_unnoticed_iff "fixed_window".toList (tenPerSecond "fixed_window".toList) _ 10 rfl, trivial⟩

/-- Two requests, and two more a millisecond later: with a purge between them all four are allowed. -/
def Forgets (algorithm : Text) : Prop :=
  ∃ l limit, newRateLimiter algorithm (tenPerSecond algorithm) = .ok (l, limit) ∧
    l.decisions (batch 2 0 ++ .sweep 500000 :: batch 2 1000000) = [true, true, true, true] ∧
    l.decisions (batch 2 0 ++ batch 2 1000000) ≠ [true, true, true, true]

/-- **A purge is noticed** by the users of both buckets. -/
theorem purge_noticed : Forgets "token_bucket".toList ∧ Forgets "leaky_bucket".toList := by
  constructor
  · exact ⟨.tokenBucket (newTokenBucket 10 2), 2, rfl, by decide +kernel, by decide +kernel⟩
  · exact ⟨.leakyBucket (newLeakyBucket 2 10), 2, rfl, by decide +kernel, by decide +kernel⟩

end RateLimit
