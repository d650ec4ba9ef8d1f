import ApiCerberus.RateLimit.Purge

/-!
# The level of the leaky bucket

`Allow` compares the whole part of the queue with the capacity and adds one to the queue itself
(`leaky_bucket.go:54-64`). What draining has left beside the whole part comes on top. The queue never reaches `capacity
+ 1`, and it stays within `capacity`, whatever calls are made, exactly if draining leaves no fractions: the rate is a
whole number per nanosecond, or it empties the bucket in a nanosecond (`leakyBucket_level_iff`).
-/

namespace RateLimit

open Keyed

namespace LeakyBucket

variable {lb : LeakyBucket} {state : LeakyBucketState} {t : Time}

/-- The queue that is stored after the calls. -/
def level (lb : LeakyBucket) (ts : List Time) : ℚ := (serve lb.cell none ts).2.elim 0 LeakyBucketState.queue

/-- Draining takes away, and not more than there is. -/
theorem drainLocked_bounds (h : 0 ≤ state.queue) (t : Time) :
    0 ≤ (lb.drainLocked state t).queue ∧ (lb.drainLocked state t).queue ≤ state.queue := by
  unfold drainLocked
  split
  · exact ⟨h, le_refl _⟩
  · rename_i hlater
    have hrate : (0 : ℚ) ≤ lb.leakRate := by exact_mod_cast lb.leakRate_pos.le
    have hgone : 0 ≤ seconds (t - state.updatedAt) * lb.leakRate := mul_nonneg (le_of_not_ge hlater) hrate
    exact ⟨le_max_right _ _, max_le (by linarith) h⟩

theorem allow_bounds (h : 0 ≤ state.queue) (hlt : state.queue < lb.capacity + 1) (t : Time) :
    0 ≤ (lb.allow t state).2.queue ∧ (lb.allow t state).2.queue < lb.capacity + 1 := by
  obtain ⟨hnonneg, hle⟩ := lb.drainLocked_bounds h t
  unfold allow
  dsimp only
  split
  · exact ⟨hnonneg, hle.trans_lt hlt⟩
  · rename_i hroom
    have hfloor : ⌊(lb.drainLocked state t).queue⌋ < lb.capacity := by omega
    have hbelow : (lb.drainLocked state t).queue < lb.capacity := Int.floor_lt.1 hfloor
    exact ⟨by dsimp only; linarith, by dsimp only; linarith⟩

/-- The queue is less than one above the capacity. -/
theorem level_lt {ts : List Time} (hts : ts.Pairwise (· ≤ ·)) : lb.level ts < lb.capacity + 1 := by
  have hcap : (0 : ℚ) < lb.capacity := by exact_mod_cast lb.capacity_pos
  refine (serve_invariant (c := lb.cell) (P := fun x _ => 0 ≤ x.elim 0 LeakyBucketState.queue ∧
    x.elim 0 LeakyBucketState.queue < lb.capacity + 1) ⟨le_refl _, ?_⟩ ?_ hts).2
  · show (0 : ℚ) < lb.capacity + 1
    linarith
  · rintro t x l ⟨hnonneg, hlt⟩ -
    cases x with
    | none => exact allow_bounds (le_refl _) (show (0 : ℚ) < lb.capacity + 1 by linarith) t
    | some state => exact allow_bounds hnonneg hlt t

/-! ## Fractions -/

/-- Whole numbers per nanosecond drain whole numbers. -/
theorem Whole.drained (hdvd : (1000000000 : Int) ∣ lb.leakRate)
    (h : lb.Whole state) : lb.Whole (lb.drainLocked state t) := by
  obtain ⟨n, hn, hle⟩ := h
  obtain ⟨k, hk⟩ := hdvd
  have hrate : 0 < k := by
    have := lb.leakRate_pos
    omega
  by_cases hlast : state.updatedAt < t
  · have hgone : seconds (t - state.updatedAt) * lb.leakRate = ((t - state.updatedAt) * k : Int) := by
      rw [hk, seconds]
      push_cast
      ring
    have hsec := seconds_pos hlast
    have hdrained : lb.drainLocked state t = ⟨max (n - ((t - state.updatedAt) * k : Int)) 0, t⟩ := by
      rw [drainLocked, if_neg (by linarith), hgone, hn]
    have hpos : 0 < (t - state.updatedAt) * k := Int.mul_pos (Int.sub_pos_of_lt hlast) hrate
    refine ⟨max (n - (t - state.updatedAt) * k) 0, ?_, max_le ((sub_le_self n hpos.le).trans hle) lb.capacity_pos.le⟩
    rw [hdrained]
    push_cast
    rfl
  · rw [drainLocked_of_le (not_lt.1 hlast)]
    exact ⟨n, hn, hle⟩

/-- Without fractions the queue stays within the capacity. -/
theorem level_le (h : (1000000000 : Int) ∣ lb.leakRate ∨ lb.Instant) {ts : List Time} (hts : ts.Pairwise (· ≤ ·)) :
    lb.level ts ≤ lb.capacity := by
  have hwhole : lb.Whole ((serve lb.cell none ts).2.getD ⟨0, 0⟩) := by
    refine serve_invariant (c := lb.cell) (P := fun x _ => lb.Whole (x.getD ⟨0, 0⟩)) ⟨0, rfl, lb.capacity_pos.le⟩ ?_ hts
    intro t x l hx _
    have hfresh : lb.Whole (lb.cell.fresh t) := ⟨0, rfl, lb.capacity_pos.le⟩
    have hstate : lb.Whole (x.getD (lb.cell.fresh t)) := by
      cases x with
      | none => exact hfresh
      | some state => exact hx
    rcases h with hdvd | hinstant
    · exact Whole.enter (hstate.drained hdvd)
    · exact hstate.allow hinstant
  obtain ⟨n, hn, hle⟩ := hwhole
  have hlevel : lb.level ts = n := by
    unfold level
    cases hserve : (serve lb.cell none ts).2 with
    | none =>
      rw [hserve] at hn
      exact hn
    | some state =>
      rw [hserve] at hn
      exact hn
  rw [hlevel]
  exact_mod_cast hle

/-- A full bucket, and a nanosecond later as many calls as are let in. -/
def overfilled (lb : LeakyBucket) : List Time :=
  List.replicate lb.capacity.toNat 0 ++ List.replicate (lb.capacity - ⌊lb.kept⌋).toNat 1

theorem overfilled_sorted (lb : LeakyBucket) : lb.overfilled.Pairwise (· ≤ ·) := by
  refine List.pairwise_append.2 ⟨List.pairwise_replicate.2 (.inr (Int.le_refl _)),
    List.pairwise_replicate.2 (.inr (Int.le_refl _)), ?_⟩
  rintro t ht t' ht'
  rw [List.eq_of_mem_replicate ht, List.eq_of_mem_replicate ht']
  decide

/-- The fraction that is left after a nanosecond stays on top. -/
theorem level_overfilled (h : ¬ lb.Instant) : lb.level lb.overfilled = lb.capacity + Int.fract lb.kept := by
  have hkept : 0 < lb.kept := by
    have : (lb.leakRate : ℚ) < lb.capacity * 1000000000 := by exact_mod_cast not_le.1 h
    simp only [kept]
    linarith
  have hfloor : ⌊lb.kept⌋ < lb.capacity := by
    refine Int.floor_lt.2 ?_
    have : (0 : ℚ) < lb.leakRate := by exact_mod_cast lb.leakRate_pos
    simp only [kept]
    linarith
  obtain ⟨n, hn⟩ : ∃ n : Nat, lb.capacity = (n + 1 : Nat) := ⟨lb.capacity.toNat - 1, by have := lb.capacity_pos; omega⟩
  obtain ⟨m, hm⟩ : ∃ m : Nat, lb.capacity - ⌊lb.kept⌋ = (m + 1 : Nat) := ⟨(lb.capacity - ⌊lb.kept⌋).toNat - 1, by omega⟩
  have hfull : (serve lb.cell none (List.replicate (n + 1) 0)).2 = some ⟨lb.capacity, 0⟩ := by
    have hfirst := @burst_queue lb 0 (n + 1) 0 (by rw [hn]; simp)
    rw [serve_burst, Option.getD_none]
    simp only [cell] at hfirst ⊢
    rw [hfirst, hn]
    simp
  have hdrained : lb.drainLocked ⟨lb.capacity, 0⟩ 1 = ⟨lb.kept, 1⟩ := by
    have := drainLocked_full hkept 0
    simpa using this
  have hlast : (serve lb.cell none lb.overfilled).2 = some ⟨lb.kept + (m + 1 : Nat), 1⟩ := by
    rw [overfilled, hm, hn, Int.toNat_natCast, Int.toNat_natCast, serve_append]
    dsimp only
    rw [hfull, serve_burst, Option.getD_some, burst_drained hdrained, burst_queue (by omega)]
  rw [level, hlast, ← Int.self_sub_floor]
  show lb.kept + ((m + 1 : Nat) : ℚ) = _
  have : ((m + 1 : Nat) : ℚ) = lb.capacity - ⌊lb.kept⌋ := by exact_mod_cast hm.symm
  rw [this]
  ring

theorem dvd_of_fract_eq_zero (h : Int.fract lb.kept = 0) : (1000000000 : Int) ∣ lb.leakRate := by
  obtain ⟨z, hz⟩ := Int.fract_eq_zero_iff.1 h
  refine ⟨lb.capacity - z, ?_⟩
  have hrate : (lb.leakRate : ℚ) = 1000000000 * (lb.capacity - z) := by
    rw [kept] at hz
    linarith
  exact_mod_cast hrate

end LeakyBucket

/-- **The level of the leaky bucket** is less than one above the capacity, and it stays within the capacity exactly if
draining leaves no fractions. -/
theorem leakyBucket_level_iff (lb : LeakyBucket) :
    (∀ ts : List Time, ts.Pairwise (· ≤ ·) → lb.level ts < lb.capacity + 1) ∧
      ((∀ ts : List Time, ts.Pairwise (· ≤ ·) → lb.level ts ≤ lb.capacity) ↔
        (1000000000 : Int) ∣ lb.leakRate ∨ lb.capacity * 1000000000 ≤ lb.leakRate) := by
  refine ⟨fun ts hts => lb.level_lt hts, fun hall => ?_, fun h ts hts => LeakyBucket.level_le h hts⟩
  by_contra hneither
  obtain ⟨hdvd, hinstant⟩ := not_or.1 hneither
  have hle := hall lb.overfilled lb.overfilled_sorted
  rw [LeakyBucket.level_overfilled hinstant] at hle
  have hzero : Int.fract lb.kept = 0 := le_antisymm (by linarith) (Int.fract_nonneg _)
  exact hdvd (LeakyBucket.dvd_of_fract_eq_zero hzero)

/-- Room for one, one a second: half a second after the first request there is one and a half in the bucket. -/
theorem leakyBucket_overfills : [(0 : Time), 500000000].Pairwise (· ≤ ·) ∧
    ((newLeakyBucket 1 1).capacity : ℚ) < (newLeakyBucket 1 1).level [0, 500000000] := by
  decide +kernel

end RateLimit
