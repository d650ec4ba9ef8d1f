import ApiCerberus.RateLimit.Limiters
import Mathlib.Tactic.Ring

/-!
# Limits under concurrency

A call reads the clock before it takes the lock of its key, so the times seen under a lock may go back. The token bucket
remembers the time of whoever came last. A call that is late takes the time back, and the next one gets the tokens of
the same seconds again (`tokens_credited_twice`). The fixed window starts its counter anew whenever the window of a call
is not the stored one, so two windows can take turns (`window_counted_twice`). Both bounds hold as long as no call finds
a later time, or a later window, than its own.
-/

namespace RateLimit

open Transition Keyed

/-- The number of allowed calls whose times satisfy `p`. -/
def allowedWhen (p : Time → Bool) (log : List (Time × Decision)) : Nat := log.countP fun e => e.2.allowed && p e.1

@[simp] theorem allowedWhen_nil (p : Time → Bool) : allowedWhen p [] = 0 := rfl

@[simp] theorem allowedWhen_snoc (p : Time → Bool) (log : List (Time × Decision)) (t : Time) (d : Decision) :
    allowedWhen p (log ++ [(t, d)]) = allowedWhen p log + if d.allowed && p t then 1 else 0 := by
  simp [allowedWhen, List.countP_append, List.countP_cons]

theorem allowedWhen_mono {p q : Time → Bool} (h : ∀ t, p t = true → q t = true) (log : List (Time × Decision)) :
    allowedWhen p log ≤ allowedWhen q log := by
  refine List.countP_mono_left fun e _ he => ?_
  simp only [Bool.and_eq_true] at he ⊢
  exact ⟨he.1, h _ he.2⟩

theorem allowedWhen_eq_zero {p : Time → Bool} {log : List (Time × Decision)} (h : ∀ e ∈ log, p e.1 = false) :
    allowedWhen p log = 0 := by
  simp only [allowedWhen, List.countP_eq_zero, Bool.and_eq_true, not_and]
  intro e he _
  simp [h e he]

/-! ## Token bucket -/

namespace TokenBucket

variable {tb : TokenBucket} {state : TokenBucketState} {now : Time} {log : List (Time × Decision)}

theorem seconds_sub (t t' : Time) : seconds (t - t') = seconds t - seconds t' := by
  simp only [seconds, Int.cast_sub]
  ring

theorem seconds_le {t t' : Time} : seconds t ≤ seconds t' ↔ t ≤ t' := by
  simp only [seconds]
  constructor
  · intro h
    have : (t : ℚ) ≤ t' := by linarith
    exact_mod_cast this
  · intro h
    have : (t : ℚ) ≤ t' := by exact_mod_cast h
    linarith

/-- Nothing is refilled, or the bucket has not been used, or its last call has not read a later time. -/
def InOrder (tb : TokenBucket) (now : Time) (state : TokenBucketState) : Prop :=
  tb.rate ≤ 0 ∨ state.tokens = tb.capacity ∨ state.last ≤ now

theorem one_le_capacity (tb : TokenBucket) : (1 : ℚ) ≤ tb.capacity := by
  have := tb.capacity_pos
  exact_mod_cast this

theorem refill_nonneg (now : Time) (h : 0 ≤ state.tokens) : 0 ≤ (tb.refill state now).tokens := by
  have hcap := tb.one_le_capacity
  unfold refill
  split
  · exact h
  · rename_i hrate
    split
    · exact h
    · rename_i hsec
      have hprod : 0 ≤ seconds (now - state.last) * (tb.rate : ℚ) :=
        mul_nonneg (le_of_not_ge hsec) (by exact_mod_cast tb.rate_nonneg)
      exact le_min (by linarith) (by linarith)

theorem refill_le_capacity (now : Time) (h : state.tokens ≤ tb.capacity) :
    (tb.refill state now).tokens ≤ tb.capacity := by
  unfold refill
  split
  · exact h
  · split
    · exact h
    · exact min_le_right _ _

/-- No more than the seconds since the last call bring. -/
theorem refill_le (h : state.last ≤ now) :
    (tb.refill state now).tokens ≤ state.tokens + (seconds now - seconds state.last) * tb.rate := by
  have hprod : 0 ≤ (seconds now - seconds state.last) * (tb.rate : ℚ) :=
    mul_nonneg (by linarith [seconds_le.2 h]) (by exact_mod_cast tb.rate_nonneg)
  unfold refill
  split
  · linarith
  · split
    · linarith
    · rw [seconds_sub]
      exact min_le_left _ _

/-- A call takes a token exactly if it is allowed. -/
theorem allow_tokens (now : Time) (h : 0 ≤ state.tokens) :
    (tb.allow now state).2.tokens + (if (tb.allow now state).1.allowed then 1 else 0) =
      (tb.refill state now).tokens := by
  have hr := tb.refill_nonneg now h
  by_cases h1 : 1 ≤ (tb.refill state now).tokens
  · simp [allow, h1]
  · simp [allow, h1, hr]

theorem allow_tokens_nonneg : 0 ≤ (tb.allow now state).2.tokens := le_max_right _ _

theorem allow_tokens_lt (now : Time) (h : state.tokens ≤ tb.capacity) :
    (tb.allow now state).2.tokens < tb.capacity := by
  have hcap := tb.one_le_capacity
  have hr := tb.refill_le_capacity now h
  by_cases h1 : 1 ≤ (tb.refill state now).tokens
  · simp only [allow, h1, if_true]
    exact max_lt (by linarith) (by linarith)
  · simp only [allow, h1, if_false]
    exact max_lt (by linarith) (by linarith)

/-- Every allowed call has taken a token that was there or was brought since. -/
structure Accounted (tb : TokenBucket) (state : TokenBucketState) (log : List (Time × Decision)) : Prop where
  nonneg : 0 ≤ state.tokens
  le : state.tokens ≤ tb.capacity
  unused : state.tokens = tb.capacity → log = []
  /-- Without refill, the tokens are those of the start. -/
  total : tb.rate ≤ 0 → allowedWhen (fun _ => true) log + state.tokens ≤ tb.capacity
  last : 0 < tb.rate → ∀ e ∈ log, e.1 ≤ state.last
  since : 0 < tb.rate → ∀ a : ℚ, a ≤ seconds state.last →
    allowedWhen (fun t => a ≤ seconds t) log + state.tokens ≤ tb.capacity + tb.rate * (seconds state.last - a)
  within : ∀ a T : ℚ, 0 ≤ T →
    (allowedWhen (fun t => a ≤ seconds t ∧ seconds t ≤ a + T) log : ℚ) ≤ tb.capacity + tb.rate * T

theorem accounted_fresh (tb : TokenBucket) (now : Time) : tb.Accounted (tb.cell.fresh now) [] := by
  have hcap := tb.one_le_capacity
  have hrate : (0 : ℚ) ≤ tb.rate := by exact_mod_cast tb.rate_nonneg
  refine ⟨by simp only [cell]; linarith, le_refl _, fun _ => rfl, fun _ => by simp [cell],
    fun _ e he => (List.not_mem_nil he).elim, ?_, ?_⟩
  · intro _ a ha
    have := mul_nonneg hrate (sub_nonneg.2 ha)
    simp only [allowedWhen_nil, cell] at this ⊢
    push_cast
    linarith
  · intro a T hT
    have := mul_nonneg hrate hT
    simp only [allowedWhen_nil]
    push_cast
    linarith

/-- The times of the log lie before `a` if the last one does. -/
theorem Accounted.before (h : tb.Accounted state log) (hrate : 0 < tb.rate) {a : ℚ} (ha : seconds state.last < a) :
    allowedWhen (fun t => a ≤ seconds t) log = 0 := by
  refine allowedWhen_eq_zero fun e he => ?_
  have := seconds_le.2 (h.last hrate e he)
  simp only [decide_eq_false_iff_not, not_le]
  linarith

/-- What has been taken since `a`, with what is there after a refill at `now`. -/
theorem Accounted.refilled (h : tb.Accounted state log) (hrate : 0 < tb.rate) (hok : tb.InOrder now state) {a : ℚ}
    (ha : a ≤ seconds now) : allowedWhen (fun t => a ≤ seconds t) log + (tb.refill state now).tokens ≤
      tb.capacity + tb.rate * (seconds now - a) := by
  have hrate' : (0 : ℚ) ≤ tb.rate := by exact_mod_cast tb.rate_nonneg
  have hfull := tb.refill_le_capacity now h.le
  have hpos := mul_nonneg hrate' (sub_nonneg.2 ha)
  rcases hok with hzero | hfresh | hlast
  · omega
  · simp only [h.unused hfresh, allowedWhen_nil, Nat.cast_zero]
    linarith
  · by_cases hal : a ≤ seconds state.last
    · have hsince := h.since hrate a hal
      have hrefill := tb.refill_le hlast
      linarith
    · rw [h.before hrate (not_le.1 hal)]
      push_cast
      linarith

/-- What is allowed is taken from the tokens. -/
theorem accounted_enter (h : tb.Accounted state log) (hok : tb.InOrder now state) :
    tb.Accounted (tb.cell.enter now state).2 (log ++ [(now, (tb.cell.enter now state).1)]) := by
  have hrate' : (0 : ℚ) ≤ tb.rate := by exact_mod_cast tb.rate_nonneg
  have htake := tb.allow_tokens now h.nonneg
  have hlt := tb.allow_tokens_lt now h.le
  have hlast : (tb.allow now state).2.last = now := rfl
  have hmem : 0 < tb.rate → ∀ e ∈ log, e.1 ≤ now := by
    intro hrate e he
    rcases hok with hzero | hfresh | hle
    · omega
    · rw [h.unused hfresh] at he
      cases he
    · exact (h.last hrate e he).trans hle
  have hsince : 0 < tb.rate → ∀ a : ℚ, a ≤ seconds now →
      allowedWhen (fun t => a ≤ seconds t) (log ++ [(now, (tb.allow now state).1)]) + (tb.allow now state).2.tokens ≤
        tb.capacity + tb.rate * (seconds now - a) := by
    intro hrate a ha
    have hrefilled := h.refilled hrate hok ha
    simp only [allowedWhen_snoc, ha, decide_true, Bool.and_true, Nat.cast_add, Nat.cast_ite,
      Nat.cast_one, Nat.cast_zero]
    linarith
  have htotal : tb.rate ≤ 0 → allowedWhen (fun _ => true) (log ++ [(now, (tb.allow now state).1)]) +
      (tb.allow now state).2.tokens ≤ tb.capacity := by
    intro hzero
    have hsame : tb.refill state now = state := by simp [refill, hzero]
    have := h.total hzero
    rw [hsame] at htake
    simp only [allowedWhen_snoc, Bool.and_true, Nat.cast_add, Nat.cast_ite, Nat.cast_one, Nat.cast_zero]
    linarith
  refine ⟨allow_tokens_nonneg, le_of_lt hlt, fun heq => absurd heq (ne_of_lt hlt), htotal, ?_, hsince, ?_⟩
  · intro hrate e he
    rcases List.mem_append.1 he with he | he
    · exact hmem hrate e he
    · rw [List.mem_singleton.1 he]
      exact le_refl now
  · intro a T hT
    show (allowedWhen _ (log ++ [(now, (tb.allow now state).1)]) : ℚ) ≤ _
    by_cases hin : a ≤ seconds now ∧ seconds now ≤ a + T
    · by_cases hrate : 0 < tb.rate
      · -- all calls of the interval are calls since `a`
        have hle := Nat.cast_le (α := ℚ).2 (allowedWhen_mono (p := fun t => a ≤ seconds t ∧ seconds t ≤ a + T)
          (q := fun t => a ≤ seconds t) (fun t ht => by simp only [decide_eq_true_eq] at ht ⊢; exact ht.1)
          (log ++ [(now, (tb.allow now state).1)]))
        have hs := hsince hrate a hin.1
        have hn : 0 ≤ (tb.allow now state).2.tokens := allow_tokens_nonneg
        have hlen : (tb.rate : ℚ) * (seconds now - a) ≤ tb.rate * T :=
          mul_le_mul_of_nonneg_left (by linarith [hin.2]) hrate'
        linarith
      · have hle := Nat.cast_le (α := ℚ).2 (allowedWhen_mono (p := fun t => a ≤ seconds t ∧ seconds t ≤ a + T)
          (q := fun _ => true) (fun _ _ => rfl) (log ++ [(now, (tb.allow now state).1)]))
        have ht := htotal (not_lt.1 hrate)
        have hn : 0 ≤ (tb.allow now state).2.tokens := allow_tokens_nonneg
        have := mul_nonneg hrate' hT
        linarith
    · have hw := h.within a T hT
      simpa [hin] using hw

instance (tb : TokenBucket) (now : Time) (state : TokenBucketState) : Decidable (tb.InOrder now state) :=
  inferInstanceAs (Decidable (_ ∨ _))

end TokenBucket

/-- **Token bucket**: if no call finds a later time than its own in a used bucket, the allowed calls of any `T` seconds
are at most `capacity + rate * T`. -/
theorem tokenBucket_bound (tb : TokenBucket) {s : State Text Time TokenBucketState Decision}
    (h : Reach (system Text tb.cell) (Enters tb.InOrder) s) (key : Text) (a : ℚ) {T : ℚ} (hT : 0 ≤ T) :
    (allowedWhen (fun t => a ≤ seconds t ∧ seconds t ≤ a + T) (s.logOf (stateKey key)) : ℚ) ≤
      tb.capacity + tb.rate * T := by
  have hcell : Holds tb.Accounted s (stateKey key) :=
    reach_cell tb.accounted_fresh (fun _ _ _ => TokenBucket.accounted_enter) h (stateKey key)
  unfold Holds at hcell
  split at hcell
  · rw [hcell]
    exact (tb.accounted_fresh 0).within a T hT
  · exact hcell.within a T hT

/-- One request per second, no burst. -/
def onePerSecond : TokenBucket := newTokenBucket 1 1

/-- A call at 0 s and one at 10 s. -/
def twoCalls : List (Keyed.Action Text Time) := [.load ['k'] 0, .enter 0, .load ['k'] 10000000000, .enter 0]

/-- Two calls read the clock at 0 s. One of them comes to the lock after a call of 10 s, and then there is
another call of 10 s. -/
def lateCall : List (Keyed.Action Text Time) :=
  [.load ['k'] 0, .load ['k'] 0, .enter 0, .load ['k'] 10000000000, .enter 1, .enter 0,
    .load ['k'] 10000000000, .enter 0]

/-- The allowed calls of the first 10 seconds are within the bound. -/
theorem tokenBucket_bound_twoCalls : ∃ s, Reach (system Text onePerSecond.cell) (Enters onePerSecond.InOrder) s ∧
    allowedWhen (fun t => 0 ≤ seconds t ∧ seconds t ≤ 0 + 10) (s.logOf (stateKey ['k'])) = 2 ∧
    (allowedWhen (fun t => 0 ≤ seconds t ∧ seconds t ≤ 0 + 10) (s.logOf (stateKey ['k'])) : ℚ) ≤
      onePerSecond.capacity + onePerSecond.rate * 10 := by
  have hrun : ((system Text onePerSecond.cell).exec (Enters onePerSecond.InOrder) ⟨fun _ => none, [], []⟩ twoCalls).map
      (fun s => allowedWhen (fun t => 0 ≤ seconds t ∧ seconds t ≤ 0 + 10) (s.logOf (stateKey ['k']))) = some 2 := by
    decide +kernel
  obtain ⟨s, hs, hcount⟩ := Option.map_eq_some_iff.1 hrun
  have hreach : Reach (system Text onePerSecond.cell) (Enters onePerSecond.InOrder) s :=
    ⟨_, rfl, Run.of_exec twoCalls hs⟩
  exact ⟨s, hreach, hcount, tokenBucket_bound onePerSecond hreach ['k'] 0 (by norm_num)⟩

/-- **The same seconds are credited twice**: two calls with the time 10 s are allowed, by a bucket that holds one
token. -/
theorem tokens_credited_twice : ¬ ∀ s, Reach (system Text onePerSecond.cell) (fun _ _ => True) s →
    (allowedWhen (fun t => 10 ≤ seconds t ∧ seconds t ≤ 10 + 0) (s.logOf (stateKey ['k'])) : ℚ) ≤
      onePerSecond.capacity + onePerSecond.rate * 0 := by
  intro hall
  have hrun : ((system Text onePerSecond.cell).exec (fun _ _ => True) ⟨fun _ => none, [], []⟩ lateCall).map
      (fun s => allowedWhen (fun t => 10 ≤ seconds t ∧ seconds t ≤ 10 + 0) (s.logOf (stateKey ['k']))) = some 2 := by
    decide +kernel
  obtain ⟨s, hs, hcount⟩ := Option.map_eq_some_iff.1 hrun
  have hbound := hall s ⟨_, rfl, Run.of_exec lateCall hs⟩
  rw [hcount] at hbound
  revert hbound
  decide +kernel

/-! ## Fixed window -/

namespace FixedWindow

variable {fw : FixedWindow} {state : FixedWindowState} {now : Time} {log : List (Time × Decision)}

/-- The counter has not been used, or not for a later window. -/
def InOrder (fw : FixedWindow) (now : Time) (state : FixedWindowState) : Prop :=
  state.count = 0 ∨ state.windowID ≤ fw.windowID now

instance (fw : FixedWindow) (now : Time) (state : FixedWindowState) : Decidable (fw.InOrder now state) :=
  inferInstanceAs (Decidable (_ ∨ _))

/-- The stored window is the latest one, and its allowed calls have been counted. -/
structure Counted (fw : FixedWindow) (state : FixedWindowState) (log : List (Time × Decision)) : Prop where
  unused : state.count = 0 → log = []
  latest : ∀ e ∈ log, fw.windowID e.1 ≤ state.windowID
  current : allowedWhen (fun t => fw.windowID t = state.windowID) log ≤ state.count
  within : ∀ w, (allowedWhen (fun t => fw.windowID t = w) log : Int) ≤ fw.limit

theorem counted_fresh (fw : FixedWindow) (now : Time) : fw.Counted (fw.cell.fresh now) [] where
  unused _ := rfl
  latest _ he := (List.not_mem_nil he).elim
  current := le_refl 0
  within _ := by simpa using le_of_lt fw.limit_pos

/-- What has been allowed for the window of a call has been counted, after the reset if there is one. -/
theorem Counted.ensured (h : fw.Counted state log) (hok : fw.InOrder now state) :
    allowedWhen (fun t => fw.windowID t = fw.windowID now) log ≤ (ensureWindow state (fw.windowID now)).count := by
  unfold ensureWindow
  split
  · rename_i heq
    rw [← heq]
    exact h.current
  · rename_i hne
    rcases hok with hzero | hle
    · simp [h.unused hzero]
    · refine le_of_eq (allowedWhen_eq_zero fun e he => ?_)
      have := h.latest e he
      simp only [decide_eq_false_iff_not]
      omega

/-- What is allowed in a window is counted in it. -/
theorem counted_enter (h : fw.Counted state log) (hok : fw.InOrder now state) :
    fw.Counted (fw.cell.enter now state).2 (log ++ [(now, (fw.cell.enter now state).1)]) := by
  have hensured := h.ensured hok
  have hid : (fw.allow now state).2.windowID = fw.windowID now := by
    simp only [allow, ensureWindow]
    split
    · assumption
    · rfl
  have hcount : (fw.allow now state).2.count = (ensureWindow state (fw.windowID now)).count + 1 := rfl
  have hallowed : (fw.allow now state).1.allowed = true → ((fw.allow now state).2.count : Int) ≤ fw.limit := by
    rw [hcount]
    simp only [allow]
    split
    · intro _; assumption
    · intro hfalse; cases hfalse
  have hlatest : ∀ e ∈ log, fw.windowID e.1 ≤ fw.windowID now := by
    intro e he
    rcases hok with hzero | hle
    · rw [h.unused hzero] at he
      cases he
    · exact (h.latest e he).trans hle
  refine ⟨fun hzero => ?_, ?_, ?_, ?_⟩
  · rw [show (fw.cell.enter now state).2.count = _ from hcount] at hzero
    omega
  · intro e he
    rw [show (fw.cell.enter now state).2.windowID = _ from hid]
    rcases List.mem_append.1 he with he | he
    · exact hlatest e he
    · rw [List.mem_singleton.1 he]
  · show allowedWhen (fun t => fw.windowID t = (fw.allow now state).2.windowID)
      (log ++ [(now, (fw.allow now state).1)]) ≤ _
    rw [hid]
    simp only [allowedWhen_snoc, decide_true, Bool.and_true]
    show _ ≤ (fw.allow now state).2.count
    split <;> omega
  · intro w
    show (allowedWhen (fun t => fw.windowID t = w) (log ++ [(now, (fw.allow now state).1)]) : Int) ≤ _
    have hw := h.within w
    by_cases hnew : fw.windowID now = w
    · subst hnew
      simp only [allowedWhen_snoc, decide_true, Bool.and_true]
      by_cases ha : (fw.allow now state).1.allowed = true
      · have := hallowed ha
        simp only [ha, if_true]
        omega
      · simpa [ha] using hw
    · simpa [hnew] using hw

end FixedWindow

/-- **Fixed window**: if no call finds a later window than its own in a used counter, at most `limit` of the calls of
each window are allowed. -/
theorem fixedWindow_bound (fw : FixedWindow) {s : State Text Time FixedWindowState Decision}
    (h : Reach (system Text fw.cell) (Enters fw.InOrder) s) (key : Text) (w : Int) :
    (allowedWhen (fun t => fw.windowID t = w) (s.logOf (stateKey key)) : Int) ≤ fw.limit := by
  have hcell : Holds fw.Counted s (stateKey key) :=
    reach_cell fw.counted_fresh (fun _ _ _ => FixedWindow.counted_enter) h (stateKey key)
  unfold Holds at hcell
  split at hcell
  · rw [hcell]
    exact (fw.counted_fresh 0).within w
  · exact hcell.within w

/-- One request per window of one second. -/
def onePerWindow : FixedWindow := newFixedWindow 1 1000000000

/-- Two calls of second 1 and one of second 2. -/
def straddle : List (Keyed.Action Text Time) :=
  [.load ['k'] 1000000000, .load ['k'] 1999999999, .enter 0, .load ['k'] 2000000000, .enter 1, .enter 0]

/-- The same calls, in order. -/
def inTurn : List (Keyed.Action Text Time) :=
  [.load ['k'] 1000000000, .load ['k'] 1999999999, .enter 0, .enter 0, .load ['k'] 2000000000, .enter 0]

theorem fixedWindow_bound_inTurn : ∃ s, Reach (system Text onePerWindow.cell) (Enters onePerWindow.InOrder) s ∧
    allowedWhen (fun t => onePerWindow.windowID t = 1) (s.logOf (stateKey ['k'])) = 1 ∧
    (allowedWhen (fun t => onePerWindow.windowID t = 1) (s.logOf (stateKey ['k'])) : Int) ≤ onePerWindow.limit := by
  have hrun : ((system Text onePerWindow.cell).exec (Enters onePerWindow.InOrder) ⟨fun _ => none, [], []⟩ inTurn).map
      (fun s => allowedWhen (fun t => onePerWindow.windowID t = 1) (s.logOf (stateKey ['k']))) = some 1 := by
    decide +kernel
  obtain ⟨s, hs, hcount⟩ := Option.map_eq_some_iff.1 hrun
  have hreach : Reach (system Text onePerWindow.cell) (Enters onePerWindow.InOrder) s := ⟨_, rfl, Run.of_exec inTurn hs⟩
  exact ⟨s, hreach, hcount, fixedWindow_bound onePerWindow hreach ['k'] 1⟩

/-- **A window is counted twice**: a call of second 2 comes between two calls of second 1, and both of these are
allowed. -/
theorem window_counted_twice : ¬ ∀ s, Reach (system Text onePerWindow.cell) (fun _ _ => True) s →
    (allowedWhen (fun t => onePerWindow.windowID t = 1) (s.logOf (stateKey ['k'])) : Int) ≤ onePerWindow.limit := by
  intro hall
  have hrun : ((system Text onePerWindow.cell).exec (fun _ _ => True) ⟨fun _ => none, [], []⟩ straddle).map
      (fun s => allowedWhen (fun t => onePerWindow.windowID t = 1) (s.logOf (stateKey ['k']))) = some 2 := by
    decide +kernel
  obtain ⟨s, hs, hcount⟩ := Option.map_eq_some_iff.1 hrun
  have hbound := hall s ⟨_, rfl, Run.of_exec straddle hs⟩
  rw [hcount] at hbound
  revert hbound
  decide

end RateLimit
