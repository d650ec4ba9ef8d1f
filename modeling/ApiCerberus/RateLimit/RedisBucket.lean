import ApiCerberus.RateLimit.Purge

/-!
# The token bucket in Redis

`internal/ratelimit/redis.go:162-288`. `evaluateTokenBucket` is the script with its arguments, `redisCell` is `Allow`
without a fallback: a script that fails allows nothing. The script gets the seconds of the gateway's clock, truncated.
The gateways and Redis read one clock.

It does what the local bucket does at the truncated times: an expired key would have been refilled anyway
(`serve_whole`). A request just before a second and one at the second are a second apart for the script, so the calls of
an interval are bounded by the seconds that its ends are truncated to (`redisBucket_bound_iff`).
-/

namespace RateLimit

open Keyed

structure BucketHash where
  tokens : ℚ
  /-- Seconds. -/
  last : Int
  /-- Milliseconds. -/
  expireAt : Option Int

def unix (t : Time) : Int := t / 1000000000

def unixMilli (t : Time) : Int := t / 1000000

/-- What a command finds at a key. -/
def live (t : Time) (key : Option BucketHash) : Option BucketHash :=
  key.filter fun h => h.expireAt.all fun e => unixMilli t ≤ e

/-- The tokens after the refill; what is not stored is `capacity` and `now`. -/
def scriptTokens (tb : TokenBucket) (now : Int) (data : Option BucketHash) : ℚ :=
  let tokens := data.elim (tb.capacity : ℚ) BucketHash.tokens
  let last := data.elim now BucketHash.last
  min (tb.capacity : ℚ) (tokens + ((max 0 (now - last) : Int) : ℚ) * tb.rate)

/-- The seconds that `EXPIRE` is called with. -/
def expiry (tb : TokenBucket) : Int := ⌈(tb.capacity : ℚ) / tb.rate⌉ + 1

/-- The result, unless the script fails, and the key afterwards. Without a rate the time to expire is infinite: `EXPIRE`
refuses it after `HMSET` has written. -/
def evaluateTokenBucket (tb : TokenBucket) (t : Time) (key : Option BucketHash) : Option Decision × Option BucketHash :=
  let now := unix t
  let data := live t key
  let refilled := scriptTokens tb now data
  let tokens := if 1 ≤ refilled then refilled - 1 else refilled
  let resetAt := if 0 < 1 - tokens ∧ 0 < tb.rate then now + ⌈(1 - tokens) / tb.rate⌉ else now
  if tb.rate = 0 then (none, some ⟨tokens, now, data.bind BucketHash.expireAt⟩)
  else (some ⟨1 ≤ refilled, ⌊tokens⌋, resetAt * 1000000000⟩, some ⟨tokens, now, some (unixMilli t + expiry tb * 1000)⟩)

def redisCell (tb : TokenBucket) : Cell Time (Option BucketHash) Decision where
  fresh _ := none
  enter t key :=
    let r := evaluateTokenBucket tb t key
    (r.1.getD ⟨false, 0, t + 1000000000⟩, r.2)

/-! ## The local bucket at whole seconds -/

def wholeSecond (t : Time) : Time := unix t * 1000000000

theorem seconds_wholeSecond (t : Time) : seconds (wholeSecond t) = unix t := by
  rw [seconds, wholeSecond]
  push_cast
  ring

theorem unix_mono {t t' : Time} (h : t ≤ t') : unix t ≤ unix t' := Int.ediv_le_ediv (by decide) h

theorem wholeSecond_mono {t t' : Time} (h : t ≤ t') : wholeSecond t ≤ wholeSecond t' :=
  Int.mul_le_mul_of_nonneg_right (unix_mono h) (by decide)

section
variable {tb : TokenBucket} {t t' : Time} {h : BucketHash} {state : TokenBucketState}

/-- The hash that a call at `t` leaves, and the local state after one. -/
structure Linked (tb : TokenBucket) (t : Time) (h : BucketHash) (state : TokenBucketState) : Prop where
  tokens : h.tokens = state.tokens
  nonneg : 0 ≤ state.tokens
  le_capacity : state.tokens ≤ tb.capacity
  last : h.last = unix t
  last' : state.last = wholeSecond t
  expires : h.expireAt = some (unixMilli t + expiry tb * 1000)

theorem refill_wholeSecond (hrate : 0 < tb.rate) (hle : t ≤ t') (hcap : state.tokens ≤ tb.capacity)
    (hlast : state.last = wholeSecond t) :
    (tb.refill state (wholeSecond t')).tokens = min (tb.capacity : ℚ)
      (state.tokens + ((unix t' - unix t : Int) : ℚ) * tb.rate) := by
  have hsec : seconds (wholeSecond t' - state.last) = ((unix t' - unix t : Int) : ℚ) := by
    rw [hlast, TokenBucket.seconds_sub, seconds_wholeSecond, seconds_wholeSecond]
    push_cast
    rfl
  have hmono := unix_mono hle
  rw [TokenBucket.refill, if_neg (not_le.2 hrate), hsec]
  split
  · rename_i hzero
    have hzero' : unix t' - unix t ≤ 0 := by exact_mod_cast hzero
    have hsame : unix t' - unix t = 0 := by omega
    rw [hsame, Int.cast_zero, zero_mul, add_zero, min_eq_right hcap]
  · exact min_comm _ _

/-- The script refills as the bucket does at whole seconds. -/
theorem Linked.refilled (hlinked : Linked tb t h state) (hrate : 0 < tb.rate) (hle : t ≤ t') :
    scriptTokens tb (unix t') (live t' (some h)) = (tb.refill state (wholeSecond t')).tokens := by
  have hmono := unix_mono hle
  rw [refill_wholeSecond hrate hle hlinked.le_capacity hlinked.last']
  by_cases hlive : unixMilli t' ≤ unixMilli t + expiry tb * 1000
  · have hfound : live t' (some h) = some h := by
      rw [live, Option.filter_some, hlinked.expires]
      exact if_pos (decide_eq_true hlive)
    rw [hfound, scriptTokens]
    dsimp only [Option.elim_some]
    rw [hlinked.tokens, hlinked.last, max_eq_right (by omega)]
  · -- the time to expire is long enough to fill the bucket
    have hgone : live t' (some h) = none := by
      rw [live, Option.filter_some, hlinked.expires]
      exact if_neg fun hkept => hlive (of_decide_eq_true hkept)
    have helapsed : expiry tb ≤ unix t' - unix t := by
      simp only [unix, unixMilli, Time] at *
      omega
    have hrateQ : (0 : ℚ) < tb.rate := by exact_mod_cast hrate
    have hcapacity : (tb.capacity : ℚ) ≤ ((unix t' - unix t : Int) : ℚ) * tb.rate := by
      have hceil := Int.le_ceil ((tb.capacity : ℚ) / tb.rate)
      have hlong : (tb.capacity : ℚ) / tb.rate ≤ ((unix t' - unix t : Int) : ℚ) := by
        refine hceil.trans ?_
        rw [expiry] at helapsed
        exact_mod_cast (by omega : ⌈(tb.capacity : ℚ) / tb.rate⌉ ≤ unix t' - unix t)
      rwa [div_le_iff₀ hrateQ] at hlong
    have hnonneg := hlinked.nonneg
    rw [hgone, scriptTokens]
    dsimp only [Option.elim_none]
    rw [sub_self, max_self, Int.cast_zero, zero_mul, add_zero, min_self, min_eq_left (by linarith)]

/-- A call that finds the tokens of the local bucket decides as that does. -/
theorem enter_of_refilled {key : Option BucketHash} (hrate : 0 < tb.rate)
    (hrefilled : scriptTokens tb (unix t') (live t' key) = (tb.refill state (wholeSecond t')).tokens)
    (hnonneg : 0 ≤ state.tokens)
    (hcap : state.tokens ≤ tb.capacity) :
    ∃ h', ((redisCell tb).enter t' key).2 = some h' ∧ Linked tb t' h' (tb.allow (wholeSecond t') state).2 ∧
      ((redisCell tb).enter t' key).1.allowed = (tb.allow (wholeSecond t') state).1.allowed := by
  have hnonneg' := tb.refill_nonneg (wholeSecond t') hnonneg
  have hcap' := tb.allow_tokens_lt (wholeSecond t') hcap
  have hne : tb.rate ≠ 0 := hrate.ne'
  simp only [redisCell, evaluateTokenBucket, if_neg hne, hrefilled]
  refine ⟨_, rfl, ⟨?_, TokenBucket.allow_tokens_nonneg, hcap'.le, rfl, rfl, rfl⟩, rfl⟩
  show (if 1 ≤ (tb.refill state (wholeSecond t')).tokens then (tb.refill state (wholeSecond t')).tokens - 1
    else (tb.refill state (wholeSecond t')).tokens) = max _ 0
  split
  · rw [max_eq_left (by linarith)]
  · rw [max_eq_left hnonneg']

/-- The states of the two buckets after the same calls. -/
def Both (tb : TokenBucket) (ts : List Time) : Option (Option BucketHash) → Option TokenBucketState → Prop
  | some (some h), some state => ∃ t ∈ ts, Linked tb t h state
  | none, none => True
  | _, _ => False

variable {ts : List Time}

/-- **The script is the local bucket at whole seconds.** -/
theorem serve_whole (hrate : 0 < tb.rate) (hts : ts.Pairwise (· ≤ ·)) :
    Both tb ts (serve (redisCell tb) none ts).2 (serve tb.cell none (ts.map wholeSecond)).2 ∧
      ∀ q : Time → Bool, allowedWhen (fun t => q (wholeSecond t)) (serve (redisCell tb) none ts).1 =
        allowedWhen q (serve tb.cell none (ts.map wholeSecond)).1 := by
  induction ts using List.reverseRecOn with
  | nil => exact ⟨trivial, fun _ => rfl⟩
  | append_singleton ts t' ih =>
    obtain ⟨hinit, -, hlast⟩ := List.pairwise_append.1 hts
    obtain ⟨hboth, hsame⟩ := ih hinit
    rw [List.map_append, List.map_singleton, serve_snoc, serve_snoc]
    have hstep : ∃ h', ((redisCell tb).enter t' ((serve (redisCell tb) none ts).2.getD ((redisCell tb).fresh t'))).2 =
      some h' ∧
        Linked tb t' h' (tb.cell.enter (wholeSecond t')
          ((serve tb.cell none (ts.map wholeSecond)).2.getD (tb.cell.fresh (wholeSecond t')))).2 ∧
        ((redisCell tb).enter t' ((serve (redisCell tb) none ts).2.getD ((redisCell tb).fresh t'))).1.allowed =
          (tb.cell.enter (wholeSecond t') ((serve tb.cell none (ts.map wholeSecond)).2.getD
            (tb.cell.fresh (wholeSecond t')))).1.allowed := by
      revert hboth
      generalize (serve (redisCell tb) none ts).2 = x
      generalize (serve tb.cell none (ts.map wholeSecond)).2 = y
      intro hboth
      match x, y, hboth with
      | none, none, _ =>
        have hfull : (0 : ℚ) ≤ tb.capacity := by exact_mod_cast tb.capacity_pos.le
        refine enter_of_refilled hrate ?_ hfull (le_refl _)
        show scriptTokens tb (unix t') none = (tb.refill ⟨tb.capacity, wholeSecond t'⟩ (wholeSecond t')).tokens
        rw [TokenBucket.refill_now, scriptTokens]
        simp
      | some (some h), some state, ⟨t, ht, hlinked⟩ =>
        exact enter_of_refilled hrate
          (hlinked.refilled hrate (hlast t ht t' (List.mem_singleton_self _))) hlinked.nonneg hlinked.le_capacity
    obtain ⟨h', hkey, hlinked, hallowed⟩ := hstep
    refine ⟨?_, fun q => ?_⟩
    · rw [hkey]
      exact ⟨t', List.mem_append_right _ (List.mem_singleton_self _), hlinked⟩
    · rw [allowedWhen_snoc, allowedWhen_snoc, hsame, hallowed]

/-! ## Bounds -/

/-- The bound for the local bucket, for calls in their order. -/
theorem TokenBucket.within_serve (tb : TokenBucket) (hts : ts.Pairwise (· ≤ ·)) (a : ℚ) {T : ℚ} (hT : 0 ≤ T) :
    (allowedWhen (fun t => a ≤ seconds t ∧ seconds t ≤ a + T) (serve tb.cell none ts).1 : ℚ) ≤
      tb.capacity + tb.rate * T := by
  have hinv := serve_invariant (c := tb.cell) (P := fun x log => (x = none → log = []) ∧
    ∀ state, x = some state → tb.Accounted state log ∧ ∃ e ∈ log, e.1 = state.last) ⟨fun _ => rfl, nofun⟩
      (fun t x log hx hlog => by
      refine ⟨nofun, fun state hstate => ?_⟩
      cases hstate
      refine ⟨?_, _, List.mem_append_right _ (List.mem_singleton_self _), rfl⟩
      cases x with
      | none =>
        rw [hx.1 rfl]
        exact accounted_enter (tb.accounted_fresh t) (.inr (.inl rfl))
      | some state =>
        obtain ⟨hacc, e, he, heq⟩ := hx.2 state rfl
        exact accounted_enter hacc (.inr (.inr (heq ▸ hlog e he)))) hts
  cases hserve : (serve tb.cell none ts).2 with
  | none =>
    rw [hinv.1 hserve]
    exact (tb.accounted_fresh 0).within a T hT
  | some state => exact (hinv.2 state hserve).1.within a T hT

/-- Without a rate the script fails. -/
theorem allowedWhen_no_rate (hrate : tb.rate = 0) (p : Time → Bool)
    (ts : List Time) : allowedWhen p (serve (redisCell tb) none ts).1 = 0 := by
  have hdenied : ∀ (ts : List Time) x, ∀ e ∈ (serve (redisCell tb) x ts).1, e.2.allowed = false := by
    intro ts
    induction ts with
    | nil => exact fun x e he => nomatch he
    | cons t ts ih =>
      intro x e he
      rcases List.mem_cons.1 he with rfl | he
      · simp only [redisCell, evaluateTokenBucket, if_pos hrate, Option.getD_none]
      · exact ih _ e he
  refine List.countP_eq_zero.2 fun e he => ?_
  rw [hdenied ts none e he]
  nofun

theorem floor_le_unix {a : ℚ} (h : a ≤ seconds t) : ⌊a⌋ ≤ unix t := by
  rw [unix, Int.le_ediv_iff_mul_le (by decide)]
  have hfloor := (Int.floor_le a).trans h
  rw [seconds, le_div_iff₀ (by norm_num)] at hfloor
  exact_mod_cast hfloor

theorem unix_le_floor {b : ℚ} (h : seconds t ≤ b) : unix t ≤ ⌊b⌋ := by
  refine Int.le_floor.2 (le_trans ?_ h)
  rw [seconds, le_div_iff₀ (by norm_num)]
  exact_mod_cast Int.ediv_mul_le t (by decide : (1000000000 : Int) ≠ 0)

/-- The allowed calls whose truncated times are in an interval of `d` seconds. -/
theorem allowedWhen_unix_le (hts : ts.Pairwise (· ≤ ·)) (hrate : 0 < tb.rate) (u : Int) {d : Int} (hd : 0 ≤ d) :
    (allowedWhen (fun t => u ≤ unix t ∧ unix t ≤ u + d) (serve (redisCell tb) none ts).1 : ℚ) ≤
      tb.capacity + tb.rate * d := by
  have hwhole : (ts.map wholeSecond).Pairwise (· ≤ ·) := List.pairwise_map.2 (hts.imp wholeSecond_mono)
  have hlocal := tb.within_serve hwhole (u : ℚ) (T := d) (by exact_mod_cast hd)
  rw [← (serve_whole hrate hts).2] at hlocal
  have hsame : (fun t => decide ((u : ℚ) ≤ seconds (wholeSecond t) ∧ seconds (wholeSecond t) ≤ u + d)) =
      fun t => decide (u ≤ unix t ∧ unix t ≤ u + d) := by
    funext t
    rw [seconds_wholeSecond, decide_eq_decide]
    exact and_congr Int.cast_le (by exact_mod_cast Iff.rfl)
  rwa [hsame] at hlocal

/-- **What is always true**: the bound with the ends of the interval truncated to seconds. -/
theorem redis_within (tb : TokenBucket) (hts : ts.Pairwise (· ≤ ·)) (a : ℚ) {T : ℚ} (hT : 0 ≤ T) :
    (allowedWhen (fun t => a ≤ seconds t ∧ seconds t ≤ a + T) (serve (redisCell tb) none ts).1 : ℚ) ≤
      tb.capacity + tb.rate * ((⌊a + T⌋ - ⌊a⌋ : Int) : ℚ) := by
  have hmono : ⌊a⌋ ≤ ⌊a + T⌋ := Int.floor_mono (by linarith)
  rcases tb.rate_nonneg.eq_or_lt with hzero | hrate
  · rw [allowedWhen_no_rate hzero.symm, ← hzero]
    have : (0 : ℚ) < tb.capacity := by exact_mod_cast tb.capacity_pos
    simpa using this.le
  · refine le_trans ?_ (allowedWhen_unix_le hts hrate ⌊a⌋ (d := ⌊a + T⌋ - ⌊a⌋) (by omega))
    have hle := allowedWhen_mono (p := fun t => a ≤ seconds t ∧ seconds t ≤ a + T)
      (q := fun t => ⌊a⌋ ≤ unix t ∧ unix t ≤ ⌊a⌋ + (⌊a + T⌋ - ⌊a⌋)) (fun t ht => by
        simp only [decide_eq_true_eq] at ht ⊢
        have := floor_le_unix ht.1
        have := unix_le_floor ht.2
        omega) (serve (redisCell tb) none ts).1
    exact_mod_cast hle

/-! ## When the bound holds for every interval -/

theorem allowedWhen_le_add {p q r : Time → Bool} (h : ∀ t, r t = true → p t = true ∨ q t = true)
    (log : List (Time × Decision)) :
    allowedWhen r log ≤ allowedWhen p log + allowedWhen q log := by
  induction log with
  | nil => exact Nat.zero_le _
  | cons e log ih =>
    have hhead := h e.1
    simp only [allowedWhen, List.countP_cons] at ih ⊢
    by_cases hallowed : e.2.allowed = true
    · by_cases hr : r e.1 = true
      · rcases hhead hr with hp | hq
        · simp only [hallowed, hr, hp, Bool.and_self, if_true]
          omega
        · simp only [hallowed, hr, hq, Bool.and_self, if_true]
          omega
      · simp only [hallowed, Bool.not_eq_true _ ▸ hr, Bool.and_false, Bool.false_eq_true, if_false]
        omega
    · simp only [Bool.not_eq_true _ ▸ hallowed, Bool.false_and, Bool.false_eq_true, if_false]
      omega

/-- Every second has `capacity` calls at most. -/
theorem allowedWhen_seconds_le (hts : ts.Pairwise (· ≤ ·)) (hrate : 0 < tb.rate) (u : Int) (k : Nat) :
    (allowedWhen (fun t => u ≤ unix t ∧ unix t ≤ u + k) (serve (redisCell tb) none ts).1 : ℚ) ≤
      tb.capacity * (k + 1) := by
  induction k with
  | zero => simpa using allowedWhen_unix_le hts hrate u (d := 0) (le_refl _)
  | succ k ih =>
    have hone : (allowedWhen (fun t => u + (k + 1) ≤ unix t ∧ unix t ≤ u + (k + 1))
        (serve (redisCell tb) none ts).1 : ℚ) ≤ tb.capacity := by
      simpa only [Int.cast_zero, mul_zero, add_zero] using allowedWhen_unix_le hts hrate (u + (k + 1))
        (d := 0) (le_refl _)
    have hsplit := allowedWhen_le_add (p := fun t => u ≤ unix t ∧ unix t ≤ u + k)
      (q := fun t => u + (k + 1) ≤ unix t ∧ unix t ≤ u + (k + 1)) (r := fun t => u ≤ unix t ∧
        unix t ≤ u + (k + 1 : Nat)) (fun t ht => by
        simp only [decide_eq_true_eq] at ht ⊢
        omega) (serve (redisCell tb) none ts).1
    have hsplitQ : (allowedWhen (fun t => u ≤ unix t ∧ unix t ≤ u + (k + 1 : Nat))
      (serve (redisCell tb) none ts).1 : ℚ) ≤
        allowedWhen (fun t => u ≤ unix t ∧ unix t ≤ u + k) (serve (redisCell tb) none ts).1 +
          allowedWhen (fun t => u + (k + 1) ≤ unix t ∧ unix t ≤ u + (k + 1)) (serve (redisCell tb) none ts).1 := by
      exact_mod_cast hsplit
    have hnext : (tb.capacity : ℚ) * (((k + 1 : Nat) : ℚ) + 1) = tb.capacity * (k + 1) + tb.capacity := by
      push_cast
      ring
    rw [hnext]
    linarith

/-- The bound, for every interval and whatever calls are made. -/
def WithinRate (tb : TokenBucket) : Prop :=
  ∀ ts : List Time, ts.Pairwise (· ≤ ·) → ∀ a T : ℚ, 0 ≤ T →
    (allowedWhen (fun t => a ≤ seconds t ∧ seconds t ≤ a + T) (serve (redisCell tb) none ts).1 : ℚ) ≤
      tb.capacity + tb.rate * T

/-- A rate that fills the bucket in a nanosecond allows a full bucket in every second that the interval touches. -/
theorem withinRate_of_instant (h : tb.Instant) : WithinRate tb := by
  intro ts hts a T hT
  have hcap : (0 : ℚ) < tb.capacity := by exact_mod_cast tb.capacity_pos
  have hinstant : (tb.capacity : ℚ) * 1000000000 ≤ tb.rate := by exact_mod_cast h
  have hrate : 0 < tb.rate := by
    have := tb.capacity_pos
    have : tb.capacity * 1000000000 ≤ tb.rate := h
    omega
  -- the first and the last nanosecond of the interval
  have hin : ∀ t : Time, a ≤ seconds t ∧ seconds t ≤ a + T ↔ ⌈a * 1000000000⌉ ≤ t ∧ t ≤ ⌊(a + T) * 1000000000⌋ := by
    intro t
    rw [seconds, le_div_iff₀ (by norm_num), div_le_iff₀ (by norm_num)]
    exact and_congr Int.ceil_le.symm Int.le_floor.symm
  generalize hfirst : ⌈a * 1000000000⌉ = first at hin
  generalize hlast : ⌊(a + T) * 1000000000⌋ = last at hin
  simp only [hin]
  have hlen : ((last - first : Int) : ℚ) ≤ T * 1000000000 := by
    have h1 := Int.floor_le ((a + T) * 1000000000)
    have h2 := Int.le_ceil (a * 1000000000)
    rw [hlast] at h1
    rw [hfirst] at h2
    push_cast
    linarith
  by_cases hempty : last < first
  · have hnone : allowedWhen (fun t => first ≤ t ∧ t ≤ last) (serve (redisCell tb) none ts).1 = 0 := by
      refine List.countP_eq_zero.2 fun e _ he => ?_
      have := of_decide_eq_true ((Bool.and_eq_true _ _).mp he).2
      exact absurd (this.1.trans this.2) (not_le.2 hempty)
    rw [hnone]
    have : (0 : ℚ) ≤ tb.rate * T := mul_nonneg (by exact_mod_cast tb.rate_nonneg) hT
    push_cast
    linarith
  · have hmono := unix_mono (not_lt.1 hempty)
    obtain ⟨k, hk⟩ : ∃ k : Nat, unix last = unix first + k := ⟨(unix last - unix first).toNat, by omega⟩
    have hseconds := allowedWhen_seconds_le hts hrate (unix first) k
    have hle := allowedWhen_mono (p := fun t => first ≤ t ∧ t ≤ last) (q := fun t => unix first ≤ unix t ∧
      unix t ≤ unix first + k)
      (fun t ht => by
        simp only [decide_eq_true_eq] at ht ⊢
        have := unix_mono ht.1
        have := unix_mono ht.2
        omega) (serve (redisCell tb) none ts).1
    have hleQ : (allowedWhen (fun t => first ≤ t ∧ t ≤ last) (serve (redisCell tb) none ts).1 : ℚ) ≤
        allowedWhen (fun t => unix first ≤ unix t ∧ unix t ≤ unix first + k) (serve (redisCell tb) none ts).1 := by
          exact_mod_cast hle
    have hspread : (k : Int) ≤ last - first := by
      simp only [unix] at hk
      omega
    have hspreadQ : (k : ℚ) ≤ T * 1000000000 := le_trans (by exact_mod_cast hspread) hlen
    have hprod : (tb.capacity : ℚ) * k ≤ tb.rate * T := by
      have h1 : (tb.capacity : ℚ) * k ≤ tb.capacity * (T * 1000000000) := mul_le_mul_of_nonneg_left hspreadQ hcap.le
      have h2 : (tb.capacity : ℚ) * 1000000000 * T ≤ tb.rate * T := mul_le_mul_of_nonneg_right hinstant hT
      linarith
    linarith

/-- All calls of a burst are allowed if there are tokens for them. -/
theorem allowedWhen_burst_tokens {x : Option TokenBucketState} {n : Nat} {p : Time → Bool} (hp : p t = true)
    (hnonneg : 0 ≤ (tb.refill (x.getD (tb.cell.fresh t)) t).tokens)
    (hn : (n : ℚ) ≤ (tb.refill (x.getD (tb.cell.fresh t)) t).tokens) :
    allowedWhen p (serve tb.cell x (List.replicate n t)).1 = n := by
  have hallowed := (TokenBucket.burst_allowed hnonneg).2 hn
  rw [← map_snd_serve_burst] at hallowed
  have hall : ∀ e ∈ (serve tb.cell x (List.replicate n t)).1, (e.2.allowed && p e.1) = true := by
    intro e he
    have htime : e.1 = t := by
      have hmem : e.1 ∈ (serve tb.cell x (List.replicate n t)).1.map Prod.fst := List.mem_map_of_mem he
      rw [map_fst_serve] at hmem
      exact List.eq_of_mem_replicate hmem
    rw [hallowed e.2 (List.mem_map_of_mem he), htime, hp]
    rfl
  have hlength : (serve tb.cell x (List.replicate n t)).1.length = n := by
    rw [← List.length_map (f := Prod.fst), map_fst_serve, List.length_replicate]
  rw [allowedWhen, List.countP_eq_length.2 hall, hlength]

/-- A full bucket in the last nanosecond of a second, and in the next nanosecond what that second brings. -/
def acrossSecond (n m : Nat) : List Time := List.replicate n 999999999 ++ List.replicate m 1000000000

theorem acrossSecond_sorted (n m : Nat) : (acrossSecond n m).Pairwise (· ≤ ·) := by
  refine List.pairwise_append.2 ⟨List.pairwise_replicate.2 (.inr (Int.le_refl _)),
    List.pairwise_replicate.2 (.inr (Int.le_refl _)), ?_⟩
  rintro t ht t' ht'
  rw [List.eq_of_mem_replicate ht, List.eq_of_mem_replicate ht']
  decide

theorem allowedWhen_acrossSecond (hrate : 0 < tb.rate) {n m : Nat} (hn : tb.capacity = (n + 1 : Nat))
    (hm : min tb.rate tb.capacity = m)
    (q : Time → Bool) (hq : q 0 = true) (hq' : q 1000000000 = true) :
    allowedWhen (fun t => q (wholeSecond t)) (serve (redisCell tb) none (acrossSecond (n + 1) m)).1 = n + 1 + m := by
  have hwhole : (acrossSecond (n + 1) m).map wholeSecond = List.replicate (n + 1) 0 ++ List.replicate m 1000000000 := by
    rw [acrossSecond, List.map_append, List.map_replicate, List.map_replicate]
    rfl
  have hcap : (tb.capacity : ℚ) = (n + 1 : Nat) := by rw [hn]; simp
  have hfresh : tb.refill ((none : Option TokenBucketState).getD (tb.cell.fresh 0)) 0 = ⟨tb.capacity, 0⟩ :=
    tb.refill_now _ 0
  have hempty : (serve tb.cell none (List.replicate (n + 1) 0)).2 = some ⟨0, 0⟩ := by
    have hfirst := @TokenBucket.burst_tokens tb ((none : Option TokenBucketState).getD (tb.cell.fresh 0)) 0 n
      (by rw [hfresh, hcap])
    rw [serve_burst, hfirst, hfresh, hcap, sub_self]
  have hrefilled :
      (tb.refill ((some (⟨0, 0⟩ : TokenBucketState)).getD (tb.cell.fresh 1000000000)) 1000000000).tokens = m := by
    have hsec : seconds (1000000000 - 0) = 1 := by norm_num [seconds]
    rw [Option.getD_some, TokenBucket.refill, if_neg (not_le.2 hrate), hsec, if_neg (by norm_num)]
    show min (0 + 1 * (tb.rate : ℚ)) tb.capacity = m
    rw [zero_add, one_mul]
    exact_mod_cast congrArg (Int.cast : Int → ℚ) hm
  rw [(serve_whole hrate (acrossSecond_sorted _ _)).2, hwhole, serve_append]
  dsimp only
  rw [allowedWhen, List.countP_append]
  have h1 := allowedWhen_burst_tokens (x := none) (n := n + 1) hq (by rw [hfresh, hcap]; positivity)
    (by rw [hfresh, hcap])
  have h2 : allowedWhen q (serve tb.cell (some ⟨0, 0⟩) (List.replicate m 1000000000)).1 = m :=
    allowedWhen_burst_tokens hq' (by rw [hrefilled]; positivity) (by rw [hrefilled])
  rw [hempty]
  rw [allowedWhen] at h1 h2
  rw [h1, h2]

theorem instant_of_withinRate (hrate : 0 < tb.rate) (h : WithinRate tb) : tb.Instant := by
  have hcap := tb.capacity_pos
  obtain ⟨n, hn⟩ : ∃ n : Nat, tb.capacity = (n + 1 : Nat) := ⟨tb.capacity.toNat - 1, by omega⟩
  obtain ⟨m, hm⟩ : ∃ m : Nat, min tb.rate tb.capacity = m := ⟨(min tb.rate tb.capacity).toNat, by omega⟩
  have hcount := allowedWhen_acrossSecond hrate hn hm (fun _ => true) rfl rfl
  have hbound := h (acrossSecond (n + 1) m) (acrossSecond_sorted _ _) (seconds 999999999) (1 / 1000000000) (by norm_num)
  have hall : allowedWhen (fun t => seconds 999999999 ≤ seconds t ∧ seconds t ≤ seconds 999999999 + 1 / 1000000000)
      (serve (redisCell tb) none (acrossSecond (n + 1) m)).1 = n + 1 + m := by
    rw [← hcount]
    refine List.countP_congr fun e he => ?_
    have hmem : e.1 ∈ acrossSecond (n + 1) m := by
      rw [← map_fst_serve (c := redisCell tb) none (acrossSecond (n + 1) m)]
      exact List.mem_map_of_mem he
    have htime : e.1 = 999999999 ∨ e.1 = 1000000000 :=
      (List.mem_append.1 hmem).imp List.eq_of_mem_replicate List.eq_of_mem_replicate
    rcases htime with heq | heq <;> rw [heq] <;> norm_num [seconds]
  rw [hall] at hbound
  have hcapQ : (tb.capacity : ℚ) = n + 1 := by
    rw [hn]
    push_cast
    rfl
  have hmQ : (m : ℚ) ≤ tb.rate * (1 / 1000000000) := by
    push_cast at hbound
    linarith
  have hmZ : (m : Int) * 1000000000 ≤ tb.rate := by
    have : (m : ℚ) * 1000000000 ≤ tb.rate := by linarith
    exact_mod_cast this
  -- what a second brings is not the rate itself, so it is the capacity
  show tb.capacity * 1000000000 ≤ tb.rate
  omega

end

/-- **The token bucket in Redis**: the allowed calls of an interval are bounded by `capacity` and the rate over the
seconds between its truncated ends. They are bounded by the rate over the interval itself, for all intervals and calls,
exactly if the rate is zero, so that the script fails, or fills the bucket in a nanosecond. -/
theorem redisBucket_bound_iff (requestsPerSecond burst : Int) :
    (∀ ts : List Time, ts.Pairwise (· ≤ ·) → ∀ a T : ℚ, 0 ≤ T →
      (allowedWhen (fun t => a ≤ seconds t ∧ seconds t ≤ a + T)
        (serve (redisCell (newTokenBucket requestsPerSecond burst)) none ts).1 : ℚ) ≤
        (newTokenBucket requestsPerSecond burst).capacity +
          (newTokenBucket requestsPerSecond burst).rate * ((⌊a + T⌋ - ⌊a⌋ : Int) : ℚ)) ∧
    (WithinRate (newTokenBucket requestsPerSecond burst) ↔ (newTokenBucket requestsPerSecond burst).rate = 0 ∨
      (newTokenBucket requestsPerSecond burst).capacity * 1000000000 ≤
        (newTokenBucket requestsPerSecond burst).rate) := by
  generalize newTokenBucket requestsPerSecond burst = tb
  refine ⟨fun ts hts a T hT => redis_within tb hts a hT, fun h => ?_, ?_⟩
  · rcases tb.rate_nonneg.eq_or_lt with hzero | hrate
    · exact .inl hzero.symm
    · exact .inr (instant_of_withinRate hrate h)
  · rintro (hzero | hinstant)
    · intro ts hts a T hT
      have : (0 : ℚ) < tb.capacity := by exact_mod_cast tb.capacity_pos
      rw [allowedWhen_no_rate hzero, hzero]
      simpa using this.le
    · exact withinRate_of_instant hinstant

/-- One token, one per second: two requests are allowed within a nanosecond. -/
theorem redisBucket_exceeds : [(999999999 : Time), 1000000000].Pairwise (· ≤ ·) ∧
    allowedWhen (fun t => seconds 999999999 ≤ seconds t ∧ seconds t ≤ seconds 999999999 + 1 / 1000000000)
      (serve (redisCell (newTokenBucket 1 1)) none [999999999, 1000000000]).1 = 2 ∧
    ((newTokenBucket 1 1).capacity + (newTokenBucket 1 1).rate * (1 / 1000000000) : ℚ) < 2 := by
  decide +kernel

end RateLimit
