import ApiCerberus.Lib.Float64
import ApiCerberus.Lib.Keyed
import ApiCerberus.Lib.Table
import ApiCerberus.Lib.Text

/-!
# The four limiters

`token_bucket.go`, `fixed_window.go`, `sliding_window.go` and `leaky_bucket.go` in `internal/ratelimit`, and what makes
them (`newRateLimiter`, `internal/plugin/rate_limit.go:134-191`). `stateKey` is the first lines of every `Allow`.

Each `allow` is the critical section of `Allow`: it gets the time that the call read before it took the lock. Times are
nanoseconds since
1970. The `float64` levels of the buckets are rational numbers here, and counters are natural numbers.
-/

namespace RateLimit

/-- Nanoseconds. -/
abbrev Time := Int

/-- `Duration.Seconds`. -/
def seconds (d : Time) : ℚ := (d : ℚ) / 1000000000

structure Decision where
  allowed : Bool
  remaining : Int
  resetAt : Time

/-- The key under which the state for `key` is kept. -/
def stateKey (key : Text) : Text := if Text.trimSpace key = [] then "_global".toList else Text.trimSpace key

/-! ## Token bucket -/

structure TokenBucket where
  rate : Int
  capacity : Int
  rate_nonneg : 0 ≤ rate
  capacity_pos : 0 < capacity

structure TokenBucketState where
  tokens : ℚ
  last : Time

theorem orOne_pos (n : Int) : 0 < if n ≤ 0 then 1 else n := by split <;> omega

def newTokenBucket (requestsPerSecond burst : Int) : TokenBucket where
  rate := if requestsPerSecond < 0 then 0 else requestsPerSecond
  capacity := if burst ≤ 0 then 1 else burst
  rate_nonneg := by split <;> omega
  capacity_pos := orOne_pos burst

namespace TokenBucket

variable (tb : TokenBucket)

/-- Tokens come with the time, up to the capacity. -/
def refill (state : TokenBucketState) (now : Time) : TokenBucketState :=
  if tb.rate ≤ 0 then state
  else if seconds (now - state.last) ≤ 0 then state
  else { state with tokens := min (state.tokens + seconds (now - state.last) * tb.rate) tb.capacity }

def nextRefillAt (tokens : ℚ) (now : Time) : Time :=
  if tb.rate ≤ 0 ∨ 1 ≤ tokens then now else now + ⌊(1 - tokens) / tb.rate * 1000000000⌋

/-- The time of the call replaces the last one, also if it is earlier. -/
def allow (now : Time) (state : TokenBucketState) : Decision × TokenBucketState :=
  let refilled := tb.refill state now
  let tokens := max (if 1 ≤ refilled.tokens then refilled.tokens - 1 else refilled.tokens) 0
  (⟨1 ≤ refilled.tokens, max ⌊tokens⌋ 0, tb.nextRefillAt tokens now⟩, ⟨tokens, now⟩)

def cell : Cell Time TokenBucketState Decision := ⟨fun now => ⟨tb.capacity, now⟩, tb.allow⟩

def purgeStale (cutoff : Time) (state : TokenBucketState) : Option TokenBucketState :=
  if state.last < cutoff then none else some state

end TokenBucket

/-! ## Fixed window -/

structure FixedWindow where
  limit : Int
  windowSeconds : Int
  limit_pos : 0 < limit
  windowSeconds_pos : 0 < windowSeconds

structure FixedWindowState where
  windowID : Int
  count : Nat
  deriving DecidableEq

def newFixedWindow (limit window : Int) : FixedWindow where
  limit := if limit ≤ 0 then 1 else limit
  windowSeconds := if window.tdiv 1000000000 ≤ 0 then 1 else window.tdiv 1000000000
  limit_pos := by split <;> omega
  windowSeconds_pos := by split <;> omega

namespace FixedWindow

variable (fw : FixedWindow)

def windowID (ts : Time) : Int := (ts / 1000000000).tdiv fw.windowSeconds

/-- A counter for another window, earlier or later, starts anew. -/
def ensureWindow (state : FixedWindowState) (currentWindowID : Int) : FixedWindowState :=
  if state.windowID = currentWindowID then state else ⟨currentWindowID, 0⟩

/-- A new window begins with a count of 0. -/
def allow (now : Time) (state : FixedWindowState) : Decision × FixedWindowState :=
  let windowID := fw.windowID now
  let resetAt := (windowID + 1) * fw.windowSeconds * 1000000000
  let state := ensureWindow state windowID
  let count := state.count + 1
  (if count ≤ fw.limit then ⟨true, max (fw.limit - count) 0, resetAt⟩ else ⟨false, 0, resetAt⟩,
    { state with count := count })

def cell : Cell Time FixedWindowState Decision := ⟨fun _ => ⟨0, 0⟩, fw.allow⟩

def purgeStale (now : Time) (state : FixedWindowState) : Option FixedWindowState :=
  if 0 < state.windowID ∧ state.windowID < fw.windowID now - 2 then none else some state

end FixedWindow

/-! ## Sliding window -/

structure SlidingWindow where
  limit : Int
  window : Int
  subWindow : Int
  windowSpan : Int
  limit_pos : 0 < limit
  subWindow_pos : 0 < subWindow

structure SlidingWindowState where
  /-- Slots and their counts. -/
  counts : FinMap Int Nat

def newSlidingWindow (limit window : Int) : SlidingWindow :=
  let window := if window ≤ 0 then 1000000000 else window
  let sub := if window.tdiv 10 ≤ 0 then 100000000 else window.tdiv 10
  { limit := if limit ≤ 0 then 1 else limit
    window := window
    subWindow := sub
    windowSpan := ⌈Float64.round (Float64.round window / Float64.round sub)⌉
    limit_pos := by split <;> omega
    subWindow_pos := by
      have h : 0 < if window.tdiv 10 ≤ 0 then 100000000 else window.tdiv 10 := by split <;> omega
      exact h }

namespace SlidingWindow

variable (sw : SlidingWindow)

def slotID (ts : Time) : Int := ts.tdiv sw.subWindow

/-- Slots that are too old are dropped. -/
def pruneLocked (state : SlidingWindowState) (currentSlot : Int) : SlidingWindowState :=
  ⟨state.counts.filter fun slot => currentSlot - sw.windowSpan + 1 ≤ slot⟩

def total (state : SlidingWindowState) : Nat := state.counts.rows.foldl (fun total r => total + r.2) 0

/-- The rows are in the order of the slots, so the first one that counts is the oldest. -/
def nextResetAtLocked (state : SlidingWindowState) (now : Time) : Time :=
  match state.counts.rows.find? fun r => 0 < r.2 with
  | none => now
  | some r => r.1 * sw.subWindow + sw.window + sw.subWindow

def allow (now : Time) (state : SlidingWindowState) : Decision × SlidingWindowState :=
  let slot := sw.slotID now
  let pruned := sw.pruneLocked state slot
  if sw.limit ≤ total pruned then (⟨false, 0, sw.nextResetAtLocked pruned now⟩, pruned)
  else
    let counted : SlidingWindowState := ⟨pruned.counts.set slot ((pruned.counts.get? slot).getD 0 + 1)⟩
    (⟨true, max (sw.limit - (total pruned + 1)) 0, sw.nextResetAtLocked counted now⟩, counted)

def cell : Cell Time SlidingWindowState Decision := ⟨fun _ => ⟨.empty⟩, sw.allow⟩

def purgeStale (now : Time) (state : SlidingWindowState) : Option SlidingWindowState :=
  let pruned := sw.pruneLocked state (sw.slotID now)
  if pruned.counts.rows = [] then none else some pruned

end SlidingWindow

/-! ## Leaky bucket -/

structure LeakyBucket where
  capacity : Int
  leakRate : Int
  capacity_pos : 0 < capacity
  leakRate_pos : 0 < leakRate

structure LeakyBucketState where
  queue : ℚ
  updatedAt : Time

def newLeakyBucket (capacity leakPerSecond : Int) : LeakyBucket where
  capacity := if capacity ≤ 0 then 1 else capacity
  leakRate := if leakPerSecond ≤ 0 then 1 else leakPerSecond
  capacity_pos := by split <;> omega
  leakRate_pos := by split <;> omega

namespace LeakyBucket

variable (lb : LeakyBucket)

/-- The queue gets shorter with the time. -/
def drainLocked (state : LeakyBucketState) (now : Time) : LeakyBucketState :=
  if seconds (now - state.updatedAt) ≤ 0 then state
  else ⟨max (state.queue - seconds (now - state.updatedAt) * lb.leakRate) 0, now⟩

def nextReset (now : Time) (queue : ℚ) : Time :=
  if queue ≤ 0 then now else now + ⌊queue / lb.leakRate * 1000000000⌋

/-- The queue is never negative, so `int(state.queue)` is its integer part. -/
def allow (now : Time) (state : LeakyBucketState) : Decision × LeakyBucketState :=
  let drained := lb.drainLocked state now
  if lb.capacity < ⌊drained.queue⌋ + 1 then (⟨false, 0, lb.nextReset now drained.queue⟩, drained)
  else
    let queue := drained.queue + 1
    (⟨true, max (lb.capacity - ⌈queue⌉) 0, lb.nextReset now queue⟩, { drained with queue := queue })

def cell : Cell Time LeakyBucketState Decision := ⟨fun now => ⟨0, now⟩, lb.allow⟩

def purgeStale (cutoff : Time) (state : LeakyBucketState) : Option LeakyBucketState :=
  if state.updatedAt < cutoff then none else some state

end LeakyBucket

/-! ## The limiter of a configuration -/

structure RateLimitConfig where
  algorithm : Text
  requestsPerSecond : Int
  burst : Int
  limit : Int
  window : Int

inductive RateLimiter
  | tokenBucket (tb : TokenBucket)
  | fixedWindow (fw : FixedWindow)
  | slidingWindow (sw : SlidingWindow)
  | leakyBucket (lb : LeakyBucket)

/-- `value` if it is positive. -/
def orDefault (value default : Int) : Int := if value ≤ 0 then default else value

/-- The limiter, and the limit that is reported. -/
def newRateLimiter (algorithm : Text) (cfg : RateLimitConfig) : Except Text (RateLimiter × Int) :=
  let algo := Text.toLower (Text.trimSpace algorithm)
  if algo = [] ∨ algo = "token_bucket".toList then
    let rps := orDefault cfg.requestsPerSecond 10
    let burst := orDefault cfg.burst rps
    .ok (.tokenBucket (newTokenBucket rps burst), burst)
  else if algo = "fixed_window".toList then
    let limit := orDefault cfg.limit 10
    .ok (.fixedWindow (newFixedWindow limit (orDefault cfg.window 1000000000)), limit)
  else if algo = "sliding_window".toList then
    let limit := orDefault cfg.limit 10
    .ok (.slidingWindow (newSlidingWindow limit (orDefault cfg.window 1000000000)), limit)
  else if algo = "leaky_bucket".toList then
    let capacity := orDefault (orDefault cfg.burst cfg.limit) 10
    .ok (.leakyBucket (newLeakyBucket capacity (orDefault cfg.requestsPerSecond capacity)), capacity)
  else .error ("unsupported rate limit algorithm ".toList ++ Text.quote cfg.algorithm)

end RateLimit
