import Mathlib.Data.Int.Interval
import Mathlib.Tactic.Linarith
import ApiCerberus.Lib.Rfc3339
import ApiCerberus.Lib.Table

/-!
# Requests per minute

`TimeSeriesStore` in `internal/analytics/engine.go`. `Record` adds a request to the bucket of its minute. Buckets that
are older than the retention are removed at two places: before the update when there are too many of them, and after it
once a minute. `calls` lists what was recorded, the last one first.

With timestamps that do not go back, nothing that is in reach is ever lost (`record_totals`), because a cleanup leaves
at most one bucket for each minute of the retention. The totals are `int64`: they are those of the requests as long as
they fit (`bytes_overflow`). Whatever the timestamps are, the store stays small (`recorded_bounded`).
-/

namespace TimeSeries

def minute : Int := 60 * 10 ^ 9

/-- `Truncate(time.Minute)` counts from the zero time, which is a whole number of minutes. -/
def truncate (t : Int) : Int := t / minute * minute

def unix (t : Int) : Int := t / 10 ^ 9

/-- `Time.Sub`, which saturates. -/
def sub (t u : Int) : Int := max (-2 ^ 63) (min (t - u) (2 ^ 63 - 1))

def defaultBucketRetention : Int := 24 * 60 * minute

def minimumBucketRetention : Int := minute

def cleanupIntervalPerWrite : Int := minute

def maxLatencySamples : Int64 := 10000

def maxTimeSeriesBuckets : Nat := 10000

/-- What is recorded of a request. -/
structure RequestMetric where
  timestamp : Int
  statusCode : Int64
  latencyMS : Int64
  bytesIn : Int64
  bytesOut : Int64
  creditsConsumed : Int64
  error : Bool

/-- A code that is not in `statusCodes` counts as zero. -/
structure BucketAggregate where
  start : Int
  requests : Int64
  errors : Int64
  latencySum : Int64
  latencies : List Int64
  statusCodes : Int64 → Int64
  bytesIn : Int64
  bytesOut : Int64
  creditsConsumed : Int64

structure TimeSeriesStore where
  buckets : FinMap Int BucketAggregate
  retention : Int
  lastCleanup : Int

/-- A call of `Record`, with what it reads from outside. -/
structure Call where
  metric : RequestMetric
  now : Int
  draw : Int64 → Int64

def newTimeSeriesStore (retention : Int) : TimeSeriesStore :=
  let retention := if retention ≤ 0 then defaultBucketRetention else retention
  let retention := if retention < minimumBucketRetention then minimumBucketRetention else retention
  ⟨.empty, retention, Time.zeroNanos⟩

/-- An error, or a status from 500 on. -/
def RequestMetric.failed (m : RequestMetric) : Bool := m.error || decide (500 ≤ m.statusCode)

def newBucket (start : Int) : BucketAggregate := ⟨start, 0, 0, 0, [], fun _ => 0, 0, 0, 0⟩

/-- `draw` decides which latencies are kept as samples. -/
def BucketAggregate.add (b : BucketAggregate) (draw : Int64 → Int64) (m : RequestMetric) : BucketAggregate :=
  let requests := b.requests + 1
  { start := b.start
    requests
    errors := if m.failed then b.errors + 1 else b.errors
    latencySum := b.latencySum + m.latencyMS
    latencies :=
      if .ofNat b.latencies.length < maxLatencySamples then b.latencies ++ [m.latencyMS]
      else if draw requests < maxLatencySamples then b.latencies.set (draw requests).toNatClampNeg m.latencyMS
      else b.latencies
    statusCodes := fun code => if code = m.statusCode ∧ 0 < m.statusCode then b.statusCodes code + 1
      else b.statusCodes code
    bytesIn := b.bytesIn + m.bytesIn
    bytesOut := b.bytesOut + m.bytesOut
    creditsConsumed := b.creditsConsumed + m.creditsConsumed }

namespace TimeSeriesStore

variable (s : TimeSeriesStore)

/-- The minute at which a cleanup at `now` begins to keep buckets. -/
def cutoff (now : Int) : Int := truncate (now - s.retention)

def cleanupLocked (now : Int) : TimeSeriesStore :=
  { s with buckets := ⟨s.buckets.rows.filter fun r => ¬ r.2.start < s.cutoff now, s.buckets.sorted.filter _⟩ }

/-- `cleanupLocked` and `lastCleanup = ts`. -/
def cleanup (ts : Int) : TimeSeriesStore := { s.cleanupLocked ts with lastCleanup := ts }

def full : Bool := maxTimeSeriesBuckets ≤ s.buckets.rows.length

end TimeSeriesStore

/-- The time under which a call is counted. -/
def Call.time (c : Call) : Int := if c.metric.timestamp = Time.zeroNanos then c.now else c.metric.timestamp

/-- The update of the bucket of the minute. -/
def TimeSeriesStore.count (s : TimeSeriesStore) (c : Call) : TimeSeriesStore :=
  let start := truncate c.time
  let b := (s.buckets.get? (unix start)).getD (newBucket start)
  { s with buckets := s.buckets.set (unix start) (b.add c.draw c.metric) }

/-- With whether the request was counted. -/
def TimeSeriesStore.record (s : TimeSeriesStore) (c : Call) : TimeSeriesStore × Bool :=
  let ts := c.time
  let s := if s.full then s.cleanup ts else s
  if s.full then (s, false)
  else
    let s := s.count c
    if s.lastCleanup = Time.zeroNanos ∨ sub ts s.lastCleanup ≥ cleanupIntervalPerWrite then
      (s.cleanup ts, true) else (s, true)

/-- The store after `calls`, of which the last comes first. -/
def recorded (retention : Int) : List Call → TimeSeriesStore
  | [] => newTimeSeriesStore retention
  | c :: calls => ((recorded retention calls).record c).1

/-! ## Totals -/

/-- What a bucket adds up. -/
inductive Total
  | requests
  | errors
  | latencySum
  | status (code : Int64)
  | bytesIn
  | bytesOut
  | creditsConsumed

/-- A total of a bucket. -/
def BucketAggregate.get (b : BucketAggregate) : Total → Int64
  | .requests => b.requests
  | .errors => b.errors
  | .latencySum => b.latencySum
  | .status code => b.statusCodes code
  | .bytesIn => b.bytesIn
  | .bytesOut => b.bytesOut
  | .creditsConsumed => b.creditsConsumed

/-- What one request adds to a total. Codes that are not positive are not counted. -/
def RequestMetric.share (m : RequestMetric) : Total → Int
  | .requests => 1
  | .errors => if m.failed then 1 else 0
  | .latencySum => m.latencyMS.toInt
  | .status code => if code = m.statusCode ∧ 0 < m.statusCode then 1 else 0
  | .bytesIn => m.bytesIn.toInt
  | .bytesOut => m.bytesOut.toInt
  | .creditsConsumed => m.creditsConsumed.toInt

/-- The exact total over some calls. -/
def total (t : Total) : List Call → Int
  | [] => 0
  | c :: calls => c.metric.share t + total t calls

/-- The calls of the `q`-th minute. -/
def inMinute (q : Int) (calls : List Call) : List Call := calls.filter fun c => c.time / minute = q

theorem get_newBucket (start : Int) (t : Total) : (newBucket start).get t = 0 := by cases t <;> rfl

theorem get_add (b : BucketAggregate) (draw : Int64 → Int64) (m : RequestMetric) (t : Total) :
    (b.add draw m).get t = b.get t + .ofInt (m.share t) := by
  cases t <;> simp only [BucketAggregate.get, BucketAggregate.add, RequestMetric.share, Int64.ofInt_toInt]
  · rfl
  all_goals split <;> simp

/-- What a minute has to show: no bucket without a call, otherwise one with the totals of its calls. -/
def Exact (q : Int) (calls : List Call) (bucket : Option BucketAggregate) : Prop :=
  match bucket with
  | none => inMinute q calls = []
  | some b => b.start = q * minute ∧ inMinute q calls ≠ [] ∧ ∀ t, b.get t = .ofInt (total t (inMinute q calls))

/-- The buckets are right from `floor` on, and none is in the future of the calls. -/
structure Upto (s : TimeSeriesStore) (calls : List Call) (floor : Int) : Prop where
  keyed : ∀ k b, s.buckets.get? k = some b → ∃ q, k = q * 60 ∧ b.start = q * minute ∧ ∃ c ∈ calls, q ≤ c.time / minute
  exact : ∀ q, floor ≤ q * minute → Exact q calls (s.buckets.get? (q * 60))

variable {s : TimeSeriesStore} {calls : List Call} {c : Call} {floor ts : Int}

theorem Upto.mono {floor' : Int} (h : Upto s calls floor) (hle : floor ≤ floor') : Upto s calls floor' :=
  ⟨h.keyed, fun q hq => h.exact q (hle.trans hq)⟩

theorem unix_minute (q : Int) : unix (q * minute) = q * 60 := by
  unfold unix minute
  omega

/-- The request is counted in the bucket of its minute. -/
theorem Upto.count (h : Upto s calls floor) (c : Call) : Upto (s.count c) (c :: calls) floor := by
  have hkey : unix (truncate c.time) = c.time / minute * 60 := unix_minute _
  refine ⟨fun k b hb => ?_, fun q hq => ?_⟩
  · simp only [TimeSeriesStore.count, FinMap.get?_set, hkey] at hb
    split at hb
    · rename_i hk
      cases hb
      refine ⟨c.time / minute, hk, ?_, c, by simp, le_rfl⟩
      cases hold : s.buckets.get? (c.time / minute * 60) with
      | none => rfl
      | some b =>
        obtain ⟨q, hq, hstart, -⟩ := h.keyed _ b hold
        rw [show c.time / minute = q by omega]
        exact hstart
    · obtain ⟨q, hq, hstart, d, hd, hle⟩ := h.keyed k b hb
      exact ⟨q, hq, hstart, d, by simp [hd], hle⟩
  · have hold := h.exact q hq
    simp only [TimeSeriesStore.count, FinMap.get?_set, hkey]
    by_cases heq : c.time / minute = q
    · have hin : inMinute q (c :: calls) = c :: inMinute q calls := by simp [inMinute, heq]
      rw [heq, if_pos rfl]
      cases hb : s.buckets.get? (q * 60) with
      | none =>
        rw [hb] at hold
        have hnil : inMinute q calls = [] := hold
        refine ⟨by rw [truncate, heq]; rfl, by simp [hin], fun t => ?_⟩
        rw [Option.getD_none, get_add, get_newBucket, hin, hnil]
        simp [total]
      | some b =>
        rw [hb] at hold
        obtain ⟨hstart, -, htotal⟩ := hold
        refine ⟨hstart, by simp [hin], fun t => ?_⟩
        rw [Option.getD_some, get_add, htotal, hin, total, Int64.ofInt_add, Int64.add_comm]
    · have hin : inMinute q (c :: calls) = inMinute q calls := by simp [inMinute, heq]
      rw [if_neg (by omega)]
      unfold Exact at hold ⊢
      rwa [hin]

theorem get?_cleanup {k : Int} {b : BucketAggregate} :
    (s.cleanup ts).buckets.get? k = some b ↔ s.buckets.get? k = some b ∧ s.cutoff ts ≤ b.start := by
  simp [FinMap.get?_eq_some_iff, TimeSeriesStore.cleanup, TimeSeriesStore.cleanupLocked]

theorem Upto.cleanup (h : Upto s calls floor) (hle : floor ≤ s.cutoff ts) :
    Upto (s.cleanup ts) calls (s.cutoff ts) := by
  refine ⟨fun k b hb => h.keyed k b (get?_cleanup.1 hb).1, fun q hq => ?_⟩
  have hold := h.exact q (hle.trans hq)
  have hkeep : (s.cleanup ts).buckets.get? (q * 60) = s.buckets.get? (q * 60) := by
    ext b
    refine get?_cleanup.trans (and_iff_left_of_imp fun hb => ?_)
    rw [hb] at hold
    exact hold.1.symm ▸ hq
  rwa [hkeep]

/-! ## The number of buckets -/

/-- A cleanup leaves at most one bucket for each minute of the retention, so that the cap is no longer reached. -/
theorem Upto.not_full_cleanup (h : Upto s calls floor) (hr : s.retention ≤ 9998 * minute) (hnn : 0 ≤ s.retention)
    (hlast : ∀ d ∈ calls, d.time ≤ ts) : (s.cleanup ts).full = false := by
  have hrows : ∀ r ∈ (s.cleanup ts).buckets.rows, ∃ q, r.1 = q * 60 ∧ (ts - s.retention) / minute ≤ q ∧
      q ≤ ts / minute := by
    intro r hrow
    have hget := get?_cleanup.1 (FinMap.get?_eq_some_iff.2 hrow)
    obtain ⟨q, hq, hstart, d, hd, hle⟩ := h.keyed _ _ hget.1
    have hcut : (ts - s.retention) / minute * minute ≤ q * minute := hstart ▸ hget.2
    have hts : d.time / minute ≤ ts / minute := Int.ediv_le_ediv (by decide) (hlast d hd)
    exact ⟨q, hq, le_of_mul_le_mul_right hcut (by decide), hle.trans hts⟩
  have hsorted : ((s.cleanup ts).buckets.rows.map fun r => r.1 / 60).Pairwise (· < ·) := by
    refine List.pairwise_map.2 ((s.cleanup ts).buckets.sorted.imp_of_mem fun {r r'} hrow hrow' hlt => ?_)
    obtain ⟨q, hq, -⟩ := hrows r hrow
    obtain ⟨q', hq', -⟩ := hrows r' hrow'
    omega
  have hsub : (((s.cleanup ts).buckets.rows.map fun r => r.1 / 60).toFinset) ⊆
      Finset.Icc ((ts - s.retention) / minute) (ts / minute) := by
    intro x hx
    obtain ⟨r, hrow, rfl⟩ := List.mem_map.1 (List.mem_toFinset.1 hx)
    obtain ⟨q, hq, hlo, hhi⟩ := hrows r hrow
    exact Finset.mem_Icc.2 (by omega)
  have hlen := Finset.card_le_card hsub
  rw [List.toFinset_card_of_nodup (hsorted.imp ne_of_lt), List.length_map, Int.card_Icc] at hlen
  unfold minute at hr hlen
  refine decide_eq_false ?_
  unfold maxTimeSeriesBuckets
  omega

/-! ## Recording -/

structure Inv (s : TimeSeriesStore) (calls : List Call) : Prop where
  upto : ∀ floor, (calls ≠ [] → s.cutoff s.lastCleanup ≤ floor) → Upto s calls floor
  fresh : calls = [] → s.lastCleanup = Time.zeroNanos
  cleaned : ∀ t, (∀ d ∈ calls, d.time ≤ t) → calls ≠ [] → s.lastCleanup ≤ t

theorem cutoff_mono {t u : Int} (h : t ≤ u) : s.cutoff t ≤ s.cutoff u := by
  unfold TimeSeriesStore.cutoff truncate minute
  omega

/-- After a cleanup at the time of the last call. -/
theorem Upto.inv_cleanup (h : Upto s (c :: calls) (s.cutoff c.time)) : Inv (s.cleanup c.time) (c :: calls) :=
  ⟨fun _ hfloor => (h.cleanup le_rfl).mono (hfloor (by simp)), fun hnil => by simp at hnil,
    fun _ hle _ => hle c (by simp)⟩

/-- A cleanup removes nothing that is in reach. -/
theorem Inv.record (h : Inv s calls) (hr : s.retention ≤ 9998 * minute) (hnn : 0 ≤ s.retention)
    (hlast : ∀ d ∈ calls, d.time ≤ c.time) :
    (s.record c).2 = true ∧ (s.record c).1.retention = s.retention ∧ Inv (s.record c).1 (c :: calls) := by
  have hts : Upto s calls (s.cutoff c.time) := h.upto _ fun hne => cutoff_mono (h.cleaned _ hlast hne)
  simp only [TimeSeriesStore.record]
  by_cases hfull : s.full
  · have hroom := hts.not_full_cleanup hr hnn hlast
    have hcount : Upto ((s.cleanup c.time).count c) (c :: calls) (s.cutoff c.time) := (hts.cleanup le_rfl).count c
    simp only [hfull, if_true, hroom, Bool.false_eq_true, if_false]
    split
    · exact ⟨rfl, rfl, hcount.inv_cleanup⟩
    · -- the cleanup before the update was at the time of this call
      exact ⟨rfl, rfl, fun _ hfloor => hcount.mono (hfloor (by simp)), fun hnil => by simp at hnil,
        fun _ hle _ => hle c (by simp)⟩
  · simp only [hfull, Bool.false_eq_true, if_false]
    split
    · exact ⟨rfl, rfl, (hts.count c).inv_cleanup⟩
    · rename_i hdue
      have hne : calls ≠ [] := fun hnil => hdue (.inl (h.fresh hnil))
      refine ⟨rfl, rfl, fun floor hfloor => ?_, fun hnil => by simp at hnil, fun t hle _ => ?_⟩
      · exact ((h.upto _ fun _ => le_rfl).count c).mono (hfloor (by simp))
      · exact h.cleaned t (fun d hd => hle d (by simp [hd])) hne

theorem inv_new (retention : Int) : Inv (newTimeSeriesStore retention) [] := by
  refine ⟨fun floor _ => ⟨fun k b hb => ?_, fun q _ => ?_⟩, fun _ => rfl, fun t _ hne => (hne rfl).elim⟩
  · simp [newTimeSeriesStore, FinMap.get?_empty] at hb
  · simp [newTimeSeriesStore, FinMap.get?_empty, Exact, inMinute]

theorem inv_recorded {retention : Int} (hlo : minute ≤ retention) (hhi : retention ≤ 9998 * minute) :
    ∀ {calls : List Call}, calls.Pairwise (fun later earlier => earlier.time ≤ later.time) →
      (recorded retention calls).retention = retention ∧ Inv (recorded retention calls) calls
  | [], _ => by
    refine ⟨?_, inv_new retention⟩
    have hpos : ¬ retention ≤ 0 := not_le.2 (lt_of_lt_of_le (by decide) hlo)
    have hmin : ¬ retention < minimumBucketRetention := not_lt.2 hlo
    simp [recorded, newTimeSeriesStore, hpos, hmin]
  | c :: calls, hord => by
    obtain ⟨hlast, hord⟩ := List.pairwise_cons.1 hord
    obtain ⟨hret, hinv⟩ := inv_recorded hlo hhi hord
    have hnn : 0 ≤ retention := le_trans (by decide) hlo
    obtain ⟨-, hret', hinv'⟩ := hinv.record (c := c) (by rwa [hret]) (by rwa [hret]) hlast
    exact ⟨hret'.trans hret, hinv'⟩

/-- A value of the type `int64`. -/
def Fits (n : Int) : Prop := -2 ^ 63 ≤ n ∧ n < 2 ^ 63

/-- **Totals**: with timestamps that do not go back and a retention of 1 to 9998 minutes, no request is discarded, and
after every `Record` each minute from the cutoff of the last cleanup on has the totals of its requests, as far as they
fit into an `int64`. -/
theorem record_totals {retention : Int} (hlo : minute ≤ retention) (hhi : retention ≤ 9998 * minute) {c : Call}
    {calls : List Call}
    (hord : (c :: calls).Pairwise fun later earlier => earlier.time ≤ later.time) :
    ((recorded retention calls).record c).2 = true ∧
      ∀ q, (recorded retention (c :: calls)).cutoff (recorded retention (c :: calls)).lastCleanup ≤ q * minute →
        match (recorded retention (c :: calls)).buckets.get? (q * 60) with
        | none => inMinute q (c :: calls) = []
        | some b => b.start = q * minute ∧ inMinute q (c :: calls) ≠ [] ∧
            ∀ t, Fits (total t (inMinute q (c :: calls))) → (b.get t).toInt = total t (inMinute q (c :: calls)) := by
  obtain ⟨hlast, htail⟩ := List.pairwise_cons.1 hord
  obtain ⟨hret, hinv⟩ := inv_recorded hlo hhi htail
  have hnn : 0 ≤ retention := le_trans (by decide) hlo
  obtain ⟨hkept, -, hinv'⟩ := hinv.record (c := c) (by rwa [hret]) (by rwa [hret]) hlast
  refine ⟨hkept, fun q hq => ?_⟩
  have hexact := (hinv'.upto _ fun _ => le_rfl).exact q hq
  rw [recorded]
  cases hb : ((recorded retention calls).record c).1.buckets.get? (q * 60) with
  | none =>
    rw [hb] at hexact
    exact hexact
  | some b =>
    rw [hb] at hexact
    obtain ⟨hstart, hne, htotal⟩ := hexact
    refine ⟨hstart, hne, fun t hfits => ?_⟩
    rw [htotal t, Int64.toInt_ofInt_of_le hfits.1 hfits.2]

/-- A request at a given time that brought `n` bytes. -/
def received (timestamp : Int) (n : Int64) : Call := ⟨⟨timestamp, 200, 5, n, 0, 1, false⟩, 0, fun _ => 0⟩

theorem record_totals_one_minute :
    let calls := [received (minute + 3) 7, received minute 5]
    ((recorded (10 * minute) (received (minute + 3) 7 :: [received minute 5])).buckets.get? 60).map
      (fun b => b.get .bytesIn) = some 12 ∧
      (∀ q, (recorded (10 * minute) calls).cutoff (recorded (10 * minute) calls).lastCleanup ≤ q * minute →
        match (recorded (10 * minute) calls).buckets.get? (q * 60) with
        | none => inMinute q calls = []
        | some b => b.start = q * minute ∧ inMinute q calls ≠ [] ∧
            ∀ t, Fits (total t (inMinute q calls)) → (b.get t).toInt = total t (inMinute q calls)) :=
  ⟨by decide +kernel, (record_totals (by decide) (by decide) (by simp [received, Call.time, minute, Time.zeroNanos])).2⟩

/-- Two requests of one minute that brought `2 ^ 63 - 1` bytes each: the total is `-2`. -/
theorem bytes_overflow :
    let calls := [received (minute + 3) 9223372036854775807, received minute 9223372036854775807]
    ((recorded (10 * minute) calls).buckets.get? 60).map (fun b => (b.get .bytesIn).toInt) = some (-2) ∧
      total .bytesIn (inMinute 1 calls) = 2 ^ 64 - 2 ∧
      (recorded (10 * minute) calls).cutoff (recorded (10 * minute) calls).lastCleanup ≤ 1 * minute := by
  decide +kernel

/-! ## Memory -/

/-- What limits the memory of a store: the number of its buckets, and that of the samples of each. -/
structure Bounded (s : TimeSeriesStore) : Prop where
  buckets : s.buckets.rows.length ≤ maxTimeSeriesBuckets
  samples : ∀ k b, s.buckets.get? k = some b → b.latencies.length ≤ 10000

theorem Bounded.cleanup (h : Bounded s) (ts : Int) : Bounded (s.cleanup ts) where
  buckets := (List.length_filter_le ..).trans h.buckets
  samples k b hb := h.samples k b (get?_cleanup.1 hb).1

/-- A full reservoir replaces samples, whatever index is drawn. -/
theorem length_add_latencies (b : BucketAggregate) (draw : Int64 → Int64) (m : RequestMetric)
    (h : b.latencies.length ≤ 10000) :
    (b.add draw m).latencies.length ≤ 10000 := by
  simp only [BucketAggregate.add]
  split
  · rename_i hroom
    have hlt : b.latencies.length < 10000 := by
      by_contra hfull
      rw [show b.latencies.length = 10000 by omega] at hroom
      exact absurd hroom (by decide)
    rw [List.length_append, List.length_singleton]
    omega
  · split
    · rwa [List.length_set]
    · exact h

theorem Bounded.count (h : Bounded s) (hroom : s.full = false) (c : Call) : Bounded (s.count c) where
  buckets := by
    have hlt := of_decide_eq_false hroom
    have herase : (s.buckets.erase (unix (truncate c.time))).rows.length ≤ s.buckets.rows.length :=
      List.length_filter_le ..
    refine (FinMap.rows_set_perm s.buckets _ _).length_eq.trans_le ?_
    rw [List.length_cons]
    omega
  samples k b hb := by
    simp only [TimeSeriesStore.count, FinMap.get?_set] at hb
    split at hb
    · cases hb
      refine length_add_latencies _ _ _ ?_
      cases hold : s.buckets.get? (unix (truncate c.time)) with
      | none => exact Nat.zero_le _
      | some b => exact h.samples _ b hold
    · exact h.samples k b hb

theorem Bounded.record (h : Bounded s) (c : Call) : Bounded (s.record c).1 := by
  have hstart : Bounded (if s.full then s.cleanup c.time else s) := by
    split
    · exact h.cleanup c.time
    · exact h
  dsimp only [TimeSeriesStore.record]
  generalize (if s.full then s.cleanup c.time else s) = s₁ at hstart ⊢
  split
  · exact hstart
  · rename_i hroom
    have hcount := hstart.count (Bool.eq_false_of_not_eq_true hroom) c
    split
    · exact hcount.cleanup c.time
    · exact hcount

/-- **The memory is bounded**, whatever the timestamps are and in whatever order they come. -/
theorem recorded_bounded (retention : Int) : ∀ calls : List Call, Bounded (recorded retention calls)
  | [] => ⟨Nat.zero_le _, fun k b hb => by cases hb⟩
  | c :: calls => (recorded_bounded retention calls).record c

end TimeSeries
