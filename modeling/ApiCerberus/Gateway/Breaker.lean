import ApiCerberus.Gateway.Permission
import ApiCerberus.Lib.Transition
import Mathlib.Data.List.Perm.Basic
import Mathlib.Data.Rat.Defs
import Mathlib.Algebra.Order.Ring.Rat

/-!
# The circuit breaker

`internal/plugin/circuit_breaker.go`. Every function is called under the lock, with the time that it reads there.
`error_threshold` is a rational number.

A report does not say whose it is. A request that was let through before the breaker opened may report when it is
half-open again, and its success counts as one of a probe: it makes room for another probe, and may close the breaker
(`success_of_nobody`). If every success that is reported in a half-open period is one of that period, the counters are
right (`halfOpen_accounted`).
-/

namespace Gateway

inductive CircuitState
  | closed
  | opened
  | halfOpen
  deriving DecidableEq

/-- Times are in nanoseconds. -/
structure CircuitBreakerConfig where
  errorThreshold : ℚ
  volumeThreshold : Int
  sleepWindow : Int
  halfOpenRequests : Int
  window : Int

/-- The settings of a breaker. -/
structure CircuitBreaker where
  errorThreshold : ℚ
  volumeThreshold : Nat
  sleepWindow : Int
  halfOpenRequests : Nat
  window : Int
  volumeThreshold_pos : 0 < volumeThreshold
  halfOpenRequests_pos : 0 < halfOpenRequests

/-- Values out of range are replaced by defaults. -/
def newCircuitBreaker (cfg : CircuitBreakerConfig) : CircuitBreaker where
  errorThreshold := if cfg.errorThreshold ≤ 0 ∨ 1 < cfg.errorThreshold then 1 / 2 else cfg.errorThreshold
  volumeThreshold := if cfg.volumeThreshold ≤ 0 then 20 else cfg.volumeThreshold.toNat
  sleepWindow := if cfg.sleepWindow ≤ 0 then 10000000000 else cfg.sleepWindow
  halfOpenRequests := if cfg.halfOpenRequests ≤ 0 then 1 else cfg.halfOpenRequests.toNat
  window := if cfg.window ≤ 0 then 30000000000 else cfg.window
  volumeThreshold_pos := by split <;> omega
  halfOpenRequests_pos := by split <;> omega

/-- A request that was reported. -/
structure CircuitEvent where
  ts : Int
  success : Bool

namespace CircuitBreaker

/-- What changes. -/
structure State where
  state : CircuitState
  events : List CircuitEvent
  openUntil : Int
  halfOpenInFlight : Nat
  halfOpenSuccess : Nat

def State.new : State := ⟨.closed, [], 0, 0, 0⟩

def errCircuitOpen : PluginError := ⟨"circuit_open".toList, "Circuit breaker is open".toList, 503⟩

/-- A half-open period starts. -/
def State.halfOpen (st : State) : State := { st with state := .halfOpen, halfOpenInFlight := 0, halfOpenSuccess := 0 }

/-- `State` looks at the clock, too. -/
def State.current (now : Int) (st : State) : State :=
  if st.state = .opened ∧ st.openUntil ≤ now then st.halfOpen else st

variable (cb : CircuitBreaker)

/-- The last case of `Allow`, into which the first one falls through. -/
def allowProbe (st : State) : Option PluginError × State :=
  if cb.halfOpenRequests ≤ st.halfOpenInFlight then (some errCircuitOpen, st)
  else (none, { st with halfOpenInFlight := st.halfOpenInFlight + 1 })

/-- Whether a request may pass. -/
def allow (now : Int) (st : State) : Option PluginError × State :=
  match st.state with
  | .opened => if st.openUntil ≤ now then cb.allowProbe st.halfOpen else (some errCircuitOpen, st)
  | .halfOpen => cb.allowProbe st
  | .closed => (none, st)

/-- The circuit is open until the sleep window is over. -/
def tripOpen (now : Int) (st : State) : State :=
  { st with state := .opened, openUntil := now + cb.sleepWindow, halfOpenInFlight := 0, halfOpenSuccess := 0 }

def pruneEvents (now : Int) (events : List CircuitEvent) : List CircuitEvent :=
  events.dropWhile fun ev => ev.ts < now - cb.window

/-- The outcome of a request that has passed. -/
def report (success : Bool) (now : Int) (st : State) : State :=
  match st.state with
  | .halfOpen =>
    let st := if 0 < st.halfOpenInFlight then { st with halfOpenInFlight := st.halfOpenInFlight - 1 } else st
    if success then
      let st := { st with halfOpenSuccess := st.halfOpenSuccess + 1 }
      if cb.halfOpenRequests ≤ st.halfOpenSuccess then
        { st with state := .closed, events := [], halfOpenSuccess := 0, halfOpenInFlight := 0 }
      else st
    else cb.tripOpen now st
  | .opened => st
  | .closed =>
    let events := cb.pruneEvents now (st.events ++ [⟨now, success⟩])
    let st := { st with events := events }
    if events.length < cb.volumeThreshold then st
    else
      let failures := events.countP fun ev => !ev.success
      if cb.errorThreshold ≤ (failures : ℚ) / events.length then cb.tripOpen now st else st

/-! ## What the calls do -/

variable {st : State}

/-- The cases of `Allow`. -/
inductive Allowed (cb : CircuitBreaker) (st : State) : Option PluginError × State → Prop
  | closed (h : st.state = .closed) : Allowed cb st (none, st)
  | rejected : Allowed cb st (some errCircuitOpen, st)
  | first (h : st.state = .opened) : Allowed cb st (none, { st.halfOpen with halfOpenInFlight := 1 })
  | probe (h : st.state = .halfOpen) (hroom : st.halfOpenInFlight < cb.halfOpenRequests) :
    Allowed cb st (none, { st with halfOpenInFlight := st.halfOpenInFlight + 1 })

theorem allow_cases (now : Int) (st : State) : Allowed cb st (cb.allow now st) := by
  unfold allow
  split
  · rename_i h
    split
    · have hroom : ¬ cb.halfOpenRequests ≤ st.halfOpen.halfOpenInFlight := not_le.2 cb.halfOpenRequests_pos
      simp only [allowProbe, hroom, if_false]
      exact .first h
    · exact .rejected
  · rename_i h
    unfold allowProbe
    split
    · exact .rejected
    · rename_i hroom
      exact .probe h (not_le.1 hroom)
  · rename_i h
    exact .closed h

theorem report_halfOpen_failure (now : Int) (h : st.state = .halfOpen) : (cb.report false now st).state = .opened := by
  simp [report, h, tripOpen]

theorem report_halfOpen_success (now : Int) (h : st.state = .halfOpen) :
    (cb.halfOpenRequests ≤ st.halfOpenSuccess + 1 ∧ (cb.report true now st).state = .closed) ∨
      ((cb.report true now st).state = .halfOpen ∧ (cb.report true now st).halfOpenInFlight = st.halfOpenInFlight - 1 ∧
        (cb.report true now st).halfOpenSuccess = st.halfOpenSuccess + 1) := by
  by_cases hin : 0 < st.halfOpenInFlight <;> by_cases hclose : cb.halfOpenRequests ≤ st.halfOpenSuccess + 1
  all_goals simp [report, h, hin, hclose]
  omega

/-- Only `Allow` and `State` make a breaker half-open. -/
theorem report_not_halfOpen (success : Bool) (now : Int) (h : st.state ≠ .halfOpen) :
    (cb.report success now st).state ≠ .halfOpen := by
  unfold report
  split
  · rename_i hst
    exact absurd hst h
  · exact h
  · rename_i hst
    simp only
    split
    · simp [hst]
    · split
      · simp [tripOpen]
      · simp [hst]

theorem State.current_cases (now : Int) (st : State) :
    st.current now = st ∨ st.state = .opened ∧ st.current now = st.halfOpen := by
  unfold current
  split
  · rename_i h
    exact Or.inr ⟨h.1, rfl⟩
  · exact Or.inl rfl

end CircuitBreaker

/-! ## Requests and their reports -/

/-- A breaker, and what its counters are about. -/
structure Tracked where
  breaker : CircuitBreaker.State
  /-- The number of half-open periods so far. -/
  period : Nat
  /-- The requests that have been let through and have not reported, each with the half-open period in which that was,
  if it was in one. -/
  pending : List (Option Nat)
  /-- The successes that requests of the last period have reported in that period. -/
  succeeded : Nat
  /-- `succeeded` at each move from half-open to closed. -/
  closings : List Nat

namespace Tracked

open CircuitBreaker

inductive Call
  | allow (now : Int)
  | report (i : Nat) (success : Bool) (now : Int)
  | state (now : Int)

/-- After a call that may start a period. -/
def enter (s : Tracked) (after : State) : Tracked :=
  if s.breaker.state ≠ .halfOpen ∧ after.state = .halfOpen then
    { s with breaker := after, period := s.period + 1, succeeded := 0 }
  else { s with breaker := after }

/-- The period of a request that is let through now. -/
def current (s : Tracked) : Option Nat := if s.breaker.state = .halfOpen then some s.period else none

/-- After `Allow`. -/
def allowed (s : Tracked) (r : Option PluginError × State) : Tracked :=
  let s := s.enter r.2
  if r.1.isNone then { s with pending := s.pending ++ [s.current] } else s

def step (cb : CircuitBreaker) (s : Tracked) : Call → Option Tracked
  | .allow now => some (s.allowed (cb.allow now s.breaker))
  | .report i success now =>
    s.pending[i]?.map fun p =>
      let after := cb.report success now s.breaker
      let succeeded := if success ∧ s.breaker.state = .halfOpen ∧ p = some s.period then
        s.succeeded + 1 else s.succeeded
      { s with
        breaker := after
        pending := s.pending.eraseIdx i
        succeeded := succeeded
        closings := if s.breaker.state = .halfOpen ∧ after.state = .closed then
          s.closings ++ [succeeded] else s.closings }
  | .state now => some (s.enter (s.breaker.current now))

def system (cb : CircuitBreaker) : Transition.System Tracked Call where
  init s := s = ⟨.new, 0, [], 0, []⟩
  step := step cb

/-- A success that is reported in a half-open period is one of a request of this period. -/
def OwnSuccess (s : Tracked) : Call → Prop
  | .report i success _ => success = true → s.breaker.state = .halfOpen → s.pending[i]? = some (some s.period)
  | .allow _ | .state _ => True

instance (s : Tracked) (a : Call) : Decidable (s.OwnSuccess a) :=
  match a with
  | .report _ _ _ => inferInstanceAs (Decidable (_ → _))
  | .allow _ | .state _ => .isTrue trivial

/-- The counters count the requests of the present period. -/
structure Counted (cb : CircuitBreaker) (s : Tracked) : Prop where
  known : ∀ k, some k ∈ s.pending → k ≤ s.period
  inFlight : s.breaker.state = .halfOpen → s.pending.count (some s.period) = s.breaker.halfOpenInFlight
  room : s.breaker.state = .halfOpen → s.breaker.halfOpenInFlight ≤ cb.halfOpenRequests
  success : s.breaker.state = .halfOpen → s.breaker.halfOpenSuccess = s.succeeded
  closings : ∀ n ∈ s.closings, cb.halfOpenRequests ≤ n

variable {cb : CircuitBreaker} {s : Tracked}

theorem counted_init : Counted cb ⟨.new, 0, [], 0, []⟩ := by
  constructor <;> simp [State.new]

/-- No request of a period that is yet to come. -/
theorem Counted.count_next (h : Counted cb s) : s.pending.count (some (s.period + 1)) = 0 := by
  refine List.count_eq_zero.2 fun hmem => ?_
  have := h.known _ hmem
  omega

theorem Counted.halfOpen (h : Counted cb s) (hopen : s.breaker.state = .opened) :
    Counted cb (s.enter s.breaker.halfOpen) := by
  have hstart : s.enter s.breaker.halfOpen =
      { s with breaker := s.breaker.halfOpen, period := s.period + 1, succeeded := 0 } := by
    simp [enter, hopen, State.halfOpen]
  rw [hstart]
  refine ⟨fun k hk => (h.known k hk).trans (Nat.le_succ _), fun _ => h.count_next, ?_, ?_, h.closings⟩
  · simp [State.halfOpen]
  · simp [State.halfOpen]

theorem enter_self (s : Tracked) : s.enter s.breaker = s := by
  simp [enter]

theorem Counted.probe (h : Counted cb s) (hst : s.breaker.state = .halfOpen)
    (hroom : s.breaker.halfOpenInFlight < cb.halfOpenRequests) :
    Counted cb { s with
      breaker := { s.breaker with halfOpenInFlight := s.breaker.halfOpenInFlight + 1 }
      pending := s.pending ++ [some s.period] } := by
  refine ⟨?_, fun _ => ?_, fun _ => hroom, h.success, h.closings⟩
  · intro k hk
    rcases List.mem_append.1 hk with hk | hk
    · exact h.known k hk
    · exact (Option.some.inj (List.mem_singleton.1 hk)).le
  · simp [h.inFlight hst]

theorem Counted.allowed (h : Counted cb s) {r : Option PluginError × State} (hr : Allowed cb s.breaker r) :
    Counted cb (s.allowed r) := by
  cases hr with
  | closed hst =>
    have hs : s.allowed (none, s.breaker) = { s with pending := s.pending ++ [none] } := by
      simp [Tracked.allowed, enter_self, current, hst]
    rw [hs]
    refine ⟨fun k hk => h.known k (by simpa using hk), ?_, ?_, ?_, h.closings⟩ <;> simp [hst]
  | rejected => simpa [Tracked.allowed, enter_self] using h
  | first hst =>
    -- the period starts, and then there is its first probe
    have hstart := h.halfOpen hst
    simp only [enter, hst, State.halfOpen, reduceCtorEq, ne_eq, not_false_eq_true, and_self, if_true] at hstart
    simpa [Tracked.allowed, enter, hst, current, State.halfOpen] using hstart.probe rfl cb.halfOpenRequests_pos
  | probe hst hroom => simpa [Tracked.allowed, enter, hst, current] using h.probe hst hroom

/-- Outside half-open periods there is nothing to count. -/
theorem counted_of_not_halfOpen (hst : s.breaker.state ≠ .halfOpen) (hknown : ∀ k, some k ∈ s.pending → k ≤ s.period)
    (hclosings : ∀ n ∈ s.closings, cb.halfOpenRequests ≤ n) : Counted cb s :=
  ⟨hknown, fun h => absurd h hst, fun h => absurd h hst, fun h => absurd h hst, hclosings⟩

theorem count_eraseIdx {l : List (Option Nat)} {i : Nat} {p : Option Nat} (h : l[i]? = some p) :
    (l.eraseIdx i).count p + 1 = l.count p := by
  obtain ⟨hi, hget⟩ := List.getElem?_eq_some_iff.1 h
  have hperm := (List.getElem_cons_eraseIdx_perm hi).count_eq p
  rwa [hget, List.count_cons_self] at hperm

/-- A success of the period itself is one of its probes. -/
theorem Counted.report (h : Counted cb s) {i : Nat} {success : Bool} {now : Int} {t : Tracked}
    (hok : s.OwnSuccess (.report i success now)) (hstep : step cb s (.report i success now) = some t) :
      Counted cb t := by
  obtain ⟨p, hp, rfl⟩ := Option.map_eq_some_iff.1 hstep
  have hknown : ∀ k, some k ∈ s.pending.eraseIdx i → k ≤ s.period := fun k hk => h.known k (List.mem_of_mem_eraseIdx hk)
  by_cases hst : s.breaker.state = .halfOpen
  · cases success with
    | false =>
      have hopen := cb.report_halfOpen_failure now hst
      refine counted_of_not_halfOpen (by simp [hopen]) hknown ?_
      simpa [hopen] using h.closings
    | true =>
      have hown : p = some s.period := Option.some.inj (hp.symm.trans (hok rfl hst))
      subst hown
      have hcount := count_eraseIdx hp
      rcases cb.report_halfOpen_success now hst with ⟨hle, hclosed⟩ | ⟨hhalf, hin, hsucc⟩
      · refine counted_of_not_halfOpen (by simp [hclosed]) hknown ?_
        intro n hn
        simp only [hst, hclosed, and_self, if_true, List.mem_append, List.mem_singleton] at hn
        rcases hn with hn | rfl
        · exact h.closings n hn
        · rwa [← h.success hst]
      · have hroom := h.room hst
        have hflight := h.inFlight hst
        refine ⟨hknown, fun _ => ?_, fun _ => ?_, fun _ => ?_, ?_⟩
        · simp only [hin]
          omega
        · simp only [hin]
          omega
        · simp [hsucc, hst, h.success hst]
        · simpa [hhalf] using h.closings
  · refine counted_of_not_halfOpen (cb.report_not_halfOpen success now hst) hknown ?_
    simpa [hst] using h.closings

/-- **The half-open accounting**: in every run in which the successes of a half-open period are its own, no more than
`HalfOpenRequests` of the requests of a period are without a report while it lasts, and no period ends with the
breaker closed before as many of its requests have succeeded. -/
theorem halfOpen_accounted (cfg : CircuitBreakerConfig) {s : Tracked}
    (h : Transition.Reach (system (newCircuitBreaker cfg)) OwnSuccess s) :
    (s.breaker.state = .halfOpen → s.pending.count (some s.period) ≤ (newCircuitBreaker cfg).halfOpenRequests) ∧
      ∀ n ∈ s.closings, (newCircuitBreaker cfg).halfOpenRequests ≤ n := by
  have hcounted : Counted (newCircuitBreaker cfg) s := by
    refine Transition.Reach.invariant ?_ ?_ h
    · rintro s rfl
      exact counted_init
    · intro s a t _ hs hok hstep
      cases a with
      | allow now =>
        obtain rfl := Option.some.inj hstep
        exact hs.allowed (CircuitBreaker.allow_cases _ now s.breaker)
      | report i success now => exact hs.report hok hstep
      | state now =>
        obtain rfl := Option.some.inj hstep
        rcases s.breaker.current_cases now with hsame | ⟨hopen, hhalf⟩
        · rwa [hsame, enter_self]
        · rw [hhalf]
          exact hs.halfOpen hopen
  refine ⟨fun hst => ?_, hcounted.closings⟩
  rw [hcounted.inFlight hst]
  exact hcounted.room hst

/-- It opens after one failure, for a nanosecond, and two requests must succeed. -/
def twoProbes : CircuitBreakerConfig := ⟨1 / 2, 1, 1, 2, 0⟩

/-- A request fails; two probes are let through and succeed. -/
def recovery : List Call :=
  [.allow 0, .report 0 false 0, .allow 1, .allow 1, .report 0 true 2, .report 0 true 3]

theorem halfOpen_accounted_recovery :
    ∃ s, Transition.Reach (system (newCircuitBreaker twoProbes)) OwnSuccess s ∧ s.closings = [2] ∧
      ∀ n ∈ s.closings, (newCircuitBreaker twoProbes).halfOpenRequests ≤ n := by
  have hrun : ((system (newCircuitBreaker twoProbes)).exec OwnSuccess ⟨.new, 0, [], 0, []⟩ recovery).map
      Tracked.closings = some [2] := by
    decide +kernel
  obtain ⟨s, hs, hclosings⟩ := Option.map_eq_some_iff.1 hrun
  have hreach : Transition.Reach (system (newCircuitBreaker twoProbes)) OwnSuccess s :=
    ⟨_, rfl, Transition.Run.of_exec recovery hs⟩
  exact ⟨s, hreach, hclosings, (halfOpen_accounted twoProbes hreach).2⟩

/-- Three requests are let through, and one of them fails. Two probes are let through; one of the first three succeeds,
and a third probe is let through. -/
def straggler : List Call :=
  [.allow 0, .allow 0, .allow 0, .report 0 false 0, .allow 1, .allow 1, .report 0 true 2, .allow 2]

/-- **The success of no probe**: there are three probes at a time where two are allowed, and after another success of
the first requests the breaker is closed although none of its probes has succeeded. -/
theorem success_of_nobody :
    (∃ s, Transition.Reach (system (newCircuitBreaker twoProbes)) (fun _ _ => True) s ∧ s.breaker.state = .halfOpen ∧
        (newCircuitBreaker twoProbes).halfOpenRequests < s.pending.count (some s.period)) ∧
      ∃ s, Transition.Reach (system (newCircuitBreaker twoProbes)) (fun _ _ => True) s ∧ s.closings = [0] := by
  have hprobes : ((system (newCircuitBreaker twoProbes)).exec (fun _ _ => True) ⟨.new, 0, [], 0, []⟩ straggler).map
      (fun s => (s.breaker.state, s.pending.count (some s.period))) = some (.halfOpen, 3) := by
    decide +kernel
  have hclosed : ((system (newCircuitBreaker twoProbes)).exec (fun _ _ => True) ⟨.new, 0, [], 0, []⟩
      (straggler ++ [.report 0 true 3])).map Tracked.closings = some [0] := by
    decide +kernel
  obtain ⟨s, hs, hview⟩ := Option.map_eq_some_iff.1 hprobes
  obtain ⟨t, ht, hclosings⟩ := Option.map_eq_some_iff.1 hclosed
  refine ⟨⟨s, ⟨_, rfl, Transition.Run.of_exec _ hs⟩, congrArg Prod.fst hview, ?_⟩, t,
    ⟨_, rfl, Transition.Run.of_exec _ ht⟩,
    hclosings⟩
  have hcount : s.pending.count (some s.period) = 3 := congrArg Prod.snd hview
  rw [hcount]
  decide

end Tracked

end Gateway
