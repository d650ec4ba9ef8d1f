import ApiCerberus.Gateway.Attempts
import ApiCerberus.Gateway.Breaker
import ApiCerberus.Gateway.Serve

/-!
# Probes and their reports

The breaker of a route is asked in the pipeline (`ServeHTTP`, `internal/gateway/server.go:283-322`), and learns what
became of a request from the hooks after an attempt (`internal/plugin/registry.go:480-500`). A request that is let
through and then turned away, or served by the federation, runs no hook. A request that is retried runs them after every
attempt. A probe without a report takes its place for good: once `HalfOpenRequests` of them are lost, the breaker is
half-open and lets nothing through (`probe_lost`). If every probe comes to its first attempt and is not retried, every
probe reports once (`probes_accounted`).
-/

namespace Gateway

open Attempts

/-! ## Reports -/

/-- What the breaker is told. -/
def Action.report? : Action → Option Bool
  | .afterProxy err => some err.isNone
  | _ => none

def reports (events : List Attempts.Event) : List Bool :=
  (events.filterMap Attempts.Event.action?).filterMap Action.report?

/-- `proxyRetry` asks for another attempt. -/
def Retry.retries (policy : Retry) (method : Text) (attempt : Nat) (readTimeout : Int)
    (result : Except ProxyError Reply) : Bool :=
  match roundTrip readTimeout result with
  | .error err => policy.shouldRetry method attempt 0 (some err)
  | .ok resp => policy.shouldRetry method attempt resp.statusCode none

/-- There is a first attempt, and no second one. -/
def attemptsOnce (retryPolicy : Option Retry) (readTimeout : Int) (method : Text) (w : Nat → Exchange) : Bool :=
  (w 0).selection = .found &&
    match retryPolicy with
    | none => true
    | some policy =>
      !policy.retries method 0 readTimeout (w 0).result || (w 0).gone || rounds (some policy) method = 1 ||
        (w 1).selection ≠ .found

section Reports

variable {χ : Type} {route : Route χ} {retryPolicy : Option Retry} {readTimeout : Int} {checker : Bool}
  {w : Nat → Exchange} {r : HttpRequest}

@[simp] theorem reports_append (l l' : List Attempts.Event) : reports (l ++ l') = reports l ++ reports l' := by
  simp [reports]

@[simp] theorem reports_nil : reports [] = [] := rfl

@[simp] theorem reports_gone : reports [.gone] = [] := rfl

@[simp] theorem reports_refused (reason code : Reason) : reports [.blocked reason, .errorRoute code] = [] := rfl

@[simp] theorem reports_exhausted : reports [.blocked .retriesExhausted, .action .exhausted] = [] := rfl

@[simp] theorem reports_found (t : Text) (l : List Attempts.Event) : reports (.next t :: .forward t :: l) = reports l :=
  rfl

@[simp] theorem reports_send (x : Exchange) : reports (send route r x).1 = [] := by
  simp [reports]

theorem report?_finish (a : Attempt) : a.finish.actions.filterMap Action.report? = [a.err.isNone] := by
  simp [Attempt.finish, Action.report?]

theorem reports_forwardOnce (x : Exchange) :
    reports (forwardOnce readTimeout checker x) = [(proxyForward readTimeout x.result x.fails).err.isNone] := by
  rw [reports, passes_action?.forwardOnce, filterMap_action?]
  exact report?_finish _

theorem reports_retryOnce (policy : Retry) (method : Text) (attempt : Nat) (x : Exchange) :
    reports (retryOnce readTimeout checker policy method attempt x).1 =
      [(proxyRetry policy method attempt readTimeout x.result x.fails).err.isNone] := by
  rw [reports, passes_action?.retryOnce, filterMap_action?]
  unfold proxyRetry
  split <;> split
  · simp [Action.report?]
  · exact report?_finish _
  · simp [Action.report?]
  · exact report?_finish _

theorem retryOnce_last (policy : Retry) (method : Text) (attempt : Nat) (x : Exchange) :
    (retryOnce readTimeout checker policy method attempt x).2 =
      !policy.retries method attempt readTimeout x.result := by
  simp only [retryOnce, proxyRetry, Retry.retries]
  split
  · split <;> simp [Attempt.finish, *]
  · split <;> simp [Attempt.finish, *]

/-- An attempt reports iff it has a target. -/
theorem reports_attempts_eq_nil (w : Nat → Exchange) (left attempt : Nat) (r : HttpRequest) :
    reports (attempts route retryPolicy readTimeout checker w (left + 1) attempt r) = [] ↔
      (w attempt).selection ≠ .found := by
  rw [attempts]
  split
  · rename_i h
    simp [h]
  · rename_i h
    simp [h]
  · rename_i h
    split <;> simp [reports_forwardOnce, reports_retryOnce, h]

/-- **One report** for a request that comes to the proxy iff there is exactly one attempt. -/
theorem length_reports_eq_one (pool : Bool) (r : HttpRequest) :
    (reports (Attempts.executeProxyChain route retryPolicy readTimeout checker pool w r)).length = 1 ↔
      pool = true ∧ attemptsOnce retryPolicy readTimeout r.method w = true := by
  cases pool with
  | false => simp [Attempts.executeProxyChain]
  | true =>
    obtain ⟨left, hleft⟩ := rounds_pos retryPolicy r.method
    simp only [Attempts.executeProxyChain, if_true, true_and, hleft, attempts, attemptsOnce]
    cases hsel : (w 0).selection with
    | noHealthyTargets => simp
    | failed => simp
    | found =>
      cases retryPolicy with
      | none => simp [reports_forwardOnce]
      | some policy =>
        simp only [reports_append, reports_found, reports_send, reports_retryOnce, retryOnce_last, hleft]
        by_cases hretries : policy.retries r.method 0 readTimeout (w 0).result = true
        · cases (w 0).gone with
          | true => simp [hretries]
          | false =>
            cases left with
            | zero => simp [hretries, attempts]
            | succ left => simp [hretries, reports_attempts_eq_nil]
        · simp [hretries]

end Reports

/-! ## A route with a breaker -/

variable {χ π : Type}

/-- A route, and its pipeline around the breaker. -/
structure Site (χ π : Type) where
  server : Server χ π
  route : Route χ
  service : Service
  breaker : CircuitBreaker
  /-- What a plugin `retry` puts into the context. -/
  retryPolicy : Option Retry
  /-- There is a health checker. -/
  checker : Bool
  before : List (PipelinePlugin π)
  plugin : PipelinePlugin π
  behind : List (PipelinePlugin π)
  name_eq : plugin.name = .circuitBreaker
  chain_eq : server.pipelines.chainFor route = before ++ plugin :: behind

/-- A request of the route, and what the world does to it. -/
structure Visit (π : Type) where
  world : Outside π
  caches : Caches
  request : Request
  http : HttpRequest
  /-- The upstream of the service is there. -/
  pool : Bool
  upstream : Nat → Exchange

namespace Site

variable (site : Site χ π) (v : Visit π)

/-- The plugins before the breaker. -/
def arrives : Ctx × Except PluginError Bool :=
  execute site.server v.world v.caches site.route site.before ⟨v.request, none, none, []⟩

/-- The context with which a request that the breaker has let through comes to the proxy. -/
def reaches (ctx : Ctx) : Option Ctx :=
  match execute site.server v.world v.caches site.route site.behind ctx with
  | (ctx, .ok false) =>
    match executeAuthChain site.server v.world site.route ctx with
    | .ok ctx =>
      if v.world.billing && !(site.service.protocol = "graphql".toList && site.server.federationEnabled) then some ctx
      else none
    | .error _ => none
  | _ => none

/-- What the proxy does with a request that the breaker has let through. -/
def steps (ctx : Ctx) : List Attempts.Event :=
  match site.reaches v ctx with
  | none => []
  | some ctx =>
    Attempts.executeProxyChain site.route site.retryPolicy site.service.readTimeout site.checker v.pool v.upstream
      { v.http with method := ctx.request.method, path := ctx.request.path }

/-- Nothing turns the request away, and it is attempted once. -/
def attemptedOnce (ctx : Ctx) : Bool :=
  match site.reaches v ctx with
  | none => false
  | some ctx => v.pool && attemptsOnce site.retryPolicy site.service.readTimeout ctx.request.method v.upstream

variable {site v}

theorem length_reports_steps (ctx : Ctx) :
    (reports (site.steps v ctx)).length = 1 ↔ site.attemptedOnce v ctx = true := by
  unfold steps attemptedOnce
  split
  · simp
  · rw [length_reports_eq_one, Bool.and_eq_true]

theorem execute_append (g : Server χ π) (w : Outside π) (caches : Caches) (route : Route χ)
    (l l' : List (PipelinePlugin π)) (ctx : Ctx) :
    execute g w caches route (l ++ l') ctx =
      match execute g w caches route l ctx with
      | (ctx, .ok false) => execute g w caches route l' ctx
      | r => r := by
  induction l generalizing ctx with
  | nil => rfl
  | cons p l ih =>
    simp only [List.cons_append, execute]
    split
    · rfl
    · rfl
    · split
      · rfl
      · exact ih _

theorem aborted_of_execute {g : Server χ π} {w : Outside π} {caches : Caches} {route : Route χ}
    {l : List (PipelinePlugin π)}
    {ctx ctx' : Ctx} (h : execute g w caches route l ctx = (ctx', .ok false)) (hctx : ctx.aborted = none) :
    ctx'.aborted = none := by
  induction l generalizing ctx with
  | nil =>
    cases h
    exact hctx
  | cons p l ih =>
    rw [execute] at h
    split at h
    · cases h
    · cases h
    · split at h
      · cases h
      · rename_i hnone
        exact ih h (by simpa using hnone)

/-- The breaker in the pipeline, if its answer there is the one that it gives here. -/
theorem execute_chain {ctx : Ctx}
    (hbreaker : ∀ request, v.world.other site.plugin request =
      ⟨request.method, request.path, request.header, .ok false⟩)
    (harrives : site.arrives v = (ctx, .ok false)) :
    execute site.server v.world v.caches site.route (site.server.pipelines.chainFor site.route)
      ⟨v.request, none, none, []⟩ =
      execute site.server v.world v.caches site.route site.behind ctx := by
  have hctx : ctx.aborted = none := aborted_of_execute harrives rfl
  have hrun : runPlugin site.server v.world v.caches site.route site.plugin ctx = (ctx, .ok false) := by
    simp [runPlugin, site.name_eq, hbreaker]
  unfold arrives at harrives
  rw [site.chain_eq, execute_append, harrives]
  simp [execute, hrun, hctx]

/-- A request that comes to the proxy here is one that `serveRoute` takes there. -/
theorem reached_of_reaches {m : Matched χ} {request : Request} {ctx ctx' : Ctx} (hroute : m.route = site.route)
    (hservice : m.service = site.service) (hrequest : { request with path := m.path } = v.request)
    (hbreaker : ∀ request, v.world.other site.plugin request =
      ⟨request.method, request.path, request.header, .ok false⟩)
    (harrives : site.arrives v = (ctx, .ok false)) (hreaches : site.reaches v ctx = some ctx') :
    (serveRoute site.server v.world v.caches m request).outcome = .reached ctx'.consumer := by
  simp only [serveRoute, hroute, hservice, hrequest, execute_chain hbreaker harrives]
  unfold reaches at hreaches
  split at hreaches
  · rename_i hexec
    split at hreaches
    · rename_i hauth
      split at hreaches
      · rename_i hpass
        cases hreaches
        simp only [Bool.and_eq_true, Bool.not_eq_true'] at hpass
        simp only [hexec, hauth, hpass.1, hpass.2, Bool.not_true, Bool.false_eq_true, if_false, serveUpstream]
        split <;> rfl
      · cases hreaches
    · cases hreaches
  · cases hreaches

end Site

/-! ## Requests at the same time -/

/-- A request that the breaker has let through. -/
structure Flight where
  /-- The half-open period in which that was, if it was in one. -/
  period : Option Nat
  /-- The reports that it is yet to make. -/
  due : List Bool
  reported : Nat

/-- A probe of the period that has not reported. -/
def Flight.isOut (period : Nat) (f : Flight) : Bool := f.period = some period && !f.due.isEmpty

/-- The breaker, and the requests that it has let pass. -/
structure Probes where
  breaker : CircuitBreaker.State
  /-- The number of half-open periods so far. -/
  period : Nat
  flights : List Flight
  /-- The requests that have ended, with the numbers of their reports. -/
  ended : List (Option Nat × Nat)

namespace Probes

open CircuitBreaker

inductive Action (π : Type)
  | arrive (v : Visit π) (now : Int)
  /-- A request makes its next report. -/
  | report (i : Nat) (now : Int)
  /-- A request without further reports ends. -/
  | leave (i : Nat)
  | state (now : Int)

/-- After a call that may start a period. -/
def enter (s : Probes) (after : State) : Probes :=
  { s with
    breaker := after
    period := if s.breaker.state ≠ .halfOpen ∧ after.state = .halfOpen then s.period + 1 else s.period }

/-- The period of a request that is let through now. -/
def current (s : Probes) : Option Nat := if s.breaker.state = .halfOpen then some s.period else none

/-- After `Allow`, for a request that would make the reports `due`. -/
def allowed (s : Probes) (r : Option PluginError × State) (due : List Bool) : Probes :=
  let s := s.enter r.2
  if r.1.isNone then { s with flights := s.flights ++ [⟨s.current, due, 0⟩] } else s

/-- Requests come, report and leave, in any order. -/
def step (site : Site χ π) (s : Probes) : Action π → Option Probes
  | .arrive v now =>
    match site.arrives v with
    | (ctx, .ok false) => some (s.allowed (site.breaker.allow now s.breaker) (reports (site.steps v ctx)))
    | _ => some s
  | .report i now =>
    match s.flights[i]? with
    | some ⟨period, success :: due, reported⟩ =>
      some { s with
        breaker := site.breaker.report success now s.breaker
        flights := s.flights.set i ⟨period, due, reported + 1⟩ }
    | _ => none
  | .leave i =>
    match s.flights[i]? with
    | some ⟨period, [], reported⟩ =>
      some { s with flights := s.flights.eraseIdx i, ended := s.ended ++ [(period, reported)] }
    | _ => none
  | .state now => some (s.enter (s.breaker.current now))

def system (site : Site χ π) : Transition.System Probes (Action π) where
  init s := s = ⟨.new, 0, [], []⟩
  step := step site

/-- A request that is let through by a breaker that is not closed is attempted once. -/
def probesOnce (site : Site χ π) (s : Probes) : Action π → Bool
  | .arrive v now =>
    match site.arrives v with
    | (ctx, .ok false) =>
      s.breaker.state = .closed || (site.breaker.allow now s.breaker).1.isSome || site.attemptedOnce v ctx
    | _ => true
  | .report _ _ | .leave _ | .state _ => true

/-- Every probe reports once, and those that are counted are still to report. -/
structure Accounted (s : Probes) : Prop where
  known : ∀ f ∈ s.flights, ∀ k, f.period = some k → k ≤ s.period
  once : ∀ f ∈ s.flights, f.period.isSome → f.due.length + f.reported = 1
  ended : ∀ e ∈ s.ended, e.1.isSome → e.2 = 1
  inFlight : s.breaker.state = .halfOpen → s.breaker.halfOpenInFlight ≤ s.flights.countP (Flight.isOut s.period)

variable {site : Site χ π} {s : Probes}

theorem accounted_init : Accounted ⟨.new, 0, [], []⟩ := by
  constructor <;> simp [State.new]

theorem Accounted.halfOpen (h : s.Accounted) : (s.enter s.breaker.halfOpen).Accounted := by
  refine ⟨fun f hf k hk => (h.known f hf k hk).trans ?_, h.once, h.ended, fun _ => Nat.zero_le _⟩
  simp only [enter]
  split <;> omega

theorem enter_self (s : Probes) : s.enter s.breaker = s := by
  simp [enter]

variable {due : List Bool}

/-- Another probe is let through. -/
theorem Accounted.probe (h : s.Accounted) (hst : s.breaker.state = .halfOpen) (hdue : due.length = 1) :
    Accounted { s with
      breaker := { s.breaker with halfOpenInFlight := s.breaker.halfOpenInFlight + 1 }
      flights := s.flights ++ [⟨some s.period, due, 0⟩] } := by
  have hout : due.isEmpty = false := by
    cases due with
    | nil => cases hdue
    | cons => rfl
  refine ⟨?_, ?_, h.ended, fun _ => ?_⟩
  · intro f hf k hk
    rcases List.mem_append.1 hf with hf | hf
    · exact h.known f hf k hk
    · rw [List.mem_singleton.1 hf] at hk
      exact (Option.some.inj hk).ge
  · intro f hf hsome
    rcases List.mem_append.1 hf with hf | hf
    · exact h.once f hf hsome
    · rw [List.mem_singleton.1 hf]
      simpa using hdue
  · have hle := h.inFlight hst
    simpa [List.countP_append, Flight.isOut, hout] using hle

theorem Accounted.allowed (h : s.Accounted) {r : Option PluginError × State} (hr : Allowed site.breaker s.breaker r)
    (hdue : s.breaker.state ≠ .closed → r.1 = none → due.length = 1) : (s.allowed r due).Accounted := by
  cases hr with
  | closed hst =>
    have hs : s.allowed (none, s.breaker) due = { s with flights := s.flights ++ [⟨none, due, 0⟩] } := by
      simp [Probes.allowed, enter_self, current, hst]
    rw [hs]
    refine ⟨?_, ?_, h.ended, fun hc => ?_⟩
    · intro f hf k hk
      rcases List.mem_append.1 hf with hf | hf
      · exact h.known f hf k hk
      · rw [List.mem_singleton.1 hf] at hk
        cases hk
    · intro f hf hsome
      rcases List.mem_append.1 hf with hf | hf
      · exact h.once f hf hsome
      · rw [List.mem_singleton.1 hf] at hsome
        cases hsome
    · rw [hst] at hc
      cases hc
  | rejected => simpa [Probes.allowed, enter_self] using h
  | first hst =>
    -- the period starts, and then there is its first probe
    have hstart := h.halfOpen
    simp only [enter, hst, State.halfOpen, reduceCtorEq, ne_eq, not_false_eq_true, and_self, if_true] at hstart
    simpa [Probes.allowed, enter, hst, current, State.halfOpen] using hstart.probe rfl (hdue (by simp [hst]) rfl)
  | probe hst hroom =>
    simpa [Probes.allowed, enter, hst, current] using h.probe hst (hdue (by simp [hst]) rfl)

/-- A probe that reports is no longer out. -/
theorem Accounted.report (h : s.Accounted) {i : Nat} {period : Option Nat} {success : Bool} {reported : Nat}
    {now : Int} (hi : s.flights[i]? = some ⟨period, success :: due, reported⟩) :
    Accounted { s with
      breaker := site.breaker.report success now s.breaker
      flights := s.flights.set i ⟨period, due, reported + 1⟩ } := by
  obtain ⟨hlt, hget⟩ := List.getElem?_eq_some_iff.1 hi
  have hmem : ⟨period, success :: due, reported⟩ ∈ s.flights := List.mem_of_getElem? hi
  refine ⟨?_, ?_, h.ended, fun hhalf => ?_⟩
  · intro f hf k hk
    rcases List.mem_or_eq_of_mem_set hf with hf | rfl
    · exact h.known f hf k hk
    · exact h.known _ hmem k hk
  · intro f hf hsome
    rcases List.mem_or_eq_of_mem_set hf with hf | rfl
    · exact h.once f hf hsome
    · have honce := h.once _ hmem hsome
      simp only [List.length_cons] at honce ⊢
      omega
  · have hst : s.breaker.state = .halfOpen := by
      by_contra hst
      exact site.breaker.report_not_halfOpen success now hst hhalf
    cases success with
    | false =>
      rw [site.breaker.report_halfOpen_failure now hst] at hhalf
      cases hhalf
    | true =>
      rcases site.breaker.report_halfOpen_success now hst with ⟨-, hclosed⟩ | ⟨-, hin, -⟩
      · rw [hclosed] at hhalf
        cases hhalf
      · -- one place is freed, and at most one probe is no longer out
        have hle := h.inFlight hst
        simp only [hin, List.countP_set hlt]
        split <;> split <;> omega

theorem Accounted.leave (h : s.Accounted) {i : Nat} {period : Option Nat} {reported : Nat}
    (hi : s.flights[i]? = some ⟨period, [], reported⟩) :
    Accounted { s with flights := s.flights.eraseIdx i, ended := s.ended ++ [(period, reported)] } := by
  obtain ⟨hlt, hget⟩ := List.getElem?_eq_some_iff.1 hi
  have hmem : ⟨period, [], reported⟩ ∈ s.flights := List.mem_of_getElem? hi
  refine ⟨fun f hf => h.known f (List.mem_of_mem_eraseIdx hf),
    fun f hf => h.once f (List.mem_of_mem_eraseIdx hf), ?_, ?_⟩
  · intro e he hsome
    rcases List.mem_append.1 he with he | he
    · exact h.ended e he hsome
    · rw [List.mem_singleton.1 he] at hsome ⊢
      simpa using h.once _ hmem hsome
  · intro hst
    have hperm := (List.getElem_cons_eraseIdx_perm hlt).countP_eq (Flight.isOut s.period)
    rw [hget, List.countP_cons_of_neg (by simp [Flight.isOut])] at hperm
    simp only [hperm]
    exact h.inFlight hst

/-- A probe that reports once is counted once. -/
theorem Accounted.step (h : s.Accounted) {a : Action π} (hok : probesOnce site s a = true) {t : Probes}
    (hstep : step site s a = some t) : t.Accounted := by
  cases a with
  | arrive v now =>
    simp only [Probes.step] at hstep
    split at hstep
    · rename_i ctx harrives
      obtain rfl := Option.some.inj hstep
      refine h.allowed (site.breaker.allow_cases now s.breaker) fun hst hnone => ?_
      simp only [probesOnce, harrives, hst, hnone, decide_false, Option.isSome_none, Bool.false_or] at hok
      exact (Site.length_reports_steps ctx).2 hok
    · obtain rfl := Option.some.inj hstep
      exact h
  | report i now =>
    simp only [Probes.step] at hstep
    split at hstep
    · rename_i hi
      obtain rfl := Option.some.inj hstep
      exact h.report hi
    · cases hstep
  | leave i =>
    simp only [Probes.step] at hstep
    split at hstep
    · rename_i hi
      obtain rfl := Option.some.inj hstep
      exact h.leave hi
    · cases hstep
  | state now =>
    obtain rfl := Option.some.inj hstep
    rcases s.breaker.current_cases now with hsame | ⟨-, hhalf⟩
    · rwa [hsame, enter_self]
    · rw [hhalf]
      exact h.halfOpen

/-- **Every probe reports once**: in every run in which the probes are attempted exactly once, no probe has ended with
more or fewer than one report, and a half-open breaker without requests under way lets the next one through. -/
theorem probes_accounted (site : Site χ π) {s : Probes}
    (h : Transition.Reach (system site) (fun s a => probesOnce site s a) s) :
    (∀ e ∈ s.ended, e.1.isSome → e.2 = 1) ∧
      (s.breaker.state = .halfOpen → s.flights = [] →
        s.breaker.halfOpenInFlight = 0 ∧ ∀ now, (site.breaker.allow now s.breaker).1 = none) := by
  have hacc : s.Accounted := by
    refine Transition.Reach.invariant ?_ (fun s a t _ hs hok hstep => hs.step hok hstep) h
    rintro s rfl
    exact accounted_init
  refine ⟨hacc.ended, fun hst hidle => ?_⟩
  have hzero : s.breaker.halfOpenInFlight = 0 := by
    have hle := hacc.inFlight hst
    rw [hidle] at hle
    exact Nat.le_zero.1 hle
  refine ⟨hzero, fun now => ?_⟩
  have hroom : ¬ site.breaker.halfOpenRequests ≤ 0 := not_le.2 site.breaker.halfOpenRequests_pos
  simp [CircuitBreaker.allow, hst, allowProbe, hzero, hroom]

/-! ### A probe without a target -/

def probedRoute : Route Unit := ⟨"r1".toList, "users".toList, "users".toList, [], ["/users".toList], [], false, 0, []⟩

/-- One route with nothing but a breaker, which opens after one failure, for a nanosecond, and lets one probe
through. -/
def probedSite : Site Unit Unit where
  server :=
    { router := ⟨.empty, .new, []⟩
      pipelines := ⟨FinMap.empty.set "r1".toList [⟨0, .circuitBreaker, ()⟩], .empty⟩
      authRequired := false
      hasAuthAPIKey := true
      federationEnabled := false
      canCache := fun _ _ => false
      cacheKey := fun _ _ => [] }
  route := probedRoute
  service := ⟨"s1".toList, "users".toList, "http".toList, "up".toList, 0⟩
  breaker := newCircuitBreaker ⟨1 / 2, 1, 1, 1, 0⟩
  retryPolicy := none
  checker := true
  before := []
  plugin := ⟨0, .circuitBreaker, ()⟩
  behind := []
  name_eq := rfl
  chain_eq := rfl

/-- A `GET`; the plugins and the billing let it pass. -/
def probedVisit (exchange : Exchange) : Visit Unit where
  world :=
    { bodyRejected := false
      apiKey := fun _ => .ok none
      pluginKey := fun _ _ => .ok none
      jwt := fun _ _ => .ok (none, .empty)
      lookup := none
      now := ⟨0, 0, 0, 0⟩
      other := fun _ request => ⟨request.method, request.path, request.header, .ok false⟩
      fresh := fun _ => false
      billing := true
      federation := false
      upstream := none
      stores := fun _ => false }
  caches := .empty
  request := ⟨"GET".toList, [], "/users".toList, .empty⟩
  http := ⟨"GET".toList, "/users".toList, [], 0, .noBody, none⟩
  pool := true
  upstream := fun _ => exchange

def noTarget : Exchange := { breaksOff with selection := .noHealthyTargets }

/-- A request fails, and the probe, too. -/
def failsTwice : List (Action Unit) :=
  [.arrive (probedVisit breaksOff) 0, .report 0 0, .leave 0, .arrive (probedVisit breaksOff) 1, .report 0 1, .leave 0,
    .state 2]

theorem probes_accounted_failsTwice :
    ∃ s, Transition.Reach (system probedSite) (fun s a => probesOnce probedSite s a) s ∧ s.breaker.state = .halfOpen ∧
      s.ended = [(none, 1), (some 1, 1)] ∧ s.breaker.halfOpenInFlight = 0 := by
  have hrun : ((system probedSite).exec (fun s a => probesOnce probedSite s a) ⟨.new, 0, [], []⟩ failsTwice).map
      (fun s => (s.breaker.state, s.ended, s.flights.length)) = some (.halfOpen, [(none, 1), (some 1, 1)], 0) := by
    decide +kernel
  obtain ⟨s, hs, hview⟩ := Option.map_eq_some_iff.1 hrun
  simp only [Prod.mk.injEq] at hview
  have hreach : Transition.Reach (system probedSite) (fun s a => probesOnce probedSite s a) s :=
    ⟨_, rfl, Transition.Run.of_exec failsTwice hs⟩
  have hidle := (probes_accounted probedSite hreach).2 hview.1 (List.eq_nil_of_length_eq_zero hview.2.2)
  exact ⟨s, hreach, hview.1, hview.2.1, hidle.1⟩

/-- A request fails, and there is no target for the probe. -/
def failsOnce : List (Action Unit) :=
  [.arrive (probedVisit breaksOff) 0, .report 0 0, .leave 0, .arrive (probedVisit noTarget) 1, .leave 0]

/-- **A probe is lost**: it ends without a report, and the breaker is half-open and rejects every request from then
on. -/
theorem probe_lost :
    ∃ s, Transition.Reach (system probedSite) (fun _ _ => True) s ∧ (some 1, 0) ∈ s.ended ∧
      s.breaker.state = .halfOpen ∧
      s.flights = [] ∧ ∀ now, probedSite.breaker.allow now s.breaker = (some errCircuitOpen, s.breaker) := by
  have hrun : ((system probedSite).exec (fun _ _ => True) ⟨.new, 0, [], []⟩ failsOnce).map
      (fun s => (s.breaker.state, s.ended, s.flights.length, s.breaker.halfOpenInFlight)) =
        some (.halfOpen, [(none, 1), (some 1, 0)], 0, 1) := by
    decide +kernel
  obtain ⟨s, hs, hview⟩ := Option.map_eq_some_iff.1 hrun
  simp only [Prod.mk.injEq] at hview
  obtain ⟨hstate, hended, hidle, hin⟩ := hview
  refine ⟨s, ⟨_, rfl, Transition.Run.of_exec failsOnce hs⟩, by simp [hended], hstate,
    List.eq_nil_of_length_eq_zero hidle, ?_⟩
  intro now
  have hfull : probedSite.breaker.halfOpenRequests ≤ s.breaker.halfOpenInFlight := by
    rw [hin]
    decide
  simp [CircuitBreaker.allow, hstate, allowProbe, hfull]

end Probes

end Gateway
