import ApiCerberus.Gateway.Proxy
import ApiCerberus.Gateway.Router

/-!
# The attempts of a request

`executeProxyChain` with `proxyForward` and `proxyRetry` (`internal/gateway/serve_proxy.go`): every call that they make
is an event. `limitBody` is the start of `ServeHTTP` (`server.go:214-233`), `BodyReader.run` is `Enforce` and `Validate`
(`internal/plugin/request_size_limit.go`, `request_validator.go`), and `send` is `Proxy.Do` (`proxy.go:90-142`), as far
as the request goes.

The body of a request is a stream. The transport reads as much of it as it can send, and closes it, also when it fails.
The body of a connection cannot be read again after that, and of a body in memory only the rest is left. `Do` asks
`GetBody` for a new one if the request has it, and only the audit log (`captureRequestBody`) and two plugins provide it.
So a second attempt sends the whole body only then, or if there is no body at all (`same_request_iff`).

That a client breaks its upload off is left out.
-/

namespace Gateway.Attempts

/-! ## The body of a request -/

/-- What can be read from `r.Body`. -/
inductive Body
  | noBody
  /-- From the connection. -/
  | live (rest : Bytes)
  | closed
  /-- From memory; closing it does nothing. -/
  | buffered (rest : Bytes)
  deriving DecidableEq

/-- The data up to the end, if it can be read. -/
def Body.data : Body → Option Bytes
  | .noBody => some []
  | .live rest => some rest
  | .closed => none
  | .buffered rest => some rest

/-- The transport has read `n` bytes, and has closed the body. -/
def Body.afterRoundTrip (n : Nat) : Body → Body
  | .noBody => .noBody
  | .live _ | .closed => .closed
  | .buffered rest => .buffered (rest.drop n)

structure HttpRequest where
  method : Text
  path : Text
  rawQuery : Text
  contentLength : Int
  body : Body
  /-- What `GetBody` gives, if it is set. -/
  getBody : Option Bytes

/-- What a client sends. A length that is not announced is negative. -/
structure Incoming where
  method : Text
  path : Text
  rawQuery : Text
  contentLength : Int
  data : Bytes
  length_eq : contentLength < 0 ∨ contentLength = data.length

/-- The request as the server makes it. -/
def Incoming.request (i : Incoming) : HttpRequest :=
  ⟨i.method, i.path, i.rawQuery, i.contentLength, if i.contentLength = 0 then .noBody else .live i.data, none⟩

/-- The limit of `ServeHTTP`, or the request is answered with an error. -/
def limitBody (maxBody : Int) (r : HttpRequest) : Option HttpRequest :=
  if 0 < maxBody then
    if maxBody < r.contentLength then none
    else if r.contentLength < 0 then
      r.body.data.bind fun data => if maxBody < data.length then none else some { r with body := .buffered data }
    else some r
  else some r

/-- The body has been read, and can be had again. -/
def HttpRequest.keep (r : HttpRequest) (data : Bytes) : HttpRequest :=
  { r with body := .buffered data, getBody := some data }

/-- `maxBodyBytes` is that of the audit logger, if there is one. -/
def captureRequestBody (maxBodyBytes : Option Int) (r : HttpRequest) : HttpRequest :=
  if (maxBodyBytes.getD 0) = 0 ∨ r.getBody.isSome then r
  else
    match r.body.data with
    | none => r
    | some data => r.keep data

/-- The plugins that read the body. -/
inductive BodyReader
  | requestSizeLimit (maxBytes : Int)
  | requestValidator (valid : Bytes → Bool)

/-- The request that a plugin leaves, if it does not reject it. -/
def BodyReader.run (r : HttpRequest) : BodyReader → Option HttpRequest
  | .requestSizeLimit maxBytes =>
    let limit := if maxBytes ≤ 0 then 1048576 else maxBytes
    if limit < r.contentLength then none
    else r.body.data.bind fun data =>
      if limit < data.length then none else some { r.keep data with contentLength := data.length }
  | .requestValidator valid => r.body.data.bind fun data =>
      if valid data then some { r.keep data with contentLength := data.length } else none

/-- The way of a request to the proxy. -/
def prepare (maxBody : Int) (maxBodyBytes : Option Int) (readers : List BodyReader)
    (r : HttpRequest) : Option HttpRequest :=
  (limitBody maxBody r).bind fun r => readers.foldlM BodyReader.run (captureRequestBody maxBodyBytes r)

/-! ## Attempts -/

/-- A request as the transport gets it. Reading the body fails, or gives some data. -/
structure Sent where
  method : Text
  path : Text
  rawQuery : Text
  body : Option Bytes
  deriving DecidableEq

/-- `pool.Next`. -/
inductive Selection
  | found
  | noHealthyTargets
  | failed
  deriving DecidableEq

/-- What happens in one attempt. -/
structure Exchange where
  selection : Selection
  /-- The key of the target, if one is found. -/
  target : Text
  /-- The error of `Do` before the transport gets the request. -/
  refused : Option ProxyError
  /-- How much of the body the transport reads. -/
  read : Nat
  reply : Except ProxyError Reply
  /-- The reads of the response that fail. -/
  fails : Nat → Bool
  /-- The client is gone before the next attempt. -/
  gone : Bool

def Exchange.result (x : Exchange) : Except ProxyError Reply :=
  match x.refused with
  | some err => .error err
  | none => x.reply

/-- Why a request is blocked, and the code of the error. -/
inductive Reason
  | upstreamNotFound
  | noHealthyTarget
  | targetSelectionFailed
  | proxyError
  | responseWriteError
  | retriesExhausted
  deriving DecidableEq

/-- What an attempt does, in order. -/
inductive Event
  /-- `pool.Next` has found a target. -/
  | next (target : Text)
  /-- `Proxy.Do`. -/
  | forward (target : Text)
  /-- The transport gets a request. -/
  | sent (s : Sent)
  /-- What is written, and the hooks. -/
  | action (a : Action)
  | done (target : Text)
  /-- `ReportSuccess` or `ReportError`. -/
  | report (target : Text) (success : Bool)
  /-- `executeBillingPostProxy`. -/
  | billed (err : Option ProxyError)
  /-- `markBlocked`. -/
  | blocked (reason : Reason)
  /-- `writeErrorRoute`. -/
  | errorRoute (code : Reason)
  /-- The context of the client is done during the backoff. -/
  | gone
  deriving DecidableEq

variable {χ : Type} (route : Route χ) (retryPolicy : Option Retry) (readTimeout : Int) (checker : Bool)

/-- What `Do` sends, and the request after that. -/
def send (r : HttpRequest) (x : Exchange) : List Event × HttpRequest :=
  if x.refused.isSome then ([], r)
  else
    match r.getBody with
    | some data => ([.sent ⟨r.method, upstreamPath route r.path, r.rawQuery, some data⟩], r)
    | none =>
      ([.sent ⟨r.method, upstreamPath route r.path, r.rawQuery, r.body.data⟩],
        { r with body := r.body.afterRoundTrip x.read })

/-- The report to a health checker, if there is one. -/
def reportTo (checker : Bool) (target : Text) (success : Bool) : List Event :=
  if checker then [.report target success] else []

/-- `proxyForward` after `Do`. -/
def forwardOnce (x : Exchange) : List Event :=
  let p := proxyForward readTimeout x.result x.fails
  p.actions.map .action ++ .done x.target ::
    if p.err.isSome then .blocked .proxyError :: reportTo checker x.target false
    else .billed none :: reportTo checker x.target true

/-- `proxyRetry` after `Do`; it says whether it was the last attempt. -/
def retryOnce (policy : Retry) (method : Text) (attempt : Nat) (x : Exchange) : List Event × Bool :=
  let p := proxyRetry policy method attempt readTimeout x.result x.fails
  let events :=
    match roundTrip readTimeout x.result with
    | .error _ =>
      reportTo checker x.target false ++ (if p.done then [.blocked .proxyError] else []) ++
        p.actions.map .action ++ [.done x.target]
    | .ok resp =>
      if p.done then
        reportTo checker x.target (resp.statusCode < 500) ++ p.actions.map .action ++ [.billed p.err, .done x.target] ++
          if p.err.isSome then [.blocked .responseWriteError] else []
      else reportTo checker x.target false ++ p.actions.map .action ++ [.done x.target]
  (events, p.done)

/-- The loop of `executeProxyChain`, with `left` attempts left. -/
def attempts (w : Nat → Exchange) : (left attempt : Nat) → HttpRequest → List Event
  | 0, _, _ => [.blocked .retriesExhausted, .action .exhausted]
  | left + 1, attempt, r =>
    match (w attempt).selection with
    | .noHealthyTargets => [.blocked .noHealthyTarget, .errorRoute .noHealthyTarget]
    | .failed => [.blocked .targetSelectionFailed, .errorRoute .targetSelectionFailed]
    | .found =>
      let sent := send route r (w attempt)
      .next (w attempt).target :: .forward (w attempt).target :: sent.1 ++
        match retryPolicy with
        | none => forwardOnce readTimeout checker (w attempt)
        | some policy =>
          let once := retryOnce readTimeout checker policy r.method attempt (w attempt)
          once.1 ++ if once.2 then [] else if (w attempt).gone then [.gone] else attempts w left (attempt + 1) sent.2

/-- `MaxAttempts`, and one attempt without a policy. -/
def maxAttempts (method : Text) : Int :=
  match retryPolicy with
  | none => 1
  | some policy => policy.maxAttempts method

/-- The rounds of the loop. -/
def rounds (method : Text) : Nat := if maxAttempts retryPolicy method ≤ 0 then 1
    else (maxAttempts retryPolicy method).toNat

/-- `pool` says whether the upstream of the service is there. -/
def executeProxyChain (pool : Bool) (w : Nat → Exchange) (r : HttpRequest) : List Event :=
  if pool then attempts route retryPolicy readTimeout checker w (rounds retryPolicy r.method) 0 r
  else [.blocked .upstreamNotFound, .errorRoute .upstreamNotFound]

section Rounds

variable {retryPolicy} {method : Text}

theorem maxAttempts_pos (h : ∀ policy, retryPolicy = some policy → ¬ policy.Overflows method) :
    0 < maxAttempts retryPolicy method := by
  unfold maxAttempts
  split
  · exact Int.one_pos
  · rename_i policy
    rw [Retry.maxAttempts_eq (h policy rfl)]
    split
    · omega
    · exact Int.one_pos

theorem rounds_eq (h : ∀ policy, retryPolicy = some policy → ¬ policy.Overflows method) :
    (rounds retryPolicy method : Int) = maxAttempts retryPolicy method := by
  have hpos := maxAttempts_pos h
  rw [rounds, if_neg (not_le.2 hpos), Int.toNat_of_nonneg hpos.le]

/-- The wrapped limit gives one round. -/
theorem rounds_overflow {policy : Retry} (h : policy.Overflows method) : rounds (some policy) method = 1 := by
  have hmax : maxAttempts (some policy) method = -2 ^ 63 := by
    simp only [maxAttempts, Retry.maxAttempts, h.1, if_true, h.2]
    decide
  rw [rounds, hmax]
  decide

theorem rounds_retryable {policy : Retry} (h : ¬ policy.Overflows method)
    (hmethod : policy.isMethodRetryable method = true) :
    rounds (some policy) method = policy.maxRetries + 1 := by
  have hrounds : (rounds (some policy) method : Int) = policy.maxAttempts method :=
    rounds_eq fun p hp => by cases hp; exact h
  rw [Retry.maxAttempts_eq h, if_pos hmethod] at hrounds
  omega

theorem rounds_pos (retryPolicy : Option Retry) (method : Text) : ∃ left, rounds retryPolicy method = left + 1 := by
  unfold rounds
  split
  · exact ⟨0, rfl⟩
  · exact ⟨(maxAttempts retryPolicy method).toNat - 1, by omega⟩

end Rounds

/-! ### What is written -/

variable {route retryPolicy readTimeout checker} {w : Nat → Exchange} {r : HttpRequest}

/-- `f` looks at none of the calls that an attempt makes beside its actions. -/
structure Passes {α : Type} (f : Event → Option α) : Prop where
  done : ∀ target, f (.done target) = none
  report : ∀ target success, f (.report target success) = none
  billed : ∀ err, f (.billed err) = none
  blocked : ∀ reason, f (.blocked reason) = none

section Passes

variable {α : Type} {f : Event → Option α} (hf : Passes f)

include hf

theorem Passes.reportTo (target : Text) (success : Bool) : (reportTo checker target success).filterMap f = [] := by
  cases checker
  · rfl
  · exact List.filterMap_cons_none (hf.report target success)

theorem Passes.forwardOnce (x : Exchange) : (forwardOnce readTimeout checker x).filterMap f =
    ((proxyForward readTimeout x.result x.fails).actions.map Event.action).filterMap f := by
  simp only [Attempts.forwardOnce, List.filterMap_append, List.filterMap_cons, hf.done]
  split <;> simp [hf.blocked, hf.billed, hf.reportTo]

theorem Passes.retryOnce (policy : Retry) (method : Text) (attempt : Nat) (x : Exchange) :
    (retryOnce readTimeout checker policy method attempt x).1.filterMap f =
      ((proxyRetry policy method attempt readTimeout x.result x.fails).actions.map Event.action).filterMap f := by
  unfold Attempts.retryOnce
  dsimp only
  split
  · split <;> simp [hf.done, hf.blocked, hf.reportTo]
  · split
    · split <;> simp [hf.done, hf.billed, hf.blocked, hf.reportTo]
    · simp [hf.done, hf.reportTo]

end Passes

def Event.action? : Event → Option Action
  | .action a => some a
  | _ => none

theorem passes_action? : Passes Event.action? := ⟨fun _ => rfl, fun _ _ => rfl, fun _ => rfl, fun _ => rfl⟩

@[simp] theorem filterMap_action? (l : List Action) : (l.map Event.action).filterMap Event.action? = l := by
  induction l with
  | nil => rfl
  | cons a l ih => simp [Event.action?, ih]

@[simp] theorem send_action? (x : Exchange) : (send route r x).1.filterMap Event.action? = [] := by
  unfold send
  split
  · rfl
  · split <;> simp [Event.action?]

/-! ## Whether every attempt sends the same -/

/-- The requests that are sent. -/
def Event.sent? : Event → Option Sent
  | .sent s => some s
  | _ => none

def HttpRequest.sent (route : Route χ) (r : HttpRequest) (data : Option Bytes) : Sent :=
  ⟨r.method, upstreamPath route r.path, r.rawQuery, data⟩

theorem passes_sent? : Passes Event.sent? := ⟨fun _ => rfl, fun _ _ => rfl, fun _ => rfl, fun _ => rfl⟩

@[simp] theorem sent?_actions (l : List Action) : (l.map Event.action).filterMap Event.sent? = [] := by
  simp [Event.sent?]

theorem mem_sent? {s : Sent} {l : List Event} : s ∈ l.filterMap Event.sent? ↔ .sent s ∈ l := by
  rw [List.mem_filterMap]
  constructor
  · rintro ⟨step, hstep, hs⟩
    cases step <;> cases hs
    exact hstep
  · exact fun h => ⟨_, h, rfl⟩

@[simp] theorem sent?_found (t : Text) (l : List Event) :
    (.next t :: .forward t :: l).filterMap Event.sent? = l.filterMap Event.sent? := rfl

@[simp] theorem forwardOnce_sent? (x : Exchange) : (forwardOnce readTimeout checker x).filterMap Event.sent? = [] := by
  rw [passes_sent?.forwardOnce, sent?_actions]

@[simp] theorem retryOnce_sent? (policy : Retry) (method : Text) (attempt : Nat) (x : Exchange) :
    (retryOnce readTimeout checker policy method attempt x).1.filterMap Event.sent? = [] := by
  rw [passes_sent?.retryOnce, sent?_actions]

/-- What an attempt can read of the body. -/
def HttpRequest.offered (r : HttpRequest) : Option Bytes := r.getBody.or r.body.data

theorem send_sent? (x : Exchange) :
    (send route r x).1.filterMap Event.sent? = if x.refused.isSome then [] else [r.sent route r.offered] := by
  unfold send
  split
  · rfl
  · split <;> rename_i h <;> simp [Event.sent?, HttpRequest.sent, HttpRequest.offered, h]

/-- Nothing but the body changes. -/
theorem send_after (x : Exchange) (data : Option Bytes) : (send route r x).2.sent route data = r.sent route data := by
  unfold send
  split
  · rfl
  · split <;> rfl

/-- Every attempt can read `data`: there is a copy of it, or it is empty and stays so. -/
def HttpRequest.Replayable (r : HttpRequest) (data : Bytes) : Prop :=
  r.getBody = some data ∨ r.getBody = none ∧ data = [] ∧ (r.body = .noBody ∨ r.body = .buffered [])

variable {data : Bytes} {maxBody : Int} {s : Sent}

theorem HttpRequest.Replayable.offered (h : r.Replayable data) : r.offered = some data := by
  rcases h with hget | ⟨hget, rfl, hbody | hbody⟩ <;> simp [HttpRequest.offered, *, Body.data]

theorem HttpRequest.Replayable.send (h : r.Replayable data) (x : Exchange) :
    (send route r x).2.Replayable data := by
  rcases h with hget | ⟨hget, rfl, hbody | hbody⟩
  all_goals
    unfold Attempts.send
    split
    · simp_all [HttpRequest.Replayable]
    · simp_all [HttpRequest.Replayable, Body.afterRoundTrip]

variable {attempt : Nat}

/-- The loop sends what its first attempt sends, and then what the rest of it sends. -/
theorem mem_sent?_attempts {left : Nat}
    (h : s ∈ (attempts route retryPolicy readTimeout checker w (left + 1) attempt r).filterMap Event.sent?) :
    s ∈ (send route r (w attempt)).1.filterMap Event.sent? ∨
      s ∈ (attempts route retryPolicy readTimeout checker w left (attempt + 1)
        (send route r (w attempt)).2).filterMap Event.sent? := by
  rw [attempts] at h
  split at h
  · simp [Event.sent?] at h
  · simp [Event.sent?] at h
  · simp only [List.filterMap_append, sent?_found] at h
    refine (List.mem_append.1 h).imp id fun h => ?_
    split at h
    · rw [forwardOnce_sent?] at h
      cases h
    · rw [List.filterMap_append, retryOnce_sent?, List.nil_append] at h
      split at h
      · cases h
      · split at h
        · cases h
        · exact h

theorem sent_of_replayable {left : Nat} (h : r.Replayable data)
    (hs : s ∈ (attempts route retryPolicy readTimeout checker w left attempt r).filterMap Event.sent?) :
      s = r.sent route (some data) := by
  induction left generalizing attempt r with
  | zero => simp [attempts, Event.sent?] at hs
  | succ left ih =>
    rcases mem_sent?_attempts hs with hs | hs
    · rw [send_sent?, h.offered] at hs
      split at hs
      · cases hs
      · exact List.mem_singleton.1 hs
    · rw [← send_after (w attempt) (some data)]
      exact ih (h.send (w attempt)) hs

/-- A single attempt sends what it finds. -/
theorem sent_of_single
    (hs : s ∈ (attempts route retryPolicy readTimeout checker w 1 attempt r).filterMap Event.sent?) :
      s = r.sent route r.offered := by
  rcases mem_sent?_attempts hs with hs | hs
  · rw [send_sent?] at hs
    split at hs
    · cases hs
    · exact List.mem_singleton.1 hs
  · simp [attempts, Event.sent?] at hs

/-- The upstream breaks off after one byte, again and again. -/
def breaksOff : Exchange := ⟨.found, "t1".toList, none, 1, .error (.other false), fun _ => false, false⟩

/-- The policy allows a second attempt. -/
def Retries (retryPolicy : Option Retry) (method : Text) : Prop :=
  ∃ policy, retryPolicy = some policy ∧ policy.isMethodRetryable method = true ∧ 0 < policy.maxRetries ∧
    policy.maxRetries ≠ 2 ^ 63 - 1

theorem rounds_eq_one {method : Text} (h : ¬ Retries retryPolicy method) : rounds retryPolicy method = 1 := by
  cases retryPolicy with
  | none => rfl
  | some policy =>
    by_cases hmethod : policy.isMethodRetryable method = true
    · by_cases hmax : policy.maxRetries = 2 ^ 63 - 1
      · exact rounds_overflow ⟨hmethod, hmax⟩
      · rw [rounds_retryable (fun ho => hmax ho.2) hmethod]
        have : ¬ 0 < policy.maxRetries := fun hpos => h ⟨policy, rfl, hmethod, hpos, hmax⟩
        omega
    · simp [rounds, maxAttempts, Retry.maxAttempts, hmethod]

/-- A second attempt sends what the first one has left. -/
theorem sent_second (h : Retries retryPolicy r.method) :
    (send route r breaksOff).2.sent route (send route r breaksOff).2.offered ∈
      (executeProxyChain route retryPolicy readTimeout checker true (fun _ => breaksOff) r).filterMap Event.sent? := by
  obtain ⟨policy, rfl, hmethod, hpos, hmax⟩ := h
  obtain ⟨m, hm⟩ : ∃ m, policy.maxRetries = m + 1 := ⟨policy.maxRetries - 1, by omega⟩
  have hleft : rounds (some policy) r.method = m + 2 := by rw [rounds_retryable (fun ho => hmax ho.2) hmethod, hm]
  have hagain : (retryOnce readTimeout checker policy r.method 0 breaksOff).2 = false := by
    simp [retryOnce, proxyRetry, breaksOff, Exchange.result, roundTrip, Retry.shouldRetry, hmethod, hm]
  have hfirst : ∀ (left attempt : Nat) (r : HttpRequest), r.sent route r.offered ∈
      (attempts route (some policy) readTimeout checker (fun _ => breaksOff)
        (left + 1) attempt r).filterMap Event.sent? := by
    intro left attempt r
    have hsend : r.sent route r.offered ∈ (send route r breaksOff).1.filterMap Event.sent? := by
      rw [send_sent?]
      simp [breaksOff]
    have hfound : breaksOff.selection = .found := rfl
    simp only [attempts, hfound, List.filterMap_append, sent?_found]
    exact List.mem_append_left _ hsend
  have hsecond := hfirst m 1 (send route r breaksOff).2
  have hfound : breaksOff.selection = .found := rfl
  have hstays : breaksOff.gone = false := rfl
  rw [executeProxyChain, if_pos rfl, hleft, attempts]
  simp only [hfound, hagain, hstays, Bool.false_eq_true, if_false, List.filterMap_append]
  exact List.mem_append_right _ (List.mem_append_right _ hsecond)

/-! ### What reaches the proxy -/

/-- The audit log or a plugin has kept a copy. -/
def Kept (maxBodyBytes : Option Int) (readers : List BodyReader) : Prop := maxBodyBytes.getD 0 ≠ 0 ∨ readers ≠ []

theorem BodyReader.run_keeps {b : BodyReader} {r' : HttpRequest} (h : b.run r = some r')
    (hdata : r.body.data = some data) : r'.getBody = some data ∧ r'.body = .buffered data := by
  cases b with
  | requestSizeLimit maxBytes =>
    simp only [run, hdata, Option.bind_some] at h
    generalize (if maxBytes ≤ 0 then (1048576 : Int) else maxBytes) = limit at h
    split at h
    · cases h
    · split at h
      · cases h
      · cases h
        exact ⟨rfl, rfl⟩
  | requestValidator valid =>
    simp only [run, hdata, Option.bind_some] at h
    split at h
    · cases h
      exact ⟨rfl, rfl⟩
    · cases h

theorem run_readers_keeps {readers : List BodyReader} {r' : HttpRequest}
    (h : readers.foldlM BodyReader.run r = some r') (hdata : r.body.data = some data) (hne : readers ≠ []) :
    r'.getBody = some data := by
  induction readers generalizing r with
  | nil => exact absurd rfl hne
  | cons b readers ih =>
    rw [List.foldlM_cons] at h
    obtain ⟨r₁, hrun, hrest⟩ := Option.bind_eq_some_iff.1 h
    obtain ⟨hget, hbody⟩ := BodyReader.run_keeps hrun hdata
    cases readers with
    | nil =>
      obtain rfl : r₁ = r' := by simpa using hrest
      exact hget
    | cons b' readers => exact ih hrest (by simp [hbody, Body.data]) (by simp)

theorem captureRequestBody_keeps {maxBodyBytes : Option Int} (hdata : r.body.data = some data)
    (hnone : r.getBody = none) : captureRequestBody maxBodyBytes r = if maxBodyBytes.getD 0 = 0 then r
      else r.keep data := by
  by_cases h : maxBodyBytes.getD 0 = 0 <;> simp [captureRequestBody, h, hnone, hdata]

theorem Incoming.data_nil (i : Incoming) (h : i.contentLength = 0) : i.data = [] := by
  have hlen := i.length_eq
  exact List.eq_nil_of_length_eq_zero (by omega)

/-- Whatever has been done to it, the body of a new request is complete. -/
theorem Incoming.data_of_body (i : Incoming) {body : Body} (h : body = if i.contentLength = 0 then .noBody
    else if i.contentLength < 0 ∧ 0 < maxBody then .buffered i.data else .live i.data) : body.data = some i.data := by
  rw [h]
  split
  · rename_i hzero
    simp [Body.data, i.data_nil hzero]
  · split <;> rfl

/-- The body in memory, if its length was not announced and there is a limit. -/
theorem limitBody_incoming {i : Incoming} (h : limitBody maxBody i.request = some r) :
    r.getBody = none ∧ r.method = i.method ∧ r.body = if i.contentLength = 0 then .noBody
      else if i.contentLength < 0 ∧ 0 < maxBody then .buffered i.data else .live i.data := by
  unfold limitBody at h
  split at h
  · rename_i hpos
    split at h
    · cases h
    · split at h
      · rename_i hneg
        have hlen : i.contentLength < 0 := hneg
        have hne : i.contentLength ≠ 0 := by omega
        simp only [Incoming.request, hne, if_false, Body.data, Option.bind_some] at h
        split at h
        · cases h
        · cases h
          simp [hne, hlen, hpos]
      · rename_i hneg
        cases h
        have hlen : ¬ i.contentLength < 0 := hneg
        simp [Incoming.request, hlen]
  · rename_i hpos
    cases h
    simp [Incoming.request, hpos]

/-- Whether a later attempt can get the body again. -/
theorem prepare_incoming {i : Incoming} {maxBodyBytes : Option Int} {readers : List BodyReader}
    (h : prepare maxBody maxBodyBytes readers i.request = some r) :
    (Kept maxBodyBytes readers → r.getBody = some i.data) ∧
      (¬ Kept maxBodyBytes readers → r.getBody = none ∧ r.body = if i.contentLength = 0 then .noBody
        else if i.contentLength < 0 ∧ 0 < maxBody then .buffered i.data else .live i.data) := by
  obtain ⟨r₁, hlimit, hreaders⟩ := Option.bind_eq_some_iff.1 h
  obtain ⟨hnone, -, hbody⟩ := limitBody_incoming hlimit
  have hdata := i.data_of_body hbody
  rw [captureRequestBody_keeps hdata hnone] at hreaders
  constructor
  · intro hkept
    by_cases hne : readers = []
    · have hmax : maxBodyBytes.getD 0 ≠ 0 := by
        rcases hkept with hmax | hreader
        · exact hmax
        · exact absurd hne hreader
      rw [if_neg hmax, hne] at hreaders
      obtain rfl : r₁.keep i.data = r := by simpa using hreaders
      rfl
    · refine run_readers_keeps hreaders ?_ hne
      split
      · exact hdata
      · rfl
  · intro hkept
    obtain ⟨hmax, hne⟩ : maxBodyBytes.getD 0 = 0 ∧ readers = [] := by
      constructor
      · by_contra hc
        exact hkept (Or.inl hc)
      · by_contra hc
        exact hkept (Or.inr hc)
    rw [if_pos hmax, hne] at hreaders
    obtain rfl : r₁ = r := by simpa using hreaders
    exact ⟨hnone, hbody⟩

/-- A body of which there is no copy is not whole after an attempt that has broken off. -/
theorem offered_breaksOff_ne (route : Route χ) {i : Incoming} (hget : r.getBody = none)
    (hbody : r.body = if i.contentLength < 0 ∧ 0 < maxBody then .buffered i.data else .live i.data)
    (hempty : ¬ (0 < maxBody ∧ i.data = [])) : (send route r breaksOff).2.offered ≠ some i.data := by
  intro hoffered
  by_cases hmem : i.contentLength < 0 ∧ 0 < maxBody
  · rw [if_pos hmem] at hbody
    have hne : i.data ≠ [] := fun hnil => hempty ⟨hmem.2, hnil⟩
    have hrest : i.data.tail = i.data := by
      simpa [send, breaksOff, hget, hbody, HttpRequest.offered, Body.data, Body.afterRoundTrip] using hoffered
    have hlength := congrArg List.length hrest
    have hpos := List.length_pos_of_ne_nil hne
    rw [List.length_tail] at hlength
    omega
  · rw [if_neg hmem] at hbody
    simp [send, breaksOff, hget, hbody, HttpRequest.offered, Body.data, Body.afterRoundTrip] at hoffered

/-- A `POST` of the two bytes `hi`, with its length or without. -/
def upload (announced : Bool) : Incoming where
  method := "POST".toList
  path := "/users".toList
  rawQuery := []
  contentLength := if announced then 2 else -1
  data := [104, 105]
  length_eq := by cases announced <;> simp

/-- One retry, also of a `POST`. -/
def retryPost : Retry := newRetry ⟨1, ["POST".toList], [], one_retry_int⟩

def plainRoute : Route Unit := ⟨"r1".toList, "users".toList, "users".toList, [], ["/users".toList], [], false, 0, []⟩

end Gateway.Attempts
