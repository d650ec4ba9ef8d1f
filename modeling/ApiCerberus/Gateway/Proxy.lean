import ApiCerberus.Lib.Header

/-!
# Forwarding to an upstream

`Proxy.Do` (`roundTrip`), `WriteResponse` and `Forward` in `internal/gateway/proxy.go:79-159`, the loops of
`serve_proxy.go`, and the retry plugin. The proxy is seen from the downstream writer: it makes calls on the writer, and
after each attempt it runs the hooks of the plugins. An upstream sends its status and headers at some time and its body
in pieces. `Do` gives the request a context with a deadline and cancels it when it returns, and a read of the body after
that may fail; `fails` says which reads do. The choice of the target, backoff and billing are left out.
-/

namespace Gateway

abbrev Bytes := List UInt8

/-! ## One exchange with an upstream -/

/-- What an upstream sends. The times count from the start of the request. -/
structure Reply where
  statusCode : Nat
  header : Header
  headersAt : Int
  /-- The pieces of the body as they can be read, with the times at which they come; none if the headers or the method
  say that there is no body (`http.NoBody`). -/
  pieces : Option (List (Int × Bytes))

def Reply.body (r : Reply) : Bytes := ((r.pieces.getD []).map Prod.snd).flatten

/-- What the transport may end with. -/
inductive ProxyError
  | deadlineExceeded
  | canceled
  /-- Any other error of `Do`. -/
  | other (timeout : Bool)
  deriving DecidableEq

def isTimeoutError : ProxyError → Bool
  | .deadlineExceeded => true
  | .canceled => false
  | .other timeout => timeout

def proxyErrorStatus (err : ProxyError) : Nat := if isTimeoutError err then 504 else 502

/-- An `http.Response` as `Do` returns it. -/
structure Response where
  statusCode : Nat
  header : Header
  pieces : Option (List Bytes)
  /-- The context of the request has been cancelled. -/
  cancelled : Bool

/-- `Do`, whose deferred `cancel` runs before it returns; `upstreamTimeout` is in nanoseconds. -/
def roundTrip (upstreamTimeout : Int) : Except ProxyError Reply → Except ProxyError Response
  | .error err => .error err
  | .ok r =>
    if 0 < upstreamTimeout then
      if upstreamTimeout < r.headersAt then .error .deadlineExceeded
      else .ok ⟨r.statusCode, r.header, r.pieces.map (List.map Prod.snd), true⟩
    else .ok ⟨r.statusCode, r.header, r.pieces.map (List.map Prod.snd), false⟩

/-- A call on the downstream writer. -/
inductive Call
  | copyHeaders (src : Header)
  | delHeader (name : Text)
  | setHeader (name value : Text)
  | writeHeader (code : Nat)
  | write (data : Bytes)
  deriving DecidableEq

/-- `http.StatusText` of the two statuses of a failed request, with a newline. -/
def errorText (status : Nat) : Bytes :=
  ((if status = 504 then "Gateway Timeout\n" else "Bad Gateway\n").toUTF8).toList

/-- `http.Error`. -/
def writeProxyError (status : Nat) : List Call :=
  [.delHeader "Content-Length".toList, .setHeader "Content-Type".toList "text/plain; charset=utf-8".toList,
    .setHeader "X-Content-Type-Options".toList "nosniff".toList, .writeHeader status, .write (errorText status)]

/-- `io.CopyBuffer` from read number `n` on: the data written, and the error of the read that ended it. -/
def copyBuffer (cancelled : Bool) (fails : Nat → Bool) : Nat → List Bytes → List Bytes × Option ProxyError
  | n, [] => ([], if cancelled && fails n then some .canceled else none)
  | n, piece :: pieces =>
    if cancelled && fails n then ([], some .canceled)
    else
      let rest := copyBuffer cancelled fails (n + 1) pieces
      (piece :: rest.1, rest.2)

/-- The calls of one attempt, and its error. -/
structure Attempt where
  calls : List Call
  err : Option ProxyError

/-- The head, and the body as far as it comes. -/
def writeResponse (resp : Response) (fails : Nat → Bool) : Attempt :=
  let copied := resp.pieces.elim ([], none) (copyBuffer resp.cancelled fails 0)
  ⟨.copyHeaders resp.header :: .writeHeader resp.statusCode :: copied.1.map .write, copied.2⟩

/-- One attempt, without a retry. -/
def forward (upstreamTimeout : Int) (upstream : Except ProxyError Reply) (fails : Nat → Bool) : Attempt :=
  match roundTrip upstreamTimeout upstream with
  | .error err => ⟨writeProxyError (proxyErrorStatus err), some err⟩
  | .ok resp => writeResponse resp fails

/-! ## Retries -/

/-- `maxRetries` is an `int`. -/
structure RetryConfig where
  maxRetries : Int
  retryMethods : List Text
  retryOnStatus : List Nat
  maxRetries_int : maxRetries < 9223372036854775808

theorem one_retry_int : (1 : Int) < 9223372036854775808 := by decide

/-- `maxRetries` is an `int`. -/
structure Retry where
  maxRetries : Nat
  methods : List Text
  retryStatus : List Nat
  maxRetries_int : maxRetries < 2 ^ 63

def defaultMethods : List Text := ["GET", "HEAD", "OPTIONS"].map String.toList

def newRetry (cfg : RetryConfig) : Retry :=
  let list := if cfg.retryMethods = [] then defaultMethods else cfg.retryMethods
  let methods := (list.map fun m => Text.toUpper (Text.trimSpace m)).filter fun m => m ≠ []
  let statusList := if cfg.retryOnStatus = [] then [502, 503, 504] else cfg.retryOnStatus
  have hint := cfg.maxRetries_int
  ⟨cfg.maxRetries.toNat, if methods = [] then defaultMethods else methods, statusList.filter fun s => 100 ≤ s, by omega⟩

namespace Retry

def isMethodRetryable (r : Retry) (method : Text) : Bool := r.methods.contains (Text.toUpper (Text.trimSpace method))

def isStatusRetryable (r : Retry) (status : Nat) : Bool := r.retryStatus.contains status

/-- The sum is an `int` and may wrap around. -/
def maxAttempts (r : Retry) (method : Text) : Int :=
  if r.isMethodRetryable method then ((r.maxRetries : Int) + 1).bmod (2 ^ 64) else 1

/-- Another attempt is made after an error or a retryable status. -/
def shouldRetry (r : Retry) (method : Text) (attempt status : Nat) (proxyErr : Option ProxyError) : Bool :=
  if !r.isMethodRetryable method then false
  else if r.maxRetries ≤ attempt then false
  else if proxyErr.isSome then true
  else r.isStatusRetryable status

/-- `maxRetries + 1` is no `int`. -/
def Overflows (r : Retry) (method : Text) : Prop := r.isMethodRetryable method = true ∧ r.maxRetries = 2 ^ 63 - 1

variable {r : Retry} {method : Text}

theorem maxAttempts_eq (h : ¬ r.Overflows method) :
    r.maxAttempts method = if r.isMethodRetryable method then (r.maxRetries : Int) + 1 else 1 := by
  unfold maxAttempts
  split
  · rename_i hmethod
    have hint := r.maxRetries_int
    have hmax : r.maxRetries ≠ 2 ^ 63 - 1 := fun hmax => h ⟨hmethod, hmax⟩
    exact Int.bmod_eq_of_le (by omega) (by omega)
  · rfl

end Retry

/-- What the proxy does downstream. -/
inductive Action
  | call (c : Call)
  /-- `runAfterProxy`. -/
  | afterProxy (err : Option ProxyError)
  /-- The error that is written, past the plugins, when no attempt is left. -/
  | exhausted
  deriving DecidableEq

/-- What an attempt did downstream, its error, and whether it was the last one. -/
structure Proxied where
  actions : List Action
  err : Option ProxyError
  done : Bool

/-- The calls of an attempt, and the hooks. -/
def Attempt.finish (a : Attempt) : Proxied := ⟨a.calls.map .call ++ [.afterProxy a.err], a.err, true⟩

def proxyForward (readTimeout : Int) (upstream : Except ProxyError Reply) (fails : Nat → Bool) : Proxied :=
  (forward readTimeout upstream fails).finish

/-- One attempt of a route with a retry policy. -/
def proxyRetry (retryPolicy : Retry) (method : Text) (attempt : Nat) (readTimeout : Int)
    (upstream : Except ProxyError Reply) (fails : Nat → Bool) : Proxied :=
  match roundTrip readTimeout upstream with
  | .error err =>
    if retryPolicy.shouldRetry method attempt 0 (some err) then ⟨[.afterProxy (some err)], some err, false⟩
    else Attempt.finish ⟨writeProxyError (proxyErrorStatus err), some err⟩
  | .ok resp =>
    if retryPolicy.shouldRetry method attempt resp.statusCode none then ⟨[.afterProxy none], none, false⟩
    else (writeResponse resp fails).finish

end Gateway
