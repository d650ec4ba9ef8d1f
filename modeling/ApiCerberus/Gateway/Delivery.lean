import ApiCerberus.Gateway.Proxy

/-!
# Whether a response is delivered

With a read timeout, `Do` cancels the context of the request before it returns, and the body is read afterwards, by
`WriteResponse`. The timeout then bounds the headers only, and no body is safe, however early it came (`body_cut_off`).
Only where there is no body, nothing is read.
-/

namespace Gateway

variable {timeout : Int} {reply : Reply} {n : Nat}

/-- The status, the headers and the whole body come within the timeout, if there is one. -/
structure Reply.Within (r : Reply) (timeout : Int) : Prop where
  headers : 0 < timeout → r.headersAt ≤ timeout
  body : 0 < timeout → ∀ piece ∈ r.pieces.getD [], piece.1 ≤ timeout

/-- The data of a call that writes. -/
def Action.data : Action → Bytes
  | .call (.write d) => d
  | _ => []

/-- The whole body was written, and no error reported. -/
structure Complete (body : Bytes) (p : Proxied) : Prop where
  done : p.done = true
  body : (p.actions.map Action.data).flatten = body
  err : p.err = none

theorem copyBuffer_reads {cancelled : Bool} {fails : Nat → Bool} (h : ∀ n, (cancelled && fails n) = false) (n : Nat)
    (pieces : List Bytes) : copyBuffer cancelled fails n pieces = (pieces, none) := by
  induction pieces generalizing n with
  | nil => simp [copyBuffer, h]
  | cons piece pieces ih => simp [copyBuffer, h, ih]

theorem copyBuffer_fails (pieces : List Bytes) : copyBuffer true (fun _ => true) n pieces = ([], some .canceled) := by
  cases pieces with
  | nil => rfl
  | cons piece pieces => rfl

theorem data_writeResponse (resp : Response) (fails : Nat → Bool) :
    ((writeResponse resp fails).finish.actions.map Action.data).flatten =
      (resp.pieces.elim ([], none) (copyBuffer resp.cancelled fails 0)).1.flatten := by
  have hwrites : ∀ ds : List Bytes, ((ds.map Call.write).map Action.call).map Action.data = ds := by
    intro ds
    induction ds with
    | nil => rfl
    | cons d ds ih => rw [List.map_cons, List.map_cons, List.map_cons, ih]; rfl
  simp only [writeResponse, Attempt.finish, List.map_cons, List.cons_append, List.map_append, hwrites]
  simp [Action.data]

/-- A response is delivered, whichever reads fail, iff its context has not been cancelled or it has no body. -/
theorem complete_writeResponse_iff (resp : Response) :
    (∀ fails, Complete (resp.pieces.getD []).flatten (writeResponse resp fails).finish) ↔ resp.cancelled = false ∨
      resp.pieces = none := by
  constructor
  · intro h
    by_contra hc
    obtain ⟨hcancelled, hpieces⟩ := not_or.1 hc
    obtain ⟨pieces, hpieces⟩ := Option.ne_none_iff_exists'.1 hpieces
    have herr := (h fun _ => true).err
    simp only [writeResponse, Attempt.finish, (Bool.not_eq_false _).mp hcancelled, hpieces, Option.elim_some,
      copyBuffer_fails] at herr
    cases herr
  · intro hc fails
    have hreads : resp.pieces.elim ([], none) (copyBuffer resp.cancelled fails 0) = (resp.pieces.getD [], none) := by
      cases hpieces : resp.pieces with
      | none => rfl
      | some pieces =>
        have hopen : resp.cancelled = false := hc.resolve_right (by simp [hpieces])
        exact copyBuffer_reads (fun n => by rw [hopen, Bool.false_and]) 0 pieces
    refine ⟨rfl, ?_, ?_⟩
    · rw [data_writeResponse, hreads]
    · simp only [writeResponse, Attempt.finish, hreads]

theorem roundTrip_within (h : reply.Within timeout) :
    roundTrip timeout (.ok reply) =
      .ok ⟨reply.statusCode, reply.header, reply.pieces.map (List.map Prod.snd), decide (0 < timeout)⟩ := by
  unfold roundTrip
  simp only
  split
  · rename_i hpos
    rw [if_neg (not_lt.2 (h.headers hpos)), decide_eq_true hpos]
  · rename_i hpos
    rw [decide_eq_false hpos]

/-- **A response that comes within the timeout is delivered completely** iff there is no timeout or no body. -/
theorem delivered_iff (hwithin : reply.Within timeout) {retryPolicy : Retry} {method : Text} {attempt : Nat}
    (hlast : retryPolicy.shouldRetry method attempt reply.statusCode none = false) :
    ((∀ fails, Complete reply.body (proxyForward timeout (.ok reply) fails)) ↔ timeout ≤ 0 ∨ reply.pieces = none) ∧
      ((∀ fails, Complete reply.body (proxyRetry retryPolicy method attempt timeout (.ok reply) fails)) ↔
        timeout ≤ 0 ∨ reply.pieces = none) := by
  have hresp := complete_writeResponse_iff
    ⟨reply.statusCode, reply.header, reply.pieces.map (List.map Prod.snd), decide (0 < timeout)⟩
  have hbody : ((reply.pieces.map (List.map Prod.snd)).getD []).flatten = reply.body := by
    unfold Reply.body
    cases reply.pieces <;> rfl
  simp only [decide_eq_false_iff_not, not_lt, Option.map_eq_none_iff, hbody] at hresp
  constructor
  · simp only [proxyForward, forward, roundTrip_within hwithin]
    exact hresp
  · simp only [proxyRetry, roundTrip_within hwithin, hlast, Bool.false_eq_true, if_false]
    exact hresp

/-- A reply that comes at once. -/
def promptReply : Reply := ⟨200, .empty, 0, some [(0, [104, 105])]⟩

/-- The policy of a plugin `retry` without settings. -/
def defaultRetry : Retry := newRetry ⟨1, [], [], one_retry_int⟩

theorem delivered_iff_noTimeout :
    Complete promptReply.body (proxyForward 0 (.ok promptReply) fun _ => true) ∧
      Complete promptReply.body (proxyRetry defaultRetry "GET".toList 0 0 (.ok promptReply) fun _ => true) := by
  have hwithin : promptReply.Within 0 := ⟨fun h => absurd h (lt_irrefl 0), fun h => absurd h (lt_irrefl 0)⟩
  have hlast : defaultRetry.shouldRetry "GET".toList 0 promptReply.statusCode none = false := by decide +kernel
  have h := delivered_iff hwithin hlast
  exact ⟨h.1.2 (.inl le_rfl) _, h.2.2 (.inl le_rfl) _⟩

/-- **A body is cut off**: with a timeout of one second, the status goes out and the body of a reply that came at once
does not. -/
theorem body_cut_off :
    promptReply.Within 1000000000 ∧
      (proxyForward 1000000000 (.ok promptReply) fun _ => true).actions =
        [.call (.copyHeaders .empty), .call (.writeHeader 200), .afterProxy (some .canceled)] ∧
      (proxyRetry defaultRetry "GET".toList 0 1000000000 (.ok promptReply) fun _ => true).actions =
        [.call (.copyHeaders .empty), .call (.writeHeader 200), .afterProxy (some .canceled)] := by
  refine ⟨⟨fun _ => by decide, fun _ => by decide⟩, by decide +kernel, by decide +kernel⟩

end Gateway
