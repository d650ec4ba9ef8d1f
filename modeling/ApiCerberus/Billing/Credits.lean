import ApiCerberus.Lib.Table
import ApiCerberus.Lib.Text

/-!
# Credit transactions

The four functions that change a balance: `Engine.Deduct` (`internal/billing/engine.go:137-195`), `adjustCredits` and
`adjustCreditsUnified` (`internal/admin/admin_billing.go:46-234`), `purchaseCredits`
(`internal/portal/handlers_logs_credits.go:168-236`). `transact` is the part from `BeginTx` to `Commit` that they share.

Any statement may fail; `Faults` says which ones do, and with what text. SQLite makes a sum that does not fit into 64
bits a floating-point number, and `Scan` then fails. Times are left out.

The deferred function of `transact` rolls back if `commitErr` is set, and only `Commit` sets it. A call that returns
before that leaves its transaction open (`left_open`): every call does whose update or row fails (`settled_iff`).
-/

namespace Billing

/-- A row of `credit_transactions`. -/
structure CreditTransaction where
  id : Text
  userID : Text
  type : Text
  amount : Int
  balanceBefore : Int
  balanceAfter : Int
  description : Text
  requestID : Text
  routeID : Text
  deriving DecidableEq

/-- A row of `users`, with the columns besides the balance in one. -/
structure UserRow (ρ : Type) where
  creditBalance : Int
  profile : ρ

/-- `users` by their ids, and `credit_transactions` in the order of the commits. -/
structure Database (ρ : Type) where
  users : FinMap Text (UserRow ρ)
  ledger : List CreditTransaction

/-- The statements of a call that fail. -/
structure Faults where
  begin : Option Text
  update : Option Text
  count : Option Text
  /-- `uuid.NewString`. -/
  uuid : Except Text Text
  insert : Option Text
  commit : Option Text

inductive CreditError
  /-- `sql.ErrNoRows`. -/
  | noRows
  | insufficientCredits
  | other (text : Text)
  deriving DecidableEq

def CreditError.text : CreditError → Text
  | .noRows => "sql: no rows in result set".toList
  | .insufficientCredits => "insufficient credits".toList
  | .other text => text

def maxInt64 : Int := 9223372036854775807

variable {ρ : Type}

/-- A user as it has been read. -/
structure User (ρ : Type) where
  id : Text
  row : UserRow ρ

/-- There may be no such user; `query` is the error of the query. -/
def findByID (query : Option Text) (db : Database ρ) (id : Text) : Except Text (Option (User ρ)) :=
  let id := Text.trimSpace id
  if id = [] then .error "user id is required".toList
  else
    match query with
    | some err => .error err
    | none => .ok ((db.users.get? id).map fun row => ⟨id, row⟩)

/-- The new balance, and the tables as the transaction sees them. -/
def updateCreditBalanceTx (f : Faults) (db : Database ρ) (userID : Text) (delta : Int) :
    Except CreditError (Int × Database ρ) :=
  let userID := Text.trimSpace userID
  if userID = [] then .error (.other "user id is required".toList)
  else
    match f.update with
    | some err => .error (.other ("update credit balance: ".toList ++ err))
    | none =>
      match (db.users.get? userID).filter fun row => 0 ≤ row.creditBalance + delta with
      | some row =>
        if row.creditBalance + delta ≤ maxInt64 then
          .ok (row.creditBalance + delta,
            { db with users := db.users.set userID { row with creditBalance := row.creditBalance + delta } })
        else .error (.other "update credit balance: sql: Scan error on column index 0".toList)
      | none =>
        match f.count with
        | some err => .error (.other ("check user for credit update: ".toList ++ err))
        | none => .error (if (db.users.get? userID).isSome then .insufficientCredits else .noRows)

/-- A row as it is stored. Those of the callers have no id. -/
def CreditTransaction.stored (txn : CreditTransaction) (id : Text) : CreditTransaction :=
  let type := Text.trimSpace (Text.toLower txn.type)
  { txn with
    id := id
    userID := Text.trimSpace txn.userID
    type := if type = [] then "consume".toList else type
    description := Text.trimSpace txn.description
    requestID := Text.trimSpace txn.requestID
    routeID := Text.trimSpace txn.routeID }

/-- A row is inserted; the id is made here. -/
def createTx (f : Faults) (db : Database ρ) (txn : CreditTransaction) : Except Text (Database ρ) :=
  if Text.trimSpace txn.userID = [] then .error "credit transaction user id is required".toList
  else
    match f.uuid with
    | .error err => .error err
    | .ok id =>
      match f.insert with
      | some err => .error ("insert credit transaction: ".toList ++ err)
      | none => .ok { db with ledger := db.ledger ++ [txn.stored id] }

/-! ## One transaction -/

/-- What became of the transaction of a call. -/
inductive TxState
  | none
  | active
  | committed
  | rolledBack
  deriving DecidableEq

/-- How far a call came. -/
inductive Stage
  | beginFailed (err : Text)
  | updateFailed (err : CreditError)
  | recordFailed (newBalance : Int) (err : Text)
  | commitFailed (err : Text)
  | done (newBalance : Int)

/-- What a call returns and leaves behind. -/
structure Done (α ρ : Type) where
  reply : α
  tx : TxState
  /-- The balance has been updated in the transaction. -/
  updated : Bool
  /-- The row has been written in the transaction. -/
  inserted : Bool
  /-- What has been committed. -/
  db : Database ρ

def Done.map {α β : Type} (g : α → β) (d : Done α ρ) : Done β ρ := ⟨g d.reply, d.tx, d.updated, d.inserted, d.db⟩

/-- A call that begins no transaction. -/
def Done.without {α : Type} (reply : α) (db : Database ρ) : Done α ρ := ⟨reply, .none, false, false, db⟩

/-- A change of a balance, and the row that records it. -/
structure Credit where
  userID : Text
  delta : Int
  /-- The row, by the new balance. -/
  entry : Int → CreditTransaction
  entry_userID : ∀ newBalance, (entry newBalance).userID = userID

/-- The deferred function. -/
def deferred (tx : TxState) (commitErr : Option Text) : TxState := if commitErr.isNone then tx else .rolledBack

/-- The balance is changed and the row is written, or neither. -/
def transact (f : Faults) (db : Database ρ) (c : Credit) : Done Stage ρ :=
  match f.begin with
  | some err => .without (.beginFailed err) db
  | none =>
    match updateCreditBalanceTx f db c.userID c.delta with
    | .error err => ⟨.updateFailed err, deferred .active none, false, false, db⟩
    | .ok (newBalance, tx) =>
      match createTx f tx (c.entry newBalance) with
      | .error err => ⟨.recordFailed newBalance err, deferred .active none, true, false, db⟩
      | .ok tx =>
        match f.commit with
        -- a failed commit ends the transaction, too
        | some err => ⟨.commitFailed err, deferred .active (some err), true, true, db⟩
        | none => ⟨.done newBalance, deferred .committed none, true, true, tx⟩

/-! ## The four functions -/

structure PreCheckResult where
  userID : Text
  cost : Int
  shouldDeduct : Bool
  zeroBalance : Bool
  balance : Int
  deriving DecidableEq

/-- The row does not show the amount. -/
def charge (result : PreCheckResult) (requestID routeID : Text) : Credit where
  userID := result.userID
  delta := -result.cost
  entry newBalance :=
    { id := []
      userID := result.userID
      type := "consume".toList
      amount := 0
      balanceBefore := newBalance
      balanceAfter := newBalance
      description := "request charge".toList
      requestID := Text.trimSpace requestID
      routeID := Text.trimSpace routeID }
  entry_userID _ := rfl

/-- The charge that `Deduct` makes, if it makes one. -/
def deductCredit (enabled : Bool) (result : Option PreCheckResult) (requestID routeID : Text) : Except Int Credit :=
  match result with
  | none => .error 0
  | some result =>
    if !enabled || !result.shouldDeduct then .error result.balance
    else if Text.trimSpace result.userID = [] ∨ result.cost ≤ 0 then .error result.balance
    else .ok (charge result requestID routeID)

/-- A balance, and an error. -/
def deductReply : Stage → Int × Option Text
  | .beginFailed err => (0, some ("begin transaction: ".toList ++ err))
  | .updateFailed err => (0, some err.text)
  | .recordFailed newBalance err => (newBalance, some ("create credit transaction: ".toList ++ err))
  | .commitFailed err => (0, some ("commit transaction: ".toList ++ err))
  | .done newBalance => (newBalance, none)

/-- The charge for a request that was served. -/
def deduct (enabled : Bool) (f : Faults) (db : Database ρ) (result : Option PreCheckResult) (requestID routeID : Text) :
    Done (Int × Option Text) ρ :=
  match deductCredit enabled result requestID routeID with
  | .error balance => .without (balance, none) db
  | .ok c => (transact f db c).map deductReply

/-- The fields of a body that the handlers read, by their types. -/
structure Payload where
  amount : Int
  reason : Text
  action : Text
  requestID : Text
  routeID : Text
  description : Text

/-- What the handlers answer. -/
inductive Reply
  | error (status : Nat) (code message : Text)
  | rateLimited (retryAfter : Text) (code message : Text)
  | adjusted (userID : Text) (delta newBalance : Int)
  | purchased (amount newBalance : Int)

def maxCreditOperation : Int := 1000000000000

def replyError (status : Nat) (code message : String) : Reply := .error status code.toList message.toList

/-- The rows of the handlers: an amount, and the balances that fit it. -/
def adjustment (userID : Text) (delta : Int) (type description requestID routeID : Text) : Credit where
  userID := userID
  delta := delta
  entry newBalance :=
    { id := []
      userID := userID
      type := type
      amount := delta
      balanceBefore := newBalance - delta
      balanceAfter := newBalance
      description := description
      requestID := requestID
      routeID := routeID }
  entry_userID _ := rfl

/-- Amounts are positive and not too large. -/
def invalidAmount (amount : Int) : Option Reply :=
  if amount ≤ 0 then some (replyError 400 "invalid_amount" "amount must be greater than zero")
  else if maxCreditOperation < amount then
    some (replyError 400 "invalid_amount" "amount exceeds maximum allowed operation of 1000000000000")
  else none

/-- The change that a request of the admin API asks for. -/
def adjustCreditsCredit (topup limited : Bool) (id : Text) (body : Except Text Payload) (opens : Bool) :
    Except Reply Credit :=
  let userID := Text.trimSpace id
  if limited then
    .error (.rateLimited "60".toList "rate_limited".toList "Too many credit operations. Please try again later.".toList)
  else
    match body with
    | .error err => .error (.error 400 "invalid_payload".toList err)
    | .ok payload =>
      match invalidAmount payload.amount with
      | some reply => .error reply
      | none =>
        if !opens then .error (replyError 500 "store_open_failed" "internal server error")
        else
          .ok (adjustment userID (if topup then payload.amount else -payload.amount)
            (if topup then "topup".toList else "admin_adjust".toList) (Text.trimSpace payload.reason)
            (Text.trimSpace payload.requestID) (Text.trimSpace payload.routeID))

def adjustCreditsUnifiedCredit (id : Text) (body : Except Text Payload) (opens : Bool) : Except Reply Credit :=
  let userID := Text.trimSpace id
  match body with
  | .error err => .error (.error 400 "invalid_payload".toList err)
  | .ok payload =>
    match invalidAmount payload.amount with
    | some reply => .error reply
    | none =>
      let reason := Text.trimSpace payload.reason
      if reason = [] then .error (replyError 400 "invalid_reason" "reason is required")
      else if !opens then .error (replyError 500 "store_open_failed" "internal server error")
      else
        let deducts := Text.toLower (Text.trimSpace payload.action) = "deduct".toList
        .ok (adjustment userID (if deducts then -payload.amount else payload.amount)
          (if deducts then "deduct".toList else "topup".toList) reason
          (Text.trimSpace payload.requestID) (Text.trimSpace payload.routeID))

def adjustReply (userID : Text) (delta : Int) : Stage → Reply
  | .beginFailed _ => replyError 500 "adjust_credits_failed" "failed to begin transaction"
  | .updateFailed .noRows => replyError 404 "user_not_found" "User not found"
  | .updateFailed .insufficientCredits => replyError 402 "insufficient_credits" "Insufficient credits"
  | .updateFailed (.other _) => replyError 400 "adjust_credits_failed" "balance update failed"
  | .recordFailed _ _ => replyError 400 "record_credit_transaction_failed" "failed to record transaction"
  | .commitFailed _ => replyError 500 "adjust_credits_failed" "failed to commit transaction"
  | .done newBalance => .adjusted userID delta newBalance

/-- The change that a purchase in the portal asks for. -/
def purchaseCreditsCredit (user : Option Text) (body : Except Text Payload) : Except Reply Credit :=
  match user with
  | none => .error (replyError 401 "session_required" "valid session is required")
  | some userID =>
    match body with
    | .error err => .error (.error 400 "invalid_payload".toList err)
    | .ok payload =>
      if payload.amount ≤ 0 then .error (replyError 400 "invalid_amount" "purchase amount must be greater than zero")
      else if maxCreditOperation < payload.amount then
        .error (replyError 400 "invalid_amount" "purchase amount exceeds maximum allowed")
      else
        let description := Text.trimSpace payload.description
        .ok (adjustment userID payload.amount "purchase".toList
          (if description = [] then "self purchase".toList else description) [] [])

def purchaseReply (amount : Int) : Stage → Reply
  | .beginFailed _ => replyError 500 "purchase_failed" "failed to begin transaction"
  | .updateFailed _ => replyError 500 "purchase_failed" "failed to apply credit purchase"
  | .recordFailed _ _ => replyError 500 "purchase_failed" "failed to record purchase transaction"
  | .commitFailed _ => replyError 500 "purchase_failed" "failed to commit transaction"
  | .done newBalance => .purchased amount newBalance

/-- A handler: the checks, and then the transaction. -/
def handle (f : Faults) (db : Database ρ) (credit : Except Reply Credit)
    (reply : Credit → Stage → Reply) : Done Reply ρ :=
  match credit with
  | .error err => .without err db
  | .ok c => (transact f db c).map (reply c)

def adjustCredits (topup limited : Bool) (id : Text) (body : Except Text Payload) (opens : Bool) (f : Faults)
    (db : Database ρ) : Done Reply ρ :=
  handle f db (adjustCreditsCredit topup limited id body opens) fun c => adjustReply c.userID c.delta

def adjustCreditsUnified (id : Text) (body : Except Text Payload) (opens : Bool) (f : Faults) (db : Database ρ) :
    Done Reply ρ :=
  handle f db (adjustCreditsUnifiedCredit id body opens) fun c => adjustReply c.userID c.delta

def purchaseCredits (user : Option Text) (body : Except Text Payload) (f : Faults) (db : Database ρ) : Done Reply ρ :=
  handle f db (purchaseCreditsCredit user body) fun c => purchaseReply c.delta

/-- A call of one of them. -/
inductive Operation
  | deduct (enabled : Bool) (result : Option PreCheckResult) (requestID routeID : Text)
  | adjustCredits (topup limited : Bool) (id : Text) (body : Except Text Payload) (opens : Bool)
  | adjustCreditsUnified (id : Text) (body : Except Text Payload) (opens : Bool)
  | purchaseCredits (user : Option Text) (body : Except Text Payload)

namespace Operation

/-- What it leaves behind. -/
def run (f : Faults) (db : Database ρ) : Operation → Done Unit ρ
  | deduct enabled result requestID routeID => (Billing.deduct enabled f db result requestID routeID).map fun _ => ()
  | adjustCredits topup limited id body opens =>
    (Billing.adjustCredits topup limited id body opens f db).map fun _ => ()
  | adjustCreditsUnified id body opens => (Billing.adjustCreditsUnified id body opens f db).map fun _ => ()
  | purchaseCredits user body => (Billing.purchaseCredits user body f db).map fun _ => ()

/-- The transaction that it tries to begin. -/
def credit : Operation → Option Credit
  | deduct enabled result requestID routeID => (deductCredit enabled result requestID routeID).toOption
  | adjustCredits topup limited id body opens => (adjustCreditsCredit topup limited id body opens).toOption
  | adjustCreditsUnified id body opens => (adjustCreditsUnifiedCredit id body opens).toOption
  | purchaseCredits user body => (purchaseCreditsCredit user body).toOption

theorem handle_eq (f : Faults) (db : Database ρ) (credit : Except Reply Credit) (reply : Credit → Stage → Reply) :
    (handle f db credit reply).map (fun _ => ()) =
      match credit.toOption with
      | none => .without () db
      | some c => (transact f db c).map fun _ => () := by
  cases credit <;> rfl

/-- All of them are a transaction, or nothing. -/
theorem run_eq (f : Faults) (db : Database ρ) (op : Operation) :
    op.run f db =
      match op.credit with
      | none => .without () db
      | some c => (transact f db c).map fun _ => () := by
  cases op with
  | deduct enabled result requestID routeID =>
    simp only [run, credit, Billing.deduct]
    cases deductCredit enabled result requestID routeID <;> rfl
  | adjustCredits topup limited id body opens => exact handle_eq f db _ _
  | adjustCreditsUnified id body opens => exact handle_eq f db _ _
  | purchaseCredits user body => exact handle_eq f db _ _

end Operation

/-! ## Transactions that are left open -/

/-- The transaction, if one was begun, has come to an end, and was committed only with both writes. -/
structure Done.Settled {α : Type} (d : Done α ρ) : Prop where
  ended : d.tx ≠ .active
  complete : d.tx = .committed → d.updated = true ∧ d.inserted = true

/-- The update and the row go through. -/
structure Goes (f : Faults) (db : Database ρ) (c : Credit) : Prop where
  named : Text.trimSpace c.userID ≠ []
  update : f.update = none
  user : ∃ row, db.users.get? (Text.trimSpace c.userID) = some row ∧ 0 ≤ row.creditBalance + c.delta ∧
    row.creditBalance + c.delta ≤ maxInt64
  uuid : ∃ id, f.uuid = .ok id
  insert : f.insert = none

variable {db : Database ρ} {f : Faults} {c : Credit}

/-- What a successful update has found and does. -/
theorem updateCreditBalanceTx_ok {userID : Text} {delta : Int} {r : Int × Database ρ}
    (h : updateCreditBalanceTx f db userID delta = .ok r) :
    Text.trimSpace userID ≠ [] ∧ f.update = none ∧
      ∃ row, db.users.get? (Text.trimSpace userID) = some row ∧ 0 ≤ row.creditBalance + delta ∧
        row.creditBalance + delta ≤ maxInt64 ∧ r = (row.creditBalance + delta, { db with
          users := db.users.set (Text.trimSpace userID)
            { row with creditBalance := row.creditBalance + delta } }) := by
  simp only [updateCreditBalanceTx] at h
  split at h
  · cases h
  · rename_i hid
    split at h
    · cases h
    · rename_i hup
      split at h
      · rename_i row hrow
        obtain ⟨hrow, hneg⟩ := Option.filter_eq_some_iff.1 hrow
        split at h
        · rename_i hmax
          cases h
          exact ⟨hid, hup, row, hrow, of_decide_eq_true hneg, hmax, rfl⟩
        · cases h
      · split at h <;> cases h

theorem updateCreditBalanceTx_of (h : Goes f db c) :
    ∃ r, updateCreditBalanceTx f db c.userID c.delta = .ok r := by
  obtain ⟨row, hrow, hneg, hmax⟩ := h.user
  have hfound : (db.users.get? (Text.trimSpace c.userID)).filter (fun row => 0 ≤ row.creditBalance + c.delta) =
    some row :=
    Option.filter_eq_some_iff.2 ⟨hrow, decide_eq_true hneg⟩
  simp only [updateCreditBalanceTx, h.named, h.update, hfound, hmax, if_true, if_false]
  exact ⟨_, rfl⟩

theorem createTx_ok {db db' : Database ρ} {txn : CreditTransaction} (h : createTx f db txn = .ok db') :
    f.insert = none ∧ ∃ id, f.uuid = .ok id ∧ db' = { db with ledger := db.ledger ++ [txn.stored id] } := by
  simp only [createTx] at h
  split at h
  · cases h
  · split at h
    · cases h
    · rename_i id hid
      split at h
      · cases h
      · rename_i hinsert
        cases h
        exact ⟨hinsert, id, hid, rfl⟩

theorem createTx_of (h : Goes f db c) (tx : Database ρ) (newBalance : Int) :
    ∃ db', createTx f tx (c.entry newBalance) = .ok db' := by
  obtain ⟨id, hid⟩ := h.uuid
  simp only [createTx, c.entry_userID, h.named, hid, h.insert, if_false]
  exact ⟨_, rfl⟩

/-- A change is made as a whole, or not at all. -/
theorem transact_settled_iff :
    (transact f db c).Settled ↔ (f.begin = none → Goes f db c) := by
  unfold transact
  cases hbegin : f.begin with
  | some err =>
    constructor
    · intro _ h
      cases h
    · intro _
      constructor <;> simp [Done.without]
  | none =>
    simp only [true_implies]
    cases hup : updateCreditBalanceTx f db c.userID c.delta with
    | error err =>
      constructor
      · intro h
        exact absurd rfl h.ended
      · intro h
        obtain ⟨r, hr⟩ := updateCreditBalanceTx_of h
        rw [hr] at hup
        cases hup
    | ok r =>
      obtain ⟨hid, hupdate, row, hrow, hneg, hmax, -⟩ := updateCreditBalanceTx_ok hup
      cases hrec : createTx f r.2 (c.entry r.1) with
      | error err =>
        simp only [hrec]
        constructor
        · intro h
          exact absurd rfl h.ended
        · intro h
          obtain ⟨db', hdb⟩ := createTx_of h r.2 r.1
          rw [hdb] at hrec
          cases hrec
      | ok tx =>
        obtain ⟨hinsert, id, huuid, -⟩ := createTx_ok hrec
        simp only [hrec]
        constructor
        · intro _
          exact ⟨hid, hupdate, ⟨row, hrow, hneg, hmax⟩, ⟨id, huuid⟩, hinsert⟩
        · intro _
          cases f.commit with
          | some err => constructor <;> simp [deferred]
          | none => constructor <;> simp [deferred]

/-- **No transaction is left open**, and none is committed without both writes, iff the update and the row of a
transaction that is begun go through. -/
theorem settled_iff (op : Operation) (f : Faults) (db : Database ρ) :
    (op.run f db).Settled ↔ ∀ c, op.credit = some c → f.begin = none → Goes f db c := by
  rw [Operation.run_eq]
  cases op.credit with
  | none =>
    constructor
    · intro _ c hc
      cases hc
    · intro _
      constructor <;> simp [Done.without]
  | some c =>
    have hmap : ((transact f db c).map fun _ => ()).Settled ↔ (transact f db c).Settled :=
      ⟨fun h => ⟨h.ended, h.complete⟩, fun h => ⟨h.ended, h.complete⟩⟩
    simp only [hmap, transact_settled_iff, Option.some.injEq, forall_eq']

/-- Nothing fails. -/
def noFaults : Faults := ⟨none, none, none, .ok "tx1".toList, none, none⟩

/-- A user with twenty credits. -/
def twenty : Database Unit := ⟨FinMap.empty.set "u1".toList ⟨20, ()⟩, []⟩

/-- A charge for a request of the user. -/
def chargeOf (cost : Int) : Operation :=
  .deduct true (some ⟨"u1".toList, cost, true, false, 20⟩) "q1".toList "r1".toList

/-- A body with an amount. -/
def payloadOf (amount : Int) : Except Text Payload := .ok ⟨amount, "gift".toList, "deduct".toList, [], [], []⟩

/-- **A transaction is left open** by each of the functions: nothing fails, but the user is missing or lacks credits, or
the row cannot be written. -/
theorem left_open :
    (∀ op ∈ [chargeOf 21, .adjustCredits false false "u1".toList (payloadOf 21) true,
        .adjustCreditsUnified "u2".toList (payloadOf 1) true, .purchaseCredits (some "u2".toList) (payloadOf 1)],
      (op.run noFaults twenty).tx = .active) ∧
    ((chargeOf 4).run { noFaults with insert := some "database is locked".toList } twenty).tx = .active := by
  decide +kernel

end Billing
