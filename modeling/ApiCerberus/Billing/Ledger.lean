import ApiCerberus.Billing.Credits

/-!
# The ledger

A call that succeeds changes one balance and appends one row. The rows of the handlers show the change. The rows of
`Deduct` do not: by the comment in its source the amount is kept out of them, so they say `0`, with the new balance on
both sides. So the rows of a user chain up to the charges (`ledger_law`). The charges are missing from `TotalConsumed`
(`OverviewStats`, `internal/store/credit_repo.go:228-271`), so that nothing is said of it there (`charge_not_shown`).
-/

namespace Billing

variable {ρ : Type}

/-- `SUM`. -/
def total {α : Type} (g : α → Int) : List α → Int
  | [] => 0
  | a :: l => g a + total g l

@[simp] theorem total_append {α : Type} (g : α → Int) (l l' : List α) : total g (l ++ l') = total g l + total g l' := by
  induction l with
  | nil => simp [total]
  | cons a l ih => simp [total, ih, Int.add_assoc]

structure CreditOverviewStats where
  totalDistributed : Int
  totalConsumed : Int

/-- The positive and the negative amounts, each added up. -/
def overviewStats (db : Database ρ) : CreditOverviewStats where
  totalDistributed := total (fun row => if 0 < row.amount then row.amount else 0) db.ledger
  totalConsumed := total (fun row => if row.amount < 0 then -row.amount else 0) db.ledger

def Database.balance (db : Database ρ) (userID : Text) : Int :=
  ((db.users.get? userID).map UserRow.creditBalance).getD 0

/-! ## What a call posts -/

/-- A change of a balance that has been committed. -/
structure Posting where
  row : CreditTransaction
  delta : Int
  /-- It is one of `Deduct`. -/
  charged : Bool

/-- What `Deduct` has taken. -/
def Posting.cost (p : Posting) : Int := if p.charged then -p.delta else 0

def Operation.isCharge : Operation → Bool
  | .deduct _ _ _ _ => true
  | _ => false

/-- The posting of a call that succeeds. -/
def Operation.posting (f : Faults) (db : Database ρ) (op : Operation) : Option Posting :=
  op.credit.bind fun c =>
    match (transact f db c).reply, f.uuid with
    | .done newBalance, .ok id => some ⟨(c.entry newBalance).stored id, c.delta, op.isCharge⟩
    | _, _ => none

/-- The database after a posting. -/
structure Posted (db : Database ρ) (p : Posting) (db' : Database ρ) : Prop where
  user : ∃ row, db.users.get? p.row.userID = some row ∧
    db'.users = db.users.set p.row.userID { row with creditBalance := p.row.balanceAfter }
  ledger : db'.ledger = db.ledger ++ [p.row]
  after : p.row.balanceAfter = db.balance p.row.userID + p.delta
  nonneg : 0 ≤ p.row.balanceAfter
  /-- A charge is not shown. -/
  shown : p.row.amount = p.delta + p.cost
  sum : p.row.balanceAfter = p.row.balanceBefore + p.row.amount

theorem Posted.balance {db db' : Database ρ} {p : Posting} (h : Posted db p db') (u : Text) :
    db'.balance u = db.balance u + if u = p.row.userID then p.delta else 0 := by
  obtain ⟨row, -, husers⟩ := h.user
  have hafter := h.after
  simp only [Database.balance, husers, FinMap.get?_set] at hafter ⊢
  by_cases hu : u = p.row.userID
  · subst hu
    simpa using hafter
  · simp [hu]

/-- `Deduct` charges, and the handlers adjust. -/
theorem credit_cases {op : Operation} {c : Credit} (h : op.credit = some c) :
    (op.isCharge = true ∧ ∃ result requestID routeID, c = charge result requestID routeID) ∨
      (op.isCharge = false ∧ ∃ userID delta type description requestID routeID,
        c = adjustment userID delta type description requestID routeID) := by
  cases op with
  | deduct enabled result requestID routeID =>
    refine Or.inl ⟨rfl, ?_⟩
    simp only [Operation.credit, deductCredit] at h
    split at h
    · cases h
    · split at h
      · cases h
      · split at h
        · cases h
        · cases h
          exact ⟨_, _, _, rfl⟩
  | adjustCredits topup limited id body opens =>
    refine Or.inr ⟨rfl, ?_⟩
    simp only [Operation.credit, adjustCreditsCredit] at h
    split at h
    · cases h
    · split at h
      · cases h
      · split at h
        · cases h
        · split at h
          · cases h
          · cases h
            exact ⟨_, _, _, _, _, _, rfl⟩
  | adjustCreditsUnified id body opens =>
    refine Or.inr ⟨rfl, ?_⟩
    simp only [Operation.credit, adjustCreditsUnifiedCredit] at h
    split at h
    · cases h
    · split at h
      · cases h
      · split at h
        · cases h
        · split at h
          · cases h
          · cases h
            exact ⟨_, _, _, _, _, _, rfl⟩
  | purchaseCredits user body =>
    refine Or.inr ⟨rfl, ?_⟩
    simp only [Operation.credit, purchaseCreditsCredit] at h
    split at h
    · cases h
    · split at h
      · cases h
      · split at h
        · cases h
        · split at h
          · cases h
          · cases h
            exact ⟨_, _, _, _, _, _, rfl⟩

/-- The rows of the handlers show the change, the row of `Deduct` shows nothing. -/
theorem credit_entry {op : Operation} {c : Credit} (h : op.credit = some c) (newBalance : Int) :
    (c.entry newBalance).balanceAfter = newBalance ∧
      (c.entry newBalance).balanceBefore = newBalance - (c.entry newBalance).amount ∧
      (c.entry newBalance).amount = if op.isCharge then 0 else c.delta := by
  rcases credit_cases h with ⟨hcharge, result, requestID, routeID, rfl⟩ |
    ⟨hcharge, userID, delta, type, description, requestID, routeID, rfl⟩
  · simp [charge, hcharge]
  · simp [adjustment, hcharge]

@[simp] theorem stored_userID (txn : CreditTransaction) (id : Text) :
    (txn.stored id).userID = Text.trimSpace txn.userID := rfl

@[simp] theorem stored_amount (txn : CreditTransaction) (id : Text) : (txn.stored id).amount = txn.amount := rfl

@[simp] theorem stored_balanceBefore (txn : CreditTransaction) (id : Text) :
    (txn.stored id).balanceBefore = txn.balanceBefore := rfl

@[simp] theorem stored_balanceAfter (txn : CreditTransaction) (id : Text) :
    (txn.stored id).balanceAfter = txn.balanceAfter := rfl

/-- A transaction that is done, and one that is not. -/
theorem transact_cases (f : Faults) (db : Database ρ) (c : Credit) :
    ((∀ newBalance, (transact f db c).reply ≠ .done newBalance) ∧ (transact f db c).db = db) ∨
      ∃ row id, f.uuid = .ok id ∧ db.users.get? (Text.trimSpace c.userID) = some row ∧
        0 ≤ row.creditBalance + c.delta ∧ (transact f db c).reply = .done (row.creditBalance + c.delta) ∧
        (transact f db c).db =
          { users := db.users.set (Text.trimSpace c.userID) { row with creditBalance := row.creditBalance + c.delta }
            ledger := db.ledger ++ [(c.entry (row.creditBalance + c.delta)).stored id] } := by
  unfold transact
  cases f.begin with
  | some err => exact Or.inl ⟨by simp [Done.without], rfl⟩
  | none =>
    cases hup : updateCreditBalanceTx f db c.userID c.delta with
    | error err => exact Or.inl ⟨by simp, rfl⟩
    | ok r =>
      obtain ⟨-, -, row, hrow, hneg, -, rfl⟩ := updateCreditBalanceTx_ok hup
      simp only
      split
      · exact Or.inl ⟨by simp, rfl⟩
      · rename_i tx hrec
        obtain ⟨-, id, hid, rfl⟩ := createTx_ok hrec
        cases f.commit with
        | some err => exact Or.inl ⟨by simp, rfl⟩
        | none => exact Or.inr ⟨row, id, hid, hrow, hneg, rfl, rfl⟩

/-- A call changes nothing, or posts. -/
theorem posting_cases (op : Operation) (f : Faults) (db : Database ρ) :
    (op.posting f db = none ∧ (op.run f db).db = db) ∨
      ∃ p, op.posting f db = some p ∧ Posted db p (op.run f db).db := by
  rw [Operation.run_eq]
  cases hc : op.credit with
  | none => exact Or.inl ⟨by simp [Operation.posting, hc], rfl⟩
  | some c =>
    rcases transact_cases f db c with ⟨hnot, hsame⟩ | ⟨row, id, hid, hrow, hneg, hdone, hdb⟩
    · refine Or.inl ⟨?_, hsame⟩
      simp only [Operation.posting, hc, Option.bind_some]
      split
      · rename_i hdone _
        exact absurd hdone (hnot _)
      · rfl
    · obtain ⟨hafter, hbefore, hamount⟩ := credit_entry hc (row.creditBalance + c.delta)
      have huser : ((c.entry (row.creditBalance + c.delta)).stored id).userID = Text.trimSpace c.userID := by
        rw [stored_userID, c.entry_userID]
      refine Or.inr ⟨⟨(c.entry (row.creditBalance + c.delta)).stored id, c.delta, op.isCharge⟩, ?_, ?_⟩
      · simp only [Operation.posting, hc, Option.bind_some, hdone, hid]
      · refine ⟨⟨row, ?_, ?_⟩, congrArg Database.ledger hdb, ?_, ?_, ?_, ?_⟩
        · rw [huser, hrow]
        · rw [huser, stored_balanceAfter, hafter]
          exact congrArg Database.users hdb
        · rw [stored_balanceAfter, huser, hafter, Database.balance, hrow]
          rfl
        · rwa [stored_balanceAfter, hafter]
        · simp only [stored_amount, hamount, Posting.cost]
          split <;> omega
        · rw [stored_balanceAfter, stored_balanceBefore, stored_amount, hafter, hbefore]
          omega

/-! ## Histories -/

/-- The calls of a history, with what fails in each. -/
abbrev History := List (Operation × Faults)

/-- One operation after the other, with its failures. -/
def runAll : Database ρ → History → Database ρ
  | db, [] => db
  | db, (op, f) :: history => runAll (op.run f db).db history

/-- What a history posts, in order. -/
def postings : Database ρ → History → List Posting
  | _, [] => []
  | db, (op, f) :: history => (op.posting f db).toList ++ postings (op.run f db).db history

def ofUser (u : Text) (ps : List Posting) : List Posting := ps.filter fun p => p.row.userID = u

/-- Each row starts from the balance that the one before it left, less the cost if it is a charge. -/
def Chained : Int → List Posting → Prop
  | _, [] => True
  | balance, p :: ps => p.row.balanceBefore = balance - p.cost ∧ Chained p.row.balanceAfter ps

/-- What holds of a database after some postings. -/
structure Law (db : Database ρ) (ps : List Posting) (db' : Database ρ) : Prop where
  ledger : db'.ledger = db.ledger ++ ps.map Posting.row
  sums : ∀ p ∈ ps, p.row.balanceAfter = p.row.balanceBefore + p.row.amount
  chained : ∀ u, Chained (db.balance u) (ofUser u ps)
  balance : ∀ u,
    db'.balance u = db.balance u + total (fun p => p.row.amount) (ofUser u ps) - total Posting.cost (ofUser u ps)

theorem law_nil (db : Database ρ) : Law db [] db := by
  constructor <;> simp [ofUser, Chained, total]

/-- One posting before the others. -/
theorem Law.cons {db db₁ db₂ : Database ρ} {p : Posting} {ps : List Posting} (hp : Posted db p db₁)
    (h : Law db₁ ps db₂) :
    Law db (p :: ps) db₂ := by
  refine ⟨?_, ?_, ?_, ?_⟩
  · simp [h.ledger, hp.ledger]
  · intro q hq
    rcases List.mem_cons.1 hq with rfl | hq
    · exact hp.sum
    · exact h.sums q hq
  · intro u
    have hrest := h.chained u
    rw [hp.balance u] at hrest
    by_cases hu : u = p.row.userID
    · subst hu
      have hafter := hp.after
      have hsum := hp.sum
      have hshown := hp.shown
      rw [if_pos rfl, ← hafter] at hrest
      simp only [ofUser, List.filter_cons, decide_true, if_true, Chained]
      exact ⟨by omega, hrest⟩
    · simpa [ofUser, List.filter_cons, hu, Ne.symm hu] using hrest
  · intro u
    have hrest := h.balance u
    rw [hp.balance u] at hrest
    have hshown := hp.shown
    by_cases hu : u = p.row.userID
    · subst hu
      simp only [ofUser, List.filter_cons, decide_true, if_true, total] at hrest ⊢
      omega
    · simpa [ofUser, List.filter_cons, hu, Ne.symm hu] using hrest

/-- **The law of the ledger**, after any history: the balances of every row fit its amount; the rows of a user chain,
but for the costs of the charges; and a balance is the first one with the amounts of the rows, less the costs of the
charges. -/
theorem ledger_law (db : Database ρ) (history : History) : Law db (postings db history) (runAll db history) := by
  induction history generalizing db with
  | nil => exact law_nil db
  | cons call history ih =>
    obtain ⟨op, f⟩ := call
    rw [postings, runAll]
    rcases posting_cases op f db with ⟨hnone, hsame⟩ | ⟨p, hsome, hposted⟩
    · rw [hnone, hsame]
      exact ih db
    · rw [hsome]
      exact Law.cons hposted (ih _)

/-- A top-up of twenty, and a charge of four. -/
def topupAndCharge : History :=
  [(.adjustCredits true false "u1".toList (payloadOf 20) true, noFaults), (chargeOf 4, noFaults)]

/-- **A charge is not shown**: its row does not start from the balance that the top-up left, the amounts do not add up
to the balance, and nothing has been consumed. -/
theorem charge_not_shown :
    let db := runAll (⟨FinMap.empty.set "u1".toList ⟨0, ()⟩, []⟩ : Database Unit) topupAndCharge
    db.ledger.map (fun row => (row.balanceBefore, row.amount, row.balanceAfter)) = [(0, 20, 20), (16, 0, 16)] ∧
      db.balance "u1".toList = 16 ∧ (overviewStats db).totalConsumed = 0 := by
  decide +kernel

end Billing
