import ApiCerberus.Billing.Ledger
import ApiCerberus.Lib.Transition

/-!
# Edits of users between the credit operations

`Update` in `internal/store/user_repo.go:267-330`, after `FindByID`, as `internal/admin/admin_users.go` and
`internal/portal` call them.

A credit operation is one transaction, but an edit is two statements, and the second one writes every column of the row
that the first one has read. What happens to the balance in between is undone (`lost_update`). Nothing is lost if every
edit still finds the balance that it has read, and no balance becomes negative in any case (`no_lost_update`).

`updateUser` lets an administrator set the balance, too. That is no action here.
-/

namespace Billing

/-- The columns of a user besides the balance. Those with JSON are their texts. -/
structure Profile where
  email : Text
  name : Text
  company : Text
  passwordHash : Text
  role : Text
  status : Text
  rateLimits : Text
  ipWhitelist : Text
  metadata : Text

def looksLikeEmail (value : Text) : Bool :=
  let value := Text.trimSpace value
  let localPart := value.takeWhile fun c => c ≠ '@'
  let domain := (value.dropWhile fun c => c ≠ '@').drop 1
  localPart ≠ [] && domain ≠ [] && Text.hasInfix domain ".".toList

/-- What is wrong with the fields of a user. -/
def validateUserInput (p : Profile) : Option Text :=
  if Text.trimSpace p.email = [] then some "user email is required".toList
  else if !looksLikeEmail (Text.trimSpace p.email) then some "user email is invalid".toList
  else if Text.trimSpace p.name = [] then some "user name is required".toList
  else none

/-- The columns as they are written. -/
def Profile.columns (p : Profile) : Profile :=
  let role := if Text.trimSpace p.role = [] then "user".toList else p.role
  let status := if Text.trimSpace p.status = [] then "active".toList else p.status
  { p with
    email := Text.trimSpace (Text.toLower p.email)
    name := Text.trimSpace p.name
    company := Text.trimSpace p.company
    passwordHash := Text.trimSpace p.passwordHash
    role := Text.trimSpace (Text.toLower role)
    status := Text.trimSpace (Text.toLower status) }

/-- The statement writes all columns, with the balance that `user` holds. -/
def update (marshal exec : Option Text) (db : Database Profile) (user : User Profile) :
    Except CreditError (Database Profile) :=
  let id := Text.trimSpace user.id
  if id = [] then .error (.other "user id is required".toList)
  else
    match validateUserInput user.row.profile, marshal, exec with
    | some err, _, _ => .error (.other err)
    | none, some err, _ => .error (.other err)
    | none, none, some err => .error (.other ("update user: ".toList ++ err))
    | none, none, none =>
      if (db.users.get? id).isNone then .error .noRows
      else .ok { db with users := db.users.set id ⟨user.row.creditBalance, user.row.profile.columns⟩ }

/-! ## Interleavings -/

structure Shared where
  db : Database Profile
  /-- What the edits under way have read. -/
  edits : List (User Profile)
  /-- The changes of balances so far. -/
  posted : List Posting

/-- Changes of balances, and the two halves of an edit of a user. -/
inductive Action
  | credit (op : Operation) (f : Faults)
  | read (id : Text) (query : Option Text)
  /-- The `i`th edit puts other values into the fields besides the balance, and writes. -/
  | write (i : Nat) (profile : Profile) (marshal exec : Option Text)

namespace Shared

/-- The table after the second statement of an edit. -/
def saved (marshal exec : Option Text) (db : Database Profile) (user : User Profile) : Database Profile :=
  match update marshal exec db user with
  | .ok db' => db'
  | .error _ => db

/-- An edit writes the balance that it has read. -/
def step (s : Shared) : Action → Option Shared
  | .credit op f =>
    some { s with db := (op.run f s.db).db, posted := s.posted ++ (op.posting f s.db).toList }
  | .read id query =>
    match findByID query s.db id with
    | .ok (some user) => some { s with edits := s.edits ++ [user] }
    | _ => some s
  | .write i profile marshal exec =>
    s.edits[i]?.map fun user =>
      { s with
        edits := s.edits.eraseIdx i
        db := saved marshal exec s.db { user with row.profile := profile } }

def system (db : Database Profile) : Transition.System Shared Action := ⟨fun s => s = ⟨db, [], []⟩, step⟩

/-- An edit that writes finds the balance that it has read. -/
def Fresh (s : Shared) : Action → Prop
  | .write i _ _ _ =>
    ∀ user ∈ s.edits[i]?, ∀ row ∈ s.db.users.get? (Text.trimSpace user.id), user.row.creditBalance = row.creditBalance
  | _ => True

instance (s : Shared) (a : Action) : Decidable (s.Fresh a) :=
  match a with
  | .credit _ _ | .read _ _ => inferInstanceAs (Decidable True)
  | .write i _ _ _ =>
    inferInstanceAs (Decidable (∀ user ∈ s.edits[i]?, ∀ row ∈ s.db.users.get? (Text.trimSpace user.id),
      user.row.creditBalance = row.creditBalance))

/-- A write that fails changes nothing; another one sets the balance of a user that exists. -/
theorem saved_balance (marshal exec : Option Text) (db : Database Profile) (user : User Profile) :
    saved marshal exec db user = db ∨
      (∃ row, db.users.get? (Text.trimSpace user.id) = some row) ∧
        ∀ u, (saved marshal exec db user).balance u =
          if u = Text.trimSpace user.id then user.row.creditBalance else db.balance u := by
  simp only [saved, update]
  by_cases hid : Text.trimSpace user.id = []
  · simp [hid]
  · cases validateUserInput user.row.profile with
    | some err => simp [hid]
    | none =>
      cases marshal with
      | some err => simp [hid]
      | none =>
        cases exec with
        | some err => simp [hid]
        | none =>
          cases hrow : db.users.get? (Text.trimSpace user.id) with
          | none => simp [hid]
          | some row =>
            refine Or.inr ⟨⟨row, rfl⟩, ?_⟩
            intro u
            simp only [hid, if_false, Option.isNone_some, Bool.false_eq_true, Database.balance, FinMap.get?_set]
            split <;> rfl

variable {db : Database Profile}

theorem findByID_ok {query : Option Text} {id : Text} {user : User Profile}
    (h : findByID query db id = .ok (some user)) :
    Text.trimSpace user.id = user.id ∧ user.row.creditBalance = db.balance user.id := by
  simp only [findByID] at h
  split at h
  · cases h
  · split at h
    · cases h
    · obtain ⟨row, hrow, rfl⟩ := Option.map_eq_some_iff.1 (Except.ok.inj h)
      constructor
      · exact Text.trim_trim
      · simp [Database.balance, hrow]

/-- What a step does to the balances and to the edits. -/
theorem step_cases {s t : Shared} {a : Action} (h : s.step a = some t) :
    (t.edits = s.edits ∧ ∃ p, t.posted = s.posted ++ [p] ∧ Posted s.db p t.db) ∨
    (t.db = s.db ∧ t.posted = s.posted ∧ ∀ user ∈ t.edits,
      user ∈ s.edits ∨ (Text.trimSpace user.id = user.id ∧ user.row.creditBalance = s.db.balance user.id)) ∨
    (t.posted = s.posted ∧ (∀ user ∈ t.edits, user ∈ s.edits) ∧
      ∃ i profile marshal exec user row, a = .write i profile marshal exec ∧ s.edits[i]? = some user ∧
        s.db.users.get? (Text.trimSpace user.id) = some row ∧
        ∀ u, t.db.balance u = if u = Text.trimSpace user.id then user.row.creditBalance else s.db.balance u) := by
  cases a with
  | credit op f =>
    cases h
    rcases posting_cases op f s.db with ⟨hnone, hsame⟩ | ⟨p, hsome, hposted⟩
    · refine Or.inr (Or.inl ⟨hsame, by simp [hnone], ?_⟩)
      intro user huser
      exact Or.inl huser
    · exact Or.inl ⟨rfl, p, by simp [hsome], hposted⟩
  | read id query =>
    simp only [step] at h
    split at h
    · rename_i user hfound
      cases h
      refine Or.inr (Or.inl ⟨rfl, rfl, ?_⟩)
      intro other hother
      rcases List.mem_append.1 hother with hold | hnew
      · exact Or.inl hold
      · rw [List.mem_singleton.1 hnew]
        exact Or.inr (findByID_ok hfound)
    · cases h
      refine Or.inr (Or.inl ⟨rfl, rfl, ?_⟩)
      intro user huser
      exact Or.inl huser
  | write i profile marshal exec =>
    obtain ⟨user, huser, rfl⟩ := Option.map_eq_some_iff.1 h
    have hkept : ∀ other ∈ s.edits.eraseIdx i, other ∈ s.edits := fun other hother =>
      (List.eraseIdx_sublist s.edits i).subset hother
    rcases saved_balance marshal exec s.db { user with row.profile := profile } with hsame | ⟨⟨row, hrow⟩, hbalance⟩
    · exact Or.inr (Or.inl ⟨hsame, rfl, fun other hother => Or.inl (hkept other hother)⟩)
    · exact Or.inr (Or.inr ⟨rfl, hkept, i, profile, marshal, exec, user, row, rfl, huser, hrow, hbalance⟩)

/-- If every write finds the balance that it has read, the changes add up. -/
theorem balance_of_fresh {s : Shared} (h : Transition.Reach (system db) Fresh s) (u : Text) :
    s.db.balance u = db.balance u + total Posting.delta (ofUser u s.posted) := by
  refine h.invariant (P := fun s => s.db.balance u = db.balance u + total Posting.delta (ofUser u s.posted)) ?_ ?_
  · rintro s rfl
    simp [ofUser, total]
  · intro s a t _ hs hfresh hstep
    rcases step_cases hstep with ⟨-, p, hp, hposted⟩ | ⟨hdb, hp, -⟩ |
      ⟨hp, -, i, profile, marshal, exec, user, row, rfl, huser, hrow, hbalance⟩
    · rw [hposted.balance u, hs, hp]
      by_cases hu : u = p.row.userID
      · simp [ofUser, hu, total, Int.add_assoc]
      · simp [ofUser, hu, Ne.symm hu]
    · rw [hdb, hp, hs]
    · have hread : user.row.creditBalance = row.creditBalance := hfresh user huser row hrow
      rw [hbalance u, hp, ← hs]
      split
      · rename_i hu
        simp [hu, Database.balance, hrow, hread]
      · rfl

/-- No step takes a balance below zero, nor does what an edit has read bring it there. -/
theorem balance_nonneg {s : Shared} {u : Text} (hdb : 0 ≤ db.balance u)
    (h : Transition.Reach (system db) (fun _ _ => True) s) : 0 ≤ s.db.balance u := by
  -- an edit holds a balance that the user had, so the edits belong to the invariant
  have hinv : 0 ≤ s.db.balance u ∧ ∀ user ∈ s.edits, Text.trimSpace user.id = u → 0 ≤ user.row.creditBalance := by
    refine h.invariant (P := fun s => 0 ≤ s.db.balance u ∧
      ∀ user ∈ s.edits, Text.trimSpace user.id = u → 0 ≤ user.row.creditBalance) ?_ ?_
    · rintro s rfl
      exact ⟨hdb, by simp⟩
    · intro s a t _ hs _ hstep
      obtain ⟨hnonneg, hedits⟩ := hs
      rcases step_cases hstep with ⟨he, p, -, hposted⟩ | ⟨hsame, -, he⟩ |
        ⟨-, he, i, profile, marshal, exec, user, row, rfl, huser, -, hbalance⟩
      · refine ⟨?_, by rwa [he]⟩
        rw [hposted.balance u]
        split
        · rename_i hu
          rw [hu, ← hposted.after]
          exact hposted.nonneg
        · omega
      · refine ⟨by rwa [hsame], ?_⟩
        intro user huser hid
        rcases he user huser with hold | ⟨htrim, hread⟩
        · exact hedits user hold hid
        · rwa [hread, ← htrim, hid]
      · refine ⟨?_, fun other hother => hedits other (he other hother)⟩
        rw [hbalance u]
        split
        · rename_i hu
          exact hedits user (List.mem_of_getElem? huser) hu.symm
        · exact hnonneg
  exact hinv.1

/-- **No lost update**: if every edit that writes finds the balance that it has read, a balance is the first one with
all the changes of the credit operations. No balance becomes negative, also in other runs. -/
theorem no_lost_update (db : Database Profile) (s : Shared) (u : Text) :
    (Transition.Reach (system db) Fresh s → s.db.balance u = db.balance u + total Posting.delta (ofUser u s.posted)) ∧
    (Transition.Reach (system db) (fun _ _ => True) s → 0 ≤ db.balance u → 0 ≤ s.db.balance u) :=
  ⟨fun h => balance_of_fresh h u, fun h hdb => balance_nonneg hdb h⟩

/-- The fields of a user. -/
def someFields : Profile where
  email := "u1@example.com".toList
  name := "u1".toList
  company := []
  passwordHash := []
  role := "user".toList
  status := "active".toList
  rateLimits := "\x7b\x7d".toList
  ipWhitelist := "[]".toList
  metadata := "\x7b\x7d".toList

def ownerOf (balance : Int) : Database Profile := ⟨FinMap.empty.set "u1".toList ⟨balance, someFields⟩, []⟩

/-- An edit of the company before a charge of four. -/
def editThenCharge : List Action :=
  [.read "u1".toList none, .write 0 { someFields with company := "c1".toList } none none, .credit (chargeOf 4) noFaults]

/-- The same, with the charge between the two statements of the edit. -/
def chargeDuringEdit : List Action :=
  [.read "u1".toList none, .credit (chargeOf 4) noFaults, .write 0 { someFields with company := "c1".toList } none none]

theorem no_lost_update_editThenCharge :
    ∃ s, Transition.Reach (system (ownerOf 20)) Fresh s ∧ s.db.balance "u1".toList = 16 ∧
      s.db.balance "u1".toList = 20 + total Posting.delta (ofUser "u1".toList s.posted) ∧
        0 ≤ s.db.balance "u1".toList := by
  have hrun : ((system (ownerOf 20)).exec Fresh ⟨ownerOf 20, [], []⟩ editThenCharge).map
      (fun s => s.db.balance "u1".toList) = some 16 := by decide +kernel
  obtain ⟨s, hs, hview⟩ := Option.map_eq_some_iff.1 hrun
  have hreach : Transition.Reach (system (ownerOf 20)) Fresh s := ⟨_, rfl, Transition.Run.of_exec editThenCharge hs⟩
  obtain ⟨hsum, hnonneg⟩ := no_lost_update (ownerOf 20) s "u1".toList
  have hany : Transition.Reach (system (ownerOf 20)) (fun _ _ => True) s := hreach.mono fun _ _ _ => trivial
  exact ⟨s, hreach, hview, hsum hreach, hnonneg hany (by decide)⟩

/-- **A lost update**: the charge is in the ledger, but the edit has written the old balance back. -/
theorem lost_update :
    ∃ s, Transition.Reach (system (ownerOf 20)) (fun _ _ => True) s ∧ s.db.balance "u1".toList = 20 ∧
      total Posting.delta (ofUser "u1".toList s.posted) = -4 := by
  have hrun : ((system (ownerOf 20)).exec (fun _ _ => True) ⟨ownerOf 20, [], []⟩ chargeDuringEdit).map
      (fun s => (s.db.balance "u1".toList, total Posting.delta (ofUser "u1".toList s.posted))) = some (20, -4) := by
    decide +kernel
  obtain ⟨s, hs, hview⟩ := Option.map_eq_some_iff.1 hrun
  exact ⟨s, ⟨_, rfl, Transition.Run.of_exec chargeDuringEdit hs⟩, congrArg Prod.fst hview, congrArg Prod.snd hview⟩

end Shared

end Billing
