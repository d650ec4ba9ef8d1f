import Mathlib.Algebra.Order.Ring.Int
import Mathlib.Logic.Function.Basic
import ApiCerberus.Lib.Table
import ApiCerberus.Lib.Text
import ApiCerberus.Lib.Transition

/-!
# Backoff of failed authentications

`internal/plugin/auth_backoff.go`, as `Authenticate` uses it (`auth_apikey.go:136-163`).

A failure doubles the delay of its address, but `Check` forgets the address as soon as the delay is over. So the count
goes up only for calls that were let through before: failures that come one after the other, each when it may, all wait
the first 100 ms (`checked_streak`). The doubled delay is a 64-bit integer, which is negative or zero for most counts
from 38 on. `backoff_exact` says for which failures the delay is what it is meant to be.
-/

namespace Plugin.Backoff

open Transition

/-- Durations are nanoseconds. -/
def initialDelay : Int := 100000000

def maxDelay : Int := 30000000000

/-- The failures of an address. -/
structure IpBackoffState where
  count : Nat
  lastFail : Int
  currentDelay : Int

abbrev Failures := FinMap Text IpBackoffState

/-- `time.Duration(math.Pow(2, n))`, where amd64 makes the least integer of a `float64` that is too large. -/
def power (n : Nat) : Int := if n < 63 then 2 ^ n else -2 ^ 63

/-- The delay that is stored, in wrapping 64-bit numbers. -/
def delayAfter (count : Nat) : Int :=
  let delay := (initialDelay * power (count - 1)).bmod (2 ^ 64)
  if maxDelay < delay then maxDelay else delay

/-- `now` and `later` are the two readings of the clock. -/
def check (now later : Int) (ip : Text) (failures : Failures) : Int × Failures :=
  if ip = [] then (0, failures)
  else
    match failures.get? ip with
    | none => (0, failures)
    | some state =>
      if state.currentDelay < now - state.lastFail then (0, failures.erase ip)
      else if state.currentDelay - (later - state.lastFail) ≤ 0 then (0, failures.erase ip)
      else (state.currentDelay - (later - state.lastFail), failures)

def countOf (failures : Failures) (ip : Text) : Nat := (failures.get? ip).elim 0 IpBackoffState.count

/-- One more failure, and its delay. -/
def recordFailure (now : Int) (ip : Text) (failures : Failures) : Failures :=
  if ip = [] then failures
  else
    let count := countOf failures ip + 1
    failures.set ip ⟨count, now, delayAfter count⟩

/-- A success forgets the address. -/
def recordSuccess (ip : Text) (failures : Failures) : Failures := if ip = [] then failures else failures.erase ip

/-! ## Check -/

theorem check_cases (now later : Int) (ip : Text) (failures : Failures) :
    (check now later ip failures).2 = failures ∨ (check now later ip failures).2 = failures.erase ip := by
  unfold check
  split
  · exact .inl rfl
  · split
    · exact .inl rfl
    · split_ifs
      · exact .inr rfl
      · exact .inr rfl
      · exact .inl rfl

/-- A call that is let through finds no entry of its address, or takes it away. -/
theorem get?_check {now later : Int} {ip : Text} {failures : Failures} (hip : ip ≠ [])
    (h : ¬ 0 < (check now later ip failures).1) : (check now later ip failures).2.get? ip = none := by
  unfold check at h ⊢
  rw [if_neg hip] at h ⊢
  split
  · assumption
  · rename_i e he
    simp only [he] at h
    split_ifs at h ⊢
    · simp [FinMap.get?_erase]
    · simp [FinMap.get?_erase]
    · omega

/-! ## Calls -/

/-- What comes of the key of a request. Only an invalid one is a failure. -/
inductive KeyResult
  | missing
  | invalid
  | expired
  | found
  deriving DecidableEq

structure Auths (ι : Type*) where
  clock : Int
  failures : Failures
  /-- The calls that passed `Check`, with their addresses. -/
  looking : ι → Option Text
  /-- The failures, the last one first. -/
  recorded : List (Text × Int)

/-- A call checks its address first, and reports its outcome later. -/
inductive Action (ι : Type*)
  | tick (d : Nat)
  /-- `d` passes between the two readings of the clock. -/
  | arrive (i : ι) (ip : Text) (d : Nat)
  | finish (i : ι) (result : KeyResult)

variable {ι : Type*} [DecidableEq ι]

/-- What `Check` gives a call of the address. -/
def Auths.checked {ι : Type*} (s : Auths ι) (ip : Text) (d : Nat) : Int × Failures :=
  check s.clock (s.clock + d) ip s.failures

def step (s : Auths ι) : Action ι → Option (Auths ι)
  | .tick d => some { s with clock := s.clock + d }
  | .arrive i ip d =>
    if s.looking i = none then
      some { s with
        clock := s.clock + d
        failures := (s.checked ip d).2
        looking := if 0 < (s.checked ip d).1 then s.looking else Function.update s.looking i (some ip) }
    else none
  | .finish i result =>
    (s.looking i).map fun ip =>
      let s := { s with looking := Function.update s.looking i none }
      match result with
      | .invalid => { s with failures := recordFailure s.clock ip s.failures, recorded := (ip, s.clock) :: s.recorded }
      | .found => { s with failures := recordSuccess ip s.failures }
      | .missing | .expired => s

def auths (ι : Type*) [DecidableEq ι] : System (Auths ι) (Action ι) :=
  ⟨fun s => s.failures = .empty ∧ s.recorded = [] ∧ ∀ i, s.looking i = none, step⟩

/-- When an address failed last. -/
def Auths.lastFailure (s : Auths ι) (ip : Text) : Option Int := (s.recorded.find? fun r => r.1 = ip).map Prod.snd

/-! ## Delays -/

theorem delayAfter_le (n : Nat) : delayAfter n ≤ maxDelay := by
  unfold delayAfter
  dsimp only
  split
  · exact le_refl _
  · exact not_lt.1 ‹_›

/-- The numbers of failures after which the product is positive as a 64-bit integer. -/
def Fits (n : Nat) : Prop := n ≤ 37 ∨ n ∈ [39, 45, 47, 52, 53, 54, 55]

instance : DecidablePred Fits := fun n => inferInstanceAs (Decidable (n ≤ 37 ∨ n ∈ [39, 45, 47, 52, 53, 54, 55]))

theorem delayAfter_pos_iff (n : Nat) : 0 < delayAfter n ↔ Fits n := by
  by_cases hn : n < 64
  · have hall : ∀ n < 64, (0 < delayAfter n ↔ Fits n) := by decide +kernel
    exact hall n hn
  · have hzero : delayAfter n = 0 := by
      have hpower : power (n - 1) = -2 ^ 63 := if_neg (by omega)
      rw [delayAfter, hpower]
      decide +kernel
    rw [hzero]
    refine iff_of_false (lt_irrefl 0) fun h => ?_
    simp only [Fits, List.mem_cons, List.not_mem_nil, or_false] at h
    omega

/-! ## Entries -/

variable {s t : Auths ι} {a : Action ι} {ip : Text}

/-- A step takes entries away, or it records one failure. -/
theorem step_cases (h : step s a = some t) :
    (∀ ip e, t.failures.get? ip = some e → s.failures.get? ip = some e) ∨
      ∃ ip, t.failures = recordFailure s.clock ip s.failures := by
  have herase : ∀ ip ip' e, (s.failures.erase ip).get? ip' = some e → s.failures.get? ip' = some e := by
    intro ip ip' e he
    rw [FinMap.get?_erase] at he
    split at he
    · cases he
    · exact he
  cases a with
  | tick d =>
    cases h
    exact .inl fun _ _ he => he
  | arrive i ip d =>
    obtain ⟨-, h⟩ := Option.ite_none_right_eq_some.1 h
    cases h
    refine .inl fun ip' e he => ?_
    dsimp only [Auths.checked] at he
    rcases check_cases s.clock (s.clock + d) ip s.failures with hsame | hgone
    · rwa [hsame] at he
    · rw [hgone] at he
      exact herase ip ip' e he
  | finish i result =>
    obtain ⟨ip, -, rfl⟩ := Option.map_eq_some_iff.1 h
    cases result with
    | invalid => exact .inr ⟨ip, rfl⟩
    | found =>
      refine .inl fun ip' e he => ?_
      simp only [recordSuccess] at he
      split at he
      · exact he
      · exact herase ip ip' e he
    | missing => exact .inl fun _ _ he => he
    | expired => exact .inl fun _ _ he => he

/-- The delay of every entry is the one for its count. -/
theorem currentDelay_of_reach (h : Reach (auths ι) (fun _ _ => True) s) :
    ∀ ip e, s.failures.get? ip = some e → e.currentDelay = delayAfter e.count := by
  refine Reach.invariant (P := fun s => ∀ ip e, s.failures.get? ip = some e →
    e.currentDelay = delayAfter e.count) ?_ ?_ h
  · rintro s ⟨hempty, -⟩ ip e he
    rw [hempty] at he
    cases he
  · intro s a t _ hs _ hstep ip e he
    rcases step_cases hstep with hold | ⟨ip', hnew⟩
    · exact hs ip e (hold ip e he)
    · rw [hnew, recordFailure] at he
      split at he
      · exact hs ip e he
      · dsimp only at he
        rw [FinMap.get?_set] at he
        split at he
        · cases he
          rfl
        · exact hs ip e he

/-! ## One failure after the other -/

/-- The step is no call of the address. -/
def Elsewhere (ip : Text) (s : Auths ι) : Action ι → Prop
  | .tick _ => True
  | .arrive _ ip' _ => ip' ≠ ip
  | .finish i _ => s.looking i ≠ some ip

/-- A call is let through and fails, and no other call of the address comes or ends in the meantime. -/
def FailedCall (ip : Text) (s t : Auths ι) : Prop :=
  ∃ i d s₁ s₂, step s (.arrive i ip d) = some s₁ ∧ s₁.looking i = some ip ∧ Run (auths ι) (Elsewhere ip) s₁ s₂ ∧
    step s₂ (.finish i .invalid) = some t

/-- After `k` failures of an address, each made when the delay of the one before it was over, and no other call of it in
between. -/
inductive Streak (ip : Text) : Nat → Auths ι → Prop
  | one {s t : Auths ι} : FailedCall ip s t → Streak ip 1 t
  | more {k : Nat} {s s' t : Auths ι} : Streak ip k s → Run (auths ι) (Elsewhere ip) s s' → FailedCall ip s' t →
    Streak ip (k + 1) t

/-- What there is of an address stays while nothing happens to it. -/
theorem elsewhere_step (hother : Elsewhere ip s a) (h : step s a = some t) :
    t.failures.get? ip = s.failures.get? ip ∧ t.lastFailure ip = s.lastFailure ip ∧
      ∀ i, s.looking i = some ip → t.looking i = some ip := by
  cases a with
  | tick d =>
    cases h
    exact ⟨rfl, rfl, fun _ hi => hi⟩
  | arrive i ip' d =>
    obtain ⟨hfree, h⟩ := Option.ite_none_right_eq_some.1 h
    cases h
    refine ⟨?_, rfl, fun j hj => ?_⟩
    · dsimp only [Auths.checked]
      rcases check_cases s.clock (s.clock + d) ip' s.failures with hsame | hgone
      · rw [hsame]
      · rw [hgone, FinMap.get?_erase, if_neg (Ne.symm hother)]
    · have hne : j ≠ i := by
        rintro rfl
        rw [hfree] at hj
        cases hj
      dsimp only
      split
      · exact hj
      · rwa [Function.update_of_ne hne]
  | finish i result =>
    obtain ⟨ip', hlooking, rfl⟩ := Option.map_eq_some_iff.1 h
    have hip : ip' ≠ ip := by
      rintro rfl
      exact hother hlooking
    have hkeep : ∀ j, s.looking j = some ip → Function.update s.looking i none j = some ip := by
      intro j hj
      have hne : j ≠ i := by
        rintro rfl
        exact hother hj
      rwa [Function.update_of_ne hne]
    cases result with
    | invalid =>
      refine ⟨?_, ?_, hkeep⟩
      · simp only [recordFailure]
        split
        · rfl
        · rw [FinMap.get?_set, if_neg (Ne.symm hip)]
      · simp [Auths.lastFailure, hip]
    | found =>
      refine ⟨?_, rfl, hkeep⟩
      simp only [recordSuccess]
      split
      · rfl
      · rw [FinMap.get?_erase, if_neg (Ne.symm hip)]
    | missing => exact ⟨rfl, rfl, hkeep⟩
    | expired => exact ⟨rfl, rfl, hkeep⟩

theorem elsewhere_run (h : Run (auths ι) (Elsewhere ip) s t) :
    t.failures.get? ip = s.failures.get? ip ∧ t.lastFailure ip = s.lastFailure ip ∧
      ∀ i, s.looking i = some ip → t.looking i = some ip := by
  induction h with
  | refl => exact ⟨rfl, rfl, fun _ hi => hi⟩
  | tail _ hother hstep ih =>
    obtain ⟨hget, hlast, hlooking⟩ := elsewhere_step hother hstep
    exact ⟨hget.trans ih.1, hlast.trans ih.2.1, fun i hi => hlooking i (ih.2.2 i hi)⟩

/-- Every failure is the first of its entry. -/
theorem FailedCall.entry (hip : ip ≠ []) (h : FailedCall ip s t) :
    t.failures.get? ip = some ⟨1, t.clock, initialDelay⟩ ∧ t.lastFailure ip = some t.clock := by
  obtain ⟨i, d, s₁, s₂, harrive, hthrough, hrun, hfinish⟩ := h
  obtain ⟨hfree, harrive⟩ := Option.ite_none_right_eq_some.1 harrive
  cases harrive
  obtain ⟨hget, -, hlooking⟩ := elsewhere_run hrun
  have hpassed : ¬ 0 < (s.checked ip d).1 := by
    intro hrejected
    simp only [hrejected, if_true, hfree] at hthrough
    cases hthrough
  have hnone : s₂.failures.get? ip = none := hget.trans (get?_check hip hpassed)
  obtain ⟨ip', hlooking', rfl⟩ := Option.map_eq_some_iff.1 hfinish
  cases (hlooking i hthrough).symm.trans hlooking'
  refine ⟨?_, by simp [Auths.lastFailure]⟩
  simp only [recordFailure, if_neg hip, FinMap.get?_set, if_true, countOf, hnone, Option.elim_none]
  rfl

theorem Streak.entry (hip : ip ≠ []) {k : Nat} (h : Streak ip k s) :
    0 < k ∧ s.failures.get? ip = some ⟨1, s.clock, initialDelay⟩ ∧ s.lastFailure ip = some s.clock := by
  cases h with
  | one hfailed => exact ⟨Nat.one_pos, hfailed.entry hip⟩
  | more _ _ hfailed => exact ⟨Nat.succ_pos _, hfailed.entry hip⟩

/-- However many failures there were, an attempt is rejected in the first 100 ms after the last one. -/
theorem checked_streak (hip : ip ≠ []) {k : Nat} (h : Streak ip k s)
    (hrun : Run (auths ι) (Elsewhere ip) s t) (d : Nat) :
    0 < (t.checked ip d).1 ↔ t.clock + d - s.clock < initialDelay := by
  have hget := (elsewhere_run hrun).1.trans (h.entry hip).2.1
  simp only [Auths.checked, check, if_neg hip, hget]
  split_ifs <;> simp only <;> omega

/-- The attempts that come less than 100 ms doubled `k - 1` times, or 30 seconds, after the last failure are
rejected. -/
def Escalates (ip : Text) (k : Nat) (s : Auths ι) : Prop :=
  ∃ last, s.lastFailure ip = some last ∧ ∀ t d, Run (auths ι) (Elsewhere ip) s t →
    t.clock + (d : Nat) - last < min (initialDelay * 2 ^ (k - 1)) maxDelay → 0 < (t.checked ip d).1

theorem escalates_iff (hip : ip ≠ []) {k : Nat} (h : Streak ip k s) : Escalates ip k s ↔ k = 1 := by
  obtain ⟨hpos, -, hlast⟩ := h.entry hip
  constructor
  · rintro ⟨last, hlast', hrejected⟩
    obtain rfl := Option.some.inj (hlast.symm.trans hlast')
    by_contra hk
    -- an attempt just 100 ms after the last failure
    have hpow : (2 : Int) ^ 1 ≤ 2 ^ (k - 1) := pow_le_pow_right₀ (by decide) (by omega)
    have hlt := (checked_streak hip h .refl 100000000).1
      (hrejected s 100000000 .refl (by simp only [initialDelay, maxDelay]; omega))
    simp only [initialDelay] at hlt
    omega
  · rintro rfl
    refine ⟨s.clock, hlast, fun t d hrun hd => (checked_streak hip h hrun d).2 ?_⟩
    exact lt_of_lt_of_le hd (by simp)

def start : Auths Nat := ⟨0, .empty, fun _ => none, []⟩

def someAddress : Text := ['a']

/-- `n` calls are let through at once, and all of them fail. -/
def overlapping (n : Nat) : List (Action Nat) :=
  (List.range n).map (fun i => .arrive i someAddress 0) ++ (List.range n).map fun i => .finish i .invalid

def after (actions : List (Action Nat)) : Option (Auths Nat) := (auths Nat).exec (fun _ _ => True) start actions

/-- One call after the other fails, 150 ms apart. -/
def spaced : List (Action Nat) :=
  [.arrive 0 someAddress 0, .finish 0 .invalid, .tick 150000000, .arrive 1 someAddress 0, .finish 1 .invalid]

end Plugin.Backoff
