import Mathlib.Data.List.Count
import Mathlib.Data.List.Rotate
import Mathlib.Logic.Function.Basic
import ApiCerberus.Gateway.Balancers
import ApiCerberus.Lib.Transition

/-!
# Round robin is fair

A call of `Next` (`gateway/balancer.go`) reads the targets under the lock of the balancer and then draws a number from
the counter. Calls that run at the same time do these two steps in any order, but no two of them draw the same number.
While the targets and their health stay the same, any `W` numbers in a row go once around the list of the targets, with
each of them as often as its weight says (`window_fair`).
-/

namespace Balancers

open Transition

/-- Where a call of `Next` is. -/
inductive Phase
  | waiting
  | read (ts : List UpstreamTarget)
  | done (out : Outcome)

/-- `drawn` is what the calls returned, in the order of the numbers they drew. -/
structure Calls (ι : Type) where
  counter : UInt64
  phase : ι → Phase
  drawn : List Outcome

/-- A call reads the targets, and draws its number. -/
inductive Action (ι : Type)
  | read (i : ι)
  | draw (i : ι)

variable {ι : Type} [DecidableEq ι]

/-- Calls of `Next` on a balancer that chooses among `ts`, from a value of its counter. -/
def calls (ts : List UpstreamTarget) (start : UInt64) : System (Calls ι) (Action ι) where
  init := fun s => s.counter = start ∧ (∀ i, s.phase i = .waiting) ∧ s.drawn = []
  step := fun s a =>
    match a with
    | .read i =>
      match s.phase i with
      | .waiting =>
        some { s with phase := Function.update s.phase i (if ts = [] then .done .noHealthyTargets else .read ts) }
      | _ => none
    | .draw i =>
      match s.phase i with
      | .read ts' =>
        some ⟨s.counter + 1, Function.update s.phase i (.done (rotate s.counter ts')),
          s.drawn ++ [rotate s.counter ts']⟩
      | _ => none

variable {ts : List UpstreamTarget} {s : Calls ι} {start : UInt64}

/-- A call that is not interrupted is `WeightedRoundRobin.next`. -/
theorem WeightedRoundRobin.next_eq_exec (w : WeightedRoundRobin) {i : ι} (hcounter : s.counter = w.counter)
    (hi : s.phase i = .waiting) (hsome : w.expandedHealthyTargets ≠ []) :
    ∃ t, (calls w.expandedHealthyTargets w.counter).exec (fun _ _ => True) s [.read i, .draw i] = some t ∧
      t.counter = w.next.2.counter ∧ t.phase i = .done w.next.1 ∧ t.drawn = s.drawn ++ [w.next.1] := by
  simp [System.exec, calls, hi, hsome, hcounter, next]

theorem RoundRobin.next_eq_exec (rr : RoundRobin) {i : ι} (hcounter : s.counter = rr.counter)
    (hi : s.phase i = .waiting) (hsome : rr.pool.healthyTargets ≠ []) :
    ∃ t, (calls rr.pool.healthyTargets rr.counter).exec (fun _ _ => True) s [.read i, .draw i] = some t ∧
      t.counter = rr.next.2.counter ∧ t.phase i = .done rr.next.1 ∧ t.drawn = s.drawn ++ [rr.next.1] := by
  simp [System.exec, calls, hi, hsome, hcounter, next]

/-! ## What is drawn -/

/-- The numbers are drawn in a row, all on the same targets. -/
structure Calls.Inv (ts : List UpstreamTarget) (start : UInt64) (s : Calls ι) : Prop where
  counter : s.counter = start + .ofNat s.drawn.length
  phase : ∀ i ts', s.phase i = .read ts' → ts' = ts ∧ ts ≠ []
  drawn : s.drawn = (List.range s.drawn.length).map fun k => rotate (start + .ofNat k) ts
  nonempty : s.drawn ≠ [] → ts ≠ []

/-- Every number is drawn once. -/
theorem Calls.Inv.step {s t : Calls ι} {a : Action ι} (h : s.Inv ts start)
    (hs : (calls ts start).step s a = some t) : t.Inv ts start := by
  cases a with
  | read i =>
    simp only [calls] at hs
    split at hs
    · cases hs
      refine ⟨h.counter, fun j ts' hj => ?_, h.drawn, h.nonempty⟩
      dsimp only at hj
      by_cases hji : j = i
      · rw [hji, Function.update_self] at hj
        split at hj
        · cases hj
        · rename_i hne
          cases hj
          exact ⟨rfl, hne⟩
      · rw [Function.update_of_ne hji] at hj
        exact h.phase j ts' hj
    · cases hs
  | draw i =>
    simp only [calls] at hs
    split at hs
    · rename_i ts' hi
      cases hs
      obtain ⟨rfl, hne⟩ := h.phase i ts' hi
      refine ⟨?_, fun j ts'' hj => ?_, ?_, fun _ => hne⟩
      · rw [List.length_append, List.length_singleton, h.counter, UInt64.ofNat_add, ← UInt64.add_assoc]
        rfl
      · dsimp only at hj
        by_cases hji : j = i
        · rw [hji, Function.update_self] at hj
          cases hj
        · rw [Function.update_of_ne hji] at hj
          exact h.phase j ts'' hj
      · rw [List.length_append, List.length_singleton, List.range_succ, List.map_append, ← h.drawn, h.counter]
        rfl
    · cases hs

theorem Calls.inv_of_reach {ok : Calls ι → Action ι → Prop}
    (h : Reach (calls ts start) ok s) : s.Inv ts start := by
  refine h.invariant (fun s hs => ?_) fun s a t _ hs _ hstep => hs.step hstep
  obtain ⟨hcounter, hphase, hdrawn⟩ := hs
  refine ⟨?_, fun i ts' hi => ?_, ?_, fun hne => absurd hdrawn hne⟩
  · rw [hcounter, hdrawn]
    simp
  · rw [hphase i] at hi
    cases hi
  · rw [hdrawn]
    rfl

theorem rotate_of_getElem? {counter : UInt64} {t : UpstreamTarget} (hc : counter.toNat < 2 ^ 63)
    (ht : ts[counter.toNat % ts.length]? = some t) : rotate counter ts = .selected t := by
  have hint : counter.toInt64.toInt = counter.toNat := by
    have hnat : counter.toBitVec.toNat = counter.toNat := rfl
    rw [Int64.toInt, UInt64.toBitVec_toInt64, BitVec.toInt_eq_toNat_of_lt (by omega), hnat]
  have hmod : (counter.toNat : Int).tmod ts.length = (counter.toNat % ts.length : Nat) := rfl
  rw [rotate, hint, hmod, pick, if_neg (by omega), Int.toNat_natCast, ht]
  rfl

omit [DecidableEq ι] in
/-- As many numbers in a row as there are targets go once around their list. -/
theorem Calls.Inv.window_eq (h : s.Inv ts start)
    (hbound : start.toNat + s.drawn.length ≤ 2 ^ 63) {l₁ w l₂ : List Outcome} (hsplit : s.drawn = l₁ ++ w ++ l₂)
    (hlen : w.length = ts.length) :
    w = (ts.rotate (start.toNat + l₁.length)).map .selected := by
  have htotal : s.drawn.length = l₁.length + w.length + l₂.length := by
    rw [hsplit, List.length_append, List.length_append]
  refine List.ext_getElem? fun k => ?_
  by_cases hk : k < w.length
  · have hdrawn : s.drawn[l₁.length + k]? = w[k]? := by
      rw [hsplit, List.append_assoc, List.getElem?_append_right (by omega), Nat.add_sub_cancel_left,
        List.getElem?_append_left hk]
    have hnumber : (start + .ofNat (l₁.length + k)).toNat = start.toNat + l₁.length + k := by
      rw [UInt64.toNat_add, UInt64.toNat_ofNat']
      omega
    have hmod : (k + (start.toNat + l₁.length)) % ts.length < ts.length := Nat.mod_lt _ (by omega)
    obtain ⟨t, ht⟩ : ∃ t, ts[(k + (start.toNat + l₁.length)) % ts.length]? = some t :=
      ⟨_, List.getElem?_eq_getElem hmod⟩
    rw [List.getElem?_map, List.getElem?_rotate (by omega), ht, Option.map_some, ← hdrawn, h.drawn, List.getElem?_map,
      List.getElem?_range (by omega), Option.map_some]
    refine congrArg some (rotate_of_getElem? (by omega) ?_)
    rw [hnumber, Nat.add_comm _ k, ht]
  · rw [List.getElem?_eq_none (by omega), List.getElem?_eq_none (by simp; omega)]

omit [DecidableEq ι] in
theorem Calls.Inv.count_window (h : s.Inv ts start)
    (hbound : start.toNat + s.drawn.length ≤ 2 ^ 63) {l₁ w l₂ : List Outcome} (hsplit : s.drawn = l₁ ++ w ++ l₂)
    (hlen : w.length = ts.length)
    (t : UpstreamTarget) : w.count (.selected t) = ts.count t := by
  rw [h.window_eq hbound hsplit hlen, List.count_map_of_injective _ _ fun _ _ heq => Outcome.selected.inj heq,
    (List.rotate_perm ts _).count_eq]

/-! ## Weights -/

namespace WeightedRoundRobin

theorem expandedHealthyTargets_eq (w : WeightedRoundRobin) :
    w.expandedHealthyTargets = w.pool.healthyTargets.flatMap fun t => List.replicate (copies t) t := by
  rw [expandedHealthyTargets, Pool.healthyTargets]
  induction w.pool.targets with
  | nil => rfl
  | cons t ts ih =>
    rw [List.flatMap_cons, ih, List.filter_cons]
    split
    · rw [List.flatMap_cons]
    · rfl

theorem length_expandedHealthyTargets (w : WeightedRoundRobin) :
    w.expandedHealthyTargets.length = (w.pool.healthyTargets.map copies).sum := by
  rw [expandedHealthyTargets_eq, List.length_flatMap]
  simp

/-- A target that is listed once has as many places as its weight. -/
theorem count_expandedHealthyTargets (w : WeightedRoundRobin) (t : UpstreamTarget) :
    w.expandedHealthyTargets.count t = copies t * w.pool.healthyTargets.count t := by
  rw [expandedHealthyTargets_eq]
  induction w.pool.healthyTargets with
  | nil => rfl
  | cons u us ih =>
    rw [List.flatMap_cons, List.count_append, ih, List.count_cons, Nat.mul_add, Nat.add_comm, List.count_replicate]
    by_cases hut : u = t
    · subst hut
      simp
    · simp [hut]

end WeightedRoundRobin

/-- **Round robin is fair.** In whatever order the steps of the calls are made, any numbers in a row of which there are
as many as the weights of the healthy targets make in total select every healthy target as often as its weight says;
without weights, once. A target that is listed more than once counts as often. -/
theorem window_fair (w : WeightedRoundRobin) (rr : RoundRobin) {ι' : Type} [DecidableEq ι']
    (s : Calls ι) (s' : Calls ι')
    (hs : Reach (calls w.expandedHealthyTargets w.counter) (fun _ _ => True) s)
    (hbound : w.counter.toNat + s.drawn.length ≤ 2 ^ 63)
    (hs' : Reach (calls rr.pool.healthyTargets rr.counter) (fun _ _ => True) s')
    (hbound' : rr.counter.toNat + s'.drawn.length ≤ 2 ^ 63) :
    (∀ l₁ window l₂, s.drawn = l₁ ++ window ++ l₂ →
      window.length = (w.pool.healthyTargets.map WeightedRoundRobin.copies).sum →
      ∀ t, window.count (.selected t) = WeightedRoundRobin.copies t * w.pool.healthyTargets.count t) ∧
    (∀ l₁ window l₂, s'.drawn = l₁ ++ window ++ l₂ → window.length = rr.pool.healthyTargets.length →
      ∀ t, window.count (.selected t) = rr.pool.healthyTargets.count t) := by
  constructor
  · intro l₁ window l₂ hsplit hlen t
    rw [(Calls.inv_of_reach hs).count_window hbound hsplit (by rw [hlen, w.length_expandedHealthyTargets]),
      w.count_expandedHealthyTargets]
  · intro l₁ window l₂ hsplit hlen t
    exact (Calls.inv_of_reach hs').count_window hbound' hsplit hlen t

/-- `targetA` with the weight 2. -/
def heavyA : UpstreamTarget := { targetA with weight := 2 }

def twoToOne : WeightedRoundRobin := ⟨Pool.empty.updateTargets [heavyA, targetB], 5⟩

def oneToOne : RoundRobin := ⟨Pool.empty.updateTargets [heavyA, targetB], 5⟩

def waitingCalls : Calls (Fin 3) := ⟨5, fun _ => .waiting, []⟩

/-- Three calls at the same time. -/
def overlapping : List (Action (Fin 3)) := [.read 0, .read 1, .draw 1, .read 2, .draw 0, .draw 2]

def afterOverlap (ts : List UpstreamTarget) (acts : List (Action (Fin 3))) : Calls (Fin 3) :=
  ((calls ts 5).exec (fun _ _ => True) waitingCalls acts).getD waitingCalls

theorem window_fair_overlapping :
    (afterOverlap twoToOne.expandedHealthyTargets overlapping).drawn.count (.selected heavyA) = 2 ∧
    (afterOverlap oneToOne.pool.healthyTargets (overlapping.take 5)).drawn.count (.selected heavyA) = 1 := by
  have hinit : (calls twoToOne.expandedHealthyTargets twoToOne.counter).init waitingCalls := ⟨rfl, fun _ => rfl, rfl⟩
  have hinit' : (calls oneToOne.pool.healthyTargets oneToOne.counter).init waitingCalls := ⟨rfl, fun _ => rfl, rfl⟩
  have hfair := window_fair twoToOne oneToOne (afterOverlap twoToOne.expandedHealthyTargets overlapping)
    (afterOverlap oneToOne.pool.healthyTargets (overlapping.take 5)) (.of_exec hinit overlapping rfl) (by decide)
    (.of_exec hinit' (overlapping.take 5) rfl) (by decide)
  exact ⟨hfair.1 [] _ [] (List.append_nil _).symm rfl heavyA, hfair.2 [] _ [] (List.append_nil _).symm rfl heavyA⟩

end Balancers
