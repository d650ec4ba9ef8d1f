import Mathlib.Data.List.Nodup
import Mathlib.Logic.Function.Basic
import ApiCerberus.Lib.Transition

/-!
# The goroutine that writes the audit log

`Start` and `Reload` (`internal/gateway/server.go`) each have two critical sections. The first of `Start` stores the
cancel function of a new context, the second a new channel. The first of `Reload` cancels the current context and reads
the current channel; it then waits for this channel, at most ten seconds (`expired`), and the second stores new ones and
starts a goroutine. A goroutine closes the channel that the field holds when it is done, which need not be its own. It
is `idle` if `Logger.Start` (`internal/audit/logger.go`) returns at once.

Context, channel and goroutine that belong together have one number. If the calls do not overlap, no wait expires and
nothing begins after `Shutdown` (`Undisturbed`), the field holds the number of the only goroutine that may still run
(`Inv`), so that each closes its own channel (`handover`). Two overlapping calls of `Reload` are enough for the opposite
(`overlapping_reloads`).
-/

namespace AuditHandover

open Transition

/-- The goroutine that drains the audit log. -/
inductive Worker
  | absent
  | running (idle : Bool)
  | stopped
  | finished
deriving DecidableEq

/-- `starting` is the number that `Start` holds between its critical sections, `waiting` has the channels that calls of
`Reload` wait for, `cancelling` the contexts that calls of `Shutdown` are about to cancel. `closes` has each closed
channel with the goroutine that closed it; the second close of a channel is a panic. -/
structure State where
  next : Nat
  auditCancel : Option Nat
  auditDone : Option Nat
  cancelled : Nat → Bool
  runCancelled : Bool
  worker : Nat → Worker
  closes : List (Nat × Nat)
  startCalled : Bool
  starting : Option Nat
  waiting : List (Option Nat)
  cancelling : List (Option Nat)
  shutdownBegun : Bool
  shutdownDone : Bool

inductive Action
  | start
  | started (logger idle : Bool)
  | reload
  | reloaded (call : Nat) (expired idle : Bool)
  | shutdown
  | cancel (call : Nat)
  | cancelRun
  | stop (g : Nat)
  | close (g : Nat)

namespace State

/-- A context ends with its cancel function or with the context of `Start`. -/
def ended (s : State) (n : Nat) : Bool := s.cancelled n || s.runCancelled

def cancelContext (s : State) : Option Nat → State
  | none => s
  | some n => { s with cancelled := Function.update s.cancelled n true }

/-- The channel of a goroutine was closed. -/
def closed (s : State) (c : Nat) : Bool := s.closes.any fun p => p.1 = c

/-- A new channel in the field, and the goroutine that goes with it. -/
def launch (s : State) (n : Nat) (idle : Bool) : State :=
  { s with auditDone := some n, worker := Function.update s.worker n (.running idle) }

end State

def gateway : System State Action where
  init := fun s =>
    s = ⟨0, none, none, fun _ => false, false, fun _ => .absent, [], false, none, [], [], false, false⟩
  step := fun s a =>
    match a with
    | .start =>
      if s.startCalled then none
      else some { s with startCalled := true, next := s.next + 1, auditCancel := some s.next, starting := some s.next }
    | .started logger idle =>
      match s.starting with
      | none => none
      | some n => if logger then some ({ s with starting := none }.launch n idle) else some { s with starting := none }
    | .reload =>
      if s.auditCancel = none then some s
      else some { s.cancelContext s.auditCancel with waiting := s.waiting ++ [s.auditDone] }
    | .reloaded call expired idle =>
      match s.waiting[call]? with
      | none => none
      | some old =>
        if old.all s.closed || expired then
          let s := { s with waiting := s.waiting.eraseIdx call, next := s.next + 1, auditCancel := some s.next }
          some (s.launch (s.next - 1) idle)
        else none
    | .shutdown => some { s with cancelling := s.cancelling ++ [s.auditCancel], shutdownBegun := true }
    | .cancel call =>
      match s.cancelling[call]? with
      | none => none
      | some n => some { s.cancelContext n with cancelling := s.cancelling.eraseIdx call, shutdownDone := true }
    | .cancelRun => some { s with runCancelled := true }
    | .stop g =>
      match s.worker g with
      | .running idle =>
        if s.ended g || idle then some { s with worker := Function.update s.worker g .stopped } else none
      | _ => none
    | .close g =>
      match s.worker g, s.auditDone with
      | .stopped, some c => some { s with worker := Function.update s.worker g .finished, closes := (c, g) :: s.closes }
      | _, _ => none

/-- Calls of `Start`, `Reload` and `Shutdown` do not overlap, no wait expires, and nothing begins after `Shutdown`. -/
def Undisturbed (s : State) : Action → Bool
  | .start => !s.shutdownBegun
  | .reload => s.starting.isNone && s.waiting.isEmpty && !s.shutdownBegun
  | .reloaded _ expired _ => !expired
  | .shutdown => s.starting.isNone && s.waiting.isEmpty
  | _ => true

/-! ## The invariant -/

/-- Only the last goroutine may still run, and each closes its own channel. -/
structure Inv (s : State) : Prop where
  fresh : ∀ g, s.next ≤ g → s.worker g = .absent
  /-- Only the goroutine of the channel in the field may still run. -/
  latest : ∀ g, s.worker g = .absent ∨ s.worker g = .finished ∨ s.auditDone = some g
  closes : ∀ c g, (c, g) ∈ s.closes ↔ c = g ∧ s.worker g = .finished
  nodup : s.closes.Nodup
  context : ∀ g, s.worker g = .absent ∨ s.cancelled g = true ∨ s.auditCancel = some g
  before : s.startCalled = false → s.auditCancel = none ∧ s.starting = none
  unstarted : s.auditCancel = none ∨ s.starting.isSome → ∀ g, s.worker g = .absent
  starting : ∀ n, s.starting = some n → n < s.next ∧ s.auditCancel = some n ∧ s.waiting = []
  /-- At most one call waits, for the channel in the field and with all contexts cancelled. -/
  waiting : s.waiting = [] ∨ s.waiting = [s.auditDone] ∧ s.auditCancel.isSome ∧ ∀ g, s.worker g = .absent ∨
    s.cancelled g = true
  cancelling : ∀ n ∈ s.cancelling, n = s.auditCancel
  begun : s.cancelling ≠ [] ∨ s.shutdownDone = true → s.shutdownBegun = true
  quiet : s.shutdownBegun = true → s.starting = none ∧ s.waiting = []
  done : s.shutdownDone = true → ∀ g, s.worker g = .absent ∨ s.cancelled g = true

section
variable {s : State}

theorem inv_init (h : gateway.init s) : Inv s := by
  subst h
  constructor <;> simp

theorem Inv.start (h : Inv s) (hnew : s.startCalled = false) (hcalm : s.shutdownBegun = false) :
    Inv { s with startCalled := true, next := s.next + 1, auditCancel := some s.next, starting := some s.next } := by
  have habsent : ∀ g, s.worker g = .absent := h.unstarted (.inl (h.before hnew).1)
  cases h
  constructor <;> first | assumption | grind

theorem Inv.started (h : Inv s) {n : Nat} (hn : s.starting = some n) (idle : Bool) :
    Inv ({ s with starting := none }.launch n idle) := by
  have habsent : ∀ g, s.worker g = .absent := h.unstarted (.inr (by simp [hn]))
  have hcontext := h.starting n hn
  cases h
  unfold State.launch
  constructor <;> first | assumption | grind [Function.update]

theorem Inv.unlogged (h : Inv s) : Inv { s with starting := none } := by
  cases h
  constructor <;> first | assumption | grind

theorem Inv.reload (h : Inv s) (hcancel : s.auditCancel ≠ none) (hstarting : s.starting = none)
    (hwaiting : s.waiting = [])
    (hcalm : s.shutdownBegun = false) : Inv { s.cancelContext s.auditCancel with
      waiting := s.waiting ++ [s.auditDone] } := by
  obtain ⟨n, hn⟩ := Option.ne_none_iff_exists'.1 hcancel
  rw [hwaiting, hn]
  cases h
  simp only [State.cancelContext]
  constructor <;> first | assumption | grind [Function.update]

/-- When the wait is over, no goroutine runs any more. -/
theorem Inv.all_finished (h : Inv s) (hclosed : s.auditDone.all s.closed = true)
    (g : Nat) : s.worker g = .absent ∨ s.worker g = .finished := by
  obtain habsent | hfin | hdone := h.latest g
  · exact .inl habsent
  · exact .inr hfin
  · simp only [hdone, Option.all_some, State.closed, List.any_eq_true, decide_eq_true_eq] at hclosed
    obtain ⟨⟨c, g'⟩, hmem, rfl⟩ := hclosed
    obtain ⟨heq, hfin⟩ := (h.closes c g').1 hmem
    exact .inr (heq ▸ hfin)

theorem Inv.reloaded (h : Inv s) {call : Nat} {old : Option Nat} (hcall : s.waiting[call]? = some old)
    (hclosed : old.all s.closed = true) (idle : Bool) :
    Inv ({ s with
      waiting := s.waiting.eraseIdx call, next := s.next + 1, auditCancel := some s.next }.launch s.next idle) := by
  obtain hnil | ⟨hone, hsome, hcancelled⟩ := h.waiting
  · simp [hnil] at hcall
  obtain rfl : call = 0 := by
    by_contra hne
    rw [hone, List.getElem?_eq_none (by simp; omega)] at hcall
    cases hcall
  obtain rfl : s.auditDone = old := by simpa [hone] using hcall
  have hfinished := h.all_finished hclosed
  have hnew : s.worker s.next = .absent := h.fresh _ le_rfl
  have hstarting : s.starting = none := by
    by_contra hne
    obtain ⟨n, hn⟩ := Option.ne_none_iff_exists'.1 hne
    have hnone := (h.starting n hn).2.2
    simp [hone] at hnone
  cases h
  unfold State.launch
  constructor <;> first | assumption | grind [Function.update]

theorem Inv.shutdown (h : Inv s) (hstarting : s.starting = none) (hwaiting : s.waiting = []) :
    Inv { s with cancelling := s.cancelling ++ [s.auditCancel], shutdownBegun := true } := by
  cases h
  constructor <;> first | assumption | grind

theorem Inv.cancel (h : Inv s) {call : Nat} {n : Option Nat} (hcall : s.cancelling[call]? = some n) :
    Inv { s.cancelContext n with cancelling := s.cancelling.eraseIdx call, shutdownDone := true } := by
  have hmem : n ∈ s.cancelling := List.mem_of_getElem? hcall
  have hsub : ∀ m ∈ s.cancelling.eraseIdx call, m ∈ s.cancelling := fun m hm => (List.eraseIdx_sublist _ _).subset hm
  have hbegun : s.shutdownBegun = true := h.begun (.inl (List.ne_nil_of_mem hmem))
  obtain rfl := h.cancelling n hmem
  cases hcancel : s.auditCancel with
  | none =>
    cases h
    simp only [State.cancelContext]
    constructor <;> first | assumption | grind
  | some m =>
    cases h
    simp only [State.cancelContext]
    constructor <;> first | assumption | grind [Function.update]

theorem Inv.stop (h : Inv s) {g : Nat} {idle : Bool} (hg : s.worker g = .running idle) :
    Inv { s with worker := Function.update s.worker g .stopped } := by
  cases h
  constructor <;> first | assumption | grind [Function.update]

/-- A goroutine that is about to close a channel finds its own in the field. -/
theorem Inv.close (h : Inv s) {g c : Nat} (hg : s.worker g = .stopped) (hc : s.auditDone = some c) :
    Inv { s with worker := Function.update s.worker g .finished, closes := (c, g) :: s.closes } := by
  obtain rfl : c = g := by
    have hown := h.latest g
    simpa [hg, hc] using hown
  cases h
  constructor <;> first | assumption | grind [Function.update]

/-- Every step of a run in which no call comes between. -/
theorem Inv.step {t : State} {a : Action}
    (h : Inv s) (hok : Undisturbed s a) (hs : gateway.step s a = some t) : Inv t := by
  cases a <;> simp only [gateway] at hs
  case start =>
    split at hs
    · cases hs
    · rename_i hnew
      cases hs
      exact h.start (by simpa using hnew) (by simpa [Undisturbed] using hok)
  case started logger idle =>
    split at hs
    · cases hs
    · rename_i n hn
      split at hs <;> cases hs
      · exact h.started hn idle
      · exact h.unlogged
  case reload =>
    split at hs <;> cases hs
    · exact h
    · rename_i hcancel
      have hcalm : (s.starting = none ∧ s.waiting = []) ∧ s.shutdownBegun = false := by simpa [Undisturbed] using hok
      exact h.reload hcancel hcalm.1.1 hcalm.1.2 hcalm.2
  case reloaded call expired idle =>
    split at hs
    · cases hs
    · rename_i old hcall
      split at hs
      · rename_i hwait
        cases hs
        obtain rfl : expired = false := by simpa [Undisturbed] using hok
        exact h.reloaded hcall (by simpa using hwait) idle
      · cases hs
  case shutdown =>
    cases hs
    have hcalm : s.starting = none ∧ s.waiting = [] := by simpa [Undisturbed] using hok
    exact h.shutdown hcalm.1 hcalm.2
  case cancel call =>
    split at hs
    · cases hs
    · rename_i n hcall
      cases hs
      exact h.cancel hcall
  case cancelRun =>
    cases hs
    exact { h with }
  case stop g =>
    split at hs
    · rename_i idle hg
      split at hs <;> cases hs
      exact h.stop hg
    · cases hs
  case close g =>
    split at hs
    · rename_i c hg hc
      cases hs
      exact h.close hg hc
    · cases hs

end

/-- **Handover**: along undisturbed runs, a channel is closed only by the goroutine that was started with it and at most
once, and it is closed when that goroutine is finished; after `Shutdown` every context of a goroutine is cancelled, and
every goroutine can go on to its end. -/
theorem handover {s : State} (h : Reach gateway (fun s a => Undisturbed s a) s) :
    (∀ c g, (c, g) ∈ s.closes → c = g) ∧ (s.closes.map Prod.fst).Nodup ∧
      (∀ g, s.worker g ≠ .absent → (s.closed g = true ↔ s.worker g = .finished)) ∧
      (s.shutdownDone = true → ∀ g, s.worker g ≠ .absent → s.ended g = true ∧
        (s.worker g = .finished ∨ (gateway.step s (.stop g)).isSome ∨ (gateway.step s (.close g)).isSome)) := by
  have hinv : Inv s := h.invariant (fun _ => inv_init) fun _ _ _ _ hi hok hs => hi.step hok hs
  have hclosed : ∀ g, s.closed g = true ↔ s.worker g = .finished := by
    intro g
    simp only [State.closed, List.any_eq_true, decide_eq_true_eq]
    constructor
    · rintro ⟨⟨c, g'⟩, hmem, rfl⟩
      obtain ⟨heq, hfin⟩ := (hinv.closes c g').1 hmem
      exact heq ▸ hfin
    · intro hfin
      exact ⟨(g, g), (hinv.closes g g).2 ⟨rfl, hfin⟩, rfl⟩
  refine ⟨fun c g hmem => ((hinv.closes c g).1 hmem).1, ?_, fun g _ => hclosed g, fun hdone g hg => ?_⟩
  · refine hinv.nodup.map_on fun p hp q hq heq => ?_
    have hp' := (hinv.closes p.1 p.2).1 hp
    have hq' := (hinv.closes q.1 q.2).1 hq
    exact Prod.ext heq (hp'.1.symm.trans (heq.trans hq'.1))
  · have hcancelled : s.cancelled g = true := (hinv.done hdone g).resolve_left hg
    refine ⟨by simp [State.ended, hcancelled], ?_⟩
    cases hw : s.worker g with
    | absent => exact (hg hw).elim
    | finished => exact .inl rfl
    | running idle => exact .inr (.inl (by simp [gateway, hw, State.ended, hcancelled]))
    | stopped =>
      have hfield : s.auditDone = some g := by simpa [hw] using hinv.latest g
      exact .inr (.inr (by simp [gateway, hw, hfield]))

theorem handover_one_reload :
    ∃ s, Reach gateway (fun s a => Undisturbed s a) s ∧ s.closes = [(1, 1), (0, 0)] ∧ s.shutdownDone = true ∧
      (s.closes.map Prod.fst).Nodup ∧ ∀ g, s.worker g ≠ .absent → s.ended g = true :=
  have hreach := Reach.of_exec rfl [.start, .started true false, .reload, .stop 0, .close 0, .reloaded 0 false false,
    .shutdown, .cancel 0,
    .stop 1, .close 1] rfl
  ⟨_, hreach, rfl, rfl, (handover hreach).2.1, fun g hg => ((handover hreach).2.2.2 rfl g hg).1⟩

/-- Two calls of `Reload` wait for the same channel. After `Shutdown` the context 1 is not cancelled; and when the
context of `Start` ends, channel 2 is closed by both goroutines and channel 1 by none. -/
theorem overlapping_reloads :
    (∃ s, Reach gateway (fun _ _ => True) s ∧ s.shutdownDone = true ∧ s.worker 1 = .running false ∧ s.ended 1 = false) ∧
      ∃ s, Reach gateway (fun _ _ => True) s ∧ s.closes = [(2, 2), (2, 1), (0, 0)] ∧ s.worker 1 = .finished ∧
        s.closed 1 = false :=
  ⟨⟨_, Reach.of_exec rfl [.start, .started true false, .reload, .reload, .stop 0, .close 0, .reloaded 0 false false,
      .reloaded 0 false false, .shutdown, .cancel 0] rfl, rfl, rfl, rfl⟩,
    ⟨_, Reach.of_exec rfl [.start, .started true false, .reload, .reload, .stop 0, .close 0, .reloaded 0 false false,
      .reloaded 0 false false, .cancelRun, .stop 1, .close 1, .stop 2, .close 2] rfl, rfl, rfl, rfl⟩⟩

end AuditHandover
