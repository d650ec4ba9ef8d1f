import Mathlib.Data.List.Nodup
import ApiCerberus.Lib.Transition

/-!
# The hub of the admin's WebSocket connections

`internal/admin/ws_hub.go`. One goroutine registers and removes connections and does the broadcasts. A broadcast takes a
snapshot of the connections under the lock and sends to them without it; the goroutine goes on only when all of these
sends are over (`deliver`, `late` after five seconds). The cleanup of stale connections and `Stop` run in other
goroutines, and close connections that a broadcast is about to send to: a send on a closed channel is a panic
(`closed_under_broadcast`).

A connection is its id: ids are random, and no two connections have the same. `hub_safe` has what always holds (no write
channel is closed twice, because of `closeOnce`) and what holds if connections are not closed during a broadcast,
nothing is sent after `Stop` or to a connection that is not registered, and only registered connections subscribe
(`Careful`).
-/

namespace WsHub

open Transition

/-- `broadcasting` has the sends of the current broadcast that are not over; `sentClosed` is set by a send on a closed
channel. -/
structure State (τ : Type) where
  next : Nat
  registerCh : List Nat
  connections : Nat → Bool
  topics : Nat → τ → Bool
  subscribers : τ → Nat → Bool
  once : Nat → Bool
  closes : Nat → Nat
  broadcasting : List Nat
  stopped : Bool
  closedAll : Bool
  sentClosed : Bool

/-- The critical sections of the hub, and the sends between them. -/
inductive Action (τ : Type)
  | register (topics : List τ)
  | handleRegister
  | handleUnregister (c : Nat)
  | subscribe (c : Nat) (topic : τ)
  | unsubscribe (c : Nat) (topic : τ)
  | handleBroadcast (topic : τ) (exclude : Option Nat)
  | deliver (k : Nat) (late : Bool)
  | send (c : Nat)
  | cleanup (stale : List Nat)
  | stop
  | closeAll

variable {τ : Type}

namespace State

/-- `WebSocketConn.close`. -/
def close (s : State τ) (c : Nat) : State τ :=
  if s.once c then s
  else { s with once := fun d => d = c || s.once d, closes := fun d => if d = c then s.closes d + 1 else s.closes d }

/-- A connection is removed from the topics that it has itself, and from the hub. -/
def drop (s : State τ) (c : Nat) : State τ :=
  { s with
    connections := fun d => d ≠ c && s.connections d
    subscribers := fun t d => !(d = c && s.topics c t) && s.subscribers t d }

/-- `conn.close()` and the removal, if there is such a connection. -/
def remove (s : State τ) (c : Nat) : State τ := if s.connections c then (s.close c).drop c else s

/-- Every registered connection is closed. -/
def closeEach (s : State τ) : State τ :=
  { s with
    once := fun c => s.once c || s.connections c
    closes := fun c => if s.connections c && !s.once c then s.closes c + 1 else s.closes c }

end State

variable [DecidableEq τ]

def hub : System (State τ) (Action τ) where
  init := fun s =>
    s = ⟨0, [], fun _ => false, fun _ _ => false, fun _ _ => false, fun _ => false, fun _ => 0, [], false, false, false⟩
  step := fun s a =>
    match a with
    | .register topics =>
      if s.stopped then none
      else
        some { s with next := s.next + 1, registerCh := s.registerCh ++ [s.next],
                      topics := fun d t => if d = s.next then t ∈ topics else s.topics d t }
    | .handleRegister =>
      match s.registerCh, s.broadcasting with
      | c :: rest, [] =>
        some { s with registerCh := rest, connections := fun d => d = c || s.connections d,
                      subscribers := fun t d => (d = c && s.topics c t) || s.subscribers t d }
      | _, _ => none
    | .handleUnregister c => if s.broadcasting = [] then some (s.remove c) else none
    | .subscribe c topic =>
      some { s with subscribers := fun t d => (t = topic && d = c) || s.subscribers t d,
                    topics := fun d t => (s.connections c && d = c && t = topic) || s.topics d t }
    | .unsubscribe c topic =>
      some { s with subscribers := fun t d => !(t = topic && d = c) && s.subscribers t d,
                    topics := fun d t => !(s.connections c && d = c && t = topic) && s.topics d t }
    | .handleBroadcast topic exclude =>
      if s.broadcasting = [] then
        some { s with broadcasting :=
          (List.range s.next).filter fun c => s.subscribers topic c && s.connections c && decide (exclude ≠ some c) }
      else none
    | .deliver k late =>
      match s.broadcasting[k]? with
      | none => none
      | some c =>
        some { s with broadcasting := s.broadcasting.eraseIdx k, sentClosed := s.sentClosed || (!late && s.once c) }
    | .send c => some { s with sentClosed := s.sentClosed || s.once c }
    | .cleanup stale => some (stale.foldl State.remove s)
    | .stop => if s.stopped then none else some { s with stopped := true }
    | .closeAll =>
      if s.stopped && !s.closedAll then some { s.closeEach with closedAll := true } else none

/-- No connection is closed during a broadcast, nothing is sent after `Stop` or to a connection that is not registered,
and only registered connections subscribe. -/
def Careful (s : State τ) : Action τ → Prop
  | .subscribe c _ => s.connections c = true
  | .handleBroadcast .. => s.stopped = false
  | .send c => s.connections c = true ∧ s.stopped = false
  | .cleanup _ => s.broadcasting = []
  | .closeAll => s.broadcasting = []
  | _ => True

instance (s : State τ) : DecidablePred (Careful s) := fun a => by
  cases a <;> unfold Careful <;> infer_instance

/-! ## Channels are closed once -/

/-- A channel is closed as often as `closeOnce` ran. -/
def Once (s : State τ) : Prop := ∀ c, s.closes c = if s.once c then 1 else 0

omit [DecidableEq τ] in
theorem Once.remove {s : State τ} (h : Once s) (c : Nat) : Once (s.remove c) := by
  intro d
  have hd := h d
  unfold State.remove State.drop State.close
  grind

omit [DecidableEq τ] in
theorem Once.removeAll : ∀ (stale : List Nat) {s : State τ}, Once s → Once (stale.foldl State.remove s)
  | [], _, h => h
  | c :: stale, _, h => Once.removeAll stale (h.remove c)

theorem Once.step {s t : State τ} {a : Action τ} (h : Once s) (hs : hub.step s a = some t) : Once t := by
  cases a <;> simp only [hub] at hs
  case handleUnregister c =>
    split at hs <;> cases hs
    exact h.remove c
  case cleanup stale =>
    cases hs
    exact Once.removeAll stale h
  case closeAll =>
    split at hs <;> cases hs
    intro d
    have hd := h d
    simp only [State.closeEach]
    grind
  -- no other step closes a channel
  all_goals
    repeat' split at hs
    all_goals
      cases hs
      try exact h

/-! ## Careful runs -/

structure Inv (s : State τ) : Prop where
  index : ∀ t c, s.subscribers t c = true → s.connections c = true ∧ s.topics c t = true
  opened : s.closedAll = false → ∀ c, s.connections c = true → s.once c = false
  sending : ∀ c ∈ s.broadcasting, s.once c = false
  queued : ∀ c ∈ s.registerCh, s.once c = false ∧ s.connections c = false
  nodup : s.registerCh.Nodup
  fresh : ∀ c, s.next ≤ c → s.once c = false ∧ s.connections c = false ∧ c ∉ s.registerCh
  stopped : s.closedAll = true → s.stopped = true
  clean : s.sentClosed = false

section
variable {s : State τ}

omit [DecidableEq τ] in
theorem Inv.remove (h : Inv s) (hidle : s.broadcasting = [])
    (c : Nat) : Inv (s.remove c) ∧ (s.remove c).broadcasting = [] := by
  unfold State.remove State.drop State.close
  refine ⟨?_, by grind⟩
  split
  · rename_i hc
    cases h
    split <;> constructor <;> grind
  · exact h

omit [DecidableEq τ] in
theorem Inv.removeAll : ∀ (stale : List Nat) {s : State τ}, Inv s → s.broadcasting = [] →
    Inv (stale.foldl State.remove s)
  | [], _, h, _ => h
  | c :: stale, _, h, hidle => Inv.removeAll stale (h.remove hidle c).1 (h.remove hidle c).2

/-- One careful step. -/
theorem Inv.step {t : State τ} {a : Action τ} (h : Inv s) (hok : Careful s a) (hs : hub.step s a = some t) : Inv t := by
  have hinv := h
  obtain ⟨index, opened, sending, queued, nodup, fresh, stopped, clean⟩ := h
  cases a <;> simp only [hub] at hs
  case register topics =>
    split at hs <;> cases hs
    exact ⟨by grind, opened, sending, by grind, by grind, by grind, stopped, clean⟩
  case handleRegister =>
    split at hs <;> cases hs
    rename_i c rest hqueue hidle
    exact ⟨by grind, by grind, sending, by grind, by grind, by grind, stopped, clean⟩
  case handleUnregister c =>
    split at hs <;> cases hs
    rename_i hidle
    exact (hinv.remove hidle c).1
  case subscribe c topic =>
    cases hs
    have hc : s.connections c = true := hok
    exact ⟨by grind, opened, sending, queued, nodup, fresh, stopped, clean⟩
  case unsubscribe c topic =>
    cases hs
    exact ⟨by grind, opened, sending, queued, nodup, fresh, stopped, clean⟩
  case handleBroadcast topic exclude =>
    split at hs <;> cases hs
    have hrunning : s.closedAll = false := by
      by_contra hclosed
      exact absurd ((stopped (by simpa using hclosed)).symm.trans hok) (by decide)
    exact ⟨index, opened, by grind, queued, nodup, fresh, stopped, clean⟩
  case deliver k late =>
    split at hs <;> cases hs
    rename_i c hk
    have hc : s.once c = false := sending c (List.mem_of_getElem? hk)
    have hsub : s.broadcasting.eraseIdx k ⊆ s.broadcasting := (List.eraseIdx_sublist _ _).subset
    exact ⟨index, opened, fun d hd => sending d (hsub hd), queued, nodup, fresh, stopped, by simp [clean, hc]⟩
  case send c =>
    cases hs
    have hc : s.connections c = true ∧ s.stopped = false := hok
    exact ⟨index, opened, sending, queued, nodup, fresh, stopped, by grind⟩
  case cleanup stale =>
    cases hs
    exact hinv.removeAll stale hok
  case stop =>
    split at hs <;> cases hs
    exact ⟨index, opened, sending, queued, nodup, fresh, fun _ => rfl, clean⟩
  case closeAll =>
    split at hs <;> cases hs
    have hidle : s.broadcasting = [] := hok
    simp only [State.closeEach]
    exact ⟨index, by simp, by simp [hidle], by grind, nodup, by grind, by grind, clean⟩

end

/-- **The hub**: no write channel is ever closed twice; and along careful runs nothing is sent on a closed channel and
every subscriber of a topic is a registered connection with this topic. -/
theorem hub_safe :
    (∀ s : State τ, Reach hub (fun _ _ => True) s → ∀ c, s.closes c ≤ 1) ∧
      ∀ s : State τ, Reach hub Careful s → s.sentClosed = false ∧
        ∀ t c, s.subscribers t c = true → s.connections c = true ∧ s.topics c t = true := by
  constructor
  · intro s hs c
    have honce : Once s := hs.invariant (fun s h => by subst h; intro c; rfl) fun _ _ _ _ h _ hstep => h.step hstep
    rw [honce c]
    split <;> omega
  · intro s hs
    have hinv : Inv s := hs.invariant (fun s h => by subst h; constructor <;> simp)
      fun _ _ _ _ h hok hstep => h.step hok hstep
    exact ⟨hinv.clean, hinv.index⟩

/-- Two connections, a broadcast to both, a cleanup of one of them, and `Stop`. -/
def carefulRun : List (Action Unit) :=
  [.register [()], .register [], .handleRegister, .handleRegister, .subscribe 1 (),
    .handleBroadcast () none, .deliver 1 false,
    .deliver 0 false, .cleanup [0], .send 1, .stop, .closeAll]

theorem hub_safe_carefulRun : ∃ s : State Unit, Reach hub Careful s ∧ s.closedAll = true ∧ (∀ c, s.closes c ≤ 1) ∧
    s.sentClosed = false ∧
    ∀ t c, s.subscribers t c = true → s.connections c = true ∧ s.topics c t = true := by
  have hreach : Reach hub Careful _ := Reach.of_exec rfl carefulRun rfl
  exact ⟨_, hreach, rfl, hub_safe.1 _ (hreach.mono fun _ _ _ => trivial), hub_safe.2 _ hreach⟩

/-- A cleanup between the snapshot and the send of a broadcast, and a subscription without a connection. -/
theorem closed_under_broadcast :
    (∃ s : State Unit, Reach hub (fun _ _ => True) s ∧ s.sentClosed = true) ∧
      ∃ s : State Unit, Reach hub (fun _ _ => True) s ∧ s.subscribers () 0 = true ∧ s.connections 0 = false :=
  ⟨⟨_, Reach.of_exec rfl [.register [()], .handleRegister, .handleBroadcast () none, .cleanup [0],
    .deliver 0 false] rfl, rfl⟩,
    ⟨_, Reach.of_exec rfl [.subscribe 0 ()] rfl, rfl, rfl⟩⟩

end WsHub
