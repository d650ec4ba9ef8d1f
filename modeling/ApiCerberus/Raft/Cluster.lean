import ApiCerberus.Lib.Transition
import ApiCerberus.Raft.Node
import Mathlib.Data.Fintype.Card

/-!
# A cluster of nodes

The cluster is the nodes, the RPCs in flight and the proposals that wait for a commit. A step is one critical section of
one node, or something the network does. A goroutine that has sent a request is a `Call`: first the request travels,
then (`deliver`) its handler has run and the response travels, then (`receive`) the goroutine goes on with the response.
Calls are named by their place in the list, so any of them may be delayed for as long as one likes, overtaken, delivered
again (`duplicate`), or lost (`drop`).

* `tick`, `heartbeatExit`: one turn of `sendHeartbeats`; its deferred `Store(false)` (`node.go:379`)
* `read`: `replicateTo` up to its first `RUnlock`: a step of its own, so that the captured term may be old by then
* `propose`, `poll`, `giveUp`: `ClusterManager.Propose` (`cluster.go:393`): `AppendEntry`, then `WaitForCommit`
* `restart`: a crash and a `Start` over the same storage; a call of an older `epoch` is never received, but its request
may still arrive
-/

namespace Raft

/-- A call on its way: the request, and later its answer. -/
inductive Rpc (ι κ δ : Type) where
  | vote (req : RequestVoteRequest ι)
  | voted (req : RequestVoteRequest ι) (resp : RequestVoteResponse)
  | replicate (term commitIndex : Nat)
  | append (req : AppendEntriesRequest ι κ)
  | appended (req : AppendEntriesRequest ι κ) (resp : AppendEntriesResponse)
  | snapshot (req : InstallSnapshotRequest ι δ)
  | installed (req : InstallSnapshotRequest ι δ) (resp : InstallSnapshotResponse)

/-- `epoch = none`: a duplicate. -/
structure Call (ι κ δ : Type) where
  caller : ι
  callee : ι
  epoch : Option Nat
  rpc : Rpc ι κ δ

/-- A `Propose` call between its `AppendEntry` and its return, with the entry it appended. -/
structure Proposal (ι κ : Type) where
  node : ι
  epoch : Nat
  entry : LogEntry κ

/-- `returned`: the proposals that have returned nil. -/
structure Cluster (ι κ σ δ S : Type) where
  node : ι → Node ι κ σ S
  epoch : ι → Nat
  calls : List (Call ι κ δ)
  waiting : List (Proposal ι κ)
  returned : List (Proposal ι κ)

/-- `data` is what `json.Marshal` made of the command. -/
inductive Action (ι κ : Type) where
  | timeout (i : ι)
  | tick (i : ι)
  | heartbeatExit (i : ι)
  | read (k : Nat)
  | deliver (k : Nat)
  | duplicate (k : Nat)
  | receive (k : Nat)
  | drop (k : Nat)
  | append (i : ι) (data : Except String κ)
  | propose (i : ι) (data : Except String κ)
  | poll (k : Nat)
  | giveUp (k : Nat)
  | restart (i : ι)

variable {ι κ σ δ S : Type}

namespace Cluster

section
variable [DecidableEq ι]

def put (c : Cluster ι κ σ δ S) (i : ι) (n : Node ι κ σ S) : Cluster ι κ σ δ S :=
  { c with node := Function.update c.node i n }

def setCall (c : Cluster ι κ σ δ S) (k : Nat) (call : Call ι κ δ) : Cluster ι κ σ δ S :=
  { c with calls := c.calls.set k call }

def dropCall (c : Cluster ι κ σ δ S) (k : Nat) : Cluster ι κ σ δ S := { c with calls := c.calls.eraseIdx k }

/-- Node `i` starts one goroutine per peer. -/
def spawn (c : Cluster ι κ σ δ S) (i : ι) (rpc : Rpc ι κ δ) : Cluster ι κ σ δ S :=
  { c with
    calls := c.calls ++
      ((c.node i).peers.filter (· ≠ i)).map fun p =>
        { caller := i, callee := p, epoch := some (c.epoch i), rpc := rpc } }

@[simp] theorem put_self (c : Cluster ι κ σ δ S) (i : ι) (n : Node ι κ σ S) : (c.put i n).node i = n := by
  simp [Cluster.put]

theorem put_other (c : Cluster ι κ σ δ S) {i j : ι} (n : Node ι κ σ S) (h : j ≠ i) : (c.put i n).node j = c.node j := by
  simp [Cluster.put, h]

@[simp] theorem put_put (c : Cluster ι κ σ δ S) (i : ι) (n n' : Node ι κ σ S) : (c.put i n).put i n' = c.put i n' := by
  simp [Cluster.put]

@[simp] theorem put_node (c : Cluster ι κ σ δ S) (i : ι) : c.put i (c.node i) = c := by
  simp [Cluster.put]

theorem mem_spawn {c : Cluster ι κ σ δ S} {i : ι} {rpc : Rpc ι κ δ} {x : Call ι κ δ} (hx : x ∈ (c.spawn i rpc).calls) :
    x ∈ c.calls ∨ ∃ p, p ≠ i ∧ x = { caller := i, callee := p, epoch := some (c.epoch i), rpc := rpc } := by
  rcases List.mem_append.1 hx with hx | hx
  · exact Or.inl hx
  · right
    simp only [List.mem_map, List.mem_filter] at hx
    obtain ⟨p, ⟨_, hp⟩, rfl⟩ := hx
    exact ⟨p, by simpa using hp, rfl⟩

/-- The goroutine of this call is still alive. -/
def Alive (c : Cluster ι κ σ δ S) (call : Call ι κ δ) : Prop := call.epoch = some (c.epoch call.caller)

instance (c : Cluster ι κ σ δ S) (call : Call ι κ δ) : Decidable (c.Alive call) :=
  inferInstanceAs (Decidable (_ = _))

/-! ## The steps -/

variable [ByteSlice δ] (E : Env ι κ σ δ S)

/-- The election timer of a node that does not lead. -/
def timeout (c : Cluster ι κ σ δ S) (i : ι) : Cluster ι κ σ δ S :=
  if (c.node i).state = .leader then c
  else
    let n := becomeCandidate E (c.node i)
    (c.put i n).spawn i (.vote (voteRequest n))

def tick (c : Cluster ι κ σ δ S) (i : ι) : Option (Cluster ι κ σ δ S) :=
  let n := c.node i
  if n.heartbeat ≠ .running then none
  else if n.state ≠ .leader then some (c.put i { n with heartbeat := .returning })
  else some (c.spawn i (.replicate n.currentTerm n.commitIndex))

def heartbeatExit (c : Cluster ι κ σ δ S) (i : ι) : Option (Cluster ι κ σ δ S) :=
  if (c.node i).heartbeat = .returning then some (c.put i { c.node i with heartbeat := .off }) else none

/-- What a goroutine does with the outcome of its read. -/
def sendOut (c : Cluster ι κ σ δ S) (k : Nat) (call : Call ι κ δ) : Option (Outgoing ι κ δ) → Cluster ι κ σ δ S
  | none => c.dropCall k
  | some (.append req) => c.setCall k { call with rpc := .append req }
  | some (.snapshot req) => c.setCall k { call with rpc := .snapshot req }

/-- The goroutine of a peer reads what it is to send. -/
def readCall (c : Cluster ι κ σ δ S) (k : Nat) (call : Call ι κ δ) : Option (Cluster ι κ σ δ S) :=
  match call.rpc with
  | .replicate term commitIndex =>
    if c.Alive call then some (c.sendOut k call (replicateTo E (c.node call.caller) call.callee term commitIndex))
    else none
  | _ => none

/-- A request arrives as it was sent, as with `InmemTransport`. -/
def deliverCall (c : Cluster ι κ σ δ S) (k : Nat) (call : Call ι κ δ) : Option (Cluster ι κ σ δ S) :=
  let n := c.node call.callee
  match call.rpc with
  | .vote req =>
    let r := handleRequestVote E n req
    some ((c.put call.callee r.1).setCall k { call with rpc := .voted req r.2 })
  | .append req =>
    let r := handleAppendEntries E n req
    some ((c.put call.callee r.1).setCall k { call with rpc := .appended req r.2 })
  | .snapshot req =>
    let r := handleInstallSnapshot E n req
    some ((c.put call.callee r.1).setCall k { call with rpc := .installed req r.2 })
  | _ => none

/-- The caller takes the answer. -/
def receiveCall (c : Cluster ι κ σ δ S) (k : Nat) (call : Call ι κ δ) : Option (Cluster ι κ σ δ S) :=
  let n := c.node call.caller
  if ¬ c.Alive call then none
  else
    match call.rpc with
    | .voted req resp => some ((c.put call.caller (receiveVote E n req resp)).dropCall k)
    | .appended req resp => some ((c.put call.caller (receiveAppend E n call.callee req resp)).dropCall k)
    | .installed req resp => some ((c.put call.caller (receiveSnapshot E n call.callee req resp)).dropCall k)
    | _ => none

def append (c : Cluster ι κ σ δ S) (i : ι) (data : Except String κ) : Cluster ι κ σ δ S :=
  match appendEntry E (c.node i) data with
  | .ok (n, _) => c.put i n
  | .error _ => c

def propose (c : Cluster ι κ σ δ S) (i : ι) (data : Except String κ) : Cluster ι κ σ δ S :=
  match appendEntry E (c.node i) data, data with
  | .ok (n, _), .ok d =>
    { c.put i n with waiting := c.waiting ++ [{ node := i, epoch := c.epoch i, entry := newEntry (c.node i) d }] }
  | _, _ => c

/-- `WaitForCommit` sees `CommitIndex` at or above the index of the proposal. -/
def poll (c : Cluster ι κ σ δ S) (k : Nat) (w : Proposal ι κ) : Option (Cluster ι κ σ δ S) :=
  if w.epoch = c.epoch w.node ∧ w.entry.index ≤ (c.node w.node).commitIndex then
    some { c with waiting := c.waiting.eraseIdx k, returned := c.returned ++ [w] }
  else none

/-- The calls of the former process are dead. -/
def restart (c : Cluster ι κ σ δ S) (i : ι) : Cluster ι κ σ δ S :=
  { c.put i (Raft.restart E (c.node i)) with epoch := Function.update c.epoch i (c.epoch i + 1) }

/-- One step of a node or of the network. -/
def step (c : Cluster ι κ σ δ S) : Action ι κ → Option (Cluster ι κ σ δ S)
  | .timeout i => some (c.timeout E i)
  | .tick i => c.tick i
  | .heartbeatExit i => c.heartbeatExit i
  | .read k => c.calls[k]?.bind fun call => c.readCall E k call
  | .deliver k => c.calls[k]?.bind fun call => c.deliverCall E k call
  | .duplicate k => c.calls[k]?.map fun call => { c with calls := c.calls ++ [{ call with epoch := none }] }
  | .receive k => c.calls[k]?.bind fun call => c.receiveCall E k call
  | .drop k => some (c.dropCall k)
  | .append i data => some (c.append E i data)
  | .propose i data => some (c.propose E i data)
  | .poll k => c.waiting[k]?.bind fun w => c.poll k w
  | .giveUp k => some { c with waiting := c.waiting.eraseIdx k }
  | .restart i => some (c.restart E i)

/-- A call that is handled by its callee. -/
inductive Delivered (c : Cluster ι κ σ δ S) (k : Nat) (call : Call ι κ δ) : Cluster ι κ σ δ S → Prop
  | vote {req} (hrpc : call.rpc = .vote req) :
    Delivered c k call ((c.put call.callee (handleRequestVote E (c.node call.callee) req).1).setCall k
      { call with rpc := .voted req (handleRequestVote E (c.node call.callee) req).2 })
  | append {req} (hrpc : call.rpc = .append req) :
    Delivered c k call ((c.put call.callee (handleAppendEntries E (c.node call.callee) req).1).setCall k
      { call with rpc := .appended req (handleAppendEntries E (c.node call.callee) req).2 })
  | snapshot {req} (hrpc : call.rpc = .snapshot req) :
    Delivered c k call ((c.put call.callee (handleInstallSnapshot E (c.node call.callee) req).1).setCall k
      { call with rpc := .installed req (handleInstallSnapshot E (c.node call.callee) req).2 })

/-- A reply that its caller takes. -/
inductive Received (c : Cluster ι κ σ δ S) (k : Nat) (call : Call ι κ δ) : Cluster ι κ σ δ S → Prop
  | voted {req resp} (ha : c.Alive call) (hrpc : call.rpc = .voted req resp) :
    Received c k call ((c.put call.caller (receiveVote E (c.node call.caller) req resp)).dropCall k)
  | appended {req resp} (hrpc : call.rpc = .appended req resp) :
    Received c k call ((c.put call.caller (receiveAppend E (c.node call.caller) call.callee req resp)).dropCall k)
  | installed {req resp} (hrpc : call.rpc = .installed req resp) :
    Received c k call ((c.put call.caller (receiveSnapshot E (c.node call.caller) call.callee req resp)).dropCall k)

variable {E} {c c' : Cluster ι κ σ δ S} {k : Nat} {call : Call ι κ δ}

omit [DecidableEq ι] in
theorem readCall_cases (hs : c.readCall E k call = some c') : ∃ t m, call.rpc = .replicate t m ∧
    c' = c.sendOut k call (replicateTo E (c.node call.caller) call.callee t m) := by
  unfold readCall at hs
  split at hs
  · split at hs <;> cases hs
    exact ⟨_, _, ‹_›, rfl⟩
  · cases hs

theorem deliverCall_cases (hs : c.deliverCall E k call = some c') : Delivered E c k call c' := by
  unfold deliverCall at hs
  cases hrpc : call.rpc with
  | vote req => rw [hrpc] at hs; cases hs; exact .vote hrpc
  | append req => rw [hrpc] at hs; cases hs; exact .append hrpc
  | snapshot req => rw [hrpc] at hs; cases hs; exact .snapshot hrpc
  | _ => simp [hrpc] at hs

omit [ByteSlice δ] in
theorem receiveCall_cases (hs : c.receiveCall E k call = some c') : Received E c k call c' := by
  unfold receiveCall at hs
  by_cases ha : c.Alive call
  · simp only [ha, not_true_eq_false, if_false] at hs
    cases hrpc : call.rpc with
    | voted req resp => rw [hrpc] at hs; cases hs; exact .voted ha hrpc
    | appended req resp => rw [hrpc] at hs; cases hs; exact .appended hrpc
    | installed req resp => rw [hrpc] at hs; cases hs; exact .installed hrpc
    | _ => simp [hrpc] at hs
  · simp [ha] at hs

end

end Cluster

/-! ## Conditions on runs -/

/-- A condition on the steps of a run: which requests a node handles, what `replicateTo` may read and
send under the term it was started for, and which nodes restart. Everything else is unconditional. -/
structure Guard (ι κ σ δ S : Type) where
  append : Node ι κ σ S → AppendEntriesRequest ι κ → Prop := fun _ _ => True
  snapshot : Node ι κ σ S → InstallSnapshotRequest ι δ → Prop := fun _ _ => True
  read : Node ι κ σ S → Outgoing ι κ δ → Prop := fun _ _ => True
  restart : Node ι κ σ S → Prop := fun _ => True

namespace Guard
variable (g : Guard ι κ σ δ S)

def AllowsDeliver (n : Node ι κ σ S) : Rpc ι κ δ → Prop
  | .append req => g.append n req
  | .snapshot req => g.snapshot n req
  | _ => True

def AllowsRead [ByteSlice δ] (E : Env ι κ σ δ S) (n : Node ι κ σ S) (peer : ι) : Rpc ι κ δ → Prop
  | .replicate term commitIndex => ∀ out, replicateTo E n peer term commitIndex = some out → g.read n out
  | _ => True

def Allows [ByteSlice δ] (E : Env ι κ σ δ S) (c : Cluster ι κ σ δ S) : Action ι κ → Prop
  | .deliver k => ∀ call, c.calls[k]? = some call → g.AllowsDeliver (c.node call.callee) call.rpc
  | .read k => ∀ call, c.calls[k]? = some call → g.AllowsRead E (c.node call.caller) call.callee call.rpc
  | .restart i => g.restart (c.node i)
  | _ => True

variable {g} in
/-- A guard that asks more allows less. -/
theorem Allows.weaken [ByteSlice δ] {g' : Guard ι κ σ δ S} {E : Env ι κ σ δ S} {c : Cluster ι κ σ δ S}
    {act : Action ι κ}
    (h : g.Allows E c act) (happend : ∀ n req, g.append n req → g'.append n req)
    (hsnapshot : ∀ n req, g.snapshot n req → g'.snapshot n req)
    (hread : ∀ n out, g.read n out → g'.read n out) (hrestart : ∀ n, g.restart n → g'.restart n) :
      g'.Allows E c act := by
  cases act with
  | deliver k =>
    intro call hk
    have hd := h call hk
    cases hrpc : call.rpc with
    | append req =>
      rw [hrpc] at hd
      exact happend _ req hd
    | snapshot req =>
      rw [hrpc] at hd
      exact hsnapshot _ req hd
    | _ => trivial
  | read k =>
    intro call hk
    have hr := h call hk
    cases hrpc : call.rpc with
    | replicate term commitIndex =>
      rw [hrpc] at hr
      exact fun out hout => hread _ out (hr out hout)
    | _ => trivial
  | restart i => exact hrestart _ h
  | _ => trivial

/-- A guard that can be evaluated. -/
class Dec where
  append : ∀ n req, Decidable (g.append n req)
  snapshot : ∀ n req, Decidable (g.snapshot n req)
  read : ∀ n out, Decidable (g.read n out)
  restart : ∀ n, Decidable (g.restart n)

instance decidableAllowsDeliver [g.Dec] (n : Node ι κ σ S) (rpc : Rpc ι κ δ) : Decidable (g.AllowsDeliver n rpc) :=
  match rpc with
  | .append req => Dec.append n req
  | .snapshot req => Dec.snapshot n req
  | .vote _ => isTrue trivial
  | .voted _ _ => isTrue trivial
  | .replicate _ _ => isTrue trivial
  | .appended _ _ => isTrue trivial
  | .installed _ _ => isTrue trivial

instance decidableAllowsRead [ByteSlice δ] [g.Dec] (E : Env ι κ σ δ S) (n : Node ι κ σ S) (peer : ι) (rpc : Rpc ι κ δ) :
    Decidable (g.AllowsRead E n peer rpc) :=
  match rpc with
  | .replicate term commitIndex =>
    have : ∀ out, Decidable (g.read n out) := Dec.read n
    inferInstanceAs (Decidable (∀ out ∈ replicateTo E n peer term commitIndex, g.read n out))
  | .vote _ => isTrue trivial
  | .voted _ _ => isTrue trivial
  | .append _ => isTrue trivial
  | .appended _ _ => isTrue trivial
  | .snapshot _ => isTrue trivial
  | .installed _ _ => isTrue trivial

instance decidableAllows [ByteSlice δ] [g.Dec] (E : Env ι κ σ δ S) (c : Cluster ι κ σ δ S) (a : Action ι κ) :
    Decidable (g.Allows E c a) :=
  match a with
  | .deliver k => inferInstanceAs (Decidable (∀ call ∈ c.calls[k]?, g.AllowsDeliver (c.node call.callee) call.rpc))
  | .read k =>
    inferInstanceAs (Decidable (∀ call ∈ c.calls[k]?, g.AllowsRead E (c.node call.caller) call.callee call.rpc))
  | .restart i => Dec.restart (c.node i)
  | .timeout _ => isTrue trivial
  | .tick _ => isTrue trivial
  | .heartbeatExit _ => isTrue trivial
  | .duplicate _ => isTrue trivial
  | .receive _ => isTrue trivial
  | .drop _ => isTrue trivial
  | .append _ _ => isTrue trivial
  | .propose _ _ => isTrue trivial
  | .poll _ => isTrue trivial
  | .giveUp _ => isTrue trivial

end Guard

/-- No node restarts. -/
def noRestart : Guard ι κ σ δ S := { restart := fun _ => False }

instance : (noRestart : Guard ι κ σ δ S).Dec where
  append _ _ := isTrue trivial
  snapshot _ _ := isTrue trivial
  read _ _ := isTrue trivial
  restart _ := isFalse id

/-- A node that restarts has a storage to restart from. -/
def restartsStored : Guard ι κ σ δ S := { restart := fun n => n.storage.isSome }

instance : (restartsStored : Guard ι κ σ δ S).Dec where
  append _ _ := isTrue trivial
  snapshot _ _ := isTrue trivial
  read _ _ := isTrue trivial
  restart n := inferInstanceAs (Decidable (n.storage.isSome = true))

/-! ## Initial states -/

section
variable [ByteSlice δ]

/-- Nothing has been saved yet. -/
structure Storage.Blank (st : Storage ι κ δ S) (s : S) : Prop where
  state : st.loadState s = none ∨ st.loadState s = some (0, none)
  log : st.loadLog s = none ∨ st.loadLog s = some []
  snapshot : ∀ index term data, st.loadSnapshot s = some (index, term, data) → ByteSlice.len data = 0

/-- A node of a cluster with fixed membership, before anything has happened. -/
structure FirstStart (E : Env ι κ σ δ S) (i : ι) (n : Node ι κ σ S) : Prop where
  new : n = newNode E i n.config n.peers n.storage
  nodup : n.peers.Nodup
  others : ∀ j, j ∈ n.peers ↔ j ≠ i
  blank : ∀ s, n.storage = some s → E.storage.Blank s

structure Cluster.Init (E : Env ι κ σ δ S) (c : Cluster ι κ σ δ S) : Prop where
  node : ∀ i, FirstStart E i (c.node i)
  calls : c.calls = []
  waiting : c.waiting = []
  returned : c.returned = []

/-- The members of a cluster, all with the same configuration and their own copy of one storage. -/
def boot [DecidableEq ι] (E : Env ι κ σ δ S) (members : List ι) (config : Config) (storage : Option S) :
    Cluster ι κ σ δ S where
  node i := newNode E i config (members.filter (· ≠ i)) storage
  epoch _ := 0
  calls := []
  waiting := []
  returned := []

theorem boot_init [DecidableEq ι] {E : Env ι κ σ δ S} {members : List ι} {config : Config} {storage : Option S}
    (hnd : members.Nodup) (hall : ∀ i, i ∈ members) (hb : ∀ s, storage = some s → E.storage.Blank s) :
    Cluster.Init E (boot E members config storage) where
  node i :=
    { new := rfl
      nodup := hnd.filter _
      others := fun j => by simp [boot, newNode, hall]
      blank := hb }
  calls := rfl
  waiting := rfl
  returned := rfl

/-- The cluster of the members `ι`, every member a peer of every other. -/
def system [DecidableEq ι] (E : Env ι κ σ δ S) : Transition.System (Cluster ι κ σ δ S) (Action ι κ) where
  init := Cluster.Init E
  step := Cluster.step E

/-- The state after a listed run, if the guard allows each of its steps. -/
def execGuarded [DecidableEq ι] (E : Env ι κ σ δ S) (g : Guard ι κ σ δ S) [g.Dec] (c : Cluster ι κ σ δ S)
    (run : List (Action ι κ)) : Option (Cluster ι κ σ δ S) := (system E).exec (g.Allows E) c run

theorem reach_of_exec [DecidableEq ι] {E : Env ι κ σ δ S} {g : Guard ι κ σ δ S} [g.Dec] {c₀ c : Cluster ι κ σ δ S}
    {run : List (Action ι κ)} (hinit : Cluster.Init E c₀) (h : execGuarded E g c₀ run = some c) :
    Transition.Reach (system E) (g.Allows E) c :=
  ⟨c₀, hinit, Transition.Run.of_exec run h⟩

end

end Raft
