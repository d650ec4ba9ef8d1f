import ApiCerberus.Raft.Cluster

/-!
# Local invariants

A property of every node together with a property of every call in flight is an invariant of the
cluster as soon as each critical section keeps the first and only sends what satisfies the second
(`Local`). Such invariants need no argument about the cluster as a whole.

A relation between a node before and after each critical section is one between any two states of the
node in a run (`Progress`).
-/

namespace Raft

open Transition

variable {ι κ σ δ S : Type} [DecidableEq ι] [ByteSlice δ]

/-- The call a goroutine makes of what it has read. -/
def Outgoing.rpc : Outgoing ι κ δ → Rpc ι κ δ
  | .append req => .append req
  | .snapshot req => .snapshot req

/-- What to show of `P` for each handler, so that it holds in every run. -/
structure Local (E : Env ι κ σ δ S) (g : Guard ι κ σ δ S) (P : Node ι κ σ S → Prop) (Q : Rpc ι κ δ → Prop) : Prop where
  becomeCandidate : ∀ n, P n → P (becomeCandidate E n)
  vote : ∀ n, P n → Q (.vote (voteRequest (Raft.becomeCandidate E n)))
  heartbeat : ∀ n h, P n → P { n with heartbeat := h }
  replicate : ∀ n : Node ι κ σ S, P n → Q (.replicate n.currentTerm n.commitIndex)
  replicateTo : ∀ n p t m out, P n → Q (.replicate t m) → replicateTo E n p t m = some out → g.read n out → Q out.rpc
  handleRequestVote : ∀ n req, P n → Q (.vote req) →
    P (handleRequestVote E n req).1 ∧ Q (.voted req (Raft.handleRequestVote E n req).2)
  handleAppendEntries : ∀ n req, P n → Q (.append req) → g.append n req →
    P (handleAppendEntries E n req).1 ∧ Q (.appended req (Raft.handleAppendEntries E n req).2)
  handleInstallSnapshot : ∀ n req, P n → Q (.snapshot req) → g.snapshot n req →
    P (handleInstallSnapshot E n req).1 ∧ Q (.installed req (Raft.handleInstallSnapshot E n req).2)
  receiveVote : ∀ n req resp, P n → Q (.voted req resp) → P (receiveVote E n req resp)
  receiveAppend : ∀ n p req resp, P n → Q (.appended req resp) → P (receiveAppend E n p req resp)
  receiveSnapshot : ∀ n p req resp, P n → Q (.installed req resp) → P (receiveSnapshot E n p req resp)
  appendLocal : ∀ n d, P n → n.state = .leader → P (appendLocal E n d)
  restart : ∀ n, P n → g.restart n → P (restart E n)

variable {E : Env ι κ σ δ S} {g : Guard ι κ σ δ S} {P : Node ι κ σ S → Prop} {Q : Rpc ι κ δ → Prop}
  {c c' : Cluster ι κ σ δ S} {k : Nat} {call : Call ι κ δ}

/-- The invariant a local property stands for. -/
structure Everywhere (P : Node ι κ σ S → Prop) (Q : Rpc ι κ δ → Prop) (c : Cluster ι κ σ δ S) : Prop where
  node : ∀ i, P (c.node i)
  call : ∀ call ∈ c.calls, Q call.rpc

variable {n : Node ι κ σ S}

omit [ByteSlice δ] in
theorem Everywhere.put (h : Everywhere P Q c) {i : ι} (hn : P n) : Everywhere P Q (c.put i n) where
  node j := by
    by_cases e : j = i
    · subst e; rw [Cluster.put_self]; exact hn
    · rw [Cluster.put_other c n e]; exact h.node j
  call := h.call

omit [ByteSlice δ] [DecidableEq ι] in
theorem Everywhere.setCall (h : Everywhere P Q c) (hq : Q call.rpc) :
    Everywhere P Q (c.setCall k call) where
  node := h.node
  call x hx := by
    rcases List.mem_or_eq_of_mem_set hx with hx | rfl
    · exact h.call x hx
    · exact hq

omit [ByteSlice δ] [DecidableEq ι] in
theorem Everywhere.dropCall (h : Everywhere P Q c) (k : Nat) : Everywhere P Q (c.dropCall k) where
  node := h.node
  call x hx := h.call x (List.mem_of_mem_eraseIdx hx)

omit [ByteSlice δ] in
theorem Everywhere.spawn (h : Everywhere P Q c) {i : ι} {rpc : Rpc ι κ δ} (hq : Q rpc) :
    Everywhere P Q (c.spawn i rpc) where
  node := h.node
  call x hx := by
    rcases Cluster.mem_spawn hx with hx | ⟨p, _, rfl⟩
    · exact h.call x hx
    · exact hq

namespace Local
variable (L : Local E g P Q) (h : Everywhere P Q c)
include L h

theorem appendEntry {i : ι} {data : Except String κ} {r : Node ι κ σ S × Nat}
    (hr : Raft.appendEntry E (c.node i) data = .ok r) : Everywhere P Q (c.put i r.1) := by
  unfold Raft.appendEntry at hr
  split at hr
  · cases hr
  · rename_i hl
    split at hr
    · cases hr
    · cases hr
      exact h.put (L.appendLocal _ _ (h.node i) (not_not.1 hl))

theorem read (hk : c.calls[k]? = some call)
    (hok : g.AllowsRead E (c.node call.caller) call.callee call.rpc) (hs : c.readCall E k call = some c') :
    Everywhere P Q c' := by
  have hq := h.call call (List.mem_of_getElem? hk)
  obtain ⟨t, m, hrpc, rfl⟩ := Cluster.readCall_cases hs
  rw [hrpc] at hq hok
  cases hout : Raft.replicateTo E (c.node call.caller) call.callee t m with
  | none => exact h.dropCall k
  | some out =>
    have := L.replicateTo _ _ _ _ out (h.node _) hq hout (hok out hout)
    cases out <;> exact h.setCall this

theorem deliver (hk : c.calls[k]? = some call)
    (hok : g.AllowsDeliver (c.node call.callee) call.rpc) (hs : c.deliverCall E k call = some c') :
    Everywhere P Q c' := by
  have hq := h.call call (List.mem_of_getElem? hk)
  cases Cluster.deliverCall_cases hs with
  | vote hrpc =>
    rw [hrpc] at hq
    obtain ⟨h1, h2⟩ := L.handleRequestVote _ _ (h.node call.callee) hq
    exact (h.put h1).setCall h2
  | append hrpc =>
    rw [hrpc] at hq hok
    obtain ⟨h1, h2⟩ := L.handleAppendEntries _ _ (h.node call.callee) hq hok
    exact (h.put h1).setCall h2
  | snapshot hrpc =>
    rw [hrpc] at hq hok
    obtain ⟨h1, h2⟩ := L.handleInstallSnapshot _ _ (h.node call.callee) hq hok
    exact (h.put h1).setCall h2

theorem receive (hk : c.calls[k]? = some call) (hs : c.receiveCall E k call = some c') :
    Everywhere P Q c' := by
  have hq := h.call call (List.mem_of_getElem? hk)
  cases Cluster.receiveCall_cases hs with
  | voted ha hrpc =>
    rw [hrpc] at hq
    exact (h.put (L.receiveVote _ _ _ (h.node _) hq)).dropCall k
  | appended hrpc =>
    rw [hrpc] at hq
    exact (h.put (L.receiveAppend _ _ _ _ (h.node _) hq)).dropCall k
  | installed hrpc =>
    rw [hrpc] at hq
    exact (h.put (L.receiveSnapshot _ _ _ _ (h.node _) hq)).dropCall k

/-- What the handlers keep, a step of the cluster keeps. -/
theorem step {a : Action ι κ} (hok : g.Allows E c a) (hs : c.step E a = some c') : Everywhere P Q c' := by
  cases a with
  | timeout i =>
    cases hs
    unfold Cluster.timeout
    split
    · exact h
    · exact (h.put (L.becomeCandidate _ (h.node i))).spawn (L.vote _ (h.node i))
  | tick i =>
    simp only [Cluster.step, Cluster.tick] at hs
    split at hs
    · cases hs
    · split at hs
      · cases hs
        exact h.put (L.heartbeat _ _ (h.node i))
      · cases hs
        exact h.spawn (L.replicate _ (h.node i))
  | heartbeatExit i =>
    simp only [Cluster.step, Cluster.heartbeatExit] at hs
    split at hs
    · cases hs
      exact h.put (L.heartbeat _ _ (h.node i))
    · cases hs
  | read k =>
    obtain ⟨call, hk, hs⟩ := Option.bind_eq_some_iff.1 hs
    exact L.read h hk (hok call hk) hs
  | deliver k =>
    obtain ⟨call, hk, hs⟩ := Option.bind_eq_some_iff.1 hs
    exact L.deliver h hk (hok call hk) hs
  | duplicate k =>
    obtain ⟨call, hk, rfl⟩ := Option.map_eq_some_iff.1 hs
    refine ⟨h.node, fun x hx => ?_⟩
    rcases List.mem_append.1 hx with hx | hx
    · exact h.call x hx
    · rw [List.mem_singleton] at hx
      subst hx
      exact h.call call (List.mem_of_getElem? hk)
  | receive k =>
    obtain ⟨call, hk, hs⟩ := Option.bind_eq_some_iff.1 hs
    exact L.receive h hk hs
  | drop k =>
    cases hs
    exact h.dropCall k
  | append i data =>
    cases hs
    unfold Cluster.append
    split
    · rename_i n _ hr
      exact L.appendEntry h hr
    · exact h
  | propose i data =>
    cases hs
    unfold Cluster.propose
    split
    · rename_i n _ _ hr
      exact { L.appendEntry h hr with }
    · exact h
  | poll k =>
    obtain ⟨w, _, hs⟩ := Option.bind_eq_some_iff.1 hs
    unfold Cluster.poll at hs
    split at hs
    · cases hs
      exact { h with }
    · cases hs
  | giveUp k =>
    cases hs
    exact { h with }
  | restart i =>
    cases hs
    exact { h.put (i := i) (L.restart _ (h.node i) hok) with }

end Local

theorem Local.run (L : Local E g P Q) {c₀ : Cluster ι κ σ δ S} (h : Everywhere P Q c₀)
    (hr : Run (system E) (g.Allows E) c₀ c) : Everywhere P Q c :=
  hr.invariant (fun _ _ _ h hok hs => L.step h hok hs) h

/-- **Invariance of local properties.** -/
theorem Local.everywhere (L : Local E g P Q) (hinit : ∀ i n, FirstStart E i n → P n)
    (hc : Reach (system E) (g.Allows E) c) : Everywhere P Q c := by
  refine hc.invariant (fun c₀ h₀ => ?_) fun _ _ _ _ h hok hs => L.step h hok hs
  exact ⟨fun i => hinit i _ (h₀.node i), by simp [h₀.calls]⟩

/-! ## One step, seen from one node -/

/-- **The critical sections of a step**: a node is as before, or one of them has run on it. -/
theorem step_rule {R : ι → Node ι κ σ S → Prop} {a : Action ι κ} (hok : g.Allows E c a) (hs : c.step E a = some c')
    (same : ∀ j, R j (c.node j)) (heartbeat : ∀ j h, R j { c.node j with heartbeat := h })
    (becomeCandidate : ∀ j, (c.node j).state ≠ .leader → R j (becomeCandidate E (c.node j)))
    (handleRequestVote : ∀ j req, R j (handleRequestVote E (c.node j) req).1)
    (handleAppendEntries : ∀ j req, g.append (c.node j) req → R j (handleAppendEntries E (c.node j) req).1)
    (handleInstallSnapshot : ∀ j, ∀ call ∈ c.calls, ∀ req, call.rpc = .snapshot req → g.snapshot (c.node j) req →
      R j (handleInstallSnapshot E (c.node j) req).1)
    (receiveVote : ∀ j req resp, R j (receiveVote E (c.node j) req resp))
    (receiveAppend : ∀ j p req resp, R j (receiveAppend E (c.node j) p req resp))
    (receiveSnapshot : ∀ j, ∀ call ∈ c.calls, ∀ p req resp, call.rpc = .installed req resp →
      R j (receiveSnapshot E (c.node j) p req resp))
    (appendLocal : ∀ j d, (c.node j).state = .leader → R j (appendLocal E (c.node j) d))
    (restart : ∀ j, g.restart (c.node j) → R j (restart E (c.node j))) (j : ι) : R j (c'.node j) := by
  have hput : ∀ {i n}, R i n → R j ((c.put i n).node j) := by
    intro i n h
    by_cases e : j = i
    · subst e; rw [Cluster.put_self]; exact h
    · rw [Cluster.put_other c n e]; exact same j
  have happend : ∀ {i data r}, appendEntry E (c.node i) data = .ok r → R j ((c.put i r.1).node j) := by
    intro i data r hr
    unfold appendEntry at hr
    split at hr
    · cases hr
    · rename_i hl
      split at hr <;> cases hr
      exact hput (appendLocal i _ (not_not.1 hl))
  cases a with
  | timeout i =>
    cases hs
    unfold Cluster.timeout
    split
    · exact same j
    · exact hput (becomeCandidate i ‹_›)
  | tick i =>
    simp only [Cluster.step, Cluster.tick] at hs
    split at hs
    · cases hs
    · split at hs
      · cases hs
        exact hput (heartbeat i _)
      · cases hs
        exact same j
  | heartbeatExit i =>
    simp only [Cluster.step, Cluster.heartbeatExit] at hs
    split at hs
    · cases hs
      exact hput (heartbeat i _)
    · cases hs
  | read k =>
    obtain ⟨call, _, hs⟩ := Option.bind_eq_some_iff.1 hs
    obtain ⟨t, m, _, rfl⟩ := Cluster.readCall_cases hs
    unfold Cluster.sendOut
    split <;> exact same j
  | deliver k =>
    obtain ⟨call, hk, hs⟩ := Option.bind_eq_some_iff.1 hs
    have hok := hok call hk
    cases Cluster.deliverCall_cases hs with
    | vote => exact hput (handleRequestVote _ _)
    | append hrpc => rw [hrpc] at hok; exact hput (handleAppendEntries _ _ hok)
    | snapshot hrpc => rw [hrpc] at hok; exact hput (handleInstallSnapshot _ _ (List.mem_of_getElem? hk) _ hrpc hok)
  | duplicate k =>
    obtain ⟨_, _, rfl⟩ := Option.map_eq_some_iff.1 hs
    exact same j
  | receive k =>
    obtain ⟨call, hk, hs⟩ := Option.bind_eq_some_iff.1 hs
    cases Cluster.receiveCall_cases hs with
    | voted => exact hput (receiveVote _ _ _)
    | appended => exact hput (receiveAppend _ _ _ _)
    | installed hrpc => exact hput (receiveSnapshot _ _ (List.mem_of_getElem? hk) _ _ _ hrpc)
  | drop k => cases hs; exact same j
  | append i data =>
    cases hs
    unfold Cluster.append
    split
    · exact happend ‹_›
    · exact same j
  | propose i data =>
    cases hs
    unfold Cluster.propose
    split
    · rename_i hr
      exact happend hr
    · exact same j
  | poll k =>
    obtain ⟨w, _, hs⟩ := Option.bind_eq_some_iff.1 hs
    unfold Cluster.poll at hs
    split at hs
    · cases hs; exact same j
    · cases hs
  | giveUp k => cases hs; exact same j
  | restart i => cases hs; exact hput (restart i hok)

/-! ## Relations between a node before and after -/

structure Progress (E : Env ι κ σ δ S) (g : Guard ι κ σ δ S) (R : Node ι κ σ S → Node ι κ σ S → Prop) : Prop where
  refl : ∀ n, R n n
  trans : ∀ n n' n'', R n n' → R n' n'' → R n n''
  becomeCandidate : ∀ n, n.state ≠ .leader → R n (becomeCandidate E n)
  heartbeat : ∀ n h, R n { n with heartbeat := h }
  handleRequestVote : ∀ n req, R n (handleRequestVote E n req).1
  handleAppendEntries : ∀ n req, g.append n req → R n (handleAppendEntries E n req).1
  handleInstallSnapshot : ∀ n req, g.snapshot n req → R n (handleInstallSnapshot E n req).1
  receiveVote : ∀ n req resp, R n (receiveVote E n req resp)
  receiveAppend : ∀ n p req resp, R n (receiveAppend E n p req resp)
  receiveSnapshot : ∀ n p req resp, R n (receiveSnapshot E n p req resp)
  appendLocal : ∀ n d, n.state = .leader → R n (appendLocal E n d)
  restart : ∀ n, g.restart n → R n (restart E n)

namespace Progress
variable {R : Node ι κ σ S → Node ι κ σ S → Prop} (L : Progress E g R)
include L

theorem step {a : Action ι κ} (hok : g.Allows E c a) (hs : c.step E a = some c') : ∀ j, R (c.node j) (c'.node j) :=
  step_rule hok hs (fun _ => L.refl _) (fun _ => L.heartbeat _) (fun _ => L.becomeCandidate _)
    (fun _ => L.handleRequestVote _) (fun _ => L.handleAppendEntries _) (fun _ _ _ _ _ => L.handleInstallSnapshot _ _)
    (fun _ => L.receiveVote _) (fun _ => L.receiveAppend _) (fun _ _ _ _ _ _ _ => L.receiveSnapshot _ _ _ _)
    (fun _ => L.appendLocal _) fun _ => L.restart _

theorem run (hr : Run (system E) (g.Allows E) c c') (j : ι) : R (c.node j) (c'.node j) := by
  refine hr.invariant (P := fun c' => R (c.node j) (c'.node j)) (fun s a t h hok hs => ?_) (L.refl _)
  exact L.trans _ _ _ h (L.step hok hs j)

end Progress

/-! ## Properties of the storage -/

/-- A property of the storage, the settings and the last snapshot of a node. -/
structure Stored (E : Env ι κ σ δ S) (P : Node ι κ σ S → Prop) : Prop where
  edit : ∀ {n n'}, P n → n'.storage = n.storage → n'.config = n.config →
    n'.lastSnapshotIndex = n.lastSnapshotIndex → P n'
  persistState : ∀ {n}, P n → P (persistState E n)
  persistLog : ∀ {n} {es}, P n → P (persistLog E n es)
  maybeSnapshot : ∀ {n}, P n → P (maybeSnapshot E n)

omit [DecidableEq ι] [ByteSlice δ] in
theorem Stored.applyLoop (K : Stored E P) (k : Nat) (h : P n) : P (applyLoop E k n) := by
  obtain ⟨fsm, applied, hn⟩ := applyLoop_eq E k n
  exact K.edit h (by rw [hn]) (by rw [hn]) (by rw [hn])

omit [DecidableEq ι] [ByteSlice δ] in
theorem Stored.applyCommitted (K : Stored E P) (h : P n) : P (applyCommitted E n) := K.maybeSnapshot (K.applyLoop _ h)

def Rpc.IsSnapshot : Rpc ι κ δ → Prop
  | .snapshot _ | .installed _ _ => True
  | _ => False

/-- Of all critical sections, only the installation of a snapshot and the restart do something else to such a
property. -/
theorem Stored.local (K : Stored E P) (hcalls : ∀ rpc : Rpc ι κ δ, ¬ rpc.IsSnapshot → Q rpc)
    (hread : ∀ n p t m out, P n → replicateTo E n p t m = some out → Q out.rpc)
    (hinstall : ∀ n req, P n → Q (.snapshot req) →
      P (handleInstallSnapshot E n req).1 ∧ Q (.installed req (handleInstallSnapshot E n req).2))
    (hrestart : ∀ n, P n → g.restart n → P (restart E n)) : Local E g P Q where
  becomeCandidate n h := K.persistState (K.edit h rfl rfl rfl)
  vote _ _ := hcalls _ id
  heartbeat _ _ h := K.edit h rfl rfl rfl
  replicate _ _ := hcalls _ id
  replicateTo n p t m out h _ hout _ := hread n p t m out h hout
  handleRequestVote n req h _ := by
    refine ⟨?_, hcalls _ id⟩
    have hobs : P (observeTerm E n req.term) := by
      unfold observeTerm
      split
      · exact K.persistState (K.edit h rfl rfl rfl)
      · exact h
    unfold Raft.handleRequestVote
    split
    · exact h
    dsimp only
    split
    · exact K.persistState (K.edit hobs rfl rfl rfl)
    · exact hobs
  handleAppendEntries n req h _ _ := by
    refine ⟨?_, hcalls _ id⟩
    have hfol : P (followLeader E n req.term req.leaderID) := by
      unfold followLeader
      dsimp only
      split
      · exact K.persistState (K.edit h rfl rfl rfl)
      · exact K.edit h rfl rfl rfl
    have happ : P (appendNew E (followLeader E n req.term req.leaderID) req) := by
      unfold appendNew
      dsimp only
      split
      · exact K.edit hfol rfl rfl rfl
      · refine K.persistLog ?_
        exact K.edit hfol rfl rfl rfl
    unfold Raft.handleAppendEntries
    split
    · exact h
    dsimp only
    split
    · exact hfol
    unfold updateCommit
    split
    · exact K.applyCommitted (K.edit happ rfl rfl rfl)
    · exact happ
  handleInstallSnapshot n req h hq _ := hinstall n req h hq
  receiveVote n req resp h _ := by
    unfold Raft.receiveVote
    split
    · exact h
    split
    · exact K.persistState (K.edit h rfl rfl rfl)
    split
    · unfold countVote becomeLeader
      dsimp only
      repeat' split
      all_goals exact K.edit h rfl rfl rfl
    · exact h
  receiveAppend n p req resp h _ := by
    unfold Raft.receiveAppend
    split
    · exact K.persistState (K.edit h rfl rfl rfl)
    split
    · exact h
    split
    · unfold advanceCommitIndex
      split
      · exact K.applyCommitted (K.edit h rfl rfl rfl)
      · exact K.edit h rfl rfl rfl
    · unfold backtrack
      repeat' split
      all_goals exact K.edit h rfl rfl rfl
  receiveSnapshot n p req resp h _ := by
    unfold Raft.receiveSnapshot
    split
    · exact K.persistState (K.edit h rfl rfl rfl)
    split <;> exact K.edit h rfl rfl rfl
  appendLocal n d h _ := by
    refine K.edit (n := Raft.persistLog E { n with log := n.log ++ [newEntry n d] } [newEntry n d]) ?_ rfl rfl rfl
    exact K.persistLog (K.edit h rfl rfl rfl)
  restart := hrestart

end Raft
