import ApiCerberus.Consensus.LogMoves
import ApiCerberus.Raft.Election
import ApiCerberus.Raft.Window

/-!
# The replicated logs of a cluster

`LogRel c a` relates a cluster to the abstract replicated logs (`Consensus.Replicas`) it stands for.
The log of a node is a window of its full log, and everything the node may treat as committed is
`Safe`. The requests in flight are parts of logs that were read under a term the sender had won.

The relation also follows the state machines, as closely as a `View` asks for: not at all, or up to
a simulation between the state of a node and the replay of the entries its log stands for.
-/

namespace Raft

open Consensus

variable {ι κ σ δ S : Type}

/-! ## What is asked of the state machines -/

/-- `on`: the state machines are followed, up to `sim`. -/
structure View (σ : Type) where
  on : Prop
  sim : σ → σ → Prop

/-- The state after the entries `L`, applied to a fresh state machine in this order. -/
def replay (E : Env ι κ σ δ S) (L : List (LogEntry κ)) : σ := L.foldl E.fsm.apply E.fresh

/-- State `f` stands for the entries `L`. -/
def Shows (E : Env ι κ σ δ S) (V : View σ) (f : σ) (L : List (LogEntry κ)) : Prop := V.on → V.sim f (replay E L)

/-- A restore from `d` stands for the entries `L`. -/
def Holds (E : Env ι κ σ δ S) (V : View σ) (d : δ) (L : List (LogEntry κ)) : Prop :=
  ∀ f f', E.fsm.restore f d = some f' → Shows E V f' L

/-- The snapshot in a storage is the last one that was saved successfully. -/
structure Storage.KeepsSnapshot (st : Storage ι κ δ S) : Prop where
  saveState : ∀ s t v, st.loadSnapshot (st.saveState s t v) = st.loadSnapshot s
  saveLog : ∀ s es, st.loadSnapshot (st.saveLog s es) = st.loadSnapshot s
  saveSnapshot : ∀ s i t d, st.loadSnapshot (st.saveSnapshot s i t d).1 = some (i, t, d) ∨
    st.loadSnapshot (st.saveSnapshot s i t d).1 = st.loadSnapshot s

/-- The state machine respects the simulation, and a snapshot restores to what it was taken of. -/
structure View.Lawful (V : View σ) (E : Env ι κ σ δ S) : Prop where
  fresh : V.sim E.fresh E.fresh
  apply : ∀ f g e, V.sim f g → V.sim (E.fsm.apply f e) (E.fsm.apply g e)
  snapshot : ∀ f g d h f', V.sim f g → E.fsm.snapshot f = some d → E.fsm.restore h d = some f' → V.sim f' g
  storage : E.storage.KeepsSnapshot

section
variable {E : Env ι κ σ δ S} {V : View σ}

theorem Shows.snoc (hV : V.on → V.Lawful E) {f : σ} {L : List (LogEntry κ)} (h : Shows E V f L) (e : LogEntry κ) :
    Shows E V (E.fsm.apply f e) (L ++ [e]) := by
  intro hon
  rw [replay, List.foldl_append]
  exact (hV hon).apply f _ e (h hon)

theorem Shows.snapshot (hV : V.on → V.Lawful E) {f : σ} {L : List (LogEntry κ)} (h : Shows E V f L) {d : δ}
    (hd : E.fsm.snapshot f = some d) : Holds E V d L :=
  fun g f' hr hon => (hV hon).snapshot f _ d g f' (h hon) hd hr

end

/-! ## The relation -/

section
variable [Fintype ι] [ByteSlice δ] (E : Env ι κ σ δ S) (V : View σ) (a : Replicas ι (LogEntry κ))

/-- Node `n` is member `i` of the replicas `a`. -/
structure NodeL (i : ι) (n : Node ι κ σ S) : Prop where
  log : n.log = window (a.log i) (a.base i)
  commit : a.Safe i n.commitIndex
  applied : a.Safe i n.lastApplied
  base_le : a.base i ≤ n.lastApplied
  snap_le : n.lastSnapshotIndex ≤ n.lastApplied
  snap_term : n.lastSnapshotTerm = termAt (a.log i) n.lastSnapshotIndex
  snap_pos : 0 < a.base i → 0 < n.lastSnapshotIndex
  next : ∀ p k, n.nextIndex p = some k → 0 < k
  matched : n.state = .leader → ∀ p, p ≠ i →
    (n.matchIndex p).getD 0 ≤ a.ack p n.currentTerm ∨ (n.matchIndex p).getD 0 ≤ n.lastApplied
  applied_com : ∀ e ∈ n.applied, ∃ m, a.Committed m e
  committed_com : ∀ e ∈ n.committed, ∃ m, a.Committed m e
  fsm : Shows E V n.fsm ((a.log i).take n.lastApplied)
  stored : V.on → ∀ s, n.storage = some s → ∀ idx t d, E.storage.loadSnapshot s = some (idx, t, d) →
    0 < ByteSlice.len d → idx ≤ n.lastApplied ∧ Holds E V d ((a.log i).take idx)

/-- A request carries a part of the log `y`. -/
structure Slice (req : AppendEntriesRequest ι κ) (y : List (LogEntry κ)) : Prop where
  prev_le : req.prevLogIndex ≤ y.length
  prev_term : req.prevLogTerm = termAt y req.prevLogIndex
  entries : req.entries <+: y.drop req.prevLogIndex

/-- A snapshot request stands for the committed entries `P`. -/
structure Stands (req : InstallSnapshotRequest ι δ) (P : List (LogEntry κ)) : Prop where
  pos : 0 < req.lastIncludedIndex
  length : P.length = req.lastIncludedIndex
  settled : ∃ T, a.Settled T P P.length
  term : req.lastIncludedTerm = termAt P P.length
  data : Holds E V req.data P

/-- What the replicas must say for a call to be in flight; `k` is how far its caller has applied. A
request whose `PrevLogTerm` was not found carries 0 and is always rejected. -/
def CallL (k : Nat) (call : Call ι κ δ) : Prop :=
  match call.rpc with
  | .vote req => a.cand call.caller req.term = (req.lastLogTerm, req.lastLogIndex)
  | .voted _ _ => True
  | .replicate term commitIndex => a.Announced term commitIndex
  | .append req => a.Announced req.term req.leaderCommit ∧
      ((0 < req.prevLogIndex ∧ req.prevLogTerm = 0) ∨ ∃ y, a.sent req.term y ∧ Slice req y)
  | .appended req resp => resp.success = true → a.ballots.term call.caller = req.term →
      req.prevLogIndex + req.entries.length ≤ a.ack call.callee req.term
  | .snapshot req => req.lastIncludedIndex ≤ k ∧ ∃ P, Stands E V a req P
  | .installed req _ => req.lastIncludedIndex ≤ k

/-- The cluster and the replicas of the abstract log. -/
structure LogRel [DecidableEq ι] (c : Cluster ι κ σ δ S) : Prop where
  el : ElRel E c a.ballots
  inv : a.Inv
  index : ∀ T, Indexed 1 (a.llog T)
  node : ∀ i, NodeL E V a i (c.node i)
  call : ∀ call ∈ c.calls, CallL E V a (c.node call.caller).lastApplied call
  marked : ∀ m e, a.Committed m e → ∃ i, e ∈ (c.node i).committed

end

/-! ## Facts about one node -/

section
variable [DecidableEq ι] [Fintype ι] [ByteSlice δ] {E : Env ι κ σ δ S} {V : View σ} {a a' : Replicas ι (LogEntry κ)}
  {c : Cluster ι κ σ δ S} {i j : ι} {n n' : Node ι κ σ S}

theorem LogRel.canon_indexed (h : LogRel E V a c) {x : List (LogEntry κ)} (hx : a.Canon x) : Indexed 1 x := by
  intro k e he
  have hag := hx k e he k (by omega)
  exact h.index e.term k e (by rw [← he]; exact hag.symm)

theorem LogRel.indexed (h : LogRel E V a c) (i : ι) : Indexed 1 (a.log i) := h.canon_indexed (h.inv.log_canon i)

theorem LogRel.base_le (h : LogRel E V a c) (i : ι) : a.base i ≤ (a.log i).length :=
  h.inv.safe_le (Or.inl (le_refl _))

/-- Entries have positive terms. -/
theorem LogRel.termAt_pos (h : LogRel E V a c) {x : List (LogEntry κ)} (hx : a.Canon x) {k : Nat} (hk : 0 < k)
    (hle : k ≤ x.length) : 0 < termAt x k := by
  obtain ⟨m, rfl⟩ : ∃ m, k = m + 1 := ⟨k - 1, by omega⟩
  have he : x[m]? = some x[m] := List.getElem?_eq_getElem (by omega)
  rw [termAt_of_getElem? he]
  obtain ⟨l, hl⟩ := h.inv.canon_won hx he
  exact (h.inv.ballots.winner l _ hl).1

theorem LogRel.lastMark_log (h : LogRel E V a c) (i : ι) :
    lastMark (a.log i) = (lastLogTerm (c.node i).log, lastLogIndex (c.node i).log) := by
  rw [lastMark_eq, (h.node i).log, lastLogTerm_window (h.base_le i), lastLogIndex_window (h.indexed i) (h.base_le i)]

/-- A committed entry carries the index of its position. -/
theorem LogRel.committed_index (h : LogRel E V a c) {m : Nat} {e : LogEntry κ}
    (hc : a.Committed m e) : e.index = m + 1 := by
  obtain ⟨T, p, _, _, he⟩ := hc
  have := h.index T m e he
  omega

/-! ## Changes of one node -/

/-- `n'` differs from `n` in nothing the replication looks at. -/
structure Steady (E : Env ι κ σ δ S) (V : View σ) (n n' : Node ι κ σ S) : Prop where
  log : n'.log = n.log
  commitIndex : n'.commitIndex = n.commitIndex
  lastApplied : n'.lastApplied = n.lastApplied
  lastSnapshotIndex : n'.lastSnapshotIndex = n.lastSnapshotIndex
  lastSnapshotTerm : n'.lastSnapshotTerm = n.lastSnapshotTerm
  nextIndex : n'.nextIndex = n.nextIndex
  matchIndex : n'.matchIndex = n.matchIndex
  applied : n'.applied = n.applied
  committed : n'.committed = n.committed
  fsm : n'.fsm = n.fsm
  snapshot : V.on → n'.storage.map E.storage.loadSnapshot = n.storage.map E.storage.loadSnapshot

omit [DecidableEq ι] [Fintype ι] [ByteSlice δ] in
theorem Steady.refl (E : Env ι κ σ δ S) (V : View σ) (n : Node ι κ σ S) : Steady E V n n :=
  ⟨rfl, rfl, rfl, rfl, rfl, rfl, rfl, rfl, rfl, rfl, fun _ => rfl⟩

omit [DecidableEq ι] [Fintype ι] [ByteSlice δ] in
theorem Steady.persisted (hV : V.on → V.Lawful E) (h : Steady E V n n') : Steady E V n (persistState E n') :=
  { h with
    snapshot := fun hon => by
      rw [← h.snapshot hon]
      cases hs : n'.storage <;> simp [persistState, hs, (hV hon).storage.saveState] }

omit [DecidableEq ι] in
/-- A node that nothing happens to. -/
theorem NodeL.frame (h : NodeL E V a j n) (hinv : a.Inv) (g : a.Grows a') (hlog : a'.log j = a.log j)
    (hbase : a'.base j = a.base j) : NodeL E V a' j n where
  log := by rw [hlog, hbase]; exact h.log
  commit := hinv.safe_grow h.commit g hlog hbase.ge
  applied := hinv.safe_grow h.applied g hlog hbase.ge
  base_le := by rw [hbase]; exact h.base_le
  snap_le := h.snap_le
  snap_term := by rw [hlog]; exact h.snap_term
  snap_pos := by rw [hbase]; exact h.snap_pos
  next := h.next
  matched hl p hp := (h.matched hl p hp).imp (fun hm => hm.trans (g.ack p _)) id
  applied_com e he := by
    obtain ⟨m, hm⟩ := h.applied_com e he
    exact ⟨m, hinv.committed_grow hm g⟩
  committed_com e he := by
    obtain ⟨m, hm⟩ := h.committed_com e he
    exact ⟨m, hinv.committed_grow hm g⟩
  fsm := by rw [hlog]; exact h.fsm
  stored := by rw [hlog]; exact h.stored

omit [DecidableEq ι] [Fintype ι] in
/-- A node changes in nothing but its part in the election, and is no new leader. -/
theorem NodeL.steady (h : NodeL E V a i n) (s : Steady E V n n')
    (hl : n'.state = .leader → n.state = .leader ∧ n'.currentTerm = n.currentTerm) : NodeL E V a i n' where
  log := s.log.trans h.log
  commit := by rw [s.commitIndex]; exact h.commit
  applied := by rw [s.lastApplied]; exact h.applied
  base_le := by rw [s.lastApplied]; exact h.base_le
  snap_le := by rw [s.lastApplied, s.lastSnapshotIndex]; exact h.snap_le
  snap_term := by rw [s.lastSnapshotTerm, s.lastSnapshotIndex]; exact h.snap_term
  snap_pos := by rw [s.lastSnapshotIndex]; exact h.snap_pos
  next := by rw [s.nextIndex]; exact h.next
  matched hs p hp := by
    rw [s.matchIndex, s.lastApplied, (hl hs).2]
    exact h.matched (hl hs).1 p hp
  applied_com := by rw [s.applied]; exact h.applied_com
  committed_com := by rw [s.committed]; exact h.committed_com
  fsm := by rw [s.fsm, s.lastApplied]; exact h.fsm
  stored hon t ht := by
    have hs := s.snapshot hon
    rw [ht] at hs
    obtain ⟨t', ht', hload⟩ := Option.map_eq_some_iff.1 hs.symm
    rw [s.lastApplied, ← hload]
    exact h.stored hon t' ht'

omit [DecidableEq ι] [ByteSlice δ] in
theorem Stands.grow {req : InstallSnapshotRequest ι δ} {P : List (LogEntry κ)} (h : Stands E V a req P) (hinv : a.Inv)
    (g : a.Grows a') : Stands E V a' req P :=
  { h with settled := h.settled.imp fun _ hs => hinv.settled_grow hs g }

omit [DecidableEq ι] [ByteSlice δ] in
theorem CallL.grow {call : Call ι κ δ} {k k' : Nat} (h : CallL E V a k call) (hinv : a.Inv) (g : a.Grows a')
    (hb : call.rpc.Backed a.ballots call.caller call.callee) (hk : k ≤ k') : CallL E V a' k' call := by
  unfold CallL at h ⊢
  cases hrpc : call.rpc with
  | vote req =>
    rw [hrpc] at h hb
    exact (g.cand _ _ hb.2).trans h
  | voted req resp => trivial
  | replicate term commitIndex =>
    rw [hrpc] at h
    exact h.grow g
  | append req =>
    rw [hrpc] at h
    exact ⟨h.1.grow g, h.2.imp id fun ⟨y, hy, hs⟩ => ⟨y, g.sent _ y hy, hs⟩⟩
  | appended req resp =>
    rw [hrpc] at h hb
    intro hs ht
    -- the caller has been in the term it won, and terms only grow
    have hwon := (hinv.ballots.winner _ _ hb).2.1
    have hle := g.ballots.term call.caller
    exact (h hs (by omega)).trans (g.ack _ _)
  | snapshot req =>
    rw [hrpc] at h
    exact ⟨h.1.trans hk, h.2.imp fun P hP => hP.grow hinv g⟩
  | installed req resp =>
    rw [hrpc] at h
    exact le_trans h hk

/-- One node changes and the replicas move with it. -/
theorem LogRel.put (h : LogRel E V a (c.put i n)) (m : a.Moves i a') (el : ElRel E (c.put i n') a'.ballots)
    (inv : a'.Inv) (index : ∀ T, Indexed 1 (a'.llog T)) (hn : NodeL E V a' i n') (happ : n.lastApplied ≤ n'.lastApplied)
    (hcom : ∀ e ∈ n.committed, e ∈ n'.committed)
    (hmark : ∀ m e, a'.Committed m e → a.Committed m e ∨ e ∈ n'.committed) : LogRel E V a' (c.put i n') where
  el := el
  inv := inv
  index := index
  node j := by
    by_cases e : j = i
    · subst e; rw [Cluster.put_self]; exact hn
    · have hj := h.node j
      rw [Cluster.put_other c _ e] at hj ⊢
      exact hj.frame h.inv m.toGrows (m.frame j e).1 (m.frame j e).2
  call call hc := by
    refine (h.call call hc).grow h.inv m.toGrows (h.el.backed call hc) ?_
    by_cases e : call.caller = i
    · rw [e, Cluster.put_self, Cluster.put_self]; exact happ
    · rw [Cluster.put_other c _ e, Cluster.put_other c _ e]
  marked m e he := by
    rcases hmark m e he with h0 | h0
    · obtain ⟨j, hj⟩ := h.marked m e h0
      by_cases hji : j = i
      · subst hji
        rw [Cluster.put_self] at hj
        exact ⟨j, by rw [Cluster.put_self]; exact hcom e hj⟩
      · exact ⟨j, by rw [Cluster.put_other c _ hji] at hj ⊢; exact hj⟩
    · exact ⟨i, by rw [Cluster.put_self]; exact h0⟩

/-- The replicas only change in what a member votes, stores or has acknowledged. -/
theorem LogRel.put_same (h : LogRel E V a (c.put i n)) (m : a.Moves i a') (el : ElRel E (c.put i n') a'.ballots)
    (inv : a'.Inv) (hllog : a'.llog = a.llog) (hc : a'.com = a.com) (hn : NodeL E V a' i n')
    (happ : n.lastApplied ≤ n'.lastApplied) (hcom : ∀ e ∈ n.committed, e ∈ n'.committed) : LogRel E V a' (c.put i n') :=
  h.put m el inv (by rw [hllog]; exact h.index) hn happ hcom
    fun _ _ he => Or.inl (h.inv.committed_of_grows m.toGrows hc he)

/-- A change of the node that neither the election nor the replicas notice. -/
theorem LogRel.quiet (h : LogRel E V a (c.put i n)) (q : Quiet E n n') (hn : NodeL E V a i n')
    (happ : n.lastApplied ≤ n'.lastApplied) (hcom : n'.committed = n.committed) : LogRel E V a (c.put i n') := by
  have el := h.el.quiet (i := i) (n := n') (by rw [Cluster.put_self]; exact q)
  rw [Cluster.put_put] at el
  exact h.put_same (.refl i a) el h.inv rfl rfl hn happ (by rw [hcom]; exact fun _ => id)

theorem LogRel.self (h : LogRel E V a (c.put i n)) : NodeL E V a i n := by
  have := h.node i
  rwa [Cluster.put_self] at this

theorem LogRel.selfE (h : LogRel E V a (c.put i n)) : NodeE E a.ballots i n := by
  have := h.el.node i
  rwa [Cluster.put_self] at this

end

end Raft
