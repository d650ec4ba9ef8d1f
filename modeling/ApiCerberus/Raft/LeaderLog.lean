import ApiCerberus.Raft.Safety

/-!
# A leader only appends

`HandleAppendEntries` and `HandleInstallSnapshot` do not check whether the receiver leads the term of the request. The
first makes a leader step down in the same critical section, whatever the term (`node.go:876`); the second does not
(`node.go:965`), but without compaction there are no snapshots to install. So a node that stays leader has only
appended; restarts are allowed, with any storage or none.
-/

namespace Raft

open Transition

variable {ι κ σ δ S : Type} [DecidableEq ι] [ByteSlice δ] {E : Env ι κ σ δ S} {c c' : Cluster ι κ σ δ S} {i : ι}
  {n : Node ι κ σ S}

/-! ## What a step does to one node -/

/-- All that a step may do to one node. -/
inductive NodeStep (E : Env ι κ σ δ S) (c : Cluster ι κ σ δ S) (i : ι) : Node ι κ σ S → Prop
  | same : NodeStep E c i (c.node i)
  | heartbeat (h : Heartbeat) : NodeStep E c i { c.node i with heartbeat := h }
  | candidate (hl : (c.node i).state ≠ .leader) : NodeStep E c i (becomeCandidate E (c.node i))
  | requestVote (req : RequestVoteRequest ι) : NodeStep E c i (handleRequestVote E (c.node i) req).1
  | appendEntries (req : AppendEntriesRequest ι κ) : NodeStep E c i (handleAppendEntries E (c.node i) req).1
  | installSnapshot {call : Call ι κ δ} (hc : call ∈ c.calls) {req : InstallSnapshotRequest ι δ}
      (hr : call.rpc = .snapshot req) : NodeStep E c i (handleInstallSnapshot E (c.node i) req).1
  | voted (req : RequestVoteRequest ι) (resp : RequestVoteResponse) : NodeStep E c i (receiveVote E (c.node i) req resp)
  | appended (peer : ι) (req : AppendEntriesRequest ι κ) (resp : AppendEntriesResponse) :
      NodeStep E c i (receiveAppend E (c.node i) peer req resp)
  | installed {call : Call ι κ δ} (hc : call ∈ c.calls) (peer : ι) {req : InstallSnapshotRequest ι δ}
      {resp : InstallSnapshotResponse} (hr : call.rpc = .installed req resp) :
      NodeStep E c i (receiveSnapshot E (c.node i) peer req resp)
  | append (d : κ) : NodeStep E c i (appendLocal E (c.node i) d)
  | restart : NodeStep E c i (restart E (c.node i))

omit [DecidableEq ι] in
theorem Guard.allows_all (c : Cluster ι κ σ δ S) (act : Action ι κ) : ({} : Guard ι κ σ δ S).Allows E c act := by
  cases act with
  | deliver k => intro call _; cases call.rpc <;> trivial
  | read k => intro call _; cases call.rpc <;> first | trivial | exact fun _ _ => trivial
  | _ => trivial

theorem step_node {act : Action ι κ} (hs : c.step E act = some c') : ∀ i, NodeStep E c i (c'.node i) :=
  step_rule (Guard.allows_all c act) hs (fun _ => .same) (fun _ => .heartbeat) (fun _ => .candidate)
    (fun _ => .requestVote)
    (fun _ req _ => .appendEntries req) (fun _ _ hc _ hr _ => .installSnapshot hc hr) (fun _ => .voted)
      (fun _ => .appended)
    (fun _ _ hc p _ _ hr => .installed hc p hr) (fun _ d _ => .append d) fun _ _ => .restart

/-! ## A node that stays leader -/

/-- `n'` has the term of `n` and at least its log. -/
structure Extends (n n' : Node ι κ σ S) : Prop where
  currentTerm : n'.currentTerm = n.currentTerm
  log : n.log <+: n'.log

omit [DecidableEq ι] in
theorem Extends.refl (n : Node ι κ σ S) : Extends n n := ⟨rfl, List.prefix_refl _⟩

omit [DecidableEq ι] in
theorem Extends.trans {n n' n'' : Node ι κ σ S} (h : Extends n n') (h' : Extends n' n'') : Extends n n'' :=
  ⟨h'.currentTerm.trans h.currentTerm, h.log.trans h'.log⟩

omit [DecidableEq ι] [ByteSlice δ] in
theorem applyLoop_log (k : Nat) (n : Node ι κ σ S) : (applyLoop E k n).log = n.log := by
  obtain ⟨fsm, applied, hn⟩ := applyLoop_eq E k n
  rw [hn]

omit [ByteSlice δ] in
/-- Without compaction, committing does not touch the log. -/
theorem advanceCommitIndex_log (hT : n.config.snapshotThreshold = 0) : (advanceCommitIndex E n).log = n.log := by
  unfold advanceCommitIndex
  split
  · unfold applyCommitted
    rw [maybeSnapshot_off (by rw [(quiet_applyLoop E _ _).config]; exact hT), applyLoop_log]
    rfl
  · rfl

omit [ByteSlice δ] in
theorem extends_requestVote (n : Node ι κ σ S) (req : RequestVoteRequest ι)
    (hs : (handleRequestVote E n req).1.state = .leader) : Extends n (handleRequestVote E n req).1 := by
  have hobs : (observeTerm E n req.term).state = .leader → Extends n (observeTerm E n req.term) := by
    unfold observeTerm
    split
    · intro h; cases h
    · exact fun _ => .refl n
  unfold handleRequestVote at hs ⊢
  split at hs
  · rw [if_pos ‹_›]
    exact .refl n
  · rw [if_neg ‹_›]
    dsimp only at hs ⊢
    split at hs
    · rw [if_pos ‹_›]
      exact ⟨(hobs hs).currentTerm, (hobs hs).log⟩
    · rw [if_neg ‹_›]
      exact hobs hs

omit [DecidableEq ι] [ByteSlice δ] in
/-- An accepted request makes any node a follower. -/
theorem extends_appendEntries (n : Node ι κ σ S) (req : AppendEntriesRequest ι κ)
    (hs : (handleAppendEntries E n req).1.state = .leader) : Extends n (handleAppendEntries E n req).1 := by
  have hfol : (followLeader E n req.term req.leaderID).state = .follower := by
    unfold followLeader
    dsimp only
    split
    · rfl
    · rename_i h
      simpa using (not_or.1 h).2
  unfold handleAppendEntries at hs ⊢
  split at hs
  · rw [if_pos ‹_›]
    exact .refl n
  · exfalso
    dsimp only at hs
    split at hs
    · rw [hfol] at hs; cases hs
    · rw [((quiet_appendNew E _ req).trans (quiet_updateCommit E _ req)).state, hfol] at hs
      cases hs

omit [ByteSlice δ] in
theorem extends_receiveAppend (hT : n.config.snapshotThreshold = 0) (peer : ι) (req : AppendEntriesRequest ι κ)
    (resp : AppendEntriesResponse) (hs : (receiveAppend E n peer req resp).state = .leader) :
    Extends n (receiveAppend E n peer req resp) := by
  unfold receiveAppend at hs ⊢
  split at hs
  · cases hs
  · rw [if_neg ‹_›]
    split
    · exact .refl n
    · split
      · refine ⟨(quiet_advanceCommitIndex E _).currentTerm, ?_⟩
        rw [advanceCommitIndex_log (n := recordMatch n peer (req.prevLogIndex + req.entries.length)) hT]
        exact List.prefix_refl _
      · refine ⟨(quiet_backtrack E n peer resp).currentTerm, ?_⟩
        unfold backtrack
        split
        · exact List.prefix_refl _
        · split <;> exact List.prefix_refl _

omit [DecidableEq ι] in
theorem restart_state (n : Node ι κ σ S) : (restart E n).state = .follower := by
  have hload : (loadState E (newNode E n.id n.config n.peers n.storage)).state = .follower := by
    unfold loadState
    split <;> rfl
  have q := (quiet_loadLog E _).trans
    (quiet_loadSnapshot E (loadLog E (loadState E (newNode E n.id n.config n.peers n.storage))))
  exact q.state.trans hload

/-- One step of a node that leads before and after it. -/
theorem NodeStep.extends_leader (h : NodeStep E c i n) (hu : (c.node i).config.snapshotThreshold = 0)
    (hq : ∀ call ∈ c.calls, call.rpc.NoSnapshot) (hl : (c.node i).state = .leader) (hs : n.state = .leader) :
    Extends (c.node i) n := by
  cases h with
  | same => exact .refl _
  | heartbeat h => exact ⟨rfl, List.prefix_refl _⟩
  | candidate hne => exact absurd hl hne
  | requestVote req => exact extends_requestVote _ req hs
  | appendEntries req => exact extends_appendEntries _ req hs
  | installSnapshot hc hr =>
    have := hq _ hc
    rw [hr] at this
    exact this.elim
  | voted req resp =>
    unfold receiveVote
    rw [if_pos (Or.inl (by rw [hl]; simp))]
    exact .refl _
  | appended peer req resp => exact extends_receiveAppend hu peer req resp hs
  | installed hc peer hr =>
    have := hq _ hc
    rw [hr] at this
    exact this.elim
  | append d => exact ⟨rfl, List.prefix_append _ _⟩
  | restart => rw [restart_state] at hs; cases hs

/-- **Leader append-only**: from any state of a run in which node `i` leads, up to any later state
with node `i` leading all the way, the log of `i` only grows; the term is the same. -/
theorem leader_append_only (hE : E.storage.KeepsSnapshot) {c₀ : Cluster ι κ σ δ S} (h₀ : Cluster.Init E c₀)
    (hT : ∀ i, (c₀.node i).config.snapshotThreshold = 0) (hr : Run (system E) (fun _ _ => True) c₀ c)
    (hlead : Run (system E) (fun c _ => (c.node i).state = .leader) c c') (hl : (c'.node i).state = .leader) :
    (c'.node i).currentTerm = (c.node i).currentTerm ∧ (c.node i).log <+: (c'.node i).log := by
  have hlocal : Local E ({} : Guard ι κ σ δ S) (Unsnapped E True) Rpc.NoSnapshot :=
    unsnapped_local (fun _ => hE) fun _ _ => trivial
  have hno := hlocal.run (unsnapped_init h₀ hT) (hr.mono fun c act _ => Guard.allows_all c act)
  have hext : Everywhere (Unsnapped E True) Rpc.NoSnapshot c' ∧ Extends (c.node i) (c'.node i) := by
    clear h₀ hr
    induction hlead with
    | refl => exact ⟨hno, .refl _⟩
    | tail hrun hok hs ih =>
      obtain ⟨hno', hext⟩ := ih hok
      exact ⟨hlocal.step hno' (Guard.allows_all _ _) hs,
        hext.trans ((step_node hs i).extends_leader (hno'.node i).threshold hno'.call hok hl)⟩
  exact ⟨hext.2.currentTerm, hext.2.log⟩

omit [DecidableEq ι] [ByteSlice δ] in
theorem inmem_keepsSnapshot : (inmemStorage : Storage ι κ δ _).KeepsSnapshot :=
  ⟨fun _ _ _ => rfl, fun _ _ => rfl, fun _ _ _ _ => Or.inl rfl⟩

/-- Node a appends two entries while it leads term 1. -/
theorem leader_append_only_firstTerm :
    ∃ c c', Run (system (recorderEnv Trio Unit)) (fun c _ => (c.node .a).state = .leader) c c' ∧
      (c'.node .a).state = .leader ∧ (c.node .a).log.length = 1 ∧ (c'.node .a).log.length = 3 ∧
      (c.node .a).log <+: (c'.node .a).log := by
  have hrun : ((system (recorderEnv Trio Unit)).exec (fun _ _ => True) uncompacted
      [.timeout .a, .deliver 0, .receive 0]).bind (fun c =>
        ((system (recorderEnv Trio Unit)).exec (fun c _ => (c.node .a).state = .leader) c
          [.append .a (.ok ()), .append .a (.ok ())]).map fun c' =>
            decide ((c'.node .a).state = .leader ∧ (c.node .a).log.length = 1 ∧ (c'.node .a).log.length = 3)) =
      some true := by decide +kernel
  obtain ⟨c, hc, hrun⟩ := Option.bind_eq_some_iff.1 hrun
  obtain ⟨c', hc', hlog⟩ := Option.map_eq_some_iff.1 hrun
  obtain ⟨hl, h1, h3⟩ := of_decide_eq_true hlog
  have hlead := Run.of_exec _ hc'
  exact ⟨c, c', hlead, hl, h1, h3,
    (leader_append_only inmem_keepsSnapshot uncompacted_init (fun _ => rfl) (Run.of_exec _ hc) hlead hl).2⟩

end Raft
