import ApiCerberus.Raft.Instances
import ApiCerberus.Raft.Local
import ApiCerberus.Raft.Simulation

/-!
# The order of the indices

The follower's rule looks at `LeaderCommit` before it assigns `min(LeaderCommit, PrevLogIndex + len(Entries))`
(`node.go:937-943`), so a request that reaches less far than what the follower has committed moves `CommitIndex` back,
below `LastApplied`. It takes a late answer to an old request, which lowers `nextIndex`, and more entries than fit into
one request.

If no accepted request does that, both indices only grow, and `LastApplied`, `CommitIndex` and the last index of the log
are in this order.
-/

namespace Raft

open Consensus Transition

variable {ι κ σ δ S : Type} [DecidableEq ι] [ByteSlice δ] {E : Env ι κ σ δ S} {n n' : Node ι κ σ S}
  {c c' : Cluster ι κ σ δ S}

/-- An accepted request that brings news of a commit reaches as far as the receiver has committed. -/
def Advances (n : Node ι κ σ S) (req : AppendEntriesRequest ι κ) : Prop :=
  n.currentTerm ≤ req.term → prevConflict n.log req.prevLogIndex req.prevLogTerm = none →
    n.commitIndex < req.leaderCommit → n.commitIndex ≤ req.prevLogIndex + req.entries.length

instance (n : Node ι κ σ S) (req : AppendEntriesRequest ι κ) : Decidable (Advances n req) :=
  inferInstanceAs (Decidable (_ → _ → _ → _))

/-- The requests fit the logs of their receivers, and none of them takes a commit back. -/
def advancing : Guard ι κ σ δ S where
  append n req := StartsAtBase n req ∧ Advances n req
  snapshot := BoundaryFits
  restart _ := False

instance : (advancing : Guard ι κ σ δ S).Dec where
  append n req := inferInstanceAs (Decidable (StartsAtBase n req ∧ Advances n req))
  snapshot n req := inferInstanceAs (Decidable (BoundaryFits n req))
  read _ _ := isTrue trivial
  restart _ := isFalse id

omit [DecidableEq ι] in
theorem consistent_of_advancing {act : Action ι κ} (h : advancing.Allows E c act) : consistent.Allows E c act :=
  h.weaken (fun _ _ happend => happend.1) (fun _ _ => id) (fun _ _ => id) fun _ => id

/-! ## The handlers -/

/-- `n'` has committed and applied at least what `n` has, and has not applied more than it has
committed, if `n` had not. -/
def Onwards (n n' : Node ι κ σ S) : Prop :=
  n.lastApplied ≤ n.commitIndex →
    n'.lastApplied ≤ n'.commitIndex ∧ n.commitIndex ≤ n'.commitIndex ∧ n.lastApplied ≤ n'.lastApplied

omit [DecidableEq ι] in
theorem Onwards.same (hc : n'.commitIndex = n.commitIndex) (ha : n'.lastApplied = n.lastApplied) : Onwards n n' := by
  intro h
  rw [hc, ha]
  exact ⟨h, le_refl _, le_refl _⟩

omit [DecidableEq ι] in
theorem Onwards.trans {n'' : Node ι κ σ S} (h : Onwards n n') (h' : Onwards n' n'') : Onwards n n'' := by
  intro h0
  obtain ⟨h1, h2, h3⟩ := h h0
  obtain ⟨h4, h5, h6⟩ := h' h1
  exact ⟨h4, h2.trans h5, h3.trans h6⟩

omit [DecidableEq ι] [ByteSlice δ] in
/-- `applyCommitted` brings `LastApplied` up to `CommitIndex`, wherever that is. -/
theorem applyCommitted_indices (n : Node ι κ σ S) :
    (applyCommitted E n).commitIndex = n.commitIndex ∧
      (applyCommitted E n).lastApplied = max n.lastApplied n.commitIndex := by
  obtain ⟨fsm, applied, hloop⟩ := applyLoop_eq E (n.commitIndex - n.lastApplied) n
  have hmax : n.lastApplied + (n.commitIndex - n.lastApplied) = max n.lastApplied n.commitIndex := by omega
  unfold applyCommitted
  obtain ⟨storage, hn | hn⟩ := maybeSnapshot_cases E (applyLoop E (n.commitIndex - n.lastApplied) n) <;>
    (rw [hn, hloop]; exact ⟨rfl, hmax⟩)

omit [DecidableEq ι] [ByteSlice δ] in
/-- A commit that is not taken back. -/
theorem onwards_commit {m : Node ι κ σ S} (hc : n.commitIndex ≤ m.commitIndex) (ha : m.lastApplied = n.lastApplied) :
    Onwards n (applyCommitted E m) := by
  intro h
  obtain ⟨h1, h2⟩ := applyCommitted_indices (E := E) m
  omega

omit [DecidableEq ι] [ByteSlice δ] in
theorem onwards_appendEntries (req : AppendEntriesRequest ι κ) (h : Advances n req) :
    Onwards n (handleAppendEntries E n req).1 := by
  unfold handleAppendEntries
  split
  · exact .same rfl rfl
  · rename_i hT
    have hfol : (followLeader E n req.term req.leaderID).log = n.log ∧
        (followLeader E n req.term req.leaderID).commitIndex = n.commitIndex ∧
        (followLeader E n req.term req.leaderID).lastApplied = n.lastApplied := by
      unfold followLeader
      dsimp only
      split <;> exact ⟨rfl, rfl, rfl⟩
    dsimp only
    split
    · exact .same hfol.2.1 hfol.2.2
    · rename_i hacc
      rw [hfol.1] at hacc
      have happ : (appendNew E (followLeader E n req.term req.leaderID) req).commitIndex = n.commitIndex ∧
          (appendNew E (followLeader E n req.term req.leaderID) req).lastApplied = n.lastApplied := by
        unfold appendNew
        dsimp only
        split <;> exact hfol.2
      unfold updateCommit
      split
      · rename_i hlt
        rw [happ.1] at hlt
        have := h (not_lt.1 hT) hacc hlt
        exact onwards_commit (le_min hlt.le this) happ.2
      · exact .same happ.1 happ.2

omit [DecidableEq ι] in
theorem onwards_installSnapshot (n : Node ι κ σ S) (req : InstallSnapshotRequest ι δ) :
    Onwards n (handleInstallSnapshot E n req).1 := by
  have hobs : (observeLeader E n req.term req.leaderID).commitIndex = n.commitIndex ∧
      (observeLeader E n req.term req.leaderID).lastApplied = n.lastApplied := by
    unfold observeLeader
    dsimp only
    split <;> exact ⟨rfl, rfl⟩
  unfold handleInstallSnapshot
  split
  · exact .same rfl rfl
  · dsimp only
    split
    · exact .same hobs.1 hobs.2
    · rename_i m hm
      have hres : m.commitIndex = n.commitIndex ∧ m.lastApplied = n.lastApplied := by
        unfold restoreFSM at hm
        split at hm
        · obtain ⟨f, _, rfl⟩ := Option.map_eq_some_iff.1 hm
          exact hobs
        · cases hm
          exact hobs
      intro h
      show max m.lastApplied _ ≤ max m.commitIndex _ ∧ _ ≤ max m.commitIndex _ ∧ _ ≤ max m.lastApplied _
      rw [hres.1, hres.2]
      omega

/-- No handler takes an index back. -/
theorem onwards_progress [Fintype ι] (E : Env ι κ σ δ S) : Progress E advancing Onwards where
  refl _ := .same rfl rfl
  trans _ _ _ := Onwards.trans
  becomeCandidate _ _ := .same rfl rfl
  heartbeat _ _ := .same rfl rfl
  handleRequestVote n req := by
    have hobs : (observeTerm E n req.term).commitIndex = n.commitIndex ∧
        (observeTerm E n req.term).lastApplied = n.lastApplied := by
      unfold observeTerm
      split <;> exact ⟨rfl, rfl⟩
    unfold handleRequestVote
    split
    · exact .same rfl rfl
    · dsimp only
      split <;> exact .same hobs.1 hobs.2
  handleAppendEntries _ req hok := onwards_appendEntries req hok.2
  handleInstallSnapshot n req _ := onwards_installSnapshot n req
  receiveVote n req resp := by
    unfold receiveVote
    split
    · exact .same rfl rfl
    · split
      · exact .same rfl rfl
      · split
        · unfold countVote
          dsimp only
          split
          · unfold becomeLeader
            split <;> exact .same rfl rfl
          · exact .same rfl rfl
        · exact .same rfl rfl
  receiveAppend n p req resp := by
    unfold receiveAppend
    split
    · exact .same rfl rfl
    · split
      · exact .same rfl rfl
      · split
        · unfold advanceCommitIndex
          split
          · rename_i idx hidx
            exact onwards_commit (scanCommit_some hidx).1.le rfl
          · exact .same rfl rfl
        · unfold backtrack
          split
          · exact .same rfl rfl
          · split <;> exact .same rfl rfl
  receiveSnapshot n p req resp := by
    unfold receiveSnapshot
    split
    · exact .same rfl rfl
    · split <;> exact .same rfl rfl
  appendLocal _ _ _ := .same rfl rfl
  restart _ hr := absurd hr id

/-! ## Runs -/

/-- **Order of the indices**: between any two states of a run whose steps are `advancing`, no
`CommitIndex` and no `LastApplied` goes down, and in each of them
`LastApplied ≤ CommitIndex ≤ lastLogIndex()`. -/
theorem indices_ordered [Fintype ι] (hc : Reach (system E) (advancing.Allows E) c)
    (hr : Run (system E) (advancing.Allows E) c c') (i : ι) :
    ((c.node i).commitIndex ≤ (c'.node i).commitIndex ∧ (c.node i).lastApplied ≤ (c'.node i).lastApplied) ∧
      (c'.node i).lastApplied ≤ (c'.node i).commitIndex ∧ (c'.node i).commitIndex ≤ lastLogIndex (c'.node i).log := by
  have hord : (c.node i).lastApplied ≤ (c.node i).commitIndex := by
    obtain ⟨c₀, h₀, hr₀⟩ := hc
    refine ((onwards_progress E).run hr₀ i ?_).1
    rw [(h₀.node i).new]
    exact le_refl _
  obtain ⟨h1, h2, h3⟩ := (onwards_progress E).run hr i hord
  refine ⟨⟨h2, h3⟩, h1, ?_⟩
  obtain ⟨a, h⟩ := exists_replicas (V := blind σ) False.elim
    ((hc.run hr).mono fun c act hok => sound_of_consistent (consistent_of_advancing hok))
  rw [(h.node i).log, lastLogIndex_window (h.indexed i) (h.base_le i)]
  exact h.inv.safe_le (h.node i).commit

/-- Three nodes that send one entry at a time. -/
def oneByOne : Cluster Trio Unit (List (LogEntry Unit)) (List (LogEntry Unit))
    (Inmem Trio Unit (List (LogEntry Unit))) :=
  boot (recorderEnv Trio Unit) [.a, .b, .c] ⟨1, 0⟩ (some newInmem)

/-- Node a commits an entry with node b. -/
theorem indices_ordered_firstCommit :
    ∃ c c', Reach (system (recorderEnv Trio Unit)) (advancing.Allows (recorderEnv Trio Unit)) c ∧
      Run (system (recorderEnv Trio Unit)) (advancing.Allows (recorderEnv Trio Unit)) c c' ∧
      (c'.node .a).commitIndex = 1 ∧ (c.node .a).commitIndex ≤ (c'.node .a).commitIndex := by
  have hrun : ((execGuarded (recorderEnv Trio Unit) advancing oneByOne
      [.timeout .a, .deliver 0, .receive 0, .append .a (.ok ()), .tick .a]).bind fun c =>
        (execGuarded (recorderEnv Trio Unit) advancing c [.read 1, .deliver 1, .receive 1]).map fun c' =>
          (c'.node .a).commitIndex) = some 1 := by decide +kernel
  obtain ⟨c, hc, hrun⟩ := Option.bind_eq_some_iff.1 hrun
  obtain ⟨c', hc', hcommit⟩ := Option.map_eq_some_iff.1 hrun
  have hreach := reach_of_exec (recorder_boot (by decide) (by decide) _) hc
  exact ⟨c, c', hreach, Run.of_exec _ hc', hcommit, (indices_ordered hreach (Run.of_exec _ hc') .a).1.1⟩

/-! ## The commit that is taken back -/

/-- Node a leads term 1; its first heartbeat to node b stays on its way. Three entries follow: node b
holds them and has committed two of them, node a all three. The answer to the old heartbeat sets
`nextIndex` of b to 1. -/
def lateAnswerRun : List (Action Trio Unit) :=
  [.timeout .a, .deliver 0, .receive 0, .drop 0, .tick .a, .drop 1, .read 0,
    .append .a (.ok ()), .append .a (.ok ()), .append .a (.ok ()),
    .tick .a, .drop 2, .read 1, .deliver 1, .receive 1,
    .tick .a, .drop 2, .read 1, .deliver 1, .receive 1,
    .tick .a, .drop 2, .read 1, .deliver 1, .receive 1,
    .deliver 0, .receive 0, .tick .a, .read 0]

/-- **`CommitIndex` goes down**, from 2 to 1, and is then less than `LastApplied`. -/
theorem commit_taken_back :
    ∃ c c', Reach (system (recorderEnv Trio Unit)) (noRestart.Allows (recorderEnv Trio Unit)) c ∧
      c.step (recorderEnv Trio Unit) (.deliver 0) = some c' ∧ (c.node .b).commitIndex = 2 ∧
      (c'.node .b).commitIndex = 1 ∧ (c'.node .b).lastApplied = 2 := by
  have hrun : ((execGuarded (recorderEnv Trio Unit) noRestart oneByOne lateAnswerRun).bind fun c =>
      (c.step (recorderEnv Trio Unit) (.deliver 0)).map fun c' =>
        decide ((c.node .b).commitIndex = 2 ∧ (c'.node .b).commitIndex = 1 ∧ (c'.node .b).lastApplied = 2)) =
      some true := by decide +kernel
  obtain ⟨c, hc, hrun⟩ := Option.bind_eq_some_iff.1 hrun
  obtain ⟨c', hs, hidx⟩ := Option.map_eq_some_iff.1 hrun
  exact ⟨c, c', reach_of_exec (recorder_boot (by decide) (by decide) _) hc, hs, of_decide_eq_true hidx⟩

end Raft
