import ApiCerberus.Raft.Instances
import ApiCerberus.Raft.Local
import ApiCerberus.Raft.Log

/-!
# Contiguity of the log

Compaction moves the base of a log, and `HandleAppendEntries` turns an index into an offset by subtracting the base
(`node.go:919`). For `PrevLogIndex > 0` the prefix check guarantees that the index is not below the base
(`node.go:890`); for `PrevLogIndex = 0` the check is skipped, and a follower that has compacted its log appends the
entries of such a request behind its last entry, whatever their index is.
-/

namespace Raft

open Transition

variable {ι κ σ δ S : Type}

/-! ## The invariant -/

structure Placed (n : Node ι κ σ S) : Prop where
  log : Contiguous n.log
  next : ∀ p k, n.nextIndex p = some k → 1 ≤ k

/-- Requests carry the entries that follow `PrevLogIndex`. -/
def Rpc.Consecutive : Rpc ι κ δ → Prop
  | .append req => Indexed (req.prevLogIndex + 1) req.entries
  | _ => True

/-- A request with entries that is not of an older term starts at or behind the base of the receiver's log. -/
def AppendsInPlace (n : Node ι κ σ S) (req : AppendEntriesRequest ι κ) : Prop :=
  n.currentTerm ≤ req.term → req.entries ≠ [] → baseIndex n.log ≤ req.prevLogIndex + 1

/-- No node restarts, and every request is appended in place. -/
def inPlace : Guard ι κ σ δ S := { append := AppendsInPlace, restart := fun _ => False }

instance (n : Node ι κ σ S) (req : AppendEntriesRequest ι κ) : Decidable (AppendsInPlace n req) :=
  inferInstanceAs (Decidable (_ → _ → _))

instance : (inPlace : Guard ι κ σ δ S).Dec where
  append n req := inferInstanceAs (Decidable (AppendsInPlace n req))
  snapshot _ _ := isTrue trivial
  read _ _ := isTrue trivial
  restart _ := isFalse id

section
variable {E : Env ι κ σ δ S} {n : Node ι κ σ S}

theorem Placed.maybeSnapshot (h : Placed n) : Placed (maybeSnapshot E n) := by
  obtain ⟨storage, hn | hn⟩ := maybeSnapshot_cases E n <;> rw [hn]
  · exact ⟨h.log, h.next⟩
  · exact ⟨h.log.trimLog _ _, h.next⟩

theorem Placed.applyLoop (k : Nat) (h : Placed n) : Placed (applyLoop E k n) := by
  obtain ⟨fsm, applied, hn⟩ := applyLoop_eq E k n
  rw [hn]
  exact ⟨h.log, h.next⟩

theorem Placed.applyCommitted (h : Placed n) : Placed (applyCommitted E n) := (h.applyLoop _).maybeSnapshot

theorem Placed.followLeader (h : Placed n) (term : Nat) (leader : ι) : Placed (followLeader E n term leader) := by
  unfold Raft.followLeader
  dsimp only
  split <;> exact ⟨h.log, h.next⟩

theorem Placed.observeLeader (h : Placed n) (term : Nat) (leader : ι) : Placed (observeLeader E n term leader) := by
  unfold Raft.observeLeader
  dsimp only
  split <;> exact ⟨h.log, h.next⟩

theorem followLeader_log (E : Env ι κ σ δ S) (n : Node ι κ σ S) (term : Nat) (leader : ι) :
    (followLeader E n term leader).log = n.log := by
  unfold followLeader
  dsimp only
  split <;> rfl

theorem Placed.handleAppendEntries (h : Placed n) {req : AppendEntriesRequest ι κ}
    (hreq : Indexed (req.prevLogIndex + 1) req.entries) (hok : AppendsInPlace n req) :
    Placed (handleAppendEntries E n req).1 := by
  unfold Raft.handleAppendEntries
  split
  · exact h
  · rename_i hge
    have hm := h.followLeader (E := E) req.term req.leaderID
    dsimp only
    split
    · exact hm
    · rename_i hc
      have hnew : Placed (appendNew E (Raft.followLeader E n req.term req.leaderID) req) := by
        have hlog := hm.log.appendLoop hc hreq (fun hne => by rw [followLeader_log]; exact hok (by omega) hne) []
        unfold appendNew
        dsimp only
        split <;> exact ⟨hlog, hm.next⟩
      unfold updateCommit
      split
      · refine Placed.applyCommitted ?_
        exact ⟨hnew.log, hnew.next⟩
      · exact hnew

variable [DecidableEq ι]

theorem Placed.setNext (h : Placed n) {peer : ι} {k : Nat} (hk : 1 ≤ k) :
    ∀ p m, Function.update n.nextIndex peer (some k) p = some m → 1 ≤ m := by
  intro p m hm
  by_cases e : p = peer
  · subst e; simp at hm; omega
  · rw [Function.update_of_ne e] at hm; exact h.next p m hm

theorem Placed.becomeLeader (h : Placed n) : Placed (becomeLeader n) := by
  unfold Raft.becomeLeader
  split
  · exact h
  · refine ⟨h.log, fun p k hk => ?_⟩
    dsimp only at hk
    split at hk
    · cases hk; omega
    · exact h.next p k hk

theorem Placed.receiveVote (h : Placed n) (req : RequestVoteRequest ι) (resp : RequestVoteResponse) :
    Placed (receiveVote E n req resp) := by
  unfold Raft.receiveVote
  split
  · exact h
  · split
    · exact ⟨h.log, h.next⟩
    · split
      · unfold countVote
        dsimp only
        split
        · refine Placed.becomeLeader ?_
          exact ⟨h.log, h.next⟩
        · exact ⟨h.log, h.next⟩
      · exact h

theorem Placed.receiveAppend (h : Placed n) (peer : ι) (req : AppendEntriesRequest ι κ) (resp : AppendEntriesResponse) :
    Placed (receiveAppend E n peer req resp) := by
  unfold Raft.receiveAppend
  split
  · exact ⟨h.log, h.next⟩
  · split
    · exact h
    · split
      · have hr : Placed (recordMatch n peer (req.prevLogIndex + req.entries.length)) :=
          ⟨h.log, h.setNext (by omega)⟩
        unfold advanceCommitIndex
        split
        · refine Placed.applyCommitted ?_
          exact ⟨hr.log, hr.next⟩
        · exact hr
      · unfold backtrack
        split
        · rename_i hc; exact ⟨h.log, h.setNext hc.2⟩
        · split
          · exact ⟨h.log, h.setNext (by omega)⟩
          · exact h

variable [ByteSlice δ]

omit [DecidableEq ι] in
theorem Placed.replicateTo (h : Placed n) {peer : ι} {t m : Nat} {out : Outgoing ι κ δ}
    (hout : replicateTo E n peer t m = some out) : out.rpc.Consecutive := by
  obtain ⟨nextIdx, hnext, ⟨_, _, _, rfl⟩ | ⟨_, rfl⟩⟩ := replicateTo_cases hout
  · trivial
  · have hpos := h.next _ _ hnext
    show Indexed (nextIdx - 1 + 1) _
    rw [show nextIdx - 1 + 1 = nextIdx by omega]
    exact h.log.entriesFrom _ _

/-- Every handler leaves the log without gaps. -/
theorem placed_local (E : Env ι κ σ δ S) : Local E inPlace Placed Rpc.Consecutive where
  becomeCandidate _ h := ⟨h.log, h.next⟩
  vote _ _ := trivial
  heartbeat _ _ h := ⟨h.log, h.next⟩
  replicate _ _ := trivial
  replicateTo _ _ _ _ _ h _ hout _ := h.replicateTo hout
  handleRequestVote n req h _ := by
    refine ⟨?_, trivial⟩
    unfold Raft.handleRequestVote observeTerm
    dsimp only
    split
    · exact h
    · split <;> split <;> first | exact h | exact ⟨h.log, h.next⟩
  handleAppendEntries _ _ h hq hok := ⟨h.handleAppendEntries hq hok, trivial⟩
  handleInstallSnapshot n req h _ _ := by
    refine ⟨?_, trivial⟩
    have hm := h.observeLeader (E := E) req.term req.leaderID
    unfold Raft.handleInstallSnapshot
    split
    · exact h
    · dsimp only
      split
      · exact hm
      · rename_i m hr
        have hmm : Placed m := by
          unfold restoreFSM at hr
          split at hr
          · simp only [Option.map_eq_some_iff] at hr
            obtain ⟨_, _, rfl⟩ := hr
            exact ⟨hm.log, hm.next⟩
          · cases hr; exact hm
        exact ⟨hmm.log.installLog _ _, hmm.next⟩
  receiveVote _ _ _ h _ := h.receiveVote _ _
  receiveAppend _ _ _ _ h _ := h.receiveAppend _ _ _
  receiveSnapshot n peer req resp h _ := by
    unfold Raft.receiveSnapshot
    split
    · exact ⟨h.log, h.next⟩
    · split
      · exact ⟨h.log, h.setNext (by omega)⟩
      · exact h
  appendLocal n d h _ := ⟨h.log.snoc rfl, h.next⟩
  restart _ _ hr := absurd hr id

/-- **Contiguity**: as long as every accepted request with entries starts at or behind the base of the
receiver's log, `Log[k].Index = Log[0].Index + k` in every log of every reachable state. -/
theorem log_contiguous {c : Cluster ι κ σ δ S} (hc : Reach (system E) (inPlace.Allows E) c) (i : ι) :
    Contiguous (c.node i).log := by
  refine ((placed_local E).everywhere (fun i n h => ?_) hc).node i |>.log
  rw [h.new]
  exact ⟨contiguous_boundary 0 0, fun p k hk => by cases hk⟩

end

/-- Node a commits two entries, compacts its log and appends a third entry. -/
theorem log_contiguous_compacted :
    ∃ c, Reach (system (recorderEnv Trio Unit)) (inPlace.Allows (recorderEnv Trio Unit)) c ∧
      (c.node .a).log.map (·.index) = [2, 3] ∧ Contiguous (c.node .a).log := by
  have hrun : (execGuarded (recorderEnv Trio Unit) inPlace
    (boot (recorderEnv Trio Unit) [.a, .b, .c] ⟨10, 2⟩ (some newInmem))
      [.timeout .a, .deliver 0, .receive 0, .append .a (.ok ()), .append .a (.ok ()), .tick .a, .read 1, .deliver 1,
        .receive 1, .append .a (.ok ())]).map (fun c => (c.node .a).log.map (·.index)) =
          some [2, 3] := by decide +kernel
  obtain ⟨c, hc, hlog⟩ := Option.map_eq_some_iff.1 hrun
  have hreach := reach_of_exec (recorder_boot (by decide) (by decide) _) hc
  exact ⟨c, hreach, hlog, log_contiguous hreach .a⟩

/-! ## The request below the base -/

/-- Three nodes, compaction every two entries. Entries 1 and 2 are committed; nodes a and c compact
them, node b only learns of them. Node b gets entry 3 and wins term 2. Three rejections of requests
that were in flight together take `nextIndex` of node c from 4 down to 1, and node b, which has no
snapshot, sends its whole log to node c. -/
def belowBaseRun : List (Action Trio Unit) :=
  [.timeout .a, .deliver 0, .receive 0, .drop 0, .append .a (.ok ()), .append .a (.ok ()), .tick .a, .tick .a,
    .read 0, .deliver 0, .receive 0, .read 0, .deliver 0, .receive 0,
    .tick .a, .drop 1, .drop 1, .read 1, .deliver 1, .drop 1,
    .append .a (.ok ()), .read 0, .deliver 0, .drop 0,
    .timeout .b, .deliver 0, .receive 0, .drop 0,
    .tick .b, .tick .b, .tick .b, .drop 0, .drop 1, .drop 2, .read 0, .read 1, .read 2,
    .deliver 0, .deliver 1, .deliver 2, .receive 0, .receive 0, .receive 0,
    .tick .b, .drop 0, .read 0, .deliver 0]

/-- The log of node c then holds the boundary at index 2 followed by the entry with index 1. -/
theorem log_not_contiguous :
    ∃ c, Reach (system (recorderEnv Trio Unit)) (noRestart.Allows (recorderEnv Trio Unit)) c ∧
      (∀ i, (c.node i).config.snapshotThreshold = 2) ∧ ¬ Contiguous (c.node .c).log := by
  have hrun : (execGuarded (recorderEnv Trio Unit) noRestart
    (boot (recorderEnv Trio Unit) [.a, .b, .c] ⟨10, 2⟩ (some newInmem))
      belowBaseRun).map (fun c => (decide (∀ i, (c.node i).config.snapshotThreshold = 2),
        decide (Contiguous (c.node .c).log))) = some (true, false) := by decide +kernel
  obtain ⟨c, hc, hlog⟩ := Option.map_eq_some_iff.1 hrun
  simp only [Prod.mk.injEq, decide_eq_true_eq, decide_eq_false_iff_not] at hlog
  exact ⟨c, reach_of_exec (recorder_boot (by decide) (by decide) _) hc, hlog⟩

end Raft
