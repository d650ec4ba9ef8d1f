import ApiCerberus.Raft.Instances
import ApiCerberus.Raft.Local

/-!
# Entries of a later term

`sendHeartbeats` captures the term once (`node.go:395`), `replicateTo` copies the entries when it gets to run
(`node.go:478-514`). In between the node may have adopted entries of a newer leader; they then travel under the old
term, and a receiver that has not heard of the new term takes them. As long as no request with entries newer than itself
is accepted, no log runs ahead of its node.
-/

namespace Raft

open Transition

variable {ι κ σ δ S : Type} [DecidableEq ι] [ByteSlice δ] {E : Env ι κ σ δ S} {n : Node ι κ σ S}

/-- No entry of `log` is newer than term `T`. -/
def Bounded (log : List (LogEntry κ)) (T : Nat) : Prop := ∀ e ∈ log, e.term ≤ T

instance (log : List (LogEntry κ)) (T : Nat) : Decidable (Bounded log T) :=
  inferInstanceAs (Decidable (∀ e ∈ log, _))

/-- A request that is not of an older term carries nothing newer than itself, and nobody restarts. -/
def timely : Guard ι κ σ δ S where
  append n req := n.currentTerm ≤ req.term → Bounded req.entries req.term
  snapshot n req := n.currentTerm ≤ req.term → req.lastIncludedTerm ≤ req.term
  restart _ := False

instance : (timely : Guard ι κ σ δ S).Dec where
  append _ _ := inferInstanceAs (Decidable (_ → Bounded _ _))
  snapshot _ _ := inferInstanceAs (Decidable (_ → _ ≤ _))
  read _ _ := isTrue trivial
  restart _ := isFalse id

/-! ## Logs -/

section
variable {log es : List (LogEntry κ)} {T T' : Nat}

theorem Bounded.mono (h : Bounded log T) (hT : T ≤ T') : Bounded log T' := fun e he => (h e he).trans hT

theorem Bounded.append (h : Bounded log T) (h' : Bounded es T) : Bounded (log ++ es) T := fun e he =>
  (List.mem_append.1 he).elim (h e) (h' e)

theorem Bounded.sub (h : Bounded log T) (hs : es ⊆ log) : Bounded es T := fun e he => h e (hs he)

theorem Bounded.lastLogTerm (h : Bounded log T) : lastLogTerm log ≤ T := by
  unfold Raft.lastLogTerm
  cases hl : log.getLast? with
  | none => exact Nat.zero_le _
  | some e => exact h e (List.mem_of_getLast? hl)

theorem Bounded.entryAt (h : Bounded log T) {idx : Nat} {e : LogEntry κ}
    (he : entryAt log idx = some e) : e.term ≤ T := by
  unfold Raft.entryAt entryFrom at he
  split at he
  · exact h e (List.mem_of_getElem? he)
  · cases he

variable {term : Nat}

theorem Bounded.cut (h : Bounded log T) (ht : term ≤ T) (index k : Nat) :
    Bounded (boundary index term :: log.drop k) T := by
  intro e he
  rcases List.mem_cons.1 he with rfl | he
  · exact ht
  · exact h e (List.mem_of_mem_drop he)

theorem Bounded.trimLog (h : Bounded log T) (ht : term ≤ T) (index : Nat) :
    Bounded (trimLog log index term) T := by
  unfold Raft.trimLog
  split
  · exact h.cut ht index _
  · intro e he
    rw [List.mem_singleton.1 he]
    exact ht

theorem Bounded.snapshotTerm (h : Bounded log T) (index : Nat) : snapshotTerm log index ≤ T := by
  unfold Raft.snapshotTerm
  split
  · rename_i e he
    exact h.entryAt he
  · exact h.lastLogTerm

theorem Bounded.installLog (h : Bounded log T) (ht : term ≤ T) (index : Nat) :
    Bounded (installLog log index term) T := by
  unfold Raft.installLog
  split
  · intro e he
    rw [List.mem_singleton.1 he]
    exact ht
  · split
    · exact h.cut ht index _
    · exact h

/-- The append loop only uses what was in the log and in the request. -/
theorem Bounded.appendLoop (base : Nat) : ∀ (es : List (LogEntry κ)) {log : List (LogEntry κ)} (index : Nat)
    (new : List (LogEntry κ)), Bounded log T → Bounded es T → Bounded (appendLoop base index es (log, new)).1 T
  | [], log, index, new, h, _ => h
  | e :: es, log, index, new, h, hes => by
    have he : Bounded [e] T := hes.sub (by simp)
    have htl : Bounded es T := hes.sub (by simp)
    have hstep : Bounded (appendOne base index e (log, new)).1 T := by
      unfold appendOne
      split
      · split
        · exact (h.sub (List.take_subset _ _)).append he
        · exact h
      · exact h.append he
    exact Bounded.appendLoop base es (index + 1) (appendOne base index e (log, new)).2 hstep htl

end

/-! ## The handlers -/

/-- The log of `n` does not run ahead of its term. -/
def InTerm (n : Node ι κ σ S) : Prop := Bounded n.log n.currentTerm

omit [DecidableEq ι] [ByteSlice δ] in
theorem InTerm.maybeSnapshot (h : InTerm n) : InTerm (maybeSnapshot E n) := by
  obtain ⟨storage, hn | hn⟩ := maybeSnapshot_cases E n <;> rw [hn]
  · exact h
  · exact Bounded.trimLog h (Bounded.snapshotTerm h _) _

omit [DecidableEq ι] [ByteSlice δ] in
theorem InTerm.applyLoop (k : Nat) (h : InTerm n) : InTerm (applyLoop E k n) := by
  obtain ⟨fsm, applied, hn⟩ := applyLoop_eq E k n
  rw [hn]
  exact h

omit [DecidableEq ι] [ByteSlice δ] in
theorem InTerm.applyCommitted (h : InTerm n) : InTerm (applyCommitted E n) := (h.applyLoop _).maybeSnapshot

omit [DecidableEq ι] [ByteSlice δ] in
theorem InTerm.becomeFollower (h : InTerm n) {T : Nat} (hT : n.currentTerm ≤ T) : InTerm (becomeFollower E n T) :=
  Bounded.mono h hT

omit [ByteSlice δ] in
theorem InTerm.requestVote (h : InTerm n) (req : RequestVoteRequest ι) : InTerm (handleRequestVote E n req).1 := by
  have hobs : InTerm (observeTerm E n req.term) := by
    unfold observeTerm
    split
    · rename_i hT
      exact Bounded.mono h hT.le
    · exact h
  unfold handleRequestVote
  split
  · exact h
  · dsimp only
    split
    · exact hobs
    · exact hobs

omit [DecidableEq ι] [ByteSlice δ] in
theorem InTerm.followLeader (h : InTerm n) {T : Nat} (hT : n.currentTerm ≤ T) (l : ι) :
    InTerm (followLeader E n T l) ∧ (followLeader E n T l).currentTerm = T := by
  unfold Raft.followLeader
  dsimp only
  split
  · exact ⟨Bounded.mono h hT, rfl⟩
  · rename_i hs
    exact ⟨h, le_antisymm hT (not_lt.1 (not_or.1 hs).1)⟩

omit [DecidableEq ι] [ByteSlice δ] in
theorem InTerm.appendEntries (h : InTerm n) (req : AppendEntriesRequest ι κ)
    (hreq : n.currentTerm ≤ req.term → Bounded req.entries req.term) : InTerm (handleAppendEntries E n req).1 := by
  unfold handleAppendEntries
  split
  · exact h
  · rename_i hT
    rw [not_lt] at hT
    obtain ⟨hfol, hterm⟩ := h.followLeader (E := E) hT req.leaderID
    dsimp only
    split
    · exact hfol
    · have happ : InTerm (appendNew E (Raft.followLeader E n req.term req.leaderID) req) := by
        have hlog := Bounded.appendLoop (baseIndex (Raft.followLeader E n req.term req.leaderID).log) req.entries
          (req.prevLogIndex + 1) [] hfol (by rw [hterm]; exact hreq hT)
        unfold appendNew
        dsimp only
        split <;> exact hlog
      unfold updateCommit
      split
      · exact InTerm.applyCommitted happ
      · exact happ

omit [DecidableEq ι] in
theorem InTerm.installSnapshot (h : InTerm n) (req : InstallSnapshotRequest ι δ)
    (hreq : n.currentTerm ≤ req.term → req.lastIncludedTerm ≤ req.term) : InTerm (handleInstallSnapshot E n req).1 := by
  unfold handleInstallSnapshot
  split
  · exact h
  · rename_i hT
    rw [not_lt] at hT
    have hobs : InTerm (observeLeader E n req.term req.leaderID) ∧
        (observeLeader E n req.term req.leaderID).currentTerm = req.term := by
      unfold observeLeader
      dsimp only
      split
      · exact ⟨Bounded.mono h hT, rfl⟩
      · rename_i hs
        exact ⟨h, le_antisymm hT (not_lt.1 hs)⟩
    dsimp only
    split
    · exact hobs.1
    · rename_i m hm
      have hsame : m.log = (observeLeader E n req.term req.leaderID).log ∧
          m.currentTerm = (observeLeader E n req.term req.leaderID).currentTerm := by
        unfold restoreFSM at hm
        split at hm
        · obtain ⟨f, _, rfl⟩ := Option.map_eq_some_iff.1 hm
          exact ⟨rfl, rfl⟩
        · cases hm
          exact ⟨rfl, rfl⟩
      have hb : Bounded m.log m.currentTerm := by
        rw [hsame.1, hsame.2]
        exact hobs.1
      exact Bounded.installLog hb (by rw [hsame.2, hobs.2]; exact hreq hT) _

/-- No handler takes an entry of a later term. -/
theorem inTerm_local (E : Env ι κ σ δ S) : Local E timely InTerm (fun _ : Rpc ι κ δ => True) where
  becomeCandidate _ h := Bounded.mono h (Nat.le_succ _)
  vote _ _ := trivial
  heartbeat _ _ h := h
  replicate _ _ := trivial
  replicateTo _ _ _ _ _ _ _ _ _ := trivial
  handleRequestVote _ req h _ := ⟨h.requestVote req, trivial⟩
  handleAppendEntries _ req h _ hok := ⟨h.appendEntries req hok, trivial⟩
  handleInstallSnapshot _ req h _ hok := ⟨h.installSnapshot req hok, trivial⟩
  receiveVote n req resp h _ := by
    unfold receiveVote
    split
    · exact h
    · split
      · exact h.becomeFollower (le_of_lt ‹_›)
      · split
        · unfold countVote
          dsimp only
          split
          · unfold becomeLeader
            split <;> exact h
          · exact h
        · exact h
  receiveAppend n p req resp h _ := by
    unfold receiveAppend
    split
    · exact h.becomeFollower (le_of_lt ‹_›)
    · split
      · exact h
      · split
        · unfold advanceCommitIndex
          split
          · exact InTerm.applyCommitted h
          · exact h
        · unfold backtrack
          split
          · exact h
          · split <;> exact h
  receiveSnapshot n p req resp h _ := by
    unfold receiveSnapshot
    split
    · exact h.becomeFollower (le_of_lt ‹_›)
    · split <;> exact h
  appendLocal n d h _ := by
    refine Bounded.append h fun e he => ?_
    rw [List.mem_singleton.1 he]
    exact le_refl _
  restart _ _ hr := absurd hr id

/-- **No entry from the future**: as long as no accepted request is older than what it carries, every
entry in the log of a node has at most the node's term. -/
theorem entries_in_term {c : Cluster ι κ σ δ S} (hc : Reach (system E) (timely.Allows E) c) (i : ι) {e : LogEntry κ}
    (he : e ∈ (c.node i).log) : e.term ≤ (c.node i).currentTerm := by
  refine ((inTerm_local E).everywhere (fun i n h => ?_) hc).node i e he
  rw [h.new]
  intro e he
  rw [List.mem_singleton.1 he]
  exact le_refl _

/-- Node b follows node a in term 1 and holds its entry. -/
theorem entries_in_term_follower :
    ∃ c, Reach (system (recorderEnv Trio Unit)) (timely.Allows (recorderEnv Trio Unit)) c ∧
      ⟨1, 1, some ()⟩ ∈ (c.node .b).log ∧ 1 ≤ (c.node .b).currentTerm := by
  have hrun : (execGuarded (recorderEnv Trio Unit) timely
    (boot (recorderEnv Trio Unit) [.a, .b, .c] ⟨10, 0⟩ (some newInmem))
      [.timeout .a, .deliver 0, .receive 0, .append .a (.ok ()), .tick .a, .read 1, .deliver 1]).map
        (fun c => decide (⟨1, 1, some ()⟩ ∈ (c.node .b).log)) = some true := by decide +kernel
  obtain ⟨c, hc, hlog⟩ := Option.map_eq_some_iff.1 hrun
  have hreach := reach_of_exec (recorder_boot (by decide) (by decide) _) hc
  have hmem := of_decide_eq_true hlog
  exact ⟨c, hreach, hmem, entries_in_term hreach .b hmem⟩

/-! ## The request under the old term -/

/-- Node a leads term 1 and starts a round of replication. Before its goroutine for node c reads
anything, node b wins term 2 with the vote of a, appends an entry and sends it to a. The goroutine
then sends this entry to node c under term 1. -/
def oldTermRun : List (Action Trio Unit) :=
  [.timeout .a, .deliver 0, .receive 0, .deliver 0, .drop 0, .tick .a,
    .timeout .b, .deliver 2, .receive 2, .append .b (.ok ()), .tick .b, .read 3, .deliver 3,
    .read 1, .deliver 1]

/-- **An entry of term 2 in a log of term 1.** -/
theorem entry_from_future :
    ∃ c, Reach (system (recorderEnv Trio Unit)) (noRestart.Allows (recorderEnv Trio Unit)) c ∧
      (c.node .c).currentTerm = 1 ∧ ∃ e ∈ (c.node .c).log, e.term = 2 := by
  have hrun : (execGuarded (recorderEnv Trio Unit) noRestart
      (boot (recorderEnv Trio Unit) [.a, .b, .c] ⟨10, 0⟩ (some newInmem)) oldTermRun).map
        (fun c => decide ((c.node .c).currentTerm = 1 ∧ ∃ e ∈ (c.node .c).log, e.term = 2)) = some true := by
    decide +kernel
  obtain ⟨c, hc, hlog⟩ := Option.map_eq_some_iff.1 hrun
  exact ⟨c, reach_of_exec (recorder_boot (by decide) (by decide) _) hc, of_decide_eq_true hlog⟩

end Raft
