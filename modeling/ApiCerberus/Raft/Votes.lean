import ApiCerberus.Raft.Election
import ApiCerberus.Raft.Local

/-!
# One vote per term

`HandleRequestVote` grants a vote only if `VotedFor` is empty or names the same candidate (`node.go:847`).
`HandleAppendEntries` empties it whenever the receiver is not a follower, also if the request has the receiver's own
term (`node.go:876-881`). A candidate that has lost its term to another leader can therefore vote again in that term. As
long as this branch is not taken, a node names one candidate per term.
-/

namespace Raft

open Transition

variable {ι κ σ δ S : Type} [DecidableEq ι] [ByteSlice δ] {E : Env ι κ σ δ S} {n n' : Node ι κ σ S}
  {c c' : Cluster ι κ σ δ S}

/-- The term and the candidate a step makes node `i` vote for: a candidacy of its own, or a request it
grants. -/
def Cluster.voteCast (E : Env ι κ σ δ S) (c : Cluster ι κ σ δ S) (i : ι) : Action ι κ → Option (Nat × ι)
  | .timeout j =>
    if j = i ∧ (c.node i).state ≠ .leader then some ((becomeCandidate E (c.node i)).currentTerm, (c.node i).id)
      else none
  | .deliver k =>
    c.calls[k]?.bind fun call =>
      match call.rpc with
      | .vote req =>
        let r := handleRequestVote E (c.node i) req
        if call.callee = i ∧ r.2.voteGranted then some (r.1.currentTerm, req.candidateID) else none
      | _ => none
  | _ => none

/-- No candidate or leader accepts a request of its own term, and nobody restarts. -/
def keepsVote : Guard ι κ σ δ S where
  append n req := n.state ≠ .follower → n.currentTerm ≠ req.term
  restart _ := False

instance : (keepsVote : Guard ι κ σ δ S).Dec where
  append _ _ := inferInstanceAs (Decidable (_ → _))
  snapshot _ _ := isTrue trivial
  read _ _ := isTrue trivial
  restart _ := isFalse id

/-- Node `n` can vote for nobody but `d` in term `T`. -/
def Spent (T : Nat) (d : ι) (n : Node ι κ σ S) : Prop :=
  T < n.currentTerm ∨ (n.currentTerm = T ∧ n.votedFor = some d)

/-- `n'` is bound by every vote of `n`. -/
def KeepsVotes (n n' : Node ι κ σ S) : Prop := ∀ T d, Spent T d n → Spent T d n'

/-! ## The handlers -/

omit [DecidableEq ι] in
theorem KeepsVotes.same (ht : n'.currentTerm = n.currentTerm) (hv : n'.votedFor = n.votedFor) : KeepsVotes n n' := by
  intro T d h
  rwa [Spent, ht, hv]

omit [DecidableEq ι] in
theorem KeepsVotes.raise (ht : n.currentTerm < n'.currentTerm) : KeepsVotes n n' := by
  rintro T d (h | ⟨h, -⟩)
  · exact Or.inl (h.trans ht)
  · exact Or.inl (h ▸ ht)

variable {T : Nat}

omit [DecidableEq ι] [ByteSlice δ] in
theorem observeTerm_term (n : Node ι κ σ S) (h : n.currentTerm ≤ T) : (observeTerm E n T).currentTerm = T := by
  unfold observeTerm
  split
  · rfl
  · rename_i hT
    exact le_antisymm h (not_lt.1 hT)

omit [ByteSlice δ] in
/-- A granted request is recorded, and it is not the second of its term. -/
theorem granted_spent (req : RequestVoteRequest ι) (hg : (handleRequestVote E n req).2.voteGranted = true) :
    Spent (handleRequestVote E n req).1.currentTerm req.candidateID (handleRequestVote E n req).1 ∧
      ∀ d, Spent (handleRequestVote E n req).1.currentTerm d n → d = req.candidateID := by
  unfold handleRequestVote at hg ⊢
  split at hg
  · cases hg
  · rename_i hT
    rw [not_lt] at hT
    dsimp only at hg ⊢
    split at hg
    · rename_i hmay
      rw [if_neg (not_lt.2 hT), if_pos hmay]
      have hterm := observeTerm_term (E := E) n hT
      refine ⟨Or.inr ⟨rfl, rfl⟩, fun d hd => ?_⟩
      have hd : Spent (observeTerm E n req.term).currentTerm d n := hd
      rw [hterm] at hd
      rcases hd with hd | ⟨hsame, hvote⟩
      · exact absurd hd (not_lt.2 hT)
      · have hobs : observeTerm E n req.term = n := by
          unfold observeTerm
          rw [if_neg (by omega)]
        rw [hobs] at hmay
        simp only [mayVote, Bool.and_eq_true, decide_eq_true_eq, hvote, reduceCtorEq, false_or,
          Option.some.injEq] at hmay
        exact hmay.1
    · cases hg

omit [ByteSlice δ] in
theorem keepsVotes_requestVote (n : Node ι κ σ S) (req : RequestVoteRequest ι) :
    KeepsVotes n (handleRequestVote E n req).1 := by
  by_cases hg : (handleRequestVote E n req).2.voteGranted = true
  · obtain ⟨hspent, honly⟩ := granted_spent req hg
    intro T d hd
    rcases lt_trichotomy T (handleRequestVote E n req).1.currentTerm with hT | rfl | hT
    · exact Or.inl hT
    · rw [honly d hd]
      exact hspent
    · -- the term of the node does not go down
      exfalso
      have hle : n.currentTerm ≤ (handleRequestVote E n req).1.currentTerm := by
        unfold handleRequestVote at hg ⊢
        split at hg
        · cases hg
        · rename_i hreq
          rw [not_lt] at hreq
          rw [if_neg (not_lt.2 hreq)]
          dsimp only
          split
          · exact hreq.trans_eq (observeTerm_term n hreq).symm
          · exact hreq.trans_eq (observeTerm_term n hreq).symm
      rcases hd with hd | ⟨hd, -⟩ <;> omega
  · have hobs : KeepsVotes n (observeTerm E n req.term) := by
      unfold observeTerm
      split
      · exact KeepsVotes.raise ‹_›
      · exact .same rfl rfl
    unfold handleRequestVote at hg ⊢
    split at hg
    · rw [if_pos ‹_›]
      exact .same rfl rfl
    · rw [if_neg ‹_›]
      dsimp only at hg ⊢
      split at hg
      · exact absurd rfl hg
      · rw [if_neg ‹_›]
        exact hobs

omit [DecidableEq ι] [ByteSlice δ] in
theorem keepsVotes_becomeFollower (h : n.currentTerm < T) : KeepsVotes n (becomeFollower E n T) :=
  .raise h

omit [DecidableEq ι] [ByteSlice δ] in
theorem keepsVotes_quiet (h : Quiet E n n') : KeepsVotes n n' := .same h.currentTerm h.votedFor

omit [DecidableEq ι] [ByteSlice δ] in
theorem keepsVotes_appendEntries (req : AppendEntriesRequest ι κ) (h : n.state ≠ .follower → n.currentTerm ≠ req.term) :
    KeepsVotes n (handleAppendEntries E n req).1 := by
  have hfol : n.currentTerm ≤ req.term → KeepsVotes n (followLeader E n req.term req.leaderID) := by
    intro hT
    unfold followLeader
    dsimp only
    split
    · rename_i hb
      refine .raise ?_
      rcases hb with hb | hb
      · exact hb
      · exact lt_of_le_of_ne hT (h hb)
    · exact .same rfl rfl
  unfold handleAppendEntries
  split
  · exact .same rfl rfl
  · rename_i hT
    have hfol := hfol (not_lt.1 hT)
    dsimp only
    split
    · exact hfol
    · intro T d hd
      exact keepsVotes_quiet ((quiet_appendNew E _ req).trans (quiet_updateCommit E _ req)) T d (hfol T d hd)

omit [DecidableEq ι] in
theorem keepsVotes_installSnapshot (n : Node ι κ σ S) (req : InstallSnapshotRequest ι δ) :
    KeepsVotes n (handleInstallSnapshot E n req).1 := by
  have hobs : KeepsVotes n (observeLeader E n req.term req.leaderID) := by
    unfold observeLeader
    dsimp only
    split
    · exact KeepsVotes.raise ‹_›
    · exact .same rfl rfl
  unfold handleInstallSnapshot
  split
  · exact .same rfl rfl
  · dsimp only
    split
    · exact hobs
    · rename_i m hm
      intro T d hd
      exact keepsVotes_quiet ((quiet_restoreFSM hm).trans (quiet_install E m req)) T d (hobs T d hd)

/-- No handler gives a vote of the term away again. -/
theorem keepsVotes_progress (E : Env ι κ σ δ S) : Progress E keepsVote KeepsVotes where
  refl _ := .same rfl rfl
  trans _ _ _ h h' T d hd := h' T d (h T d hd)
  becomeCandidate _ _ := .raise (Nat.lt_succ_self _)
  heartbeat _ _ := .same rfl rfl
  handleRequestVote := keepsVotes_requestVote
  handleAppendEntries _ req hok := keepsVotes_appendEntries req hok
  handleInstallSnapshot n req _ := keepsVotes_installSnapshot n req
  receiveVote n req resp := by
    unfold receiveVote
    split
    · exact .same rfl rfl
    · split
      · exact keepsVotes_becomeFollower ‹_›
      · split
        · unfold countVote
          dsimp only
          split
          · unfold becomeLeader
            split <;> exact .same rfl rfl
          · exact .same rfl rfl
        · exact .same rfl rfl
  receiveAppend n p req resp := by
    unfold receiveAppend
    split
    · exact keepsVotes_becomeFollower ‹_›
    · split
      · exact .same rfl rfl
      · split
        · have hrec : KeepsVotes n (recordMatch n p (req.prevLogIndex + req.entries.length)) := .same rfl rfl
          exact fun T d hd => keepsVotes_quiet (quiet_advanceCommitIndex E _) T d (hrec T d hd)
        · exact keepsVotes_quiet (quiet_backtrack E n p resp)
  receiveSnapshot n p req resp := by
    unfold receiveSnapshot
    split
    · exact keepsVotes_becomeFollower ‹_›
    · split <;> exact .same rfl rfl
  appendLocal n d _ := keepsVotes_quiet (quiet_appendLocal E n d)
  restart _ hr := absurd hr id

/-! ## Runs -/

/-- A vote binds the node from then on. -/
theorem spent_of_voteCast {act : Action ι κ} {i : ι} {d : ι} (hv : c.voteCast E i act = some (T, d))
    (hs : c.step E act = some c') : Spent T d (c'.node i) := by
  cases act with
  | timeout j =>
    simp only [Cluster.voteCast] at hv
    split at hv
    · rename_i hj
      obtain ⟨rfl, hl⟩ := hj
      cases hs
      cases hv
      unfold Cluster.timeout
      rw [if_neg hl]
      refine Or.inr ?_
      show ((c.put j _).node j).currentTerm = _ ∧ ((c.put j _).node j).votedFor = _
      rw [Cluster.put_self]
      exact ⟨rfl, rfl⟩
    · cases hv
  | deliver k =>
    obtain ⟨call, hk, hs⟩ := Option.bind_eq_some_iff.1 hs
    obtain ⟨call', hk', hv⟩ := Option.bind_eq_some_iff.1 hv
    obtain rfl : call = call' := Option.some.inj (hk.symm.trans hk')
    cases hrpc : call.rpc with
    | vote req =>
      simp only [hrpc] at hv
      split at hv
      · rename_i hcall
        obtain ⟨rfl, hg⟩ := hcall
        cases hv
        simp only [Cluster.deliverCall, hrpc, Option.some.injEq] at hs
        subst hs
        show Spent _ _ ((c.put call.callee _).node call.callee)
        rw [Cluster.put_self]
        exact (granted_spent req hg).1
      · cases hv
    | _ => simp [hrpc] at hv
  | _ => cases hv

omit [ByteSlice δ] in
/-- What a bound node can still do. -/
theorem voteCast_of_spent {act : Action ι κ} {i : ι} {d d' : ι} (h : Spent T d (c.node i))
    (hv : c.voteCast E i act = some (T, d')) : d = d' := by
  cases act with
  | timeout j =>
    simp only [Cluster.voteCast] at hv
    split at hv
    · simp only [Option.some.injEq, Prod.mk.injEq] at hv
      exfalso
      have hT : (c.node i).currentTerm + 1 = T := hv.1
      rcases h with h | ⟨h, -⟩ <;> omega
    · cases hv
  | deliver k =>
    obtain ⟨call, _, hv⟩ := Option.bind_eq_some_iff.1 hv
    cases hrpc : call.rpc with
    | vote req =>
      simp only [hrpc] at hv
      split at hv
      · rename_i hcall
        simp only [Option.some.injEq, Prod.mk.injEq] at hv
        obtain ⟨rfl, rfl⟩ := hv
        exact (granted_spent req hcall.2).2 d h
      · cases hv
    | _ => simp [hrpc] at hv
  | _ => cases hv

/-- **One vote per term**: as long as no candidate is sent back to follower within its term, all the
votes a node casts in one term, its own candidacy included, name one candidate. -/
theorem vote_once {c₁ c₁' c₂ : Cluster ι κ σ δ S} {act₁ act₂ : Action ι κ} {i : ι} {T : Nat} {d₁ d₂ : ι}
    (hs : c₁.step E act₁ = some c₁') (hr : Run (system E) (keepsVote.Allows E) c₁' c₂)
    (hv₁ : c₁.voteCast E i act₁ = some (T, d₁)) (hv₂ : c₂.voteCast E i act₂ = some (T, d₂)) : d₁ = d₂ :=
  voteCast_of_spent ((keepsVotes_progress E).run hr i T d₁ (spent_of_voteCast hv₁ hs)) hv₂

/-- Three nodes in term 0. -/
def voters : Cluster Trio Unit (List (LogEntry Unit)) (List (LogEntry Unit)) (Inmem Trio Unit (List (LogEntry Unit))) :=
  boot (recorderEnv Trio Unit) [.a, .b, .c] ⟨10, 0⟩ (some newInmem)

/-- The request of node a reaches node b twice. -/
theorem vote_once_duplicate :
    ∃ c₁ c₁' d, Reach (system (recorderEnv Trio Unit)) (keepsVote.Allows (recorderEnv Trio Unit)) c₁ ∧
      c₁.step (recorderEnv Trio Unit) (.deliver 0) = some c₁' ∧
      c₁.voteCast (recorderEnv Trio Unit) .b (.deliver 0) = some (1, .a) ∧
      c₁'.voteCast (recorderEnv Trio Unit) .b (.deliver 2) = some (1, d) ∧ .a = d := by
  have hrun : ((execGuarded (recorderEnv Trio Unit) keepsVote voters [.timeout .a, .duplicate 0]).bind fun c₁ =>
      (c₁.step (recorderEnv Trio Unit) (.deliver 0)).map fun c₁' =>
        decide (c₁.voteCast (recorderEnv Trio Unit) .b (.deliver 0) = some (1, .a) ∧
          c₁'.voteCast (recorderEnv Trio Unit) .b (.deliver 2) = some (1, .a))) = some true := by decide +kernel
  obtain ⟨c₁, h₁, hrun⟩ := Option.bind_eq_some_iff.1 hrun
  obtain ⟨c₁', hs, hv⟩ := Option.map_eq_some_iff.1 hrun
  obtain ⟨hv₁, hv₂⟩ := of_decide_eq_true hv
  exact ⟨c₁, c₁', .a, reach_of_exec (recorder_boot (by decide) (by decide) _) h₁, hs, hv₁, hv₂,
    vote_once hs .refl hv₁ hv₂⟩

/-! ## The second vote -/

/-- Nodes a and b stand for term 1. Node c makes a the leader, whose first request sends b back to
follower; then the request for the vote of b arrives. -/
def secondVoteRun : List (Action Trio Unit) := [.deliver 1, .receive 1, .tick .a, .read 3, .deliver 3]

/-- **A node votes twice in a term**: for itself, and then for the leader that has deposed it. -/
theorem second_vote :
    ∃ c₁ c₁' c₂, Reach (system (recorderEnv Trio Unit)) (noRestart.Allows (recorderEnv Trio Unit)) c₁ ∧
      c₁.step (recorderEnv Trio Unit) (.timeout .b) = some c₁' ∧
      Run (system (recorderEnv Trio Unit)) (noRestart.Allows (recorderEnv Trio Unit)) c₁' c₂ ∧
      c₁.voteCast (recorderEnv Trio Unit) .b (.timeout .b) = some (1, .b) ∧
      c₂.voteCast (recorderEnv Trio Unit) .b (.deliver 0) = some (1, .a) := by
  have hrun : ((execGuarded (recorderEnv Trio Unit) noRestart voters [.timeout .a]).bind fun c₁ =>
      (c₁.step (recorderEnv Trio Unit) (.timeout .b)).bind fun c₁' =>
        (execGuarded (recorderEnv Trio Unit) noRestart c₁' secondVoteRun).map fun c₂ =>
          decide (c₁.voteCast (recorderEnv Trio Unit) .b (.timeout .b) = some (1, .b) ∧
            c₂.voteCast (recorderEnv Trio Unit) .b (.deliver 0) = some (1, .a))) = some true := by decide +kernel
  obtain ⟨c₁, h₁, hrun⟩ := Option.bind_eq_some_iff.1 hrun
  obtain ⟨c₁', hs, hrun⟩ := Option.bind_eq_some_iff.1 hrun
  obtain ⟨c₂, h₂, hv⟩ := Option.map_eq_some_iff.1 hrun
  obtain ⟨hv₁, hv₂⟩ := of_decide_eq_true hv
  exact ⟨c₁, c₁', c₂, reach_of_exec (recorder_boot (by decide) (by decide) _) h₁, hs, Run.of_exec _ h₂, hv₁, hv₂⟩

end Raft
