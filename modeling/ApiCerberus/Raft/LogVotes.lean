import ApiCerberus.Raft.Logs

/-!
# Elections, with the logs of the candidates

The steps of `Raft.Election` once more, for the relation that knows the logs: a vote is granted to a
candidate whose announced log is not behind the voter's (`node.go:845-851`), and a node that wins
leads with the log it has.
-/

namespace Raft

open Consensus

variable {ι κ σ δ S : Type} [DecidableEq ι] [Fintype ι] [ByteSlice δ] {E : Env ι κ σ δ S} {V : View σ}
  {a a' : Replicas ι (LogEntry κ)} {c : Cluster ι κ σ δ S} {i j : ι} {n n' : Node ι κ σ S}

/-- A change of the ballots only. -/
theorem LogRel.ballots (h : LogRel E V a (c.put i n)) {b : Ballots ι} (m : a.ballots.Moves i b)
    (inv : Replicas.Inv { a with ballots := b }) (el : ElRel E (c.put i n') b) (s : Steady E V n n')
    (hl : n'.state = .leader → n.state = .leader ∧ n'.currentTerm = n.currentTerm) :
    LogRel E V { a with ballots := b } (c.put i n') := by
  have m' := a.moves_ballots m
  have hn : NodeL E V { a with ballots := b } i n := h.self.frame h.inv m'.toGrows rfl rfl
  refine h.put_same m' el inv rfl rfl (hn.steady s hl) s.lastApplied.ge ?_
  rw [s.committed]
  exact fun _ => id

section
variable (hV : V.on → V.Lawful E)
include hV

theorem LogRel.becomeFollower (h : LogRel E V a (c.put i n)) {T : Nat} (hT : n.currentTerm < T) :
    LogRel E V (a.bump i T) (c.put i (becomeFollower E n T)) := by
  have hT' : ((c.put i n).node i).currentTerm < T := by rw [Cluster.put_self]; exact hT
  have el := h.el.becomeFollower hT'
  rw [Cluster.put_self, Cluster.put_put] at el
  rw [h.selfE.term] at hT
  refine h.ballots (a.ballots.moves_bump hT) (Replicas.inv_bump h.inv hT) el ?_ (fun hl => by cases hl)
  exact Steady.persisted hV { Steady.refl E V n with }

omit [DecidableEq ι] [Fintype ι] [ByteSlice δ] in
theorem steady_observeTerm (n : Node ι κ σ S) (T : Nat) : Steady E V n (observeTerm E n T) := by
  unfold observeTerm
  split
  · exact Steady.persisted hV { Steady.refl E V n with }
  · exact .refl E V n

omit [DecidableEq ι] [Fintype ι] [ByteSlice δ] in
theorem steady_observeLeader (n : Node ι κ σ S) (T : Nat) (l : ι) : Steady E V n (observeLeader E n T l) := by
  unfold observeLeader
  dsimp only
  split
  · exact Steady.persisted hV { Steady.refl E V n with }
  · exact { Steady.refl E V n with }

omit [DecidableEq ι] [Fintype ι] [ByteSlice δ] in
theorem steady_followLeader (n : Node ι κ σ S) (T : Nat) (l : ι) : Steady E V n (followLeader E n T l) := by
  unfold followLeader
  dsimp only
  split
  · exact Steady.persisted hV { Steady.refl E V n with }
  · exact { Steady.refl E V n with }

theorem LogRel.observeTerm (h : LogRel E V a (c.put i n)) (T : Nat) :
    LogRel E V (a.observe i T) (c.put i (observeTerm E n T)) := by
  have el := h.el.observeTerm (i := i) T
  rw [Cluster.put_self, Cluster.put_put] at el
  refine h.ballots (a.ballots.moves_observe i T) (Replicas.inv_observe h.inv i T) el (steady_observeTerm hV n T) ?_
  unfold Raft.observeTerm
  split
  · intro hl; cases hl
  · exact fun hl => ⟨hl, rfl⟩

theorem LogRel.observeLeader (h : LogRel E V a (c.put i n)) (T : Nat) (l : ι) :
    LogRel E V (a.observe i T) (c.put i (observeLeader E n T l)) := by
  have el := h.el.observeLeader (i := i) T l
  rw [Cluster.put_self, Cluster.put_put] at el
  refine h.ballots (a.ballots.moves_observe i T) (Replicas.inv_observe h.inv i T) el (steady_observeLeader hV n T l) ?_
  unfold Raft.observeLeader
  dsimp only
  split
  · intro hl; cases hl
  · exact fun hl => ⟨hl, rfl⟩

theorem LogRel.followLeader (h : LogRel E V a (c.put i n)) {T : Nat} {l : ι} (hT : n.currentTerm ≤ T)
    (hw : a.ballots.won l T) (hne : l ≠ i) (leader : ι) :
    LogRel E V (a.follow i T) (c.put i (followLeader E n T leader)) := by
  have hT' : ((c.put i n).node i).currentTerm ≤ T := by rw [Cluster.put_self]; exact hT
  have el := h.el.followLeader hT' hw hne leader
  rw [Cluster.put_self, Cluster.put_put] at el
  rw [h.selfE.term] at hT
  refine h.ballots (a.ballots.moves_follow i T) (Replicas.inv_follow h.inv hT hw hne) el
    (steady_followLeader hV n T leader)
    fun hl => ?_
  have hrole := (el.node i).role
  rw [Cluster.put_self, Ballots.follow_role, hl] at hrole
  cases hrole

/-- A vote for a candidate `d` whose log is at least as up to date. -/
theorem LogRel.grant (h : LogRel E V a (c.put i n)) {d : ι} (hne : i ≠ d) {req : RequestVoteRequest ι}
    (ht : n.currentTerm = req.term) (htd : req.term ≤ a.ballots.term d)
    (hcand : a.cand d req.term = (req.lastLogTerm, req.lastLogIndex))
    (hv : n.votedFor = none ∨ n.votedFor = some d) (hup : upToDate n.log req = true) :
    LogRel E V (a.grant i d) (c.put i (persistState E { n with votedFor := some d })) := by
  have el := h.el.grant (i := i) (d := d) hne (by rw [Cluster.put_self, ht]; exact htd)
    (by rw [Cluster.put_self]; exact hv)
  rw [Cluster.put_self, Cluster.put_put] at el
  have hterm := h.selfE.term
  have hmark : LexLe (lastMark (a.log i)) (a.cand d (a.ballots.term i)) := by
    rw [← hterm, ht, hcand]
    rw [h.self.log] at hup
    exact (upToDate_window (h.indexed i) (h.base_le i)).1 hup
  refine h.ballots (a.ballots.moves_grant i d)
    (Replicas.inv_grant h.inv hne (by rw [← hterm, ht]; exact htd) (by rw [← h.selfE.vote]; exact hv) hmark) el ?_
    fun hl => ⟨hl, rfl⟩
  exact Steady.persisted hV { Steady.refl E V n with }

/-- `HandleRequestVote` for a request of `d`. -/
theorem LogRel.handleRequestVote (h : LogRel E V a (c.put i n)) (req : RequestVoteRequest ι)
    (hne : i ≠ req.candidateID) (ht : req.term ≤ a.ballots.term req.candidateID)
    (hcand : a.cand req.candidateID req.term = (req.lastLogTerm, req.lastLogIndex)) :
    ∃ a', a.Moves i a' ∧ LogRel E V a' (c.put i (handleRequestVote E n req).1) ∧ a'.log = a.log ∧
      ((handleRequestVote E n req).2.voteGranted = true → a'.ballots.granted i req.term req.candidateID) := by
  unfold Raft.handleRequestVote
  split
  · exact ⟨a, .refl i a, h, rfl, by simp⟩
  · rename_i hge
    have hobs := h.observeTerm hV req.term
    have hcur := observeTerm_currentTerm (E := E) (n := n) (T := req.term) (by omega)
    have hm : a.Moves i (a.observe i req.term) := a.moves_ballots (a.ballots.moves_observe i req.term)
    dsimp only
    split
    · rename_i hmay
      simp only [mayVote, Bool.and_eq_true, decide_eq_true_eq] at hmay
      have hgr := hobs.grant hV hne hcur (ht.trans (hm.ballots.term _)) hcand hmay.1 hmay.2
      have hm' : (a.observe i req.term).Moves i ((a.observe i req.term).grant i req.candidateID) :=
        (a.observe i req.term).moves_ballots ((a.observe i req.term).ballots.moves_grant i req.candidateID)
      refine ⟨_, hm.trans hm', hgr, rfl, fun _ => Or.inr ⟨rfl, ?_, rfl⟩⟩
      rw [← hobs.selfE.term, hcur]
    · exact ⟨_, hm, hobs, rfl, by simp⟩

end

/-! ## Candidates and leaders -/

omit [DecidableEq ι] [Fintype ι] [ByteSlice δ] in
theorem steady_becomeCandidate (hV : V.on → V.Lawful E) (n : Node ι κ σ S) : Steady E V n (becomeCandidate E n) :=
  Steady.persisted hV { Steady.refl E V n with }

theorem LogRel.candidacy (hV : V.on → V.Lawful E) (h : LogRel E V a (c.put i n)) :
    LogRel E V (a.candidacy i) (c.put i (becomeCandidate E n)) := by
  have el := h.el.candidacy i
  rw [Cluster.put_self, Cluster.put_put] at el
  have m := a.moves_candidacy i
  have hn := h.self.frame h.inv m.toGrows rfl rfl
  have s := steady_becomeCandidate hV n
  exact h.put_same m el (Replicas.inv_candidacy h.inv i) rfl rfl (hn.steady s (fun hx => by cases hx)) (le_refl _)
    fun _ => id

/-- The candidate's announcement, in the request it sends. -/
theorem LogRel.voteRequest_mark (h : LogRel E V a (c.put i n)) :
    (a.candidacy i).cand i (voteRequest (becomeCandidate E n)).term =
      ((voteRequest (becomeCandidate E n)).lastLogTerm, (voteRequest (becomeCandidate E n)).lastLogIndex) := by
  have hmark := h.lastMark_log i
  rw [Cluster.put_self] at hmark
  have hterm : (voteRequest (becomeCandidate E n)).term = a.ballots.term i + 1 := by
    rw [← h.selfE.term]; rfl
  rw [hterm]
  simp only [Replicas.candidacy, and_self, if_true]
  exact hmark

/-- The abstract win, with the log of the new leader. -/
theorem LogRel.win (h : LogRel E V a (c.put i n)) (hs : n.state = .candidate) {Q : Finset ι}
    (hQ : a.ballots.Elects Q i (a.ballots.term i)) (v : Nat) :
    LogRel E V (a.win i) (c.put i (becomeLeader { n with votesReceived := v })) := by
  have el := h.el.win (i := i) (by rw [Cluster.put_self]; exact hs) hQ v
  rw [Cluster.put_self, Cluster.put_put] at el
  have hrole : a.ballots.role i = .candidate := by rw [← h.selfE.role, hs]; rfl
  have m := Replicas.moves_win h.inv (h.inv.elected_unwon hrole hQ)
  have hn := h.self.frame h.inv m.toGrows rfl rfl
  have hlead : becomeLeader { n with votesReceived := v } =
      { n with
        votesReceived := v
        state := .leader
        leaderID := some n.id
        nextIndex := fun p => if p ∈ n.peers then some (lastLogIndex n.log + 1) else n.nextIndex p
        matchIndex := fun p => if p ∈ n.peers then some 0 else n.matchIndex p
        heartbeat := if n.heartbeat = .off then .running else n.heartbeat
        ledTerms := n.currentTerm :: n.ledTerms } := by
    simp [becomeLeader, hs]
  rw [hlead] at el ⊢
  refine h.put m el (Replicas.inv_win h.inv hrole hQ) ?_ { hn with next := ?_, matched := ?_ } (le_refl _) (fun _ => id)
    fun _ _ he => Or.inl (h.inv.committed_of_grows m.toGrows rfl he)
  · intro T
    simp only [Replicas.win, Function.update_apply]
    split
    · exact h.indexed i
    · exact h.index T
  · intro p k hk
    dsimp only at hk
    split at hk
    · cases hk; omega
    · exact hn.next p k hk
  · intro _ p hp
    left
    simp [(h.selfE.others p).2 hp]

end Raft
