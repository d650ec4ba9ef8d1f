import ApiCerberus.Raft.Instances

/-!
# Election safety

The cluster simulates the abstract election: every critical section is a move of
`Consensus.Ballots`. The textbook argument (one vote per node and term) is not available:
`HandleAppendEntries` clears `VotedFor` without raising the term (`node.go:880`). What it clears is
at most the vote a candidate gave itself, which is the `yield` of the abstract protocol.
-/

namespace Raft

open Consensus Transition

variable {ι κ σ δ S : Type} [DecidableEq ι] [Fintype ι] {E : Env ι κ σ δ S} {c : Cluster ι κ σ δ S} {b b' : Ballots ι}
  {i : ι} {n : Node ι κ σ S} {k : Nat} {call : Call ι κ δ}

/-! ## Elections -/

theorem NodeE.card_peers (h : NodeE E b i n) : n.peers.length + 1 = Fintype.card ι := by
  have hset : n.peers.toFinset = Finset.univ.erase i := by
    ext j
    simp [h.others j]
  have hlen : n.peers.length = (Finset.univ.erase i).card := by
    rw [← hset, List.toFinset_card_of_nodup h.nodup]
  rw [hlen, Finset.card_erase_of_mem (Finset.mem_univ i), Finset.card_univ]
  have : 0 < Fintype.card ι := Fintype.card_pos_iff.2 ⟨i⟩
  omega

omit [Fintype ι] in
/-- A round of vote requests adds one ballot per peer. -/
theorem out_spawn (req : RequestVoteRequest ι) (hnd : (c.node i).peers.Nodup) (j w : ι) (T : Nat) :
    (c.spawn i (.vote req)).out j w T ≤ c.out j w T + if j = i ∧ T = req.term then 1 else 0 := by
  unfold Cluster.out Cluster.spawn
  rw [List.countP_append, List.countP_map]
  refine Nat.add_le_add_left ?_ _
  split
  · rename_i hc
    calc _ ≤ ((c.node i).peers.filter (· ≠ i)).countP (· == w) :=
          List.countP_mono_left fun p _ hp => by simp_all [isBallot]
      _ ≤ 1 := List.nodup_iff_count_le_one.1 (hnd.filter _) w
  · rename_i hc
    refine (List.countP_eq_zero.2 fun p _ => ?_).le
    simp only [Function.comp_apply, isBallot, decide_eq_true_eq, Rpc.ballot, Option.some.injEq]
    rintro ⟨rfl, -, -, rfl⟩
    exact hc ⟨rfl, rfl⟩

theorem ElRel.candidacy (h : ElRel E c b) (i : ι) :
    ElRel E (c.put i (becomeCandidate E (c.node i))) (b.candidacy i) := by
  have hn := h.node i
  refine h.put (b.moves_candidacy i) (Ballots.inv_candidacy h.inv i)
    (hn.persisted rfl rfl rfl ?_ ?_ ?_ fun _ => Iff.rfl) fun _ => ⟨∅, by simp, rfl, by simp⟩
  · simp [Ballots.candidacy, hn.term]
  · simp [Ballots.candidacy, NodeState.role]
  · simp [Ballots.candidacy, hn.id]

/-- The timer is the abstract candidacy. -/
theorem ElRel.timeout (h : ElRel E c b) (hl : (c.node i).state ≠ .leader) :
    ElRel E (c.timeout E i) (b.candidacy i) := by
  have hn := h.node i
  have hput := h.candidacy i
  have hterm : (b.candidacy i).term i = (c.node i).currentTerm + 1 := by simp [Ballots.candidacy, hn.term]
  -- no ballot of the new term is on its way yet
  have hnone : ∀ w T, c.out i w T ≠ 0 → T ≤ (c.node i).currentTerm := by
    intro w T h0
    obtain ⟨call, hc, hp⟩ := List.countP_pos_iff.1 (Nat.pos_of_ne_zero h0)
    simp only [isBallot, decide_eq_true_eq] at hp
    obtain ⟨rfl, -, -, hT⟩ := hp
    have hb := h.backed call hc
    rw [hn.term]
    cases hrpc : call.rpc <;> rw [hrpc] at hT hb <;> simp only [Rpc.ballot, Option.some.injEq, reduceCtorEq] at hT
    · subst hT; exact hb.2
    · subst hT; exact hb.1
  unfold Cluster.timeout
  rw [if_neg hl]
  dsimp only
  have hspawn := out_spawn (voteRequest (becomeCandidate E (c.node i))) (hput.node i).nodup
  refine { hput with distinct := ?_, backed := ?_, epoch := ?_, once := ?_, votes := ?_ }
  · intro x hx
    rcases Cluster.mem_spawn hx with hx | ⟨p, hp, rfl⟩
    · exact h.distinct x hx
    · exact hp.symm
  · intro x hx
    rcases Cluster.mem_spawn hx with hx | ⟨p, hp, rfl⟩
    · exact hput.backed x hx
    · exact ⟨hn.id, hterm.ge⟩
  · intro x hx
    rcases Cluster.mem_spawn hx with hx | ⟨p, hp, rfl⟩
    · exact h.epoch x hx
    · rintro e ⟨⟩; exact le_refl _
  · intro j w T
    refine (hspawn j w T).trans ?_
    split
    · rename_i hc
      obtain ⟨rfl, rfl⟩ := hc
      have h0 : c.out j w ((c.node j).currentTerm + 1) = 0 := by
        by_contra hne
        have := hnone w _ hne
        omega
      exact (Nat.add_le_add_right h0.le 1)
    · exact h.once j w T
  · intro j hj
    obtain ⟨V, h1, h2, h3⟩ := hput.votes j hj
    by_cases e : j = i
    · subst e
      exact ⟨∅, by simp, by simp [Cluster.spawn, becomeCandidate, persistState], by simp⟩
    · refine ⟨V, h1, h2, fun w hw => ⟨(h3 w hw).1, ?_⟩⟩
      have hle := hspawn j w ((c.put i (becomeCandidate E (c.node i))).node j).currentTerm
      rw [if_neg (by simp [e]), (h3 w hw).2] at hle
      exact Nat.le_zero.1 hle

variable {c' : Cluster ι κ σ δ S} {req : RequestVoteRequest ι} {resp : RequestVoteResponse} {T : Nat}

/-- A vote that arrives is one more vote of a member that has not been counted. -/
theorem ElRel.tally (h : ElRel E c b) (hk : c.calls[k]? = some call) (ha : c.Alive call)
    (hrpc : call.rpc = .voted req resp)
    (hg : resp.voteGranted = true) (hs : (c.node call.caller).state = .candidate)
    (ht : (c.node call.caller).currentTerm = req.term) :
    ∃ V : Finset ι, call.caller ∉ V ∧ (c.node call.caller).votesReceived + 1 = V.card + 1 ∧
      ∀ w ∈ V, b.granted w (c.node call.caller).currentTerm call.caller ∧
        (c.dropCall k).out call.caller w (c.node call.caller).currentTerm = 0 := by
  obtain ⟨V, h1, h2, h3⟩ := h.votes _ hs
  have hmem := List.mem_of_getElem? hk
  have hball : isBallot call.caller call.callee (c.epoch call.caller) req.term call = true := by
    simp only [isBallot, decide_eq_true_eq]
    exact ⟨trivial, trivial, ha, by rw [hrpc]; rfl⟩
  have herase : (c.dropCall k).out call.caller call.callee req.term + 1 = c.out call.caller call.callee req.term := by
    obtain ⟨hlt, hget⟩ := List.getElem?_eq_some_iff.1 hk
    unfold Cluster.out
    rw [← (List.getElem_cons_eraseIdx_perm hlt).countP_eq, hget, List.countP_cons_of_pos hball]
    rfl
  have honce := h.once call.caller call.callee req.term
  have hnew : call.callee ∉ V := by
    intro hw
    have := (h3 _ hw).2
    rw [ht] at this
    omega
  refine ⟨insert call.callee V, ?_, ?_, ?_⟩
  · simp only [Finset.mem_insert, not_or]
    exact ⟨h.distinct call hmem, h1⟩
  · rw [Finset.card_insert_of_notMem hnew, h2]
  · intro w hw
    rw [ht]
    rcases Finset.mem_insert.1 hw with rfl | hw
    · have hb := h.backed call hmem
      rw [hrpc] at hb
      exact ⟨hb.2 hg, by omega⟩
    · have hle : (c.dropCall k).out call.caller w req.term ≤ c.out call.caller w req.term :=
        (List.eraseIdx_sublist c.calls k).countP_le
      have := h3 w hw
      rw [ht] at this
      exact ⟨this.1, by omega⟩

/-- The vote is counted, and does not decide the election. -/
theorem ElRel.count (h : ElRel E c b) (hk : c.calls[k]? = some call) (ha : c.Alive call)
    (hrpc : call.rpc = .voted req resp)
    (hg : resp.voteGranted = true) (hs : (c.node call.caller).state = .candidate)
    (ht : (c.node call.caller).currentTerm = req.term) :
    ElRel E ((c.dropCall k).put call.caller
      { c.node call.caller with votesReceived := (c.node call.caller).votesReceived + 1 }) b := by
  obtain ⟨V, h1, h2, h3⟩ := h.tally hk ha hrpc hg hs ht
  have hd := h.dropCall k
  refine hd.put (.refl _ b) hd.inv ?_ fun _ => ⟨V, h1, h2, h3⟩
  exact { hd.node call.caller with }

/-- Enough counted votes are a quorum. -/
theorem ElRel.elects (h : ElRel E c b) {V : Finset ι} (hi : i ∉ V)
    (hV : ∀ w ∈ V, b.granted w (c.node i).currentTerm i) (hq : votesNeeded (c.node i) ≤ V.card + 1) :
    b.Elects (insert i V) i (b.term i) := by
  have hn := h.node i
  refine ⟨?_, fun w hw => ?_⟩
  · unfold Majority
    unfold votesNeeded at hq
    rw [Finset.card_insert_of_notMem hi, ← hn.card_peers]
    omega
  · rcases Finset.mem_insert.1 hw with rfl | hw
    · exact Or.inl rfl
    · rw [← hn.term]; exact Or.inr (hV w hw)

theorem ElRel.win (h : ElRel E c b) {Q : Finset ι} (hs : (c.node i).state = .candidate)
    (hQ : b.Elects Q i (b.term i)) (v : Nat) :
    ElRel E (c.put i (becomeLeader { c.node i with votesReceived := v })) (b.win i) := by
  have hn := h.node i
  have hrole : b.role i = .candidate := by rw [← hn.role, hs]; rfl
  have hlead : becomeLeader { c.node i with votesReceived := v } =
      { becomeLeader { c.node i with votesReceived := v } with
        state := .leader, ledTerms := (c.node i).currentTerm :: (c.node i).ledTerms } := by
    simp [becomeLeader, hs]
  rw [hlead]
  refine h.put (b.moves_win i) (Ballots.inv_win h.inv hrole hQ) ?_ (by intro hx; cases hx)
  exact
    { id := by simpa [becomeLeader, hs] using hn.id
      nodup := by simpa [becomeLeader, hs] using hn.nodup
      others := by simpa [becomeLeader, hs] using hn.others
      term := by simpa [becomeLeader, hs, Ballots.win] using hn.term
      role := by simp [Ballots.win, NodeState.role]
      vote := by simpa [becomeLeader, hs, Ballots.win] using hn.vote
      led := fun T => by
        simp only [List.mem_cons, hn.led T, Ballots.win, hn.term]
        constructor
        · rintro (h | h)
          · exact Or.inr ⟨trivial, h⟩
          · exact Or.inl h
        · rintro (h | ⟨-, h⟩)
          · exact Or.inr h
          · exact Or.inl h
      stored := by simpa [becomeLeader, hs] using hn.stored }

/-! ## Stepping down -/

theorem ElRel.becomeFollower (h : ElRel E c b) (hT : (c.node i).currentTerm < T) :
    ElRel E (c.put i (becomeFollower E (c.node i) T)) (b.bump i T) :=
  h.bump hT ⟨rfl, rfl, rfl, rfl, rfl, rfl⟩

theorem ElRel.observeTerm (h : ElRel E c b) (T : Nat) :
    ElRel E (c.put i (observeTerm E (c.node i) T)) (b.observe i T) := by
  unfold Raft.observeTerm Ballots.observe
  rw [← (h.node i).term]
  split
  · rename_i hT
    exact h.bump hT ⟨rfl, rfl, rfl, rfl, rfl, rfl⟩
  · rw [Cluster.put_node]; exact h

theorem ElRel.observeLeader (h : ElRel E c b) (T : Nat) (l : ι) :
    ElRel E (c.put i (observeLeader E (c.node i) T l)) (b.observe i T) := by
  unfold Raft.observeLeader Ballots.observe
  rw [← (h.node i).term]
  dsimp only
  split
  · rename_i hT
    exact h.bump hT ⟨rfl, rfl, rfl, rfl, rfl, rfl⟩
  · exact h.quiet { Quiet.refl E (c.node i) with }

theorem ElRel.followLeader (h : ElRel E c b) {l : ι} (hT : (c.node i).currentTerm ≤ T) (hw : b.won l T)
    (hne : l ≠ i) (leader : ι) : ElRel E (c.put i (followLeader E (c.node i) T leader)) (b.follow i T) := by
  have hn := h.node i
  unfold Raft.followLeader Ballots.follow
  rw [← hn.term]
  dsimp only
  by_cases hlt : (c.node i).currentTerm < T
  · rw [if_pos (Or.inl hlt), if_pos hlt]
    exact h.bump hlt ⟨rfl, rfl, rfl, rfl, rfl, rfl⟩
  · have hT' : T = (c.node i).currentTerm := by omega
    subst hT'
    rw [if_neg hlt]
    by_cases hf : (c.node i).state = .follower
    · have hrole : b.role i = .follower := by rw [← hn.role, hf]; rfl
      rw [if_neg (by simp [hf]), if_pos hrole]
      exact h.quiet { Quiet.refl E (c.node i) with }
    · have hrole : b.role i ≠ .follower := by
        rw [← hn.role]
        intro hx
        exact hf (NodeState.role_inj (t := .follower) hx)
      rw [if_pos (Or.inr hf), if_neg hrole]
      exact h.yield hf hw hne ⟨rfl, rfl, rfl, rfl, rfl, rfl⟩

/-! ## The handlers -/

omit [DecidableEq ι] [Fintype ι] in
theorem observeTerm_currentTerm (hT : n.currentTerm ≤ T) : (observeTerm E n T).currentTerm = T := by
  unfold observeTerm
  split
  · rfl
  · omega

/-- A vote that is granted is granted in the abstract election too. -/
theorem ElRel.handleRequestVote (h : ElRel E c b) (req : RequestVoteRequest ι) (hne : i ≠ req.candidateID)
    (ht : req.term ≤ b.term req.candidateID) :
    ∃ b', b.Grows b' ∧ ElRel E (c.put i (handleRequestVote E (c.node i) req).1) b' ∧
      ((handleRequestVote E (c.node i) req).2.voteGranted = true → b'.granted i req.term req.candidateID) := by
  unfold Raft.handleRequestVote
  split
  · exact ⟨b, .refl b, by rw [Cluster.put_node]; exact h, by simp⟩
  · rename_i hge
    have h1 := h.observeTerm (i := i) req.term
    have hcur := observeTerm_currentTerm (E := E) (n := c.node i) (T := req.term) (by omega)
    have hg := (b.moves_observe i req.term).toGrows
    dsimp only
    split
    · rename_i hmay
      simp only [mayVote, Bool.and_eq_true, decide_eq_true_eq] at hmay
      have h2 := h1.grant (i := i) (d := req.candidateID) hne
        (by rw [Cluster.put_self, hcur]; exact ht.trans (hg.term _)) (by rw [Cluster.put_self]; exact hmay.1)
      rw [Cluster.put_self, Cluster.put_put] at h2
      refine ⟨_, hg.trans ((b.observe i req.term).moves_grant i req.candidateID).toGrows, h2, fun _ => ?_⟩
      refine Or.inr ⟨rfl, ?_, rfl⟩
      rw [← (h1.node i).term, Cluster.put_self, hcur]
    · exact ⟨_, hg, h1, by simp⟩

theorem ElRel.handleAppendEntries (h : ElRel E c b) {l : ι} (req : AppendEntriesRequest ι κ) (hw : b.won l req.term)
    (hne : l ≠ i) : ∃ b', b.Grows b' ∧ ElRel E (c.put i (handleAppendEntries E (c.node i) req).1) b' := by
  unfold Raft.handleAppendEntries
  split
  · exact ⟨b, .refl b, by rw [Cluster.put_node]; exact h⟩
  · rename_i hge
    have h1 := h.followLeader (i := i) (by omega) hw hne req.leaderID
    refine ⟨_, (b.moves_follow i req.term).toGrows, ?_⟩
    dsimp only
    split
    · exact h1
    · have h2 := h1.quiet (i := i) ((quiet_appendNew E _ req).trans (quiet_updateCommit E _ req))
      rwa [Cluster.put_self, Cluster.put_put] at h2

variable [ByteSlice δ]

omit [DecidableEq ι] [Fintype ι] in
theorem quiet_restoreFSM {m : Node ι κ σ S} {data : δ} (hr : restoreFSM E n data = some m) : Quiet E n m := by
  unfold restoreFSM at hr
  split at hr
  · simp only [Option.map_eq_some_iff] at hr
    obtain ⟨_, _, rfl⟩ := hr
    exact { Quiet.refl E n with }
  · cases hr; exact .refl E n

theorem ElRel.handleInstallSnapshot (h : ElRel E c b) (req : InstallSnapshotRequest ι δ) :
    ∃ b', b.Grows b' ∧ ElRel E (c.put i (handleInstallSnapshot E (c.node i) req).1) b' := by
  unfold Raft.handleInstallSnapshot
  split
  · exact ⟨b, .refl b, by rw [Cluster.put_node]; exact h⟩
  · have h1 := h.observeLeader (i := i) req.term req.leaderID
    refine ⟨_, (b.moves_observe i req.term).toGrows, ?_⟩
    dsimp only
    split
    · exact h1
    · rename_i m hm
      have h2 := h1.quiet (i := i) (n := install E m req)
        (by rw [Cluster.put_self]; exact (quiet_restoreFSM hm).trans (quiet_install E m req))
      rwa [Cluster.put_put] at h2

/-! ## The answers -/

omit [ByteSlice δ] in
theorem ElRel.receiveVote (h : ElRel E c b) (hk : c.calls[k]? = some call)
    (ha : c.Alive call) (hrpc : call.rpc = .voted req resp) :
    ∃ b', ElRel E ((c.dropCall k).put call.caller (receiveVote E (c.node call.caller) req resp)) b' := by
  have hd := h.dropCall k
  unfold Raft.receiveVote
  split
  · exact ⟨b, by rw [show c.node call.caller = (c.dropCall k).node call.caller from rfl, Cluster.put_node]; exact hd⟩
  · rename_i hcond
    simp only [not_or, not_not] at hcond
    split
    · rename_i hT
      exact ⟨_, hd.becomeFollower hT⟩
    · split
      · rename_i hg
        obtain ⟨V, h1, h2, h3⟩ := h.tally hk ha hrpc hg hcond.1 hcond.2
        unfold countVote
        dsimp only
        split
        · rename_i hq
          exact ⟨_, hd.win hcond.1 (hd.elects h1 (fun w hw => (h3 w hw).1) (hq.trans h2.le)) _⟩
        · exact ⟨b, h.count hk ha hrpc hg hcond.1 hcond.2⟩
      · exact ⟨b,
          by rw [show c.node call.caller = (c.dropCall k).node call.caller from rfl, Cluster.put_node]; exact hd⟩

omit [ByteSlice δ] in
theorem ElRel.receiveAppend (h : ElRel E c b) (w : ι) (req : AppendEntriesRequest ι κ) (resp : AppendEntriesResponse) :
    ∃ b', ElRel E (c.put i (receiveAppend E (c.node i) w req resp)) b' := by
  unfold Raft.receiveAppend
  split
  · rename_i hT
    exact ⟨_, h.becomeFollower hT⟩
  · refine ⟨b, ?_⟩
    split
    · rw [Cluster.put_node]; exact h
    · split
      · refine h.quiet (Quiet.trans ?_ (quiet_advanceCommitIndex E _))
        exact { Quiet.refl E (c.node i) with }
      · exact h.quiet (quiet_backtrack E _ w resp)

omit [ByteSlice δ] in
theorem ElRel.receiveSnapshot (h : ElRel E c b) (w : ι) (req : InstallSnapshotRequest ι δ)
    (resp : InstallSnapshotResponse) : ∃ b', ElRel E (c.put i (receiveSnapshot E (c.node i) w req resp)) b' := by
  unfold Raft.receiveSnapshot
  split
  · rename_i hT
    exact ⟨_, h.becomeFollower hT⟩
  · refine ⟨b, ?_⟩
    split
    · exact h.quiet { Quiet.refl E (c.node i) with }
    · rw [Cluster.put_node]; exact h

/-! ## Restarts -/

omit [DecidableEq ι] [Fintype ι] [ByteSlice δ] in
theorem quiet_loadLog (E : Env ι κ σ δ S) (n : Node ι κ σ S) : Quiet E n (loadLog E n) := by
  unfold loadLog
  split <;> first | exact .refl E n | exact { Quiet.refl E n with }

omit [DecidableEq ι] [Fintype ι] in
theorem quiet_loadSnapshot (E : Env ι κ σ δ S) (n : Node ι κ σ S) : Quiet E n (loadSnapshot E n) := by
  unfold loadSnapshot
  split
  · split
    · split
      · exact { Quiet.refl E n with }
      · exact .refl E n
    · exact .refl E n
  · exact .refl E n

omit [DecidableEq ι] [Fintype ι] in
/-- A node comes back as a follower, with the term and the vote it had saved. -/
theorem NodeE.restarted (h : NodeE E b i n) (hk : E.storage.KeepsState) {s : S} (hs : n.storage = some s)
    (hb' : b'.term i = b.term i) (hr : b'.role i = .follower) (hv : b'.vote i = b.vote i)
    (hw : ∀ T, b'.won i T ↔ b.won i T) : NodeE E b' i (Raft.restart E n) := by
  have hload : loadState E (newNode E n.id n.config n.peers n.storage) =
      { newNode E n.id n.config n.peers n.storage with currentTerm := n.currentTerm, votedFor := n.votedFor } := by
    have hst := h.stored hk (E.storage.loadState s) (by rw [hs]; rfl)
    unfold loadState
    simp only [newNode, hs, Option.bind_some]
    rcases hst with hst | ⟨hst, h1, h2⟩
    · simp [hst]
    · simp [hst, h1, h2]
  have q := (quiet_loadLog E _).trans
    (quiet_loadSnapshot E (loadLog E (loadState E (newNode E n.id n.config n.peers n.storage))))
  rw [hload] at q
  have hstart : start E (newNode E n.id n.config n.peers n.storage) =
      loadSnapshot E (loadLog E { newNode E n.id n.config n.peers n.storage with
        currentTerm := n.currentTerm, votedFor := n.votedFor }) := by
    unfold start; rw [hload]
  unfold Raft.restart
  rw [hstart]
  exact
    { id := q.id.trans h.id
      nodup := by rw [q.peers]; exact h.nodup
      others := by rw [q.peers]; exact h.others
      term := q.currentTerm.trans (h.term.trans hb'.symm)
      role := by rw [q.state, hr]; rfl
      vote := q.votedFor.trans (h.vote.trans hv.symm)
      led := fun T => (h.led T).trans (hw T).symm
      stored := fun k r => by
        dsimp only
        rw [q.stored k, q.currentTerm, q.votedFor]
        exact h.stored k r }

/-- A restart keeps the term and the vote that are stored. -/
theorem ElRel.restart (h : ElRel E c b) (hk : E.storage.KeepsState) (hs : (c.node i).storage.isSome) :
    ElRel E (c.restart E i) (b.restart i) := by
  obtain ⟨s, hs⟩ := Option.isSome_iff_exists.1 hs
  have hstate : (Raft.restart E (c.node i)).state = .follower := by
    have hnode : NodeE E (b.restart i) i (Raft.restart E (c.node i)) :=
      (h.node i).restarted hk hs rfl (by simp [Ballots.restart]) rfl fun _ => Iff.rfl
    have := hnode.role
    exact NodeState.role_inj (t := .follower) (by rw [this]; simp [Ballots.restart, NodeState.role])
  have hput := h.put (i := i) (b.moves_restart i) (Ballots.inv_restart h.inv i)
    ((h.node i).restarted hk hs rfl (by simp [Ballots.restart]) rfl fun _ => Iff.rfl)
    (by rw [hstate]; intro hx; cases hx)
  have hepoch : ∀ j, c.epoch j ≤ (c.restart E i).epoch j := by
    intro j
    by_cases e : j = i
    · subst e; simp [Cluster.restart]
    · simp [Cluster.restart, e]
  have hout : ∀ j w T, (c.restart E i).out j w T ≤ c.out j w T := by
    intro j w T
    by_cases e : j = i
    · subst e
      -- the goroutines of the old process are gone
      refine (List.countP_eq_zero.2 fun x hx => ?_).le.trans (Nat.zero_le _)
      simp only [isBallot, decide_eq_true_eq]
      rintro ⟨rfl, -, he, -⟩
      have := h.epoch x hx _ he
      simp [Cluster.restart] at this
    · have : (c.restart E i).epoch j = c.epoch j := by simp [Cluster.restart, e]
      unfold Cluster.out
      rw [this]
      exact le_refl _
  exact
    { hput with
      epoch := fun x hx e he => (h.epoch x hx e he).trans (hepoch _)
      once := fun j w T => (hout j w T).trans (h.once j w T)
      votes := fun j hj => by
        obtain ⟨V, h1, h2, h3⟩ := hput.votes j hj
        exact ⟨V, h1, h2, fun w hw => ⟨(h3 w hw).1, Nat.le_zero.1 ((hout j w _).trans (h3 w hw).2.le)⟩⟩ }

/-! ## Every step -/

theorem ElRel.deliver (h : ElRel E c b) (hk : c.calls[k]? = some call)
    (hs : c.deliverCall E k call = some c') : ∃ b', ElRel E c' b' := by
  have hmem := List.mem_of_getElem? hk
  have hne := h.distinct call hmem
  have hb := h.backed call hmem
  cases Cluster.deliverCall_cases hs with
  | @vote req hrpc =>
    rw [hrpc] at hb
    obtain ⟨hid, ht⟩ := hb
    obtain ⟨b', hg, h', hv⟩ := h.handleRequestVote (i := call.callee) req (by rw [hid]; exact hne.symm)
      (by rw [hid]; exact ht)
    refine ⟨b', h'.setCall hk (by rw [hrpc]; rfl) ⟨ht.trans (hg.term _), fun hgr => ?_⟩⟩
    rw [← hid]
    exact hv hgr
  | @append req hrpc =>
    rw [hrpc] at hb
    obtain ⟨b', hg, h'⟩ := h.handleAppendEntries (i := call.callee) (l := call.caller) req hb hne
    exact ⟨b', h'.setCall hk (by rw [hrpc]; rfl) (hg.won _ _ hb)⟩
  | @snapshot req hrpc =>
    obtain ⟨b', hg, h'⟩ := h.handleInstallSnapshot (i := call.callee) req
    exact ⟨b', h'.setCall hk (by rw [hrpc]; rfl) trivial⟩

omit [ByteSlice δ] in
theorem ElRel.receive (h : ElRel E c b) (hk : c.calls[k]? = some call)
    (hs : c.receiveCall E k call = some c') : ∃ b', ElRel E c' b' := by
  have hd := h.dropCall k
  cases Cluster.receiveCall_cases hs with
  | voted ha hrpc => exact h.receiveVote hk ha hrpc
  | appended => exact hd.receiveAppend call.callee _ _
  | installed => exact hd.receiveSnapshot call.callee _ _

theorem ElRel.read (h : ElRel E c b) (hk : c.calls[k]? = some call)
    (hs : c.readCall E k call = some c') : ElRel E c' b := by
  obtain ⟨t, m, hrpc, rfl⟩ := Cluster.readCall_cases hs
  have hb := h.backed call (List.mem_of_getElem? hk)
  rw [hrpc] at hb
  cases hout : replicateTo E (c.node call.caller) call.callee t m with
  | none => exact h.dropCall k
  | some out =>
    have hterm := replicateTo_term hout
    cases out with
    | append req =>
      exact h.setCall hk (by rw [hrpc]; rfl) (show b.won _ (Outgoing.term (.append req : Outgoing ι κ δ)) by
        rw [hterm]; exact hb)
    | snapshot req =>
      exact h.setCall hk (by rw [hrpc]; rfl) (show b.won _ (Outgoing.term (.snapshot req : Outgoing ι κ δ)) by
        rw [hterm]; exact hb)

omit [ByteSlice δ] in
theorem ElRel.tick (h : ElRel E c b) (hs : c.tick i = some c') : ElRel E c' b := by
  have hn := h.node i
  unfold Cluster.tick at hs
  dsimp only at hs
  split at hs
  · cases hs
  · split at hs
    · cases hs
      exact h.quiet { Quiet.refl E (c.node i) with }
    · rename_i hl
      cases hs
      rw [not_not] at hl
      have hwon := h.inv.leader_won i (by rw [← hn.role, hl]; rfl)
      refine h.addCalls ?_ ?_ ?_ ?_ <;> intro x hx <;> simp only [List.mem_map, List.mem_filter] at hx <;>
        obtain ⟨p, ⟨_, hp⟩, rfl⟩ := hx
      · exact (by simpa using hp : p ≠ i).symm
      · show b.won i (c.node i).currentTerm
        rw [hn.term]; exact hwon
      · rintro e ⟨⟩; exact le_refl _
      · exact Or.inr rfl

omit [ByteSlice δ] in
theorem ElRel.appendEntry (h : ElRel E c b) {data : Except String κ} {r : Node ι κ σ S × Nat}
    (hr : Raft.appendEntry E (c.node i) data = .ok r) : ElRel E (c.put i r.1) b := by
  unfold Raft.appendEntry at hr
  split at hr
  · cases hr
  · split at hr
    · cases hr
    · cases hr
      exact h.quiet (quiet_appendLocal E _ _)

omit [ByteSlice δ] in
theorem ElRel.duplicate (h : ElRel E c b) {call : Call ι κ δ} (hc : call ∈ c.calls) :
    ElRel E { c with calls := c.calls ++ [{ call with epoch := none }] } b := by
  refine h.addCalls ?_ ?_ ?_ ?_ <;> intro x hx <;> rw [List.mem_singleton] at hx <;> subst hx
  · exact h.distinct call hc
  · exact h.backed call hc
  · rintro e ⟨⟩
  · exact Or.inl rfl

/-- **Simulation**: every step of the cluster is a step of the abstract election. -/
theorem ElRel.step (h : ElRel E c b) (hE : E.storage.KeepsState) {a : Action ι κ} (hok : restartsStored.Allows E c a)
    (hs : c.step E a = some c') : ∃ b', ElRel E c' b' := by
  cases a with
  | timeout i =>
    cases hs
    by_cases hl : (c.node i).state = .leader
    · exact ⟨b, by unfold Cluster.timeout; rw [if_pos hl]; exact h⟩
    · exact ⟨_, h.timeout hl⟩
  | tick i => exact ⟨b, h.tick hs⟩
  | heartbeatExit i =>
    simp only [Cluster.step, Cluster.heartbeatExit] at hs
    split at hs
    · cases hs
      exact ⟨b, h.quiet { Quiet.refl E (c.node i) with }⟩
    · cases hs
  | read k =>
    obtain ⟨call, hk, hs⟩ := Option.bind_eq_some_iff.1 hs
    exact ⟨b, h.read hk hs⟩
  | deliver k =>
    obtain ⟨call, hk, hs⟩ := Option.bind_eq_some_iff.1 hs
    exact h.deliver hk hs
  | duplicate k =>
    obtain ⟨call, hk, rfl⟩ := Option.map_eq_some_iff.1 hs
    exact ⟨b, h.duplicate (List.mem_of_getElem? hk)⟩
  | receive k =>
    obtain ⟨call, hk, hs⟩ := Option.bind_eq_some_iff.1 hs
    exact h.receive hk hs
  | drop k =>
    cases hs
    exact ⟨b, h.dropCall k⟩
  | append i data =>
    cases hs
    unfold Cluster.append
    split
    · rename_i n _ hr
      exact ⟨b, h.appendEntry hr⟩
    · exact ⟨b, h⟩
  | propose i data =>
    cases hs
    unfold Cluster.propose
    split
    · rename_i n _ _ hr
      exact ⟨b, { h.appendEntry hr with }⟩
    · exact ⟨b, h⟩
  | poll k =>
    obtain ⟨w, _, hs⟩ := Option.bind_eq_some_iff.1 hs
    unfold Cluster.poll at hs
    split at hs
    · cases hs
      exact ⟨b, { h with }⟩
    · cases hs
  | giveUp k =>
    cases hs
    exact ⟨b, { h with }⟩
  | restart i =>
    cases hs
    exact ⟨_, h.restart hE hok⟩

theorem ElRel.init (hc : Cluster.Init E c) : ElRel E c (.initial ι) where
  inv := Ballots.inv_initial
  node i := by
    have hf := hc.node i
    rw [hf.new]
    exact
      { id := rfl, nodup := hf.nodup, others := hf.others, term := rfl, role := rfl, vote := rfl
        led := by simp [newNode, Ballots.initial]
        stored := fun _ r hr => by
          simp only [newNode, Option.map_eq_some_iff] at hr ⊢
          obtain ⟨s, hs, rfl⟩ := hr
          rcases (hf.blank s hs).state with h0 | h0
          · exact Or.inr ⟨h0, trivial, trivial⟩
          · exact Or.inl h0 }
  distinct := by simp [hc.calls]
  backed := by simp [hc.calls]
  epoch := by simp [hc.calls]
  once := by simp [Cluster.out, hc.calls]
  votes i hi := by rw [(hc.node i).new] at hi; simp [newNode] at hi

theorem exists_ballots (hE : E.storage.KeepsState) (hc : Reach (system E) (restartsStored.Allows E) c) :
    ∃ b : Ballots ι, ElRel E c b := by
  refine hc.invariant (P := fun c => ∃ b : Ballots ι, ElRel E c b) (fun _ h0 => ⟨_, ElRel.init h0⟩) ?_
  rintro c a c' - ⟨b, h⟩ hok hs
  exact h.step hE hok hs

/-- **Election safety**: whatever is delayed, reordered, duplicated or lost, and whoever restarts from
its storage, no two nodes ever become leader in the same term. -/
theorem election_safety (hE : E.storage.KeepsState) (hc : Reach (system E) (restartsStored.Allows E) c)
    {i j : ι} {T : Nat}
    (hi : T ∈ (c.node i).ledTerms) (hj : T ∈ (c.node j).ledTerms) : i = j := by
  obtain ⟨b, h⟩ := exists_ballots hE hc
  exact h.inv.unique_winner i j T (((h.node i).led T).1 hi) (((h.node j).led T).1 hj)

/-- Node a wins term 1 with the vote of node b; nobody else can have won it. -/
theorem election_safety_first_term :
    ∃ c, Reach (system (recorderEnv Trio Unit)) (restartsStored.Allows (recorderEnv Trio Unit)) c ∧
      1 ∈ (c.node .a).ledTerms ∧
      ∀ j, 1 ∈ (c.node j).ledTerms → .a = j := by
  have hled : (execGuarded (recorderEnv Trio Unit) restartsStored
    (boot (recorderEnv Trio Unit) [.a, .b, .c] ⟨0, 0⟩ (some newInmem))
      [.timeout .a, .deliver 0, .receive 0]).map (fun c => (c.node .a).ledTerms) = some [1] := by decide +kernel
  obtain ⟨c, hc, hl⟩ := Option.map_eq_some_iff.1 hled
  have hreach := reach_of_exec (recorder_boot (by decide) (by decide) _) hc
  have hmem : 1 ∈ (c.node .a).ledTerms := by rw [hl]; decide
  exact ⟨c, hreach, hmem, fun j hj => election_safety inmem_keepsState hreach hmem hj⟩

end Raft
