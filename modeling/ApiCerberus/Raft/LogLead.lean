import ApiCerberus.Raft.LogAppend

/-!
# Replication: the leader's side

A leader commits by counting acknowledgements of an entry of its own term (`node.go:554-589`). Its
`matchIndex` may also stem from a snapshot (`node.go:470-475`), which nobody has acknowledged as a
log; what a snapshot covers has been applied, so it is committed anyway.
-/

namespace Raft

open Consensus

variable {ι κ σ δ S : Type} [DecidableEq ι] [Fintype ι] [ByteSlice δ] {E : Env ι κ σ δ S} {V : View σ}
  {a a' : Replicas ι (LogEntry κ)} {c : Cluster ι κ σ δ S} {i j : ι} {n n' : Node ι κ σ S}

/-! ## What the leader knows of its peers -/

theorem LogRel.setPeers (h : LogRel E V a (c.put i n)) {next matched : ι → Option Nat}
    (hnext : ∀ p k, next p = some k → 0 < k)
    (hmatched : n.state = .leader → ∀ p, p ≠ i →
      (matched p).getD 0 ≤ a.ack p n.currentTerm ∨ (matched p).getD 0 ≤ n.lastApplied) :
    LogRel E V a (c.put i { n with nextIndex := next, matchIndex := matched }) :=
  h.quiet { Quiet.refl E n with } { h.self with next := hnext, matched := hmatched } (le_refl _) rfl

variable {idx : Nat} {d : δ} {k : Nat}

omit [Fintype ι] in
/-- One peer's indices are set. -/
theorem NodeL.setNext (hn : NodeL E V a i n) (peer : ι) (hk : 0 < k) :
    ∀ p k', Function.update n.nextIndex peer (some k) p = some k' → 0 < k' := by
  intro p k' hp
  by_cases e : p = peer
  · subst e
    rw [Function.update_self] at hp
    cases hp
    exact hk
  · rw [Function.update_of_ne e] at hp
    exact hn.next p k' hp

omit [Fintype ι] in
theorem NodeL.setMatch (hn : NodeL E V a i n) (hs : n.state = .leader) {peer : ι}
    (hk : k ≤ a.ack peer n.currentTerm ∨ k ≤ n.lastApplied) (p : ι) (hp : p ≠ i) :
    (Function.update n.matchIndex peer (some k) p).getD 0 ≤ a.ack p n.currentTerm ∨
      (Function.update n.matchIndex peer (some k) p).getD 0 ≤ n.lastApplied := by
  by_cases e : p = peer
  · subst e; rw [Function.update_self]; exact hk
  · rw [Function.update_of_ne e]; exact hn.matched hs p hp

theorem LogRel.backtrack (h : LogRel E V a (c.put i n)) (peer : ι) (resp : AppendEntriesResponse) :
    LogRel E V a (c.put i (backtrack n peer resp)) := by
  unfold Raft.backtrack
  split
  · rename_i hc
    exact h.setPeers (h.self.setNext peer hc.2) h.self.matched
  · split
    · rename_i hc
      exact h.setPeers (h.self.setNext peer (by omega)) h.self.matched
    · exact h

theorem LogRel.recordMatch (h : LogRel E V a (c.put i n)) {peer : ι} (hk : k ≤ a.ack peer n.currentTerm) :
    LogRel E V a (c.put i (recordMatch n peer k)) := by
  refine h.setPeers (h.self.setNext peer (Nat.succ_pos k)) fun hs p hp => ?_
  split
  · exact h.self.setMatch hs (Or.inl hk) p hp
  · exact h.self.matched hs p hp

/-! ## Committing -/

omit [Fintype ι] in
theorem scanCommit_some {idx : Nat} : ∀ {k : Nat}, scanCommit n k = some idx →
    n.commitIndex < idx ∧ baseIndex n.log ≤ idx ∧ committable n idx = true
  | 0, h => by cases h
  | k + 1, h => by
    unfold scanCommit at h
    split at h
    · cases h
    · split at h
      · cases h
        exact ⟨by omega, by omega, ‹_›⟩
      · exact scanCommit_some h

omit [ByteSlice δ] in
/-- The members counted by `replicaCount` are a majority. -/
theorem NodeE.counted {b : Ballots ι} (hn : NodeE E b i n)
    (hc : (n.peers.length + 1) / 2 < replicaCount n idx) :
    ∃ Q : Finset ι, Majority Q ∧ ∀ w ∈ Q, w = i ∨ (w ≠ i ∧ idx ≤ (n.matchIndex w).getD 0) := by
  let P := n.peers.filter fun p => decide (p ≠ n.id) && decide (idx ≤ (n.matchIndex p).getD 0)
  have hmem : ∀ w, w ∈ P → w ≠ i ∧ idx ≤ (n.matchIndex w).getD 0 := by
    intro w hw
    simp only [P, List.mem_filter, Bool.and_eq_true, decide_eq_true_eq, hn.id] at hw
    exact hw.2
  have hi : i ∉ P.toFinset := fun hi => (hmem i (List.mem_toFinset.1 hi)).1 rfl
  have hcard : P.toFinset.card = P.length := List.toFinset_card_of_nodup (hn.nodup.filter _)
  refine ⟨insert i P.toFinset, ?_, fun w hw => ?_⟩
  · unfold Majority
    rw [Finset.card_insert_of_notMem hi, hcard, ← hn.card_peers]
    unfold replicaCount at hc
    rw [List.countP_eq_length_filter] at hc
    have : P.length = (n.peers.filter fun p => decide (p ≠ n.id) && decide (idx ≤ (n.matchIndex p).getD 0)).length :=
      rfl
    omega
  · rcases Finset.mem_insert.1 hw with rfl | hw
    · exact Or.inl rfl
    · exact Or.inr (hmem w (List.mem_toFinset.1 hw))

/-- What `advanceCommitIndex` is about to commit is chosen. -/
theorem LogRel.chosen (h : LogRel E V a (c.put i n)) (hs : n.state = .leader) (h0 : 0 < idx)
    (hc : committable n idx = true) : idx ≤ (a.log i).length ∧ a.Chosen n.currentTerm (idx - 1) := by
  have hn := h.self
  have hE := h.selfE
  have hrole : a.ballots.role i = .leader := by rw [← hE.role, hs]; rfl
  have hllog := h.inv.leader_log i hrole
  rw [← hE.term] at hllog
  unfold committable at hc
  cases he : entryAt n.log idx with
  | none => rw [he] at hc; cases hc
  | some e =>
    rw [he] at hc
    simp only [Bool.and_eq_true, decide_eq_true_eq] at hc
    rw [hn.log] at he
    obtain ⟨-, hlen, hterm⟩ := entryAt_window he (h.base_le i)
    obtain ⟨d, rfl⟩ : ∃ d, idx = d + 1 := ⟨idx - 1, by omega⟩
    have hd : (a.log i)[d]? = some (a.log i)[d] := List.getElem?_eq_getElem (by omega)
    rw [termAt_of_getElem? hd] at hterm
    have hown : a.Own n.currentTerm d := ⟨_, by rw [← hllog]; exact hd, hterm.symm.trans hc.1⟩
    refine ⟨hlen, ?_⟩
    show a.Chosen n.currentTerm d
    by_cases hap : d + 1 ≤ n.lastApplied
    · -- already applied: known in this term
      have hk := h.inv.leader_known hrole hn.applied
      refine h.inv.known_chosen (x := a.log i) (k := n.lastApplied) ?_ hown (by rw [hllog]; exact .refl _ _) (by omega)
      rw [hE.term]; exact hk
    · obtain ⟨Q, hQ, hw⟩ := hE.counted hc.2
      refine ⟨hown, Q, hQ, fun w hwQ => ?_⟩
      rcases hw w hwQ with rfl | ⟨hne, hm⟩
      · have hwon := h.inv.ballots.leader_won w hrole
        rw [hE.term, h.inv.ack_winner w _ hwon, ← hE.term, ← hllog]
        omega
      · rcases hn.matched hs w hne with hm' | hm' <;> omega

/-- A position that a majority has may be committed. -/
theorem LogRel.commitTo (h : LogRel E V a (c.put i n)) (hs : n.state = .leader) (h0 : 0 < idx)
    (hb : baseIndex n.log ≤ idx) (hc : committable n idx = true) :
    LogRel E V (a.commit n.currentTerm (idx - 1)) (c.put i (commitTo n idx)) := by
  obtain ⟨hlen, hch⟩ := h.chosen hs h0 hc
  have hn := h.self
  have hrole : a.ballots.role i = .leader := by rw [← h.selfE.role, hs]; rfl
  have hllog := h.inv.leader_log i hrole
  rw [← h.selfE.term] at hllog
  have hbase : baseIndex n.log = a.base i := by rw [hn.log, baseIndex_window]
  have hm := a.moves_commit i n.currentTerm (idx - 1)
  have el := h.el.quiet (i := i) (n := Raft.commitTo n idx) (by rw [Cluster.put_self]; exact { Quiet.refl E n with })
  rw [Cluster.put_put] at el
  have hnew : ∀ e, e ∈ (n.log.take (idx - baseIndex n.log + 1)).drop 1 ↔ ∃ m, a.base i ≤ m ∧ m < idx ∧
      (a.log i)[m]? = some e := by
    intro e
    rw [hbase, hn.log, window_take (hbase ▸ hb), window, List.drop_succ_cons, List.drop_zero, List.mem_iff_getElem?]
    constructor
    · rintro ⟨k, hk⟩
      rw [List.getElem?_drop, List.getElem?_take] at hk
      split at hk
      · exact ⟨_, Nat.le_add_right _ _, ‹_›, hk⟩
      · cases hk
    · rintro ⟨m, hm1, hm2, he⟩
      refine ⟨m - a.base i, ?_⟩
      rw [List.getElem?_drop, List.getElem?_take, Nat.add_sub_cancel' hm1, if_pos hm2]
      exact he
  have hcom : ∀ m e, m < idx → (a.log i)[m]? = some e → (a.commit n.currentTerm (idx - 1)).Committed m e :=
    fun m e hm he => ⟨n.currentTerm, idx - 1, Or.inr ⟨rfl, rfl⟩, by omega, by rw [← he, hllog]; rfl⟩
  have hn' := hn.frame h.inv hm.toGrows rfl rfl
  refine h.put hm el (Replicas.inv_commit h.inv hch) h.index { hn' with
    commit := ?_, committed_com := ?_ } (le_refl _) ?_ ?_
  · refine Or.inr (Or.inr ⟨n.currentTerm, idx - 1, Or.inr ⟨rfl, rfl⟩, h.selfE.term.le, ?_, ?_⟩)
    · show idx ≤ idx - 1 + 1
      omega
    · show Agree idx (a.log i) (a.llog n.currentTerm)
      rw [hllog]; exact .refl _ _
  · intro e he
    rcases List.mem_append.1 he with he | he
    · exact hn'.committed_com e he
    · obtain ⟨m, -, hm, he⟩ := (hnew e).1 he
      exact ⟨m, hcom m e hm he⟩
  · exact fun e he => List.mem_append.2 (Or.inl he)
  · rintro m e ⟨T, p, hT | ⟨rfl, rfl⟩, hmp, he⟩
    · exact Or.inl ⟨T, p, hT, hmp, he⟩
    · have he' : (a.log i)[m]? = some e := by rw [hllog]; exact he
      by_cases hmb : m < a.base i
      · obtain ⟨T, hT⟩ := h.inv.base_settled i
        exact Or.inl (hT.committed hmb he')
      · exact Or.inr (List.mem_append.2 (Or.inr ((hnew e).2 ⟨m, by omega, by omega, he'⟩)))

section
variable (hV : V.on → V.Lawful E)
include hV

theorem LogRel.advanceCommitIndex (h : LogRel E V a (c.put i n)) (hs : n.state = .leader) :
    ∃ a', a.Moves i a' ∧ LogRel E V a' (c.put i (advanceCommitIndex E n)) ∧ a'.log = a.log := by
  unfold Raft.advanceCommitIndex
  split
  · rename_i idx hscan
    obtain ⟨h1, h2, h3⟩ := scanCommit_some hscan
    have hc := h.commitTo hs (by omega) h2 h3
    obtain ⟨a', hm, h', hlog⟩ := hc.applyCommitted hV (by
      show n.state ≠ .candidate
      rw [hs]; simp)
    exact ⟨a', (a.moves_commit i _ _).trans hm, h', hlog⟩
  · exact ⟨a, .refl i a, h, rfl⟩

theorem LogRel.receiveAppend (h : LogRel E V a (c.put i n)) {peer : ι} {req : AppendEntriesRequest ι κ}
    {resp : AppendEntriesResponse}
    (hack : resp.success = true → a.ballots.term i = req.term →
      req.prevLogIndex + req.entries.length ≤ a.ack peer req.term) :
    ∃ a', a.Moves i a' ∧ LogRel E V a' (c.put i (receiveAppend E n peer req resp)) ∧ a'.log = a.log := by
  unfold Raft.receiveAppend
  split
  · rename_i hT
    exact ⟨_, a.moves_ballots (a.ballots.moves_bump (by rw [← h.selfE.term]; exact hT)), h.becomeFollower hV hT, rfl⟩
  · split
    · exact ⟨a, .refl i a, h, rfl⟩
    · rename_i hcond
      simp only [not_or, not_not] at hcond
      split
      · rename_i hsucc
        have hk := hack hsucc (h.selfE.term.symm.trans hcond.2)
        rw [← hcond.2] at hk
        exact (h.recordMatch hk).advanceCommitIndex hV hcond.1
      · exact ⟨a, .refl i a, h.backtrack peer resp, rfl⟩

theorem LogRel.receiveSnapshot (h : LogRel E V a (c.put i n)) (peer : ι) {req : InstallSnapshotRequest ι δ}
    (resp : InstallSnapshotResponse) (hle : req.lastIncludedIndex ≤ n.lastApplied) :
    ∃ a', a.Moves i a' ∧ LogRel E V a' (c.put i (receiveSnapshot E n peer req resp)) ∧ a'.log = a.log := by
  unfold Raft.receiveSnapshot
  split
  · rename_i hT
    exact ⟨_, a.moves_ballots (a.ballots.moves_bump (by rw [← h.selfE.term]; exact hT)), h.becomeFollower hV hT, rfl⟩
  · refine ⟨a, .refl i a, ?_, rfl⟩
    split
    · exact h.setPeers (h.self.setNext peer (Nat.succ_pos _)) fun hs p hp => h.self.setMatch hs (Or.inr hle) p hp
    · exact h

/-! ## Appending and sending -/

/-- The abstract leader appends the same entry. -/
theorem LogRel.appendLocal (h : LogRel E V a (c.put i n)) (hs : n.state = .leader) (d : κ) :
    LogRel E V (a.append i (newEntry n d)) (c.put i (appendLocal E n d)) := by
  have hn := h.self
  have hrole : a.ballots.role i = .leader := by rw [← h.selfE.role, hs]; rfl
  have hlast : lastLogIndex n.log = (a.log i).length := by
    rw [hn.log]; exact lastLogIndex_window (h.indexed i) (h.base_le i)
  have hm := Replicas.moves_append h.inv hrole (newEntry n d)
  have el := h.el.quiet (i := i) (n := Raft.appendLocal E n d) (by rw [Cluster.put_self]; exact quiet_appendLocal E n d)
  rw [Cluster.put_put] at el
  have happ := h.inv.safe_le hn.applied
  have hag : ∀ k, k ≤ (a.log i).length → Agree k (a.log i ++ [newEntry n d]) (a.log i) := fun k hk => agree_append _ hk
  have hlog : (a.append i (newEntry n d)).log i = a.log i ++ [newEntry n d] := by simp [Replicas.append]
  have hidx : Indexed 1 (a.log i ++ [newEntry n d]) := by
    refine (h.indexed i).append (indexed_one ?_)
    show lastLogIndex n.log + 1 = _
    omega
  have hsafe : ∀ k, a.Safe i k → (a.append i (newEntry n d)).Safe i k := by
    intro k hk
    rcases hk with hb | hk
    · exact Or.inl hb
    · right
      show Replicas.Settled _ _ _ k
      rw [hlog]
      exact (h.inv.settled_grow hk hm.toGrows).congr (hag k (h.inv.settled_le hk))
  refine h.put hm el (Replicas.inv_append h.inv hrole h.selfE.term) ?_ ?_ (le_refl _) (fun _ => id)
    fun _ _ he => Or.inl (h.inv.committed_of_grows hm.toGrows rfl he)
  · intro T
    simp only [Replicas.append, Function.update_apply]
    split
    · exact hidx
    · exact h.index T
  · exact
      { log := by
          show n.log ++ [newEntry n d] = _
          rw [hlog, hn.log]
          exact (window_append _ (h.base_le i)).symm
        commit := hsafe _ hn.commit
        applied := hsafe _ hn.applied
        base_le := hn.base_le
        snap_le := hn.snap_le
        snap_term := by
          show n.lastSnapshotTerm = termAt _ n.lastSnapshotIndex
          rw [hlog, termAt_of_agree (hag _ happ) hn.snap_le]; exact hn.snap_term
        snap_pos := hn.snap_pos
        next := hn.next
        matched := fun hl p hp => by
          have := hn.matched hl p hp
          have hack := hm.ack p n.currentTerm
          show (Function.update n.matchIndex n.id _ p).getD 0 ≤ _ ∨
            (Function.update n.matchIndex n.id _ p).getD 0 ≤ n.lastApplied
          rw [h.selfE.id, Function.update_of_ne hp]
          exact this.imp (fun h1 => h1.trans hack) id
        applied_com := fun e he => (hn.applied_com e he).imp fun m hc => h.inv.committed_grow hc hm.toGrows
        committed_com := fun e he => (hn.committed_com e he).imp fun m hc => h.inv.committed_grow hc hm.toGrows
        fsm := by
          show Shows E V n.fsm (((a.append i (newEntry n d)).log i).take n.lastApplied)
          rw [hlog, take_of_agree (hag _ happ) (le_refl _)]; exact hn.fsm
        stored := fun hon s hs' idx t dd hd hl => by
          obtain ⟨s', hst, rfl⟩ := Option.map_eq_some_iff.1 hs'
          rw [(hV hon).storage.saveLog] at hd
          obtain ⟨h1, h2⟩ := hn.stored hon s' hst idx t dd hd hl
          refine ⟨h1, ?_⟩
          rw [hlog, take_of_agree (hag _ happ) h1]
          exact h2 }

end

/-- The snapshot a node is about to send is the one its label says: what the storage holds, or else
what the state machine has applied. -/
def Labelled (E : Env ι κ σ δ S) (n : Node ι κ σ S) : Prop :=
  match n.storage.bind E.storage.loadSnapshot with
  | some (index, _, data) =>
    if 0 < ByteSlice.len data then index = n.lastSnapshotIndex else n.lastApplied = n.lastSnapshotIndex
  | none => n.lastApplied = n.lastSnapshotIndex

/-- Up to where the entries have been applied that a snapshot a node is about to send stands for. -/
def dataIndex (E : Env ι κ σ δ S) (n : Node ι κ σ S) : Nat :=
  match n.storage.bind E.storage.loadSnapshot with
  | some (index, _, data) => if 0 < ByteSlice.len data then index else n.lastApplied
  | none => n.lastApplied

omit [DecidableEq ι] [Fintype ι] in
theorem labelled_iff : Labelled E n ↔ dataIndex E n = n.lastSnapshotIndex := by
  unfold Labelled dataIndex
  split
  · split <;> rfl
  · rfl

omit [DecidableEq ι] [Fintype ι] in
/-- What is sent is in the storage, or it is what the state machine shows now. -/
theorem snapshotData_cases (hd : snapshotData E n = some d) :
    (∃ s index t, n.storage = some s ∧ E.storage.loadSnapshot s = some (index, t, d) ∧ 0 < ByteSlice.len d ∧
      dataIndex E n = index) ∨
      (E.fsm.snapshot n.fsm = some d ∧ dataIndex E n = n.lastApplied) := by
  have hlive : liveSnapshot E n = some d → E.fsm.snapshot n.fsm = some d := by
    intro hl
    unfold liveSnapshot at hl
    split at hl
    · rename_i d' hd'
      split at hl
      · cases hl
      · rwa [← Option.some.inj hl]
    · cases hl
  unfold snapshotData at hd
  unfold dataIndex
  cases hload : n.storage.bind E.storage.loadSnapshot with
  | none =>
    simp only [hload] at hd
    exact Or.inr ⟨hlive hd, rfl⟩
  | some r =>
    obtain ⟨idx, t, d'⟩ := r
    simp only [hload] at hd
    split at hd
    · rename_i hlen
      cases hd
      obtain ⟨s, hs, hload⟩ := Option.bind_eq_some_iff.1 hload
      exact Or.inl ⟨s, idx, t, hs, hload, hlen, if_pos hlen⟩
    · rename_i hlen
      exact Or.inr ⟨hlive hd, if_neg hlen⟩

omit [DecidableEq ι] [Fintype ι] in
theorem NodeL.dataIndex_le (hon : V.on) (hn : NodeL E V a i n)
    (hd : snapshotData E n = some d) : dataIndex E n ≤ n.lastApplied := by
  rcases snapshotData_cases hd with ⟨s, idx, t, hs, hload, hlen, hidx⟩ | ⟨-, hidx⟩
  · rw [hidx]
    exact (hn.stored hon s hs idx t d hload hlen).1
  · exact hidx.le

omit [DecidableEq ι] [Fintype ι] in
/-- What is sent stands for the entries up to `dataIndex`. -/
theorem NodeL.holds_snapshotData (hV : V.on → V.Lawful E) (hn : NodeL E V a i n) (hd : Raft.snapshotData E n = some d) :
    Holds E V d ((a.log i).take (dataIndex E n)) := by
  intro f f' hr hon
  rcases snapshotData_cases hd with ⟨s, idx, t, hs, hload, hlen, hidx⟩ | ⟨hsnap, hidx⟩
  · rw [hidx]
    exact (hn.stored hon s hs idx t d hload hlen).2 f f' hr hon
  · rw [hidx]
    exact hn.fsm.snapshot hV hsnap f f' hr hon

omit [DecidableEq ι] [Fintype ι] in
theorem NodeL.snapshotData (hV : V.on → V.Lawful E) (hn : NodeL E V a i n) (hlab : V.on → Labelled E n)
    (hd : snapshotData E n = some d) : Holds E V d ((a.log i).take n.lastSnapshotIndex) := by
  intro f f' hr hon
  rw [← labelled_iff.1 (hlab hon)]
  exact hn.holds_snapshotData hV hd f f' hr hon

/-- What `replicateTo` reads is a part of the full log, or it carries no previous term. -/
theorem LogRel.slice (h : LogRel E V a (c.put i n)) {prev limit : Nat}
    (hsnap : ¬ (0 < n.lastSnapshotIndex ∧ prev + 1 ≤ n.lastSnapshotIndex))
    {req : AppendEntriesRequest ι κ} (hp : req.prevLogIndex = prev) (ht : req.prevLogTerm = prevLogTerm n.log prev)
    (he : req.entries = entriesFrom n.log limit (prev + 1)) :
    (0 < req.prevLogIndex ∧ req.prevLogTerm = 0) ∨ Slice req (a.log i) := by
  have hn := h.self
  rw [hn.log] at ht he
  by_cases hin : a.base i ≤ prev ∧ prev ≤ (a.log i).length
  · right
    exact
      { prev_le := by rw [hp]; exact hin.2
        prev_term := by rw [hp, ht]; exact prevLogTerm_window (h.base_le i) hin.1 hin.2
        entries := by rw [hp, he]; exact entriesFrom_window hin.1 limit }
  · left
    refine ⟨?_, by rw [ht]; exact prevLogTerm_window_none (h.base_le i) (by omega)⟩
    -- `PrevLogIndex = 0` is only below the base of a node that sends its snapshot instead
    have := hn.snap_pos
    omega

end Raft
