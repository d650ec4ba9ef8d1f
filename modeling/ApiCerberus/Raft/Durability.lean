import ApiCerberus.Raft.Replay

/-!
# What is committed stays

`CommitIndex` is one node's word. It binds the others, compaction or not, as long as the requests fit (`consistent`): an
entry up to it is held by a majority of the nodes (`committed_on_majority`) and by every leader of the same or a later
term (`leader_completeness`). What remains of the logs matches (`log_matching_compacted`), and nodes apply the same
entries (`applied_agree`). With up-to-date snapshots, the state machines agree as well (`replicas_converge`).
-/

namespace Raft

open Consensus Transition

variable {ι κ σ δ S : Type} [DecidableEq ι] [Fintype ι] [ByteSlice δ] {E : Env ι κ σ δ S} {V : View σ}
  {a : Replicas ι (LogEntry κ)} {c : Cluster ι κ σ δ S} {i j : ι} {k : Nat}

/-- The logs without the state machines. -/
theorem exists_logs (hc : Reach (system E) (consistent.Allows E) c) : ∃ a, LogRel E (blind σ) a c :=
  exists_replicas False.elim (hc.mono fun _ _ => sound_of_consistent)

/-- What a node holds below its `CommitIndex` is covered by a commitment of a term it has reached. -/
theorem LogRel.commitment (h : LogRel E V a c) (hb : baseIndex (c.node i).log < k) (hk : k ≤ (c.node i).commitIndex) :
    ∃ T p, a.com T p ∧ T ≤ (c.node i).currentTerm ∧ k ≤ p + 1 ∧ Agree k (a.log i) (a.llog T) := by
  rw [(h.node i).log, baseIndex_window] at hb
  rcases (h.node i).commit with hbase | hknown
  · omega
  · rcases hknown.sub hk with rfl | hcom
    · omega
    · rwa [(h.el.node i).term]

theorem LogRel.entryAt_eq (h : LogRel E V a c) (hag : Agree k (a.log i) (a.log j)) (hi : baseIndex (c.node i).log < k)
    (hj : baseIndex (c.node j).log < k) : entryAt (c.node i).log k = entryAt (c.node j).log k := by
  rw [(h.node i).log, baseIndex_window] at hi
  rw [(h.node j).log, baseIndex_window] at hj
  obtain ⟨m, rfl⟩ : ∃ m, k = m + 1 := ⟨k - 1, by omega⟩
  rw [(h.node i).log, (h.node j).log, entryAt_window_succ (by omega), entryAt_window_succ (by omega)]
  exact hag m (by omega)

/-- **Leader completeness**: what a node has committed is in the log of every leader of its term or a later one. -/
theorem leader_completeness (hc : Reach (system E) (consistent.Allows E) c) (hl : (c.node j).state = .leader)
    (hterm : (c.node i).currentTerm ≤ (c.node j).currentTerm) (hk : k ≤ (c.node i).commitIndex)
    (hi : baseIndex (c.node i).log < k) (hj : baseIndex (c.node j).log < k) :
    entryAt (c.node i).log k = entryAt (c.node j).log k := by
  obtain ⟨a, h⟩ := exists_logs hc
  obtain ⟨T, p, hcom, hT, hp, hag⟩ := h.commitment hi hk
  have hrole : a.ballots.role j = .leader := by rw [← (h.el.node j).role, hl]; rfl
  have hleads : Agree k (a.llog T) (a.log j) := by
    rw [h.inv.leader_log j hrole, ← (h.el.node j).term]
    rcases Nat.eq_or_lt_of_le (hT.trans hterm) with heq | hlt
    · rw [heq]
      exact .refl _ _
    · have hwon := h.inv.ballots.leader_won j hrole
      rw [← (h.el.node j).term] at hwon
      exact (h.inv.complete T p _ j (h.inv.chosen T p hcom).choosable hlt hwon).sub hp
  exact h.entryAt_eq (hag.trans hleads) hi hj

/-- **A majority holds it**: what a node has committed, every node of some majority has at the same index or in its
snapshot. -/
theorem committed_on_majority (hc : Reach (system E) (consistent.Allows E) c) (hk : k ≤ (c.node i).commitIndex)
    (hi : baseIndex (c.node i).log < k) :
    ∃ Q : Finset ι, Majority Q ∧ ∀ j ∈ Q, k ≤ lastLogIndex (c.node j).log ∧
      (baseIndex (c.node j).log < k → entryAt (c.node i).log k = entryAt (c.node j).log k) := by
  obtain ⟨a, h⟩ := exists_logs hc
  obtain ⟨T, p, hcom, -, hp, hag⟩ := h.commitment hi hk
  have hchoosable := (h.inv.chosen T p hcom).choosable
  obtain ⟨hown, Q, hQ, hack⟩ := h.inv.chosen T p hcom
  refine ⟨Q, hQ, fun j hj => ?_⟩
  have hheld := (h.inv.hold T p j hchoosable (Or.inl (hack j hj))).1
  refine ⟨?_, fun hbase => h.entryAt_eq (hag.trans (hheld.sub hp).symm) hi hbase⟩
  rw [(h.node j).log, lastLogIndex_window (h.indexed j) (h.base_le j)]
  obtain ⟨e, he, -⟩ := hown
  rw [← hheld p (by omega)] at he
  have := (List.getElem?_eq_some_iff.1 he).1
  omega

/-- **Log matching** with compaction: logs that hold entries with the same index and term are the same up to there,
wherever both still have their entries. -/
theorem log_matching_compacted (hc : Reach (system E) (consistent.Allows E) c) {m : Nat} {e f : LogEntry κ}
    (he : entryAt (c.node i).log m = some e) (hf : entryAt (c.node j).log m = some f)
    (hterm : e.term = f.term) (hk : k ≤ m)
    (hi : baseIndex (c.node i).log < k) (hj : baseIndex (c.node j).log < k) :
      entryAt (c.node i).log k = entryAt (c.node j).log k := by
  obtain ⟨a, h⟩ := exists_logs hc
  have hfull : ∀ {i e}, baseIndex (c.node i).log < m → entryAt (c.node i).log m = some e →
      (a.log i)[m - 1]? = some e := by
    intro i e hb he
    rw [(h.node i).log, baseIndex_window] at hb
    obtain ⟨d, rfl⟩ : ∃ d, m = d + 1 := ⟨m - 1, by omega⟩
    rwa [(h.node i).log, entryAt_window_succ (by omega)] at he
  have hag := (h.inv.log_canon i).agree (h.inv.log_canon j) (hfull (by omega) he) (hfull (by omega) hf) hterm
  exact h.entryAt_eq (hag.sub (by omega)) hi hj

/-- **State machine safety** with compaction and snapshots: no two nodes ever pass different entries with the same index
to `Apply`. -/
theorem applied_agree (hc : Reach (system E) (consistent.Allows E) c) {e f : LogEntry κ} (he : e ∈ (c.node i).applied)
    (hf : f ∈ (c.node j).applied) (hidx : e.index = f.index) : e = f := by
  obtain ⟨a, h⟩ := exists_logs hc
  obtain ⟨m, hm⟩ := (h.node i).applied_com e he
  obtain ⟨m', hm'⟩ := (h.node j).applied_com f hf
  have hindex := h.committed_index hm
  have hindex' := h.committed_index hm'
  obtain rfl : m = m' := by omega
  exact h.inv.committed_unique hm hm'

/-! ### A run with compaction -/

abbrev Reached := Reach (system (recorderEnv Trio Unit)) (consistent.Allows (recorderEnv Trio Unit))

/-- Nodes a and b have dropped two entries after a snapshot and have committed a third one. -/
abbrev ThirdEntry (c : Cluster Trio Unit (List (LogEntry Unit)) (List (LogEntry Unit))
    (Inmem Trio Unit (List (LogEntry Unit)))) : Prop :=
  (c.node .a).state = .leader ∧ (c.node .b).currentTerm = (c.node .a).currentTerm ∧
    ∀ i ∈ [Trio.a, .b], baseIndex (c.node i).log = 2 ∧ (c.node i).commitIndex = 3 ∧
      entryAt (c.node i).log 3 = some ⟨3, 1, some ()⟩ ∧ ⟨3, 1, some ()⟩ ∈ (c.node i).applied

theorem exists_thirdEntry : ∃ c, Reached c ∧ ThirdEntry c := by
  have hrun : (execGuarded (recorderEnv Trio Unit) consistent
    (boot (recorderEnv Trio Unit) [.a, .b, .c] ⟨10, 2⟩ (some newInmem))
      [.timeout .a, .deliver 0, .receive 0, .append .a (.ok ()), .append .a (.ok ()), .tick .a, .read 1,
        .deliver 1, .receive 1,
        .append .a (.ok ()), .tick .a, .read 2, .deliver 2, .receive 2, .tick .a, .read 3, .deliver 3]).map
      (fun c => decide (ThirdEntry c)) = some true := by decide +kernel
  obtain ⟨c, hc, hthird⟩ := Option.map_eq_some_iff.1 hrun
  exact ⟨c, reach_of_exec (recorder_boot (by decide) (by decide) _) hc, of_decide_eq_true hthird⟩

theorem leader_completeness_thirdEntry :
    ∃ c, Reached c ∧ (c.node .b).commitIndex = 3 ∧ entryAt (c.node .b).log 3 = entryAt (c.node .a).log 3 := by
  obtain ⟨c, hc, hl, hterm, hnodes⟩ := exists_thirdEntry
  have ha := (hnodes .a (by decide)).1
  obtain ⟨hb, hcommit, -⟩ := hnodes .b (by decide)
  exact ⟨c, hc, hcommit, leader_completeness hc hl hterm.le hcommit.ge (by omega) (by omega)⟩

theorem committed_on_majority_thirdEntry :
    ∃ c, Reached c ∧ ∃ Q : Finset Trio, Majority Q ∧ ∀ j ∈ Q, 3 ≤ lastLogIndex (c.node j).log := by
  obtain ⟨c, hc, -, -, hnodes⟩ := exists_thirdEntry
  obtain ⟨hb, hcommit, -⟩ := hnodes .b (by decide)
  obtain ⟨Q, hQ, hheld⟩ := committed_on_majority hc hcommit.ge (by omega)
  exact ⟨c, hc, Q, hQ, fun j hj => (hheld j hj).1⟩

theorem log_matching_compacted_thirdEntry :
    ∃ c, Reached c ∧ baseIndex (c.node .a).log = 2 ∧ entryAt (c.node .a).log 3 = entryAt (c.node .b).log 3 := by
  obtain ⟨c, hc, -, -, hnodes⟩ := exists_thirdEntry
  obtain ⟨ha, -, he, -⟩ := hnodes .a (by decide)
  obtain ⟨hb, -, hf, -⟩ := hnodes .b (by decide)
  exact ⟨c, hc, ha, log_matching_compacted hc he hf rfl (le_refl 3) (by omega) (by omega)⟩

theorem applied_agree_thirdEntry :
    ∃ c, Reached c ∧ baseIndex (c.node .b).log = 2 ∧ ∀ e ∈ (c.node .a).applied, e.index = 3 → e = ⟨3, 1, some ()⟩ := by
  obtain ⟨c, hc, -, -, hnodes⟩ := exists_thirdEntry
  obtain ⟨hb, -, -, hf⟩ := hnodes .b (by decide)
  exact ⟨c, hc, hb, fun e he hidx => applied_agree hc he hf hidx⟩

/-! ## The state machines -/

/-- **The replicas converge**: state machines that have applied equally much are the same, whether the entries came one
by one or with a snapshot. -/
theorem replicas_converge {storage : Storage ι Text Text S} {c : Cluster ι Text (Except Panic GatewayFSM) Text S}
    (hst : storage.KeepsSnapshot)
    (hc : Reach (system (gatewayEnv storage)) ((upToDateOnly (gatewayEnv storage)).Allows (gatewayEnv storage)) c)
    (heq : (c.node i).lastApplied = (c.node j).lastApplied) : SameState (c.node i).fsm (c.node j).fsm := by
  obtain ⟨a, h⟩ := exists_replicas (V := ⟨True, SameState⟩) (fun _ => sameState_lawful hst)
    (hc.mono fun _ _ => sound_of_upToDate)
  obtain ⟨T, hT⟩ := h.inv.safe_settled (h.node i).applied
  obtain ⟨T', hT'⟩ := h.inv.safe_settled (h.node j).applied
  have hag := h.inv.settled_agree hT hT'
  have hlog : (a.log i).take (c.node i).lastApplied = (a.log j).take (c.node j).lastApplied := by
    rw [← heq] at hag ⊢
    exact take_of_agree hag (by omega)
  have hi : SameState (c.node i).fsm _ := (h.node i).fsm trivial
  have hj : SameState (c.node j).fsm _ := (h.node j).fsm trivial
  rw [hlog] at hi
  exact Eq.trans hi hj.symm

/-- Node a has applied two entries, and node c got them with two snapshots. -/
theorem replicas_converge_snapshot :
    ∃ c, Reach (system inmemEnv) ((upToDateOnly inmemEnv).Allows inmemEnv) c ∧ (c.node .c).lastSnapshotIndex = 2 ∧
      (c.node .a).lastApplied = (c.node .c).lastApplied ∧ SameState (c.node .a).fsm (c.node .c).fsm := by
  have hrun : (execGuarded inmemEnv (upToDateOnly inmemEnv) eager snapshotRun).map
      (fun c => ((c.node .c).lastSnapshotIndex, (c.node .a).lastApplied, (c.node .c).lastApplied)) = some (2, 2, 2) :=
        by decide +kernel
  obtain ⟨c, hc, hview⟩ := Option.map_eq_some_iff.1 hrun
  simp only [Prod.mk.injEq] at hview
  have hreach := reach_of_exec eager_init hc
  have heq : (c.node .a).lastApplied = (c.node .c).lastApplied := hview.2.1.trans hview.2.2.symm
  exact ⟨c, hreach, hview.1, heq, replicas_converge inmem_keepsSnapshot hreach heq⟩

end Raft
