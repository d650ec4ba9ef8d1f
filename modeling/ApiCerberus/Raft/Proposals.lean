import ApiCerberus.Raft.Instances
import ApiCerberus.Raft.Simulation

/-!
# Proposals

`ClusterManager.Propose` appends an entry and then waits until `CommitIndex` reaches its index
(`cluster.go:393-410`, `node.go:800-820`). It does not look at the log again: if another leader has
replaced the entry meanwhile, the call returns nil for a command that was never committed.

The answer is right as long as no request the node handles takes the entry away while the call
waits.
-/

namespace Raft

open Consensus Transition

variable {ι κ σ δ S : Type} [DecidableEq ι] [ByteSlice δ] {E : Env ι κ σ δ S} {c c' : Cluster ι κ σ δ S}

/-- No request takes away an entry that somebody waits for. -/
def KeepsWaiting (E : Env ι κ σ δ S) (c : Cluster ι κ σ δ S) (act : Action ι κ) : Prop :=
  ∀ w ∈ c.waiting, (keeps w.node w.entry.index).Allows E c act

instance (E : Env ι κ σ δ S) (c : Cluster ι κ σ δ S) (act : Action ι κ) : Decidable (KeepsWaiting E c act) :=
  inferInstanceAs (Decidable (∀ w ∈ c.waiting, _))

/-- Only `Propose` itself touches the list of proposals. -/
theorem step_waiting {act : Action ι κ} (hs : c.step E act = some c') :
    (c'.waiting = c.waiting ∧ c'.returned = c.returned) ∨ (∃ i data, act = .propose i data) ∨ (∃ k, act = .poll k) ∨
      ∃ k, act = .giveUp k := by
  cases act with
  | propose i data => exact Or.inr (Or.inl ⟨i, data, rfl⟩)
  | poll k => exact Or.inr (Or.inr (Or.inl ⟨k, rfl⟩))
  | giveUp k => exact Or.inr (Or.inr (Or.inr ⟨k, rfl⟩))
  | timeout i =>
    cases hs
    unfold Cluster.timeout
    split <;> exact Or.inl ⟨rfl, rfl⟩
  | tick i =>
    simp only [Cluster.step, Cluster.tick] at hs
    split at hs
    · cases hs
    · split at hs <;> cases hs <;> exact Or.inl ⟨rfl, rfl⟩
  | heartbeatExit i =>
    simp only [Cluster.step, Cluster.heartbeatExit] at hs
    split at hs <;> cases hs
    exact Or.inl ⟨rfl, rfl⟩
  | read k =>
    obtain ⟨call, _, hs⟩ := Option.bind_eq_some_iff.1 hs
    obtain ⟨t, m, _, rfl⟩ := Cluster.readCall_cases hs
    unfold Cluster.sendOut
    split <;> exact Or.inl ⟨rfl, rfl⟩
  | deliver k =>
    obtain ⟨call, _, hs⟩ := Option.bind_eq_some_iff.1 hs
    cases Cluster.deliverCall_cases hs <;> exact Or.inl ⟨rfl, rfl⟩
  | duplicate k =>
    obtain ⟨_, _, rfl⟩ := Option.map_eq_some_iff.1 hs
    exact Or.inl ⟨rfl, rfl⟩
  | receive k =>
    obtain ⟨call, _, hs⟩ := Option.bind_eq_some_iff.1 hs
    cases Cluster.receiveCall_cases hs <;> exact Or.inl ⟨rfl, rfl⟩
  | drop k => cases hs; exact Or.inl ⟨rfl, rfl⟩
  | append i data =>
    cases hs
    unfold Cluster.append
    split <;> exact Or.inl ⟨rfl, rfl⟩
  | restart i => cases hs; exact Or.inl ⟨rfl, rfl⟩

variable [Fintype ι] {a : Replicas ι (LogEntry κ)}

/-- An entry somebody waits for is in the log; one that has been answered for is committed. -/
structure PropRel (E : Env ι κ σ δ S) (a : Replicas ι (LogEntry κ)) (c : Cluster ι κ σ δ S) : Prop where
  rel : LogRel E (blind σ) a c
  waiting : ∀ w ∈ c.waiting, ∃ m, w.entry.index = m + 1 ∧ (a.log w.node)[m]? = some w.entry
  returned : ∀ w ∈ c.returned, ∃ m, a.Committed m w.entry

theorem PropRel.propose (h : PropRel E a c) (i : ι) (data : Except String κ) :
    ∃ a', PropRel E a' (c.propose E i data) := by
  unfold Cluster.propose
  split
  · rename_i n idx d hr
    obtain ⟨d', a', hd, g, h', hpre, hlog⟩ := h.rel.appendEntry False.elim hr
    cases hd
    have hlast : lastLogIndex (c.node i).log = (a.log i).length := by
      rw [(h.rel.node i).log]; exact lastLogIndex_window (h.rel.indexed i) (h.rel.base_le i)
    refine ⟨a', { h' with el := { h'.el with } }, fun w hw => ?_, fun w hw => ?_⟩
    · rcases List.mem_append.1 hw with hw | hw
      · obtain ⟨m, hm, he⟩ := h.waiting w hw
        obtain ⟨t, ht⟩ := hpre w.node
        refine ⟨m, hm, ?_⟩
        rw [← ht, List.getElem?_append_left (List.getElem?_eq_some_iff.1 he).1]
        exact he
      · rw [List.mem_singleton] at hw
        subst hw
        refine ⟨(a.log i).length, ?_, ?_⟩
        · show lastLogIndex (c.node i).log + 1 = _
          omega
        · show (a'.log i)[(a.log i).length]? = _
          rw [hlog, List.getElem?_append_right (le_refl _)]
          simp
    · obtain ⟨m, hm⟩ := h.returned w hw
      exact ⟨m, h.rel.inv.committed_grow hm g⟩
  · exact ⟨a, h⟩

/-- `WaitForCommit` returns: what it finds below `CommitIndex` is committed. -/
theorem PropRel.poll (h : PropRel E a c) {k : Nat} {w : Proposal ι κ} (hk : c.waiting[k]? = some w)
    (hs : c.poll k w = some c') : PropRel E a c' := by
  unfold Cluster.poll at hs
  split at hs
  · rename_i hc
    cases hs
    refine ⟨{ h.rel with el := { h.rel.el with } }, fun v hv => h.waiting v (List.mem_of_mem_eraseIdx hv),
      fun v hv => ?_⟩
    rcases List.mem_append.1 hv with hv | hv
    · exact h.returned v hv
    · rw [List.mem_singleton] at hv
      subst hv
      obtain ⟨m, hm, he⟩ := h.waiting v (List.mem_of_getElem? hk)
      obtain ⟨T, hT⟩ := h.rel.inv.safe_settled (h.rel.node v.node).commit
      exact ⟨m, hT.committed (by omega) he⟩
  · cases hs

theorem PropRel.step (h : PropRel E a c) {act : Action ι κ} (hok : consistent.Allows E c act)
    (hkeep : KeepsWaiting E c act)
    (hs : c.step E act = some c') : ∃ a', PropRel E a' c' := by
  obtain ⟨hw, hret⟩ | ⟨i, data, rfl⟩ | ⟨k, rfl⟩ | ⟨k, rfl⟩ := step_waiting hs
  · obtain ⟨a', hstep, h'⟩ := h.rel.step False.elim (sound_of_consistent hok) hs
    refine ⟨a', h', fun w hw' => ?_, fun w hw' => ?_⟩
    · rw [hw] at hw'
      obtain ⟨m, hm, he⟩ := h.waiting w hw'
      refine ⟨m, hm, ?_⟩
      rw [hstep.kept w.node m (List.getElem?_eq_some_iff.1 he).1 (by rw [← hm]; exact hkeep w hw')]
      exact he
    · rw [hret] at hw'
      obtain ⟨m, hm⟩ := h.returned w hw'
      exact ⟨m, h.rel.inv.committed_grow hm hstep.grows⟩
  · cases hs
    exact h.propose i data
  · obtain ⟨w, hk, hs⟩ := Option.bind_eq_some_iff.1 hs
    exact ⟨a, h.poll hk hs⟩
  · cases hs
    exact ⟨a, { h.rel with el := { h.rel.el with } }, fun w hw => h.waiting w (List.mem_of_mem_eraseIdx hw), h.returned⟩

/-- **A proposal that has returned nil is committed**, and nothing else is at its index, if no request
takes away an entry that somebody waits for. -/
theorem proposal_committed (hc : Reach (system E) (fun c act => consistent.Allows E c act ∧ KeepsWaiting E c act) c)
    {w : Proposal ι κ} (hw : w ∈ c.returned) :
    (∃ i, w.entry ∈ (c.node i).committed) ∧
      ∀ i, ∀ e ∈ (c.node i).committed, e.index = w.entry.index → e = w.entry := by
  have hrel : ∃ a : Replicas ι (LogEntry κ), PropRel E a c := by
    refine hc.invariant (P := fun c => ∃ a : Replicas ι (LogEntry κ), PropRel E a c) (fun c₀ h₀ => ?_) ?_
    · exact ⟨_, LogRel.init False.elim h₀, by simp [h₀.waiting], by simp [h₀.returned]⟩
    · rintro c act c' - ⟨a, h⟩ ⟨hok, hkeep⟩ hs
      exact h.step hok hkeep hs
  obtain ⟨a, h⟩ := hrel
  obtain ⟨m, hm⟩ := h.returned w hw
  refine ⟨h.rel.marked m _ hm, fun i e he hidx => ?_⟩
  obtain ⟨m', hm'⟩ := (h.rel.node i).committed_com e he
  have h1 := h.rel.committed_index hm
  have h2 := h.rel.committed_index hm'
  obtain rfl : m = m' := by omega
  exact h.rel.inv.committed_unique hm' hm

/-- Three nodes, compaction off, commands are booleans. -/
def booleans : Cluster Trio Bool (List (LogEntry Bool)) (List (LogEntry Bool))
    (Inmem Trio Bool (List (LogEntry Bool))) :=
  boot (recorderEnv Trio Bool) [.a, .b, .c] ⟨10, 0⟩ (some newInmem)

/-- Node a proposes an entry, commits it with node b, and answers. -/
theorem proposal_committed_firstTerm :
    ∃ c w, Reach (system (recorderEnv Trio Bool))
        (fun c act => consistent.Allows (recorderEnv Trio Bool) c act ∧ KeepsWaiting (recorderEnv Trio Bool) c act) c ∧
      w ∈ c.returned ∧ w.entry = ⟨1, 1, some true⟩ ∧ ∃ i, w.entry ∈ (c.node i).committed := by
  have hrun : ((system (recorderEnv Trio Bool)).exec
      (fun c act => consistent.Allows (recorderEnv Trio Bool) c act ∧ KeepsWaiting (recorderEnv Trio Bool) c act)
      booleans [.timeout .a, .deliver 0, .receive 0, .propose .a (.ok true), .tick .a, .read 1, .deliver 1, .receive 1,
        .poll 0]).map (fun c => c.returned.map (·.entry)) = some [⟨1, 1, some true⟩] := by decide +kernel
  obtain ⟨c, hc, hret⟩ := Option.map_eq_some_iff.1 hrun
  obtain ⟨w, hw, he⟩ : ∃ w ∈ c.returned, w.entry = ⟨1, 1, some true⟩ := by
    have : (⟨1, 1, some true⟩ : LogEntry Bool) ∈ c.returned.map (·.entry) := by
      rw [hret]; exact List.mem_singleton.2 rfl
    simpa using this
  have hreach := (⟨booleans, recorder_boot (by decide) (by decide) _, Run.of_exec _ hc⟩ : Reach _ _ c)
  exact ⟨c, w, hreach, hw, he, (proposal_committed hreach hw).1⟩

/-! ## The entry that was replaced -/

/-- Node a leads term 1 and proposes `true`. Node b wins term 2 with the vote of node c, appends
`false` at the same index and commits it with node c. Its next request replaces the entry of node a
and moves the `CommitIndex` there: the proposal returns nil. -/
def replacedRun : List (Action Trio Bool) :=
  [.timeout .a, .deliver 0, .receive 0, .propose .a (.ok true),
    .timeout .b, .deliver 2, .receive 2, .append .b (.ok false), .tick .b, .read 3, .deliver 3, .receive 3,
    .tick .b, .read 3, .deliver 3, .poll 0]

/-- **A proposal may return nil although its entry is lost**: another entry is committed at its index,
and the proposed one is in no log any more. -/
theorem proposal_replaced :
    ∃ c, Reach (system (recorderEnv Trio Bool)) (noRestart.Allows (recorderEnv Trio Bool)) c ∧
      ∃ w ∈ c.returned, w.entry.command = some true ∧ (∀ i, w.entry ∉ (c.node i).log ∧ w.entry ∉ (c.node i).committed) ∧
        ∃ i, ∃ e ∈ (c.node i).committed, e.index = w.entry.index ∧ e.command = some false := by
  have hrun : (execGuarded (recorderEnv Trio Bool) noRestart booleans replacedRun).map (fun c =>
      decide (∃ w ∈ c.returned, w.entry.command = some true ∧
        (∀ i, w.entry ∉ (c.node i).log ∧ w.entry ∉ (c.node i).committed) ∧
        ∃ i, ∃ e ∈ (c.node i).committed, e.index = w.entry.index ∧ e.command = some false)) = some true := by
    decide +kernel
  obtain ⟨c, hc, hlost⟩ := Option.map_eq_some_iff.1 hrun
  exact ⟨c, reach_of_exec (recorder_boot (by decide) (by decide) _) hc, of_decide_eq_true hlost⟩

end Raft
