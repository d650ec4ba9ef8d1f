import ApiCerberus.Raft.Local
import ApiCerberus.Raft.Simulation

/-!
# State machine safety and log matching

With `SnapshotThreshold = 0`, the value `run.go` leaves, no node ever takes, sends or installs a
snapshot. Every request then fits the log it is for, and all runs without restarts replicate their
log: what two nodes apply at one index is the same entry, and logs that share an entry are the same
up to it.
-/

namespace Raft

open Consensus Transition

variable {ι κ σ δ S : Type} [DecidableEq ι] [ByteSlice δ] {E : Env ι κ σ δ S}

/-! ## Without compaction there are no snapshots -/

/-- The node takes no snapshots and has none; `r`: neither does its storage hold one. -/
structure Unsnapped (E : Env ι κ σ δ S) (r : Prop) (n : Node ι κ σ S) : Prop where
  threshold : n.config.snapshotThreshold = 0
  index : n.lastSnapshotIndex = 0
  stored : r → ∀ s, n.storage = some s → ∀ i t d, E.storage.loadSnapshot s = some (i, t, d) → ByteSlice.len d = 0

def Rpc.NoSnapshot : Rpc ι κ δ → Prop
  | .snapshot _ => False
  | .installed _ _ => False
  | _ => True

section
variable {r : Prop} {n : Node ι κ σ S} (hst : r → E.storage.KeepsSnapshot)

section
include hst

omit [DecidableEq ι] in
theorem Unsnapped.persistState (h : Unsnapped E r n) : Unsnapped E r (persistState E n) :=
  { h with
    stored := fun hr s hs => by
      obtain ⟨s', hs', rfl⟩ := Option.map_eq_some_iff.1 hs
      rw [(hst hr).saveState]
      exact h.stored hr s' hs' }

omit [DecidableEq ι] in
theorem Unsnapped.persistLog (h : Unsnapped E r n) (es : List (LogEntry κ)) : Unsnapped E r (persistLog E n es) :=
  { h with
    stored := fun hr s hs => by
      obtain ⟨s', hs', rfl⟩ := Option.map_eq_some_iff.1 hs
      rw [(hst hr).saveLog]
      exact h.stored hr s' hs' }

end

omit [DecidableEq ι] [ByteSlice δ] in
/-- `maybeSnapshot` returns at once (`node.go:613`). -/
theorem maybeSnapshot_off (h : n.config.snapshotThreshold = 0) : maybeSnapshot E n = n := by
  unfold maybeSnapshot
  rw [if_pos h]

omit [DecidableEq ι] in
theorem Unsnapped.restart (h : Unsnapped E r n) (hr : r) : Unsnapped E r (Raft.restart E n) := by
  have hload : ∀ m : Node ι κ σ S, m.storage = n.storage → loadSnapshot E m = m := by
    intro m hm
    unfold loadSnapshot
    split
    · rename_i i t d hd
      rw [hm] at hd
      obtain ⟨s, hs, hd⟩ := Option.bind_eq_some_iff.1 hd
      have := h.stored hr s hs i t d hd
      rw [if_neg (by omega)]
    · rfl
  have hlog : ∀ m : Node ι κ σ S, Unsnapped E r m → m.storage = n.storage →
      Unsnapped E r (loadLog E m) ∧ (loadLog E m).storage = n.storage := by
    intro m hm hs
    unfold loadLog
    split <;> exact ⟨{ hm with }, hs⟩
  have hstate : Unsnapped E r (loadState E (newNode E n.id n.config n.peers n.storage)) ∧
      (loadState E (newNode E n.id n.config n.peers n.storage)).storage = n.storage := by
    unfold loadState
    split <;> exact ⟨⟨h.threshold, rfl, h.stored⟩, rfl⟩
  have hstart := hlog _ hstate.1 hstate.2
  unfold Raft.restart start
  rw [hload _ hstart.2]
  exact { hstart.1 with }

include hst in
/-- Without compaction, no snapshot is ever sent. -/
theorem unsnapped_local {g : Guard ι κ σ δ S} (hg : ∀ n, g.restart n → r) :
    Local E g (Unsnapped E r) Rpc.NoSnapshot := by
  have hstored : Stored E (Unsnapped E r) :=
    { edit := fun h hst hconfig hidx => ⟨by rw [hconfig, h.threshold], by rw [hidx, h.index], hst ▸ h.stored⟩
      persistState := fun h => h.persistState hst
      persistLog := fun h => h.persistLog hst _
      maybeSnapshot := fun h => by rwa [maybeSnapshot_off h.threshold] }
  refine hstored.local (fun rpc hrpc => ?_) (fun n p t m out h hout => ?_) (fun n req _ hq => hq.elim) fun n h hr =>
    h.restart (hg n hr)
  · cases rpc with
    | snapshot req | installed req resp => exact hrpc trivial
    | _ => trivial
  · obtain ⟨_, _, ⟨_, hsnap, _⟩ | ⟨_, rfl⟩⟩ := replicateTo_cases hout
    · have := h.index
      omega
    · trivial

omit [DecidableEq ι] in
theorem unsnapped_init {c₀ : Cluster ι κ σ δ S} (h₀ : Cluster.Init E c₀)
    (hT : ∀ i, (c₀.node i).config.snapshotThreshold = 0) : Everywhere (Unsnapped E r) Rpc.NoSnapshot c₀ where
  node i :=
    { threshold := hT i
      index := by rw [(h₀.node i).new]; rfl
      stored := fun _ s hs i' t d hd => ((h₀.node i).blank s hs).snapshot i' t d hd }
  call := by simp [h₀.calls]

end

variable [Fintype ι] {c₀ c : Cluster ι κ σ δ S}

/-- A run without compaction and without restarts replicates its log, and no log has been cut. -/
theorem uncompacted_replicas (h₀ : Cluster.Init E c₀) (hT : ∀ i, (c₀.node i).config.snapshotThreshold = 0)
    (hr : Run (system E) (noRestart.Allows E) c₀ c) :
    ∃ a : Replicas ι (LogEntry κ), LogRel E (blind σ) a c ∧ ∀ i, a.base i = 0 := by
  have hlocal : Local E noRestart (Unsnapped E False) Rpc.NoSnapshot := unsnapped_local False.elim fun _ h => h
  have hbase : ∀ {c : Cluster ι κ σ δ S}
    {a : Replicas ι (LogEntry κ)}, Everywhere (Unsnapped E False) Rpc.NoSnapshot c →
      LogRel E (blind σ) a c → ∀ i, a.base i = 0 := by
    intro c a hno h i
    have := (h.node i).snap_pos
    have := (hno.node i).index
    omega
  have hinv : Everywhere (Unsnapped E False) Rpc.NoSnapshot c ∧
      ∃ a : Replicas ι (LogEntry κ), LogRel E (blind σ) a c := by
    refine hr.invariant (P := fun c => Everywhere (Unsnapped E False) Rpc.NoSnapshot c ∧
      ∃ a : Replicas ι (LogEntry κ), LogRel E (blind σ) a c) ?_
      ⟨unsnapped_init h₀ hT, _, LogRel.init False.elim h₀⟩
    rintro c act c' ⟨hno, a, h⟩ hok hs
    have hfits : consistent.Allows E c act := by
      cases act with
      | deliver k =>
        intro call hk
        cases hrpc : call.rpc with
        | append req =>
          intro _ _ _
          rw [(h.node call.callee).log, baseIndex_window]
          exact hbase hno h call.callee
        | snapshot req =>
          have := hno.call call (List.mem_of_getElem? hk)
          rw [hrpc] at this
          exact this.elim
        | _ => trivial
      | read k =>
        intro call _
        cases call.rpc <;> first | trivial | exact fun _ _ => trivial
      | restart i => exact hok
      | _ => trivial
    obtain ⟨a', -, h'⟩ := h.step False.elim (sound_of_consistent hfits) hs
    exact ⟨hlocal.step hno hok hs, a', h'⟩
  obtain ⟨hno, a, h⟩ := hinv
  exact ⟨a, h, hbase hno h⟩

/-- **State machine safety**: whatever is delayed, reordered, duplicated or lost, two nodes never
apply different entries with the same index. -/
theorem state_machine_safety (h₀ : Cluster.Init E c₀) (hT : ∀ i, (c₀.node i).config.snapshotThreshold = 0)
    (hr : Run (system E) (noRestart.Allows E) c₀ c) {i j : ι} {e f : LogEntry κ} (he : e ∈ (c.node i).applied)
    (hf : f ∈ (c.node j).applied) (hidx : e.index = f.index) : e = f := by
  obtain ⟨a, h, -⟩ := uncompacted_replicas h₀ hT hr
  obtain ⟨m, hm⟩ := (h.node i).applied_com e he
  obtain ⟨m', hm'⟩ := (h.node j).applied_com f hf
  have h1 := h.committed_index hm
  have h2 := h.committed_index hm'
  obtain rfl : m = m' := by omega
  exact h.inv.committed_unique hm hm'

/-- Node a wins term 1 and commits one entry with node b, which hears of it with the next heartbeat. -/
def firstCommit : List (Action Trio Unit) :=
  [.timeout .a, .deliver 0, .receive 0, .append .a (.ok ()), .tick .a, .read 1, .deliver 1, .receive 1,
    .tick .a, .read 2, .deliver 2]

/-- Three nodes, compaction off. -/
def uncompacted : Cluster Trio Unit (List (LogEntry Unit)) (List (LogEntry Unit))
    (Inmem Trio Unit (List (LogEntry Unit))) :=
  boot (recorderEnv Trio Unit) [.a, .b, .c] ⟨10, 0⟩ (some newInmem)

theorem uncompacted_init : Cluster.Init (recorderEnv Trio Unit) uncompacted :=
  recorder_boot (by decide) (by decide) _

theorem state_machine_safety_firstCommit :
    ∃ c e f, Run (system (recorderEnv Trio Unit)) (noRestart.Allows (recorderEnv Trio Unit)) uncompacted c ∧
      e ∈ (c.node .a).applied ∧ f ∈ (c.node .b).applied ∧ e.index = f.index ∧ e = f := by
  have hrun : (execGuarded (recorderEnv Trio Unit) noRestart uncompacted firstCommit).map
      (fun c => ((c.node .a).applied, (c.node .b).applied)) = some ([⟨1, 1, some ()⟩], [⟨1, 1, some ()⟩]) := by
    decide +kernel
  obtain ⟨c, hc, happ⟩ := Option.map_eq_some_iff.1 hrun
  simp only [Prod.mk.injEq] at happ
  have h0 : ⟨1, 1, some ()⟩ ∈ (c.node .a).applied := by rw [happ.1]; exact List.mem_singleton.2 rfl
  have h1 : ⟨1, 1, some ()⟩ ∈ (c.node .b).applied := by rw [happ.2]; exact List.mem_singleton.2 rfl
  have hr := Run.of_exec firstCommit hc
  exact ⟨c, _, _, hr, h0, h1, rfl, state_machine_safety uncompacted_init (fun _ => rfl) hr h0 h1 rfl⟩

/-- **Log matching**: two logs that hold an entry with the same index and term are the same at every
index up to it. -/
theorem log_matching (h₀ : Cluster.Init E c₀) (hT : ∀ i, (c₀.node i).config.snapshotThreshold = 0)
    (hr : Run (system E) (noRestart.Allows E) c₀ c) {i j : ι} {e f : LogEntry κ} (he : e ∈ (c.node i).log)
    (hf : f ∈ (c.node j).log) (hidx : e.index = f.index) (hterm : e.term = f.term) {k : Nat} (hk : k ≤ e.index) :
    entryAt (c.node i).log k = entryAt (c.node j).log k := by
  obtain ⟨a, h, hbase⟩ := uncompacted_replicas h₀ hT hr
  have hlog : ∀ i, (c.node i).log = boundary 0 0 :: a.log i := by
    intro i
    rw [(h.node i).log, hbase i]
    rfl
  have hzero : ∀ i, entryAt (c.node i).log 0 = some (boundary 0 0) := by
    intro i
    rw [hlog i]
    rfl
  rcases Nat.eq_zero_or_pos k with rfl | hpos
  · rw [hzero i, hzero j]
  · have hpos' : ∀ {i : ι} {e : LogEntry κ}, e ∈ (c.node i).log → 0 < e.index → (a.log i)[e.index - 1]? = some e := by
      intro i e he h0
      rw [hlog i, List.mem_cons] at he
      rcases he with rfl | he
      · cases h0
      · obtain ⟨m, hm⟩ := List.mem_iff_getElem?.1 he
        have := h.indexed i m e hm
        rwa [show e.index - 1 = m by omega]
    have hag := (h.inv.log_canon i).agree (h.inv.log_canon j) (hpos' he (by omega))
      (by rw [hidx]; exact hpos' hf (by omega)) hterm
    obtain ⟨m, rfl⟩ : ∃ m, k = m + 1 := ⟨k - 1, by omega⟩
    rw [(h.node i).log, (h.node j).log, entryAt_window_succ (by rw [hbase]; omega),
      entryAt_window_succ (by rw [hbase]; omega)]
    exact hag m (by omega)

theorem log_matching_firstCommit :
    ∃ c, Run (system (recorderEnv Trio Unit)) (noRestart.Allows (recorderEnv Trio Unit)) uncompacted c ∧
      ⟨1, 1, some ()⟩ ∈ (c.node .a).log ∧ ⟨1, 1, some ()⟩ ∈ (c.node .b).log ∧
      entryAt (c.node .a).log 1 = entryAt (c.node .b).log 1 := by
  have hrun : (execGuarded (recorderEnv Trio Unit) noRestart uncompacted firstCommit).map
      (fun c => decide (⟨1, 1, some ()⟩ ∈ (c.node .a).log ∧ ⟨1, 1, some ()⟩ ∈ (c.node .b).log)) = some true := by
    decide +kernel
  obtain ⟨c, hc, hlog⟩ := Option.map_eq_some_iff.1 hrun
  obtain ⟨h0, h1⟩ := of_decide_eq_true hlog
  have hr := Run.of_exec firstCommit hc
  exact ⟨c, hr, h0, h1, log_matching uncompacted_init (fun _ => rfl) hr h0 h1 rfl rfl (le_refl _)⟩

end Raft
