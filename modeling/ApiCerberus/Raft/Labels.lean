import ApiCerberus.Raft.Replay

/-!
# The label of a snapshot and its content

A leader labels the snapshot it sends with `lastSnapshotIndex`. The data is what the storage holds, or a live snapshot
of the state machine if there is no storage (`node.go:427-458`). `dataIndex` says up to which index the entries have
been applied in it. With a storage whose saves succeed the label is right in every reachable state, restarts included
(`labelled_of_storage`). Without one the data shows all that has been applied since the snapshot was taken.
-/

namespace Raft

open Consensus Transition

variable {ι κ σ δ S : Type}

/-- Every snapshot is saved. -/
structure Storage.SavesSnapshot (st : Storage ι κ δ S) : Prop where
  load : ∀ s i t d, st.loadSnapshot (st.saveSnapshot s i t d).1 = some (i, t, d)
  ok : ∀ s i t d, (st.saveSnapshot s i t d).2 = true

/-! ## What is in the storages -/

section
variable [ByteSlice δ]

/-- A snapshot in the storage has been taken of a state machine; `r`: it is the one that the label of the node names. -/
structure Filed (E : Env ι κ σ δ S) (r : Prop) (n : Node ι κ σ S) : Prop where
  taken : ∀ s, n.storage = some s → ∀ i t d, E.storage.loadSnapshot s = some (i, t, d) → 0 < ByteSlice.len d →
    ∃ f, E.fsm.snapshot f = some d
  latest : r → ∀ s, n.storage = some s → 0 < n.lastSnapshotIndex →
    ∃ t d, E.storage.loadSnapshot s = some (n.lastSnapshotIndex, t, d) ∧ 0 < ByteSlice.len d

/-- Snapshots in flight have been taken of state machines. -/
def Rpc.Taken (E : Env ι κ σ δ S) : Rpc ι κ δ → Prop
  | .snapshot req => ∃ f, E.fsm.snapshot f = some req.data
  | _ => True

/-- What a storage has to do, and that no snapshot is empty. -/
structure Filing (E : Env ι κ σ δ S) (r : Prop) : Prop where
  keeps : E.storage.KeepsSnapshot
  saves : r → E.storage.SavesSnapshot
  nonempty : ∀ f d, E.fsm.snapshot f = some d → 0 < ByteSlice.len d

variable {E : Env ι κ σ δ S} {r : Prop} {n n' : Node ι κ σ S}

/-- A node whose storage has the same snapshot. -/
theorem Filed.of_eq (h : Filed E r n)
    (hload : n'.storage.map E.storage.loadSnapshot = n.storage.map E.storage.loadSnapshot)
    (hidx : n'.lastSnapshotIndex = n.lastSnapshotIndex) : Filed E r n' := by
  have hsame : ∀ s', n'.storage = some s' → ∃ s, n.storage = some s ∧
      E.storage.loadSnapshot s = E.storage.loadSnapshot s' := by
    intro s' hs'
    rw [hs'] at hload
    obtain ⟨s, hs, heq⟩ := Option.map_eq_some_iff.1 hload.symm
    exact ⟨s, hs, heq⟩
  constructor
  · intro s' hs' i t d hd
    obtain ⟨s, hs, heq⟩ := hsame s' hs'
    exact h.taken s hs i t d (heq.trans hd)
  · intro hr s' hs'
    obtain ⟨s, hs, heq⟩ := hsame s' hs'
    rw [hidx, ← heq]
    exact h.latest hr s hs

theorem Filed.of_none (hnone : n.storage = none) : Filed E r n where
  taken s hs := by cases hnone.symm.trans hs
  latest _ s hs := by cases hnone.symm.trans hs

section
variable (hE : Filing E r)
include hE

theorem Filed.persistState (h : Filed E r n) : Filed E r (persistState E n) := by
  refine h.of_eq ?_ rfl
  cases hs : n.storage <;> simp [Raft.persistState, hs, hE.keeps.saveState]

theorem Filed.persistLog (h : Filed E r n) (es : List (LogEntry κ)) : Filed E r (persistLog E n es) := by
  refine h.of_eq ?_ rfl
  cases hs : n.storage <;> simp [Raft.persistLog, hs, hE.keeps.saveLog]

/-- A snapshot that is saved under the label the node gets. -/
theorem Filed.saved (h : Filed E r n) {s : S} (hs : n.storage = some s) {index t : Nat} {d : δ}
    (hd : ∃ f, E.fsm.snapshot f = some d)
    (hst : n'.storage = some (E.storage.saveSnapshot s index t d).1) (hidx : r → n'.lastSnapshotIndex = index) :
      Filed E r n' := by
  constructor
  · intro s' hs' i t' d' hload hlen
    obtain rfl := Option.some.inj (hst.symm.trans hs')
    rcases hE.keeps.saveSnapshot s index t d with hnew | hold
    · obtain ⟨-, -, rfl⟩ : index = i ∧ t = t' ∧ d = d' := by simpa using hnew.symm.trans hload
      exact hd
    · exact h.taken s hs i t' d' (hold.symm.trans hload) hlen
  · intro hr s' hs' _
    obtain rfl := Option.some.inj (hst.symm.trans hs')
    obtain ⟨f, hf⟩ := hd
    exact ⟨t, d, by rw [hidx hr]; exact (hE.saves hr).load s index t d, hE.nonempty f d hf⟩

theorem Filed.compactLog (h : Filed E r n) : Filed E r (compactLog E n) := by
  unfold Raft.compactLog
  split
  · exact h
  · rename_i d hd
    dsimp only
    split
    · rename_i hnone
      exact .of_none hnone
    · rename_i s hs
      split
      · exact h.saved hE hs ⟨_, hd⟩ rfl fun _ => rfl
      · rename_i hfail
        exact h.saved hE hs ⟨_, hd⟩ rfl fun hr => absurd ((hE.saves hr).ok ..) hfail

theorem Filed.maybeSnapshot (h : Filed E r n) : Filed E r (maybeSnapshot E n) := by
  unfold Raft.maybeSnapshot
  split
  · exact h
  · split
    · exact h.compactLog hE
    · exact h

omit hE in
/-- `Start` takes the label over from the storage. -/
theorem Filed.restart (h : Filed E r n) : Filed E r (Raft.restart E n) := by
  have hbase : Filed E r (loadLog E (loadState E (newNode E n.id n.config n.peers n.storage))) ∧
      (loadLog E (loadState E (newNode E n.id n.config n.peers n.storage))).storage = n.storage := by
    have hnew : Filed E r (newNode E n.id n.config n.peers n.storage) :=
      ⟨h.taken, fun _ _ _ hpos => absurd hpos (Nat.lt_irrefl 0)⟩
    unfold loadLog loadState
    split <;> split <;> exact ⟨hnew.of_eq rfl rfl, rfl⟩
  have hstart : Filed E r (start E (newNode E n.id n.config n.peers n.storage)) := by
    obtain ⟨hload, hst⟩ := hbase
    unfold start loadSnapshot
    split
    · rename_i index t d hd
      obtain ⟨s, hs, hd⟩ := Option.bind_eq_some_iff.1 hd
      split
      · rename_i hpos
        split
        · refine ⟨hload.taken, fun _ s' hs' _ => ?_⟩
          obtain rfl := Option.some.inj (hs.symm.trans hs')
          exact ⟨t, d, hd, hpos.2⟩
        · exact hload
      · exact hload
    · exact hload
  exact hstart.of_eq rfl rfl

end

theorem filed_stored (hE : Filing E r) : Stored E (Filed E r) where
  edit h hst _ hidx := h.of_eq (by rw [hst]) hidx
  persistState h := h.persistState hE
  persistLog h := h.persistLog hE _
  maybeSnapshot h := h.maybeSnapshot hE

variable [DecidableEq ι]

theorem filed_local (hE : Filing E r) (g : Guard ι κ σ δ S) : Local E g (Filed E r) (Rpc.Taken E) := by
  refine (filed_stored hE).local (fun rpc hrpc => ?_) (fun n p t m out h hout => ?_) (fun n req h hq => ⟨?_, trivial⟩)
    fun n h _ => h.restart
  · cases rpc with
    | snapshot req => exact absurd trivial hrpc
    | _ => trivial
  · obtain ⟨_, _, ⟨d, _, hd, rfl⟩ | ⟨_, rfl⟩⟩ := replicateTo_cases hout
    · rcases snapshotData_cases hd with ⟨s, idx, t, hs, hload, hlen, -⟩ | ⟨hsnap, -⟩
      · exact h.taken s hs idx t d hload hlen
      · exact ⟨n.fsm, hsnap⟩
    · trivial
  · have hobs : Filed E r (observeLeader E n req.term req.leaderID) := by
      unfold observeLeader
      dsimp only
      split
      · exact Filed.persistState hE (h.of_eq rfl rfl)
      · exact h.of_eq rfl rfl
    unfold Raft.handleInstallSnapshot
    split
    · exact h
    dsimp only
    split
    · exact hobs
    rename_i m hm
    have hrestored : Filed E r m := by
      unfold restoreFSM at hm
      split at hm
      · obtain ⟨fsm, -, rfl⟩ := Option.map_eq_some_iff.1 hm
        exact hobs.of_eq rfl rfl
      · rw [← Option.some.inj hm]
        exact hobs
    cases hs : m.storage with
    | none => exact .of_none (by rw [install, hs]; rfl)
    | some s => exact hrestored.saved hE hs hq (by rw [install, hs]; rfl) fun _ => rfl

variable {c : Cluster ι κ σ δ S} {g : Guard ι κ σ δ S}

theorem filed_node (hE : Filing E r) (hc : Reach (system E) (g.Allows E) c) (i : ι) : Filed E r (c.node i) := by
  refine ((filed_local hE g).everywhere (fun i n hn => ?_) hc).node i
  constructor
  · intro s hs i t d hd hlen
    exact absurd ((hn.blank s hs).snapshot i t d hd) (Nat.ne_of_gt hlen)
  · intro _ s _ hpos
    rw [hn.new] at hpos
    exact absurd hpos (Nat.lt_irrefl 0)

/-- **Labels of stored snapshots.** A node with a storage whose saves succeed sends what its label names. -/
theorem labelled_of_storage (hE : Filing E True) (hc : Reach (system E) (g.Allows E) c) {i : ι}
    (hst : (c.node i).storage ≠ none)
    (hpos : 0 < (c.node i).lastSnapshotIndex) : Labelled E (c.node i) := by
  obtain ⟨s, hs⟩ := Option.ne_none_iff_exists'.1 hst
  obtain ⟨t, d, hload, hlen⟩ := (filed_node hE hc i).latest trivial s hs hpos
  rw [labelled_iff, dataIndex, hs, Option.bind_some, hload]
  exact if_pos hlen

end

/-! ## The entries a snapshot stands for -/

section
variable [DecidableEq ι] [Fintype ι] [ByteSlice δ] {E : Env ι κ σ δ S} {c : Cluster ι κ σ δ S}

/-- `L` are the committed entries `1 .. k`, in order. -/
structure CommittedTo (c : Cluster ι κ σ δ S) (k : Nat) (L : List (LogEntry κ)) : Prop where
  indices : L.map (·.index) = List.range' 1 k
  committed : ∀ e, e ∈ L ↔ e.index ≤ k ∧ ∃ j, e ∈ (c.node j).committed

omit [DecidableEq ι] [Fintype ι] [ByteSlice δ] in
theorem AppliedEntries.take {i : ι} {L : List (LogEntry κ)} (h : AppliedEntries c i L) {k : Nat}
    (hk : k ≤ (c.node i).lastApplied) :
    CommittedTo c k (L.take k) := by
  have hidx : ∀ (m : Nat) (e : LogEntry κ), L[m]? = some e → e.index = 1 + m := by
    intro m e he
    have hm := congrArg (·[m]?) h.indices
    simp only [List.getElem?_map, he, Option.map_some] at hm
    obtain ⟨hlt, heq⟩ := List.getElem?_eq_some_iff.1 hm.symm
    rw [List.getElem_range'] at heq
    omega
  constructor
  · rw [List.map_take, h.indices]
    refine List.ext_getElem (by simp [hk]) fun m h₁ h₂ => ?_
    simp
  · intro e
    rw [← and_iff_right_of_imp (fun he : e.index ≤ k ∧ ∃ j, e ∈ (c.node j).committed => he.1.trans hk)]
    constructor
    · intro he
      obtain ⟨m, hm⟩ := List.mem_iff_getElem?.1 he
      rw [List.getElem?_take] at hm
      split at hm
      · have hi := hidx m e hm
        have hcom := (h.committed e).1 (List.mem_of_getElem? hm)
        exact ⟨hcom.1, by omega, hcom.2⟩
      · cases hm
    · rintro ⟨happ, hle, hcom⟩
      obtain ⟨m, hm⟩ := List.mem_iff_getElem?.1 ((h.committed e).2 ⟨happ, hcom⟩)
      have hi := hidx m e hm
      exact List.mem_iff_getElem?.2 ⟨m, by rw [List.getElem?_take, if_pos (by omega), hm]⟩

/-- A restore from what a node sends stands for the committed entries up to `dataIndex`. -/
theorem exists_holds {V : View σ} (hon : V.on) (hV : V.Lawful E)
    (hc : Reach (system E) ((upToDateOnly E).Allows E) c) {i : ι} {d : δ}
    (hd : snapshotData E (c.node i) = some d) : ∃ L, CommittedTo c (dataIndex E (c.node i)) L ∧ Holds E V d L := by
  obtain ⟨a, h⟩ := exists_replicas (V := V) (fun _ => hV) (hc.mono fun _ _ => sound_of_upToDate)
  have hle := (h.node i).dataIndex_le hon hd
  refine ⟨_, (h.appliedEntries i).take hle, ?_⟩
  rw [List.take_take, min_eq_left hle]
  exact (h.node i).holds_snapshotData (fun _ => hV) hd

end

/-! ## The gateway's state machine -/

theorem GatewayFSM.snapshot_keyless (f : GatewayFSM) : f.keyless.snapshot = f.snapshot := by
  have htimes : (∀ r ∈ f.keyless.certificates.rows, r.2.issuedAt.Encodable ∧ r.2.expiresAt.Encodable) ↔
      ∀ r ∈ f.certificates.rows, r.2.issuedAt.Encodable ∧ r.2.expiresAt.Encodable := List.forall_mem_map
  have hsnap : f.keyless.toSnapshot = f.toSnapshot :=
    congrArg (fun m => { f.toSnapshot with certificates := some m }) (FinMap.map_map ..)
  rw [GatewayFSM.snapshot, GatewayFSM.snapshot, hsnap]
  exact if_congr htimes rfl rfl

theorem SameState.snapshot {s t : Except Panic GatewayFSM}
    (h : SameState s t) : gatewayMachine.snapshot s = gatewayMachine.snapshot t := by
  unfold SameState at h
  rcases s with p | f <;> rcases t with q | g
  · rfl
  · cases h
  · cases h
  · show f.snapshot = g.snapshot
    rw [← f.snapshot_keyless, ← g.snapshot_keyless, Except.ok.inj h]

/-- The snapshot of a state is that of every state it restores to. -/
theorem snapshot_of_holds {storage : Storage ι Text Text S} {d : Text} {L : List (LogEntry Text)}
    {s : Except Panic GatewayFSM}
    (hd : gatewayMachine.snapshot s = some d) (h : Holds (gatewayEnv storage) ⟨True, SameState⟩ d L) :
    gatewayMachine.snapshot (replay (gatewayEnv storage) L) = some d := by
  obtain ⟨f, hf, hfd⟩ := Option.bind_eq_some_iff.1 hd
  have hrestore : gatewayMachine.restore (.ok newGatewayFSM) d = some (.ok f.keyless) := by
    show (restore d).toOption = _
    rw [restore_snapshot hfd]
    rfl
  have hsame : SameState (.ok f.keyless) (replay (gatewayEnv storage) L) := h _ _ hrestore trivial
  rw [← hsame.snapshot]
  exact f.snapshot_keyless.trans hfd

theorem gateway_filing {storage : Storage ι Text Text S} (hst : storage.KeepsSnapshot) :
    Filing (gatewayEnv storage) storage.SavesSnapshot where
  keeps := hst
  saves h := h
  nonempty s d hd := by
    obtain ⟨f, -, hfd⟩ := Option.bind_eq_some_iff.1 hd
    unfold GatewayFSM.snapshot at hfd
    split at hfd
    · cases hfd
      exact Nat.succ_pos _
    · cases hfd

section
variable [DecidableEq ι] [Fintype ι] {storage : Storage ι Text Text S}
  {c : Cluster ι Text (Except Panic GatewayFSM) Text S}

/-- **Labels and contents.** The data of an `InstallSnapshot` request is the snapshot of the state after exactly the
committed entries up to `dataIndex`. That is what the label says if and only if the node is `Labelled`, and so it is
with a storage whose saves succeed. -/
theorem snapshot_label (hst : storage.KeepsSnapshot)
    (hc : Reach (system (gatewayEnv storage)) ((upToDateOnly (gatewayEnv storage)).Allows (gatewayEnv storage)) c)
    {i peer : ι}
    {term commitIndex : Nat} {req : InstallSnapshotRequest ι Text}
    (hreq : replicateTo (gatewayEnv storage) (c.node i) peer term commitIndex = some (.snapshot req)) :
    ∃ L, CommittedTo c (dataIndex (gatewayEnv storage) (c.node i)) L ∧
      (gatewayEnv storage).fsm.snapshot (replay (gatewayEnv storage) L) = some req.data ∧
      (dataIndex (gatewayEnv storage) (c.node i) = req.lastIncludedIndex ↔ Labelled (gatewayEnv storage) (c.node i)) ∧
      (storage.SavesSnapshot → (c.node i).storage ≠ none → Labelled (gatewayEnv storage) (c.node i)) := by
  obtain ⟨_, _, ⟨d, hsnap, hd, heq⟩ | ⟨_, heq⟩⟩ := replicateTo_cases hreq
  · cases heq
    have hfiling := gateway_filing (ι := ι) hst
    obtain ⟨L, hL, hholds⟩ := exists_holds (V := ⟨True, SameState⟩) trivial (sameState_lawful hst) hc hd
    have htaken : ∃ s, gatewayMachine.snapshot s = some d := by
      rcases snapshotData_cases hd with ⟨s, idx, t, hs, hload, hlen, -⟩ | ⟨hlive, -⟩
      · exact (filed_node hfiling hc i).taken s hs idx t d hload hlen
      · exact ⟨_, hlive⟩
    obtain ⟨s, hs⟩ := htaken
    refine ⟨L, hL, snapshot_of_holds hs hholds, labelled_iff.symm, fun hsaves hst' => ?_⟩
    exact labelled_of_storage { hfiling with saves := fun _ => hsaves } hc hst' hsnap.1
  · cases heq

end

def sentSnapshot : Option (Outgoing ι κ δ) → Option (InstallSnapshotRequest ι δ)
  | some (.snapshot req) => some req
  | _ => none

theorem sentSnapshot_eq_some {o : Option (Outgoing ι κ δ)} {req : InstallSnapshotRequest ι δ}
    (h : sentSnapshot o = some req) :
    o = some (.snapshot req) := by
  unfold sentSnapshot at h
  split at h
  · exact congrArg (some ∘ Outgoing.snapshot) (Option.some.inj h)
  · cases h

/-- Node a commits an entry with node b and compacts its log. -/
def firstSnapshotRun : List (Action Trio Text) :=
  [.timeout .a, .deliver 0, .receive 0, .drop 0, .append .a (.ok oneCredit), .tick .a, .read 0, .deliver 0, .receive 0]

theorem inmem_savesSnapshot : (inmemStorage : Storage ι κ δ _).SavesSnapshot := ⟨fun _ _ _ _ => rfl, fun _ _ _ _ => rfl⟩

theorem snapshot_label_first :
    ∃ c req, Reach (system inmemEnv) ((upToDateOnly inmemEnv).Allows inmemEnv) c ∧ (c.node .a).state = .leader ∧
      replicateTo inmemEnv (c.node .a) .c 1 1 = some (.snapshot req) ∧ req.lastIncludedIndex = 1 ∧
      ∃ L, CommittedTo c 1 L ∧ inmemEnv.fsm.snapshot (replay inmemEnv L) = some req.data := by
  have hrun : (execGuarded inmemEnv (upToDateOnly inmemEnv) eager firstSnapshotRun).map (fun c =>
      ((c.node .a).state, (sentSnapshot (replicateTo inmemEnv (c.node .a) .c 1 1)).map (·.lastIncludedIndex),
        (c.node .a).storage.isSome)) = some (.leader, some 1, true) := by decide +kernel
  obtain ⟨c, hc, hstate⟩ := Option.map_eq_some_iff.1 hrun
  simp only [Prod.mk.injEq] at hstate
  obtain ⟨hleader, hread, hst⟩ := hstate
  have hreach := reach_of_exec eager_init hc
  obtain ⟨req, hsent, hidx⟩ := Option.map_eq_some_iff.1 hread
  have hreq := sentSnapshot_eq_some hsent
  obtain ⟨L, hL, hdata, hiff, hlab⟩ := snapshot_label inmem_keepsSnapshot hreach hreq
  have hlabel := hiff.2 (hlab inmem_savesSnapshot (Option.isSome_iff_ne_none.1 hst))
  rw [hlabel, hidx] at hL
  exact ⟨c, req, hreach, hleader, hreq, hidx, L, hL, hdata⟩

/-! ## A live snapshot -/

/-- Three nodes without a storage that take a snapshot after every two entries. -/
def storeless : Cluster Trio Text (Except Panic GatewayFSM) Text (Inmem Trio Text Text) :=
  boot inmemEnv [.a, .b, .c] ⟨10, 2⟩ none

/-- Node a commits two entries with node b and compacts its log; then it commits a third. -/
def liveSnapshotRun : List (Action Trio Text) :=
  [.timeout .a, .deliver 0, .receive 0, .drop 0, .append .a (.ok oneCredit), .append .a (.ok oneCredit), .tick .a,
    .read 0, .deliver 0,
    .receive 0, .append .a (.ok oneCredit), .tick .a, .read 1, .deliver 1, .receive 1]

/-- The balance that a snapshot shows. -/
def balanceIn (data : Text) : Option Int64 :=
  (restore data).toOption.bind fun s => s.toOption.map (·.getCreditBalance "u")

/-- All that has been committed are credits of term 1. -/
def onlyCredits (c : Cluster Trio Text (Except Panic GatewayFSM) Text (Inmem Trio Text Text)) : Prop :=
  ∀ j, ∀ e ∈ (c.node j).committed, e.term = 1 ∧ e.command = some oneCredit

instance (c : Cluster Trio Text (Except Panic GatewayFSM) Text (Inmem Trio Text Text)) : Decidable (onlyCredits c) :=
  inferInstanceAs (Decidable (∀ j, ∀ e ∈ (c.node j).committed, _))

theorem CommittedTo.eq_credits {c : Cluster Trio Text (Except Panic GatewayFSM) Text (Inmem Trio Text Text)}
    (hc : onlyCredits c) {k : Nat}
    {L : List (LogEntry Text)} (h : CommittedTo c k L) : L = (List.range' 1 k).map fun index =>
      ⟨index, 1, some oneCredit⟩ := by
  rw [← h.indices, List.map_map]
  refine (List.map_id L).symm.trans (List.map_congr_left fun e he => ?_)
  obtain ⟨-, j, hj⟩ := (h.committed e).1 he
  obtain ⟨hterm, hcommand⟩ := hc j e hj
  obtain ⟨index, term, command⟩ := e
  simp only at hterm hcommand
  rw [hterm, hcommand]
  rfl

/-- Node a has applied three entries since its snapshot of two, and sends their state with the label of the snapshot. -/
theorem live_snapshot_ahead :
    ∃ c req, Reach (system inmemEnv) (noRestart.Allows inmemEnv) c ∧ (c.node .a).state = .leader ∧
      replicateTo inmemEnv (c.node .a) .c 1 3 = some (.snapshot req) ∧ req.lastIncludedIndex = 2 ∧
      ¬ ∃ L, CommittedTo c 2 L ∧ inmemEnv.fsm.snapshot (replay inmemEnv L) = some req.data := by
  have hrun : (execGuarded inmemEnv noRestart storeless liveSnapshotRun).map (fun c =>
      ((c.node .a).state,
        (sentSnapshot (replicateTo inmemEnv (c.node .a) .c 1 3)).map fun req =>
          (req.lastIncludedIndex, balanceIn req.data),
        decide (onlyCredits c))) = some (.leader, some (2, some 3), true) := by decide +kernel
  have htwo : (inmemEnv.fsm.snapshot
    (replay inmemEnv ((List.range' 1 2).map fun index => ⟨index, 1, some oneCredit⟩))).bind balanceIn =
      some 2 := by decide +kernel
  obtain ⟨c, hc, hstate⟩ := Option.map_eq_some_iff.1 hrun
  simp only [Prod.mk.injEq, decide_eq_true_eq] at hstate
  obtain ⟨hleader, hread, hcredits⟩ := hstate
  have hinit : Cluster.Init inmemEnv storeless := boot_init (by decide) (by decide) nofun
  obtain ⟨req, hsent, hpair⟩ := Option.map_eq_some_iff.1 hread
  obtain ⟨hidx, hbalance⟩ := Prod.mk.inj hpair
  refine ⟨c, req, reach_of_exec hinit hc, hleader, sentSnapshot_eq_some hsent, hidx, ?_⟩
  rintro ⟨L, hL, hdata⟩
  rw [hL.eq_credits hcredits] at hdata
  rw [hdata, Option.bind_some, hbalance] at htwo
  exact absurd htwo (by decide)

end Raft
