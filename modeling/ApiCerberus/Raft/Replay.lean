import ApiCerberus.Raft.Instances
import ApiCerberus.Raft.LeaderLog
import ApiCerberus.Raft.Snapshots

/-!
# What has been applied is the replayed log

With compaction and `InstallSnapshot`, the state of a node's state machine is that of a fresh one after the committed
entries up to `LastApplied`, as long as

* requests fit the logs they are for (`StartsAtBase`, `BoundaryFits`);
* no snapshot is older than what its receiver has applied: it is restored and `LastApplied` stays where it is
(`node.go:975-1003`);
* a snapshot that is sent holds what its label says, which is `lastSnapshotIndex` whatever the data is
(`node.go:427-458`).
-/

namespace Raft

open Consensus Transition

variable {ι κ σ δ S : Type}

/-! ## The guard -/

section
variable [ByteSlice δ] (E : Env ι κ σ δ S)

instance (n : Node ι κ σ S) : Decidable (Labelled E n) :=
  match h : n.storage.bind E.storage.loadSnapshot with
  | some (index, _, data) =>
    decidable_of_iff
      (if 0 < ByteSlice.len data then index = n.lastSnapshotIndex else n.lastApplied = n.lastSnapshotIndex)
      (by rw [Labelled, h])
  | none => decidable_of_iff (n.lastApplied = n.lastSnapshotIndex) (by rw [Labelled, h])

/-- Snapshots are not older than what their receivers have applied, and hold what they say. -/
def upToDateOnly : Guard ι κ σ δ S where
  append := StartsAtBase
  snapshot n req := BoundaryFits n req ∧
    (n.currentTerm ≤ req.term → n.lastApplied ≤ req.lastIncludedIndex ∧ 0 < ByteSlice.len req.data)
  read n out :=
    match out with
    | .append _ => True
    | .snapshot _ => Labelled E n
  restart _ := False

instance : (upToDateOnly E).Dec where
  append n req := inferInstanceAs (Decidable (StartsAtBase n req))
  snapshot n req := inferInstanceAs (Decidable (BoundaryFits n req ∧ (_ → _ ∧ _)))
  read n out :=
    match out with
    | .append _ => isTrue trivial
    | .snapshot _ => inferInstanceAs (Decidable (Labelled E n))
  restart _ := isFalse id

end

section
variable [DecidableEq ι] [Fintype ι] [ByteSlice δ] {E : Env ι κ σ δ S} {c : Cluster ι κ σ δ S}

variable {V : View σ}

omit [DecidableEq ι] [Fintype ι] in
theorem sound_of_upToDate {act : Action ι κ} (h : (upToDateOnly E).Allows E c act) : (sound E V).Allows E c act := by
  refine h.weaken (fun n req => id) (fun n req hok => ⟨hok.1, fun hle _ => hok.2 hle⟩) (fun n out hread => ?_)
    fun _ => id
  cases out with
  | append req => trivial
  | snapshot req => exact fun _ => hread

/-! ## The entries a state stands for -/

/-- `L` are the committed entries `1 .. LastApplied` of node `i`, in order. -/
structure AppliedEntries (c : Cluster ι κ σ δ S) (i : ι) (L : List (LogEntry κ)) : Prop where
  indices : L.map (·.index) = List.range' 1 (c.node i).lastApplied
  committed : ∀ e, e ∈ L ↔ e.index ≤ (c.node i).lastApplied ∧ ∃ j, e ∈ (c.node j).committed

theorem LogRel.appliedEntries {a : Replicas ι (LogEntry κ)} (h : LogRel E V a c) (i : ι) :
    AppliedEntries c i ((a.log i).take (c.node i).lastApplied) := by
  have hn := h.node i
  have hle := h.inv.safe_le hn.applied
  obtain ⟨T, hset⟩ := h.inv.safe_settled hn.applied
  have hcom : ∀ m e, m < (c.node i).lastApplied → (a.log i)[m]? = some e → a.Committed m e := by
    intro m e hm he
    rcases hset with h0 | ⟨T', p, hc, -, hp, hag⟩
    · omega
    · exact ⟨T', p, hc, by omega, by rw [← he]; exact (hag m hm).symm⟩
  constructor
  · apply List.ext_getElem?
    intro m
    rw [List.getElem?_map, List.getElem?_take]
    by_cases hm : m < (c.node i).lastApplied
    · have he : (a.log i)[m]? = some (a.log i)[m] := List.getElem?_eq_getElem (by omega)
      have hidx := h.indexed i m _ he
      rw [if_pos hm, he, List.getElem?_range' hm, Option.map_some, hidx, Nat.one_mul]
    · rw [if_neg hm, List.getElem?_eq_none (by rw [List.length_range']; omega)]
      rfl
  · intro e
    constructor
    · intro he
      obtain ⟨m, hm⟩ := List.mem_iff_getElem?.1 he
      rw [List.getElem?_take] at hm
      split at hm
      · rename_i hlt
        have hidx := h.indexed i m e hm
        exact ⟨by omega, h.marked m e (hcom m e hlt hm)⟩
      · cases hm
    · rintro ⟨hidx, j, hj⟩
      obtain ⟨m, hm⟩ := (h.node j).committed_com e hj
      have hi := h.committed_index hm
      have he : (a.log i)[m]? = some (a.log i)[m] := List.getElem?_eq_getElem (by omega)
      rw [h.inv.committed_unique hm (hcom m _ (by omega) he)]
      exact List.mem_iff_getElem?.2 ⟨m, by rw [List.getElem?_take, if_pos (by omega)]; exact he⟩

/-- A state machine that is followed stands for the entries that have been applied. -/
theorem exists_applied (hon : V.on) (hV : V.Lawful E) (hc : Reach (system E) ((upToDateOnly E).Allows E) c) (i : ι) :
    ∃ L, AppliedEntries c i L ∧ V.sim (c.node i).fsm (replay E L) := by
  obtain ⟨a, h⟩ := exists_replicas (V := V) (fun _ => hV) (hc.mono fun _ _ => sound_of_upToDate)
  exact ⟨_, h.appliedEntries i, (h.node i).fsm hon⟩

end

/-! ## The gateway's state machine -/

def gatewayEnv (storage : Storage ι Text Text S) : Env ι Text (Except Panic GatewayFSM) Text S where
  fsm := gatewayMachine
  fresh := .ok newGatewayFSM
  storage := storage

/-- The same state, but for the private keys. -/
def SameState (s t : Except Panic GatewayFSM) : Prop := s.map GatewayFSM.keyless = t.map GatewayFSM.keyless

/-- Snapshots leave out the private keys, and nothing reads these. -/
theorem sameState_lawful {storage : Storage ι Text Text S} (hst : storage.KeepsSnapshot) :
    (⟨True, SameState⟩ : View _).Lawful (gatewayEnv storage) where
  fresh := rfl
  apply s t entry h := by
    have hfst : ∀ r : Applied, (r.map (Prod.map GatewayFSM.keyless id)).map Prod.fst =
        (r.map Prod.fst).map GatewayFSM.keyless := by
      intro r
      cases r <;> rfl
    have happ : ∀ f : GatewayFSM, ((f.apply entry.boxed).map Prod.fst).map GatewayFSM.keyless =
        ((f.keyless.apply entry.boxed).map Prod.fst).map GatewayFSM.keyless := by
      intro f
      rw [← hfst, ← hfst, keyless_apply]
    unfold SameState at h ⊢
    rcases s with p | f <;> rcases t with q | g
    · exact h
    · cases h
    · cases h
    · have hk : f.keyless = g.keyless := Except.ok.inj h
      show ((f.apply entry.boxed).map Prod.fst).map _ = ((g.apply entry.boxed).map Prod.fst).map _
      rw [happ f, happ g, hk]
  snapshot s t data u s' h hd hr := by
    rcases s with p | f
    · cases hd
    · rcases u with q | g
      · cases hr
      · have hrestore : (restore data).toOption = some s' := hr
        rw [restore_snapshot hd] at hrestore
        cases hrestore
        show Except.ok f.keyless.keyless = _
        rw [f.keyless_keyless]
        exact h
  storage := hst

section
variable [DecidableEq ι] [Fintype ι] {storage : Storage ι Text Text S}
  {c : Cluster ι Text (Except Panic GatewayFSM) Text S}

/-- **Applied is replayed**: with compaction and `InstallSnapshot`, in every state that is reached with
up-to-date snapshots, the state machine of every node is what a fresh one becomes by the committed
entries `1 .. LastApplied`, each applied once and in order. -/
theorem applied_replayed (hst : storage.KeepsSnapshot)
    (hc : Reach (system (gatewayEnv storage)) ((upToDateOnly (gatewayEnv storage)).Allows (gatewayEnv storage)) c)
    (i : ι) :
    ∃ L, AppliedEntries c i L ∧ SameState (c.node i).fsm (replay (gatewayEnv storage) L) :=
  exists_applied (V := ⟨True, SameState⟩) trivial (sameState_lawful hst) hc i

end

/-! ## The snapshot that comes too late -/

abbrev inmemEnv : Env Trio Text (Except Panic GatewayFSM) Text (Inmem Trio Text Text) := gatewayEnv inmemStorage

/-- Three nodes that take a snapshot after every entry. -/
def eager : Cluster Trio Text (Except Panic GatewayFSM) Text (Inmem Trio Text Text) :=
  boot inmemEnv [.a, .b, .c] ⟨10, 1⟩ (some newInmem)

theorem eager_init : Cluster.Init inmemEnv eager :=
  boot_init (by decide) (by decide) fun s hs => by cases hs; exact inmem_blank

/-- Node a commits an entry with node b and compacts its log, so node c gets a snapshot. The same happens
with a second entry. -/
def snapshotRun : List (Action Trio Text) :=
  [.timeout .a, .deliver 0, .receive 0, .drop 0, .append .a (.ok oneCredit), .tick .a, .read 0, .deliver 0, .receive 0,
    .read 0, .deliver 0, .receive 0,
    .append .a (.ok oneCredit), .tick .a, .read 0, .deliver 0, .receive 0, .read 0, .deliver 0, .receive 0]

theorem applied_replayed_snapshot :
    ∃ c, Reach (system inmemEnv) ((upToDateOnly inmemEnv).Allows inmemEnv) c ∧ (c.node .c).lastApplied = 2 ∧
      (c.node .c).lastSnapshotIndex = 2 ∧
      ∃ L, AppliedEntries c .c L ∧ SameState (c.node .c).fsm (replay inmemEnv L) := by
  have hrun : (execGuarded inmemEnv (upToDateOnly inmemEnv) eager snapshotRun).map
      (fun c => ((c.node .c).lastApplied, (c.node .c).lastSnapshotIndex)) = some (2, 2) := by decide +kernel
  obtain ⟨c, hc, happ⟩ := Option.map_eq_some_iff.1 hrun
  simp only [Prod.mk.injEq] at happ
  have hreach := reach_of_exec eager_init hc
  exact ⟨c, hreach, happ.1, happ.2, applied_replayed inmem_keepsSnapshot hreach .c⟩

/-- The same run, but the request with the first snapshot is duplicated and arrives once more at the
end. -/
def lateSnapshotRun : List (Action Trio Text) :=
  [.timeout .a, .deliver 0, .receive 0, .drop 0, .append .a (.ok oneCredit), .tick .a, .read 0, .deliver 0, .receive 0,
    .read 0, .duplicate 0, .deliver 0, .receive 0,
    .append .a (.ok oneCredit), .tick .a, .read 1, .deliver 1, .receive 1, .read 1, .deliver 1, .receive 1, .deliver 0]

/-- What a client sees of the state. -/
theorem SameState.getCreditBalance {s t : Except Panic GatewayFSM} (h : SameState s t) (userID : String) :
    s.toOption.map (·.getCreditBalance userID) = t.toOption.map (·.getCreditBalance userID) := by
  unfold SameState at h
  rcases s with p | f <;> rcases t with q | g
  · rfl
  · cases h
  · cases h
  · have hk : f.keyless.getCreditBalance userID = g.keyless.getCreditBalance userID := by rw [Except.ok.inj h]
    exact congrArg some hk

/-- Node c has applied two entries, but its state machine shows the balance after the first. -/
theorem credit_lost :
    ∃ c, Reach (system inmemEnv) (noRestart.Allows inmemEnv) c ∧
      ¬ ∃ L, AppliedEntries c .c L ∧ SameState (c.node .c).fsm (replay inmemEnv L) := by
  have hrun : (execGuarded inmemEnv noRestart eager lateSnapshotRun).map (fun c =>
      ((c.node .c).lastApplied, (c.node .c).fsm.toOption.map (·.getCreditBalance "u"))) =
        some (2, some 1) := by decide +kernel
  have hcom : (execGuarded inmemEnv noRestart eager lateSnapshotRun).map (fun c =>
      [Trio.a, .b, .c].map fun j => (c.node j).committed) =
      some [[⟨1, 1, some oneCredit⟩, ⟨2, 1, some oneCredit⟩], [], []] := by decide +kernel
  obtain ⟨c, hc, hstate⟩ := Option.map_eq_some_iff.1 hrun
  simp only [Prod.mk.injEq] at hstate
  obtain ⟨happ, hbal⟩ := hstate
  simp only [hc, Option.map_some, Option.some.injEq, List.map_cons, List.map_nil, List.cons.injEq, and_true] at hcom
  obtain ⟨hcoma, hcomb, hcomc⟩ := hcom
  refine ⟨c, reach_of_exec eager_init hc, ?_⟩
  rintro ⟨L, hL, hsame⟩
  have hmem : ∀ e ∈ L, e = ⟨1, 1, some oneCredit⟩ ∨ e = ⟨2, 1, some oneCredit⟩ := by
    intro e he
    obtain ⟨-, j, hj⟩ := (hL.committed e).1 he
    cases j
    · rw [hcoma] at hj
      simpa using hj
    · rw [hcomb] at hj
      cases hj
    · rw [hcomc] at hj
      cases hj
  have hidx := hL.indices
  rw [happ] at hidx
  obtain ⟨x, y, rfl, hx, hy⟩ : ∃ x y, L = [x, y] ∧ x.index = 1 ∧ y.index = 2 := by
    have hlen : L.length = 2 := by rw [← List.length_map (f := (·.index)), hidx]; rfl
    obtain ⟨x, y, rfl⟩ := List.length_eq_two.1 hlen
    simp only [List.map_cons, List.map_nil, List.range', List.cons.injEq] at hidx
    exact ⟨x, y, rfl, hidx.1, hidx.2.1⟩
  obtain rfl : x = ⟨1, 1, some oneCredit⟩ := (hmem x (by simp)).resolve_right (by rintro rfl; cases hx)
  obtain rfl : y = ⟨2, 1, some oneCredit⟩ := (hmem y (by simp)).resolve_left (by rintro rfl; cases hy)
  have hreplay : (replay inmemEnv [⟨1, 1, some oneCredit⟩, ⟨2, 1, some oneCredit⟩]).toOption.map
    (·.getCreditBalance "u") =
      some 2 := by decide +kernel
  have := hsame.getCreditBalance "u"
  rw [hbal, hreplay] at this
  exact absurd this (by decide)

end Raft
