import ApiCerberus.Raft.LogVotes

/-!
# Applying entries, compaction, and installed snapshots

The parts of a critical section that move `LastApplied` and the base of the log. None of them changes
what the log of a node stands for, except a snapshot that is ahead of the log: then the log is the
committed prefix the snapshot stands for.
-/

namespace Raft

open Consensus

variable {ι κ σ δ S : Type} [DecidableEq ι] [Fintype ι] [ByteSlice δ] {E : Env ι κ σ δ S} {V : View σ}
  {a a' : Replicas ι (LogEntry κ)} {c : Cluster ι κ σ δ S} {i j : ι} {n n' : Node ι κ σ S}

/-! ## The apply loop -/

theorem LogRel.setCommit (h : LogRel E V a (c.put i n)) {k : Nat} (hk : a.Safe i k) :
    LogRel E V a (c.put i { n with commitIndex := k }) :=
  h.quiet { Quiet.refl E n with } { h.self with commit := hk } (le_refl _) rfl

section
variable (hV : V.on → V.Lawful E)
include hV

/-- The entry that is applied is a committed one. -/
theorem LogRel.applyNext (h : LogRel E V a (c.put i n)) (hlt : n.lastApplied < n.commitIndex) :
    LogRel E V a (c.put i (applyNext E n)) := by
  have hn := h.self
  have hsafe : a.Safe i (n.lastApplied + 1) := Replicas.Inv.safe_sub hn.commit hlt
  have hlen := h.inv.safe_le hsafe
  obtain ⟨e, he⟩ : ∃ e, (a.log i)[n.lastApplied]? = some e := ⟨_, List.getElem?_eq_getElem hlen⟩
  have hentry : entryAt n.log (n.lastApplied + 1) = some e := by
    rw [hn.log, entryAt_window_succ hn.base_le]; exact he
  have htake : (a.log i).take (n.lastApplied + 1) = (a.log i).take n.lastApplied ++ [e] := by
    rw [List.take_add_one, he]; rfl
  refine h.quiet (quiet_applyNext E n) ?_ ?_ ?_
  · unfold Raft.applyNext
    rw [hentry]
    exact
      { hn with
        applied := hsafe
        base_le := Nat.le_succ_of_le hn.base_le
        snap_le := Nat.le_succ_of_le hn.snap_le
        matched := fun hl p hp => (hn.matched hl p hp).imp id Nat.le_succ_of_le
        applied_com := fun f hf => by
          rcases List.mem_append.1 hf with hf | hf
          · exact hn.applied_com f hf
          · rw [List.mem_singleton] at hf
            subst hf
            obtain ⟨T, hT⟩ := h.inv.safe_settled hsafe
            exact ⟨_, hT.committed (Nat.lt_succ_self _) he⟩
        fsm := by
          show Shows E V _ ((a.log i).take (n.lastApplied + 1))
          rw [htake]
          exact hn.fsm.snoc hV e
        stored := fun hon s hs idx t d hd hl => by
          obtain ⟨h1, h2⟩ := hn.stored hon s hs idx t d hd hl
          exact ⟨Nat.le_succ_of_le h1, h2⟩ }
  · unfold Raft.applyNext
    rw [hentry]
    exact Nat.le_succ _
  · unfold Raft.applyNext
    rw [hentry]

theorem LogRel.applyLoop (k : Nat) : ∀ {n : Node ι κ σ S}, LogRel E V a (c.put i n) →
    n.lastApplied + k ≤ n.commitIndex →
    LogRel E V a (c.put i (applyLoop E k n)) := by
  induction k with
  | zero => exact fun h _ => h
  | succ k ih =>
    intro n h hk
    have hcommit : (Raft.applyNext E n).commitIndex = n.commitIndex := by unfold Raft.applyNext; split <;> rfl
    have hlast : (Raft.applyNext E n).lastApplied = n.lastApplied + 1 := by unfold Raft.applyNext; split <;> rfl
    exact ih (h.applyNext hV (by omega)) (by omega)

omit [DecidableEq ι] [Fintype ι] [ByteSlice δ] hV in
theorem applyLoop_state (k : Nat) : ∀ n : Node ι κ σ S, (applyLoop E k n).state = n.state :=
  fun n => (quiet_applyLoop E k n).state

/-! ## Compaction -/

omit [Fintype ι] hV in
/-- The log of a member becomes `x`, of which the first `k` entries are behind a snapshot. -/
theorem NodeL.place (hn : NodeL E V a i n) {x : List (LogEntry κ)} {k : Nat} (hx : Agree n.lastApplied x (a.log i))
    (hk : k ≤ n.lastApplied) (hpos : 0 < k → 0 < n.lastSnapshotIndex) (hcommit : (a.place i x k).Safe i n.commitIndex)
    (happlied : (a.place i x k).Safe i n.lastApplied) : NodeL E V (a.place i x k) i { n with log := window x k } where
  log := by simp [Replicas.place]
  commit := hcommit
  applied := happlied
  base_le := by simpa [Replicas.place] using hk
  snap_le := hn.snap_le
  snap_term := by
    have := termAt_of_agree hx hn.snap_le
    simpa [Replicas.place, this] using hn.snap_term
  snap_pos := by simpa [Replicas.place] using hpos
  next := hn.next
  matched := hn.matched
  applied_com := hn.applied_com
  committed_com := hn.committed_com
  fsm := by simpa [Replicas.place, take_of_agree hx (le_refl _)] using hn.fsm
  stored hon s hs idx t d hd hl := by
    obtain ⟨h1, h2⟩ := hn.stored hon s hs idx t d hd hl
    exact ⟨h1, by simpa [Replicas.place, take_of_agree hx h1] using h2⟩

omit [Fintype ι] hV in
theorem place_same (a : Replicas ι (LogEntry κ)) (i : ι) : a.place i (a.log i) (a.base i) = a := by
  simp [Replicas.place]

omit hV in
/-- A member that keeps its log and compacts it keeps what it may treat as committed. -/
theorem safe_compact (hinv : a.Inv) {k m : Nat} (hk : a.base i ≤ k) (hm : a.Safe i m) :
    (a.place i (a.log i) k).Safe i m :=
  hinv.safe_grow hm (a.moves_place i (a.log i) k).toGrows (by simp [Replicas.place])
    (by simpa [Replicas.place] using hk)

omit [DecidableEq ι] [Fintype ι] in
/-- A snapshot of the state machine is saved. -/
theorem NodeL.saveSnapshot (hn : NodeL E V a i n) {s : S} (hs : n.storage = some s) {d : δ} {idx t : Nat}
    (hidx : idx ≤ n.lastApplied) (hd : Holds E V d ((a.log i).take idx)) :
    NodeL E V a i { n with storage := some (E.storage.saveSnapshot s idx t d).1 } :=
  { hn with
    stored := fun hon s' hs' idx' t' d' hload hl => by
      cases hs'
      rcases (hV hon).storage.saveSnapshot s idx t d with hsave | hsave
      · rw [hsave] at hload
        cases hload
        exact ⟨hidx, hd⟩
      · rw [hsave] at hload
        exact hn.stored hon s hs idx' t' d' hload hl }

omit hV in
/-- `compactLog` at `LastApplied`, after the snapshot has been saved. -/
theorem NodeL.trim (hn : NodeL E V a i n) (hinv : a.Inv) :
    NodeL E V (a.place i (a.log i) n.lastApplied) i (trim n n.lastApplied (termAt (a.log i) n.lastApplied)) := by
  have hbase := hn.base_le
  have hlen := hinv.safe_le hn.applied
  have h1 : NodeL E V a i
      { n with lastSnapshotIndex := n.lastApplied, lastSnapshotTerm := termAt (a.log i) n.lastApplied } :=
    { hn with snap_le := le_refl _, snap_term := rfl, snap_pos := fun h0 => lt_of_lt_of_le h0 hbase }
  have h2 := h1.place (.refl _ _) (le_refl _) id (safe_compact hinv hbase hn.commit)
    (safe_compact hinv hbase hn.applied)
  unfold Raft.trim
  rw [hn.log, trimLog_window hbase hlen]
  exact h2

/-- `compactLog`: what the log stands for stays. -/
theorem LogRel.compactLog (h : LogRel E V a (c.put i n)) (hs : n.state ≠ .candidate) :
    ∃ a', a.Moves i a' ∧ LogRel E V a' (c.put i (compactLog E n)) ∧ a'.log = a.log := by
  have hn := h.self
  have hlen := h.inv.safe_le hn.applied
  have hterm : snapshotTerm n.log n.lastApplied = termAt (a.log i) n.lastApplied := by
    rw [hn.log]; exact snapshotTerm_window (h.base_le i) hn.base_le hlen
  have hinv : (a.place i (a.log i) n.lastApplied).Inv := by
    refine Replicas.inv_place h.inv (fun hl => ⟨rfl, h.inv.leader_known hl hn.applied⟩) (fun hc => absurd ?_ hs)
      (h.inv.log_canon i) (h.inv.safe_settled hn.applied) fun _ _ _ _ hx => hx
    exact NodeState.role_inj (t := .candidate) (h.selfE.role.trans hc)
  have hmoves := a.moves_place i (a.log i) n.lastApplied
  have el := h.el.quiet (i := i) (n := Raft.compactLog E n) (by rw [Cluster.put_self]; exact quiet_compactLog E n)
  rw [Cluster.put_put] at el
  have hsame : (a.place i (a.log i) n.lastApplied).log = a.log := by simp [Replicas.place]
  unfold Raft.compactLog at el ⊢
  rw [hterm] at el ⊢
  cases hd : E.fsm.snapshot n.fsm with
  | none => exact ⟨a, .refl i a, h, rfl⟩
  | some d =>
    have hholds := hn.fsm.snapshot hV hd
    rw [hd] at el
    cases hst : n.storage with
    | none =>
      simp only [hst] at el ⊢
      exact ⟨_, hmoves, h.put_same hmoves el hinv rfl rfl (hn.trim h.inv) (le_refl _) fun _ => id, hsame⟩
    | some s =>
      have hn' := hn.saveSnapshot hV hst (t := termAt (a.log i) n.lastApplied) (le_refl _) hholds
      simp only [hst] at el ⊢
      split
      · rename_i hok
        rw [if_pos hok] at el
        exact ⟨_, hmoves, h.put_same hmoves el hinv rfl rfl (hn'.trim h.inv) (le_refl _) fun _ => id, hsame⟩
      · rename_i hok
        rw [if_neg hok] at el
        exact ⟨a, .refl i a, h.put_same (.refl i a) el h.inv rfl rfl hn' (le_refl _) fun _ => id, rfl⟩

theorem LogRel.applyCommitted (h : LogRel E V a (c.put i n)) (hs : n.state ≠ .candidate) :
    ∃ a', a.Moves i a' ∧ LogRel E V a' (c.put i (applyCommitted E n)) ∧ a'.log = a.log := by
  have hstate := applyLoop_state (E := E) (n.commitIndex - n.lastApplied) n
  have hloop : LogRel E V a (c.put i (Raft.applyLoop E (n.commitIndex - n.lastApplied) n)) := by
    rcases Nat.le_total n.commitIndex n.lastApplied with hle | hle
    · rw [Nat.sub_eq_zero_of_le hle]; exact h
    · exact h.applyLoop hV _ (by omega)
  unfold Raft.applyCommitted maybeSnapshot
  split
  · exact ⟨a, .refl i a, hloop, rfl⟩
  · split
    · exact hloop.compactLog hV (by rw [hstate]; exact hs)
    · exact ⟨a, .refl i a, hloop, rfl⟩

end

/-! ## Installed snapshots -/

/-- The node after `Restore` and with the new indices, before its log is cut. -/
def installed (E : Env ι κ σ δ S) (n : Node ι κ σ S) (req : InstallSnapshotRequest ι δ) (log : List (LogEntry κ)) :
    Node ι κ σ S :=
  { n with
    log := log
    lastApplied := max n.lastApplied req.lastIncludedIndex
    commitIndex := max n.commitIndex req.lastIncludedIndex
    lastSnapshotIndex := req.lastIncludedIndex
    lastSnapshotTerm := req.lastIncludedTerm
    storage := n.storage.map fun s =>
      (E.storage.saveSnapshot s req.lastIncludedIndex req.lastIncludedTerm req.data).1 }

omit [DecidableEq ι] [Fintype ι] [ByteSlice δ] in
theorem install_eq (n : Node ι κ σ S) (req : InstallSnapshotRequest ι δ) :
    install E n req = installed E n req (installLog n.log req.lastIncludedIndex req.lastIncludedTerm) := rfl

/-- The log `x` with base `b` may take the place of the log of member `i`, as far as that member and
the snapshot of `P` are concerned. -/
structure Fits (a : Replicas ι (LogEntry κ)) (i : ι) (n : Node ι κ σ S) (P x : List (LogEntry κ)) (b : Nat) : Prop where
  inv : (a.place i x b).Inv
  prefix_eq : Agree P.length x P
  applied : Agree n.lastApplied x (a.log i)
  base_le : b ≤ max n.lastApplied P.length
  safe : ∀ k, a.Safe i k → (a.place i x b).Safe i k
  safe_snapshot : (a.place i x b).Safe i P.length

variable {req : InstallSnapshotRequest ι δ} {P : List (LogEntry κ)}

/-- The node after the snapshot, against the log it stands for. -/
theorem NodeL.installed (hV : V.on → V.Lawful E) (hn : NodeL E V a i n)
    {P x : List (LogEntry κ)} {b : Nat} (hP : Stands E V a req P) (hx : Fits a i n P x b) {f : σ}
    (hf : Shows E V f (x.take (max n.lastApplied P.length))) :
    NodeL E V (a.place i x b) i (installed E { n with fsm := f } req (window x b)) := by
  have hlog : (a.place i x b).log i = x := by simp [Replicas.place]
  have hbase : (a.place i x b).base i = b := by simp [Replicas.place]
  have hlen := hP.length
  refine
    { log := by rw [hlog, hbase]; rfl
      commit := ?_
      applied := ?_
      base_le := ?_
      snap_le := le_max_right _ _
      snap_term := ?_
      snap_pos := fun _ => hP.pos
      next := hn.next
      matched := fun hl p hp => (hn.matched hl p hp).imp id fun hm => le_max_of_le_left hm
      applied_com := hn.applied_com
      committed_com := hn.committed_com
      fsm := ?_
      stored := ?_ }
  · show (a.place i x b).Safe i (max n.commitIndex req.lastIncludedIndex)
    rw [← hlen]
    rcases max_choice n.commitIndex P.length with he | he <;> rw [he]
    · exact hx.safe _ hn.commit
    · exact hx.safe_snapshot
  · show (a.place i x b).Safe i (max n.lastApplied req.lastIncludedIndex)
    rw [← hlen]
    rcases max_choice n.lastApplied P.length with he | he <;> rw [he]
    · exact hx.safe _ hn.applied
    · exact hx.safe_snapshot
  · show (a.place i x b).base i ≤ max n.lastApplied req.lastIncludedIndex
    rw [hbase, ← hlen]; exact hx.base_le
  · show req.lastIncludedTerm = termAt ((a.place i x b).log i) req.lastIncludedIndex
    rw [hP.term, hlog, ← hlen]
    exact (termAt_of_agree hx.prefix_eq (le_refl _)).symm
  · show Shows E V f (((a.place i x b).log i).take (max n.lastApplied req.lastIncludedIndex))
    rw [hlog, ← hlen]; exact hf
  · intro hon s' hs' idx t d hload hl
    obtain ⟨s, hs, rfl⟩ := Option.map_eq_some_iff.1 hs'
    rw [hlog]
    show idx ≤ max n.lastApplied req.lastIncludedIndex ∧ _
    rcases (hV hon).storage.saveSnapshot s req.lastIncludedIndex req.lastIncludedTerm req.data with hsave | hsave
    · rw [hsave] at hload
      cases hload
      refine ⟨le_max_right _ _, ?_⟩
      rw [take_of_agree hx.prefix_eq hlen.ge, List.take_of_length_le hlen.le]
      exact hP.data
    · rw [hsave] at hload
      obtain ⟨h1, h2⟩ := hn.stored hon s hs idx t d hload hl
      refine ⟨le_max_of_le_left h1, ?_⟩
      rw [take_of_agree hx.applied h1]
      exact h2

/-- What `HandleInstallSnapshot` does to the log: the entry at the snapshot's index, if there is one,
must have the snapshot's term. -/
theorem LogRel.installLog (h : LogRel E V a (c.put i n))
    (hP : Stands E V a req P) (hrole : a.ballots.role i ≠ .leader)
    (hcd : a.ballots.role i = .candidate → ¬ a.Unwon (a.ballots.term i))
    (hfit : ∀ e, entryAt n.log req.lastIncludedIndex = some e → e.term = req.lastIncludedTerm) :
    ∃ x b, Fits a i n P x b ∧ installLog n.log req.lastIncludedIndex req.lastIncludedTerm = window x b ∧
      (req.lastIncludedIndex < baseIndex n.log + n.log.length → x = a.log i) := by
  have hn := h.self
  have hbase := h.base_le i
  obtain ⟨T, hT⟩ := hP.settled
  have hlen := hP.length
  have happlied := h.inv.safe_le hn.applied
  obtain ⟨Ta, hTa⟩ := h.inv.safe_settled hn.applied
  rw [hn.log] at hfit ⊢
  rw [installLog_window hbase, baseIndex_window, length_window, hP.term, ← hlen]
  rw [hP.term, ← hlen] at hfit
  by_cases hlong : (a.log i).length < P.length
  · refine ⟨P, P.length, ?_, ?_, fun hlt => by omega⟩
    · exact
        { inv := Replicas.inv_install h.inv hT hlong.le hrole hcd
          prefix_eq := .refl _ _
          applied := (h.inv.settled_agree hT hTa).sub (by omega)
          base_le := le_max_right _ _
          safe := fun k hk => Or.inl (by
            have := h.inv.safe_le hk
            simp only [Replicas.place, Function.update_self]
            omega)
          safe_snapshot := Or.inl (by simp [Replicas.place]) }
    · rw [if_pos hlong, window, List.drop_length]
  · rw [if_neg hlong]
    by_cases hb : a.base i ≤ P.length
    · rw [if_pos hb]
      obtain ⟨e, he⟩ := entryAt_window_isSome (x := a.log i) hb (by omega)
      have hterm : termAt (a.log i) P.length = termAt P P.length := by
        rw [← (entryAt_window he hbase).2.2]; exact hfit e he
      -- the entry at the snapshot's index has the same term, so the logs are the same up to it
      have hag : Agree P.length (a.log i) P := by
        obtain ⟨d, hd⟩ : ∃ d, P.length = d + 1 := ⟨P.length - 1, by have := hP.pos; omega⟩
        have hx : (a.log i)[d]? = some (a.log i)[d] := List.getElem?_eq_getElem (by omega)
        have hp : P[d]? = some P[d] := List.getElem?_eq_getElem (by omega)
        rw [hd, termAt_of_getElem? hx, termAt_of_getElem? hp] at hterm
        rw [hd]
        exact (h.inv.log_canon i).agree (h.inv.settled_canon hT) hx hp hterm
      refine ⟨a.log i, P.length, ?_, ?_, fun _ => rfl⟩
      · exact
          { inv := Replicas.inv_place h.inv (fun hl => absurd hl hrole) hcd (h.inv.log_canon i) ⟨T, hT.congr hag⟩
              fun _ _ _ _ hx => hx
            prefix_eq := hag
            applied := .refl _ _
            base_le := le_max_right _ _
            safe := fun k hk => safe_compact h.inv hb hk
            safe_snapshot := Or.inl (by simp [Replicas.place]) }
      · rw [window, hterm]
    · rw [if_neg hb]
      refine ⟨a.log i, a.base i, ?_, rfl, fun _ => rfl⟩
      obtain ⟨Tb, hTb⟩ := h.inv.base_settled i
      rw [not_le] at hb
      exact
        { inv := by rw [place_same]; exact h.inv
          prefix_eq := (h.inv.settled_agree hTb hT).sub (by omega)
          applied := .refl _ _
          base_le := le_max_of_le_left hn.base_le
          safe := fun k hk => by rw [place_same]; exact hk
          safe_snapshot := by rw [place_same]; exact Or.inl hb.le }

/-- What the state machine must allow for when a snapshot arrives: it is not behind what has been
applied, and it is not empty. -/
def Current (V : View σ) (n : Node ι κ σ S) (req : InstallSnapshotRequest ι δ) : Prop :=
  V.on → n.lastApplied ≤ req.lastIncludedIndex ∧ 0 < ByteSlice.len req.data

theorem LogRel.install (hV : V.on → V.Lawful E) (h : LogRel E V a (c.put i n))
    (hP : Stands E V a req P) (hrole : a.ballots.role i ≠ .leader)
    (hcd : a.ballots.role i = .candidate → ¬ a.Unwon (a.ballots.term i))
    (hfit : ∀ e, entryAt n.log req.lastIncludedIndex = some e → e.term = req.lastIncludedTerm)
    (hcur : Current V n req) {m : Node ι κ σ S} (hm : restoreFSM E n req.data = some m) :
    ∃ x b, LogRel E V (a.place i x b) (c.put i (install E m req)) ∧
      (req.lastIncludedIndex < baseIndex n.log + n.log.length → x = a.log i) := by
  obtain ⟨x, b, hx, hlog, hkept⟩ := h.installLog hP hrole hcd hfit
  obtain ⟨f, rfl, hf⟩ : ∃ f, m = { n with fsm := f } ∧ Shows E V f (x.take (max n.lastApplied P.length)) := by
    have hshow : V.on → ∀ f, E.fsm.restore n.fsm req.data = some f →
        Shows E V f (x.take (max n.lastApplied P.length)) := by
      intro hon f hr
      rw [max_eq_right (by have := (hcur hon).1; have := hP.length; omega), take_of_agree hx.prefix_eq (le_refl _),
        List.take_length]
      exact hP.data _ _ hr
    unfold restoreFSM at hm
    split at hm
    · obtain ⟨f, hr, rfl⟩ := Option.map_eq_some_iff.1 hm
      exact ⟨f, rfl, fun hon => hshow hon f hr hon⟩
    · rename_i hd
      cases hm
      exact ⟨n.fsm, rfl, fun hon => absurd (hcur hon).2 hd⟩
  have q : Quiet E n (Raft.install E { n with fsm := f } req) := by
    refine Quiet.trans ?_ (quiet_install E _ req)
    exact { Quiet.refl E n with }
  have el := h.el.quiet (i := i) (by rw [Cluster.put_self]; exact q)
  rw [Cluster.put_put] at el
  refine ⟨x, b, ?_, hkept⟩
  rw [install_eq] at el ⊢
  dsimp only at el ⊢
  rw [hlog] at el ⊢
  exact h.put_same (a.moves_place i x b) el hx.inv rfl rfl (h.self.installed hV hP hx hf) (le_max_left _ _) fun _ => id

/-- The whole handler, with the requests that it refuses. -/
theorem LogRel.handleInstallSnapshot (hV : V.on → V.Lawful E) (h : LogRel E V a (c.put i n)) {l : ι}
    (hw : a.ballots.won l req.term) (hne : l ≠ i)
    (hP : Stands E V a req P)
    (hfit : n.currentTerm ≤ req.term → ∀ e, entryAt n.log req.lastIncludedIndex = some e →
      e.term = req.lastIncludedTerm)
    (hcur : n.currentTerm ≤ req.term → Current V n req) :
    ∃ a', a.Moves i a' ∧ LogRel E V a' (c.put i (handleInstallSnapshot E n req).1) ∧
      ((n.currentTerm ≤ req.term → req.lastIncludedIndex < baseIndex n.log + n.log.length) → a'.log = a.log) := by
  unfold Raft.handleInstallSnapshot
  split
  · exact ⟨a, .refl i a, h, fun _ => rfl⟩
  · rename_i hge
    have hle : n.currentTerm ≤ req.term := by omega
    have hobs := h.observeLeader hV req.term req.leaderID
    have hm : a.Moves i (a.observe i req.term) := a.moves_ballots (a.ballots.moves_observe i req.term)
    have st := steady_observeLeader hV n req.term req.leaderID
    have hterm : (a.observe i req.term).ballots.term i = req.term :=
      Ballots.observe_term (by rw [← h.selfE.term]; exact hle)
    have hwon : (a.observe i req.term).ballots.won l req.term := hm.ballots.won _ _ hw
    dsimp only
    split
    · exact ⟨_, hm, hobs, fun _ => rfl⟩
    · rename_i m hr
      have hrole : (a.observe i req.term).ballots.role i ≠ .leader := fun hl => by
        have := hobs.inv.ballots.leader_won i hl
        rw [hterm] at this
        exact hne (hobs.inv.ballots.unique_winner l i _ hwon this)
      obtain ⟨x, b, h', hkept⟩ := hobs.install hV (hP.grow h.inv hm.toGrows) hrole
        (fun _ hu => hu l (by rw [hterm]; exact hwon)) (by rw [st.log]; exact hfit hle)
        (fun hon => by rw [st.lastApplied]; exact hcur hle hon) hr
      rw [st.log] at hkept
      refine ⟨_, hm.trans (Replicas.moves_place _ i x b), h', fun hlt => ?_⟩
      show Function.update a.log i x = a.log
      rw [hkept (hlt hle)]
      exact Function.update_eq_self i a.log

end Raft
