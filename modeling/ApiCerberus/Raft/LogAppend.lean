import ApiCerberus.Raft.LogApply

/-!
# Replication

Both sides of `AppendEntries`. A request is a part of a log its sender read under a term it had won;
the term may be over by then and the log may have been overwritten, so nothing is known of that log
but that it is canonical and compatible with every choosable entry. An accepted request makes the
receiver's log meet the sent one at the last entry of the request, and everything else follows.
-/

namespace Raft

open Consensus

variable {ι κ σ δ S : Type} [DecidableEq ι] [Fintype ι] [ByteSlice δ] {E : Env ι κ σ δ S} {V : View σ}
  {a a' : Replicas ι (LogEntry κ)} {c : Cluster ι κ σ δ S} {i j : ι} {n n' : Node ι κ σ S}

/-! ## The follower's log -/

/-- The entries of a request up to index `k` are in the log already. -/
def Undisturbed (log : List (LogEntry κ)) (entries : List (LogEntry κ)) (k : Nat) : Prop :=
  ∀ e ∈ entries, e.index ≤ k → (entryAt log e.index).map (·.term) = some e.term

instance (log entries : List (LogEntry κ)) (k : Nat) : Decidable (Undisturbed log entries k) :=
  inferInstanceAs (Decidable (∀ e ∈ entries, _))

/-- The request passes the consistency check. -/
def Accepts (log : List (LogEntry κ)) (req : AppendEntriesRequest ι κ) : Prop :=
  prevConflict log req.prevLogIndex req.prevLogTerm = none

instance (log : List (LogEntry κ)) (req : AppendEntriesRequest ι κ) : Decidable (Accepts log req) :=
  inferInstanceAs (Decidable (_ = none))

variable {req : AppendEntriesRequest ι κ} {y : List (LogEntry κ)}

/-- Where an accepted request starts. -/
theorem LogRel.starts (h : LogRel E V a (c.put i n))
    (hc : Accepts n.log req)
    (hg : req.prevLogIndex = 0 → req.entries ≠ [] → baseIndex n.log = 0) (hne : req.entries ≠ []) :
    a.base i ≤ req.prevLogIndex ∧ req.prevLogIndex ≤ (a.log i).length := by
  rw [Accepts, h.self.log] at hc
  rw [h.self.log] at hg
  rcases prevConflict_window (h.base_le i) hc with h0 | ⟨h1, h2, -⟩
  · have := hg h0 hne
    rw [baseIndex_window] at this
    omega
  · exact ⟨h1, h2⟩

/-- The consistency check: the log meets the sent log at `PrevLogIndex`. -/
theorem LogRel.meet_prev (h : LogRel E V a (c.put i n))
    (hsl : Slice req y) (hc : Accepts n.log req) :
    Meet req.prevLogIndex (a.log i) y := by
  rw [Accepts, h.self.log] at hc
  intro d hd
  rcases prevConflict_window (h.base_le i) hc with h0 | ⟨-, h2, h3⟩
  · omega
  · have hx : (a.log i)[d]? = some (a.log i)[d] := List.getElem?_eq_getElem (by omega)
    have hy : y[d]? = some (y.get ⟨d, by have := hsl.prev_le; omega⟩) :=
      List.getElem?_eq_getElem (by have := hsl.prev_le; omega)
    refine ⟨_, _, hx, hy, ?_⟩
    rw [hsl.prev_term, hd, termAt_of_getElem? hx, termAt_of_getElem? hy] at h3
    exact h3

theorem meet_of_matches {x y es : List (LogEntry κ)} {p q : Nat} (hes : es <+: y.drop p) (hm : Matches x es p q)
    (hp : Meet p x y) : Meet (p + q) x y := by
  intro d hd
  cases q with
  | zero => exact hp d hd
  | succ q =>
    obtain ⟨e, f, he, hf, ht⟩ := hm q (by omega)
    obtain rfl : d = p + q := by omega
    exact ⟨e, f, he, getElem?_of_slice hes hf, ht⟩

variable (hV : V.on → V.Lawful E)
include hV

/-- A follower replaces its log from the first conflict `p` on by the sent log, up to `q`. -/
theorem LogRel.adopt (h : LogRel E V a (c.put i n)) (hs : n.state = .follower)
    (hy : a.sent n.currentTerm y) {p q : Nat} (hbp : a.base i ≤ p) (hp : p ≤ (a.log i).length) (hpq : p < q)
    (hq : q ≤ y.length) (hmeet : Meet p (a.log i) y)
    (hconf : ∀ e f, (a.log i)[p]? = some e → y[p]? = some f → e.term ≠ f.term) (es : List (LogEntry κ)) :
    LogRel E V (a.place i (splice (a.log i) y p q) (a.base i))
      (c.put i (persistLog E { n with log := window (splice (a.log i) y p q) (a.base i) } es)) := by
  have hn := h.self
  have hrole : a.ballots.role i = .follower := by rw [← h.selfE.role, hs]; rfl
  rw [h.selfE.term] at hy
  have quiet : Quiet E n (persistLog E { n with log := window (splice (a.log i) y p q) (a.base i) } es) := by
    refine Quiet.trans ?_ (quiet_persistLog E _ es)
    exact { Quiet.refl E n with }
  have el := h.el.quiet (i := i) (by rw [Cluster.put_self]; exact quiet)
  rw [Cluster.put_put] at el
  have hinv := Replicas.inv_adopt h.inv hrole hy hbp hp hpq hq hmeet hconf
  have hsafe := fun m hm => Replicas.safe_adopt (k := m) (q := q) h.inv hy hbp hp (hpq.trans_le hq) hconf hm
  have hnode := hn.place (hsafe _ hn.applied).2 hn.base_le hn.snap_pos (hsafe _ hn.commit).1 (hsafe _ hn.applied).1
  refine h.put_same (a.moves_place i _ _) el hinv rfl rfl (hnode.steady ?_ fun hl => ⟨hl, rfl⟩) (le_refl _) fun _ => id
  exact
    { Steady.refl E V { n with log := window (splice (a.log i) y p q) (a.base i) } with
      snapshot := fun hon => by cases n.storage <;> simp [persistLog, (hV hon).storage.saveLog] }

/-- The append loop on a follower: the log becomes `x`, which meets the sent log at the last entry of
the request. -/
theorem LogRel.appendNew (h : LogRel E V a (c.put i n)) (hs : n.state = .follower)
    (ht : n.currentTerm = req.term) (hy : a.sent req.term y) (hsl : Slice req y)
    (hc : Accepts n.log req)
    (hg : req.prevLogIndex = 0 → req.entries ≠ [] → baseIndex n.log = 0) :
    ∃ x, LogRel E V (a.place i x (a.base i)) (c.put i (appendNew E n req)) ∧
      Meet (req.prevLogIndex + req.entries.length) x y ∧
      ∀ m, m < (a.log i).length → Undisturbed n.log req.entries (m + 1) → x[m]? = (a.log i)[m]? := by
  have hn := h.self
  have hprev := h.meet_prev hsl hc
  unfold Raft.appendNew
  by_cases hne : req.entries = []
  · refine ⟨a.log i, ?_, by rw [hne]; exact hprev, fun _ _ _ => rfl⟩
    rw [place_same]
    simp only [hne, Raft.appendLoop]
    exact h
  obtain ⟨hbp, hp⟩ := h.starts hc hg hne
  have hbase : baseIndex n.log = a.base i := by rw [hn.log, baseIndex_window]
  have hwin := appendLoop_window (y := y) hbp hp hsl.entries
  rw [← hn.log] at hwin
  rw [hbase]
  rcases hwin with ⟨hm, hr⟩ | ⟨k, hk, hpk, hm, hconf, hr⟩
  · refine ⟨a.log i, ?_, meet_of_matches hsl.entries hm hprev, fun _ _ _ => rfl⟩
    rw [place_same]
    simp only [hr]
    exact h
  · have hf : req.entries[k]? = some req.entries[k] := List.getElem?_eq_getElem hk
    have hfy := getElem?_of_slice hsl.entries hf
    have hlen : req.prevLogIndex + req.entries.length ≤ y.length := by
      have h1 := hsl.entries.length_le
      have h2 := hsl.prev_le
      rw [List.length_drop] at h1
      omega
    have hnil : req.entries.drop k ≠ [] := fun h0 => by
      have := List.drop_eq_nil_iff.1 h0
      omega
    refine ⟨splice (a.log i) y (req.prevLogIndex + k) (req.prevLogIndex + req.entries.length), ?_, ?_, ?_⟩
    · simp only [hr, hnil, if_false]
      refine h.adopt hV hs (by rw [ht]; exact hy) (by omega) hpk (by omega) hlen
        (meet_of_matches hsl.entries hm hprev) ?_ _
      intro e f he hf'
      rw [hfy] at hf'
      cases hf'
      exact hconf e _ he hf
    · -- the last entry of the request is now in both logs
      intro d hd
      have hd' : y[d]? = some (y.get ⟨d, by omega⟩) := List.getElem?_eq_getElem (by omega)
      refine ⟨_, _, ?_, hd', rfl⟩
      rw [getElem?_splice hpk, if_neg (by omega), if_pos (by omega)]
      exact hd'
    · intro m _ hu
      refine agree_splice hpk (le_refl _) m ?_
      -- an entry of the request at or below `m + 1` that conflicts would have been in the log already
      by_contra hlt
      have hidx := h.canon_indexed (h.inv.sent_canon _ y hy) _ _ hfy
      obtain ⟨f, hf1, hf2⟩ := Option.map_eq_some_iff.1 (hu _ (List.getElem_mem hk) (by omega))
      rw [show req.entries[k].index = req.prevLogIndex + k + 1 by omega, hn.log, entryAt_window_succ (by omega)] at hf1
      exact hconf f _ hf1 hf hf2

omit hV in
theorem LogRel.acknowledge (h : LogRel E V a (c.put i n)) {l : ι} {q : Nat}
    (hs : a.sent n.currentTerm y) (hw : a.ballots.won l n.currentTerm) (hl : a.ballots.term l = n.currentTerm)
    (hm : Meet q (a.log i) y) : LogRel E V (a.acknowledge i q) (c.put i n) := by
  have hterm := h.selfE.term
  rw [hterm] at hs hw hl
  have hmoves := a.moves_acknowledge i q
  exact h.put_same hmoves h.el (Replicas.inv_acknowledge_sent h.inv hs hw hl hm) rfl rfl
    (h.self.frame h.inv hmoves.toGrows rfl rfl) (le_refl _) fun _ => id

/-- The end of `HandleAppendEntries`: what the leader has announced is committed as far as the request
reaches. -/
theorem LogRel.updateCommit (h : LogRel E V a (c.put i n)) (hs : n.state = .follower)
    (hy : a.sent n.currentTerm y) (hm : Meet (req.prevLogIndex + req.entries.length) (a.log i) y)
    (hann : a.Announced n.currentTerm req.leaderCommit) :
    ∃ a', a.Moves i a' ∧ LogRel E V a' (c.put i (updateCommit E n req)) ∧ a'.log = a.log := by
  unfold Raft.updateCommit
  split
  · rw [h.selfE.term] at hy hann
    have hk := h.inv.known_announced hy hann hm
    have hc := h.setCommit (Or.inr hk)
    exact hc.applyCommitted hV (by simp [hs])
  · exact ⟨a, .refl i a, h, rfl⟩

/-- An accepted request: acknowledged if its sender is still in the term, then committed. -/
theorem LogRel.accept (h : LogRel E V a (c.put i n)) (hs : n.state = .follower) {l : ι}
    (ht : n.currentTerm = req.term) (hw : a.ballots.won l req.term) (hne : l ≠ i)
    (hy : a.sent req.term y) (hm : Meet (req.prevLogIndex + req.entries.length) (a.log i) y)
    (hann : a.Announced req.term req.leaderCommit) :
    ∃ a', a.Moves i a' ∧ LogRel E V a' (c.put i (Raft.updateCommit E n req)) ∧
      (a'.ballots.term l = req.term → req.prevLogIndex + req.entries.length ≤ a'.ack i req.term) ∧ a'.log = a.log := by
  rw [← ht] at hy hann hw ⊢
  by_cases hl : a.ballots.term l = n.currentTerm
  · have hack := h.acknowledge hy hw hl hm
    have hma := a.moves_acknowledge i (req.prevLogIndex + req.entries.length)
    obtain ⟨a', hm', h', hlog'⟩ := hack.updateCommit hV hs (hma.sent _ _ hy) hm (hann.grow hma.toGrows)
    refine ⟨a', hma.trans hm', h', fun _ => le_trans ?_ (hm'.ack i n.currentTerm), hlog'⟩
    simp [Replicas.acknowledge, h.selfE.term]
  · obtain ⟨a', hm', h', hlog'⟩ := h.updateCommit hV hs hy hm hann
    exact ⟨a', hm', h', fun ht => absurd ((hm'.move.frame l hne).1.symm.trans ht) hl, hlog'⟩

/-- **`HandleAppendEntries`** for a request of `l`, which has won the request's term. -/
theorem LogRel.handleAppendEntries (h : LogRel E V a (c.put i n)) {l : ι}
    (hw : a.ballots.won l req.term) (hne : l ≠ i) (hann : a.Announced req.term req.leaderCommit)
    (hreq : (0 < req.prevLogIndex ∧ req.prevLogTerm = 0) ∨ ∃ y, a.sent req.term y ∧ Slice req y)
    (hg : n.currentTerm ≤ req.term → req.prevLogIndex = 0 → req.entries ≠ [] → baseIndex n.log = 0) :
    ∃ a', a.Moves i a' ∧ LogRel E V a' (c.put i (handleAppendEntries E n req).1) ∧
      ((handleAppendEntries E n req).2.success = true → a'.ballots.term l = req.term →
        req.prevLogIndex + req.entries.length ≤ a'.ack i req.term) ∧
      ∀ m, m < (a.log i).length → (n.currentTerm ≤ req.term → Accepts n.log req →
        Undisturbed n.log req.entries (m + 1)) →
        (a'.log i)[m]? = (a.log i)[m]? := by
  unfold Raft.handleAppendEntries
  split
  · exact ⟨a, .refl i a, h, by simp, fun _ _ _ => rfl⟩
  · rename_i hge
    have hle : n.currentTerm ≤ req.term := by omega
    have hfol := h.followLeader hV hle hw hne req.leaderID
    have hm : a.Moves i (a.follow i req.term) := a.moves_ballots (a.ballots.moves_follow i req.term)
    have st := steady_followLeader hV n req.term req.leaderID
    have hterm : (Raft.followLeader E n req.term req.leaderID).currentTerm = req.term := by
      rw [hfol.selfE.term]
      exact Ballots.follow_term (by rw [← h.selfE.term]; exact hle)
    have hstate : (Raft.followLeader E n req.term req.leaderID).state = .follower :=
      NodeState.role_inj (t := .follower) (hfol.selfE.role.trans (Ballots.follow_role _ _ _))
    dsimp only
    split
    · exact ⟨_, hm, hfol, by simp, fun _ _ _ => rfl⟩
    · rename_i hc
      rcases hreq with ⟨hp0, hp1⟩ | ⟨y, hy, hsl⟩
      · -- a request without a previous term is rejected: entries have positive terms
        exfalso
        rw [hfol.self.log, hp1] at hc
        rcases prevConflict_window (hfol.base_le i) hc with h0 | ⟨-, h2, h3⟩
        · omega
        · have := hfol.termAt_pos (hfol.inv.log_canon i) hp0 h2
          omega
      · obtain ⟨x, hnew, hmeet, hkept⟩ := hfol.appendNew hV hstate hterm (hm.sent _ _ hy) hsl hc
          (by rw [st.log]; exact hg hle)
        rw [st.log] at hkept
        have q := quiet_appendNew E (Raft.followLeader E n req.term req.leaderID) req
        have hmx := hm.trans (Replicas.moves_place (a.follow i req.term) i x ((a.follow i req.term).base i))
        have hlogx : ((a.follow i req.term).place i x ((a.follow i req.term).base i)).log i = x := by
          simp [Replicas.place]
        obtain ⟨a', hm', h', hack, hlog⟩ := hnew.accept hV (q.state.trans hstate) (q.currentTerm.trans hterm)
          (hmx.ballots.won _ _ hw) hne (hmx.sent _ _ hy) (by rw [hlogx]; exact hmeet) (hann.grow hmx.toGrows)
        refine ⟨a', hmx.trans hm', h', fun _ => hack, fun m hm hu => ?_⟩
        rw [hlog, hlogx]
        exact hkept m hm (hu hle (by rw [Accepts, ← st.log]; exact hc))

end Raft
