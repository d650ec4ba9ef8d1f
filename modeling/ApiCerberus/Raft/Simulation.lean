import ApiCerberus.Raft.LogLead

/-!
# Every run replicates its log

The cluster simulates the abstract replicated log, as long as its steps satisfy `sound`. The guard excludes the requests
the handlers take although they do not fit:

* a request with `PrevLogIndex = 0` and entries, for a log that has been compacted: the check is skipped
(`node.go:888`);
* a snapshot whose boundary lies inside the log and has another term there: the rest of the log is kept anyway
(`node.go:988-990`).

If the state machines are followed (`View.on`), it also excludes a snapshot that is older than what the receiver has
applied or is empty, and one whose data is not what its label says.
-/

namespace Raft

open Consensus Transition

variable {ι κ σ δ S : Type}

/-! ## The guard -/

/-- Entries sent with `PrevLogIndex = 0` go to a log that starts at the beginning. -/
def StartsAtBase (n : Node ι κ σ S) (req : AppendEntriesRequest ι κ) : Prop :=
  n.currentTerm ≤ req.term → req.prevLogIndex = 0 → req.entries ≠ [] → baseIndex n.log = 0

/-- If the log has an entry at the snapshot's index, it is the snapshot's last one. -/
def BoundaryFits (n : Node ι κ σ S) (req : InstallSnapshotRequest ι δ) : Prop :=
  n.currentTerm ≤ req.term → ∀ e ∈ entryAt n.log req.lastIncludedIndex, e.term = req.lastIncludedTerm

instance (n : Node ι κ σ S) (req : AppendEntriesRequest ι κ) : Decidable (StartsAtBase n req) :=
  inferInstanceAs (Decidable (_ → _ → _ → _))

instance (n : Node ι κ σ S) (req : InstallSnapshotRequest ι δ) : Decidable (BoundaryFits n req) :=
  inferInstanceAs (Decidable (_ → ∀ e ∈ entryAt n.log req.lastIncludedIndex, _))

section
variable [ByteSlice δ] (E : Env ι κ σ δ S) (V : View σ)

def sound : Guard ι κ σ δ S where
  append := StartsAtBase
  snapshot n req := BoundaryFits n req ∧ (n.currentTerm ≤ req.term → Current V n req)
  read n out :=
    match out with
    | .append _ => True
    | .snapshot _ => V.on → Labelled E n
  restart _ := False

/-- What the guard asks when the state machines are not followed. -/
def consistent : Guard ι κ σ δ S where
  append := StartsAtBase
  snapshot := BoundaryFits
  restart _ := False

instance : (consistent : Guard ι κ σ δ S).Dec where
  append n req := inferInstanceAs (Decidable (StartsAtBase n req))
  snapshot n req := inferInstanceAs (Decidable (BoundaryFits n req))
  read _ _ := isTrue trivial
  restart _ := isFalse id

/-- No request for node `j` takes away what its log holds up to index `k`. -/
def keeps [DecidableEq ι] (j : ι) (k : Nat) : Guard ι κ σ δ S where
  append n req := n.id = j → n.currentTerm ≤ req.term → Accepts n.log req → Undisturbed n.log req.entries k
  snapshot n req := n.id = j → n.currentTerm ≤ req.term → req.lastIncludedIndex < baseIndex n.log + n.log.length

instance [DecidableEq ι] (j : ι) (k : Nat) : (keeps j k : Guard ι κ σ δ S).Dec where
  append n req :=
    inferInstanceAs (Decidable (n.id = j → n.currentTerm ≤ req.term → Accepts n.log req → Undisturbed _ _ _))
  snapshot n req := inferInstanceAs (Decidable (n.id = j → n.currentTerm ≤ req.term → _ < _))
  read _ _ := isTrue trivial
  restart _ := isTrue trivial

end

variable [DecidableEq ι] [Fintype ι] [ByteSlice δ] {E : Env ι κ σ δ S} {V : View σ}
  {a a' : Replicas ι (LogEntry κ)} {c c' : Cluster ι κ σ δ S} {i j : ι} {n n' : Node ι κ σ S}
  {k : Nat} {call : Call ι κ δ}

/-- The state machines are not followed. -/
def blind (σ : Type) : View σ := ⟨False, fun _ _ => True⟩

omit [DecidableEq ι] [Fintype ι] in
theorem sound_of_consistent {act : Action ι κ} (h : consistent.Allows E c act) :
    (sound E (blind σ)).Allows E c act := by
  refine h.weaken (fun n req => id) (fun n req hfits => ⟨hfits, fun _ => False.elim⟩) (fun n out _ => ?_) fun _ => id
  cases out with
  | append req => trivial
  | snapshot req => exact False.elim

/-! ## The calls -/

theorem LogRel.dropCall (h : LogRel E V a c) (k : Nat) : LogRel E V a (c.dropCall k) :=
  { h with el := h.el.dropCall k, call := fun x hx => h.call x (List.mem_of_mem_eraseIdx hx) }

theorem LogRel.setCall (h : LogRel E V a c) (hk : c.calls[k]? = some call)
    {rpc : Rpc ι κ δ} (hb : rpc.ballot = call.rpc.ballot) (hbacked : rpc.Backed a.ballots call.caller call.callee)
    (hcall : CallL E V a (c.node call.caller).lastApplied { call with rpc := rpc }) :
    LogRel E V a (c.setCall k { call with rpc := rpc }) :=
  { h with
    el := h.el.setCall hk hb hbacked
    call := fun x hx => by
      rcases List.mem_or_eq_of_mem_set hx with hx | rfl
      · exact h.call x hx
      · exact hcall }

theorem LogRel.duplicate (h : LogRel E V a c) {call : Call ι κ δ} (hc : call ∈ c.calls) :
    LogRel E V a { c with calls := c.calls ++ [{ call with epoch := none }] } :=
  { h with
    el := h.el.duplicate hc
    call := fun x hx => by
      rcases List.mem_append.1 hx with hx | hx
      · exact h.call x hx
      · rw [List.mem_singleton] at hx
        subst hx
        exact h.call call hc }

theorem LogRel.put_node (h : LogRel E V a c) (i : ι) : LogRel E V a (c.put i (c.node i)) := by
  rw [Cluster.put_node]
  exact h

/-- What a step does to the replicas: they grow, and the logs keep what the step does not take away. -/
structure Step (E : Env ι κ σ δ S) (a : Replicas ι (LogEntry κ)) (c : Cluster ι κ σ δ S) (act : Action ι κ)
    (a' : Replicas ι (LogEntry κ)) : Prop where
  grows : a.Grows a'
  kept : ∀ j m, m < (a.log j).length → (keeps j (m + 1)).Allows E c act → (a'.log j)[m]? = (a.log j)[m]?

omit [Fintype ι] in
theorem Step.of_log {act : Action ι κ} (g : a.Grows a') (hlog : a'.log = a.log) : Step E a c act a' :=
  ⟨g, fun j m _ _ => by rw [hlog]⟩

/-! ## Elections and heartbeats -/

section
variable (hV : V.on → V.Lawful E)
include hV

theorem LogRel.timeout (h : LogRel E V a c) (hl : (c.node i).state ≠ .leader) :
    LogRel E V (a.candidacy i) (c.timeout E i) := by
  have h0 := h.put_node i
  have hcand := h0.candidacy hV
  have hmark := h0.voteRequest_mark
  have el := h.el.timeout hl
  unfold Cluster.timeout at el ⊢
  rw [if_neg hl] at el ⊢
  exact
    { hcand with
      el := el
      call := fun x hx => by
        rcases Cluster.mem_spawn hx with hx | ⟨p, _, rfl⟩
        · exact hcand.call x hx
        · exact hmark }

theorem LogRel.receiveVote (h : LogRel E V a c) (hk : c.calls[k]? = some call)
    (ha : c.Alive call) {req : RequestVoteRequest ι} {resp : RequestVoteResponse} (hrpc : call.rpc = .voted req resp) :
    ∃ a', a.Grows a' ∧ LogRel E V a' ((c.dropCall k).put call.caller (receiveVote E (c.node call.caller) req resp)) ∧
      a'.log = a.log := by
  have h0 : LogRel E V a ((c.dropCall k).put call.caller (c.node call.caller)) := (h.dropCall k).put_node call.caller
  have hE := h0.selfE
  unfold Raft.receiveVote
  split
  · exact ⟨a, .refl a, h0, rfl⟩
  · rename_i hcond
    simp only [not_or, not_not] at hcond
    split
    · rename_i hT
      exact ⟨_, (a.moves_ballots (a.ballots.moves_bump (by rw [← hE.term]; exact hT))).toGrows,
        h0.becomeFollower hV hT, rfl⟩
    · split
      · rename_i hg
        obtain ⟨Q, h1, h2, h3⟩ := h.el.tally hk ha hrpc hg hcond.1 hcond.2
        unfold countVote
        dsimp only
        split
        · rename_i hq
          have hQ := (h.dropCall k).el.elects h1 (fun w hw => (h3 w hw).1) (hq.trans h2.le)
          have hrole : a.ballots.role call.caller = .candidate := by rw [← hE.role, hcond.1]; rfl
          exact ⟨_, (Replicas.moves_win h.inv (h.inv.elected_unwon hrole hQ)).toGrows, h0.win hcond.1 hQ _, rfl⟩
        · have el := h.el.count hk ha hrpc hg hcond.1 hcond.2
          have hn : NodeL E V a call.caller
              { c.node call.caller with votesReceived := (c.node call.caller).votesReceived + 1 } := { h0.self with }
          exact ⟨a, .refl a, h0.put_same (.refl _ a) el h.inv rfl rfl hn (le_refl _) fun _ => id, rfl⟩
      · exact ⟨a, .refl a, h0, rfl⟩

omit hV in
theorem LogRel.tick (h : LogRel E V a c) (hs : c.tick i = some c') : LogRel E V a c' := by
  have h0 := h.put_node i
  have el := h.el.tick hs
  unfold Cluster.tick at hs
  dsimp only at hs
  split at hs
  · cases hs
  · split at hs
    · cases hs
      exact h0.quiet { Quiet.refl E (c.node i) with } { h0.self with } (le_refl _) rfl
    · rename_i hl
      cases hs
      rw [not_not] at hl
      refine { h with el := el, call := fun x hx => ?_ }
      rcases Cluster.mem_spawn hx with hx | ⟨p, _, rfl⟩
      · exact h.call x hx
      · have hrole : a.ballots.role i = .leader := by rw [← (h.el.node i).role, hl]; rfl
        have hk := (h.inv.leader_known hrole (h.node i).commit).announced
        rw [← (h.el.node i).term] at hk
        exact hk

/-! ## Requests and responses -/

/-- What is read is sent in the abstract log. -/
theorem LogRel.read (h : LogRel E V a c) (hk : c.calls[k]? = some call)
    (hok : (sound E V).AllowsRead E (c.node call.caller) call.callee call.rpc)
    (hs : c.readCall E k call = some c') : ∃ a', a.Grows a' ∧ LogRel E V a' c' ∧ a'.log = a.log := by
  have hmem := List.mem_of_getElem? hk
  obtain ⟨t, m, hrpc, rfl⟩ := Cluster.readCall_cases hs
  have hb := h.el.backed call hmem
  have hcall := h.call call hmem
  rw [hrpc] at hb hok
  simp only [CallL, hrpc] at hcall
  cases hout : replicateTo E (c.node call.caller) call.callee t m with
  | none => exact ⟨a, .refl a, h.dropCall k, rfl⟩
  | some out =>
    have hn := h.node call.caller
    have h0 := h.put_node call.caller
    obtain ⟨nextIdx, hnext, ⟨d, hsnap, hd, rfl⟩ | ⟨hsnap, rfl⟩⟩ := replicateTo_cases hout
    · refine ⟨a, .refl a, h.setCall hk (by rw [hrpc]; rfl) hb ⟨hn.snap_le, ?_⟩, rfl⟩
      obtain ⟨T, hT⟩ := h.inv.safe_settled hn.applied
      have hlen := h.inv.safe_le hn.applied
      have hle := hn.snap_le
      have hplen : ((a.log call.caller).take (c.node call.caller).lastSnapshotIndex).length =
          (c.node call.caller).lastSnapshotIndex := by rw [List.length_take]; omega
      refine ⟨(a.log call.caller).take (c.node call.caller).lastSnapshotIndex, hsnap.1, hplen, ?_, ?_, ?_⟩
      · rw [hplen]
        exact ⟨T, (hT.sub hle).congr (agree_take (le_refl _))⟩
      · rw [hplen, termAt_of_agree (agree_take (le_refl _)) (le_refl _)]
        exact hn.snap_term
      · exact hn.snapshotData hV (hok _ hout) hd
    · have hm := a.moves_send call.caller t
      have hsend : LogRel E V (a.send call.caller t) c := by
        have := h0.put_same hm h0.el (Replicas.inv_send h.inv hb) rfl rfl
          (h0.self.frame h.inv hm.toGrows rfl rfl) (le_refl _) fun _ => id
        rwa [Cluster.put_node] at this
      have hpos := hn.next _ _ hnext
      obtain ⟨prev, rfl⟩ : ∃ prev, nextIdx = prev + 1 := ⟨nextIdx - 1, by omega⟩
      refine ⟨_, hm.toGrows, hsend.setCall hk (by rw [hrpc]; rfl) hb ⟨hcall, ?_⟩, rfl⟩
      exact (h0.slice hsnap rfl rfl rfl).imp id fun hsl => ⟨_, Or.inr ⟨rfl, rfl⟩, hsl⟩

/-- A request that fits is an abstract step of its receiver. -/
theorem LogRel.deliver (h : LogRel E V a c) (hk : c.calls[k]? = some call)
    (hok : (sound E V).AllowsDeliver (c.node call.callee) call.rpc)
    (hs : c.deliverCall E k call = some c') : ∃ a', Step E a c (.deliver k) a' ∧ LogRel E V a' c' := by
  have hmem := List.mem_of_getElem? hk
  have hne := h.el.distinct call hmem
  have hb := h.el.backed call hmem
  have hcall := h.call call hmem
  have h0 := h.put_node call.callee
  have hid := h0.selfE.id
  -- the steps change the log of the callee only
  have hstep : ∀ {a' : Replicas ι (LogEntry κ)}, a.Moves call.callee a' →
      (∀ m, m < (a.log call.callee).length → (keeps call.callee (m + 1)).AllowsDeliver (c.node call.callee) call.rpc →
        (a'.log call.callee)[m]? = (a.log call.callee)[m]?) → Step E a c (.deliver k) a' := by
    intro a' m hkept
    refine ⟨m.toGrows, fun j p hp hkeep => ?_⟩
    by_cases e : j = call.callee
    · subst e; exact hkept p hp (hkeep call hk)
    · rw [(m.frame j e).1]
  cases Cluster.deliverCall_cases hs with
  | @vote req hrpc =>
    rw [hrpc] at hb
    simp only [CallL, hrpc] at hcall
    obtain ⟨hcid, ht⟩ := hb
    obtain ⟨a', hm, h', hlog, hv⟩ := h0.handleRequestVote hV req (by rw [hcid]; exact hne.symm)
      (by rw [hcid]; exact ht) (by rw [hcid]; exact hcall)
    refine ⟨a', hstep hm fun _ _ _ => by rw [hlog],
      h'.setCall hk (by rw [hrpc]; rfl) ⟨ht.trans (hm.ballots.term _), ?_⟩ trivial⟩
    intro hgr
    rw [← hcid]
    exact hv hgr
  | append hrpc =>
    rw [hrpc] at hb hok hstep
    simp only [CallL, hrpc] at hcall
    obtain ⟨a', hm, h', hack, hkept⟩ := h0.handleAppendEntries hV hb hne hcall.1 hcall.2 hok
    exact ⟨a', hstep hm fun m hlt hkeep => hkept m hlt (hkeep hid), h'.setCall hk (by rw [hrpc]; rfl)
      (hm.ballots.won _ _ hb) hack⟩
  | @snapshot req hrpc =>
    rw [hrpc] at hb hok hstep
    simp only [CallL, hrpc] at hcall
    obtain ⟨hle, P, hP⟩ := hcall
    obtain ⟨a', hm, h', hkept⟩ := h0.handleInstallSnapshot hV hb hne hP hok.1 hok.2
    refine ⟨a', hstep hm fun m hlt hkeep => hkept (hkeep hid) ▸ rfl, h'.setCall hk (by rw [hrpc]; rfl) trivial ?_⟩
    show req.lastIncludedIndex ≤ ((c.put call.callee _).node call.caller).lastApplied
    rw [Cluster.put_other c _ hne]
    exact hle

theorem LogRel.receive (h : LogRel E V a c) (hk : c.calls[k]? = some call)
    (hs : c.receiveCall E k call = some c') : ∃ a', a.Grows a' ∧ LogRel E V a' c' ∧ a'.log = a.log := by
  have hcall := h.call call (List.mem_of_getElem? hk)
  have h0 : LogRel E V a ((c.dropCall k).put call.caller (c.node call.caller)) := (h.dropCall k).put_node call.caller
  cases Cluster.receiveCall_cases hs with
  | voted ha hrpc => exact h.receiveVote hV hk ha hrpc
  | appended hrpc =>
    simp only [CallL, hrpc] at hcall
    obtain ⟨a', hm, h', hlog⟩ := h0.receiveAppend hV hcall
    exact ⟨a', hm.toGrows, h', hlog⟩
  | @installed req resp hrpc =>
    simp only [CallL, hrpc] at hcall
    obtain ⟨a', hm, h', hlog⟩ := h0.receiveSnapshot hV call.callee resp hcall
    exact ⟨a', hm.toGrows, h', hlog⟩

/-! ## Every step -/

theorem LogRel.appendEntry (h : LogRel E V a c) {data : Except String κ} {r : Node ι κ σ S × Nat}
    (hr : Raft.appendEntry E (c.node i) data = .ok r) :
    ∃ d a', data = .ok d ∧ a.Grows a' ∧ LogRel E V a' (c.put i r.1) ∧ (∀ j, a.log j <+: a'.log j) ∧
      a'.log i = a.log i ++ [newEntry (c.node i) d] := by
  have h0 := h.put_node i
  unfold Raft.appendEntry at hr
  split at hr
  · cases hr
  · rename_i hl
    rw [not_not] at hl
    cases data with
    | error err => cases hr
    | ok d =>
      cases hr
      have hrole : a.ballots.role i = .leader := by rw [← h0.selfE.role, hl]; rfl
      have hlog : (a.append i (newEntry (c.node i) d)).log i = a.log i ++ [newEntry (c.node i) d] := by
        simp [Replicas.append]
      refine ⟨d, _, rfl, (Replicas.moves_append h.inv hrole _).toGrows, h0.appendLocal hV hl d, fun j => ?_, hlog⟩
      by_cases e : j = i
      · subst e; rw [hlog]; exact List.prefix_append _ _
      · rw [((Replicas.moves_append h.inv hrole _).frame j e).1]

/-- **Simulation**: every step the guard allows is a step of the abstract replicated log. -/
theorem LogRel.step (h : LogRel E V a c) {act : Action ι κ} (hok : (sound E V).Allows E c act)
    (hs : c.step E act = some c') : ∃ a', Step E a c act a' ∧ LogRel E V a' c' := by
  have hprefix : ∀ {a' : Replicas ι (LogEntry κ)}, a.Grows a' → (∀ j, a.log j <+: a'.log j) → Step E a c act a' := by
    intro a' g hpre
    refine ⟨g, fun j m hm _ => ?_⟩
    obtain ⟨t, ht⟩ := hpre j
    rw [← ht, List.getElem?_append_left hm]
  have hsame : ∀ {c' : Cluster ι κ σ δ S}, LogRel E V a c' → ∃ a', Step E a c act a' ∧ LogRel E V a' c' :=
    fun h' => ⟨a, .of_log (.refl a) rfl, h'⟩
  cases act with
  | timeout i =>
    cases hs
    by_cases hl : (c.node i).state = .leader
    · exact hsame (by unfold Cluster.timeout; rw [if_pos hl]; exact h)
    · exact ⟨_, .of_log (a.moves_candidacy i).toGrows rfl, h.timeout hV hl⟩
  | tick i => exact hsame (h.tick hs)
  | heartbeatExit i =>
    simp only [Cluster.step, Cluster.heartbeatExit] at hs
    split at hs
    · cases hs
      have h0 := h.put_node i
      exact hsame (h0.quiet { Quiet.refl E (c.node i) with } { h0.self with } (le_refl _) rfl)
    · cases hs
  | read k =>
    obtain ⟨call, hk, hs⟩ := Option.bind_eq_some_iff.1 hs
    obtain ⟨a', g, h', hlog⟩ := h.read hV hk (hok call hk) hs
    exact ⟨a', .of_log g hlog, h'⟩
  | deliver k =>
    obtain ⟨call, hk, hs⟩ := Option.bind_eq_some_iff.1 hs
    exact h.deliver hV hk (hok call hk) hs
  | duplicate k =>
    obtain ⟨call, hk, rfl⟩ := Option.map_eq_some_iff.1 hs
    exact hsame (h.duplicate (List.mem_of_getElem? hk))
  | receive k =>
    obtain ⟨call, hk, hs⟩ := Option.bind_eq_some_iff.1 hs
    obtain ⟨a', g, h', hlog⟩ := h.receive hV hk hs
    exact ⟨a', .of_log g hlog, h'⟩
  | drop k =>
    cases hs
    exact hsame (h.dropCall k)
  | append i data =>
    cases hs
    unfold Cluster.append
    split
    · rename_i n _ hr
      obtain ⟨_, a', _, g, h', hpre, _⟩ := h.appendEntry hV hr
      exact ⟨a', hprefix g hpre, h'⟩
    · exact hsame h
  | propose i data =>
    cases hs
    unfold Cluster.propose
    split
    · rename_i n _ _ hr
      obtain ⟨_, a', _, g, h', hpre, _⟩ := h.appendEntry hV hr
      exact ⟨a', hprefix g hpre, { h' with el := { h'.el with } }⟩
    · exact hsame h
  | poll k =>
    obtain ⟨w, _, hs⟩ := Option.bind_eq_some_iff.1 hs
    unfold Cluster.poll at hs
    split at hs
    · cases hs
      exact hsame { h with el := { h.el with } }
    · cases hs
  | giveUp k =>
    cases hs
    exact hsame { h with el := { h.el with } }
  | restart i => exact hok.elim

/-- The cluster begins as the abstract one does. -/
theorem LogRel.init (hc : Cluster.Init E c) : LogRel E V (Replicas.initial ι (LogEntry κ)) c where
  el := ElRel.init hc
  inv := Replicas.inv_initial
  index _ := indexed_nil
  node i := by
    have hf := hc.node i
    rw [hf.new]
    exact
      { log := rfl
        commit := Or.inl (le_refl _)
        applied := Or.inl (le_refl _)
        base_le := le_refl _
        snap_le := le_refl _
        snap_term := rfl
        snap_pos := id
        next := fun _ _ h => by cases h
        matched := fun h => by cases h
        applied_com := by simp [newNode]
        committed_com := by simp [newNode]
        fsm := fun hon => (hV hon).fresh
        stored := fun _ s hs idx t d hd hl => by
          have := (hf.blank s hs).snapshot idx t d hd
          omega }
  call := by simp [hc.calls]
  marked m e h := by
    obtain ⟨_, _, h, _⟩ := h
    exact h.elim

theorem exists_replicas (hc : Reach (system E) ((sound E V).Allows E) c) : ∃ a :
    Replicas ι (LogEntry κ), LogRel E V a c := by
  refine hc.invariant (P := fun c => ∃ a : Replicas ι (LogEntry κ), LogRel E V a c)
    (fun _ h0 => ⟨_, LogRel.init hV h0⟩) ?_
  rintro c act c' - ⟨a, h⟩ hok hs
  obtain ⟨a', -, h'⟩ := h.step hV hok hs
  exact ⟨a', h'⟩

end

end Raft
