import ApiCerberus.Consensus.Election
import ApiCerberus.Raft.Cluster
import Mathlib.Tactic.Ring

/-!
# The ballots of a cluster

`ElRel c b` relates a cluster to the abstract ballots (`Consensus.Ballots`) it stands for.
`becomeCandidate` only counts votes (`node.go:337`), so the relation also says what the counter means:
the votes counted are those of pairwise different members whose answer is no longer on its way.

`Quiet` collects the changes of a node that an election does not notice; most critical sections are
one change of a ballot and a quiet rest.
-/

namespace Raft

open Consensus Transition

variable {ι κ σ δ S : Type}

/-- `SaveState` succeeds, and nothing else touches what it saved. -/
structure Storage.KeepsState (st : Storage ι κ δ S) : Prop where
  saveState : ∀ s t v, st.loadState (st.saveState s t v) = some (t, v)
  saveLog : ∀ s es, st.loadState (st.saveLog s es) = st.loadState s
  saveSnapshot : ∀ s i t d, st.loadState (st.saveSnapshot s i t d).1 = st.loadState s

/-! ## Changes an election does not notice -/

/-- `n'` differs from `n` in nothing an election looks at. -/
structure Quiet (E : Env ι κ σ δ S) (n n' : Node ι κ σ S) : Prop where
  id : n'.id = n.id
  peers : n'.peers = n.peers
  currentTerm : n'.currentTerm = n.currentTerm
  votedFor : n'.votedFor = n.votedFor
  state : n'.state = n.state
  ledTerms : n'.ledTerms = n.ledTerms
  votesReceived : n'.votesReceived = n.votesReceived
  config : n'.config = n.config
  stored : E.storage.KeepsState → n'.storage.map E.storage.loadState = n.storage.map E.storage.loadState

section
variable {E : Env ι κ σ δ S} {n n' n'' : Node ι κ σ S}

theorem Quiet.refl (E : Env ι κ σ δ S) (n : Node ι κ σ S) : Quiet E n n :=
  ⟨rfl, rfl, rfl, rfl, rfl, rfl, rfl, rfl, fun _ => rfl⟩

theorem Quiet.trans (h : Quiet E n n') (h' : Quiet E n' n'') : Quiet E n n'' where
  id := h'.id.trans h.id
  peers := h'.peers.trans h.peers
  currentTerm := h'.currentTerm.trans h.currentTerm
  votedFor := h'.votedFor.trans h.votedFor
  state := h'.state.trans h.state
  ledTerms := h'.ledTerms.trans h.ledTerms
  votesReceived := h'.votesReceived.trans h.votesReceived
  config := h'.config.trans h.config
  stored k := (h'.stored k).trans (h.stored k)

variable (E n)

theorem quiet_persistLog (es : List (LogEntry κ)) : Quiet E n (persistLog E n es) :=
  { Quiet.refl E n with
    stored := fun k => by cases h : n.storage <;> simp [persistLog, h, k.saveLog] }

theorem quiet_compactLog : Quiet E n (compactLog E n) := by
  unfold compactLog
  split
  · exact .refl E n
  · split
    · exact { Quiet.refl E n with }
    · rename_i s hs
      dsimp only
      split
      · exact { Quiet.refl E n with stored := fun k => by simp [trim, hs, k.saveSnapshot] }
      · exact { Quiet.refl E n with stored := fun k => by simp [hs, k.saveSnapshot] }

theorem quiet_maybeSnapshot : Quiet E n (maybeSnapshot E n) := by
  unfold maybeSnapshot
  split
  · exact .refl E n
  · split
    · exact quiet_compactLog E n
    · exact .refl E n

theorem quiet_applyNext : Quiet E n (applyNext E n) := by
  unfold applyNext
  split <;> exact { Quiet.refl E n with }

theorem quiet_applyLoop (k : Nat) : ∀ n : Node ι κ σ S, Quiet E n (applyLoop E k n) := by
  induction k with
  | zero => exact fun n => .refl E n
  | succ k ih => exact fun n => (quiet_applyNext E n).trans (ih _)

theorem quiet_applyCommitted : Quiet E n (applyCommitted E n) :=
  (quiet_applyLoop E _ n).trans (quiet_maybeSnapshot E _)

theorem quiet_appendNew (req : AppendEntriesRequest ι κ) : Quiet E n (appendNew E n req) := by
  have hlog : ∀ log, Quiet E n { n with log := log } :=
    fun _ => { Quiet.refl E n with }
  unfold appendNew
  dsimp only
  split
  · exact hlog _
  · exact (hlog _).trans (quiet_persistLog E _ _)

theorem quiet_updateCommit (req : AppendEntriesRequest ι κ) : Quiet E n (updateCommit E n req) := by
  unfold updateCommit
  split
  · refine Quiet.trans ?_ (quiet_applyCommitted E _)
    exact { Quiet.refl E n with }
  · exact .refl E n

theorem quiet_install (req : InstallSnapshotRequest ι δ) : Quiet E n (install E n req) :=
  { Quiet.refl E n with stored := fun k => by cases h : n.storage <;> simp [install, h, k.saveSnapshot] }

variable [DecidableEq ι]

theorem quiet_advanceCommitIndex : Quiet E n (advanceCommitIndex E n) := by
  unfold advanceCommitIndex
  split
  · refine Quiet.trans ?_ (quiet_applyCommitted E _)
    exact { Quiet.refl E n with }
  · exact .refl E n

theorem quiet_backtrack (peer : ι) (resp : AppendEntriesResponse) : Quiet E n (backtrack n peer resp) := by
  unfold backtrack
  split
  · exact { Quiet.refl E n with }
  · split <;> exact { Quiet.refl E n with }

theorem quiet_appendLocal (data : κ) : Quiet E n (appendLocal E n data) :=
  { Quiet.refl E n with stored := fun k => by cases h : n.storage <;> simp [appendLocal, persistLog, h, k.saveLog] }

end

/-! ## The relation -/

def NodeState.role : NodeState → Role
  | .follower => .follower
  | .candidate => .candidate
  | .leader => .leader

theorem NodeState.role_inj {s t : NodeState} (h : s.role = t.role) : s = t := by
  cases s <;> cases t <;> first | rfl | cases h

/-- Node `n` is member `i` of the ballots `b`. -/
structure NodeE (E : Env ι κ σ δ S) (b : Ballots ι) (i : ι) (n : Node ι κ σ S) : Prop where
  id : n.id = i
  nodup : n.peers.Nodup
  others : ∀ j, j ∈ n.peers ↔ j ≠ i
  term : n.currentTerm = b.term i
  role : n.state.role = b.role i
  vote : n.votedFor = b.vote i
  led : ∀ T, T ∈ n.ledTerms ↔ b.won i T
  stored : E.storage.KeepsState → ∀ r, n.storage.map E.storage.loadState = some r →
    r = some (n.currentTerm, n.votedFor) ∨ (r = none ∧ n.currentTerm = 0 ∧ n.votedFor = none)

/-- What the ballots must say for a call from `i` to `w` to be in flight. -/
def Rpc.Backed (b : Ballots ι) (i w : ι) : Rpc ι κ δ → Prop
  | .vote req => req.candidateID = i ∧ req.term ≤ b.term i
  | .voted req resp => req.term ≤ b.term i ∧ (resp.voteGranted = true → b.granted w req.term i)
  | .replicate term _ => b.won i term
  | .append req => b.won i req.term
  | .appended req _ => b.won i req.term
  | .snapshot req => b.won i req.term
  | .installed _ _ => True

/-- The term of the election a call belongs to. -/
def Rpc.ballot : Rpc ι κ δ → Option Nat
  | .vote req => some req.term
  | .voted req _ => some req.term
  | _ => none

section
variable [DecidableEq ι]

def isBallot (i w : ι) (epoch T : Nat) (call : Call ι κ δ) : Bool :=
  decide (call.caller = i ∧ call.callee = w ∧ call.epoch = some epoch ∧ call.rpc.ballot = some T)

/-- How many calls of node `i` for the vote of `w` in term `T` may still be answered. -/
def Cluster.out (c : Cluster ι κ σ δ S) (i w : ι) (T : Nat) : Nat := c.calls.countP (isBallot i w (c.epoch i) T)

/-- The votes candidate `n` has counted: `V` and its own. -/
def Counted (c : Cluster ι κ σ δ S) (b : Ballots ι) (i : ι) (n : Node ι κ σ S) : Prop :=
  ∃ V : Finset ι, i ∉ V ∧ n.votesReceived = V.card + 1 ∧
    ∀ w ∈ V, b.granted w n.currentTerm i ∧ c.out i w n.currentTerm = 0

/-- The cluster and the ballots of the abstract election. -/
structure ElRel [Fintype ι] (E : Env ι κ σ δ S) (c : Cluster ι κ σ δ S) (b : Ballots ι) : Prop where
  inv : b.Inv
  node : ∀ i, NodeE E b i (c.node i)
  distinct : ∀ call ∈ c.calls, call.caller ≠ call.callee
  backed : ∀ call ∈ c.calls, call.rpc.Backed b call.caller call.callee
  epoch : ∀ call ∈ c.calls, ∀ e, call.epoch = some e → e ≤ c.epoch call.caller
  once : ∀ i w T, c.out i w T ≤ 1
  votes : ∀ i, (c.node i).state = .candidate → Counted c b i (c.node i)

end

section
variable {E : Env ι κ σ δ S} {b b' : Ballots ι} {i j : ι} {n n' : Node ι κ σ S}

theorem NodeE.frame (h : NodeE E b j n) (m : b.Moves i b') (hj : j ≠ i) : NodeE E b' j n := by
  obtain ⟨h1, h2, h3, h4⟩ := m.frame j hj
  exact { h with
    term := h.term.trans h1.symm
    role := h.role.trans h2.symm
    vote := h.vote.trans h3.symm
    led := fun T => (h.led T).trans ⟨m.won j T, h4 T⟩ }

theorem NodeE.quiet (h : NodeE E b i n) (q : Quiet E n n') : NodeE E b i n' where
  id := q.id.trans h.id
  nodup := by rw [q.peers]; exact h.nodup
  others := by rw [q.peers]; exact h.others
  term := q.currentTerm.trans h.term
  role := by rw [q.state]; exact h.role
  vote := q.votedFor.trans h.vote
  led := by rw [q.ledTerms]; exact h.led
  stored k := by rw [q.stored k, q.currentTerm, q.votedFor]; exact h.stored k

/-- A node that has just saved its term and vote. -/
theorem NodeE.persisted (h : NodeE E b i n) (hid : n'.id = n.id) (hp : n'.peers = n.peers)
    (hl : n'.ledTerms = n.ledTerms) (ht : n'.currentTerm = b'.term i) (hr : n'.state.role = b'.role i)
    (hv : n'.votedFor = b'.vote i) (hw : ∀ T, b'.won i T ↔ b.won i T) : NodeE E b' i (persistState E n') where
  id := hid.trans h.id
  nodup := by show n'.peers.Nodup; rw [hp]; exact h.nodup
  others := by show ∀ j, j ∈ n'.peers ↔ j ≠ i; rw [hp]; exact h.others
  term := ht
  role := hr
  vote := hv
  led T := by show T ∈ n'.ledTerms ↔ _; rw [hl, hw T]; exact h.led T
  stored k r hr' := by
    left
    cases hs : n'.storage with
    | none => simp [persistState, hs] at hr'
    | some s =>
      simp only [persistState, hs, Option.map_some, Option.some.injEq, k.saveState] at hr'
      exact hr'.symm

theorem Rpc.Backed.grow {rpc : Rpc ι κ δ} {w : ι} (h : rpc.Backed b i w) (g : b.Grows b') : rpc.Backed b' i w := by
  cases rpc with
  | vote req => exact ⟨h.1, h.2.trans (g.term i)⟩
  | voted req resp => exact ⟨h.1.trans (g.term i), fun hv => g.granted w _ i (h.2 hv)⟩
  | replicate term _ => exact g.won i _ h
  | append req => exact g.won i _ h
  | appended req _ => exact g.won i _ h
  | snapshot req => exact g.won i _ h
  | installed _ _ => trivial

end

/-! ## Updates of one node -/

section
variable [DecidableEq ι] [Fintype ι] {E : Env ι κ σ δ S} {c : Cluster ι κ σ δ S} {b b' : Ballots ι} {i : ι}
  {n : Node ι κ σ S} {k : Nat} {call : Call ι κ δ}

theorem ElRel.put (h : ElRel E c b) (m : b.Moves i b') (hinv : b'.Inv) (hn : NodeE E b' i n)
    (hv : n.state = .candidate → Counted c b' i n) : ElRel E (c.put i n) b' where
  inv := hinv
  node j := by
    by_cases e : j = i
    · subst e; rw [Cluster.put_self]; exact hn
    · rw [Cluster.put_other c n e]; exact (h.node j).frame m e
  distinct := h.distinct
  backed call hc := (h.backed call hc).grow m.toGrows
  epoch := h.epoch
  once := h.once
  votes j hj := by
    by_cases e : j = i
    · subst e; rw [Cluster.put_self] at hj ⊢; exact hv hj
    · rw [Cluster.put_other c n e] at hj ⊢
      obtain ⟨V, h1, h2, h3⟩ := h.votes j hj
      exact ⟨V, h1, h2, fun w hw => ⟨m.granted w _ j (h3 w hw).1, (h3 w hw).2⟩⟩

theorem ElRel.quiet (h : ElRel E c b) (q : Quiet E (c.node i) n) : ElRel E (c.put i n) b := by
  refine h.put (.refl i b) h.inv ((h.node i).quiet q) fun hs => ?_
  rw [q.state] at hs
  obtain ⟨V, h1, h2, h3⟩ := h.votes i hs
  exact ⟨V, h1, q.votesReceived.trans h2, by rw [q.currentTerm]; exact h3⟩

/-- `n` is what `m` becomes when it gives up its role in term `T`, up to what an election does not
look at. -/
structure Deposed (m : Node ι κ σ S) (T : Nat) (n : Node ι κ σ S) : Prop where
  id : n.id = m.id
  peers : n.peers = m.peers
  ledTerms : n.ledTerms = m.ledTerms
  currentTerm : n.currentTerm = T
  state : n.state = .follower
  votedFor : n.votedFor = none

theorem ElRel.bump (h : ElRel E c b) {T : Nat} (hT : (c.node i).currentTerm < T) (hd : Deposed (c.node i) T n) :
    ElRel E (c.put i (persistState E n)) (b.bump i T) := by
  have hn := h.node i
  rw [hn.term] at hT
  refine h.put (b.moves_bump hT) (Ballots.inv_bump h.inv i hT)
    (hn.persisted hd.id hd.peers hd.ledTerms ?_ ?_ ?_ fun _ => Iff.rfl) ?_
  · rw [hd.currentTerm]; simp [Ballots.bump]
  · rw [hd.state]; simp [Ballots.bump, NodeState.role]
  · rw [hd.votedFor]; simp [Ballots.bump]
  · intro hs
    have hs' : n.state = .candidate := hs
    rw [hd.state] at hs'; cases hs'

theorem ElRel.yield (h : ElRel E c b) {l : ι} (hr : (c.node i).state ≠ .follower) (hw : b.won l (c.node i).currentTerm)
    (hne : l ≠ i) (hd : Deposed (c.node i) (c.node i).currentTerm n) :
    ElRel E (c.put i (persistState E n)) (b.yield i) := by
  have hn := h.node i
  have hrole : b.role i ≠ .follower := by
    rw [← hn.role]
    intro hx
    exact hr (NodeState.role_inj (t := .follower) hx)
  refine h.put (b.moves_yield i) (Ballots.inv_yield h.inv hrole (by rw [← hn.term]; exact hw) hne)
    (hn.persisted hd.id hd.peers hd.ledTerms ?_ ?_ ?_ fun _ => Iff.rfl) ?_
  · rw [hd.currentTerm]; exact hn.term
  · rw [hd.state]; simp [Ballots.yield, NodeState.role]
  · rw [hd.votedFor]; simp [Ballots.yield]
  · intro hs
    have hs' : n.state = .candidate := hs
    rw [hd.state] at hs'; cases hs'

/-- Node `i` grants its vote. -/
theorem ElRel.grant (h : ElRel E c b) {d : ι} (hne : i ≠ d) (ht : (c.node i).currentTerm ≤ b.term d)
    (hv : (c.node i).votedFor = none ∨ (c.node i).votedFor = some d) :
    ElRel E (c.put i (persistState E { c.node i with votedFor := some d })) (b.grant i d) := by
  have hn := h.node i
  rw [hn.vote] at hv
  rw [hn.term] at ht
  refine h.put (b.moves_grant i d) (Ballots.inv_grant h.inv hne ht hv)
    (hn.persisted rfl rfl rfl hn.term hn.role ?_ fun _ => Iff.rfl) ?_
  · simp [Ballots.grant]
  · intro hs
    -- a candidate has voted for itself and would not grant another vote
    have hs' : (c.node i).state = .candidate := hs
    have hself := h.inv.self_vote i (by rw [← hn.role, hs']; simp [NodeState.role])
    rw [hself] at hv
    rcases hv with hv | hv
    · cases hv
    · exact absurd (Option.some.inj hv) hne

/-! ## Updates of the calls -/

theorem ElRel.dropCall (h : ElRel E c b) (k : Nat) : ElRel E (c.dropCall k) b := by
  have hsub : (c.calls.eraseIdx k).Sublist c.calls := List.eraseIdx_sublist c.calls k
  have hout : ∀ i w T, (c.dropCall k).out i w T ≤ c.out i w T := fun _ _ _ => hsub.countP_le
  exact
    { h with
      distinct := fun call hc => h.distinct call (hsub.subset hc)
      backed := fun call hc => h.backed call (hsub.subset hc)
      epoch := fun call hc => h.epoch call (hsub.subset hc)
      once := fun i w T => (hout i w T).trans (h.once i w T)
      votes := fun i hi => by
        obtain ⟨V, h1, h2, h3⟩ := h.votes i hi
        refine ⟨V, h1, h2, fun w hw => ⟨(h3 w hw).1, ?_⟩⟩
        have := hout i w (c.node i).currentTerm
        have := (h3 w hw).2
        show (c.dropCall k).out i w (c.node i).currentTerm = 0
        omega }

omit [Fintype ι] in
/-- The counts only depend on what the calls are ballots of. -/
theorem out_setCall (hk : c.calls[k]? = some call) {rpc : Rpc ι κ δ}
    (hb : rpc.ballot = call.rpc.ballot) (i w : ι) (T : Nat) :
    (c.setCall k { call with rpc := rpc }).out i w T = c.out i w T := by
  obtain ⟨hlt, hget⟩ := List.getElem?_eq_some_iff.1 hk
  have hsame : isBallot i w (c.epoch i) T { call with rpc := rpc } = isBallot i w (c.epoch i) T call := by
    simp [isBallot, hb]
  show (c.calls.set k _).countP (isBallot i w (c.epoch i) T) = _
  rw [List.countP_set hlt, hsame, hget]
  unfold Cluster.out
  have : isBallot i w (c.epoch i) T call = true → 0 < c.calls.countP (isBallot i w (c.epoch i) T) :=
    fun hp => List.countP_pos_iff.2 ⟨call, List.mem_of_getElem? hk, hp⟩
  split <;> grind

theorem ElRel.setCall (h : ElRel E c b) (hk : c.calls[k]? = some call)
    {rpc : Rpc ι κ δ} (hb : rpc.ballot = call.rpc.ballot) (hbacked : rpc.Backed b call.caller call.callee) :
    ElRel E (c.setCall k { call with rpc := rpc }) b := by
  have hmem : ∀ x ∈ (c.setCall k { call with rpc := rpc }).calls, x ∈ c.calls ∨ x = { call with rpc := rpc } :=
    fun x hx => List.mem_or_eq_of_mem_set hx
  have hcall := List.mem_of_getElem? hk
  refine { h with distinct := ?_, backed := ?_, epoch := ?_, once := ?_, votes := ?_ }
  · intro x hx
    rcases hmem x hx with hx | rfl
    · exact h.distinct x hx
    · exact h.distinct call hcall
  · intro x hx
    rcases hmem x hx with hx | rfl
    · exact h.backed x hx
    · exact hbacked
  · intro x hx
    rcases hmem x hx with hx | rfl
    · exact h.epoch x hx
    · exact h.epoch call hcall
  · intro i w T
    rw [out_setCall hk hb]; exact h.once i w T
  · intro i hi
    obtain ⟨V, h1, h2, h3⟩ := h.votes i hi
    exact ⟨V, h1, h2, fun w hw => ⟨(h3 w hw).1, by rw [out_setCall hk hb]; exact (h3 w hw).2⟩⟩

/-- New calls that nobody counts votes with. -/
theorem ElRel.addCalls (h : ElRel E c b) {new : List (Call ι κ δ)} (hd : ∀ x ∈ new, x.caller ≠ x.callee)
    (hb : ∀ x ∈ new, x.rpc.Backed b x.caller x.callee)
    (he : ∀ x ∈ new, ∀ e, x.epoch = some e → e ≤ c.epoch x.caller)
    (hn : ∀ x ∈ new, x.epoch = none ∨ x.rpc.ballot = none) : ElRel E { c with calls := c.calls ++ new } b := by
  have hout : ∀ i w T, Cluster.out { c with calls := c.calls ++ new } i w T = c.out i w T := by
    intro i w T
    have h0 : new.countP (isBallot i w (c.epoch i) T) = 0 := by
      refine List.countP_eq_zero.2 fun x hx => ?_
      rcases hn x hx with hx | hx <;> simp [isBallot, hx]
    simp [Cluster.out, List.countP_append, h0]
  refine { h with distinct := ?_, backed := ?_, epoch := ?_, once := ?_, votes := ?_ }
  · exact fun x hx => (List.mem_append.1 hx).elim (h.distinct x) (hd x)
  · exact fun x hx => (List.mem_append.1 hx).elim (h.backed x) (hb x)
  · exact fun x hx => (List.mem_append.1 hx).elim (h.epoch x) (he x)
  · intro i w T
    rw [hout]; exact h.once i w T
  · intro i hi
    obtain ⟨V, h1, h2, h3⟩ := h.votes i hi
    exact ⟨V, h1, h2, fun w hw => ⟨(h3 w hw).1, by rw [hout]; exact (h3 w hw).2⟩⟩

end

end Raft
