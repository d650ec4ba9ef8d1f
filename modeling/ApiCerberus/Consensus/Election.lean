import Mathlib.Data.Finset.Card
import Mathlib.Data.Fintype.Card

/-!
# Leader election by majority vote

An abstract election protocol over an arbitrary finite set of members. A member may withdraw a vote it cast *for itself*
inside the term it cast it in (`yield`), so "one vote per member and term" is not an invariant. What is: a vote granted
to *another* member is never withdrawn in its term, and a member that has won a term, or still stands for election in
it, has granted no vote in it. Two winning quorums then meet in a voter that settles on one of the two.
-/

namespace Consensus

/-- What a member is in its term. -/
inductive Role where
  | follower | candidate | leader
deriving DecidableEq, Repr

/-- `granted w T c`: member `w` has granted member `c ≠ w` its vote in term `T`.
`won i T`: member `i` has been elected in term `T`. Both are histories and only grow. -/
structure Ballots (ι : Type*) where
  term : ι → Nat
  role : ι → Role
  vote : ι → Option ι
  granted : ι → Nat → ι → Prop
  won : ι → Nat → Prop

/-- More than half of the members. -/
def Majority {ι : Type*} [Fintype ι] (Q : Finset ι) : Prop := Fintype.card ι < 2 * Q.card

theorem Majority.meet {ι : Type*} [Fintype ι] [DecidableEq ι] {Q Q' : Finset ι} (h : Majority Q)
    (h' : Majority Q') : ∃ w, w ∈ Q ∧ w ∈ Q' := by
  unfold Majority at h h'
  have hlt : (Finset.univ : Finset ι).card < Q.card + Q'.card := by
    rw [Finset.card_univ]; omega
  obtain ⟨w, hw⟩ := Finset.inter_nonempty_of_card_lt_card_add_card (Finset.subset_univ Q)
    (Finset.subset_univ Q') hlt
  exact ⟨w, Finset.mem_inter.1 hw⟩

namespace Ballots

variable {ι : Type*} [DecidableEq ι]

/-! ## The moves -/

/-- A member that is not leader stands for election in the next term and votes for itself. -/
def candidacy (b : Ballots ι) (i : ι) : Ballots ι :=
  { b with
    term := Function.update b.term i (b.term i + 1)
    role := Function.update b.role i .candidate
    vote := Function.update b.vote i (some i) }

/-- A member learns of a higher term. -/
def bump (b : Ballots ι) (i : ι) (T : Nat) : Ballots ι :=
  { b with
    term := Function.update b.term i T
    role := Function.update b.role i .follower
    vote := Function.update b.vote i none }

/-- A member that stands in its term learns that another member has won it. -/
def yield (b : Ballots ι) (i : ι) : Ballots ι :=
  { b with role := Function.update b.role i .follower, vote := Function.update b.vote i none }

/-- A member hears of a term: it gives up its role if the term is higher. -/
def observe (b : Ballots ι) (i : ι) (T : Nat) : Ballots ι := if b.term i < T then b.bump i T else b

/-- A member hears from the winner of a term. -/
def follow (b : Ballots ι) (i : ι) (T : Nat) : Ballots ι :=
  if b.term i < T then b.bump i T else if b.role i = .follower then b else b.yield i

/-- Member `w` votes for `c`. -/
def grant (b : Ballots ι) (w : ι) (c : ι) : Ballots ι :=
  { b with
    vote := Function.update b.vote w (some c)
    granted := fun w' T c' => b.granted w' T c' ∨ (w' = w ∧ T = b.term w ∧ c' = c) }

/-- Member `i` becomes the leader of its term. -/
def win (b : Ballots ι) (i : ι) : Ballots ι :=
  { b with
    role := Function.update b.role i .leader
    won := fun j T => b.won j T ∨ (j = i ∧ T = b.term i) }

/-- A member loses its volatile state; its term and vote are durable. -/
def restart (b : Ballots ι) (i : ι) : Ballots ι :=
  { b with role := Function.update b.role i .follower }

/-! ## What a move may change -/

/-- Everything that only grows along a run; a vote is cast in the voter's current term. -/
structure Grows (b b' : Ballots ι) : Prop where
  term : ∀ i, b.term i ≤ b'.term i
  won : ∀ i T, b.won i T → b'.won i T
  granted : ∀ w T c, b.granted w T c → b'.granted w T c
  fresh : ∀ w T c, b'.granted w T c → b.granted w T c ∨ b.term w ≤ T

/-- A change that member `i` makes. -/
structure Moves (i : ι) (b b' : Ballots ι) : Prop extends Grows b b' where
  frame : ∀ j, j ≠ i → b'.term j = b.term j ∧ b'.role j = b.role j ∧ b'.vote j = b.vote j ∧
    ∀ T, b'.won j T → b.won j T

section
omit [DecidableEq ι]
variable {b b' b'' : Ballots ι}

theorem Grows.refl (b : Ballots ι) : Grows b b :=
  ⟨fun _ => le_refl _, fun _ _ => id, fun _ _ _ => id, fun _ _ _ => Or.inl⟩

theorem Grows.trans (g : Grows b b') (g' : Grows b' b'') : Grows b b'' where
  term i := (g.term i).trans (g'.term i)
  won i T h := g'.won i T (g.won i T h)
  granted w T c h := g'.granted w T c (g.granted w T c h)
  fresh w T c h := by
    rcases g'.fresh w T c h with h' | h'
    · exact g.fresh w T c h'
    · exact Or.inr ((g.term w).trans h')

theorem Moves.refl (i : ι) (b : Ballots ι) : Moves i b b := ⟨.refl b, fun _ _ => ⟨rfl, rfl, rfl, fun _ => id⟩⟩

theorem Moves.trans {i : ι} (m : Moves i b b') (m' : Moves i b' b'') : Moves i b b'' where
  toGrows := m.toGrows.trans m'.toGrows
  frame j hj := by
    obtain ⟨h1, h2, h3, h4⟩ := m.frame j hj
    obtain ⟨h1', h2', h3', h4'⟩ := m'.frame j hj
    exact ⟨h1'.trans h1, h2'.trans h2, h3'.trans h3, fun T h => h4 T (h4' T h)⟩

end

theorem moves_candidacy (b : Ballots ι) (i : ι) : Moves i b (b.candidacy i) where
  toGrows :=
    { Grows.refl b with
      term := fun j => by
        by_cases e : j = i
        · subst e; simp [candidacy]
        · simp [candidacy, e] }
  frame j hj := by simp [candidacy, hj]

variable {i : ι} {T : Nat} {Q : Finset ι}

theorem moves_bump (b : Ballots ι) (hT : b.term i < T) : Moves i b (b.bump i T) where
  toGrows :=
    { Grows.refl b with
      term := fun j => by
        by_cases e : j = i
        · subst e; simp [bump]; omega
        · simp [bump, e] }
  frame j hj := by simp [bump, hj]

theorem moves_yield (b : Ballots ι) (i : ι) : Moves i b (b.yield i) where
  toGrows := { Grows.refl b with }
  frame j hj := by simp [yield, hj]

theorem moves_observe (b : Ballots ι) (i : ι) (T : Nat) : Moves i b (b.observe i T) := by
  unfold observe
  split
  · rename_i hT; exact b.moves_bump hT
  · exact .refl i b

theorem moves_follow (b : Ballots ι) (i : ι) (T : Nat) : Moves i b (b.follow i T) := by
  unfold follow
  split
  · rename_i hT; exact b.moves_bump hT
  · split
    · exact .refl i b
    · exact b.moves_yield i

theorem observe_term {b : Ballots ι} (hT : b.term i ≤ T) : (b.observe i T).term i = T := by
  unfold observe
  split
  · simp [bump]
  · omega

theorem follow_term {b : Ballots ι} (hT : b.term i ≤ T) : (b.follow i T).term i = T := by
  unfold follow
  split
  · simp [bump]
  · split
    · omega
    · simp only [yield]; omega

theorem follow_role (b : Ballots ι) (i : ι) (T : Nat) : (b.follow i T).role i = .follower := by
  unfold follow
  split
  · simp [bump]
  · split
    · assumption
    · simp [yield]

theorem moves_grant (b : Ballots ι) (w c : ι) : Moves w b (b.grant w c) where
  toGrows :=
    { Grows.refl b with
      granted := fun _ _ _ => Or.inl
      fresh := by
        rintro v T d (hg | ⟨rfl, rfl, -⟩)
        · exact Or.inl hg
        · exact Or.inr (le_refl _) }
  frame j hj := by simp [grant, hj]

theorem moves_win (b : Ballots ι) (i : ι) : Moves i b (b.win i) where
  toGrows := { Grows.refl b with won := fun _ _ => Or.inl }
  frame j hj := by simp [win, hj]

theorem moves_restart (b : Ballots ι) (i : ι) : Moves i b (b.restart i) where
  toGrows := { Grows.refl b with }
  frame j hj := by simp [restart, hj]

/-! ## The invariant -/

variable [Fintype ι]

/-- `Q` elects `i` in term `T`: every member of `Q` is `i` itself or has granted `i` its vote. -/
def Elects (b : Ballots ι) (Q : Finset ι) (i : ι) (T : Nat) : Prop :=
  Majority Q ∧ ∀ w ∈ Q, w = i ∨ b.granted w T i

structure Inv (b : Ballots ι) : Prop where
  /-- Whoever stands or leads has its own vote. -/
  self_vote : ∀ i, b.role i ≠ .follower → b.vote i = some i
  /-- A vote granted to another member binds the voter for the rest of the term. -/
  bound : ∀ w T c, b.granted w T c →
    w ≠ c ∧ T ≤ b.term w ∧ T ≤ b.term c ∧ (b.term w = T → b.role w = .follower ∧ b.vote w = some c)
  unique_grant : ∀ w T c c', b.granted w T c → b.granted w T c' → c = c'
  winner : ∀ i T, b.won i T → 0 < T ∧ T ≤ b.term i ∧ (b.term i = T → b.role i ≠ .candidate ∧ b.vote i = some i) ∧
    ∀ c, ¬ b.granted i T c
  quorum : ∀ i T, b.won i T → ∃ Q, b.Elects Q i T
  unique_winner : ∀ i j T, b.won i T → b.won j T → i = j
  leader_won : ∀ i, b.role i = .leader → b.won i (b.term i)
  candidate_pos : ∀ i, b.role i = .candidate → 0 < b.term i

omit [DecidableEq ι] in
theorem Elects.mono {b b' : Ballots ι} (hg : ∀ w T c, b.granted w T c → b'.granted w T c)
    (h : b.Elects Q i T) : b'.Elects Q i T :=
  ⟨h.1, fun w hw => (h.2 w hw).imp id (hg w T i)⟩

variable {b : Ballots ι}

omit [DecidableEq ι] in
/-- Every member of an electing quorum has reached the term. -/
theorem Inv.elects_term (h : b.Inv) (hw : b.won i T)
    (hQ : b.Elects Q i T) {w : ι} (hwQ : w ∈ Q) : T ≤ b.term w := by
  rcases hQ.2 w hwQ with rfl | hg
  · exact (h.winner w T hw).2.1
  · exact (h.bound w T i hg).2.1

omit [DecidableEq ι] in
/-- What member `i` has to respect when it changes its term, role or vote without winning: the votes that it has granted
and the terms that it has won. -/
theorem Inv.settle (h : b.Inv) {b' : Ballots ι} (m : Moves i b b') (hgranted : b'.granted = b.granted)
    (hwon : b'.won = b.won)
    (hleader : b'.role i ≠ .leader) (hcandidate : b'.role i = .candidate → 0 < b'.term i ∧ b'.vote i = some i)
    (hbound : ∀ T c, b.granted i T c → b'.term i = T → b'.role i = .follower ∧ b'.vote i = some c)
    (hwinner : ∀ T, b.won i T → b'.term i = T → b'.role i ≠ .candidate ∧ b'.vote i = some i) : b'.Inv where
  self_vote j hj := by
    by_cases e : j = i
    · subst e
      cases hr : b'.role j with
      | follower => exact absurd hr hj
      | candidate => exact (hcandidate hr).2
      | leader => exact absurd hr hleader
    · rw [(m.frame j e).2.1] at hj
      rw [(m.frame j e).2.2.1]
      exact h.self_vote j hj
  bound w T c hg := by
    rw [hgranted] at hg
    obtain ⟨hne, hw, hc, hold⟩ := h.bound w T c hg
    refine ⟨hne, hw.trans (m.term w), hc.trans (m.term c), fun hT => ?_⟩
    by_cases e : w = i
    · subst e
      exact hbound T c hg hT
    · obtain ⟨hsame, hrole, hvote, -⟩ := m.frame w e
      rw [hrole, hvote]
      exact hold (hsame ▸ hT)
  unique_grant w T c c' hg hg' := by
    rw [hgranted] at hg hg'
    exact h.unique_grant w T c c' hg hg'
  winner j T hw := by
    rw [hwon] at hw
    obtain ⟨hpos, hle, hown, hnone⟩ := h.winner j T hw
    refine ⟨hpos, hle.trans (m.term j), fun hT => ?_, fun c => hgranted ▸ hnone c⟩
    by_cases e : j = i
    · subst e
      exact hwinner T hw hT
    · obtain ⟨hsame, hrole, hvote, -⟩ := m.frame j e
      rw [hrole, hvote]
      exact hown (hsame ▸ hT)
  quorum j T hw := by
    rw [hwon] at hw
    obtain ⟨Q, hQ⟩ := h.quorum j T hw
    exact ⟨Q, hQ.mono m.granted⟩
  unique_winner j k T hj hk := by
    rw [hwon] at hj hk
    exact h.unique_winner j k T hj hk
  leader_won j hj := by
    have e : j ≠ i := fun e => hleader (e ▸ hj)
    rw [(m.frame j e).2.1] at hj
    rw [hwon, (m.frame j e).1]
    exact h.leader_won j hj
  candidate_pos j hj := by
    by_cases e : j = i
    · subst e
      exact (hcandidate hj).1
    · rw [(m.frame j e).2.1] at hj
      rw [(m.frame j e).1]
      exact h.candidate_pos j hj

omit [DecidableEq ι] in
/-- A member that goes on to a higher term, without leading there, is bound by nothing any more. -/
theorem Inv.raise (h : b.Inv) {b' : Ballots ι} (m : Moves i b b') (hterm : b.term i < b'.term i)
    (hgranted : b'.granted = b.granted)
    (hwon : b'.won = b.won) (hvote : b'.role i ≠ .follower → b'.vote i = some i)
    (hrole : b'.role i ≠ .leader) : b'.Inv := by
  refine h.settle m hgranted hwon hrole (fun hc => ⟨by omega, hvote (by rw [hc]; decide)⟩)
    (fun T c hg hT => ?_) fun T hw hT => ?_
  · have hle := (h.bound i T c hg).2.1
    omega
  · have hle := (h.winner i T hw).2.1
    omega

theorem inv_candidacy (h : b.Inv) (i : ι) : (b.candidacy i).Inv :=
  h.raise (b.moves_candidacy i) (by simp [candidacy]) rfl rfl (by simp [candidacy]) (by simp [candidacy])

theorem inv_bump (h : b.Inv) (i : ι) (hT : b.term i < T) : (b.bump i T).Inv :=
  h.raise (b.moves_bump hT) (by simpa [bump] using hT) rfl rfl (by simp [bump]) (by simp [bump])

omit [DecidableEq ι] in
/-- A member whose term another member has won has not won it itself. -/
theorem Inv.not_won_of_won (h : b.Inv) {i l : ι} (hl : b.won l T) (hne : l ≠ i) : ¬ b.won i T :=
  fun hi => hne (h.unique_winner l i T hl hi)

theorem inv_yield (h : b.Inv) {i l : ι} (hr : b.role i ≠ .follower) (hl : b.won l (b.term i)) (hne : l ≠ i) :
    (b.yield i).Inv := by
  refine h.settle (b.moves_yield i) rfl rfl (by simp [yield]) (by simp [yield]) (fun T c hg hT => ?_) fun T hw hT => ?_
  · -- a member that stands has granted nothing in its term
    exact absurd ((h.bound i T c hg).2.2.2 hT).1 hr
  · have hT' : b.term i = T := hT
    exact absurd (hT' ▸ hw) (h.not_won_of_won hl hne)

theorem inv_restart (h : b.Inv) (i : ι) : (b.restart i).Inv := by
  refine h.settle (b.moves_restart i) rfl rfl (by simp [restart]) (by simp [restart])
    (fun T c hg hT => ?_) fun T hw hT => ?_
  · exact ⟨by simp [restart], ((h.bound i T c hg).2.2.2 hT).2⟩
  · exact ⟨by simp [restart], ((h.winner i T hw).2.2.1 hT).2⟩

/-- A vote is granted to a member that has stood in the voter's term, by a voter that has not
voted or has voted for the same member. -/
theorem inv_grant (h : b.Inv) {w c : ι} (hne : w ≠ c) (hc : b.term w ≤ b.term c)
    (hv : b.vote w = none ∨ b.vote w = some c) : (b.grant w c).Inv := by
  have hrole : b.role w = .follower := by
    by_contra hr
    have hs := h.self_vote w hr
    rcases hv with hv | hv <;> rw [hs] at hv
    · cases hv
    · exact hne (Option.some.inj hv)
  have hold : ∀ c', b.granted w (b.term w) c' → c' = c := by
    intro c' hg
    have := ((h.bound w _ c' hg).2.2.2 rfl).2
    rcases hv with hv | hv <;> rw [this] at hv
    · cases hv
    · exact Option.some.inj hv
  have hnw : ¬ b.won w (b.term w) := by
    intro hw
    have := ((h.winner w _ hw).2.2.1 rfl).2
    rcases hv with hv | hv <;> rw [this] at hv
    · cases hv
    · exact hne (Option.some.inj hv)
  constructor
  · intro j hj
    by_cases e : j = w
    · subst e; exact absurd hrole hj
    · simpa [grant, e] using h.self_vote j hj
  · rintro v T d (hg | ⟨rfl, rfl, rfl⟩)
    · obtain ⟨h1, h2, h3, h4⟩ := h.bound v T d hg
      refine ⟨h1, h2, h3, fun ht => ⟨(h4 ht).1, ?_⟩⟩
      by_cases e : v = w
      · subst e
        have ht' : b.term v = T := ht
        subst ht'
        simp [grant, hold d hg]
      · simpa [grant, e] using (h4 ht).2
    · exact ⟨hne, le_refl _, hc, fun _ => ⟨hrole, by simp [grant]⟩⟩
  · rintro v T d d' (hg | ⟨rfl, rfl, rfl⟩) (hg' | ⟨h1, h2, h3⟩)
    · exact h.unique_grant v T d d' hg hg'
    · subst h1 h2 h3; exact hold d hg
    · exact (hold d' hg').symm
    · exact h3.symm
  · intro j T hw
    obtain ⟨h0, h1, h2, h3⟩ := h.winner j T hw
    refine ⟨h0, h1, fun ht => ⟨(h2 ht).1, ?_⟩, ?_⟩
    · by_cases e : j = w
      · subst e
        have ht' : b.term j = T := ht
        exact absurd (ht' ▸ hw) hnw
      · simpa [grant, e] using (h2 ht).2
    · rintro d (hg | ⟨rfl, rfl, rfl⟩)
      · exact h3 d hg
      · exact hnw hw
  · intro j T hw
    obtain ⟨Q, hQ⟩ := h.quorum j T hw
    exact ⟨Q, hQ.mono fun _ _ _ => Or.inl⟩
  · exact h.unique_winner
  · exact h.leader_won
  · exact h.candidate_pos

/-- **Election safety, one step**: a candidate with a quorum cannot collide with an earlier winner
of its term. -/
theorem Inv.fresh_win (h : b.Inv) (hr : b.role i = .candidate)
    (hQ : b.Elects Q i (b.term i)) (j : ι) : ¬ b.won j (b.term i) := by
  intro hw
  obtain ⟨Q', hQ'⟩ := h.quorum j _ hw
  obtain ⟨w, hwQ, hwQ'⟩ := hQ.1.meet hQ'.1
  have hi : ∀ c, ¬ b.granted i (b.term i) c := by
    intro c hg
    rw [((h.bound i _ c hg).2.2.2 rfl).1] at hr
    cases hr
  rcases hQ.2 w hwQ with rfl | hg
  · rcases hQ'.2 w hwQ' with rfl | hg'
    · exact ((h.winner w _ hw).2.2.1 rfl).1 hr
    · exact hi j hg'
  · rcases hQ'.2 w hwQ' with rfl | hg'
    · exact (h.winner w _ hw).2.2.2 i hg
    · have hij : i = j := h.unique_grant w _ i j hg hg'
      subst hij
      exact ((h.winner i _ hw).2.2.1 rfl).1 hr

/-- Two majorities have a member in common, and it has voted once. -/
theorem inv_win (h : b.Inv) (hr : b.role i = .candidate)
    (hQ : b.Elects Q i (b.term i)) : (b.win i).Inv := by
  have hfresh := h.fresh_win hr hQ
  have hvote : b.vote i = some i := h.self_vote i (by rw [hr]; decide)
  have hnone : ∀ c, ¬ b.granted i (b.term i) c := by
    intro c hg
    rw [((h.bound i _ c hg).2.2.2 rfl).1] at hr
    cases hr
  constructor
  · intro j hj
    by_cases e : j = i
    · subst e; exact hvote
    · exact h.self_vote j (by simpa [win, e] using hj)
  · intro w T c hg
    obtain ⟨h1, h2, h3, h4⟩ := h.bound w T c hg
    refine ⟨h1, h2, h3, fun ht => ⟨?_, (h4 ht).2⟩⟩
    by_cases e : w = i
    · subst e
      have ht' : b.term w = T := ht
      exact absurd (ht' ▸ hg) (hnone c)
    · simpa [win, e] using (h4 ht).1
  · exact h.unique_grant
  · rintro j T (hw | ⟨rfl, rfl⟩)
    · obtain ⟨h0, h1, h2, h3⟩ := h.winner j T hw
      refine ⟨h0, h1, fun ht => ⟨?_, (h2 ht).2⟩, h3⟩
      by_cases e : j = i
      · subst e; simp [win]
      · simpa [win, e] using (h2 ht).1
    · exact ⟨h.candidate_pos _ hr, le_refl _, fun _ => ⟨by simp [win], hvote⟩, hnone⟩
  · rintro j T (hw | ⟨rfl, rfl⟩)
    · exact h.quorum j T hw
    · exact ⟨Q, hQ⟩
  · rintro j k T (hj | ⟨rfl, rfl⟩) (hk | ⟨h1, h2⟩)
    · exact h.unique_winner j k T hj hk
    · subst h1 h2; exact absurd hj (hfresh j)
    · exact absurd hk (hfresh k)
    · exact h1.symm
  · intro j hj
    by_cases e : j = i
    · subst e; exact Or.inr ⟨rfl, rfl⟩
    · exact Or.inl (h.leader_won j (by simpa [win, e] using hj))
  · intro j hj
    by_cases e : j = i
    · subst e; simp [win] at hj
    · exact h.candidate_pos j (by simpa [win, e] using hj)

/-- Everybody a follower in term 0. -/
def initial (ι : Type*) : Ballots ι :=
  { term := fun _ => 0, role := fun _ => .follower, vote := fun _ => none,
    granted := fun _ _ _ => False, won := fun _ _ => False }

omit [DecidableEq ι] in
theorem inv_initial : (initial ι).Inv := by
  constructor <;> simp [initial]

end Ballots

end Consensus
