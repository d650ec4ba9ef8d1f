import ApiCerberus.Consensus.Facts

/-!
# The moves of an election keep the invariant

One definition and one preservation theorem per move: the four moves that only concern ballots, and
the election of a leader. Every move concerns one member (`Moves`): what it changes of the others
only grows.
-/

namespace Consensus.Replicas

variable {ι α : Type*} {a a' a'' : Replicas ι α} {b : Ballots ι} {i : ι}

/-- A change that member `i` makes. -/
structure Moves (i : ι) (a a' : Replicas ι α) : Prop extends Grows a a' where
  move : a.ballots.Moves i a'.ballots
  frame : ∀ j, j ≠ i → a'.log j = a.log j ∧ a'.base j = a.base j

theorem Moves.refl (i : ι) (a : Replicas ι α) : Moves i a a := ⟨.refl a, .refl i _, fun _ _ => ⟨rfl, rfl⟩⟩

theorem Moves.trans (m : Moves i a a') (m' : Moves i a' a'') : Moves i a a'' where
  toGrows := m.toGrows.trans m'.toGrows
  move := m.move.trans m'.move
  frame j hj := by
    obtain ⟨h1, h2⟩ := m.frame j hj
    obtain ⟨h1', h2'⟩ := m'.frame j hj
    exact ⟨h1'.trans h1, h2'.trans h2⟩

/-! ## Ballots -/

/-- A move that only concerns ballots. -/
theorem moves_ballots (a : Replicas ι α) (m : a.ballots.Moves i b) :
    Moves i a { a with ballots := b } where
  toGrows := { Grows.refl a with ballots := m.toGrows }
  move := m
  frame _ _ := ⟨rfl, rfl⟩

variable [Termed α] [Fintype ι]

/-- Raising terms can only make positions unchoosable. -/
theorem Choosable.of_ballots {cd : ι → Nat → Nat × Nat}
    (hterm : ∀ i, a.ballots.term i ≤ b.term i) {T p : Nat}
    (hc : Choosable { a with ballots := b, cand := cd } T p) : a.Choosable T p := by
  obtain ⟨ho, Q, hQ, hx⟩ := hc
  refine ⟨ho, Q, hQ, fun x hm => ?_⟩
  rcases hx x hm with hp | ht
  · exact Or.inl hp
  · exact Or.inr ((hterm x).trans ht)

/-- What is left to check when a move changes nothing but ballots and announced marks. -/
theorem inv_ballots (h : a.Inv) {cd : ι → Nat → Nat × Nat} (hb : b.Inv)
    (hterm : ∀ i, a.ballots.term i ≤ b.term i) (hwon : b.won = a.ballots.won)
    (hlead : ∀ i, b.role i = .leader → a.ballots.role i = .leader ∧ b.term i = a.ballots.term i)
    (hwr : ∀ l, b.won l (b.term l) → b.role l = .leader)
    (hvote : ∀ w S c T p, b.granted w S c → T < S → a.Choosable T p → p < a.ack w T → LexLe (T, p + 1) (cd c S))
    (hcand : ∀ c, b.role c = .candidate → a.Unwon (b.term c) → cd c (b.term c) = lastMark (a.log c))
    (hearly : ∀ c, b.role c = .candidate → a.Unwon (b.term c) →
      Doomed { a with ballots := b, cand := cd } c (b.term c) ∨ a.Early c (b.term c)) :
    Inv { a with ballots := b, cand := cd } := by
  have hch : ∀ {T p}, Choosable { a with ballots := b, cand := cd } T p → a.Choosable T p :=
    fun hc => hc.of_ballots hterm
  have hunwon : ∀ {T}, Unwon { a with ballots := b, cand := cd } T → a.Unwon T := by
    intro T hu l hl
    exact hu l (by rw [hwon]; exact hl)
  refine
    { h with
      ballots := hb, won_role := hwr, leader_log := ?_, llog_won := fun T hu => h.llog_won T (hunwon hu)
      base_leader := ?_, ack_term := fun x T hp => (h.ack_term x T hp).trans (hterm x), ack_winner := ?_
      complete := ?_, hold := ?_, vote := fun w S c T p hg hlt hc hp => hvote w S c T p hg hlt (hch hc) hp
      cand := fun c hr hu => hcand c hr (hunwon hu), early := fun c hr hu => hearly c hr (hunwon hu)
      sent_won := ?_, sent_compat := fun S x T p hs hle hc => h.sent_compat S x T p hs hle (hch hc)
      sent_leader := ?_ }
  · intro i hi
    obtain ⟨h1, h2⟩ := hlead i hi
    show a.log i = a.llog (b.term i)
    rw [h2]
    exact h.leader_log i h1
  · intro i hi
    obtain ⟨h1, h2⟩ := hlead i hi
    show a.Settled (b.term i) (a.log i) (a.base i)
    rw [h2]
    exact h.base_leader i h1
  · intro l T hw
    exact h.ack_winner l T (by rw [← hwon]; exact hw)
  · intro T p S l hc hlt hw
    exact h.complete T p S l (hch hc) hlt (by rw [← hwon]; exact hw)
  · rintro T p x hc (hp | ⟨S, hlt, hw⟩)
    · exact h.hold T p x (hch hc) (Or.inl hp)
    · exact h.hold T p x (hch hc) (Or.inr ⟨S, hlt, by rw [← hwon]; exact hw⟩)
  · intro S x hs
    obtain ⟨l, hl⟩ := h.sent_won S x hs
    exact ⟨l, by rw [hwon]; exact hl⟩
  · intro S x l hs hw ht
    have hw' : a.ballots.won l S := by rw [← hwon]; exact hw
    have hle := (h.ballots.winner l S hw').2.1
    have hge := hterm l
    have ht' : b.term l = S := ht
    exact h.sent_leader S x l hs hw' (by omega)

/-- A member that becomes a follower, in a term that it has not won. -/
theorem inv_demoted (h : a.Inv) (m : a.ballots.Moves i b) (hb : b.Inv) (hwon : b.won = a.ballots.won)
    (hgranted : b.granted = a.ballots.granted) (hrole : b.role i = .follower) (hown : ¬ a.ballots.won i (b.term i)) :
    Inv { a with ballots := b } := by
  have hother : ∀ {j r}, b.role j = r → r ≠ .follower → j ≠ i := by
    rintro j r hj hr rfl
    exact hr (hj.symm.trans hrole)
  refine inv_ballots h hb m.term hwon ?_ ?_ (hgranted ▸ h.vote) ?_ ?_
  · intro j hj
    obtain ⟨hterm, hsame, -⟩ := m.frame j (hother hj (by decide))
    exact ⟨hsame ▸ hj, hterm⟩
  · intro l hw
    rw [hwon] at hw
    obtain ⟨hterm, hsame, -⟩ := m.frame l (fun e => hown (e ▸ hw))
    rw [hsame]
    exact h.won_role l (hterm ▸ hw)
  · intro c hr hu
    obtain ⟨hterm, hsame, -⟩ := m.frame c (hother hr (by decide))
    rw [hterm] at hu ⊢
    exact h.cand c (hsame ▸ hr) hu
  · intro c hr hu
    obtain ⟨hterm, hsame, -⟩ := m.frame c (hother hr (by decide))
    rw [hterm] at hu ⊢
    exact (h.early c (hsame ▸ hr) hu).imp (fun hd => h.doomed_grow hd (moves_ballots a m).toGrows) id

variable [DecidableEq ι]

/-- Member `i` stands for the next term, with the mark of its log. -/
def candidacy (a : Replicas ι α) (i : ι) : Replicas ι α :=
  { a with
    ballots := a.ballots.candidacy i
    cand := fun j S => if j = i ∧ S = a.ballots.term i + 1 then lastMark (a.log i) else a.cand j S }

def bump (a : Replicas ι α) (i : ι) (T : Nat) : Replicas ι α := { a with ballots := a.ballots.bump i T }

def yield (a : Replicas ι α) (i : ι) : Replicas ι α := { a with ballots := a.ballots.yield i }

def observe (a : Replicas ι α) (i : ι) (T : Nat) : Replicas ι α := { a with ballots := a.ballots.observe i T }

def follow (a : Replicas ι α) (i : ι) (T : Nat) : Replicas ι α := { a with ballots := a.ballots.follow i T }

def grant (a : Replicas ι α) (w c : ι) : Replicas ι α := { a with ballots := a.ballots.grant w c }

omit [Fintype ι] in
theorem moves_candidacy (a : Replicas ι α) (i : ι) : Moves i a (a.candidacy i) where
  toGrows :=
    { Grows.refl a with
      ballots := (a.ballots.moves_candidacy i).toGrows
      cand := fun c S hS => by
        simp only [candidacy]
        rw [if_neg]
        rintro ⟨rfl, rfl⟩
        omega }
  move := a.ballots.moves_candidacy i
  frame _ _ := ⟨rfl, rfl⟩

/-- A candidacy moves the member to a term that nobody has won. -/
theorem inv_candidacy (h : a.Inv) (i : ι) : (a.candidacy i).Inv := by
  have hnew : ∀ w c, ¬ (c = i ∧ a.ballots.granted w (a.ballots.term i + 1) c) := by
    rintro w c ⟨rfl, hg⟩
    have := (h.ballots.bound w _ c hg).2.2.1
    omega
  refine inv_ballots h (Ballots.inv_candidacy h.ballots i) (moves_candidacy a i).ballots.term rfl ?_ ?_ ?_ ?_ ?_
  · intro j hj
    by_cases e : j = i
    · subst e; simp [Ballots.candidacy] at hj
    · simpa [Ballots.candidacy, e] using hj
  · intro l hw
    by_cases e : l = i
    · subst e
      have := (h.ballots.winner l _ hw).2.1
      simp only [Ballots.candidacy, Function.update_self] at this
      omega
    · simp only [Ballots.candidacy, Function.update_of_ne e] at hw ⊢
      exact h.won_role l hw
  · intro w S c T p hg hlt hc hp
    have hne : ¬ (c = i ∧ S = a.ballots.term i + 1) := by
      rintro ⟨h1, rfl⟩
      exact hnew w c ⟨h1, hg⟩
    rw [if_neg hne]
    exact h.vote w S c T p hg hlt hc hp
  · intro c hr hu
    by_cases e : c = i
    · subst e; simp [Ballots.candidacy]
    · simp only [Ballots.candidacy, Function.update_of_ne e] at hr hu ⊢
      rw [if_neg (by simp [e])]
      exact h.cand c hr hu
  · intro c hr hu
    by_cases e : c = i
    · subst e
      simp only [Ballots.candidacy, Function.update_self] at hu ⊢
      by_cases hex : ∃ S' l, a.ballots.term c + 1 < S' ∧ a.ballots.won l S'
      · -- a higher term is already won: its quorum is out of reach
        left
        obtain ⟨S', l, hlt, hw⟩ := hex
        obtain ⟨Q, hQ⟩ := h.ballots.quorum l S' hw
        exact ⟨S', l, Q, hlt, hw, hQ, fun w _ hg => hnew w c ⟨rfl, hg⟩⟩
      · right
        have hbelow : ∀ S' l, a.ballots.won l S' → S' < a.ballots.term c + 1 := by
          intro S' l hw
          rcases Nat.lt_trichotomy S' (a.ballots.term c + 1) with hlt | rfl | hgt
          · exact hlt
          · exact absurd hw (hu l)
          · exact absurd ⟨S', l, hgt, hw⟩ hex
        refine ⟨fun m e he => ?_, ?_⟩
        · obtain ⟨l, hw⟩ := h.canon_won (h.log_canon c) he
          exact hbelow _ l hw
        · obtain ⟨S, hs⟩ := h.base_settled c
          obtain h0 | ⟨T, p, hc, _, hp, hag⟩ := hs
          · exact Or.inl h0
          obtain ⟨l, hw⟩ := h.com_won hc
          exact Or.inr ⟨T, p, hc, (hbelow T l hw).le, hp, hag⟩
    · simp only [Ballots.candidacy, Function.update_of_ne e] at hr hu ⊢
      exact h.early c hr hu

theorem inv_bump (h : a.Inv) {T : Nat} (hT : a.ballots.term i < T) : (a.bump i T).Inv := by
  refine inv_demoted h (a.ballots.moves_bump hT) (Ballots.inv_bump h.ballots i hT) rfl rfl
    (by simp [Ballots.bump]) fun hw => ?_
  have hle := (h.ballots.winner i _ hw).2.1
  simp only [Ballots.bump, Function.update_self] at hle
  omega

theorem inv_yield (h : a.Inv) {i l : ι} (hr : a.ballots.role i ≠ .follower) (hl : a.ballots.won l (a.ballots.term i))
    (hne : l ≠ i) : (a.yield i).Inv :=
  inv_demoted h (a.ballots.moves_yield i) (Ballots.inv_yield h.ballots hr hl hne) rfl rfl (by simp [Ballots.yield])
    (h.ballots.not_won_of_won hl hne)

theorem inv_observe (h : a.Inv) (i : ι) (T : Nat) : (a.observe i T).Inv := by
  unfold observe Ballots.observe
  split
  · rename_i hT; exact inv_bump h hT
  · exact h

theorem inv_follow (h : a.Inv) {i l : ι} {T : Nat} (hT : a.ballots.term i ≤ T) (hl : a.ballots.won l T) (hne : l ≠ i) :
    (a.follow i T).Inv := by
  unfold follow Ballots.follow
  split
  · rename_i hlt; exact inv_bump h hlt
  · split
    · exact h
    · rename_i hlt hr
      obtain rfl : T = a.ballots.term i := by omega
      exact inv_yield h hr hl hne

/-- A vote is granted to a candidate whose announced mark is not behind the voter's log. -/
theorem inv_grant (h : a.Inv) {w c : ι} (hne : w ≠ c) (hc : a.ballots.term w ≤ a.ballots.term c)
    (hv : a.ballots.vote w = none ∨ a.ballots.vote w = some c)
    (hm : LexLe (lastMark (a.log w)) (a.cand c (a.ballots.term w))) : (a.grant w c).Inv := by
  refine inv_ballots h (Ballots.inv_grant h.ballots hne hc hv) (fun _ => le_refl _) rfl
    (fun i hi => ⟨hi, rfl⟩) h.won_role ?_ h.cand ?_
  · rintro v S d T p (hg | ⟨rfl, rfl, rfl⟩) hlt hch hp
    · exact h.vote v S d T p hg hlt hch hp
    · exact (Inv.holds_mark hch.1 (h.hold T p v hch (Or.inl hp))).trans hm
  · intro d hr hu
    exact (h.early d hr hu).imp (fun hd => h.doomed_grow hd (moves_ballots a (a.ballots.moves_grant w c)).toGrows) id

/-! ## The election -/

/-- The log of the new leader becomes the log of its term. -/
def win (a : Replicas ι α) (i : ι) : Replicas ι α :=
  { a with
    ballots := a.ballots.win i
    llog := Function.update a.llog (a.ballots.term i) (a.log i)
    ack := fun x S => if x = i ∧ S = a.ballots.term i then (a.log i).length else a.ack x S }

theorem moves_win (h : a.Inv) (hu : a.Unwon (a.ballots.term i)) : Moves i a (a.win i) where
  toGrows :=
    { Grows.refl a with
      ballots := (a.ballots.moves_win i).toGrows
      llog := fun T => by
        by_cases hT : T = a.ballots.term i
        · subst hT
          rw [h.llog_won _ hu]
          intro m hm
          simp at hm
        · simp only [win, Function.update_of_ne hT]; exact .refl _ _
      ack := fun x T => by
        simp only [win]
        split
        · rename_i hc
          obtain ⟨rfl, rfl⟩ := hc
          have := h.ack_le x (a.ballots.term x)
          rw [h.llog_won _ hu] at this
          simp at this
          omega
        · exact le_refl _ }
  move := a.ballots.moves_win i
  frame _ _ := ⟨rfl, rfl⟩

/-- A new leader has every position that may still be chosen. -/
theorem inv_win (h : a.Inv) (hr : a.ballots.role i = .candidate) {Q : Finset ι}
    (hQ : a.ballots.Elects Q i (a.ballots.term i)) : (a.win i).Inv := by
  have hu := h.elected_unwon hr hQ
  have g := (moves_win h hu).toGrows
  obtain ⟨hlt, hbase⟩ := h.elected_early hr hQ
  have hllog : ∀ {T}, T ≠ a.ballots.term i → (a.win i).llog T = a.llog T := by
    intro T hT; simp [win, hT]
  have hllogS : (a.win i).llog (a.ballots.term i) = a.log i := by simp [win]
  have hack : ∀ {x T}, T ≠ a.ballots.term i → (a.win i).ack x T = a.ack x T := by
    intro x T hT; simp [win, hT]
  have hack0 : ∀ x, a.ack x (a.ballots.term i) = 0 := by
    intro x
    have := h.ack_le x (a.ballots.term i)
    rw [h.llog_won _ hu] at this
    simpa using this
  -- no position of the new term exists yet
  have hch : ∀ {T p}, (a.win i).Choosable T p → T ≠ a.ballots.term i ∧ a.Choosable T p := by
    intro T p ⟨ho, M, hM, hx⟩
    have hT : T ≠ a.ballots.term i := by
      rintro rfl
      obtain ⟨e, he, ht⟩ := ho
      rw [hllogS] at he
      have := hlt p e he
      omega
    refine ⟨hT, ?_, M, hM, fun x hxM => ?_⟩
    · simpa [Own, hllog hT] using ho
    · have hx' := hx x hxM
      rw [hack hT] at hx'
      exact hx'
  have hwonne : ∀ {l T}, a.ballots.won l T → T ≠ a.ballots.term i := by
    rintro l T hw rfl
    exact hu l hw
  constructor
  case ballots => exact Ballots.inv_win h.ballots hr hQ
  case won_role =>
    intro l hw
    by_cases e : l = i
    · subst e; simp [win, Ballots.win]
    · rcases hw with hw | ⟨rfl, _⟩
      · simpa [win, Ballots.win, e] using h.won_role l hw
      · exact absurd rfl e
  case leader_log =>
    intro j hj
    by_cases e : j = i
    · subst e; exact hllogS.symm
    · have hj' : a.ballots.role j = .leader := by simpa [win, Ballots.win, e] using hj
      show a.log j = (a.win i).llog (a.ballots.term j)
      rw [hllog (hwonne (h.ballots.leader_won j hj'))]
      exact h.leader_log j hj'
  case llog_won =>
    intro T hT
    have hne : T ≠ a.ballots.term i := by
      rintro rfl
      exact hT i (Or.inr ⟨rfl, rfl⟩)
    rw [hllog hne]
    exact h.llog_won T fun l hl => hT l (Or.inl hl)
  case llog_sorted =>
    intro T m n e f hmn he hf
    by_cases hT : T = a.ballots.term i
    · subst hT
      rw [hllogS] at he hf
      exact h.canon_sorted (h.log_canon i) hmn he hf
    · rw [hllog hT] at he hf
      exact h.llog_sorted T m n e f hmn he hf
  case llog_le =>
    intro T e he
    by_cases hT : T = a.ballots.term i
    · subst hT
      rw [hllogS] at he
      obtain ⟨m, hm⟩ := List.getElem?_of_mem he
      exact (hlt m e hm).le
    · rw [hllog hT] at he
      exact h.llog_le T e he
  case llog_canon =>
    intro T
    by_cases hT : T = a.ballots.term i
    · subst hT
      rw [hllogS]
      exact (h.log_canon i).grow g
    · rw [hllog hT]
      exact (h.llog_canon T).grow g
  case log_canon => exact fun j => (h.log_canon j).grow g
  case base_settled =>
    intro j
    obtain ⟨S, hs⟩ := h.base_settled j
    exact ⟨S, h.settled_grow hs g⟩
  case base_leader =>
    intro j hj
    by_cases e : j = i
    · subst e; exact h.settled_grow hbase g
    · have hj' : a.ballots.role j = .leader := by simpa [win, Ballots.win, e] using hj
      exact h.settled_grow (h.base_leader j hj') g
  case ack_le =>
    intro x T
    by_cases hT : T = a.ballots.term i
    · subst hT
      rw [hllogS]
      simp only [win]
      split
      · exact le_refl _
      · rw [hack0 x]; exact Nat.zero_le _
    · rw [hllog hT, hack hT]
      exact h.ack_le x T
  case ack_term =>
    intro x T hp
    by_cases hT : T = a.ballots.term i
    · subst hT
      simp only [win] at hp
      split at hp
      · rename_i hc; rw [hc.1]; exact le_refl _
      · rw [hack0 x] at hp; omega
    · rw [hack hT] at hp
      exact h.ack_term x T hp
  case ack_winner =>
    rintro l T (hw | ⟨rfl, rfl⟩)
    · rw [hllog (hwonne hw), hack (hwonne hw)]
      exact h.ack_winner l T hw
    · rw [hllogS]; simp [win]
  case chosen => exact fun T p hc => (h.chosen T p hc).grow g
  case complete =>
    rintro T p S l hc hTS (hw | ⟨rfl, rfl⟩)
    · obtain ⟨hT, hc'⟩ := hch hc
      rw [hllog hT, hllog (hwonne hw)]
      exact h.complete T p S l hc' hTS hw
    · obtain ⟨hT, hc'⟩ := hch hc
      rw [hllog hT, hllogS]
      exact h.elected_complete hr hQ hc' hTS
  case hold =>
    intro T p x hc hx
    obtain ⟨hT, hc'⟩ := hch hc
    rcases hx with hp | ⟨S, hlt', hw | ⟨rfl, rfl⟩⟩
    · rw [hack hT] at hp
      exact Inv.holds_grow hc'.1 (h.hold T p x hc' (Or.inl hp)) g
    · exact Inv.holds_grow hc'.1 (h.hold T p x hc' (Or.inr ⟨S, hlt', hw⟩)) g
    · -- the winner itself: it holds what its election forced it to hold
      have hag := h.elected_complete hr hQ hc' hlt'
      refine Inv.holds_grow hc'.1 ⟨hag.symm, fun m e hm he => ?_⟩ g
      change (a.log x)[m]? = some e at he
      obtain ⟨f, hf, hft⟩ := hc'.1
      rw [hag p (by omega)] at hf
      rw [← hft]
      exact h.canon_sorted (h.log_canon x) hm hf he
  case vote =>
    intro w S c T p hg hTS hc hp
    obtain ⟨hT, hc'⟩ := hch hc
    rw [hack hT] at hp
    exact h.vote w S c T p hg hTS hc' hp
  case cand =>
    intro c hrc hun
    by_cases e : c = i
    · subst e; simp [win, Ballots.win] at hrc
    · exact h.cand c (by simpa [win, Ballots.win, e] using hrc) fun l hl => hun l (Or.inl hl)
  case early =>
    intro c hrc hun
    by_cases e : c = i
    · subst e; simp [win, Ballots.win] at hrc
    · rcases h.early c (by simpa [win, Ballots.win, e] using hrc) (fun l hl => hun l (Or.inl hl)) with hd | he
      · exact Or.inl (h.doomed_grow hd g)
      · exact Or.inr ⟨he.1, h.settled_grow he.2 g⟩
  case sent_won =>
    intro S x hs
    obtain ⟨l, hl⟩ := h.sent_won S x hs
    exact ⟨l, Or.inl hl⟩
  case sent_canon => exact fun S x hs => (h.sent_canon S x hs).grow g
  case sent_compat =>
    intro S x T p hs hle hc
    obtain ⟨_, hc'⟩ := hch hc
    exact Inv.compat_grow hc'.1 (h.sent_compat S x T p hs hle hc') g
  case sent_leader =>
    intro S x l hs hw ht
    obtain ⟨l', hl'⟩ := h.sent_won S x hs
    rcases hw with hw | ⟨rfl, rfl⟩
    · rw [hllog (hwonne hw)]
      exact h.sent_leader S x l hs hw ht
    · exact absurd hl' (hu l')

end Consensus.Replicas
