import ApiCerberus.Consensus.Moves

/-!
# The moves on logs keep the invariant

An append by the leader, the read of a leader's log, the adoption of a part of it by another
member, the installation of a settled prefix, an acknowledgement and a commitment.
-/

namespace Consensus.Replicas

variable {ι α : Type*} [DecidableEq ι] {a : Replicas ι α} {i : ι} {e : α}

/-! ## The leader appends -/

/-- The leader `i` adds an entry to its log. -/
def append (a : Replicas ι α) (i : ι) (e : α) : Replicas ι α :=
  { a with
    log := Function.update a.log i (a.log i ++ [e])
    llog := Function.update a.llog (a.ballots.term i) (a.log i ++ [e])
    ack := fun x S => if x = i ∧ S = a.ballots.term i then (a.log i).length + 1 else a.ack x S }

theorem log_append : (a.append i e).log i = a.log i ++ [e] := by simp [append]

theorem log_append_of_ne {j : ι} (hj : j ≠ i) : (a.append i e).log j = a.log j := by simp [append, hj]

theorem llog_append : (a.append i e).llog (a.ballots.term i) = a.log i ++ [e] := by simp [append]

theorem llog_append_of_ne {T : Nat} (hT : T ≠ a.ballots.term i) : (a.append i e).llog T = a.llog T := by
  simp [append, hT]

variable [Termed α] [Fintype ι]

theorem moves_append (h : a.Inv) (hl : a.ballots.role i = .leader) (e : α) : Moves i a (a.append i e) where
  toGrows :=
    { Grows.refl a with
      llog := fun T => by
        by_cases hT : T = a.ballots.term i
        · subst hT
          rw [← h.leader_log i hl]
          simp only [append, Function.update_self]
          exact agree_append [e] (le_refl _)
        · simp only [append, Function.update_of_ne hT]; exact .refl _ _
      ack := fun x T => by
        simp only [append]
        split
        · rename_i hc
          obtain ⟨rfl, rfl⟩ := hc
          have := h.ack_le x (a.ballots.term x)
          rw [← h.leader_log x hl] at this
          omega
        · exact le_refl _ }
  move := .refl i _
  frame j hj := by simp [append, hj]

section Append

variable (h : a.Inv) (hl : a.ballots.role i = .leader)
include h hl

omit [DecidableEq ι] in
theorem leader_term_le {m : Nat} {f : α} (hf : (a.log i)[m]? = some f) : term f ≤ a.ballots.term i := by
  rw [h.leader_log i hl] at hf
  exact h.llog_term_le hf

/-- Nobody else has acknowledged the new position. -/
theorem eq_of_ack_append {x : ι} (hp : (a.log i).length < (a.append i e).ack x (a.ballots.term i)) : x = i := by
  by_contra hne
  simp only [append, hne, false_and, if_false] at hp
  have := h.ack_le x (a.ballots.term i)
  rw [← h.leader_log i hl] at this
  omega

variable {T p : Nat}

theorem ack_of_ack_append {x : ι} (hc : a.Choosable T p) (hp : p < (a.append i e).ack x T) :
    p < a.ack x T := by
  simp only [append] at hp
  split at hp
  · rename_i hxc
    obtain ⟨rfl, rfl⟩ := hxc
    rw [h.ack_winner x _ (h.ballots.leader_won x hl)]
    exact hc.1.lt
  · exact hp

/-- A choosable position is an old one or the one just appended. -/
theorem choosable_append (hc : (a.append i e).Choosable T p) :
    a.Choosable T p ∨ (T = a.ballots.term i ∧ p = (a.log i).length) := by
  obtain ⟨ho, M, hM, hx⟩ := hc
  by_cases hT : T = a.ballots.term i
  · subst hT
    obtain ⟨f, hf, hft⟩ := ho
    rw [llog_append] at hf
    rcases getElem?_concat_cases hf with ⟨hp, hf'⟩ | ⟨hp, _⟩
    · refine Or.inl ⟨⟨f, by rw [← h.leader_log i hl]; exact hf', hft⟩, M, hM, fun x hxM => ?_⟩
      rcases hx x hxM with hp' | ht
      · simp only [append] at hp'
        split at hp'
        · rename_i hc; exact Or.inr (by rw [hc.1])
        · exact Or.inl hp'
      · exact Or.inr ht
    · exact Or.inr ⟨rfl, hp⟩
  · refine Or.inl ⟨by simpa [Own, llog_append_of_ne hT] using ho, M, hM, fun x hxM => ?_⟩
    have hx' := hx x hxM
    simpa [append, hT] using hx'

/-- The new position is out of reach of every later leader. -/
theorem not_won_append {S : Nat} {l : ι} (hc : (a.append i e).Choosable (a.ballots.term i) (a.log i).length)
    (hlt : a.ballots.term i < S) : ¬ a.ballots.won l S := by
  intro hw
  obtain ⟨_, M, hM, hx⟩ := hc
  obtain ⟨Q, hQ⟩ := h.ballots.quorum l S hw
  obtain ⟨w, hwM, hwQ⟩ := hM.meet hQ.1
  have hterm := h.ballots.elects_term hw hQ hwQ
  rcases hx w hwM with hp | ht
  · rw [eq_of_ack_append h hl hp] at hterm; omega
  · have ht' : a.ballots.term w ≤ a.ballots.term i := ht
    omega

theorem settled_append {S k : Nat} {j : ι} (hs : a.Settled S (a.log j) k) :
    (a.append i e).Settled S ((a.append i e).log j) k := by
  refine h.settled_grow (hs.congr ?_) (moves_append h hl e).toGrows
  by_cases hji : j = i
  · subst hji
    rw [log_append]
    exact agree_append [e] (h.settled_le hs)
  · rw [log_append_of_ne hji]; exact .refl _ _

variable (he : term e = a.ballots.term i)
include he

theorem holds_append {x : ι} (hc : a.Choosable T p) (hx : a.Holds T p (a.log x)) :
    (a.append i e).Holds T p ((a.append i e).log x) := by
  refine Inv.holds_grow hc.1 ?_ (moves_append h hl e).toGrows
  by_cases hxi : x = i
  · subst hxi
    rw [log_append]
    have hp := Inv.holds_length hc.1 hx
    refine ⟨(agree_append [e] (by omega)).trans hx.1, fun m f hm hf => ?_⟩
    rcases getElem?_concat_cases hf with ⟨_, hf'⟩ | ⟨rfl, rfl⟩
    · exact hx.2 m f hm hf'
    · obtain ⟨f', hf', hft⟩ := hc.1
      rw [← hx.1 p (by omega)] at hf'
      have := leader_term_le h hl hf'
      omega
  · rw [log_append_of_ne hxi]; exact hx

theorem canon_append : (a.append i e).Canon (a.log i ++ [e]) := by
  intro m f hf
  rcases getElem?_concat_cases hf with ⟨hm, hf'⟩ | ⟨rfl, rfl⟩
  · exact (agree_append [e] (by omega)).trans ((h.log_canon i).grow (moves_append h hl e).toGrows m f hf')
  · rw [he, llog_append]; exact .refl _ _

omit [DecidableEq ι] in
theorem sorted_append {m n : Nat} {f f' : α} (hmn : m ≤ n) (hf : (a.log i ++ [e])[m]? = some f)
    (hf' : (a.log i ++ [e])[n]? = some f') : term f ≤ term f' := by
  rcases getElem?_concat_cases hf with ⟨_, hf1⟩ | ⟨hm, rfl⟩
  · rcases getElem?_concat_cases hf' with ⟨_, hf2⟩ | ⟨_, rfl⟩
    · exact h.canon_sorted (h.log_canon i) hmn hf1 hf2
    · have := leader_term_le h hl hf1; omega
  · rcases getElem?_concat_cases hf' with ⟨hn, _⟩ | ⟨_, rfl⟩
    · omega
    · exact le_refl _

/-- The new entry is the leader's own, so nothing else can stand there. -/
theorem inv_append : (a.append i e).Inv := by
  have g := (moves_append h hl e).toGrows
  have hwon := h.ballots.leader_won i hl
  have hnotcand : ∀ {c}, (a.append i e).ballots.role c = .candidate → c ≠ i := by
    rintro c hr rfl
    cases hl.symm.trans hr
  constructor
  case ballots => exact h.ballots
  case won_role => exact h.won_role
  case leader_log =>
    intro j hj
    by_cases hji : j = i
    · subst hji; exact log_append.trans llog_append.symm
    · have hne : a.ballots.term j ≠ a.ballots.term i := by
        intro heq
        exact hji (h.ballots.unique_winner j i _ (h.ballots.leader_won j hj) (heq ▸ hwon))
      exact (log_append_of_ne hji).trans ((h.leader_log j hj).trans (llog_append_of_ne hne).symm)
  case llog_won =>
    intro T hT
    have hne : T ≠ a.ballots.term i := by
      rintro rfl
      exact hT i hwon
    rw [llog_append_of_ne hne]
    exact h.llog_won T hT
  case llog_sorted =>
    intro T m n f f' hmn hf hf'
    by_cases hT : T = a.ballots.term i
    · subst hT
      rw [llog_append] at hf hf'
      exact sorted_append h hl he hmn hf hf'
    · rw [llog_append_of_ne hT] at hf hf'
      exact h.llog_sorted T m n f f' hmn hf hf'
  case llog_le =>
    intro T f hf
    by_cases hT : T = a.ballots.term i
    · subst hT
      rw [llog_append] at hf
      obtain ⟨m, hm⟩ := List.getElem?_of_mem hf
      rcases getElem?_concat_cases hm with ⟨_, hf'⟩ | ⟨_, rfl⟩
      · exact leader_term_le h hl hf'
      · exact he.le
    · rw [llog_append_of_ne hT] at hf
      exact h.llog_le T f hf
  case llog_canon =>
    intro T
    by_cases hT : T = a.ballots.term i
    · subst hT; rw [llog_append]; exact canon_append h hl he
    · rw [llog_append_of_ne hT]; exact (h.llog_canon T).grow g
  case log_canon =>
    intro j
    by_cases hji : j = i
    · subst hji; rw [log_append]; exact canon_append h hl he
    · rw [log_append_of_ne hji]; exact (h.log_canon j).grow g
  case base_settled =>
    intro j
    obtain ⟨S, hs⟩ := h.base_settled j
    exact ⟨S, settled_append h hl hs⟩
  case base_leader => exact fun j hj => settled_append h hl (h.base_leader j hj)
  case ack_le =>
    intro x T
    simp only [append]
    split
    · rename_i hc
      obtain ⟨rfl, rfl⟩ := hc
      simp
    · exact (h.ack_le x T).trans (g.length T)
  case ack_term =>
    intro x T hp
    simp only [append] at hp
    split at hp
    · rename_i hc; rw [hc.1, hc.2]; exact le_refl _
    · exact h.ack_term x T hp
  case ack_winner =>
    intro l T hw
    by_cases hT : T = a.ballots.term i
    · subst hT
      have hli : l = i := h.ballots.unique_winner l i _ hw hwon
      subst hli
      rw [llog_append]; simp [append]
    · rw [llog_append_of_ne hT]
      simpa [append, hT] using h.ack_winner l T hw
  case chosen => exact fun T p hc => (h.chosen T p hc).grow g
  case complete =>
    intro T p S l hc hTS hw
    rcases choosable_append h hl hc with hc' | ⟨rfl, rfl⟩
    · have hag := h.complete T p S l hc' hTS hw
      have hpS : p + 1 ≤ (a.llog S).length := hag.symm.le_length hc'.1.lt
      exact ((g.llog T).sub hc'.1.lt).trans (hag.trans ((g.llog S).sub hpS).symm)
    · exact absurd hw (not_won_append h hl hc hTS)
  case hold =>
    intro T p x hc hx
    rcases choosable_append h hl hc with hc' | ⟨rfl, rfl⟩
    · exact holds_append h hl he hc' (h.hold T p x hc' (hx.imp_left (ack_of_ack_append h hl hc')))
    · rcases hx with hp | ⟨S, hlt, hw⟩
      · rw [eq_of_ack_append h hl hp, log_append]
        refine ⟨by rw [llog_append]; exact .refl _ _, fun m f hm hf => ?_⟩
        rcases getElem?_concat_cases hf with ⟨hm', _⟩ | ⟨_, rfl⟩
        · omega
        · omega
      · exact absurd hw (not_won_append h hl hc hlt)
  case vote =>
    intro w S c T p hg hTS hc hp
    rcases choosable_append h hl hc with hc' | ⟨rfl, rfl⟩
    · exact h.vote w S c T p hg hTS hc' (ack_of_ack_append h hl hc' hp)
    · have hwi := eq_of_ack_append h hl hp
      subst hwi
      have := (h.ballots.bound w S c hg).2.1
      omega
  case cand =>
    intro c hr hu
    rw [log_append_of_ne (hnotcand hr)]
    exact h.cand c hr hu
  case early =>
    intro c hr hu
    rcases h.early c hr hu with hd | hea
    · exact Or.inl hd
    · refine Or.inr ⟨?_, settled_append h hl hea.2⟩
      rw [log_append_of_ne (hnotcand hr)]
      exact hea.1
  case sent_won => exact h.sent_won
  case sent_canon => exact fun S x hs => (h.sent_canon S x hs).grow g
  case sent_compat =>
    intro S x T p hs hle hc
    rcases choosable_append h hl hc with hc' | ⟨rfl, rfl⟩
    · exact Inv.compat_grow hc'.1 (h.sent_compat S x T p hs hle hc') g
    · -- what was sent in the leader's own term is a part of its log
      have hSi : S = a.ballots.term i := by
        by_contra hne
        obtain ⟨l, hw⟩ := h.sent_won S x hs
        exact not_won_append h hl hc (by omega) hw
      subst hSi
      have hag := h.sent_leader _ x i hs hwon rfl
      have hxl : x.length ≤ (a.llog (a.ballots.term i)).length := hag.symm.le_length (le_refl _)
      rw [← h.leader_log i hl] at hxl
      refine ⟨(hag.trans (((g.llog _).sub (h.leader_log i hl ▸ hxl)).symm)).sub (by omega), fun m f hm hf => ?_⟩
      have := (List.getElem?_eq_some_iff.1 hf).1
      omega
  case sent_leader =>
    intro S x l hs hw ht
    have hag := h.sent_leader S x l hs hw ht
    have hxl : x.length ≤ (a.llog S).length := hag.symm.le_length (le_refl _)
    exact hag.trans ((g.llog S).sub hxl).symm

end Append

/-! ## Reading a leader's log -/

/-- The log of `i` is sent in term `S`. -/
def send (a : Replicas ι α) (i : ι) (S : Nat) : Replicas ι α :=
  { a with sent := fun S' x => a.sent S' x ∨ (S' = S ∧ x = a.log i) }

omit [DecidableEq ι] [Termed α] [Fintype ι] in
theorem moves_send (a : Replicas ι α) (i : ι) (S : Nat) : Moves i a (a.send i S) :=
  { Moves.refl i a with sent := fun _ _ => Or.inl }

omit [DecidableEq ι] in
/-- What is sent is the log of a leader. -/
theorem inv_send (h : a.Inv) {i : ι} {S : Nat} (hw : a.ballots.won i S) : (a.send i S).Inv := by
  refine { h with sent_won := ?_, sent_canon := ?_, sent_compat := ?_, sent_leader := ?_ }
  · rintro S' x (hs | ⟨rfl, rfl⟩)
    · exact h.sent_won S' x hs
    · exact ⟨i, hw⟩
  · rintro S' x (hs | ⟨rfl, rfl⟩)
    · exact h.sent_canon S' x hs
    · exact h.log_canon i
  · rintro S' x T p (hs | ⟨rfl, rfl⟩) hle hc
    · exact h.sent_compat S' x T p hs hle hc
    · refine Inv.holds_compat (h.hold T p i hc ?_)
      rcases Nat.lt_or_ge T S' with hlt | hge
      · exact Or.inr ⟨S', hlt, hw⟩
      · have hT : T = S' := by omega
        subst hT
        left
        rw [h.ack_winner i T hw]
        exact hc.1.lt
  · rintro S' x l (hs | ⟨rfl, rfl⟩) hw' ht
    · exact h.sent_leader S' x l hs hw' ht
    · have hli := h.ballots.unique_winner l i S' hw' hw
      subst hli
      have ht' : a.ballots.term l = S' := ht
      have hrole := h.won_role l (by rw [ht']; exact hw)
      show Agree (a.log l).length (a.log l) (a.llog S')
      rw [h.leader_log l hrole, ht']
      exact .refl _ _

/-! ## Changing a member's log -/

/-- Member `i` replaces its log by `x` and keeps the first `k` entries of it as a snapshot. -/
def place (a : Replicas ι α) (i : ι) (x : List α) (k : Nat) : Replicas ι α :=
  { a with log := Function.update a.log i x, base := Function.update a.base i k }

omit [Termed α] [Fintype ι] in
theorem moves_place (a : Replicas ι α) (i : ι) (x : List α) (k : Nat) : Moves i a (a.place i x k) where
  toGrows := { Grows.refl a with }
  move := .refl i _
  frame j hj := by simp [place, hj]

/-- A log may be replaced by one that keeps what was acknowledged. -/
theorem inv_place (h : a.Inv) {i : ι} {x : List α} {k : Nat}
    (hl : a.ballots.role i = .leader → x = a.log i ∧ a.Known i k)
    (hcd : a.ballots.role i = .candidate → ¬ a.Unwon (a.ballots.term i)) (hx : a.Canon x)
    (hk : ∃ S, a.Settled S x k)
    (hhold : ∀ T p, a.Choosable T p → T ≤ a.ballots.term i → a.Holds T p (a.log i) → a.Holds T p x) :
    (a.place i x k).Inv := by
  have hlogj : ∀ {j}, j ≠ i → (a.place i x k).log j = a.log j := by
    intro j hj; simp [place, hj]
  have hlogi : (a.place i x k).log i = x := by simp [place]
  have hbasej : ∀ {j}, j ≠ i → (a.place i x k).base j = a.base j := by
    intro j hj; simp [place, hj]
  have hbasei : (a.place i x k).base i = k := by simp [place]
  refine { h with leader_log := ?_, log_canon := ?_, base_settled := ?_, base_leader := ?_, hold := ?_, cand := ?_,
                  early := ?_ }
  · intro j hj
    by_cases e : j = i
    · subst e
      rw [hlogi, (hl hj).1]
      exact h.leader_log j hj
    · rw [hlogj e]
      exact h.leader_log j hj
  · intro j
    by_cases e : j = i
    · subst e; rw [hlogi]; exact hx
    · rw [hlogj e]; exact h.log_canon j
  · intro j
    by_cases e : j = i
    · subst e; rw [hlogi, hbasei]; exact hk
    · rw [hlogj e, hbasej e]; exact h.base_settled j
  · intro j hj
    show a.Settled (a.ballots.term j) ((a.place i x k).log j) ((a.place i x k).base j)
    by_cases e : j = i
    · subst e
      obtain ⟨rfl, hkn⟩ := hl hj
      rw [hlogi, hbasei]
      exact hkn
    · rw [hlogj e, hbasej e]; exact h.base_leader j hj
  · intro T p y hc hy
    have hold := h.hold T p y hc hy
    by_cases e : y = i
    · subst e
      rw [hlogi]
      refine hhold T p hc ?_ hold
      rcases hy with hp | ⟨S, hlt, hw⟩
      · exact h.ack_term y T (Nat.lt_of_le_of_lt (Nat.zero_le p) hp)
      · have := (h.ballots.winner y S hw).2.1
        omega
    · rw [hlogj e]; exact hold
  · intro c hrc hu
    have e : c ≠ i := by rintro rfl; exact hcd hrc hu
    rw [hlogj e]
    exact h.cand c hrc hu
  · intro c hrc hu
    have e : c ≠ i := by rintro rfl; exact hcd hrc hu
    unfold Early
    rw [hlogj e, hbasej e]
    exact h.early c hrc hu

variable {y : List α}

/-- A follower takes over a part of a log sent in its term, from the first conflict on. -/
theorem inv_adopt (h : a.Inv) {i : ι} {c q : Nat} (hr : a.ballots.role i = .follower)
    (hs : a.sent (a.ballots.term i) y) (hbc : a.base i ≤ c) (hcx : c ≤ (a.log i).length) (hcq : c < q)
    (hq : q ≤ y.length)
    (hm : Meet c (a.log i) y)
    (hconf : ∀ e f, (a.log i)[c]? = some e → y[c]? = some f → term e ≠ term f) :
    (a.place i (splice (a.log i) y c q) (a.base i)).Inv := by
  refine inv_place h (by rw [hr]; intro hx; cases hx) (by rw [hr]; intro hx; cases hx)
    ((h.log_canon i).splice (h.sent_canon _ y hs) hcx hcq.le hm) ?_ ?_
  · obtain ⟨S, hS⟩ := h.base_settled i
    exact ⟨S, hS.congr (agree_splice hcx hbc)⟩
  · intro T p hc hT hx
    exact Inv.holds_splice hc.1 hx (h.sent_compat _ y T p hs hT hc) hcx (by omega) hconf

/-- What a member may rely on survives the adoption. -/
theorem safe_adopt (h : a.Inv) {i : ι} {c q k : Nat} (hs : a.sent (a.ballots.term i) y)
    (hbc : a.base i ≤ c) (hcx : c ≤ (a.log i).length) (hcy : c < y.length)
    (hconf : ∀ e f, (a.log i)[c]? = some e → y[c]? = some f → term e ≠ term f) (hk : a.Safe i k) :
    (a.place i (splice (a.log i) y c q) (a.base i)).Safe i k ∧ Agree k (splice (a.log i) y c q) (a.log i) := by
  rcases hk with hb | hk
  · exact ⟨Or.inl (by simpa [place] using hb), agree_splice hcx (by omega)⟩
  · have hs' := h.settled_splice (q := q) hk hs hcx hcy hconf
    refine ⟨Or.inr ?_, (h.settled_agree hs' hk).sub (by omega)⟩
    simpa [Known, place, Settled] using hs'

/-- A settled log replaces a shorter one. -/
theorem inv_install (h : a.Inv) {i : ι} {P : List α} {S : Nat} (hP : a.Settled S P P.length)
    (hlen : (a.log i).length ≤ P.length) (hr : a.ballots.role i ≠ .leader)
    (hcd : a.ballots.role i = .candidate → ¬ a.Unwon (a.ballots.term i)) : (a.place i P P.length).Inv :=
  inv_place h (fun hl => absurd hl hr) hcd (h.settled_canon hP) ⟨S, hP⟩
    fun _ _ hc _ hx => h.holds_settled hc hx hP hlen

/-! ## Acknowledgements and commitments -/

/-- Member `i` has taken over `n` entries of its leader. -/
def acknowledge (a : Replicas ι α) (i : ι) (n : Nat) : Replicas ι α :=
  { a with ack := fun x S => if x = i ∧ S = a.ballots.term i then max (a.ack x S) n else a.ack x S }

omit [Termed α] [Fintype ι] in
theorem moves_acknowledge (a : Replicas ι α) (i : ι) (n : Nat) : Moves i a (a.acknowledge i n) :=
  { Moves.refl i a with
    ack := fun x T => by
      simp only [acknowledge]
      split
      · exact le_max_left _ _
      · exact le_refl _ }

/-- A member acknowledges a prefix it shares with the leader of its term. -/
theorem inv_acknowledge (h : a.Inv) {i : ι} {n : Nat} (hn : n ≤ (a.llog (a.ballots.term i)).length)
    (hhold : ∀ p, p < n → a.Own (a.ballots.term i) p → a.Holds (a.ballots.term i) p (a.log i)) :
    (a.acknowledge i n).Inv := by
  have g := (moves_acknowledge a i n).toGrows
  have hack : ∀ {x T p}, p < (a.acknowledge i n).ack x T →
      p < a.ack x T ∨ (x = i ∧ T = a.ballots.term i ∧ p < n) := by
    intro x T p hp
    simp only [acknowledge] at hp
    split at hp
    · rename_i hc
      rcases lt_max_iff.1 hp with hp | hp
      · exact Or.inl hp
      · exact Or.inr ⟨hc.1, hc.2, hp⟩
    · exact Or.inl hp
  have hch : ∀ {T p}, (a.acknowledge i n).Choosable T p → a.Choosable T p := by
    rintro T p ⟨ho, M, hM, hx⟩
    refine ⟨ho, M, hM, fun x hxM => ?_⟩
    rcases hx x hxM with hp | ht
    · rcases hack hp with hp | ⟨rfl, rfl, _⟩
      · exact Or.inl hp
      · exact Or.inr (le_refl _)
    · exact Or.inr ht
  refine { h with ack_le := ?_, ack_term := ?_, ack_winner := ?_, chosen := ?_, complete := ?_, hold := ?_,
                  vote := ?_, sent_compat := ?_ }
  · intro x T
    simp only [acknowledge]
    split
    · rename_i hc
      obtain ⟨rfl, rfl⟩ := hc
      exact max_le (h.ack_le x _) hn
    · exact h.ack_le x T
  · intro x T hp
    rcases hack hp with hp | ⟨rfl, rfl, _⟩
    · exact h.ack_term x T hp
    · exact le_refl _
  · intro l T hl
    simp only [acknowledge]
    split
    · rename_i hc
      obtain ⟨rfl, rfl⟩ := hc
      rw [h.ack_winner l _ hl]
      exact max_eq_left hn
    · exact h.ack_winner l T hl
  · exact fun T p hc => (h.chosen T p hc).grow g
  · exact fun T p S l hc => h.complete T p S l (hch hc)
  · intro T p x hc hx
    rcases hx with hp | hx
    · rcases hack hp with hp' | ⟨rfl, rfl, hp'⟩
      · exact h.hold T p x (hch hc) (Or.inl hp')
      · exact hhold p hp' hc.1
    · exact h.hold T p x (hch hc) (Or.inr hx)
  · intro w S c T p hg hTS hc hp
    rcases hack hp with hp | ⟨rfl, rfl, _⟩
    · exact h.vote w S c T p hg hTS (hch hc) hp
    · have := (h.ballots.bound w S c hg).2.1
      omega
  · exact fun S x T p hs hle hc => h.sent_compat S x T p hs hle (hch hc)

/-- A member acknowledges the part of a sent log it has, while the sender is still in the term. -/
theorem inv_acknowledge_sent (h : a.Inv) {i l : ι} {q : Nat} (hs : a.sent (a.ballots.term i) y)
    (hw : a.ballots.won l (a.ballots.term i)) (hl : a.ballots.term l = a.ballots.term i) (hm : Meet q (a.log i) y) :
    (a.acknowledge i q).Inv := by
  have hq := Inv.meet_length hm
  have hy := (h.sent_leader _ y l hs hw hl).sub hq
  have hag : Agree q (a.log i) (a.llog (a.ballots.term i)) := (h.meet_agree (h.log_canon i) hs hm).trans hy
  refine inv_acknowledge h (hy.symm.le_length hq) fun p hp ho => ⟨hag.sub (by omega), fun m e hpm he => ?_⟩
  obtain ⟨f, hf, hft⟩ := ho
  have := h.canon_sorted (h.log_canon i) hpm (by rw [hag p hp]; exact hf) he
  omega

/-- Position `p` is committed in term `T`. -/
def commit (a : Replicas ι α) (T p : Nat) : Replicas ι α :=
  { a with com := fun T' p' => a.com T' p' ∨ (T' = T ∧ p' = p) }

omit [DecidableEq ι] [Termed α] [Fintype ι] in
theorem moves_commit (a : Replicas ι α) (i : ι) (T p : Nat) : Moves i a (a.commit T p) :=
  { Moves.refl i a with com := fun _ _ => Or.inl }

omit [DecidableEq ι] in
theorem inv_commit (h : a.Inv) {T p : Nat} (hc : a.Chosen T p) : (a.commit T p).Inv := by
  have g : Grows a (a.commit T p) := { Grows.refl a with com := fun _ _ => Or.inl }
  refine { h with base_settled := ?_, base_leader := ?_, chosen := ?_, early := ?_ }
  · intro j
    obtain ⟨S, hs⟩ := h.base_settled j
    exact ⟨S, h.settled_grow hs g⟩
  · exact fun j hj => h.settled_grow (h.base_leader j hj) g
  · rintro T' p' (hc' | ⟨rfl, rfl⟩)
    · exact h.chosen T' p' hc'
    · exact hc
  · intro c hr hu
    exact (h.early c hr hu).imp id fun he => ⟨he.1, h.settled_grow he.2 g⟩

/-! ## The initial state -/

def initial (ι α : Type*) : Replicas ι α :=
  { ballots := .initial ι, log := fun _ => [], base := fun _ => 0, cand := fun _ _ => (0, 0), llog := fun _ => [],
    ack := fun _ _ => 0, sent := fun _ _ => False, com := fun _ _ => False }

omit [DecidableEq ι] in
theorem inv_initial : (initial ι α).Inv := by
  constructor
  case ballots => exact Ballots.inv_initial
  all_goals simp [initial, Ballots.initial, Choosable, Own, Canon, Known, Settled]

end Consensus.Replicas
