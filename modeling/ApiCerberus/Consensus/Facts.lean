import ApiCerberus.Consensus.Replication

/-!
# What the invariant says about one state

Consequences of `Replicas.Inv` that the preservation proofs share: settled prefixes agree with each
other and with every choosable position, canonical logs survive the ways a member changes its log,
and an elected candidate holds every choosable position of earlier terms.
-/

namespace Consensus.Replicas

variable {ι α : Type*} {a a' : Replicas ι α}

theorem Settled.sub {S k k' : Nat} {x : List α} (h : a.Settled S x k) (hk : k' ≤ k) : a.Settled S x k' := by
  rcases h with rfl | ⟨T, p, hc, hT, hp, hag⟩
  · exact Or.inl (by omega)
  · exact Or.inr ⟨T, p, hc, hT, by omega, hag.sub hk⟩

theorem Settled.congr {S k : Nat} {x y : List α} (h : a.Settled S x k) (hxy : Agree k y x) : a.Settled S y k := by
  rcases h with rfl | ⟨T, p, hc, hT, hp, hag⟩
  · exact Or.inl rfl
  · exact Or.inr ⟨T, p, hc, hT, hp, hxy.trans hag⟩

theorem Settled.raise {S S' k : Nat} {x : List α} (h : a.Settled S x k) (hS : S ≤ S') : a.Settled S' x k := by
  rcases h with rfl | ⟨T, p, hc, hT, hp, hag⟩
  · exact Or.inl rfl
  · exact Or.inr ⟨T, p, hc, by omega, hp, hag⟩

theorem Settled.committed {S k m : Nat} {x : List α} {e : α} (hs : a.Settled S x k) (hm : m < k) (he : x[m]? = some e) :
    a.Committed m e := by
  obtain rfl | ⟨T, p, hc, _, hp, hag⟩ := hs
  · omega
  · exact ⟨T, p, hc, by omega, by rw [← hag m hm]; exact he⟩

theorem Settled.announced {S k : Nat} {x : List α} (hs : a.Settled S x k) : a.Announced S k := by
  obtain rfl | ⟨T, p, hc, hT, hp, _⟩ := hs
  · exact Or.inl rfl
  · exact Or.inr ⟨T, p, hc, hT, hp⟩

/-! ## Growth -/

/-- Everything that only grows along a run. -/
structure Grows (a a' : Replicas ι α) : Prop where
  ballots : a.ballots.Grows a'.ballots
  cand : ∀ c S, S ≤ a.ballots.term c → a'.cand c S = a.cand c S
  llog : ∀ T, Agree (a.llog T).length (a'.llog T) (a.llog T)
  ack : ∀ x T, a.ack x T ≤ a'.ack x T
  sent : ∀ S x, a.sent S x → a'.sent S x
  com : ∀ T p, a.com T p → a'.com T p

theorem Grows.refl (a : Replicas ι α) : Grows a a :=
  ⟨.refl _, fun _ _ _ => rfl, fun _ => .refl _ _, fun _ _ => le_refl _, fun _ _ => id, fun _ _ => id⟩

theorem Grows.length (g : Grows a a') (T : Nat) : (a.llog T).length ≤ (a'.llog T).length :=
  (g.llog T).le_length (le_refl _)

theorem Grows.trans {a'' : Replicas ι α} (g : Grows a a') (g' : Grows a' a'') : Grows a a'' where
  ballots := g.ballots.trans g'.ballots
  cand c S h := (g'.cand c S (h.trans (g.ballots.term c))).trans (g.cand c S h)
  llog T := ((g'.llog T).sub (g.length T)).trans (g.llog T)
  ack x T := (g.ack x T).trans (g'.ack x T)
  sent S x h := g'.sent S x (g.sent S x h)
  com T p h := g'.com T p (g.com T p h)

theorem Announced.grow {S k : Nat} (hs : a.Announced S k) (g : Grows a a') : a'.Announced S k := by
  obtain rfl | ⟨T, p, hc, hT, hp⟩ := hs
  · exact Or.inl rfl
  · exact Or.inr ⟨T, p, g.com T p hc, hT, hp⟩

variable [Termed α]

theorem Own.lt {T p : Nat} (h : a.Own T p) : p < (a.llog T).length := by
  obtain ⟨e, he, _⟩ := h
  exact (List.getElem?_eq_some_iff.1 he).1

theorem Own.grow {T p : Nat} (ho : a.Own T p) (g : Grows a a') : a'.Own T p := by
  obtain ⟨e, he, ht⟩ := ho
  have hp := (List.getElem?_eq_some_iff.1 he).1
  exact ⟨e, by rw [g.llog T p hp]; exact he, ht⟩

theorem Canon.grow {x : List α} (hc : a.Canon x) (g : Grows a a') : a'.Canon x := by
  intro j e he
  have hag := hc j e he
  have hj' : j < (a.llog (Termed.term e)).length := by
    have := hag j (by omega)
    rw [he] at this
    exact (List.getElem?_eq_some_iff.1 this.symm).1
  exact hag.trans ((g.llog _).sub (by omega)).symm

theorem Canon.of_agree {x y : List α} (hy : a.Canon y) (hxy : Agree x.length x y) : a.Canon x := by
  intro j e he
  have hj := (List.getElem?_eq_some_iff.1 he).1
  have hye : y[j]? = some e := by rw [← hxy j hj]; exact he
  exact (hxy.sub (by omega)).trans (hy j e hye)

/-- Two canonical logs with the same term at one position agree up to it. -/
theorem Canon.agree {x y : List α} (hx : a.Canon x) (hy : a.Canon y) {d : Nat} {e f : α} (he : x[d]? = some e)
    (hf : y[d]? = some f) (ht : term e = term f) : Agree (d + 1) x y := by
  have h1 := hx d e he
  have h2 := hy d f hf
  rw [← ht] at h2
  exact h1.trans h2.symm

/-- Two canonical logs that carry the same term just below position `c` may be joined at `c`. -/
theorem Canon.splice {x y : List α} (hx : a.Canon x) (hy : a.Canon y) {c q : Nat} (hcx : c ≤ x.length) (hcq : c ≤ q)
    (hm : Meet c x y) :
    a.Canon (splice x y c q) := by
  have hxy : Agree c x y := by
    cases c with
    | zero => exact fun m hm => by omega
    | succ d =>
      obtain ⟨e, f, he, hf, hef⟩ := hm d rfl
      exact hx.agree hy he hf hef
  rw [splice_eq_take hcx hcq hxy]
  exact hy.of_agree (agree_take (by simp))

variable [Fintype ι]

theorem Chosen.choosable {T p : Nat} (h : a.Chosen T p) : a.Choosable T p := by
  obtain ⟨ho, Q, hQ, hx⟩ := h
  exact ⟨ho, Q, hQ, fun x hm => Or.inl (hx x hm)⟩

theorem Chosen.grow {T p : Nat} (hc : a.Chosen T p) (g : Grows a a') : a'.Chosen T p := by
  obtain ⟨ho, Q, hQ, hx⟩ := hc
  exact ⟨ho.grow g, Q, hQ, fun x hm => lt_of_lt_of_le (hx x hm) (g.ack x T)⟩

namespace Inv

variable (h : a.Inv)
include h

variable {x : List α} {T p : Nat} {i : ι} {m k : Nat} {e : α}

variable {S q : Nat} {y : List α}

theorem settled_grow (hs : a.Settled S x k) (g : Grows a a') : a'.Settled S x k := by
  obtain rfl | ⟨T, p, hc, hT, hp, hag⟩ := hs
  · exact Or.inl rfl
  have hlen := (h.chosen T p hc).1.lt
  exact Or.inr ⟨T, p, g.com T p hc, hT, hp, hag.trans ((g.llog T).sub (by omega)).symm⟩

/-- A quorum that is past term `S` grants no further votes in it. -/
theorem doomed_grow {c : ι} (hd : a.Doomed c S) (g : Grows a a') : a'.Doomed c S := by
  obtain ⟨S', l, Q, hlt, hw, hQ, hng⟩ := hd
  refine ⟨S', l, Q, hlt, g.ballots.won l S' hw, hQ.mono g.ballots.granted, fun w hwQ hg => ?_⟩
  rcases g.ballots.fresh w S c hg with hg' | hle
  · exact hng w hwQ hg'
  · have := h.ballots.elects_term hw hQ hwQ
    omega

omit [Fintype ι] h in
theorem holds_grow (ho : a.Own T p) (hx : a.Holds T p x) (g : Grows a a') :
    a'.Holds T p x :=
  ⟨hx.1.trans ((g.llog T).sub ho.lt).symm, hx.2⟩

omit [Fintype ι] h in
theorem compat_grow (ho : a.Own T p) (hx : a.Compat T p x) (g : Grows a a') :
    a'.Compat T p x :=
  ⟨hx.1.trans ((g.llog T).sub (by have := ho.lt; omega)).symm, hx.2⟩

theorem won_of_mem (he : (a.llog T)[m]? = some e) : ∃ l, a.ballots.won l T := by
  by_contra hn
  rw [h.llog_won T fun l hl => hn ⟨l, hl⟩] at he
  simp at he

/-- Every entry of a canonical log is of a term somebody won. -/
theorem canon_won (hx : a.Canon x) (he : x[m]? = some e) :
    ∃ l, a.ballots.won l (term e) := by
  have := hx m e he m (by omega)
  rw [he] at this
  exact h.won_of_mem this.symm

theorem com_own (hc : a.com T p) : a.Own T p := (h.chosen T p hc).1

theorem com_won (hc : a.com T p) : ∃ l, a.ballots.won l T := by
  obtain ⟨e, he, _⟩ := h.com_own hc
  exact h.won_of_mem he

theorem settled_le (hs : a.Settled S x k) : k ≤ x.length := by
  rcases hs with rfl | ⟨T, p, hc, _, hp, hag⟩
  · exact Nat.zero_le _
  · have := (h.com_own hc).lt
    exact hag.le_length (by omega)

/-- A committed position and a choosable one lie in logs that agree up to the lower of the two. -/
theorem com_agree {T' p' : Nat} (hc : a.com T p) (hc' : a.Choosable T' p') :
    Agree (min (p + 1) (p' + 1)) (a.llog T) (a.llog T') := by
  rcases Nat.lt_trichotomy T T' with hlt | rfl | hgt
  · obtain ⟨e, he, _⟩ := hc'.1
    obtain ⟨l, hl⟩ := h.won_of_mem he
    exact (h.complete T p T' l (h.chosen T p hc).choosable hlt hl).sub (by omega)
  · exact .refl _ _
  · obtain ⟨l, hl⟩ := h.com_won hc
    exact ((h.complete T' p' T l hc' hgt hl).sub (by omega)).symm

theorem settled_choosable (hs : a.Settled S x k) (hc : a.Choosable T p) :
    Agree (min k (p + 1)) x (a.llog T) := by
  rcases hs with rfl | ⟨T', p', hc', _, hp', hag⟩
  · intro m hm; omega
  · exact (hag.sub (by omega)).trans ((h.com_agree hc' hc).sub (by omega))

theorem settled_agree {S' k' : Nat} (hx : a.Settled S x k) (hy : a.Settled S' y k') :
    Agree (min k k') x y := by
  rcases hy with rfl | ⟨T, p, hc, _, hp, hag⟩
  · intro m hm; omega
  · have := h.settled_choosable hx (h.chosen T p hc).choosable
    exact (this.sub (by omega)).trans (hag.sub (by omega)).symm

theorem settled_canon (hx : a.Settled S x x.length) : a.Canon x := by
  rcases hx with h0 | ⟨T, p, _, _, _, hag⟩
  · rw [List.length_eq_zero_iff.1 h0]
    intro j e he
    simp at he
  · exact (h.llog_canon T).of_agree hag

theorem llog_term_le (he : (a.llog T)[m]? = some e) : term e ≤ T :=
  h.llog_le T e (List.mem_of_getElem? he)

/-- Terms along a canonical log do not decrease. -/
theorem canon_sorted (hx : a.Canon x) {n : Nat} {f : α} (hmn : m ≤ n) (he : x[m]? = some e)
    (hf : x[n]? = some f) : term e ≤ term f := by
  have hag := hx n f hf
  rw [hag m (by omega)] at he
  rw [hag n (by omega)] at hf
  exact h.llog_sorted _ m n e f hmn he hf

/-! ## Logs that hold a choosable position -/

omit [Fintype ι] h in
theorem holds_length (ho : a.Own T p) (hx : a.Holds T p x) : p < x.length := by
  have := hx.1.le_length (show p + 1 ≤ (a.llog T).length from ho.lt)
  omega

omit [Fintype ι] h in
theorem holds_mark (ho : a.Own T p) (hx : a.Holds T p x) :
    LexLe (T, p + 1) (lastMark x) := by
  have hp := holds_length ho hx
  have hlast : x[x.length - 1]? = x.getLast? := List.getLast?_eq_getElem?.symm
  obtain ⟨e, he⟩ : ∃ e, x.getLast? = some e := by
    cases hg : x.getLast? with
    | none => rw [List.getLast?_eq_none_iff.1 hg] at hp; simp at hp
    | some e => exact ⟨e, rfl⟩
  have hle := hx.2 (x.length - 1) e (by omega) (by rw [hlast, he])
  unfold LexLe lastMark
  simp only [he, Option.map_some, Option.getD_some]
  omega

omit [Fintype ι] h in
theorem holds_compat (hx : a.Holds T p x) : a.Compat T p x :=
  ⟨hx.1.sub (by omega), hx.2⟩

omit [Fintype ι] h in
/-- Joining at a conflict cannot touch a position that both sides respect. -/
theorem holds_splice (ho : a.Own T p) (hx : a.Holds T p x) (hy : a.Compat T p y)
    {c : Nat} (hcx : c ≤ x.length) (hcy : c < y.length)
    (hconf : ∀ e f, x[c]? = some e → y[c]? = some f → term e ≠ term f) : a.Holds T p (splice x y c q) := by
  have hpx := holds_length ho hx
  have hpc : p < c := by
    by_contra hle
    obtain ⟨e, he⟩ : ∃ e, x[c]? = some e := ⟨_, List.getElem?_eq_getElem (by omega)⟩
    have hyc : y[c]? = some e := by rw [hy.1 c (by omega), ← hx.1 c (by omega), he]
    exact hconf e e he hyc rfl
  refine ⟨(agree_splice hcx hpc).trans hx.1, fun m e h1 he => ?_⟩
  rw [getElem?_splice hcx] at he
  split at he
  · exact hx.2 m e h1 he
  · split at he
    · exact hy.2 m e h1 he
    · cases he

/-- A settled log at least as long holds whatever a log held. -/
theorem holds_settled {P : List α} (hc : a.Choosable T p) (hx : a.Holds T p x)
    (hP : a.Settled S P P.length) (hl : x.length ≤ P.length) : a.Holds T p P := by
  have hp := holds_length hc.1 hx
  have hag := (h.settled_choosable hP hc).sub (show p + 1 ≤ min P.length (p + 1) by omega)
  refine ⟨hag, fun m e hm he => ?_⟩
  obtain ⟨f, hf, hft⟩ := hc.1
  rw [← hag p (by omega)] at hf
  rw [← hft]
  exact h.canon_sorted (h.settled_canon hP) hm hf he

/-- A settled part of a log is respected by whatever is sent in its own term or a later one. -/
theorem settled_splice (hs : a.Settled S x k) (hy : a.sent S y) {c : Nat}
    (hcx : c ≤ x.length) (hcy : c < y.length)
    (hconf : ∀ e f, x[c]? = some e → y[c]? = some f → term e ≠ term f) : a.Settled S (splice x y c q) k := by
  obtain rfl | ⟨T, p, hc, hT, hp, hag⟩ := hs
  · exact Or.inl rfl
  have hch := (h.chosen T p hc).choosable
  have hcompat := h.sent_compat S y T p hy hT hch
  have hkx : k ≤ x.length := hag.le_length (by have := hch.1.lt; omega)
  have hkc : k ≤ c := by
    by_contra hlt
    obtain ⟨e, he⟩ : ∃ e, x[c]? = some e := ⟨_, List.getElem?_eq_getElem (by omega)⟩
    have hyc : y[c]? = some e := by rw [hcompat.1 c (by omega), ← hag c (by omega), he]
    exact hconf e e he hyc rfl
  exact Or.inr ⟨T, p, hc, hT, hp, (agree_splice hcx hkc).trans hag⟩

/-! ## What a member may rely on -/

theorem safe_settled (hs : a.Safe i k) : ∃ S, a.Settled S (a.log i) k := by
  rcases hs with hb | hk
  · obtain ⟨S, hS⟩ := h.base_settled i
    exact ⟨S, hS.sub hb⟩
  · exact ⟨_, hk⟩

omit [Termed α] [Fintype ι] h in
theorem safe_sub {k' : Nat} (hs : a.Safe i k) (hk : k' ≤ k) : a.Safe i k' :=
  hs.imp (fun hb => hk.trans hb) fun hs => hs.sub hk

theorem safe_le (hs : a.Safe i k) : k ≤ (a.log i).length := by
  obtain ⟨S, hS⟩ := h.safe_settled hs
  exact h.settled_le hS

theorem leader_known (hr : a.ballots.role i = .leader) (hs : a.Safe i k) : a.Known i k := by
  rcases hs with hb | hk
  · exact (h.base_leader i hr).sub hb
  · exact hk

/-- Commitments never contradict each other. -/
theorem committed_unique {f : α} (he : a.Committed m e) (hf : a.Committed m f) : e = f := by
  obtain ⟨T, p, hc, hm, he⟩ := he
  obtain ⟨T', p', hc', hm', hf⟩ := hf
  have := h.com_agree hc (h.chosen T' p' hc').choosable m (by omega)
  rw [he, hf] at this
  exact Option.some.inj this

theorem committed_grow (hc : a.Committed m e) (g : Grows a a') : a'.Committed m e := by
  obtain ⟨T, p, hc, hm, he⟩ := hc
  have hlen := (h.com_own hc).lt
  exact ⟨T, p, g.com T p hc, hm, by rw [g.llog T m (by omega)]; exact he⟩

/-- Without a new commitment nothing becomes committed. -/
theorem committed_of_grows (g : Grows a a') (hcom : a'.com = a.com) (hc : a'.Committed m e) :
    a.Committed m e := by
  obtain ⟨T, p, hc, hm, he⟩ := hc
  rw [hcom] at hc
  have hlen := (h.com_own hc).lt
  exact ⟨T, p, hc, hm, by rw [← g.llog T m (by omega)]; exact he⟩

/-- A member that keeps its log does not forget what is committed. -/
theorem safe_grow (hs : a.Safe i k) (g : Grows a a') (hlog : a'.log i = a.log i)
    (hbase : a.base i ≤ a'.base i) : a'.Safe i k := by
  rcases hs with hb | hk
  · exact Or.inl (hb.trans hbase)
  · right
    show a'.Settled _ (a'.log i) k
    rw [hlog]
    exact (h.settled_grow hk g).raise (g.ballots.term i)

/-- What is known in the term of an entry of that term is chosen. -/
theorem known_chosen (hs : a.Settled S x k) (ho : a.Own S p)
    (hx : Agree (p + 1) x (a.llog S)) (hp : p < k) : a.Chosen S p := by
  obtain rfl | ⟨T, p', hc, hT, hp', hag⟩ := hs
  · omega
  obtain ⟨e, he, het⟩ := ho
  have heT : (a.llog T)[p]? = some e := by rw [← hag p hp, hx p (by omega)]; exact he
  have hle := h.llog_term_le heT
  have hTS : T = S := by omega
  subst hTS
  obtain ⟨_, Q, hQ, hack⟩ := h.chosen T p' hc
  exact ⟨⟨e, he, het⟩, Q, hQ, fun w hw => by have := hack w hw; omega⟩

/-- Canonical logs that meet are equal up to there. -/
theorem meet_agree (hx : a.Canon x) (hy : a.sent S y) (hm : Meet q x y) : Agree q x y := by
  intro m hmq
  obtain ⟨d, rfl⟩ : ∃ d, q = d + 1 := ⟨q - 1, by omega⟩
  obtain ⟨e, f, he, hf, ht⟩ := hm d rfl
  exact hx.agree (h.sent_canon S y hy) he hf ht m hmq

omit h in
theorem meet_length (hm : Meet q x y) : q ≤ y.length := by
  rcases Nat.eq_zero_or_pos q with rfl | hq
  · omega
  · obtain ⟨_, f, _, hf, _⟩ := hm (q - 1) (by omega)
    have := (List.getElem?_eq_some_iff.1 hf).1
    omega

/-- A commitment announced with a sent log covers every log that meets it. -/
theorem known_announced (hy : a.sent (a.ballots.term i) y)
    (hk : a.Announced (a.ballots.term i) k) (hm : Meet q (a.log i) y) : a.Known i (min k q) := by
  rcases hk with rfl | ⟨T, p, hc, hT, hp⟩
  · exact Or.inl (by omega)
  · have hxy := h.meet_agree (h.log_canon i) hy hm
    have hlen := meet_length hm
    have hcompat := h.sent_compat _ y T p hy hT (h.chosen T p hc).choosable
    exact Or.inr ⟨T, p, hc, hT, by omega, (hxy.sub (by omega)).trans (hcompat.1.sub (by omega))⟩

/-! ## Elected candidates -/

variable [DecidableEq ι] {c : ι} {Q : Finset ι} (hr : a.ballots.role c = .candidate)
  (hQ : a.ballots.Elects Q c (a.ballots.term c))
include hr hQ

theorem elected_unwon : a.Unwon (a.ballots.term c) := h.ballots.fresh_win hr hQ

/-- An elected candidate has nothing in its log that stems from its own term or a later one. -/
theorem elected_early : a.Early c (a.ballots.term c) := by
  rcases h.early c hr (h.elected_unwon hr hQ) with ⟨S', l, Q', hlt, hw, hQ', hng⟩ | he
  · exfalso
    obtain ⟨w, hwQ, hwQ'⟩ := hQ.1.meet hQ'.1
    have hterm := h.ballots.elects_term hw hQ' hwQ'
    rcases hQ.2 w hwQ with rfl | hg
    · omega
    · exact hng w hwQ' hg
  · exact he

theorem elected_mark (hc : a.Choosable T p) (hT : T < a.ballots.term c) :
    LexLe (T, p + 1) (lastMark (a.log c)) := by
  obtain ⟨ho, M, hM, hack⟩ := hc
  obtain ⟨w, hwM, hwQ⟩ := hM.meet hQ.1
  have hmark := h.cand c hr (h.elected_unwon hr hQ)
  rcases hQ.2 w hwQ with rfl | hg
  · have hp : p < a.ack w T := by
      rcases hack w hwM with hp | hle
      · exact hp
      · omega
    exact holds_mark ho (h.hold T p w ⟨ho, M, hM, hack⟩ (Or.inl hp))
  · have hterm := (h.ballots.bound w _ c hg).2.1
    have hp : p < a.ack w T := by
      rcases hack w hwM with hp | hle
      · exact hp
      · omega
    rw [← hmark]
    exact h.vote w _ c T p hg hT ⟨ho, M, hM, hack⟩ hp

/-- **Leader completeness, at the election.** -/
theorem elected_complete (hc : a.Choosable T p) (hT : T < a.ballots.term c) :
    Agree (p + 1) (a.llog T) (a.log c) := by
  have hmark := h.elected_mark hr hQ hc hT
  obtain ⟨f, hf, hft⟩ := hc.1
  unfold LexLe lastMark at hmark
  cases hg : (a.log c).getLast? with
  | none =>
    rw [hg, List.getLast?_eq_none_iff.1 hg] at hmark
    simp at hmark
  | some e =>
    have he : (a.log c)[(a.log c).length - 1]? = some e := by rw [← hg, List.getLast?_eq_getElem?]
    have hz := (List.getElem?_eq_some_iff.1 he).1
    simp only [hg, Option.map_some, Option.getD_some] at hmark
    have hcan := h.log_canon c _ e he
    have hle : (a.llog (term e))[(a.log c).length - 1]? = some e := by rw [← hcan _ (by omega)]; exact he
    have hTe : Agree (p + 1) (a.llog T) (a.llog (term e)) := by
      rcases Nat.lt_or_ge T (term e) with hlt | hge
      · obtain ⟨l, hl⟩ := h.won_of_mem hle
        exact h.complete T p _ l hc hlt hl
      · rw [show term e = T by omega]; exact .refl _ _
    have hpz : p < (a.log c).length := by
      by_contra hge
      have hlp : (a.llog (term e))[p]? = some f := by rw [← hTe p (by omega)]; exact hf
      have := h.llog_sorted _ _ p e f (by omega) hle hlp
      omega
    exact hTe.trans (hcan.sub (by omega)).symm

end Inv

end Consensus.Replicas
