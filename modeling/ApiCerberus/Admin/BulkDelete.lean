import Mathlib.Data.List.Nodup
import Mathlib.Logic.Function.Basic
import ApiCerberus.Lib.Text

/-!
# Bulk deletion

`handleBulkDelete` (`internal/admin/bulk.go`) normalizes the entries of a request and leaves out those without an id or
with an unknown type. In a copy of the configuration it then checks that all resources exist and that nothing refers to
them (`check`), and only afterwards removes them one after the other, each at the index where it finds the id
(`remove`). An entry that is listed twice passes the checks twice, but the second removal finds no index:
`cfg.Services[:-1]` panics (`repeated_entry`). A consumer is removed by a loop that does nothing in this case. `reload`
says whether `gateway.Reload` takes a configuration.
-/

namespace BulkDelete

inductive Kind
  | service
  | route
  | upstream
  | consumer
deriving DecidableEq

/-- A resource with the fields that the handler reads; `data` is the rest. Routes and consumers have no `name` that
matters here, upstreams and consumers no `ref`. -/
structure Resource (α : Type*) where
  id : Text
  name : Text
  ref : Text
  data : α

/-- The resources of each kind, in their order. -/
abbrev Config (α : Type*) := Kind → List (Resource α)

/-- An entry of the request, as it was decoded. -/
structure DeleteResource where
  type : Text
  id : Text

/-- Why an entry is refused. -/
inductive Reason
  | notFound (kind : Kind) (id : Text)
  | referenced (kind : Kind) (id : Text) (user : Text)
  | reload

/-- The code of an error, with what its message names. -/
inductive BulkError
  | invalidPayload
  | emptyRequest
  | tooManyItems
  | missingId (index : Nat)
  | invalidType (index : Nat) (id type : Text)
  | transactionFailed (reason : Reason)

structure Response where
  status : Nat
  deleted : Nat
  errors : List BulkError

inductive Outcome (α : Type*)
  | panicked
  | replied (cfg : Config α) (r : Response)

/-! ## The handler -/

/-- The four names that the handler knows. -/
def kindOf (type : Text) : Option Kind :=
  if type = ['s', 'e', 'r', 'v', 'i', 'c', 'e'] then some .service
  else if type = ['r', 'o', 'u', 't', 'e'] then some .route
  else if type = ['u', 'p', 's', 't', 'r', 'e', 'a', 'm'] then some .upstream
  else if type = ['c', 'o', 'n', 's', 'u', 'm', 'e', 'r'] then some .consumer
  else none

/-- What is to be deleted by the entry number `index`. -/
def validate (index : Nat) (res : DeleteResource) : Except BulkError (Kind × Text) :=
  let type := Text.toLower (Text.trimSpace res.type)
  let id := Text.trimSpace res.id
  if id = [] then .error (.missingId index)
  else
    match kindOf type with
    | some kind => .ok (kind, id)
    | none => .error (.invalidType index id type)

/-- The entries that are left, and the errors of the others. -/
def validateFrom : Nat → List DeleteResource → List (Kind × Text) × List BulkError
  | _, [] => ([], [])
  | i, res :: rest =>
    match validate i res with
    | .ok target => (target :: (validateFrom (i + 1) rest).1, (validateFrom (i + 1) rest).2)
    | .error e => ((validateFrom (i + 1) rest).1, e :: (validateFrom (i + 1) rest).2)

variable {α : Type*}

/-- The resources that can refer to one of this kind. -/
def referrers (cfg : Config α) : Kind → List (Resource α)
  | .service => cfg .route
  | .upstream => cfg .service
  | _ => []

/-- The first entry that names nothing, or something that is in use. -/
def check (cfg : Config α) : List (Kind × Text) → Option Reason
  | [] => none
  | (kind, id) :: rest =>
    match (cfg kind).find? fun r => r.id = id with
    | none => some (.notFound kind id)
    | some r =>
      match (referrers cfg kind).find? fun user => user.ref = r.id || user.ref = r.name with
      | some user => some (.referenced kind id user.id)
      | none => check cfg rest

/-- The loop that removes; `none` is a panic. -/
def remove (cfg : Config α) : List (Kind × Text) → Option (Config α)
  | [] => some cfg
  | (kind, id) :: rest =>
    match (cfg kind).findIdx? fun r => r.id = id with
    | some idx => remove (Function.update cfg kind ((cfg kind).eraseIdx idx)) rest
    | none => if kind = .consumer then remove cfg rest else none

/-- `none` is a request that is not the JSON of a list of entries. -/
def handleBulkDelete (reload : Config α → Bool) (cfg : Config α) (req : Option (List DeleteResource)) : Outcome α :=
  match req with
  | none => .replied cfg ⟨400, 0, [.invalidPayload]⟩
  | some entries =>
    if entries.length = 0 then .replied cfg ⟨400, 0, [.emptyRequest]⟩
    else if entries.length > 100 then .replied cfg ⟨400, 0, [.tooManyItems]⟩
    else
      let (targets, errors) := validateFrom 0 entries
      match check cfg targets with
      | some reason => .replied cfg ⟨400, 0, errors ++ [.transactionFailed reason]⟩
      | none =>
        match remove cfg targets with
        | none => .panicked
        | some next =>
          if reload next then .replied next ⟨200, targets.length, errors⟩
          else .replied cfg ⟨400, 0, errors ++ [.transactionFailed .reload]⟩

/-! ## Removal -/

/-- The configuration without the listed resources. -/
def without (cfg : Config α) (targets : List (Kind × Text)) : Config α :=
  fun kind => (cfg kind).filter fun r => (kind, r.id) ∉ targets

/-- How many resources of a kind have an id. -/
def copies (cfg : Config α) (t : Kind × Text) : Nat := (cfg t.1).countP fun r => r.id = t.2

/-- The configuration after the first resource with an id is gone. -/
def removeFirst (cfg : Config α) (t : Kind × Text) : Config α :=
  Function.update cfg t.1 ((cfg t.1).eraseP fun r => r.id = t.2)

theorem countP_eraseP (a b : Text) : ∀ rs : List (Resource α),
    (rs.eraseP fun r => r.id = a).countP (fun r => r.id = b) = rs.countP (fun r => r.id = b) - if b = a then 1 else 0
  | [] => by simp
  | r :: rs => by
    by_cases ha : r.id = a
    · rw [List.eraseP_cons_of_pos (by simpa using ha), List.countP_cons]
      by_cases hb : b = a
      · simp [ha, hb]
      · simp [ha, hb, Ne.symm hb]
    · rw [List.eraseP_cons_of_neg (by simpa using ha), List.countP_cons, List.countP_cons, countP_eraseP a b rs]
      by_cases hb : b = a
      · simp [hb, ha]
      · simp [hb]

theorem copies_removeFirst (cfg : Config α) (t u : Kind × Text) :
    copies (removeFirst cfg t) u = copies cfg u - if u = t then 1 else 0 := by
  obtain ⟨kind, id⟩ := t
  obtain ⟨kind', id'⟩ := u
  by_cases hkind : kind' = kind
  · subst hkind
    simpa [copies, removeFirst] using countP_eraseP id id' (cfg kind')
  · simp [copies, removeFirst, hkind]

theorem without_removeFirst {cfg : Config α} {t : Kind × Text} {targets : List (Kind × Text)} (ht : t ∈ targets) :
    without (removeFirst cfg t) targets = without cfg targets := by
  have hfilter : ∀ rs : List (Resource α), (rs.eraseP fun r => r.id = t.2).filter (fun r => (t.1, r.id) ∉ targets) =
      rs.filter fun r => (t.1, r.id) ∉ targets := by
    intro rs
    induction rs with
    | nil => rfl
    | cons r rs ih =>
      by_cases hid : r.id = t.2
      · have hgone : (t.1, r.id) ∈ targets := by rwa [hid]
        rw [List.eraseP_cons_of_pos (by simpa using hid), List.filter_cons_of_neg (by simpa using hgone)]
      · rw [List.eraseP_cons_of_neg (by simpa using hid), List.filter_cons, List.filter_cons, ih]
  funext kind
  by_cases hkind : kind = t.1
  · subst hkind
    simpa [without, removeFirst] using hfilter (cfg t.1)
  · simp [without, removeFirst, hkind]

theorem remove_cons (cfg : Config α) (t : Kind × Text) (rest : List (Kind × Text)) :
    remove cfg (t :: rest) = if copies cfg t = 0 ∧ t.1 ≠ .consumer then none else remove (removeFirst cfg t) rest := by
  obtain ⟨kind, id⟩ := t
  rw [remove]
  split
  · rename_i idx hidx
    have hpos : copies cfg (kind, id) ≠ 0 := by
      intro hzero
      have hnone : (cfg kind).findIdx? (fun r => r.id = id) = none :=
        List.findIdx?_eq_none_iff.2 fun r hr => by simpa using List.countP_eq_zero.1 hzero r hr
      rw [hnone] at hidx
      cases hidx
    rw [if_neg fun h => hpos h.1, removeFirst, List.eraseP_eq_eraseIdx, hidx]
  · rename_i hnone
    have habsent := List.findIdx?_eq_none_iff.1 hnone
    have hzero : copies cfg (kind, id) = 0 := List.countP_eq_zero.2 fun r hr => by simpa using habsent r hr
    have hself : removeFirst cfg (kind, id) = cfg := by
      rw [removeFirst, List.eraseP_of_forall_not fun r hr => by simpa using habsent r hr, Function.update_eq_self]
    rw [hself]
    by_cases hkind : kind = .consumer <;> simp [hzero, hkind]

/-- Each time that a resource is listed takes one of its copies away, and nothing else. -/
theorem copies_remove : ∀ {targets all : List (Kind × Text)}
    {cfg cfg' : Config α}, remove cfg targets = some cfg' → targets ⊆ all →
    (∀ u, copies cfg' u = copies cfg u - targets.count u) ∧ without cfg' all = without cfg all
  | [], all, cfg, cfg', h, _ => by
    cases h
    simp
  | t :: rest, all, cfg, cfg', h, hall => by
    rw [remove_cons] at h
    split at h
    · cases h
    · obtain ⟨hcopies, hwithout⟩ := copies_remove h fun u hu => hall (List.mem_cons_of_mem _ hu)
      refine ⟨fun u => ?_, hwithout.trans (without_removeFirst (hall (List.mem_cons_self ..)))⟩
      rw [hcopies, copies_removeFirst, List.count_cons, Nat.sub_sub, Nat.add_comm]
      by_cases hu : u = t
      · simp [hu]
      · simp [hu, Ne.symm hu]

/-- The loop does not panic iff every service, route and upstream is there as often as it is listed. -/
theorem isSome_remove : ∀ {targets : List (Kind × Text)} {cfg : Config α}, (remove cfg targets).isSome ↔
    ∀ t ∈ targets, t.1 ≠ .consumer → targets.count t ≤ copies cfg t
  | [], cfg => by simp [remove]
  | t :: rest, cfg => by
    rw [remove_cons]
    split
    · rename_i hzero
      refine iff_of_false (by simp) fun h => ?_
      have hfirst := h t (List.mem_cons_self ..) hzero.2
      rw [List.count_cons_self] at hfirst
      omega
    · rename_i hpos
      rw [isSome_remove, List.forall_mem_cons]
      have hstep : ∀ u : Kind × Text, u.1 ≠ .consumer →
          (rest.count u ≤ copies (removeFirst cfg t) u ↔ (t :: rest).count u ≤ copies cfg u) := by
        intro u hkind
        rw [copies_removeFirst]
        by_cases hu : u = t
        · subst hu
          rw [if_pos rfl, List.count_cons_self]
          have hthere : copies cfg u ≠ 0 := fun hzero => hpos ⟨hzero, hkind⟩
          omega
        · rw [if_neg hu, Nat.sub_zero, List.count_cons_of_ne (Ne.symm hu)]
      refine ⟨fun h => ⟨fun hkind => (hstep t hkind).1 ?_, fun u hu hkind => (hstep u hkind).1 (h u hu hkind)⟩,
        fun h u hu hkind => (hstep u hkind).2 (h.2 u hu hkind)⟩
      by_cases hmem : t ∈ rest
      · exact h t hmem hkind
      · rw [List.count_eq_zero_of_not_mem hmem]
        exact Nat.zero_le _

/-- The loop removes what is listed iff every resource is listed as often as it is there, and consumers at least so
often. -/
theorem remove_eq_iff {targets : List (Kind × Text)} {cfg : Config α} :
    remove cfg targets = some (without cfg targets) ↔
    ∀ t ∈ targets, copies cfg t ≤ targets.count t ∧ (t.1 ≠ .consumer → targets.count t ≤ copies cfg t) := by
  have hnone : ∀ cfg' : Config α, (∀ t ∈ targets, copies cfg' t = 0) ↔ without cfg' targets = cfg' := by
    intro cfg'
    constructor
    · intro h
      funext kind
      refine List.filter_eq_self.2 fun r hr => ?_
      have hunlisted : (kind, r.id) ∉ targets := fun hmem => by simpa using List.countP_eq_zero.1 (h _ hmem) r hr
      simpa using hunlisted
    · intro h t ht
      rw [copies, ← h]
      refine List.countP_eq_zero.2 fun r hr hid => ?_
      have hunlisted : (t.1, r.id) ∉ targets := by simpa [without] using (List.mem_filter.1 hr).2
      rw [show r.id = t.2 by simpa using hid] at hunlisted
      exact hunlisted ht
  constructor
  · intro h t ht
    have hsome := isSome_remove.1 (by rw [h]; rfl) t ht
    obtain ⟨hcopies, hwithout⟩ := copies_remove h (List.Subset.refl _)
    have hgone := (hnone _).2 hwithout t ht
    rw [hcopies] at hgone
    exact ⟨Nat.le_of_sub_eq_zero hgone, hsome⟩
  · intro h
    obtain ⟨cfg', hcfg'⟩ := Option.isSome_iff_exists.1 (isSome_remove.2 fun t ht => (h t ht).2)
    obtain ⟨hcopies, hwithout⟩ := copies_remove hcfg' (List.Subset.refl _)
    rw [hcfg', ← hwithout, (hnone cfg').1 fun t ht => by rw [hcopies, Nat.sub_eq_zero_of_le (h t ht).1]]

/-! ## Bulk deletion -/

/-- The resource is there, and nothing refers to it. -/
def Deletable (cfg : Config α) (t : Kind × Text) : Prop :=
  ∃ r, (cfg t.1).find? (fun r => r.id = t.2) = some r ∧ ∀ user ∈ referrers cfg t.1, user.ref ≠ r.id ∧ user.ref ≠ r.name

theorem check_eq_none {cfg : Config α} : ∀ {targets : List (Kind × Text)}, check cfg targets = none ↔
    ∀ t ∈ targets, Deletable cfg t
  | [] => by simp [check]
  | (kind, id) :: rest => by
    rw [check, List.forall_mem_cons]
    cases hfind : (cfg kind).find? fun r => r.id = id with
    | none => simp [Deletable, hfind]
    | some r =>
      have hfree : ((referrers cfg kind).find? fun user => user.ref = r.id || user.ref = r.name) = none ↔
          Deletable cfg (kind, id) := by
        simp [Deletable, hfind, not_or]
      rw [← hfree, ← check_eq_none]
      cases huser : (referrers cfg kind).find? fun user => user.ref = r.id || user.ref = r.name <;> simp [huser]

/-- What a request lists. -/
def listed (req : Option (List DeleteResource)) : List (Kind × Text) := (validateFrom 0 (req.getD [])).1

/-- The handler returns, and either exactly the listed resources are gone, or nothing is and an error is reported. -/
def Exact (reload : Config α → Bool) (cfg : Config α) (req : Option (List DeleteResource)) : Prop :=
  ∃ cfg' r, handleBulkDelete reload cfg req = .replied cfg' r ∧
    ((r.status = 200 ∧ r.errors = [] ∧ cfg' = without cfg (listed req)) ∨ (r.status = 400 ∧ r.errors ≠ [] ∧ cfg' = cfg))

/-- The request does not come to the removals. -/
def Refused (cfg : Config α) (req : Option (List DeleteResource)) : Prop :=
  req = none ∨ req = some [] ∨ 100 < (req.getD []).length ∨ ∃ t ∈ listed req, ¬ Deletable cfg t

/-- A request that is refused changes nothing. -/
theorem handleBulkDelete_refused (reload : Config α → Bool) {cfg : Config α} {req : Option (List DeleteResource)}
    (h : Refused cfg req) :
    ∃ errors, errors ≠ [] ∧ handleBulkDelete reload cfg req = .replied cfg ⟨400, 0, errors⟩ := by
  unfold handleBulkDelete
  cases req with
  | none => exact ⟨_, by simp, rfl⟩
  | some entries =>
    dsimp only
    split
    · exact ⟨_, by simp, rfl⟩
    split
    · exact ⟨_, by simp, rfl⟩
    rename_i hne hshort
    obtain ⟨t, ht, hdel⟩ : ∃ t ∈ listed (some entries), ¬ Deletable cfg t := by
      rcases h with h | h | h | h
      · cases h
      · cases h
        exact absurd rfl hne
      · exact absurd h hshort
      · exact h
    cases hcheck : check cfg (validateFrom 0 entries).1 with
    | none => exact absurd (check_eq_none.1 hcheck t ht) hdel
    | some reason => exact ⟨_, by simp, rfl⟩

theorem handleBulkDelete_removes (reload : Config α → Bool) {cfg : Config α} {req : Option (List DeleteResource)}
    (h : ¬ Refused cfg req) :
    handleBulkDelete reload cfg req =
      match remove cfg (listed req) with
      | none => .panicked
      | some next =>
        if reload next then .replied next ⟨200, (listed req).length, (validateFrom 0 (req.getD [])).2⟩
        else .replied cfg ⟨400, 0, (validateFrom 0 (req.getD [])).2 ++ [.transactionFailed .reload]⟩ := by
  simp only [Refused, not_or] at h
  obtain ⟨hsome, hne, hshort, hdel⟩ := h
  obtain ⟨entries, rfl⟩ := Option.ne_none_iff_exists'.1 hsome
  have hcheck : check cfg (validateFrom 0 entries).1 = none := check_eq_none.2 fun t ht => by
    by_contra hbad
    exact hdel ⟨t, ht, hbad⟩
  have hlen : entries.length ≠ 0 := fun hlen => hne (by rw [List.length_eq_zero_iff.1 hlen])
  have hlong : ¬ entries.length > 100 := hshort
  simp only [handleBulkDelete, if_neg hlen, if_neg hlong, hcheck]
  rfl

/-- **Bulk deletion** is exact, whatever the gateway says to the new configuration, iff the request is refused, or all
its entries are valid and every resource is listed as often as it is there, where a consumer may be listed more
often. -/
theorem handleBulkDelete_exact_iff (cfg : Config α) (req : Option (List DeleteResource)) :
    (∀ reload, Exact reload cfg req) ↔ Refused cfg req ∨
      (validateFrom 0 (req.getD [])).2 = [] ∧ ∀ t ∈ listed req,
        copies cfg t ≤ (listed req).count t ∧ (t.1 ≠ .consumer → (listed req).count t ≤ copies cfg t) := by
  by_cases hrefused : Refused cfg req
  · refine iff_of_true (fun reload => ?_) (.inl hrefused)
    obtain ⟨errors, hne, hrun⟩ := handleBulkDelete_refused reload hrefused
    exact ⟨cfg, _, hrun, .inr ⟨rfl, hne, rfl⟩⟩
  · rw [or_iff_right hrefused, ← remove_eq_iff]
    have hrun := fun reload => handleBulkDelete_removes reload hrefused
    constructor
    · intro h
      obtain ⟨cfg', r, hreplied, hexact⟩ := h fun _ => true
      rw [hrun] at hreplied
      cases hremove : remove cfg (listed req) with
      | none => simp [hremove] at hreplied
      | some next =>
        simp only [hremove, if_true, Outcome.replied.injEq] at hreplied
        obtain ⟨rfl, rfl⟩ := hreplied
        simpa using hexact
    · rintro ⟨hvalid, hremove⟩ reload
      unfold Exact
      simp only [hrun, hremove]
      split
      · exact ⟨_, _, rfl, .inl ⟨rfl, hvalid, rfl⟩⟩
      · exact ⟨cfg, _, rfl, .inr ⟨rfl, by simp, rfl⟩⟩

def service (id : Text) : DeleteResource := ⟨['s', 'e', 'r', 'v', 'i', 'c', 'e'], id⟩

/-- One service, to which nothing refers. -/
def oneService : Config Unit
  | .service => [⟨['s'], ['s'], [], ()⟩]
  | _ => []

/-- A service that is listed twice makes the handler panic; an entry of an unknown type is skipped while the others are
deleted. -/
theorem repeated_entry :
    handleBulkDelete (fun _ => true) oneService (some [service ['s'], service ['s']]) = .panicked ∧
      ∃ cfg' errors, handleBulkDelete (fun _ => true) oneService (some [service ['s'], ⟨['p'], ['s']⟩]) =
        .replied cfg' ⟨200, 1, errors⟩ ∧
        cfg' .service = [] ∧ errors ≠ [] :=
  ⟨rfl, _, [.invalidType 1 ['s'] ['p']], rfl, rfl, by simp⟩

end BulkDelete
