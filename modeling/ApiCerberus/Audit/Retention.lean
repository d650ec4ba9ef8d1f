import Mathlib.Algebra.Order.Ring.Int
import Mathlib.Data.List.Perm.Basic
import Mathlib.Data.List.Nodup
import ApiCerberus.Lib.Rfc3339
import ApiCerberus.Lib.Text

/-!
# Retention of the audit log

`RunOnce` (`internal/audit/retention.go`) deletes, for each route with a retention of its own and then for all others,
the rows that are older than a cutoff, in batches. With archiving a batch is listed, written to the archive and deleted
by its ids; without, it is deleted by one statement, and a batch that is not full is the last one
(`internal/store/audit_retention.go`). Both loops leave exactly the rows that are not due (`deleteOlderThanWhere_eq`,
`archiveAndDelete_eq`).

`DeleteByIDs` (`audit_repo.go`) trims the ids that it is given. A row whose id begins with a space is therefore listed
again and again, while the row with the trimmed id is deleted in its place (`padded_id`). And a retention is multiplied
out in nanoseconds, which overflows from 106752 days on, so that the cutoff is in the future (`long_retention`).
`runOnce_exact_iff`: nothing else goes wrong.

The loops have fuel; without enough of it they return `none`. `format` is the layout of a cutoff.
-/

namespace Retention

/-- What the deletions look at of a row. -/
structure Entry where
  id : Text
  routeID : Text
  routeName : Text
  createdAt : Text
deriving DecidableEq

/-- `ORDER BY created_at`, which leaves rows of the same time in any order. That no row is lost is all that matters. -/
structure Order where
  arrange : List Entry → List Entry
  perm : ∀ rows, (arrange rows).Perm rows

inductive Event
  | archived (e : Entry)
  | deleted (e : Entry)

/-- The audit table, and what happened to it. -/
structure Tables where
  rows : List Entry
  log : List Event

/-- `LOWER` of SQLite, which leaves what is not ASCII. -/
def lower (t : Text) : Text := t.map Char.toLower

def normalizeRoute (route : Text) : Text := Text.trimSpace (Text.toLower route)

/-- The condition of `ListOlderThanForRoute` and `DeleteOlderThanForRoute`. -/
def onRoute (route : Text) (e : Entry) : Bool :=
  lower e.routeID = normalizeRoute route || lower e.routeName = normalizeRoute route

/-- `buildRouteExclusionCondition`. -/
def offRoutes (routes : List Text) (e : Entry) : Bool :=
  !(routes.filter fun route => normalizeRoute route ≠ []).any fun route => onRoute route e

/-- The statement that deletes the rows with some ids. -/
def Tables.delete (t : Tables) (ids : List Text) : Tables :=
  ⟨t.rows.filter fun e => e.id ∉ ids, t.log ++ (t.rows.filter fun e => e.id ∈ ids).map .deleted⟩

/-- Ids are trimmed, and blank ones dropped. -/
def deleteByIDs (t : Tables) (ids : List Text) : Tables := t.delete ((ids.map Text.trimSpace).filter (· ≠ []))

section
variable (order : Order) (due : Entry → Bool) (batchSize : Nat)

/-- The rows that are due, up to the size of a batch. -/
def select (rows : List Entry) : List Entry := (order.arrange (rows.filter due)).take batchSize

/-- Batch after batch, until one is not full. -/
def deleteOlderThanWhere : Nat → Tables → Option Tables
  | 0, _ => none
  | fuel + 1, t =>
    let t' := t.delete ((select order due batchSize t.rows).map Entry.id)
    let affected := t.rows.length - t'.rows.length
    if affected = 0 then some t'
    else if affected < batchSize then some t'
    else deleteOlderThanWhere fuel t'

/-- The second component is `false` where an error is returned. -/
def archiveAndDelete : Nat → Tables → Option (Tables × Bool)
  | 0, _ => none
  | fuel + 1, t =>
    let entries := select order due batchSize t.rows
    if entries = [] then some (t, true)
    else
      let t := { t with log := t.log ++ entries.map .archived }
      let ids := (entries.map Entry.id).filter fun id => Text.trimSpace id ≠ []
      if ids = [] then some (t, false) else archiveAndDelete fuel (deleteByIDs t ids)

end

/-- `-time.Duration(days) * 24 * time.Hour`. -/
def age (days : Int64) : Int64 := -days * 24 * 3600000000000

def cutoff (now : Int) (days : Int64) : Int := now + (age days).toInt

/-- What `NewRetentionScheduler` builds: routes are normalized and not empty. -/
structure Scheduler where
  retentionDays : Int64
  routeRetentionDays : List (Text × Int64)
  archiveEnabled : Bool
  batchSize : Nat
  normalized : ∀ o ∈ routeRetentionDays, normalizeRoute o.1 = o.1 ∧ o.1 ≠ []
  batch_pos : 0 < batchSize

namespace Scheduler

variable (s : Scheduler) (order : Order) (format : Int → Text) (now : Int)

def older (cutoff : Int) (e : Entry) : Bool := e.createdAt < format cutoff

/-- `deleteWithOptionalArchive`. -/
def deleteWithOptionalArchive (fuel : Nat) (cutoff : Int) (condition : Entry → Bool)
    (t : Tables) : Option (Tables × Bool) :=
  if cutoff = Time.zeroNanos then some (t, false)
  else
    let due := fun e => older format cutoff e && condition e
    if !s.archiveEnabled then (deleteOlderThanWhere order due s.batchSize fuel t).map (·, true)
    else archiveAndDelete order due s.batchSize fuel t

/-- The cutoffs and conditions of a run, one after the other. -/
def phases : List (Int × (Entry → Bool)) :=
  s.routeRetentionDays.map (fun o => (cutoff now o.2, onRoute o.1)) ++
    [(cutoff now s.retentionDays, offRoutes (s.routeRetentionDays.map Prod.fst))]

/-- The routes with a retention of their own come first. -/
def runPhases (fuel : Nat) : List (Int × (Entry → Bool)) → Tables → Option (Tables × Bool)
  | [], t => some (t, true)
  | (cutoff, condition) :: phases, t =>
    match s.deleteWithOptionalArchive order format fuel cutoff condition t with
    | some (t, true) => runPhases fuel phases t
    | result => result

/-- Without a route of its own, the last phase is for all rows. -/
def runOnce (fuel : Nat) (rows : List Entry) : Option (Tables × Bool) :=
  s.runPhases order format fuel (s.phases now) ⟨rows, []⟩

end Scheduler

/-! ## Batches -/

section
variable {order : Order} {due : Entry → Bool} {batchSize : Nat} {t : Tables}

/-- Ids are unique. -/
def Keyed (rows : List Entry) : Prop := (rows.map Entry.id).Nodup

variable {rows : List Entry}

theorem mem_select {e : Entry} (h : e ∈ select order due batchSize rows) : e ∈ rows ∧ due e = true :=
  List.mem_filter.1 ((order.perm _).mem_iff.1 (List.mem_of_mem_take h))

theorem nodup_select (h : Keyed rows) : (select order due batchSize rows).Nodup :=
  ((order.perm _).nodup_iff.2 (h.of_map.filter _)).sublist (List.take_sublist _ _)

/-- An id stands for one row. -/
theorem id_mem_iff {rows picks : List Entry} (h : Keyed rows) (hsub : ∀ p ∈ picks, p ∈ rows)
    {e : Entry} (he : e ∈ rows) :
    e.id ∈ picks.map Entry.id ↔ e ∈ picks := by
  refine ⟨fun hid => ?_, fun hp => List.mem_map_of_mem hp⟩
  obtain ⟨p, hp, heq⟩ := List.mem_map.1 hid
  rwa [← List.inj_on_of_nodup_map h (hsub p hp) he heq]

/-- A batch is deleted without any other row. -/
theorem delete_select (order : Order) (due : Entry → Bool) (batchSize : Nat) (h : Keyed t.rows) :
    (t.delete ((select order due batchSize t.rows).map Entry.id)).rows =
      t.rows.filter fun e => e ∉ select order due batchSize t.rows := by
  refine List.filter_congr fun e he => ?_
  simp only [id_mem_iff h (fun p hp => (mem_select hp).1) he]

theorem keyed_filter (h : Keyed rows) (p : Entry → Bool) : Keyed (rows.filter p) :=
  List.Nodup.sublist (List.filter_sublist.map _) h

/-- Among the rows with `p`, which include those that are due, the rows of a batch are all that is deleted. -/
theorem length_filter_select (h : Keyed rows) {p : Entry → Bool} (hp : ∀ e, due e = true → p e = true) :
    ((rows.filter fun e => e ∉ select order due batchSize rows).filter p).length +
      (select order due batchSize rows).length =
      (rows.filter p).length := by
  have hhit : ((rows.filter p).filter fun e => e ∈ select order due batchSize rows).Perm
      (select order due batchSize rows) := by
    refine (List.perm_ext_iff_of_nodup ((h.of_map.filter _).filter _) (nodup_select h)).2 fun e => ?_
    simp only [List.mem_filter, decide_eq_true_eq]
    exact ⟨fun he => he.2, fun he => ⟨⟨(mem_select he).1, hp e (mem_select he).2⟩, he⟩⟩
  have hsplit := (rows.filter p).length_eq_length_filter_add fun e => decide (e ∈ select order due batchSize rows)
  rw [hhit.length_eq] at hsplit
  rw [List.filter_comm, hsplit, Nat.add_comm]
  simp

/-- What a batch leaves: fewer rows that are due, and all that are not. -/
theorem batch_spec (order : Order) (due : Entry → Bool) (batchSize : Nat) (h : Keyed rows) :
    let picks := select order due batchSize rows
    let left := rows.filter fun e => e ∉ picks
    Keyed left ∧ left.length + picks.length = rows.length ∧
      (left.filter due).length + picks.length = (rows.filter due).length ∧
      (left.filter fun e => !due e) = (rows.filter fun e => !due e) ∧
        picks.length = min batchSize (rows.filter due).length := by
  refine ⟨keyed_filter h _, ?_, length_filter_select h fun _ hd => hd, ?_, ?_⟩
  · simpa using length_filter_select (p := fun _ => true) h fun _ _ => rfl
  · rw [List.filter_filter]
    refine List.filter_congr fun e _ => ?_
    by_cases hp : e ∈ select order due batchSize rows
    · simp [hp, (mem_select hp).2]
    · simp [hp]
  · rw [select, List.length_take, (order.perm _).length_eq]

theorem filter_not_due_eq_self (h : (rows.filter due).length = 0) : (rows.filter fun e => !due e) = rows := by
  refine List.filter_eq_self.2 fun e he => ?_
  have hnil := List.filter_eq_nil_iff.1 (List.length_eq_zero_iff.1 h) e he
  simpa using hnil

/-- The loop that deletes a batch by one statement. -/
theorem deleteOlderThanWhere_eq (order : Order) (hpos : 0 < batchSize) : ∀ (fuel : Nat)
    {t : Tables}, Keyed t.rows → (t.rows.filter due).length < fuel →
    ∃ log, deleteOlderThanWhere order due batchSize fuel t = some ⟨t.rows.filter fun e => !due e, log⟩
  | 0, _, _, hfuel => by omega
  | fuel + 1, t, h, hfuel => by
    obtain ⟨hkeyed, hall, hdue, hkeep, hpicks⟩ := batch_spec order due batchSize h
    have hrows := delete_select order due batchSize h
    -- the statement that leaves nothing due is the last one
    have hlast : (t.rows.filter due).length ≤ batchSize →
        ∃ log, some (t.delete ((select order due batchSize t.rows).map Entry.id)) =
          some (⟨t.rows.filter fun e => !due e, log⟩ : Tables) := by
      intro hle
      rw [← hkeep, filter_not_due_eq_self (by omega), ← hrows]
      exact ⟨_, rfl⟩
    simp only [deleteOlderThanWhere, hrows]
    split
    · exact hlast (by omega)
    split
    · exact hlast (by omega)
    · rw [← hkeep, ← hrows]
      exact deleteOlderThanWhere_eq order hpos fuel (hrows ▸ hkeyed) (by rw [hrows]; omega)

/-- A row is deleted only after it was archived. -/
def Archived (log : List Event) : Prop := ∀ n e, log[n]? = some (.deleted e) → .archived e ∈ log.take n

theorem Archived.append {log more : List Event} (h : Archived log)
    (hmore : ∀ e, .deleted e ∈ more → .archived e ∈ log) :
    Archived (log ++ more) := by
  intro n e hn
  by_cases hlt : n < log.length
  · rw [List.getElem?_append_left hlt] at hn
    rw [List.take_append_of_le_length (Nat.le_of_lt hlt)]
    exact h n e hn
  · have hle : log.length ≤ n := not_lt.1 hlt
    rw [List.getElem?_append_right hle] at hn
    rw [List.take_append, List.take_of_length_le hle]
    exact List.mem_append_left _ (hmore e (List.mem_of_getElem? hn))

/-- `DeleteByIDs` leaves the ids of the rows that are due as they are. -/
def Trimmed (due : Entry → Bool) (rows : List Entry) : Prop :=
  ∀ e ∈ rows, due e = true → Text.trimSpace e.id = e.id ∧ e.id ≠ []

/-- The loop that lists, archives and deletes. -/
theorem archiveAndDelete_eq (order : Order) (hpos : 0 < batchSize) : ∀ (fuel : Nat)
    {t : Tables}, Keyed t.rows → Trimmed due t.rows →
    Archived t.log → (t.rows.filter due).length < fuel →
    ∃ log, archiveAndDelete order due batchSize fuel t = some (⟨t.rows.filter fun e => !due e, log⟩, true) ∧
      Archived log
  | 0, _, _, _, _, hfuel => by omega
  | fuel + 1, t, h, htrim, hlog, hfuel => by
    obtain ⟨hkeyed, hall, hdue, hkeep, hpicks⟩ := batch_spec order due batchSize h
    unfold archiveAndDelete
    by_cases hnil : select order due batchSize t.rows = []
    · rw [hnil, List.length_nil] at hpicks
      rw [if_pos hnil, filter_not_due_eq_self (by omega)]
      exact ⟨t.log, rfl, hlog⟩
    have htrimmed : ∀ id ∈ (select order due batchSize t.rows).map Entry.id, Text.trimSpace id = id ∧ id ≠ [] := by
      intro id hid
      obtain ⟨e, he, rfl⟩ := List.mem_map.1 hid
      exact htrim e (mem_select he).1 (mem_select he).2
    have hids : ((select order due batchSize t.rows).map Entry.id).filter (fun id => Text.trimSpace id ≠ []) =
        (select order due batchSize t.rows).map Entry.id := by
      refine List.filter_eq_self.2 fun id hid => ?_
      simpa [(htrimmed id hid).1] using (htrimmed id hid).2
    have hsame : (((select order due batchSize t.rows).map Entry.id).map Text.trimSpace).filter (· ≠ []) =
        (select order due batchSize t.rows).map Entry.id := by
      rw [List.map_congr_left fun id hid => (htrimmed id hid).1, List.map_id']
      exact List.filter_eq_self.2 fun id hid => by simpa using (htrimmed id hid).2
    simp only [if_neg hnil, hids, List.map_eq_nil_iff, deleteByIDs, hsame]
    generalize ht : Tables.delete ⟨t.rows, t.log ++ (select order due batchSize t.rows).map .archived⟩
      ((select order due batchSize t.rows).map Entry.id) = t'
    have hrows : t'.rows = t.rows.filter fun e => e ∉ select order due batchSize t.rows := by
      rw [← ht]
      exact delete_select order due batchSize h
    have hlog' : Archived t'.log := by
      rw [← ht]
      refine (hlog.append fun e he => by simp at he).append fun e he => ?_
      simp only [List.mem_map, List.mem_filter, Event.deleted.injEq, exists_eq_right, decide_eq_true_eq] at he
      simpa using .inr ((id_mem_iff h (fun p hp => (mem_select hp).1) he.1).1 (by simpa using he.2))
    have hpos' := List.length_pos_of_ne_nil hnil
    obtain ⟨log, hrun, harch⟩ := archiveAndDelete_eq order hpos fuel (t := t') (hrows ▸ hkeyed)
      (fun e he => htrim e (List.mem_of_mem_filter (hrows ▸ he))) hlog' (by rw [hrows]; omega)
    exact ⟨log, by rw [hrun, hrows, hkeep], harch⟩

/-- A row with a space around its id is not deleted, -/
theorem mem_deleteByIDs {e : Entry} (he : e ∈ t.rows) (hpadded : Text.trimSpace e.id ≠ e.id) (ids : List Text) :
    e ∈ (deleteByIDs t ids).rows := by
  refine List.mem_filter.2 ⟨he, ?_⟩
  have hother : e.id ∉ (ids.map Text.trimSpace).filter (· ≠ []) := by
    intro hmem
    obtain ⟨id, -, hid⟩ := List.mem_map.1 (List.mem_of_mem_filter hmem)
    exact hpadded (hid ▸ Text.trim_trim)
  simpa using hother

theorem mem_archiveAndDelete {e : Entry} (hpadded : Text.trimSpace e.id ≠ e.id) : ∀ (fuel : Nat) {t t' : Tables}
    {ok : Bool}, e ∈ t.rows →
    archiveAndDelete order due batchSize fuel t = some (t', ok) → e ∈ t'.rows
  | 0, _, _, _, _, h => by cases h
  | fuel + 1, t, t', ok, he, h => by
    unfold archiveAndDelete at h
    dsimp only at h
    split at h
    · cases h
      exact he
    · split at h
      · cases h
        exact he
      · refine mem_archiveAndDelete hpadded fuel ?_ h
        exact mem_deleteByIDs he hpadded _

/-- and one that is due is listed for ever, unless there is an error. -/
theorem archiveAndDelete_padded {e : Entry} (hpos : 0 < batchSize) (hdue : due e = true)
    (hpadded : Text.trimSpace e.id ≠ e.id) :
    ∀ (fuel : Nat) {t t' : Tables}, e ∈ t.rows → archiveAndDelete order due batchSize fuel t ≠ some (t', true)
  | 0, _, _, _, h => by cases h
  | fuel + 1, t, t', he, h => by
    have hlisted : select order due batchSize t.rows ≠ [] := by
      intro hnil
      have hlen := congrArg List.length hnil
      rw [select, List.length_take, (order.perm _).length_eq, List.length_nil] at hlen
      have := List.length_pos_of_mem (List.mem_filter.2 ⟨he, hdue⟩)
      omega
    unfold archiveAndDelete at h
    dsimp only at h
    rw [if_neg hlisted] at h
    split at h
    · cases h
    · refine archiveAndDelete_padded hpos hdue hpadded fuel ?_ h
      exact mem_deleteByIDs he hpadded _

end

/-! ## A run -/

/-- The time `days` days before `now`. -/
def daysBefore (now : Int) (days : Int64) : Int := now - days.toInt * (24 * 3600 * 10 ^ 9)

theorem cutoff_eq (now : Int) {days : Int64} (hpos : 0 < days)
    (hle : days ≤ 106751) : cutoff now days = daysBefore now days := by
  have hpos' : 0 < days.toInt := by simpa [Int64.lt_iff_toInt_lt] using hpos
  have hle' : days.toInt ≤ 106751 := by simpa [Int64.le_iff_toInt_le] using hle
  have hage : age days = .ofInt (-days.toInt * 24 * 3600000000000) := by
    rw [Int64.ofInt_mul, Int64.ofInt_mul, Int64.ofInt_neg, Int64.ofInt_toInt]
    rfl
  unfold cutoff daysBefore
  rw [hage, Int64.toInt_ofInt_of_le (by omega) (by omega)]
  omega

namespace Scheduler

variable {s : Scheduler} (order : Order) (format : Int → Text) {now : Int}

/-- The retention of the route that a row matches, or the default. -/
def daysOf (s : Scheduler) (e : Entry) : Int64 :=
  ((s.routeRetentionDays.find? fun o => onRoute o.1 e).map Prod.snd).getD s.retentionDays

/-- A row is below its cutoff. -/
def expired (s : Scheduler) (format : Int → Text) (now : Int) (e : Entry) : Bool :=
  older format (daysBefore now (s.daysOf e)) e

/-- Some phase deletes the row. -/
def dueIn (format : Int → Text) (phases : List (Int × (Entry → Bool))) (e : Entry) : Bool :=
  phases.any fun p => older format p.1 e && p.2 e

variable {fuel : Nat} {t : Tables}

theorem deleteWithOptionalArchive_eq {time : Int} (condition : Entry → Bool) (hzero : time ≠ Time.zeroNanos)
    (h : Keyed t.rows) (htrim : s.archiveEnabled = true →
      Trimmed (fun e => older format time e && condition e) t.rows ∧ Archived t.log)
    (hfuel : t.rows.length < fuel) :
    ∃ log, s.deleteWithOptionalArchive order format fuel time condition t =
        some (⟨t.rows.filter fun e => !(older format time e && condition e), log⟩, true) ∧
          (s.archiveEnabled = true → Archived log) := by
  have hdue := Nat.lt_of_le_of_lt (List.length_filter_le (fun e => older format time e && condition e) t.rows) hfuel
  unfold deleteWithOptionalArchive
  rw [if_neg hzero]
  cases harchive : s.archiveEnabled with
  | false =>
    obtain ⟨log, hrun⟩ := deleteOlderThanWhere_eq order s.batch_pos fuel h hdue
    exact ⟨log, by simp [hrun], by simp⟩
  | true =>
    obtain ⟨htrimmed, hlog⟩ := htrim harchive
    obtain ⟨log, hrun, harch⟩ := archiveAndDelete_eq order s.batch_pos fuel h htrimmed hlog hdue
    exact ⟨log, by simp [hrun], fun _ => harch⟩

/-- The phases delete what is due in one of them. -/
theorem runPhases_eq : ∀ {phases : List (Int × (Entry → Bool))} {t : Tables}, (∀ p ∈ phases, p.1 ≠ Time.zeroNanos) →
    Keyed t.rows → (s.archiveEnabled = true → Trimmed (dueIn format phases) t.rows ∧ Archived t.log) →
      t.rows.length < fuel →
    ∃ log, s.runPhases order format fuel phases t = some (⟨t.rows.filter fun e => !dueIn format phases e, log⟩, true) ∧
      (s.archiveEnabled = true → Archived log)
  | [], t, _, _, htrim, _ => ⟨t.log, by simp [runPhases, dueIn], fun harchive => (htrim harchive).2⟩
  | (time, condition) :: phases, t, hzero, h, htrim, hfuel => by
    have hdue : ∀ e, dueIn format ((time, condition) :: phases) e =
      ((older format time e && condition e) || dueIn format phases e) :=
      fun _ => rfl
    obtain ⟨log, hrun, hlog⟩ := deleteWithOptionalArchive_eq order format condition
      (show time ≠ Time.zeroNanos from hzero (time, condition) (by simp)) h
      (fun harchive => ⟨fun e he hd => (htrim harchive).1 e he (by simp only [hdue, hd, Bool.true_or]),
        (htrim harchive).2⟩) hfuel
    simp only [runPhases, hrun]
    have hlen :=
      Nat.lt_of_le_of_lt (List.length_filter_le (fun e => !(older format time e && condition e)) t.rows) hfuel
    obtain ⟨log', hrun', hlog'⟩ :=
      runPhases_eq (t := ⟨t.rows.filter fun e => !(older format time e && condition e), log⟩)
      (fun p (hp : p ∈ phases) => hzero p (by simp [hp])) (keyed_filter h _)
      (fun harchive => ⟨fun e he hd => (htrim harchive).1 e (List.mem_of_mem_filter he)
        (by simp only [hdue, hd, Bool.or_true]), hlog harchive⟩)
      hlen
    refine ⟨log', ?_, hlog'⟩
    rw [hrun', List.filter_filter]
    congr 4
    funext e
    rw [hdue, Bool.not_or, Bool.and_comm]

/-- With archiving, a run over a row that is due and has a space around its id does not end well. -/
theorem runPhases_padded (harchive : s.archiveEnabled = true) {e : Entry} (hpadded : Text.trimSpace e.id ≠ e.id) :
    ∀ {phases : List (Int × (Entry → Bool))} {t t' : Tables}, e ∈ t.rows → dueIn format phases e = true →
      s.runPhases order format fuel phases t ≠ some (t', true)
  | [], _, _, _, hdue, _ => by simp [dueIn] at hdue
  | (time, condition) :: phases, t, t', he, hdue, h => by
    have hrun : ∀ {t₁ : Tables}
      {ok : Bool}, s.deleteWithOptionalArchive order format fuel time condition t = some (t₁, ok) →
        e ∈ t₁.rows ∧ ((older format time e && condition e) = true → ok = false) := by
      intro t₁ ok hfirst
      unfold deleteWithOptionalArchive at hfirst
      split at hfirst
      · cases hfirst
        exact ⟨he, fun _ => rfl⟩
      · simp only [harchive, Bool.not_true, Bool.false_eq_true, if_false] at hfirst
        refine ⟨mem_archiveAndDelete hpadded fuel he hfirst, fun hnow => ?_⟩
        cases ok with
        | false => rfl
        | true => exact absurd hfirst (archiveAndDelete_padded s.batch_pos hnow hpadded fuel he)
    unfold runPhases at h
    split at h
    · rename_i t₁ hfirst
      obtain ⟨he₁, hnow⟩ := hrun hfirst
      have hlater : dueIn format phases e = true :=
        (Bool.or_eq_true_iff.1 hdue).resolve_left fun hd => by cases hnow hd
      exact runPhases_padded harchive hpadded he₁ hlater h
    · rename_i hno
      exact hno t' h

omit s in
/-- With at most one hit of `q`, it is the one that counts. -/
theorem any_and_eq {β : Type*} {l : List β} {p q : β → Bool}
    (hone : ∀ o ∈ l, ∀ o' ∈ l, q o = true → q o' = true → o = o') :
    (l.any fun o => p o && q o) = (l.find? q).any p := by
  cases hfind : l.find? q with
  | none =>
    have hno : ∀ o ∈ l, q o = false := by simpa using List.find?_eq_none.1 hfind
    exact List.any_eq_false.2 fun o ho => by simp [hno o ho]
  | some o =>
    have ho := List.mem_of_find?_eq_some hfind
    have hq := List.find?_some hfind
    rw [Bool.eq_iff_iff, List.any_eq_true, Option.any_some]
    constructor
    · rintro ⟨o', ho', h⟩
      rw [Bool.and_eq_true] at h
      exact hone o ho o' ho' hq h.2 ▸ h.1
    · intro h
      exact ⟨o, ho, by simp [h, hq]⟩

/-- With at most one route of its own for each row, some phase deletes a row exactly if it is below the cutoff of its
phase. -/
theorem dueIn_phases {e : Entry}
    (hone : ∀ o ∈ s.routeRetentionDays, ∀ o' ∈ s.routeRetentionDays, onRoute o.1 e = true →
      onRoute o'.1 e = true → o = o') :
    dueIn format (s.phases now) e = older format (cutoff now (s.daysOf e)) e := by
  have hroutes : offRoutes (s.routeRetentionDays.map Prod.fst) e =
      !(s.routeRetentionDays.find? fun o => onRoute o.1 e).isSome := by
    have hall : (s.routeRetentionDays.map Prod.fst).filter (fun route => normalizeRoute route ≠ []) =
        s.routeRetentionDays.map Prod.fst := by
      refine List.filter_eq_self.2 fun route hr => ?_
      obtain ⟨o, ho, rfl⟩ := List.mem_map.1 hr
      simpa [(s.normalized o ho).1] using (s.normalized o ho).2
    rw [offRoutes, hall, List.any_map, List.isSome_find?]
    rfl
  have hsplit : dueIn format (s.phases now) e =
      ((s.routeRetentionDays.find? fun o => onRoute o.1 e).any (fun o => older format (cutoff now o.2) e) ||
        (older format (cutoff now s.retentionDays) e &&
          !(s.routeRetentionDays.find? fun o => onRoute o.1 e).isSome)) := by
    simp [dueIn, phases, List.any_append, List.any_map, Function.comp_def, hroutes, any_and_eq hone]
  rw [hsplit, daysOf]
  cases s.routeRetentionDays.find? fun o => onRoute o.1 e <;> simp

/-- **Retention**: a run without errors over a table with unique ids ends and leaves exactly the rows that are not
expired, and with archiving no row is deleted before it is archived, iff every row is on the same side of the cutoff
that is computed and of the true one and, with archiving, no row that is expired has a space around its id. -/
theorem runOnce_exact_iff {rows : List Entry} (hkeyed : Keyed rows) (hids : ∀ e ∈ rows, e.id ≠ [])
    (hone : ∀ e ∈ rows, ∀ o ∈ s.routeRetentionDays, ∀ o' ∈ s.routeRetentionDays, onRoute o.1 e = true →
      onRoute o'.1 e = true → o = o')
    (herror : ∀ p ∈ s.phases now, p.1 ≠ Time.zeroNanos) (hfuel : rows.length < fuel) :
    (∃ log, s.runOnce order format now fuel rows = some (⟨rows.filter fun e => !s.expired format now e, log⟩, true) ∧
        (s.archiveEnabled = true → Archived log)) ↔
      (∀ e ∈ rows, older format (cutoff now (s.daysOf e)) e = s.expired format now e) ∧
        (s.archiveEnabled = true → ∀ e ∈ rows, s.expired format now e = true → Text.trimSpace e.id = e.id) := by
  have hrun : (s.archiveEnabled = true → ∀ e ∈ rows, dueIn format (s.phases now) e = true →
    Text.trimSpace e.id = e.id) →
      ∃ log, s.runOnce order format now fuel rows =
        some (⟨rows.filter fun e => !dueIn format (s.phases now) e, log⟩, true) ∧
        (s.archiveEnabled = true → Archived log) := fun htrim =>
    runPhases_eq order format (s := s) (t := ⟨rows, []⟩) herror hkeyed
      (fun harchive => ⟨fun e he hd => ⟨htrim harchive e he hd, hids e he⟩, fun n e hn => by simp at hn⟩) hfuel
  have hdue : ∀ e ∈ rows, dueIn format (s.phases now) e = older format (cutoff now (s.daysOf e)) e :=
    fun e he => dueIn_phases format (hone e he)
  constructor
  · rintro ⟨log, hexact, -⟩
    have htrim : s.archiveEnabled = true → ∀ e ∈ rows, dueIn format (s.phases now) e = true →
        Text.trimSpace e.id = e.id := by
      intro harchive e he hd
      by_contra hpadded
      exact runPhases_padded order format harchive hpadded (t := ⟨rows, []⟩) he hd hexact
    obtain ⟨log', hrun', -⟩ := hrun htrim
    have hsame : ∀ e ∈ rows, older format (cutoff now (s.daysOf e)) e = s.expired format now e := by
      rw [hexact] at hrun'
      intro e he
      have hrows : (rows.filter fun e => !s.expired format now e) = rows.filter fun e =>
          !dueIn format (s.phases now) e := by
        simpa using congrArg (fun r => r.map fun x => x.1.rows) hrun'
      have hmem : e ∈ (rows.filter fun e => !s.expired format now e) ↔
          e ∈ rows.filter fun e => !dueIn format (s.phases now) e := by
        rw [hrows]
      rw [List.mem_filter, List.mem_filter, and_iff_right he, and_iff_right he, hdue e he] at hmem
      exact (Bool.not_inj (Bool.eq_iff_iff.2 hmem)).symm
    exact ⟨hsame, fun harchive e he hexpired => htrim harchive e he (by rw [hdue e he, hsame e he, hexpired])⟩
  · rintro ⟨hsame, htrim⟩
    have hboth : ∀ e ∈ rows, dueIn format (s.phases now) e = s.expired format now e :=
      fun e he => (hdue e he).trans (hsame e he)
    obtain ⟨log, hlog, harch⟩ := hrun fun harchive e he hd => htrim harchive e he (by rw [← hboth e he, hd])
    refine ⟨log, ?_, harch⟩
    rw [hlog, List.filter_congr fun e he => by rw [hboth e he]]

end Scheduler

/-- Rows in the order of the table. -/
def tableOrder : Order := ⟨id, fun _ => .refl _⟩

/-- One default retention, batches of ten. -/
def plainScheduler (days : Int64) (archiveEnabled : Bool) : Scheduler :=
  ⟨days, [], archiveEnabled, 10, by simp, by decide⟩

def row (id : Text) (createdAt : Text) : Entry := ⟨id, ['r'], ['r'], createdAt⟩

/-- Of three rows two are expired, one of them by the retention of its route. -/
theorem runOnce_exact_iff_three_rows :
    let s : Scheduler := ⟨1, [(['x'], 2)], true, 1, by decide, by decide⟩
    let rows := [row ['a'] ['1'], row ['b'] ['9'], { row ['c'] ['2'] with routeID := ['x'] }]
    ∃ log, s.runOnce tableOrder (fun _ => ['5']) 0 4 rows =
      some (⟨rows.filter fun e => !s.expired (fun _ => ['5']) 0 e, log⟩, true) ∧
      (true = true → Archived log) :=
  (Scheduler.runOnce_exact_iff tableOrder (fun _ => ['5']) (by simp [Keyed, row]) (by decide) (by decide)
    (by decide) (by decide)).2
    ⟨by decide, fun _ => by decide⟩

theorem archiveAndDelete_loops : ∀ (fuel : Nat) (log : List Event),
    archiveAndDelete tableOrder (fun e => Scheduler.older (fun _ => ['5']) (cutoff 0 1) e && offRoutes [] e) 10 fuel
      ⟨[row [' ', 'a'] ['1']], log⟩ = none
  | 0, _ => rfl
  | fuel + 1, _ => archiveAndDelete_loops fuel _

/-- The old row `" a"` and the new row `"a"`: the new one is deleted, and the run goes on for ever. -/
theorem padded_id :
    let rows := [row [' ', 'a'] ['1'], row ['a'] ['9']]
    (∀ e ∈ rows, (plainScheduler 1 true).expired (fun _ => ['5']) 0 e = decide (e.id = [' ', 'a'])) ∧
      (deleteByIDs ⟨rows, []⟩ [[' ', 'a']]).rows = [row [' ', 'a'] ['1']] ∧
      ¬ ∃ fuel result, (plainScheduler 1 true).runOnce tableOrder (fun _ => ['5']) 0 fuel rows = some result := by
  refine ⟨by decide, by decide, ?_⟩
  rintro ⟨fuel, result, hrun⟩
  cases fuel with
  | zero => cases hrun
  | succ fuel =>
    -- the first round leaves the old row alone in the table
    have hloop : (plainScheduler 1 true).deleteWithOptionalArchive tableOrder (fun _ => ['5']) (fuel + 1)
      (cutoff 0 1) (offRoutes [])
        ⟨[row [' ', 'a'] ['1'], row ['a'] ['9']], []⟩ = none := archiveAndDelete_loops fuel _
    simp only [Scheduler.runOnce, Scheduler.phases, plainScheduler, Scheduler.runPhases, List.map_nil,
      List.nil_append] at hrun hloop
    rw [hloop] at hrun
    cases hrun

/-- A retention of 106752 days, a little more than 292 years, has a cutoff in the future. -/
theorem long_retention : cutoff 0 106751 = daysBefore 0 106751 ∧ daysBefore 0 106752 < 0 ∧ 0 < cutoff 0 106752 :=
  by decide

end Retention
