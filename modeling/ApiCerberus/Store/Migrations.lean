import Mathlib.Data.List.Basic
import Mathlib.Data.Int.Order.Basic
import ApiCerberus.Lib.Text

/-!
# Migrations of the database

`Migrate` (`internal/migrations/migrations.go`) goes through a list of migrations for both dialects and applies those of
its own dialect that are not recorded. `Rollback` takes the first migration of the list with the version that it is
given, whatever its dialect. A migration and its record are one transaction, which a failure undoes (`inTransaction`).

The prefix law (`Lawful.holds_calls`) is about any list in which the versions of a dialect increase, the first migration
with such a version is the one of the dialect, and statements for the rollback undo what they belong to. The list of the
store (`internal/store/store.go`) has these properties because no two of its migrations share a version and none can be
rolled back (`lawful_migrationsList`). A statement is a partial function on schemas, and the calls can fail at every
operation.
-/

namespace Migrations

inductive Dialect
  | sqlite
  | postgres
deriving DecidableEq

/-- A migration for one dialect, or for both. -/
structure Migration where
  version : Int
  statements : List Text
  rollback : List Text
  dialect : Option Dialect

/-- `versions` is `none` as long as its table does not exist. -/
structure Database (σ : Type*) where
  versions : Option (List Int)
  schema : σ

/-- What may fail. -/
inductive Op
  | createTable
  | isApplied (version : Int)
  | begin (version : Int)
  | statement (version : Int) (i : Nat)
  | record (version : Int)
  | commit (version : Int)
  | lastVersion

/-- The migrations that `Migrate` does not skip. -/
def Migration.appliesTo (m : Migration) (d : Dialect) : Bool := m.dialect = none || m.dialect = some d

variable {σ : Type*}

def Database.applied (db : Database σ) (version : Int) : Bool := version ∈ db.versions.getD []

variable (exec : Text → σ → Option σ)

/-- The statements of a transaction, of which number `i` and later ones are left. Blank ones are skipped. -/
def runStatements (fails : Nat → Bool) : Nat → List Text → σ → Option σ
  | _, [], schema => some schema
  | i, stmt :: stmts, schema =>
    if Text.trimSpace stmt = [] then runStatements fails (i + 1) stmts schema
    else if fails i then none
    else (exec stmt schema).bind (runStatements fails (i + 1) stmts)

/-- A transaction with some statements and an update of the table of versions. -/
def inTransaction (fails : Op → Bool) (version : Int) (stmts : List Text) (update : List Int → List Int)
    (db : Database σ) :
    Database σ × Bool :=
  if fails (.begin version) then (db, false)
  else
    match runStatements exec (fun i => fails (.statement version i)) 0 stmts db.schema with
    | none => (db, false)
    | some schema =>
      if fails (.record version) then (db, false)
      else if fails (.commit version) then (db, false)
      else (⟨db.versions.map update, schema⟩, true)

/-- The loop of `Migrate`. -/
def migrateFrom (d : Dialect) (fails : Op → Bool) : List Migration → Database σ → Database σ × Bool
  | [], db => (db, true)
  | m :: ms, db =>
    if !m.appliesTo d then migrateFrom d fails ms db
    else if fails (.isApplied m.version) then (db, false)
    else if db.applied m.version then migrateFrom d fails ms db
    else
      let (db, ok) := inTransaction exec fails m.version m.statements (· ++ [m.version]) db
      if ok then migrateFrom d fails ms db else (db, false)

/-- The migrations that are not recorded, in their order. -/
def migrate (ms : List Migration) (d : Dialect) (fails : Op → Bool) (db : Database σ) : Database σ × Bool :=
  if fails .createTable then (db, false) else migrateFrom exec d fails ms { db with
    versions := some (db.versions.getD []) }

def rollback (ms : List Migration) (fails : Op → Bool) (targetVersion : Int) (db : Database σ) : Database σ × Bool :=
  match ms.find? fun m => m.version = targetVersion with
  | none => (db, false)
  | some m =>
    if fails (.isApplied targetVersion) then (db, false)
    else if !db.applied targetVersion then (db, false)
    else if m.rollback.isEmpty then (db, false)
    else inTransaction exec fails targetVersion m.rollback (List.filter (· ≠ targetVersion)) db

/-- The maximum of no versions is NULL, which cannot be scanned into an `int`. -/
def rollbackLast (ms : List Migration) (fails : Op → Bool) (db : Database σ) : Database σ × Bool :=
  if fails .lastVersion then (db, false)
  else
    match db.versions.bind List.max? with
    | none => (db, false)
    | some lastVersion => rollback exec ms fails lastVersion db

inductive Call
  | migrate (fails : Op → Bool)
  | rollbackLast (fails : Op → Bool)

def Call.run (ms : List Migration) (d : Dialect) (db : Database σ) : Call → Database σ
  | .migrate fails => (Migrations.migrate exec ms d fails db).1
  | .rollbackLast fails => (Migrations.rollbackLast exec ms fails db).1

/-! ## Prefixes -/

/-- Statements that all succeed. -/
def run : List Text → σ → Option σ
  | [], schema => some schema
  | stmt :: stmts, schema => if Text.trimSpace stmt = [] then run stmts schema else (exec stmt schema).bind (run stmts)

/-- The schema after some migrations. -/
def up : List Migration → σ → Option σ
  | [], schema => some schema
  | m :: ms, schema => (run exec m.statements schema).bind (up ms)

/-- The list of a dialect. -/
def listFor (ms : List Migration) (d : Dialect) : List Migration := ms.filter fun m => m.appliesTo d

/-- The migrations `done`, and nothing else, are recorded and were run on an empty database. -/
def Holds (empty : σ) (done : List Migration) (db : Database σ) : Prop :=
  db.versions.getD [] = done.map Migration.version ∧ up exec done empty = some db.schema

structure Lawful (ms : List Migration) (d : Dialect) : Prop where
  increasing : ((listFor ms d).map Migration.version).Pairwise (· < ·)
  first : ∀ m ∈ listFor ms d, ms.find? (fun m' => m'.version = m.version) = some m
  undoes : ∀ m ∈ ms, m.rollback ≠ [] → ∀ before after back : σ,
    run exec m.statements before = some after → run exec m.rollback after = some back → back = before

variable {exec}

theorem run_of_runStatements {fails : Nat → Bool} {schema' : σ} : ∀ (i : Nat) (stmts : List Text) (schema : σ),
    runStatements exec fails i stmts schema = some schema' → run exec stmts schema = some schema'
  | _, [], _, h => h
  | i, stmt :: stmts, schema, h => by
    simp only [runStatements, run] at h ⊢
    split at h
    · rename_i hblank
      rw [if_pos hblank]
      exact run_of_runStatements (i + 1) stmts schema h
    · rename_i hblank
      split at h
      · cases h
      · obtain ⟨mid, hmid, hrest⟩ := Option.bind_eq_some_iff.1 h
        rw [if_neg hblank, hmid]
        exact run_of_runStatements (i + 1) stmts mid hrest

variable (exec) in
/-- A transaction changes nothing or does all its work. -/
theorem inTransaction_cases (fails : Op → Bool) (version : Int) (stmts : List Text) (update : List Int → List Int)
    (db : Database σ) :
    inTransaction exec fails version stmts update db = (db, false) ∨ ∃ schema, run exec stmts db.schema = some schema ∧
      inTransaction exec fails version stmts update db = (⟨db.versions.map update, schema⟩, true) := by
  unfold inTransaction
  split
  · exact .inl rfl
  · split
    · exact .inl rfl
    · rename_i schema hrun
      split
      · exact .inl rfl
      · split
        · exact .inl rfl
        · exact .inr ⟨schema, run_of_runStatements _ _ _ hrun, rfl⟩

theorem up_append : ∀ (ms ms' : List Migration)
    (schema : σ), up exec (ms ++ ms') schema = (up exec ms schema).bind (up exec ms')
  | [], _, _ => rfl
  | m :: ms, ms', schema => by
    simp only [List.cons_append, up, Option.bind_assoc]
    congr 1
    funext mid
    exact up_append ms ms' mid

theorem prefix_cases {α : Type*} {seen done rest : List α} {a : α} (hseen : seen <+: done)
    (hdone : done <+: seen ++ a :: rest) :
    done = seen ∨ seen ++ [a] <+: done := by
  obtain ⟨t, rfl⟩ := hseen
  rw [List.prefix_append_right_inj] at hdone
  cases t with
  | nil => exact .inl (by simp)
  | cons b t =>
    obtain ⟨rfl, -⟩ := List.cons_prefix_cons.1 hdone
    exact .inr ⟨t, by simp⟩

section
variable {ms : List Migration} {d : Dialect} {empty : σ} {fails : Op → Bool}

variable {done : List Migration} {db : Database σ}

theorem Holds.applied_iff (h : Holds exec empty done db) (version : Int) :
    db.applied version = true ↔ ∃ m ∈ done, m.version = version := by
  simp [Database.applied, h.1]

/-- The loop has gone over the migrations `seen` of the dialect, which are all done, and `rest` is left. -/
theorem Holds.migrateFrom (hinc : ((listFor ms d).map Migration.version).Pairwise (· < ·)) :
    ∀ (rest seen : List Migration) {done : List Migration}
    {db : Database σ}, listFor ms d = seen ++ listFor rest d → seen <+: done →
      done <+: listFor ms d → db.versions.isSome → Holds exec empty done db →
      ∃ done', done' <+: listFor ms d ∧ Holds exec empty done' (migrateFrom exec d fails rest db).1
  | [], _, done, _, _, _, hdone, _, h => ⟨done, hdone, h⟩
  | m :: rest, seen, done, db, hlist, hseen, hdone, hsome, h => by
    unfold Migrations.migrateFrom
    split
    · rename_i hskip
      have hfor : listFor (m :: rest) d = listFor rest d := by simp_all [listFor]
      exact Holds.migrateFrom hinc rest seen (hfor ▸ hlist) hseen hdone hsome h
    · rename_i hskip
      have hfor : listFor (m :: rest) d = m :: listFor rest d := by simp_all [listFor]
      rw [hfor] at hlist
      have hnext : listFor ms d = (seen ++ [m]) ++ listFor rest d := by simp [hlist]
      split
      · exact ⟨done, hdone, h⟩
      split
      · -- a recorded migration is among those that are done, and so is everything before it
        rename_i happlied
        refine Holds.migrateFrom hinc rest (seen ++ [m]) hnext ?_ hdone hsome h
        obtain rfl | hmore := prefix_cases hseen (hlist ▸ hdone)
        · obtain ⟨m', hm', hversion⟩ := (h.applied_iff _).1 happlied
          rw [hlist, List.map_append, List.pairwise_append] at hinc
          have hlt := hinc.2.2 m'.version (List.mem_map_of_mem hm') m.version (by simp)
          omega
        · exact hmore
      · rename_i hpending
        obtain rfl | hmore := prefix_cases hseen (hlist ▸ hdone)
        · obtain hundone | ⟨schema, hrun, hdid⟩ :=
            inTransaction_cases exec fails m.version m.statements (· ++ [m.version]) db
          · simp only [hundone]
            exact ⟨done, hdone, h⟩
          · simp only [hdid, if_true]
            have hdone' : done ++ [m] <+: listFor ms d := ⟨listFor rest d, hnext.symm⟩
            have h' : Holds exec empty (done ++ [m]) ⟨db.versions.map (· ++ [m.version]), schema⟩ := by
              obtain ⟨vs, hvs⟩ := Option.isSome_iff_exists.1 hsome
              have hold := h.1
              rw [hvs] at hold
              refine ⟨?_, ?_⟩
              · simpa [hvs] using hold
              · simp [up_append, h.2, up, hrun]
            exact Holds.migrateFrom hinc rest (done ++ [m]) hnext (List.prefix_refl _) hdone' (by simpa using hsome) h'
        · exact (hpending ((h.applied_iff _).2 ⟨m, hmore.subset (by simp), rfl⟩)).elim

theorem Holds.migrate (hinc : ((listFor ms d).map Migration.version).Pairwise (· < ·))
    (hdone : done <+: listFor ms d) (h : Holds exec empty done db) :
    ∃ done', done' <+: listFor ms d ∧ Holds exec empty done' (migrate exec ms d fails db).1 := by
  unfold Migrations.migrate
  split
  · exact ⟨done, hdone, h⟩
  · exact Holds.migrateFrom hinc ms [] (by simp) (by simp) hdone rfl ⟨h.1, h.2⟩

/-- The highest version is that of the last migration. -/
theorem eq_concat_of_max? {v : Int} (hinc : (done.map Migration.version).Pairwise (· < ·))
    (hmax : (done.map Migration.version).max? = some v) : ∃ before m, done = before ++ [m] ∧ m.version = v := by
  obtain ⟨hmem, hle⟩ := List.max?_eq_some_iff.1 hmax
  obtain rfl | ⟨before, m, rfl⟩ := List.eq_nil_or_concat done
  · simp at hmem
  · refine ⟨before, m, by simp, ?_⟩
    have hlast := hle m.version (by simp)
    rw [List.concat_eq_append, List.map_append] at hinc hmem
    obtain hin | hin := List.mem_append.1 hmem
    · have hlt := (List.pairwise_append.1 hinc).2.2 v hin m.version (by simp)
      omega
    · exact (List.mem_singleton.1 hin).symm

/-- A rollback takes the last migration back, or none. -/
theorem Holds.rollbackLast (hlaw : Lawful exec ms d) (hdone : done <+: listFor ms d)
    (h : Holds exec empty done db) :
    ∃ done', done' <+: listFor ms d ∧ Holds exec empty done' (rollbackLast exec ms fails db).1 := by
  have hsame : ∃ done', done' <+: listFor ms d ∧ Holds exec empty done' db := ⟨done, hdone, h⟩
  unfold Migrations.rollbackLast
  split
  · exact hsame
  split
  · exact hsame
  rename_i v hmax
  obtain ⟨vs, hvs, hmax⟩ := Option.bind_eq_some_iff.1 hmax
  have hversions : vs = done.map Migration.version := by simpa [hvs] using h.1
  have hinc : (done.map Migration.version).Pairwise (· < ·) := hlaw.increasing.sublist (hdone.sublist.map _)
  obtain ⟨before, m, rfl, rfl⟩ := eq_concat_of_max? hinc (hversions ▸ hmax)
  have hm : m ∈ listFor ms d := hdone.subset (by simp)
  unfold rollback
  rw [hlaw.first m hm]
  dsimp only
  split
  · exact hsame
  split
  · exact hsame
  split
  · exact hsame
  rename_i hdefined
  obtain hundone | ⟨schema, hrun, hdid⟩ :=
    inTransaction_cases exec fails m.version m.rollback (List.filter (· ≠ m.version)) db
  · rw [hundone]
    exact hsame
  · rw [hdid]
    refine ⟨before, (List.prefix_append before [m]).trans hdone, ?_, ?_⟩
    · have hother : ∀ v ∈ before.map Migration.version, v ≠ m.version := by
        rw [List.map_append] at hinc
        intro v hv
        have hlt := (List.pairwise_append.1 hinc).2.2 v hv m.version (by simp)
        omega
      have hkeep : (before.map Migration.version).filter (· ≠ m.version) = before.map Migration.version :=
        List.filter_eq_self.2 fun v hv => by simpa using hother v hv
      simp only [hvs, hversions, Option.map_some, Option.getD_some, List.map_append, List.filter_append, hkeep]
      simp
    · have hup := h.2
      rw [up_append] at hup
      obtain ⟨schema₀, hbefore, hm'⟩ := Option.bind_eq_some_iff.1 hup
      obtain ⟨schema₁, hstatements, hlast⟩ := Option.bind_eq_some_iff.1 hm'
      cases hlast
      have hback := hlaw.undoes m (List.mem_of_mem_filter hm) (by simpa using hdefined) _ _ _ hstatements hrun
      rw [hbefore, hback]

/-- **Prefix law**: along any calls, each of which may fail at any point, the recorded versions are those of a prefix of
the list of the dialect, and the schema is what this prefix makes of an empty database. -/
theorem Lawful.holds_calls (hlaw : Lawful exec ms d) : ∀ (calls : List Call) {done : List Migration} {db : Database σ},
    done <+: listFor ms d → Holds exec empty done db →
    ∃ done', done' <+: listFor ms d ∧ Holds exec empty done' (calls.foldl (Call.run exec ms d) db)
  | [], done, _, hdone, h => ⟨done, hdone, h⟩
  | call :: calls, _, db, hdone, h => by
    have hstep : ∃ done', done' <+: listFor ms d ∧ Holds exec empty done' (call.run exec ms d db) := by
      cases call with
      | migrate fails => exact h.migrate hlaw.increasing hdone
      | rollbackLast fails => exact h.rollbackLast hlaw hdone
    obtain ⟨done', hdone', h'⟩ := hstep
    exact hlaw.holds_calls calls hdone' h'

end

/-! ## The list of the store -/

/-- Version, dialect and rollback of the migrations, with their SQL as a parameter. -/
def migrationsList (statements : Int → List Text) : List Migration :=
  [⟨1, statements 1, [], none⟩, -- init_core_tables
   ⟨2, statements 2, [], none⟩, -- endpoint_permissions
   ⟨3, statements 3, [], none⟩, -- audit_logs
   ⟨4, statements 4, [], none⟩, -- portal_sessions
   ⟨5, statements 5, [], none⟩, -- playground_templates
   ⟨6, statements 6, [], none⟩, -- webhooks
   ⟨7, statements 7, [], some .sqlite⟩, -- audit_fts5
   ⟨8, statements 8, [], some .postgres⟩] -- audit_tsvector

theorem lawful_migrationsList (exec : Text → σ → Option σ) (statements : Int → List Text) (d : Dialect) :
    Lawful exec (migrationsList statements) d := by
  refine ⟨?_, ?_, ?_⟩
  · cases d <;> simp [listFor, migrationsList, Migration.appliesTo]
  · intro m hm
    cases d <;> simp [listFor, migrationsList, Migration.appliesTo] at hm
    all_goals rcases hm with rfl | rfl | rfl | rfl | rfl | rfl | rfl <;> rfl
  · intro m hm hrollback
    simp only [migrationsList, List.mem_cons, List.not_mem_nil, or_false] at hm
    rcases hm with rfl | rfl | rfl | rfl | rfl | rfl | rfl | rfl <;> exact (hrollback rfl).elim

/-- **Migrations of the store**: for both dialects and every SQL, after any calls of `Migrate` and `RollbackLast` on a
database that was empty, the recorded versions are those of a prefix of the dialect's list and the schema is that of
this prefix. -/
theorem prefix_recorded (exec : Text → σ → Option σ) (statements : Int → List Text) (d : Dialect) (empty : σ)
    (calls : List Call) :
    let db := calls.foldl (Call.run exec (migrationsList statements) d) ⟨none, empty⟩
    ∃ done, done <+: listFor (migrationsList statements) d ∧ db.versions.getD [] = done.map Migration.version ∧
      up exec done empty = some db.schema :=
  (lawful_migrationsList exec statements d).holds_calls calls List.nil_prefix ⟨rfl, rfl⟩

end Migrations
