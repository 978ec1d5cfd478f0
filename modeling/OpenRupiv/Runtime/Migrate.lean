import OpenRupiv.Js.Text
import OpenRupiv.Runtime.Db
import Mathlib.Data.List.Sort

/-!
# The migration runner

`packages/runtime/src/migrate.ts`: `applyMigrations` over a database that may fail at any statement
and a process that may stop at any moment.  The text of a migration is opaque; PostgreSQL runs it on
what the application stores.

Over the code stands the machine it is meant to be, whose steps are whole migrations: `Applies`.  A
run of `applyMigrations` is a run of that machine (`ends_applyMigrations`).
-/

namespace OpenRupiv.Runtime.Migrate

open Js Lib

/-- What the application stores, and how PostgreSQL runs the text of a migration on it: `none` when
it is refused.  The text writes neither to `_migrations` nor does it end the transaction. -/
structure Scripts where
  Data : Type
  Choice : Type
  run : Choice → Text → Data → Option Data

structure Database (pg : Scripts) where
  data : pg.Data
  /-- The names in `_migrations`. -/
  migrations : List Text

/-- The migrations directory, as one run finds it. -/
structure Directory where
  /-- `none` when it cannot be read. -/
  entries : Option (List Text)
  content : Text → Option Text

inductive Statement where
  /-- `SELECT name FROM _migrations WHERE name = $1` -/
  | seen (name : Text)
  | script (sql : Text)
  /-- `INSERT INTO _migrations (name) VALUES ($1)`, where `name` is the primary key. -/
  | record (name : Text)

inductive Change (pg : Scripts) where
  | data (d : pg.Data)
  | recorded (name : Text)

inductive Service where
  | readdir
  | readFile (name : Text)
  | info (event : String) (migration : Text) (message : String)

@[reducible] def Statement.Reply : Statement → Type
  | .seen _ => List Text
  | _ => Unit

@[reducible] def Service.Answer : Service → Type
  | .readdir => List Text
  | .readFile _ => Text
  | .info .. => Unit

variable (pg : Scripts) (dir : Directory)

abbrev engine : Engine where
  Contents := Database pg
  Write := Change pg
  Lock := Empty
  Stmt := Statement
  Reply := Statement.Reply
  Ext := Service
  Answer := Service.Answer
  Choice := Bool × pg.Choice
  fails choice := choice.1
  apply db
    | .data d => { db with data := d }
    | .recorded name => { db with migrations := db.migrations ++ [name] }
  locks _ _ _ := []
  exec choice db
    | .seen name => some (db.migrations.filter (· = name), [])
    | .script sql => (pg.run choice.2 sql db.data).map fun d => ((), [.data d])
    | .record name => if name ∈ db.migrations then none else some ((), [.recorded name])
  answer _
    | .readdir => dir.entries
    | .readFile name => dir.content name
    | .info .. => some ()

/-- What `applyMigrations` throws; the error that caused it is left to `message`. -/
inductive MigrationError where
  | appDir (migrationsDir : Text)
  | migrationFailed (name : Text)
  /-- An error of the file system or of the driver, as it is. -/
  | fault
  deriving DecidableEq

instance : Fault MigrationError := ⟨.fault⟩

def MigrationError.code : MigrationError → Option String
  | .appDir _ => some "ERR_APP_DIR"
  | .migrationFailed _ => some "ERR_MIGRATION_FAILED"
  | .fault => none

/-- The message, given the `errorMessage` of the error that caused it. -/
def MigrationError.message (cause : Text) : MigrationError → Text
  | .appDir migrationsDir =>
      ofString "cannot read migrations directory " ++ migrationsDir ++ ofString ": " ++ cause
  | .migrationFailed name =>
      ofString "migration " ++ name ++ ofString " failed and was rolled back: " ++ cause
  | .fault => cause

/-- `details.migration` -/
def MigrationError.migration : MigrationError → Option Text
  | .migrationFailed name => some name
  | _ => none

abbrev Runner (α : Type) : Type := Prog (Cmd.Reply (E := engine pg dir)) MigrationError α

/-- The names of the migrations among the entries, in the order in which they are applied. -/
def sqlFiles (entries : List Text) : List Text :=
  (entries.filter fun name => (ofString ".sql").isSuffixOf name).insertionSort
    fun name name' => leUnits name name' = true

/-- The body of the transaction: whether the migration was applied. -/
def applying (name sql : Text) : Runner pg dir Bool := do
  let seen : List Text ← Prog.perform (κ := Cmd (engine pg dir)) (.tx (.seen name))
  if seen.length > 0 then
    return false
  Prog.perform (κ := Cmd (engine pg dir)) (.tx (.script sql))
  Prog.perform (κ := Cmd (engine pg dir)) (.tx (.record name))
  return true

/-- One round of the loop. -/
def applyFile (name : Text) : Runner pg dir Bool := do
  let sql : Text ← Prog.perform (κ := Cmd (engine pg dir)) (.ext (.readFile name))
  let outcome : Except MigrationError Bool ← Prog.result (transaction (applying pg dir name sql))
  match outcome with
  | .ok true => do
      Prog.attempt (κ := Cmd (engine pg dir))
        (.ext (.info "migration.applied" name "migration applied"))
      return true
  | .ok false => do
      Prog.attempt (κ := Cmd (engine pg dir))
        (.ext (.info "migration.skipped" name "migration already applied"))
      return false
  | .error _ => .throw (.migrationFailed name)

def applyFiles : List Text → List Text → Runner pg dir (List Text)
  | [], applied => return applied
  | name :: rest, applied => do
      let didApply ← applyFile pg dir name
      applyFiles rest (if didApply then applied ++ [name] else applied)

def applyMigrations (migrationsDir : Text) : Runner pg dir (List Text) := do
  let read : Except MigrationError (List Text) ← Prog.result
    (Prog.perform (κ := Cmd (engine pg dir)) (.ext .readdir))
  match read with
  | .error _ => .throw (.appDir migrationsDir)
  | .ok entries => applyFiles pg dir (sqlFiles entries) []

/-- The migrations of the directory that are not recorded yet are applied and recorded, one after
the other. -/
inductive Applies : Database pg → List Text → Database pg → Prop where
  | nil {db} : Applies db [] db
  | cons {db name sql choice d rest db'} : name ∉ db.migrations → dir.content name = some sql →
      pg.run choice sql db.data = some d → Applies ⟨d, db.migrations ++ [name]⟩ rest db' →
      Applies db (name :: rest) db'

variable {pg dir} {db db₁ db' : Database pg} {names names' : List Text}

theorem Applies.append (h : Applies pg dir db names db₁) (h' : Applies pg dir db₁ names' db') :
    Applies pg dir db (names ++ names') db' := by
  induction h with
  | nil => exact h'
  | cons hnew hsql hrun _ ih => exact .cons hnew hsql hrun (ih h')

theorem Applies.migrations_eq (h : Applies pg dir db names db') :
    db'.migrations = db.migrations ++ names := by
  induction h with
  | nil => exact (List.append_nil _).symm
  | cons _ _ _ _ ih => rw [ih, List.append_assoc, List.singleton_append]

/-- The names among the files that are not recorded, each once. -/
def fresh (recorded : List Text) : List Text → List Text
  | [] => []
  | name :: rest =>
      if name ∈ recorded then fresh recorded rest else name :: fresh (recorded ++ [name]) rest

theorem fresh_append (recorded files files' : List Text) :
    fresh recorded (files ++ files') =
      fresh recorded files ++ fresh (recorded ++ fresh recorded files) files' := by
  induction files generalizing recorded with
  | nil => simp [fresh]
  | cons name rest ih =>
    by_cases h : name ∈ recorded
    · simp only [List.cons_append, fresh, h, if_true, ih]
    · simp only [List.cons_append, fresh, h, if_false, ih, List.append_assoc, List.nil_append]

theorem mem_fresh {recorded files : List Text} {name : Text} :
    name ∈ fresh recorded files ↔ name ∈ files ∧ name ∉ recorded := by
  induction files generalizing recorded with
  | nil => simp [fresh]
  | cons file rest ih =>
    by_cases h : file ∈ recorded
    · simp only [fresh, h, if_true, ih, List.mem_cons]
      grind
    · simp only [fresh, h, if_false, List.mem_cons, ih, List.mem_append, List.not_mem_nil]
      grind

theorem fresh_sublist (recorded files : List Text) : (fresh recorded files).Sublist files := by
  induction files generalizing recorded with
  | nil => exact List.Sublist.slnil
  | cons name rest ih =>
    unfold fresh
    split
    · exact (ih _).cons _
    · exact (ih _).cons_cons _

theorem nodup_fresh (recorded files : List Text) : (fresh recorded files).Nodup := by
  induction files generalizing recorded with
  | nil => exact List.nodup_nil
  | cons name rest ih =>
    unfold fresh
    split
    · exact ih _
    · refine List.nodup_cons.mpr ⟨fun h => ?_, ih _⟩
      exact (mem_fresh.mp h).2 (by simp)

/-- After the transaction of a migration: it is recorded, and was applied if it was not; when the
transaction did not return, it may not have happened at all. -/
def Tried (pg : Scripts) (dir : Directory) (db : Database pg) (name : Text) :
    Ending MigrationError Bool → Database pg → Session (Change pg) → Prop
  | .returned didApply, db', σ => σ = .closed ∧ didApply = decide (name ∉ db.migrations) ∧
      Applies pg dir db (fresh db.migrations [name]) db'
  | _, db', _ => db' = db ∨ Applies pg dir db (fresh db.migrations [name]) db'

theorem length_rows_pos {name : Text} :
    (db.migrations.filter (· = name)).length > 0 ↔ name ∈ db.migrations := by
  simp [List.length_pos_iff, List.filter_eq_nil_iff]

theorem ends_applying {name sql : Text} (hsql : dir.content name = some sql) :
    Ends (E := engine pg dir) (Tried pg dir db name) (transaction (applying pg dir name sql)) db
      .closed := by
  apply ends_transaction
  case hcrashed => exact fun _ => .inl rfl
  case hthrew => exact fun _ _ => .inl rfl
  unfold applying
  rw [ends_bind]
  apply ends_tx (E := engine pg dir) (s := .seen name) rfl fun _ => rfl
  intro choice seen more hexec
  obtain ⟨rfl, rfl⟩ := Prod.mk.inj (Option.some.inj hexec)
  rw [proceeds_returned, Engine.applyAll_nil, List.append_nil]
  by_cases hseen : name ∈ db.migrations
  · have hnone : fresh db.migrations [name] = [] := by simp [fresh, hseen]
    have hdone : Tried pg dir db name (.returned false) db .closed :=
      ⟨rfl, by simp [hseen], by rw [hnone]; exact .nil⟩
    rw [if_pos (length_rows_pos.mpr hseen), ends_pure]
    exact ⟨rfl, [], rfl, hdone, fun _ => .inl rfl, fun _ => .inl rfl⟩
  · have hone : fresh db.migrations [name] = [name] := by simp [fresh, hseen]
    rw [if_neg (length_rows_pos.not.mpr hseen), ends_bind]
    apply ends_tx (E := engine pg dir) (s := .script sql) rfl fun _ => rfl
    intro choice reply more hexec
    obtain ⟨d, hrun, hd⟩ := Option.map_eq_some_iff.mp hexec
    obtain ⟨rfl, rfl⟩ := Prod.mk.inj hd
    rw [proceeds_returned, ends_bind]
    apply ends_tx (E := engine pg dir) (s := .record name) rfl fun _ => rfl
    intro choice' reply' more hexec'
    obtain ⟨-, hrecorded⟩ := Option.ite_none_left_eq_some.mp hexec'
    obtain ⟨rfl, rfl⟩ := Prod.mk.inj (Option.some.inj hrecorded)
    have happlied :
        Applies pg dir db (fresh db.migrations [name]) ⟨d, db.migrations ++ [name]⟩ := by
      rw [hone]
      exact .cons hseen hsql hrun .nil
    rw [proceeds_returned, ends_pure]
    exact ⟨rfl, _, rfl, ⟨rfl, by simp [hseen], happlied⟩, fun _ => .inr happlied,
      fun _ => .inr happlied⟩

/-- After a round of the loop. -/
def Settled (pg : Scripts) (dir : Directory) (db : Database pg) (name : Text) :
    Ending MigrationError Bool → Database pg → Session (Change pg) → Prop
  | .threw e, db', _ => e = .fault ∧ db' = db ∨
      e = .migrationFailed name ∧ (db' = db ∨ Applies pg dir db (fresh db.migrations [name]) db')
  | o, db', σ => Tried pg dir db name o db' σ

theorem ends_applyFile (name : Text) :
    Ends (E := engine pg dir) (Settled pg dir db name) (applyFile pg dir name) db .closed := by
  unfold applyFile
  rw [ends_bind]
  apply ends_ext (E := engine pg dir) (x := .readFile name) (.inl rfl) (.inl ⟨rfl, rfl⟩)
  intro choice sql hsql
  rw [proceeds_returned, ends_bind, ends_result]
  apply (ends_applying hsql).mono
  intro o db' σ htried
  cases o with
  | crashed => exact htried
  | threw e => exact .inr ⟨rfl, htried⟩
  | returned didApply =>
    obtain ⟨rfl, hdid, happlies⟩ := htried
    have hreturned : Settled pg dir db name (.returned didApply) db' .closed :=
      ⟨rfl, hdid, happlies⟩
    cases didApply with
    | true =>
      rw [caught_returned, proceeds_returned, ends_bind]
      exact ends_notify (.inr happlies) hreturned
    | false =>
      rw [caught_returned, proceeds_returned, ends_bind]
      exact ends_notify (.inr happlies) hreturned

/-- What an ending says, with the files that are done, those that are left, and what was applied. -/
def Says (done rest new : List Text) : Ending MigrationError (List Text) → Prop
  | .returned names => names = new ∧ rest = []
  | .threw (.migrationFailed name) => rest.head? = some name ∨ done.getLast? = some name
  | .threw .fault => rest ≠ []
  | .threw (.appDir _) | .crashed => True

/-- A run has come to the end of `done`. -/
def Reached (pg : Scripts) (dir : Directory) (db : Database pg) (files applied : List Text)
    (o : Ending MigrationError (List Text)) (db' : Database pg) (_ : Session (Change pg)) : Prop :=
  ∃ done rest, files = done ++ rest ∧ Applies pg dir db (fresh db.migrations done) db' ∧
    Says done rest (applied ++ fresh db.migrations done) o

theorem reached_here {files applied : List Text} {o : Ending MigrationError (List Text)}
    {σ : Session (Change pg)} (h : Says [] files applied o) :
    Reached pg dir db files applied o db σ :=
  ⟨[], files, rfl, .nil, by simpa [fresh] using h⟩

theorem reached_next {name : Text} {rest applied applied' : List Text}
    {o : Ending MigrationError (List Text)} {σ : Session (Change pg)}
    (happlies : Applies pg dir db (fresh db.migrations [name]) db₁)
    (happlied : applied' = applied ++ fresh db.migrations [name])
    (h : Reached pg dir db₁ rest applied' o db' σ) :
    Reached pg dir db (name :: rest) applied o db' σ := by
  obtain ⟨done, left, hfiles, hrest, hsays⟩ := h
  have hfresh : fresh db.migrations (name :: done) =
      fresh db.migrations [name] ++ fresh db₁.migrations done := by
    rw [happlies.migrations_eq, ← fresh_append, List.singleton_append]
  refine ⟨name :: done, left, by rw [hfiles, List.cons_append], ?_, ?_⟩
  · rw [hfresh]
    exact happlies.append hrest
  · rw [hfresh, ← List.append_assoc, ← happlied]
    cases o with
    | returned names => exact hsays
    | crashed => exact trivial
    | threw e =>
      cases e with
      | fault => exact hsays
      | appDir migrationsDir => exact trivial
      | migrationFailed failing =>
        refine hsays.imp id fun hlast => ?_
        rw [List.getLast?_cons, hlast]
        rfl

theorem ends_applyFiles (files applied : List Text) :
    Ends (E := engine pg dir) (Reached pg dir db files applied) (applyFiles pg dir files applied) db
      .closed := by
  induction files generalizing db applied with
  | nil => exact reached_here ⟨rfl, rfl⟩
  | cons name rest ih =>
    unfold applyFiles
    rw [ends_bind]
    apply (ends_applyFile name).mono
    intro o db₁ σ hsettled
    cases o with
    | crashed =>
      rcases hsettled with rfl | happlies
      · exact reached_here (σ := σ) trivial
      · exact reached_next happlies rfl (reached_here (σ := σ) trivial)
    | threw e =>
      rcases hsettled with ⟨rfl, rfl⟩ | ⟨rfl, rfl | happlies⟩
      · exact reached_here (σ := σ) (List.cons_ne_nil _ _)
      · exact reached_here (σ := σ) (.inl rfl)
      · exact ⟨[name], rest, rfl, happlies, .inr rfl⟩
    | returned didApply =>
      obtain ⟨rfl, rfl, happlies⟩ := hsettled
      rw [proceeds_returned]
      apply (ih _).mono
      intro o db' σ hreached
      refine reached_next happlies ?_ hreached
      by_cases hseen : name ∈ db.migrations
      · simp [hseen, fresh]
      · simp [hseen, fresh]

/-- The migrations of a directory, in the order in which they are applied. -/
def Directory.files (dir : Directory) : List Text :=
  sqlFiles (dir.entries.getD [])

/-- A run of `applyMigrations` is a run of the machine that applies whole migrations. -/
theorem ends_applyMigrations (migrationsDir : Text) :
    Ends (E := engine pg dir) (Reached pg dir db dir.files [])
      (applyMigrations pg dir migrationsDir) db .closed := by
  unfold applyMigrations
  rw [ends_bind, ends_result]
  apply ends_ext (E := engine pg dir) (x := .readdir)
  · exact reached_here (σ := .closed) trivial
  · rw [caught_threw, proceeds_returned]
    exact reached_here (σ := .closed) trivial
  · intro choice entries hentries
    have hfiles : dir.files = sqlFiles entries := by
      unfold Directory.files
      rw [show dir.entries = some entries from hentries, Option.getD_some]
    rw [hfiles, caught_returned, proceeds_returned]
    exact ends_applyFiles _ _

theorem pairwise_files (dir : Directory) :
    dir.files.Pairwise fun name name' => leUnits name name' = true := by
  have : Std.Total fun name name' : Text => leUnits name name' = true :=
    ⟨fun name name' => by simpa using leUnits_total name name'⟩
  have : IsTrans Text fun name name' => leUnits name name' = true := ⟨fun _ _ _ => leUnits_trans⟩
  exact List.pairwise_insertionSort _ _

/-- A run of `applyMigrations` takes the database from `db` to `db'`. -/
def Runs (pg : Scripts) (migrationsDir : Text) (dir : Directory)
    (ending : Ending MigrationError (List Text)) (db db' : Database pg) : Prop :=
  ∃ σ, Executes (E := engine pg dir) (applyMigrations pg dir migrationsDir) db .closed ending db' σ

/-- Something that happens to the database: a run of `applyMigrations`, or the application at work,
which writes what it stores. -/
inductive Event where
  | run (dir : Directory) (ending : Ending MigrationError (List Text))
  | serve

/-- The events since the database was created, and the database after them.  Each run finds the
directory as it is at that time. -/
inductive History (pg : Scripts) (migrationsDir : Text) (start : pg.Data) :
    List Event → Database pg → Prop where
  | start : History pg migrationsDir start [] ⟨start, []⟩
  | run {events db dir ending db'} : History pg migrationsDir start events db →
      Runs pg migrationsDir dir ending db db' →
      History pg migrationsDir start (events ++ [.run dir ending]) db'
  | serve {events db} (d : pg.Data) : History pg migrationsDir start events db →
      History pg migrationsDir start (events ++ [.serve]) { db with data := d }

/-- An entry of the log of everything that has changed what the application stores. -/
inductive Entry where
  | applied (name sql : Text)
  | served

def Entry.applied? : Entry → Option Text
  | .applied name _ => some name
  | .served => none

/-- What is stored is what the log has made of it: every migration of the log has had its effect, in
order, and no other migration has. -/
inductive Unfolds (pg : Scripts) (start : pg.Data) : List Entry → pg.Data → Prop where
  | nil : Unfolds pg start [] start
  | applied {log d choice name sql d'} : Unfolds pg start log d → pg.run choice sql d = some d' →
      Unfolds pg start (log ++ [.applied name sql]) d'
  | served {log d} (d' : pg.Data) : Unfolds pg start log d → Unfolds pg start (log ++ [.served]) d'

/-- The log accounts for the database: for what is stored and for what is recorded. -/
structure Accounts (pg : Scripts) (start : pg.Data) (events : List Event) (db : Database pg)
    (log : List Entry) : Prop where
  unfolds : Unfolds pg start log db.data
  recorded : log.filterMap Entry.applied? = db.migrations
  once : db.migrations.Nodup
  source : ∀ name sql, .applied name sql ∈ log →
    ∃ dir ending, .run dir ending ∈ events ∧ name ∈ dir.files ∧ dir.content name = some sql

variable {start : pg.Data} {events : List Event} {log : List Entry}

theorem Accounts.applies {ending : Ending MigrationError (List Text)}
    (h : Accounts pg start (events ++ [.run dir ending]) db log)
    (happlies : Applies pg dir db names db') (hfiles : ∀ name ∈ names, name ∈ dir.files) :
    ∃ more, Accounts pg start (events ++ [.run dir ending]) db' (log ++ more) := by
  induction happlies generalizing log with
  | nil => exact ⟨[], by rwa [List.append_nil]⟩
  | @cons db name sql choice d rest db' hnew hsql hrun _ ih =>
    rw [List.forall_mem_cons] at hfiles
    have hnext : Accounts pg start (events ++ [.run dir ending]) ⟨d, db.migrations ++ [name]⟩
        (log ++ [.applied name sql]) := by
      refine ⟨h.unfolds.applied hrun, ?_, ?_, ?_⟩
      · rw [List.filterMap_append, h.recorded]
        rfl
      · exact List.nodup_append.mpr ⟨h.once, List.nodup_singleton _, by grind⟩
      · intro name' sql' hmem
        rcases List.mem_append.mp hmem with hmem | hmem
        · exact h.source name' sql' hmem
        · cases List.mem_singleton.mp hmem
          exact ⟨dir, ending, by simp, hfiles.1, hsql⟩
    obtain ⟨more, hmore⟩ := ih hnext hfiles.2
    rw [List.append_assoc] at hmore
    exact ⟨_, hmore⟩

theorem Accounts.mono {event : Event} (h : Accounts pg start events db log) :
    Accounts pg start (events ++ [event]) db log where
  unfolds := h.unfolds
  recorded := h.recorded
  once := h.once
  source name sql hmem := by
    obtain ⟨dir, ending, hrun, hfile⟩ := h.source name sql hmem
    exact ⟨dir, ending, List.mem_append_left _ hrun, hfile⟩

theorem accounts_of_history {migrationsDir : Text}
    (h : History pg migrationsDir start events db) : ∃ log, Accounts pg start events db log := by
  induction h with
  | start => exact ⟨[], .nil, rfl, List.nodup_nil, fun _ _ hmem => absurd hmem List.not_mem_nil⟩
  | @run events db dir ending db' _ hrun ih =>
    obtain ⟨log, hlog⟩ := ih
    obtain ⟨σ, hrun⟩ := hrun
    obtain ⟨done, rest, hfiles, happlies, -⟩ := ends_of_executes (ends_applyMigrations _) hrun
    obtain ⟨more, hmore⟩ := hlog.mono.applies happlies fun name hname => by
      rw [hfiles]
      exact List.mem_append_left _ (mem_fresh.mp hname).1
    exact ⟨log ++ more, hmore⟩
  | @serve events db d _ ih =>
    obtain ⟨log, hlog⟩ := ih
    refine ⟨log ++ [.served], hlog.unfolds.served d, ?_, hlog.once, ?_⟩
    · rw [List.filterMap_append, hlog.recorded]
      exact List.append_nil _
    · intro name sql hmem
      rcases List.mem_append.mp hmem with hmem | hmem
      · exact hlog.mono.source name sql hmem
      · exact absurd (List.mem_singleton.mp hmem) (by simp)

/-- One run: the files of `done` are dealt with, those of `rest` are not, and the run has applied
and recorded the migrations `new`. -/
structure InOrder (pg : Scripts) (dir : Directory) (db db' : Database pg)
    (ending : Ending MigrationError (List Text)) (done rest new : List Text) : Prop where
  files : dir.files = done ++ rest
  applies : Applies pg dir db new db'
  recorded : db'.migrations = db.migrations ++ new
  mem_new : ∀ name, name ∈ new ↔ name ∈ done ∧ name ∉ db.migrations
  ascending : new.Pairwise fun name name' => leUnits name name' = true ∧ name ≠ name'
  returned : ∀ names, ending = .returned names → names = new ∧ rest = []
  /-- Its commit may be reported as failed after it has happened. -/
  failed : ∀ name, ending = .threw (.migrationFailed name) →
    rest.head? = some name ∨ done.getLast? = some name

theorem inOrder_of_runs {migrationsDir : Text} {ending : Ending MigrationError (List Text)}
    (h : Runs pg migrationsDir dir ending db db') :
    ∃ done rest new, InOrder pg dir db db' ending done rest new := by
  obtain ⟨σ, hrun⟩ := h
  obtain ⟨done, rest, hfiles, happlies, hsays⟩ := ends_of_executes (ends_applyMigrations _) hrun
  refine ⟨done, rest, _, hfiles, happlies, happlies.migrations_eq, fun _ => mem_fresh, ?_, ?_, ?_⟩
  · have hsorted : done.Pairwise fun name name' => leUnits name name' = true := by
      have hall := pairwise_files dir
      rw [hfiles] at hall
      exact (List.pairwise_append.mp hall).1
    exact (hsorted.sublist (fresh_sublist _ _)).and (nodup_fresh _ _)
  · rintro names rfl
    exact hsays
  · rintro name rfl
    exact hsays

theorem InOrder.nothing_left {ending : Ending MigrationError (List Text)}
    {done rest new : List Text} (h : InOrder pg dir db db' ending done rest new)
    (hrecorded : dir.files ⊆ db.migrations) : new = [] ∧ db' = db := by
  have hnone : new = [] := by
    rw [List.eq_nil_iff_forall_not_mem]
    intro name hname
    obtain ⟨hdone, hfresh⟩ := (h.mem_new name).mp hname
    apply hfresh (hrecorded _)
    rw [h.files]
    exact List.mem_append_left _ hdone
  subst hnone
  cases h.applies
  exact ⟨rfl, rfl⟩

theorem InOrder.all_recorded {ending : Ending MigrationError (List Text)}
    {done rest new names : List Text} (h : InOrder pg dir db db' ending done rest new)
    (hreturned : ending = .returned names) : dir.files ⊆ db'.migrations := by
  obtain ⟨-, rfl⟩ := h.returned names hreturned
  intro name hname
  rw [h.files, List.append_nil] at hname
  rw [h.recorded, List.mem_append]
  by_cases hseen : name ∈ db.migrations
  · exact .inl hseen
  · exact .inr ((h.mem_new name).mpr ⟨hname, hseen⟩)

/-- Whatever runs have been made, over whatever files, and however they ended: each recorded
migration has been applied once and nothing else has been.  A run applies the files that are not
recorded in order, up to the first that fails, and returns what it recorded; a run that returned
leaves nothing to do. -/
theorem migrations_exactly_once {pg : Scripts} {migrationsDir : Text} {start : pg.Data}
    {events : List Event} {db : Database pg} (h : History pg migrationsDir start events db) :
    (∃ log, Accounts pg start events db log) ∧
    ∀ dir ending db', Runs pg migrationsDir dir ending db db' →
      (∃ done rest new, InOrder pg dir db db' ending done rest new) ∧
      ∀ names, ending = .returned names → ∀ dir' db₂ ending' db₃,
        dir'.files = dir.files → db'.migrations ⊆ db₂.migrations →
        Runs pg migrationsDir dir' ending' db₂ db₃ →
        db₃ = db₂ ∧ ∀ names', ending' = .returned names' → names' = [] := by
  refine ⟨accounts_of_history h, fun dir ending db' hrun => ⟨inOrder_of_runs hrun, ?_⟩⟩
  intro names hreturned dir' db₂ ending' db₃ hfiles hkept hrerun
  obtain ⟨_, _, _, hfirst⟩ := inOrder_of_runs hrun
  obtain ⟨_, _, _, hsecond⟩ := inOrder_of_runs hrerun
  have hall : dir'.files ⊆ db₂.migrations := by
    rw [hfiles]
    exact fun _ hname => hkept (hfirst.all_recorded hreturned hname)
  obtain ⟨rfl, hsame⟩ := hsecond.nothing_left hall
  exact ⟨hsame, fun names' hnames => (hsecond.returned names' hnames).1⟩

private def journal : Scripts where
  Data := List Text
  Choice := Unit
  run _ sql d := some (d ++ [sql])

private def orders : Directory where
  entries := some [ofString "notes.txt", ofString "0001.sql"]
  content _ := some (ofString "CREATE TABLE orders ()")

theorem migrations_exactly_once_returned :
    (∃ log, Accounts journal [] [.run orders (.returned [ofString "0001.sql"])]
      ⟨[ofString "CREATE TABLE orders ()"], [ofString "0001.sql"]⟩ log) ∧
    ∀ dir ending db', Runs journal [] dir ending
        ⟨[ofString "CREATE TABLE orders ()"], [ofString "0001.sql"]⟩ db' →
      (∃ done rest new, InOrder journal dir
        ⟨[ofString "CREATE TABLE orders ()"], [ofString "0001.sql"]⟩ db' ending done rest new) ∧
      ∀ names, ending = .returned names → ∀ dir' db₂ ending' db₃,
        dir'.files = dir.files → db'.migrations ⊆ db₂.migrations →
        Runs journal [] dir' ending' db₂ db₃ →
        db₃ = db₂ ∧ ∀ names', ending' = .returned names' → names' = [] := by
  have hrun : Runs journal [] orders (.returned [ofString "0001.sql"]) ⟨[], []⟩
      ⟨[ofString "CREATE TABLE orders ()"], [ofString "0001.sql"]⟩ := by
    refine ⟨.closed, ?_⟩
    -- the directory and the file
    apply Executes.done (false, ()) rfl
    apply Executes.done (false, ()) rfl
    -- the transaction, from the connection to its release
    apply Executes.done (false, ()) rfl
    apply Executes.done (false, ()) rfl
    apply Executes.done (false, ()) rfl
    apply Executes.done (false, ()) rfl
    apply Executes.done (false, ()) rfl
    apply Executes.done (false, ()) rfl
    apply Executes.done (false, ()) rfl
    -- the log line
    apply Executes.done (false, ()) rfl
    exact .ret
  exact migrations_exactly_once (History.run .start hrun)

end OpenRupiv.Runtime.Migrate
