import Afterlock.Lib.Machine
import Afterlock.Lib.Text

/-!
# Schema migrations

`migrate.py`: the loader of the migration files, and `apply` as it is run by several migrators at
once, statement by statement.

The database keeps what a transaction has written apart from the tables until the commit, and an
advisory lock until the end of the session that took it.  What the environment chooses comes with
each input: whose turn it is, the time, and whether the next statement fails; after a failure the
transaction has no effect.
-/

namespace Afterlock

namespace Migrations

/-! ### Loading -/

/-- `Migration`. -/
structure Migration where
  version : ℕ
  name : String
  sql : String
  checksum : String
deriving DecidableEq, Repr

/-- A file of the directory. -/
structure Entry where
  name : String
  bytes : ByteArray

/-- Why a directory is not loaded: a `MigrationError` with its text, or a file that is not UTF-8. -/
inductive LoadError where
  | migration (text : String)
  | decode
deriving DecidableEq, Repr

/-- `text.replace("\r\n", "\n")`. -/
def unixLines : List Char → List Char
  | '\r' :: '\n' :: cs => '\n' :: unixLines cs
  | c :: cs => c :: unixLines cs
  | [] => []

/-- `path.suffix == ".sql"`. -/
def isSql (name : String) : Bool :=
  decide (".sql".toList <:+ name.toList) && decide (name.toList.length > 4)

/-- A character of `[a-z0-9_]`. -/
def isNameChar (c : Char) : Bool := c.isLower || c.isDigit || c == '_'

/-- `FILE_RE.match`, on the name of a file whose suffix is `.sql`. -/
def fileName? (name : String) : Option (ℕ × String) :=
  match name.toList with
  | a :: b :: c :: d :: '_' :: rest =>
      let stem := rest.take (rest.length - 4)
      match [a, b, c, d].mapM Text.digitValue? with
      | some ds =>
          if stem ≠ [] ∧ stem.all isNameChar then
            some (ds.foldl (fun n d => 10 * n + d) 0, String.ofList stem)
          else none
      | none => none
  | _ => none

/-- `f"{version:04d}"`. -/
def pad (version : ℕ) : String :=
  String.ofList (List.replicate (4 - (Nat.toDigits 10 version).length) '0') ++ Text.ofInt version

variable (sha256 : String → String)

/-- `"sha256:" + hashlib.sha256(sql.encode()).hexdigest()`. -/
def checksum (sql : String) : String := "sha256:" ++ sha256 sql

/-- The first loop of `load`: the migrations of the files, in their order. -/
def readFiles : List Entry → Except LoadError (List Migration)
  | [] => .ok []
  | e :: es =>
      if isSql e.name then
        match fileName? e.name with
        | none => .error (.migration ("migration file name must be NNNN_name.sql: " ++ e.name))
        | some (version, name) =>
            match String.fromUTF8? e.bytes with
            | none => .error .decode
            | some text =>
                let sql := String.ofList (unixLines text.toList)
                match readFiles es with
                | .error err => .error err
                | .ok migs => .ok (⟨version, name, sql, checksum sha256 sql⟩ :: migs)
      else readFiles es

/-- The second loop of `load`: the first version that is not the expected one. -/
def gap? : ℕ → List Migration → Option LoadError
  | _, [] => none
  | expected, m :: migs =>
      if m.version ≠ expected then
        some (.migration ("migrations must be contiguous from 0001; found " ++ pad m.version ++
          " where " ++ pad expected ++ " was expected"))
      else gap? (expected + 1) migs

/-- `load`, of a directory and the files in it. -/
def load (directory : String) (files : Option (List Entry)) : Except LoadError (List Migration) :=
  match files with
  | none => .error (.migration ("migrations directory not found: " ++ directory))
  | some files =>
      match readFiles sha256 (Text.sortedBy Entry.name files) with
      | .error err => .error err
      | .ok migs =>
          match gap? 1 migs with
          | some err => .error err
          | none => .ok migs

/-- The migrations of a release: what `load` returns. -/
structure Release where
  migrations : List Migration
  contiguous : migrations.map Migration.version = List.range' 1 migrations.length
  checksum_eq : ∀ m ∈ migrations, m.checksum = checksum sha256 m.sql

section

variable {sha256}

lemma checksum_of_readFiles {es : List Entry} {migs : List Migration}
    (h : readFiles sha256 es = .ok migs) : ∀ m ∈ migs, m.checksum = checksum sha256 m.sql := by
  induction es generalizing migs with
  | nil =>
      obtain rfl := Except.ok.inj h
      exact fun m hm => absurd hm List.not_mem_nil
  | cons e es ih =>
      rw [readFiles] at h
      split_ifs at h with hsql
      · cases hname : fileName? e.name with
        | none => simp [hname] at h
        | some p =>
            cases htext : String.fromUTF8? e.bytes with
            | none => simp [hname, htext] at h
            | some text =>
                cases hrest : readFiles sha256 es with
                | error err => simp [hname, htext, hrest] at h
                | ok rest =>
                    simp only [hname, htext, hrest, Except.ok.injEq] at h
                    subst h
                    exact List.forall_mem_cons.2 ⟨rfl, ih hrest⟩
      · exact ih h

lemma versions_of_gap? {n : ℕ} {migs : List Migration} (h : gap? n migs = none) :
    migs.map Migration.version = List.range' n migs.length := by
  induction migs generalizing n with
  | nil => rfl
  | cons m migs ih =>
      rw [gap?] at h
      split_ifs at h with hne
      rw [List.map_cons, List.length_cons, List.range'_succ, ih h, not_not.1 hne]

/-- What `load` returns are the migrations of a release. -/
theorem exists_release_of_load {directory : String} {files : Option (List Entry)}
    {migs : List Migration} (h : load sha256 directory files = .ok migs) :
    ∃ r : Release sha256, r.migrations = migs := by
  cases files with
  | none => simp [load] at h
  | some files =>
      simp only [load] at h
      cases hread : readFiles sha256 (Text.sortedBy Entry.name files) with
      | error err => simp [hread] at h
      | ok migs' =>
          cases hgap : gap? 1 migs' with
          | some err => simp [hread, hgap] at h
          | none =>
              simp only [hread, hgap, Except.ok.injEq] at h
              subst h
              exact ⟨⟨migs', versions_of_gap? hgap, checksum_of_readFiles hread⟩, rfl⟩

end

/-! ### The database -/

/-- A row of `schema_migrations`. -/
structure Row where
  version : ℕ
  name : String
  checksum : String
  appliedAt : String
deriving DecidableEq, Repr

/-- The row that `apply` inserts for a migration. -/
def Migration.row (m : Migration) (now : String) : Row := ⟨m.version, m.name, m.checksum, now⟩

/-- A database: the bookkeeping table with its rows in the order in which they were inserted, and
everything else. -/
structure Database (S : Type*) where
  table : Bool
  rows : List Row
  schema : S

/-- What a statement writes. -/
inductive Effect where
  | table
  | script (sql : String)
  | row (r : Row)

/-- What a statement does to the database, where `exec` is what a script does to the tables that it
is about. -/
def Database.write {S : Type*} (exec : String → S → S) (db : Database S) : Effect → Database S
  | .table => { db with table := true }
  | .script sql => { db with schema := exec sql db.schema }
  | .row r => { db with rows := db.rows ++ [r] }

/-- What a commit does to the database. -/
def Database.commit {S : Type*} (exec : String → S → S) (db : Database S) (work : List Effect) :
    Database S :=
  work.foldl (Database.write exec) db

/-! ### Calls -/

/-- The dictionary of the rows that `applied` returns, in the order of the versions. -/
def applied {S : Type*} (db : Database S) : List Row := Text.sortedBy Row.version db.rows

/-- `{m.version: m for m in migrations}.get(version)`. -/
def known? (migs : List Migration) (version : ℕ) : Option Migration :=
  migs.reverse.find? fun m => decide (m.version = version)

/-- `check`: the text of the error that it raises. -/
def check (migs : List Migration) : List Row → Option String
  | [] => none
  | r :: done =>
      match known? migs r.version with
      | none =>
          some ("database has applied migration " ++ pad r.version ++ "_" ++ r.name ++
            " that is not present in this release")
      | some m =>
          if m.checksum ≠ r.checksum then
            some ("applied migration " ++ pad r.version ++ "_" ++ m.name ++
              " was edited (checksum " ++ r.checksum ++ " != " ++ m.checksum ++
              "); add a new migration instead")
          else check migs done

/-- The loop of `apply` up to the next migration that it runs, and the migrations after it. -/
def pending? (target : Option ℤ) (done : List Row) :
    List Migration → Option (Migration × List Migration)
  | [] => none
  | m :: migs =>
      if m.version ∈ done.map Row.version then pending? target done migs
      else if target.any fun t => decide ((m.version : ℤ) > t) then none
      else some (m, migs)

/-- A call of `apply` with `postgres_lock`. -/
structure Call where
  release : Release sha256
  target : Option ℤ

/-- A migration that a call is about to run or runs: the rows that the call has read, the versions
that it has applied, the migration and those after it. -/
structure Attempt where
  call : Call sha256
  done : List Row
  ran : List ℕ
  migration : Migration
  rest : List Migration

/-- Where a session stands: which statement comes next. -/
inductive Phase where
  | idle
  /-- The lock. -/
  | waiting (c : Call sha256)
  /-- The creation of the bookkeeping table. -/
  | locked (c : Call sha256)
  /-- Its commit. -/
  | created (c : Call sha256)
  /-- The reading of the rows. -/
  | reading (c : Call sha256)
  /-- The script. -/
  | running (a : Attempt sha256)
  /-- The insertion of the row. -/
  | recording (a : Attempt sha256)
  /-- The commit. -/
  | committing (a : Attempt sha256)

/-- A session: where it stands, and what its transaction has written. -/
structure Session where
  phase : Phase sha256
  work : List Effect

/-- How a call ends. -/
inductive Outcome where
  /-- The list of the versions that were applied. -/
  | returned (ran : List ℕ)
  /-- A `MigrationError`. -/
  | refused (text : String)
  /-- The error of a statement before the loop. -/
  | failed (exc : String)
deriving DecidableEq, Repr

/-- What happens to a session. -/
inductive Event where
  | start (c : Call sha256)
  /-- The next statement is executed, at a time. -/
  | go (now : String)
  /-- The next statement fails. -/
  | fail (exc : String)
  /-- The session ends. -/
  | close

variable {sha256}

/-- The text of the error that `apply` raises for a migration that fails. -/
def Attempt.failure (a : Attempt sha256) (exc : String) : String :=
  "migration " ++ pad a.migration.version ++ "_" ++ a.migration.name ++ " failed: " ++ exc

/-- The loop of `apply`, up to its next statement or its end. -/
def loop (c : Call sha256) (done : List Row) (ran : List ℕ) (migs : List Migration) :
    Option Outcome × Phase sha256 :=
  match pending? c.target done migs with
  | none => (some (.returned ran), .idle)
  | some (m, rest) => (none, .running ⟨c, done, ran, m, rest⟩)

/-- The database, the session that holds the lock, and the sessions. -/
structure State (sha256 : String → String) (ι S : Type*) where
  db : Database S
  holder : Option ι
  session : ι → Session sha256

section

variable {ι S : Type*} [DecidableEq ι]

/-- The state with another state of one session. -/
def State.put (σ : State sha256 ι S) (i : ι) (phase : Phase sha256) (work : List Effect) :
    State sha256 ι S :=
  { σ with session := Function.update σ.session i ⟨phase, work⟩ }

/-- The next statement of a session is executed. -/
def State.go (exec : String → S → S) (σ : State sha256 ι S) (i : ι) (now : String) :
    Option Outcome × State sha256 ι S :=
  let work := (σ.session i).work
  match (σ.session i).phase with
  | .idle => (none, σ)
  | .waiting c =>
      if σ.holder = none ∨ σ.holder = some i then
        (none, { σ with holder := some i }.put i (.locked c) work)
      else (none, σ)
  | .locked c => (none, σ.put i (.created c) (work ++ [.table]))
  | .created c => (none, { σ with db := σ.db.commit exec work }.put i (.reading c) [])
  | .reading c =>
      match check c.release.migrations (applied σ.db) with
      | some text => (some (.refused text), σ.put i .idle work)
      | none =>
          let (outcome, phase) := loop c (applied σ.db) [] c.release.migrations
          (outcome, σ.put i phase work)
  | .running a => (none, σ.put i (.recording a) (work ++ [.script a.migration.sql]))
  | .recording a =>
      -- the version is the primary key of the table
      if a.migration.version ∈ σ.db.rows.map Row.version then
        (some (.refused (a.failure "duplicate key")), σ.put i .idle [])
      else (none, σ.put i (.committing a) (work ++ [.row (a.migration.row now)]))
  | .committing a =>
      let (outcome, phase) := loop a.call a.done (a.ran ++ [a.migration.version]) a.rest
      (outcome, { σ with db := σ.db.commit exec work }.put i phase [])

/-- The next statement of a session fails. -/
def State.fail (σ : State sha256 ι S) (i : ι) (exc : String) :
    Option Outcome × State sha256 ι S :=
  match (σ.session i).phase with
  | .idle => (none, σ)
  | .waiting _ | .locked _ | .created _ | .reading _ => (some (.failed exc), σ.put i .idle [])
  | .running a | .recording a | .committing a =>
      (some (.refused (a.failure exc)), σ.put i .idle [])

/-- What happens to the state with a session. -/
def State.step (exec : String → S → S) (σ : State sha256 ι S) :
    ι × Event sha256 → Option Outcome × State sha256 ι S
  | (i, .start c) =>
      match (σ.session i).phase with
      | .idle => (none, σ.put i (.waiting c) (σ.session i).work)
      | _ => (none, σ)
  | (i, .go now) => σ.go exec i now
  | (i, .fail exc) => σ.fail i exc
  | (i, .close) =>
      (none, { σ with holder := if σ.holder = some i then none else σ.holder }.put i .idle [])

/-- The migrators of a database. -/
def migrators (exec : String → S → S) :
    Machine (State sha256 ι S) (ι × Event sha256) (Option Outcome) := ⟨State.step exec⟩

/-- A database without bookkeeping table, and sessions that have made no call. -/
def State.initial (sha256 : String → String) (ι : Type*) {S : Type*} (schema : S) :
    State sha256 ι S where
  db := ⟨false, [], schema⟩
  holder := none
  session := fun _ => ⟨.idle, []⟩

end

end Migrations

end Afterlock
