import Afterlock.Storage.Memory

/-!
# The storage in PostgreSQL

`PostgresStorage`: the tables of the migrations with their constraints, and the statements of each
operation.  A statement is a function from the tables that fails where PostgreSQL raises; an
operation is one transaction, so that one that raises leaves the tables as they were.

Two things are PostgreSQL's own and are parameters here: the order of texts under the collation
of the database, and the end of an interval that starts now.
-/

namespace Afterlock

namespace Storage

/-- A row of the table `jobs`. -/
structure JobRow where
  job : Job
  createdAt : Time

/-- The tables of the schema. -/
structure Database where
  cases : Table CaseRecord.key
  manifests : Table Manifest.manifestId
  /-- The rows of `jobs`, in the order in which they were inserted. -/
  jobs : List JobRow
  results : Table ResultRecord.resultId

/-- The database after the migrations. -/
def Database.initial : Database := ⟨∅, ∅, [], ∅⟩

/-- What the storage relies on of the server. -/
structure Server where
  /-- The order of texts under the collation of the database. -/
  collate : String → String → Bool
  /-- `now() + make_interval(secs => s)`, if it is in the range of a timestamp. -/
  interval : Time → Time → Option Time

/-! ### Values and constraints -/

/-- A text that PostgreSQL can store. -/
def storableText (s : String) : Bool := !s.toList.contains '\x00'

mutual
/-- A document that PostgreSQL can store as `jsonb`. -/
def storable : Json → Bool
  | .null | .bool _ | .int _ => true
  | .float t => t != "nan" && t != "inf" && t != "-inf"
  | .str s => storableText s
  | .arr xs => storableElems xs
  | .obj m => storableFields m

/-- The elements of a list. -/
def storableElems : List Json → Bool
  | [] => true
  | x :: xs => storable x && storableElems xs

/-- The fields of a dictionary. -/
def storableFields : List (String × Json) → Bool
  | [] => true
  | (k, v) :: m => storableText k && storable v && storableFields m
end

/-- A lower-case letter or a digit. -/
def lowerDigit (c : Char) : Bool := ('a' ≤ c && c ≤ 'z') || ('0' ≤ c && c ≤ '9')

/-- `case_id ~ '^[a-z0-9][a-z0-9._-]\x7b0,63\x7d$'`. -/
def caseIdOk (s : String) : Bool :=
  match s.toList with
  | [] => false
  | c :: cs => lowerDigit c && decide (cs.length ≤ 63) &&
      cs.all fun d => lowerDigit d || d = '.' || d = '_' || d = '-'

/-- `~ '^sha256:[0-9a-f]\x7b64\x7d$'`. -/
def hashOk (s : String) : Bool :=
  decide (s.toList.take 7 = "sha256:".toList) && decide ((s.toList.drop 7).length = 64) &&
    (s.toList.drop 7).all fun d => ('0' ≤ d && d ≤ '9') || ('a' ≤ d && d ≤ 'f')

/-- `kind IN ('analysis', 'plan', 'verification')`. -/
def kindOk (kind : String) : Bool := (resultPrefix kind).isSome

/-- The constraints on a row of `cases`. -/
def checkCase (c : CaseRecord) : Bool :=
  caseIdOk c.caseId && decide (1 ≤ c.clusterId.length) && decide (c.clusterId.length ≤ 128) &&
    hashOk c.contentHash

/-- The constraints on a row of `analysis_manifests`. -/
def checkManifest (m : Manifest) : Bool := kindOk m.kind && hashOk m.inputHash

/-- The constraints on a row of `jobs`. -/
def checkJob (j : Job) : Bool :=
  kindOk j.kind && decide (1 ≤ j.maxAttempts) && decide (j.maxAttempts ≤ 10) &&
    (j.state.active == (j.leaseOwner.isSome && j.leaseExpiresAt.isSome)) &&
    decide (j.attempts ≤ j.maxAttempts)

namespace Database

/-! ### Statements -/

/-- `INSERT INTO cases … ON CONFLICT (cluster_id, case_id) DO NOTHING`: whether a row was
inserted. -/
def insertCase (c : CaseRecord) (d : Database) : Except Error (Bool × Database) :=
  if !checkCase c then .error (.database "cases: check constraint violated")
  else if d.cases.contains c.key then .ok (false, d)
  else .ok (true, { d with cases := d.cases.put c })

/-- `_put_manifest`: `INSERT INTO analysis_manifests … ON CONFLICT (manifest_id) DO NOTHING`. -/
def putManifest (m : Manifest) (d : Database) : Except Error Database :=
  if !checkManifest m then .error (.database "analysis_manifests: check constraint violated")
  else if d.manifests.contains m.manifestId then .ok d
  else if !d.cases.contains (m.clusterId, m.caseId) then
    .error (.database "analysis_manifests: foreign key constraint violated")
  else .ok { d with manifests := d.manifests.put m }

/-- Whether `analysis_manifests` has a row of the cluster with the id. -/
def hasManifest (d : Database) (clusterId manifestId : String) : Bool :=
  (d.manifests.get? manifestId).any fun m => decide (m.clusterId = clusterId)

/-- `INSERT INTO results`; the flag tells whether the statement ends in
`ON CONFLICT (job_id) DO NOTHING`.  Whether a row was inserted. -/
def insertResult (r : ResultRecord) (ignoreJob : Bool) (d : Database) :
    Except Error (Bool × Database) :=
  if !kindOk r.kind || r.resultVersion < 1 then
    .error (.database "results: check constraint violated")
  else if r.jobId.isSome && d.results.rows.any fun x => decide (x.jobId = r.jobId) then
    if ignoreJob then .ok (false, d)
    else .error (.database "results: unique constraint on job_id violated")
  else if d.results.contains r.resultId then
    .error (.database "results: primary key violated")
  else if !d.hasManifest r.clusterId r.manifestId then
    .error (.database "results: foreign key to analysis_manifests violated")
  else if r.jobId.any fun jid => !d.jobs.any fun row =>
      decide (row.job.jobId = jid) && decide (row.job.clusterId = r.clusterId) then
    .error (.database "results: foreign key to jobs violated")
  else .ok (true, { d with results := d.results.put r })

/-- `INSERT INTO jobs`. -/
def insertJob (row : JobRow) (d : Database) : Except Error Database :=
  if !checkJob row.job then .error (.database "jobs: check constraint violated")
  else if d.jobs.any fun r => decide (r.job.jobId = row.job.jobId) then
    .error (.database "jobs: primary key violated")
  else if !d.hasManifest row.job.clusterId row.job.manifestId then
    .error (.database "jobs: foreign key constraint violated")
  else .ok { d with jobs := d.jobs ++ [row] }

/-- `UPDATE jobs SET … WHERE …`: the updated jobs. -/
def updateJobs (p : Job → Bool) (f : Job → Job) (d : Database) :
    Except Error (List Job × Database) :=
  let updated := (d.jobs.filter fun r => p r.job).map fun r => f r.job
  if updated.all checkJob then
    .ok (updated, { d with jobs := d.jobs.map fun r => if p r.job then { r with job := f r.job } else r })
  else .error (.database "jobs: check constraint violated")

/-- `SELECT … FROM jobs WHERE …`: the first row. -/
def selectJob (p : Job → Bool) (d : Database) : Option Job :=
  (d.jobs.find? fun r => p r.job).map JobRow.job

end Database

namespace PostgresStorage

variable (digest : Json → String) (server : Server)

/-! ### Cases -/

/-- `create_case`. -/
def createCase (case : Case) (d : Database) : Except Error (Bool × Database) :=
  d.insertCase { case with contentHash := digest case.input }

/-- `get_case`. -/
def getCase (caseId : String) (scope : Scope) (clusterId : Option String) (d : Database) :
    Except Error (Option CaseRecord) :=
  let rows := d.cases.rows.filter fun c => decide (c.caseId = caseId) && visible scope c.clusterId &&
    (clusterId.isNone || clusterId == some c.clusterId)
  pickCase ((rows.mergeSort fun a b => server.collate a.clusterId b.clusterId).take 2) caseId

/-- `ORDER BY case_id, cluster_id`. -/
def lePair (a b : String × String) : Bool :=
  if a.1 = b.1 then server.collate a.2 b.2 else server.collate a.1 b.1

/-- `list_cases`. -/
def listCases (scope : Scope) (d : Database) : List (String × String) :=
  ((d.cases.rows.filter fun c => visible scope c.clusterId).map
    fun c => (c.caseId, c.clusterId)).mergeSort (lePair server)

/-! ### Manifests and results -/

/-- `record_analysis`. -/
def recordAnalysis (m : Manifest) (result : Json) (digits : String) (d : Database) :
    Except Error (String × Database) :=
  match resultPrefix m.kind with
  | none => .error (.keyError m.kind)
  | some p => do
    let rid := newId p digits
    let d ← d.putManifest m
    let (_, d) ← d.insertResult (MemoryStorage.syncResult m result rid) false
    .ok (rid, d)

/-- `get_analysis`. -/
def getAnalysis (resultId : String) (scope : Scope) (d : Database) :
    Except Error (Option AnalysisView) :=
  let row := (d.results.get? resultId).bind fun r =>
    if r.kind = "analysis" && visible scope r.clusterId then
      ((d.manifests.get? r.manifestId).filter fun m => decide (m.clusterId = r.clusterId)).map
        fun m => (r, m)
    else none
  match row with
  | none => .ok none
  | some (r, m) =>
    match m.payload.lookup "input" with
    | none => .error (.keyError "input")
    | some input => .ok (some ⟨r.resultId, r.caseId, r.clusterId, input, r.result⟩)

/-! ### Jobs -/

/-- `_job_view`. -/
def jobView (jobId : String) (scope : Scope) (d : Database) : Option JobView :=
  (d.selectJob fun j => decide (j.jobId = jobId) && visible scope j.clusterId).map fun j =>
    let r := d.results.rows.find? fun r =>
      decide (r.jobId = some j.jobId) && decide (r.clusterId = j.clusterId)
    publicJob j (r.map ResultRecord.resultId) (r.map ResultRecord.result)

/-- `enqueue`; the bounds of `max_attempts` are a constraint of the table. -/
def enqueue (m : Manifest) (createdBy : String) (maxAttempts : ℤ) (digits : String) (now : Time)
    (d : Database) : Except Error (JobView × Database) := do
  let jid := newId "job" digits
  let d ← d.putManifest m
  let d ←
    if ¬(1 ≤ maxAttempts ∧ maxAttempts ≤ 10) then
      .error (.database "jobs: check constraint violated")
    else d.insertJob ⟨MemoryStorage.newJob m createdBy maxAttempts.toNat jid, now⟩
  match jobView jid (some {m.clusterId}) d with
  | none => .error (.database "the job is not found")
  | some v => .ok (v, d)

/-- The rows that `cancel_job` updates. -/
def cancellable (jobId : String) (scope : Scope) (j : Job) : Bool :=
  decide (j.jobId = jobId) && visible scope j.clusterId && (j.state = .queued || j.state.active)

/-- What `cancel_job` sets. -/
def cancelled (j : Job) : Job :=
  { j with
    cancelRequested := true
    state := if j.state = .queued then .cancelled else j.state }

/-- `cancel_job`. -/
def cancelJob (jobId : String) (scope : Scope) (d : Database) :
    Except Error (Option JobView × Database) := do
  let (_, d) ← d.updateJobs (cancellable jobId scope) cancelled
  .ok (jobView jobId scope d, d)

/-- `SET state = …, lease_owner = NULL, lease_expires_at = NULL`. -/
def unleased (state : JobState) (j : Job) : Job :=
  { j with state := state, leaseOwner := none, leaseExpiresAt := none }

/-- The same with `last_error = …`. -/
def unleasedWith (state : JobState) (error : String) (j : Job) : Job :=
  { j with state := state, leaseOwner := none, leaseExpiresAt := none, lastError := some error }

/-- What `claim` sets for the job it leases. -/
def leased (owner : String) (ends now : Time) (note : Option String) (j : Job) : Job :=
  { j with
    state := .leased
    leaseOwner := some owner
    leaseExpiresAt := some ends
    heartbeatAt := some now
    attempts := j.attempts + 1
    lastError := note.orElse fun _ => j.lastError }

/-- What `_extend` sets. -/
def extended (ends now : Time) (running : Bool) (j : Job) : Job :=
  { j with
    heartbeatAt := some now
    leaseExpiresAt := some ends
    state := if running then .running else j.state }

/-- `lease_expires_at <= now()`, which a `NULL` is not. -/
def lapsed (j : Job) (now : Time) : Bool := j.leaseExpiresAt.any fun t => decide (t ≤ now)

/-- `lease_expires_at > now()`, which a `NULL` is not. -/
def unlapsed (j : Job) (now : Time) : Bool := j.leaseExpiresAt.any fun t => decide (now < t)

/-- The rows that `claim` may take, in the order in which it takes them. -/
def claimable (scope : Scope) (now : Time) (d : Database) : List JobRow :=
  (d.jobs.filter fun r => visible scope r.job.clusterId &&
    (r.job.state = .queued || r.job.state.active && lapsed r.job now)).mergeSort fun a b =>
      if a.createdAt = b.createdAt then server.collate a.job.jobId b.job.jobId
      else decide (a.createdAt ≤ b.createdAt)

/-- `WHERE job_id = … AND cluster_id = …`. -/
def keyIs (j : Job) (x : Job) : Bool :=
  decide (x.jobId = j.jobId) && decide (x.clusterId = j.clusterId)

/-- The loop of `claim`, each round of which is a transaction; a round takes a job out of the
claimable ones, so that there are no more rounds than jobs. -/
def claimLoop (owner : String) (leaseSeconds : Time) (scope : Scope) (now : Time) :
    ℕ → Database → Except Error (Option Lease) × Database
  | 0, d => (.ok none, d)
  | fuel + 1, d =>
    match (claimable server scope now d).head? with
    | none => (.ok none, d)
    | some row =>
      let j := row.job
      if j.cancelRequested then
        match d.updateJobs (keyIs j) (unleased .cancelled) with
        | .error e => (.error e, d)
        | .ok (_, d') => claimLoop owner leaseSeconds scope now fuel d'
      else if j.maxAttempts ≤ j.attempts then
        match d.updateJobs (keyIs j)
            (unleasedWith .failed "lease expired and retry budget exhausted") with
        | .error e => (.error e, d)
        | .ok (_, d') => claimLoop owner leaseSeconds scope now fuel d'
      else
        let note :=
          if j.state ≠ .queued then
            some ("lease held by " ++ j.leaseOwner.getD "None" ++ " expired; re-queued")
          else none
        match server.interval now leaseSeconds with
        | none => (.error (.database "timestamp out of range"), d)
        | some t =>
          match d.updateJobs (keyIs j) (leased owner t now note) with
          | .error e => (.error e, d)
          | .ok (_, d') =>
            match (d'.manifests.get? j.manifestId).filter fun m =>
                decide (m.clusterId = j.clusterId) with
            | none => (.error (.database "the manifest is not found"), d)
            | some m => (.ok (some ⟨j.jobId, j.clusterId, owner, j.kind, j.attempts + 1, m⟩), d')

/-- `claim`. -/
def claim (owner : String) (leaseSeconds : Time) (scope : Scope) (now : Time) (d : Database) :
    Except Error (Option Lease) × Database :=
  claimLoop server owner leaseSeconds scope now (d.jobs.length + 1) d

/-- The row that the statements with a lease select. -/
def leaseIs (l : Lease) (now : Time) (j : Job) : Bool :=
  decide (j.jobId = l.jobId) && decide (j.clusterId = l.clusterId) &&
    (j.leaseOwner == some l.owner) && decide (j.attempts = l.attempt) && j.state.active &&
    unlapsed j now

/-- `_extend`. -/
def extend (l : Lease) (leaseSeconds : Time) (running : Bool) (now : Time) (d : Database) :
    Except Error (HeartbeatStatus × Database) :=
  match server.interval now leaseSeconds with
  | none => .error (.database "timestamp out of range")
  | some t => do
    let (rows, d) ← d.updateJobs (leaseIs l now) (extended t now running)
    match rows.head? with
    | none => .ok (.lost, d)
    | some j => .ok (if j.cancelRequested then .cancel else .ok, d)

/-- `_lock_held`: the job of the lease with its manifest, where the case of the manifest is
stored. -/
def lockHeld (l : Lease) (now : Time) (d : Database) : Option (Job × Manifest) :=
  (d.selectJob (leaseIs l now)).bind fun j =>
    ((d.manifests.get? j.manifestId).filter fun m =>
      decide (m.clusterId = j.clusterId) && d.cases.contains (m.clusterId, m.caseId)).map
        fun m => (j, m)

/-- `WHERE job_id = … AND cluster_id = …` of a lease. -/
def ofLease (l : Lease) (x : Job) : Bool :=
  decide (x.jobId = l.jobId) && decide (x.clusterId = l.clusterId)

/-- `complete`. -/
def complete (l : Lease) (result : Json) (digits : String) (now : Time) (d : Database) :
    Except Error (Option String × Database) :=
  match resultPrefix l.kind with
  | none => .error (.keyError l.kind)
  | some p =>
    let rid := newId p digits
    match lockHeld l now d with
    | none => .ok (none, d)
    | some (j, m) =>
      if j.cancelRequested then .ok (none, d)
      else do
        let (inserted, d) ← d.insertResult
          ⟨rid, l.clusterId, m.caseId, m.manifestId, some l.jobId, j.kind, 1, result⟩ true
        if !inserted then .ok (none, d)
        else do
          let (_, d) ← d.updateJobs (ofLease l) (unleased .succeeded)
          .ok (some rid, d)

/-- `error[:2000]`. -/
def clip (error : String) : String := String.ofList (error.toList.take 2000)

/-- `fail`. -/
def fail (l : Lease) (error : String) (retryable : Bool) (now : Time) (d : Database) :
    Except Error (Option JobState × Database) :=
  match lockHeld l now d with
  | none => .ok (none, d)
  | some (j, _) => do
    let state : JobState :=
      if j.cancelRequested then .cancelled
      else if retryable && decide (j.attempts < j.maxAttempts) then .queued
      else .failed
    let (_, d) ← d.updateJobs (ofLease l) (unleasedWith state (clip error))
    .ok (some state, d)

/-- `acknowledge_cancel`. -/
def acknowledgeCancel (l : Lease) (now : Time) (d : Database) :
    Except Error (Bool × Database) :=
  match lockHeld l now d with
  | none => .ok (false, d)
  | some (j, _) =>
    if !j.cancelRequested then .ok (false, d)
    else do
      let (_, d) ← d.updateJobs (ofLease l) (unleased .cancelled)
      .ok (true, d)

/-! ### Calls -/

/-- The texts that a scope passes. -/
def scopeStorable (scope : Scope) : Bool :=
  match scope with
  | none => true
  | some clusters => decide (∀ c ∈ clusters, storableText c = true)

/-- Whether PostgreSQL can store every value that a call passes to it. -/
def opStorable : Op → Bool
  | .createCase c => storableText c.caseId && storableText c.clusterId && storable c.input &&
      storable c.diagnostics
  | .getCase cid scope cl => storableText cid && scopeStorable scope && cl.all storableText
  | .listCases scope => scopeStorable scope
  | .recordAnalysis m r _ => manifestStorable m && storable r
  | .getAnalysis rid scope => storableText rid && scopeStorable scope
  | .enqueue m by' _ _ _ => manifestStorable m && storableText by'
  | .getJob jid scope | .cancelJob jid scope => storableText jid && scopeStorable scope
  | .claim owner _ scope _ => storableText owner && scopeStorable scope
  | .markRunning l .. | .heartbeat l .. | .acknowledgeCancel l _ => leaseStorable l
  | .complete l r _ _ => leaseStorable l && storable r
  | .fail l e _ _ => leaseStorable l && storableText (clip e)
where
  manifestStorable (m : Manifest) : Bool :=
    storableText m.manifestId && storableText m.clusterId && storableText m.caseId &&
      storable m.semanticProfile && storableText m.engineVersion && storableFields m.payload
  leaseStorable (l : Lease) : Bool :=
    storableText l.jobId && storableText l.clusterId && storableText l.owner

/-- One transaction: it commits, or it raises and is rolled back. -/
def transaction {α : Type} (d : Database) : Except Error (α × Database) → Except Error α × Database
  | .ok (a, d') => (.ok a, d')
  | .error e => (.error e, d)

/-- What a call does once its values are passed. -/
def execute (d : Database) : Op → Answer × Database
  | .createCase c => (transaction d (createCase digest c d)).map (Answer.of .created) id
  | .getCase cid scope cl => (.of .case (getCase server cid scope cl d), d)
  | .listCases scope => (.cases (listCases server scope d), d)
  | .recordAnalysis m r ds =>
      (transaction d (recordAnalysis m r ds d)).map (Answer.of fun rid => .resultId (some rid)) id
  | .getAnalysis rid scope => (.of .analysis (getAnalysis rid scope d), d)
  | .enqueue m by' n ds now =>
      (transaction d (enqueue m by' n ds now d)).map (Answer.of fun v => .job (some v)) id
  | .getJob jid scope => (.job (jobView jid scope d), d)
  | .cancelJob jid scope => (transaction d (cancelJob jid scope d)).map (Answer.of .job) id
  | .claim o secs scope now => (claim server o secs scope now d).map (Answer.of .lease) id
  | .markRunning l secs _ now =>
      (transaction d (extend server l secs true now d)).map (Answer.of .status) id
  | .heartbeat l secs _ now =>
      (transaction d (extend server l secs false now d)).map (Answer.of .status) id
  | .complete l r ds now =>
      (transaction d (complete l r ds now d)).map (Answer.of .resultId) id
  | .fail l e b now => (transaction d (fail l e b now d)).map (Answer.of .state) id
  | .acknowledgeCancel l now =>
      (transaction d (acknowledgeCancel l now d)).map (Answer.of .acknowledged) id

/-- One call of the storage. -/
def call (d : Database) (op : Op) : Answer × Database :=
  if opStorable op then execute digest server d op
  else (.raised (.database "a value cannot be stored"), d)

end PostgresStorage

end Storage

end Afterlock
