import Afterlock.Lib.Machine
import Afterlock.Storage.Records

/-!
# The storage in memory

`MemoryStorage`: a dictionary for each kind of record, and the operations on them.  Every
operation runs under the lock of the storage, so that it is one step from store to store; an
operation that raises leaves the store as it was when it raised.
-/

namespace Afterlock

namespace Storage

/-- A job with its position in the order of `enqueue`. -/
structure Entry where
  job : Job
  seq : ℕ

/-- The caps of the storage; `__init__` refuses a cap below one. -/
structure Caps where
  maxCases : ℕ
  maxResults : ℕ
  maxJobs : ℕ
  one_le : 1 ≤ min maxCases (min maxResults maxJobs)

/-- The dictionaries of `MemoryStorage`. -/
structure Store where
  cases : Table CaseRecord.key
  manifests : Table Manifest.manifestId
  /-- The jobs, in the order of the dictionary; no two have one id in a run that draws fresh ids. -/
  jobs : List Entry
  results : Table ResultRecord.resultId
  resultByJob : Table (Prod.fst : String × String → String)

/-- The store of a new `MemoryStorage`. -/
def Store.initial : Store := ⟨∅, ∅, [], ∅, ∅⟩

namespace Store

/-- `self.jobs.get(job_id)`. -/
def job? (s : Store) (jobId : String) : Option Job :=
  (s.jobs.find? fun e => decide (e.job.jobId = jobId)).map Entry.job

/-- Update the job stored under an id. -/
def updateJob (s : Store) (jobId : String) (f : Job → Job) : Store :=
  { s with jobs := s.jobs.map fun e => if e.job.jobId = jobId then { e with job := f e.job } else e }

/-- `self.jobs[job_id] = entry`. -/
def putJob (s : Store) (e : Entry) : Store :=
  if s.jobs.any fun e' => decide (e'.job.jobId = e.job.jobId) then
    { s with jobs := s.jobs.map fun e' => if e'.job.jobId = e.job.jobId then e else e' }
  else { s with jobs := s.jobs ++ [e] }

end Store

namespace Job

/-- `_release`. -/
def release (j : Job) (state : JobState) (error : Option String) : Job :=
  { j with
    state := state
    leaseOwner := none
    leaseExpiresAt := none
    lastError := error.orElse fun _ => j.lastError }

/-- Whether the lease of the job has run out; a job without an expiry date has no lease to
keep. -/
def lapsed (j : Job) (now : Time) : Bool :=
  match j.leaseExpiresAt with
  | some t => decide (t ≤ now)
  | none => true

/-- The job is leased or running and its lease has run out. -/
def expired (j : Job) (now : Time) : Bool := j.state.active && j.lapsed now

/-- The job that `claim` leases to `owner`. -/
def lease (j : Job) (owner : String) (leaseSeconds now : Time) : Job :=
  { j with
    lastError :=
      if j.expired now then
        some ("lease held by " ++ j.leaseOwner.getD "None" ++ " expired; re-queued")
      else j.lastError
    state := .leased
    leaseOwner := some owner
    leaseExpiresAt := some (now + leaseSeconds)
    heartbeatAt := some now
    attempts := j.attempts + 1 }

/-- The job whose lease is extended. -/
def extend (j : Job) (leaseSeconds now : Time) : Job :=
  { j with heartbeatAt := some now, leaseExpiresAt := some (now + leaseSeconds) }

/-- The job for which cancellation is asked. -/
def cancel (j : Job) : Job :=
  if j.state = .queued then { j with state := .cancelled, cancelRequested := true }
  else if j.state.active then { j with cancelRequested := true }
  else j

end Job

namespace MemoryStorage

variable (digest : Json → String) (caps : Caps)

/-! ### Cases -/

/-- `create_case`. -/
def createCase (case : Case) (s : Store) : Except Error Bool × Store :=
  let rec' : CaseRecord := { case with contentHash := digest case.input }
  if s.cases.contains rec'.key then (.ok false, s)
  else if caps.maxCases ≤ s.cases.rows.length then
    (.error (.storageFull ("in-memory case limit (" ++ Text.ofInt caps.maxCases ++ ") reached")), s)
  else (.ok true, { s with cases := s.cases.put rec' })

/-- `get_case`. -/
def getCase (caseId : String) (scope : Scope) (clusterId : Option String) (s : Store) :
    Except Error (Option CaseRecord) :=
  pickCase (s.cases.rows.filter fun c => decide (c.caseId = caseId) && visible scope c.clusterId &&
    (clusterId.isNone || clusterId == some c.clusterId)) caseId

/-- The order of pairs of texts. -/
def lePair (a b : String × String) : Bool := decide (a.1 < b.1 ∨ a.1 = b.1 ∧ a.2 ≤ b.2)

/-- `list_cases`. -/
def listCases (scope : Scope) (s : Store) : List (String × String) :=
  ((s.cases.rows.filter fun c => visible scope c.clusterId).map
    fun c => (c.caseId, c.clusterId)).mergeSort lePair

/-! ### Manifests and results -/

/-- `_put_manifest`. -/
def putManifest (m : Manifest) (s : Store) : Except Error Unit × Store :=
  if !s.cases.contains (m.clusterId, m.caseId) then
    (.error (.keyError "manifest references an unknown case"), s)
  else if s.manifests.contains m.manifestId then (.ok (), s)
  else (.ok (), { s with manifests := s.manifests.put m })

/-- The result of a synchronous analysis. -/
def syncResult (m : Manifest) (result : Json) (rid : String) : ResultRecord where
  resultId := rid
  clusterId := m.clusterId
  caseId := m.caseId
  manifestId := m.manifestId
  jobId := none
  kind := m.kind
  resultVersion := 1
  result := result

/-- `record_analysis`. -/
def recordAnalysis (m : Manifest) (result : Json) (digits : String) (s : Store) :
    Except Error String × Store :=
  if caps.maxResults ≤ s.results.rows.length then
    (.error (.storageFull ("in-memory result limit (" ++ Text.ofInt caps.maxResults ++ ") reached")),
      s)
  else
    match putManifest m s with
    | (.error e, s') => (.error e, s')
    | (.ok _, s') =>
      match resultPrefix m.kind with
      | none => (.error (.keyError m.kind), s')
      | some p =>
        let rid := newId p digits
        (.ok rid, { s' with results := s'.results.put (syncResult m result rid) })

/-- `get_analysis`. -/
def getAnalysis (resultId : String) (scope : Scope) (s : Store) :
    Except Error (Option AnalysisView) :=
  match s.results.get? resultId with
  | none => .ok none
  | some r =>
    if r.kind ≠ "analysis" || !visible scope r.clusterId then .ok none
    else
      match s.manifests.get? r.manifestId with
      | none => .error (.keyError r.manifestId)
      | some m =>
        match m.payload.lookup "input" with
        | none => .error (.keyError "input")
        | some input => .ok (some ⟨resultId, r.caseId, r.clusterId, input, r.result⟩)

/-! ### Jobs -/

/-- `_view`: the job with its published result. -/
def view (s : Store) (j : Job) : JobView :=
  let rid := (s.resultByJob.get? j.jobId).map Prod.snd
  publicJob j rid (rid.bind fun r => (s.results.get? r).map ResultRecord.result)

/-- The job that `enqueue` creates. -/
def newJob (m : Manifest) (createdBy : String) (maxAttempts : ℕ) (jid : String) : Job where
  jobId := jid
  clusterId := m.clusterId
  manifestId := m.manifestId
  kind := m.kind
  state := .queued
  leaseOwner := none
  leaseExpiresAt := none
  heartbeatAt := none
  attempts := 0
  maxAttempts := maxAttempts
  cancelRequested := false
  lastError := none
  createdBy := createdBy

/-- `enqueue`. -/
def enqueue (m : Manifest) (createdBy : String) (maxAttempts : ℤ) (digits : String) (s : Store) :
    Except Error JobView × Store :=
  if ¬(1 ≤ maxAttempts ∧ maxAttempts ≤ 10) then
    (.error (.valueError "max_attempts must be in 1..10"), s)
  else if caps.maxJobs ≤ s.jobs.length then
    (.error (.storageFull ("in-memory job limit (" ++ Text.ofInt caps.maxJobs ++ ") reached")), s)
  else
    match putManifest m s with
    | (.error e, s') => (.error e, s')
    | (.ok _, s') =>
      let j := newJob m createdBy maxAttempts.toNat (newId "job" digits)
      let s'' := s'.putJob ⟨j, s'.jobs.length⟩
      (.ok (view s'' j), s'')

/-- `get_job`. -/
def getJob (jobId : String) (scope : Scope) (s : Store) : Option JobView :=
  match s.job? jobId with
  | none => none
  | some j => if visible scope j.clusterId then some (view s j) else none

/-- `cancel_job`. -/
def cancelJob (jobId : String) (scope : Scope) (s : Store) : Option JobView × Store :=
  match s.job? jobId with
  | none => (none, s)
  | some j =>
    if visible scope j.clusterId then
      let s' := s.updateJob jobId Job.cancel
      (some (view s' j.cancel), s')
    else (none, s)

/-- The loop of `claim` over the jobs in the order of `seq`: the job it leases, and the jobs
after it. -/
def claimScan (owner : String) (leaseSeconds : Time) (scope : Scope) (now : Time) :
    List Entry → Option Job × List Entry
  | [] => (none, [])
  | e :: es =>
    let next := claimScan owner leaseSeconds scope now es
    if !visible scope e.job.clusterId then (next.1, e :: next.2)
    else if !(e.job.state = .queued || e.job.expired now) then (next.1, e :: next.2)
    else if e.job.cancelRequested then
      (next.1, { e with job := e.job.release .cancelled none } :: next.2)
    else if e.job.maxAttempts ≤ e.job.attempts then
      (next.1, { e with
        job := e.job.release .failed (some "lease expired and retry budget exhausted") } :: next.2)
    else
      let j := e.job.lease owner leaseSeconds now
      (some j, { e with job := j } :: es)

/-- `claim`. -/
def claim (owner : String) (leaseSeconds : Time) (scope : Scope) (now : Time) (s : Store) :
    Except Error (Option Lease) × Store :=
  let scan := claimScan owner leaseSeconds scope now
    (s.jobs.mergeSort fun a b => decide (a.seq ≤ b.seq))
  let s' := { s with jobs := scan.2 }
  match scan.1 with
  | none => (.ok none, s')
  | some j =>
    match s.manifests.get? j.manifestId with
    | none => (.error (.keyError j.manifestId), s')
    | some m => (.ok (some ⟨j.jobId, j.clusterId, owner, j.kind, j.attempts, m⟩), s')

/-- `_held`: the job of a lease that is the live one. -/
def held (l : Lease) (now : Time) (s : Store) : Option Job :=
  (s.job? l.jobId).filter fun j =>
    decide (j.clusterId = l.clusterId) && j.state.active && (j.leaseOwner == some l.owner) &&
      decide (j.attempts = l.attempt) && !j.lapsed now

/-- `heartbeat`. -/
def heartbeat (l : Lease) (leaseSeconds checked now : Time) (s : Store) :
    HeartbeatStatus × Store :=
  match held l checked s with
  | none => (.lost, s)
  | some j =>
    (if j.cancelRequested then .cancel else .ok,
      s.updateJob l.jobId fun j => j.extend leaseSeconds now)

/-- `mark_running`. -/
def markRunning (l : Lease) (leaseSeconds checked now : Time) (s : Store) :
    HeartbeatStatus × Store :=
  let r := heartbeat l leaseSeconds checked now s
  if r.1 = .lost then r
  else (r.1, r.2.updateJob l.jobId fun j => { j with state := .running })

/-- The result that a worker publishes for a job. -/
def jobResult (j : Job) (m : Manifest) (result : Json) (rid : String) : ResultRecord where
  resultId := rid
  clusterId := j.clusterId
  caseId := m.caseId
  manifestId := m.manifestId
  jobId := some j.jobId
  kind := j.kind
  resultVersion := 1
  result := result

/-- `complete`. -/
def complete (l : Lease) (result : Json) (digits : String) (now : Time) (s : Store) :
    Except Error (Option String) × Store :=
  match held l now s with
  | none => (.ok none, s)
  | some j =>
    if j.cancelRequested || s.resultByJob.contains j.jobId then (.ok none, s)
    else
      match s.manifests.get? j.manifestId with
      | none => (.ok none, s)
      | some m =>
        if !s.cases.contains (m.clusterId, m.caseId) then (.ok none, s)
        else if caps.maxResults ≤ s.results.rows.length then
          -- the publication is refused and the job fails, in place of growing without bound
          (.ok none, s.updateJob l.jobId fun j => j.release .failed
            (some ("in-memory result limit (" ++ Text.ofInt caps.maxResults ++ ") reached")))
        else
          match resultPrefix j.kind with
          | none => (.error (.keyError j.kind), s)
          | some p =>
            let rid := newId p digits
            (.ok (some rid),
              { s.updateJob l.jobId fun j => j.release .succeeded none with
                results := s.results.put (jobResult j m result rid)
                resultByJob := s.resultByJob.put (j.jobId, rid) })

/-- The state in which `fail` leaves a job. -/
def failState (j : Job) (retryable : Bool) : JobState :=
  if j.cancelRequested then .cancelled
  else if retryable && decide (j.attempts < j.maxAttempts) then .queued
  else .failed

/-- `fail`. -/
def fail (l : Lease) (error : String) (retryable : Bool) (now : Time) (s : Store) :
    Option JobState × Store :=
  match held l now s with
  | none => (none, s)
  | some j =>
    (some (failState j retryable),
      s.updateJob l.jobId fun j' => j'.release (failState j retryable) (some error))

/-- `acknowledge_cancel`. -/
def acknowledgeCancel (l : Lease) (now : Time) (s : Store) : Bool × Store :=
  match held l now s with
  | none => (false, s)
  | some j =>
    if j.cancelRequested then
      (true, s.updateJob l.jobId fun j => j.release .cancelled none)
    else (false, s)

/-! ### Calls -/

/-- One call of the storage. -/
def call (s : Store) : Op → Answer × Store
  | .createCase c => (createCase digest caps c s).map (Answer.of .created) id
  | .getCase cid scope cl => (.of .case (getCase cid scope cl s), s)
  | .listCases scope => (.cases (listCases scope s), s)
  | .recordAnalysis m r d =>
      (recordAnalysis caps m r d s).map (Answer.of fun rid => .resultId (some rid)) id
  | .getAnalysis rid scope => (.of .analysis (getAnalysis rid scope s), s)
  | .enqueue m by' n d _ => (enqueue caps m by' n d s).map (Answer.of fun v => .job (some v)) id
  | .getJob jid scope => (.job (getJob jid scope s), s)
  | .cancelJob jid scope => (cancelJob jid scope s).map .job id
  | .claim o secs scope now => (claim o secs scope now s).map (Answer.of .lease) id
  | .markRunning l secs t now => (markRunning l secs t now s).map .status id
  | .heartbeat l secs t now => (heartbeat l secs t now s).map .status id
  | .complete l r d now => (complete caps l r d now s).map (Answer.of .resultId) id
  | .fail l e b now => (fail l e b now s).map .state id
  | .acknowledgeCancel l now => (acknowledgeCancel l now s).map .acknowledged id

end MemoryStorage

end Storage

end Afterlock
