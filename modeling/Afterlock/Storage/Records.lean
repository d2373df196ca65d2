import Afterlock.Lib.Table
import Afterlock.Json

/-!
# Records of the storage

The records that both storage backends keep and return: cases, immutable manifests, leased jobs
and results, with the scope of a reader and the view of a job that a reader gets.

Clock readings and lease lengths are rational numbers.  An identifier drawn by `new_id` is the
prefix of its kind followed by the drawn digits, and the digits are an argument of the operation
that draws them.
-/

namespace Afterlock

namespace Storage

/-- A reading of the clock, or a length of time, in seconds. -/
abbrev Time : Type := ℚ

/-- The clusters a caller may see; `none` stands for all of them. -/
abbrev Scope : Type := Option (Finset String)

/-- `_visible`. -/
def visible (scope : Scope) (clusterId : String) : Bool :=
  match scope with
  | none => true
  | some clusters => decide (clusterId ∈ clusters)

@[simp] lemma visible_none (c : String) : visible none c = true := rfl

@[simp] lemma visible_some (S : Finset String) (c : String) :
    visible (some S) c = true ↔ c ∈ S := by
  simp [visible]

/-- `RESULT_PREFIX`, with the kinds `JOB_KINDS` as its keys. -/
def resultPrefix (kind : String) : Option String :=
  if kind = "analysis" then some "an"
  else if kind = "plan" then some "pl"
  else if kind = "verification" then some "vf"
  else none

/-- `new_id` for the drawn digits. -/
def newId (kind digits : String) : String := kind ++ "-" ++ digits

/-- Why an operation raises. -/
inductive Error where
  /-- `StorageFull`: a bounded backend refused a new record. -/
  | storageFull (message : String)
  /-- `AmbiguousCase`: the case id exists in several clusters visible to the caller. -/
  | ambiguousCase (message : String)
  | keyError (message : String)
  | valueError (message : String)
  /-- An error of the database: a constraint was violated or a value cannot be stored. -/
  | database (message : String)
deriving DecidableEq, Repr

/-! ### Cases, manifests and results -/

/-- A case as `create_case` receives it. -/
structure Case where
  caseId : String
  clusterId : String
  input : Json
  diagnostics : Json

/-- A stored case: the case and the digest of its input. -/
structure CaseRecord extends Case where
  contentHash : String

/-- The key of a stored case. -/
def CaseRecord.key (c : CaseRecord) : String × String := (c.clusterId, c.caseId)

/-- A content-addressed, immutable description of the inputs of a computation. -/
structure Manifest where
  manifestId : String
  clusterId : String
  caseId : String
  kind : String
  inputHash : String
  semanticProfile : Json
  engineVersion : String
  payload : Json.Fields

/-- A result; `jobId` is `none` for a synchronous analysis. -/
structure ResultRecord where
  resultId : String
  clusterId : String
  caseId : String
  manifestId : String
  jobId : Option String
  kind : String
  resultVersion : ℕ
  result : Json

/-- What `get_analysis` returns. -/
structure AnalysisView where
  id : String
  caseId : String
  clusterId : String
  input : Json
  result : Json

/-- `_pick_case`: the only match, if there is one. -/
def pickCase (found : List CaseRecord) (caseId : String) : Except Error (Option CaseRecord) :=
  if 1 < found.length then
    .error (.ambiguousCase ("case " ++ Json.quoted caseId ++
      " exists in several of your clusters; pass cluster_id"))
  else .ok found.head?

/-! ### Jobs -/

/-- The states of a job. -/
inductive JobState where
  | queued | leased | running | succeeded | failed | cancelled
deriving DecidableEq, Repr

/-- `state in ("leased", "running")`. -/
def JobState.active : JobState → Bool
  | .leased | .running => true
  | _ => false

/-- `state in TERMINAL`. -/
def JobState.terminal : JobState → Bool
  | .succeeded | .failed | .cancelled => true
  | _ => false

/-- The fields of a job that both backends keep. -/
structure Job where
  jobId : String
  clusterId : String
  manifestId : String
  kind : String
  state : JobState
  leaseOwner : Option String
  leaseExpiresAt : Option Time
  heartbeatAt : Option Time
  attempts : ℕ
  maxAttempts : ℕ
  cancelRequested : Bool
  lastError : Option String
  createdBy : String
deriving DecidableEq, Repr

/-- A lease as `claim` returns it. -/
structure Lease where
  jobId : String
  clusterId : String
  owner : String
  kind : String
  attempt : ℕ
  manifest : Manifest

/-- What a reader gets to see of a job. -/
structure JobView where
  jobId : String
  clusterId : String
  manifestId : String
  kind : String
  state : JobState
  attempts : ℕ
  maxAttempts : ℕ
  cancelRequested : Bool
  lastError : Option String
  resultId : Option String
  result : Option Json

/-- `_public_job`; a result that is `null` is not shown. -/
def publicJob (j : Job) (resultId : Option String) (result : Option Json) : JobView where
  jobId := j.jobId
  clusterId := j.clusterId
  manifestId := j.manifestId
  kind := j.kind
  state := j.state
  attempts := j.attempts
  maxAttempts := j.maxAttempts
  cancelRequested := j.cancelRequested
  lastError := j.lastError
  resultId := resultId
  result :=
    match result with
    | some .null => none
    | r => r

/-- The answer to `heartbeat` and `mark_running`. -/
inductive HeartbeatStatus where
  | ok | cancel | lost
deriving DecidableEq, Repr

/-! ### Operations and answers -/

/-- A call of a storage operation, with the clock readings and the digits of fresh identifiers
that it draws.  `heartbeat` and `mark_running` read the clock twice, the first time to decide
whether the lease is held. -/
inductive Op where
  | createCase (case : Case)
  | getCase (caseId : String) (scope : Scope) (clusterId : Option String)
  | listCases (scope : Scope)
  | recordAnalysis (manifest : Manifest) (result : Json) (digits : String)
  | getAnalysis (resultId : String) (scope : Scope)
  | enqueue (manifest : Manifest) (createdBy : String) (maxAttempts : ℤ) (digits : String)
      (now : Time)
  | getJob (jobId : String) (scope : Scope)
  | cancelJob (jobId : String) (scope : Scope)
  | claim (owner : String) (leaseSeconds : Time) (scope : Scope) (now : Time)
  | markRunning (lease : Lease) (leaseSeconds : Time) (checked now : Time)
  | heartbeat (lease : Lease) (leaseSeconds : Time) (checked now : Time)
  | complete (lease : Lease) (result : Json) (digits : String) (now : Time)
  | fail (lease : Lease) (error : String) (retryable : Bool) (now : Time)
  | acknowledgeCancel (lease : Lease) (now : Time)

/-- The answer to a call. -/
inductive Answer where
  | raised (e : Error)
  | created (b : Bool)
  | case (c : Option CaseRecord)
  /-- The visible cases, as pairs of a case id and a cluster id. -/
  | cases (l : List (String × String))
  | analysis (a : Option AnalysisView)
  | resultId (id : Option String)
  | job (v : Option JobView)
  | lease (l : Option Lease)
  | status (s : HeartbeatStatus)
  | state (s : Option JobState)
  | acknowledged (b : Bool)

/-- The answer of an operation that may raise. -/
def Answer.of {α : Type} (f : α → Answer) : Except Error α → Answer
  | .ok a => f a
  | .error e => .raised e

/-- The lease a call presents. -/
def Op.lease? : Op → Option Lease
  | .markRunning l .. | .heartbeat l .. | .complete l .. | .fail l .. | .acknowledgeCancel l _ =>
      some l
  | _ => none

/-- The manifest a call passes. -/
def Op.manifest? : Op → Option Manifest
  | .recordAnalysis m .. | .enqueue m .. => some m
  | _ => none

/-- The lease an answer hands out. -/
def Answer.lease? : Answer → Option Lease
  | .lease l => l
  | _ => none

/-- The clock readings of a call in memory, in order; only the database dates a new job. -/
def Op.readings : Op → List Time
  | .claim _ _ _ now | .complete _ _ _ now | .fail _ _ _ now | .acknowledgeCancel _ now => [now]
  | .markRunning _ _ checked now | .heartbeat _ _ checked now => [checked, now]
  | _ => []

end Storage

end Afterlock
