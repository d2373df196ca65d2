import Afterlock.Storage.Fencing
import Afterlock.Storage.Consistency

/-!
# Workers

`runner.py`: executions of `process_one` on one storage, call by call.  Between two calls of an
execution the others go on, jobs are cancelled and the clock advances; while the executor runs, a
thread sends heartbeats.

An execution is a phase, from which its next call follows (`Phase.op?`), and the answer decides the
phase after it (`Phase.next`).  A heartbeat that is still under way when the executor has raised
changes nothing that the execution looks at, and counts as a call of its own.
-/

namespace Afterlock

namespace Storage

/-! ### What is executed -/

/-- `manifest_intact`. -/
def manifestIntact (digest : Json → String) (m : Manifest) : Bool :=
  decide (digest m.body = m.inputHash)

/-- How the executor ends. -/
inductive Executed where
  | result (r : Json)
  /-- `PermanentJobError`, with its text. -/
  | permanent (text : String)
  /-- Another exception, with its class and text. -/
  | crashed (text : String)

/-- The state in an outcome: `idle`, `lost`, or a state of the job. -/
inductive Report where
  | idle
  | lost
  | job (state : JobState)
deriving DecidableEq

/-- `Outcome`. -/
structure Outcome where
  jobId : Option String
  state : Report
  resultId : Option String
deriving DecidableEq

/-- What the heartbeats have told. -/
structure Flags where
  lost : Bool
  cancel : Bool

/-- Where an execution stands. -/
inductive Phase where
  /-- No execution. -/
  | free
  | claiming (owner : String) (leaseSeconds : Time)
  /-- The manifest is not intact. -/
  | rejecting (l : Lease)
  | marking (l : Lease) (leaseSeconds : Time)
  /-- `mark_running` has told that cancellation is asked for. -/
  | yielding (l : Lease)
  | executing (l : Lease) (leaseSeconds : Time) (flags : Flags)
  /-- The executor has raised. -/
  | failing (l : Lease) (error : String) (retryable : Bool)
  /-- A heartbeat has told that cancellation is asked for. -/
  | acknowledging (l : Lease) (r : Json)
  | completing (l : Lease) (r : Json)
  /-- `complete` has refused the result. -/
  | conceding (l : Lease)

/-- The lease of an execution. -/
def Phase.lease? : Phase → Option Lease
  | .free | .claiming _ _ => none
  | .rejecting l | .marking l _ | .yielding l | .executing l _ _ | .failing l _ _
  | .acknowledging l _ | .completing l _ | .conceding l => some l

/-- The next call of an execution, with the digits that it draws and what the clock reads. -/
def Phase.op? (digits : String) (checked now : Time) : Phase → Option Op
  | .free | .executing _ _ _ => none
  | .claiming owner secs => some (.claim owner secs none now)
  | .rejecting l => some (.fail l "manifest integrity check failed" false now)
  | .marking l secs => some (.markRunning l secs checked now)
  | .yielding l | .acknowledging l _ | .conceding l => some (.acknowledgeCancel l now)
  | .failing l error retryable => some (.fail l error retryable now)
  | .completing l r => some (.complete l r digits now)

/-- `storage.fail(..) or "lost"`. -/
def failed (l : Lease) (s : Option JobState) : Outcome :=
  ⟨some l.jobId, (s.map Report.job).getD .lost, none⟩

/-- What an answer to its call makes of an execution.  A call that raises ends it. -/
def Phase.next (digest : Json → String) : Phase → Answer → Option Outcome × Phase
  | .claiming _ _, .lease none => (some ⟨none, .idle, none⟩, .free)
  | .claiming _ secs, .lease (some l) =>
      (none, if manifestIntact digest l.manifest then .marking l secs else .rejecting l)
  | .rejecting l, .state s => (some (failed l s), .free)
  | .marking l _, .status .lost => (some ⟨some l.jobId, .lost, none⟩, .free)
  | .marking l _, .status .cancel => (none, .yielding l)
  | .marking l secs, .status .ok => (none, .executing l secs ⟨false, false⟩)
  | .yielding l, .acknowledged _ => (some ⟨some l.jobId, .job .cancelled, none⟩, .free)
  | .failing l _ _, .state s => (some (failed l s), .free)
  | .acknowledging l _, .acknowledged true => (some ⟨some l.jobId, .job .cancelled, none⟩, .free)
  | .acknowledging l r, .acknowledged false => (none, .completing l r)
  | .completing l _, .resultId (some rid) =>
      (some ⟨some l.jobId, .job .succeeded, some rid⟩, .free)
  | .completing l _, .resultId none => (none, .conceding l)
  | .conceding l, .acknowledged b =>
      (some ⟨some l.jobId, if b then .job .cancelled else .lost, none⟩, .free)
  | _, _ => (none, .free)

/-- The flags after a heartbeat. -/
def Flags.beat (flags : Flags) : Answer → Flags
  | .status .lost => { flags with lost := true }
  | .status .cancel => { flags with cancel := true }
  | _ => flags

/-- What an execution does when its executor has ended. -/
def finish (executor : String → Json.Fields → Executed) (l : Lease) (flags : Flags) :
    Option Outcome × Phase :=
  match executor l.kind l.manifest.payload with
  | .permanent text => (none, .failing l text false)
  | .crashed text => (none, .failing l text true)
  | .result r =>
      if flags.lost then (some ⟨some l.jobId, .lost, none⟩, .free)
      else if flags.cancel then (none, .acknowledging l r)
      else (none, .completing l r)

/-! ### The system -/

/-- The storage, the clock, and the executions. -/
structure Workers (ι : Type*) where
  world : World
  clock : Time
  phase : ι → Phase

/-- What an execution does next. -/
inductive Act where
  | start (owner : String) (leaseSeconds : Time)
  /-- Its next call. -/
  | call (digits : String) (checked now : Time)
  /-- A heartbeat, while the executor runs. -/
  | beat (checked now : Time)
  /-- The executor ends, and the heartbeats with it. -/
  | finish

/-- What happens: an execution acts, or another caller calls the storage. -/
inductive Input (ι : Type*) where
  | act (i : ι) (a : Act)
  | call (op : Op)

/-- What the clock reads after a call. -/
def Op.clock (op : Op) (clock : Time) : Time := op.readings.getLast?.getD clock

section

variable {ι : Type*} [DecidableEq ι]

/-- The state after a call of the storage, with another phase of one execution. -/
def Workers.after (σ : Workers ι) (w : World) (op : Op) (i : ι) (p : Phase) : Workers ι where
  world := w
  clock := op.clock σ.clock
  phase := Function.update σ.phase i p

/-- A step of the system. -/
def Workers.step (digest : Json → String) (caps : Caps)
    (executor : String → Json.Fields → Executed) (σ : Workers ι) :
    Input ι → Option Outcome × Workers ι
  | .call op =>
      (none, { σ with world := ((memory digest caps).step σ.world op).2, clock := op.clock σ.clock })
  | .act i (.start owner secs) =>
      match σ.phase i with
      | .free => (none, { σ with phase := Function.update σ.phase i (.claiming owner secs) })
      | _ => (none, σ)
  | .act i (.call digits checked now) =>
      match (σ.phase i).op? digits checked now with
      | none => (none, σ)
      | some op =>
          let (answer, w) := (memory digest caps).step σ.world op
          let (o, p) := (σ.phase i).next digest answer
          (o, σ.after w op i p)
  | .act i (.beat checked now) =>
      match σ.phase i with
      | .executing l secs flags =>
          -- the thread ends with a heartbeat that tells that the lease is lost
          if flags.lost then (none, σ)
          else
            let (answer, w) := (memory digest caps).step σ.world (.heartbeat l secs checked now)
            (none, σ.after w (.heartbeat l secs checked now) i
              (.executing l secs (flags.beat answer)))
      | _ => (none, σ)
  | .act i .finish =>
      match σ.phase i with
      | .executing l _ flags =>
          let (o, p) := finish executor l flags
          (o, { σ with phase := Function.update σ.phase i p })
      | _ => (none, σ)

/-- The system as a machine. -/
def workers (digest : Json → String) (caps : Caps) (executor : String → Json.Fields → Executed) :
    Machine (Workers ι) (Input ι) (Option Outcome) := ⟨Workers.step digest caps executor⟩

/-- Before the first call. -/
def Workers.initial (ι : Type*) (clock : Time) : Workers ι := ⟨World.initial, clock, fun _ => .free⟩

/-- The call that an input makes. -/
def Workers.op? (σ : Workers ι) : Input ι → Option Op
  | .call op => some op
  | .act i (.call digits checked now) => (σ.phase i).op? digits checked now
  | .act i (.beat checked now) =>
      match σ.phase i with
      | .executing l secs flags => if flags.lost then none else some (.heartbeat l secs checked now)
      | _ => none
  | .act _ (.start _ _) | .act _ .finish => none

/-- An input may come: the clock does not go back, the identifiers that a call draws are fresh, and
another caller presents leases that were handed out. -/
def Workers.May (σ : Workers ι) (i : Input ι) : Prop :=
  (∀ op, σ.op? i = some op → op.Fresh σ.world.store ∧
    (σ.clock :: op.readings).Pairwise (· ≤ ·)) ∧
  ∀ op, i = .call op → ∀ l, op.lease? = some l → l ∈ σ.world.leases

end

end Storage

end Afterlock
