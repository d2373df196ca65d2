import Afterlock.Lib.Prog
import Afterlock.Semantics

/-!
# The capability engine

A remediation sequence is evaluated interval by interval: interval 0 is the environment at
analysis time, interval `k` the environment after the `k`-th defender action.  In every interval
the attacker performs every supported transition, until nothing changes (`closure`).

The run of one view is a program over `ViewState`, the attacker's facts and credentials, the
environment and the local variables of `run_view`; it stops when the derivation cap is passed.
-/

namespace Afterlock

/-- The facts the engine derives. Versions are kept as text, as in the initial facts. -/
inductive Fact where
  | possesses (credential : String)
  | controlsPod (uid : String)
  | controlsController (uid : String)
  | knowsSecret (ns name version : String)
  | possessesDownstream (service version : String)
  | canReadSecret (ns name : String)
  | canUseDownstream (service : String)
deriving DecidableEq, Repr

namespace Fact
def kind : Fact → String
  | possesses _ => "possesses"
  | controlsPod _ => "controls_pod"
  | controlsController _ => "controls_controller"
  | knowsSecret .. => "knows_secret"
  | possessesDownstream .. => "possesses_downstream"
  | canReadSecret .. => "can_read_secret"
  | canUseDownstream _ => "can_use_downstream"

def args : Fact → List String
  | possesses c => [c]
  | controlsPod uid => [uid]
  | controlsController uid => [uid]
  | knowsSecret ns name version => [ns, name, version]
  | possessesDownstream service version => [service, version]
  | canReadSecret ns name => [ns, name]
  | canUseDownstream service => [service]

/-- The fact as the tuple the source has. -/
def tuple (f : Fact) : List String := f.kind :: f.args

/-- Capabilities hold at an interval; everything else is kept for ever. -/
def persistent : Fact → Bool
  | canReadSecret .. => false
  | canUseDownstream _ => false
  | _ => true
end Fact

/-- The environmental conditions a derivation records. -/
inductive Condition where
  | credentialUsable (credential : String) (time : ℤ) (detail : String)
  | authorized (username verb resource ns : String) (name : Option String) (via : List String)
  | admissionAllows (creator ns serviceAccount : String) (policies : List String)
  | serviceAccountExists (ns name : String) (uid : Option String)
  | podExists (pod : String)
  | podOwnedByController (pod controller : String)
  | secretVersion (ns name : String) (version : ℤ)
  | serviceSources (service ns secret : String)
  | serviceAccepts (service : String) (version : ℤ) (time : Option ℤ) (detail : Option String)
deriving DecidableEq, Repr

inductive Rule where
  | evidence | controllerPod | obtainProjectedToken | createPod | createController | execPod
  | readSecret | downstreamCredential | useDownstream
deriving DecidableEq, Repr

def Rule.name : Rule → String
  | evidence => "EVIDENCE"
  | controllerPod => "R-CONTROLLER-POD"
  | obtainProjectedToken => "R-OBTAIN-PROJECTED-TOKEN"
  | createPod => "R-CREATE-POD"
  | createController => "R-CREATE-CONTROLLER"
  | execPod => "R-EXEC-POD"
  | readSecret => "R-READ-SECRET"
  | downstreamCredential => "R-DOWNSTREAM-CREDENTIAL"
  | useDownstream => "R-USE-DOWNSTREAM"

def initialInterval : ℤ := -2
def historyInterval : ℤ := -1

/-- A provenance hyperedge. -/
structure Derivation where
  fact : Fact
  rule : Rule
  interval : ℤ
  premises : List Fact
  conditions : List Condition
  status : Epistemic
  evidence : List String
  note : String
deriving DecidableEq, Repr

inductive View where
  | evidenceSupported | conservativePossible
deriving DecidableEq, Repr

inductive Mode where
  | full | snapshotOnly | historyWithoutLifecycle | finalStateOnly
deriving DecidableEq, Repr

/-- Something the semantics does not support, met during a run. -/
inductive Unknown where
  | unsupportedCredential (credential detail : String)
  | unsupportedAdmission (ns creator serviceAccount : String) (policies : List String)
      (detail : String)
deriving DecidableEq, Repr

/-- An unknown under the key it is recorded with. -/
structure UnknownEntry where
  key : String
  record : Unknown
deriving DecidableEq, Repr

structure IntervalRecord where
  index : ℤ
  time : ℤ
  action : Option String
  notes : List String
  goals : List Fact
  reconciledPods : List String
deriving DecidableEq, Repr

/-- Why a run stops: the cap on derivations, or the bound on rounds of the closure loop, which is
never the reason (`closure_stopsOnly`). -/
inductive Stop where
  | boundsExceeded | outOfFuel
deriving DecidableEq, Repr

/-- The attacker's facts and credentials, the environment, and the local variables of a run. -/
structure ViewState where
  facts : Table Derivation.fact
  creds : Table CredentialSpec.id
  /-- The capabilities of the closure in progress. -/
  eph : Table Derivation.fact
  env : Env
  count : ℕ
  unknowns : Table UnknownEntry.key
  intervals : List IntervalRecord
  goalsFinal : Table Derivation.fact

/-- What a closure reads and never changes. -/
structure Ctx where
  inp : AnalysisInput
  view : View
  mode : Mode
  /-- Set while the possible-history phase is saturated. -/
  inHistory : Bool

abbrev EngineM (α : Type) : Type := Prog ViewState Stop α

open Prog

namespace Engine

/-! ### Bookkeeping -/

variable (ctx : Ctx)

def tick : EngineM Unit := do
  update fun s => { s with count := s.count + 1 }
  let s ← getState
  if (s.count : ℤ) > ctx.inp.bounds.maxDerivations then stop .boundsExceeded else pure ()

/-- `unknowns.setdefault(key, record)`. -/
def recordUnknown (u : UnknownEntry) : EngineM Unit :=
  update fun s => if s.unknowns.contains u.key then s else { s with unknowns := s.unknowns.put u }

/-- When a use of `cred` is evaluated: at the interval's time, and in the possible-history phase
at the latest instant of the window at which the credential was unexpired. -/
def useTime (env : Env) (cred : CredentialSpec) : ℤ :=
  match ctx.inHistory, cred.expiresAt with
  | true, some exp =>
      if exp > env.time then env.time
      else match ctx.inp.historyStart with
        | some start => if exp - 1 < start then start else exp - 1
        | none => exp - 1
  | _, _ => env.time

def unsupportedCredential (cred : CredentialSpec) (u : Usability) : UnknownEntry where
  key := "cred:" ++ cred.id
  record := .unsupportedCredential cred.id (String.intercalate "; " u.reasons)

/-- The condition under which `cred` can be used now, if it can. -/
def usable (cred : CredentialSpec) : EngineM (Option Condition) := do
  let s ← getState
  let time := useTime ctx s.env cred
  let u := credentialUsable s.env cred ctx.inp.profile (some time)
  if !u.supported then
    recordUnknown (unsupportedCredential cred u)
    pure none
  else if u.usable || ctx.mode == .historyWithoutLifecycle then
    pure (some (.credentialUsable cred.id time (String.intercalate "; " u.reasons)))
  else pure none

/-- Record a derivation unless its fact is there; returns whether it was added. -/
def add (d : Derivation) : EngineM Bool := do
  let s ← getState
  if d.fact.persistent then
    if s.facts.contains d.fact then pure false
    else do
      tick ctx
      update fun s => { s with facts := s.facts.put d }
      pure true
  else
    if s.eph.contains d.fact then pure false
    else do
      tick ctx
      update fun s => { s with eph := s.eph.put d }
      pure true

/-! ### The rules -/

inductive WorkloadKind where
  | pod | controller
deriving DecidableEq, Repr

def WorkloadKind.resource : WorkloadKind → String
  | pod => "pods"
  | controller => "deployments"

def WorkloadKind.text : WorkloadKind → String
  | pod => "pod"
  | controller => "controller"

/-- Whether a live model-created workload of the kind runs as the service account already. -/
def controlsLive (s : ViewState) (ns sa : String) (kind : WorkloadKind) : Bool :=
  s.facts.rows.any fun d =>
    match d.fact, kind with
    | .controlsPod uid, .pod => Text.hasPrefix modelPodPrefix uid &&
        (s.env.pods.get? uid).any fun p => p.ns == ns && p.serviceAccount == sa
    | .controlsController uid, .controller => Text.hasPrefix modelDeployPrefix uid &&
        (s.env.controllers.get? uid).any fun c => c.ns == ns && c.serviceAccount == sa
    | _, _ => false

def sortedPods (env : Env) : List Pod := Text.sortedBy Pod.uid env.pods.rows

/-- The arguments of the facts that `select` picks, in order. -/
def sortedFacts {α : Type} (select : Fact → Option α) (key : α → List String) (s : ViewState) :
    List α :=
  Text.sortedBy key (s.facts.rows.filterMap fun d => select d.fact)

def selectController : Fact → Option String
  | .controlsController uid => some uid
  | _ => none

def selectPod : Fact → Option String
  | .controlsPod uid => some uid
  | _ => none

def selectCredential : Fact → Option String
  | .possesses id => some id
  | _ => none

def selectSecret : Fact → Option (String × String × String)
  | .knowsSecret ns name version => some (ns, name, version)
  | _ => none

def selectDownstream : Fact → Option (String × String)
  | .possessesDownstream service version => some (service, version)
  | _ => none

/-- A derivation by one of the attacker's rules. -/
def derived (rule : Rule) (interval : ℤ) (fact : Fact) (premises : List Fact)
    (conditions : List Condition) : Derivation where
  fact := fact
  rule := rule
  interval := interval
  premises := premises
  conditions := conditions
  status := .inferred
  evidence := []
  note := ""

def ownedPod (interval : ℤ) (cuid : String) (p : Pod) : Derivation :=
  derived .controllerPod interval (.controlsPod p.uid) [.controlsController cuid]
    [.podOwnedByController p.uid cuid]

/-- A controlled controller controls its current Pods. -/
def controllerPods (interval : ℤ) : EngineM Bool := do
  let s ← getState
  forEach (sortedFacts selectController (fun c => [c]) s) fun cuid => do
    let s ← getState
    forEach (sortedPods s.env) fun p =>
      if p.controllerUid = some cuid then add ctx (ownedPod interval cuid p) else pure false

def projectedId (podUid audience : String) : String :=
  "projected:" ++ podUid ++ ":" ++ audience

/-- The audiences of the tokens a Pod projects. -/
def tokenAudiences (profile : Profile) (pod : Pod) : List String :=
  if pod.tokenAudiences = [] then [profile.defaultAudience] else pod.tokenAudiences

/-- The token a Pod projects for an audience. -/
def projectedToken (pod : Pod) (sa : ServiceAccount) (audience : String) (exp : ℤ) :
    CredentialSpec where
  id := projectedId pod.uid audience
  kind := "sa_token"
  username := sa.username
  saUid := some sa.uid
  boundPodUid := some pod.uid
  audience := audience
  expiresAt := some exp

/-- Whether the attacker holds a token under `id` that lasts until `exp`. -/
def holdsUntil (s : ViewState) (id : String) (exp : ℤ) : Bool :=
  (s.creds.get? id).any fun prev => prev.expiresAt.any fun e => decide (exp ≤ e)

def tokenDerivation (interval : ℤ) (pod : Pod) (sa : ServiceAccount) (audience : String) (exp : ℤ) :
    Derivation :=
  { derived .obtainProjectedToken interval (.possesses (projectedId pod.uid audience))
      [.controlsPod pod.uid]
      [.podExists pod.uid, .serviceAccountExists sa.ns sa.name (some sa.uid)] with
    note := s!"token for audience {audience}, expires {exp}" }

/-- Obtain the token of a controlled Pod for one audience, unless one that lasts as long is held. -/
def obtainToken (interval : ℤ) (pod : Pod) (sa : ServiceAccount) (audience : String) :
    EngineM Bool := do
  let s ← getState
  let exp := s.env.time + ctx.inp.profile.projectedTokenTtlSeconds
  if holdsUntil s (projectedId pod.uid audience) exp then pure false
  else do
    update fun s => { s with creds := s.creds.put (projectedToken pod sa audience exp) }
    tick ctx
    update fun s => { s with facts := s.facts.put (tokenDerivation interval pod sa audience exp) }
    pure true

/-- A controlled, existing Pod yields its projected tokens. -/
def projectedTokens (interval : ℤ) : EngineM Bool := do
  let s ← getState
  forEach (sortedFacts selectPod (fun u => [u]) s) fun uid => do
    let s ← getState
    match s.env.pods.get? uid with
    | none => pure false
    | some pod =>
        match s.env.serviceAccounts.get? (pod.ns, pod.serviceAccount) with
        | none => pure false
        | some sa => forEach (tokenAudiences ctx.inp.profile pod) (obtainToken ctx interval pod sa)

def createdPod (ns sa uid : String) : Pod :=
  { ns := ns, name := uid, uid := uid, serviceAccount := sa, tokenAudiences := [],
    controllerUid := none }

def createdController (ns sa cuid : String) : Controller :=
  { ns := ns, name := cuid, uid := cuid, serviceAccount := sa, tokenAudiences := [] }

def Env.addController (env : Env) (c : Controller) : Env :=
  (reconcileControllers
    { env with controllers := env.controllers.put c
               controllerPodCounter := env.controllerPodCounter.put (c.uid, -1) }).1

def unsupportedAdmission (ns user sa : String) (kind : WorkloadKind) (policies : List String) :
    UnknownEntry where
  key := s!"adm:{ns}:{user}:{sa}:{kind.text}"
  record := .unsupportedAdmission ns user sa policies
    s!"cannot evaluate whether {user} may create a {String.ofList kind.resource.toList.dropLast} running as {sa}"

/-- What is checked when a workload is created with a credential. -/
def creationConditions (ucond : Condition) (user ns sa : String) (kind : WorkloadKind)
    (via policies : List String) : List Condition :=
  [ucond, .authorized user "create" kind.resource ns none via,
    .admissionAllows user ns sa policies, .serviceAccountExists ns sa none]

def podCreation (interval : ℤ) (cid uid : String) (conds : List Condition) : Derivation :=
  derived .createPod interval (.controlsPod uid) [.possesses cid] conds

def controllerCreation (interval : ℤ) (cid cuid : String) (conds : List Condition) : Derivation :=
  derived .createController interval (.controlsController cuid) [.possesses cid] conds

/-- Create one workload as a service account, unless one is live, the UID is taken, or admission
does not allow it. -/
def createWorkload (interval : ℤ) (cid : String) (ucond : Condition) (user ns : String)
    (via : List String) (kind : WorkloadKind) (sa : String) : EngineM Bool := do
  let s ← getState
  if controlsLive s ns sa kind then pure false
  else
    let adm := admissionDecision s.env user ns sa
    match adm.outcome with
    | .unsupported => do
        recordUnknown (unsupportedAdmission ns user sa kind adm.policies)
        pure false
    | .deny => pure false
    | .allow =>
        let conds := creationConditions ucond user ns sa kind via adm.policies
        match kind with
        | .pod =>
            let uid := modelPodUid ns sa interval
            if s.env.pods.contains uid then pure false
            else do
              update fun s => { s with env :=
                { s.env with pods := s.env.pods.put (createdPod ns sa uid) } }
              add ctx (podCreation interval cid uid conds)
        | .controller =>
            let cuid := modelControllerUid ns sa interval
            if s.env.controllers.contains cuid then pure false
            else do
              update fun s => { s with env := Env.addController s.env (createdController ns sa cuid) }
              add ctx (controllerCreation interval cid cuid conds)

/-- The service accounts of a namespace, in order. -/
def accountsIn (env : Env) (ns : String) : List String :=
  ((Text.sortedBy (fun a => [a.ns, a.name]) env.serviceAccounts.rows).filter
    fun a => a.ns == ns).map ServiceAccount.name

def createWorkloads (interval : ℤ) (cid : String) (ucond : Condition) (user ns : String)
    (kind : WorkloadKind) : EngineM Bool := do
  let s ← getState
  let via := authorizingBindings s.env user "create" kind.resource ns none
  if via = [] then pure false
  else forEach (accountsIn s.env ns) (createWorkload ctx interval cid ucond user ns via kind)

/-- A Pod that exists only because the attacker created it carries that creation. -/
def objectPremises (pod : Pod) : List Fact :=
  match pod.controllerUid with
  | some c => if Text.hasPrefix modelDeployPrefix c then [.controlsController c]
      else if Text.hasPrefix modelPodPrefix pod.uid then [.controlsPod pod.uid] else []
  | none => if Text.hasPrefix modelPodPrefix pod.uid then [.controlsPod pod.uid] else []

/-- A derivation by exec into a Pod, which the bindings `via` allow. -/
def podExec (interval : ℤ) (cid : String) (ucond : Condition) (user : String) (p : Pod)
    (via : List String) : Derivation :=
  derived .execPod interval (.controlsPod p.uid) (.possesses cid :: objectPremises p)
    [ucond, .authorized user "create" "pods/exec" p.ns (some p.name) via]

def execPod (interval : ℤ) (cid : String) (ucond : Condition) (user : String) (p : Pod) :
    EngineM Bool := do
  let s ← getState
  let via := authorizingBindings s.env user "create" "pods/exec" p.ns (some p.name)
  if via = [] then pure false else add ctx (podExec interval cid ucond user p via)

/-- The first read verb the user is authorized for on a Secret, with the bindings that grant it. -/
def readGrant (env : Env) (user : String) (sec : Secret) : Option (String × List String) :=
  secretReadVerbs.findSome? fun verb =>
    let via := authorizingBindings env user verb "secrets" sec.ns (some sec.name)
    if via = [] then none else some (verb, via)

/-- A derivation by reading a Secret, which the grant allows. -/
def secretRead (interval : ℤ) (cid : String) (ucond : Condition) (user : String) (sec : Secret)
    (grant : String × List String) (fact : Fact) : Derivation :=
  derived .readSecret interval fact [.possesses cid]
    [ucond, .authorized user grant.1 "secrets" sec.ns (some sec.name) grant.2,
      .secretVersion sec.ns sec.name sec.version]

def readSecret (interval : ℤ) (cid : String) (ucond : Condition) (user : String) (sec : Secret) :
    EngineM Bool := do
  let s ← getState
  match readGrant s.env user sec with
  | none => pure false
  | some grant => do
      let a ← add ctx (secretRead interval cid ucond user sec grant
        (.knowsSecret sec.ns sec.name (Text.ofInt sec.version)))
      let b ← add ctx (secretRead interval cid ucond user sec grant
        (.canReadSecret sec.ns sec.name))
      pure (a || b)

def sortedSecrets (env : Env) : List Secret :=
  Text.sortedBy (fun s => [s.ns, s.name]) env.secrets.rows

/-- The API requests that one credential drives. -/
def credentialRequests (interval : ℤ) (cid : String) : EngineM Bool := do
  let s ← getState
  match s.creds.get? cid with
  | none => pure false
  | some cred => do
      match ← usable ctx cred with
      | none => pure false
      | some ucond => do
          let created ← forEach s.env.namespaces fun ns => do
            let a ← createWorkloads ctx interval cid ucond cred.username ns .pod
            let b ← createWorkloads ctx interval cid ucond cred.username ns .controller
            pure (a || b)
          let s ← getState
          let execd ← forEach (sortedPods s.env) (execPod ctx interval cid ucond cred.username)
          let s ← getState
          let read ← forEach (sortedSecrets s.env) (readSecret ctx interval cid ucond cred.username)
          pure (created || execd || read)

def apiRequests (interval : ℤ) : EngineM Bool := do
  let s ← getState
  forEach (sortedFacts selectCredential (fun c => [c]) s) (credentialRequests ctx interval)

def secretFeeds (interval : ℤ) (k : String × String × String) (svc : DownstreamService) :
    Derivation :=
  derived .downstreamCredential interval (.possessesDownstream svc.name k.2.2)
    [.knowsSecret k.1 k.2.1 k.2.2] [.serviceSources svc.name k.1 k.2.1]

/-- Knowledge of a Secret is possession of the downstream credentials derived from it. -/
def downstreamCredentials (interval : ℤ) : EngineM Bool := do
  let s ← getState
  forEach (sortedFacts selectSecret (fun k => [k.1, k.2.1, k.2.2]) s) fun k => do
    let s ← getState
    forEach (secretsFeeding s.env k.1 k.2.1) fun svc => add ctx (secretFeeds interval k svc)

/-- The condition that a service accepts a version, with a remark when it is an older one. -/
def acceptsCondition (svc : DownstreamService) (version time : ℤ) : Condition :=
  if version = svc.acceptedVersion then .serviceAccepts svc.name version none none
  else .serviceAccepts svc.name version (some time)
    (some "previous version still accepted while rotation propagates (S-SEC-5)")

def serviceUse (interval : ℤ) (k : String × String) (svc : DownstreamService)
    (version time : ℤ) : Derivation :=
  derived .useDownstream interval (.canUseDownstream svc.name) [.possessesDownstream k.1 k.2]
    [acceptsCondition svc version time]

def downstreamUse (interval : ℤ) : EngineM Bool := do
  let s ← getState
  forEach (sortedFacts selectDownstream (fun k => [k.1, k.2]) s) fun k => do
    let s ← getState
    match s.env.services.get? k.1, Text.toInt? k.2 with
    | some svc, some version =>
        if svc.accepts version s.env.time then
          add ctx (serviceUse interval k svc version s.env.time)
        else pure false
    | _, _ => pure false

/-- One round of the closure; returns whether anything changed. -/
def pass (interval : ℤ) : EngineM Bool := do
  let a ← controllerPods ctx interval
  let b ← projectedTokens ctx interval
  let c ← apiRequests ctx interval
  let d ← downstreamCredentials ctx interval
  let e ← downstreamUse ctx interval
  pure (a || b || c || d || e)

/-- Saturate the attacker's facts in the environment. A round that changes something uses up at
least one derivation, which bounds the number of rounds. -/
def closure (interval : ℤ) : EngineM Unit := do
  update fun s => { s with eph := ∅ }
  let s ← getState
  untilQuiet .outOfFuel (pass ctx interval) (ctx.inp.bounds.maxDerivations.toNat - s.count + 1)

/-! ### The run of a view -/

/-- The initial facts the view and the mode use. -/
def usedFacts : List InitialFact :=
  ctx.inp.initialFacts.filter fun f =>
    !(ctx.view == .evidenceSupported && f.status == .inferred) &&
      !(ctx.mode == .snapshotOnly && !(match f.claim with
        | .possessesCredential _ => f.status == .assumed
        | _ => false))

/-- The fact of an initial fact; a historical Pod is not one. -/
def initialFactOf : FactClaim → Option Fact
  | .possessesCredential id => some (.possesses id)
  | .controlsPod uid => some (.controlsPod uid)
  | .controlsController uid => some (.controlsController uid)
  | .knowsSecret ns name version => some (.knowsSecret ns name version)
  | .historicalPod .. => none

def evidenceDerivation (fact : Fact) (f : InitialFact) : Derivation where
  fact := fact
  rule := .evidence
  interval := initialInterval
  premises := []
  conditions := []
  status := f.status
  evidence := f.evidence
  note := f.note

def initialFacts : Table Derivation.fact :=
  Table.ofList ((usedFacts ctx).filterMap fun f =>
    (initialFactOf f.claim).map fun fact => evidenceDerivation fact f)

def initialCreds : Table CredentialSpec.id :=
  Table.ofList ((usedFacts ctx).filterMap fun f =>
    match f.claim with
    | .possessesCredential id => ctx.inp.credential? id
    | _ => none)

/-- The historical Pods (uid, namespace, service account), in order. -/
def historical : List (String × String × String) :=
  (usedFacts ctx).filterMap fun f =>
    match f.claim with
    | .historicalPod uid ns sa => some (uid, ns, sa)
    | _ => none

def initialState : ViewState where
  facts := initialFacts ctx
  creds := initialCreds ctx
  eph := ∅
  env := Env.fromInventory ctx.inp.inventory ctx.inp.analysisTime
  count := 0
  unknowns := ∅
  intervals := []
  goalsFinal := ∅

/-- The environment of the possible-history phase: historical Pods are put back. -/
def historyEnv (env : Env) (pods : List (String × String × String)) : Env :=
  pods.foldl (fun env h =>
    if env.pods.contains h.1 then env
    else { env with pods := env.pods.put (createdPod h.2.1 h.2.2 h.1) }) env

def historicalDerivation (uid : String) : Derivation where
  fact := .controlsPod uid
  rule := .evidence
  interval := initialInterval
  premises := []
  conditions := []
  status := .observed
  evidence := []
  note := "historically controlled pod"

/-- `facts.setdefault` for the control of each historical Pod. -/
def addHistorical (facts : Table Derivation.fact) (pods : List (String × String × String)) :
    Table Derivation.fact :=
  pods.foldl (fun facts h =>
    if facts.contains (.controlsPod h.1) then facts else facts.put (historicalDerivation h.1)) facts

/-- Whether a seeded credential had expired by analysis time. -/
def expiredSeed : Bool :=
  (initialCreds ctx).rows.any fun c => c.expiresAt.any fun e => decide (e ≤ ctx.inp.analysisTime)

/-- Whether the possible-history phase runs. -/
def hasHistory : Bool :=
  ctx.view == .conservativePossible && (historical ctx ≠ [] || expiredSeed ctx)

/-- The possible-history phase, in a scratch copy of the environment. -/
def possibleHistory : EngineM Unit :=
  if hasHistory ctx then
    withScratch
      (fun s => { s with env := historyEnv s.env (historical ctx)
                         facts := addHistorical s.facts (historical ctx) })
      (fun s s' => { s' with env := s.env })
      (closure { ctx with inHistory := true } historyInterval)
  else pure ()

/-- Apply a defender action and let the controllers recreate Pods; returns the notes and the UIDs
of the new Pods. -/
def defenderStep (a : DefenderAction) : EngineM (List String × List String) := do
  let s ← getState
  let (env, notes) := applyDefenderAction s.env a
  let (env, pods) := reconcileControllers env
  update fun s => { s with env := env }
  pure (notes, pods.map Pod.uid)

/-- The closure of an interval, whose capabilities become the final ones. -/
def interval (i : ℤ) (label : Option String) (notes reconciled : List String) : EngineM Unit := do
  closure ctx i
  update fun s => { s with
    goalsFinal := s.eph
    intervals := s.intervals ++ [{
      index := i, time := s.env.time, action := label, notes := notes,
      goals := Text.sortedBy Fact.tuple (s.eph.rows.map Derivation.fact),
      reconciledPods := reconciled }] }

/-- One interval after each of the remaining defender actions; `i` is the last interval. -/
def laterIntervals (i : ℕ) : List DefenderAction → EngineM Unit
  | [] => pure ()
  | a :: rest => do
      let (notes, reconciled) ← defenderStep a
      interval ctx ((i : ℤ) + 1) (some a.label) notes reconciled
      laterIntervals (i + 1) rest

/-- The first interval, after the controllers have created missing Pods. -/
def firstInterval : EngineM Unit := do
  let s ← getState
  let (env, pods) := reconcileControllers s.env
  update fun s => { s with env := env }
  interval ctx 0 none [] (pods.map Pod.uid)

/-- The baselines that evaluate only the final configuration. -/
def finalConfiguration : List DefenderAction → List String → EngineM Unit
  | a :: rest, notes => do
      let (notes', _) ← defenderStep a
      finalConfiguration rest (notes ++ notes')
  | [], notes =>
      let labels := ctx.inp.remediation.map DefenderAction.label
      interval ctx 0 (if labels = [] then none else some (String.intercalate "; " labels)) notes []

/-- The run of a view over the first defender actions of the remediation. -/
def runActions (actions : List DefenderAction) : EngineM Unit := do
  possibleHistory ctx
  firstInterval ctx
  laterIntervals ctx 0 actions

/-- The `try` block of `run_view`. -/
def runBody : EngineM Unit :=
  if ctx.mode = .finalStateOnly ∨ ctx.mode = .snapshotOnly then do
    possibleHistory ctx
    finalConfiguration ctx ctx.inp.remediation []
  else runActions ctx ctx.inp.remediation

end Engine

/-! ### Outcomes -/

structure ViewOutcome where
  view : View
  goalsFinal : Table Derivation.fact
  derivations : Table Derivation.fact
  credentials : Table CredentialSpec.id
  intervals : List IntervalRecord
  unknowns : List Unknown
  boundsExceeded : Bool
  finalEnv : Env
  derivationCount : ℕ

def runView (inp : AnalysisInput) (view : View) (mode : Mode) : ViewOutcome :=
  let ctx : Ctx := { inp := inp, view := view, mode := mode, inHistory := false }
  let (result, s) := Engine.runBody ctx (Engine.initialState ctx)
  { view := view
    goalsFinal := s.goalsFinal
    derivations := s.facts
    credentials := s.creds
    intervals := s.intervals
    unknowns := (Text.sortedBy UnknownEntry.key s.unknowns.rows).map UnknownEntry.record
    boundsExceeded := match result with | .ok _ => false | .error _ => true
    finalEnv := s.env
    derivationCount := s.count }

namespace ViewOutcome

/-- `visit(f, table)` of `witness`: the facts seen and the derivations listed so far, to a depth of
at most `fuel`. -/
def visit (derivations : Table Derivation.fact) : ℕ → Table Derivation.fact → Fact →
    List Fact × List Derivation → List Fact × List Derivation
  | 0, _, _, acc => acc
  | fuel + 1, table, f, (seen, out) =>
      if f ∈ seen then (seen, out)
      else match (table.get? f).or (derivations.get? f) with
        | none => (f :: seen, out)
        | some d =>
            let (seen, out) := d.premises.foldl
              (fun acc p => visit derivations fuel derivations p acc) (f :: seen, out)
            (seen, out ++ [d])

/-- The provenance of a goal, premises first. No path repeats a fact, so its length is at most one
more than the number of facts. -/
def witness (v : ViewOutcome) (goal : Fact) : List Derivation :=
  (visit v.derivations (v.derivations.rows.length + 1) v.goalsFinal goal ([], [])).2

end ViewOutcome

/-! ### Objectives and legitimate operations -/

def objectiveGoal : ObjectiveTarget → Fact
  | .noSecretRead ns secret => .canReadSecret ns secret
  | .noDownstreamUse service => .canUseDownstream service

structure LegitResult where
  id : String
  target : LegitTarget
  preserved : Bool
  detail : String
  description : String
deriving DecidableEq, Repr

def legitStatus (inp : AnalysisInput) (env : Env) : List LegitResult :=
  inp.legitimateOperations.map fun op =>
    let (ok, why) := match op.target with
      | .readSecret ns secret => legitCanRead env op.podUid ns secret
      | .useDownstream service => legitCanUseService env op.podUid service
    { id := op.id, target := op.target, preserved := ok, detail := why,
      description := op.description }

end Afterlock
