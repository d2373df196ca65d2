import Afterlock.Lib.Table
import Afterlock.Model

/-!
# The supported Kubernetes semantics

The environment of one analysis interval and the rules evaluated in it: RBAC, the usability of a
credential, admission, the defender's actions and the reconciliation of controllers.  Anything
outside the supported rules is reported as unsupported, never as an allow or a deny.
-/

namespace Afterlock

/-- The environment at one interval. Its dictionaries are tables: the key of an object is computed
from the object. -/
structure Env where
  time : ℤ
  serviceAccounts : Table ServiceAccount.key
  pods : Table Pod.uid
  controllers : Table Controller.uid
  roles : Table Role.key
  bindings : Table RoleBinding.ident
  secrets : Table Secret.key
  services : Table DownstreamService.name
  admission : List AdmissionPolicy
  controllerPodCounter : Table (Prod.fst : String × ℤ → String)

namespace Env

def fromInventory (inv : Inventory) (time : ℤ) : Env where
  time := time
  serviceAccounts := Table.ofList inv.serviceAccounts
  pods := Table.ofList inv.pods
  controllers := Table.ofList inv.controllers
  roles := Table.ofList inv.roles
  bindings := Table.ofList inv.bindings
  secrets := Table.ofList inv.secrets
  services := Table.ofList inv.services
  admission := inv.admissionPolicies
  controllerPodCounter := ∅

def namespaces (env : Env) : List String :=
  Text.sortedBy id
    (env.serviceAccounts.rows.map ServiceAccount.ns ++ env.pods.rows.map Pod.ns).dedup

end Env

/-! ### RBAC -/

/-- The verbs whose response carries the data of a Secret. -/
def secretReadVerbs : List String := ["get", "list", "watch"]

def subjectMatches (s : Subject) (username : String) : Bool :=
  let sa := parseSaUsername username
  match s.kind with
  | .serviceAccount => sa.any fun p => s.ns == some p.1 && s.name == p.2
  | .user => s.name == username
  | .group =>
      s.name == "system:authenticated" ||
        sa.any fun p => s.name == "system:serviceaccounts" ||
          s.name == "system:serviceaccounts:" ++ p.1

/-- Whether a binding authorizes a request: it applies in the namespace, it has the user as a
subject, and the role it references exists and has a rule for the request. -/
def bindingGrants (env : Env) (username verb resource ns : String) (name : Option String)
    (b : RoleBinding) : Bool :=
  (b.ns.all fun n => n == ns) && (b.subjects.any fun s => subjectMatches s username) &&
    match env.roles.get? (match b.roleKind with | .role => b.ns | .clusterRole => none, b.roleName) with
    | none => false
    | some role => role.rules.any fun rule => rule.allows verb resource name

/-- The keys of the bindings that authorize the request; none means denied. -/
def authorizingBindings (env : Env) (username verb resource ns : String) (name : Option String) :
    List String :=
  ((Text.sortedBy (fun b => [b.ns.getD "", b.name]) env.bindings.rows).filter
    (bindingGrants env username verb resource ns name)).map RoleBinding.key

/-! ### Credentials -/

structure Usability where
  usable : Bool
  supported : Bool
  reasons : List String
deriving DecidableEq, Repr

/-- The service-account check of a credential: what is wrong with the account it names. -/
def accountReasons (env : Env) (cred : CredentialSpec) (sa : String × String) : List String :=
  match env.serviceAccounts.get? sa with
  | none => [s!"service account {sa.1}/{sa.2} no longer exists"]
  | some acct =>
      match cred.saUid with
      | none => []
      | some uid =>
          if acct.uid = uid then []
          else [s!"service account {sa.1}/{sa.2} was recreated with a different UID"]

/-- The bound-object check of a credential. -/
def boundPodReasons (env : Env) (cred : CredentialSpec) (sa : String × String) : List String :=
  match cred.boundPodUid with
  | none => []
  | some uid =>
      match env.pods.get? uid with
      | none => [s!"bound pod UID {uid} no longer exists"]
      | some pod =>
          if (pod.ns, pod.serviceAccount) = sa then []
          else [s!"bound pod UID {uid} does not run as {cred.username}"]

/-- The expiry check of a credential at `time`; `hypothetical` says that the use is one of the
possible history. -/
def expiryReasons (cred : CredentialSpec) (time : ℤ) (hypothetical : Bool) : List String :=
  match cred.expiresAt with
  | none => []
  | some exp =>
      if exp ≤ time then
        [s!"expired at {exp} (" ++
          (if hypothetical then "hypothetical use at" else "analysis time") ++ s!" {time})"]
      else []

def audienceReasons (cred : CredentialSpec) (profile : Profile) : List String :=
  if cred.audience ∈ profile.apiAudiences then []
  else [s!"audience {Json.quoted cred.audience} is not accepted by the API server"]

/-- Whether the Kubernetes API would accept `cred` at time `at?`, by default the time of the
environment; every check but expiry is made against `env`. -/
def credentialUsable (env : Env) (cred : CredentialSpec) (profile : Profile) (at? : Option ℤ) :
    Usability :=
  if cred.kind ≠ "sa_token" then
    ⟨false, false, [s!"credential kind {Json.quoted cred.kind} is not supported by profile {profile.id}"]⟩
  else match parseSaUsername cred.username with
    | none => ⟨false, false, [s!"username {Json.quoted cred.username} is not a service account"]⟩
    | some sa =>
        let problems := expiryReasons cred (at?.getD env.time) at?.isSome ++
          audienceReasons cred profile ++ accountReasons env cred sa ++ boundPodReasons env cred sa
        if problems = [] then
          ⟨true, true, ["unexpired, API audience, service account UID and bound object present"]⟩
        else ⟨false, true, problems⟩

/-! ### Admission -/

inductive AdmissionOutcome where
  | allow | deny | unsupported
deriving DecidableEq, Repr

structure AdmissionDecision where
  outcome : AdmissionOutcome
  policies : List String
deriving DecidableEq, Repr

/-- The service accounts a policy allows a creator, if it restricts that creator. -/
def AdmissionPolicy.namesFor (p : AdmissionPolicy) (creator : String) : Option (List String) :=
  match p.allowedServiceAccounts.lookup creator with
  | some names => some names
  | none => p.allowedServiceAccounts.lookup "*"

/-- Whether a policy denies the creator the service account. -/
def AdmissionPolicy.denies (p : AdmissionPolicy) (creator serviceAccount : String) : Bool :=
  (p.namesFor creator).any fun names => !names.contains "*" && !names.contains serviceAccount

/-- The supported admission policies, for a workload the creator submits; an unsupported policy in
the namespace makes the outcome unsupported. -/
def admissionDecision (env : Env) (creator ns serviceAccount : String) : AdmissionDecision :=
  let relevant := env.admission.filter fun p => p.ns == ns
  let unsupported := (relevant.filter fun p => !p.supported).map AdmissionPolicy.name
  if unsupported ≠ [] then ⟨.unsupported, Text.sortedBy id unsupported⟩
  else match relevant.find? fun p => p.denies creator serviceAccount with
    | some p => ⟨.deny, [p.name]⟩
    | none => ⟨.allow, Text.sortedBy id (relevant.map AdmissionPolicy.name)⟩

/-! ### Environment transitions -/

def modelPodUid (ns serviceAccount : String) (interval : ℤ) : String :=
  modelPodPrefix ++ ns ++ ":" ++ serviceAccount ++ ":i" ++ Text.ofInt interval

def modelControllerUid (ns serviceAccount : String) (interval : ℤ) : String :=
  modelDeployPrefix ++ ns ++ ":" ++ serviceAccount ++ ":i" ++ Text.ofInt interval

/-- The UID of the `k`-th replacement Pod of a controller, and likewise its name. -/
def replacementUid (cuid : String) (k : ℤ) : String := cuid ++ "-p" ++ Text.ofInt k

/-- The first `k` from the given one on whose replacement UID no Pod has. As many candidates as
there are Pods may be taken, so one more than that many are enough. -/
def firstFree (pods : Table Pod.uid) (cuid : String) : ℕ → ℤ → ℤ
  | 0, k => k
  | fuel + 1, k => if pods.contains (replacementUid cuid k) then firstFree pods cuid fuel (k + 1) else k

/-- The replacement Pod of a controller. -/
def replacementPod (c : Controller) (k : ℤ) : Pod :=
  { ns := c.ns, name := replacementUid c.name k, uid := replacementUid c.uid k,
    serviceAccount := c.serviceAccount, tokenAudiences := c.tokenAudiences,
    controllerUid := some c.uid }

/-- Whether some Pod belongs to the controller. -/
def ownsPod (env : Env) (cuid : String) : Bool :=
  env.pods.rows.any fun p => p.controllerUid == some cuid

/-- Give one controller a Pod if it has none; returns the Pod that was added. -/
def reconcileController (env : Env) (c : Controller) : Env × Option Pod :=
  if ownsPod env c.uid then (env, none)
  else
    let next := ((env.controllerPodCounter.get? c.uid).map Prod.snd).getD 0 + 1
    let k := firstFree env.pods c.uid env.pods.rows.length next
    let pod := replacementPod c k
    ({ env with
        controllerPodCounter := env.controllerPodCounter.put (c.uid, k)
        pods := env.pods.put pod }, some pod)

def reconcileEach : List Controller → Env → Env × List Pod
  | [], env => (env, [])
  | c :: cs, env =>
      let (env, pod) := reconcileController env c
      let (env, pods) := reconcileEach cs env
      (env, pod.toList ++ pods)

/-- Controllers recreate a Pod whenever none of theirs exists; returns the created Pods. -/
def reconcileControllers (env : Env) : Env × List Pod :=
  reconcileEach (Text.sortedBy Controller.uid env.controllers.rows) env

/-- Remove the Pods that `p` selects. -/
def Env.dropPods (env : Env) (p : Pod → Bool) : Env :=
  { env with pods := env.pods.filter fun x => !p x }

/-- A rotation of the credential of `svc`. -/
def rotate (env : Env) (svc : DownstreamService) : Env × List String :=
  let sec := env.secrets.get? (svc.sourceNs, svc.sourceSecret)
  let newVersion := max svc.acceptedVersion ((sec.map Secret.version).getD 0) + 1
  let secrets := match sec with
    | none => env.secrets
    | some s => env.secrets.put { s with version := newVersion }
  if svc.rotationPropagationSeconds > 0 then
    -- the version accepted before keeps working until the rotation has propagated
    let til := env.time + svc.rotationPropagationSeconds
    let grace := Text.sortedBy (fun g => toLex g) ((svc.acceptedVersion, til) :: svc.grace).dedup
    ({ env with
        secrets := secrets
        services := env.services.put { svc with acceptedVersion := newVersion, grace := grace } },
      [s!"rotation of {svc.name} propagates for {svc.rotationPropagationSeconds}s; version {svc.acceptedVersion} accepted until {til}"])
  else
    ({ env with
        secrets := secrets
        services := env.services.put { svc with acceptedVersion := newVersion } }, [])

/-- Apply a defender action; returns the notes, such as warnings about actions without effect.  What
an action keeps is a list here; the source joins it in a parameter and splits it again. -/
def applyDefenderAction (env : Env) (action : DefenderAction) : Env × List String :=
  match action with
  | .removeBinding ns name =>
      ({ env with bindings := env.bindings.erase (ns, name) },
        if env.bindings.contains (ns, name) then []
        else ["no-op: binding " ++ ns.getD "<cluster>" ++ s!"/{name} not present"])
  | .deletePod uid =>
      ({ env with pods := env.pods.erase uid },
        if env.pods.contains uid then [] else [s!"no-op: pod UID {uid} not present"])
  | .deleteController uid =>
      -- cascading deletion of the owned Pods
      (({ env with controllers := env.controllers.erase uid } : Env).dropPods
          fun p => p.controllerUid == some uid,
        if env.controllers.contains uid then [] else [s!"no-op: controller UID {uid} not present"])
  | .deletePodsExcept ns sa keep =>
      let victim := fun p : Pod => p.ns == ns && p.serviceAccount == sa && !keep.contains p.uid
      (env.dropPods victim,
        if env.pods.rows.any victim then [] else [s!"no-op: nothing matched {action.label}"])
  | .deleteControllersExcept ns sa keep =>
      let victim := fun c : Controller =>
        c.ns == ns && c.serviceAccount == sa && !keep.contains c.uid
      let victims := (env.controllers.rows.filter victim).map Controller.uid
      (({ env with controllers := env.controllers.filter fun c => !victim c } : Env).dropPods
          fun p => p.controllerUid.any fun c => victims.contains c,
        if victims ≠ [] then [] else [s!"no-op: nothing matched {action.label}"])
  | .deleteServiceAccount ns name =>
      ({ env with serviceAccounts := env.serviceAccounts.erase (ns, name) },
        if env.serviceAccounts.contains (ns, name) then []
        else [s!"no-op: service account {ns}/{name} not present"])
  | .rotateDownstreamCredential service =>
      match env.services.get? service with
      | none => (env, [s!"no-op: service {service} not present"])
      | some svc => rotate env svc
  | .wait seconds => ({ env with time := env.time + seconds }, [])

/-! ### Legitimate operations -/

def legitCanRead (env : Env) (podUid ns secret : String) : Bool × String :=
  match env.pods.get? podUid with
  | none => (false, s!"pod UID {podUid} no longer exists")
  | some pod =>
      if !env.serviceAccounts.contains (pod.ns, pod.serviceAccount) then
        (false, s!"service account {pod.ns}/{pod.serviceAccount} no longer exists")
      else if !env.secrets.contains (ns, secret) then
        (false, s!"secret {ns}/{secret} does not exist")
      else
        let via := authorizingBindings env (saUsername pod.ns pod.serviceAccount) "get" "secrets" ns
          (some secret)
        if via = [] then
          (false, s!"{pod.serviceAccount} is no longer authorized to get secret {ns}/{secret}")
        else (true, "authorized via " ++ String.intercalate ", " via)

def legitCanUseService (env : Env) (podUid service : String) : Bool × String :=
  match env.services.get? service with
  | none => (false, s!"service {service} does not exist")
  | some svc =>
      let (ok, why) := legitCanRead env podUid svc.sourceNs svc.sourceSecret
      if !ok then (false, s!"cannot obtain current credential: {why}")
      else
        let version := ((env.secrets.get? (svc.sourceNs, svc.sourceSecret)).map Secret.version).getD 0
        if version ≠ svc.acceptedVersion then
          (false, s!"secret version {version} is not accepted by {service} (accepts {svc.acceptedVersion})")
        else (true, s!"reads current version {version}, accepted by {service}")

/-- The services that source a Secret. -/
def secretsFeeding (env : Env) (ns name : String) : List DownstreamService :=
  (Text.sortedBy DownstreamService.name env.services.rows).filter fun svc =>
    svc.sourceNs == ns && svc.sourceSecret == name

end Afterlock
