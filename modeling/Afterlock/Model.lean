import Afterlock.Json

/-!
# The domain model of an analysis input

Objects are identified by UID; names are labels.  `parseAnalysisInput` turns the canonical
`afterlock.analysis-input/1` document into typed values and rejects anything else with the error
the source gives.

The digest of the raw document is left out: no modelled function reads it.
-/

namespace Afterlock

def analysisInputSchema : String := "afterlock.analysis-input/1"
def supportedSchemaMajor : ℤ := 1
def saUserPrefix : String := "system:serviceaccount:"
def maxString : ℕ := 512
def maxCollection : ℕ := 10000

/-- UID prefixes of the attacker-created objects that the engine models but has not observed. -/
def modelPodPrefix : String := "model-pod:"
def modelDeployPrefix : String := "model-deploy:"

/-- `uid.startswith(MODEL_UID_PREFIXES)`. -/
def isModelUid (uid : String) : Bool :=
  Text.hasPrefix modelPodPrefix uid || Text.hasPrefix modelDeployPrefix uid

def saUsername (ns name : String) : String := saUserPrefix ++ ns ++ ":" ++ name

def parseSaUsername (username : String) : Option (String × String) :=
  if Text.hasPrefix saUserPrefix username then
    match Text.splitOn ':' (Text.dropLen saUserPrefix username) with
    | [ns, name] => if ns ≠ "" ∧ name ≠ "" then some (ns, name) else none
    | _ => none
  else none

/-! ### Entities -/

structure ServiceAccount where
  ns : String
  name : String
  uid : String
deriving DecidableEq, Repr

namespace ServiceAccount
def key (s : ServiceAccount) : String × String := (s.ns, s.name)
def username (s : ServiceAccount) : String := saUsername s.ns s.name
end ServiceAccount

structure Pod where
  ns : String
  name : String
  uid : String
  serviceAccount : String
  tokenAudiences : List String
  controllerUid : Option String
deriving DecidableEq, Repr

structure Controller where
  ns : String
  name : String
  uid : String
  serviceAccount : String
  tokenAudiences : List String
deriving DecidableEq, Repr

/-- A rule of a role; `resourceNames = none` means any name. -/
structure PolicyRule where
  verbs : List String
  resources : List String
  resourceNames : Option (List String)
deriving DecidableEq, Repr

/-- A rule restricted by `resourceNames` never authorizes a request without a name. -/
def PolicyRule.allows (r : PolicyRule) (verb resource : String) (name : Option String) : Bool :=
  if !r.verbs.contains "*" && !r.verbs.contains verb then false
  else if !r.resources.contains "*" && !r.resources.contains resource then false
  else match r.resourceNames with
    | none => true
    | some names => match name with
      | none => false
      | some n => names.contains n

/-- `ns = none` is a ClusterRole. -/
structure Role where
  ns : Option String
  name : String
  rules : List PolicyRule
deriving DecidableEq, Repr

def Role.key (r : Role) : Option String × String := (r.ns, r.name)

inductive SubjectKind where
  | serviceAccount | user | group
deriving DecidableEq, Repr

structure Subject where
  kind : SubjectKind
  name : String
  ns : Option String
deriving DecidableEq, Repr

inductive RoleKind where
  | role | clusterRole
deriving DecidableEq, Repr

/-- `ns = none` is a ClusterRoleBinding. -/
structure RoleBinding where
  ns : Option String
  name : String
  roleKind : RoleKind
  roleName : String
  subjects : List Subject
deriving DecidableEq, Repr

namespace RoleBinding
def ident (b : RoleBinding) : Option String × String := (b.ns, b.name)
/-- The printed key of a binding. -/
def key (b : RoleBinding) : String := b.ns.getD "<cluster>" ++ "/" ++ b.name
end RoleBinding

structure Secret where
  ns : String
  name : String
  uid : String
  version : ℤ
deriving DecidableEq, Repr

def Secret.key (s : Secret) : String × String := (s.ns, s.name)

/-- `grace` holds the pairs (version, accepted until) still honoured after earlier rotations. -/
structure DownstreamService where
  name : String
  sourceNs : String
  sourceSecret : String
  acceptedVersion : ℤ
  rotationPropagationSeconds : ℤ
  grace : List (ℤ × ℤ)
deriving DecidableEq, Repr

def DownstreamService.accepts (s : DownstreamService) (version time : ℤ) : Bool :=
  version == s.acceptedVersion || s.grace.any fun g => g.1 == version && decide (time < g.2)

structure AdmissionPolicy where
  ns : String
  name : String
  kind : String
  allowedServiceAccounts : List (String × List String)
deriving DecidableEq, Repr

def AdmissionPolicy.supported (p : AdmissionPolicy) : Bool := p.kind == "service-account-restriction"

structure Inventory where
  serviceAccounts : List ServiceAccount
  pods : List Pod
  controllers : List Controller
  roles : List Role
  bindings : List RoleBinding
  secrets : List Secret
  services : List DownstreamService
  admissionPolicies : List AdmissionPolicy
deriving DecidableEq, Repr

/-! ### Attacker state and remediation -/

/-- Metadata about a credential; `expiresAt = none` is no modelled expiry. -/
structure CredentialSpec where
  id : String
  kind : String
  username : String
  saUid : Option String
  boundPodUid : Option String
  audience : String
  expiresAt : Option ℤ
deriving DecidableEq, Repr

inductive Epistemic where
  | observed | assumed | inferred
deriving DecidableEq, Repr

def Epistemic.text : Epistemic → String
  | observed => "observed"
  | assumed => "assumed"
  | inferred => "inferred"

/-- What an initial fact says; the arguments are those of its kind. -/
inductive FactClaim where
  | possessesCredential (id : String)
  | controlsPod (uid : String)
  | controlsController (uid : String)
  /-- The version is the text of the document, a positive numeral. -/
  | knowsSecret (ns name version : String)
  | historicalPod (uid ns serviceAccount : String)
deriving DecidableEq, Repr

namespace FactClaim
def kind : FactClaim → String
  | possessesCredential _ => "possesses_credential"
  | controlsPod _ => "controls_pod"
  | controlsController _ => "controls_controller"
  | knowsSecret .. => "knows_secret"
  | historicalPod .. => "historical_pod"

def args : FactClaim → List String
  | possessesCredential id => [id]
  | controlsPod uid => [uid]
  | controlsController uid => [uid]
  | knowsSecret ns name version => [ns, name, version]
  | historicalPod uid ns sa => [uid, ns, sa]
end FactClaim

/-- An attacker acquisition established before analysis time. -/
structure InitialFact where
  claim : FactClaim
  status : Epistemic
  evidence : List String
  note : String
deriving DecidableEq, Repr

/-- A defender action. The UIDs to keep are sorted, distinct and without commas. -/
inductive DefenderAction where
  | removeBinding (ns : Option String) (name : String)
  | deletePod (uid : String)
  | deleteController (uid : String)
  | deletePodsExcept (ns serviceAccount : String) (keepUids : List String)
  | deleteControllersExcept (ns serviceAccount : String) (keepUids : List String)
  | deleteServiceAccount (ns name : String)
  | rotateDownstreamCredential (service : String)
  | wait (seconds : ℤ)
deriving DecidableEq, Repr

namespace DefenderAction
def kind : DefenderAction → String
  | removeBinding .. => "remove_binding"
  | deletePod _ => "delete_pod"
  | deleteController _ => "delete_controller"
  | deletePodsExcept .. => "delete_pods_except"
  | deleteControllersExcept .. => "delete_controllers_except"
  | deleteServiceAccount .. => "delete_service_account"
  | rotateDownstreamCredential _ => "rotate_downstream_credential"
  | wait _ => "wait"

/-- The parameters as text, sorted by name. -/
def params : DefenderAction → List (String × String)
  | removeBinding ns name => ("name", name) :: (ns.map fun n => ("namespace", n)).toList
  | deletePod uid => [("uid", uid)]
  | deleteController uid => [("uid", uid)]
  | deletePodsExcept ns sa keep =>
      [("keep_uids", String.intercalate "," keep), ("namespace", ns), ("service_account", sa)]
  | deleteControllersExcept ns sa keep =>
      [("keep_uids", String.intercalate "," keep), ("namespace", ns), ("service_account", sa)]
  | deleteServiceAccount ns name => [("name", name), ("namespace", ns)]
  | rotateDownstreamCredential service => [("service", service)]
  | wait seconds => [("seconds", Text.ofInt seconds)]

def label (a : DefenderAction) : String :=
  a.kind ++ "(" ++ String.intercalate ", " (a.params.map fun kv => kv.1 ++ "=" ++ kv.2) ++ ")"
end DefenderAction

/-- What an objective protects. -/
inductive ObjectiveTarget where
  | noSecretRead (ns secret : String)
  | noDownstreamUse (service : String)
deriving DecidableEq, Repr

structure Objective where
  id : String
  target : ObjectiveTarget
  description : String
deriving DecidableEq, Repr

/-- What a legitimate operation does. -/
inductive LegitTarget where
  | readSecret (ns secret : String)
  | useDownstream (service : String)
deriving DecidableEq, Repr

structure LegitimateOperation where
  id : String
  podUid : String
  target : LegitTarget
  description : String
deriving DecidableEq, Repr

structure CoverageGap where
  id : String
  kind : String
  description : String
  evidence : List String
deriving DecidableEq, Repr

/-- The API audiences are not empty: the first one and the others. -/
structure Profile where
  id : String
  kubernetesVersion : String
  apiAudiences : List String
  projectedTokenTtlSeconds : ℤ
deriving DecidableEq, Repr

/-- The audience of a token whose Pod names none. -/
def Profile.defaultAudience (p : Profile) : String := p.apiAudiences.headD ""

structure Bounds where
  maxIntervals : ℤ
  maxDerivations : ℤ
  maxStates : ℤ
deriving DecidableEq, Repr

structure AnalysisInput where
  caseId : String
  clusterId : String
  analysisTime : ℤ
  profile : Profile
  inventory : Inventory
  credentials : List CredentialSpec
  initialFacts : List InitialFact
  remediation : List DefenderAction
  objectives : List Objective
  legitimateOperations : List LegitimateOperation
  coverageGaps : List CoverageGap
  assumptions : List String
  bounds : Bounds
  /-- The earliest time the seeded state may have been held; `none` is unbounded below. -/
  historyStart : Option ℤ
deriving DecidableEq, Repr

namespace AnalysisInput
/-- `inp.credential(id)`; the parser checks that a possessed credential is listed. -/
def credential? (inp : AnalysisInput) (id : String) : Option CredentialSpec :=
  inp.credentials.find? fun c => decide (c.id = id)

def withRemediation (inp : AnalysisInput) (actions : List DefenderAction) : AnalysisInput :=
  { inp with remediation := actions }
end AnalysisInput

end Afterlock
