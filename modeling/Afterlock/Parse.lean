import Afterlock.Model

/-!
# Parsing the analysis-input document

`parseAnalysisInput` and the helpers it is built from, with the error texts of the source.  A
parser either returns a value or a `ModelError`; nothing is guessed.
-/

namespace Afterlock

open Json

/-- Input that violates the analysis-input contract. -/
structure ModelError where
  message : String
deriving DecidableEq, Repr

/-- The result of a parser. -/
abbrev Parsed (α : Type) : Type := Except ModelError α

def reject {α : Type} (message : String) : Parsed α := .error ⟨message⟩

/-- `if c: raise ModelError(message)`. -/
def rejectIf (c : Prop) [Decidable c] (message : String) : Parsed Unit :=
  if c then reject message else .ok ()

namespace Parse

/-! ### Helpers -/

def obj (value : Json) (loc : String) : Parsed Fields :=
  match value with
  | .obj m => .ok m
  | _ => reject s!"{loc}: expected object"

def list (value : Json) (loc : String) : Parsed (List Json) :=
  match value with
  | .null => .ok []
  | .arr xs => if xs.length > maxCollection then reject s!"{loc}: too many entries" else .ok xs
  | _ => reject s!"{loc}: expected list"

/-- The bound on strings, checked wherever the document gives one. -/
def goodStr (s : String) : Bool := s ≠ "" && s.length ≤ maxString

def optStr (m : Fields) (key loc : String) : Parsed (Option String) :=
  match get m key with
  | .null => .ok none
  | .str s =>
      if goodStr s then .ok (some s)
      else reject s!"{loc}: '{key}' must be a non-empty string of at most {maxString} chars"
  | _ => reject s!"{loc}: '{key}' must be a non-empty string of at most {maxString} chars"

def reqStr (m : Fields) (key loc : String) : Parsed String := do
  match ← optStr m key loc with
  | none => reject s!"{loc}: missing string '{key}'"
  | some s => pure s

def optInt (m : Fields) (key loc : String) (minimum : ℤ) : Parsed (Option ℤ) :=
  match get m key with
  | .null => .ok none
  | .int n =>
      if n < minimum then reject s!"{loc}: '{key}' must be an integer >= {minimum}" else .ok (some n)
  | _ => reject s!"{loc}: '{key}' must be an integer >= {minimum}"

def reqInt (m : Fields) (key loc : String) (minimum : ℤ) : Parsed ℤ := do
  match ← optInt m key loc minimum with
  | none => reject s!"{loc}: missing integer '{key}'"
  | some n => pure n

/-- One entry of a list of strings; `i` is its position. -/
def strEntry (loc : String) (i : ℕ) (item : Json) : Parsed String :=
  match item with
  | .str s => if goodStr s then .ok s else reject s!"{loc}[{i}]: expected non-empty string"
  | _ => reject s!"{loc}[{i}]: expected non-empty string"

/-- The entries of a list of strings from position `i` on. -/
def strEntries (loc : String) (i : ℕ) : List Json → Parsed (List String)
  | [] => .ok []
  | x :: xs => do
      let s ← strEntry loc i x
      let rest ← strEntries loc (i + 1) xs
      pure (s :: rest)

def strs (value : Json) (loc : String) : Parsed (List String) := do
  strEntries loc 0 (← list value loc)

def notReserved (uid loc : String) : Parsed Unit :=
  if isModelUid uid then
    reject s!"{loc}: UID {quoted uid} uses a prefix reserved for model-created objects ('model-pod:', 'model-deploy:')"
  else .ok ()

/-- `seen` are the keys of the items before. -/
def uniqueFrom {α κ : Type} [DecidableEq κ] (key : α → κ) (shown : κ → String) (loc : String) :
    List κ → List α → Parsed Unit
  | _, [] => .ok ()
  | seen, x :: xs =>
      if key x ∈ seen then reject s!"{loc}: duplicate identifier {shown (key x)}"
      else uniqueFrom key shown loc (key x :: seen) xs

def unique {α κ : Type} [DecidableEq κ] (key : α → κ) (shown : κ → String) (loc : String)
    (xs : List α) : Parsed Unit := uniqueFrom key shown loc [] xs

/-- `repr` of a pair of names, the first of which may be absent. -/
def showPair (p : Option String × String) : String :=
  "(" ++ (p.1.map quoted).getD "None" ++ ", " ++ quoted p.2 ++ ")"

/-- `str(m.get(key, ""))[:MAX_STRING]`. -/
def shortText (m : Fields) (key : String) : String :=
  let v := if has m key then (get m key).text else ""
  String.ofList (v.toList.take maxString)

/-! ### The inventory -/

def profile (m : Fields) : Parsed Profile := do
  let ttl ← reqInt m "projected_token_ttl_seconds" "profile" 1
  let auds ← strs (get m "api_audiences") "profile.api_audiences"
  rejectIf auds.isEmpty "profile.api_audiences must not be empty"
  let id ← reqStr m "id" "profile"
  let version ← reqStr m "kubernetes_version" "profile"
  pure { id := id, kubernetesVersion := version, apiAudiences := auds,
         projectedTokenTtlSeconds := ttl }

def rule (loc : String) (raw : Json) : Parsed PolicyRule := do
  let m ← obj raw loc
  let verbs ← strs (get m "verbs") s!"{loc}.verbs"
  let resources ← strs (get m "resources") s!"{loc}.resources"
  rejectIf (verbs.isEmpty || resources.isEmpty) s!"{loc}: verbs and resources are required"
  match get m "resource_names" with
  | .null => pure { verbs := verbs, resources := resources, resourceNames := none }
  | names => do
      let names ← strs names s!"{loc}.resource_names"
      pure { verbs := verbs, resources := resources, resourceNames := some names }

def serviceAccount (raw : Json) : Parsed ServiceAccount := do
  let m ← obj raw "inventory.service_accounts"
  pure { ns := ← reqStr m "namespace" "inventory", name := ← reqStr m "name" "inventory",
         uid := ← reqStr m "uid" "inventory" }

def pod (raw : Json) : Parsed Pod := do
  let m ← obj raw "inventory.pods"
  let auds ← if has m "token_audiences" then
    strs (get m "token_audiences") "inventory.pods.token_audiences" else pure []
  pure { ns := ← reqStr m "namespace" "inventory", name := ← reqStr m "name" "inventory",
         uid := ← reqStr m "uid" "inventory",
         serviceAccount := ← reqStr m "service_account" "inventory", tokenAudiences := auds,
         controllerUid := ← optStr m "controller_uid" "inventory" }

def controller (raw : Json) : Parsed Controller := do
  let m ← obj raw "inventory.controllers"
  let auds ← if has m "token_audiences" then
    strs (get m "token_audiences") "inventory.controllers.token_audiences" else pure []
  pure { ns := ← reqStr m "namespace" "inventory", name := ← reqStr m "name" "inventory",
         uid := ← reqStr m "uid" "inventory",
         serviceAccount := ← reqStr m "service_account" "inventory", tokenAudiences := auds }

def role (raw : Json) : Parsed Role := do
  let m ← obj raw "inventory.roles"
  let rules ← (← list (get m "rules") "inventory.roles.rules").mapM (rule "inventory.roles.rules")
  pure { ns := ← optStr m "namespace" "inventory", name := ← reqStr m "name" "inventory",
         rules := rules }

def subjectKind (text : String) : Parsed SubjectKind :=
  if text = "ServiceAccount" then .ok .serviceAccount
  else if text = "User" then .ok .user
  else if text = "Group" then .ok .group
  else reject s!"inventory.bindings.subjects: unsupported kind {quoted text}"

def subject (raw : Json) : Parsed Subject := do
  let m ← obj raw "inventory.bindings.subjects"
  let kind ← subjectKind (← reqStr m "kind" "inventory")
  let ns ← optStr m "namespace" "inventory"
  rejectIf (kind = .serviceAccount ∧ ns = none)
    "inventory.bindings.subjects: ServiceAccount subject requires namespace"
  pure { kind := kind, name := ← reqStr m "name" "inventory", ns := ns }

def roleKind (text : String) : Parsed RoleKind :=
  if text = "Role" then .ok .role
  else if text = "ClusterRole" then .ok .clusterRole
  else reject s!"inventory.bindings: unsupported role_kind {quoted text}"

def binding (raw : Json) : Parsed RoleBinding := do
  let m ← obj raw "inventory.bindings"
  let kind ← roleKind (← reqStr m "role_kind" "inventory")
  let ns ← optStr m "namespace" "inventory"
  rejectIf (ns = none ∧ kind = .role)
    "inventory.bindings: a ClusterRoleBinding cannot reference a Role"
  let subjects ← (← list (get m "subjects") "inventory.bindings.subjects").mapM subject
  pure { ns := ns, name := ← reqStr m "name" "inventory", roleKind := kind,
         roleName := ← reqStr m "role_name" "inventory", subjects := subjects }

def secret (raw : Json) : Parsed Secret := do
  let m ← obj raw "inventory.secrets"
  rejectIf (has m "data" || has m "string_data" || has m "stringData")
    "inventory.secrets: secret bodies must never be supplied"
  let version ← reqInt m "version" "inventory" 1
  pure { ns := ← reqStr m "namespace" "inventory", name := ← reqStr m "name" "inventory",
         uid := ← reqStr m "uid" "inventory", version := version }

def service (raw : Json) : Parsed DownstreamService := do
  let m ← obj raw "inventory.services"
  let version ← reqInt m "accepted_version" "inventory" 1
  let delay ← optInt m "rotation_propagation_seconds" "inventory" 0
  pure { name := ← reqStr m "name" "inventory", sourceNs := ← reqStr m "source_namespace" "inventory",
         sourceSecret := ← reqStr m "source_secret" "inventory", acceptedVersion := version,
         rotationPropagationSeconds := delay.getD 0, grace := [] }

def allowedEntry (kv : String × Json) : Parsed (String × List String) := do
  pure (kv.1, ← strs kv.2 "inventory.admission_policies.allowed")

def admissionPolicy (raw : Json) : Parsed AdmissionPolicy := do
  let m ← obj raw "inventory.admission_policies"
  let allowed ← obj (orElse (get m "allowed_service_accounts") (.obj [])) "inventory"
  let entries ← (items allowed).mapM allowedEntry
  pure { ns := ← reqStr m "namespace" "inventory", name := ← reqStr m "name" "inventory",
         kind := ← reqStr m "kind" "inventory",
         allowedServiceAccounts := Text.sortedBy (fun e => e.1) entries }

/-- A Pod may only name a controller of the inventory. -/
def podController (controllers : List Controller) (p : Pod) : Parsed Unit :=
  match p.controllerUid with
  | none => .ok ()
  | some c =>
      if c ∈ controllers.map Controller.uid then .ok ()
      else reject s!"inventory.pods: pod {p.uid} references unknown controller {c}"

def inventory (m : Fields) : Parsed Inventory := do
  let sas ← (← list (get m "service_accounts") "inventory").mapM serviceAccount
  let pods ← (← list (get m "pods") "inventory.pods").mapM pod
  let controllers ← (← list (get m "controllers") "inventory.controllers").mapM controller
  let roles ← (← list (get m "roles") "inventory.roles").mapM role
  let bindings ← (← list (get m "bindings") "inventory.bindings").mapM binding
  let secrets ← (← list (get m "secrets") "inventory.secrets").mapM secret
  let services ← (← list (get m "services") "inventory.services").mapM service
  let policies ← (← list (get m "admission_policies") "inventory.admission_policies").mapM
    admissionPolicy
  unique ServiceAccount.uid quoted "inventory.service_accounts uid" sas
  unique ServiceAccount.key (fun k => showPair (some k.1, k.2)) "inventory.service_accounts name" sas
  unique Pod.uid quoted "inventory.pods uid" pods
  unique (fun p : Pod => (p.ns, p.name)) (fun k => showPair (some k.1, k.2)) "inventory.pods name" pods
  unique Controller.uid quoted "inventory.controllers uid" controllers
  unique Role.key showPair "inventory.roles" roles
  unique RoleBinding.ident showPair "inventory.bindings" bindings
  unique Secret.key (fun k => showPair (some k.1, k.2)) "inventory.secrets" secrets
  unique DownstreamService.name quoted "inventory.services" services
  (pods.map Pod.uid ++ controllers.map Controller.uid).forM fun uid => notReserved uid "inventory"
  pods.forM (podController controllers)
  -- the sort keys stop at the first fields that are already unique
  pure { serviceAccounts := Text.sortedBy (fun s => [s.ns, s.name]) sas,
         pods := Text.sortedBy (fun p => [p.ns, p.name]) pods,
         controllers := Text.sortedBy (fun c => [c.ns, c.name, c.uid]) controllers,
         roles := Text.sortedBy (fun r => [r.ns.getD "", r.name]) roles,
         bindings := Text.sortedBy (fun b => [b.ns.getD "", b.name]) bindings,
         secrets := Text.sortedBy (fun s => [s.ns, s.name]) secrets,
         services := Text.sortedBy (fun s => [s.name]) services,
         admissionPolicies := Text.sortedBy
           (fun p => [p.ns] :: [p.name] :: [p.kind] ::
             p.allowedServiceAccounts.map fun e => e.1 :: e.2) policies }

/-! ### Defender actions -/

/-- The fields an action of each kind must have. -/
def requiredFields (kind : String) : Option (List String) :=
  if kind = "remove_binding" then some ["name"]
  else if kind = "delete_pod" then some ["uid"]
  else if kind = "delete_controller" then some ["uid"]
  else if kind = "delete_service_account" then some ["namespace", "name"]
  else if kind = "delete_pods_except" then some ["namespace", "service_account"]
  else if kind = "delete_controllers_except" then some ["namespace", "service_account"]
  else if kind = "rotate_downstream_credential" then some ["service"]
  else if kind = "wait" then some []
  else none

/-- The UIDs to keep, sorted and without repetition. -/
def keepUids (m : Fields) (loc : String) : Parsed (List String) := do
  let keep ← strs (get m "keep_uids") s!"{loc}.keep_uids"
  let keep := Text.sortedBy id keep.dedup
  rejectIf (keep.any fun k => k.toList.contains ',') s!"{loc}: keep_uids entries must not contain commas"
  pure keep

/-- The action of a kind, from the fields the kind has. -/
def actionBody (m : Fields) (kind loc : String) : Parsed DefenderAction := do
  if kind = "remove_binding" then
    let name ← reqStr m "name" loc
    pure (.removeBinding (← optStr m "namespace" loc) name)
  else if kind = "delete_pod" then
    let uid ← reqStr m "uid" loc
    notReserved uid loc
    pure (.deletePod uid)
  else if kind = "delete_controller" then
    let uid ← reqStr m "uid" loc
    notReserved uid loc
    pure (.deleteController uid)
  else if kind = "delete_pods_except" then
    let ns ← reqStr m "namespace" loc
    let sa ← reqStr m "service_account" loc
    pure (.deletePodsExcept ns sa (← keepUids m loc))
  else if kind = "delete_controllers_except" then
    let ns ← reqStr m "namespace" loc
    let sa ← reqStr m "service_account" loc
    pure (.deleteControllersExcept ns sa (← keepUids m loc))
  else if kind = "delete_service_account" then
    let ns ← reqStr m "namespace" loc
    let name ← reqStr m "name" loc
    pure (.deleteServiceAccount ns name)
  else if kind = "rotate_downstream_credential" then
    pure (.rotateDownstreamCredential (← reqStr m "service" loc))
  else
    pure (.wait (← reqInt m "seconds" loc 1))

def action (loc : String) (raw : Json) : Parsed DefenderAction := do
  let m ← obj raw loc
  let kind ← reqStr m "kind" loc
  match requiredFields kind with
  | none => reject s!"{loc}: unsupported defender action {quoted kind}"
  | some required => do
      let a ← actionBody m kind loc
      let extra := (items m).filter fun kv =>
        kv.1 ∉ "kind" :: "namespace" :: "seconds" :: "keep_uids" :: required
      if extra.isEmpty then pure a
      else reject s!"{loc}: unknown fields {(Json.arr ((Text.sortedBy id (extra.map Prod.fst)).map .str)).repr}"

/-- The actions of a list from position `i` on. -/
def actionsFrom (loc : String) (i : ℕ) : List Json → Parsed (List DefenderAction)
  | [] => .ok []
  | x :: xs => do
      let a ← action s!"{loc}[{i}]" x
      let rest ← actionsFrom loc (i + 1) xs
      pure (a :: rest)

def actions (raw : Json) (loc : String) : Parsed (List DefenderAction) := do
  actionsFrom loc 0 (← list raw loc)

/-! ### The analysis input -/

/-- `int(schema.rsplit("/", 1)[1].split(".")[0])` for a schema with the expected beginning. -/
def schemaMajor? (schema : String) : Option ℤ :=
  let version := (Text.splitOn '/' schema).getLastD ""
  Text.toInt? ((Text.splitOn '.' version).headD "")

def credential (raw : Json) : Parsed CredentialSpec := do
  let m ← obj raw "credentials"
  pure { id := ← reqStr m "id" "credentials", kind := ← reqStr m "kind" "credentials",
         username := ← reqStr m "username" "credentials",
         saUid := ← optStr m "sa_uid" "credentials",
         boundPodUid := ← optStr m "bound_pod_uid" "credentials",
         audience := ← reqStr m "audience" "credentials",
         expiresAt := ← optInt m "expires_at" "credentials" 0 }

def epistemic (text : String) : Parsed Epistemic :=
  if text = "observed" then .ok .observed
  else if text = "assumed" then .ok .assumed
  else if text = "inferred" then .ok .inferred
  else reject s!"initial_facts: unknown epistemic status {quoted text}"

/-- The claim of a fact of a kind, from its arguments. -/
def claim (kind : String) (args : List String) : Parsed FactClaim :=
  if kind = "possesses_credential" then
    match args with
    | [id] => .ok (.possessesCredential id)
    | _ => reject s!"initial_facts: {kind} expects 1 args"
  else if kind = "controls_pod" then
    match args with
    | [uid] => .ok (.controlsPod uid)
    | _ => reject s!"initial_facts: {kind} expects 1 args"
  else if kind = "controls_controller" then
    match args with
    | [uid] => .ok (.controlsController uid)
    | _ => reject s!"initial_facts: {kind} expects 1 args"
  else if kind = "knows_secret" then
    match args with
    | [ns, name, version] => .ok (.knowsSecret ns name version)
    | _ => reject s!"initial_facts: {kind} expects 3 args"
  else if kind = "historical_pod" then
    match args with
    | [uid, ns, sa] => .ok (.historicalPod uid ns sa)
    | _ => reject s!"initial_facts: {kind} expects 3 args"
  else reject s!"initial_facts: unsupported fact kind {quoted kind}"

/-- The checks that depend on the kind of a fact. -/
def checkClaim (credIds : List String) : FactClaim → Parsed Unit
  | .possessesCredential id =>
      if id ∈ credIds then .ok () else reject s!"initial_facts: unknown credential {quoted id}"
  | .controlsPod uid => notReserved uid "initial_facts"
  | .controlsController uid => notReserved uid "initial_facts"
  | .historicalPod uid _ _ => notReserved uid "initial_facts"
  | .knowsSecret _ _ version =>
      match Text.toInt? version with
      | some n =>
          if n < 1 then reject "initial_facts: knows_secret version must be a positive integer"
          else .ok ()
      | none => reject "initial_facts: knows_secret version must be a positive integer"

def initialFact (credIds : List String) (raw : Json) : Parsed InitialFact := do
  let m ← obj raw "initial_facts"
  let kind ← reqStr m "kind" "initial_facts"
  let args ← strs (get m "args") "initial_facts.args"
  let c ← claim kind args
  let status ← epistemic (← reqStr m "status" "initial_facts")
  checkClaim credIds c
  pure { claim := c, status := status, evidence := ← strs (get m "evidence") "initial_facts.evidence",
         note := shortText m "note" }

def objectiveTarget (m : Fields) (kind : String) : Parsed ObjectiveTarget := do
  if kind = "no_secret_read" then
    pure (.noSecretRead (← reqStr m "namespace" "objectives") (← reqStr m "secret" "objectives"))
  else if kind = "no_downstream_use" then
    pure (.noDownstreamUse (← reqStr m "service" "objectives"))
  else reject s!"objectives: unsupported objective kind {quoted kind}"

def objective (raw : Json) : Parsed Objective := do
  let m ← obj raw "objectives"
  let kind ← reqStr m "kind" "objectives"
  let target ← objectiveTarget m kind
  pure { id := ← reqStr m "id" "objectives", target := target,
         description := shortText m "description" }

def legitTarget (m : Fields) (kind : String) : Parsed LegitTarget := do
  if kind = "read_secret" then
    pure (.readSecret (← reqStr m "namespace" "legitimate_operations")
      (← reqStr m "secret" "legitimate_operations"))
  else if kind = "use_downstream" then
    pure (.useDownstream (← reqStr m "service" "legitimate_operations"))
  else reject s!"legitimate_operations: unsupported kind {quoted kind}"

def legitimateOperation (raw : Json) : Parsed LegitimateOperation := do
  let m ← obj raw "legitimate_operations"
  let kind ← reqStr m "kind" "legitimate_operations"
  let target ← legitTarget m kind
  pure { id := ← reqStr m "id" "legitimate_operations",
         podUid := ← reqStr m "pod_uid" "legitimate_operations", target := target,
         description := shortText m "description" }

def coverageGap (raw : Json) : Parsed CoverageGap := do
  let m ← obj raw "coverage_gaps"
  pure { id := ← reqStr m "id" "coverage_gaps", kind := ← reqStr m "kind" "coverage_gaps",
         description := shortText m "description",
         evidence := ← strs (get m "evidence") "coverage_gaps.evidence" }

def bounds (value : Json) : Parsed Bounds := do
  let b ← obj (orElse value (.obj [])) "bounds"
  pure { maxIntervals := (← optInt b "max_intervals" "bounds" 1).getD 64,
         maxDerivations := (← optInt b "max_derivations" "bounds" 1).getD 100000,
         maxStates := (← optInt b "max_states" "bounds" 1).getD 200000 }

def schema (m : Fields) : Parsed Unit :=
  match get m "schema" with
  | .str s =>
      if Text.hasPrefix "afterlock.analysis-input/" s then
        match schemaMajor? s with
        | none => reject "malformed schema version"
        | some n =>
            if n = supportedSchemaMajor then .ok ()
            else reject s!"unsupported schema major version {Text.ofInt n}"
      else reject "unrecognized schema identifier"
  | _ => reject "unrecognized schema identifier"

end Parse

def parseActions (raw : Json) : Parsed (List DefenderAction) := Parse.actions raw "remediation"

def parseAnalysisInput (raw : Json) : Parsed AnalysisInput := do
  let m ← Parse.obj raw "analysis input"
  Parse.schema m
  let time ← Parse.reqInt m "analysis_time" "analysis input" 0
  let start ← Parse.optInt m "history_start" "analysis input" 0
  rejectIf (start.any fun s => time < s) "history_start must not be after analysis_time"
  let profile ← Parse.profile (← Parse.obj (get m "profile") "profile")
  let inventory ← Parse.inventory (← Parse.obj (get m "inventory") "inventory")
  let creds ← (← Parse.list (get m "credentials") "credentials").mapM Parse.credential
  Parse.unique CredentialSpec.id quoted "credentials" creds
  let facts ← (← Parse.list (get m "initial_facts") "initial_facts").mapM
    (Parse.initialFact (creds.map CredentialSpec.id))
  let objectives ← (← Parse.list (get m "objectives") "objectives").mapM Parse.objective
  rejectIf objectives.isEmpty "at least one objective is required"
  Parse.unique Objective.id quoted "objectives" objectives
  let legit ← (← Parse.list (get m "legitimate_operations") "legitimate_operations").mapM
    Parse.legitimateOperation
  Parse.unique LegitimateOperation.id quoted "legitimate_operations" legit
  let gaps ← (← Parse.list (get m "coverage_gaps") "coverage_gaps").mapM Parse.coverageGap
  let bounds ← Parse.bounds (get m "bounds")
  let remediation ← parseActions (get m "remediation")
  rejectIf ((remediation.length : ℤ) + 1 > bounds.maxIntervals)
    "remediation longer than bounds.max_intervals"
  pure { caseId := ← Parse.reqStr m "case_id" "analysis input",
         clusterId := ← Parse.reqStr m "cluster_id" "analysis input",
         analysisTime := time, profile := profile, inventory := inventory,
         credentials := Text.sortedBy (fun c => [c.id]) creds,
         initialFacts := Text.sortedBy
           (fun f => [[f.claim.kind], f.claim.args, [f.status.text], f.evidence, [f.note]]) facts,
         remediation := remediation,
         objectives := Text.sortedBy (fun o => [o.id]) objectives,
         legitimateOperations := Text.sortedBy (fun o => [o.id]) legit,
         coverageGaps := Text.sortedBy (fun g => g.id) gaps,
         assumptions := ← Parse.strs (get m "assumptions") "assumptions",
         bounds := bounds, historyStart := start }

end Afterlock
