import Afterlock.Evidence.Envelope
import Afterlock.Lib.Gather

/-!
# The projection of evidence

`project` turns a replay bundle into the document of an analysis.  First the Pods of the attacker
are found (`attribution`): an event that was made from a Pod of the attacker can give the attacker
further Pods.  Then each event is read once more, for what it says of the attacker (`collect`).

The source fails with an exception where a bundle is not well formed; which exception that is, and
its text, is left out: `none`.
-/

namespace Afterlock

namespace Evidence

open Json

/-! ### Reading what may be anything -/

/-- `for x in value`; `none` is a value that is no collection. -/
def iterate : Json → Option (List Json)
  | .arr xs => some xs
  | .obj m => some ((items m).map fun e => .str e.1)
  | .str s => some (s.toList.map fun c => .str c.toString)
  | _ => none

/-- `m.get(key, default)`. -/
def getD (m : Fields) (key : String) (default : Json) : Json := (m.lookup key).getD default

/-- `value or {}`, for a use of its `get`. -/
def dict (value : Json) : Option Fields :=
  match orElse value (.obj []) with
  | .obj m => some m
  | _ => none

/-- Whether the value can be looked up in a set. -/
def hashable : Json → Bool
  | .arr _ | .obj _ => false
  | _ => true

/-- `value in xs`, for a set of texts. -/
def isIn (value : Json) (xs : List String) : Option Bool :=
  if hashable value then some (value.asStr?.any (· ∈ xs)) else none

/-! ### The inventory and the case -/

/-- `pods_by_uid`.  A Pod with a UID that is no text is left out: no bundle with one is accepted. -/
def podsByUid (inventory : Fields) : Option (Table (Prod.fst : String × Fields → String)) :=
  (iterate (getD inventory "pods" (.arr []))).map fun pods =>
    Table.ofList (pods.filterMap fun p =>
      match p with
      | .obj m => (get m "uid").asStr?.map fun uid => (uid, m)
      | _ => none)

/-- A Secret of the inventory, under its namespace and name. -/
def secretEntry? (m : Fields) : Option ((String × String) × Fields) :=
  match get m "namespace", get m "name" with
  | .str ns, .str name => some ((ns, name), m)
  | _, _ => none

/-- `secrets`.  A Secret whose name is no text is left out: no bundle with one is accepted. -/
def secretsByName (inventory : Fields) :
    Option (Table (Prod.fst : (String × String) × Fields → String × String)) :=
  (iterate (getD inventory "secrets" (.arr []))).map fun secrets =>
    Table.ofList (secrets.filterMap fun s =>
      match s with
      | .obj m => secretEntry? m
      | _ => none)

/-- A credential of the case, or one that was seen in use. -/
structure Credential where
  id : String
  fields : Fields

/-- A fact, with the records that it rests on. -/
structure Entry where
  kind : String
  args : List String
  status : String
  evidence : List String
  note : String
deriving DecidableEq, Repr

def Entry.key (f : Entry) : String × List String := (f.kind, f.args)

/-- An entry of `gaps`. -/
structure Gap where
  id : String
  kind : String
  description : String
  evidence : List String
deriving DecidableEq, Repr

/-- `add_fact`. -/
def addFact (facts : Table Entry.key) (kind : String) (args : List String)
    (status evidence note : String) : Table Entry.key :=
  match facts.get? (kind, args) with
  | none => facts.put ⟨kind, args, status, [evidence], note⟩
  | some f =>
      if evidence ∈ f.evidence then facts
      else facts.put { f with evidence := Text.sortedBy id (f.evidence ++ [evidence]) }

def credentialFields : List String :=
  ["id", "kind", "username", "sa_uid", "bound_pod_uid", "audience", "expires_at"]

/-- `_cred_spec`, with the id and the username of the credential. -/
def credSpec : Json → Option (Credential × String)
  | .obj m =>
      if (m.map Prod.fst).all fun k => credentialFields.contains k then
        match get m "id", get m "username" with
        | .str id, .str username => some (⟨id, m⟩, username)
        | _, _ => none
      else none
  | _ => none

/-- What the case says of the attacker. -/
structure Seed where
  credentials : Table Credential.id
  users : List String
  facts : Table Entry.key

def seededEvidence : String := "case:seeded-compromise"

def Seed.add (s : Seed) (c : Credential × String) : Seed where
  credentials := s.credentials.put c.1
  users := c.2 :: s.users
  facts := addFact s.facts "possesses_credential" [c.1.id] "assumed" seededEvidence ""

/-- The loop over `compromised_credentials`. -/
def seed (case : Fields) : Option Seed := do
  let specs ← (← iterate (getD case "compromised_credentials" (.arr []))).mapM credSpec
  pure (specs.foldl Seed.add ⟨∅, [], ∅⟩)

/-- `set(values)`, of which only the texts are looked up. -/
def textSet (values : List Json) : Option (List String) :=
  if values.all hashable then some (values.filterMap asStr?) else none

/-! ### Attribution -/

/-- What a replay bundle says that does not change while the events are read. -/
structure Context where
  users : List String
  pods : Table (Prod.fst : String × Fields → String)
  secrets : Table (Prod.fst : (String × String) × Fields → String × String)
  resolved : List String
  profile : Fields
  host : Host

def apiResponse : String := "k8s.api.response"

/-- `is_attacker`, for a set of Pods. -/
def isAttacker (users pods : List String) (actor : Fields) : Option Bool :=
  match isIn (get actor "username") users with
  | some false =>
      match get actor "pod_uid" with
      | .null => some false
      | uid => isIn uid pods
  | r => r

/-- The status of a response is one of success. -/
def successful (outcome : Fields) : Bool :=
  (get outcome "http_status").asInt?.any fun n => decide (200 ≤ n ∧ n < 300)

/-- The event is an action of the attacker that succeeded. -/
def attributed (users pods : List String) (e : Envelope) : Option Bool := do
  let actor ← dict (get e.body "actor")
  let outcome ← dict (get e.body "outcome")
  pure ((← isAttacker users pods actor) && successful outcome)

/-- `value in ("pods", "pods/exec")`. -/
def isPods (value : Json) : Bool := value.asStr?.any (· ∈ ["pods", "pods/exec"])

/-- The value is the text. -/
def isText (value : Json) (s : String) : Bool := value.asStr? = some s

/-- The Pods that an action of the attacker gives. -/
def gains (ctx : Context) (e : Envelope) : Option (List String) := do
  let action ← dict (get e.body "action")
  if !isText (get action "verb") "create" then pure []
  else if isPods (get action "resource") then
    pure (get (← dict (get e.body "target")) "uid").asStr?.toList
  else if isText (get action "resource") "deployments" then
    let uid := (get (← dict (get e.body "target")) "uid").asStr?
    pure ((ctx.pods.rows.filter fun p => uid.any fun u => isText (get p.2 "controller_uid") u).map
      Prod.fst)
  else pure []

/-- The body of the loop: the Pods that an event gives the attacker, for the Pods so far. -/
def establish (ctx : Context) (e : Envelope) (pods : List String) : Option (List String) :=
  if e.eventType ≠ apiResponse then some []
  else
    match attributed ctx.users pods e with
    | some true => gains ctx e
    | some false => some []
    | none => none

/-- All Pods that the events can give. -/
def givable (ctx : Context) (events : List Envelope) : List String :=
  events.flatMap fun e => (gains ctx e).getD []

/-- `attacker_pods`; each round but the last adds a Pod that can be given. -/
def attribution (ctx : Context) (events : List Envelope) : Option (List String) :=
  Gather.gather (establish ctx) events ((givable ctx events).length + 1)

/-! ### Facts, credentials and gaps -/

/-- What has been collected of the events. -/
structure Collected where
  credentials : Table Credential.id
  facts : Table Entry.key
  gaps : List Gap
  heartbeats : Table (Prod.fst : String × ℤ → String)
  ignored : List Ignored

/-- A field is dropped if it is `None`. -/
def dropNull (key : String) (m : Fields) : Fields :=
  if m.lookup key matches some .null then m.filter fun e => e.1 ≠ key else m

/-- The audience of a token that names none. -/
def defaultAudience (profile : Fields) : Option Json :=
  match get profile "api_audiences" with
  | .arr (x :: _) => some x
  | _ => none

/-- When a credential that was seen in use expires, if that was seen. -/
def observedExpiry (host : Host) (actor : Fields) : Option Json :=
  if has actor "credential_expires_at" then
    (parseTime host (get actor "credential_expires_at") "credential_expires_at" true).toOption.map
      .int
  else some .null

/-- The audience of the token that a request was made with. -/
def audienceOf (profile actor : Fields) : Option Json :=
  if (get actor "audience").truthy then some (get actor "audience") else defaultAudience profile

def observedId (pod : String) (aud : Json) : String := "observed:" ++ pod ++ ":" ++ aud.text

/-- The credential that a request from a Pod was made with. -/
def observedCredential (username pod : String) (aud saUid expiry : Json) : Credential where
  id := observedId pod aud
  fields := [("id", .str (observedId pod aud)), ("kind", .str "sa_token"),
    ("username", .str username), ("sa_uid", if saUid.asStr?.isSome then saUid else .null),
    ("bound_pod_uid", .str pod), ("audience", aud), ("expires_at", expiry)]

/-- `credentials.setdefault`, and the fields that are dropped after it. -/
def offer (credentials : Table Credential.id) (c : Credential) : Table Credential.id :=
  let kept := (credentials.get? c.id).getD c
  credentials.put ⟨c.id, dropNull "expires_at" (dropNull "sa_uid" kept.fields)⟩

/-- A request from a Pod of the attacker shows that the attacker has the credential of it. -/
def possess (ctx : Context) (pods : List String) (s : Collected) (actor : Fields) (ref : String) :
    Option Collected :=
  match isIn (get actor "pod_uid") pods with
  | none => none
  | some false => some s
  | some true =>
      let pod := (get actor "pod_uid").text
      match audienceOf ctx.profile actor, get actor "username" with
      | none, _ => none
      | some aud, .str username =>
          (observedExpiry ctx.host actor).map fun expiry =>
            { s with
              credentials := offer s.credentials
                (observedCredential username pod aud (get actor "sa_uid") expiry)
              facts := addFact s.facts "possesses_credential" [observedId pod aud] "observed" ref
                "credential observed in use" }
      | some _, _ => some s

def missingMetadata (id description ref : String) : Gap :=
  ⟨id, "missing_metadata", description, [ref]⟩

/-- The attacker controls a Pod that was created or entered. -/
def acquirePod (ctx : Context) (s : Collected) (ns : Json) (target : Fields) (ref uid : String) :
    Collected :=
  let s := { s with facts := addFact s.facts "controls_pod" [uid] "observed" ref "" }
  if ctx.pods.contains uid then s
  else
    match get target "service_account", ns with
    | .str sa, .str ns =>
        { s with
          facts := addFact s.facts "historical_pod" [uid, ns, sa] "observed" ref
            "attacker pod no longer in inventory" }
    | _, _ =>
        { s with
          gaps := s.gaps ++ [missingMetadata ("pod-sa-unknown:" ++ uid)
            ("service account of attacker pod " ++ uid ++ " is unknown") ref] }

/-- The attacker knows a Secret that was read. -/
def acquireSecret (ctx : Context) (s : Collected) (target : Fields) (ref ns name : String) :
    Option Collected :=
  let version := get target "observed_version"
  if version.asInt?.isSome then
    some { s with
      facts := addFact s.facts "knows_secret" [ns, name, version.text] "observed" ref "" }
  else
    match ctx.secrets.get? (ns, name) with
    | none =>
        some { s with
          gaps := s.gaps ++ [missingMetadata ("secret-version-unknown:" ++ ns ++ "/" ++ name)
            ("version of secret " ++ ns ++ "/" ++ name ++ " read at " ++ ref ++ " is unknown")
            ref] }
    | some sec =>
        (sec.2.lookup "version").map fun version =>
          { s with
            facts := addFact s.facts "knows_secret" [ns, name, version.text] "observed" ref
              "version not in audit record; assumed equal to inventory version" }

/-- The Secrets that a list or a watch shows. -/
def listedSecrets (ctx : Context) (ns name : Json) : List ((String × String) × Fields) :=
  (Text.sortedBy (fun s => toLex s.1) ctx.secrets.rows).filter fun s =>
    (ns.asStr?.all fun n => n = s.1.1) && (name.asStr?.all fun n => n = s.1.2) &&
      (get s.2 "version").asInt?.isSome

/-- The attacker knows the Secrets that were listed. -/
def acquireSecrets (ctx : Context) (s : Collected) (verb : String) (ns name : Json) (ref : String) :
    Collected :=
  { s with
    facts := (listedSecrets ctx ns name).foldl (fun facts sec =>
      addFact facts "knows_secret" [sec.1.1, sec.1.2, (get sec.2 "version").text] "observed" ref
        (verb ++ " response; version assumed equal to inventory version")) s.facts }

/-- What an action of the attacker gives. -/
def acquire (ctx : Context) (s : Collected) (action target : Fields) (ref : String) :
    Option Collected :=
  let verb := get action "verb"
  let resource := get action "resource"
  let ns := get action "namespace"
  let uid := (get target "uid").asStr?
  let name := (get target "name").asStr?
  if isText verb "create" && isPods resource && uid.isSome then
    some (acquirePod ctx s ns target ref (uid.getD ""))
  else if isText verb "create" && isText resource "deployments" && uid.isSome then
    some { s with facts := addFact s.facts "controls_controller" [uid.getD ""] "observed" ref "" }
  else if isText verb "get" && isText resource "secrets" && ns.asStr?.isSome && name.isSome then
    acquireSecret ctx s target ref (ns.asStr?.getD "") (name.getD "")
  else if (isText verb "list" || isText verb "watch") && isText resource "secrets" then
    some (acquireSecrets ctx s verb.text ns (get target "name") ref)
  else some s

/-- What a collector reports of a gap. -/
def gapReason (e : Envelope) : String :=
  (getD e.body "reason" (.str "collector reported an observation gap")).text

def observationGap (e : Envelope) (gid : String) : Gap :=
  ⟨gid, "observation_gap", String.ofList ((gapReason e).toList.take maxText), [e.ref]⟩

def gapId (e : Envelope) : String := (getD e.body "gap_id" (.str e.ref)).text

def supportedEventTypes : List String :=
  [apiResponse, "collector.gap", "collector.heartbeat", "lab.receipt"]

def beat (heartbeats : Table (Prod.fst : String × ℤ → String)) (e : Envelope) :
    Table (Prod.fst : String × ℤ → String) :=
  heartbeats.put
    (e.sourceId, max (((heartbeats.get? e.sourceId).map Prod.snd).getD 0) e.observedAt)

/-- The body of the second loop, for a response of the API server. -/
def collectRequest (ctx : Context) (pods : List String) (s : Collected) (e : Envelope) :
    Option Collected := do
  if ← attributed ctx.users pods e then
    let s ← possess ctx pods s (← dict (get e.body "actor")) e.ref
    acquire ctx s (← dict (get e.body "action")) (← dict (get e.body "target")) e.ref
  else pure s

/-- The body of the second loop. -/
def collect (ctx : Context) (pods : List String) (s : Collected) (e : Envelope) :
    Option Collected :=
  if e.eventType = "collector.gap" then
    if gapId e ∈ ctx.resolved then some s
    else some { s with gaps := s.gaps ++ [observationGap e (gapId e)] }
  else if e.eventType = "collector.heartbeat" then
    some { s with heartbeats := beat s.heartbeats e }
  else if e.eventType ∉ supportedEventTypes then
    some { s with
      ignored := s.ignored ++ [⟨e.ref, "unsupported event type " ++ quoted e.eventType⟩] }
  else if e.eventType = "lab.receipt" then
    some { s with
      ignored := s.ignored ++
        [⟨e.ref, "lab receipts are validation records, not attacker evidence"⟩] }
  else collectRequest ctx pods s e

/-! ### The document -/

/-- The source has no recent heartbeat. -/
def stale (heartbeats : Table (Prod.fst : String × ℤ → String)) (analysisTime staleness : ℤ)
    (src : Json) : Bool :=
  (src.asStr?.bind heartbeats.get?).all fun last => decide (analysisTime - last.2 > staleness)

/-- The gaps of the sources without a recent heartbeat. -/
def staleGaps (case : Fields) (analysisTime : ℤ)
    (heartbeats : Table (Prod.fst : String × ℤ → String)) : Option (List Gap) :=
  match (get case "max_evidence_staleness_seconds").asInt? with
  | none => some []
  | some staleness => do
      let sources ← iterate (getD case "required_sources" (.arr []))
      if sources.all hashable then
        pure ((sources.filter (stale heartbeats analysisTime staleness)).map fun src =>
          ⟨"stale:" ++ src.text, "stale_evidence", "source " ++ src.text ++
            " has no heartbeat within " ++
              (get case "max_evidence_staleness_seconds").text ++ "s of analysis time", []⟩)
      else none

def rejectionGap (r : Rejection) : Gap :=
  ⟨"rejected:line" ++ Text.ofInt r.line, "rejected_evidence",
    "an evidence record was rejected: " ++ String.intercalate "; " r.problems, []⟩

def conflictGap (c : Conflict) : Gap :=
  ⟨"conflict:" ++ c.sourceId ++ "#" ++ Text.ofInt c.sourceSequence, "conflicting_evidence",
    "conflicting records for " ++ c.sourceId ++ "#" ++ Text.ofInt c.sourceSequence, c.eventIds⟩

def Entry.json (f : Entry) : Json :=
  .obj ([("kind", .str f.kind), ("args", .arr (f.args.map .str)), ("status", .str f.status),
    ("evidence", .arr (f.evidence.map .str))] ++
      if f.note = "" then [] else [("note", .str f.note)])

def Gap.json (g : Gap) : Json :=
  .obj [("id", .str g.id), ("kind", .str g.kind), ("description", .str g.description),
    ("evidence", .arr (g.evidence.map .str))]

/-- What the projection of a bundle is made of. -/
structure Projection where
  caseId : String
  clusterId : String
  analysisTime : ℤ
  profile : Fields
  attackerPods : List String
  credentials : List Credential
  facts : List Entry
  gaps : List Gap
  assumptions : List Json
  diag : Diagnostics

def profileKeys : List String :=
  ["id", "kubernetes_version", "api_audiences", "projected_token_ttl_seconds"]

/-- The analysis input. -/
def Projection.json (p : Projection) (b : ReplayBundle) : Json :=
  .obj [("schema", .str analysisInputSchema), ("case_id", .str p.caseId),
    ("cluster_id", .str p.clusterId), ("analysis_time", .int p.analysisTime),
    ("profile", .obj (profileKeys.map fun k => (k, get p.profile k))),
    ("inventory", .obj b.inventory),
    ("credentials", .arr (p.credentials.map fun c => .obj c.fields)),
    ("initial_facts", .arr (p.facts.map Entry.json)),
    ("remediation", getD b.case "remediation" (.arr [])),
    ("objectives", getD b.case "objectives" (.arr [])),
    ("legitimate_operations", getD b.case "legitimate_operations" (.arr [])),
    ("coverage_gaps", .arr (p.gaps.map Gap.json)),
    ("assumptions", .arr p.assumptions), ("bounds", getD b.case "bounds" (.obj []))]

/-- `[a-z0-9.\-]`. -/
def profileChar (c : Char) : Bool :=
  ('a' ≤ c && c ≤ 'z') || ('0' ≤ c && c ≤ '9') || c = '.' || c = '-'

/-- `load_profile`. -/
def loadProfile (host : Host) (id : String) : Option Fields :=
  if id ≠ "" ∧ id.length ≤ 64 ∧ id.toList.all profileChar then host.profile id else none

/-- The context of a bundle, with what the case says of the attacker. -/
def contextOf (host : Host) (b : ReplayBundle) (profile : Fields) : Option (Context × Seed) := do
  let pods ← podsByUid b.inventory
  let secrets ← secretsByName b.inventory
  let start ← seed b.case
  let resolved ← textSet (← iterate (getD b.case "resolved_gaps" (.arr [])))
  pure (⟨start.users, pods, secrets, resolved, profile, host⟩, start)

/-- What `project` collects of the records of a bundle. -/
def gatherRecords (host : Host) (b : ReplayBundle) (caseId clusterId : String) (records : Intake) :
    Option Projection := do
  let profile ← loadProfile host (getD b.case "profile" (.str "")).text
  let analysisTime ←
    (parseTime host (get b.case "analysis_time") "case.analysis_time" false).toOption
  let (ctx, start) ← contextOf host b profile
  let known ← iterate (getD profile "assumptions" (.arr []))
  let assumed ← iterate (getD b.case "assumptions" (.arr []))
  let pods ← attribution ctx records.events
  let s ← records.events.foldlM (collect ctx pods)
    ⟨start.credentials, start.facts, [], ∅, []⟩
  let silent ← staleGaps b.case analysisTime s.heartbeats
  let gaps := s.gaps ++ silent ++ records.diag.rejected.map rejectionGap ++
    records.diag.conflicts.map conflictGap
  if profileKeys.all (has profile) then
    pure {
      caseId := caseId
      clusterId := clusterId
      analysisTime := analysisTime
      profile := profile
      attackerPods := pods
      credentials := Text.sortedBy Credential.id s.credentials.rows
      facts := Text.sortedBy (fun f => toLex f.key) s.facts.rows
      gaps := Text.sortedBy Gap.id gaps
      assumptions := known ++ assumed.map fun x => .str x.text
      diag := { records.diag with ignored := s.ignored } }
  else none

/-- What `project` collects before it writes the document. -/
def gather (host : Host) (b : ReplayBundle) : Option Projection := do
  let caseId ← (get b.manifest "case_id").asStr?
  let clusterId ← (get b.manifest "cluster_id").asStr?
  gatherRecords host b caseId clusterId (intake host clusterId b.eventLines)

/-- `project`: the document is accepted by the parser of analysis inputs. -/
def project (host : Host) (b : ReplayBundle) : Option (Projection × AnalysisInput) := do
  let p ← gather host b
  let inp ← (parseAnalysisInput (p.json b)).toOption
  pure (p, inp)

end Evidence

end Afterlock
