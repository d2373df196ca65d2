import Afterlock.Engine
import Afterlock.Reference.Env

/-!
# The checks of the reference checker

What never changes during an exploration is read once from the raw document; the checks look it up
there.  As for the environment, a computation that raises an exception is `none`.
-/

namespace Afterlock.Reference

/-- `r.get("rules", [])`: a `null` is `None`, which counts as a missing role. -/
def rules? (r : Json.Fields) : Option (Option (List Json)) :=
  match r.lookup "rules" with
  | none => some (some [])
  | some .null => some none
  | some (.arr xs) => some (some xs)
  | some _ => none

/-- The parts of the input that never change. Dictionaries are lists in which the first entry of a
key counts. -/
structure Static where
  roles : List ((Option String × String) × Option (List Json))
  bindingBody : List ((Option String × String) × Json.Fields)
  admission : List Json
  apiAuds : List String
  ttl : ℤ
  creds : List (String × Json.Fields)

def roleItem? (raw : Json) : Option ((Option String × String) × Option (List Json)) := do
  let r ← obj? raw
  pure ((← optStr? r "namespace", ← str? r "name"), ← rules? r)

def bindingItem? (raw : Json) : Option ((Option String × String) × Json.Fields) := do
  let b ← obj? raw
  pure ((← optStr? b "namespace", ← str? b "name"), b)

def credItem? (raw : Json) : Option (String × Json.Fields) := do
  let c ← obj? raw
  pure (← str? c "id", c)

/-- `_Static`. In a dictionary a later entry replaces an earlier one. -/
def static? (raw : Json.Fields) : Option Static := do
  let inv ← obj? (Json.get raw "inventory")
  let prof ← obj? (Json.get raw "profile")
  pure { roles := (← (← entries? inv "roles").mapM roleItem?).reverse
         bindingBody := (← (← entries? inv "bindings").mapM bindingItem?).reverse
         admission := ← entries? inv "admission_policies"
         apiAuds := ← strings? prof "api_audiences"
         ttl := ← int? prof "projected_token_ttl_seconds"
         creds := (← (← entries? raw "credentials").mapM credItem?).reverse }

/-! ### Requests -/

/-- `_sa_of`. -/
def saOf (username : String) : Option (String × String) :=
  if Text.hasPrefix "system:serviceaccount:" username then
    match Text.splitOn ':' (Text.dropLen "system:serviceaccount:" username) with
    | [a, b] => if a ≠ "" ∧ b ≠ "" then some (a, b) else none
    | _ => none
  else none

/-- `_rule_allows`. -/
def ruleAllows (raw : Json) (verb resource : String) (name : Option String) : Option Bool := do
  let rule ← obj? raw
  let verbs ← strings? rule "verbs"
  let res ← strings? rule "resources"
  if !(verbs.contains "*" || verbs.contains verb) then pure false
  else if !(res.contains "*" || res.contains resource) then pure false
  else match Json.get rule "resource_names" with
    | .null => pure true
    | _ => do
        let names ← strings? rule "resource_names"
        pure (name.any names.contains)

/-- Whether a subject of a binding is the user. -/
def subjectOk (user : String) (sa : Option (String × String)) (raw : Json) : Option Bool := do
  let s ← obj? raw
  let k ← str? s "kind"
  let name ← str? s "name"
  let ns ← optStr? s "namespace"
  pure (k == "User" && name == user ||
    k == "ServiceAccount" && sa.any (fun p => ns == some p.1 && name == p.2) ||
    k == "Group" && (name == "system:authenticated" || sa.any fun p =>
      name == "system:serviceaccounts" || name == "system:serviceaccounts:" ++ p.1))

/-- One round of the loop of `_granting`: the text of the binding, if it grants the request. -/
def grant (st : Static) (user verb resource ns : String) (name : Option String)
    (key : Option String × String) : Option (Option String) := do
  let b ← st.bindingBody.lookup key
  let bns ← optStr? b "namespace"
  if bns.any (· ≠ ns) then pure none
  else
    let oks ← (← entries? b "subjects").mapM (subjectOk user (saOf user))
    if !oks.any id then pure none
    else
      let roleKey := (if (← str? b "role_kind") = "Role" then bns else none, ← str? b "role_name")
      match (st.roles.lookup roleKey).join with
      | none => pure none
      | some rules =>
          if ← rules.anyM fun r => ruleAllows r verb resource name then
            pure (some (bns.getD "<cluster>" ++ "/" ++ (← str? b "name")))
          else pure none

/-- `_granting`. -/
def granting (st : Static) (env : EnvTuple) (user verb resource ns : String)
    (name : Option String) : Option (List String) := do
  pure ((← env.bindings.mapM (grant st user verb resource ns name)).filterMap id)

/-- `_can_read`. -/
def canRead (st : Static) (env : EnvTuple) (user ns name : String) : Option Bool :=
  ["watch", "list", "get"].anyM fun v => do
    pure (!(← granting st env user v "secrets" ns (some name)).isEmpty)

/-! ### Credentials -/

structure CredTuple where
  id : String
  kind : String
  user : String
  saUid : Option String
  podUid : Option String
  aud : String
  exp : Option ℤ
deriving DecidableEq, Repr

inductive CredCheck where
  | ok | bad | unsupported
deriving DecidableEq, Repr

/-- The check of the Pod that a credential is bound to. -/
def boundOk (env : EnvTuple) (cred : CredTuple) (sa : String × String) : CredCheck :=
  match cred.podUid with
  | none => .ok
  | some uid =>
      match env.pods.find? fun p => p.uid == uid with
      | none => .bad
      | some p => if (p.ns, p.sa) ≠ sa then .bad else .ok

/-- The check of the account that a credential names, then of the Pod it is bound to. -/
def accountOk (env : EnvTuple) (cred : CredTuple) (sa : String × String) : CredCheck :=
  match env.sas.find? fun s => (s.1, s.2.1) == sa with
  | none => .bad
  | some s => if cred.saUid.any (· ≠ s.2.2) then .bad else boundOk env cred sa

/-- The earliest instant of a use: now, or the start of the window, if it has one. -/
def earliest (env : EnvTuple) : Option (Option ℤ × ℤ) → Option ℤ
  | none => some env.time
  | some w => w.1

/-- `_cred_ok`. A window has an earliest instant, if it is bounded below, and a latest one. -/
def credOk (st : Static) (env : EnvTuple) (cred : CredTuple) (window : Option (Option ℤ × ℤ)) :
    CredCheck :=
  if cred.kind ≠ "sa_token" then .unsupported
  else match saOf cred.user with
    | none => .unsupported
    | some sa =>
        if cred.exp.any fun e => (earliest env window).any fun t => !decide (t < e) then .bad
        else if cred.aud ∉ st.apiAuds then .bad
        else accountOk env cred sa

/-! ### Admission -/

/-- `allowed.get(creator, allowed.get("*"))`; a `null` restricts nothing. -/
def allowedNames (p : Json.Fields) (creator : String) : Option Json := do
  let allowed ← obj? (Json.orElse (Json.get p "allowed_service_accounts") (.obj []))
  match allowed.lookup creator with
  | some v => some v
  | none => some (Json.get allowed "*")

/-- Whether a policy forbids the creator the service account. -/
def forbids (p : Json.Fields) (creator sa : String) : Option Bool := do
  match ← allowedNames p creator with
  | .null => pure false
  | .arr xs => do
      let names ← xs.mapM Json.asStr?
      pure (!names.contains "*" && !names.contains sa)
  | _ => none

/-- The policies of a namespace. -/
def policiesIn (st : Static) (ns : String) : Option (List Json.Fields) := do
  let policies ← st.admission.mapM obj?
  let named ← policies.mapM fun p => do pure (← str? p "namespace", p)
  pure ((named.filter fun e => e.1 == ns).map Prod.snd)

/-- `_admission`. -/
def admission (st : Static) (creator ns sa : String) : Option AdmissionOutcome := do
  let here ← policiesIn st ns
  let kinds ← here.mapM fun p => str? p "kind"
  if kinds.any fun k => k != "service-account-restriction" then pure .unsupported
  else
    let forbidden ← here.mapM fun p => forbids p creator sa
    pure (if forbidden.any id then .deny else .allow)

end Afterlock.Reference
