import Afterlock.Collector.Redact
import Afterlock.Collector.Spool

/-!
# Ingesting audit events

`ingest` and `toEnvelope` of `audit.go`: what is done with a decoded event of an audit log.  An
event is recorded, it leaves a gap, or it is passed over.  The counters are left out, and so are
the bodies of an event, which are dropped before anything is read of them.
-/

namespace Afterlock

namespace Collector

namespace Audit

open Encoding Redaction

/-! ### Events -/

def apiVersion : String := "audit.k8s.io/v1"

def podUIDExtra : String := "authentication.kubernetes.io/pod-uid"

def saPrefix : String := "system:serviceaccount:"

/-- `user`; `extra` gives the list of a key, which is empty for a key that is not there. -/
structure User where
  username : String
  uid : String
  extra : String → List String

structure ObjectRef where
  resource : String
  ns : String
  name : String
  uid : String
  apiGroup : String
  subresource : String

structure Status where
  code : ℤ

/-- `event`, as it is decoded. -/
structure Event where
  kind : String
  apiVersion : String
  auditID : String
  stage : String
  verb : String
  user : User
  impersonatedUser : Option User
  objectRef : Option ObjectRef
  responseStatus : Option Status
  stageTimestamp : String

/-- A time in UTC. -/
structure Instant where
  year : ℤ
  month : ℕ
  day : ℕ
  hour : ℕ
  minute : ℕ
  second : ℕ
  nanosecond : ℕ

/-- A number with at least `w` digits. -/
def padded (w : ℕ) (n : ℤ) : String :=
  let digits := Text.ofInt n.natAbs
  (if n < 0 then "-" else "") ++ String.ofList (List.replicate (w - digits.length) '0') ++ digits

/-- `Format(time.RFC3339)`. -/
def Instant.format (t : Instant) : String :=
  padded 4 t.year ++ "-" ++ padded 2 t.month ++ "-" ++ padded 2 t.day ++ "T" ++
    padded 2 t.hour ++ ":" ++ padded 2 t.minute ++ ":" ++ padded 2 t.second ++ "Z"

/-- `Before`. -/
def Instant.before (t u : Instant) : Bool :=
  decide ([t.year, t.month, t.day, t.hour, t.minute, t.second, t.nanosecond] <
    [u.year, u.month, u.day, u.hour, u.minute, u.second, u.nanosecond])

/-- What the standard library does: `time.Parse` for times in RFC 3339, and SHA-256. -/
structure Library where
  parseTime : String → Option Instant
  sha256 : Bytes → Bytes

/-! ### Envelopes -/

/-- A field that is there unless its text is empty. -/
def putText (key text : String) (m : Json.Fields) : Json.Fields :=
  if text = "" then m else put key (.str (redact text)) m

/-- The actor of an event. -/
def actorOf (u : User) : Json.Fields :=
  let actor := fromPairs [("username", .str (redact u.username))]
  let actor := if Text.hasPrefix saPrefix u.username then putText "sa_uid" u.uid actor else actor
  match u.extra podUIDExtra with
  | [v] => putText "pod_uid" v actor
  | _ => actor

/-- The resource of a reference, with its subresource. -/
def ObjectRef.path (o : ObjectRef) : String :=
  if o.subresource = "" then o.resource else o.resource ++ "/" ++ o.subresource

/-- `toEnvelope`. -/
def toEnvelope (ev : Event) (o : ObjectRef) (status : Status) (ts : Instant) : Json.Fields :=
  let action := fromPairs
    [("verb", .str (redact ev.verb)), ("api_group", .str (redact o.apiGroup)),
      ("resource", .str (redact o.path))]
  let action := putText "namespace" o.ns action
  let target := putText "uid" o.uid (putText "name" o.name [])
  fromPairs
    [("event_type", .str "k8s.api.response"), ("observed_at", .str ts.format),
      ("actor", .obj (actorOf ev.user)), ("action", .obj action), ("target", .obj target),
      ("outcome", .obj (fromPairs [("http_status", .int status.code)])),
      ("provenance", .obj (fromPairs
        [("transport", .str "authenticated-collector"), ("payload_class", .str "metadata-only")]))]

/-! ### Ingestion -/

/-- What is done with an event. -/
inductive Handling where
  /-- It is passed over. -/
  | ignored
  | gap (kind reason : String)
  | append (r : Json.Fields) (dedupKey : String)

/-- `hex.EncodeToString`. -/
def hex (bs : Bytes) : String :=
  String.ofList (bs.flatMap fun b => [hexDigit (b.toNat / 16), hexDigit (b.toNat % 16)])

/-- The key by which a repeated event is known. -/
def dedupKey (lib : Library) (auditID : String) (r : Json.Fields) : String :=
  "audit:" ++ auditID ++ ":" ++ hex ((lib.sha256 (lineOf r)).take 8)

/-- The record of an event. -/
def recordOf (ev : Event) (o : ObjectRef) (status : Status) (ts : Instant) : Json.Fields :=
  put "event_id" (.str ("audit:" ++ redact ev.auditID)) (toEnvelope ev o status ts)

/-- `ingest`. -/
def ingest (lib : Library) (since : Option Instant) (place : String) (ev : Event) : Handling :=
  if ev.apiVersion ≠ apiVersion ∨ (ev.kind ≠ "" ∧ ev.kind ≠ "Event") ∨ ev.auditID = "" then
    .gap "audit-malformed"
      (place ++ ": record is not an audit.k8s.io/v1 Event with an auditID and was dropped")
  else if ev.stage ≠ "ResponseComplete" ∧ ev.stage ≠ "Panic" then .ignored
  else
    match lib.parseTime ev.stageTimestamp with
    | none =>
        .gap "audit-malformed"
          (place ++ ": audit event has no valid stageTimestamp and was dropped")
    | some ts =>
        if since.any ts.before then .ignored
        else
          let auditID := redact ev.auditID
          if ev.impersonatedUser.isSome then
            .gap "audit-unmodeled" ("audit event " ++ auditID ++
              " used impersonation, which is not modeled; its effect is unknown")
          else
            match ev.objectRef, ev.responseStatus with
            | some o, some status =>
                let r := recordOf ev o status ts
                .append r (dedupKey lib auditID r)
            | _, _ => .ignored

/-- An event that is recorded has a reference, a status and a time. -/
lemma ingest_eq_append {lib : Library} {since : Option Instant} {place key : String} {ev : Event}
    {r : Json.Fields} (h : ingest lib since place ev = .append r key) :
    ∃ ts o status, lib.parseTime ev.stageTimestamp = some ts ∧ ev.objectRef = some o ∧
      ev.responseStatus = some status ∧ r = recordOf ev o status ts ∧
        key = dedupKey lib (redact ev.auditID) r := by
  rw [ingest] at h
  by_cases hkind : ev.apiVersion ≠ apiVersion ∨ (ev.kind ≠ "" ∧ ev.kind ≠ "Event") ∨ ev.auditID = ""
  · rw [if_pos hkind] at h
    cases h
  rw [if_neg hkind] at h
  by_cases hstage : ev.stage ≠ "ResponseComplete" ∧ ev.stage ≠ "Panic"
  · rw [if_pos hstage] at h
    cases h
  rw [if_neg hstage] at h
  cases hts : lib.parseTime ev.stageTimestamp with
  | none =>
      rw [hts] at h
      cases h
  | some ts =>
      rw [hts] at h
      simp only at h
      split_ifs at h with hbefore himpersonated
      cases ho : ev.objectRef with
      | none =>
          rw [ho] at h
          cases h
      | some o =>
          cases hs : ev.responseStatus with
          | none =>
              rw [ho, hs] at h
              cases h
          | some status =>
              rw [ho, hs] at h
              cases h
              exact ⟨ts, o, status, rfl, rfl, rfl, rfl, rfl⟩

end Audit

end Collector

end Afterlock
