import Afterlock.Canonical
import Afterlock.Lib.Table
import Afterlock.Parse
import Afterlock.Redaction

/-!
# Evidence records

The lines of a replay bundle: `validate_envelope` turns a record into an `Envelope` or says what is
wrong with it, and `_events` keeps one envelope for each pair of a source and a sequence number.

What the standard library and the installed profiles provide is a parameter, `Host`.
-/

namespace Afterlock

namespace Evidence

open Json Redaction

/-- What the standard library and the installed profiles provide. -/
structure Host where
  /-- `_loads`, which refuses duplicate keys; `none` is a `ValueError` or a `RecursionError`. -/
  loads : String → Option Json
  /-- The time of an ISO 8601 text with a timezone, in seconds, rounded down and up. -/
  timestamp : String → Option (ℤ × ℤ)
  /-- The semantic profile of a name. -/
  profile : String → Option Fields

/-! ### Scanning -/

def maxLineBytes : ℕ := 64 * 1024

def maxDepth : ℕ := 6

/-- `MAX_STRING` of the evidence module. -/
def maxText : ℕ := 512

def maxEvents : ℕ := 200000

/-- The problems of a text. -/
def scanText (path s : String) : List String :=
  (if s.length > maxText then [s!"{path}: string longer than {maxText}"] else []) ++
    if credentialLike s then [s!"{path}: value resembles credential material"] else []

mutual
/-- `_scan`: the problems of a value. -/
def scan (path : String) (depth : ℕ) : Json → List String
  | .obj m =>
      if depth > maxDepth then [s!"{path}: nesting deeper than {maxDepth}"]
      else scanFields path depth m
  | .arr xs =>
      if depth > maxDepth then [s!"{path}: nesting deeper than {maxDepth}"]
      else (if xs.length > 256 then [s!"{path}: list too long"] else []) ++
        scanElems path depth 0 xs
  | .str s =>
      if depth > maxDepth then [s!"{path}: nesting deeper than {maxDepth}"] else scanText path s
  | _ => if depth > maxDepth then [s!"{path}: nesting deeper than {maxDepth}"] else []

/-- The problems of the fields of a dictionary. -/
def scanFields (path : String) (depth : ℕ) : List (String × Json) → List String
  | [] => []
  | (k, v) :: m =>
      (if k.length > 64 then [s!"{path}: invalid key"]
        else if forbiddenKey k then
          [s!"{path}.{k}: forbidden field (credential or payload material)"]
        else scan s!"{path}.{k}" (depth + 1) v) ++ scanFields path depth m

/-- The problems of the elements of a list from position `i` on; only the first 256 are scanned. -/
def scanElems (path : String) (depth i : ℕ) : List Json → List String
  | [] => []
  | x :: xs =>
      if i < 256 then scan s!"{path}[{i}]" (depth + 1) x ++ scanElems path depth (i + 1) xs else []
end

/-! ### Envelopes -/

/-- `parse_time`; the error is the text of the `BundleError`.  A time without a timezone raises a
`BundleError` that is caught as a `ValueError`, so its text is that of an invalid timestamp. -/
def parseTime (host : Host) (value : Json) (loc : String) (roundUp : Bool) : Except String ℤ :=
  match value with
  | .str s =>
      if s.length > 40 then .error s!"{loc}: expected RFC 3339 timestamp"
      else
        match host.timestamp (String.ofList (s.toList.flatMap fun c =>
          if c = 'Z' then "+00:00".toList else [c])) with
        | none => .error s!"{loc}: invalid timestamp {quoted s}"
        | some (floor, ceil) => .ok (if roundUp then ceil else floor)
  | _ => .error s!"{loc}: expected RFC 3339 timestamp"

structure Envelope where
  eventId : String
  sourceId : String
  sourceSequence : ℕ
  eventType : String
  observedAt : ℤ
  body : Fields
  contentKey : String

/-- The number of a record in its source. -/
def sequence? (m : Fields) : Option ℕ :=
  match get m "source_sequence" with
  | .int n => if n < 0 then none else some n.toNat
  | _ => none

/-- A text, of a field that is known to be one. -/
def textAt (m : Fields) (key : String) : String := (get m key).asStr?.getD ""

/-- The problems of a record without forbidden content. -/
def fieldProblems (host : Host) (clusterId : String) (m : Fields) : List String :=
  (if (get m "schema_version").asStr? = some "1" then [] else ["unsupported schema_version"]) ++
    (["event_id", "source_id", "event_type", "cluster_id"].filter fun key =>
      textAt m key = "").map (fun key => s!"missing {key}") ++
    (if (sequence? m).isNone then ["source_sequence must be a non-negative integer"] else []) ++
    (if (get m "cluster_id").asStr? = some clusterId then []
      else ["cluster_id does not match bundle"]) ++
    match parseTime host (get m "observed_at") "observed_at" false with
    | .error problem => [problem]
    | .ok _ => []

/-- The content of a record: its fields without the time of its delivery. -/
def content (m : Fields) : Fields := m.filter fun e => e.1 ≠ "ingested_at"

/-- The envelope of a record without problems. -/
def envelope (host : Host) (m : Fields) : Envelope where
  eventId := textAt m "event_id"
  sourceId := textAt m "source_id"
  sourceSequence := (sequence? m).getD 0
  eventType := textAt m "event_type"
  observedAt := (parseTime host (get m "observed_at") "observed_at" false).toOption.getD 0
  body := m
  contentKey := canonicalJson (.obj (content m))

def validateEnvelope (host : Host) (clusterId : String) : Json → Except (List String) Envelope
  | .obj m =>
      if scan "$" 0 (.obj m) ≠ [] then .error (scan "$" 0 (.obj m))
      else if fieldProblems host clusterId m ≠ [] then .error (fieldProblems host clusterId m)
      else .ok (envelope host m)
  | _ => .error ["envelope is not an object"]

/-! ### The records of a bundle -/

/-- A replay bundle, after its files were checked. -/
structure ReplayBundle where
  manifest : Fields
  inventory : Fields
  case : Fields
  eventLines : List String
  few : eventLines.length ≤ maxEvents

namespace Envelope

def key (e : Envelope) : String × ℕ := (e.sourceId, e.sourceSequence)

/-- How a record is cited. -/
def ref (e : Envelope) : String := e.sourceId ++ "#" ++ Text.ofInt e.sourceSequence

end Envelope

structure Rejection where
  line : ℕ
  problems : List String
deriving DecidableEq, Repr

structure Conflict where
  sourceId : String
  sourceSequence : ℕ
  eventIds : List String
deriving DecidableEq, Repr

structure Ignored where
  event : String
  reason : String
deriving DecidableEq, Repr

structure Diagnostics where
  accepted : ℕ
  duplicates : ℕ
  rejected : List Rejection
  conflicts : List Conflict
  ignored : List Ignored
deriving DecidableEq, Repr

/-- What a line of the bundle is. -/
inductive Line where
  | blank
  | rejected (problems : List String)
  | record (e : Envelope)

def readLine (host : Host) (clusterId line : String) : Line :=
  if (Text.strip line.toList).isEmpty then .blank
  else if line.utf8ByteSize > maxLineBytes then .rejected ["line too long"]
  else
    match host.loads line with
    | none => .rejected ["invalid JSON or duplicate key"]
    | some raw =>
        match validateEnvelope host clusterId raw with
        | .error problems => .rejected (problems.take 5)
        | .ok e => .record e

/-- The envelopes kept so far, and the diagnostics. -/
structure Intake where
  byKey : Table Envelope.key
  diag : Diagnostics

namespace Intake

def empty : Intake := ⟨∅, ⟨0, 0, [], [], []⟩⟩

def reject (s : Intake) (line : ℕ) (problems : List String) : Intake :=
  { s with diag := { s.diag with rejected := s.diag.rejected ++ [⟨line, problems⟩] } }

/-- A record is kept if none with its key was; otherwise it is a duplicate or a conflict. -/
def accept (s : Intake) (e : Envelope) : Intake :=
  match s.byKey.get? e.key with
  | none => ⟨s.byKey.put e, { s.diag with accepted := s.diag.accepted + 1 }⟩
  | some prev =>
      if prev.contentKey = e.contentKey then
        { s with diag := { s.diag with duplicates := s.diag.duplicates + 1 } }
      else
        { s with diag := { s.diag with conflicts := s.diag.conflicts ++
            [⟨e.sourceId, e.sourceSequence, Text.sortedBy id [prev.eventId, e.eventId].dedup⟩] } }

/-- The turn of the loop for the line with the given number. -/
def add (s : Intake) : Line → ℕ → Intake
  | .blank, _ => s
  | .rejected problems, lineno => s.reject lineno problems
  | .record e, _ => s.accept e

end Intake

/-- The loop of `_events`. -/
def intake (host : Host) (clusterId : String) (lines : List String) : Intake :=
  (lines.zipIdx 1).foldl (fun s l => s.add (readLine host clusterId l.1) l.2) Intake.empty

/-- The envelopes that were kept, in the order of their sources and numbers. -/
def Intake.events (s : Intake) : List Envelope :=
  Text.sortedBy (fun e => toLex (e.sourceId, e.sourceSequence)) s.byKey.rows

end Evidence

end Afterlock
