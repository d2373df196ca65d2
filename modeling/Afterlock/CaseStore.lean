import Afterlock.Lib.Glob
import Afterlock.Lib.Machine
import Afterlock.Verification

/-!
# The results of a home directory

`cli.py` keeps the inputs of the cases and the results of their analyses in one home directory; the
results of all cases are in one directory, under names that begin with the case ids.  `cmd_analyze`
adds a result, `cmd_verify` adds a record beside a result, and `cmd_export` copies a case.

A file has the document that was written to it: what `json.loads` reads is what `json.dumps` wrote.
What the independent check comes to is part of the command that runs it.
-/

namespace Afterlock

namespace CaseStore

/-! ### Case ids and file names -/

def idHead (c : Char) : Bool := c.isLower || c.isDigit

def idChar (c : Char) : Bool := c.isLower || c.isDigit || c = '.' || c = '_' || c = '-'

/-- `CASE_ID.match`: the end of the pattern is also before a line break at the end. -/
def caseIdMatches (id : String) : Bool :=
  let cs := id.toList
  match if cs.getLast? = some '\n' then cs.dropLast else cs with
  | [] => false
  | c :: cs => idHead c && cs.all idChar && decide (cs.length ≤ 63)

/-- `f"{n:04d}"`. -/
def padded (n : ℕ) : List Char :=
  List.replicate (4 - (Nat.toDigits 10 n).length) '0' ++ Nat.toDigits 10 n

/-- `f"{case_id}-{n:04d}.json"`. -/
def resultName (id : String) (n : ℕ) : String := id ++ "-" ++ String.ofList (padded n) ++ ".json"

def verificationSuffix : List Char := ".verification.json".toList

/-- `name.endswith(".verification.json")`. -/
def isVerification (name : String) : Bool := verificationSuffix.isSuffixOf name.toList

/-- `f"{case_id}-*.json"`. -/
def resultPattern (id : String) : List Char := (id ++ "-*.json").toList

/-- `Path.with_suffix`, on the name of a file: what follows the last dot is replaced, unless the dot
is the first or the last character. -/
def withSuffix (name : String) (suffix : List Char) : String :=
  let cs := name.toList
  let ext := cs.reverse.takeWhile (· ≠ '.')
  let stem := cs.take (cs.length - (ext.length + 1))
  String.ofList ((if '.' ∈ cs ∧ ext ≠ [] ∧ stem ≠ [] then stem else cs) ++ suffix)

/-! ### The home directory -/

/-- The input of a case, in a directory that its id names. -/
structure Case where
  id : String
  input : Json.Fields
  valid : caseIdMatches id = true
  named : Json.get input "case_id" = .str id

/-- What a file has. -/
inductive Document where
  | input (m : Json.Fields)
  | result (bundle : ResultBundle)
  | verification (record : Json)

/-- `cases`, `results` and `latest`. -/
structure Home where
  cases : Table Case.id
  results : Table (Prod.fst : String × Document → String)
  latest : Option String

/-- A home directory with cases and without results. -/
def Home.initial (cases : Table Case.id) : Home := ⟨cases, ∅, none⟩

/-- The files of the results that belong to a case by their names, without the records of
verifications. -/
def Home.resultsOf (home : Home) (id : String) : List (String × Document) :=
  (home.results.rows.filter fun f => Glob.fnmatch (resultPattern id) f.1.toList).filter
    fun f => !isVerification f.1

/-- A result that was stored. -/
structure Stored where
  case : String
  name : String
  bundle : ResultBundle
  /-- No file had the name. -/
  isNew : Bool

/-- `_store_result`. -/
def storeResult (home : Home) (id : String) (bundle : ResultBundle) : Stored × Home :=
  let n := (home.resultsOf id).length + 1
  let name := resultName id n
  (⟨id, name, bundle, !home.results.contains name⟩,
    { home with results := home.results.put (name, .result bundle), latest := some name })

/-- `_load_input`. -/
def loadInput (home : Home) (id : String) : Option Json.Fields :=
  if caseIdMatches id then (home.cases.get? id).map Case.input else none

/-- `cmd_analyze` for a case, with the actions of `--remediation` if they are given. -/
def cmdAnalyze (home : Home) (id : String) (remediation : Option Json) (mode : Mode) :
    Option Stored × Home :=
  match loadInput home id with
  | none => (none, home)
  | some raw =>
      match parseAnalysisInput (.obj (analyzed raw remediation)) with
      | .error _ => (none, home)
      | .ok inp =>
          let (stored, home) := storeResult home inp.caseId (analyze inp mode)
          (some stored, home)

/-- The file that `--latest` or `--result` names: a file of the results by its name, or another. -/
inductive Target where
  | latest
  | result (name : String)
  | elsewhere

/-- `_resolve_result`. -/
def Home.resolve (home : Home) : Target → Option String
  | .latest => home.latest
  | .result name => some name
  | .elsewhere => none

/-- `cmd_verify`, where the check comes to `record`, or to none if it ends before.  The record of a
result elsewhere is written elsewhere. -/
def cmdVerify (home : Home) (target : Target) (record : Option Json) : Home :=
  match (home.resolve target).bind home.results.get?, record with
  | some (name, .result bundle), some record =>
      if (loadInput home bundle.caseId).isSome then
        { home with
          results := home.results.put (withSuffix name verificationSuffix, .verification record) }
      else home
  | _, _ => home

/-- What `cmd_export` writes. -/
structure Export where
  files : List (String × Document)
  manifest : Json

/-- `cmd_export`, with the digests of the files. -/
def cmdExport (digest : Document → String) (home : Home) (id : String) : Option Export :=
  (loadInput home id).map fun raw =>
    let results := (Text.sortedBy Prod.fst
      (home.results.rows.filter fun f => Glob.fnmatch (resultPattern id) f.1.toList)).filter
        fun f => !isVerification f.1
    let files := ("input.json", Document.input raw) ::
      results.map fun f => ("results/" ++ f.1, f.2)
    { files := files
      manifest := .obj [("schema", .str "afterlock.export/1"), ("case_id", .str id),
        ("files", .obj (files.map fun f => (f.1, .str (digest f.2))))] }

/-! ### Runs -/

/-- A command that was given. -/
inductive Command where
  | analyze (id : String) (remediation : Option Json) (mode : Mode)
  | verify (target : Target) (record : Option Json)

/-- The answer to a command is the result that it stores. -/
def home : Machine Home Command (Option Stored) where
  step h
    | .analyze id remediation mode => cmdAnalyze h id remediation mode
    | .verify target record => (none, cmdVerify h target record)

/-- The results that a run stores. -/
def storedBy (cases : Table Case.id) (commands : List Command) : List Stored :=
  (home.answers (.initial cases) commands).reduceOption

end CaseStore

end Afterlock
