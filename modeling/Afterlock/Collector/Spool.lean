import Afterlock.Collector.Encoding
import Afterlock.Redaction
import Afterlock.Lib.Lines
import Afterlock.Lib.Machine

/-!
# The spool of the collector

`spool.go`: a file of one record a line, and what the process that writes it keeps in memory.  A
record is a Go map, listed in the order of its keys.

A process opens the file, answers calls and dies; the next one reads what is left.  What the
environment chooses comes with each input: the texts of the clock, the outcome of the write that
the call may make, and the torn line that a death leaves behind.  A failing write leaves a part of
the line that has no line break, since `Write` reports an error only if it wrote less than the line.
-/

namespace Afterlock

namespace Collector

open Encoding Redaction

/-- A Go map of JSON values. -/
abbrev GoMap : Type := { m : Json.Fields // canonicalFields m = true }

/-- `m[key] == text`. -/
def hasText (m : Json.Fields) (key text : String) : Bool :=
  match m.lookup key with
  | some (.str t) => decide (t = text)
  | _ => false

lemma hasText_iff {m : Json.Fields} {key text : String} :
    hasText m key text = true ↔ m.lookup key = some (.str text) := by
  unfold hasText
  cases m.lookup key with
  | none => simp
  | some v => cases v <;> simp

/-! ### The guard -/

mutual
/-- `walk` finds a problem: a forbidden key, or a text that resembles credential material. -/
def problem : Json → Bool
  | .str s => sensitive s
  | .arr xs => problemElems xs
  | .obj m => problemFields m
  | _ => false

/-- A problem in a list. -/
def problemElems : List Json → Bool
  | [] => false
  | x :: xs => problem x || problemElems xs

/-- A problem in a map. -/
def problemFields : List (String × Json) → Bool
  | [] => false
  | (k, v) :: m => (forbiddenKeyGo k || problem v) || problemFields m
end

/-- `Check`: whether the document has no problem. -/
def check (doc : Bytes) : Bool :=
  match unmarshal doc with
  | none => false
  | some v => !problem v

/-! ### State -/

/-- `Options`. -/
structure Options where
  maxBytes : ℤ
  maxRecords : ℤ
  sourceId : String
  clusterId : String
deriving DecidableEq, Repr

/-- `reservedRecords`. -/
def reservedRecords : ℤ := 2

/-- `reservedBytes`. -/
def reservedBytes : ℤ := 4096

/-- `maxLineBytes`. -/
def maxLineBytes : ℕ := 64 * 1024

/-- `Spool`: the file, and what the process knows of it. -/
structure Spool where
  opt : Options
  file : Bytes
  size : ℤ
  records : List Json.Fields
  seen : List String
  seq : ℤ
  gapSeq : ℤ
  dropped : ℤ
  overflow : Bool
  summaryOK : Bool

/-- Why a call fails. -/
inductive Error where
  /-- `ErrOverflow`. -/
  | overflow
  /-- `ErrDuplicate`. -/
  | duplicate
  /-- `Marshal` fails. -/
  | marshal
  /-- The line is longer than `maxLineBytes`. -/
  | tooLong
  /-- The line holds credential material. -/
  | credential
  /-- The file was not written. -/
  | write
  /-- The limits are too small. -/
  | limits
deriving DecidableEq, Repr

/-- The errors of a record that has no line. -/
def Error.ofLine : Error → Bool
  | .marshal | .tooLong | .credential => true
  | .overflow | .duplicate | .write | .limits => false

/-- The texts that the clock gives a call: for `observed_at` and for `ingested_at`. -/
structure Clock where
  observed : String
  ingested : String

/-- The outcome of a write: the whole line, or at most the first `n` bytes before its end. -/
inductive Write where
  | done
  | fails (n : ℕ)
deriving DecidableEq

/-! ### Writing a record -/

/-- The fields that `writeLocked` sets. -/
def stamp (opt : Options) (seq : ℤ) (ingested : String) (r : Json.Fields) : Json.Fields :=
  let r := put "schema_version" (.str "1") r
  let r := put "source_id" (.str opt.sourceId) r
  let r := put "cluster_id" (.str opt.clusterId) r
  let r := put "source_sequence" (.int seq) r
  let r :=
    if Json.has r "event_id" then r
    else put "event_id" (.str (opt.sourceId ++ "-" ++ Text.ofInt seq)) r
  if Json.has r "ingested_at" then r else put "ingested_at" (.str ingested) r

/-- The line of a record, unless `writeLocked` refuses it. -/
def line? (r : Json.Fields) : Except Error Bytes :=
  match marshal true (.obj r) with
  | none => .error .marshal
  | some cs =>
      if (utf8 cs).length + 1 > maxLineBytes then .error .tooLong
      else if check (utf8 cs) then .ok (utf8 cs ++ [10])
      else .error .credential

/-- `Unmarshal` into a map; `null` is the map without fields. -/
def object? (line : Bytes) : Option Json.Fields :=
  match unmarshal line with
  | some (.obj m) => some m
  | some .null => some []
  | _ => none

/-- `writeLocked`, with the record that is in the spool after it. -/
def writeLocked (s : Spool) (r : Json.Fields) (ingested : String) (w : Write) :
    Except Error Json.Fields × Spool :=
  match line? (stamp s.opt (s.seq + 1) ingested r) with
  | .error e => (.error e, s)
  | .ok line =>
      match w with
      | .fails n => (.error .write, { s with file := s.file ++ line.dropLast.take n })
      | .done =>
          let stored := (object? line).getD []
          (.ok stored,
            { s with
              file := s.file ++ line
              size := s.size + line.length
              records := s.records ++ [stored]
              seq := s.seq + 1 })

/-- `full`: one more record would use more of the reserve than `reserveUse`. -/
def Spool.full (s : Spool) (reserveUse : ℤ) : Bool :=
  let recLimit := s.opt.maxRecords - reservedRecords + reserveUse
  let byteLimit := if reserveUse > 0 then s.opt.maxBytes - 512 else s.opt.maxBytes - reservedBytes
  decide (s.records.length ≥ recLimit) || decide (s.size ≥ byteLimit)

/-- The record of a gap. -/
def gapRecord (opt : Options) (kind reason : String) (n : ℤ) (observed : String) : Json.Fields :=
  fromPairs
    [("event_type", .str "collector.gap"),
      ("gap_id", .str (opt.sourceId ++ ":" ++ kind ++ ":" ++ Text.ofInt n)),
      ("gap_kind", .str kind),
      ("reason", .str (redact reason)),
      ("observed_at", .str observed)]

/-- `gapLocked`. -/
def gapLocked (s : Spool) (kind reason : String) (now : Clock) (w : Write) :
    Except Error Json.Fields × Spool :=
  if s.full reservedRecords then (.error .overflow, { s with dropped := s.dropped + 1 })
  else
    writeLocked { s with gapSeq := s.gapSeq + 1 }
      (gapRecord s.opt kind reason (s.gapSeq + 1) now.observed) now.ingested w

/-! ### Calls -/

/-- What a call returns. -/
inductive Answer where
  | none
  /-- The sequence number that `Append` assigned. -/
  | appended (seq : ℤ)
  /-- The list of `Records`. -/
  | listed (rs : List Json.Fields)
  | refused (e : Error)

/-- The call returns `ErrOverflow`. -/
def Answer.overflows : Answer → Bool
  | .refused .overflow => true
  | _ => false

/-- What a call returns, and the record that it wrote. -/
structure Reply where
  answer : Answer
  stored : Option Json.Fields

/-- The reason of the gap that `Append` records. -/
def overflowReason (opt : Options) : String :=
  "local spool reached its limit (" ++ Text.ofInt opt.maxRecords ++ " records, " ++
    Text.ofInt opt.maxBytes ++ " bytes); subsequent evidence is dropped"

/-- `Append`. -/
def append (s : Spool) (r : Json.Fields) (dedupKey : String) (now : Clock) (w : Write) :
    Reply × Spool :=
  if dedupKey ≠ "" ∧ dedupKey ∈ s.seen then (⟨.refused .duplicate, none⟩, s)
  else if s.full 0 then
    let s := { s with dropped := s.dropped + 1 }
    if s.overflow then (⟨.refused .overflow, none⟩, s)
    else
      match gapLocked { s with overflow := true } "spool-overflow" (overflowReason s.opt) now w with
      | (.error e, s) => (⟨.refused e, none⟩, s)
      | (.ok stored, s) => (⟨.refused .overflow, some stored⟩, s)
  else
    let r := if dedupKey ≠ "" then put "_dedup" (.str dedupKey) r else r
    match writeLocked s r now.ingested w with
    | (.error e, s) => (⟨.refused e, none⟩, s)
    | (.ok stored, s) =>
        (⟨.appended s.seq, some stored⟩,
          if dedupKey ≠ "" then { s with seen := dedupKey :: s.seen } else s)

/-- `Gap`. -/
def gap (s : Spool) (kind reason : String) (now : Clock) (w : Write) : Reply × Spool :=
  match gapLocked s kind reason now w with
  | (.error e, s) => (⟨.refused e, none⟩, s)
  | (.ok stored, s) => (⟨.none, some stored⟩, s)

/-- The copy that `Records` makes of a record. -/
def copy (r : Json.Fields) : Json.Fields :=
  match marshal true (.obj r) with
  | none => []
  | some cs => (object? (utf8 cs)).getD []

/-- The sequence number by which `Records` sorts; a record without a number has the zero value. -/
def sequence (r : Json.Fields) : ℤ := (float64? (Json.get r "source_sequence")).getD 0

/-- The reason of the gap that `Records` records. -/
def summaryReason (dropped : ℤ) : String :=
  Text.ofInt dropped ++ " evidence records were dropped because the local spool was full"

/-- The list that `Records` returns. -/
def Spool.listing (s : Spool) : List Json.Fields :=
  Text.sortedBy sequence (s.records.map fun r => delete "_dedup" (copy r))

/-- `Records`. -/
def records (s : Spool) (now : Clock) (w : Write) : Reply × Spool :=
  if s.dropped > 0 ∧ s.summaryOK = false then
    match gapLocked { s with summaryOK := true } "spool-overflow-summary" (summaryReason s.dropped)
      now w with
    | (.error _, s) => (⟨.listed s.listing, none⟩, s)
    | (.ok stored, s) => (⟨.listed s.listing, some stored⟩, s)
  else (⟨.listed s.listing, none⟩, s)

/-! ### Opening the file -/

/-- `adopt`. -/
def adopt (s : Spool) (r : Json.Fields) : Spool :=
  { s with
    records := s.records ++ [r]
    seq :=
      match float64? (Json.get r "source_sequence") with
      | some n => if n > s.seq then n else s.seq
      | none => s.seq
    seen :=
      match Json.get r "_dedup" with
      | .str k => k :: s.seen
      | _ => s.seen
    gapSeq :=
      match Json.get r "event_type" with
      | .str "collector.gap" => s.gapSeq + 1
      | _ => s.gapSeq }

/-- The loop of `parseExisting` over the complete lines: the length of those that were adopted, and
the spool that adopted them. -/
def parseExisting : List Bytes → Spool → ℕ × Spool
  | [], s => (0, s)
  | l :: ls, s =>
      match object? l with
      | none => (0, s)
      | some r =>
          let (n, s) := parseExisting ls (adopt s r)
          (l.length + 1 + n, s)

/-- The reason of the gap that `Open` records. -/
def restartReason (truncated : Bool) : String :=
  "collector restarted with an existing spool; events emitted while it was not running may be " ++
    "missing" ++ if truncated then "; a partially written trailing record was discarded" else ""

/-- The spool of a file that does not exist. -/
def Spool.empty (opt : Options) : Spool where
  opt := opt
  file := []
  size := 0
  records := []
  seen := []
  seq := 0
  gapSeq := 0
  dropped := 0
  overflow := false
  summaryOK := false

/-- A host: the file that no process has open, or the process that has it open. -/
inductive Host where
  | down (file : Option Bytes)
  | up (s : Spool)

/-- `Open`, on a host where the file is there to be read and written. -/
def openSpool (opt : Options) (file : Option Bytes) (now : Clock) (w : Write) : Reply × Host :=
  if opt.maxBytes ≤ reservedBytes ∨ opt.maxRecords ≤ reservedRecords then
    (⟨.refused .limits, none⟩, .down file)
  else
    match file with
    | none => (⟨.none, none⟩, .up (Spool.empty opt))
    | some existing =>
        let (n, s) := parseExisting (Lines.split 10 existing).1 (Spool.empty opt)
        let truncated := decide (n < existing.length)
        let s := { s with file := existing.take n, size := (existing.take n).length }
        match gapLocked s "collector-restart" (restartReason truncated) now w with
        | (.error e, s) => (⟨.refused e, none⟩, .down (some s.file))
        | (.ok stored, s) => (⟨.none, some stored⟩, .up s)

/-! ### The host as a machine -/

/-- A call on an open spool. -/
inductive Call where
  | append (r : GoMap) (dedupKey : String) (now : Clock) (w : Write)
  | gap (kind reason : String) (now : Clock) (w : Write)
  | records (now : Clock) (w : Write)

/-- The answer to a call. -/
def Spool.call (s : Spool) : Call → Reply × Spool
  | .append r dedupKey now w => Collector.append s r.val dedupKey now w
  | .gap kind reason now w => Collector.gap s kind reason now w
  | .records now w => Collector.records s now w

/-- An input of a host; the death of a process leaves a torn line behind what it wrote. -/
inductive Input where
  | open (opt : Options) (now : Clock) (w : Write)
  | call (c : Call)
  | crash (torn : { bs : Bytes // (10 : UInt8) ∉ bs })

/-- The answer to an input; a call needs a process, and one process has the file at a time. -/
def Host.step : Host → Input → Reply × Host
  | .down file, .open opt now w => openSpool opt file now w
  | .up s, .call c => ((s.call c).1, .up (s.call c).2)
  | .up s, .crash torn => (⟨.none, none⟩, .down (some (s.file ++ torn.val)))
  | h, _ => (⟨.none, none⟩, h)

/-- The spool while one process has it. -/
def spool : Machine Spool Call Reply := ⟨Spool.call⟩

/-- The file and the processes that write it, one after the other. -/
def host : Machine Host Input Reply := ⟨Host.step⟩

/-- The records that were written, in the order of the writes. -/
def written (replies : List Reply) : List Json.Fields := replies.filterMap Reply.stored

/-! ### Lines of records -/

/-- `writeLocked` accepts the record: its text is short enough, is read back and has no credential
material. -/
def storable (r : Json.Fields) : Bool :=
  (marshal true (.obj r)).any fun cs =>
    decide ((utf8 cs).length + 1 ≤ maxLineBytes) &&
      (decide (levels (.obj r) ≤ maxNestingDepth + 1) && !problem (.obj r))

/-- The line of a record, without the line break. -/
def lineOf (r : Json.Fields) : Bytes := ((marshal true (.obj r)).map utf8).getD []

section

variable {s : Spool} {r : Json.Fields} {t : String} {w : Write}

/-- A line is written if and only if its record is storable. -/
lemma line?_eq (hc : canonicalFields r = true) :
    (storable r = true ∧ line? r = .ok (lineOf r ++ [10])) ∨
      (storable r = false ∧ ∃ e, e.ofLine = true ∧ line? r = .error e) := by
  unfold storable line? lineOf
  cases hm : marshal true (.obj r) with
  | none => exact .inr ⟨rfl, .marshal, rfl, rfl⟩
  | some cs =>
      have hread := (unmarshal_marshal (x := .obj r) hc hm).1
      simp only [Option.any_some, Option.map_some, Option.getD_some]
      by_cases hlen : (utf8 cs).length + 1 ≤ maxLineBytes
      · rw [if_neg (not_lt.2 hlen), decide_eq_true hlen, Bool.true_and, check, hread]
        by_cases hl : levels (.obj r) ≤ maxNestingDepth + 1
        · rw [if_pos hl, decide_eq_true hl, Bool.true_and]
          cases hp : problem (.obj r) with
          | false => exact .inl ⟨rfl, by simp [hp]⟩
          | true => exact .inr ⟨rfl, .credential, rfl, by simp [hp]⟩
        · rw [if_neg hl, decide_eq_false hl, Bool.false_and]
          exact .inr ⟨rfl, .credential, rfl, by simp⟩
      · rw [if_pos (not_le.1 hlen), decide_eq_false hlen, Bool.false_and]
        exact .inr ⟨rfl, .tooLong, rfl, rfl⟩

lemma exists_marshal_of_storable (h : storable r = true) :
    ∃ cs, marshal true (.obj r) = some cs ∧ lineOf r = utf8 cs ∧
      levels (.obj r) ≤ maxNestingDepth + 1 := by
  unfold storable at h
  cases hm : marshal true (.obj r) with
  | none => simp [hm] at h
  | some cs =>
      simp only [hm, Option.any_some, Bool.and_eq_true, decide_eq_true_eq] at h
      exact ⟨cs, rfl, by simp [lineOf, hm], h.2.1⟩

/-- The line of a record is read back, with the line break or without. -/
lemma object?_line (hc : canonicalFields r = true) (h : storable r = true) :
    object? (lineOf r) = some r ∧ object? (lineOf r ++ [10]) = some r := by
  obtain ⟨cs, hm, hline, hl⟩ := exists_marshal_of_storable h
  obtain ⟨hread, hbreak⟩ := unmarshal_marshal (x := .obj r) hc hm
  rw [hline, object?, object?, hbreak, hread, if_pos hl]
  exact ⟨rfl, rfl⟩

lemma copy_eq (hc : canonicalFields r = true) (h : storable r = true) : copy r = r := by
  obtain ⟨cs, hm, hline, -⟩ := exists_marshal_of_storable h
  have hread := (object?_line hc h).1
  rw [hline] at hread
  rw [copy, hm]
  simp [hread]

/-- A record has one line. -/
lemma newline_notMem_lineOf (h : storable r = true) : (10 : UInt8) ∉ lineOf r := by
  obtain ⟨cs, hm, hline, -⟩ := exists_marshal_of_storable h
  rw [hline]
  exact fun hmem => newline_not_mem _ hm (mem_utf8 hmem)

/-- The line of a record begins with a brace. -/
lemma exists_cons_lineOf (h : storable r = true) : ∃ l, lineOf r = 123 :: l := by
  obtain ⟨cs, hm, hline, -⟩ := exists_marshal_of_storable h
  obtain ⟨ds, -, rfl⟩ := Option.map_eq_some_iff.1 hm
  exact ⟨utf8 (ds ++ ['\x7d']), by rw [hline]; rfl⟩

/-- The spool after a record was written. -/
def Spool.push (s : Spool) (r : Json.Fields) : Spool :=
  { s with
    file := s.file ++ (lineOf r ++ [10])
    size := s.size + (lineOf r ++ [10]).length
    records := s.records ++ [r]
    seq := s.seq + 1 }

/-- The spool after a write that failed. -/
def Spool.tear (s : Spool) (r : Json.Fields) (n : ℕ) : Spool :=
  { s with file := s.file ++ (lineOf r).take n }

lemma canonicalFields_stamp {opt : Options} {seq : ℤ} (hc : canonicalFields r = true) :
    canonicalFields (stamp opt seq t r) = true := by
  unfold stamp
  simp only
  have h : ∀ {k : String} {x : String} {m : Json.Fields}, canonicalFields m = true →
      canonicalFields (put k (.str x) m) = true := fun hm => canonicalFields_put rfl hm
  have hi : ∀ {k : String} {n : ℤ} {m : Json.Fields}, canonicalFields m = true →
      canonicalFields (put k (.int n) m) = true := fun hm => canonicalFields_put rfl hm
  split_ifs
  · exact hi (h (h (h hc)))
  · exact h (hi (h (h (h hc))))
  · exact h (hi (h (h (h hc))))
  · exact h (h (hi (h (h (h hc)))))

lemma canonicalFields_gapRecord (opt : Options) (kind reason : String) (n : ℤ) (o : String) :
    canonicalFields (gapRecord opt kind reason n o) = true := by
  refine canonicalFields_fromPairs fun kv hkv => ?_
  simp only [List.mem_cons, List.not_mem_nil, or_false] at hkv
  rcases hkv with rfl | rfl | rfl | rfl | rfl <;> rfl

/-- A field that `writeLocked` does not set. -/
lemma lookup_stamp {opt : Options} {seq : ℤ} {k : String}
    (hk : k ∉ ["schema_version", "source_id", "cluster_id", "source_sequence", "event_id",
      "ingested_at"]) : (stamp opt seq t r).lookup k = r.lookup k := by
  simp only [List.mem_cons, List.not_mem_nil, or_false, not_or] at hk
  obtain ⟨h1, h2, h3, h4, h5, h6⟩ := hk
  unfold stamp
  simp only
  split_ifs <;>
    simp only [lookup_put_of_ne h1, lookup_put_of_ne h2, lookup_put_of_ne h3, lookup_put_of_ne h4,
      lookup_put_of_ne h5, lookup_put_of_ne h6]

lemma lookup_stamp_sequence {opt : Options} {seq : ℤ} :
    (stamp opt seq t r).lookup "source_sequence" = some (.int seq) := by
  have h5 : "source_sequence" ≠ "event_id" := by decide
  have h6 : "source_sequence" ≠ "ingested_at" := by decide
  unfold stamp
  simp only
  split_ifs <;> simp only [lookup_put_of_ne h5, lookup_put_of_ne h6, lookup_put_self]

/-- The fields of the record of a gap. -/
lemma lookup_gapRecord (opt : Options) (kind reason : String) (n : ℤ) (o : String) :
    (gapRecord opt kind reason n o).lookup "event_type" = some (.str "collector.gap") ∧
      (gapRecord opt kind reason n o).lookup "gap_id" =
        some (.str (opt.sourceId ++ ":" ++ kind ++ ":" ++ Text.ofInt n)) ∧
      (gapRecord opt kind reason n o).lookup "gap_kind" = some (.str kind) ∧
      (gapRecord opt kind reason n o).lookup "_dedup" = none := by
  simp only [gapRecord, fromPairs, List.foldl_cons, List.foldl_nil]
  refine ⟨?_, ?_, ?_, ?_⟩
  · rw [lookup_put_of_ne (by decide), lookup_put_of_ne (by decide), lookup_put_of_ne (by decide),
      lookup_put_of_ne (by decide), lookup_put_self]
  · rw [lookup_put_of_ne (by decide), lookup_put_of_ne (by decide), lookup_put_of_ne (by decide),
      lookup_put_self]
  · rw [lookup_put_of_ne (by decide), lookup_put_of_ne (by decide), lookup_put_self]
  · rw [lookup_put_of_ne (by decide), lookup_put_of_ne (by decide), lookup_put_of_ne (by decide),
      lookup_put_of_ne (by decide), lookup_put_of_ne (by decide), List.lookup_nil]

/-- What `writeLocked` can do: refuse the record, fail to write it, or write it. -/
lemma writeLocked_cases (s : Spool) (t : String) (w : Write) (hc : canonicalFields r = true) :
    (storable (stamp s.opt (s.seq + 1) t r) = false ∧
        ∃ e, e.ofLine = true ∧ writeLocked s r t w = (.error e, s)) ∨
      (storable (stamp s.opt (s.seq + 1) t r) = true ∧ ∃ n, w = .fails n ∧
        writeLocked s r t w = (.error .write, s.tear (stamp s.opt (s.seq + 1) t r) n)) ∨
      (storable (stamp s.opt (s.seq + 1) t r) = true ∧ w = .done ∧
        writeLocked s r t w =
          (.ok (stamp s.opt (s.seq + 1) t r), s.push (stamp s.opt (s.seq + 1) t r))) := by
  have hc' := @canonicalFields_stamp _ t s.opt (s.seq + 1) hc
  rcases line?_eq hc' with ⟨hs, hline⟩ | ⟨hs, e, he, hline⟩
  · cases w with
    | fails n =>
        refine .inr (.inl ⟨hs, n, rfl, ?_⟩)
        simp only [writeLocked, hline]
        rw [List.dropLast_concat]
        rfl
    | done =>
        refine .inr (.inr ⟨hs, rfl, ?_⟩)
        simp only [writeLocked, hline, (object?_line hc' hs).2, Option.getD_some]
        rfl
  · exact .inl ⟨hs, e, he, by simp only [writeLocked, hline]⟩

/-! ### What a call does -/

/-- The record that `gapLocked` writes. -/
def Spool.gapLine (s : Spool) (kind reason : String) (now : Clock) : Json.Fields :=
  stamp s.opt (s.seq + 1) now.ingested (gapRecord s.opt kind reason (s.gapSeq + 1) now.observed)

/-- The record that `Append` writes. -/
def Spool.evidenceLine (s : Spool) (r : Json.Fields) (dedupKey : String) (now : Clock) :
    Json.Fields :=
  stamp s.opt (s.seq + 1) now.ingested
    (if dedupKey ≠ "" then put "_dedup" (.str dedupKey) r else r)

lemma canonicalFields_gapLine (s : Spool) (kind reason : String) (now : Clock) :
    canonicalFields (s.gapLine kind reason now) = true :=
  canonicalFields_stamp (canonicalFields_gapRecord _ _ _ _ _)

lemma canonicalFields_dedup (dedupKey : String) (hc : canonicalFields r = true) :
    canonicalFields (if dedupKey ≠ "" then put "_dedup" (.str dedupKey) r else r) = true := by
  split_ifs
  · exact canonicalFields_put rfl hc
  · exact hc

/-- The fields of the record that `gapLocked` writes. -/
lemma lookup_gapLine (s : Spool) (kind reason : String) (now : Clock) :
    (s.gapLine kind reason now).lookup "event_type" = some (.str "collector.gap") ∧
      (s.gapLine kind reason now).lookup "gap_id" =
        some (.str (s.opt.sourceId ++ ":" ++ kind ++ ":" ++ Text.ofInt (s.gapSeq + 1))) ∧
      (s.gapLine kind reason now).lookup "gap_kind" = some (.str kind) ∧
      (s.gapLine kind reason now).lookup "_dedup" = none := by
  have h := lookup_gapRecord s.opt kind reason (s.gapSeq + 1) now.observed
  refine ⟨?_, ?_, ?_, ?_⟩
  · exact (lookup_stamp (by decide)).trans h.1
  · exact (lookup_stamp (by decide)).trans h.2.1
  · exact (lookup_stamp (by decide)).trans h.2.2.1
  · exact (lookup_stamp (by decide)).trans h.2.2.2

/-- What `gapLocked` can do: drop the gap, refuse its record, fail to write it, or write it. -/
lemma gapLocked_cases (s : Spool) (kind reason : String) (now : Clock) (w : Write) :
    (s.full reservedRecords = true ∧
        gapLocked s kind reason now w = (.error .overflow, { s with dropped := s.dropped + 1 })) ∨
      s.full reservedRecords = false ∧
        ((storable (s.gapLine kind reason now) = false ∧ ∃ e, e.ofLine = true ∧
            gapLocked s kind reason now w = (.error e, { s with gapSeq := s.gapSeq + 1 })) ∨
          (storable (s.gapLine kind reason now) = true ∧ ∃ n, w = .fails n ∧
            gapLocked s kind reason now w =
              (.error .write,
                { s with gapSeq := s.gapSeq + 1 }.tear (s.gapLine kind reason now) n)) ∨
          (storable (s.gapLine kind reason now) = true ∧ w = .done ∧
            gapLocked s kind reason now w =
              (.ok (s.gapLine kind reason now),
                { s with gapSeq := s.gapSeq + 1 }.push (s.gapLine kind reason now)))) := by
  unfold gapLocked
  cases hf : s.full reservedRecords with
  | true => exact .inl ⟨rfl, if_pos rfl⟩
  | false =>
      rw [if_neg Bool.false_ne_true]
      exact .inr ⟨rfl, writeLocked_cases { s with gapSeq := s.gapSeq + 1 } now.ingested w
        (canonicalFields_gapRecord s.opt kind reason (s.gapSeq + 1) now.observed)⟩

/-- Two spools have the same file and the same records. -/
structure SameLog (s s' : Spool) : Prop where
  opt : s'.opt = s.opt
  file : s'.file = s.file
  size : s'.size = s.size
  records : s'.records = s.records
  seq : s'.seq = s.seq

/-- The kind of the gap that a call may record. -/
def Call.gapKind : Call → String
  | .append _ _ _ _ => "spool-overflow"
  | .gap kind _ _ _ => kind
  | .records _ _ => "spool-overflow-summary"

/-- The outcome of the write that a call may make. -/
def Call.write : Call → Write
  | .append _ _ _ w | .gap _ _ _ w | .records _ w => w

/-- What a call can do to the file, the records, the numbers of gaps and the keys that were seen,
and which record it writes. -/
inductive Effect (s : Spool) (c : Call) : Option Json.Fields → Spool → Prop
  | quiet {s' : Spool} (hlog : SameLog s s') (hgap : s'.gapSeq = s.gapSeq)
      (hseen : s'.seen = s.seen) : Effect s c none s'
  | gapRefused {s' : Spool} {reason : String} {now : Clock}
      (hs : storable (s.gapLine c.gapKind reason now) = false) (hlog : SameLog s s')
      (hgap : s'.gapSeq = s.gapSeq + 1) (hseen : s'.seen = s.seen) : Effect s c none s'
  | gapTorn {s' : Spool} {reason : String} {now : Clock} {n : ℕ}
      (hs : storable (s.gapLine c.gapKind reason now) = true) (hw : c.write = .fails n)
      (hlog : SameLog (s.tear (s.gapLine c.gapKind reason now) n) s')
      (hgap : s'.gapSeq = s.gapSeq + 1) (hseen : s'.seen = s.seen) : Effect s c none s'
  | gap {s' : Spool} {reason : String} {now : Clock}
      (hs : storable (s.gapLine c.gapKind reason now) = true) (hw : c.write = .done)
      (hlog : SameLog (s.push (s.gapLine c.gapKind reason now)) s')
      (hgap : s'.gapSeq = s.gapSeq + 1) (hseen : s'.seen = s.seen) :
      Effect s c (some (s.gapLine c.gapKind reason now)) s'
  | torn {s' : Spool} {r : GoMap} {dedupKey : String} {now : Clock} {n : ℕ}
      (hc : c = .append r dedupKey now (.fails n))
      (hs : storable (s.evidenceLine r.val dedupKey now) = true)
      (hlog : SameLog (s.tear (s.evidenceLine r.val dedupKey now) n) s')
      (hgap : s'.gapSeq = s.gapSeq) (hseen : s'.seen = s.seen) : Effect s c none s'
  | evidence {s' : Spool} {r : GoMap} {dedupKey : String} {now : Clock}
      (hc : c = .append r dedupKey now .done)
      (hfresh : ¬(dedupKey ≠ "" ∧ dedupKey ∈ s.seen))
      (hs : storable (s.evidenceLine r.val dedupKey now) = true)
      (hlog : SameLog (s.push (s.evidenceLine r.val dedupKey now)) s')
      (hgap : s'.gapSeq = s.gapSeq)
      (hseen : s'.seen = if dedupKey ≠ "" then dedupKey :: s.seen else s.seen) :
      Effect s c (some (s.evidenceLine r.val dedupKey now)) s'

/-- The gap that a call records, seen from the spool before the call. -/
lemma effect_gapLocked (s s₀ : Spool) (c : Call) (reason : String) (now : Clock) (hlog : SameLog s s₀)
    (hgap : s₀.gapSeq = s.gapSeq) (hseen : s₀.seen = s.seen) :
    Effect s c (gapLocked s₀ c.gapKind reason now c.write).1.toOption
      (gapLocked s₀ c.gapKind reason now c.write).2 := by
  obtain ⟨hopt, hfile, hsize, hrecords, hseq⟩ := hlog
  have hline : s₀.gapLine c.gapKind reason now = s.gapLine c.gapKind reason now := by
    simp only [Spool.gapLine, hopt, hgap, hseq]
  have hcases := gapLocked_cases s₀ c.gapKind reason now c.write
  rw [hline] at hcases
  rcases hcases with ⟨-, h⟩ | ⟨-, ⟨hs, e, -, h⟩ | ⟨hs, n, hw, h⟩ | ⟨hs, hw, h⟩⟩ <;> rw [h]
  · exact .quiet ⟨hopt, hfile, hsize, hrecords, hseq⟩ hgap hseen
  · exact .gapRefused hs ⟨hopt, hfile, hsize, hrecords, hseq⟩ (congrArg (· + 1) hgap) hseen
  · refine .gapTorn hs hw ⟨hopt, ?_, hsize, hrecords, hseq⟩ (congrArg (· + 1) hgap) hseen
    simp only [Spool.tear, hfile]
  · refine .gap hs hw ⟨hopt, ?_, ?_, ?_, ?_⟩ (congrArg (· + 1) hgap) hseen <;>
      simp only [Spool.push, hfile, hsize, hrecords, hseq]

lemma effect_append (s : Spool) (r : GoMap) (dedupKey : String) (now : Clock) (w : Write) :
    Effect s (.append r dedupKey now w) (append s r.val dedupKey now w).1.stored
      (append s r.val dedupKey now w).2 := by
  unfold append
  by_cases hdup : dedupKey ≠ "" ∧ dedupKey ∈ s.seen
  · rw [if_pos hdup]
    exact .quiet ⟨rfl, rfl, rfl, rfl, rfl⟩ rfl rfl
  rw [if_neg hdup]
  cases hf : s.full 0 with
  | true =>
      rw [if_pos rfl]
      cases ho : s.overflow with
      | true =>
          simp only
          exact .quiet ⟨rfl, rfl, rfl, rfl, rfl⟩ rfl rfl
      | false =>
          -- the first record that is dropped: an alarm is written
          have h := effect_gapLocked s { s with dropped := s.dropped + 1, overflow := true }
            (.append r dedupKey now w) (overflowReason s.opt) now ⟨rfl, rfl, rfl, rfl, rfl⟩ rfl rfl
          simp only [Call.gapKind, Call.write, Bool.false_eq_true, if_false] at h ⊢
          generalize gapLocked _ "spool-overflow" (overflowReason s.opt) now w = g at h
          obtain ⟨e | stored, s'⟩ := g <;> exact h
  | false =>
      rw [if_neg Bool.false_ne_true]
      have hline : stamp s.opt (s.seq + 1) now.ingested
          (if dedupKey ≠ "" then put "_dedup" (.str dedupKey) r.val else r.val) =
            s.evidenceLine r.val dedupKey now := rfl
      have hcases := writeLocked_cases s now.ingested w (canonicalFields_dedup dedupKey r.property)
      rw [hline] at hcases
      simp only
      rcases hcases with ⟨-, e, -, h⟩ | ⟨hs, n, rfl, h⟩ | ⟨hs, rfl, h⟩ <;> rw [h]
      · -- the guard refuses the record
        exact .quiet ⟨rfl, rfl, rfl, rfl, rfl⟩ rfl rfl
      · -- the write fails
        exact .torn rfl hs ⟨rfl, rfl, rfl, rfl, rfl⟩ rfl rfl
      · -- a key that is given is remembered
        by_cases hk : dedupKey ≠ ""
        · simp only [if_pos hk]
          refine .evidence rfl hdup hs ⟨rfl, rfl, rfl, rfl, rfl⟩ rfl ?_
          rw [if_pos hk]
          rfl
        · simp only [if_neg hk]
          refine .evidence rfl hdup hs ⟨rfl, rfl, rfl, rfl, rfl⟩ rfl ?_
          rw [if_neg hk]
          rfl

/-- What a call does. -/
theorem effect_call (s : Spool) (c : Call) : Effect s c (s.call c).1.stored (s.call c).2 := by
  cases c with
  | append r dedupKey now w => exact effect_append s r dedupKey now w
  | gap kind reason now w =>
      have h := effect_gapLocked s s (.gap kind reason now w) reason now
        ⟨rfl, rfl, rfl, rfl, rfl⟩ rfl rfl
      simp only [Call.gapKind, Call.write] at h
      simp only [Spool.call, gap]
      generalize gapLocked s kind reason now w = g at h
      obtain ⟨e | stored, s'⟩ := g <;> exact h
  | records now w =>
      simp only [Spool.call, records]
      by_cases hd : s.dropped > 0 ∧ s.summaryOK = false
      · rw [if_pos hd]
        have h := effect_gapLocked s { s with summaryOK := true } (.records now w)
          (summaryReason s.dropped) now ⟨rfl, rfl, rfl, rfl, rfl⟩ rfl rfl
        simp only [Call.gapKind, Call.write] at h
        generalize gapLocked { s with summaryOK := true } "spool-overflow-summary"
          (summaryReason s.dropped) now w = g at h
        obtain ⟨e | stored, s'⟩ := g <;> exact h
      · rw [if_neg hd]
        exact .quiet ⟨rfl, rfl, rfl, rfl, rfl⟩ rfl rfl

/-! ### Calls that find room -/

/-- A gap that finds room is written. -/
lemma call_gap {kind reason : String} {now : Clock} (hf : s.full reservedRecords = false)
    (hs : storable (s.gapLine kind reason now) = true) :
    s.call (.gap kind reason now .done) =
      (⟨.none, some (s.gapLine kind reason now)⟩,
        { s with gapSeq := s.gapSeq + 1 }.push (s.gapLine kind reason now)) := by
  simp only [Spool.call, gap]
  rcases gapLocked_cases s kind reason now .done with
    ⟨hfull, -⟩ | ⟨-, ⟨hno, -⟩ | ⟨-, n, hw, -⟩ | ⟨-, -, h⟩⟩
  · exact absurd (hfull.symm.trans hf) (by decide)
  · exact absurd (hno.symm.trans hs) (by decide)
  · exact absurd hw (by simp)
  · rw [h]

/-- A record that finds room is written, or a part of its line is. -/
lemma call_append {r : GoMap} {now : Clock} (hf : s.full 0 = false)
    (hs : storable (s.evidenceLine r.val "" now) = true) :
    s.call (.append r "" now .done) =
        (⟨.appended (s.seq + 1), some (s.evidenceLine r.val "" now)⟩,
          s.push (s.evidenceLine r.val "" now)) ∧
      ∀ n, s.call (.append r "" now (.fails n)) =
        (⟨.refused .write, none⟩, s.tear (s.evidenceLine r.val "" now) n) := by
  have hcases (w : Write) := writeLocked_cases s now.ingested w (canonicalFields_dedup "" r.property)
  simp only [Spool.call, append]
  rw [if_neg (by simp), hf]
  simp only [Bool.false_eq_true, if_false, ne_eq, not_true_eq_false] at hcases ⊢
  constructor
  · rcases hcases .done with ⟨hno, -⟩ | ⟨-, n, hw, -⟩ | ⟨-, -, h⟩
    · exact absurd (hno.symm.trans hs) (by decide)
    · exact absurd hw (by simp)
    · rw [h]
      rfl
  · intro n
    rcases hcases (.fails n) with ⟨hno, -⟩ | ⟨-, n', hw, h⟩ | ⟨-, hw, -⟩
    · exact absurd (hno.symm.trans hs) (by decide)
    · rw [h, Write.fails.inj hw]
      rfl
    · exact absurd hw (by simp)

lemma length_line_le {r : Json.Fields} (h : storable r = true) :
    ((lineOf r ++ [10]).length : ℤ) ≤ 65536 := by
  obtain ⟨cs, hm, hline, -⟩ := exists_marshal_of_storable h
  unfold storable at h
  simp only [hm, Option.any_some, Bool.and_eq_true, decide_eq_true_eq] at h
  have hmax : maxLineBytes = 65536 := rfl
  rw [hline, List.length_append, List.length_singleton]
  omega

lemma full_eq_false {n : ℤ} (h : (s.records.length : ℤ) < s.opt.maxRecords - reservedRecords + n)
    (h' : s.size < s.opt.maxBytes - reservedBytes) : s.full n = false := by
  simp only [Spool.full, Bool.or_eq_false_iff, decide_eq_false_iff_not, not_le]
  refine ⟨h, ?_⟩
  simp only [reservedBytes] at h' ⊢
  split_ifs <;> omega

end

/-! ### What an open finds -/

/-- The spool that has adopted what a file holds. -/
def found (opt : Options) (file : Bytes) : Spool :=
  let p := parseExisting (Lines.split 10 file).1 (Spool.empty opt)
  { p.2 with file := file.take p.1, size := (file.take p.1).length }

/-- The reason of the gap that an open of the file records. -/
def foundReason (opt : Options) (file : Bytes) : String :=
  restartReason (decide ((parseExisting (Lines.split 10 file).1 (Spool.empty opt)).1 < file.length))

/-- The limits of the options are large enough for `Open`. -/
def Options.Accepted (opt : Options) : Prop :=
  reservedBytes < opt.maxBytes ∧ reservedRecords < opt.maxRecords

lemma openSpool_some {opt : Options} (hopt : opt.Accepted) (file : Bytes) (now : Clock)
    (w : Write) :
    openSpool opt (some file) now w =
      match gapLocked (found opt file) "collector-restart" (foundReason opt file) now w with
      | (.error e, s) => (⟨.refused e, none⟩, .down (some s.file))
      | (.ok stored, s) => (⟨.none, some stored⟩, .up s) := by
  have hlim : ¬(opt.maxBytes ≤ reservedBytes ∨ opt.maxRecords ≤ reservedRecords) :=
    not_or.2 ⟨not_le.2 hopt.1, not_le.2 hopt.2⟩
  unfold openSpool
  rw [if_neg hlim]
  rfl

/-- Reading a file drops no record. -/
lemma parseExisting_idle (ls : List Bytes) (s : Spool) :
    (parseExisting ls s).2.opt = s.opt ∧ (parseExisting ls s).2.overflow = s.overflow ∧
      (parseExisting ls s).2.dropped = s.dropped := by
  induction ls generalizing s with
  | nil => exact ⟨rfl, rfl, rfl⟩
  | cons l ls ih =>
      rw [parseExisting]
      cases object? l with
      | none => exact ⟨rfl, rfl, rfl⟩
      | some r => exact ih (adopt s r)

/-! ### A sample -/

/-- Room for one record and for the reserve. -/
def tightOptions : Options where
  maxBytes := 1048576
  maxRecords := 3
  sourceId := "collector"
  clusterId := "cluster"

/-- A reading of the clock. -/
def sampleClock : Clock := ⟨"2026-01-01T00:00:00Z", "2026-01-01T00:00:00Z"⟩

/-- A record that `Append` is given. -/
def sampleRecord : GoMap := ⟨[("event_type", .str "k8s.api.response")], rfl⟩

end Collector

end Afterlock
