import Afterlock.Collector.Bounds

/-!
# When a restart is possible

`Open` records the restart on the path of an ordinary gap, and fails where that gap finds no room.
So a process can be started on a file exactly if the records that the file holds leave room for one
more and the record of the restart can be written, and it keeps every complete record exactly if
none stands after a line that is not read (`restarts_iff`).
-/

namespace Afterlock

namespace Collector

open Encoding

/-! ### The complete records of a file -/

/-- The complete lines of a file that are records. -/
def recordLines (file : Bytes) : List Bytes :=
  (Lines.split 10 file).1.filter fun l => (object? l).isSome

/-- The complete records of a file. -/
def complete (file : Bytes) : List Json.Fields := (Lines.split 10 file).1.filterMap object?

/-- The record of a restart. -/
def IsRestart (r : Json.Fields) : Prop :=
  r.lookup "event_type" = some (.str "collector.gap") ∧
    r.lookup "gap_kind" = some (.str "collector-restart")

/-- The process shows the restart by a record after those of `log`, or has counted it as dropped,
of which a later call of `Records` tells. -/
def Spool.ShowsRestart (s : Spool) (log : List Json.Fields) : Prop :=
  (∃ r ∈ s.records.drop log.length, IsRestart r) ∨ 0 < s.dropped

/-- `Open` succeeds on the file, keeps every complete record and shows the restart. -/
def Restarts (opt : Options) (file : Bytes) (now : Clock) : Prop :=
  ∃ s, (openSpool opt (some file) now .done).2 = .up s ∧ complete file <+: s.records ∧
    s.ShowsRestart (complete file)

/-! ### The condition -/

/-- No complete record stands after a line that is not read. -/
def Unbroken (file : Bytes) : Prop :=
  (Lines.split 10 file).1.Pairwise fun l l' => object? l = none → object? l' = none

/-- The complete records of the file leave room for one more gap. -/
def HasRoomForGap (opt : Options) (file : Bytes) : Prop :=
  ((recordLines file).length : ℤ) < opt.maxRecords ∧
    ((Lines.join 10 (recordLines file)).length : ℤ) < opt.maxBytes - 512

/-- The record that an open of the file writes. -/
def restartLine (opt : Options) (file : Bytes) (now : Clock) : Json.Fields :=
  (found opt file).gapLine "collector-restart" (foundReason opt file) now

section

variable {opt : Options} {file : Bytes}

lemma records_found_prefix (opt : Options) (file : Bytes) :
    (found opt file).records <+: complete file := by
  rw [(found_spec opt file).2.1]
  exact Lines.readUntil_prefix_filterMap object? _

lemma records_found_eq : (found opt file).records = complete file ↔ Unbroken file := by
  rw [(found_spec opt file).2.1, eq_comm]
  exact Lines.filterMap_eq_readUntil

/-- The room that an open finds. -/
lemma full_found (h : Unbroken file) :
    (found opt file).full reservedRecords = false ↔ HasRoomForGap opt file := by
  obtain ⟨hopt, hrecords, hfile, hsize, -⟩ := found_spec opt file
  have htake := Lines.take_readUntil h
  have hlen : (found opt file).records.length = (recordLines file).length := by
    rw [hrecords, recordLines, ← htake, List.length_take,
      min_eq_left (Lines.length_readUntil_le _ _)]
  rw [htake] at hfile
  simp only [Spool.full, hopt, hlen, hsize, hfile, Bool.or_eq_false_iff, decide_eq_false_iff_not,
    not_le, HasRoomForGap, recordLines]
  simp [reservedRecords]

/-- What an open does with a file whose limits it accepts. -/
lemma openSpool_cases (hopt : opt.Accepted) (file : Bytes) (now : Clock) :
    ((found opt file).full reservedRecords = false ∧ storable (restartLine opt file now) = true ∧
        ∃ s, (openSpool opt (some file) now .done).2 = .up s ∧ s.dropped = 0 ∧
          s.records = (found opt file).records ++ [restartLine opt file now]) ∨
      ¬((found opt file).full reservedRecords = false ∧
          storable (restartLine opt file now) = true) ∧
        ∀ s, (openSpool opt (some file) now .done).2 ≠ .up s := by
  rw [openSpool_some hopt]
  rcases gapLocked_cases (found opt file) "collector-restart" (foundReason opt file) now .done with
    ⟨hf, h⟩ | ⟨hf, ⟨hs, e, -, h⟩ | ⟨-, n, hw, -⟩ | ⟨hs, -, h⟩⟩
  · rw [h]
    exact .inr ⟨fun hc => absurd (hf.symm.trans hc.1) (by decide), fun s => by simp⟩
  · rw [h]
    exact .inr ⟨fun hc => absurd (hs.symm.trans hc.2) (by decide), fun s => by simp⟩
  · exact absurd hw (by simp)
  · rw [h]
    exact .inl ⟨hf, hs, _, rfl, (found_spec opt file).2.2.2.2, rfl⟩

/-- A process can be started on a file exactly if no complete record stands after a line that is not
read, there is room for a gap, and the record of the restart can be written. -/
theorem restarts_iff (hopt : opt.Accepted) (file : Bytes) (now : Clock) :
    Restarts opt file now ↔
      Unbroken file ∧ HasRoomForGap opt file ∧ storable (restartLine opt file now) = true := by
  have hcases := openSpool_cases hopt file now
  constructor
  · rintro ⟨s, hs, hkeep, hshow⟩
    rcases hcases with ⟨hf, hline, s', hs', hdropped, hrecords⟩ | ⟨-, hnot⟩
    · obtain rfl : s = s' := Host.up.inj (hs.symm.trans hs')
      obtain ⟨rest, hrest⟩ := records_found_prefix opt file
      -- a record beside those that are adopted would leave no record to show the restart
      have hnil : rest = [] := by
        rw [Spool.ShowsRestart, hdropped, or_iff_left (lt_irrefl _)] at hshow
        obtain ⟨r, hr, -⟩ := hshow
        have hpos := List.length_pos_of_mem hr
        rw [List.length_drop, hrecords, ← hrest, List.length_append, List.length_append,
          List.length_singleton] at hpos
        exact List.eq_nil_of_length_eq_zero (by omega)
      rw [hnil, List.append_nil] at hrest
      have hunbroken := records_found_eq.1 hrest
      exact ⟨hunbroken, (full_found hunbroken).1 hf, hline⟩
    · exact absurd hs (hnot s)
  · rintro ⟨hunbroken, hroom, hline⟩
    rcases hcases with ⟨-, -, s, hs, -, hrecords⟩ | ⟨hno, -⟩
    · rw [records_found_eq.2 hunbroken] at hrecords
      refine ⟨s, hs, ⟨_, hrecords.symm⟩, .inl ⟨restartLine opt file now, ?_, ?_⟩⟩
      · rw [hrecords, List.drop_left]
        exact List.mem_singleton_self _
      · have hgap := lookup_gapLine (found opt file) "collector-restart" (foundReason opt file) now
        exact ⟨hgap.1, hgap.2.2.1⟩
    · exact absurd ⟨(full_found hunbroken).2 hroom, hline⟩ hno

/-- What was written is complete, and the torn rest of a line is not. -/
lemma recordLines_of_stored {log : List Json.Fields} (hlog : ∀ r ∈ log, Stored r) {torn : Bytes}
    (hnl : (10 : UInt8) ∉ torn) : recordLines (logBytes log ++ torn) = log.map lineOf := by
  rw [recordLines, split_of_reads hlog, Lines.split_of_notMem hnl, List.append_nil]
  refine List.filter_eq_self.2 fun l hl => ?_
  obtain ⟨r, hr, rfl⟩ := List.mem_map.1 hl
  rw [(object?_line (hlog r hr).canonical (hlog r hr).storable).1]
  rfl

lemma unbroken_of_stored {log : List Json.Fields} (hlog : ∀ r ∈ log, Stored r) {torn : Bytes}
    (hnl : (10 : UInt8) ∉ torn) : Unbroken (logBytes log ++ torn) := by
  refine Lines.filterMap_eq_readUntil.1 ?_
  rw [readUntil_of_reads hlog (reads_of_torn hnl), split_of_reads hlog,
    Lines.split_of_notMem hnl, List.append_nil, List.filterMap_map]
  refine (List.filterMap_congr fun r hr => ?_).trans List.filterMap_some
  exact (object?_line (hlog r hr).canonical (hlog r hr).storable).1

lemma found_of_reads {log : List Json.Fields} (hlog : ∀ r ∈ log, Stored r) (h : Reads file log) :
    found opt file = reopened opt log := by
  obtain ⟨hparse, htake⟩ := @parseExisting_of_reads opt _ _ hlog h
  simp only [found, hparse, htake]
  rfl

/-- In a run in which no record is written after a torn line, the file is not broken, so that the
next restart depends on the room alone. -/
theorem unbroken_of_whole {is : List Input} (hlen : is.length < 2 ^ 53)
    (h : host.Admits Host.Whole (.down none) is)
    (hfinal : host.final (.down none) is = .down (some file)) : Unbroken file := by
  obtain ⟨hlog, hkeep⟩ := keeps_of_whole hlen h
  rw [hfinal] at hkeep
  obtain ⟨torn, hnl, rfl⟩ := hkeep
  exact unbroken_of_stored hlog.stored hnl

end

/-! ### Samples -/

/-- Three gaps, and the death of the process. -/
def gapsThenCrash : List Input :=
  [.open tightOptions sampleClock .done, .call (.gap "audit-dropped" "" sampleClock .done),
    .call (.gap "audit-dropped" "" sampleClock .done),
    .call (.gap "audit-dropped" "" sampleClock .done), .crash ⟨[], List.not_mem_nil⟩]

lemma stored_gapped {n : ℕ} (hn : n ≤ 3) :
    (∀ r ∈ (gapped n).records, Stored r) ∧ (gapped n).file = logBytes (gapped n).records := by
  induction n with
  | zero => exact ⟨fun r hr => absurd hr List.not_mem_nil, rfl⟩
  | succ n ih =>
      obtain ⟨hstored, hfile⟩ := ih (by omega)
      refine ⟨fun r hr => ?_, ?_⟩
      · rcases List.mem_append.1 hr with hr | hr
        · exact hstored r hr
        · rw [List.mem_singleton.1 hr]
          exact ⟨canonicalFields_gapLine _ _ _ _, storable_gapped (by omega)⟩
      · simp only [gapped, Spool.push, logBytes, List.map_append, Lines.join_append,
          List.map_cons, List.map_nil, Lines.join_singleton, hfile]

lemma final_gapped {n : ℕ} (hn : n ≤ 3) :
    host.final (.down none) (.open tightOptions sampleClock .done ::
      List.replicate n (.call (.gap "audit-dropped" "" sampleClock .done))) = .up (gapped n) := by
  induction n with
  | zero => rfl
  | succ n ih =>
      rw [List.replicate_succ', ← List.cons_append, Machine.final_append, ih (by omega),
        Machine.final_cons, Machine.final_nil]
      exact congrArg Host.up (step_gapped (by omega))

/-- Two gaps leave room for a restart, also if the process dies while it writes a line. -/
theorem gapped_restarts :
    host.final (.down none) (.open tightOptions sampleClock .done ::
        List.replicate 2 (.call (.gap "audit-dropped" "" sampleClock .done)) ++
          [.crash ⟨[123, 34], by decide⟩]) = .down (some ((gapped 2).file ++ [123, 34])) ∧
      Restarts tightOptions ((gapped 2).file ++ [123, 34]) sampleClock := by
  obtain ⟨hstored, hfile⟩ := stored_gapped (n := 2) (by decide)
  obtain ⟨-, hlen, hsize, -⟩ := gapped_spec (n := 2) (by decide)
  have hnl : (10 : UInt8) ∉ ([123, 34] : Bytes) := by decide
  refine ⟨?_, (restarts_iff accepted_tightOptions _ sampleClock).2 ⟨?_, ⟨?_, ?_⟩, ?_⟩⟩
  · rw [Machine.final_append, final_gapped (by decide), Machine.final_cons, Machine.final_nil]
    rfl
  all_goals
    rw [hfile]
  · exact unbroken_of_stored hstored hnl
  · rw [recordLines_of_stored hstored hnl, List.length_map, hlen]
    decide
  · rw [recordLines_of_stored hstored hnl, ← logBytes, ← hfile]
    decide +kernel
  · have hopt := (found_spec tightOptions (logBytes (gapped 2).records ++ [123, 34])).1
    rw [restartLine, foundReason, (parseExisting_of_reads hstored (reads_of_torn hnl)).1]
    rw [found_of_reads hstored (reads_of_torn hnl)] at hopt ⊢
    refine storable_gapLine ?_ (by decide +kernel) (by decide) _ formatted_sampleClock ?_
    · rw [hopt]
      exact harmless_tightOptions
    · decide +kernel

/-- The gaps have filled the file, and no process can be started on it any more. -/
theorem gapsThenCrash_not_restarts :
    host.final (.down none) gapsThenCrash = .down (some ((gapped 3).file ++ [])) ∧
      ¬Restarts tightOptions ((gapped 3).file ++ []) sampleClock := by
  refine ⟨?_, ?_⟩
  · have hgaps := final_gapped (n := 3) le_rfl
    have hcalls : gapsThenCrash = (.open tightOptions sampleClock .done ::
        List.replicate 3 (.call (.gap "audit-dropped" "" sampleClock .done))) ++
          [.crash ⟨[], List.not_mem_nil⟩] := rfl
    rw [hcalls, Machine.final_append, hgaps, Machine.final_cons, Machine.final_nil]
    rfl
  · rintro ⟨s, hs, -⟩
    obtain ⟨hstored, hfile⟩ := stored_gapped (n := 3) le_rfl
    obtain ⟨hopt, hlen, -⟩ := gapped_spec (n := 3) le_rfl
    have hrecords : (found tightOptions ((gapped 3).file ++ [])).records = (gapped 3).records := by
      rw [(found_spec _ _).2.1, hfile]
      exact readUntil_of_reads hstored (reads_of_torn List.not_mem_nil)
    have hfull : (found tightOptions ((gapped 3).file ++ [])).full reservedRecords = true := by
      have hlimit : ((found tightOptions ((gapped 3).file ++ [])).records.length : ℤ) ≥
          (found tightOptions ((gapped 3).file ++ [])).opt.maxRecords - reservedRecords +
            reservedRecords := by
        rw [(found_spec _ _).1, hrecords, hlen]
        decide
      rw [Spool.full, decide_eq_true hlimit, Bool.true_or]
    rcases openSpool_cases accepted_tightOptions ((gapped 3).file ++ []) sampleClock with
      ⟨hf, -⟩ | ⟨-, hnot⟩
    · exact absurd (hfull.symm.trans hf) (by decide)
    · exact hnot s hs

end Collector

end Afterlock
