import Afterlock.Collector.Spool
import Afterlock.Collector.Torn

/-!
# What a restart keeps

The records of the spool file are those that were written: a process adopts them when it opens the
file, in their order, and numbers its own records after them.

A write that fails can leave a part of a line behind, to which the next line is appended; the line
that comes of it has no value, and with it every later record is lost at the next restart.  `Whole`
says that no record is written after a torn line in one lifetime; in a run of such inputs the file
holds what was written (`durable_of_whole`).
-/

namespace Afterlock

namespace Collector

open Encoding

/-! ### The file and its records -/

/-- The file of a list of records. -/
def logBytes (log : List Json.Fields) : Bytes := Lines.join 10 (log.map lineOf)

/-- The records that `Open` adopts. -/
def adoptedBy (opt : Options) : Option Bytes → List Json.Fields
  | none => []
  | some file => (parseExisting (Lines.split 10 file).1 (Spool.empty opt)).2.records

/-- The record was written by `writeLocked`. -/
structure Stored (r : Json.Fields) : Prop where
  canonical : canonicalFields r = true
  storable : storable r = true

/-- The file begins with the records of `log`, and no line after them is read. -/
def Reads (file : Bytes) (log : List Json.Fields) : Prop :=
  ∃ rest, file = logBytes log ++ rest ∧ Lines.readUntil object? (Lines.split 10 rest).1 = []

/-- The spool of a process that has adopted records. -/
def reopened (opt : Options) (log : List Json.Fields) : Spool :=
  { log.foldl adopt (Spool.empty opt) with
    file := logBytes log
    size := (logBytes log).length }

section

variable {opt : Options} {log : List Json.Fields} {file : Bytes}

lemma parseExisting_spec (ls : List Bytes) (s : Spool) :
    (parseExisting ls s).2 = (Lines.readUntil object? ls).foldl adopt s ∧
      (parseExisting ls s).1 =
        (Lines.join 10 (ls.take (Lines.readUntil object? ls).length)).length := by
  induction ls generalizing s with
  | nil => exact ⟨rfl, rfl⟩
  | cons l ls ih =>
      rw [parseExisting, Lines.readUntil]
      cases object? l with
      | none => exact ⟨rfl, rfl⟩
      | some r =>
          obtain ⟨hspool, hlen⟩ := ih (adopt s r)
          refine ⟨hspool, ?_⟩
          simp only [hlen, List.length_cons, List.take_succ_cons, Lines.join, List.flatMap_cons,
            List.length_append, List.length_nil, Nat.zero_add]

/-- The lines of a file that begins with records. -/
lemma split_of_reads (hlog : ∀ r ∈ log, Stored r) {rest : Bytes} :
    (Lines.split 10 (logBytes log ++ rest)).1 = log.map lineOf ++ (Lines.split 10 rest).1 := by
  have hlines : ∀ l ∈ log.map lineOf, (10 : UInt8) ∉ l := by
    intro l hl
    obtain ⟨r, hr, rfl⟩ := List.mem_map.1 hl
    exact newline_notMem_lineOf (hlog r hr).storable
  rw [logBytes, Lines.split_join_append hlines]

lemma readUntil_of_reads (hlog : ∀ r ∈ log, Stored r) (hfile : Reads file log) :
    Lines.readUntil object? (Lines.split 10 file).1 = log := by
  obtain ⟨rest, rfl, hrest⟩ := hfile
  have hread : ∀ l ∈ log.map lineOf, object? l = some ((object? l).getD []) := by
    intro l hl
    obtain ⟨r, hr, rfl⟩ := List.mem_map.1 hl
    rw [(object?_line (hlog r hr).canonical (hlog r hr).storable).1, Option.getD_some]
  rw [split_of_reads hlog, Lines.readUntil_append hread, hrest, List.append_nil, List.map_map]
  conv_rhs => rw [← List.map_id log]
  refine List.map_congr_left fun r hr => ?_
  simp [(object?_line (hlog r hr).canonical (hlog r hr).storable).1]

/-- What `Open` reads of a file. -/
lemma parseExisting_of_reads (hlog : ∀ r ∈ log, Stored r) (hfile : Reads file log) :
    parseExisting (Lines.split 10 file).1 (Spool.empty opt) =
        ((logBytes log).length, log.foldl adopt (Spool.empty opt)) ∧
      file.take (logBytes log).length = logBytes log := by
  obtain ⟨hspool, hlen⟩ := parseExisting_spec (Lines.split 10 file).1 (Spool.empty opt)
  rw [readUntil_of_reads hlog hfile] at hspool hlen
  obtain ⟨rest, rfl, -⟩ := hfile
  refine ⟨Prod.ext ?_ hspool, List.take_left⟩
  rw [hlen, split_of_reads hlog, List.take_left' (List.length_map ..)]
  rfl

lemma records_foldl_adopt (log : List Json.Fields) (s : Spool) :
    (log.foldl adopt s).records = s.records ++ log := by
  induction log generalizing s with
  | nil => exact (List.append_nil _).symm
  | cons r log ih =>
      rw [List.foldl_cons, ih]
      exact List.append_cons .. |>.symm

lemma adoptedBy_of_reads (hlog : ∀ r ∈ log, Stored r) (hfile : Reads file log) :
    adoptedBy opt (some file) = log := by
  rw [adoptedBy, (parseExisting_of_reads hlog hfile).1, records_foldl_adopt]
  rfl

/-- What `Open` does with a file: it restarts on the records that it reads. -/
lemma openSpool_of_reads (hlog : ∀ r ∈ log, Stored r) (hfile : Reads file log) (now : Clock)
    (w : Write) :
    openSpool opt (some file) now w = (⟨.refused .limits, none⟩, .down (some file)) ∨
      ∃ reason, openSpool opt (some file) now w =
        match gapLocked (reopened opt log) "collector-restart" reason now w with
        | (.error e, s) => (⟨.refused e, none⟩, .down (some s.file))
        | (.ok stored, s) => (⟨.none, some stored⟩, .up s) := by
  unfold openSpool
  by_cases hlim : opt.maxBytes ≤ reservedBytes ∨ opt.maxRecords ≤ reservedRecords
  · exact .inl (if_pos hlim)
  · obtain ⟨hparse, htake⟩ := @parseExisting_of_reads opt _ _ hlog hfile
    refine .inr ⟨restartReason (decide ((logBytes log).length < file.length)), ?_⟩
    rw [if_neg hlim]
    simp only [hparse, htake]
    rfl

/-- A line that begins with a part of a line and ends with a record is not read. -/
lemma object?_torn {r : Json.Fields} (hr : Stored r) (torn : Bytes) :
    object? (123 :: torn ++ lineOf r) = none := by
  obtain ⟨cs, hm, hline, -⟩ := exists_marshal_of_storable hr.storable
  rw [hline, object?, unmarshal_torn torn hr.canonical hm]

/-! ### Numbers and keys -/

/-- The number of a record comes before that of another. -/
def Before (r r' : Json.Fields) : Prop :=
  ∃ m n, r.lookup "source_sequence" = some (.int m) ∧ r'.lookup "source_sequence" = some (.int n) ∧
    m < n

/-- The key under which a record was appended. -/
def dedupKey? (r : Json.Fields) : Option String :=
  match r.lookup "_dedup" with
  | some (.str k) => some k
  | _ => none

/-- What holds of the records that were written, whatever became of the processes. -/
structure Numbered (log : List Json.Fields) : Prop where
  stored : ∀ r ∈ log, Stored r
  number : ∀ r ∈ log, ∃ n, r.lookup "source_sequence" = some (.int n) ∧ 0 < n ∧ n ≤ log.length
  increasing : log.Pairwise Before
  keys : (log.filterMap dedupKey?).Nodup

/-- What a process knows of the records that were written. -/
structure Knows (s : Spool) (log : List Json.Fields) : Prop where
  records : s.records = log
  size : s.size = (logBytes log).length
  file : ∃ torn, (10 : UInt8) ∉ torn ∧ s.file = logBytes log ++ torn
  seq_le : s.seq ≤ log.length
  le_seq : ∀ r ∈ log, ∀ n, r.lookup "source_sequence" = some (.int n) → n ≤ s.seq
  seq_nonneg : 0 ≤ s.seq
  seen : ∀ k, k ∈ s.seen ↔ k ∈ log.filterMap dedupKey?

/-- The file, or the process that has it open, is what the records that were written make it. -/
def Host.Keeps (log : List Json.Fields) : Host → Prop
  | .down none => log = []
  | .down (some file) => ∃ torn, (10 : UInt8) ∉ torn ∧ file = logBytes log ++ torn
  | .up s => Knows s log

lemma reads_of_torn {torn : Bytes} (h : (10 : UInt8) ∉ torn) : Reads (logBytes log ++ torn) log :=
  ⟨torn, rfl, by rw [Lines.split_of_notMem h]; rfl⟩

lemma get_of_lookup_none {m : Json.Fields} {k : String} (h : m.lookup k = none) :
    Json.get m k = .null := by
  rw [Json.get, h, Option.getD_none]

/-- What `adopt` reads of the records. -/
lemma foldl_adopt_spec (hlog : Numbered log) (hlen : log.length < 2 ^ 53) (s : Spool)
    (hs : 0 ≤ s.seq) {n : ℤ} (hn : s.seq ≤ n) (hle : log.length ≤ n) :
    0 ≤ (log.foldl adopt s).seq ∧ (log.foldl adopt s).seq ≤ n ∧ s.seq ≤ (log.foldl adopt s).seq ∧
      (∀ r ∈ log, ∀ m, r.lookup "source_sequence" = some (.int m) →
        m ≤ (log.foldl adopt s).seq) ∧
      ∀ k, k ∈ (log.foldl adopt s).seen ↔ k ∈ s.seen ∨ k ∈ log.filterMap dedupKey? := by
  -- the induction is on a part of the log, with the spool generalised
  have key : ∀ l : List Json.Fields, (∀ r ∈ l, r ∈ log) → ∀ s : Spool, 0 ≤ s.seq → s.seq ≤ n →
      0 ≤ (l.foldl adopt s).seq ∧ (l.foldl adopt s).seq ≤ n ∧ s.seq ≤ (l.foldl adopt s).seq ∧
        (∀ r ∈ l, ∀ m, r.lookup "source_sequence" = some (.int m) → m ≤ (l.foldl adopt s).seq) ∧
        ∀ k, k ∈ (l.foldl adopt s).seen ↔ k ∈ s.seen ∨ k ∈ l.filterMap dedupKey? := by
    intro l
    induction l with
    | nil =>
        intro _ s hs hn
        exact ⟨hs, hn, le_rfl, fun r hr => absurd hr List.not_mem_nil, fun k => by simp⟩
    | cons r l ih =>
        intro hsub s hs hn
        obtain ⟨m, hm, hpos, hmle⟩ := hlog.number r (hsub r List.mem_cons_self)
        -- the number is read as a float, which has it exactly below 2⁵³
        have hseq : (adopt s r).seq = max m s.seq := by
          have hfloat : float64? (Json.get r "source_sequence") = some m := by
            rw [Json.get_eq_of_lookup hm, float64?, roundFloat_of_lt (by omega)]
          simp only [adopt, hfloat]
          split_ifs <;> omega
        have hseen : ∀ k, k ∈ (adopt s r).seen ↔ k ∈ s.seen ∨ dedupKey? r = some k := by
          intro k
          simp only [adopt, dedupKey?]
          cases hd : r.lookup "_dedup" with
          | none => simp [get_of_lookup_none hd]
          | some v =>
              rw [Json.get_eq_of_lookup hd]
              -- only a text is a deduplication key
              cases v <;> simp [or_comm, eq_comm]
        obtain ⟨h1, h2, h3, h4, h5⟩ := ih (fun r' hr' => hsub r' (List.mem_cons_of_mem _ hr'))
          (adopt s r) (by rw [hseq]; omega) (by rw [hseq]; omega)
        rw [List.foldl_cons]
        refine ⟨h1, h2, by omega, fun r' hr' m' hm' => ?_, fun k => ?_⟩
        · rcases List.mem_cons.1 hr' with rfl | hr'
          · have heq : m = m' := Json.int.inj (Option.some.inj (hm.symm.trans hm'))
            omega
          · exact h4 r' hr' m' hm'
        · rw [h5, hseen, List.filterMap_cons]
          cases hd : dedupKey? r with
          | none => simp
          | some k' =>
              simp only [Option.some.injEq, List.mem_cons]
              constructor
              · rintro ((h | rfl) | h)
                · exact .inl h
                · exact .inr (.inl rfl)
                · exact .inr (.inr h)
              · rintro (h | rfl | h)
                · exact .inl (.inl h)
                · exact .inl (.inr rfl)
                · exact .inr h
  exact key log (fun r hr => hr) s hs hn

/-- A process that has adopted the records knows them. -/
lemma knows_reopened (hlog : Numbered log) (hlen : log.length < 2 ^ 53) :
    Knows (reopened opt log) log := by
  obtain ⟨hnonneg, hle, -, hseq, hseen⟩ := foldl_adopt_spec hlog hlen (Spool.empty opt) le_rfl
    (n := log.length) (Int.natCast_nonneg _) le_rfl
  refine ⟨records_foldl_adopt log _, rfl, ⟨[], List.not_mem_nil, (List.append_nil _).symm⟩, hle,
    hseq, hnonneg, fun k => ?_⟩
  exact (hseen k).trans (by simp [Spool.empty])

/-- The next record is numbered after the others. -/
lemma numbered_push {s : Spool} {r : Json.Fields} (hlog : Numbered log) (hs : Knows s log)
    (hr : Stored r) (hseq : r.lookup "source_sequence" = some (.int (s.seq + 1)))
    (hkey : ∀ k, dedupKey? r = some k → k ∉ log.filterMap dedupKey?) : Numbered (log ++ [r]) := by
  have hlen : ((log ++ [r]).length : ℤ) = log.length + 1 := by simp
  refine ⟨fun r' hr' => ?_, fun r' hr' => ?_, ?_, ?_⟩
  · rcases List.mem_append.1 hr' with hr' | hr'
    · exact hlog.stored r' hr'
    · exact List.mem_singleton.1 hr' ▸ hr
  · rcases List.mem_append.1 hr' with hr' | hr'
    · obtain ⟨n, hn, hpos, hle⟩ := hlog.number r' hr'
      exact ⟨n, hn, hpos, by omega⟩
    · have hnonneg := hs.seq_nonneg
      have hle := hs.seq_le
      exact ⟨s.seq + 1, List.mem_singleton.1 hr' ▸ hseq, by omega, by omega⟩
  · refine List.pairwise_append.2 ⟨hlog.increasing, List.pairwise_singleton _ _, ?_⟩
    intro r₁ h₁ r₂ h₂
    obtain ⟨n, hn, -, -⟩ := hlog.number r₁ h₁
    have hle := hs.le_seq r₁ h₁ n hn
    exact ⟨n, s.seq + 1, hn, List.mem_singleton.1 h₂ ▸ hseq, by omega⟩
  · rw [List.filterMap_append, List.nodup_append]
    refine ⟨hlog.keys, ?_, ?_⟩
    · cases hd : dedupKey? r <;> simp [hd]
    · intro k hk k' hk'
      cases hd : dedupKey? r with
      | none => simp [hd] at hk'
      | some k₀ =>
          simp only [List.filterMap_cons, hd, List.filterMap_nil, List.mem_singleton] at hk'
          rintro rfl
          exact hkey k₀ hd (hk' ▸ hk)

/-- A process that has written a record on a whole file knows it. -/
lemma knows_push {s s' : Spool} {r : Json.Fields} (hs : Knows s log)
    (hwhole : (s.file.length : ℤ) = s.size)
    (hseq : r.lookup "source_sequence" = some (.int (s.seq + 1))) (hlog : SameLog (s.push r) s')
    (hseen : ∀ k, k ∈ s'.seen ↔ k ∈ s.seen ∨ dedupKey? r = some k) : Knows s' (log ++ [r]) := by
  obtain ⟨torn, hnl, hfile⟩ := hs.file
  have htorn : torn = [] := by
    have hlen := hs.size
    rw [hfile, List.length_append] at hwhole
    exact List.eq_nil_of_length_eq_zero (by omega)
  have hbytes : logBytes (log ++ [r]) = logBytes log ++ (lineOf r ++ [10]) := by
    simp [logBytes]
  have hlen : ((log ++ [r]).length : ℤ) = log.length + 1 := by simp
  have hle := hs.seq_le
  have hnonneg := hs.seq_nonneg
  refine ⟨?_, ?_, ⟨[], List.not_mem_nil, ?_⟩, ?_, fun r' hr' n hn => ?_, ?_, fun k => ?_⟩
  · rw [hlog.records, Spool.push, hs.records]
  · rw [hlog.size, Spool.push, hs.size, hbytes, @List.length_append _ (logBytes log)]
    push_cast
    rfl
  · rw [hlog.file, Spool.push, hfile, htorn, List.append_nil, List.append_nil, hbytes]
  · rw [hlog.seq, Spool.push]
    simp only
    omega
  · rw [hlog.seq, Spool.push]
    simp only
    rcases List.mem_append.1 hr' with hr' | hr'
    · have := hs.le_seq r' hr' n hn
      omega
    · obtain rfl := List.mem_singleton.1 hr'
      have heq : s.seq + 1 = n := Json.int.inj (Option.some.inj (hseq.symm.trans hn))
      omega
  · rw [hlog.seq, Spool.push]
    simp only
    omega
  · rw [hseen, hs.seen, List.filterMap_append, List.mem_append]
    cases hd : dedupKey? r <;> simp [hd, eq_comm]

/-- A write that fails leaves a part of a line. -/
lemma knows_tear {s s' : Spool} {r : Json.Fields} {n : ℕ} (hs : Knows s log)
    (hr : storable r = true) (hlog : SameLog (s.tear r n) s') (hseen : s'.seen = s.seen) :
    Knows s' log := by
  obtain ⟨torn, hnl, hfile⟩ := hs.file
  refine ⟨hlog.records.trans hs.records, hlog.size.trans hs.size,
    ⟨torn ++ (lineOf r).take n, ?_, ?_⟩, hlog.seq.trans_le hs.seq_le, fun r' hr' m hm => ?_,
    hs.seq_nonneg.trans_eq hlog.seq.symm, fun k => ?_⟩
  · rw [List.mem_append, not_or]
    exact ⟨hnl, fun h => newline_notMem_lineOf hr (List.mem_of_mem_take h)⟩
  · rw [hlog.file, Spool.tear, hfile, List.append_assoc]
  · exact (hs.le_seq r' hr' m hm).trans_eq hlog.seq.symm
  · rw [hseen, hs.seen]

lemma knows_quiet {s s' : Spool} (hs : Knows s log) (hlog : SameLog s s')
    (hseen : s'.seen = s.seen) : Knows s' log := by
  obtain ⟨torn, hnl, hfile⟩ := hs.file
  exact ⟨hlog.records.trans hs.records, hlog.size.trans hs.size, ⟨torn, hnl, hlog.file.trans hfile⟩,
    hlog.seq.trans_le hs.seq_le, fun r' hr' m hm => (hs.le_seq r' hr' m hm).trans_eq hlog.seq.symm,
    hs.seq_nonneg.trans_eq hlog.seq.symm, fun k => by rw [hseen, hs.seen]⟩

/-! ### Runs -/

/-- No record is written after a torn line, and a record that is appended without a key does not
bring one. -/
def Call.Whole (s : Spool) (c : Call) : Prop :=
  (c.write = .done → (s.file.length : ℤ) = s.size) ∧
    ∀ r now w, c = .append r "" now w → r.val.lookup "_dedup" = none

/-- `Call.Whole`, for the calls of a process. -/
def Host.Whole : Host → Input → Prop
  | .up s, .call c => c.Whole s
  | _, _ => True

/-- The file and the process of a host hold the records that were written. -/
structure Durable (h : Host) (log : List Json.Fields) : Prop where
  /-- A process that opens the file adopts what was written, in order. -/
  adopted : ∀ file, h = .down file → ∀ opt, adoptedBy opt file = log
  /-- An open spool has what was written, in order. -/
  held : ∀ s, h = .up s → s.records = log
  /-- The numbers increase over all processes. -/
  increasing : log.Pairwise Before
  /-- No key has two records. -/
  keys : (log.filterMap dedupKey?).Nodup
  /-- A record is refused as a duplicate only of a record in the spool. -/
  duplicates : ∀ s r key now w, h = .up s →
    (s.call (.append r key now w)).1.answer = .refused .duplicate →
      key ∈ s.records.filterMap dedupKey?

lemma dedupKey?_gapLine (s : Spool) (kind reason : String) (now : Clock) :
    dedupKey? (s.gapLine kind reason now) = none := by
  rw [dedupKey?, (lookup_gapLine s kind reason now).2.2.2]

lemma dedupKey?_evidenceLine (s : Spool) (r : GoMap) (key : String) (now : Clock)
    (h : key = "" → r.val.lookup "_dedup" = none) :
    dedupKey? (s.evidenceLine r.val key now) = if key ≠ "" then some key else none := by
  rw [dedupKey?, Spool.evidenceLine, lookup_stamp (by decide)]
  by_cases hk : key ≠ ""
  · rw [if_pos hk, if_pos hk, lookup_put_self]
  · rw [if_neg hk, if_neg hk, h (not_not.1 hk)]

/-- A call keeps what a process knows. -/
lemma knows_call {s : Spool} {c : Call} (hlog : Numbered log) (hs : Knows s log) (hc : c.Whole s) :
    Numbered (log ++ (s.call c).1.stored.toList) ∧
      Knows (s.call c).2 (log ++ (s.call c).1.stored.toList) := by
  have heffect := effect_call s c
  generalize (s.call c).1.stored = stored at heffect
  generalize (s.call c).2 = s' at heffect
  cases heffect with
  | quiet hsame _ hseen =>
      rw [Option.toList_none, List.append_nil]
      exact ⟨hlog, knows_quiet hs hsame hseen⟩
  | gapRefused _ hsame _ hseen =>
      rw [Option.toList_none, List.append_nil]
      exact ⟨hlog, knows_quiet hs hsame hseen⟩
  | gapTorn hline _ hsame _ hseen =>
      rw [Option.toList_none, List.append_nil]
      exact ⟨hlog, knows_tear hs hline hsame hseen⟩
  | torn _ hline hsame _ hseen =>
      rw [Option.toList_none, List.append_nil]
      exact ⟨hlog, knows_tear hs hline hsame hseen⟩
  | @gap _ reason now hline hw hsame _ hseen =>
      have hkey := dedupKey?_gapLine s c.gapKind reason now
      rw [Option.toList_some]
      refine ⟨numbered_push hlog hs ⟨canonicalFields_gapLine _ _ _ _, hline⟩ lookup_stamp_sequence
        (by simp [hkey]), knows_push hs (hc.1 hw) lookup_stamp_sequence hsame fun k => ?_⟩
      simp [hseen, hkey]
  | @evidence _ r key now hcall hfresh hline hsame _ hseen =>
      -- the key of the new record is fresh
      have hkey := dedupKey?_evidenceLine s r key now fun hk => hc.2 r now .done (hk ▸ hcall)
      have hcanon : canonicalFields (s.evidenceLine r.val key now) = true :=
        canonicalFields_stamp (canonicalFields_dedup key r.property)
      have hdone : c.write = .done := by rw [hcall]; rfl
      rw [Option.toList_some]
      refine ⟨numbered_push hlog hs ⟨hcanon, hline⟩ lookup_stamp_sequence fun k hk hmem => ?_,
        knows_push hs (hc.1 hdone) lookup_stamp_sequence hsame fun k => ?_⟩
      · rw [hkey] at hk
        split_ifs at hk with hne
        obtain rfl := Option.some.inj hk
        exact hfresh ⟨hne, (hs.seen key).2 hmem⟩
      · rw [hseen, hkey]
        split_ifs <;> simp [or_comm, eq_comm]

/-- What an open keeps: the file is cut to the records, and the restart is recorded. -/
lemma keeps_openSpool {file : Option Bytes} (opt : Options) (now : Clock) (w : Write)
    (hlog : Numbered log) (hlen : log.length < 2 ^ 53) (hfile : (Host.down file).Keeps log) :
    Numbered (log ++ (openSpool opt file now w).1.stored.toList) ∧
      (openSpool opt file now w).2.Keeps (log ++ (openSpool opt file now w).1.stored.toList) := by
  cases file with
  | none =>
      unfold openSpool
      obtain rfl : log = [] := hfile
      by_cases hlim : opt.maxBytes ≤ reservedBytes ∨ opt.maxRecords ≤ reservedRecords
      · rw [if_pos hlim]
        exact ⟨hlog, rfl⟩
      · rw [if_neg hlim]
        exact ⟨hlog, knows_reopened hlog hlen⟩
  | some file =>
      -- the torn line is cut off, and then the restart gap is written, refused, torn or left out
      obtain ⟨torn, hnl, rfl⟩ := hfile
      have hknows := @knows_reopened opt _ hlog hlen
      rcases @openSpool_of_reads opt _ _ hlog.stored (reads_of_torn hnl) now w with
        h | ⟨reason, h⟩ <;> rw [h]
      · rw [Option.toList_none, List.append_nil]
        exact ⟨hlog, torn, hnl, rfl⟩
      · have hdown {t s' : Spool} (ht : Knows t log) (hsame : t.file = s'.file) :
            (Host.down (some s'.file)).Keeps log := by
          obtain ⟨torn', hnl', hfile'⟩ := ht.file
          exact ⟨torn', hnl', hsame ▸ hfile'⟩
        rcases gapLocked_cases (reopened opt log) "collector-restart" reason now w with
          ⟨-, hg⟩ | ⟨-, ⟨-, e, -, hg⟩ | ⟨hline, n, rfl, hg⟩ | ⟨hline, rfl, hg⟩⟩ <;> rw [hg]
        · rw [Option.toList_none, List.append_nil]
          exact ⟨hlog, hdown hknows rfl⟩
        · rw [Option.toList_none, List.append_nil]
          exact ⟨hlog, hdown hknows rfl⟩
        · rw [Option.toList_none, List.append_nil]
          have htear := @knows_tear log _ ((reopened opt log).tear _ n) _ n hknows hline
            ⟨rfl, rfl, rfl, rfl, rfl⟩ rfl
          exact ⟨hlog, hdown htear rfl⟩
        · have hkey := dedupKey?_gapLine (reopened opt log) "collector-restart" reason now
          refine ⟨numbered_push hlog hknows ⟨canonicalFields_gapLine _ _ _ _, hline⟩
            lookup_stamp_sequence (by simp [hkey]), knows_push hknows rfl lookup_stamp_sequence
              ⟨rfl, rfl, rfl, rfl, rfl⟩ fun k => ?_⟩
          simp only [hkey, reduceCtorEq, or_false]
          rfl

/-- A step of a host keeps the records. -/
lemma keeps_step {h : Host} {i : Input} (hlog : Numbered log) (hlen : log.length < 2 ^ 53)
    (hh : h.Keeps log) (hi : h.Whole i) :
    Numbered (log ++ (h.step i).1.stored.toList) ∧
      (h.step i).2.Keeps (log ++ (h.step i).1.stored.toList) := by
  have hsame : Numbered (log ++ (none : Option Json.Fields).toList) ∧
      h.Keeps (log ++ (none : Option Json.Fields).toList) := by
    rw [Option.toList_none, List.append_nil]
    exact ⟨hlog, hh⟩
  cases h with
  | down file =>
      cases i with
      | «open» opt now w => exact keeps_openSpool opt now w hlog hlen hh
      | call c => exact hsame
      | crash torn => exact hsame
  | up s =>
      cases i with
      | «open» opt now w => exact hsame
      | call c => exact knows_call hlog hh hi
      | crash torn =>
          obtain ⟨torn', hnl, hfile⟩ := Knows.file hh
          simp only [Host.step, Option.toList_none, List.append_nil]
          refine ⟨hlog, torn' ++ torn.val, ?_, ?_⟩
          · rw [List.mem_append, not_or]
            exact ⟨hnl, torn.property⟩
          · rw [hfile, List.append_assoc]

lemma written_append (replies : List Reply) (reply : Reply) :
    written (replies ++ [reply]) = written replies ++ reply.stored.toList := by
  rw [written, List.filterMap_append]
  cases hs : reply.stored <;> simp [written, hs]

/-- Only a key that was seen makes a duplicate. -/
lemma seen_of_duplicate {s : Spool} {r : GoMap} {key : String} {now : Clock} {w : Write}
    (h : (s.call (.append r key now w)).1.answer = .refused .duplicate) : key ∈ s.seen := by
  by_contra hnot
  have hdup : ¬(key ≠ "" ∧ key ∈ s.seen) := fun hd => hnot hd.2
  simp only [Spool.call, append] at h
  rw [if_neg hdup] at h
  cases hf : s.full 0 with
  | true =>
      rw [hf, if_pos rfl] at h
      by_cases hover : s.overflow = true
      · rw [if_pos hover] at h
        cases h
      · rw [if_neg hover] at h
        rcases gapLocked_cases { s with dropped := s.dropped + 1, overflow := true } "spool-overflow"
          (overflowReason s.opt) now w with
          ⟨-, hg⟩ | ⟨-, ⟨-, e, he, hg⟩ | ⟨-, n, rfl, hg⟩ | ⟨-, rfl, hg⟩⟩ <;> rw [hg] at h
        · cases h
        · exact absurd (Answer.refused.inj h ▸ he) (by decide)
        · cases h
        · cases h
  | false =>
      rw [hf, if_neg Bool.false_ne_true] at h
      rcases writeLocked_cases s now.ingested w (canonicalFields_dedup key r.property) with
        ⟨-, e, he, hg⟩ | ⟨-, n, rfl, hg⟩ | ⟨-, rfl, hg⟩ <;> simp only [hg] at h
      · exact absurd (Answer.refused.inj h ▸ he) (by decide)
      · cases h
      · cases h

/-- What the records that were written make the file, in a run in which no record is written after a
torn line. -/
lemma keeps_of_whole {is : List Input} (hlen : is.length < 2 ^ 53)
    (h : host.Admits Host.Whole (.down none) is) :
    Numbered (written (host.answers (.down none) is)) ∧
      (host.final (.down none) is).Keeps (written (host.answers (.down none) is)) := by
  have hstep : ∀ (replies : List Reply) (t : Host) (i : Input),
      (replies.length < 2 ^ 53 → Numbered (written replies) ∧ t.Keeps (written replies)) →
        t.Whole i → ((replies ++ [(host.step t i).1]).length < 2 ^ 53 →
          Numbered (written (replies ++ [(host.step t i).1])) ∧
            (host.step t i).2.Keeps (written (replies ++ [(host.step t i).1]))) := by
    intro replies t i ht hi hlt
    rw [List.length_append, List.length_singleton] at hlt
    obtain ⟨hlog, hkeep⟩ := ht (by omega)
    have hle : (written replies).length ≤ replies.length := List.length_filterMap_le _ _
    rw [written_append]
    exact keeps_step hlog (by omega) hkeep hi
  have hnil : Numbered (written []) :=
    ⟨by simp [written], by simp [written], List.Pairwise.nil, by simp [written]⟩
  have hrun := h.invariant_answers hstep (fun _ => ⟨hnil, rfl⟩ :
    ([] : List Reply).length < 2 ^ 53 → Numbered (written []) ∧ (Host.down none).Keeps (written []))
  have hanswers : ∀ (t : Host) (js : List Input), (host.answers t js).length = js.length := by
    intro t js
    induction js generalizing t with
    | nil => rfl
    | cons j js ih => simp [ih]
  exact hrun (by rw [List.nil_append, hanswers]; exact hlen)

/-- The spool is durable: in every run, of fewer than `2 ^ 53` inputs, in which no record is written
after a torn line. -/
theorem durable_of_whole {is : List Input} (hlen : is.length < 2 ^ 53)
    (h : host.Admits Host.Whole (.down none) is) :
    Durable (host.final (.down none) is) (written (host.answers (.down none) is)) := by
  obtain ⟨hlog, hkeep⟩ := keeps_of_whole hlen h
  generalize host.final (.down none) is = t at *
  refine ⟨fun file hfile opt => ?_, fun s hs => ?_, hlog.increasing, hlog.keys, ?_⟩
  · subst hfile
    cases file with
    | none => exact Eq.symm hkeep
    | some file =>
        obtain ⟨torn, hnl, rfl⟩ := hkeep
        exact adoptedBy_of_reads hlog.stored (reads_of_torn hnl)
  · subst hs
    exact Knows.records hkeep
  · rintro s r key now w rfl hans
    rw [Knows.records hkeep]
    refine (Knows.seen hkeep key).1 ?_
    exact seen_of_duplicate hans

end

/-! ### A sample -/

/-- A record is appended, the process dies, and the next one opens the file. -/
def restarted : List Input :=
  [.open tightOptions sampleClock .done, .call (.append sampleRecord "audit:a" sampleClock .done),
    .crash ⟨[123], by decide⟩, .open tightOptions sampleClock .done]

/-- The record survives the restart. -/
theorem restarted_durable :
    Durable (host.final (.down none) restarted)
      (written (host.answers (.down none) restarted)) := by
  refine durable_of_whole (by decide) ⟨trivial, ⟨fun _ => rfl, fun r now w hc => ?_⟩, trivial,
    trivial, trivial⟩
  exact absurd (Call.append.inj hc).2.1 (by decide)

/-- The write of a record fails after a byte, and that of the next one does not. -/
def mended : List Input :=
  [.open tightOptions sampleClock .done, .call (.append sampleRecord "" sampleClock (.fails 1)),
    .call (.append sampleRecord "" sampleClock .done), .crash ⟨[], by decide⟩]

/-- The record that was written is lost. -/
theorem mended_not_durable :
    ¬Durable (host.final (.down none) mended) (written (host.answers (.down none) mended)) := by
  intro h
  -- both calls write the same line, since the first one keeps the number
  obtain ⟨line, hline⟩ :
      ∃ line, (Spool.empty tightOptions).evidenceLine sampleRecord.val "" sampleClock = line :=
    ⟨_, rfl⟩
  have hs : storable line = true := hline ▸ by decide +kernel
  have hstored : Stored line :=
    ⟨hline ▸ canonicalFields_stamp (canonicalFields_dedup "" sampleRecord.property), hs⟩
  have hfirst : (Spool.empty tightOptions).call (.append sampleRecord "" sampleClock (.fails 1)) =
      (⟨.refused .write, none⟩, (Spool.empty tightOptions).tear line 1) :=
    hline ▸ (call_append (by decide) (hline ▸ hs)).2 1
  have hsame : ((Spool.empty tightOptions).tear line 1).evidenceLine sampleRecord.val ""
      sampleClock = line := hline
  have hsecond : ((Spool.empty tightOptions).tear line 1).call
      (.append sampleRecord "" sampleClock .done) =
        (⟨.appended 1, some line⟩, ((Spool.empty tightOptions).tear line 1).push line) := by
    have hfull : ((Spool.empty tightOptions).tear line 1).full 0 = false := rfl
    have hcall := (call_append hfull (hsame.symm ▸ hs)).1
    rwa [hsame] at hcall
  have hopen : host.step (.down none) (.open tightOptions sampleClock .done) =
      (⟨.none, none⟩, .up (Spool.empty tightOptions)) := rfl
  have hup {t t' : Spool} {c : Call} {reply : Reply} (ht : t.call c = (reply, t')) :
      host.step (.up t) (.call c) = (reply, .up t') := by
    change ((t.call c).1, Host.up (t.call c).2) = _
    rw [ht]
  have hfinal : host.final (.down none) mended = .down (some ((lineOf line).take 1 ++
      (lineOf line ++ [10]) ++ [])) := by
    rw [mended, Machine.final_cons, hopen, Machine.final_cons, hup hfirst, Machine.final_cons,
      hup hsecond, Machine.final_cons, Machine.final_nil]
    rfl
  have hwritten : written (host.answers (.down none) mended) = [line] := by
    rw [mended, Machine.answers_cons, hopen, Machine.answers_cons, hup hfirst, Machine.answers_cons,
      hup hsecond, Machine.answers_cons, Machine.answers_nil]
    rfl
  obtain ⟨l, hl⟩ := exists_cons_lineOf hs
  have hlost := h.adopted _ hfinal tightOptions
  rw [hwritten, adoptedBy, (parseExisting_spec _ _).1] at hlost
  have hsplit : (Lines.split 10 ((lineOf line).take 1 ++ (lineOf line ++ [10]) ++ [])).1 =
      [123 :: lineOf line] := by
    have hnl : (10 : UInt8) ∉ 123 :: lineOf line := by
      rw [List.mem_cons, not_or]
      exact ⟨by decide, newline_notMem_lineOf hs⟩
    have htake : (lineOf line).take 1 = [123] := by rw [hl]; rfl
    rw [htake, List.append_nil, ← List.append_assoc]
    exact congrArg Prod.fst (Lines.split_append hnl [])
  rw [hsplit, Lines.readUntil_cons_of_none (l := 123 :: lineOf line) (object?_torn hstored []),
    List.foldl_nil] at hlost
  exact absurd hlost (by simp [Spool.empty])

end Collector

end Afterlock
