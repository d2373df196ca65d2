import Afterlock.Collector.Loss
import Afterlock.Collector.Durability

/-!
# The bounds of the spool

Whether there is room is decided before the length of the record is known, so the number of records
stays within its bound, and the length of the file does as long as what is written finds room in it
(`bounded_step`).  Behind the limit of evidence a line of 4097 bytes still finds room, and behind
that of gaps one of 513: in a run of lines that are no longer, with what failing writes have left
in the file, every state is within the bounds (`bounded_of_short`).  A longer line need not be
(`not_bounded_of_long`).
-/

namespace Afterlock

namespace Collector

open Encoding

/-! ### What is written -/

/-- The bytes that a write adds to the file. -/
def Write.part (w : Write) (line : Bytes) : Bytes :=
  match w with
  | .done => line ++ [10]
  | .fails n => line.take n

/-- The record that a call writes, if it is not refused, and the outcome of the write. -/
def Spool.record? (s : Spool) : Call → Option (Json.Fields × Write)
  | .append r dedupKey now w =>
      if dedupKey ≠ "" ∧ dedupKey ∈ s.seen then none
      else if s.full 0 then
        if s.overflow ∨ s.full reservedRecords then none
        else some (s.gapLine "spool-overflow" (overflowReason s.opt) now, w)
      else some (s.evidenceLine r.val dedupKey now, w)
  | .gap kind reason now w =>
      if s.full reservedRecords then none else some (s.gapLine kind reason now, w)
  | .records now w =>
      if s.dropped > 0 ∧ s.summaryOK = false ∧ s.full reservedRecords = false then
        some (s.gapLine "spool-overflow-summary" (summaryReason s.dropped) now, w)
      else none

/-- What happens to the file and the records when a record is to be written. -/
inductive Writes (s : Spool) : Option (Json.Fields × Write) → Spool → Prop
  | nothing {s' : Spool} (hlog : SameLog s s') : Writes s none s'
  | refused {s' : Spool} {r : Json.Fields} {w : Write} (hs : storable r = false)
      (hlog : SameLog s s') : Writes s (some (r, w)) s'
  | torn {s' : Spool} {r : Json.Fields} {n : ℕ} (hs : storable r = true)
      (hlog : SameLog (s.tear r n) s') : Writes s (some (r, .fails n)) s'
  | whole {s' : Spool} {r : Json.Fields} (hs : storable r = true)
      (hlog : SameLog (s.push r) s') : Writes s (some (r, .done)) s'

section

variable {s : Spool}

lemma writes_gapLocked (s s₀ : Spool) (kind reason : String) (now : Clock) (w : Write)
    (hlog : SameLog s s₀) (hgap : s₀.gapSeq = s.gapSeq) :
    Writes s (if s.full reservedRecords then none else some (s.gapLine kind reason now, w))
      (gapLocked s₀ kind reason now w).2 := by
  have hfull : s₀.full reservedRecords = s.full reservedRecords := hlog.full
  obtain ⟨hopt, hfile, hsize, hrecords, hseq⟩ := hlog
  have hline : s₀.gapLine kind reason now = s.gapLine kind reason now := by
    simp only [Spool.gapLine, hopt, hgap, hseq]
  have hcases := gapLocked_cases s₀ kind reason now w
  rw [hline, hfull] at hcases
  rcases hcases with ⟨hf, h⟩ | ⟨hf, ⟨hs, e, -, h⟩ | ⟨hs, n, rfl, h⟩ | ⟨hs, rfl, h⟩⟩ <;> rw [h, hf]
  · exact .nothing ⟨hopt, hfile, hsize, hrecords, hseq⟩
  · exact .refused hs ⟨hopt, hfile, hsize, hrecords, hseq⟩
  · refine .torn hs ⟨hopt, ?_, hsize, hrecords, hseq⟩
    simp only [Spool.tear, hfile]
  · refine .whole hs ⟨hopt, ?_, ?_, ?_, ?_⟩ <;>
      simp only [Spool.push, hfile, hsize, hrecords, hseq]

/-- What a call writes. -/
lemma writes_call (s : Spool) (c : Call) : Writes s (s.record? c) (s.call c).2 := by
  cases c with
  | append r dedupKey now w =>
      simp only [Spool.record?, Spool.call, append]
      by_cases hdup : dedupKey ≠ "" ∧ dedupKey ∈ s.seen
      · rw [if_pos hdup, if_pos hdup]
        exact .nothing ⟨rfl, rfl, rfl, rfl, rfl⟩
      rw [if_neg hdup, if_neg hdup]
      cases hf : s.full 0 with
      | true =>
          rw [if_pos rfl, if_pos rfl]
          cases ho : s.overflow with
          | true => exact .nothing ⟨rfl, rfl, rfl, rfl, rfl⟩
          | false =>
              have h := writes_gapLocked s { s with dropped := s.dropped + 1, overflow := true }
                "spool-overflow" (overflowReason s.opt) now w ⟨rfl, rfl, rfl, rfl, rfl⟩ rfl
              simp only [Bool.false_eq_true, if_false, false_or] at h ⊢
              generalize gapLocked _ "spool-overflow" (overflowReason s.opt) now w = g at h
              obtain ⟨e | stored, s'⟩ := g <;> exact h
      | false =>
          rw [if_neg Bool.false_ne_true, if_neg Bool.false_ne_true]
          have hcases := writeLocked_cases s now.ingested w
            (canonicalFields_dedup dedupKey r.property)
          rw [show stamp s.opt (s.seq + 1) now.ingested
            (if dedupKey ≠ "" then put "_dedup" (.str dedupKey) r.val else r.val) =
              s.evidenceLine r.val dedupKey now from rfl] at hcases
          rcases hcases with ⟨hs, e, -, h⟩ | ⟨hs, n, rfl, h⟩ | ⟨hs, rfl, h⟩ <;> simp only [h]
          · exact .refused hs ⟨rfl, rfl, rfl, rfl, rfl⟩
          · exact .torn hs ⟨rfl, rfl, rfl, rfl, rfl⟩
          · refine .whole hs ?_
            split_ifs <;> exact ⟨rfl, rfl, rfl, rfl, rfl⟩
  | gap kind reason now w =>
      have h := writes_gapLocked s s kind reason now w ⟨rfl, rfl, rfl, rfl, rfl⟩ rfl
      simp only [Spool.record?, Spool.call, gap]
      generalize gapLocked s kind reason now w = g at h
      obtain ⟨e | stored, s'⟩ := g <;> exact h
  | records now w =>
      simp only [Spool.record?, Spool.call, records]
      by_cases hd : s.dropped > 0 ∧ s.summaryOK = false
      · have h := writes_gapLocked s { s with summaryOK := true } "spool-overflow-summary"
          (summaryReason s.dropped) now w ⟨rfl, rfl, rfl, rfl, rfl⟩ rfl
        rw [if_pos hd]
        have hif : (if s.dropped > 0 ∧ s.summaryOK = false ∧ s.full reservedRecords = false then
            some (s.gapLine "spool-overflow-summary" (summaryReason s.dropped) now, w) else none) =
            if s.full reservedRecords then none
              else some (s.gapLine "spool-overflow-summary" (summaryReason s.dropped) now, w) := by
          cases s.full reservedRecords <;> simp [hd]
        rw [hif]
        generalize gapLocked { s with summaryOK := true } "spool-overflow-summary"
          (summaryReason s.dropped) now w = g at h
        obtain ⟨e | stored, s'⟩ := g <;> exact h
      · rw [if_neg hd, if_neg fun h => hd ⟨h.1, h.2.1⟩]
        exact .nothing ⟨rfl, rfl, rfl, rfl, rfl⟩

end

/-! ### What an open finds -/

section

variable {opt : Options} {file : Bytes}

/-- The records and the file of the spool that an open finds. -/
lemma found_spec (opt : Options) (file : Bytes) :
    (found opt file).opt = opt ∧
      (found opt file).records = Lines.readUntil object? (Lines.split 10 file).1 ∧
      (found opt file).file = Lines.join 10 ((Lines.split 10 file).1.take
        (Lines.readUntil object? (Lines.split 10 file).1).length) ∧
      (found opt file).size = (found opt file).file.length ∧
      (found opt file).dropped = 0 := by
  obtain ⟨hspool, hlen⟩ := parseExisting_spec (Lines.split 10 file).1 (Spool.empty opt)
  obtain ⟨hopt, -, hdropped⟩ := parseExisting_idle (Lines.split 10 file).1 (Spool.empty opt)
  refine ⟨hopt, ?_, ?_, rfl, hdropped⟩
  · show (parseExisting _ _).2.records = _
    rw [hspool, records_foldl_adopt]
    rfl
  · show file.take (parseExisting _ _).1 = _
    rw [hlen]
    generalize (Lines.readUntil object? (Lines.split 10 file).1).length = k
    have hfile : file = Lines.join 10 ((Lines.split 10 file).1.take k) ++
        (Lines.join 10 ((Lines.split 10 file).1.drop k) ++ (Lines.split 10 file).2) := by
      rw [← List.append_assoc, ← Lines.join_append, List.take_append_drop, Lines.join_split]
    exact (congrArg (List.take _) hfile).trans List.take_left

/-- Every line that is adopted is one of the file. -/
lemma count_found (opt : Options) (file : Bytes) :
    (found opt file).file.count 10 = (found opt file).records.length := by
  obtain ⟨-, hrecords, hfile, -⟩ := found_spec opt file
  have hlines : ∀ l ∈ (Lines.split 10 file).1.take
      (Lines.readUntil object? (Lines.split 10 file).1).length, (10 : UInt8) ∉ l :=
    fun l hl => Lines.notMem_of_mem_split (List.mem_of_mem_take hl)
  rw [hfile, hrecords, Lines.count_join hlines, List.length_take,
    min_eq_left (Lines.length_readUntil_le _ _)]

lemma length_found_le (opt : Options) (file : Bytes) :
    (found opt file).file.length ≤ file.length := List.length_take_le' _ _

lemma adoptedBy_some (opt : Options) (file : Bytes) :
    adoptedBy opt (some file) = (found opt file).records := rfl

/-- A file has at most as many records as line breaks. -/
lemma length_adoptedBy_le (opt : Options) (file : Bytes) :
    (adoptedBy opt (some file)).length ≤ file.count 10 := by
  rw [adoptedBy_some, (found_spec opt file).2.1]
  exact (Lines.length_readUntil_le _ _).trans (Lines.length_split_le _)

end

/-! ### The bounds -/

/-- The file and the number of records are within the limits. -/
def Host.Bounded (opt : Options) : Host → Prop
  | .down file =>
      ((file.getD []).length : ℤ) ≤ opt.maxBytes ∧
        ((adoptedBy opt file).length : ℤ) ≤ opt.maxRecords
  | .up s => (s.file.length : ℤ) ≤ opt.maxBytes ∧ (s.records.length : ℤ) ≤ opt.maxRecords

/-- The file has room for what a write of a record adds to it. -/
def Spool.HasRoom (s : Spool) (r : Json.Fields) (w : Write) : Prop :=
  storable r = true → (s.file.length : ℤ) + (w.part (lineOf r)).length ≤ s.opt.maxBytes

/-- What the next input writes finds room in the file. -/
def Host.Fits : Host → Input → Prop
  | .up s, .call c => ∀ r w, s.record? c = some (r, w) → s.HasRoom r w
  | .up s, .crash torn => (s.file.length : ℤ) + torn.val.length ≤ s.opt.maxBytes
  | .down (some file), .open opt now w =>
      (found opt file).full reservedRecords = false →
        (found opt file).HasRoom
          ((found opt file).gapLine "collector-restart" (foundReason opt file) now) w
  | _, _ => True

/-- The bytes in the file that the size does not count: failing writes have left them. -/
def Spool.stray (s : Spool) : ℤ := s.file.length - s.size

/-- What is written, with what failing writes have left, is no longer than what `full` has kept
free: 4097 bytes where there is room for evidence, and 513 where there is room for a gap. -/
def Spool.Short (s : Spool) (part : Bytes) : Prop :=
  part = [] ∨
    (s.size < s.opt.maxBytes - reservedBytes ∧ s.stray + part.length ≤ reservedBytes + 1) ∨
    (s.size < s.opt.maxBytes - 512 ∧ s.stray + part.length ≤ 512 + 1)

/-- What the next input writes is short. -/
def Host.Short : Host → Input → Prop
  | .up s, .call c => ∀ r w, s.record? c = some (r, w) → storable r = true →
      s.Short (w.part (lineOf r))
  | .up s, .crash torn => s.Short torn.val
  | .down (some file), .open opt now w =>
      let r := (found opt file).gapLine "collector-restart" (foundReason opt file) now
      storable r = true → (found opt file).Short (w.part (lineOf r))
  | _, _ => True

/-- An input that opens the spool opens it with the options. -/
def Input.Uses (opt : Options) : Input → Prop
  | .open opt' _ _ => opt' = opt
  | _ => True

/-- What holds of a host beside the length of the file. -/
def Host.Counted (opt : Options) : Host → Prop
  | .down file => ((adoptedBy opt file).length : ℤ) ≤ opt.maxRecords
  | .up s => s.opt = opt ∧ (s.records.length : ℤ) ≤ opt.maxRecords ∧
      s.file.count 10 = s.records.length

section

variable {opt : Options} {s s' : Spool}

lemma records_lt_of_full {s : Spool} (h : s.full reservedRecords = false) :
    (s.records.length : ℤ) < s.opt.maxRecords := by
  simp only [Spool.full, Bool.or_eq_false_iff, decide_eq_false_iff_not, not_le] at h
  have := h.1
  omega

/-- A record is written only where there is room for one. -/
lemma records_lt_of_record? {c : Call} {p : Json.Fields × Write} (h : s.record? c = some p) :
    (s.records.length : ℤ) < s.opt.maxRecords := by
  refine records_lt_of_full ?_
  by_contra hfull
  rw [Bool.not_eq_false] at hfull
  cases c with
  | append r dedupKey now w =>
      have h0 : s.full 0 = true := full_of_full_reserved hfull (by decide)
      simp [Spool.record?, h0, hfull] at h
  | gap kind reason now w => simp [Spool.record?, hfull] at h
  | records now w => simp [Spool.record?, hfull] at h

/-- What a write does to the count of the records, and when the file stays within its limit. -/
lemma counted_writes {p : Option (Json.Fields × Write)} (h : Writes s p s') (hopt : s.opt = opt)
    (hcount : s.file.count 10 = s.records.length)
    (hlt : p ≠ none → (s.records.length : ℤ) < opt.maxRecords)
    (hle : (s.records.length : ℤ) ≤ opt.maxRecords) :
    (Host.up s').Counted opt ∧ ((s.file.length : ℤ) ≤ opt.maxBytes →
      ((s'.file.length : ℤ) ≤ opt.maxBytes ↔ ∀ r w, p = some (r, w) → s.HasRoom r w)) := by
  cases h with
  | nothing hlog =>
      -- the log is as it was
      refine ⟨⟨hlog.opt.trans hopt, ?_, ?_⟩, fun hb => ?_⟩
      · rwa [hlog.records]
      · rw [hlog.file, hlog.records, hcount]
      · rw [hlog.file]
        simpa using hb
  | @refused _ r w hs hlog =>
      refine ⟨⟨hlog.opt.trans hopt, ?_, ?_⟩, fun hb => ?_⟩
      · rwa [hlog.records]
      · rw [hlog.file, hlog.records, hcount]
      · rw [hlog.file]
        refine iff_of_true hb fun r' w' he hs' => ?_
        obtain ⟨rfl, rfl⟩ := Prod.mk.inj (Option.some.inj he)
        exact absurd (hs.symm.trans hs') (by decide)
  | @torn _ r n hs hlog =>
      -- a part of a line has no line break, so that no record is counted
      have hnl := newline_notMem_lineOf hs
      refine ⟨⟨hlog.opt.trans hopt, ?_, ?_⟩, fun hb => ?_⟩
      · rwa [hlog.records]
      · rw [hlog.file, hlog.records]
        simp only [Spool.tear, List.count_append]
        rw [List.count_eq_zero.2 fun hm => hnl (List.mem_of_mem_take hm), hcount, Nat.add_zero]
      · rw [hlog.file]
        simp only [Spool.tear, List.length_append, Nat.cast_add]
        rw [← hopt]
        refine ⟨fun hle' r' w' he _ => ?_, fun hroom => hroom r _ rfl hs⟩
        obtain ⟨rfl, rfl⟩ := Prod.mk.inj (Option.some.inj he)
        exact hle'
  | @whole _ r hs hlog =>
      -- a line has one line break, at its end
      have hnl := newline_notMem_lineOf hs
      have hlt' := hlt (by simp)
      refine ⟨⟨hlog.opt.trans hopt, ?_, ?_⟩, fun hb => ?_⟩
      · rw [hlog.records]
        simp only [Spool.push, List.length_append, List.length_singleton]
        push_cast
        omega
      · rw [hlog.file, hlog.records]
        simp only [Spool.push, List.count_append, List.length_append, List.length_singleton]
        rw [List.count_eq_zero.2 hnl, hcount, List.count_singleton_self]
      · rw [hlog.file]
        simp only [Spool.push, List.length_append, Nat.cast_add]
        rw [← hopt]
        refine ⟨fun hle' r' w' he _ => ?_, fun hroom => ?_⟩
        · obtain ⟨rfl, rfl⟩ := Prod.mk.inj (Option.some.inj he)
          simpa [Write.part] using hle'
        · simpa [Write.part] using hroom r _ rfl hs

/-- A step counts the records, and keeps the length of the file within its limit exactly if what it
writes finds room. -/
lemma bounded_step {h : Host} {i : Input} (hopt : opt.Accepted) (hi : i.Uses opt)
    (hcount : h.Counted opt) (hb : h.Bounded opt) :
    (h.step i).2.Counted opt ∧ ((h.step i).2.Bounded opt ↔ h.Fits i) := by
  cases h with
  | down file =>
      cases i with
      | «open» opt' now w =>
          obtain rfl : opt' = opt := hi
          cases file with
          | none =>
              -- a new file is empty, and within the limits that `Open` accepts
              have hlim : ¬(opt'.maxBytes ≤ reservedBytes ∨ opt'.maxRecords ≤ reservedRecords) :=
                not_or.2 ⟨not_le.2 hopt.1, not_le.2 hopt.2⟩
              simp only [Host.step, openSpool, if_neg hlim]
              refine ⟨⟨rfl, hcount, rfl⟩, iff_of_true ⟨?_, hcount⟩ trivial⟩
              exact hb.1
          | some file =>
              simp only [Host.step, openSpool_some hopt]
              have hwrites := writes_gapLocked (found opt' file) (found opt' file)
                "collector-restart" (foundReason opt' file) now w ⟨rfl, rfl, rfl, rfl, rfl⟩ rfl
              obtain ⟨hfopt, hrecords, -, -, -⟩ := found_spec opt' file
              have hle : ((found opt' file).records.length : ℤ) ≤ opt'.maxRecords := hcount
              have hlen : ((found opt' file).file.length : ℤ) ≤ opt'.maxBytes := by
                have := length_found_le opt' file
                have := hb.1
                simp only [Option.getD_some] at this
                omega
              -- the restart gap is written only where a record still has room
              have hlt : (if (found opt' file).full reservedRecords = true then none
                  else some ((found opt' file).gapLine "collector-restart" (foundReason opt' file)
                    now, w)) ≠ none → ((found opt' file).records.length : ℤ) < opt'.maxRecords := by
                intro hne
                cases hf : (found opt' file).full reservedRecords with
                | true => simp [hf] at hne
                | false =>
                    have h := records_lt_of_full hf
                    rwa [congrArg Options.maxRecords hfopt] at h
              obtain ⟨hcounted, hbounded⟩ := counted_writes hwrites hfopt (count_found opt' file)
                hlt hle
              have hfits : (∀ r w', (if (found opt' file).full reservedRecords = true then none
                  else some ((found opt' file).gapLine "collector-restart" (foundReason opt' file)
                    now, w)) = some (r, w') → (found opt' file).HasRoom r w') ↔
                  (Host.down (some file)).Fits (.open opt' now w) := by
                show _ ↔ ((found opt' file).full reservedRecords = false → _)
                cases hf : (found opt' file).full reservedRecords with
                | true => simp
                | false =>
                    rw [if_neg Bool.false_ne_true]
                    refine ⟨fun h _ => h _ _ rfl, fun h r w' he => ?_⟩
                    obtain ⟨rfl, rfl⟩ := Prod.mk.inj (Option.some.inj he)
                    exact h rfl
              have hiff := (hbounded hlen).trans hfits
              generalize gapLocked (found opt' file) "collector-restart" (foundReason opt' file) now w
                = g at hcounted hiff
              obtain ⟨e | stored, s'⟩ := g
              · -- `Open` fails: what the next process adopts are lines of the file
                have hadopted : ((adoptedBy opt' (some s'.file)).length : ℤ) ≤ opt'.maxRecords := by
                  have hle' := length_adoptedBy_le opt' s'.file
                  have hrecs : (s'.records.length : ℤ) ≤ opt'.maxRecords := hcounted.2.1
                  have hnls : s'.file.count 10 = s'.records.length := hcounted.2.2
                  rw [hnls] at hle'
                  omega
                exact ⟨hadopted, (and_iff_left hadopted).trans hiff⟩
              · exact ⟨hcounted, (and_iff_left hcounted.2.1).trans hiff⟩
      | call c => exact ⟨hcount, iff_of_true hb (by cases file <;> trivial)⟩
      | crash torn => exact ⟨hcount, iff_of_true hb (by cases file <;> trivial)⟩
  | up s =>
      obtain ⟨hsopt, hle, hnl⟩ := hcount
      cases i with
      | «open» opt' now w => exact ⟨⟨hsopt, hle, hnl⟩, iff_of_true hb trivial⟩
      | call c =>
          obtain ⟨hcounted, hbounded⟩ := counted_writes (writes_call s c) hsopt hnl
            (fun hne => by
              obtain ⟨p, hp⟩ := Option.ne_none_iff_exists'.1 hne
              exact hsopt ▸ records_lt_of_record? hp) hle
          exact ⟨hcounted, (and_iff_left hcounted.2.1).trans (hbounded hb.1)⟩
      | crash torn =>
          -- what a process that dies leaves of a line is no record
          have hadopted : ((adoptedBy opt (some (s.file ++ torn.val))).length : ℤ) ≤
              opt.maxRecords := by
            have hle' := length_adoptedBy_le opt (s.file ++ torn.val)
            rw [List.count_append, List.count_eq_zero.2 torn.property, hnl, Nat.add_zero] at hle'
            omega
          refine ⟨hadopted, (and_iff_left hadopted).trans ?_⟩
          simp only [Host.Fits, Option.getD_some, List.length_append, Nat.cast_add, hsopt]

/-- What is short finds room. -/
lemma Spool.Short.length_le {part : Bytes} (h : s.Short part)
    (hb : (s.file.length : ℤ) ≤ s.opt.maxBytes) :
    (s.file.length : ℤ) + part.length ≤ s.opt.maxBytes := by
  rcases h with rfl | ⟨hsize, hle⟩ | ⟨hsize, hle⟩
  · simpa using hb
  · rw [Spool.stray] at hle
    omega
  · rw [Spool.stray] at hle
    omega

lemma Host.Short.fits {h : Host} {i : Input} (hi : i.Uses opt) (hcount : h.Counted opt)
    (hb : h.Bounded opt) (hshort : h.Short i) : h.Fits i := by
  cases h with
  | down file =>
      cases i with
      | «open» opt' now w =>
          obtain rfl : opt' = opt := hi
          cases file with
          | none => trivial
          | some file =>
              obtain ⟨hfopt, -⟩ := found_spec opt' file
              have hlen : ((found opt' file).file.length : ℤ) ≤ (found opt' file).opt.maxBytes := by
                have hfile : (file.length : ℤ) ≤ opt'.maxBytes := hb.1
                have hle := length_found_le opt' file
                rw [hfopt]
                omega
              exact fun _ hs => (hshort hs).length_le hlen
      | call c => cases file <;> trivial
      | crash torn => cases file <;> trivial
  | up s =>
      obtain ⟨hsopt, -⟩ := hcount
      have hlen : (s.file.length : ℤ) ≤ s.opt.maxBytes := hsopt ▸ hb.1
      cases i with
      | «open» opt' now w => trivial
      | call c => exact fun r w hr hs => (hshort r w hr hs).length_le hlen
      | crash torn => exact hshort.length_le hlen

/-- In a run that begins within the bounds and writes what is short, every state is within the
bounds. -/
theorem bounded_of_short (hopt : opt.Accepted) {file : Option Bytes}
    (hb : (Host.down file).Bounded opt) {is : List Input} (huses : ∀ i ∈ is, i.Uses opt)
    (h : host.Admits Host.Short (.down file) is) :
    ∀ js, js <+: is → (host.final (.down file) js).Bounded opt := by
  rintro js ⟨ks, rfl⟩
  have hshort := ((Machine.admits_append _ _ _).1 h).1
  have huses' : ∀ i ∈ js, i.Uses opt := fun i hi => huses i (List.mem_append_left _ hi)
  have hadmits := hshort.and huses'
  refine (hadmits.invariant (P := fun h => h.Counted opt ∧ h.Bounded opt) ?_ ⟨hb.2, hb⟩).2
  rintro t i ⟨hcount, hbt⟩ ⟨hs, hi⟩
  obtain ⟨hcount', hiff⟩ := bounded_step hopt hi hcount hbt
  exact ⟨hcount', hiff.2 (hs.fits hi hcount hbt)⟩

/-- Where one byte more would have made the spool full, a line of evidence that is longer than the
reserve breaks the bound. -/
lemma not_bounded_of_long {c : Call} {r : Json.Fields} (hopt : opt.Accepted)
    (hcount : (Host.up s).Counted opt) (hb : (Host.up s).Bounded opt)
    (hr : s.record? c = some (r, .done)) (hs : storable r = true)
    (hsize : s.file.length = opt.maxBytes - reservedBytes - 1)
    (hlong : reservedBytes + 1 < (lineOf r ++ [10]).length) :
    ¬(host.step (.up s) (.call c)).2.Bounded opt := by
  intro hbounded
  have hroom := ((bounded_step (i := .call c) hopt trivial hcount hb).2.1 hbounded) r .done hr hs
  rw [hcount.1] at hroom
  simp only [Write.part] at hroom
  omega

end

/-! ### A sample -/

lemma accepted_tightOptions : tightOptions.Accepted := ⟨by decide, by decide⟩

/-- A file is opened, and a record is appended. -/
def appended (opt : Options) (r : GoMap) : List Input :=
  [.open opt sampleClock .done, .call (.append r "" sampleClock .done)]

lemma uses_appended (opt : Options) (r : GoMap) : ∀ i ∈ appended opt r, i.Uses opt := by
  intro i hi
  simp only [appended, List.mem_cons, List.not_mem_nil, or_false] at hi
  rcases hi with rfl | rfl
  · rfl
  · trivial

lemma newline_notMem_brace : (10 : UInt8) ∉ ([123] : Bytes) := by decide

/-- After the record, a process that dies in a write leaves one byte. -/
def appendedTorn : List Input :=
  appended tightOptions sampleRecord ++ [.crash ⟨[123], newline_notMem_brace⟩]

/-- The record and the torn line are short. -/
lemma short_appendedTorn : host.Admits Host.Short (.down none) appendedTorn := by
  have hs : storable
      ((Spool.empty tightOptions).evidenceLine sampleRecord.val "" sampleClock) = true := by
    decide +kernel
  have hline := length_line_le hs
  have hcall := (call_append (s := Spool.empty tightOptions) (by decide) hs).1
  refine ⟨trivial, ?_, ?_, trivial⟩
  · intro r w he _
    obtain ⟨rfl, rfl⟩ := Prod.mk.inj (Option.some.inj he)
    exact .inr (.inl ⟨by decide, by decide +kernel⟩)
  · change Spool.Short ((Spool.empty tightOptions).call _).2 [123]
    rw [hcall]
    refine .inr (.inl ⟨?_, ?_⟩)
    · change (0 : ℤ) + _ < 1048576 - 4096
      omega
    · simp only [Spool.stray, Spool.push, Spool.empty]
      decide +kernel

/-- A record and a torn line that are short leave the spool within its bounds. -/
theorem appended_bounded : (host.final (.down none) appendedTorn).Bounded tightOptions := by
  have huses : ∀ i ∈ appendedTorn, i.Uses tightOptions := by
    intro i hi
    rcases List.mem_append.1 hi with hi | hi
    · exact uses_appended _ _ i hi
    · rw [List.mem_singleton.1 hi]
      trivial
  exact bounded_of_short accepted_tightOptions ⟨by decide, by decide⟩ huses short_appendedTorn
    _ (List.prefix_refl _)

/-- The smallest limits that `Open` accepts. -/
def leastOptions : Options := { tightOptions with maxBytes := 4097 }

/-- A record with many texts. -/
def longRecord : GoMap :=
  ⟨[("event_type", .str "k8s.api.response"),
    ("notes", .arr (List.replicate 48 (.str (String.ofList (List.replicate 80 'a')))))], rfl⟩

/-- The line of a long record exceeds the limit of the file. -/
theorem appended_not_bounded :
    leastOptions.Accepted ∧ (Host.down none).Bounded leastOptions ∧
      (∀ i ∈ appended leastOptions longRecord, i.Uses leastOptions) ∧
      ¬∀ js, js <+: appended leastOptions longRecord →
        (host.final (.down none) js).Bounded leastOptions := by
  have haccepted : leastOptions.Accepted := ⟨by decide, by decide⟩
  refine ⟨haccepted, ⟨by decide, by decide⟩, uses_appended _ _, fun hall => ?_⟩
  have hs : storable ((Spool.empty leastOptions).evidenceLine longRecord.val "" sampleClock) =
      true := by
    decide +kernel
  have hlong : (4097 : ℤ) < (lineOf ((Spool.empty leastOptions).evidenceLine longRecord.val ""
      sampleClock) ++ [10]).length := by
    decide +kernel
  have hempty : (Host.up (Spool.empty leastOptions)).Bounded leastOptions :=
    ⟨by decide, by decide⟩
  exact not_bounded_of_long (c := .append longRecord "" sampleClock .done) haccepted
    ⟨rfl, by decide, rfl⟩ hempty rfl hs rfl hlong (hall _ (List.prefix_refl _))

end Collector

end Afterlock
