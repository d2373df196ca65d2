import Afterlock.Collector.Encoding
import Afterlock.Collector.Watch
import Afterlock.Lib.Buffered
import Afterlock.Lib.Lines

/-!
# Reading an audit log

`IngestLog` and `readLine` of `audit.go`: the lines of an audit log are read through a buffer and
handed over one by one, and a line that is too long is dropped with a gap.

What takes the records and the gaps is a machine that answers each call.  The calls are those that
the lines of the whole log demand (`calls`), whatever pieces the log was read in
(`ingestLog_eq_deliver`).  The counters are left out.
-/

namespace Afterlock

namespace Collector

namespace Audit

open Encoding Buffered

def maxEventLine : ℕ := 4 * 1024 * 1024

/-- The size of the buffer. -/
def bufferSize : ℕ := 64 * 1024

/-- `maxConsecutiveEmptyReads` of `bufio`. -/
def maxEmptyReads : ℕ := 100

def newline : UInt8 := 10

/-! ### Lines -/

/-- What `readLine` returns, with the reader after it. -/
structure Line where
  buf : Bytes
  tooLong : Bool
  fault : Option Fault
  reader : Reader UInt8

/-- The next chunk of a line; a line that is too long is not kept. -/
def extend (buf : Bytes) (tooLong : Bool) (chunk : Bytes) : Bytes × Bool :=
  if tooLong then (buf, tooLong)
  else if buf.length + chunk.length > maxEventLine then ([], true)
  else (buf ++ chunk, tooLong)

def nextSlice (r : Reader UInt8) : Slice UInt8 := r.readSlice newline bufferSize maxEmptyReads

/-- The fault that a slice tells. -/
def faultOf : Status → Option Fault
  | .fault e => some e
  | _ => none

lemma fits_nextSlice (r : Reader UInt8) :
    Reader.Fits newline bufferSize maxEmptyReads r (nextSlice r) := Reader.fits_readSlice r

lemma pending_lt_of_full {r : Reader UInt8} (h : (nextSlice r).status = .full) :
    (nextSlice r).reader.pending.length < r.pending.length := by
  have hfits := fits_nextSlice r
  have hfull := hfits.full h
  rw [hfits.pending, List.length_append]
  have hsize : 0 < bufferSize := by decide
  omega

/-- The loop of `readLine`. -/
def readLineFrom (buf : Bytes) (tooLong : Bool) (r : Reader UInt8) : Line :=
  let next := extend buf tooLong (nextSlice r).chunk
  if h : (nextSlice r).status = .full then
    have := pending_lt_of_full h
    readLineFrom next.1 next.2 (nextSlice r).reader
  else ⟨next.1, next.2, faultOf (nextSlice r).status, (nextSlice r).reader⟩
termination_by r.pending.length

def readLine (r : Reader UInt8) : Line := readLineFrom [] false r

/-- A line is a piece of what had been read of it and what was pending: up to the line break, or to
the end. -/
structure IsPiece (before : Bytes) (r : Reader UInt8) (piece : Bytes) (l : Line) : Prop where
  pending : before ++ r.pending = piece ++ l.reader.pending
  tooLong : l.tooLong = decide (piece.length > maxEventLine)
  buf : l.buf = if piece.length > maxEventLine then [] else piece
  line : l.fault = none → ∃ xs, piece = xs ++ [newline] ∧ newline ∉ xs
  sound : r.Sound maxEmptyReads → l.reader.Sound maxEmptyReads ∧
    (l.fault ≠ none → l.fault = some .eof ∧ newline ∉ piece ∧ l.reader.pending = [])

/-- What is known of a line of which a part has been read. -/
lemma extend_eq (before chunk : Bytes) :
    extend (if before.length > maxEventLine then [] else before)
      (decide (before.length > maxEventLine)) chunk =
        (if (before ++ chunk).length > maxEventLine then [] else before ++ chunk,
          decide ((before ++ chunk).length > maxEventLine)) := by
  unfold extend
  rw [List.length_append]
  by_cases hb : before.length > maxEventLine
  · have hlong : before.length + chunk.length > maxEventLine := by omega
    simp [hb, hlong]
  · by_cases hc : before.length + chunk.length > maxEventLine <;> simp [hb, hc]

/-- The loop of `readLine` after it has read a part of a line. -/
lemma isPiece_readLineFrom {before : Bytes} (hbefore : newline ∉ before) (r : Reader UInt8) :
    ∃ piece, IsPiece before r piece
      (readLineFrom (if before.length > maxEventLine then [] else before)
        (decide (before.length > maxEventLine)) r) := by
  generalize hn : r.pending.length = n
  induction n using Nat.strong_induction_on generalizing before r with
  | _ n ih =>
      subst hn
      have hfits := fits_nextSlice r
      have hpending : before ++ r.pending =
          (before ++ (nextSlice r).chunk) ++ (nextSlice r).reader.pending := by
        rw [hfits.pending, List.append_assoc]
      rw [readLineFrom, extend_eq]
      by_cases hfull : (nextSlice r).status = .full
      · -- the buffer is full: the line goes on in the next slice
        rw [dif_pos hfull]
        have hchunk := hfits.rest (by rw [hfull]; nofun)
        have hmem : newline ∉ before ++ (nextSlice r).chunk := by
          rw [List.mem_append, not_or]
          exact ⟨hbefore, hchunk⟩
        obtain ⟨piece, h⟩ := ih _ (pending_lt_of_full hfull) hmem (nextSlice r).reader rfl
        exact ⟨piece, hpending.trans h.pending, h.tooLong, h.buf, h.line,
          fun hs => h.sound (hfits.sound hs).1⟩
      · -- the slice ends the line, with a line break or with a fault of the reader
        rw [dif_neg hfull]
        refine ⟨before ++ (nextSlice r).chunk, hpending, rfl, rfl, fun hnone => ?_, fun hs => ?_⟩
        · have hfound : (nextSlice r).status = .found := by
            cases hst : (nextSlice r).status with
            | found => rfl
            | full => exact absurd hst hfull
            | fault e => simp [faultOf, hst] at hnone
          obtain ⟨xs, hxs, hnot⟩ := hfits.found hfound
          refine ⟨before ++ xs, by rw [hxs, List.append_assoc], ?_⟩
          rw [List.mem_append, not_or]
          exact ⟨hbefore, hnot⟩
        · obtain ⟨hsound, hfault⟩ := hfits.sound hs
          refine ⟨hsound, fun hsome => ?_⟩
          cases hst : (nextSlice r).status with
          | found => simp [faultOf, hst] at hsome
          | full => exact absurd hst hfull
          | fault e =>
              obtain ⟨rfl, hend⟩ := hfault e hst
              refine ⟨rfl, ?_, hend⟩
              rw [List.mem_append, not_or]
              exact ⟨hbefore, hfits.rest (by rw [hst]; nofun)⟩

theorem isPiece_readLine (r : Reader UInt8) : ∃ piece, IsPiece [] r piece (readLine r) :=
  isPiece_readLineFrom List.not_mem_nil r

lemma pending_lt_of_line {r : Reader UInt8} (h : (readLine r).fault = none) :
    (readLine r).reader.pending.length < r.pending.length := by
  obtain ⟨piece, hpiece⟩ := isPiece_readLine r
  obtain ⟨xs, rfl, -⟩ := hpiece.line h
  have hlen := congrArg List.length hpiece.pending
  simp only [List.nil_append, List.length_append, List.length_singleton] at hlen
  omega

/-! ### Handing over -/

/-- What is called for a line: `IngestRaw`, or `Gap` of the spool. -/
inductive Call where
  | raw (line : Bytes) (place : String)
  | gap (kind reason : String)
deriving DecidableEq, Repr

inductive Answer where
  | done
  /-- The spool is full. -/
  | overflow
  | failed (error : String)
deriving DecidableEq, Repr

/-- What `IngestLog` returns. -/
inductive Outcome where
  | done
  /-- The error of a call. -/
  | refused (error : String)
  /-- The error of the reader. -/
  | unread (e : Fault)
deriving DecidableEq, Repr

/-- What `IngestLog` returns when the reader has told a fault. -/
def Outcome.ofFault : Option Fault → Outcome
  | some .noProgress => unread .noProgress
  | _ => done

/-- The calls that were made, and what has taken them. -/
structure Ingested (σ : Type*) where
  calls : List Call
  sink : σ
  outcome : Outcome

variable {σ : Type*} (sink : Machine σ Call Answer)

/-- Make a call, or none. -/
def hand (call : Option Call) (s : σ) : Ingested σ :=
  match call with
  | none => ⟨[], s, .done⟩
  | some c =>
      match (sink.step s c).1 with
      | .failed e => ⟨[c], (sink.step s c).2, .refused e⟩
      | _ => ⟨[c], (sink.step s c).2, .done⟩

/-- Go on unless there was an error. -/
def Ingested.andThen (x : Ingested σ) (next : σ → Ingested σ) : Ingested σ :=
  if x.outcome = .done then
    ⟨x.calls ++ (next x.sink).calls, (next x.sink).sink, (next x.sink).outcome⟩
  else x

/-- `bytes.TrimSpace` leaves nothing.  A line that is not UTF-8 has more than white space. -/
def blank (line : Bytes) : Bool :=
  line.toByteArray.utf8Decode?.any fun cs => cs.toList.all Watch.isSpace

/-- The name of a line of a log. -/
def placeOf (name : String) (lineno : ℕ) : String := name ++ " line " ++ Text.ofInt lineno

def tooLongReason (place : String) : String :=
  place ++ ": audit record exceeds the line limit and was dropped"

def Line.call (l : Line) (place : String) : Option Call :=
  if l.tooLong then some (.gap "audit-malformed" (tooLongReason place))
  else if blank l.buf then none
  else some (.raw l.buf place)

/-- The loop of `IngestLog`, at a line number. -/
def ingestFrom (name : String) (lineno : ℕ) (r : Reader UInt8) (s : σ) : Ingested σ :=
  let line := readLine r
  (hand sink (line.call (placeOf name lineno)) s).andThen fun s =>
    if h : line.fault = none then
      have := pending_lt_of_line h
      ingestFrom name (lineno + 1) line.reader s
    else ⟨[], s, .ofFault line.fault⟩
termination_by r.pending.length

lemma ingestFrom_eq (name : String) (lineno : ℕ) (r : Reader UInt8) (s : σ) :
    ingestFrom sink name lineno r s =
      (hand sink ((readLine r).call (placeOf name lineno)) s).andThen fun s =>
        if (readLine r).fault = none then ingestFrom sink name (lineno + 1) (readLine r).reader s
        else ⟨[], s, .ofFault (readLine r).fault⟩ := by
  rw [ingestFrom]
  rfl

/-- `IngestLog` for a log that an underlying reader gives. -/
def ingestLog (name : String) (source : Source UInt8) (s : σ) : Ingested σ :=
  ingestFrom sink name 1 (.new source) s

/-! ### What is to be handed over -/

/-- The pieces of a log: its lines with their line breaks, and what stands after the last. -/
def pieces (log : Bytes) : List Bytes :=
  (Lines.split newline log).1.map (· ++ [newline]) ++ [(Lines.split newline log).2]

/-- What a piece demands: a gap if it is longer than the limit, nothing if it is blank. -/
def callOf (name : String) (piece : Bytes × ℕ) : Option Call :=
  if piece.1.length > maxEventLine then
    some (.gap "audit-malformed" (tooLongReason (placeOf name piece.2)))
  else if blank piece.1 then none
  else some (.raw piece.1 (placeOf name piece.2))

/-- The calls for a log whose first line has a number. -/
def callsFrom (name : String) (lineno : ℕ) (log : Bytes) : List Call :=
  ((pieces log).zipIdx lineno).filterMap (callOf name)

/-- The calls for a log. -/
def calls (name : String) (log : Bytes) : List Call := callsFrom name 1 log

/-- Make the calls of a list until one fails. -/
def deliver : List Call → σ → Ingested σ
  | [], s => ⟨[], s, .done⟩
  | c :: cs, s => (hand sink (some c) s).andThen (deliver cs)

lemma pieces_cons {xs : Bytes} (h : newline ∉ xs) (rest : Bytes) :
    pieces (xs ++ [newline] ++ rest) = (xs ++ [newline]) :: pieces rest := by
  unfold pieces
  rw [List.append_assoc, List.singleton_append, Lines.split_append h]
  rfl

lemma pieces_last {xs : Bytes} (h : newline ∉ xs) : pieces xs = [xs] := by
  unfold pieces
  rw [Lines.split_of_notMem h]
  rfl

lemma IsPiece.call {before piece : Bytes} {r : Reader UInt8} {l : Line}
    (h : IsPiece before r piece l) (name : String) (lineno : ℕ) :
    l.call (placeOf name lineno) = callOf name (piece, lineno) := by
  unfold Line.call callOf
  rw [h.tooLong, h.buf]
  by_cases hlong : piece.length > maxEventLine
  · simp only [hlong, decide_true, if_true]
  · simp only [hlong, decide_false, if_false, Bool.false_eq_true]

lemma deliver_filterMap_cons (name : String) (piece : Bytes × ℕ) (rest : List (Bytes × ℕ)) (s : σ) :
    deliver sink ((piece :: rest).filterMap (callOf name)) s =
      (hand sink (callOf name piece) s).andThen (deliver sink (rest.filterMap (callOf name))) := by
  rw [List.filterMap_cons]
  cases callOf name piece with
  | none => rfl
  | some c => rfl

lemma ingestFrom_eq_deliver (name : String) (lineno : ℕ) {r : Reader UInt8}
    (hr : r.Sound maxEmptyReads) (s : σ) :
    ingestFrom sink name lineno r s = deliver sink (callsFrom name lineno r.pending) s := by
  generalize hn : r.pending.length = n
  induction n using Nat.strong_induction_on generalizing lineno r s with
  | _ n ih =>
      subst hn
      obtain ⟨piece, hpiece⟩ := isPiece_readLine r
      obtain ⟨hsound, hfault⟩ := hpiece.sound hr
      have hpending : r.pending = piece ++ (readLine r).reader.pending := hpiece.pending
      rw [ingestFrom_eq, hpiece.call, callsFrom, hpending]
      by_cases hnone : (readLine r).fault = none
      · have hrest : ∀ s, ingestFrom sink name (lineno + 1) (readLine r).reader s =
            deliver sink (callsFrom name (lineno + 1) (readLine r).reader.pending) s :=
          fun s => ih _ (pending_lt_of_line hnone) (lineno + 1) hsound s rfl
        obtain ⟨xs, rfl, hxs⟩ := hpiece.line hnone
        rw [pieces_cons hxs, List.zipIdx_cons, deliver_filterMap_cons]
        simp only [hnone, if_true, hrest]
        rfl
      · obtain ⟨heof, hnot, hend⟩ := hfault hnone
        rw [hend, List.append_nil, pieces_last hnot, List.zipIdx_singleton,
          deliver_filterMap_cons]
        simp only [heof, reduceCtorEq, if_false]
        rfl

lemma hand_of_takes {sink : Machine σ Call Answer} {c : Call} {s : σ}
    (h : ∀ e, (sink.step s c).1 ≠ .failed e) :
    hand sink (some c) s = ⟨[c], (sink.step s c).2, .done⟩ := by
  cases ha : (sink.step s c).1 with
  | failed e => exact absurd ha (h e)
  | done => simp only [hand, ha]
  | overflow => simp only [hand, ha]

/-- If a call does not fail the others are made after it. -/
lemma deliver_cons_of_takes {sink : Machine σ Call Answer} {c : Call} {s : σ}
    (h : ∀ e, (sink.step s c).1 ≠ .failed e) (cs : List Call) :
    deliver sink (c :: cs) s = ⟨c :: (deliver sink cs (sink.step s c).2).calls,
      (deliver sink cs (sink.step s c).2).sink, (deliver sink cs (sink.step s c).2).outcome⟩ := by
  rw [deliver, hand_of_takes h]
  rfl

/-- If no error was returned no call has failed. -/
lemma takes_of_deliver {sink : Machine σ Call Answer} {c : Call} {cs : List Call} {s : σ}
    (h : (deliver sink (c :: cs) s).outcome = .done) : ∀ e, (sink.step s c).1 ≠ .failed e := by
  intro e he
  have hhand : hand sink (some c) s = ⟨[c], (sink.step s c).2, .refused e⟩ := by
    simp only [hand, he]
  rw [deliver, hhand] at h
  cases h

/-- If no call fails all are made. -/
lemma deliver_of_takes {sink : Machine σ Call Answer} (h : ∀ s c e, (sink.step s c).1 ≠ .failed e)
    (cs : List Call) (s : σ) :
    (deliver sink cs s).calls = cs ∧ (deliver sink cs s).outcome = .done := by
  induction cs generalizing s with
  | nil => exact ⟨rfl, rfl⟩
  | cons c cs ih =>
      rw [deliver_cons_of_takes (h s c)]
      exact ⟨congrArg (c :: ·) (ih _).1, (ih _).2⟩

/-- A log is handed over as if it were read at once: the calls are those for its pieces, until one
fails. -/
theorem ingestLog_eq_deliver (name : String) (source : Source UInt8)
    (h : source.Patient maxEmptyReads) (s : σ) :
    ingestLog sink name source s = deliver sink (calls name source.data) s ∧
      ((∀ s c e, (sink.step s c).1 ≠ .failed e) →
        (ingestLog sink name source s).calls = calls name source.data ∧
          (ingestLog sink name source s).outcome = .done) := by
  have heq : ingestLog sink name source s = deliver sink (calls name source.data) s :=
    ingestFrom_eq_deliver sink name 1 (Reader.sound_new h) s
  refine ⟨heq, fun htakes => ?_⟩
  rw [heq]
  exact deliver_of_takes htakes _ s

/-- Two lines and a blank one, in pieces of one byte, none and the rest. -/
def sampleSource : Source UInt8 := ⟨[97, 10, 10, 98], [1, 0], true⟩

/-- What takes every call and counts them. -/
def counting : Machine ℕ Call Answer := ⟨fun n _ => (.done, n + 1)⟩

theorem sample_ingested : calls "audit.log" sampleSource.data =
    [.raw [97, 10] "audit.log line 1", .raw [98] "audit.log line 3"] ∧
      ingestLog counting "audit.log" sampleSource 0 =
        deliver counting (calls "audit.log" sampleSource.data) 0 := by
  refine ⟨by decide +kernel, (ingestLog_eq_deliver counting "audit.log" sampleSource ?_ 0).1⟩
  unfold Source.Patient
  decide

end Audit

end Collector

end Afterlock
