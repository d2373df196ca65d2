import Mathlib

/-!
# Buffered reading

A buffered reader asks an underlying reader for more symbols whenever its buffer does not hold the
symbol that it looks for.  The underlying reader gives what it has in pieces of any size, and may
give nothing a few times (`Source`).

`Reader.readSlice` returns the symbols up to a delimiter, or a full buffer, or what is left at the
end.  Whatever the pieces were, the symbols come out in their order and none is lost
(`Fits.pending`), and a slice ends where it says (`fits_readSlice`).
-/

namespace Afterlock

namespace Buffered

variable {α : Type*}

/-! ### The underlying reader -/

/-- What an underlying reader has left.  A number of the script is how many symbols a read gives at
most; a read for the number zero gives nothing.  When the script is used up a read gives whatever
fits. -/
structure Source (α : Type*) where
  data : List α
  script : List ℕ
  /-- The end comes together with the last symbols, and not by itself. -/
  eager : Bool

/-- What a read returns, with what the underlying reader has left. -/
structure Read (α : Type*) where
  got : List α
  ended : Bool
  source : Source α

/-- Give at most `n` symbols. -/
def Source.give (s : Source α) (n : ℕ) (script : List ℕ) : Read α where
  got := s.data.take n
  ended := s.data.isEmpty || (s.eager && (s.data.drop n).isEmpty)
  source := { s with data := s.data.drop n, script := script }

/-- A read into a buffer that has room for so many symbols. -/
def Source.read (s : Source α) (room : ℕ) : Read α :=
  match s.script with
  | [] => s.give room []
  | 0 :: script => ⟨[], false, { s with script := script }⟩
  | (n + 1) :: script => s.give (min (n + 1) room) script

/-- No read gives nothing so many times in a row. -/
def Source.Patient (limit : ℕ) (s : Source α) : Prop := ¬ List.replicate limit 0 <:+: s.script

/-- How much is left. -/
def Source.size (s : Source α) : ℕ := s.data.length + s.script.length

namespace Source

variable {s : Source α} {room : ℕ}

lemma give_ended {n : ℕ} {script : List ℕ} (h : (s.give n script).ended = true) :
    (s.give n script).source.data = [] := by
  rcases Bool.or_eq_true _ _ ▸ h with h | h
  · simp [give, List.isEmpty_iff.1 h]
  · exact List.isEmpty_iff.1 (Bool.and_eq_true _ _ ▸ h).2

lemma give_progress {n : ℕ} (hn : 0 < n) (script : List ℕ) :
    (s.give n script).ended = true ∨ (s.give n script).got ≠ [] := by
  cases hd : s.data with
  | nil => exact Or.inl (by simp [give, hd])
  | cons a as => exact Or.inr (by simp [give, hd, Nat.ne_of_gt hn])

/-- A read for the number zero gives nothing; any other takes symbols off or tells the end. -/
lemma read_cases (s : Source α) (room : ℕ) :
    (∃ script, s.script = 0 :: script ∧ s.read room = ⟨[], false, { s with script := script }⟩) ∨
      ∃ n script, s.read room = s.give n script ∧ (0 < room → 0 < n) ∧
        ((script = [] ∧ s.script = []) ∨ ∃ k, s.script = k :: script) := by
  unfold read
  cases s.script with
  | nil => exact Or.inr ⟨room, [], rfl, id, Or.inl ⟨rfl, rfl⟩⟩
  | cons n script =>
      cases n with
      | zero => exact Or.inl ⟨script, rfl, rfl⟩
      | succ n => exact Or.inr ⟨_, script, rfl, fun h => by omega, Or.inr ⟨_, rfl⟩⟩

lemma read_data (s : Source α) (room : ℕ) :
    s.data = (s.read room).got ++ (s.read room).source.data := by
  rcases read_cases s room with ⟨script, -, he⟩ | ⟨n, script, he, -, -⟩ <;> rw [he]
  · rfl
  · exact (List.take_append_drop _ _).symm

/-- The end is told when nothing is left. -/
lemma data_of_ended (h : (s.read room).ended = true) : (s.read room).source.data = [] := by
  rcases read_cases s room with ⟨script, -, he⟩ | ⟨n, script, he, -, -⟩ <;> rw [he] at h ⊢
  · cases h
  · exact give_ended h

lemma script_suffix (s : Source α) (room : ℕ) : (s.read room).source.script <:+ s.script := by
  rcases read_cases s room with ⟨script, hs, he⟩ | ⟨n, script, he, -, hs⟩ <;> rw [he]
  · exact hs ▸ List.suffix_cons 0 script
  · rcases hs with ⟨rfl, hs⟩ | ⟨k, hs⟩
    · exact List.nil_suffix
    · exact hs ▸ List.suffix_cons k script

lemma Patient.read {limit : ℕ} (h : s.Patient limit) (room : ℕ) :
    (s.read room).source.Patient limit :=
  fun hin => h (hin.trans (script_suffix s room).isInfix)

/-- Every read leaves so much less as it gives. -/
lemma size_read_le (s : Source α) (room : ℕ) :
    (s.read room).got.length + (s.read room).source.size ≤ s.size := by
  have hlen := congrArg List.length (read_data s room)
  have hscript := (script_suffix s room).length_le
  rw [List.length_append] at hlen
  unfold size
  omega

end Source

/-! ### Filling the buffer -/

/-- What a buffered reader has run into. -/
inductive Fault where
  | eof
  /-- The underlying reader gave nothing too many times. -/
  | noProgress
deriving DecidableEq, Repr

/-- The symbols that are buffered, and what is to be told once they are used up. -/
structure Reader (α : Type*) where
  buf : List α
  fault : Option Fault
  source : Source α

namespace Reader

/-- A reader whose buffer is empty. -/
def new (s : Source α) : Reader α := ⟨[], none, s⟩

/-- The symbols that have not been returned. -/
def pending (r : Reader α) : List α := r.buf ++ r.source.data

/-- Buffer what a read has returned. -/
def receive (r : Reader α) (x : Read α) : Reader α where
  buf := r.buf ++ x.got
  fault := if x.ended then some .eof else none
  source := x.source

/-- Read until something comes, at most so many times. -/
def fill (cap : ℕ) : ℕ → Reader α → Reader α
  | 0, r => { r with fault := some .noProgress }
  | tries + 1, r =>
      let x := r.source.read (cap - r.buf.length)
      if x.ended || !x.got.isEmpty then r.receive x else fill cap tries (r.receive x)

/-- How much is left to be read. -/
def size (r : Reader α) : ℕ := if r.fault.isSome then 0 else 1 + r.source.size

/-- What the faults mean, and the patience that is left. -/
structure Sound (limit : ℕ) (r : Reader α) : Prop where
  fault : ∀ e, r.fault = some e → e = .eof ∧ r.source.data = []
  patient : r.source.Patient limit

variable {cap limit : ℕ}

lemma sound_new {s : Source α} (h : s.Patient limit) : (new s).Sound limit where
  fault e he := by cases he
  patient := h

lemma pending_receive (r : Reader α) (room : ℕ) :
    (r.receive (r.source.read room)).pending = r.pending := by
  rw [pending, pending, r.source.read_data room, ← List.append_assoc]
  rfl

lemma fill_pending (tries : ℕ) (r : Reader α) : (r.fill cap tries).pending = r.pending := by
  induction tries generalizing r with
  | zero => rfl
  | succ tries ih =>
      rw [fill]
      split_ifs
      · exact pending_receive r _
      · exact (ih _).trans (pending_receive r _)

lemma receive_fault_eq_none {r : Reader α} {x : Read α} :
    (r.receive x).fault = none ↔ x.ended = false := by
  cases h : x.ended <;> simp [receive, h]

/-- A read that gives something, or tells the end, takes something off what is left. -/
lemma size_receive {r : Reader α} (h : r.fault = none) (room : ℕ) :
    (r.receive (r.source.read room)).size ≤ r.size ∧
      ((r.source.read room).ended = true ∨ (r.source.read room).got ≠ [] →
        (r.receive (r.source.read room)).size < r.size) := by
  have hsize := Source.size_read_le r.source room
  have hr : r.size = 1 + r.source.size := by simp [size, h]
  cases hend : (r.source.read room).ended with
  | true =>
      have hzero : (r.receive (r.source.read room)).size = 0 := by simp [size, receive, hend]
      omega
  | false =>
      have hnext : (r.receive (r.source.read room)).size = 1 + (r.source.read room).source.size := by
        simp [size, receive, hend]
      refine ⟨by omega, fun hgot => ?_⟩
      have hpos := List.length_pos_iff.2 (hgot.resolve_left (by simp))
      omega

lemma size_fill_lt {r : Reader α} (h : r.fault = none) (tries : ℕ) :
    (r.fill cap tries).size < r.size := by
  induction tries generalizing r with
  | zero => simp [fill, size, h]
  | succ tries ih =>
      obtain ⟨hle, hlt⟩ := size_receive h (cap - r.buf.length)
      rw [fill]
      split_ifs with hx
      · exact hlt (by simpa using hx)
      · refine (ih ?_).trans_le hle
        rw [receive_fault_eq_none]
        simp only [Bool.or_eq_true, not_or, Bool.not_eq_true] at hx
        exact hx.1

/-- A reader that is sound stays so: the underlying reader is asked again often enough. -/
lemma Sound.fill {r : Reader α} (h : r.Sound limit) (hroom : r.buf.length < cap) :
    (r.fill cap limit).Sound limit := by
  have hfill : ∀ tries (r : Reader α), r.source.Patient limit → r.buf.length < cap →
      ¬ List.replicate tries 0 <+: r.source.script → (r.fill cap tries).Sound limit := by
    intro tries
    induction tries with
    | zero => exact fun r _ _ hnot => absurd (List.nil_prefix) hnot
    | succ tries ih =>
        intro r hp hroom hnot
        have hpatient := hp.read (cap - r.buf.length)
        rw [Reader.fill]
        split_ifs with hx
        · refine ⟨fun e he => ?_, hpatient⟩
          have hend : (r.source.read (cap - r.buf.length)).ended = true := by
            by_contra hend
            rw [receive_fault_eq_none.2 (by simpa using hend)] at he
            cases he
          refine ⟨?_, Source.data_of_ended hend⟩
          simpa [receive, hend] using he.symm
        · rcases Source.read_cases r.source (cap - r.buf.length) with
            ⟨script, hs, he⟩ | ⟨n, script, he, hn, -⟩
          · refine ih _ hpatient (by simpa [receive, he] using hroom) fun hpre => hnot ?_
            rw [hs, List.replicate_succ]
            refine List.cons_prefix_cons.2 ⟨rfl, ?_⟩
            simpa [receive, he] using hpre
          · refine absurd ?_ hx
            rw [he]
            simpa using Source.give_progress (s := r.source) (hn (by omega)) script
  exact hfill limit r h.patient hroom fun hpre => h.patient hpre.isInfix

end Reader

/-! ### Slices -/

/-- Why a slice ends. -/
inductive Status where
  | found
  /-- The buffer is full and has no delimiter. -/
  | full
  | fault (e : Fault)
deriving DecidableEq, Repr

structure Slice (α : Type*) where
  chunk : List α
  status : Status
  reader : Reader α

namespace Reader

variable [DecidableEq α] {delim : α} {cap limit : ℕ}

/-- The symbols up to the delimiter, with it; a full buffer; or what is left. -/
def readSlice (delim : α) (cap limit : ℕ) (r : Reader α) : Slice α :=
  if delim ∈ r.buf then
    ⟨r.buf.takeWhile (· ≠ delim) ++ [delim], .found,
      { r with buf := (r.buf.dropWhile (· ≠ delim)).tail }⟩
  else if h : r.fault.isSome then
    ⟨r.buf, .fault (r.fault.get h), { r with buf := [], fault := none }⟩
  else if cap ≤ r.buf.length then ⟨r.buf, .full, { r with buf := [] }⟩
  else readSlice delim cap limit (r.fill cap limit)
termination_by r.size
decreasing_by exact size_fill_lt (Option.not_isSome_iff_eq_none.1 h) limit

/-- A slice ends where it says. -/
structure Fits (delim : α) (cap limit : ℕ) (r : Reader α) (x : Slice α) : Prop where
  pending : r.pending = x.chunk ++ x.reader.pending
  found : x.status = .found → ∃ l, x.chunk = l ++ [delim] ∧ delim ∉ l
  rest : x.status ≠ .found → delim ∉ x.chunk
  full : x.status = .full → cap ≤ x.chunk.length
  sound : r.Sound limit → x.reader.Sound limit ∧
    ∀ e, x.status = .fault e → e = .eof ∧ x.reader.pending = []

theorem fits_readSlice (r : Reader α) : Fits delim cap limit r (r.readSlice delim cap limit) := by
  induction r using readSlice.induct delim cap limit with
  | case1 r hmem =>
      -- the delimiter is in the buffer
      rw [readSlice, if_pos hmem]
      obtain ⟨l, rest, hbuf, hl⟩ := List.eq_append_cons_of_mem hmem
      have hpos : ∀ a ∈ l, decide (a ≠ delim) = true := fun a ha =>
        decide_eq_true fun he => hl (he ▸ ha)
      have htake : r.buf.takeWhile (· ≠ delim) = l := by
        rw [hbuf, List.takeWhile_append_of_pos hpos, List.takeWhile_cons_of_neg (by simp),
          List.append_nil]
      have hdrop : r.buf.dropWhile (· ≠ delim) = delim :: rest := by
        rw [hbuf, List.dropWhile_append_of_pos hpos, List.dropWhile_cons_of_neg (by simp)]
      rw [htake, hdrop]
      refine ⟨?_, fun _ => ⟨l, rfl, hl⟩, fun h => absurd rfl h, nofun,
        fun hs => ⟨⟨hs.fault, hs.patient⟩, nofun⟩⟩
      show r.buf ++ r.source.data = l ++ [delim] ++ (rest ++ r.source.data)
      rw [hbuf]
      simp
  | case2 r hmem hfault =>
      -- the source has ended or failed
      rw [readSlice, if_neg hmem, dif_pos hfault]
      refine ⟨rfl, nofun, fun _ => hmem, nofun, fun hs => ?_⟩
      obtain ⟨he, hdata⟩ := hs.fault _ (Option.some_get hfault).symm
      refine ⟨⟨nofun, hs.patient⟩, fun e hend => ?_⟩
      obtain rfl := Status.fault.inj hend
      exact ⟨he, hdata⟩
  | case3 r hmem hfault hcap =>
      -- the buffer is full
      rw [readSlice, if_neg hmem, dif_neg hfault, if_pos hcap]
      exact ⟨rfl, nofun, fun _ => hmem, fun _ => hcap, fun hs => ⟨⟨hs.fault, hs.patient⟩, nofun⟩⟩
  | case4 r hmem hfault hcap ih =>
      -- more is read into the buffer
      rw [readSlice, if_neg hmem, dif_neg hfault, if_neg hcap]
      exact ⟨(fill_pending limit r).symm.trans ih.pending, ih.found, ih.rest, ih.full,
        fun hs => ih.sound (hs.fill (not_le.1 hcap))⟩

end Reader

end Buffered

end Afterlock
