import Afterlock.Collector.Guard

/-!
# Loss is told

A spool that drops a record returns `ErrOverflow`.  The loss is told if the list of `Records` has a
gap of the kind `spool-overflow` or `spool-overflow-summary`.

`full` asks whether the spool is full before the length of the next record is known, and a gap may
use the reserve: the reserve that the alarm needs can be gone when the alarm is due.  `Spares` says
which calls leave of it what the alarm needs: lines that fit into what the alarm does not need, and
one gap at most in the reserve.  In a run of such calls the alarm always finds room (`Ready`), and
every loss is told (`lossTold_of_spares`).
-/

namespace Afterlock

namespace Collector

open Encoding Redaction Redact

/-- The record of a gap that tells of dropped records. -/
def LossGap (r : Json.Fields) : Prop :=
  r.lookup "event_type" = some (.str "collector.gap") ∧
    (r.lookup "gap_kind" = some (.str "spool-overflow") ∨
      r.lookup "gap_kind" = some (.str "spool-overflow-summary"))

instance : DecidablePred LossGap := fun r =>
  decidable_of_iff
    ((hasText r "event_type" "collector.gap" &&
      (hasText r "gap_kind" "spool-overflow" ||
        hasText r "gap_kind" "spool-overflow-summary")) = true)
    (by simp only [LossGap, Bool.and_eq_true, Bool.or_eq_true, hasText_iff])

/-- `Records` lists a gap that tells of dropped records. -/
def Spool.Alarmed (s : Spool) : Prop := ∃ r ∈ s.listing, LossGap r

/-- Whenever a call of the run returned `ErrOverflow`, the next list of `Records` has a gap that
tells of dropped records. -/
def Spool.LossTold (s : Spool) (cs : List Call) : Prop :=
  (∃ reply ∈ spool.answers s cs, reply.answer = .refused .overflow) →
    ∀ now w, ∃ rs, ((spool.final s cs).call (.records now w)).1.answer = .listed rs ∧
      ∃ r ∈ rs, LossGap r

/-- A call that may drop a record without losing the alarm.  A gap that finds even the reserve full
comes after the alarm; an `Append` that finds the spool full for the first time finds the reserve
free, and its alarm is accepted and written, unless there is an alarm already. -/
def Spool.Alarms (s : Spool) : Call → Prop
  | .append _ dedupKey now w =>
      ¬(dedupKey ≠ "" ∧ dedupKey ∈ s.seen) → s.full 0 = true → s.overflow = false →
        s.Alarmed ∨ (s.full reservedRecords = false ∧
          storable (s.gapLine "spool-overflow" (overflowReason s.opt) now) = true ∧ w = .done)
  | .gap _ _ _ _ => s.full reservedRecords = true → s.Alarmed
  | .records _ _ => True

section

variable {s s' : Spool}

lemma alarmed_iff : s.Alarmed ↔ ∃ r ∈ s.records, LossGap (copy r) := by
  have hloss (r : Json.Fields) : LossGap (delete "_dedup" r) ↔ LossGap r := by
    unfold LossGap
    rw [lookup_delete_of_ne (by decide), lookup_delete_of_ne (by decide)]
  unfold Spool.Alarmed Spool.listing
  constructor
  · rintro ⟨_, hmem, h⟩
    obtain ⟨r, hr, rfl⟩ := List.mem_map.1 (Text.mem_sortedBy.1 hmem)
    exact ⟨r, hr, (hloss _).1 h⟩
  · rintro ⟨r, hr, h⟩
    exact ⟨_, Text.mem_sortedBy.2 (List.mem_map_of_mem hr), (hloss _).2 h⟩

lemma Spool.Alarmed.mono (h : s.Alarmed) (hsub : s.records ⊆ s'.records) : s'.Alarmed := by
  obtain ⟨r, hr, hloss⟩ := alarmed_iff.1 h
  exact alarmed_iff.2 ⟨r, hsub hr, hloss⟩

/-- A call removes no record. -/
lemma records_subset_call (s : Spool) (c : Call) : s.records ⊆ (s.call c).2.records := by
  have heffect := effect_call s c
  generalize (s.call c).1.stored = stored at heffect
  generalize (s.call c).2 = s' at heffect
  cases heffect with
  | quiet hlog | gapRefused _ hlog | gapTorn _ _ hlog | gap _ _ hlog | torn _ _ hlog
  | evidence _ _ _ hlog =>
      rw [hlog.records]
      first | exact List.subset_append_left _ _ | exact List.Subset.refl _

/-- The alarm that was written is in the list of `Records`. -/
lemma alarmed_push (reason : String) (now : Clock)
    (hs : storable (s.gapLine "spool-overflow" reason now) = true) :
    ({ s with gapSeq := s.gapSeq + 1 }.push (s.gapLine "spool-overflow" reason now)).Alarmed := by
  obtain ⟨htype, -, hkind, -⟩ := lookup_gapLine s "spool-overflow" reason now
  refine alarmed_iff.2 ⟨_, List.mem_append_right _ (List.mem_singleton_self _), ?_⟩
  rw [copy_eq (canonicalFields_gapLine s _ reason now) hs]
  exact ⟨htype, .inl hkind⟩

/-- The alarm is written where there is room for it. -/
lemma gapLocked_alarm {reason : String} {now : Clock} (hf : s.full reservedRecords = false)
    (hs : storable (s.gapLine "spool-overflow" reason now) = true) :
    ∃ stored s', gapLocked s "spool-overflow" reason now .done = (.ok stored, s') ∧ s'.Alarmed := by
  rcases gapLocked_cases s "spool-overflow" reason now .done with
    ⟨hfull, -⟩ | ⟨-, ⟨hno, -⟩ | ⟨-, n, hw, -⟩ | ⟨-, -, h⟩⟩
  · exact absurd (hfull.symm.trans hf) (by decide)
  · exact absurd (hno.symm.trans hs) (by decide)
  · exact absurd hw (by simp)
  · exact ⟨_, _, h, alarmed_push reason now hs⟩

/-- The first record that is dropped leaves the alarm. -/
lemma alarmed_append {r : Json.Fields} {dedupKey : String} {now : Clock}
    (hdup : ¬(dedupKey ≠ "" ∧ dedupKey ∈ s.seen)) (hfull : s.full 0 = true)
    (hover : s.overflow = false) (hreserve : s.full reservedRecords = false)
    (hs : storable (s.gapLine "spool-overflow" (overflowReason s.opt) now) = true) :
    (append s r dedupKey now .done).2.Alarmed := by
  obtain ⟨stored, s', hgap, halarm⟩ := gapLocked_alarm
    (s := { s with dropped := s.dropped + 1, overflow := true }) hreserve hs
  rw [append, if_neg hdup, if_pos hfull, if_neg (by simp [hover])]
  simp only [hgap]
  exact halarm

/-- A process that has noticed the overflow has recorded it. -/
def Spool.Told (s : Spool) : Prop := s.overflow = true → s.Alarmed

/-- What a call that returns `ErrOverflow` leaves behind. -/
lemma told_call (s : Spool) (c : Call) (hs : s.Told) (hc : s.Alarms c) :
    (s.call c).2.Told ∧
      ((s.call c).1.answer = .refused .overflow → (s.call c).2.Alarmed) := by
  have hsub := records_subset_call s c
  cases c with
  | append r dedupKey now w =>
      by_cases halarmed : s.Alarmed
      · exact ⟨fun _ => halarmed.mono hsub, fun _ => halarmed.mono hsub⟩
      have hover : s.overflow = false := by
        rw [← Bool.not_eq_true]
        exact fun h => halarmed (hs h)
      by_cases hdup : dedupKey ≠ "" ∧ dedupKey ∈ s.seen
      · simp only [Spool.call, append, if_pos hdup]
        exact ⟨hs, by simp⟩
      cases hf : s.full 0 with
      | true =>
          obtain ⟨hreserve, hline, rfl⟩ := (hc hdup hf hover).resolve_left halarmed
          have halarm := alarmed_append (r := r.val) hdup hf hover hreserve hline
          exact ⟨fun _ => halarm, fun _ => halarm⟩
      | false =>
          simp only [Spool.call, append]
          rw [if_neg hdup, hf, if_neg Bool.false_ne_true]
          rcases writeLocked_cases s now.ingested w (canonicalFields_dedup dedupKey r.property) with
            ⟨-, e, he, h⟩ | ⟨-, n, rfl, h⟩ | ⟨-, rfl, h⟩ <;> simp only [h]
          · exact ⟨hs, fun heq => absurd (Answer.refused.inj heq ▸ he) (by decide)⟩
          · exact ⟨fun ho => absurd (ho.symm.trans hover) (by decide), by simp⟩
          · refine ⟨fun ho => ?_, by simp⟩
            have hpush : s.overflow = true := by
              split_ifs at ho <;> exact ho
            exact absurd (hpush.symm.trans hover) (by decide)
  | gap kind reason now w =>
      have hover : (s.call (.gap kind reason now w)).2.overflow = s.overflow := by
        simp only [Spool.call, gap]
        rcases gapLocked_cases s kind reason now w with
          ⟨-, h⟩ | ⟨-, ⟨-, e, -, h⟩ | ⟨-, n, rfl, h⟩ | ⟨-, rfl, h⟩⟩ <;> rw [h] <;> rfl
      refine ⟨fun ho => (hs (hover ▸ ho)).mono hsub, fun hans => ?_⟩
      suffices hfull : s.full reservedRecords = true from (hc hfull).mono hsub
      simp only [Spool.call, gap] at hans
      rcases gapLocked_cases s kind reason now w with
        ⟨hfull, -⟩ | ⟨-, ⟨-, e, he, h⟩ | ⟨-, n, rfl, h⟩ | ⟨-, rfl, h⟩⟩
      · exact hfull
      · rw [h] at hans
        exact absurd (Answer.refused.inj hans ▸ he) (by decide)
      · rw [h] at hans
        exact absurd (Answer.refused.inj hans) (by decide)
      · rw [h] at hans
        exact absurd hans (by simp)
  | records now w =>
      have hover : (s.call (.records now w)).2.overflow = s.overflow ∧
          (s.call (.records now w)).1.answer ≠ .refused .overflow := by
        simp only [Spool.call, records]
        by_cases hd : s.dropped > 0 ∧ s.summaryOK = false
        · rw [if_pos hd]
          rcases gapLocked_cases { s with summaryOK := true } "spool-overflow-summary"
            (summaryReason s.dropped) now w with
            ⟨-, h⟩ | ⟨-, ⟨-, e, -, h⟩ | ⟨-, n, rfl, h⟩ | ⟨-, rfl, h⟩⟩ <;> rw [h] <;>
            exact ⟨rfl, by simp⟩
        · rw [if_neg hd]
          exact ⟨rfl, by simp⟩
      exact ⟨fun ho => (hs (hover.1 ▸ ho)).mono hsub, fun hans => absurd hans hover.2⟩

/-- In a run of such calls the alarm is in the spool as soon as a call returned `ErrOverflow`. -/
lemma alarmed_of_alarms {cs : List Call} (hs : s.Told) (h : spool.Admits Spool.Alarms s cs)
    (hover : ∃ reply ∈ spool.answers s cs, reply.answer = .refused .overflow) :
    (spool.final s cs).Alarmed := by
  induction cs generalizing s with
  | nil => simp at hover
  | cons c cs ih =>
      obtain ⟨htold, halarm⟩ := told_call s c hs h.1
      obtain ⟨reply, hmem, hans⟩ := hover
      rcases List.mem_cons.1 hmem with rfl | hmem
      · -- from here on no record is removed
        have hmono : ∀ t c', t.Alarmed → t.Alarms c' → (spool.step t c').2.Alarmed :=
          fun t c' ht _ => ht.mono (records_subset_call t c')
        exact h.2.invariant hmono (halarm hans)
      · exact ih htold h.2 ⟨reply, hmem, hans⟩

/-- `Records` lists the records of the spool after the call. -/
lemma answer_records (s : Spool) (now : Clock) (w : Write) :
    (s.call (.records now w)).1.answer = .listed (s.call (.records now w)).2.listing := by
  simp only [Spool.call, records]
  by_cases hd : s.dropped > 0 ∧ s.summaryOK = false
  · rw [if_pos hd]
    generalize gapLocked { s with summaryOK := true } "spool-overflow-summary"
      (summaryReason s.dropped) now w = g
    obtain ⟨e | stored, s'⟩ := g <;> rfl
  · rw [if_neg hd]

/-- In a run of such calls every loss is told. -/
lemma lossTold_of_alarms {cs : List Call} (hs : s.Told) (h : spool.Admits Spool.Alarms s cs) :
    s.LossTold cs := by
  intro hover now w
  have halarmed := (alarmed_of_alarms hs h hover).mono (records_subset_call _ (.records now w))
  exact ⟨_, answer_records _ now w, halarmed⟩

/-! ### Calls that spare the reserve -/

/-- The names of the source and of the cluster resemble no credential material. -/
def Options.Harmless (opt : Options) : Prop :=
  Collector.Harmless (utf8 opt.sourceId.toList) ∧ Collector.Harmless (utf8 opt.clusterId.toList)

/-- The texts of the clock are those of points in time. -/
def Clock.Formatted (now : Clock) : Prop :=
  ∃ observed ingested : Audit.Instant, now = ⟨observed.format, ingested.format⟩

/-- The bytes of the reserve that the alarm does not need. -/
def spareBytes : ℤ := reservedBytes - 512

/-- A record that is written behind the reserve has a line of at most `spareBytes`; one that is
written in the reserve leaves a record of it and more than 512 bytes. -/
def Spool.SparesLine (s : Spool) (r : Json.Fields) : Prop :=
  storable r = true →
    if s.full 0 = true then
      (s.records.length : ℤ) + 1 < s.opt.maxRecords ∧
        s.size + (lineOf r ++ [10]).length < s.opt.maxBytes - 512
    else ((lineOf r ++ [10]).length : ℤ) ≤ spareBytes

/-- A call that leaves of the reserve what the alarm needs, unless there is an alarm already.  The
first `Append` that finds the spool full has an alarm that is short enough and is written. -/
def Spool.Spares (s : Spool) (c : Call) : Prop :=
  s.Alarmed ∨
    match c with
    | .append r dedupKey now w =>
        ¬(dedupKey ≠ "" ∧ dedupKey ∈ s.seen) →
          if s.full 0 = true then
            now.Formatted ∧ w = .done ∧
              (lineOf (s.gapLine "spool-overflow" (overflowReason s.opt) now)).length < maxLineBytes
          else s.SparesLine (s.evidenceLine r.val dedupKey now)
    | .gap kind reason now _ => s.SparesLine (s.gapLine kind reason now)
    | .records _ _ => True

/-- A spool that has the alarm, or has dropped nothing and has room for the alarm. -/
structure Spool.Ready (s : Spool) : Prop where
  harmless : s.opt.Harmless
  seq_nonneg : 0 ≤ s.seq
  room : s.Alarmed ∨ (s.full reservedRecords = false ∧ s.overflow = false ∧ s.dropped = 0)

/-- A gap is accepted if its line is short enough. -/
lemma storable_gapLine (hopt : s.opt.Harmless) (hseq : 0 ≤ s.seq) {kind : String}
    (hkind : kind ∈ gapKinds) (reason : String) {now : Clock} (hnow : now.Formatted)
    (hlen : (lineOf (s.gapLine kind reason now)).length < maxLineBytes) :
    storable (s.gapLine kind reason now) = true := by
  have htext (t : String) : t = asText (utf8 t.toList) := by
    rw [asText, asChars_utf8, String.ofList_toList]
  obtain ⟨observed, ingested, rfl⟩ := hnow
  have hsource : sensitive s.opt.sourceId = false := by
    have h := sensitive_asText hopt.1.1
    rwa [← htext] at h
  have hgap := writable_gapFields (d := 1) hsource hkind (utf8 reason.toList) (s.gapSeq + 1) observed
  rw [gapFields_utf8] at hgap
  have hline := writable_stamp (htext _) (htext _) hopt.1 hopt.2
    (Int.add_nonneg hseq Int.one_nonneg) ingested hgap
  obtain ⟨-, hclean, ⟨cs, hcs⟩, hlevels⟩ := hline.obj
  have hshort : (utf8 cs).length + 1 ≤ maxLineBytes := by
    rwa [lineOf, Spool.gapLine, hcs] at hlen
  have hdepth : levels (.obj (s.gapLine kind reason ⟨observed.format, ingested.format⟩)) ≤
      maxNestingDepth + 1 := hlevels.trans (by decide)
  unfold storable
  rw [Spool.gapLine] at hdepth ⊢
  simp only [hcs, Option.any_some, hclean, Bool.not_false, Bool.and_true, Bool.and_eq_true,
    decide_eq_true_eq]
  exact ⟨hshort, hdepth⟩

/-- The alarm finds room. -/
lemma Spool.Ready.alarms (h : s.Ready) {c : Call} (hc : s.Spares c) : s.Alarms c := by
  cases c with
  | append r dedupKey now w =>
      intro hdup hfull hover
      by_cases halarmed : s.Alarmed
      · exact .inl halarmed
      have hspares := hc.resolve_left halarmed hdup
      rw [if_pos hfull] at hspares
      obtain ⟨hnow, hw, hlen⟩ := hspares
      exact .inr ⟨(h.room.resolve_left halarmed).1,
        storable_gapLine h.harmless h.seq_nonneg (by decide) _ hnow hlen, hw⟩
  | gap kind reason now w =>
      intro hfull
      exact h.room.resolve_right fun hroom => absurd (hfull.symm.trans hroom.1) (by decide)
  | records now w => trivial

/-- Behind such a line there is room for the alarm. -/
lemma full_push {r : Json.Fields} (hs : storable r = true) (hr : s.SparesLine r) :
    (s.push r).full reservedRecords = false := by
  have hroom : (s.records.length : ℤ) + 1 < s.opt.maxRecords ∧
      s.size + (lineOf r ++ [10]).length < s.opt.maxBytes - 512 := by
    have hline := hr hs
    by_cases hfull : s.full 0 = true
    · rwa [if_pos hfull] at hline
    · -- there is room for evidence, hence the whole reserve is there
      rw [if_neg hfull] at hline
      simp only [Spool.full, reservedRecords, reservedBytes, spareBytes, lt_irrefl, if_false,
        Bool.or_eq_true, decide_eq_true_eq, not_or, not_le, ge_iff_le] at hfull hline
      omega
  simp only [Spool.full, Spool.push, reservedRecords, Bool.or_eq_false_iff, decide_eq_false_iff_not,
    List.length_append, List.length_singleton, ge_iff_le, not_le, gt_iff_lt, Nat.ofNat_pos, if_true]
  rw [List.length_append, List.length_singleton] at hroom
  push_cast at hroom ⊢
  omega

/-- A gap in a spool that has dropped nothing leaves room for the alarm. -/
lemma room_gapLocked {kind reason : String} {now : Clock} {w : Write}
    (hidle : s.overflow = false ∧ s.dropped = 0) (hr : s.SparesLine (s.gapLine kind reason now))
    (hroom : s.full reservedRecords = false ∨ ∃ r, (gapLocked s kind reason now w).1 = .ok r) :
    (gapLocked s kind reason now w).2.full reservedRecords = false ∧
      (gapLocked s kind reason now w).2.overflow = false ∧
      (gapLocked s kind reason now w).2.dropped = 0 := by
  rcases gapLocked_cases s kind reason now w with
    ⟨hfull, h⟩ | ⟨hfull, ⟨-, e, -, h⟩ | ⟨-, n, -, h⟩ | ⟨hs, -, h⟩⟩ <;> rw [h] at hroom ⊢
  · rcases hroom with hno | ⟨r, hok⟩
    · exact absurd (hfull.symm.trans hno) (by decide)
    · cases hok
  · exact ⟨hfull, hidle⟩
  · exact ⟨hfull, hidle⟩
  · exact ⟨full_push hs hr, hidle⟩

lemma opt_call (s : Spool) (c : Call) : (s.call c).2.opt = s.opt := by
  have heffect := effect_call s c
  generalize (s.call c).1.stored = stored at heffect
  generalize (s.call c).2 = s' at heffect
  cases heffect with
  | quiet hlog | gapRefused _ hlog | gapTorn _ _ hlog | gap _ _ hlog | torn _ _ hlog
  | evidence _ _ _ hlog => exact hlog.opt

/-- Such a call leaves the spool ready. -/
lemma Spool.Ready.call (h : s.Ready) {c : Call} (hc : s.Spares c) : (s.call c).2.Ready := by
  refine ⟨(opt_call s c).symm ▸ h.harmless, seq_call h.seq_nonneg c, ?_⟩
  rcases h.room with halarmed | ⟨hfull, hover, hdropped⟩
  · exact .inl (halarmed.mono (records_subset_call s c))
  by_cases halarmed : s.Alarmed
  · exact .inl (halarmed.mono (records_subset_call s c))
  have hspares := hc.resolve_left halarmed
  cases c with
  | append r dedupKey now w =>
      by_cases hdup : dedupKey ≠ "" ∧ dedupKey ∈ s.seen
      · simp only [Spool.call, append, if_pos hdup]
        exact .inr ⟨hfull, hover, hdropped⟩
      have hline := hspares hdup
      cases hf : s.full 0 with
      | true =>
          -- the alarm is due, and finds room
          obtain ⟨hreserve, hs, rfl⟩ := (h.alarms hc hdup hf hover).resolve_left halarmed
          exact .inl (alarmed_append (r := r.val) hdup hf hover hreserve hs)
      | false =>
          -- the record is admitted, and its line leaves what the alarm needs
          rw [hf, if_neg Bool.false_ne_true] at hline
          simp only [Spool.call, append]
          rw [if_neg hdup, hf, if_neg Bool.false_ne_true]
          rcases writeLocked_cases s now.ingested w (canonicalFields_dedup dedupKey r.property) with
            ⟨-, e, -, h⟩ | ⟨-, n, -, h⟩ | ⟨hs, -, h⟩ <;> simp only [h]
          · exact .inr ⟨hfull, hover, hdropped⟩
          · exact .inr ⟨hfull, hover, hdropped⟩
          · have hpush := full_push hs hline
            by_cases hk : dedupKey ≠ ""
            · simp only [if_pos hk] at hpush ⊢
              exact .inr ⟨hpush, hover, hdropped⟩
            · simp only [if_neg hk] at hpush ⊢
              exact .inr ⟨hpush, hover, hdropped⟩
  | gap kind reason now w =>
      -- a gap may use the reserve, but leaves a record and 512 bytes of it
      have hroom := room_gapLocked (w := w) ⟨hover, hdropped⟩ hspares (.inl hfull)
      simp only [Spool.call, gap]
      generalize gapLocked s kind reason now w = g at hroom ⊢
      obtain ⟨e | stored, s'⟩ := g <;> exact .inr hroom
  | records now w =>
      simp only [Spool.call, Collector.records]
      rw [if_neg (by simp [hdropped])]
      exact .inr ⟨hfull, hover, hdropped⟩

/-- The gap that an open of the file records leaves of the reserve what the alarm needs, unless
there is an alarm in the file. -/
def Options.Spares (opt : Options) (file : Bytes) (now : Clock) : Prop :=
  (found opt file).Alarmed ∨
    (found opt file).SparesLine
      ((found opt file).gapLine "collector-restart" (foundReason opt file) now)

/-- A process that has just opened the file is ready. -/
lemma ready_openSpool {opt : Options} {file : Option Bytes} {now : Clock} {w : Write}
    (hopen : (openSpool opt file now w).2 = .up s) (hname : opt.Harmless)
    (hfile : ∀ bs ∈ file, opt.Spares bs now) : s.Ready := by
  have hopt : opt.Accepted := by
    by_contra hno
    rw [Options.Accepted, not_and_or, not_lt, not_lt] at hno
    simp only [openSpool, if_pos hno] at hopen
    cases hopen
  have hseq : 0 ≤ s.seq := counts_openSpool opt file now w s hopen
  cases file with
  | none =>
      -- a new spool has room for evidence
      have hlim : ¬(opt.maxBytes ≤ reservedBytes ∨ opt.maxRecords ≤ reservedRecords) :=
        not_or.2 ⟨not_le.2 hopt.1, not_le.2 hopt.2⟩
      simp only [openSpool, if_neg hlim] at hopen
      obtain rfl := Host.up.inj hopen
      refine ⟨hname, hseq, .inr ⟨full_eq_false ?_ ?_, rfl, rfl⟩⟩
      · have hrecords := hopt.2
        simp only [Spool.empty, List.length_nil, Nat.cast_zero]
        rw [reservedRecords] at hrecords ⊢
        omega
      · exact Int.sub_pos_of_lt hopt.1
  | some bs =>
      -- the restart gap is treated as any other gap
      obtain ⟨hfopt, hover, hdropped⟩ := parseExisting_idle (Lines.split 10 bs).1 (Spool.empty opt)
      have hsub := records_subset_call (found opt bs)
        (.gap "collector-restart" (foundReason opt bs) now w)
      have hsopt := opt_call (found opt bs) (.gap "collector-restart" (foundReason opt bs) now w)
      have hroom (hr : (found opt bs).SparesLine
          ((found opt bs).gapLine "collector-restart" (foundReason opt bs) now)) :=
        room_gapLocked (w := w) (s := found opt bs) ⟨hover, hdropped⟩ hr
      rw [openSpool_some hopt] at hopen
      simp only [Spool.call, gap] at hsub hsopt
      generalize gapLocked (found opt bs) "collector-restart" (foundReason opt bs) now w = g
        at hopen hsub hsopt hroom
      obtain ⟨e | stored, s'⟩ := g
      · cases hopen
      · obtain rfl := Host.up.inj hopen
        refine ⟨(hsopt.trans hfopt).symm ▸ hname, hseq, ?_⟩
        rcases hfile bs rfl with halarmed | hr
        · exact .inl (halarmed.mono hsub)
        · exact .inr (hroom hr (.inr ⟨stored, rfl⟩))

/-- Loss is told: in every run, of every process that opened the file, whose calls leave of the
reserve what the alarm needs. -/
theorem lossTold_of_spares {opt : Options} {file : Option Bytes} {now : Clock} {w : Write}
    {cs : List Call} (hopen : (openSpool opt file now w).2 = .up s) (hname : opt.Harmless)
    (hfile : ∀ bs ∈ file, opt.Spares bs now) (h : spool.Admits Spool.Spares s cs) :
    s.LossTold cs := by
  have hready := ready_openSpool hopen hname hfile
  have htold : s.Told := fun ho =>
    hready.room.resolve_right fun hroom => absurd (ho.symm.trans hroom.2.1) (by decide)
  -- the spool stays ready, so every call of the run finds room for the alarm
  have halarms : spool.Admits Spool.Alarms s cs :=
    (h.congr (fun _ _ ht hc => ht.call hc) (fun _ _ ht hc => iff_of_true hc (ht.alarms hc))
      hready).1 h
  exact lossTold_of_alarms htold halarms

/-! ### Loss that is not told -/

lemma full_of_full_reserved {n : ℤ} (h : s.full reservedRecords = true) (hn : n ≤ reservedRecords) :
    s.full n = true := by
  simp only [Spool.full, reservedRecords, reservedBytes, Bool.or_eq_true, decide_eq_true_eq,
    ge_iff_le] at h hn ⊢
  rcases h with h | h
  · exact .inl (by omega)
  · refine .inr ?_
    split_ifs at h ⊢ <;> omega

lemma SameLog.full {n : ℤ} (h : SameLog s s') : s'.full n = s.full n := by
  simp only [Spool.full, h.opt, h.records, h.size]

lemma SameLog.alarmed (h : SameLog s s') : s'.Alarmed ↔ s.Alarmed := by
  rw [alarmed_iff, alarmed_iff, h.records]

lemma gapLocked_of_full (h : s.full reservedRecords = true) (kind reason : String) (now : Clock)
    (w : Write) :
    gapLocked s kind reason now w = (.error .overflow, { s with dropped := s.dropped + 1 }) :=
  if_pos h

/-- Where even the reserve is used up, no call writes a record. -/
lemma sameLog_call_of_full (h : s.full reservedRecords = true) (c : Call) :
    SameLog s (s.call c).2 := by
  cases c with
  | append r dedupKey now w =>
      simp only [Spool.call, append]
      by_cases hdup : dedupKey ≠ "" ∧ dedupKey ∈ s.seen
      · rw [if_pos hdup]
        exact ⟨rfl, rfl, rfl, rfl, rfl⟩
      rw [if_neg hdup, full_of_full_reserved h (by decide), if_pos rfl]
      by_cases hover : s.overflow = true
      · rw [if_pos hover]
        exact ⟨rfl, rfl, rfl, rfl, rfl⟩
      · rw [if_neg hover, gapLocked_of_full]
        · exact ⟨rfl, rfl, rfl, rfl, rfl⟩
        · exact h
  | gap kind reason now w =>
      simp only [Spool.call, gap]
      rw [gapLocked_of_full h]
      exact ⟨rfl, rfl, rfl, rfl, rfl⟩
  | records now w =>
      simp only [Spool.call, records]
      by_cases hd : s.dropped > 0 ∧ s.summaryOK = false
      · rw [if_pos hd, gapLocked_of_full]
        · exact ⟨rfl, rfl, rfl, rfl, rfl⟩
        · exact h
      · rw [if_neg hd]
        exact ⟨rfl, rfl, rfl, rfl, rfl⟩

/-- A loss that finds even the reserve used up is not told, unless there is an alarm already. -/
theorem not_lossTold_of_full {cs : List Call} {c : Call}
    (hfull : (spool.final s cs).full reservedRecords = true) (hno : ¬(spool.final s cs).Alarmed)
    (hans : ((spool.final s cs).call c).1.answer = .refused .overflow) :
    ¬s.LossTold (cs ++ [c]) := by
  intro h
  have hlast := sameLog_call_of_full hfull c
  obtain ⟨rs, hlist, hloss⟩ := h
    ⟨((spool.final s cs).call c).1, by rw [Machine.answers_append]; simp [spool], hans⟩
    ⟨"", ""⟩ .done
  rw [Machine.final_append, Machine.final_cons, Machine.final_nil] at hlist
  generalize spool.final s cs = t at *
  have hrecords := sameLog_call_of_full (s := (t.call c).2) (hlast.full.trans hfull)
    (.records ⟨"", ""⟩ .done)
  have heq := (answer_records (t.call c).2 ⟨"", ""⟩ .done).symm.trans hlist
  refine hno (hlast.alarmed.1 (hrecords.alarmed.1 ?_))
  rw [Spool.Alarmed, Answer.listed.inj heq]
  exact hloss

/-! ### A sample -/

/-- A record, a gap in the reserve, and a record that finds the spool full. -/
def filled : List Call :=
  [.append sampleRecord "" sampleClock .done, .gap "audit-dropped" "" sampleClock .done,
    .append sampleRecord "" sampleClock .done]

/-- The spool after the first of them. -/
def filledOnce : Spool :=
  (Spool.empty tightOptions).push
    ((Spool.empty tightOptions).evidenceLine sampleRecord.val "" sampleClock)

/-- The spool after the second. -/
def filledTwice : Spool :=
  { filledOnce with gapSeq := filledOnce.gapSeq + 1 }.push
    (filledOnce.gapLine "audit-dropped" "" sampleClock)

lemma step_filled :
    (spool.step (Spool.empty tightOptions) (.append sampleRecord "" sampleClock .done)).2 =
        filledOnce ∧
      (spool.step filledOnce (.gap "audit-dropped" "" sampleClock .done)).2 = filledTwice ∧
      filledTwice.size < 200000 := by
  have hs : storable
      ((Spool.empty tightOptions).evidenceLine sampleRecord.val "" sampleClock) = true := by
    decide +kernel
  have hgap : storable (filledOnce.gapLine "audit-dropped" "" sampleClock) = true := by
    decide +kernel
  have hline := length_line_le hs
  have hgapLine := length_line_le hgap
  have hsize : filledOnce.size ≤ 65536 := (Int.zero_add _).trans_le hline
  refine ⟨congrArg Prod.snd (call_append (by decide) hs).1,
    congrArg Prod.snd (call_gap (full_eq_false (by decide) ?_) hgap), ?_⟩
  · exact hsize.trans_lt (by decide)
  · change filledOnce.size + _ < 200000
    omega

/-- The names of the sample are harmless. -/
lemma harmless_tightOptions : tightOptions.Harmless :=
  ⟨harmless_label (by decide), harmless_label (by decide)⟩

lemma formatted_sampleClock : sampleClock.Formatted :=
  ⟨⟨2026, 1, 1, 0, 0, 0, 0⟩, ⟨2026, 1, 1, 0, 0, 0, 0⟩, rfl⟩

/-- The second record is dropped, and its alarm is in the list. -/
theorem filled_lossTold :
    (spool.final (Spool.empty tightOptions) (filled.take 2)).full 0 = true ∧
      (Spool.empty tightOptions).LossTold filled := by
  obtain ⟨hfirst, hsecond, hsize⟩ := step_filled
  have hopen : (openSpool tightOptions none sampleClock .done).2 = .up (Spool.empty tightOptions) :=
    rfl
  have hfinal : spool.final (Spool.empty tightOptions) (filled.take 2) = filledTwice := by
    rw [filled, List.take_succ_cons, Machine.final_cons, hfirst, List.take_succ_cons,
      Machine.final_cons, hsecond, List.take_zero, Machine.final_nil]
  refine ⟨by rw [hfinal]; rfl, lossTold_of_spares hopen harmless_tightOptions nofun
    ⟨.inr fun _ => ?_, ?_⟩⟩
  · rw [if_neg (by decide)]
    intro _
    rw [if_neg (by decide)]
    decide +kernel
  · rw [hfirst]
    refine ⟨.inr fun _ => ?_, ?_⟩
    · rw [if_pos (show filledOnce.full 0 = true from rfl)]
      refine ⟨by decide, ?_⟩
      change filledTwice.size < 1048576 - 512
      omega
    · rw [hsecond]
      refine ⟨.inr fun _ => ?_, trivial⟩
      rw [if_pos (show filledTwice.full 0 = true from rfl)]
      exact ⟨formatted_sampleClock, rfl, by decide +kernel⟩

/-- The spool after a number of gaps. -/
def gapped : ℕ → Spool
  | 0 => Spool.empty tightOptions
  | n + 1 =>
      { gapped n with gapSeq := (gapped n).gapSeq + 1 }.push
        ((gapped n).gapLine "audit-dropped" "" sampleClock)

lemma storable_gapped {n : ℕ} (hn : n < 3) :
    storable ((gapped n).gapLine "audit-dropped" "" sampleClock) = true := by
  have hcases : n = 0 ∨ n = 1 ∨ n = 2 := by omega
  have hopt : (gapped n).opt.Harmless := by
    rcases hcases with rfl | rfl | rfl <;> exact harmless_tightOptions
  refine storable_gapLine hopt ?_ (by decide) "" formatted_sampleClock ?_
  · rcases hcases with rfl | rfl | rfl <;> decide
  · rcases hcases with rfl | rfl | rfl <;> decide +kernel

/-- Three gaps are written, and none of them tells of dropped records. -/
lemma gapped_spec {n : ℕ} (hn : n ≤ 3) :
    (gapped n).opt = tightOptions ∧ (gapped n).records.length = n ∧
      (gapped n).size ≤ 65536 * n ∧ ∀ r ∈ (gapped n).records, ¬LossGap (copy r) := by
  induction n with
  | zero => exact ⟨rfl, rfl, le_rfl, fun r hr => absurd hr List.not_mem_nil⟩
  | succ n ih =>
      obtain ⟨hopt, hlen, hsize, hno⟩ := ih (by omega)
      have hs := storable_gapped (n := n) (by omega)
      have hline := length_line_le hs
      refine ⟨hopt, ?_, ?_, fun r hr => ?_⟩
      · simp only [gapped, Spool.push, List.length_append, hlen, List.length_singleton]
      · simp only [gapped, Spool.push]
        push_cast
        omega
      · rcases List.mem_append.1 hr with hr | hr
        · exact hno r hr
        · obtain ⟨-, -, hkind, -⟩ := lookup_gapLine (gapped n) "audit-dropped" "" sampleClock
          rw [List.mem_singleton.1 hr, copy_eq (canonicalFields_gapLine _ _ _ _) hs, LossGap, hkind]
          simp

lemma step_gapped {n : ℕ} (hn : n < 3) :
    (spool.step (gapped n) (.gap "audit-dropped" "" sampleClock .done)).2 = gapped (n + 1) := by
  obtain ⟨hopt, hlen, hsize, -⟩ := gapped_spec hn.le
  refine congrArg Prod.snd (call_gap (full_eq_false ?_ ?_) (storable_gapped hn))
  · rw [hopt, hlen]
    simp only [tightOptions, reservedRecords]
    omega
  · rw [hopt]
    simp only [tightOptions, reservedBytes]
    omega

/-- Gaps that fill the reserve, and a record that is dropped. -/
def gapsFirst : List Call :=
  [.gap "audit-dropped" "" sampleClock .done, .gap "audit-dropped" "" sampleClock .done,
    .gap "audit-dropped" "" sampleClock .done] ++ [.append sampleRecord "" sampleClock .done]

/-- The dropped record is not told. -/
theorem gapsFirst_not_lossTold :
    (openSpool tightOptions none sampleClock .done).2 = .up (Spool.empty tightOptions) ∧
      ¬(Spool.empty tightOptions).LossTold gapsFirst := by
  obtain ⟨hopt, hlen, -, hno⟩ := gapped_spec (n := 3) le_rfl
  have hfinal : spool.final (Spool.empty tightOptions)
      [.gap "audit-dropped" "" sampleClock .done, .gap "audit-dropped" "" sampleClock .done,
        .gap "audit-dropped" "" sampleClock .done] = gapped 3 := by
    have hempty : Spool.empty tightOptions = gapped 0 := rfl
    rw [hempty, Machine.final_cons, step_gapped (by decide), Machine.final_cons,
      step_gapped (by decide), Machine.final_cons, step_gapped (by decide), Machine.final_nil]
  have hfull : (gapped 3).full reservedRecords = true := by
    have hlimit : ((gapped 3).records.length : ℤ) ≥
        (gapped 3).opt.maxRecords - reservedRecords + reservedRecords := by
      rw [hopt, hlen]
      decide
    rw [Spool.full, decide_eq_true hlimit, Bool.true_or]
  have hover : (gapped 3).overflow = false := rfl
  refine ⟨rfl, not_lossTold_of_full (hfinal ▸ hfull) (hfinal ▸ fun halarmed => ?_) ?_⟩
  · obtain ⟨r, hr, hloss⟩ := alarmed_iff.1 halarmed
    exact hno r hr hloss
  · rw [hfinal]
    simp only [Spool.call, append]
    rw [if_neg (by simp), full_of_full_reserved hfull (by decide), if_pos rfl, hover,
      gapLocked_of_full]
    · rfl
    · exact hfull

end

end Collector

end Afterlock
