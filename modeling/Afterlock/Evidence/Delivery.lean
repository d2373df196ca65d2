import Afterlock.Evidence.Facts

/-!
# The delivery of evidence

A collector may deliver a record twice, late or not at all.  The loop over the lines keeps the first
record with each key and accounts for all lines (`accounts_intake`); where the records that share a
key agree, in whatever order the lines come, the projection is the same (`project_perm`).
-/

namespace Afterlock

namespace Evidence

open Json

/-! ### What a line is -/

namespace Line

def record? : Line → Option Envelope
  | record e => some e
  | _ => none

def problems? : Line → Option (List String)
  | rejected problems => some problems
  | _ => none

def isBlank : Line → Bool
  | blank => true
  | _ => false

@[simp] lemma record?_blank : blank.record? = none := rfl

@[simp] lemma record?_rejected (ps : List String) : (rejected ps).record? = none := rfl

@[simp] lemma record?_record (e : Envelope) : (record e).record? = some e := rfl

@[simp] lemma problems?_blank : blank.problems? = none := rfl

@[simp] lemma problems?_rejected (ps : List String) : (rejected ps).problems? = some ps := rfl

@[simp] lemma problems?_record (e : Envelope) : (record e).problems? = none := rfl

@[simp] lemma isBlank_blank : blank.isBlank = true := rfl

@[simp] lemma isBlank_rejected (ps : List String) : (rejected ps).isBlank = false := rfl

@[simp] lemma isBlank_record (e : Envelope) : (record e).isBlank = false := rfl

end Line

section

variable (host : Host) (clusterId : String)

/-- The records of the lines. -/
def recordsOf (lines : List String) : List Envelope :=
  lines.filterMap fun l => (readLine host clusterId l).record?

def blanksOf (lines : List String) : List String :=
  lines.filter fun l => (readLine host clusterId l).isBlank

/-- The rejections of numbered lines. -/
def rejectionsOf (lines : List (String × ℕ)) : List Rejection :=
  lines.filterMap fun l => (readLine host clusterId l.1).problems?.map fun ps => ⟨l.2, ps⟩

end

/-! ### One line -/

namespace Intake

/-- The rest of a delivery only adds to what was kept and noted. -/
structure Extends (s t : Intake) : Prop where
  kept : ∀ e ∈ s.byKey, e ∈ t.byKey
  rejected : s.diag.rejected <+: t.diag.rejected
  conflicts : s.diag.conflicts <+: t.diag.conflicts

lemma Extends.refl (s : Intake) : s.Extends s :=
  ⟨fun _ h => h, List.prefix_refl _, List.prefix_refl _⟩

lemma Extends.trans {s t u : Intake} (h : s.Extends t) (h' : t.Extends u) : s.Extends u :=
  ⟨fun e he => h'.kept e (h.kept e he), h.rejected.trans h'.rejected,
    h.conflicts.trans h'.conflicts⟩

/-- What becomes of a record: it is kept, or one with its key was, of the same content or not. -/
lemma accept_cases (s : Intake) (e : Envelope) :
    (s.byKey.get? e.key = none ∧
        s.accept e = ⟨s.byKey.put e, { s.diag with accepted := s.diag.accepted + 1 }⟩) ∨
      ∃ prev ∈ s.byKey, prev.key = e.key ∧
        ((prev.contentKey = e.contentKey ∧
            s.accept e = { s with diag := { s.diag with duplicates := s.diag.duplicates + 1 } }) ∨
          (prev.contentKey ≠ e.contentKey ∧ ∃ c, s.accept e =
            { s with diag := { s.diag with conflicts := s.diag.conflicts ++ [c] } })) := by
  unfold accept
  cases hget : s.byKey.get? e.key with
  | none => exact .inl ⟨rfl, rfl⟩
  | some prev =>
      obtain ⟨hprev, hkey⟩ := Table.get?_eq_some_iff.1 hget
      refine .inr ⟨prev, hprev, hkey, ?_⟩
      dsimp only
      split_ifs with hc
      · exact .inl ⟨hc, rfl⟩
      · exact .inr ⟨hc, _, rfl⟩

lemma extends_accept (s : Intake) (e : Envelope) : s.Extends (s.accept e) := by
  obtain ⟨hnone, h⟩ | ⟨_, -, -, ⟨-, h⟩ | ⟨-, c, h⟩⟩ := s.accept_cases e
  · rw [h]
    refine ⟨fun x hx => Table.mem_put.2 (.inr ⟨hx, ?_⟩), List.prefix_refl _, List.prefix_refl _⟩
    exact Table.get?_eq_none_iff.1 hnone x hx
  · rw [h]
    exact ⟨fun _ h => h, List.prefix_refl _, List.prefix_refl _⟩
  · rw [h]
    exact ⟨fun _ h => h, List.prefix_refl _, List.prefix_append _ _⟩

lemma extends_add (s : Intake) (l : Line) (n : ℕ) : s.Extends (s.add l n) := by
  cases l with
  | blank => exact .refl s
  | rejected ps => exact ⟨fun _ h => h, List.prefix_append _ _, List.prefix_refl _⟩
  | record e => exact s.extends_accept e

/-- The turn of the loop for a numbered line. -/
def turn (host : Host) (clusterId : String) (s : Intake) (l : String × ℕ) : Intake :=
  s.add (readLine host clusterId l.1) l.2

lemma extends_foldl (host : Host) (clusterId : String) (ls : List (String × ℕ)) (s : Intake) :
    s.Extends (ls.foldl (turn host clusterId) s) := by
  induction ls generalizing s with
  | nil => exact .refl s
  | cons l ls ih => exact (s.extends_add _ _).trans (ih _)

end Intake

/-! ### All lines -/

/-- The records of a part of a delivery, and the first with a key among them. -/
def firstWith (es : List Envelope) (key : String × ℕ) : Option Envelope :=
  es.find? fun e => e.key = key

/-- Records that share a key have the same content. -/
def Consistent (es : List Envelope) : Prop :=
  ∀ e ∈ es, ∀ e' ∈ es, e.key = e'.key → e.contentKey = e'.contentKey

/-- What has been made of the records so far. -/
structure Sorted (es : List Envelope) (s : Intake) : Prop where
  kept : ∀ e, e ∈ s.byKey ↔ firstWith es e.key = some e
  accepted : s.diag.accepted = s.byKey.rows.length
  count : s.diag.accepted + s.diag.duplicates + s.diag.conflicts.length = es.length
  conflicts : s.diag.conflicts = [] ↔ Consistent es

section

variable {es : List Envelope} {s : Intake} {e : Envelope}

lemma firstWith_key {k : String × ℕ} {x : Envelope} (h : firstWith es k = some x) : x.key = k := by
  simpa using List.find?_some h

lemma firstWith_append {es' : List Envelope} {k : String × ℕ} :
    firstWith (es ++ es') k = (firstWith es k).or (firstWith es' k) := List.find?_append

lemma firstWith_singleton {k : String × ℕ} :
    firstWith [e] k = if e.key = k then some e else none := by
  simp [firstWith, List.find?_cons]
  split <;> simp_all

/-- The row under a key is the first record with it. -/
lemma Sorted.get? (h : Sorted es s) (k : String × ℕ) : s.byKey.get? k = firstWith es k := by
  refine Option.ext fun x => ?_
  rw [Table.get?_eq_some_iff]
  constructor
  · rintro ⟨hx, rfl⟩
    exact (h.kept x).1 hx
  · intro hx
    have hk := firstWith_key hx
    exact ⟨(h.kept x).2 (hk ▸ hx), hk⟩

/-- A record with a new key is kept. -/
lemma Sorted.put (h : Sorted es s) (hnone : s.byKey.get? e.key = none) :
    Sorted (es ++ [e])
      ⟨s.byKey.put e, { s.diag with accepted := s.diag.accepted + 1 }⟩ := by
  have hfresh : firstWith es e.key = none := (h.get? e.key).symm.trans hnone
  have hother : ∀ x ∈ es, x.key ≠ e.key := by simpa [firstWith] using hfresh
  refine ⟨fun x => ?_, ?_, ?_, ?_⟩
  · -- the new record is the first with its key
    rw [Table.mem_put, h.kept, firstWith_append, firstWith_singleton]
    constructor
    · rintro (rfl | ⟨hx, hne⟩)
      · simp [hfresh]
      · simp [hx]
    · intro hx
      by_cases hk : e.key = x.key
      · rw [← hk, hfresh, Option.none_or, if_pos rfl, Option.some_inj] at hx
        exact .inl hx.symm
      · rw [if_neg hk, Option.or_none] at hx
        exact .inr ⟨hx, fun hk' => hk hk'.symm⟩
  · rw [show s.byKey.put e = ⟨e :: (s.byKey.erase e.key).rows, _⟩ from rfl]
    have herase : s.byKey.erase e.key = s.byKey := by
      refine Table.ext_rows (List.filter_eq_self.2 fun x hx => ?_)
      have hne := Table.get?_eq_none_iff.1 hnone x hx
      simpa using hne
    simp only [herase, List.length_cons, h.accepted]
  · have hcount := h.count
    simp only [List.length_append, List.length_singleton]
    omega
  · -- no record before it has its key, so that it conflicts with none
    refine h.conflicts.trans ⟨fun hc x hx y hy hxy => ?_, fun hc x hx y hy => ?_⟩
    · rcases List.mem_append.1 hx with hx | hx <;> rcases List.mem_append.1 hy with hy | hy
      · exact hc x hx y hy hxy
      · rw [List.mem_singleton.1 hy] at hxy
        exact absurd hxy (hother x hx)
      · rw [List.mem_singleton.1 hx] at hxy
        exact absurd hxy.symm (hother y hy)
      · rw [List.mem_singleton.1 hx, List.mem_singleton.1 hy]
    · exact hc x (List.mem_append_left _ hx) y (List.mem_append_left _ hy)

/-- A record whose key was seen changes nothing that was kept. -/
lemma Sorted.kept_append (h : Sorted es s) {prev : Envelope} (hprev : prev ∈ s.byKey)
    (hkey : prev.key = e.key) (x : Envelope) :
    x ∈ s.byKey ↔ firstWith (es ++ [e]) x.key = some x := by
  rw [h.kept, firstWith_append, firstWith_singleton]
  by_cases hk : e.key = x.key
  · have hfirst : firstWith es x.key = some prev := by
      rw [← hk, ← hkey]
      exact (h.kept prev).1 hprev
    simp [hfirst]
  · rw [if_neg hk, Option.or_none]

/-- What is said of the records is kept by each further record. -/
lemma Sorted.accept (h : Sorted es s) (e : Envelope) : Sorted (es ++ [e]) (s.accept e) := by
  have hcount := h.count
  obtain ⟨hnone, heq⟩ | ⟨prev, hprev, hkey, hcases⟩ := s.accept_cases e
  · rw [heq]
    exact h.put hnone
  · have hmem : prev ∈ es := List.mem_of_find?_eq_some ((h.kept prev).1 hprev)
    obtain ⟨hsame, heq⟩ | ⟨hne, c, heq⟩ := hcases
    · rw [heq]
      refine ⟨h.kept_append hprev hkey, h.accepted, ?_, ?_⟩
      · simp only [List.length_append, List.length_singleton]
        omega
      · refine h.conflicts.trans ⟨fun hc x hx y hy hxy => ?_, fun hc x hx y hy => ?_⟩
        · -- the new record stands for the one that was kept
          have hold : ∀ z ∈ es ++ [e], ∃ w ∈ es, w.key = z.key ∧ w.contentKey = z.contentKey := by
            intro z hz
            rcases List.mem_append.1 hz with hz | hz
            · exact ⟨z, hz, rfl, rfl⟩
            · rw [List.mem_singleton.1 hz]
              exact ⟨prev, hmem, hkey, hsame⟩
          obtain ⟨x', hx', hxk, hxc⟩ := hold x hx
          obtain ⟨y', hy', hyk, hyc⟩ := hold y hy
          rw [← hxc, ← hyc]
          exact hc x' hx' y' hy' (hxk.trans (hxy.trans hyk.symm))
        · exact hc x (List.mem_append_left _ hx) y (List.mem_append_left _ hy)
    · rw [heq]
      refine ⟨h.kept_append hprev hkey, h.accepted, ?_, ?_⟩
      · simp only [List.length_append, List.length_singleton]
        omega
      · refine iff_of_false (by simp) fun hc => hne ?_
        exact hc prev (List.mem_append_left _ hmem) e
          (List.mem_append_right _ (List.mem_singleton_self e)) hkey

end

/-! ### All lines -/

lemma recordsOf_append {host : Host} {clusterId : String} {lines lines' : List String} :
    recordsOf host clusterId (lines ++ lines') =
      recordsOf host clusterId lines ++ recordsOf host clusterId lines' := List.filterMap_append

lemma rejectionsOf_append {host : Host} {clusterId : String} {ls ls' : List (String × ℕ)} :
    rejectionsOf host clusterId (ls ++ ls') =
      rejectionsOf host clusterId ls ++ rejectionsOf host clusterId ls' := List.filterMap_append

lemma accounts_foldl (host : Host) (clusterId : String) (ls : List (String × ℕ)) :
    Sorted (recordsOf host clusterId (ls.map Prod.fst))
        (ls.foldl (Intake.turn host clusterId) Intake.empty) ∧
      (ls.foldl (Intake.turn host clusterId) Intake.empty).diag.rejected =
        rejectionsOf host clusterId ls := by
  induction ls using List.reverseRecOn with
  | nil =>
      refine ⟨⟨fun e => ?_, rfl, rfl, ?_⟩, rfl⟩
      · simp [Intake.empty, recordsOf, firstWith]
      · simp [Intake.empty, recordsOf, Consistent]
  | append_singleton ls l ih =>
      obtain ⟨hs, hr⟩ := ih
      rw [List.foldl_append, List.map_append, recordsOf_append, rejectionsOf_append]
      simp only [List.foldl_cons, List.foldl_nil, List.map_cons, List.map_nil]
      generalize ls.foldl (Intake.turn host clusterId) Intake.empty = s at hs hr ⊢
      rw [Intake.turn]
      cases hl : readLine host clusterId l.1 with
      | blank =>
          have hrec : recordsOf host clusterId [l.1] = [] := by simp [recordsOf, hl]
          have hrej : rejectionsOf host clusterId [l] = [] := by
            simp [rejectionsOf, hl]
          rw [hrec, hrej, List.append_nil, List.append_nil]
          exact ⟨hs, hr⟩
      | rejected ps =>
          have hrec : recordsOf host clusterId [l.1] = [] := by simp [recordsOf, hl]
          have hrej : rejectionsOf host clusterId [l] = [⟨l.2, ps⟩] := by
            simp [rejectionsOf, hl]
          rw [hrec, hrej, List.append_nil, ← hr]
          exact ⟨⟨hs.kept, hs.accepted, hs.count, hs.conflicts⟩, rfl⟩
      | record e =>
          have hrec : recordsOf host clusterId [l.1] = [e] := by simp [recordsOf, hl]
          have hrej : rejectionsOf host clusterId [l] = [] := by
            simp [rejectionsOf, hl]
          rw [hrec, hrej, List.append_nil, ← hr]
          refine ⟨hs.accept e, ?_⟩
          obtain ⟨-, h⟩ | ⟨_, -, -, ⟨-, h⟩ | ⟨-, c, h⟩⟩ := s.accept_cases e <;>
            rw [Intake.add, h]

/-- What the loop makes of the lines of a bundle. -/
lemma sorted_intake (host : Host) (clusterId : String) (lines : List String) :
    Sorted (recordsOf host clusterId lines) (intake host clusterId lines) ∧
      (intake host clusterId lines).diag.rejected =
        rejectionsOf host clusterId (lines.zipIdx 1) := by
  have h := accounts_foldl host clusterId (lines.zipIdx 1)
  rw [List.zipIdx_map_fst] at h
  exact h

lemma length_lines (host : Host) (clusterId : String) (ls : List (String × ℕ)) :
    (recordsOf host clusterId (ls.map Prod.fst)).length + (rejectionsOf host clusterId ls).length +
      (blanksOf host clusterId (ls.map Prod.fst)).length = ls.length := by
  induction ls with
  | nil => rfl
  | cons l ls ih =>
      simp only [recordsOf, rejectionsOf, blanksOf, List.filterMap_map, Function.comp_def] at ih ⊢
      rw [List.map_cons, List.filterMap_cons, List.filterMap_cons, List.filter_cons]
      cases hl : readLine host clusterId l.1 <;>
        simp <;> omega

section

variable {host : Host} {clusterId : String} {lines : List String}

lemma mem_events_iff {e : Envelope} : e ∈ (intake host clusterId lines).events ↔
    firstWith (recordsOf host clusterId lines) e.key = some e :=
  Text.mem_sortedBy.trans ((sorted_intake host clusterId lines).1.kept e)

lemma pairwise_events : (intake host clusterId lines).events.Pairwise fun e e' =>
    toLex e.key < toLex e'.key := by
  refine Text.pairwise_sortedBy ?_
  have hkeys := (intake host clusterId lines).byKey.nodup
  simpa [List.map_map, Function.comp_def] using hkeys.map toLex.injective

lemma accepted_intake : (intake host clusterId lines).diag.accepted =
    (intake host clusterId lines).events.length := by
  rw [(sorted_intake host clusterId lines).1.accepted]
  exact (Text.sortedBy_perm _ _).length_eq.symm

lemma conflicts_eq_nil_iff : (intake host clusterId lines).diag.conflicts = [] ↔
    Consistent (recordsOf host clusterId lines) :=
  (sorted_intake host clusterId lines).1.conflicts

end

/-- The loop accounts for every line: it is blank, rejected with its problems, the first record with
its key, which is kept, or a later one.  There is a conflict exactly if two records with one key
differ. -/
theorem accounts_intake (host : Host) (clusterId : String) (lines : List String) :
    let s := intake host clusterId lines
    (∀ e, e ∈ s.events ↔ firstWith (recordsOf host clusterId lines) e.key = some e) ∧
      s.events.Pairwise (fun e e' => toLex e.key < toLex e'.key) ∧
      s.diag.rejected = rejectionsOf host clusterId (lines.zipIdx 1) ∧
      s.diag.accepted = s.events.length ∧
      s.diag.accepted + s.diag.duplicates + s.diag.conflicts.length + s.diag.rejected.length +
        (blanksOf host clusterId lines).length = lines.length ∧
      (s.diag.conflicts = [] ↔ Consistent (recordsOf host clusterId lines)) := by
  obtain ⟨hs, hr⟩ := sorted_intake host clusterId lines
  refine ⟨fun e => mem_events_iff, pairwise_events, hr, accepted_intake, ?_, conflicts_eq_nil_iff⟩
  have hlen := length_lines host clusterId (lines.zipIdx 1)
  rw [List.zipIdx_map_fst, List.length_zipIdx] at hlen
  rw [hs.count, hr, hlen]

/-! ### What is read of a record -/

/-- What is read of a record: all of it but the time of its delivery. -/
structure Reading where
  sourceId : String
  sourceSequence : ℕ
  eventType : String
  observedAt : ℤ
  field : String → Option Json

def Envelope.reading (e : Envelope) : Reading where
  sourceId := e.sourceId
  sourceSequence := e.sourceSequence
  eventType := e.eventType
  observedAt := e.observedAt
  field k := if k = "ingested_at" then none else e.body.lookup k

section

variable {e e' : Envelope} (h : e.reading = e'.reading)
include h

lemma lookup_of_reading {k : String} (hk : k ≠ "ingested_at") :
    e.body.lookup k = e'.body.lookup k := by
  have hfield : e.reading.field k = e'.reading.field k := by rw [h]
  simpa [Envelope.reading, hk] using hfield

lemma get_of_reading {k : String} (hk : k ≠ "ingested_at") :
    get e.body k = get e'.body k := by
  rw [Json.get, Json.get, lookup_of_reading h hk]

lemma key_of_reading : e.key = e'.key := by
  have hid := congrArg Reading.sourceId h
  have hseq := congrArg Reading.sourceSequence h
  exact Prod.ext hid hseq

lemma ref_of_reading : e.ref = e'.ref := by
  have hkey := key_of_reading h
  simp only [Envelope.key, Prod.mk.injEq] at hkey
  rw [Envelope.ref, Envelope.ref, hkey.1, hkey.2]

lemma attributed_of_reading {users pods : List String} :
    attributed users pods e = attributed users pods e' := by
  rw [attributed, attributed, get_of_reading h (by decide), get_of_reading h (by decide)]

lemma gains_of_reading {ctx : Context} : gains ctx e = gains ctx e' := by
  rw [gains, gains, get_of_reading h (k := "action") (by decide),
    get_of_reading h (k := "target") (by decide)]

lemma establish_of_reading {ctx : Context} {pods : List String} :
    establish ctx e pods = establish ctx e' pods := by
  have htype := congrArg Reading.eventType h
  rw [establish, establish, attributed_of_reading h, gains_of_reading h]
  rw [show e.eventType = e'.eventType from htype]

lemma effect_of_reading {ctx : Context} {pods : List String} :
    effect ctx pods e = effect ctx pods e' := by
  have htype : e.eventType = e'.eventType := congrArg Reading.eventType h
  have hsource : e.sourceId = e'.sourceId := congrArg Reading.sourceId h
  have htime : e.observedAt = e'.observedAt := congrArg Reading.observedAt h
  have hgap : gapId e = gapId e' := by
    rw [gapId, gapId, getD, getD, lookup_of_reading h (by decide), ref_of_reading h]
  have hreason : gapReason e = gapReason e' := by
    rw [gapReason, gapReason, getD, getD, lookup_of_reading h (by decide)]
  have hrequest : requestEffect ctx pods e = requestEffect ctx pods e' := by
    rw [requestEffect, requestEffect, attributed_of_reading h, ref_of_reading h,
      get_of_reading h (k := "actor") (by decide), get_of_reading h (k := "action") (by decide),
      get_of_reading h (k := "target") (by decide)]
  simp only [effect, observationGap, htype, hsource, htime, hgap, hreason, hrequest,
    ref_of_reading h]

end

/-! ### Lists of records that read alike -/

section

variable {α β γ : Type} {view : α → β} {xs ys : List α}

/-- A function of what is read of the entries, on lists that read alike. -/
lemma flatMap_congr_of_map_eq {f : α → List γ} (h : xs.map view = ys.map view)
    (hf : ∀ x y, view x = view y → f x = f y) : xs.flatMap f = ys.flatMap f := by
  induction xs generalizing ys with
  | nil =>
      rw [List.map_nil, eq_comm, List.map_eq_nil_iff] at h
      rw [h]
  | cons x xs ih =>
      obtain ⟨y, ys', rfl, hy, hys⟩ := List.map_eq_cons_iff.1 h.symm
      rw [List.flatMap_cons, List.flatMap_cons, hf x y hy.symm, ih hys.symm]

lemma mapM_congr_of_map_eq {f : α → Option γ} (h : xs.map view = ys.map view)
    (hf : ∀ x y, view x = view y → f x = f y) : xs.mapM f = ys.mapM f := by
  induction xs generalizing ys with
  | nil =>
      rw [List.map_nil, eq_comm, List.map_eq_nil_iff] at h
      rw [h]
  | cons x xs ih =>
      obtain ⟨y, ys', rfl, hy, hys⟩ := List.map_eq_cons_iff.1 h.symm
      rw [List.mapM_cons, List.mapM_cons, hf x y hy.symm, ih hys.symm]

end

/-! ### The same lines in another order -/

lemma envelope_of_readLine {host : Host} {clusterId line : String} {e : Envelope}
    (h : readLine host clusterId line = .record e) : e = envelope host e.body := by
  unfold readLine at h
  split_ifs at h
  cases hraw : host.loads line with
  | none =>
      rw [hraw] at h
      cases h
  | some raw =>
      rw [hraw] at h
      cases hv : validateEnvelope host clusterId raw with
      | error ps =>
          simp only [hv] at h
          cases h
      | ok e' =>
          simp only [hv, Line.record.injEq] at h
          subst h
          cases raw with
          | obj m =>
              simp only [validateEnvelope] at hv
              split_ifs at hv
              cases hv
              rfl
          | _ => cases hv

lemma lookup_content {m : Fields} {k : String} (hk : k ≠ "ingested_at") :
    (content m).lookup k = m.lookup k := by
  induction m with
  | nil => rfl
  | cons x m ih =>
      obtain ⟨k', v⟩ := x
      rw [content] at ih ⊢
      by_cases hk' : k' = "ingested_at"
      · rw [List.filter_cons_of_neg (by simpa using hk'), ih, List.lookup_cons]
        rw [show (k == k') = false by simpa [hk'] using hk]
      · rw [List.filter_cons_of_pos (by simpa using hk'), List.lookup_cons, List.lookup_cons, ih]

lemma lookup_content_self {m : Fields} : (content m).lookup "ingested_at" = none := by
  rw [List.lookup_eq_none_iff]
  intro x hx
  have hne : x.1 ≠ "ingested_at" := by simpa using (List.mem_filter.1 hx).2
  simpa using hne.symm

/-- Records that read alike have the same content. -/
lemma contentKey_of_reading {host : Host} {m m' : Fields}
    (h : (envelope host m).reading = (envelope host m').reading) :
    (envelope host m).contentKey = (envelope host m').contentKey := by
  refine congrArg String.ofList (chars_obj_congr fun k => ?_)
  by_cases hk : k = "ingested_at"
  · rw [hk, lookup_content_self, lookup_content_self]
  · rw [lookup_content hk, lookup_content hk]
    exact lookup_of_reading h hk

/-- The records read alike where they share a key. -/
def Agree (es : List Envelope) : Prop :=
  ∀ e ∈ es, ∀ e' ∈ es, e.key = e'.key → e.reading = e'.reading

section

variable {host : Host} {clusterId : String} {lines lines' : List String}

lemma mem_recordsOf {e : Envelope} : e ∈ recordsOf host clusterId lines ↔
    ∃ l ∈ lines, readLine host clusterId l = .record e := by
  rw [recordsOf, List.mem_filterMap]
  refine exists_congr fun l => and_congr_right fun _ => ?_
  cases readLine host clusterId l <;> simp

lemma consistent_of_agree (h : Agree (recordsOf host clusterId lines)) :
    Consistent (recordsOf host clusterId lines) := by
  intro e he e' he' hkey
  obtain ⟨_, -, hl⟩ := mem_recordsOf.1 he
  obtain ⟨_, -, hl'⟩ := mem_recordsOf.1 he'
  have hread := h e he e' he' hkey
  rw [envelope_of_readLine hl, envelope_of_readLine hl'] at hread ⊢
  exact contentKey_of_reading hread

/-- The records that are kept read alike, in whatever order the lines come. -/
lemma reading_events (hperm : lines'.Perm lines) (hagree : Agree (recordsOf host clusterId lines)) :
    (intake host clusterId lines').events.map Envelope.reading =
      (intake host clusterId lines).events.map Envelope.reading := by
  have hrecords : ∀ e, e ∈ recordsOf host clusterId lines' ↔ e ∈ recordsOf host clusterId lines :=
    fun e => (hperm.filterMap _).mem_iff
  -- a record that is kept of one delivery reads as the one that is kept of the other
  have hsub : ∀ {ls ls' : List String},
      (∀ e ∈ recordsOf host clusterId ls, e ∈ recordsOf host clusterId ls') →
      Agree (recordsOf host clusterId ls') → ∀ r,
        r ∈ (intake host clusterId ls).events.map Envelope.reading →
        r ∈ (intake host clusterId ls').events.map Envelope.reading := by
    intro ls ls' hsub hagree r hr
    obtain ⟨e, he, rfl⟩ := List.mem_map.1 hr
    have hfirst := mem_events_iff.1 he
    have hmem := hsub e (List.mem_of_find?_eq_some hfirst)
    cases hkept : firstWith (recordsOf host clusterId ls') e.key with
    | none => exact absurd (List.find?_eq_none.1 hkept e hmem) (by simp)
    | some e' =>
        have hkey := firstWith_key hkept
        refine List.mem_map.2 ⟨e', ?_, ?_⟩
        · exact mem_events_iff.2 (by rw [hkey, hkept])
        · exact hagree e' (List.mem_of_find?_eq_some hkept) e hmem hkey
  have hagree' : Agree (recordsOf host clusterId lines') := by
    intro e he e' he'
    exact hagree e ((hrecords e).1 he) e' ((hrecords e').1 he')
  have hstrict : ∀ ls : List String,
      ((intake host clusterId ls).events.map Envelope.reading).Pairwise fun r r' =>
        toLex (r.sourceId, r.sourceSequence) < toLex (r'.sourceId, r'.sourceSequence) :=
    fun ls => List.pairwise_map.2 pairwise_events
  have hnodup : ∀ ls : List String,
      ((intake host clusterId ls).events.map Envelope.reading).Nodup :=
    fun ls => (hstrict ls).imp fun hlt => by rintro rfl; exact lt_irrefl _ hlt
  refine ((List.perm_ext_iff_of_nodup (hnodup lines') (hnodup lines)).2 fun r => ?_).eq_of_pairwise
    (fun r r' _ _ h h' => absurd (h.trans h') (lt_irrefl _)) (hstrict lines') (hstrict lines)
  exact ⟨hsub (fun e => (hrecords e).1) hagree r, hsub (fun e => (hrecords e).2) hagree' r⟩

lemma problems_rejectionsOf (ls : List (String × ℕ)) :
    (rejectionsOf host clusterId ls).map Rejection.problems =
      (ls.map Prod.fst).filterMap fun l => (readLine host clusterId l).problems? := by
  rw [rejectionsOf, List.map_filterMap, List.filterMap_map]
  congr 1
  funext l
  simp [Function.comp_def]

end

/-- The bundle with other lines. -/
def ReplayBundle.withLines (b : ReplayBundle) (lines : List String)
    (few : lines.length ≤ maxEvents) : ReplayBundle :=
  { b with eventLines := lines, few := few }

/-- The projection with other rejections. -/
def Projection.withRejections (p : Projection) (rejected : List Rejection) (gaps : List Gap) :
    Projection :=
  { p with gaps := gaps, diag := { p.diag with rejected := rejected } }

section

variable {host : Host} {clusterId : String} {lines lines' : List String}

/-- The loops over the events do the same for records that read alike. -/
lemma loops_congr {ctx : Context} {es es' : List Envelope}
    (h : es'.map Envelope.reading = es.map Envelope.reading) :
    attribution ctx es' = attribution ctx es ∧
      ∀ pods s, es'.foldlM (collect ctx pods) s = es.foldlM (collect ctx pods) s := by
  refine ⟨?_, fun pods s => ?_⟩
  · have hgiv : givable ctx es' = givable ctx es :=
      flatMap_congr_of_map_eq h fun _ _ hr => by rw [gains_of_reading hr]
    rw [attribution, attribution, hgiv]
    refine Gather.gather_congr (fun x y hr => ?_) h _
    funext pods
    exact establish_of_reading hr
  · rw [foldlM_collect, foldlM_collect,
      mapM_congr_of_map_eq h fun _ _ hr => effect_of_reading hr]

/-- The counts of a delivery do not depend on the order of the lines. -/
lemma diag_perm (hperm : lines'.Perm lines) (hagree : Agree (recordsOf host clusterId lines)) :
    (intake host clusterId lines').diag.accepted = (intake host clusterId lines).diag.accepted ∧
      (intake host clusterId lines').diag.duplicates =
        (intake host clusterId lines).diag.duplicates ∧
      (intake host clusterId lines').diag.conflicts = [] ∧
      (intake host clusterId lines).diag.conflicts = [] := by
  have hacc := @accepted_intake host clusterId lines
  have hacc' := @accepted_intake host clusterId lines'
  have hrecords : (recordsOf host clusterId lines').Perm (recordsOf host clusterId lines) :=
    hperm.filterMap _
  have hnone := conflicts_eq_nil_iff.2 (consistent_of_agree hagree)
  have hnone' := conflicts_eq_nil_iff.2 (consistent_of_agree fun e he e' he' =>
    hagree e (hrecords.mem_iff.1 he) e' (hrecords.mem_iff.1 he'))
  have hlen : (intake host clusterId lines').events.length =
      (intake host clusterId lines).events.length := by
    simpa using congrArg List.length (reading_events hperm hagree)
  have hcount := (sorted_intake host clusterId lines).1.count
  have hcount' := (sorted_intake host clusterId lines').1.count
  rw [hnone, hacc] at hcount
  rw [hnone', hacc', hrecords.length_eq] at hcount'
  simp only [List.length_nil] at hcount hcount'
  exact ⟨hacc'.trans (hlen.trans hacc.symm), by omega, hnone', hnone⟩

end

/-- Where the records that share a key agree, the lines of a bundle can come in any order: the
projection is the same but for the line numbers of rejected lines, which their gaps show. -/
theorem project_perm {host : Host} {b : ReplayBundle} {p : Projection} {lines : List String}
    (few : lines.length ≤ maxEvents) (hperm : lines.Perm b.eventLines)
    (hagree : Agree (recordsOf host (textAt b.manifest "cluster_id") b.eventLines))
    (h : gather host b = some p) :
    ∃ rejected gaps,
      gather host (b.withLines lines few) = some (p.withRejections rejected gaps) ∧
      (rejected.map Rejection.problems).Perm (p.diag.rejected.map Rejection.problems) ∧
      gaps.filter (fun g => g.kind ≠ "rejected_evidence") =
        p.gaps.filter (fun g => g.kind ≠ "rejected_evidence") ∧
      (gaps.filter fun g => g.kind = "rejected_evidence").Perm (rejected.map rejectionGap) ∧
      (p.gaps.filter fun g => g.kind = "rejected_evidence").Perm
        (p.diag.rejected.map rejectionGap) ∧
      (p.diag.rejected = [] → project host (b.withLines lines few) = project host b) := by
  -- `gather` is taken apart once; the steps after the intake see the same records in both orders
  have hgather := h
  simp only [gather, gatherRecords, Option.bind_eq_bind, Option.bind_eq_some_iff] at h
  obtain ⟨caseId, hcase, clusterId, hcluster, profile, hprofile, time, htime, ⟨ctx, start⟩, hctx,
    known, hknown, assumed, hassumed, pods, hpods, s, hs, silent, hsilent, h⟩ := h
  rw [textAt, hcluster, Option.getD_some] at hagree
  have hread := reading_events hperm hagree
  obtain ⟨hacc, hdup, hnone', hnone⟩ := diag_perm hperm hagree
  obtain ⟨hpods', hfold⟩ := @loops_congr ctx _ _ hread
  have hrej := (sorted_intake host clusterId b.eventLines).2
  have hrej' := (sorted_intake host clusterId lines).2
  rw [← hpods'] at hpods
  rw [← hfold] at hs
  split_ifs at h with hkeys
  have hp := Option.some.inj h
  have hctx' : contextOf host (b.withLines lines few) profile = some (ctx, start) := hctx
  have hrejected : p.diag.rejected = (intake host clusterId b.eventLines).diag.rejected := by
    rw [← hp]
  have hother : gather host (b.withLines lines few) = some (p.withRejections
      (intake host clusterId lines).diag.rejected (Text.sortedBy Gap.id (s.gaps ++ silent ++
        (intake host clusterId lines).diag.rejected.map rejectionGap ++
        (intake host clusterId b.eventLines).diag.conflicts.map conflictGap))) := by
    simp only [gather, gatherRecords, Option.bind_eq_bind, Option.bind_eq_some_iff]
    refine ⟨caseId, hcase, clusterId, hcluster, profile, hprofile, time, htime, ⟨ctx, start⟩, hctx',
      known, hknown, assumed, hassumed, pods, hpods, s, hs, silent, hsilent, ?_⟩
    rw [if_pos hkeys, ← hp]
    simp only [Projection.withRejections, ReplayBundle.withLines, hacc, hdup, hnone', hnone]
    rfl
  -- a rejection depends on its line alone, but for the number of the line
  have hproblems : ((intake host clusterId lines).diag.rejected.map Rejection.problems).Perm
      (p.diag.rejected.map Rejection.problems) := by
    rw [hrejected, hrej, hrej', problems_rejectionsOf, problems_rejectionsOf,
      List.zipIdx_map_fst, List.zipIdx_map_fst]
    exact hperm.filterMap _
  obtain ⟨_, _, _, _, hparts⟩ := exists_parts_of_gather hgather
  obtain ⟨_, _, _, _, hparts'⟩ := exists_parts_of_gather hother
  refine ⟨_, _, hother, hproblems, ?_, hparts'.rejected_gaps, hparts.rejected_gaps,
    fun hnil => ?_⟩
  · have hothers : ∀ rejected : List Rejection, (rejected.map rejectionGap).filter
        (fun g => g.kind ≠ "rejected_evidence") = [] := fun rejected => by
      simp [rejectionGap]
    rw [← hp]
    simp only [Text.filter_sortedBy, List.filter_append, hothers]
  · -- nothing is rejected in one order, so nothing is in the other
    have hnil' : (intake host clusterId lines).diag.rejected = [] := by
      rwa [hnil, List.map_nil, List.perm_nil, List.map_eq_nil_iff] at hproblems
    have hsame : p.withRejections (intake host clusterId lines).diag.rejected
        (Text.sortedBy Gap.id (s.gaps ++ silent ++
          (intake host clusterId lines).diag.rejected.map rejectionGap ++
          (intake host clusterId b.eventLines).diag.conflicts.map conflictGap)) = p := by
      rw [hnil', ← hp]
      simp only [Projection.withRejections, hrejected.symm.trans hnil]
    rw [hsame] at hother
    rw [project, project, hother, hgather]
    rfl

namespace Sample

/-- The lines of the second bundle in the other order. -/
def swapped : List String := [creationLine, heartbeatLine]

lemma few_swapped : swapped.length ≤ maxEvents := by simp [swapped, maxEvents]

lemma perm_swapped : swapped.Perm created.eventLines := List.Perm.swap _ _ _

lemma recordsOf_created : recordsOf host "c" created.eventLines =
    [envelope host heartbeat, envelope host creation] := by
  have htwo : ∀ {l l' : String} {e e' : Envelope}, readLine host "c" l = .record e →
      readLine host "c" l' = .record e' → recordsOf host "c" [l, l'] = [e, e'] := by
    intro l l' e e' h h'
    simp [recordsOf, h, h']
  exact htwo read_heartbeat read_creation

lemma agree_created : Agree (recordsOf host "c" created.eventLines) := by
  have hkeys : (envelope host heartbeat).key ≠ (envelope host creation).key := by decide +kernel
  rw [recordsOf_created]
  intro e he e' he' hkey
  rcases List.mem_pair.1 he with rfl | rfl <;> rcases List.mem_pair.1 he' with rfl | rfl
  · rfl
  · exact absurd hkey hkeys
  · exact absurd hkey.symm hkeys
  · rfl

end Sample

theorem swapped_project : ∃ p, gather Sample.host Sample.created = some p ∧
    ∃ rejected gaps, gather Sample.host
        (Sample.created.withLines Sample.swapped Sample.few_swapped) =
      some (p.withRejections rejected gaps) := by
  have hcluster : textAt Sample.created.manifest "cluster_id" = "c" := by decide +kernel
  obtain ⟨⟨p, inp⟩, h⟩ := Option.isSome_iff_exists.1 Sample.projected_created
  have hagree : Agree (recordsOf Sample.host (textAt Sample.created.manifest "cluster_id")
      Sample.created.eventLines) := by
    rw [hcluster]
    exact Sample.agree_created
  obtain ⟨rejected, gaps, hother, -⟩ := project_perm Sample.few_swapped Sample.perm_swapped hagree
    (gather_of_project h).1
  exact ⟨p, (gather_of_project h).1, rejected, gaps, hother⟩

end Evidence

end Afterlock
