import Afterlock.Collector.AuditLog
import Afterlock.Collector.Guard
import Afterlock.Collector.Restart

/-!
# Accounting for audit events

`IngestRaw`, `IngestLog` and `IngestList` hand the records of an audit log to the spool.  An event
that is in scope is accounted for if the spool has its envelope after it, or has recorded a gap, or
has counted a record as dropped.

An event is known again by its key, which has a part of a hash of its envelope; what is known of the
hash is that the envelopes in question do not collide.  Then a key stands for one envelope
(`eq_of_dedupKey`), and every key that a spool has seen is that of a record which the spool has
(`genuine_final`), whatever became of the processes before.  So every event in scope is accounted
for but those without a status (`accounts_iff`).
-/

namespace Afterlock

namespace Collector

namespace Audit

open Encoding Redaction

/-! ### Keys -/

lemma hexDigit_inj {m n : ℕ} (hm : m < 16) (hn : n < 16) (h : hexDigit m = hexDigit n) :
    m = n := by
  have hall : ∀ m < 16, ∀ n < 16, hexDigit m = hexDigit n → m = n := by decide
  exact hall m hm n hn h

lemma hex_inj {bs bs' : Bytes} (h : hex bs = hex bs') : bs = bs' := by
  unfold hex at h
  rw [String.ofList_inj] at h
  induction bs generalizing bs' with
  | nil =>
      cases bs' with
      | nil => rfl
      | cons b' bs' => cases h
  | cons b bs ih =>
      cases bs' with
      | nil => cases h
      | cons b' bs' =>
          have hb := b.toNat_lt
          have hb' := b'.toNat_lt
          rw [List.flatMap_cons, List.flatMap_cons] at h
          obtain ⟨hhigh, h⟩ := List.cons.inj h
          obtain ⟨hlow, h⟩ := List.cons.inj h
          have hhigh := hexDigit_inj (by omega) (by omega) hhigh
          have hlow := hexDigit_inj (by omega) (by omega) hlow
          rw [ih h, UInt8.toNat_inj.1 (show b.toNat = b'.toNat by omega)]

lemma colon_notMem_hex (bs : Bytes) : ':' ∉ (hex bs).toList := by
  intro h
  have hall : ∀ n < 16, ':' ≠ hexDigit n := by decide
  rw [hex, String.toList_ofList] at h
  obtain ⟨b, -, h⟩ := List.mem_flatMap.1 h
  have hb := b.toNat_lt
  rw [List.mem_cons, List.mem_singleton] at h
  rcases h with h | h
  · exact hall _ (by omega) h
  · exact hall _ (by omega) h

/-- What stands behind the last of a character. -/
lemma eq_of_append_cons_eq {c : Char} {as bs cs ds : List Char} (hc : c ∉ cs) (hd : c ∉ ds)
    (h : as ++ c :: cs = bs ++ c :: ds) : cs = ds := by
  rcases List.append_eq_append_iff.1 h with ⟨es, -, h⟩ | ⟨es, -, h⟩
  · cases es with
    | nil => exact (List.cons.inj h).2
    | cons e es =>
        rw [(List.cons.inj h).2] at hc
        exact absurd (List.mem_append_right _ List.mem_cons_self) hc
  · cases es with
    | nil => exact (List.cons.inj h).2.symm
    | cons e es =>
        rw [(List.cons.inj h).2] at hd
        exact absurd (List.mem_append_right _ List.mem_cons_self) hd

/-- Keys that are the same have the same part of a hash. -/
lemma hash_of_dedupKey {lib : Library} {id id' : String} {r r' : Json.Fields}
    (h : dedupKey lib id r = dedupKey lib id' r') :
    (lib.sha256 (lineOf r)).take 8 = (lib.sha256 (lineOf r')).take 8 := by
  have hchars := congrArg String.toList h
  simp only [dedupKey, String.toList_append] at hchars
  rw [show ":".toList = [':'] from rfl, List.append_assoc, List.append_assoc _ [':'],
    List.singleton_append, List.singleton_append] at hchars
  exact hex_inj (String.toList_inj.1
    (eq_of_append_cons_eq (colon_notMem_hex _) (colon_notMem_hex _) hchars))

/-- No two of the contents have the same beginning of their hashes. -/
def CollisionFree (lib : Library) (S : Set Bytes) : Prop :=
  Set.InjOn (fun bs => (lib.sha256 bs).take 8) S

/-- The line of a record determines it. -/
lemma lineOf_inj {d : ℕ} {r r' : Json.Fields} (hr : WritableFields (d + 1) r)
    (hr' : WritableFields (d + 1) r') (hd : d ≤ 9999) (h : lineOf r = lineOf r') : r = r' := by
  have hread {m : Json.Fields} (hm : WritableFields (d + 1) m) :
      unmarshal (lineOf m) = some (.obj m) := by
    obtain ⟨hc, -, ⟨cs, hcs⟩, hl⟩ := hm.obj
    have hle : levels (.obj m) ≤ maxNestingDepth + 1 := hl.trans (by
      rw [maxNestingDepth]
      omega)
    rw [lineOf, hcs, Option.map_some, Option.getD_some, (unmarshal_marshal hc hcs).1, if_pos hle]
  have hobj := (hread hr).symm.trans (h ▸ hread hr')
  exact Json.obj.inj (Option.some.inj hobj)

/-- Under contents that do not collide, one key stands for one record. -/
lemma eq_of_dedupKey {lib : Library} {S : Set Bytes} (hS : CollisionFree lib S)
    {id id' : String} {r r' : Json.Fields} (hr : WritableFields 2 r) (hr' : WritableFields 2 r')
    (hmem : lineOf r ∈ S) (hmem' : lineOf r' ∈ S) (h : dedupKey lib id r = dedupKey lib id' r') :
    r = r' :=
  lineOf_inj hr hr' (by decide) (hS hmem hmem' (hash_of_dedupKey h))

/-! ### What the records of a file tell -/

/-- A record has the fields of another. -/
def Holds (stored r : Json.Fields) : Prop := ∀ k v, r.lookup k = some v → stored.lookup k = some v

/-- If the record has a key, it is that of an envelope whose fields it has. -/
def Traced (lib : Library) (S : Set Bytes) (stored : Json.Fields) : Prop :=
  ∀ key, dedupKey? stored = some key → ∃ id r, lineOf r ∈ S ∧ WritableFields 2 r ∧
    key = dedupKey lib id r ∧ Holds stored r

/-- The rest of a file behind its complete lines. -/
def rest (file : Bytes) : Bytes := (Lines.split 10 file).2

/-- The rest of a file is nothing, or begins like the line of a record. -/
def Begun (file : Bytes) : Prop := rest file = [] ∨ ∃ t, rest file = 123 :: t

/-- What is appended without a line break completes no line. -/
lemma complete_append (file : Bytes) {t : Bytes} (ht : (10 : UInt8) ∉ t) :
    complete (file ++ t) = complete file ∧ rest (file ++ t) = rest file ++ t := by
  have hnot : (10 : UInt8) ∉ (Lines.split 10 file).2 ++ t := by
    rw [List.mem_append, not_or]
    exact ⟨Lines.notMem_split_snd file, ht⟩
  rw [complete, rest, Lines.split_append_right, Lines.split_of_notMem hnot, List.append_nil]
  exact ⟨rfl, rfl⟩

/-- A line is appended to what is left of a torn one. -/
lemma complete_append_line (file : Bytes) {l : Bytes} (hl : (10 : UInt8) ∉ l) :
    complete (file ++ (l ++ [10])) = complete file ++ (object? (rest file ++ l)).toList ∧
      rest (file ++ (l ++ [10])) = [] := by
  have hnot : (10 : UInt8) ∉ (Lines.split 10 file).2 ++ l := by
    rw [List.mem_append, not_or]
    exact ⟨Lines.notMem_split_snd file, hl⟩
  have hsplit : Lines.split 10 (file ++ (l ++ [10])) =
      ((Lines.split 10 file).1 ++ [rest file ++ l], []) := by
    have hline := Lines.split_append hnot []
    rw [Lines.split_append_right, ← List.append_assoc, hline]
    rfl
  refine ⟨?_, congrArg Prod.snd hsplit⟩
  rw [complete, hsplit, List.filterMap_append, List.filterMap_cons]
  cases object? (rest file ++ l) <;> rfl

/-- Every record with a key is traced, every key that was seen is that of a record, and so it is in
the file. -/
structure Genuine (lib : Library) (S : Set Bytes) (s : Spool) : Prop where
  records : ∀ r ∈ s.records, Traced lib S r
  seen : ∀ k ∈ s.seen, ∃ r ∈ s.records, dedupKey? r = some k
  lines : ∀ r ∈ complete s.file, Traced lib S r
  begun : Begun s.file

/-- The same of a host. -/
def HostGenuine (lib : Library) (S : Set Bytes) : Host → Prop
  | .down none => True
  | .down (some file) => ∀ r ∈ complete file, Traced lib S r
  | .up s => Genuine lib S s

section

variable {lib : Library} {S : Set Bytes} {s s' : Spool} {r : Json.Fields}

lemma traced_of_none (h : dedupKey? r = none) : Traced lib S r := by
  intro key hkey
  rw [h] at hkey
  cases hkey

lemma Genuine.same (hs : Genuine lib S s) (hlog : SameLog s s') (hseen : s'.seen = s.seen) :
    Genuine lib S s' := by
  obtain ⟨-, hfile, -, hrecords, -⟩ := hlog
  refine ⟨?_, ?_, ?_, ?_⟩
  · rw [hrecords]
    exact hs.records
  · rw [hrecords, hseen]
    exact hs.seen
  · rw [hfile]
    exact hs.lines
  · rw [hfile]
    exact hs.begun

/-- A torn line is never completed to a record. -/
lemma Genuine.tear (hs : Genuine lib S s) (hr : storable r = true) (n : ℕ) :
    Genuine lib S (s.tear r n) := by
  have hnot : (10 : UInt8) ∉ (lineOf r).take n := fun h =>
    newline_notMem_lineOf hr (List.mem_of_mem_take h)
  obtain ⟨hcomplete, hrest⟩ := complete_append s.file hnot
  refine ⟨hs.records, hs.seen, ?_, ?_⟩
  · rw [Spool.tear, hcomplete]
    exact hs.lines
  · rw [Spool.tear, Begun, hrest]
    rcases hs.begun with hnil | ⟨t, ht⟩
    · obtain ⟨l, hl⟩ := exists_cons_lineOf hr
      rw [hnil, List.nil_append, hl]
      cases n with
      | zero => exact Or.inl rfl
      | succ n => exact Or.inr ⟨l.take n, rfl⟩
    · rw [ht]
      exact Or.inr ⟨t ++ (lineOf r).take n, rfl⟩

/-- A record that is written keeps the spool genuine if it is traced. -/
lemma Genuine.push (hs : Genuine lib S s) (hr : Stored r) (htraced : Traced lib S r)
    (hlog : SameLog (s.push r) s')
    (hseen : ∀ k ∈ s'.seen, k ∈ s.seen ∨ dedupKey? r = some k) : Genuine lib S s' := by
  obtain ⟨-, hfile, -, hrecords, -⟩ := hlog
  obtain ⟨hcomplete, hrest⟩ := complete_append_line s.file (newline_notMem_lineOf hr.storable)
  rw [Spool.push] at hfile hrecords
  refine ⟨?_, fun k hk => ?_, ?_, ?_⟩
  · rw [hrecords]
    exact List.forall_mem_append.2 ⟨hs.records, List.forall_mem_singleton.2 htraced⟩
  · rw [hrecords]
    rcases hseen k hk with hk | hk
    · obtain ⟨r', hr', hkey⟩ := hs.seen k hk
      exact ⟨r', List.mem_append_left _ hr', hkey⟩
    · exact ⟨r, List.mem_append_right _ (List.mem_singleton_self _), hk⟩
  · rw [hfile, hcomplete]
    refine List.forall_mem_append.2 ⟨hs.lines, fun r' hr' => ?_⟩
    rcases hs.begun with hnil | ⟨t, ht⟩
    · rw [hnil, List.nil_append, (object?_line hr.canonical hr.storable).1] at hr'
      rw [List.mem_singleton.1 hr']
      exact htraced
    · rw [ht, object?_torn hr] at hr'
      exact absurd hr' List.not_mem_nil
  · rw [hfile, Begun, hrest]
    exact Or.inl rfl

lemma lookup_fromPairs_of_notMem {kvs : Json.Fields} {k : String} (h : k ∉ kvs.map Prod.fst) :
    (fromPairs kvs).lookup k = none := by
  have key (m : Json.Fields) :
      (kvs.foldl (fun m kv => put kv.1 kv.2 m) m).lookup k = m.lookup k := by
    induction kvs generalizing m with
    | nil => rfl
    | cons kv kvs ih =>
        rw [List.map_cons, List.mem_cons, not_or] at h
        rw [List.foldl_cons, ih h.2, lookup_put_of_ne h.1]
  exact key []

/-- `writeLocked` keeps the name of an event. -/
lemma lookup_stamp_eventId {opt : Options} {seq : ℤ} {t : String} {m : Json.Fields}
    (h : Json.has m "event_id" = true) : (stamp opt seq t m).lookup "event_id" =
      m.lookup "event_id" := by
  rw [Json.has] at h
  unfold stamp
  simp only [Json.has, lookup_put_of_ne (show "event_id" ≠ "source_sequence" by decide),
    lookup_put_of_ne (show "event_id" ≠ "cluster_id" by decide),
    lookup_put_of_ne (show "event_id" ≠ "source_id" by decide),
    lookup_put_of_ne (show "event_id" ≠ "schema_version" by decide), h, if_true]
  split_ifs
  · simp only [lookup_put_of_ne (show "event_id" ≠ "source_sequence" by decide),
      lookup_put_of_ne (show "event_id" ≠ "cluster_id" by decide),
      lookup_put_of_ne (show "event_id" ≠ "source_id" by decide),
      lookup_put_of_ne (show "event_id" ≠ "schema_version" by decide)]
  · simp only [lookup_put_of_ne (show "event_id" ≠ "ingested_at" by decide),
      lookup_put_of_ne (show "event_id" ≠ "source_sequence" by decide),
      lookup_put_of_ne (show "event_id" ≠ "cluster_id" by decide),
      lookup_put_of_ne (show "event_id" ≠ "source_id" by decide),
      lookup_put_of_ne (show "event_id" ≠ "schema_version" by decide)]

/-- The call appends nothing but envelopes of audit events. -/
def Ingests (lib : Library) (S : Set Bytes) : Collector.Call → Prop
  | .append r key _ _ => lineOf r.val ∈ S ∧ ∃ since place ev,
      ingest lib since place ev = .append r.val key
  | _ => True

/-- The fields of an envelope that is recorded. -/
lemma holds_evidenceLine {ev : Event} {o : ObjectRef} {status : Status} {ts : Instant}
    {key : String} {now : Clock} {r : GoMap} (hr : r.val = recordOf ev o status ts) :
    Holds (s.evidenceLine r.val key now) (recordOf ev o status ts) := by
  intro k v hv
  have hkeys : k ∈ "event_id" :: ["event_type", "observed_at", "actor", "action", "target",
      "outcome", "provenance"] := by
    by_contra hk
    rw [List.mem_cons, not_or] at hk
    rw [recordOf, lookup_put_of_ne hk.1, toEnvelope, lookup_fromPairs_of_notMem hk.2] at hv
    cases hv
  have hdedup : (if key ≠ "" then put "_dedup" (.str key) r.val else r.val).lookup k =
      r.val.lookup k := by
    split_ifs
    · refine lookup_put_of_ne ?_ _ _
      rintro rfl
      exact absurd hkeys (by decide)
    · rfl
  rw [Spool.evidenceLine]
  by_cases hid : k = "event_id"
  · subst hid
    rw [lookup_stamp_eventId, hdedup, hr, hv]
    rw [Json.has, hdedup, hr, hv]
    rfl
  · rw [lookup_stamp, hdedup, hr, hv]
    simp only [List.mem_cons, List.not_mem_nil, or_false, hid, false_or] at hkeys
    rcases hkeys with rfl | rfl | rfl | rfl | rfl | rfl | rfl <;> decide

lemma dedupKey_ne (id : String) (r : Json.Fields) : dedupKey lib id r ≠ "" := by
  intro h
  have hchars := congrArg String.toList h
  simp [dedupKey] at hchars

lemma dedupKey?_of_ingests {r : GoMap} {key : String} {now now' : Clock} {w : Write}
    (h : Ingests lib S (.append r key now' w)) :
    dedupKey? (s.evidenceLine r.val key now) = some key := by
  obtain ⟨-, since, place, ev, hingest⟩ := h
  obtain ⟨ts, o, status, -, -, -, -, rfl⟩ := ingest_eq_append hingest
  have hne : dedupKey lib (redact ev.auditID) r.val ≠ "" := dedupKey_ne _ _
  rw [dedupKey?_evidenceLine s r _ now fun hnil => absurd hnil hne, if_pos hne]

lemma traced_evidenceLine {r : GoMap} {key : String} {now now' : Clock} {w : Write}
    (h : Ingests lib S (.append r key now' w)) : Traced lib S (s.evidenceLine r.val key now) := by
  intro key' hkey'
  rw [dedupKey?_of_ingests h] at hkey'
  obtain rfl := Option.some.inj hkey'
  obtain ⟨hmem, since, place, ev, hingest⟩ := h
  have hwritable := (writable_of_ingest hingest).1
  obtain ⟨ts, o, status, -, -, -, hr, hkey⟩ := ingest_eq_append hingest
  refine ⟨redact ev.auditID, r.val, hmem, hwritable, hkey, ?_⟩
  have hholds : Holds (s.evidenceLine r.val key now) (recordOf ev o status ts) :=
    holds_evidenceLine hr
  rwa [← hr] at hholds

lemma genuine_call (hs : Genuine lib S s) {c : Collector.Call} (hc : Ingests lib S c) :
    Genuine lib S (s.call c).2 := by
  have heffect := effect_call s c
  generalize (s.call c).1.stored = stored at heffect
  generalize (s.call c).2 = s' at heffect
  cases heffect with
  | quiet hlog _ hseen => exact hs.same hlog hseen
  | gapRefused _ hlog _ hseen => exact hs.same hlog hseen
  | gapTorn hline _ hlog _ hseen => exact (hs.tear hline _).same hlog hseen
  | torn _ hline hlog _ hseen => exact (hs.tear hline _).same hlog hseen
  | @gap _ reason now hline _ hlog _ hseen =>
      refine hs.push ⟨canonicalFields_gapLine _ _ _ _, hline⟩
        (traced_of_none (dedupKey?_gapLine _ _ _ _)) hlog fun k hk => Or.inl ?_
      rwa [hseen] at hk
  | @evidence _ r key now hcall hfresh hline hlog _ hseen =>
      subst hcall
      have hcanon : canonicalFields (s.evidenceLine r.val key now) = true :=
        canonicalFields_stamp (canonicalFields_dedup key r.property)
      refine hs.push ⟨hcanon, hline⟩ (traced_evidenceLine hc) hlog fun k hk => ?_
      rw [hseen] at hk
      rw [dedupKey?_of_ingests hc]
      split_ifs at hk
      · exact (List.mem_cons.1 hk).symm.imp_right fun h => congrArg some h.symm
      · exact Or.inl hk

lemma seen_foldl_adopt (log : List Json.Fields) {s : Spool} {k : String}
    (h : k ∈ (log.foldl adopt s).seen) : k ∈ s.seen ∨ ∃ r ∈ log, dedupKey? r = some k := by
  induction log generalizing s with
  | nil => exact Or.inl h
  | cons r log ih =>
      rcases ih h with h | ⟨r', hr', hk⟩
      · have hseen : k ∈ s.seen ∨ dedupKey? r = some k := by
          simp only [adopt, dedupKey?] at h ⊢
          cases hd : r.lookup "_dedup" with
          | none =>
              rw [get_of_lookup_none hd] at h
              exact Or.inl h
          | some v =>
              rw [Json.get_eq_of_lookup hd] at h
              cases v with
              | str k' =>
                  rcases List.mem_cons.1 h with rfl | h
                  · exact Or.inr rfl
                  · exact Or.inl h
              | _ => exact Or.inl h
        exact hseen.imp_right fun hk => ⟨r, List.mem_cons_self, hk⟩
      · exact Or.inr ⟨r', List.mem_cons_of_mem _ hr', hk⟩

/-- A process that is started on a genuine file finds a genuine spool. -/
lemma genuine_found (opt : Options) {file : Bytes} (h : ∀ r ∈ complete file, Traced lib S r) :
    Genuine lib S (found opt file) := by
  obtain ⟨-, hrecords, hfile, -, -⟩ := found_spec opt file
  have hread : ∀ r ∈ (found opt file).records, Traced lib S r := by
    intro r hr
    have hsub := records_found_prefix opt file
    exact h r (hsub.subset hr)
  refine ⟨hread, fun k hk => ?_, ?_, ?_⟩
  · have hspool := (parseExisting_spec (Lines.split 10 file).1 (Spool.empty opt)).1
    have hseen : k ∈ (parseExisting (Lines.split 10 file).1 (Spool.empty opt)).2.seen := hk
    rw [hspool] at hseen
    rw [hrecords]
    exact (seen_foldl_adopt _ hseen).resolve_left List.not_mem_nil
  all_goals
    have hsplit : Lines.split 10 (found opt file).file = ((Lines.split 10 file).1.take
        (Lines.readUntil object? (Lines.split 10 file).1).length, []) := by
      have hlines : ∀ l ∈ (Lines.split 10 file).1.take
          (Lines.readUntil object? (Lines.split 10 file).1).length, (10 : UInt8) ∉ l :=
        fun l hl => Lines.notMem_of_mem_split (List.mem_of_mem_take hl)
      have hjoin := Lines.split_join_append hlines []
      rw [List.append_nil] at hjoin
      rw [hfile, hjoin, Lines.split, List.append_nil]
  · intro r hr
    rw [complete, hsplit] at hr
    exact h r (((List.take_sublist _ _).filterMap object?).subset hr)
  · rw [Begun, rest, hsplit]
    exact Or.inl rfl

lemma genuine_openSpool {file : Option Bytes} (h : HostGenuine lib S (.down file)) (opt : Options)
    (now : Clock) (w : Write) : HostGenuine lib S (openSpool opt file now w).2 := by
  by_cases hopt : opt.Accepted
  · cases file with
    | none =>
        have hlim : ¬(opt.maxBytes ≤ reservedBytes ∨ opt.maxRecords ≤ reservedRecords) :=
          not_or.2 ⟨not_le.2 hopt.1, not_le.2 hopt.2⟩
        rw [openSpool, if_neg hlim]
        exact ⟨fun _ h => absurd h List.not_mem_nil, fun _ h => absurd h List.not_mem_nil,
          fun _ h => absurd h List.not_mem_nil, Or.inl rfl⟩
    | some file =>
        have hcall : Genuine lib S ((found opt file).call
            (.gap "collector-restart" (foundReason opt file) now w)).2 :=
          genuine_call (genuine_found opt h) trivial
        rw [Spool.call, gap] at hcall
        rw [openSpool_some hopt]
        generalize gapLocked _ "collector-restart" _ now w = g at hcall ⊢
        obtain ⟨e | stored, s⟩ := g
        · exact hcall.lines
        · exact hcall
  · have hlim : opt.maxBytes ≤ reservedBytes ∨ opt.maxRecords ≤ reservedRecords := by
      by_contra hnot
      rw [not_or, not_le, not_le] at hnot
      exact hopt hnot
    unfold openSpool
    rw [if_pos hlim]
    exact h

/-- The inputs of a host append nothing but envelopes of audit events. -/
def FromAudit (lib : Library) (S : Set Bytes) : Input → Prop
  | .call c => Ingests lib S c
  | _ => True

lemma genuine_step {h : Host} (hh : HostGenuine lib S h) {i : Input} (hi : FromAudit lib S i) :
    HostGenuine lib S (h.step i).2 := by
  cases h with
  | up s =>
      cases i with
      | «open» opt now w => exact hh
      | call c => exact genuine_call hh hi
      | crash torn =>
          show ∀ r ∈ complete (s.file ++ torn.val), Traced lib S r
          rw [(complete_append s.file torn.property).1]
          exact hh.lines
  | down file =>
      cases i with
      | call c => exact hh
      | crash torn => exact hh
      | «open» opt now w => exact genuine_openSpool hh opt now w

/-- Whatever became of the processes, every key that the spool has seen is that of a record, which
has the fields of the envelope that the key stands for. -/
theorem genuine_final {is : List Input} (his : ∀ i ∈ is, FromAudit lib S i)
    (h : host.final (.down none) is = .up s) : Genuine lib S s := by
  have hfinal (g : Host) (hg : HostGenuine lib S g) : HostGenuine lib S (host.final g is) := by
    clear h
    induction is generalizing g with
    | nil => exact hg
    | cons i is ih =>
        obtain ⟨hi, his⟩ := List.forall_mem_cons.1 his
        exact ih his _ (genuine_step hg hi)
  have hs := hfinal (.down none) trivial
  rwa [h] at hs

end

/-! ### The ingester -/

/-- A spool, and what the clock and the disk will do in the calls to come. -/
structure Ingester where
  spool : Spool
  turns : ℕ → Clock × Write

/-- What decoding does: an event of a record, and the kind and the items of a list. -/
structure Decoder where
  event : Bytes → Option Event
  list : Bytes → Option (String × List Bytes)

/-- What becomes of the answer to `Append`: a duplicate and an overflow are no errors. -/
def appendAnswer : Collector.Answer → Answer
  | .refused .duplicate | .refused .overflow => .done
  | .refused _ => .failed "append"
  | _ => .done

/-- What becomes of the answer to `Gap`. -/
def gapAnswer : Collector.Answer → Answer
  | .refused .overflow => .overflow
  | .refused _ => .failed "gap"
  | _ => .done

section

variable (lib : Library) (dec : Decoder) (since : Option Instant)

/-- What `IngestRaw` does with a record. -/
def handling (line : Bytes) (place : String) : Handling :=
  match dec.event line with
  | none => .gap "audit-malformed" (place ++ ": audit record is not valid JSON and was dropped")
  | some ev => ingest lib since place ev

/-- Record a gap. -/
def Ingester.gap (g : Ingester) (kind reason : String) : Answer × Ingester :=
  let x := Collector.gap g.spool kind reason (g.turns 0).1 (g.turns 0).2
  (gapAnswer x.1.answer, ⟨x.2, fun n => g.turns (n + 1)⟩)

/-- Append a record. -/
def Ingester.append (g : Ingester) (r : Json.Fields) (key : String) : Answer × Ingester :=
  let x := Collector.append g.spool r key (g.turns 0).1 (g.turns 0).2
  (appendAnswer x.1.answer, ⟨x.2, fun n => g.turns (n + 1)⟩)

/-- `IngestRaw`, and `Gap` of the spool. -/
def Ingester.take (g : Ingester) : Call → Answer × Ingester
  | .gap kind reason => g.gap kind reason
  | .raw line place =>
      match handling lib dec since line place with
      | .ignored => (.done, g)
      | .gap kind reason => g.gap kind reason
      | .append r key => g.append r key

def ingester : Machine Ingester Call Answer := ⟨Ingester.take lib dec since⟩

/-- The calls for the items of a list. -/
def itemCalls (place : String) (items : List Bytes) : List Call :=
  items.zipIdx.map fun x => .raw x.1 (place ++ " item " ++ Text.ofInt x.2)

/-- `IngestList`. -/
def ingestList (body : Bytes) (place : String) (g : Ingester) : Ingested Ingester :=
  match (dec.list body).filter fun x => x.1 = "" ∨ x.1 = "EventList" with
  | some (_, items) => deliver (ingester lib dec since) (itemCalls place items) g
  | none =>
      (hand (ingester lib dec since) (some (.gap "audit-malformed"
        (place ++ ": webhook batch is not an audit EventList and was dropped"))) g).andThen
          fun g => ⟨[], g, .refused "malformed EventList"⟩

end

/-! ### Accounting -/

/-- An event that is to be accounted for: it has a stage that tells what came of the request, an
object, and a time in the window. -/
structure InScope (lib : Library) (since : Option Instant) (ev : Event) : Prop where
  apiVersion : ev.apiVersion = Audit.apiVersion
  kind : ev.kind = "" ∨ ev.kind = "Event"
  stage : ev.stage = "ResponseComplete" ∨ ev.stage = "Panic"
  objectRef : ev.objectRef.isSome
  inWindow : ∃ ts, lib.parseTime ev.stageTimestamp = some ts ∧ since.any ts.before = false

/-- A gap was recorded, or a record was counted as dropped. -/
def Told (s s' : Spool) : Prop :=
  (∃ gap, s'.records = s.records ++ [gap] ∧ hasText gap "event_type" "collector.gap" = true) ∨
    s.dropped < s'.dropped

/-- The spool has the envelope of an event. -/
def HasEnvelope (lib : Library) (ev : Event) (s : Spool) : Prop :=
  ∃ o status ts, ev.objectRef = some o ∧ ev.responseStatus = some status ∧
    lib.parseTime ev.stageTimestamp = some ts ∧
      ∃ stored ∈ s.records, Holds stored (recordOf ev o status ts)

/-- The events of a call are accounted for between two states of the spool; one that was recorded
before is, too. -/
def Covered (lib : Library) (dec : Decoder) (since : Option Instant) (s s' : Spool) : Call → Prop
  | .gap _ _ => Told s s'
  | .raw line _ => ∀ ev, dec.event line = some ev → InScope lib since ev →
      HasEnvelope lib ev s' ∨ Told s s'

/-- Every call of a list is accounted for when it is made. -/
def Accounts (lib : Library) (dec : Decoder) (since : Option Instant) (g : Ingester)
    (cs : List Call) : Prop :=
  ∀ pre c post, cs = pre ++ c :: post → Covered lib dec since
    (deliver (ingester lib dec since) pre g).sink.spool
    (deliver (ingester lib dec since) (pre ++ [c]) g).sink.spool c

/-- The event has a status, or it leaves a gap without one. -/
def Answered (ev : Event) : Prop :=
  ev.responseStatus.isSome ∨ ev.impersonatedUser.isSome ∨ ev.auditID = ""

section

variable {lib : Library} {S : Set Bytes} {dec : Decoder} {since : Option Instant} {s : Spool}

/-- A gap is recorded or counted, unless it fails. -/
lemma told_gap (s : Spool) (kind reason : String) (now : Clock) (w : Write)
    (h : ∀ e, gapAnswer (Collector.gap s kind reason now w).1.answer ≠ .failed e) :
    Told s (Collector.gap s kind reason now w).2 := by
  unfold Collector.gap at h ⊢
  rcases gapLocked_cases s kind reason now w with
    ⟨-, hcase⟩ | ⟨-, ⟨-, e, he, hcase⟩ | ⟨-, n, -, hcase⟩ | ⟨-, -, hcase⟩⟩ <;> rw [hcase] at h ⊢
  · exact Or.inr (Int.lt_succ s.dropped)
  · cases e with
    | overflow => cases he
    | _ => exact absurd rfl (h _)
  · exact absurd rfl (h _)
  · exact Or.inl ⟨_, rfl, hasText_iff.2 (lookup_gapLine s kind reason now).1⟩

/-- An envelope is recorded, is there already or is counted as dropped, unless appending fails. -/
lemma covered_append (hS : CollisionFree lib S) (hs : Genuine lib S s) {place key : String}
    {ev : Event} {r : Json.Fields} (hr : ingest lib since place ev = .append r key)
    (hmem : lineOf r ∈ S) (now : Clock) (w : Write)
    (h : ∀ e, appendAnswer (Collector.append s r key now w).1.answer ≠ .failed e) :
    HasEnvelope lib ev (Collector.append s r key now w).2 ∨
      Told s (Collector.append s r key now w).2 := by
  have hwritable := (writable_of_ingest hr).1
  obtain ⟨ts, o, status, hts, ho, hstatus, hrec, hkey⟩ := ingest_eq_append hr
  have henvelope {s' : Spool} {stored : Json.Fields} (hin : stored ∈ s'.records)
      (hholds : Holds stored r) : HasEnvelope lib ev s' :=
    ⟨o, status, ts, ho, hstatus, hts, stored, hin, hrec ▸ hholds⟩
  unfold Collector.append at h ⊢
  by_cases hdup : key ≠ "" ∧ key ∈ s.seen
  · rw [if_pos hdup]
    obtain ⟨stored, hstored, hkey'⟩ := hs.seen key hdup.2
    obtain ⟨id, r', hmem', hwritable', hkey'', hholds⟩ := hs.records stored hstored key hkey'
    have heq := eq_of_dedupKey hS hwritable hwritable' hmem hmem' (hkey.symm.trans hkey'')
    exact Or.inl (henvelope hstored (heq ▸ hholds))
  · rw [if_neg hdup] at h ⊢
    by_cases hfull : s.full 0 = true
    · rw [if_pos hfull] at h ⊢
      refine Or.inr (Or.inr ?_)
      by_cases ho : s.overflow = true
      · simp only [ho, if_true]
        exact Int.lt_succ s.dropped
      · -- the gap for the overflow is written, is itself dropped, or fails
        simp only [ho, if_false, Bool.false_eq_true] at h ⊢
        rcases gapLocked_cases { s with dropped := s.dropped + 1, overflow := true }
          "spool-overflow" (overflowReason s.opt) now w with
          ⟨-, hcase⟩ | ⟨-, ⟨-, e, -, hcase⟩ | ⟨-, n, -, hcase⟩ | ⟨-, -, hcase⟩⟩ <;>
            rw [hcase] at h ⊢
        · exact (Int.lt_succ s.dropped).trans (Int.lt_succ (s.dropped + 1))
        · exact Int.lt_succ s.dropped
        · exact Int.lt_succ s.dropped
        · exact Int.lt_succ s.dropped
    · rw [if_neg hfull] at h ⊢
      let m : GoMap := ⟨r, hwritable.canonical⟩
      have hline : Holds (s.evidenceLine m.val key now) (recordOf ev o status ts) :=
        holds_evidenceLine hrec
      rcases writeLocked_cases s now.ingested w (canonicalFields_dedup key hwritable.canonical) with
        ⟨-, e, he, hcase⟩ | ⟨-, n, -, hcase⟩ | ⟨-, -, hcase⟩ <;> simp only [hcase] at h ⊢
      · cases e with
        | overflow => cases he
        | duplicate => cases he
        | _ => exact absurd rfl (h _)
      · exact absurd rfl (h _)
      · rw [← hrec] at hline
        have hin : s.evidenceLine r key now ∈ s.records ++ [s.evidenceLine r key now] :=
          List.mem_append_right s.records (List.mem_singleton_self _)
        refine Or.inl (@henvelope (if key ≠ "" then _ else _) _ ?_ hline)
        by_cases hkey : key ≠ ""
        · rw [if_pos hkey]
          exact hin
        · rw [if_neg hkey]
          exact hin

lemma genuine_turn {g : Ingester} (hg : Genuine lib S g.spool) {c : Call}
    (hc : ∀ line place, c = .raw line place → ∀ r key,
      handling lib dec since line place = .append r key → lineOf r ∈ S) :
    Genuine lib S (g.take lib dec since c).2.spool := by
  have hgap (kind reason : String) : Genuine lib S (g.gap kind reason).2.spool :=
    genuine_call hg (c := .gap kind reason (g.turns 0).1 (g.turns 0).2) trivial
  cases c with
  | gap kind reason => exact hgap kind reason
  | raw line place =>
      have hmem := hc line place rfl
      rw [Ingester.take]
      cases hh : handling lib dec since line place with
      | ignored => exact hg
      | gap kind reason => exact hgap kind reason
      | append r key =>
          rw [handling] at hh
          cases hev : dec.event line with
          | none =>
              rw [hev] at hh
              cases hh
          | some ev =>
              rw [hev] at hh
              have hcanonical := (writable_of_ingest hh).1.canonical
              refine genuine_call hg (c := .append ⟨r, hcanonical⟩ key (g.turns 0).1 (g.turns 0).2)
                ⟨hmem r key ?_, since, place, ev, hh⟩
              rw [handling, hev]
              exact hh

/-- A record that can be stored is appended to a new spool, unless the disk fails. -/
lemma append_eq_done {r : Json.Fields} {key : String} {turns : ℕ → Clock × Write}
    (hc : canonicalFields r = true) (hseen : s.seen = []) (hfull : s.full 0 = false)
    (hw : (turns 0).2 = .done) (hline : storable (s.evidenceLine r key (turns 0).1) = true) :
    (Ingester.append ⟨s, turns⟩ r key).1 = .done := by
  have hnew : ¬(key ≠ "" ∧ key ∈ s.seen) := by
    rw [hseen]
    exact fun h => List.not_mem_nil h.2
  unfold Ingester.append Collector.append
  simp only [if_neg hnew, hfull, Bool.false_eq_true, if_false, hw]
  rcases writeLocked_cases s (turns 0).1.ingested .done (canonicalFields_dedup key hc) with
    ⟨hnot, -⟩ | ⟨-, n, hfails, -⟩ | ⟨-, -, hcase⟩
  · exact absurd (hline.symm.trans hnot) (by decide)
  · cases hfails
  · simp only [hcase]
    rfl

/-- `ingest` passes over the events in scope that have no status, and no others. -/
lemma ingest_of_inScope {ev : Event} (h : InScope lib since ev) (place : String) :
    (¬Answered ev ∧ ingest lib since place ev = .ignored) ∨
      Answered ev ∧ ((∃ kind reason, ingest lib since place ev = .gap kind reason) ∨
        ∃ r key, ingest lib since place ev = .append r key) := by
  obtain ⟨hversion, hkind, hstage, ⟨o, ho⟩, ts, hts, hsince⟩ :=
    (⟨h.apiVersion, h.kind, h.stage, Option.isSome_iff_exists.1 h.objectRef, h.inWindow⟩ :
      ev.apiVersion = Audit.apiVersion ∧ (ev.kind = "" ∨ ev.kind = "Event") ∧
        (ev.stage = "ResponseComplete" ∨ ev.stage = "Panic") ∧ (∃ o, ev.objectRef = some o) ∧
          ∃ ts, lib.parseTime ev.stageTimestamp = some ts ∧ since.any ts.before = false)
  unfold ingest Answered
  by_cases hid : ev.auditID = ""
  · rw [if_pos (Or.inr (Or.inr hid))]
    exact Or.inr ⟨Or.inr (Or.inr hid), Or.inl ⟨_, _, rfl⟩⟩
  · have hevent : ¬(ev.apiVersion ≠ Audit.apiVersion ∨ (ev.kind ≠ "" ∧ ev.kind ≠ "Event") ∨
        ev.auditID = "") := by
      rintro (hne | ⟨hempty, hevent⟩ | hnil)
      · exact hne hversion
      · exact hkind.elim hempty hevent
      · exact hid hnil
    have hcomplete : ¬(ev.stage ≠ "ResponseComplete" ∧ ev.stage ≠ "Panic") := fun hne =>
      hstage.elim hne.1 hne.2
    rw [if_neg hevent, if_neg hcomplete]
    simp only [hts, hsince, ho, hid, or_false]
    cases ev.impersonatedUser with
    | some u => exact Or.inr ⟨Or.inr rfl, Or.inl ⟨_, _, rfl⟩⟩
    | none =>
        cases ev.responseStatus with
        | none => exact Or.inl ⟨by simp, rfl⟩
        | some status => exact Or.inr ⟨Or.inl rfl, Or.inr ⟨_, _, rfl⟩⟩

/-- A call that does not fail accounts for its event if and only if that has an answer. -/
lemma covered_iff (hS : CollisionFree lib S) {g : Ingester} (hg : Genuine lib S g.spool)
    {c : Call} (hc : ∀ line place, c = .raw line place → ∀ r key,
      handling lib dec since line place = .append r key → lineOf r ∈ S)
    (h : ∀ e, (g.take lib dec since c).1 ≠ .failed e) :
    Covered lib dec since g.spool (g.take lib dec since c).2.spool c ↔
      ∀ line place, c = .raw line place → ∀ ev, dec.event line = some ev →
        InScope lib since ev → Answered ev := by
  cases c with
  | gap kind reason => exact iff_of_true (told_gap g.spool kind reason _ _ h) nofun
  | raw line place =>
      have hmem := hc line place rfl
      have hcall : (∀ line' place', Call.raw line place = .raw line' place' → ∀ ev,
          dec.event line' = some ev → InScope lib since ev → Answered ev) ↔
            ∀ ev, dec.event line = some ev → InScope lib since ev → Answered ev := by
        refine ⟨fun h => h line place rfl, fun h line' place' heq => ?_⟩
        cases heq
        exact h
      rw [hcall]
      refine forall_congr' fun ev => forall_congr' fun hev => forall_congr' fun hscope => ?_
      rw [handling, hev] at hmem
      rw [Ingester.take, handling, hev] at h ⊢
      rcases ingest_of_inScope hscope place with
        ⟨hnot, hingest⟩ | ⟨hans, ⟨kind, reason, hingest⟩ | ⟨r, key, hingest⟩⟩ <;>
          simp only [hingest] at h hmem ⊢
      · -- an event without an answer is passed over, and leaves nothing
        refine iff_of_false ?_ hnot
        rintro (⟨o, status, ts, -, hstatus, -⟩ | ⟨gap, hgap, -⟩ | hlt)
        · exact hnot (Or.inl (Option.isSome_of_eq_some hstatus))
        · exact List.cons_ne_nil _ _ (List.self_eq_append_right.1 hgap)
        · exact absurd hlt (lt_irrefl _)
      · -- an answered event that cannot be used leaves a gap
        exact iff_of_true (Or.inr (told_gap g.spool kind reason _ _ h)) hans
      · exact iff_of_true (covered_append hS hg hingest (hmem r key rfl) _ _ h) hans

lemma deliver_ingester {g : Ingester} {c : Call} (h : ∀ e, (g.take lib dec since c).1 ≠ .failed e)
    (cs : List Call) : deliver (ingester lib dec since) (c :: cs) g =
      ⟨c :: (deliver (ingester lib dec since) cs (g.take lib dec since c).2).calls,
        (deliver (ingester lib dec since) cs (g.take lib dec since c).2).sink,
        (deliver (ingester lib dec since) cs (g.take lib dec since c).2).outcome⟩ :=
  deliver_cons_of_takes h cs

/-- The calls are accounted for if the first is and the others are after it. -/
lemma accounts_cons {g : Ingester} {c : Call} {cs : List Call}
    (h : ∀ e, (g.take lib dec since c).1 ≠ .failed e) :
    Accounts lib dec since g (c :: cs) ↔
      Covered lib dec since g.spool (g.take lib dec since c).2.spool c ∧
        Accounts lib dec since (g.take lib dec since c).2 cs := by
  have hdeliver (ds : List Call) : (deliver (ingester lib dec since) (c :: ds) g).sink =
      (deliver (ingester lib dec since) ds (g.take lib dec since c).2).sink := by
    rw [deliver_ingester h]
  constructor
  · intro hall
    refine ⟨?_, fun pre d post heq => ?_⟩
    · have hfirst := hall [] c cs rfl
      rw [List.nil_append, hdeliver] at hfirst
      exact hfirst
    · have hrest := hall (c :: pre) d post (congrArg (c :: ·) heq)
      rwa [hdeliver, List.cons_append, hdeliver] at hrest
  · rintro ⟨hfirst, hrest⟩ pre d post heq
    cases pre with
    | nil =>
        obtain ⟨rfl, rfl⟩ := List.cons.inj heq
        rw [List.nil_append, hdeliver]
        exact hfirst
    | cons c' pre =>
        obtain ⟨rfl, htail⟩ := List.cons.inj heq
        rw [hdeliver, List.cons_append, hdeliver]
        exact hrest pre d post htail

end

/-- The contents of the envelopes that the calls append. -/
def Hashed (lib : Library) (dec : Decoder) (since : Option Instant) (S : Set Bytes)
    (cs : List Call) : Prop :=
  ∀ line place, Call.raw line place ∈ cs → ∀ r key,
    handling lib dec since line place = .append r key → lineOf r ∈ S

/-- Every event in scope has an answer. -/
def AllAnswered (lib : Library) (dec : Decoder) (since : Option Instant) (cs : List Call) : Prop :=
  ∀ line place, Call.raw line place ∈ cs → ∀ ev, dec.event line = some ev →
    InScope lib since ev → Answered ev

lemma accounts_deliver {lib : Library} {dec : Decoder} {since : Option Instant} {S : Set Bytes}
    (hS : CollisionFree lib S) {g : Ingester} (hg : Genuine lib S g.spool) {cs : List Call}
    (hcs : Hashed lib dec since S cs)
    (h : (deliver (ingester lib dec since) cs g).outcome = .done) :
    Accounts lib dec since g cs ↔ AllAnswered lib dec since cs := by
  induction cs generalizing g with
  | nil =>
      refine iff_of_true (fun pre c post heq => ?_) nofun
      exact absurd heq.symm (List.append_ne_nil_of_right_ne_nil pre (List.cons_ne_nil c post))
  | cons c cs ih =>
      have htakes : ∀ e, (g.take lib dec since c).1 ≠ .failed e := takes_of_deliver h
      rw [deliver_ingester htakes] at h
      have hc : ∀ line place, c = .raw line place → ∀ r key,
          handling lib dec since line place = .append r key → lineOf r ∈ S :=
        fun line place heq => hcs line place (heq ▸ List.mem_cons_self)
      have hrest := ih (genuine_turn hg hc)
        (fun line place hin => hcs line place (List.mem_cons_of_mem c hin)) h
      rw [accounts_cons htakes, covered_iff hS hg hc htakes, hrest]
      constructor
      · rintro ⟨hfirst, hrest⟩ line place hin
        rcases List.mem_cons.1 hin with heq | hin
        · exact hfirst line place heq.symm
        · exact hrest line place hin
      · intro hall
        exact ⟨fun line place heq => hall line place (heq ▸ List.mem_cons_self),
          fun line place hin => hall line place (List.mem_cons_of_mem c hin)⟩

lemma andThen_refused {σ : Type*} (x : Ingested σ) (error : String) :
    (x.andThen fun s => ⟨[], s, .refused error⟩).outcome ≠ .done := by
  rw [Ingested.andThen]
  split_ifs with h
  · nofun
  · exact h

/-- An audit log, or a list of events, that is ingested without an error is accounted for if and
only if every event in scope has a status or leaves a gap; and no two events whose envelopes differ
have the same key. -/
theorem accounts_iff (lib : Library) (dec : Decoder) (since : Option Instant) {S : Set Bytes}
    (hS : CollisionFree lib S) {is : List Input} (his : ∀ i ∈ is, FromAudit lib S i) {s : Spool}
    (hs : host.final (.down none) is = .up s) (turns : ℕ → Clock × Write) :
    (∀ name source, source.Patient maxEmptyReads →
      Hashed lib dec since S (calls name source.data) →
      (ingestLog (ingester lib dec since) name source ⟨s, turns⟩).outcome = .done →
        (Accounts lib dec since ⟨s, turns⟩ (calls name source.data) ↔
          AllAnswered lib dec since (calls name source.data))) ∧
      (∀ body place kind items, dec.list body = some (kind, items) →
        Hashed lib dec since S (itemCalls place items) →
        (ingestList lib dec since body place ⟨s, turns⟩).outcome = .done →
          (Accounts lib dec since ⟨s, turns⟩ (itemCalls place items) ↔
            AllAnswered lib dec since (itemCalls place items))) ∧
      ∀ place place' ev ev' r r' key, ingest lib since place ev = .append r key →
        ingest lib since place' ev' = .append r' key → lineOf r ∈ S → lineOf r' ∈ S → r = r' := by
  have hgenuine : Genuine lib S s := genuine_final his hs
  refine ⟨fun name source hpatient hcs h => ?_, fun body place kind items hbody hcs h => ?_, ?_⟩
  · rw [(ingestLog_eq_deliver _ name source hpatient _).1] at h
    exact accounts_deliver hS hgenuine hcs h
  · rw [ingestList, hbody] at h
    by_cases hkind : kind = "" ∨ kind = "EventList"
    · rw [Option.filter_some, if_pos (decide_eq_true hkind)] at h
      exact accounts_deliver hS hgenuine hcs h
    · rw [Option.filter_some, if_neg (by simpa using hkind)] at h
      exact absurd h (andThen_refused _ _)
  · intro place place' ev ev' r r' key hr hr' hmem hmem'
    obtain ⟨-, -, -, -, -, -, -, hkey⟩ := ingest_eq_append hr
    obtain ⟨-, -, -, -, -, -, -, hkey'⟩ := ingest_eq_append hr'
    exact eq_of_dedupKey hS (writable_of_ingest hr).1 (writable_of_ingest hr').1 hmem hmem'
      (hkey.symm.trans hkey')

/-- An event of a log that one can write down. -/
def sampleEvent (status : Option Status) : Event where
  kind := "Event"
  apiVersion := Audit.apiVersion
  auditID := "a1"
  stage := "ResponseComplete"
  verb := "get"
  user := ⟨"alice", "", fun _ => []⟩
  impersonatedUser := none
  objectRef := some ⟨"pods", "", "web", "", "", ""⟩
  responseStatus := status
  stageTimestamp := "2026-01-01T00:00:00Z"

/-- The line of the event, with what stands in it for the status. -/
def sampleLine (status : String) : Bytes :=
  ("\x7b\"kind\":\"Event\",\"apiVersion\":\"audit.k8s.io/v1\",\"auditID\":\"a1\"," ++
    "\"stage\":\"ResponseComplete\",\"verb\":\"get\",\"user\":\x7b\"username\":\"alice\"\x7d," ++
    "\"objectRef\":\x7b\"resource\":\"pods\",\"name\":\"web\"\x7d," ++ status ++
    "\"stageTimestamp\":\"2026-01-01T00:00:00Z\"\x7d").toUTF8.data.toList

def sampleStatus : String := "\"responseStatus\":\x7b\"code\":200\x7d,"

/-- What the lines with and without a status are decoded to. -/
def sampleDecoder : Decoder where
  event line :=
    if line = sampleLine sampleStatus then some (sampleEvent (some ⟨200⟩))
    else if line = sampleLine "" then some (sampleEvent none)
    else none
  list _ := none

def sampleInstant : Instant := ⟨2026, 1, 1, 0, 0, 0, 0⟩

/-- The record of the event. -/
def sampleEnvelope : Json.Fields :=
  recordOf (sampleEvent (some ⟨200⟩)) ⟨"pods", "", "web", "", "", ""⟩ ⟨200⟩ sampleInstant

/-- The time of the event, and the hash of its record. -/
def sampleLibrary : Library where
  parseTime t := if t = "2026-01-01T00:00:00Z" then some sampleInstant else none
  sha256 _ :=
    [221, 230, 154, 227, 184, 200, 52, 211, 146, 251, 65, 113, 62, 96, 82, 49,
      0, 192, 221, 93, 185, 165, 202, 196, 249, 58, 177, 99, 70, 88, 156, 187]

/-- A log that is read at once. -/
def sampleLog (line : Bytes) : Buffered.Source UInt8 := ⟨line, [], true⟩

/-- A new spool, to which everything can be written. -/
def sampleSpool : Spool := Spool.empty Collector.Sample.guardOptions

def sampleTurns (_ : ℕ) : Clock × Write := (sampleClock, .done)

lemma patient_sampleLog (line : Bytes) : (sampleLog line).Patient maxEmptyReads := by
  have hnil : (sampleLog line).script = [] := rfl
  unfold Buffered.Source.Patient
  rw [hnil]
  decide

lemma hashed_sample (cs : List Call) :
    Hashed sampleLibrary sampleDecoder none {lineOf sampleEnvelope} cs := by
  intro line place _ r key hr
  rw [handling] at hr
  cases hev : sampleDecoder.event line with
  | none =>
      rw [hev] at hr
      cases hr
  | some ev =>
      rw [hev] at hr
      obtain ⟨ts, o, status, hts, ho, hstatus, rfl, -⟩ := ingest_eq_append hr
      simp only [sampleDecoder] at hev
      split_ifs at hev
      · obtain rfl := Option.some.inj hev
        cases hts
        cases ho
        cases hstatus
        exact Set.mem_singleton _
      · obtain rfl := Option.some.inj hev
        cases hstatus

lemma event_sampleDecoder (line : Bytes) : sampleDecoder.event line =
    if line = sampleLine sampleStatus then some (sampleEvent (some ⟨200⟩))
    else if line = sampleLine "" then some (sampleEvent none)
    else none := rfl

lemma parseTime_sampleLibrary (t : String) : sampleLibrary.parseTime t =
    if t = "2026-01-01T00:00:00Z" then some sampleInstant else none := rfl

lemma decoded_without_status :
    sampleDecoder.event (sampleLine "") = some (sampleEvent none) := by
  have hne : sampleLine "" ≠ sampleLine sampleStatus := by
    decide +kernel
  rw [event_sampleDecoder, if_neg hne, if_pos rfl]

lemma calls_sampleLog : calls "audit.log" (sampleLog (sampleLine sampleStatus)).data =
    [.raw (sampleLine sampleStatus) "audit.log line 1"] := by
  decide +kernel

lemma sample_takes (e : String) : (Ingester.take sampleLibrary sampleDecoder none
    ⟨sampleSpool, sampleTurns⟩ (.raw (sampleLine sampleStatus) "audit.log line 1")).1 ≠
      .failed e := by
  have hhandling : handling sampleLibrary sampleDecoder none (sampleLine sampleStatus)
      "audit.log line 1" =
        .append sampleEnvelope (dedupKey sampleLibrary "a1" sampleEnvelope) := by
    rw [handling, event_sampleDecoder, if_pos rfl]
    rfl
  have hcanonical : canonicalFields sampleEnvelope = true := by
    decide +kernel
  have hstorable : storable (sampleSpool.evidenceLine sampleEnvelope
      (dedupKey sampleLibrary "a1" sampleEnvelope) (sampleTurns 0).1) = true := by
    decide +kernel
  rw [Ingester.take, hhandling]
  simp only
  rw [append_eq_done hcanonical rfl rfl rfl hstorable]
  nofun

lemma allAnswered_sample : AllAnswered sampleLibrary sampleDecoder none
    (calls "audit.log" (sampleLog (sampleLine sampleStatus)).data) := by
  intro line place hline ev hev _
  rw [calls_sampleLog, List.mem_singleton] at hline
  rw [(Call.raw.inj hline).1, event_sampleDecoder, if_pos rfl] at hev
  rw [← Option.some.inj hev]
  exact Or.inl rfl

/-- A log of one event with a status is accounted for. -/
theorem sample_accounts : Accounts sampleLibrary sampleDecoder none ⟨sampleSpool, sampleTurns⟩
    (calls "audit.log" (sampleLog (sampleLine sampleStatus)).data) := by
  have hS : CollisionFree sampleLibrary {lineOf sampleEnvelope} := Set.injOn_singleton _ _
  have hstarted : ∀ i ∈ [Input.open Collector.Sample.guardOptions sampleClock .done],
      FromAudit sampleLibrary {lineOf sampleEnvelope} i :=
    List.forall_mem_singleton.2 trivial
  have hup : host.final (.down none) [.open Collector.Sample.guardOptions sampleClock .done] =
      .up sampleSpool := rfl
  have hdone : (ingestLog (ingester sampleLibrary sampleDecoder none) "audit.log"
      (sampleLog (sampleLine sampleStatus)) ⟨sampleSpool, sampleTurns⟩).outcome = .done := by
    rw [(ingestLog_eq_deliver _ _ _ (patient_sampleLog _) _).1, calls_sampleLog,
      deliver_ingester sample_takes]
    rfl
  have haccounts := (accounts_iff sampleLibrary sampleDecoder none hS hstarted hup sampleTurns).1
    "audit.log" (sampleLog (sampleLine sampleStatus)) (patient_sampleLog _) (hashed_sample _) hdone
  exact haccounts.2 allAnswered_sample

/-- A log of one event without a status is ingested without an error, and nothing tells of it. -/
theorem sample_not_accounts :
    (ingestLog (ingester sampleLibrary sampleDecoder none) "audit.log" (sampleLog (sampleLine ""))
      ⟨sampleSpool, sampleTurns⟩).outcome = .done ∧
      ¬Accounts sampleLibrary sampleDecoder none ⟨sampleSpool, sampleTurns⟩
        (calls "audit.log" (sampleLog (sampleLine "")).data) := by
  have hcalls : calls "audit.log" (sampleLog (sampleLine "")).data =
      [.raw (sampleLine "") "audit.log line 1"] := by
    decide +kernel
  have hscope : InScope sampleLibrary none (sampleEvent none) := by
    refine ⟨rfl, Or.inr rfl, Or.inl rfl, rfl, sampleInstant, ?_, rfl⟩
    rw [parseTime_sampleLibrary]
    exact if_pos rfl
  have htake : Ingester.take sampleLibrary sampleDecoder none ⟨sampleSpool, sampleTurns⟩
      (.raw (sampleLine "") "audit.log line 1") = (.done, ⟨sampleSpool, sampleTurns⟩) := by
    rw [Ingester.take, handling, decoded_without_status]
    rfl
  have htakes : ∀ e, (Ingester.take sampleLibrary sampleDecoder none ⟨sampleSpool, sampleTurns⟩
      (.raw (sampleLine "") "audit.log line 1")).1 ≠ .failed e := by
    rw [htake]
    nofun
  rw [(ingestLog_eq_deliver _ _ _ (patient_sampleLog _) _).1, hcalls,
    deliver_ingester htakes, accounts_cons htakes, htake]
  refine ⟨rfl, fun h => ?_⟩
  rcases h.1 _ decoded_without_status hscope with
    ⟨o, status, ts, -, hstatus, -⟩ | ⟨gap, hgap, -⟩ | hlt
  · cases hstatus
  · cases hgap
  · exact absurd hlt (lt_irrefl _)

end Audit

end Collector

end Afterlock
