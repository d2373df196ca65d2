import Afterlock.Collector.Ingest

/-!
# The guard of the spool

Before a record is written, `writeLocked` looks for credential material in it.  In the records of
audit events and of gaps there is none to be found (`redaction_complete`): each of their texts was
redacted, is put together from redacted texts by characters that are in no word of credential
material, or is written by the collector itself.
-/

namespace Afterlock

namespace Collector

open Encoding Redaction Redact

/-! ### Records without credential material -/

/-- A value that can be written and read back, at most `d` levels deep and with nothing that the
guard finds. -/
structure Writable (d : ℕ) (x : Json) : Prop where
  canonical : canonical x = true
  clean : problem x = false
  written : ∃ cs, marshal true x = some cs
  shallow : levels x ≤ d

/-- A map of such values, with keys that the guard lets pass. -/
structure WritableFields (d : ℕ) (m : Json.Fields) : Prop where
  canonical : canonicalFields m = true
  fields : ∀ kv ∈ m, forbiddenKeyGo kv.1 = false ∧ Writable d kv.2

lemma writable_str {d : ℕ} {t : String} (h : Redaction.sensitive t = false) :
    Writable (d + 1) (.str t) := ⟨rfl, h, ⟨_, rfl⟩, by simp [levels]⟩

lemma writable_int {d : ℕ} (n : ℤ) : Writable (d + 1) (.int n) :=
  ⟨rfl, rfl, ⟨_, rfl⟩, by simp [levels]⟩

lemma Writable.mono {d e : ℕ} {x : Json} (h : Writable d x) (hle : d ≤ e) : Writable e x :=
  ⟨h.canonical, h.clean, h.written, h.shallow.trans hle⟩

namespace WritableFields

variable {d : ℕ} {m : Json.Fields} {k : String} {v : Json}

lemma nil : WritableFields d [] := ⟨rfl, nofun⟩

lemma put (h : WritableFields d m) (hk : forbiddenKeyGo k = false) (hv : Writable d v) :
    WritableFields d (Encoding.put k v m) where
  canonical := canonicalFields_put hv.canonical h.canonical
  fields kv hkv := by
    rcases mem_put hkv with rfl | hkv
    · exact ⟨hk, hv⟩
    · exact h.fields kv hkv

/-- A field that is set unless it is there. -/
lemma orPut (h : WritableFields d m) (hk : forbiddenKeyGo k = false) (hv : Writable d v) :
    WritableFields d (if Json.has m k then m else Encoding.put k v m) := by
  split_ifs
  · exact h
  · exact h.put hk hv

lemma fromPairs {kvs : Json.Fields} (keys : List String) (hkvs : kvs.map Prod.fst = keys)
    (hkeys : keys.all (fun k => !forbiddenKeyGo k) = true)
    (hvalues : ∀ kv ∈ kvs, Writable d kv.2) : WritableFields d (Encoding.fromPairs kvs) := by
  subst hkvs
  have key (m : Json.Fields) (hm : WritableFields d m) :
      WritableFields d (kvs.foldl (fun m kv => Encoding.put kv.1 kv.2 m) m) := by
    induction kvs generalizing m with
    | nil => exact hm
    | cons kv kvs ih =>
        rw [List.map_cons, List.all_cons, Bool.and_eq_true, Bool.not_eq_true'] at hkeys
        obtain ⟨hkv, hkvs⟩ := List.forall_mem_cons.1 hvalues
        exact ih hkvs hkeys.2 _ (hm.put hkeys.1 hkv)
  exact key [] nil

/-- A map whose fields can be written can be written. -/
lemma obj (h : WritableFields (d + 1) m) : Writable (d + 2) (.obj m) := by
  obtain ⟨hc, hfields⟩ := h
  have hproblem : problemFields m = false ∧ (∃ cs, marshalFields true m = some cs) ∧
      levelsFields m ≤ d + 1 := by
    clear hc
    induction m with
    | nil => exact ⟨rfl, ⟨_, rfl⟩, Nat.zero_le _⟩
    | cons kv m ih =>
        obtain ⟨hkv, hm⟩ := List.forall_mem_cons.1 hfields
        obtain ⟨hp, ⟨ds, hds⟩, hl⟩ := ih hm
        obtain ⟨cs, hcs⟩ := hkv.2.written
        refine ⟨?_, ?_, ?_⟩
        · rw [problemFields, hkv.1, hkv.2.clean, hp]
          rfl
        · rw [marshalFields, hcs, hds]
          exact ⟨_, rfl⟩
        · exact max_le hkv.2.shallow hl
  obtain ⟨hp, ⟨cs, hcs⟩, hl⟩ := hproblem
  refine ⟨hc, hp, ?_, ?_⟩
  · rw [marshal, hcs]
    exact ⟨_, rfl⟩
  · rw [levels]
    omega

/-- The guard lets the line of such a record pass. -/
lemma check_line (h : WritableFields (d + 1) m) (hd : d ≤ 9999) :
    ∃ cs, marshal true (.obj m) = some cs ∧ check (utf8 cs) = true := by
  obtain ⟨hc, hp, ⟨cs, hcs⟩, hl⟩ := h.obj
  refine ⟨cs, hcs, ?_⟩
  have hle : levels (.obj m) ≤ maxNestingDepth + 1 := hl.trans (by
    rw [maxNestingDepth]
    omega)
  rw [check, (unmarshal_marshal hc hcs).1, if_pos hle]
  simp only [hp, Bool.not_false]

end WritableFields

/-! ### Texts without credential material -/

lemma sensitive_eq_false_iff {t : String} :
    Redaction.sensitive t = false ↔ Clean (utf8 t.toList) := clean_utf8_iff.symm

/-- What `String` gives is not sensitive. -/
lemma sensitive_redact (t : String) : Redaction.sensitive (redact t) = false := by
  have h := sensitive_string (utf8 t.toList)
  rwa [string_utf8, sensitive_utf8, String.ofList_toList] at h

/-- A character of numbers, of times and of hexadecimal digits. -/
def plainChar (c : Char) : Bool :=
  c.isDigit || c = '-' || c = ':' || c = 'T' || c = 'Z' || ('a' ≤ c && c ≤ 'f')

/-- The text is of plain characters. -/
def Plain (t : String) : Prop := ∀ c ∈ t.toList, plainChar c = true

lemma Plain.append {t u : String} (ht : Plain t) (hu : Plain u) : Plain (t ++ u) := by
  intro c hc
  rw [String.toList_append, List.mem_append] at hc
  exact hc.elim (ht c) (hu c)

lemma Plain.sensitive {t : String} (h : Plain t) : Redaction.sensitive t = false :=
  sensitive_eq_false_iff.2 (clean_of_forall (by decide) (fun _ => exists_of_word (by decide)
    fun _ => exists_r_of_bearer (by decide)) h)

lemma plain_ofInt (n : ℤ) : Plain (Text.ofInt n) := by
  intro c hc
  rcases numChar_of_mem_ofInt hc with hd | rfl
  · simp [plainChar, hd]
  · decide

lemma plain_padded (w : ℕ) (n : ℤ) : Plain (Audit.padded w n) := by
  refine Plain.append (Plain.append ?_ ?_) (plain_ofInt _)
  · intro c hc
    split_ifs at hc
    · rw [show "-".toList = ['-'] from rfl, List.mem_singleton] at hc
      exact hc ▸ by decide
    · exact absurd hc (by simp)
  · intro c hc
    rw [String.toList_ofList] at hc
    rw [List.eq_of_mem_replicate hc]
    decide

lemma plain_format (t : Audit.Instant) : Plain t.format := by
  have hsep {s : String} (h : s.toList.all plainChar = true) : Plain s := fun c hc =>
    List.all_eq_true.1 h c hc
  unfold Audit.Instant.format
  refine Plain.append (Plain.append (Plain.append (Plain.append (Plain.append (Plain.append
    (Plain.append (Plain.append (Plain.append (Plain.append (Plain.append
      (plain_padded _ _) (hsep rfl)) (plain_padded _ _)) (hsep rfl)) (plain_padded _ _))
        (hsep rfl)) (plain_padded _ _)) (hsep rfl)) (plain_padded _ _)) (hsep rfl))
          (plain_padded _ _)) (hsep rfl)

lemma plain_hex (bs : Bytes) : Plain (Audit.hex bs) := by
  intro c hc
  rw [Audit.hex, String.toList_ofList] at hc
  obtain ⟨b, -, hc⟩ := List.mem_flatMap.1 hc
  have hdigit : ∀ n < 16, plainChar (hexDigit n) = true := by decide
  have hb := b.toNat_lt
  rw [List.mem_cons, List.mem_singleton] at hc
  rcases hc with rfl | rfl
  · exact hdigit _ (by omega)
  · exact hdigit _ (by omega)

/-- Texts that are joined by a colon. -/
lemma sensitive_colon {t u : String} : Redaction.sensitive (t ++ ":" ++ u) = false ↔
    Redaction.sensitive t = false ∧ Redaction.sensitive u = false := by
  rw [sensitive_eq_false_iff, sensitive_eq_false_iff, sensitive_eq_false_iff,
    String.toList_append, String.toList_append, List.append_assoc, utf8_append, utf8_append]
  exact clean_append_cons_iff (c := ':') (by decide) (by decide) (by decide) (by decide)

/-! ### The records of audit events -/

section

variable {d : ℕ} {m : Json.Fields}

lemma writable_redact (t : String) : Writable (d + 1) (.str (redact t)) :=
  writable_str (sensitive_redact t)

lemma WritableFields.putText {key : String} (hk : forbiddenKeyGo key = false) (t : String)
    (h : WritableFields (d + 1) m) : WritableFields (d + 1) (Audit.putText key t m) := by
  unfold Audit.putText
  split_ifs
  · exact h
  · exact h.put hk (writable_redact t)

lemma writable_actorOf (u : Audit.User) : WritableFields (d + 1) (Audit.actorOf u) := by
  have hname : WritableFields (d + 1) (fromPairs [("username", .str (redact u.username))]) :=
    WritableFields.fromPairs ["username"] rfl (by decide)
      (List.forall_mem_singleton.2 (writable_redact _))
  have hactor : WritableFields (d + 1) (if Text.hasPrefix Audit.saPrefix u.username then
      Audit.putText "sa_uid" u.uid (fromPairs [("username", .str (redact u.username))])
    else fromPairs [("username", .str (redact u.username))]) := by
    split_ifs
    · exact hname.putText (by decide) _
    · exact hname
  unfold Audit.actorOf
  cases u.extra Audit.podUIDExtra with
  | nil => exact hactor
  | cons v vs =>
      cases vs with
      | nil => exact hactor.putText (by decide) _
      | cons _ _ => exact hactor

/-- The envelope of an event can be written. -/
lemma writable_toEnvelope (ev : Audit.Event) (o : Audit.ObjectRef) (status : Audit.Status)
    (ts : Audit.Instant) : WritableFields (d + 2) (Audit.toEnvelope ev o status ts) := by
  have haction : WritableFields (d + 1) (Audit.putText "namespace" o.ns (fromPairs
      [("verb", .str (redact ev.verb)), ("api_group", .str (redact o.apiGroup)),
        ("resource", .str (redact o.path))])) :=
    (WritableFields.fromPairs ["verb", "api_group", "resource"] rfl (by decide)
      (List.forall_mem_cons.2 ⟨writable_redact _, List.forall_mem_cons.2 ⟨writable_redact _,
        List.forall_mem_singleton.2 (writable_redact _)⟩⟩)).putText (by decide) _
  have htarget : WritableFields (d + 1)
      (Audit.putText "uid" o.uid (Audit.putText "name" o.name [])) :=
    (WritableFields.nil.putText (by decide) _).putText (by decide) _
  have houtcome : WritableFields (d + 1) (fromPairs [("http_status", .int status.code)]) :=
    WritableFields.fromPairs ["http_status"] rfl (by decide)
      (List.forall_mem_singleton.2 (writable_int _))
  have hprovenance : WritableFields (d + 1) (fromPairs
      [("transport", .str "authenticated-collector"), ("payload_class", .str "metadata-only")]) :=
    WritableFields.fromPairs ["transport", "payload_class"] rfl (by decide)
      (List.forall_mem_cons.2 ⟨writable_str (by decide),
        List.forall_mem_singleton.2 (writable_str (by decide))⟩)
  refine WritableFields.fromPairs ["event_type", "observed_at", "actor", "action", "target",
    "outcome", "provenance"] rfl (by decide) fun kv hkv => ?_
  simp only [List.mem_cons, List.not_mem_nil, or_false] at hkv
  rcases hkv with rfl | rfl | rfl | rfl | rfl | rfl | rfl
  · exact writable_str (by decide)
  · exact writable_str (plain_format ts).sensitive
  · exact (writable_actorOf ev.user).obj
  · exact haction.obj
  · exact htarget.obj
  · exact houtcome.obj
  · exact hprovenance.obj

end

/-- The record that `ingest` hands to `Append` can be written, and so can its key. -/
lemma writable_of_ingest {lib : Audit.Library} {since : Option Audit.Instant} {place key : String}
    {ev : Audit.Event} {r : Json.Fields} (h : Audit.ingest lib since place ev = .append r key) :
    WritableFields 2 r ∧ Redaction.sensitive key = false := by
  obtain ⟨ts, o, status, -, -, -, rfl, rfl⟩ := Audit.ingest_eq_append h
  have hid : Redaction.sensitive ("audit" ++ ":" ++ redact ev.auditID) = false :=
    sensitive_colon.2 ⟨by decide, sensitive_redact _⟩
  have haudit : ("audit:" : String) = "audit" ++ ":" := rfl
  refine ⟨(writable_toEnvelope ev o status ts).put (by decide) (writable_str ?_), ?_⟩
  · rwa [haudit]
  · rw [Audit.dedupKey, haudit]
    exact sensitive_colon.2 ⟨hid, (plain_hex _).sensitive⟩

/-! ### The records of the spool -/

/-- A name of a source or a cluster is not sensitive, and neither is one with a number behind it. -/
def Harmless (name : Bytes) : Prop :=
  sensitive name = false ∧
    ∀ ds : List Char, (∀ c ∈ ds, c.isDigit = true) → sensitive (name ++ utf8 ('-' :: ds)) = false

/-- The kinds of the gaps that the collector records. -/
def gapKinds : List String :=
  ["audit-dropped", "audit-before-window", "audit-malformed", "audit-unmodeled",
    "collector-restart", "spool-overflow", "spool-overflow-summary", "list-failed", "relist",
    "resource-version-expired", "watch-failed", "watch-restarted", "watch-error"]

lemma sensitive_gapKind {kind : String} (h : kind ∈ gapKinds) :
    Redaction.sensitive kind = false := by
  have hall : gapKinds.all (fun kind => !Redaction.sensitive kind) = true := by decide
  simpa using List.all_eq_true.1 hall kind h

/-- The record of a gap whose reason may have any bytes. -/
def gapFields (opt : Options) (kind : String) (reason : Bytes) (n : ℤ) (observed : String) :
    Json.Fields :=
  fromPairs
    [("event_type", .str "collector.gap"),
      ("gap_id", .str (opt.sourceId ++ ":" ++ kind ++ ":" ++ Text.ofInt n)),
      ("gap_kind", .str kind),
      ("reason", .str (asText (string reason))),
      ("observed_at", .str observed)]

/-- For a reason in UTF-8 it is the record of `gapLocked`. -/
lemma gapFields_utf8 (opt : Options) (kind reason : String) (n : ℤ) (observed : String) :
    gapFields opt kind (utf8 reason.toList) n observed =
      gapRecord opt kind reason n observed := by
  rw [gapFields, gapRecord, string_utf8, asText, asChars_utf8, String.ofList_toList]

section

variable {opt : Options} {d : ℕ} {m : Json.Fields}

lemma writable_gapFields (hsource : Redaction.sensitive opt.sourceId = false) {kind : String}
    (hkind : kind ∈ gapKinds) (reason : Bytes) (n : ℤ) (observed : Audit.Instant) :
    WritableFields (d + 1) (gapFields opt kind reason n observed.format) := by
  have hk := sensitive_gapKind hkind
  refine WritableFields.fromPairs ["event_type", "gap_id", "gap_kind", "reason", "observed_at"] rfl
    (by decide) fun kv hkv => ?_
  simp only [List.mem_cons, List.not_mem_nil, or_false] at hkv
  rcases hkv with rfl | rfl | rfl | rfl | rfl
  · exact writable_str (by decide)
  · exact writable_str (sensitive_colon.2
      ⟨sensitive_colon.2 ⟨hsource, hk⟩, (plain_ofInt n).sensitive⟩)
  · exact writable_str hk
  · exact writable_str (sensitive_asText (sensitive_string reason))
  · exact writable_str (plain_format observed).sensitive

/-- A record can be written with what `writeLocked` adds. -/
lemma writable_stamp {source cluster : Bytes} (hsource : opt.sourceId = asText source)
    (hcluster : opt.clusterId = asText cluster) (hs : Harmless source) (hc : Harmless cluster)
    {seq : ℤ} (hseq : 0 ≤ seq) (ingested : Audit.Instant) (h : WritableFields (d + 1) m) :
    WritableFields (d + 1) (stamp opt seq ingested.format m) := by
  have hid : Redaction.sensitive (opt.sourceId ++ "-" ++ Text.ofInt seq) = false := by
    have hdigits : ∀ c ∈ (Text.ofInt seq).toList, c.isDigit = true := by
      obtain ⟨n, rfl⟩ := Int.eq_ofNat_of_zero_le hseq
      rw [Text.ofInt_natCast]
      exact fun c hc => Text.isDigit_of_mem_toDigits hc
    have htext : opt.sourceId ++ "-" ++ Text.ofInt seq =
        asText (source ++ utf8 ('-' :: (Text.ofInt seq).toList)) := by
      have hminus : ∀ b ∈ (utf8 ('-' :: (Text.ofInt seq).toList)).head?, b.toNat < 128 := by
        rw [head?_utf8 (by decide)]
        rintro b hb
        obtain rfl := Option.some.inj hb
        decide
      rw [asText, asChars_append source hminus, asChars_utf8, hsource, asText]
      refine String.toList_inj.1 ?_
      simp [String.toList_append]
    rw [htext]
    exact sensitive_asText (hs.2 _ hdigits)
  have hsourceId : Redaction.sensitive opt.sourceId = false := hsource ▸ sensitive_asText hs.1
  have hclusterId : Redaction.sensitive opt.clusterId = false := hcluster ▸ sensitive_asText hc.1
  have hbase := (((h.put (k := "schema_version") (by decide)
    (writable_str (t := "1") (by decide))).put (k := "source_id") (by decide)
      (writable_str hsourceId)).put (k := "cluster_id") (by decide)
        (writable_str hclusterId)).put (k := "source_sequence") (by decide) (writable_int seq)
  exact (hbase.orPut (k := "event_id") (by decide) (writable_str hid)).orPut
    (k := "ingested_at") (by decide) (writable_str (plain_format ingested).sensitive)

end

/-! ### The sequence number -/

lemma seq_call {s : Spool} (h : 0 ≤ s.seq) (c : Call) : 0 ≤ (s.call c).2.seq := by
  have heffect := effect_call s c
  generalize (s.call c).1.stored = stored at heffect
  generalize (s.call c).2 = s' at heffect
  cases heffect with
  | quiet hlog _ _ => rwa [hlog.seq]
  | gapRefused _ hlog _ _ => rwa [hlog.seq]
  | gapTorn _ _ hlog _ _ => rwa [hlog.seq]
  | torn _ _ hlog _ _ => rwa [hlog.seq]
  | gap _ _ hlog _ _ =>
      rw [hlog.seq]
      exact Int.add_nonneg h (by decide)
  | evidence _ _ _ hlog _ _ =>
      rw [hlog.seq]
      exact Int.add_nonneg h (by decide)

lemma seq_adopt {s : Spool} (h : 0 ≤ s.seq) (r : Json.Fields) : 0 ≤ (adopt s r).seq := by
  unfold adopt
  cases float64? (Json.get r "source_sequence") with
  | none => exact h
  | some n =>
      simp only
      split_ifs with hn
      · exact h.trans hn.le
      · exact h

lemma seq_parseExisting (ls : List Bytes) {s : Spool} (h : 0 ≤ s.seq) :
    0 ≤ (parseExisting ls s).2.seq := by
  induction ls generalizing s with
  | nil => exact h
  | cons l ls ih =>
      rw [parseExisting]
      cases object? l with
      | none => exact h
      | some r => exact ih (seq_adopt h r)

/-- A host whose process, if there is one, has not counted below zero. -/
def Host.Counts (h : Host) : Prop := ∀ s, h = .up s → 0 ≤ s.seq

lemma counts_openSpool (opt : Options) (file : Option Bytes) (now : Clock) (w : Write) :
    (openSpool opt file now w).2.Counts := by
  unfold openSpool
  split_ifs
  · rintro _ ⟨⟩
  cases file with
  | none =>
      rintro _ ⟨⟩
      exact Int.le_refl 0
  | some existing =>
      have hparse := seq_parseExisting (Lines.split 10 existing).1 (s := Spool.empty opt)
        (Int.le_refl 0)
      simp only
      generalize parseExisting (Lines.split 10 existing).1 (Spool.empty opt) = parsed at hparse
      have hcall := seq_call (s := { parsed.2 with
        file := existing.take parsed.1, size := (existing.take parsed.1).length }) hparse
          (.gap "collector-restart" (restartReason (decide (parsed.1 < existing.length))) now w)
      rw [Spool.call, gap] at hcall
      generalize gapLocked _ "collector-restart" _ now w = g at hcall ⊢
      obtain ⟨e | stored, s⟩ := g
      · rintro _ ⟨⟩
      · rintro _ ⟨⟩
        exact hcall

lemma counts_step {h : Host} (hh : h.Counts) (i : Input) : (h.step i).2.Counts := by
  cases h with
  | up s =>
      cases i with
      | «open» opt now w => exact hh
      | call c =>
          rintro _ ⟨⟩
          exact seq_call (hh s rfl) c
      | crash torn => nofun
  | down file =>
      cases i with
      | call c => exact hh
      | crash torn => exact hh
      | «open» opt now w => exact counts_openSpool opt file now w

lemma counts_final {h : Host} (hh : h.Counts) (is : List Input) : (host.final h is).Counts := by
  induction is generalizing h with
  | nil => exact hh
  | cons i is ih => exact ih (counts_step hh i)

/-- The sequence number of a spool is never negative. -/
lemma seq_nonneg {file : Option Bytes} {is : List Input} {s : Spool}
    (h : host.final (.down file) is = .up s) : 0 ≤ s.seq :=
  counts_final (h := .down file) nofun is s h

/-! ### The guard -/

/-- `Check` finds nothing in the line of a record, and `writeLocked` does not refuse it for what is
in it.  A gap is written when its number has been counted. -/
def Passes (s : Spool) (ingested : String) (r : Json.Fields) : Prop :=
  (∃ cs, marshal true (.obj (stamp s.opt (s.seq + 1) ingested r)) = some cs ∧
      check (utf8 cs) = true) ∧
    ∀ (n : ℤ) (w : Write),
      (writeLocked { s with gapSeq := n } r ingested w).1 ≠ .error .credential

lemma passes_of_writable {s : Spool} {ingested : String} {r : Json.Fields}
    (h : WritableFields 2 (stamp s.opt (s.seq + 1) ingested r)) : Passes s ingested r := by
  obtain ⟨cs, hcs, hcheck⟩ := h.check_line (by decide)
  refine ⟨⟨cs, hcs, hcheck⟩, fun n w herror => ?_⟩
  unfold writeLocked line? at herror
  simp only [hcs, hcheck, if_true] at herror
  by_cases hlen : (utf8 cs).length + 1 > maxLineBytes
  · rw [if_pos hlen] at herror
    cases herror
  · rw [if_neg hlen] at herror
    cases w <;> cases herror

/-- `String` gives a string that is not sensitive, is not too long and is the same if it was so
before; and the guard lets every record of an audit event and of a gap pass. -/
theorem redaction_complete :
    (∀ s : Bytes, sensitive (string s) = false ∧ (string s).length ≤ Redaction.maxString ∧
      (s.length ≤ Redaction.maxString → sensitive s = false → string s = s) ∧
        string (string s) = string s) ∧
    ∀ (source cluster : Bytes) (file : Option Bytes) (is : List Input) (s : Spool),
      Harmless source → Harmless cluster → host.final (.down file) is = .up s →
      s.opt.sourceId = asText source → s.opt.clusterId = asText cluster →
      ∀ ingested : Audit.Instant,
        (∀ lib since place ev r key, Audit.ingest lib since place ev = .append r key →
          Passes s ingested.format (put "_dedup" (.str key) r)) ∧
        ∀ kind ∈ gapKinds, ∀ (reason : Bytes) (n : ℤ) (observed : Audit.Instant),
          Passes s ingested.format (gapFields s.opt kind reason n observed.format) := by
  constructor
  · exact fun s => ⟨sensitive_string s, length_string_le s, string_eq_self, string_string s⟩
  · intro source cluster file is s hs hc hrun hsource hcluster ingested
    have hseq : 0 ≤ s.seq + 1 := Int.add_nonneg (seq_nonneg hrun) (by decide)
    have hsourceId : Redaction.sensitive s.opt.sourceId = false :=
      hsource ▸ sensitive_asText hs.1
    constructor
    · intro lib since place ev r key h
      obtain ⟨hr, hkey⟩ := writable_of_ingest h
      exact passes_of_writable (writable_stamp hsource hcluster hs hc hseq ingested
        (hr.put (by decide) (writable_str hkey)))
    · intro kind hkind reason n observed
      exact passes_of_writable (writable_stamp hsource hcluster hs hc hseq ingested
        (writable_gapFields hsourceId hkind reason n observed))

namespace Sample

def guardOptions : Options where
  maxBytes := 8192
  maxRecords := 8
  sourceId := "src"
  clusterId := "prod"

end Sample

/-- A label is harmless. -/
lemma harmless_label {t : String} (h : t.toList.all labelChar = true) :
    Harmless (utf8 t.toList) := by
  rw [List.all_eq_true] at h
  constructor
  · rw [sensitive_utf8, String.ofList_toList]
    exact sensitive_label h
  · intro ds hds
    rw [utf8, utf8, ← List.flatMap_append, ← utf8, sensitive_utf8]
    refine sensitive_label fun c hc => ?_
    rw [String.toList_ofList, List.mem_append, List.mem_cons] at hc
    rcases hc with hc | rfl | hc
    · exact h c hc
    · decide
    · simp [labelChar, hds c hc]

/-- A gap in a new spool passes the guard. -/
theorem gap_passes : Passes (Spool.empty Sample.guardOptions) "2026-01-01T00:00:00Z"
    (gapFields Sample.guardOptions "audit-dropped" (utf8 "eyJhbGciOi.eyJzdWIiOi".toList) 1
      "2026-01-01T00:00:00Z") :=
  (redaction_complete.2 (utf8 "src".toList) (utf8 "prod".toList) none
    [.open Sample.guardOptions sampleClock .done] (Spool.empty Sample.guardOptions)
    (harmless_label (by decide)) (harmless_label (by decide)) rfl
    (by rw [asText, asChars_utf8, String.ofList_toList]; rfl)
    (by rw [asText, asChars_utf8, String.ofList_toList]; rfl) ⟨2026, 1, 1, 0, 0, 0, 0⟩).2
    "audit-dropped" (by decide) _ 1 ⟨2026, 1, 1, 0, 0, 0, 0⟩

end Collector

end Afterlock
