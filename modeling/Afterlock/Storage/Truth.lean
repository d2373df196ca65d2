import Afterlock.Storage.Worker

/-!
# What workers report

A report is true if the storage bears it out when the execution stops (`Tells`).  What an execution
relies on between two of its calls is kept by everybody else's calls: a lease that a heartbeat has
found lost stays so, and after cancellation was asked for a lease is either lost or its holder may
acknowledge the cancellation (`Yielded`).

One answer is not looked at: after `mark_running` has told of a cancellation, the execution reports
it whether or not it could still acknowledge it.  Apart from that every report is true
(`workers_truthful_iff`).
-/

namespace Afterlock

namespace Storage

section

variable {digest : Json → String} {caps : Caps} {executor : String → Json.Fields → Executed}
  {s s' : Store} {l : Lease}

/-! ### Leases that others cannot revive -/

/-- While the attempt of the lease lasts, the lease has run out or cancellation is asked for. -/
def Yielded (l : Lease) (now : Time) (s : Store) : Prop :=
  ∀ j, s.job? l.jobId = some j → l.attempt = j.attempts → j.state.active = true →
    j.lapsed now = true ∨ j.cancelRequested = true

lemma lapsed_mono {j : Job} {now now' : Time} (hle : now ≤ now') (h : j.lapsed now = true) :
    j.lapsed now' = true := by
  unfold Job.lapsed at h ⊢
  cases ht : j.leaseExpiresAt with
  | none => rfl
  | some t =>
      rw [ht] at h
      exact decide_eq_true ((of_decide_eq_true h).trans hle)

lemma Stale.mono {now now' : Time} (h : Stale l now s) (hle : now ≤ now') : Stale l now' s :=
  fun j hj hatt hact => lapsed_mono hle (h j hj hatt hact)

lemma Yielded.mono {now now' : Time} (h : Yielded l now s) (hle : now ≤ now') : Yielded l now' s :=
  fun j hj hatt hact => (h j hj hatt hact).imp_left (lapsed_mono hle)

lemma Stale.yielded {now : Time} (h : Stale l now s) : Yielded l now s :=
  fun j hj hatt hact => .inl (h j hj hatt hact)

/-- Cancellation stays asked for while the attempt lasts. -/
lemma Move.cancelRequested {rs : List Time} {j j' : Job} (hm : Move rs j j')
    (hatt : j'.attempts = j.attempts) (h : j.cancelRequested = true) :
    j'.cancelRequested = true := by
  cases hm with
  | publish _ hc => exact absurd h (by simp [hc])
  | change hm =>
      cases hm with
      | cancel =>
          unfold Job.cancel
          split_ifs
          · rfl
          · rfl
          · exact h
      | lease => exact absurd hatt (Nat.succ_ne_self _)
      | _ => exact h

lemma Granted.yielded_effect (hk : Keyed s) {op : Op} (he : Effect s op s') {j : Job} {now : Time}
    (hrs : ∀ t ∈ op.readings, now ≤ t) (h : Granted l s j) (hy : Yielded l now s) :
    Yielded l now s' := by
  obtain ⟨j', hj', hmove⟩ := h.effect hk he
  intro x hx hatt hact
  obtain rfl : j' = x := Option.some.inj (hj'.job.symm.trans hx)
  rcases hmove with rfl | hmove
  · exact hy _ h.job hatt hact
  · have hatt' : j'.attempts = j.attempts :=
      le_antisymm (hatt.ge.trans h.attempt) hmove.attempts_le
    have hact' := (hmove.kept_or_idle hatt' hact).1
    rcases hy j h.job (hatt.trans hatt') hact' with hlapsed | hcancel
    · exact .inl (hmove.lapsed hrs hatt' hact hlapsed)
    · exact .inr (hmove.cancelRequested hatt' hcancel)

/-- A lease that is held though it was yielded is one whose cancellation is asked for. -/
lemma Yielded.cancelRequested {now now' : Time} (h : Yielded l now s) (hle : now ≤ now') {j : Job}
    (hh : MemoryStorage.held l now' s = some j) : j.cancelRequested = true := by
  obtain ⟨hj, -, hact, -, hatt, hlapsed⟩ := held_eq_some_iff.1 hh
  rcases h j hj hatt.symm hact with hold | hcancel
  · exact absurd (lapsed_mono hle hold) (by simp [hlapsed])
  · exact hcancel

/-! ### What the calls of an execution do -/

lemma job?_updateJob {jid : String} {j : Job} (f : Job → Job) (hf : ∀ x, (f x).jobId = x.jobId)
    (hj : s.job? jid = some j) : (s.updateJob jid f).job? jid = some (f j) := by
  unfold Store.job? Store.updateJob at *
  rw [Option.map_eq_some_iff] at hj
  obtain ⟨e, he, rfl⟩ := hj
  rw [List.find?_map]
  have hsame : ((fun e : Entry => decide (e.job.jobId = jid)) ∘ fun e =>
      if e.job.jobId = jid then { e with job := f e.job } else e) =
      fun e => decide (e.job.jobId = jid) := by
    funext e
    simp only [Function.comp]
    split_ifs with h
    · simp [hf, h]
    · simp [h]
  have hid : e.job.jobId = jid := by simpa using List.find?_some he
  rw [hsame, he]
  simp [hid]

/-- What `fail` does. -/
lemma fail_cases (l : Lease) (e : String) (retryable : Bool) (now : Time) (s : Store) :
    (MemoryStorage.held l now s = none ∧ MemoryStorage.fail l e retryable now s = (none, s)) ∨
      ∃ j j' : Job, MemoryStorage.held l now s = some j ∧
        (MemoryStorage.fail l e retryable now s).1 = some j'.state ∧
        (MemoryStorage.fail l e retryable now s).2.job? l.jobId = some j' := by
  unfold MemoryStorage.fail
  cases hh : MemoryStorage.held l now s with
  | none => exact .inl ⟨rfl, rfl⟩
  | some j =>
      refine .inr ⟨j, j.release (MemoryStorage.failState j retryable) (some e), rfl, rfl, ?_⟩
      exact job?_updateJob (fun j' => j'.release (MemoryStorage.failState j retryable) (some e))
        (fun _ => rfl) (held_job? hh).1

/-- What `acknowledge_cancel` does. -/
lemma acknowledgeCancel_cases (l : Lease) (now : Time) (s : Store) :
    ((∀ j, MemoryStorage.held l now s = some j → j.cancelRequested = false) ∧
        MemoryStorage.acknowledgeCancel l now s = (false, s)) ∨
      ∃ j, MemoryStorage.held l now s = some j ∧
        (MemoryStorage.acknowledgeCancel l now s).1 = true ∧
        (MemoryStorage.acknowledgeCancel l now s).2.job? l.jobId =
          some (j.release .cancelled none) := by
  unfold MemoryStorage.acknowledgeCancel
  cases hh : MemoryStorage.held l now s with
  | none => exact .inl ⟨fun j hj => absurd hj (by simp), rfl⟩
  | some j =>
      cases hc : j.cancelRequested with
      | false =>
          refine .inl ⟨fun j' hj' => Option.some.inj hj' ▸ hc, ?_⟩
          simp [hc]
      | true =>
          refine .inr ⟨j, rfl, ?_⟩
          simp only [hc, if_true, true_and]
          exact job?_updateJob (fun j => j.release .cancelled none) (fun _ => rfl)
            (held_job? hh).1

/-- What `mark_running` and `heartbeat` do. -/
lemma markRunning_cases (l : Lease) (secs checked now : Time) (s : Store) :
    (MemoryStorage.held l checked s = none ∧
        MemoryStorage.markRunning l secs checked now s = (.lost, s)) ∨
      ∃ j, MemoryStorage.held l checked s = some j ∧
        (MemoryStorage.markRunning l secs checked now s).1 =
          (if j.cancelRequested then .cancel else .ok) ∧
        (MemoryStorage.markRunning l secs checked now s).2.job? l.jobId =
          some { j.extend secs now with state := .running } := by
  cases hh : MemoryStorage.held l checked s with
  | none =>
      refine .inl ⟨rfl, ?_⟩
      unfold MemoryStorage.markRunning MemoryStorage.heartbeat
      rw [hh]
      rfl
  | some j =>
      refine .inr ⟨j, rfl, ?_, ?_⟩
      · unfold MemoryStorage.markRunning MemoryStorage.heartbeat
        rw [hh]
        cases hc : j.cancelRequested <;> simp [hc]
      · rw [markRunning_store, hh]
        exact job?_updateJob (fun j => { j.extend secs now with state := .running })
          (fun _ => rfl) (held_job? hh).1

/-- A manifest that a lease hands out is stored, and so is its case. -/
structure Housed (s : Store) : Prop where
  case : ∀ m ∈ s.manifests, s.cases.contains (m.clusterId, m.caseId) = true

lemma Housed.effect {op : Op} (he : Effect s op s') (h : Housed s) : Housed s' := by
  have hput {m : Manifest} (hm : s.cases.contains (m.clusterId, m.caseId) = true) :
      ∀ x ∈ (s.withManifest m).manifests, s.cases.contains (x.clusterId, x.caseId) = true := by
    intro x hx
    rcases mem_withManifest_iff hx with rfl | hx
    · exact hm
    · exact h.case x hx
  cases he with
  | jobs | publish => exact ⟨h.case⟩
  | case c _ => exact ⟨fun m hm => contains_put (h.case m hm)⟩
  | manifest m _ hm => exact ⟨by simpa using hput hm⟩
  | analysis m _ hm => exact ⟨by simpa using hput hm⟩
  | enqueue m _ hm => exact ⟨by simpa using hput hm⟩

lemma World.Reachable.housed {w : World} (h : w.Reachable digest caps) : Housed w.store :=
  h.invariant (P := fun w => Housed w.store)
    ⟨by simp [World.initial, Store.initial]⟩
    fun _ _ hk hh hm => hh.effect (call_effect hk hm.2)

/-- What `complete` does with a lease that was handed out. -/
lemma complete_cases (hrec : Recorded s) (hh : Housed s) {j : Job}
    (hg : Granted l s j) (r : Json) (digits : String) (now : Time) :
    (Yielded l now (MemoryStorage.complete caps l r digits now s).2 ∧
        (MemoryStorage.complete caps l r digits now s).1 = .ok none) ∨
      (∃ e, (MemoryStorage.complete caps l r digits now s).1 = .error e) ∨
      ∃ rid, (MemoryStorage.complete caps l r digits now s).1 = .ok (some rid) ∧
        MemoryStorage.held l now s = some j ∧ s.resultByJob.contains l.jobId = false ∧
        (MemoryStorage.complete caps l r digits now s).2.resultByJob.contains l.jobId = true ∧
        MemoryStorage.jobResult j l.manifest r rid ∈
          (MemoryStorage.complete caps l r digits now s).2.results := by
  unfold MemoryStorage.complete
  cases hheld : MemoryStorage.held l now s with
  | none => exact .inl ⟨(hg.stale hheld).yielded, rfl⟩
  | some j' =>
      obtain rfl : j = j' := Option.some.inj (hg.job.symm.trans (held_job? hheld).1)
      obtain ⟨e, he, hej, -⟩ := exists_of_job? hg.job
      have hact := (held_job? hheld).2
      -- the job is leased, so that it has no result yet
      have hnone : s.resultByJob.contains j.jobId = false := by
        rw [Bool.eq_false_iff]
        intro hpub
        have hsucc := (hrec.succeeded e he).2 (hej ▸ hpub)
        rw [hej] at hsucc
        simp [hsucc, JobState.active] at hact
      have hmem : l.manifest ∈ s.manifests := (Table.get?_eq_some_iff.1 hg.manifest).1
      simp only [hnone, Bool.or_false, hg.manifest, hh.case _ hmem]
      by_cases hc : j.cancelRequested = true
      · rw [if_pos hc]
        refine .inl ⟨fun x hx _ _ => .inr ?_, rfl⟩
        exact Option.some.inj (hg.job.symm.trans hx) ▸ hc
      rw [if_neg hc, if_neg (by simp)]
      by_cases hcap : caps.maxResults ≤ s.results.rows.length
      · rw [if_pos hcap]
        refine .inl ⟨fun x hx _ hx' => ?_, rfl⟩
        have hfailed := job?_updateJob (fun j => j.release .failed (some
          ("in-memory result limit (" ++ Text.ofInt caps.maxResults ++ ") reached")))
          (fun _ => rfl) hg.job
        rw [hfailed] at hx
        rw [← Option.some.inj hx] at hx'
        exact absurd hx' (by simp [Job.release, JobState.active])
      rw [if_neg hcap]
      cases resultPrefix j.kind with
      | none => exact .inr (.inl ⟨_, rfl⟩)
      | some p =>
          refine .inr (.inr ⟨_, rfl, trivial, hg.jobId ▸ hnone, ?_, ?_⟩)
          · exact Table.contains_iff.2 ⟨_, Table.mem_put_self, hg.jobId⟩
          · exact Table.mem_put_self

/-! ### True reports -/

/-- An execution has published what the executor made of the payload of an intact manifest, the one
of the lease that it held, and the job had no result before. -/
structure Published (digest : Json → String) (executor : String → Json.Fields → Executed) (l : Lease)
    (r : Json) (rid : String) (now : Time) (s s' : Store) : Prop where
  executed : executor l.kind l.manifest.payload = .result r
  intact : manifestIntact digest l.manifest = true
  held : (MemoryStorage.held l now s).isSome = true
  fresh : s.resultByJob.contains l.jobId = false
  recorded : s'.resultByJob.contains l.jobId = true
  stored : ∃ x ∈ s'.results, x.resultId = rid ∧ x.jobId = some l.jobId ∧
    x.manifestId = l.manifest.manifestId ∧ x.result = r

/-- The execution called `fail` with its lease while it held it, which moved the job to a state. -/
def FailedTo (p : Phase) (op : Option Op) (s s' : Store) (jobId : Option String)
    (state : JobState) : Prop :=
  ∃ l e retryable now j j', p.lease? = some l ∧ op = some (.fail l e retryable now) ∧
    jobId = some l.jobId ∧ MemoryStorage.held l now s = some j ∧ s'.job? l.jobId = some j' ∧
    j'.state = state

/-- The storage bears out what an execution reports: `s` and `s'` are the stores before and after
its last step, `p` is its phase and `op` its call. -/
def Tells (digest : Json → String) (executor : String → Json.Fields → Executed) (p : Phase)
    (op : Option Op) (s s' : Store) (clock : Time) (o : Outcome) : Prop :=
  match o.state with
  | .idle => p.lease? = none
  | .lost => ∃ l, p.lease? = some l ∧ o.jobId = some l.jobId ∧
      ∀ now, clock ≤ now → MemoryStorage.held l now s' = none
  | .job .succeeded => ∃ l r digits now rid, p = .completing l r ∧
      op = some (.complete l r digits now) ∧ o = ⟨some l.jobId, .job .succeeded, some rid⟩ ∧
      Published digest executor l r rid now s s'
  | .job .cancelled => ∃ l j, p.lease? = some l ∧ o.jobId = some l.jobId ∧
      s'.job? l.jobId = some j ∧ j.state = .cancelled
  | .job state => FailedTo p op s s' o.jobId state

/-- What holds of an execution between its steps. -/
def Phase.Fits (digest : Json → String) (executor : String → Json.Fields → Executed)
    (leases : List Lease) (clock : Time) (s : Store) : Phase → Prop
  | .free | .claiming _ _ => True
  | .rejecting l | .failing l _ _ => l ∈ leases
  | .marking l _ => l ∈ leases ∧ manifestIntact digest l.manifest = true
  | .yielding l | .conceding l => l ∈ leases ∧ Yielded l clock s
  | .executing l _ flags => l ∈ leases ∧ manifestIntact digest l.manifest = true ∧
      (flags.lost = true → Stale l clock s)
  | .acknowledging l r | .completing l r => l ∈ leases ∧ manifestIntact digest l.manifest = true ∧
      executor l.kind l.manifest.payload = .result r

lemma Phase.Fits.lease_mem {leases : List Lease} {clock : Time} {p : Phase}
    (h : p.Fits digest executor leases clock s) (hl : p.lease? = some l) : l ∈ leases := by
  cases p with
  | free | claiming => cases hl
  | rejecting | failing => exact Option.some.inj hl ▸ h
  | _ => exact Option.some.inj hl ▸ h.1

lemma le_clock {op : Op} {clock : Time} (h : (clock :: op.readings).Pairwise (· ≤ ·)) :
    clock ≤ op.clock clock := by
  unfold Op.clock
  cases hlast : op.readings.getLast? with
  | none => exact le_rfl
  | some t => exact (List.pairwise_cons.1 h).1 t (List.mem_of_getLast? hlast)

/-- The calls of others keep what holds of an execution. -/
lemma Phase.Fits.step {w : World} (hw : w.Reachable digest caps) {op : Op} (hm : w.May op)
    {clock : Time} (hclock : (clock :: op.readings).Pairwise (· ≤ ·)) {p : Phase}
    (h : p.Fits digest executor w.leases clock w.store) :
    p.Fits digest executor ((memory digest caps).step w op).2.leases (op.clock clock)
      ((memory digest caps).step w op).2.store := by
  have he : Effect w.store op ((memory digest caps).step w op).2.store := call_effect hw.keyed hm.2
  have hle := le_clock hclock
  have hrs := (List.pairwise_cons.1 hclock).1
  have hmem {l : Lease} (hl : l ∈ w.leases) : l ∈ ((memory digest caps).step w op).2.leases :=
    List.mem_append_right _ hl
  have hyielded {l : Lease} (hl : l ∈ w.leases) (hy : Yielded l clock w.store) :
      Yielded l (op.clock clock) ((memory digest caps).step w op).2.store := by
    obtain ⟨j, hj⟩ := hw.leased.granted l hl
    exact (hj.yielded_effect hw.keyed he hrs hy).mono hle
  cases p with
  | free | claiming => trivial
  | rejecting | failing => exact hmem h
  | marking => exact ⟨hmem h.1, h.2⟩
  | yielding | conceding => exact ⟨hmem h.1, hyielded h.1 h.2⟩
  | acknowledging | completing => exact ⟨hmem h.1, h.2⟩
  | executing l secs flags =>
      refine ⟨hmem h.1, h.2.1, fun hlost => ?_⟩
      obtain ⟨j, hj⟩ := hw.leased.granted l h.1
      exact (hj.stale_effect hw.keyed he hrs (h.2.2 hlost)).mono hle

/-! ### The calls of an execution -/

/-- The call of an execution leads to a phase that fits, and what it reports is true. -/
structure Goes (digest : Json → String) (caps : Caps) (executor : String → Json.Fields → Executed)
    (w : World) (clock : Time) (p : Phase) (op : Op) : Prop where
  fits : (p.next digest ((memory digest caps).step w op).1).2.Fits digest executor
    ((memory digest caps).step w op).2.leases (op.clock clock)
    ((memory digest caps).step w op).2.store
  tells : ∀ o, (p.next digest ((memory digest caps).step w op).1).1 = some o →
    Tells digest executor p (some op) w.store ((memory digest caps).step w op).2.store
      (op.clock clock) o

section

variable {w : World} {clock : Time}

lemma goes_claiming (owner : String) (secs now : Time) :
    Goes digest caps executor w clock (.claiming owner secs) (.claim owner secs none now) := by
  obtain ⟨answer, w', hstep⟩ : ∃ answer w', (memory digest caps).step w
      (.claim owner secs none now) = (answer, w') := ⟨_, _, rfl⟩
  have hleases : w'.leases = answer.lease?.toList ++ w.leases := by
    have h := congrArg (fun x => x.2.leases) hstep
    have h' := congrArg Prod.fst hstep
    simp only [memory] at h h'
    rw [← h, h']
  constructor
  · rw [hstep]
    cases answer with
    | lease l? =>
        cases l? with
        | none => trivial
        | some l =>
            have hl : l ∈ w'.leases := by rw [hleases]; exact List.mem_cons_self
            simp only [Phase.next]
            split_ifs with hi
            · exact ⟨hl, hi⟩
            · exact hl
    | _ => trivial
  · rw [hstep]
    intro o ho
    cases answer with
    | lease l? =>
        cases l? with
        | none =>
            obtain rfl := Option.some.inj ho
            rfl
        | some l => cases ho
    | _ => cases ho

/-- A call of `fail` reports where it has moved the job, or that the lease is lost. -/
lemma tells_failed {p : Phase} (hl : p.lease? = some l) (e : String) (retryable : Bool) (now : Time)
    (hstale : MemoryStorage.held l now s = none → Stale l now s) :
    Tells digest executor p (some (.fail l e retryable now)) s
      (MemoryStorage.fail l e retryable now s).2 now
      (failed l (MemoryStorage.fail l e retryable now s).1) := by
  rcases fail_cases l e retryable now s with ⟨hh, h⟩ | ⟨j, j', hh, h, hj'⟩
  · rw [h]
    exact ⟨l, hl, rfl, fun now' hle => (hstale hh).held hle⟩
  · have hstate : j'.state = MemoryStorage.failState j retryable := by
      unfold MemoryStorage.fail at h
      rw [hh] at h
      exact (Option.some.inj h).symm
    have hmoved : FailedTo p (some (.fail l e retryable now)) s
        (MemoryStorage.fail l e retryable now s).2 (some l.jobId) j'.state :=
      ⟨l, e, retryable, now, j, j', hl, rfl, rfl, hh, hj', rfl⟩
    rw [h]
    show Tells _ _ _ _ _ _ _ ⟨some l.jobId, .job j'.state, none⟩
    cases hs : j'.state with
    | succeeded =>
        rw [hs] at hstate
        unfold MemoryStorage.failState at hstate
        split_ifs at hstate
    | cancelled => exact ⟨l, j', hl, rfl, hj', hs⟩
    | _ =>
        rw [hs] at hmoved
        exact hmoved

/-- An acknowledgement that is accepted leaves the job cancelled. -/
lemma tells_acknowledged {p : Phase} {l : Lease} (hl : p.lease? = some l) {now : Time} {j : Job}
    (hj : (MemoryStorage.acknowledgeCancel l now w.store).2.job? l.jobId =
      some (j.release .cancelled none)) :
    Tells digest executor p (some (.acknowledgeCancel l now)) w.store
      (MemoryStorage.acknowledgeCancel l now w.store).2 now ⟨some l.jobId, .job .cancelled, none⟩ :=
  ⟨l, _, hl, rfl, hj, rfl⟩

lemma goes_acknowledging {l : Lease} {r : Json}
    (hfits : Phase.Fits digest executor w.leases clock w.store (.acknowledging l r)) (now : Time) :
    Goes digest caps executor w clock (.acknowledging l r) (.acknowledgeCancel l now) := by
  have hmem' : l ∈ ((memory digest caps).step w (.acknowledgeCancel l now)).2.leases :=
    List.mem_append_right _ hfits.1
  have hanswer : ((memory digest caps).step w (.acknowledgeCancel l now)).1 =
      .acknowledged (MemoryStorage.acknowledgeCancel l now w.store).1 := rfl
  rcases acknowledgeCancel_cases l now w.store with ⟨-, h⟩ | ⟨j, -, h, hj⟩ <;> rw [h] at hanswer
  · exact ⟨by rw [hanswer]; exact ⟨hmem', hfits.2⟩, by rw [hanswer]; exact fun o ho => by cases ho⟩
  · refine ⟨by rw [hanswer]; trivial, ?_⟩
    rw [hanswer]
    exact fun o ho => Option.some.inj ho ▸ tells_acknowledged rfl hj

/-- The report after a cancellation of which `mark_running` has told is true exactly if the lease is
still held or the job is cancelled already. -/
lemma tells_yielding {l : Lease}
    (hfits : Phase.Fits digest executor w.leases clock w.store (.yielding l)) {now : Time}
    (hle : clock ≤ now) :
    (∀ o, ((Phase.yielding l).next digest
        ((memory digest caps).step w (.acknowledgeCancel l now)).1).1 = some o →
      Tells digest executor (.yielding l) (some (.acknowledgeCancel l now)) w.store
        ((memory digest caps).step w (.acknowledgeCancel l now)).2.store now o) ↔
      (MemoryStorage.held l now w.store).isSome = true ∨
        ∃ j, w.store.job? l.jobId = some j ∧ j.state = .cancelled := by
  have hstore : ((memory digest caps).step w (.acknowledgeCancel l now)).2.store =
      (MemoryStorage.acknowledgeCancel l now w.store).2 := rfl
  have hnext : ((Phase.yielding l).next digest
      ((memory digest caps).step w (.acknowledgeCancel l now)).1).1 =
        some ⟨some l.jobId, .job .cancelled, none⟩ := rfl
  rw [hnext]
  rcases acknowledgeCancel_cases l now w.store with ⟨hno, h⟩ | ⟨j, hh, h, hj⟩
  · -- a job that is held is to be cancelled, so that the lease is lost
    have hh : MemoryStorage.held l now w.store = none := by
      cases hh : MemoryStorage.held l now w.store with
      | none => rfl
      | some x => exact absurd (hfits.2.cancelRequested hle hh) (by simp [hno x hh])
    rw [hstore, h, hh]
    constructor
    · intro htells
      obtain ⟨l', j, hl', -, hj, hstate⟩ := htells _ rfl
      obtain rfl : l = l' := Option.some.inj hl'
      exact .inr ⟨j, hj, hstate⟩
    · rintro (hsome | ⟨j, hj, hstate⟩) o ho
      · cases hsome
      · obtain rfl := Option.some.inj ho
        exact ⟨l, j, rfl, rfl, hj, hstate⟩
  · -- the cancellation is acknowledged in time
    refine iff_of_true (fun o ho => ?_) (.inl (by rw [hh]; rfl))
    rw [hstore]
    exact Option.some.inj ho ▸ tells_acknowledged rfl hj

variable (hw : w.Reachable digest caps)

include hw

lemma goes_fail {p : Phase} {l : Lease} (hl : p.lease? = some l) (hmem : l ∈ w.leases) (e : String)
    (retryable : Bool) (now : Time) (hp : p = .rejecting l ∨ ∃ e b, p = .failing l e b) :
    Goes digest caps executor w clock p (.fail l e retryable now) := by
  have htells := @tells_failed digest executor w.store l p hl e retryable now fun hh => by
    obtain ⟨j, hj⟩ := hw.leased.granted l hmem
    exact hj.stale hh
  rcases hp with rfl | ⟨e', b, rfl⟩
  · exact ⟨trivial, fun o ho => Option.some.inj ho ▸ htells⟩
  · exact ⟨trivial, fun o ho => Option.some.inj ho ▸ htells⟩

lemma goes_marking {l : Lease} (hmem : l ∈ w.leases)
    (hintact : manifestIntact digest l.manifest = true) (secs : Time) {checked now : Time}
    (hle : checked ≤ now) :
    Goes digest caps executor w clock (.marking l secs) (.markRunning l secs checked now) := by
  have hmem' : l ∈ ((memory digest caps).step w (.markRunning l secs checked now)).2.leases :=
    List.mem_append_right _ hmem
  have hstore : ((memory digest caps).step w (.markRunning l secs checked now)).2.store =
      (MemoryStorage.markRunning l secs checked now w.store).2 := rfl
  have hanswer : ((memory digest caps).step w (.markRunning l secs checked now)).1 =
      .status (MemoryStorage.markRunning l secs checked now w.store).1 := rfl
  rcases markRunning_cases l secs checked now w.store with ⟨hh, h⟩ | ⟨j, hh, h, hj⟩
  · -- the lease is lost, and is reported as lost: it stays so
    rw [h] at hanswer hstore
    constructor
    · rw [hanswer]
      trivial
    · rw [hanswer]
      intro o ho
      obtain rfl := Option.some.inj ho
      obtain ⟨j, hj⟩ := hw.leased.granted l hmem
      refine ⟨l, rfl, rfl, fun now' hle' => ?_⟩
      rw [hstore]
      exact (hj.stale hh).held (hle.trans hle')
  · rw [h] at hanswer
    cases hc : j.cancelRequested with
    | true =>
        -- the job is to be cancelled, and stays so while the lease holds
        rw [if_pos hc] at hanswer
        constructor
        · rw [hanswer]
          refine ⟨hmem', fun x hx _ _ => .inr ?_⟩
          rw [hstore, hj] at hx
          rw [← Option.some.inj hx]
          exact hc
        · rw [hanswer]
          exact fun o ho => by cases ho
    | false =>
        rw [hc, if_neg Bool.false_ne_true] at hanswer
        constructor
        · rw [hanswer]
          exact ⟨hmem', hintact, fun h => absurd h (by simp)⟩
        · rw [hanswer]
          exact fun o ho => by cases ho

lemma goes_conceding {l : Lease}
    (hfits : Phase.Fits digest executor w.leases clock w.store (.conceding l)) {now : Time}
    (hle : clock ≤ now) :
    Goes digest caps executor w clock (.conceding l) (.acknowledgeCancel l now) := by
  have hanswer : ((memory digest caps).step w (.acknowledgeCancel l now)).1 =
      .acknowledged (MemoryStorage.acknowledgeCancel l now w.store).1 := rfl
  have hstore : ((memory digest caps).step w (.acknowledgeCancel l now)).2.store =
      (MemoryStorage.acknowledgeCancel l now w.store).2 := rfl
  rcases acknowledgeCancel_cases l now w.store with ⟨hno, h⟩ | ⟨j, -, h, hj⟩
  · rw [h] at hanswer hstore
    refine ⟨by rw [hanswer]; trivial, ?_⟩
    rw [hanswer]
    intro o ho
    obtain rfl := Option.some.inj ho
    obtain ⟨j, hj⟩ := hw.leased.granted l hfits.1
    have hh : MemoryStorage.held l now w.store = none := by
      cases hh : MemoryStorage.held l now w.store with
      | none => rfl
      | some x =>
          exact absurd (hfits.2.cancelRequested hle hh) (by simp [hno x hh])
    refine ⟨l, rfl, rfl, fun now' hle' => ?_⟩
    rw [hstore]
    exact (hj.stale hh).held hle'
  · rw [h] at hanswer
    refine ⟨by rw [hanswer]; trivial, ?_⟩
    rw [hanswer]
    exact fun o ho => Option.some.inj ho ▸ tells_acknowledged rfl hj

lemma goes_completing {l : Lease} {r : Json}
    (hfits : Phase.Fits digest executor w.leases clock w.store (.completing l r)) (digits : String)
    (now : Time) :
    Goes digest caps executor w clock (.completing l r) (.complete l r digits now) := by
  obtain ⟨hmem, hintact, hexec⟩ := hfits
  have hmem' : l ∈ ((memory digest caps).step w (.complete l r digits now)).2.leases :=
    List.mem_append_right _ hmem
  have hanswer : ((memory digest caps).step w (.complete l r digits now)).1 =
      Answer.of .resultId (MemoryStorage.complete caps l r digits now w.store).1 := rfl
  obtain ⟨j, hj⟩ := hw.leased.granted l hmem
  rcases @complete_cases caps _ _ hw.recorded hw.housed j hj r digits now with
    ⟨hy, h⟩ | ⟨e, h⟩ | ⟨rid, h, hheld, hfresh, hrecorded, hstored⟩ <;> rw [h] at hanswer
  · refine ⟨by rw [hanswer]; exact ⟨hmem', hy⟩, ?_⟩
    rw [hanswer]
    exact fun o ho => by cases ho
  · refine ⟨by rw [hanswer]; trivial, ?_⟩
    rw [hanswer]
    exact fun o ho => by cases ho
  · refine ⟨by rw [hanswer]; trivial, ?_⟩
    rw [hanswer]
    intro o ho
    obtain rfl := Option.some.inj ho
    refine ⟨l, r, digits, now, rid, rfl, rfl, rfl, hexec, hintact, by rw [hheld]; rfl, hfresh,
      hrecorded, _, hstored, rfl, congrArg some hj.jobId, rfl, rfl⟩

end

/-! ### Runs -/

section

variable {ι : Type*} [DecidableEq ι] {σ : Workers ι}

/-- The report of a step is true. -/
def Workers.Truthful (digest : Json → String) (caps : Caps)
    (executor : String → Json.Fields → Executed) (σ : Workers ι) (i : Input ι) : Prop :=
  ∀ o, (σ.step digest caps executor i).1 = some o → ∃ k a, i = .act k a ∧
    Tells digest executor (σ.phase k) (σ.op? i) σ.world.store
      (σ.step digest caps executor i).2.world.store (σ.step digest caps executor i).2.clock o

/-- An execution that `mark_running` has told of a cancellation acknowledges it while it holds its
lease, or when the job is cancelled already. -/
def Workers.Timely (σ : Workers ι) (i : Input ι) : Prop :=
  ∀ k digits checked now l, i = .act k (.call digits checked now) → σ.phase k = .yielding l →
    (MemoryStorage.held l now σ.world.store).isSome = true ∨
      ∃ j, σ.world.store.job? l.jobId = some j ∧ j.state = .cancelled

/-- The job that a report says has succeeded. -/
def succeeded? : Option Outcome → Option String
  | some ⟨some jobId, .job .succeeded, _⟩ => some jobId
  | _ => none

/-- What holds of every state of a run. -/
structure Workers.Inv (digest : Json → String) (caps : Caps)
    (executor : String → Json.Fields → Executed) (σ : Workers ι) : Prop where
  reachable : σ.world.Reachable digest caps
  fits : ∀ k, (σ.phase k).Fits digest executor σ.world.leases σ.clock σ.world.store

omit [DecidableEq ι] in
lemma inv_initial (clock : Time) :
    (Workers.initial ι clock).Inv digest caps executor :=
  ⟨⟨[], trivial, rfl⟩, fun _ => trivial⟩

/-- The world after a call. -/
lemma reachable_step {w : World} (hw : w.Reachable digest caps) {op : Op} (hm : w.May op) :
    World.Reachable digest caps ((memory digest caps).step w op).2 :=
  @World.Reachable.final _ _ _ [op] hw ⟨hm, trivial⟩

lemma Workers.Inv.after (h : σ.Inv digest caps executor) {op : Op} (hm : σ.world.May op)
    (hclock : (σ.clock :: op.readings).Pairwise (· ≤ ·)) {k : ι} {p : Phase}
    (hp : p.Fits digest executor ((memory digest caps).step σ.world op).2.leases
      (op.clock σ.clock) ((memory digest caps).step σ.world op).2.store) :
    (σ.after ((memory digest caps).step σ.world op).2 op k p).Inv digest caps executor := by
  refine ⟨reachable_step h.reachable hm, fun j => ?_⟩
  by_cases hj : j = k
  · subst hj
    simp only [Workers.after, Function.update_self]
    exact hp
  · simp only [Workers.after, Function.update_of_ne hj]
    exact (h.fits j).step h.reachable hm hclock

/-- An execution that takes a step without a call. -/
lemma Workers.Inv.put (h : σ.Inv digest caps executor) {k : ι} {p : Phase}
    (hp : p.Fits digest executor σ.world.leases σ.clock σ.world.store) :
    Workers.Inv digest caps executor { σ with phase := Function.update σ.phase k p } := by
  refine ⟨h.reachable, fun j => ?_⟩
  by_cases hj : j = k
  · subst hj
    simp only [Function.update_self]
    exact hp
  · simp only [Function.update_of_ne hj]
    exact h.fits j

omit [DecidableEq ι] in
/-- The lease of a call is one that was handed out. -/
lemma Workers.Inv.may (h : σ.Inv digest caps executor) {i : Input ι} (hmay : σ.May i) {op : Op}
    (hop : σ.op? i = some op) : σ.world.May op := by
  refine ⟨fun l hl => ?_, (hmay.1 op hop).1⟩
  cases i with
  | call op' =>
      obtain rfl : op' = op := Option.some.inj hop
      exact hmay.2 _ rfl l hl
  | act k a =>
      have hfits := h.fits k
      cases a with
      | start | finish => cases hop
      | call digits checked now =>
          refine hfits.lease_mem (?_ : (σ.phase k).lease? = some l)
          simp only [Workers.op?] at hop
          cases hp : σ.phase k <;> rw [hp] at hop <;> cases hop <;> exact hl
      | beat checked now =>
          refine hfits.lease_mem (?_ : (σ.phase k).lease? = some l)
          simp only [Workers.op?] at hop
          cases hp : σ.phase k <;> rw [hp] at hop <;> try cases hop
          simp only at hop
          split_ifs at hop
          cases hop
          exact hl

omit [DecidableEq ι] in
/-- The call of an execution goes as it should, unless it is the one whose answer is not looked
at. -/
lemma Workers.Inv.goes (h : σ.Inv digest caps executor) {k : ι} {digits : String}
    {checked now : Time} {op : Op} (hop : (σ.phase k).op? digits checked now = some op)
    (hclock : (σ.clock :: op.readings).Pairwise (· ≤ ·)) (hno : ∀ l, σ.phase k ≠ .yielding l) :
    Goes digest caps executor σ.world σ.clock (σ.phase k) op := by
  have hfits := h.fits k
  have hle := (List.pairwise_cons.1 hclock).1
  generalize σ.phase k = p at *
  cases p with
  | free => cases hop
  | executing => cases hop
  | yielding l => exact absurd rfl (hno l)
  | claiming owner secs =>
      obtain rfl := Option.some.inj hop
      exact goes_claiming owner secs now
  | rejecting l =>
      obtain rfl := Option.some.inj hop
      exact goes_fail h.reachable rfl hfits _ _ now (.inl rfl)
  | failing l e b =>
      obtain rfl := Option.some.inj hop
      exact goes_fail h.reachable rfl hfits e b now (.inr ⟨e, b, rfl⟩)
  | marking l secs =>
      -- the lease is checked before the time at which it is extended
      obtain rfl := Option.some.inj hop
      have hreadings := (List.pairwise_cons.1 hclock).2
      exact goes_marking h.reachable hfits.1 hfits.2 secs
        ((List.pairwise_cons.1 hreadings).1 now (List.mem_singleton_self _))
  | acknowledging l r =>
      obtain rfl := Option.some.inj hop
      exact goes_acknowledging hfits now
  | completing l r =>
      obtain rfl := Option.some.inj hop
      exact goes_completing h.reachable hfits digits now
  | conceding l =>
      obtain rfl := Option.some.inj hop
      exact goes_conceding h.reachable hfits (hle now (List.mem_singleton_self _))

/-- A heartbeat keeps what holds of its execution. -/
lemma Workers.Inv.beat (h : σ.Inv digest caps executor) {k : ι} {l : Lease} {secs : Time}
    {flags : Flags} (hp : σ.phase k = .executing l secs flags) (hlost : flags.lost = false)
    {checked now : Time} (hm : σ.world.May (.heartbeat l secs checked now))
    (hclock : (σ.clock :: [checked, now]).Pairwise (· ≤ ·)) :
    (σ.after ((memory digest caps).step σ.world (.heartbeat l secs checked now)).2
      (.heartbeat l secs checked now) k (.executing l secs
        (flags.beat ((memory digest caps).step σ.world (.heartbeat l secs checked now)).1))).Inv
        digest caps executor := by
  have hfits := h.fits k
  rw [hp] at hfits
  obtain ⟨hmem, hintact, -⟩ := hfits
  refine h.after hm hclock ⟨List.mem_append_right _ hmem, hintact, fun hbeat => ?_⟩
  have hanswer : ((memory digest caps).step σ.world (.heartbeat l secs checked now)).1 =
      .status (MemoryStorage.heartbeat l secs checked now σ.world.store).1 := rfl
  have hstore : ((memory digest caps).step σ.world (.heartbeat l secs checked now)).2.store =
      (MemoryStorage.heartbeat l secs checked now σ.world.store).2 := rfl
  rw [hanswer] at hbeat
  rw [hstore]
  unfold MemoryStorage.heartbeat at hbeat ⊢
  -- only a heartbeat that finds no job sets `lost`, and then the lease is stale for good
  cases hh : MemoryStorage.held l checked σ.world.store with
  | none =>
      obtain ⟨j, hj⟩ := h.reachable.leased.granted l hmem
      have hle := (List.pairwise_cons.1 (List.pairwise_cons.1 hclock).2).1 now
        (List.mem_singleton_self _)
      exact (hj.stale hh).mono hle
  | some j =>
      rw [hh] at hbeat
      cases hc : j.cancelRequested <;> simp [hc, Flags.beat, hlost] at hbeat

/-- A step keeps the invariant. -/
lemma Workers.Inv.step (h : σ.Inv digest caps executor) {i : Input ι} (hmay : σ.May i) :
    (σ.step digest caps executor i).2.Inv digest caps executor := by
  cases i with
  | call op =>
      have hm := h.may (i := .call op) hmay rfl
      have hclock := (hmay.1 op rfl).2
      exact ⟨reachable_step h.reachable hm, fun k => (h.fits k).step h.reachable hm hclock⟩
  | act k a =>
      have hfits := h.fits k
      cases a with
      | start owner secs =>
          simp only [Workers.step]
          cases hp : σ.phase k with
          | free => exact h.put trivial
          | _ => exact h
      | call digits checked now =>
          simp only [Workers.step]
          cases hop : (σ.phase k).op? digits checked now with
          | none => exact h
          | some op =>
              have hm := h.may (i := .act k (.call digits checked now)) hmay hop
              have hclock := (hmay.1 op hop).2
              refine h.after hm hclock ?_
              -- an execution that yields ends whatever the call answers
              by_cases hy : ∃ l, σ.phase k = .yielding l
              · obtain ⟨l, hl⟩ := hy
                rw [hl] at hop ⊢
                obtain rfl := Option.some.inj hop
                trivial
              · exact (h.goes hop hclock fun l hl => hy ⟨l, hl⟩).fits
      | beat checked now =>
          simp only [Workers.step]
          cases hp : σ.phase k with
          | executing l secs flags =>
              -- a thread that has lost its lease beats no more
              dsimp only
              cases hlost : flags.lost with
              | true =>
                  rw [if_pos rfl]
                  exact h
              | false =>
                  rw [if_neg Bool.false_ne_true]
                  have hop : σ.op? (.act k (.beat checked now)) =
                      some (.heartbeat l secs checked now) := by
                    simp [Workers.op?, hp, hlost]
                  exact h.beat hp hlost (h.may hmay hop) (hmay.1 _ hop).2
          | _ => exact h
      | finish =>
          -- the executor decides in which phase the execution goes on
          simp only [Workers.step]
          cases hp : σ.phase k with
          | executing l secs flags =>
              rw [hp] at hfits
              obtain ⟨hmem, hintact, -⟩ := hfits
              refine h.put ?_
              unfold finish
              cases he : executor l.kind l.manifest.payload with
              | permanent text => exact hmem
              | crashed text => exact hmem
              | result r =>
                  simp only
                  split_ifs
                  · trivial
                  · exact ⟨hmem, hintact, he⟩
                  · exact ⟨hmem, hintact, he⟩
          | _ => exact h

/-- Every report is true but that of an execution whose acknowledgement comes too late. -/
lemma Workers.Inv.truthful_iff (h : σ.Inv digest caps executor) {i : Input ι} (hmay : σ.May i) :
    σ.Truthful digest caps executor i ↔ σ.Timely i := by
  cases i with
  | call op =>
      exact iff_of_true (fun o ho => by cases ho) fun k digits checked now l hi => by cases hi
  | act k a =>
      have hfits := h.fits k
      cases a with
      | start owner secs =>
          -- nothing is reported
          refine iff_of_true (fun o ho => ?_) fun k' digits checked now l hi => by cases hi
          simp only [Workers.step] at ho
          cases hp : σ.phase k <;> rw [hp] at ho <;> cases ho
      | beat checked now =>
          refine iff_of_true (fun o ho => ?_) fun k' digits checked' now' l hi => by cases hi
          simp only [Workers.step] at ho
          cases hp : σ.phase k <;> rw [hp] at ho <;> try cases ho
          simp only at ho
          split_ifs at ho
      | finish =>
          refine iff_of_true (fun o ho => ?_) fun k' digits checked now l hi => by cases hi
          refine ⟨k, .finish, rfl, ?_⟩
          simp only [Workers.step] at ho ⊢
          cases hp : σ.phase k <;> rw [hp] at ho hfits <;> try cases ho
          next l secs flags =>
            simp only [finish] at ho ⊢
            cases he : executor l.kind l.manifest.payload <;> rw [he] at ho <;> try cases ho
            next r =>
              simp only at ho ⊢
              -- only a lost lease is reported here, and it was lost at the last heartbeat
              by_cases hlost : flags.lost = true
              · rw [if_pos hlost] at ho
                obtain rfl := Option.some.inj ho
                exact ⟨l, rfl, rfl, fun now hle => (hfits.2.2 hlost).held hle⟩
              · rw [if_neg hlost] at ho
                split_ifs at ho
      | call digits checked now =>
          -- the call of an execution that yields is the one whose answer is not looked at
          have hstep (op : Op) (hop : (σ.phase k).op? digits checked now = some op) :
              σ.step digest caps executor (.act k (.call digits checked now)) =
                (((σ.phase k).next digest ((memory digest caps).step σ.world op).1).1,
                  σ.after ((memory digest caps).step σ.world op).2 op k
                    ((σ.phase k).next digest ((memory digest caps).step σ.world op).1).2) := by
            simp only [Workers.step, hop]
          by_cases hy : ∃ l, σ.phase k = .yielding l
          · obtain ⟨l, hl⟩ := hy
            have hop : (σ.phase k).op? digits checked now = some (.acknowledgeCancel l now) := by
              rw [hl]
              rfl
            have hle := (List.pairwise_cons.1 (hmay.1 _ hop).2).1 now (List.mem_singleton_self _)
            rw [hl] at hfits
            have hiff := @tells_yielding digest caps executor _ _ _ hfits now hle
            -- the report of the step is the report of `tells_yielding`
            constructor
            · intro htrue k' digits' checked' now' l' hi hl'
              cases hi
              obtain rfl : l = l' := Phase.yielding.inj (hl.symm.trans hl')
              refine hiff.1 fun o ho => ?_
              rw [← hl] at ho
              obtain ⟨k', a, hi, htells⟩ := htrue o (by rw [hstep _ hop]; exact ho)
              cases hi
              rw [hstep _ hop, hl] at htells
              simp only [Workers.op?, hl] at htells
              exact htells
            · intro htime o ho
              rw [hstep _ hop] at ho
              refine ⟨k, _, rfl, ?_⟩
              rw [hstep _ hop]
              have htells := hiff.2 (htime k digits checked now l rfl hl) o (by rw [← hl]; exact ho)
              simp only [Workers.op?, hl]
              exact htells
          · -- every other call goes as it should, and its report says how it went
            refine iff_of_true (fun o ho => ?_) fun k' digits' checked' now' l hi hl => ?_
            · cases hop : (σ.phase k).op? digits checked now with
              | none =>
                  simp only [Workers.step, hop] at ho
                  cases ho
              | some op =>
                  rw [hstep op hop] at ho ⊢
                  refine ⟨k, _, rfl, ?_⟩
                  have hgoes := h.goes hop (hmay.1 op hop).2 fun l hl => hy ⟨l, hl⟩
                  have htells := hgoes.tells o ho
                  simp only [Workers.op?, hop]
                  exact htells
            · cases hi
              exact absurd ⟨l, hl⟩ hy

/-! ### One success for a job -/

omit [DecidableEq ι] in
/-- A job that has a result keeps one. -/
lemma Effect.contains_result {op : Op} (he : Effect s op s') {jid : String}
    (h : s.resultByJob.contains jid = true) : s'.resultByJob.contains jid = true := by
  cases he with
  | jobs | case => exact h
  | manifest | analysis | enqueue => simpa using h
  | publish =>
      rw [Table.contains_iff] at h ⊢
      exact Table.exists_mem_put.2 (.inr h)

/-- An execution that reports success has given the job its first result. -/
lemma Workers.Inv.fresh_of_succeeded (h : σ.Inv digest caps executor) {i : Input ι}
    (hmay : σ.May i) {jid : String}
    (hs : succeeded? (σ.step digest caps executor i).1 = some jid) :
    σ.world.store.resultByJob.contains jid = false ∧
      (σ.step digest caps executor i).2.world.store.resultByJob.contains jid = true := by
  obtain ⟨rid, ho⟩ : ∃ rid, (σ.step digest caps executor i).1 =
      some ⟨some jid, .job .succeeded, rid⟩ := by
    unfold succeeded? at hs
    split at hs
    · next jobId rid heq => exact ⟨rid, Option.some.inj hs ▸ heq⟩
    · cases hs
  have htime : σ.Timely i := by
    rintro k digits checked now l rfl hl
    -- an execution that yields does not report success
    simp only [Workers.step, hl, Phase.op?] at ho
    cases ho
  obtain ⟨k, a, -, htells⟩ := (h.truthful_iff hmay).2 htime _ ho
  obtain ⟨l, r, digits, now, rid', -, -, ho', hpub⟩ := htells
  obtain ⟨rfl, -⟩ : jid = l.jobId ∧ rid = some rid' := by simpa using ho'
  exact ⟨hpub.fresh, hpub.recorded⟩

lemma Workers.contains_result_step {i : Input ι} (h : σ.Inv digest caps executor)
    (hmay : σ.May i) {jid : String} (hc : σ.world.store.resultByJob.contains jid = true) :
    (σ.step digest caps executor i).2.world.store.resultByJob.contains jid = true := by
  have hcall {op : Op} (hop : σ.op? i = some op) :
      ((memory digest caps).step σ.world op).2.store.resultByJob.contains jid = true := by
    have he : Effect σ.world.store op ((memory digest caps).step σ.world op).2.store :=
      call_effect h.reachable.keyed (h.may hmay hop).2
    exact he.contains_result hc
  cases i with
  | call op => exact hcall rfl
  | act k a =>
      cases a with
      | start owner secs =>
          simp only [Workers.step]
          cases σ.phase k <;> exact hc
      | call digits checked now =>
          simp only [Workers.step]
          cases hop : (σ.phase k).op? digits checked now with
          | none => exact hc
          | some op => exact hcall hop
      | beat checked now =>
          simp only [Workers.step]
          cases hp : σ.phase k with
          | executing l secs flags =>
              dsimp only
              split_ifs with hlost
              · exact hc
              · exact hcall (by simp [Workers.op?, hp, hlost])
          | _ => exact hc
      | finish =>
          simp only [Workers.step]
          cases σ.phase k <;> exact hc

/-- Over a whole run, at most one report says that a job has succeeded. -/
lemma nodup_succeeded {is : List (Input ι)} {clock : Time}
    (h : (workers digest caps executor).Admits Workers.May (Workers.initial ι clock) is) :
    (((workers digest caps executor).answers (Workers.initial ι clock) is).filterMap
      succeeded?).Nodup := by
  have h0 : (Workers.initial ι clock).Inv digest caps executor ∧
      (([] : List (Option Outcome)).filterMap succeeded?).Nodup ∧
      ∀ jid ∈ ([] : List (Option Outcome)).filterMap succeeded?,
        (Workers.initial ι clock).world.store.resultByJob.contains jid = true :=
    ⟨inv_initial clock, List.nodup_nil, fun _ hj => absurd hj List.not_mem_nil⟩
  -- the invariant: a job that was reported as succeeded has a result
  have hrun := h.invariant_answers
    (P := fun os σ => σ.Inv digest caps executor ∧ (os.filterMap succeeded?).Nodup ∧
      ∀ jid ∈ os.filterMap succeeded?, σ.world.store.resultByJob.contains jid = true)
    (fun os σ i hP hmay => ?_) h0
  · exact hrun.2.1
  · obtain ⟨hinv, hnodup, hcontains⟩ := hP
    change Workers.Inv _ _ _ (σ.step digest caps executor i).2 ∧
      ((os ++ [(σ.step digest caps executor i).1]).filterMap succeeded?).Nodup ∧
      ∀ jid ∈ (os ++ [(σ.step digest caps executor i).1]).filterMap succeeded?,
        (σ.step digest caps executor i).2.world.store.resultByJob.contains jid = true
    rw [List.filterMap_append]
    refine ⟨hinv.step hmay, ?_⟩
    cases hs : succeeded? (σ.step digest caps executor i).1 with
    | none =>
        rw [List.filterMap_cons_none hs, List.filterMap_nil, List.append_nil]
        exact ⟨hnodup, fun jid hj => Workers.contains_result_step hinv hmay (hcontains jid hj)⟩
    | some jid =>
        -- the job has no result before the step, so that its success was not reported before
        obtain ⟨hfresh, hrecorded⟩ := hinv.fresh_of_succeeded hmay hs
        rw [List.filterMap_cons_some hs, List.filterMap_nil]
        refine ⟨?_, fun jid' hj => ?_⟩
        · rw [List.nodup_append]
          refine ⟨hnodup, List.nodup_singleton _, fun a ha b hb hab => ?_⟩
          have hold := hcontains a ha
          rw [hab, List.mem_singleton.1 hb, hfresh] at hold
          cases hold
        · rcases List.mem_append.1 hj with hj | hj
          · exact Workers.contains_result_step hinv hmay (hcontains jid' hj)
          · exact List.mem_singleton.1 hj ▸ hrecorded

/-- In a run of workers on one storage every report is true, and at most one says that a job has
succeeded, exactly if every execution that `mark_running` has told of a cancellation acknowledges it
in time. -/
theorem workers_truthful_iff {is : List (Input ι)} {clock : Time}
    (h : (workers digest caps executor).Admits Workers.May (Workers.initial ι clock) is) :
    ((workers digest caps executor).Admits (Workers.Truthful digest caps executor)
          (Workers.initial ι clock) is ∧
        (((workers digest caps executor).answers (Workers.initial ι clock) is).filterMap
          succeeded?).Nodup) ↔
      (workers digest caps executor).Admits Workers.Timely (Workers.initial ι clock) is := by
  rw [and_iff_left (nodup_succeeded h)]
  exact h.congr (fun σ i hinv hmay => hinv.step hmay)
    (fun σ i hinv hmay => hinv.truthful_iff hmay) (inv_initial clock)

end

end

/-! ### A sample -/

section

variable {ι : Type*} {σ : Workers ι}

/-- An input may come if its call may come. -/
lemma may_of_op {i : Input ι} (op : Op) (hop : σ.op? i = some op) (hfresh : op.Fresh σ.world.store)
    (hclock : (σ.clock :: op.readings).Pairwise (· ≤ ·)) (hlease : i = .call op → op.lease? = none) :
    σ.May i := by
  refine ⟨fun op' hop' => ?_, ?_⟩
  · obtain rfl := Option.some.inj (hop.symm.trans hop')
    exact ⟨hfresh, hclock⟩
  · rintro op' rfl l hl
    obtain rfl : op' = op := Option.some.inj hop
    exact absurd hl (by simp [hlease rfl])

lemma may_of_none {i : Input ι} (hop : σ.op? i = none) : σ.May i := by
  refine ⟨fun op hop' => absurd (hop.symm.trans hop') (by simp), ?_⟩
  rintro op rfl
  cases hop

lemma timely_call (op : Op) : σ.Timely (.call op) := nofun

lemma timely_of_phase {k : ι} {a : Act} {p : Phase} (hp : σ.phase k = p)
    (hno : ∀ l, p ≠ .yielding l) : σ.Timely (.act k a) := by
  intro k' digits checked now l hi hl
  cases hi
  exact absurd (hp.symm.trans hl) (hno l)

end

namespace Sample

/-- An executor that always has a result. -/
def executor : String → Json.Fields → Executed := fun _ _ => .result .null

/-- The workers of the sample. -/
def system : Machine (Workers Unit) (Input Unit) (Option Outcome) := workers digest caps executor

/-- A case is created, an analysis of it is enqueued, and a worker claims the job. -/
def begun : List (Input Unit) :=
  [.call (.createCase case), .call (.enqueue manifest "u" 2 "1" 0), .act () (.start "w" 30),
    .act () (.call "" 0 0)]

/-- The system after `begun`. -/
def started : Workers Unit := system.final (Workers.initial Unit 0) begun

lemma may_begun : system.Admits Workers.May (Workers.initial Unit 0) begun :=
  ⟨may_of_op _ rfl trivial (List.pairwise_singleton _ _) fun _ => rfl,
    may_of_op _ rfl (fun _ he => absurd he List.not_mem_nil) (List.pairwise_singleton _ _) fun _ => rfl,
    may_of_none rfl,
    may_of_op (.claim "w" 30 none 0) rfl trivial (by decide) nofun, trivial⟩

lemma timely_begun : system.Admits Workers.Timely (Workers.initial Unit 0) begun :=
  ⟨timely_call _, timely_call _, timely_of_phase (p := .free) rfl nofun,
    timely_of_phase (p := .claiming "w" 30) rfl nofun, trivial⟩

/-- The job is marked, executed and completed. -/
def worked : List (Input Unit) :=
  [.act () (.call "" 0 0), .act () .finish, .act () (.call "2" 0 0)]

lemma may_worked : system.Admits Workers.May started worked := by
  refine ⟨may_of_op (.markRunning lease 30 0 0) ?_ trivial ?_ nofun,
    may_of_none rfl, may_of_op (.complete lease .null "2" 0) ?_ ?_ ?_ nofun, trivial⟩
  · with_unfolding_all rfl
  · with_unfolding_all decide
  · with_unfolding_all rfl
  · intro p r hr
    have hrows : (system.final started [.act () (.call "" 0 0),
        .act () .finish]).world.store.results.rows = [] := by
      with_unfolding_all rfl
    have hr' : r ∈ (system.final started [.act () (.call "" 0 0),
        .act () .finish]).world.store.results := hr
    rw [Table.mem_def, hrows] at hr'
    exact absurd hr' List.not_mem_nil
  · with_unfolding_all decide

lemma timely_worked : system.Admits Workers.Timely started worked := by
  refine ⟨timely_of_phase (p := .marking lease 30) ?_ nofun,
    timely_of_phase (p := .executing lease 30 ⟨false, false⟩) ?_ nofun,
    timely_of_phase (p := .completing lease .null) ?_ nofun, trivial⟩ <;>
    with_unfolding_all rfl

/-- The worker tells the truth. -/
theorem worked_truthful :
    system.Admits (Workers.Truthful digest caps executor) (Workers.initial Unit 0)
        (begun ++ worked) ∧
      ((system.answers (Workers.initial Unit 0) (begun ++ worked)).filterMap succeeded?).Nodup :=
  (workers_truthful_iff (system.admits_append _ _ _ |>.2 ⟨may_begun, may_worked⟩)).2
    (system.admits_append _ _ _ |>.2 ⟨timely_begun, timely_worked⟩)

/-- The job is cancelled before it is marked, and the worker acknowledges that only after its lease
has run out. -/
def late : List (Input Unit) :=
  [.call (.cancelJob "job-1" none), .act () (.call "" 0 0), .act () (.call "" 100 100)]

/-- The worker reports the job as cancelled, which is still running. -/
theorem late_not_truthful :
    system.Admits Workers.May (Workers.initial Unit 0) (begun ++ late) ∧
      ¬(system.Admits (Workers.Truthful digest caps executor) (Workers.initial Unit 0)
          (begun ++ late) ∧
        ((system.answers (Workers.initial Unit 0) (begun ++ late)).filterMap succeeded?).Nodup) := by
  constructor
  · refine system.admits_append _ _ _ |>.2 ⟨may_begun, may_of_op _ rfl trivial
      (List.pairwise_singleton _ _) fun _ => rfl,
      may_of_op (.markRunning lease 30 0 0) ?_ trivial ?_ nofun,
      may_of_op (.acknowledgeCancel lease 100) ?_ trivial ?_ nofun, trivial⟩
    · with_unfolding_all rfl
    · with_unfolding_all decide
    · with_unfolding_all rfl
    · with_unfolding_all decide
  · rintro ⟨h, -⟩
    obtain ⟨-, -, -, hlast, -⟩ := (system.admits_append _ _ _).1 h
    obtain ⟨k, a, -, l, j, hl, -, hj, hstate⟩ := hlast ⟨some "job-1", .job .cancelled, none⟩ (by
      with_unfolding_all rfl)
    have hrunning : ((system.final started late).world.store.job? "job-1").map Job.state =
        some .running := by
      with_unfolding_all rfl
    have hyielding : (system.final started [.call (.cancelJob "job-1" none),
        .act () (.call "" 0 0)]).phase () = .yielding lease := by
      with_unfolding_all rfl
    have hl' : (system.final started [.call (.cancelJob "job-1" none),
        .act () (.call "" 0 0)]).phase k = .yielding lease := hyielding
    obtain rfl : lease = l := by
      have hsome : (Phase.yielding lease).lease? = some l := hl' ▸ hl
      exact Option.some.inj hsome
    have hj' : (system.final started late).world.store.job? "job-1" = some j := hj
    rw [hj'] at hrunning
    exact absurd (hstate.symm.trans (Option.some.inj hrunning)) (by decide)

end Sample

end Storage

end Afterlock
