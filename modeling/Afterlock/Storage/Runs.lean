import Afterlock.Storage.Memory

/-!
# Runs of the storage in memory

What one call can do to the store is said once, in `Effect`: it changes jobs one by one, each by
a `Change`, or it adds one record, or it publishes a result.  `call_effect` shows it for every
operation, and every invariant of the storage is a case analysis over the few kinds of effects.

A `World` is a store together with the leases handed out so far, and `memory` is the machine of
calls on it, where a worker presents a lease that was handed out and `new_id` never draws an
identifier that is in use.
-/

namespace Afterlock

namespace Storage

/-! ### Changes of a job -/

lemma JobState.terminal_eq_false_iff {t : JobState} :
    t.terminal = false ↔ t = .queued ∨ t.active = true := by
  cases t <;> simp [terminal, active]

lemma JobState.terminal_of_active {t : JobState} (h : t.active = true) : t.terminal = false :=
  terminal_eq_false_iff.2 (Or.inr h)

/-- One change of a job by a call that publishes nothing and reads the clock at `rs`. -/
inductive Change (rs : List Time) : Job → Job → Prop
  /-- Cancellation is asked for. -/
  | cancel {j : Job} (h : j.state.terminal = false) : Change rs j j.cancel
  /-- A job for which cancellation was asked is given up. -/
  | drop {j : Job} (e : Option String) (h : j.state.terminal = false)
      (hc : j.cancelRequested = true) : Change rs j (j.release .cancelled e)
  | fail {j : Job} (e : String) (h : j.state.terminal = false) :
      Change rs j (j.release .failed (some e))
  | requeue {j : Job} (e : String) (h : j.state.active = true) (hc : j.cancelRequested = false)
      (ha : j.attempts < j.maxAttempts) : Change rs j (j.release .queued (some e))
  | lease {j : Job} (owner : String) (secs now : Time) (h : j.state.terminal = false)
      (hc : j.cancelRequested = false) (ha : j.attempts < j.maxAttempts) :
      Change rs j (j.lease owner secs now)
  /-- A lease is extended only while it has not run out. -/
  | extend {j : Job} (secs now : Time) (h : j.state.active = true)
      (hl : ∃ t ∈ rs, j.lapsed t = false) : Change rs j (j.extend secs now)
  | run {j : Job} (secs now : Time) (h : j.state.active = true)
      (hl : ∃ t ∈ rs, j.lapsed t = false) :
      Change rs j { j.extend secs now with state := .running }

/-- One change of a job by a call. -/
inductive Move (rs : List Time) : Job → Job → Prop
  | change {j j' : Job} (h : Change rs j j') : Move rs j j'
  | publish {j : Job} (h : j.state.active = true) (hc : j.cancelRequested = false) :
      Move rs j (j.release .succeeded none)

section

variable {rs : List Time}

namespace Change

variable {j j' : Job}

lemma nonterminal (h : Change rs j j') : j.state.terminal = false := by
  cases h with
  | cancel h | drop _ h _ | fail _ h | lease _ _ _ h _ _ => exact h
  | requeue _ h _ _ | extend _ _ h _ | run _ _ h _ => exact JobState.terminal_of_active h

/-- Without a publication no job succeeds. -/
lemma not_succeeded (h : Change rs j j') : j.state ≠ .succeeded ∧ j'.state ≠ .succeeded := by
  have hj : j.state ≠ .succeeded := fun hs =>
    absurd h.nonterminal (by simp [hs, JobState.terminal])
  refine ⟨hj, ?_⟩
  cases h with
  | cancel =>
      unfold Job.cancel
      split_ifs
      · simp
      · exact hj
      · exact hj
  | extend => exact hj
  | _ => simp [Job.release, Job.lease]

end Change

namespace Move

variable {j j' : Job}

/-- A job that is finished does not change. -/
lemma nonterminal (h : Move rs j j') : j.state.terminal = false := by
  cases h with
  | change h => exact h.nonterminal
  | publish h _ => exact JobState.terminal_of_active h

/-- The fields of a job that are fixed by `enqueue`. -/
lemma frame (h : Move rs j j') :
    j'.jobId = j.jobId ∧ j'.clusterId = j.clusterId ∧ j'.manifestId = j.manifestId ∧
      j'.kind = j.kind ∧ j'.maxAttempts = j.maxAttempts ∧ j'.createdBy = j.createdBy := by
  rcases h with ⟨⟨⟩ | _⟩ | _
  · unfold Job.cancel
    split_ifs <;> exact ⟨rfl, rfl, rfl, rfl, rfl, rfl⟩
  all_goals exact ⟨rfl, rfl, rfl, rfl, rfl, rfl⟩

lemma attempts_le (h : Move rs j j') : j.attempts ≤ j'.attempts := by
  rcases h with ⟨⟨⟩ | _⟩ | _
  · unfold Job.cancel
    split_ifs <;> exact le_rfl
  all_goals simp [Job.release, Job.lease, Job.extend]

/-- Only `claim` makes a job leased that was not, and it counts an attempt. -/
lemma kept_or_idle (h : Move rs j j') (ha : j'.attempts = j.attempts) (hj' : j'.state.active = true) :
    j.state.active = true ∧ j'.leaseOwner = j.leaseOwner := by
  cases h with
  | publish => exact absurd hj' (by simp [Job.release, JobState.active])
  | change h =>
      cases h with
      | cancel h =>
          revert hj'
          unfold Job.cancel
          split_ifs with hq hact
          · exact fun h => absurd h (by simp [JobState.active])
          · exact fun _ => ⟨hact, rfl⟩
          · exact fun h => ⟨h, rfl⟩
      | lease => exact absurd ha (Nat.succ_ne_self _)
      | extend _ _ h _ | run _ _ h _ => exact ⟨h, rfl⟩
      | _ => exact absurd hj' (by simp [Job.release, JobState.active])

end Move

end

/-- A job is left alone or changed once, in the manner of `R`. -/
def Kept (R : Job → Job → Prop) (e e' : Entry) : Prop :=
  e'.seq = e.seq ∧ (e'.job = e.job ∨ R e.job e'.job)

lemma Kept.refl {R : Job → Job → Prop} (e : Entry) : Kept R e e := ⟨rfl, Or.inl rfl⟩

lemma Kept.refl_all {R : Job → Job → Prop} (es : List Entry) : List.Forall₂ (Kept R) es es :=
  List.forall₂_same.2 fun e _ => Kept.refl e

lemma Kept.toMove {rs : List Time} {e e' : Entry} (h : Kept (Change rs) e e') :
    Kept (Move rs) e e' :=
  ⟨h.1, h.2.imp_right Move.change⟩

lemma Kept.toMove_all {rs : List Time} {es es' : List Entry}
    (h : List.Forall₂ (Kept (Change rs)) es es') : List.Forall₂ (Kept (Move rs)) es es' :=
  h.imp fun _ _ h => h.toMove

lemma Kept.frame {rs : List Time} {e e' : Entry} (h : Kept (Move rs) e e') :
    e'.job.jobId = e.job.jobId ∧ e'.job.clusterId = e.job.clusterId ∧
      e'.job.manifestId = e.job.manifestId ∧ e'.job.kind = e.job.kind ∧
      e'.job.maxAttempts = e.job.maxAttempts ∧ e'.job.createdBy = e.job.createdBy := by
  rcases h.2 with h | h
  · rw [h]
    exact ⟨rfl, rfl, rfl, rfl, rfl, rfl⟩
  · exact h.frame

lemma Kept.jobId {rs : List Time} {e e' : Entry} (h : Kept (Move rs) e e') :
    e'.job.jobId = e.job.jobId := h.frame.1

lemma Kept.exists_left {R : Job → Job → Prop} {es es' : List Entry}
    (h : List.Forall₂ (Kept R) es es') {e' : Entry} (he' : e' ∈ es') :
    ∃ e ∈ es, Kept R e e' := by
  induction h with
  | nil => cases he'
  | cons h _ ih =>
      rcases List.mem_cons.1 he' with rfl | he'
      · exact ⟨_, List.mem_cons_self, h⟩
      · obtain ⟨e, he, hk⟩ := ih he'
        exact ⟨e, List.mem_cons_of_mem _ he, hk⟩

lemma Kept.exists_right {R : Job → Job → Prop} {es es' : List Entry}
    (h : List.Forall₂ (Kept R) es es') {e : Entry} (he : e ∈ es) :
    ∃ e' ∈ es', Kept R e e' := by
  induction h with
  | nil => cases he
  | cons h _ ih =>
      rcases List.mem_cons.1 he with rfl | he
      · exact ⟨_, List.mem_cons_self, h⟩
      · obtain ⟨e', he', hk⟩ := ih he
        exact ⟨e', List.mem_cons_of_mem _ he', hk⟩

/-! ### Jobs by their ids -/

/-- Job ids do not repeat, and the jobs stand in the order in which they were enqueued. -/
structure Keyed (s : Store) : Prop where
  ids : (s.jobs.map fun e => e.job.jobId).Nodup
  seqs : (s.jobs.map Entry.seq).Pairwise (· < ·)
  bound : ∀ e ∈ s.jobs, e.seq < s.jobs.length

namespace Keyed

variable {s : Store}

lemma eq_of_jobId (hk : Keyed s) {e e' : Entry} (he : e ∈ s.jobs) (he' : e' ∈ s.jobs)
    (h : e.job.jobId = e'.job.jobId) : e = e' :=
  List.inj_on_of_nodup_map hk.ids he he' h

/-- `claim` finds the jobs sorted. -/
lemma mergeSort_jobs (hk : Keyed s) :
    (s.jobs.mergeSort fun a b => decide (a.seq ≤ b.seq)) = s.jobs := by
  refine List.mergeSort_of_pairwise ?_
  refine (List.pairwise_map.1 hk.seqs).imp fun h => ?_
  exact decide_eq_true h.le

end Keyed

lemma exists_of_job? {s : Store} {jid : String} {j : Job} (h : s.job? jid = some j) :
    ∃ e ∈ s.jobs, e.job = j ∧ j.jobId = jid := by
  rw [Store.job?, Option.map_eq_some_iff] at h
  obtain ⟨e, he, rfl⟩ := h
  exact ⟨e, List.mem_of_find?_eq_some he, rfl, by simpa using List.find?_some he⟩

lemma job?_of_mem {s : Store} (hk : Keyed s) {e : Entry} (he : e ∈ s.jobs) :
    s.job? e.job.jobId = some e.job := by
  rw [Store.job?, Option.map_eq_some_iff]
  cases hf : s.jobs.find? fun e' => decide (e'.job.jobId = e.job.jobId) with
  | none =>
      rw [List.find?_eq_none] at hf
      exact absurd (hf e he) (by simp)
  | some e' =>
      have hid : e'.job.jobId = e.job.jobId := by simpa using List.find?_some hf
      exact ⟨e', rfl, by rw [hk.eq_of_jobId (List.mem_of_find?_eq_some hf) he hid]⟩

/-- The conditions of `_held`. -/
lemma held_eq_some_iff {s : Store} {l : Lease} {now : Time} {j : Job} :
    MemoryStorage.held l now s = some j ↔
      s.job? l.jobId = some j ∧ j.clusterId = l.clusterId ∧ j.state.active = true ∧
        j.leaseOwner = some l.owner ∧ j.attempts = l.attempt ∧ j.lapsed now = false := by
  simp only [MemoryStorage.held, Option.filter_eq_some_iff, Bool.and_eq_true, decide_eq_true_eq,
    beq_iff_eq, Bool.not_eq_true', and_assoc]

lemma kept_updateJob {s : Store} (hk : Keyed s) {R : Job → Job → Prop} {jid : String} {j : Job}
    {f : Job → Job} (hj : s.job? jid = some j) (hf : R j (f j)) :
    List.Forall₂ (Kept R) s.jobs (s.updateJob jid f).jobs := by
  obtain ⟨e₀, he₀, rfl, hid⟩ := exists_of_job? hj
  rw [Store.updateJob, List.forall₂_map_right_iff, List.forall₂_same]
  intro e he
  by_cases h : e.job.jobId = jid
  · obtain rfl := hk.eq_of_jobId he he₀ (h.trans hid.symm)
    rw [if_pos h]
    exact ⟨rfl, Or.inr hf⟩
  · rw [if_neg h]
    exact Kept.refl e

/-- What the loop of `claim` does to each job. -/
lemma kept_claimScan {rs : List Time} {owner : String} {secs now : Time} {scope : Scope}
    (es : List Entry) : List.Forall₂ (Kept (Change rs)) es (MemoryStorage.claimScan owner secs scope now es).2 := by
  induction es with
  | nil => exact .nil
  | cons e es ih =>
      have nonterminal (h : ¬(!(decide (e.job.state = .queued) || e.job.expired now)) = true) :
          e.job.state.terminal = false := by
        rw [Bool.not_eq_true, Bool.not_eq_false', Bool.or_eq_true, decide_eq_true_eq,
          Job.expired, Bool.and_eq_true] at h
        exact JobState.terminal_eq_false_iff.2 (h.imp_right And.left)
      unfold MemoryStorage.claimScan
      split_ifs with hvis hopen hcancel hspent
      · exact .cons (Kept.refl e) ih
      · exact .cons (Kept.refl e) ih
      · exact .cons ⟨rfl, Or.inr (.drop none (nonterminal hopen) hcancel)⟩ ih
      · exact .cons ⟨rfl, Or.inr (.fail _ (nonterminal hopen))⟩ ih
      · refine .cons ⟨rfl, Or.inr (.lease owner secs now (nonterminal hopen)
          (by simpa using hcancel) (by simpa using hspent))⟩ ?_
        exact Kept.refl_all es

/-- The job that the loop of `claim` leases. -/
lemma claimScan_eq_some {owner : String} {secs now : Time} {scope : Scope} {es : List Entry}
    {j : Job} (h : (MemoryStorage.claimScan owner secs scope now es).1 = some j) :
    ∃ e ∈ es, j = e.job.lease owner secs now ∧ visible scope e.job.clusterId = true ∧
      { e with job := j } ∈ (MemoryStorage.claimScan owner secs scope now es).2 := by
  induction es with
  | nil => simp [MemoryStorage.claimScan] at h
  | cons e es ih =>
      revert h
      unfold MemoryStorage.claimScan
      split_ifs with hvis hopen hcancel hspent
      iterate 4
        intro h
        obtain ⟨e', he', hj, hv, hm⟩ := ih h
        exact ⟨e', List.mem_cons_of_mem _ he', hj, hv, List.mem_cons_of_mem _ hm⟩
      · intro h
        obtain rfl := Option.some.inj h
        exact ⟨e, List.mem_cons_self, rfl, by simpa using hvis, List.mem_cons_self⟩

/-! ### Effects of a call -/

/-- `new_id` draws no identifier that is in use. -/
def Op.Fresh (s : Store) : Op → Prop
  | .enqueue _ _ _ digits _ => ∀ e ∈ s.jobs, e.job.jobId ≠ newId "job" digits
  | .recordAnalysis _ _ digits | .complete _ _ digits _ =>
      ∀ p, ∀ r ∈ s.results, r.resultId ≠ newId p digits
  | _ => True

/-- The store with a manifest put into it. -/
def Store.withManifest (s : Store) (m : Manifest) : Store :=
  if s.manifests.contains m.manifestId then s else { s with manifests := s.manifests.put m }

/-- What a call does to the store. -/
inductive Effect (s : Store) : Op → Store → Prop
  /-- Jobs are changed, each at most once, and nothing else. -/
  | jobs {op : Op} (jobs : List Entry) (h : List.Forall₂ (Kept (Change op.readings)) s.jobs jobs) :
      Effect s op { s with jobs := jobs }
  | case {op : Op} (c : CaseRecord) (h : s.cases.contains c.key = false) :
      Effect s op { s with cases := s.cases.put c }
  /-- A manifest is stored, and the operation goes no further. -/
  | manifest {op : Op} (m : Manifest) (hop : op.manifest? = some m)
      (h : s.cases.contains (m.clusterId, m.caseId) = true) : Effect s op (s.withManifest m)
  /-- A synchronous analysis is recorded. -/
  | analysis {op : Op} (m : Manifest) (hop : op.manifest? = some m)
      (h : s.cases.contains (m.clusterId, m.caseId) = true) (result : Json) (rid : String)
      (hrid : ∀ r ∈ s.results, r.resultId ≠ rid) :
      Effect s op { s.withManifest m with
        results := s.results.put (MemoryStorage.syncResult m result rid) }
  | enqueue {op : Op} (m : Manifest) (hop : op.manifest? = some m)
      (h : s.cases.contains (m.clusterId, m.caseId) = true) (createdBy jid : String) (n : ℕ)
      (hn : 1 ≤ n ∧ n ≤ 10) (hjid : ∀ e ∈ s.jobs, e.job.jobId ≠ jid) :
      Effect s op { s.withManifest m with
        jobs := s.jobs ++ [⟨MemoryStorage.newJob m createdBy n jid, s.jobs.length⟩] }
  /-- The live lease publishes the result of its job. -/
  | publish (l : Lease) (result : Json) (digits : String) (now : Time) (j : Job)
      (hj : MemoryStorage.held l now s = some j) (hc : j.cancelRequested = false)
      (hpub : s.resultByJob.contains j.jobId = false) (m : Manifest)
      (hm : s.manifests.get? j.manifestId = some m)
      (hcase : s.cases.contains (m.clusterId, m.caseId) = true) (rid : String)
      (hrid : ∀ r ∈ s.results, r.resultId ≠ rid)
      (jobs : List Entry)
      (hjobs : jobs = (s.updateJob l.jobId fun j => j.release .succeeded none).jobs) :
      Effect s (.complete l result digits now) { s with
        jobs := jobs
        results := s.results.put (MemoryStorage.jobResult j m result rid)
        resultByJob := s.resultByJob.put (j.jobId, rid) }

lemma Effect.refl (s : Store) (op : Op) : Effect s op s :=
  .jobs s.jobs (Kept.refl_all s.jobs)

lemma Effect.updateJob {s : Store} (hk : Keyed s) {op : Op} {jid : String} {j : Job}
    {f : Job → Job} (hj : s.job? jid = some j) (hf : Change op.readings j (f j)) :
    Effect s op (s.updateJob jid f) :=
  .jobs _ (kept_updateJob hk hj hf)

lemma putManifest_cases (m : Manifest) (s : Store) :
    (∃ e, MemoryStorage.putManifest m s = (.error e, s) ∧
        s.cases.contains (m.clusterId, m.caseId) = false) ∨
      MemoryStorage.putManifest m s = (.ok (), s.withManifest m) ∧
        s.cases.contains (m.clusterId, m.caseId) = true := by
  unfold MemoryStorage.putManifest Store.withManifest
  cases hc : s.cases.contains (m.clusterId, m.caseId)
  · exact Or.inl ⟨.keyError "manifest references an unknown case", by simp, rfl⟩
  · refine Or.inr ⟨?_, rfl⟩
    simp only [Bool.not_true, Bool.false_eq_true, if_false]
    split_ifs <;> rfl

@[simp] lemma withManifest_cases (s : Store) (m : Manifest) : (s.withManifest m).cases = s.cases := by
  unfold Store.withManifest; split <;> rfl

@[simp] lemma withManifest_jobs (s : Store) (m : Manifest) : (s.withManifest m).jobs = s.jobs := by
  unfold Store.withManifest; split <;> rfl

@[simp] lemma withManifest_results (s : Store) (m : Manifest) :
    (s.withManifest m).results = s.results := by
  unfold Store.withManifest; split <;> rfl

@[simp] lemma withManifest_resultByJob (s : Store) (m : Manifest) :
    (s.withManifest m).resultByJob = s.resultByJob := by
  unfold Store.withManifest; split <;> rfl

section

variable {digest : Json → String} {caps : Caps} {s : Store}

lemma effect_createCase {op : Op} (c : Case) :
    Effect s op (MemoryStorage.createCase digest caps c s).2 := by
  unfold MemoryStorage.createCase
  simp only
  split_ifs with hc hcap
  · exact Effect.refl s op
  · exact Effect.refl s op
  · exact .case _ (by simpa using hc)

lemma effect_recordAnalysis {m : Manifest} {result : Json} {digits : String}
    (hfresh : ∀ p, ∀ r ∈ s.results, r.resultId ≠ newId p digits) :
    Effect s (.recordAnalysis m result digits) (MemoryStorage.recordAnalysis caps m result digits s).2 := by
  unfold MemoryStorage.recordAnalysis
  split_ifs with hcap
  · exact Effect.refl s _
  rcases putManifest_cases m s with ⟨e, he, -⟩ | ⟨he, hc⟩
  · rw [he]
    exact Effect.refl s _
  · rw [he]
    cases hp : resultPrefix m.kind with
    | none => simpa only [hp] using Effect.manifest m rfl hc
    | some p =>
        simp only [withManifest_results]
        exact .analysis m rfl hc result _ (hfresh p)

lemma effect_enqueue {m : Manifest} {createdBy digits : String} {n : ℤ} {now : Time}
    (hfresh : ∀ e ∈ s.jobs, e.job.jobId ≠ newId "job" digits) :
    Effect s (.enqueue m createdBy n digits now) (MemoryStorage.enqueue caps m createdBy n digits s).2 := by
  unfold MemoryStorage.enqueue
  by_cases hn : 1 ≤ n ∧ n ≤ 10
  swap
  · rw [if_pos hn]
    exact Effect.refl s _
  rw [if_neg (not_not.2 hn)]
  split_ifs with hcap
  · exact Effect.refl s _
  rcases putManifest_cases m s with ⟨e, he, -⟩ | ⟨he, hc⟩
  · rw [he]
    exact Effect.refl s _
  · rw [he]
    have hnew : ¬(s.jobs.any fun e' => decide (e'.job.jobId =
        (MemoryStorage.newJob m createdBy n.toNat (newId "job" digits)).jobId)) = true := by
      rw [List.any_eq_true]
      rintro ⟨e, he, hid⟩
      exact hfresh e he (of_decide_eq_true hid)
    simp only [Store.putJob, withManifest_jobs]
    rw [if_neg hnew]
    exact .enqueue m rfl hc createdBy (newId "job" digits) n.toNat ⟨by omega, by omega⟩ hfresh

/-- Cancelling a job that is finished does nothing. -/
lemma cancel_of_terminal {j : Job} (h : j.state.terminal = true) : j.cancel = j := by
  unfold Job.cancel
  have hq : j.state ≠ .queued := fun hq => by simp [hq, JobState.terminal] at h
  have hact : ¬j.state.active = true := fun hact => by
    simp [JobState.terminal_of_active hact] at h
  rw [if_neg hq, if_neg hact]

lemma effect_cancelJob {op : Op} (hk : Keyed s) {jid : String} {scope : Scope} :
    Effect s op (MemoryStorage.cancelJob jid scope s).2 := by
  unfold MemoryStorage.cancelJob
  cases hj : s.job? jid with
  | none => exact Effect.refl s op
  | some j =>
      simp only
      split_ifs with hvis
      · cases ht : j.state.terminal with
        | false => exact Effect.updateJob hk hj (.cancel ht)
        | true =>
            have hsame : s.updateJob jid Job.cancel = s := by
              obtain ⟨e₀, he₀, rfl, hid⟩ := exists_of_job? hj
              rw [Store.updateJob]
              congr 1
              conv_rhs => rw [← List.map_id s.jobs]
              refine List.map_congr_left fun e he => ?_
              by_cases h : e.job.jobId = jid
              · obtain rfl := hk.eq_of_jobId he he₀ (h.trans hid.symm)
                rw [if_pos h, cancel_of_terminal ht, id]
              · rw [if_neg h, id]
            rw [hsame]
            exact Effect.refl s op
      · exact Effect.refl s op

lemma effect_claim {op : Op} (hk : Keyed s) {owner : String} {secs now : Time} {scope : Scope} :
    Effect s op (MemoryStorage.claim owner secs scope now s).2 := by
  have hjobs : (MemoryStorage.claim owner secs scope now s).2 = { s with
      jobs := (MemoryStorage.claimScan owner secs scope now s.jobs).2 } := by
    simp only [MemoryStorage.claim, hk.mergeSort_jobs]
    split
    · rfl
    · split <;> rfl
  rw [hjobs]
  exact .jobs _ (kept_claimScan s.jobs)

lemma held_job? {l : Lease} {now : Time} {j : Job} (h : MemoryStorage.held l now s = some j) :
    s.job? l.jobId = some j ∧ j.state.active = true :=
  ⟨(held_eq_some_iff.1 h).1, (held_eq_some_iff.1 h).2.2.1⟩

lemma held_lapsed {l : Lease} {now : Time} {j : Job} (h : MemoryStorage.held l now s = some j) :
    j.lapsed now = false :=
  (held_eq_some_iff.1 h).2.2.2.2.2

lemma effect_heartbeat (hk : Keyed s) {l : Lease} {secs checked now : Time} :
    Effect s (.heartbeat l secs checked now) (MemoryStorage.heartbeat l secs checked now s).2 := by
  unfold MemoryStorage.heartbeat
  cases hh : MemoryStorage.held l checked s with
  | none => exact Effect.refl s _
  | some j =>
      exact Effect.updateJob hk (f := fun j => j.extend secs now) (held_job? hh).1
        (.extend secs now (held_job? hh).2 ⟨checked, List.mem_cons_self, held_lapsed hh⟩)

lemma updateJob_updateJob {jid : String} {f g : Job → Job} (hf : ∀ j, (f j).jobId = j.jobId) :
    (s.updateJob jid f).updateJob jid g = s.updateJob jid fun j => g (f j) := by
  simp only [Store.updateJob, List.map_map]
  congr 1
  refine List.map_congr_left fun e _ => ?_
  by_cases h : e.job.jobId = jid
  · simp [h, hf]
  · simp [h]

/-- The store after `mark_running`. -/
lemma markRunning_store {l : Lease} {secs checked now : Time} :
    (MemoryStorage.markRunning l secs checked now s).2 =
      match MemoryStorage.held l checked s with
      | none => s
      | some _ => s.updateJob l.jobId fun j => { j.extend secs now with state := .running } := by
  unfold MemoryStorage.markRunning MemoryStorage.heartbeat
  cases MemoryStorage.held l checked s with
  | none => simp
  | some j =>
      have hlost : (if j.cancelRequested then HeartbeatStatus.cancel else .ok) ≠ .lost := by
        split <;> simp
      simp only [if_neg hlost]
      exact updateJob_updateJob (f := fun j => j.extend secs now) fun _ => rfl

lemma effect_markRunning (hk : Keyed s) {l : Lease} {secs checked now : Time} :
    Effect s (.markRunning l secs checked now)
      (MemoryStorage.markRunning l secs checked now s).2 := by
  rw [markRunning_store]
  cases hh : MemoryStorage.held l checked s with
  | none => exact Effect.refl s _
  | some j =>
      exact Effect.updateJob hk (f := fun j => { j.extend secs now with state := .running })
        (held_job? hh).1
        (.run secs now (held_job? hh).2 ⟨checked, List.mem_cons_self, held_lapsed hh⟩)

lemma effect_complete (hk : Keyed s) {l : Lease} {result : Json} {digits : String} {now : Time}
    (hfresh : ∀ p, ∀ r ∈ s.results, r.resultId ≠ newId p digits) :
    Effect s (.complete l result digits now)
      (MemoryStorage.complete caps l result digits now s).2 := by
  unfold MemoryStorage.complete
  cases hh : MemoryStorage.held l now s with
  | none => exact Effect.refl s _
  | some j =>
      obtain ⟨hj, hact⟩ := held_job? hh
      simp only
      by_cases hopen : (j.cancelRequested || s.resultByJob.contains j.jobId) = true
      · rw [if_pos hopen]
        exact Effect.refl s _
      rw [if_neg hopen]
      rw [Bool.or_eq_true, not_or, Bool.not_eq_true, Bool.not_eq_true] at hopen
      cases hm : s.manifests.get? j.manifestId with
      | none => exact Effect.refl s _
      | some m =>
          simp only
          by_cases hcase : s.cases.contains (m.clusterId, m.caseId) = true
          swap
          · rw [if_pos (by simpa using hcase)]
            exact Effect.refl s _
          rw [if_neg (by simpa using hcase)]
          by_cases hcap : caps.maxResults ≤ s.results.rows.length
          · rw [if_pos hcap]
            exact Effect.updateJob hk (f := fun j => j.release .failed (some _)) hj
              (.fail _ (JobState.terminal_of_active hact))
          rw [if_neg hcap]
          cases hp : resultPrefix j.kind with
          | none => exact Effect.refl s _
          | some p =>
              exact .publish l result digits now j hh hopen.1 hopen.2 m hm hcase _ (hfresh p) _ rfl

lemma effect_fail {op : Op} (hk : Keyed s) {l : Lease} {e : String} {b : Bool} {now : Time} :
    Effect s op (MemoryStorage.fail l e b now s).2 := by
  unfold MemoryStorage.fail
  cases hh : MemoryStorage.held l now s with
  | none => exact Effect.refl s op
  | some j =>
      obtain ⟨hj, hact⟩ := held_job? hh
      have ht := JobState.terminal_of_active hact
      refine Effect.updateJob (f := fun j' => j'.release (MemoryStorage.failState j b) (some e))
        hk hj ?_
      unfold MemoryStorage.failState
      split_ifs with hc hretry
      · exact .drop (some e) ht hc
      · rw [Bool.and_eq_true, decide_eq_true_eq] at hretry
        exact .requeue e hact (by simpa using hc) hretry.2
      · exact .fail e ht

lemma effect_acknowledgeCancel {op : Op} (hk : Keyed s) {l : Lease} {now : Time} :
    Effect s op (MemoryStorage.acknowledgeCancel l now s).2 := by
  unfold MemoryStorage.acknowledgeCancel
  cases hh : MemoryStorage.held l now s with
  | none => exact Effect.refl s op
  | some j =>
      obtain ⟨hj, hact⟩ := held_job? hh
      simp only
      split_ifs with hc
      · exact Effect.updateJob hk (f := fun j => j.release .cancelled none) hj
          (.drop none (JobState.terminal_of_active hact) hc)
      · exact Effect.refl s op

/-- What one call does to the store. -/
theorem call_effect (hk : Keyed s) {op : Op} (hfresh : op.Fresh s) :
    Effect s op (MemoryStorage.call digest caps s op).2 := by
  cases op with
  | createCase c => exact effect_createCase c
  | recordAnalysis m r d => exact effect_recordAnalysis hfresh
  | enqueue m b n d now => exact effect_enqueue hfresh
  | cancelJob jid scope => exact effect_cancelJob hk
  | claim o secs scope now => exact effect_claim hk
  | markRunning l secs t now => exact effect_markRunning hk
  | heartbeat l secs t now => exact effect_heartbeat hk
  | complete l r d now => exact effect_complete hk hfresh
  | fail l e b now => exact effect_fail hk
  | acknowledgeCancel l now => exact effect_acknowledgeCancel hk
  | getCase | listCases | getAnalysis | getJob => exact Effect.refl s _

/-! ### Job ids along a run -/

lemma ids_of_kept {rs : List Time} {es es' : List Entry}
    (h : List.Forall₂ (Kept (Move rs)) es es') :
    es'.map (fun e => e.job.jobId) = es.map fun e => e.job.jobId := by
  induction h with
  | nil => rfl
  | cons h _ ih => rw [List.map_cons, List.map_cons, h.jobId, ih]

lemma seqs_of_kept {R : Job → Job → Prop} {es es' : List Entry}
    (h : List.Forall₂ (Kept R) es es') :
    es'.map Entry.seq = es.map Entry.seq := by
  induction h with
  | nil => rfl
  | cons h _ ih => rw [List.map_cons, List.map_cons, h.1, ih]

lemma Keyed.of_kept (hk : Keyed s) {rs : List Time} {s' : Store}
    (h : List.Forall₂ (Kept (Move rs)) s.jobs s'.jobs) : Keyed s' where
  ids := by
    rw [ids_of_kept h]
    exact hk.ids
  seqs := by
    rw [seqs_of_kept h]
    exact hk.seqs
  bound e he := by
    have hmem : e.seq ∈ s.jobs.map Entry.seq := by
      rw [← seqs_of_kept h]
      exact List.mem_map_of_mem he
    obtain ⟨e₀, he₀, heq⟩ := List.mem_map.1 hmem
    rw [← h.length_eq, ← heq]
    exact hk.bound e₀ he₀

/-- The jobs of a store as the effect leaves them: the earlier ones, each changed at most once,
and perhaps a new one. -/
lemma Effect.jobs_cases {op : Op} {s' : Store} (hk : Keyed s) (h : Effect s op s') :
    List.Forall₂ (Kept (Move op.readings)) s.jobs s'.jobs ∨
      ∃ m createdBy jid n, s'.jobs =
        s.jobs ++ [⟨MemoryStorage.newJob m createdBy n jid, s.jobs.length⟩] ∧ 1 ≤ n ∧
        ∀ e ∈ s.jobs, e.job.jobId ≠ jid := by
  have hsame : List.Forall₂ (Kept (Move op.readings)) s.jobs s.jobs := Kept.refl_all s.jobs
  cases h with
  | jobs jobs h => exact Or.inl (Kept.toMove_all h)
  | case c h => exact Or.inl hsame
  | manifest m _ h => exact Or.inl (by rw [withManifest_jobs]; exact hsame)
  | analysis m _ h result rid hrid => exact Or.inl (by simpa using hsame)
  | enqueue m _ h createdBy jid n hn hjid => exact Or.inr ⟨m, createdBy, jid, n, rfl, hn.1, hjid⟩
  | publish l result digits now j hj hc hpub m hm hcase rid hrid jobs hjobs =>
      obtain ⟨hjob, hact⟩ := held_job? hj
      subst hjobs
      exact Or.inl (kept_updateJob (f := fun j => j.release .succeeded none) hk hjob
        (.publish hact hc))

lemma Effect.keyed {op : Op} {s' : Store} (hk : Keyed s) (h : Effect s op s') : Keyed s' := by
  rcases h.jobs_cases hk with h | ⟨m, createdBy, jid, n, hjobs, -, hjid⟩
  · exact hk.of_kept h
  · refine ⟨?_, ?_, ?_⟩
    · rw [hjobs, List.map_append, List.nodup_append]
      refine ⟨hk.ids, by simp, ?_⟩
      rintro a ha b hb rfl
      obtain ⟨e, he, rfl⟩ := List.mem_map.1 ha
      exact hjid e he (by simpa [MemoryStorage.newJob] using hb)
    · rw [hjobs, List.map_append, List.pairwise_append]
      refine ⟨hk.seqs, by simp, ?_⟩
      intro a ha b hb
      obtain ⟨e, he, rfl⟩ := List.mem_map.1 ha
      obtain rfl : b = s.jobs.length := by simpa using hb
      exact hk.bound e he
    · intro e he
      rw [hjobs, List.mem_append, List.mem_singleton] at he
      rw [hjobs, List.length_append, List.length_singleton]
      rcases he with he | rfl
      · exact Nat.lt_succ_of_lt (hk.bound e he)
      · exact Nat.lt_succ_self _

/-! ### Workers and their leases -/

/-- A store with the leases that `claim` handed out, the latest first. -/
structure World where
  store : Store
  leases : List Lease

/-- Before the first call. -/
def World.initial : World := ⟨Store.initial, []⟩

/-- The machine of calls on `MemoryStorage`. -/
def memory (digest : Json → String) (caps : Caps) : Machine World Op Answer where
  step w op :=
    let r := MemoryStorage.call digest caps w.store op
    (r.1, ⟨r.2, r.1.lease?.toList ++ w.leases⟩)

/-- A call may come: a lease it presents was handed out, and the identifiers it draws are
fresh. -/
def World.May (w : World) (op : Op) : Prop :=
  (∀ l, op.lease? = some l → l ∈ w.leases) ∧ op.Fresh w.store

/-- A world that some run of calls leads to. -/
def World.Reachable (digest : Json → String) (caps : Caps) (w : World) : Prop :=
  ∃ ops, (memory digest caps).Admits World.May World.initial ops ∧
    (memory digest caps).final World.initial ops = w

lemma keyed_initial : Keyed Store.initial := ⟨by simp [Store.initial], by simp [Store.initial],
  by simp [Store.initial]⟩

lemma World.step_keyed {w : World} {op : Op} (hk : Keyed w.store) (hm : w.May op) :
    Keyed ((memory digest caps).step w op).2.store :=
  (call_effect hk hm.2).keyed hk

/-- The invariant rule for the storage: what every call preserves, given that job ids do not
repeat, holds of every reachable world. -/
theorem World.Reachable.invariant {P : World → Prop} (h0 : P World.initial)
    (hstep : ∀ w op, Keyed w.store → P w → w.May op → P ((memory digest caps).step w op).2)
    {w : World} (h : w.Reachable digest caps) : P w := by
  obtain ⟨ops, hadm, rfl⟩ := h
  exact hadm.preserved (I := fun w => Keyed w.store) (fun _ _ hk hm => World.step_keyed hk hm)
    hstep keyed_initial h0

lemma World.Reachable.keyed {w : World} (h : w.Reachable digest caps) : Keyed w.store :=
  h.invariant (P := fun w => Keyed w.store) keyed_initial fun _ _ hk _ hm =>
    World.step_keyed hk hm

lemma World.Reachable.final {w : World} {ops : List Op} (h : w.Reachable digest caps)
    (hadm : (memory digest caps).Admits World.May w ops) :
    ((memory digest caps).final w ops).Reachable digest caps := by
  obtain ⟨ops₀, hadm₀, rfl⟩ := h
  exact ⟨ops₀ ++ ops, Machine.admits_append _ _ _ |>.2 ⟨hadm₀, hadm⟩, Machine.final_append _ _ _⟩

end

/-! ### A run with one job -/

namespace Sample

/-- A digest of the right form. -/
def digest : Json → String := fun _ =>
  "sha256:0000000000000000000000000000000000000000000000000000000000000000"

def caps : Caps := ⟨10, 10, 10, by decide⟩

def case : Case := ⟨"c", "k", .null, .null⟩

def manifest : Manifest where
  manifestId := "mf-1"
  clusterId := "k"
  caseId := "c"
  kind := "analysis"
  inputHash := digest .null
  semanticProfile := .obj []
  engineVersion := "1"
  payload := [("input", .null)]

/-- The lease of the only job, for its first attempt. -/
def lease : Lease := ⟨"job-1", "k", "w", "analysis", 1, manifest⟩

/-- A case is created, an analysis of it is enqueued and a worker claims the job. -/
def claimed : List Op :=
  [.createCase case, .enqueue manifest "u" 2 "1" 0, .claim "w" 30 none 0]

/-- The world after `claimed`. -/
def world : World := (memory digest caps).final World.initial claimed

lemma world_leases : world.leases = [lease] := by
  with_unfolding_all rfl

lemma world_reachable : world.Reachable digest caps := by
  refine ⟨claimed, ⟨⟨by simp [Op.lease?], trivial⟩, ⟨by simp [Op.lease?], ?_⟩,
    ⟨by simp [Op.lease?], trivial⟩, trivial⟩, rfl⟩
  exact fun e he => absurd he List.not_mem_nil

end Sample

end Storage

end Afterlock
