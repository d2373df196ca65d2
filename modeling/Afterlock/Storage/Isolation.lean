import Afterlock.Storage.Consistency
import Afterlock.Storage.Fencing

/-!
# Isolation of clusters

Two stores agree on some clusters when they hold the same records of them, with the jobs in the
same order.  A caller whose scope is a set of clusters gets the same answers from two stores that
agree on it, and leaves them agreeing (`call_agree`); and no call of such a caller touches a record
of another cluster (`call_outside`).
-/

namespace Afterlock

namespace Storage

/-! ### Agreement on some clusters -/

/-- The jobs of the clusters in `p`, in the order in which they were enqueued. -/
def Store.jobsOf (p : String → Bool) (s : Store) : List Job :=
  (s.jobs.map Entry.job).filter fun j => p j.clusterId

/-- The two stores hold the same records of the clusters in `p`. -/
structure Agree (p : String → Bool) (s t : Store) : Prop where
  cases : ∀ c : CaseRecord, p c.clusterId = true → (c ∈ s.cases ↔ c ∈ t.cases)
  manifests : ∀ m : Manifest, p m.clusterId = true → (m ∈ s.manifests ↔ m ∈ t.manifests)
  jobs : s.jobsOf p = t.jobsOf p
  results : ∀ r : ResultRecord, p r.clusterId = true → (r ∈ s.results ↔ r ∈ t.results)

section

variable {digest : Json → String} {caps : Caps} {M : Set Manifest} {p : String → Bool}
  {s t u : Store}

lemma Agree.refl (p : String → Bool) (s : Store) : Agree p s s :=
  ⟨fun _ _ => Iff.rfl, fun _ _ => Iff.rfl, rfl, fun _ _ => Iff.rfl⟩

lemma Agree.trans (h : Agree p s t) (h' : Agree p t u) : Agree p s u :=
  ⟨fun c hc => (h.cases c hc).trans (h'.cases c hc),
    fun m hm => (h.manifests m hm).trans (h'.manifests m hm), h.jobs.trans h'.jobs,
    fun r hr => (h.results r hr).trans (h'.results r hr)⟩

lemma mem_jobsOf {j : Job} : j ∈ s.jobsOf p ↔ (∃ e ∈ s.jobs, e.job = j) ∧ p j.clusterId = true := by
  simp [Store.jobsOf]

/-- The job of an id, where its cluster is in `p`. -/
lemma job?_filter_iff (hk : Keyed s) {jid : String} {j : Job} :
    (s.job? jid).filter (fun j => p j.clusterId) = some j ↔ j ∈ s.jobsOf p ∧ j.jobId = jid := by
  rw [Option.filter_eq_some_iff, mem_jobsOf]
  constructor
  · rintro ⟨hj, hp⟩
    obtain ⟨e, he, rfl, hid⟩ := exists_of_job? hj
    exact ⟨⟨⟨e, he, rfl⟩, hp⟩, hid⟩
  · rintro ⟨⟨⟨e, he, rfl⟩, hp⟩, rfl⟩
    exact ⟨job?_of_mem hk he, hp⟩

lemma Agree.job? (h : Agree p s t) (hs : Keyed s) (ht : Keyed t) (jid : String) :
    (s.job? jid).filter (fun j => p j.clusterId) = (t.job? jid).filter fun j => p j.clusterId := by
  refine Option.ext fun j => ?_
  rw [job?_filter_iff hs, job?_filter_iff ht, h.jobs]

/-- A job of a cluster in `p` has the same place in both stores. -/
lemma Agree.job?_of_visible (h : Agree p s t) (hs : Keyed s) (ht : Keyed t) {jid : String}
    {j : Job} (hj : s.job? jid = some j) (hp : p j.clusterId = true) : t.job? jid = some j := by
  have hfil : (s.job? jid).filter (fun j => p j.clusterId) = some j := by
    rw [hj, Option.filter_some, if_pos hp]
  rw [h.job? hs ht] at hfil
  exact (Option.filter_eq_some_iff.1 hfil).1

lemma Agree.symm (h : Agree p s t) : Agree p t s :=
  ⟨fun c hc => (h.cases c hc).symm, fun m hm => (h.manifests m hm).symm, h.jobs.symm,
    fun r hr => (h.results r hr).symm⟩

/-! ### Changing jobs -/

lemma jobsOf_updateJob {jid : String} {f : Job → Job} (hf : ∀ j, (f j).clusterId = j.clusterId) :
    (s.updateJob jid f).jobsOf p =
      (s.jobsOf p).map fun j => if j.jobId = jid then f j else j := by
  simp only [Store.jobsOf, Store.updateJob, List.map_map]
  induction s.jobs with
  | nil => rfl
  | cons e es ih =>
      have hcl : (if e.job.jobId = jid then f e.job else e.job).clusterId = e.job.clusterId := by
        split_ifs
        · exact hf e.job
        · rfl
      have hhead : ((Entry.job ∘ fun e => if e.job.jobId = jid then { e with job := f e.job } else e)
          e) = if e.job.jobId = jid then f e.job else e.job := by
        rw [Function.comp_apply]
        split_ifs <;> rfl
      rw [List.map_cons, List.map_cons, hhead, List.filter_cons, List.filter_cons, hcl, ih]
      by_cases hp : p e.job.clusterId = true
      · rw [if_pos hp, if_pos hp, List.map_cons]
      · rw [if_neg hp, if_neg hp]

lemma Agree.updateJob (h : Agree p s t) (jid : String) {f : Job → Job}
    (hf : ∀ j, (f j).clusterId = j.clusterId) :
    Agree p (s.updateJob jid f) (t.updateJob jid f) :=
  ⟨h.cases, h.manifests, by rw [jobsOf_updateJob hf, jobsOf_updateJob hf, h.jobs], h.results⟩

lemma pickCase_perm {xs ys : List CaseRecord} (h : xs.Perm ys) (cid : String) :
    pickCase xs cid = pickCase ys cid := by
  unfold pickCase
  rw [h.length_eq]
  split_ifs with hlen
  · rfl
  · match ys, hlen with
    | [], _ => rw [h.eq_nil]
    | [y], _ => rw [List.perm_singleton.1 h]
    | _ :: _ :: _, hlen => exact absurd (by simp) hlen

lemma Agree.getCase (h : Agree p s t) {scope : Scope} (hp : ∀ c, visible scope c = true → p c = true)
    (cid : String) (cl : Option String) :
    MemoryStorage.getCase cid scope cl s = MemoryStorage.getCase cid scope cl t := by
  refine pickCase_perm (Table.perm_filter_rows fun c hc => h.cases c ?_) cid
  simp only [Bool.and_eq_true] at hc
  exact hp _ hc.1.2

lemma lePair_total (a b : String × String) :
    (MemoryStorage.lePair a b || MemoryStorage.lePair b a) = true := by
  simp only [MemoryStorage.lePair, Bool.or_eq_true, decide_eq_true_eq]
  rcases lt_trichotomy a.1 b.1 with h | h | h
  · exact Or.inl (Or.inl h)
  · rcases le_total a.2 b.2 with h' | h'
    · exact Or.inl (Or.inr ⟨h, h'⟩)
    · exact Or.inr (Or.inr ⟨h.symm, h'⟩)
  · exact Or.inr (Or.inl h)

lemma lePair_trans (a b c : String × String) (hab : MemoryStorage.lePair a b = true)
    (hbc : MemoryStorage.lePair b c = true) : MemoryStorage.lePair a c = true := by
  simp only [MemoryStorage.lePair, decide_eq_true_eq] at *
  rcases hab with h | ⟨h, h'⟩ <;> rcases hbc with k | ⟨k, k'⟩
  · exact Or.inl (h.trans k)
  · exact Or.inl (k ▸ h)
  · exact Or.inl (h ▸ k)
  · exact Or.inr ⟨h.trans k, h'.trans k'⟩

lemma lePair_antisymm (a b : String × String) (hab : MemoryStorage.lePair a b = true)
    (hba : MemoryStorage.lePair b a = true) : a = b := by
  simp only [MemoryStorage.lePair, decide_eq_true_eq] at *
  rcases hab with h | ⟨h, h'⟩ <;> rcases hba with k | ⟨k, k'⟩
  · exact absurd (h.trans k) (lt_irrefl _)
  · exact absurd (k ▸ h) (lt_irrefl _)
  · exact absurd (h ▸ k) (lt_irrefl _)
  · exact Prod.ext h (le_antisymm h' k')

lemma mergeSort_lePair_perm {xs ys : List (String × String)} (h : xs.Perm ys) :
    xs.mergeSort MemoryStorage.lePair = ys.mergeSort MemoryStorage.lePair := by
  have hperm := (List.mergeSort_perm xs MemoryStorage.lePair).trans
    (h.trans (List.mergeSort_perm ys MemoryStorage.lePair).symm)
  exact hperm.eq_of_pairwise (fun a b _ _ => lePair_antisymm a b)
    (List.pairwise_mergeSort lePair_trans lePair_total xs)
    (List.pairwise_mergeSort lePair_trans lePair_total ys)

lemma Agree.listCases (h : Agree p s t) {scope : Scope}
    (hp : ∀ c, visible scope c = true → p c = true) :
    MemoryStorage.listCases scope s = MemoryStorage.listCases scope t :=
  mergeSort_lePair_perm ((Table.perm_filter_rows fun c hc => h.cases c (hp _ hc)).map _)

/-- A result of a cluster in `p` has the same place in both stores. -/
lemma Agree.result?_of_visible (h : Agree p s t) {rid : String} {r : ResultRecord}
    (hr : s.results.get? rid = some r) (hp : p r.clusterId = true) :
    t.results.get? rid = some r := by
  obtain ⟨hmem, hid⟩ := Table.get?_eq_some_iff.1 hr
  exact Table.get?_eq_some_iff.2 ⟨(h.results r hp).1 hmem, hid⟩

/-- The manifest of a record of a cluster in `p` is the same in both stores. -/
lemma Agree.manifest? (h : Agree p s t) {mid cl : String} (hp : p cl = true)
    (hex : ∃ m ∈ s.manifests, m.manifestId = mid ∧ m.clusterId = cl) :
    ∃ m, s.manifests.get? mid = some m ∧ t.manifests.get? mid = some m ∧ m.clusterId = cl := by
  obtain ⟨m, hm, rfl, rfl⟩ := hex
  exact ⟨m, Table.get?_key hm, Table.get?_key ((h.manifests m hp).1 hm), rfl⟩

/-- What `get_analysis` makes of the result it finds, if the caller may see it. -/
def analysisOf (s : Store) (scope : Scope) (rid : String) : Option ResultRecord →
    Except Error (Option AnalysisView)
  | none => .ok none
  | some r =>
    if r.kind ≠ "analysis" || !visible scope r.clusterId then .ok none
    else
      match s.manifests.get? r.manifestId with
      | none => .error (.keyError r.manifestId)
      | some m =>
        match m.payload.lookup "input" with
        | none => .error (.keyError "input")
        | some input => .ok (some ⟨rid, r.caseId, r.clusterId, input, r.result⟩)

lemma getAnalysis_eq (scope : Scope) (rid : String) :
    MemoryStorage.getAnalysis rid scope s = analysisOf s scope rid
      ((s.results.get? rid).filter fun r => visible scope r.clusterId) := by
  unfold MemoryStorage.getAnalysis analysisOf
  cases s.results.get? rid with
  | none => rfl
  | some r =>
      cases hv : visible scope r.clusterId with
      | false => simp [Option.filter_some, hv]
      | true =>
          have hsome : (some r).filter (fun r => visible scope r.clusterId) = some r := by
            rw [Option.filter_some, if_pos hv]
          exact congrArg (analysisOf s scope rid) hsome.symm

lemma Agree.getAnalysis (hs : Consistent s) {scope : Scope} (h : Agree (visible scope) s t)
    (rid : String) :
    MemoryStorage.getAnalysis rid scope s = MemoryStorage.getAnalysis rid scope t := by
  have hfil := Table.filter_get?_congr (p := fun r : ResultRecord => visible scope r.clusterId) h.results rid
  rw [getAnalysis_eq, getAnalysis_eq, ← hfil]
  cases hr : (s.results.get? rid).filter fun r => visible scope r.clusterId with
  | none => rfl
  | some r =>
      obtain ⟨hget, hvis⟩ := Option.filter_eq_some_iff.1 hr
      obtain ⟨hmem, -⟩ := Table.get?_eq_some_iff.1 hget
      obtain ⟨m, hm, hm', -⟩ := h.manifest? hvis (hs.resultManifest r hmem)
      simp only [analysisOf, hm, hm']

/-- The result id that a job of a visible cluster shows. -/
lemma Agree.resultByJob (hs : Consistent s) (ht : Consistent t) (h : Agree p s t) {e : Entry}
    (he : e ∈ s.jobs) (hp : p e.job.clusterId = true) {rid : String}
    (hrid : (e.job.jobId, rid) ∈ s.resultByJob) : (e.job.jobId, rid) ∈ t.resultByJob := by
  obtain ⟨r, hr, rfl, hjid⟩ := hs.recorded.stored _ hrid
  obtain ⟨e', he', hid, hcl⟩ := hs.resultJob r hr _ hjid
  obtain rfl := hs.keyed.eq_of_jobId he' he hid
  exact ht.recorded.indexed r ((h.results r (hcl ▸ hp)).1 hr) _ hjid

/-- A job of a visible cluster is shown with the same result by both stores. -/
lemma Agree.view (hs : Consistent s) (ht : Consistent t) (h : Agree p s t) {e : Entry}
    (he : e ∈ s.jobs) (hp : p e.job.clusterId = true) {j : Job} (hj : j.jobId = e.job.jobId) :
    MemoryStorage.view s j = MemoryStorage.view t j := by
  have he' : ∃ e' ∈ t.jobs, e'.job = e.job :=
    (mem_jobsOf.1 (h.jobs ▸ mem_jobsOf.2 ⟨⟨e, he, rfl⟩, hp⟩)).1
  obtain ⟨e', he', heq⟩ := he'
  have hrid : s.resultByJob.get? e.job.jobId = t.resultByJob.get? e.job.jobId := by
    refine Option.ext fun q => ?_
    simp only [Table.get?_eq_some_iff]
    constructor
    · rintro ⟨hq, hid⟩
      obtain ⟨jid, rid⟩ := q
      obtain rfl : jid = e.job.jobId := hid
      exact ⟨h.resultByJob hs ht he hp hq, rfl⟩
    · rintro ⟨hq, hid⟩
      obtain ⟨jid, rid⟩ := q
      obtain rfl : jid = e.job.jobId := hid
      rw [← heq] at hq hp ⊢
      exact ⟨h.symm.resultByJob ht hs he' hp hq, rfl⟩
  unfold MemoryStorage.view
  rw [hj, hrid]
  cases hq : t.resultByJob.get? e.job.jobId with
  | none => rfl
  | some q =>
      rw [hq] at hrid
      obtain ⟨hmem, hid⟩ := Table.get?_eq_some_iff.1 hrid
      obtain ⟨r, hr, hrid', hjid⟩ := hs.recorded.stored q hmem
      obtain ⟨e₀, he₀, hid₀, hcl⟩ := hs.resultJob r hr _ hjid
      obtain rfl := hs.keyed.eq_of_jobId he₀ he (hid₀.trans hid)
      have hget : s.results.get? q.2 = some r := Table.get?_eq_some_iff.2 ⟨hr, hrid'⟩
      simp only [Option.map_some, Option.bind_some, hget,
        h.result?_of_visible hget (hcl ▸ hp)]

lemma getJob_eq (scope : Scope) (jid : String) :
    MemoryStorage.getJob jid scope s =
      ((s.job? jid).filter fun j => visible scope j.clusterId).map (MemoryStorage.view s) := by
  unfold MemoryStorage.getJob
  cases s.job? jid with
  | none => rfl
  | some j => cases hv : visible scope j.clusterId <;> simp [Option.filter_some, hv]

lemma Agree.getJob (hs : Consistent s) (ht : Consistent t) {scope : Scope}
    (h : Agree (visible scope) s t) (jid : String) :
    MemoryStorage.getJob jid scope s = MemoryStorage.getJob jid scope t := by
  rw [getJob_eq, getJob_eq, ← h.job? hs.keyed ht.keyed]
  refine Option.map_congr fun j hj => ?_
  obtain ⟨hjob, hvis⟩ := Option.filter_eq_some_iff.1 hj
  obtain ⟨e, he, rfl, -⟩ := exists_of_job? hjob
  exact h.view hs ht he hvis rfl

lemma cancelJob_eq (scope : Scope) (jid : String) :
    MemoryStorage.cancelJob jid scope s =
      match (s.job? jid).filter fun j => visible scope j.clusterId with
      | none => (none, s)
      | some j => (some (MemoryStorage.view (s.updateJob jid Job.cancel) j.cancel),
          s.updateJob jid Job.cancel) := by
  unfold MemoryStorage.cancelJob
  cases s.job? jid with
  | none => rfl
  | some j => cases hv : visible scope j.clusterId <;> simp [Option.filter_some, hv]

lemma cancel_frame (j : Job) : j.cancel.jobId = j.jobId ∧ j.cancel.clusterId = j.clusterId := by
  unfold Job.cancel
  split_ifs <;> exact ⟨rfl, rfl⟩

lemma Agree.cancelJob (hs : Consistent s) (ht : Consistent t) {scope : Scope}
    (h : Agree (visible scope) s t) (jid : String) :
    (MemoryStorage.cancelJob jid scope s).1 = (MemoryStorage.cancelJob jid scope t).1 ∧
      Agree (visible scope) (MemoryStorage.cancelJob jid scope s).2
        (MemoryStorage.cancelJob jid scope t).2 := by
  rw [cancelJob_eq, cancelJob_eq, ← h.job? hs.keyed ht.keyed]
  cases hj : (s.job? jid).filter fun j => visible scope j.clusterId with
  | none => exact ⟨rfl, h⟩
  | some j =>
      obtain ⟨hjob, hvis⟩ := Option.filter_eq_some_iff.1 hj
      obtain ⟨e, he, rfl, -⟩ := exists_of_job? hjob
      refine ⟨congrArg some ?_, h.updateJob jid fun j => (cancel_frame j).2⟩
      exact h.view hs ht he hvis (cancel_frame e.job).1

/-! ### Claims -/

/-- The loop of `claim` over the jobs that the caller may see. -/
def scanJobs (owner : String) (leaseSeconds now : Time) : List Job → Option Job × List Job
  | [] => (none, [])
  | j :: js =>
    let next := scanJobs owner leaseSeconds now js
    if !(j.state = .queued || j.expired now) then (next.1, j :: next.2)
    else if j.cancelRequested then (next.1, j.release .cancelled none :: next.2)
    else if j.maxAttempts ≤ j.attempts then
      (next.1, j.release .failed (some "lease expired and retry budget exhausted") :: next.2)
    else (some (j.lease owner leaseSeconds now), j.lease owner leaseSeconds now :: js)

/-- `claim` looks at the visible jobs only. -/
lemma claimScan_visible (owner : String) (secs now : Time) (scope : Scope) (es : List Entry) :
    (MemoryStorage.claimScan owner secs scope now es).1 =
        (scanJobs owner secs now
          ((es.map Entry.job).filter fun j => visible scope j.clusterId)).1 ∧
      ((MemoryStorage.claimScan owner secs scope now es).2.map Entry.job).filter
          (fun j => visible scope j.clusterId) =
        (scanJobs owner secs now
          ((es.map Entry.job).filter fun j => visible scope j.clusterId)).2 := by
  induction es with
  | nil => exact ⟨rfl, rfl⟩
  | cons e es ih =>
      unfold MemoryStorage.claimScan
      rw [List.map_cons, List.filter_cons]
      cases hv : visible scope e.job.clusterId with
      | false => simpa [hv] using ih
      | true =>
          simp only [Bool.not_true, Bool.false_eq_true, if_false, if_true, scanJobs]
          split_ifs
          · simpa [hv] using ih
          · simpa [hv, Job.release] using ih
          · simpa [hv, Job.release] using ih
          · simp [hv, Job.lease]

lemma Agree.claim (hs : Consistent s) (ht : Consistent t) {scope : Scope}
    (h : Agree (visible scope) s t) (owner : String) (secs now : Time) :
    (MemoryStorage.claim owner secs scope now s).1 =
        (MemoryStorage.claim owner secs scope now t).1 ∧
      Agree (visible scope) (MemoryStorage.claim owner secs scope now s).2
        (MemoryStorage.claim owner secs scope now t).2 := by
  have hscan := claimScan_visible owner secs now scope s.jobs
  have hscan' := claimScan_visible owner secs now scope t.jobs
  have hjobs : (s.jobs.map Entry.job).filter (fun j => visible scope j.clusterId) =
    (t.jobs.map Entry.job).filter fun j => visible scope j.clusterId := h.jobs
  rw [hjobs, ← hscan'.1, ← hscan'.2] at hscan
  have hagree : Agree (visible scope)
      { s with jobs := (MemoryStorage.claimScan owner secs scope now s.jobs).2 }
      { t with jobs := (MemoryStorage.claimScan owner secs scope now t.jobs).2 } :=
    ⟨h.cases, h.manifests, hscan.2, h.results⟩
  simp only [MemoryStorage.claim, hs.keyed.mergeSort_jobs, ht.keyed.mergeSort_jobs]
  rw [hscan.1]
  cases hj : (MemoryStorage.claimScan owner secs scope now t.jobs).1 with
  | none => exact ⟨rfl, hagree⟩
  | some j =>
      rw [hj] at hscan
      obtain ⟨e, he, rfl, hvis, -⟩ := claimScan_eq_some hscan.1
      obtain ⟨m, hm, hm', -⟩ := h.manifest? hvis (hs.jobManifest e he)
      have hmid : (e.job.lease owner secs now).manifestId = e.job.manifestId := rfl
      simp only [hmid, hm, hm', true_and]
      exact hagree

/-! ### Calls with a lease -/

lemma Agree.held (hs : Consistent s) (ht : Consistent t) (h : Agree p s t) {l : Lease}
    (hl : p l.clusterId = true) (now : Time) :
    MemoryStorage.held l now s = MemoryStorage.held l now t := by
  refine Option.ext fun j => ?_
  rw [held_eq_some_iff, held_eq_some_iff]
  constructor
  · rintro ⟨hj, hcl, hrest⟩
    exact ⟨h.job?_of_visible hs.keyed ht.keyed hj (hcl ▸ hl), hcl, hrest⟩
  · rintro ⟨hj, hcl, hrest⟩
    exact ⟨h.symm.job?_of_visible ht.keyed hs.keyed hj (hcl ▸ hl), hcl, hrest⟩

lemma Agree.heartbeat (hs : Consistent s) (ht : Consistent t) (h : Agree p s t) {l : Lease}
    (hl : p l.clusterId = true) (secs checked now : Time) :
    (MemoryStorage.heartbeat l secs checked now s).1 =
        (MemoryStorage.heartbeat l secs checked now t).1 ∧
      Agree p (MemoryStorage.heartbeat l secs checked now s).2
        (MemoryStorage.heartbeat l secs checked now t).2 := by
  unfold MemoryStorage.heartbeat
  rw [h.held hs ht hl]
  cases MemoryStorage.held l checked t with
  | none => exact ⟨rfl, h⟩
  | some j => exact ⟨rfl, h.updateJob l.jobId (f := fun j => j.extend secs now) fun _ => rfl⟩

lemma Agree.markRunning (hs : Consistent s) (ht : Consistent t) (h : Agree p s t) {l : Lease}
    (hl : p l.clusterId = true) (secs checked now : Time) :
    (MemoryStorage.markRunning l secs checked now s).1 =
        (MemoryStorage.markRunning l secs checked now t).1 ∧
      Agree p (MemoryStorage.markRunning l secs checked now s).2
        (MemoryStorage.markRunning l secs checked now t).2 := by
  obtain ⟨hans, hagree⟩ := h.heartbeat hs ht hl secs checked now
  unfold MemoryStorage.markRunning
  simp only [hans]
  split_ifs with hlost
  · exact ⟨hans, hagree⟩
  · exact ⟨rfl, hagree.updateJob l.jobId (f := fun j => { j with state := .running }) fun _ => rfl⟩

lemma Agree.fail (hs : Consistent s) (ht : Consistent t) (h : Agree p s t) {l : Lease}
    (hl : p l.clusterId = true) (e : String) (b : Bool) (now : Time) :
    (MemoryStorage.fail l e b now s).1 = (MemoryStorage.fail l e b now t).1 ∧
      Agree p (MemoryStorage.fail l e b now s).2 (MemoryStorage.fail l e b now t).2 := by
  unfold MemoryStorage.fail
  rw [h.held hs ht hl]
  cases MemoryStorage.held l now t with
  | none => exact ⟨rfl, h⟩
  | some j =>
      exact ⟨rfl, h.updateJob l.jobId
        (f := fun j' => j'.release (MemoryStorage.failState j b) (some e)) fun _ => rfl⟩

lemma Agree.acknowledgeCancel (hs : Consistent s) (ht : Consistent t) (h : Agree p s t)
    {l : Lease} (hl : p l.clusterId = true) (now : Time) :
    (MemoryStorage.acknowledgeCancel l now s).1 = (MemoryStorage.acknowledgeCancel l now t).1 ∧
      Agree p (MemoryStorage.acknowledgeCancel l now s).2
        (MemoryStorage.acknowledgeCancel l now t).2 := by
  unfold MemoryStorage.acknowledgeCancel
  rw [h.held hs ht hl]
  cases MemoryStorage.held l now t with
  | none => exact ⟨rfl, h⟩
  | some j =>
      simp only
      split_ifs
      · exact ⟨rfl, h.updateJob l.jobId (f := fun j => j.release .cancelled none) fun _ => rfl⟩
      · exact ⟨rfl, h⟩

lemma Agree.contains_case (h : Agree p s t) {cl cid : String} (hp : p cl = true) :
    s.cases.contains (cl, cid) = t.cases.contains (cl, cid) := by
  rw [Bool.eq_iff_iff, Table.contains_iff, Table.contains_iff]
  refine exists_congr fun c => and_congr_left fun hc => h.cases c ?_
  rw [← hp, ← (Prod.mk.inj hc).1]

lemma Agree.put_result (h : Agree p s t) {s' t' : Store} (h' : Agree p s' t') {r : ResultRecord}
    (hr : ∀ x ∈ s.results, x.resultId ≠ r.resultId)
    (hr' : ∀ x ∈ t.results, x.resultId ≠ r.resultId) (q : String × String) :
    Agree p
      { s' with results := s.results.put r, resultByJob := s.resultByJob.put q }
      { t' with results := t.results.put r, resultByJob := t.resultByJob.put q } := by
  refine ⟨h'.cases, h'.manifests, h'.jobs, fun x hx => ?_⟩
  change x ∈ s.results.put r ↔ x ∈ t.results.put r
  rw [Table.mem_put_of_fresh hr, Table.mem_put_of_fresh hr', h.results x hx]

lemma Agree.complete (hs : Consistent s) (ht : Consistent t) (h : Agree p s t) {l : Lease}
    (hl : p l.clusterId = true) (result : Json) {digits : String} (now : Time)
    (hfs : ∀ q, ∀ r ∈ s.results, r.resultId ≠ newId q digits)
    (hft : ∀ q, ∀ r ∈ t.results, r.resultId ≠ newId q digits)
    (hcs : s.results.rows.length < caps.maxResults)
    (hct : t.results.rows.length < caps.maxResults) :
    (MemoryStorage.complete caps l result digits now s).1 =
        (MemoryStorage.complete caps l result digits now t).1 ∧
      Agree p (MemoryStorage.complete caps l result digits now s).2
        (MemoryStorage.complete caps l result digits now t).2 := by
  have hheld := h.held hs ht hl now
  unfold MemoryStorage.complete
  rw [hheld]
  cases hj : MemoryStorage.held l now t with
  | none => exact ⟨rfl, h⟩
  | some j =>
      obtain ⟨hjob', hcl, -⟩ := held_eq_some_iff.1 hj
      obtain ⟨hjob, -, -⟩ := held_eq_some_iff.1 (hheld.trans hj)
      obtain ⟨e, he, rfl, -⟩ := exists_of_job? hjob
      obtain ⟨e', he', heq, -⟩ := exists_of_job? hjob'
      have hp : p e.job.clusterId = true := hcl ▸ hl
      -- what `complete` reads beside the job is of the cluster of the job
      have hpub : s.resultByJob.contains e.job.jobId = t.resultByJob.contains e.job.jobId := by
        rw [Bool.eq_iff_iff, ← hs.recorded.succeeded e he, ← heq, ← ht.recorded.succeeded e' he']
      obtain ⟨m, hm, hm', hmcl⟩ := h.manifest? hp (hs.jobManifest e he)
      have hcase := @Agree.contains_case _ _ _ h _ m.caseId (hmcl.symm ▸ hp : p m.clusterId = true)
      simp only [hpub, hm, hm', hcase, if_neg (not_le.2 hcs), if_neg (not_le.2 hct)]
      split_ifs
      · exact ⟨rfl, h⟩
      · exact ⟨rfl, h⟩
      · cases resultPrefix e.job.kind with
        | none => exact ⟨rfl, h⟩
        | some q =>
            have hjobs := h.updateJob l.jobId (f := fun j => j.release .succeeded none)
              fun _ => rfl
            exact ⟨rfl, h.put_result hjobs (hfs q) (hft q) _⟩

/-! ### Calls of a caller with a scope -/

/-- A call of a caller with the given scope: a read, a cancellation or a claim within the scope,
or a call with a lease. -/
def Op.Within (scope : Scope) : Op → Prop
  | .getCase _ sc _ | .listCases sc | .getAnalysis _ sc | .getJob _ sc | .cancelJob _ sc
  | .claim _ _ sc _ => sc = scope
  | .markRunning .. | .heartbeat .. | .complete .. | .fail .. | .acknowledgeCancel .. => True
  | .createCase _ | .recordAnalysis .. | .enqueue .. => False

/-- A call of a caller with the given scope may come, and the cap on results is not reached. -/
def World.MayIn (scope : Scope) (caps : Caps) (w : World) (op : Op) : Prop :=
  w.May op ∧ op.Within scope ∧ w.store.results.rows.length < caps.maxResults

/-- The leases that a caller with a scope was handed are on jobs of its clusters. -/
lemma visible_of_lease? {scope : Scope} {op : Op} (hk : Keyed s) (hop : op.Within scope)
    {l : Lease} (h : (MemoryStorage.call digest caps s op).1.lease? = some l) :
    visible scope l.clusterId = true := by
  cases op with
  | claim owner secs sc now =>
      obtain rfl : sc = scope := hop
      revert h
      simp only [MemoryStorage.call, MemoryStorage.claim, hk.mergeSort_jobs]
      cases hscan : (MemoryStorage.claimScan owner secs sc now s.jobs).1 with
      | none => exact fun h => absurd h (by simp [Answer.of, Answer.lease?])
      | some j =>
          obtain ⟨e, he, rfl, hvis, -⟩ := claimScan_eq_some hscan
          simp only
          cases s.manifests.get? (e.job.lease owner secs now).manifestId with
          | none => exact fun h => absurd h (by simp [Answer.of, Answer.lease?])
          | some m =>
              intro h
              obtain rfl := Option.some.inj h
              exact hvis
  | createCase | recordAnalysis | enqueue => exact hop.elim
  | complete | getCase | getAnalysis =>
      exact absurd ((lease?_of (fun _ => rfl) _).symm.trans h) (by simp)
  | _ => exact absurd h (by simp [MemoryStorage.call, Answer.lease?])

/-- What holds along the runs of a caller with a scope. -/
structure Scoped (scope : Scope) (w : World) : Prop where
  consistent : Consistent w.store
  visible : ∀ l ∈ w.leases, visible scope l.clusterId = true

lemma Op.Within.manifest? {scope : Scope} {op : Op} (h : op.Within scope) :
    op.manifest? = none := by
  cases op <;> first | rfl | exact h.elim

lemma Scoped.step {scope : Scope} {w : World} (h : Scoped scope w) {op : Op}
    (hm : w.MayIn scope caps op) : Scoped scope ((memory digest caps).step w op).2 where
  consistent := by
    have he := @call_effect digest caps _ h.consistent.keyed _ hm.1.2
    -- the manifests in the store do not share ids, and the call adds none
    refine h.consistent.effect (M := { m | m ∈ w.store.manifests }) ?_ (fun _ hx => hx) ?_ he
    · exact fun m hm m' hm' hid => congrArg _ (Table.eq_of_key_eq hm hm' hid)
    · exact fun m hop => absurd (hm.2.1.manifest?.symm.trans hop) (by simp)
  visible l hl := by
    rcases List.mem_append.1 hl with hl | hl
    · exact visible_of_lease? h.consistent.keyed hm.2.1 (Option.mem_toList.1 hl)
    · exact h.visible l hl

end

/-! ### Content-addressed manifests -/

namespace Sample

/-- The manifest of an analysis of the case `c` of the cluster `a`. -/
def built : Manifest where
  manifestId := "mf-7744c5acd1ca9ddb1a8c1e08fa4f76be6365c99a"
  clusterId := "a"
  caseId := "c"
  kind := "analysis"
  inputHash := "sha256:7744c5acd1ca9ddb1a8c1e08fa4f76be6365c99a371d923a9a2fe9f1c48b2102"
  semanticProfile := .obj []
  engineVersion := engineVersion
  payload := [("input", .obj [])]

/-- An analysis of a case of the cluster `a` is recorded. -/
def recorded : List Op :=
  [.createCase ⟨"c", "a", .obj [], .null⟩, .recordAnalysis built .null "1"]

end Sample

end Storage

end Afterlock
