import Afterlock.Storage.Isolation
import Afterlock.Storage.Postgres

/-!
# One contract for two backends

`MemoryStorage` and `PostgresStorage` are run side by side on the same calls.  `Matches` relates
the dictionaries to the tables; each operation is shown to answer alike and to keep them matched,
and `Machine.lockstep_rel` carries it to whole runs.

The backends keep different texts of an error that is longer than two thousand characters: the
database clips it and the dictionary does not.
-/

namespace Afterlock

namespace Storage

/-- The same answer, or both raise. -/
def Answer.Same (a b : Answer) : Prop :=
  a = b ∨ (∃ e, a = .raised e) ∧ ∃ e, b = .raised e

/-- The tables hold what the dictionaries hold, with the jobs dated in the order of `enqueue`. -/
structure Matches (s : Store) (d : Database) : Prop where
  cases : d.cases = s.cases
  manifests : d.manifests = s.manifests
  results : d.results = s.results
  jobs : d.jobs.map JobRow.job = s.jobs.map Entry.job
  created : (d.jobs.map JobRow.createdAt).Pairwise (· < ·)

/-- What the constraints of the table `jobs` ask of a job, and what holds of every job. -/
structure Job.Valid (j : Job) : Prop where
  sound : j.Sound
  kind : kindOk j.kind = true
  one_le : 1 ≤ j.maxAttempts
  le_ten : j.maxAttempts ≤ 10

lemma Job.Valid.check {j : Job} (h : j.Valid) : checkJob j = true := by
  simp only [checkJob, Bool.and_eq_true, decide_eq_true_eq, beq_iff_eq, h.sound.owner,
    h.sound.expiry, Bool.and_self]
  exact ⟨⟨⟨⟨h.kind, h.one_le⟩, h.le_ten⟩, trivial⟩, h.sound.attempts⟩

lemma Job.Valid.move {rs : List Time} {j j' : Job} (h : j.Valid) (hm : Move rs j j') : j'.Valid := by
  obtain ⟨-, -, -, hkind, hmax, -⟩ := hm.frame
  exact ⟨hm.sound h.sound, hkind ▸ h.kind, hmax ▸ h.one_le, hmax ▸ h.le_ten⟩

section

variable {s : Store} {d : Database}

/-! ### Statements on the table of jobs -/

lemma selectJob_eq_some_iff (hk : Keyed s) (h : Matches s d) {p : Job → Bool} {jid : String}
    (hp : ∀ j, p j = true → j.jobId = jid) {j : Job} :
    d.selectJob p = some j ↔ s.job? jid = some j ∧ p j = true := by
  have hd : d.selectJob p = (s.jobs.map Entry.job).find? p := by
    rw [← h.jobs, List.find?_map]
    rfl
  rw [hd]
  constructor
  · intro hj
    obtain ⟨e, he, rfl⟩ := List.mem_map.1 (List.mem_of_find?_eq_some hj)
    have hpj := List.find?_some hj
    exact ⟨hp _ hpj ▸ job?_of_mem hk he, hpj⟩
  · rintro ⟨hj, hpj⟩
    obtain ⟨e, he, rfl, hid⟩ := exists_of_job? hj
    cases hf : (s.jobs.map Entry.job).find? p with
    | none =>
        rw [List.find?_eq_none] at hf
        exact absurd hpj (hf e.job (List.mem_map_of_mem he))
    | some j' =>
        obtain ⟨e', he', rfl⟩ := List.mem_map.1 (List.mem_of_find?_eq_some hf)
        have hid' := hp _ (List.find?_some hf)
        rw [hk.eq_of_jobId he' he (hid'.trans hid.symm)]

/-- An update of the table that leaves the jobs as an update of the dictionary does. -/
lemma Matches.updateJobs (h : Matches s d) {p : Job → Bool} {f g : Job → Job} {jid : String}
    (hcheck : ∀ e ∈ s.jobs, p e.job = true → checkJob (f e.job) = true)
    (hsame : ∀ e ∈ s.jobs, (if p e.job then f e.job else e.job) =
      if e.job.jobId = jid then g e.job else e.job) :
    ∃ d', d.updateJobs p f = .ok (((d.jobs.map JobRow.job).filter p).map f, d') ∧
      Matches (s.updateJob jid g) d' := by
  have hrows : ((d.jobs.filter fun r => p r.job).map fun r => f r.job) =
      ((d.jobs.map JobRow.job).filter p).map f := by
    rw [List.filter_map, List.map_map]
    rfl
  have hall : (((d.jobs.map JobRow.job).filter p).map f).all checkJob = true := by
    rw [List.all_eq_true]
    intro x hx
    obtain ⟨j, hj, rfl⟩ := List.mem_map.1 hx
    obtain ⟨hj, hpj⟩ := List.mem_filter.1 hj
    rw [h.jobs] at hj
    obtain ⟨e, he, rfl⟩ := List.mem_map.1 hj
    exact hcheck e he hpj
  refine ⟨{ d with jobs := d.jobs.map fun r => if p r.job then { r with job := f r.job } else r },
    ?_, h.cases, h.manifests, h.results, ?_, ?_⟩
  · -- every changed row meets the constraints
    unfold Database.updateJobs
    simp only [hrows]
    exact if_pos hall
  · -- the jobs are those of the memory store, in the same order
    have hd : (d.jobs.map fun r => if p r.job then { r with job := f r.job } else r).map
        JobRow.job = (d.jobs.map JobRow.job).map fun j => if p j then f j else j := by
      rw [List.map_map, List.map_map]
      refine List.map_congr_left fun r _ => ?_
      simp only [Function.comp_apply]
      split_ifs <;> rfl
    have hs : (s.updateJob jid g).jobs.map Entry.job =
        (s.jobs.map Entry.job).map fun j => if j.jobId = jid then g j else j := by
      rw [Store.updateJob, List.map_map, List.map_map]
      refine List.map_congr_left fun e _ => ?_
      simp only [Function.comp_apply]
      split_ifs <;> rfl
    rw [hd, hs, h.jobs, List.map_map, List.map_map]
    exact List.map_congr_left fun e he => hsame e he
  · -- the times of creation have not changed
    have hc : (d.jobs.map fun r => if p r.job then { r with job := f r.job } else r).map
        JobRow.createdAt = d.jobs.map JobRow.createdAt := by
      rw [List.map_map]
      refine List.map_congr_left fun r _ => ?_
      simp only [Function.comp_apply]
      split_ifs <;> rfl
    rw [hc]
    exact h.created

/-- An update of the one job `j`. -/
lemma Matches.updateJobs_one (hk : Keyed s) (h : Matches s d) {p : Job → Bool} {f g : Job → Job}
    {jid : String} {j : Job} (hj : s.job? jid = some j)
    (hp : ∀ e ∈ s.jobs, p e.job = true ↔ e.job.jobId = jid) (hfg : f j = g j)
    (hcheck : checkJob (f j) = true) :
    ∃ d', d.updateJobs p f = .ok ([f j], d') ∧ Matches (s.updateJob jid g) d' := by
  obtain ⟨e₀, he₀, rfl, hid⟩ := exists_of_job? hj
  have hone : ∀ e ∈ s.jobs, p e.job = true → e = e₀ := fun e he hpe =>
    hk.eq_of_jobId he he₀ (((hp e he).1 hpe).trans hid.symm)
  obtain ⟨d', hd', hm⟩ := h.updateJobs (f := f) (g := g) (p := p)
    (fun e he hpe => hone e he hpe ▸ hcheck) fun e he => by
      by_cases hpe : p e.job = true
      · rw [if_pos hpe, if_pos ((hp e he).1 hpe), hone e he hpe, hfg]
      · rw [if_neg hpe, if_neg fun hid' => hpe ((hp e he).2 hid')]
  refine ⟨d', ?_, hm⟩
  rw [hd', h.jobs]
  have hfil : (s.jobs.map Entry.job).filter p = [e₀.job] := by
    have hnodup : ((s.jobs.map Entry.job).filter p).Nodup := by
      refine List.Nodup.filter _ (List.Nodup.of_map Job.jobId ?_)
      rw [List.map_map]
      exact hk.ids
    refine List.perm_singleton.1 ((List.perm_ext_iff_of_nodup hnodup (by simp)).2 fun x => ?_)
    rw [List.mem_filter, List.mem_map, List.mem_singleton]
    constructor
    · rintro ⟨⟨e, he, rfl⟩, hpe⟩
      rw [hone e he hpe]
    · rintro rfl
      exact ⟨⟨e₀, he₀, rfl⟩, (hp e₀ he₀).2 hid⟩
  rw [hfil, List.map_singleton]

/-! ### Views -/

/-- The published result of a job, as the database joins it. -/
lemma find?_result (hs : Consistent s) {e : Entry} (he : e ∈ s.jobs) :
    (s.results.rows.find? fun r => decide (r.jobId = some e.job.jobId) &&
        decide (r.clusterId = e.job.clusterId)) =
      (s.resultByJob.get? e.job.jobId).bind fun q => s.results.get? q.2 := by
  refine Option.ext fun r => ?_
  rw [Option.bind_eq_some_iff]
  -- the row that the `SELECT` looks for is the one that the index names
  have hiff : ∀ x ∈ s.results, (decide (x.jobId = some e.job.jobId) &&
      decide (x.clusterId = e.job.clusterId)) = true ↔ (e.job.jobId, x.resultId) ∈ s.resultByJob := by
    intro x hx
    rw [Bool.and_eq_true, decide_eq_true_eq, decide_eq_true_eq]
    constructor
    · exact fun h => hs.recorded.indexed x hx _ h.1
    · intro h
      obtain ⟨y, hy, hid, hjid⟩ := hs.recorded.stored _ h
      obtain rfl := Table.eq_of_key_eq hx hy hid.symm
      obtain ⟨e', he', hid', hcl⟩ := hs.resultJob x hx _ hjid
      obtain rfl := hs.keyed.eq_of_jobId he' he hid'
      exact ⟨hjid, hcl.symm⟩
  have hone : ∀ x ∈ s.results, ∀ y ∈ s.results, (e.job.jobId, x.resultId) ∈ s.resultByJob →
      (e.job.jobId, y.resultId) ∈ s.resultByJob → x = y := fun x hx y hy h h' =>
    Table.eq_of_key_eq hx hy (congrArg Prod.snd (Table.eq_of_key_eq h h' rfl))
  constructor
  · intro hf
    have hr : r ∈ s.results := List.mem_of_find?_eq_some hf
    have hfound : (decide (r.jobId = some e.job.jobId) &&
      decide (r.clusterId = e.job.clusterId)) = true := List.find?_some (a := r) hf
    have hp := (hiff r hr).1 hfound
    exact ⟨_, Table.get?_key hp, Table.get?_key hr⟩
  · rintro ⟨⟨jid, rid⟩, hq, hr⟩
    obtain ⟨hq, hid⟩ := Table.get?_eq_some_iff.1 hq
    obtain ⟨hmem, rfl⟩ := Table.get?_eq_some_iff.1 hr
    obtain rfl : jid = e.job.jobId := hid
    cases hf : s.results.rows.find? fun r => decide (r.jobId = some e.job.jobId) &&
        decide (r.clusterId = e.job.clusterId) with
    | none =>
        rw [List.find?_eq_none] at hf
        exact absurd ((hiff r hmem).2 hq) (hf r hmem)
    | some x =>
        have hx : x ∈ s.results := List.mem_of_find?_eq_some hf
        have hfound : (decide (x.jobId = some e.job.jobId) &&
          decide (x.clusterId = e.job.clusterId)) = true := List.find?_some (a := x) hf
        rw [hone x hx r hmem ((hiff x hx).1 hfound) hq]

lemma Matches.view (hs : Consistent s) (h : Matches s d) {e : Entry} (he : e ∈ s.jobs) :
    MemoryStorage.view s e.job =
      publicJob e.job
        ((d.results.rows.find? fun r => decide (r.jobId = some e.job.jobId) &&
          decide (r.clusterId = e.job.clusterId)).map ResultRecord.resultId)
        ((d.results.rows.find? fun r => decide (r.jobId = some e.job.jobId) &&
          decide (r.clusterId = e.job.clusterId)).map ResultRecord.result) := by
  rw [h.results, find?_result hs he]
  unfold MemoryStorage.view
  cases hq : s.resultByJob.get? e.job.jobId with
  | none => rfl
  | some q =>
      obtain ⟨hmem, -⟩ := Table.get?_eq_some_iff.1 hq
      obtain ⟨r, hr, hid, -⟩ := hs.recorded.stored q hmem
      have hget : s.results.get? q.2 = some r := Table.get?_eq_some_iff.2 ⟨hr, hid⟩
      simp only [Option.map_some, Option.bind_some, hget, hid]

/-- Both backends show a job alike. -/
lemma Matches.getJob (hs : Consistent s) (h : Matches s d) (jid : String) (scope : Scope) :
    MemoryStorage.getJob jid scope s = PostgresStorage.jobView jid scope d := by
  have hsel : (d.selectJob fun j => decide (j.jobId = jid) && visible scope j.clusterId) =
      (s.job? jid).filter fun j => visible scope j.clusterId := by
    refine Option.ext fun j => ?_
    rw [selectJob_eq_some_iff hs.keyed h, Option.filter_eq_some_iff]
    · simp only [Bool.and_eq_true, decide_eq_true_eq]
      refine and_congr_right fun hj => and_iff_right ?_
      obtain ⟨-, -, -, hid⟩ := exists_of_job? hj
      exact hid
    · intro j hj
      rw [Bool.and_eq_true, decide_eq_true_eq] at hj
      exact hj.1
  rw [getJob_eq, PostgresStorage.jobView, hsel]
  refine Option.map_congr fun j hj => ?_
  obtain ⟨e, he, rfl, -⟩ := exists_of_job? (Option.filter_eq_some_iff.1 hj).1
  exact h.view hs he

lemma Matches.getCase {server : Server} (h : Matches s d) (cid : String) (scope : Scope)
    (cl : Option String) :
    MemoryStorage.getCase cid scope cl s = PostgresStorage.getCase server cid scope cl d := by
  unfold MemoryStorage.getCase PostgresStorage.getCase
  rw [h.cases]
  simp only
  set rows := s.cases.rows.filter fun c => decide (c.caseId = cid) && visible scope c.clusterId &&
    (cl.isNone || cl == some c.clusterId)
  have hperm := List.mergeSort_perm rows fun a b => server.collate a.clusterId b.clusterId
  by_cases hlen : 1 < rows.length
  · unfold pickCase
    rw [List.length_take, hperm.length_eq, if_pos hlen, if_pos (lt_min one_lt_two hlen)]
  · rw [List.take_of_length_le (by rw [hperm.length_eq]; omega)]
    exact pickCase_perm hperm.symm cid

/-- Where the database sorts texts by their characters both backends list cases alike. -/
lemma Matches.listCases {server : Server} (hcollate : ∀ a b, server.collate a b = decide (a ≤ b))
    (h : Matches s d) (scope : Scope) :
    MemoryStorage.listCases scope s = PostgresStorage.listCases server scope d := by
  have hle : PostgresStorage.lePair server = MemoryStorage.lePair := by
    funext a b
    rw [PostgresStorage.lePair, MemoryStorage.lePair, hcollate, hcollate]
    by_cases h1 : a.1 = b.1
    · simp [h1]
    · simp [h1, le_iff_lt_or_eq]
  rw [PostgresStorage.listCases, hle, h.cases]
  rfl

lemma Matches.getAnalysis (hs : Consistent s) (h : Matches s d) (rid : String) (scope : Scope) :
    MemoryStorage.getAnalysis rid scope s = PostgresStorage.getAnalysis rid scope d := by
  unfold MemoryStorage.getAnalysis PostgresStorage.getAnalysis
  rw [h.results, h.manifests]
  cases hr : s.results.get? rid with
  | none => rfl
  | some r =>
      obtain ⟨hmem, hid⟩ := Table.get?_eq_some_iff.1 hr
      obtain ⟨m, hm, hmid, hcl⟩ := hs.resultManifest r hmem
      have hget : s.manifests.get? r.manifestId = some m := Table.get?_eq_some_iff.2 ⟨hm, hmid⟩
      by_cases hk : r.kind = "analysis"
      · cases hv : visible scope r.clusterId with
        | false => simp [hk, hv]
        | true =>
            subst hid
            cases hin : m.payload.lookup "input" with
            | none => simp [hk, hv, hget, Option.filter_some, hcl, hin]
            | some input => simp [hk, hv, hget, Option.filter_some, hcl, hin]
      · simp [hk]

end

/-! ### Cases and manifests -/

/-- The manifests of `M` are content-addressed and satisfy the constraints. -/
structure Addressed (M : Set Manifest) : Prop where
  eq_of_id : ∀ m ∈ M, ∀ m' ∈ M, m.manifestId = m'.manifestId → m = m'
  check : ∀ m ∈ M, checkManifest m = true

lemma Addressed.unshared {M : Set Manifest} (h : Addressed M) : Unshared M :=
  fun m hm m' hm' hid => congrArg _ (h.eq_of_id m hm m' hm' hid)

/-- What holds of the storage in memory along the runs that are compared. -/
structure Serving (M : Set Manifest) (s : Store) : Prop where
  consistent : Consistent s
  passed : ∀ m ∈ s.manifests, m ∈ M
  valid : ∀ e ∈ s.jobs, e.job.Valid

/-- The setting in which the backends are compared: fresh identifiers, one reading of the clock
for a call, and caps that are not reached. -/
structure Store.Posed (caps : Caps) (s : Store) (op : Op) : Prop where
  fresh : op.Fresh s
  clock : ∀ t ∈ op.readings, ∀ t' ∈ op.readings, t = t'
  cases : s.cases.rows.length < caps.maxCases
  results : s.results.rows.length < caps.maxResults
  jobs : s.jobs.length < caps.maxJobs

/-- The calls on which the backends agree: the values can be stored and meet the constraints of
the tables, the manifests are those of `M`, the end of a lease is representable, a result is
published under the kind of its job, and the error of a job that is given up is short enough. -/
def Store.Conforms (server : Server) (M : Set Manifest) (s : Store) (op : Op) : Prop :=
  PostgresStorage.opStorable op = true ∧ (∀ m, op.manifest? = some m → m ∈ M) ∧
    match op with
    | .createCase c => caseIdOk c.caseId = true ∧ 1 ≤ c.clusterId.length ∧ c.clusterId.length ≤ 128
    | .claim _ secs _ now | .markRunning _ secs _ now | .heartbeat _ secs _ now =>
        server.interval now secs = some (now + secs)
    | .complete l _ _ now =>
        kindOk l.kind = true ∧ ∀ j, MemoryStorage.held l now s = some j → j.kind = l.kind
    | .fail l e _ now =>
        (MemoryStorage.held l now s).isSome = true → e.toList.length ≤ 2000
    | _ => True

section

variable {digest : Json → String} {server : Server} {caps : Caps} {M : Set Manifest} {s : Store}
  {d : Database}

lemma Answer.Same.refl (a : Answer) : Answer.Same a a := Or.inl rfl

lemma unlapsed_eq {j : Job} (hv : j.Sound) (hact : j.state.active = true) (now : Time) :
    PostgresStorage.unlapsed j now = !j.lapsed now := by
  have hsome : j.leaseExpiresAt.isSome = true := hv.expiry.trans hact
  obtain ⟨t, ht⟩ := Option.isSome_iff_exists.1 hsome
  simp [PostgresStorage.unlapsed, Job.lapsed, ht, ← not_le]

lemma leaseIs_jobId {l : Lease} {now : Time} {j : Job}
    (h : PostgresStorage.leaseIs l now j = true) : j.jobId = l.jobId := by
  simp only [PostgresStorage.leaseIs, Bool.and_eq_true, decide_eq_true_eq] at h
  exact h.1.1.1.1.1

/-- The statements with a lease select the job that `_held` finds. -/
lemma Matches.held (hs : Consistent s) (hv : ∀ e ∈ s.jobs, e.job.Valid) (h : Matches s d)
    (l : Lease) (now : Time) :
    d.selectJob (PostgresStorage.leaseIs l now) = MemoryStorage.held l now s := by
  refine Option.ext fun j => ?_
  rw [selectJob_eq_some_iff hs.keyed h fun _ => leaseIs_jobId, held_eq_some_iff]
  refine and_congr_right fun hj => ?_
  obtain ⟨e, he, rfl, hjid⟩ := exists_of_job? hj
  simp only [PostgresStorage.leaseIs, Bool.and_eq_true, decide_eq_true_eq, beq_iff_eq]
  constructor
  · rintro ⟨⟨⟨⟨⟨-, hcl⟩, howner⟩, hatt⟩, hact⟩, hun⟩
    rw [unlapsed_eq (hv e he).sound hact, Bool.not_eq_true'] at hun
    exact ⟨hcl, hact, howner, hatt, hun⟩
  · rintro ⟨hcl, hact, howner, hatt, hlapsed⟩
    refine ⟨⟨⟨⟨⟨hjid, hcl⟩, howner⟩, hatt⟩, hact⟩, ?_⟩
    rw [unlapsed_eq (hv e he).sound hact, hlapsed, Bool.not_false]

/-- The rows that a lease in force names. -/
lemma ofLease_iff (hs : Consistent s) {l : Lease} {now : Time} {j : Job}
    (hh : MemoryStorage.held l now s = some j) :
    ∀ e ∈ s.jobs, PostgresStorage.ofLease l e.job = true ↔ e.job.jobId = l.jobId := by
  intro e he
  obtain ⟨hj, hcl, -⟩ := held_eq_some_iff.1 hh
  obtain ⟨e₀, he₀, rfl, hid⟩ := exists_of_job? hj
  rw [PostgresStorage.ofLease, Bool.and_eq_true, decide_eq_true_eq, decide_eq_true_eq]
  refine and_iff_left_of_imp fun hid' => ?_
  rw [hs.keyed.eq_of_jobId he he₀ (hid'.trans hid.symm), hcl]

/-- Releasing the job of a lease in force. -/
lemma Matches.release (hs : Consistent s) (hv : ∀ e ∈ s.jobs, e.job.Valid) (h : Matches s d)
    {l : Lease} {now : Time} {j : Job} (hh : MemoryStorage.held l now s = some j)
    {f g : Job → Job} (hfg : f j = g j) (hmove : Move [] j (g j)) :
    ∃ d', d.updateJobs (PostgresStorage.ofLease l) f = .ok ([f j], d') ∧
      Matches (s.updateJob l.jobId g) d' := by
  obtain ⟨hj, -⟩ := held_job? hh
  obtain ⟨e, he, rfl, -⟩ := exists_of_job? hj
  exact h.updateJobs_one hs.keyed hj (ofLease_iff hs hh) hfg
    (hfg.symm ▸ ((hv e he).move hmove).check)

end

end Storage

end Afterlock
