import Afterlock.Storage.Runs

/-!
# The publication invariant

A job publishes at most one result, exactly the succeeded jobs have one, and a job that is
finished never changes again, over every run of the storage in memory.  A result of a job is
written by nothing but a `complete` with the live lease of the job, before it has expired and
while no cancellation is asked for.
-/

namespace Afterlock

namespace Storage

/-! ### What holds of each job -/

/-- A lease is kept exactly while the job is leased or running, and the attempts stay within
their budget; a queued job still has one left and is not to be cancelled. -/
structure Job.Sound (j : Job) : Prop where
  owner : j.leaseOwner.isSome = j.state.active
  expiry : j.leaseExpiresAt.isSome = j.state.active
  attempts : j.attempts ≤ j.maxAttempts
  queued : j.state = .queued → j.attempts < j.maxAttempts ∧ j.cancelRequested = false

lemma Job.Sound.release {j : Job} (h : j.Sound) {t : JobState} {e : Option String}
    (ht : t.active = false)
    (hq : t = .queued → j.attempts < j.maxAttempts ∧ j.cancelRequested = false) :
    (j.release t e).Sound where
  owner := ht.symm
  expiry := ht.symm
  attempts := h.attempts
  queued := hq

lemma Job.Sound.cancel {j : Job} (h : j.Sound) : j.cancel.Sound := by
  unfold Job.cancel
  split_ifs with hq hact
  · have hidle : j.state.active = false := by simp [hq, JobState.active]
    exact ⟨h.owner.trans hidle, h.expiry.trans hidle, h.attempts, fun h => absurd h (by simp)⟩
  · refine ⟨h.owner, h.expiry, h.attempts, fun h => ?_⟩
    exact absurd h hq
  · exact h

/-- Every change keeps a job sound. -/
lemma Move.sound {rs : List Time} {j j' : Job} (hm : Move rs j j') (h : j.Sound) : j'.Sound := by
  rcases hm with hc | _
  swap
  · exact h.release rfl fun h => absurd h (by simp)
  cases hc with
  | cancel => exact h.cancel
  | drop e => exact h.release rfl fun h => absurd h (by simp)
  | fail e => exact h.release rfl fun h => absurd h (by simp)
  | requeue e hact hcancel ha => exact h.release rfl fun _ => ⟨ha, hcancel⟩
  | lease owner secs now ht hcancel ha => exact ⟨rfl, rfl, ha, fun h => absurd h (by simp [Job.lease])⟩
  | extend secs now hact _ =>
      refine ⟨h.owner, hact.symm, h.attempts, fun hq => ?_⟩
      have hq' : j.state = .queued := hq
      exact absurd hact (by simp [hq', JobState.active])
  | run secs now hact _ => exact ⟨h.owner.trans hact, rfl, h.attempts, fun h => absurd h (by simp)⟩

lemma sound_newJob {m : Manifest} {createdBy jid : String} {n : ℕ} (hn : 1 ≤ n) :
    (MemoryStorage.newJob m createdBy n jid).Sound :=
  ⟨rfl, rfl, Nat.zero_le n, fun _ => ⟨hn, rfl⟩⟩

lemma Kept.sound {rs : List Time} {e e' : Entry} (h : Kept (Move rs) e e') (hs : e.job.Sound) : e'.job.Sound := by
  rcases h.2 with h | h
  · exact h ▸ hs
  · exact h.sound hs

/-! ### What holds of the results -/

/-- The result recorded for a job is the one result that names it, and only succeeded jobs have
one. -/
structure Recorded (s : Store) : Prop where
  indexed : ∀ r ∈ s.results, ∀ jid, r.jobId = some jid → (jid, r.resultId) ∈ s.resultByJob
  stored : ∀ p ∈ s.resultByJob, ∃ r ∈ s.results, r.resultId = p.2 ∧ r.jobId = some p.1
  known : ∀ p ∈ s.resultByJob, ∃ e ∈ s.jobs, e.job.jobId = p.1
  succeeded : ∀ e ∈ s.jobs,
    e.job.state = .succeeded ↔ s.resultByJob.contains e.job.jobId = true

variable {digest : Json → String} {caps : Caps} {s s' : Store}

lemma Recorded.of_change (h : Recorded s) {rs : List Time} {jobs : List Entry}
    (hj : List.Forall₂ (Kept (Change rs)) s.jobs jobs) : Recorded { s with jobs := jobs } where
  indexed := h.indexed
  stored := h.stored
  known p hp := by
    obtain ⟨e, he, hid⟩ := h.known p hp
    obtain ⟨e', he', hk⟩ := Kept.exists_right (Kept.toMove_all hj) he
    exact ⟨e', he', hk.jobId.trans hid⟩
  succeeded e' he' := by
    obtain ⟨e, he, hk⟩ := Kept.exists_left hj he'
    rw [hk.toMove.jobId, ← h.succeeded e he]
    rcases hk.2 with heq | hch
    · rw [heq]
    · exact iff_of_false hch.not_succeeded.2 hch.not_succeeded.1

lemma Recorded.publish (hk : Keyed s) (h : Recorded s) {l : Lease} {now : Time} {j : Job}
    (hj : MemoryStorage.held l now s = some j) (hc : j.cancelRequested = false)
    (hpub : s.resultByJob.contains j.jobId = false) {r : ResultRecord} (hr : ∀ r' ∈ s.results, r'.resultId ≠ r.resultId)
    (hjob : r.jobId = some j.jobId) :
    Recorded { s with
      jobs := (s.updateJob l.jobId fun j => j.release .succeeded none).jobs
      results := s.results.put r
      resultByJob := s.resultByJob.put (j.jobId, r.resultId) } := by
  obtain ⟨hjob?, hact⟩ := held_job? hj
  have hkept : List.Forall₂ (Kept (Move [])) s.jobs
      (s.updateJob l.jobId fun j => j.release .succeeded none).jobs :=
    kept_updateJob (f := fun j => j.release .succeeded none) hk hjob? (.publish hact hc)
  have hfresh : ∀ p ∈ s.resultByJob, p.1 ≠ j.jobId := Table.contains_eq_false_iff.1 hpub
  refine ⟨?_, ?_, ?_, ?_⟩
  · -- every result of a job is in the index
    intro r' hr' jid hjid
    rcases Table.mem_put.1 hr' with rfl | ⟨hr', -⟩
    · obtain rfl := Option.some.inj (hjob.symm.trans hjid)
      exact Table.mem_put_self
    · have hp := h.indexed r' hr' jid hjid
      exact Table.mem_put.2 (Or.inr ⟨hp, hfresh _ hp⟩)
  · -- every entry of the index has its result
    intro p hp
    rcases Table.mem_put.1 hp with rfl | ⟨hp, -⟩
    · exact ⟨r, Table.mem_put_self, rfl, hjob⟩
    · obtain ⟨r', hr', hid, hjid⟩ := h.stored p hp
      exact ⟨r', Table.mem_put.2 (Or.inr ⟨hr', hr r' hr'⟩), hid, hjid⟩
  · -- every entry of the index has its job
    intro p hp
    obtain ⟨e₀, he₀, rfl, hid₀⟩ := exists_of_job? hjob?
    rcases Table.mem_put.1 hp with rfl | ⟨hp, -⟩
    · obtain ⟨e', he', hk'⟩ := Kept.exists_right hkept he₀
      exact ⟨e', he', hk'.jobId⟩
    · obtain ⟨e, he, hid⟩ := h.known p hp
      obtain ⟨e', he', hk'⟩ := Kept.exists_right hkept he
      exact ⟨e', he', hk'.jobId.trans hid⟩
  · -- a job has succeeded exactly if it is in the index
    intro e' he'
    obtain ⟨e, he, rfl⟩ := List.mem_map.1 he'
    obtain ⟨e₀, he₀, rfl, hid₀⟩ := exists_of_job? hjob?
    rw [Table.contains_iff, Table.exists_mem_put]
    by_cases hid : e.job.jobId = l.jobId
    · obtain rfl := hk.eq_of_jobId he he₀ (hid.trans hid₀.symm)
      rw [if_pos hid]
      exact iff_of_true rfl (Or.inl rfl)
    · rw [if_neg hid, h.succeeded e he, Table.contains_iff]
      refine (or_iff_right fun heq => hid ?_).symm
      exact heq.symm.trans hid₀

/-- Every call keeps the results recorded. -/
lemma Recorded.effect (hk : Keyed s) {op : Op} (he : Effect s op s') (h : Recorded s) :
    Recorded s' := by
  cases he with
  | jobs jobs hj => exact h.of_change hj
  | case c hc => exact ⟨h.indexed, h.stored, h.known, h.succeeded⟩
  | manifest m _ hm =>
      exact ⟨by simpa using h.indexed, by simpa using h.stored, by simpa using h.known,
        by simpa using h.succeeded⟩
  | analysis m _ hm result rid hrid =>
      refine ⟨?_, ?_, by simpa using h.known, by simpa using h.succeeded⟩
      · intro r hr jid hjid
        rcases Table.mem_put.1 hr with rfl | ⟨hr, -⟩
        · exact absurd hjid (by simp [MemoryStorage.syncResult])
        · simpa using h.indexed r hr jid hjid
      · intro p hp
        obtain ⟨r, hr, hid, hjid⟩ := h.stored p (by simpa using hp)
        exact ⟨r, Table.mem_put.2 (Or.inr ⟨hr, hrid r hr⟩), hid, hjid⟩
  | enqueue m _ hm createdBy jid n hn hjid =>
      refine ⟨by simpa using h.indexed, by simpa using h.stored, ?_, ?_⟩
      · intro p hp
        obtain ⟨e, he, hid⟩ := h.known p (by simpa using hp)
        exact ⟨e, List.mem_append_left _ he, hid⟩
      · intro e he
        rcases List.mem_append.1 he with he | he
        · simpa using h.succeeded e he
        · obtain rfl := List.mem_singleton.1 he
          refine iff_of_false (by simp [MemoryStorage.newJob]) fun hc => ?_
          obtain ⟨p, hp, hid⟩ := Table.contains_iff.1 hc
          obtain ⟨e, he, hid'⟩ := h.known p (by simpa using hp)
          exact hjid e he (hid'.trans hid)
  | publish l result digits now j hj hc hpub m hm hcase rid hrid jobs hjobs =>
      subst hjobs
      exact h.publish (r := MemoryStorage.jobResult j m result rid) hk hj hc hpub hrid rfl

lemma sound_effect (hk : Keyed s) {op : Op} (he : Effect s op s')
    (h : ∀ e ∈ s.jobs, e.job.Sound) : ∀ e ∈ s'.jobs, e.job.Sound := by
  intro e' he'
  rcases he.jobs_cases hk with hj | ⟨m, createdBy, jid, n, hjobs, hn, -⟩
  · obtain ⟨e, he, hk'⟩ := Kept.exists_left hj he'
    exact hk'.sound (h e he)
  · rw [hjobs, List.mem_append, List.mem_singleton] at he'
    rcases he' with he' | rfl
    · exact h e' he'
    · exact sound_newJob hn

/-- A job that is finished stays as it is. -/
lemma finished_effect (hk : Keyed s) {op : Op} (he : Effect s op s') {j : Job}
    (hj : s.job? j.jobId = some j) (ht : j.state.terminal = true) :
    s'.job? j.jobId = some j := by
  have hk' := he.keyed hk
  obtain ⟨e, he₀, rfl, -⟩ := exists_of_job? hj
  rcases he.jobs_cases hk with hjobs | ⟨m, createdBy, jid, n, hjobs, -, -⟩
  · obtain ⟨e', he', hkept⟩ := Kept.exists_right hjobs he₀
    rcases hkept.2 with heq | hmove
    · rw [← heq]
      exact job?_of_mem hk' he'
    · exact absurd hmove.nonterminal (by simp [ht])
  · exact job?_of_mem hk' (by rw [hjobs]; exact List.mem_append_left _ he₀)

/-! ### The invariant -/

/-- The publication invariant of a store. -/
structure PublicationInvariant (s : Store) : Prop where
  /-- A job has at most one published result. -/
  once : ∀ r ∈ s.results, ∀ r' ∈ s.results, r.jobId.isSome = true → r.jobId = r'.jobId → r = r'
  /-- Exactly the succeeded jobs have a result. -/
  succeeded : ∀ e ∈ s.jobs,
    e.job.state = .succeeded ↔ ∃ r ∈ s.results, r.jobId = some e.job.jobId
  /-- What a reader of the job is shown is that result. -/
  shown : ∀ e ∈ s.jobs, ∀ rid,
    (MemoryStorage.view s e.job).resultId = some rid ↔
      ∃ r ∈ s.results, r.resultId = rid ∧ r.jobId = some e.job.jobId
  /-- A lease is recorded exactly while the job is leased or running. -/
  leased : ∀ e ∈ s.jobs, (e.job.leaseOwner.isSome = true ↔ e.job.state.active = true) ∧
    (e.job.leaseExpiresAt.isSome = true ↔ e.job.state.active = true)
  attempts : ∀ e ∈ s.jobs, e.job.attempts ≤ e.job.maxAttempts
  queued : ∀ e ∈ s.jobs, e.job.state = .queued →
    e.job.attempts < e.job.maxAttempts ∧ e.job.cancelRequested = false

lemma Recorded.contains_iff (h : Recorded s) {jid : String} :
    s.resultByJob.contains jid = true ↔ ∃ r ∈ s.results, r.jobId = some jid := by
  rw [Table.contains_iff]
  constructor
  · rintro ⟨p, hp, rfl⟩
    obtain ⟨r, hr, -, hjid⟩ := h.stored p hp
    exact ⟨r, hr, hjid⟩
  · rintro ⟨r, hr, hjid⟩
    exact ⟨_, h.indexed r hr jid hjid, rfl⟩

lemma Recorded.publicationInvariant (h : Recorded s) (hs : ∀ e ∈ s.jobs, e.job.Sound) :
    PublicationInvariant s where
  once r hr r' hr' hsome heq := by
    obtain ⟨jid, hjid⟩ := Option.isSome_iff_exists.1 hsome
    have hp := h.indexed r hr jid hjid
    have hp' := h.indexed r' hr' jid (heq ▸ hjid)
    have hrid : r.resultId = r'.resultId :=
      congrArg Prod.snd (Table.eq_of_key_eq hp hp' rfl)
    exact Table.eq_of_key_eq hr hr' hrid
  succeeded e he := (h.succeeded e he).trans h.contains_iff
  shown e he rid := by
    simp only [MemoryStorage.view, publicJob, Option.map_eq_some_iff]
    constructor
    · rintro ⟨p, hp, rfl⟩
      obtain ⟨hp, hid⟩ := Table.get?_eq_some_iff.1 hp
      obtain ⟨r, hr, hrid, hjid⟩ := h.stored p hp
      exact ⟨r, hr, hrid, hid ▸ hjid⟩
    · rintro ⟨r, hr, rfl, hjid⟩
      exact ⟨_, Table.get?_key (h.indexed r hr _ hjid), rfl⟩
  leased e he := ⟨by rw [(hs e he).owner], by rw [(hs e he).expiry]⟩
  attempts e he := (hs e he).attempts
  queued e he := (hs e he).queued

lemma World.Reachable.recorded {w : World} (h : w.Reachable digest caps) : Recorded w.store :=
  h.invariant (P := fun w => Recorded w.store)
    ⟨by simp [World.initial, Store.initial], by simp [World.initial, Store.initial],
      by simp [World.initial, Store.initial], by simp [World.initial, Store.initial]⟩
    fun _ _ hk hr hm => hr.effect hk (call_effect hk hm.2)

lemma World.Reachable.sound {w : World} (h : w.Reachable digest caps) :
    ∀ e ∈ w.store.jobs, e.job.Sound :=
  h.invariant (P := fun w => ∀ e ∈ w.store.jobs, e.job.Sound)
    (by simp [World.initial, Store.initial])
    fun _ _ hk hs hm => sound_effect hk (call_effect hk hm.2) hs

/-- A call publishes the result of the job `jid`: it is a `complete` with the current attempt of
the job, by its owner, before the lease expires and while no cancellation is asked for. -/
def Publishes (s : Store) (op : Op) (jid : String) : Prop :=
  ∃ l result digits now j t, op = .complete l result digits now ∧ l.jobId = jid ∧
    s.job? jid = some j ∧ j.attempts = l.attempt ∧ j.leaseOwner = some l.owner ∧
    j.state.active = true ∧ j.leaseExpiresAt = some t ∧ now < t ∧ j.cancelRequested = false

lemma Effect.publishes {op : Op} (he : Effect s op s') {r : ResultRecord} {jid : String}
    (hr : r ∈ s'.results) (hr' : r ∉ s.results) (hjid : r.jobId = some jid) :
    Publishes s op jid := by
  cases he with
  | jobs | case => exact absurd hr hr'
  | manifest | enqueue => exact absurd (by simpa using hr) hr'
  | analysis m _ hm result rid hrid =>
      rcases Table.mem_put.1 hr with rfl | ⟨hr, -⟩
      · exact absurd hjid (by simp [MemoryStorage.syncResult])
      · exact absurd hr hr'
  | publish l result digits now j hj hc hpub m hm hcase rid hrid jobs hjobs =>
      rcases Table.mem_put.1 hr with rfl | ⟨hr, -⟩
      swap
      · exact absurd hr hr'
      obtain ⟨hjob, -, hact, howner, hatt, hlapsed⟩ := held_eq_some_iff.1 hj
      obtain ⟨-, -, -, hid⟩ := exists_of_job? hjob
      obtain rfl : j.jobId = jid := Option.some.inj hjid
      cases ht : j.leaseExpiresAt with
      | none => simp [Job.lapsed, ht] at hlapsed
      | some t =>
          refine ⟨l, result, digits, now, j, t, rfl, hid.symm, hid ▸ hjob, hatt, howner, hact, ht,
            ?_, hc⟩
          simpa [Job.lapsed, ht] using hlapsed

/-- In every world that calls in any order lead to: the publication invariant holds, a job that is
finished is the same after any further calls, and a call that adds a result of a job publishes it
with the live lease. -/
theorem publicationInvariant_of_reachable {w : World} (h : w.Reachable digest caps) :
    PublicationInvariant w.store ∧
      (∀ ops, (memory digest caps).Admits World.May w ops →
        ∀ j, w.store.job? j.jobId = some j → j.state.terminal = true →
          ((memory digest caps).final w ops).store.job? j.jobId = some j) ∧
      ∀ op, w.May op → ∀ r ∈ ((memory digest caps).step w op).2.store.results,
        r ∉ w.store.results → ∀ jid, r.jobId = some jid → Publishes w.store op jid := by
  refine ⟨h.recorded.publicationInvariant h.sound, ?_, ?_⟩
  · intro ops hadm j hj ht
    exact hadm.preserved (I := fun w => Keyed w.store)
      (P := fun w => w.store.job? j.jobId = some j)
      (fun _ _ hk hm => World.step_keyed hk hm)
      (fun _ _ hk hj hm => finished_effect hk (call_effect hk hm.2) hj ht) h.keyed hj
  · intro op hm r hr hr' jid hjid
    exact (call_effect h.keyed hm.2).publishes hr hr' hjid

theorem sample_publicationInvariant : PublicationInvariant Sample.world.store :=
  (publicationInvariant_of_reachable Sample.world_reachable).1

end Storage

end Afterlock
