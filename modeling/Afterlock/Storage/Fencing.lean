import Afterlock.Storage.Publication

/-!
# Fencing of stale leases

A lease names its job, its owner and the attempt that it was handed out for.  Attempts rise with
every `claim`, and no call makes a job leased again for an attempt that is over: so of all leases
on a job at most the latest is live, and one that is not live never becomes live again.  A call
with a stale lease is refused and changes nothing.
-/

namespace Afterlock

namespace Storage

variable {digest : Json → String} {caps : Caps} {s s' : Store} {l : Lease}

/-! ### Refused calls -/

/-- Every call that presents `l` when the clock reads `now` is refused, and changes nothing. -/
structure Refused (caps : Caps) (l : Lease) (now : Time) (s : Store) : Prop where
  markRunning : ∀ secs t, MemoryStorage.markRunning l secs now t s = (.lost, s)
  heartbeat : ∀ secs t, MemoryStorage.heartbeat l secs now t s = (.lost, s)
  complete : ∀ result digits, MemoryStorage.complete caps l result digits now s = (.ok none, s)
  fail : ∀ e b, MemoryStorage.fail l e b now s = (none, s)
  acknowledgeCancel : MemoryStorage.acknowledgeCancel l now s = (false, s)

/-- The calls with a lease are refused exactly when it is not held. -/
lemma refused_iff {now : Time} : Refused caps l now s ↔ MemoryStorage.held l now s = none := by
  constructor
  · intro h
    cases hh : MemoryStorage.held l now s with
    | none => rfl
    | some j =>
        have hlost := congrArg Prod.fst (h.heartbeat 0 0)
        rw [MemoryStorage.heartbeat, hh] at hlost
        simp only at hlost
        split_ifs at hlost
  · intro h
    have hbeat (secs t) : MemoryStorage.heartbeat l secs now t s = (.lost, s) := by
      rw [MemoryStorage.heartbeat, h]
    refine ⟨fun secs t => ?_, hbeat, fun _ _ => ?_, fun _ _ => ?_, ?_⟩
    · rw [MemoryStorage.markRunning, hbeat, if_pos rfl]
    · rw [MemoryStorage.complete, h]
    · rw [MemoryStorage.fail, h]
    · rw [MemoryStorage.acknowledgeCancel, h]

/-! ### The lease a call hands out -/

lemma lease?_of {α : Type} {f : α → Answer} (hf : ∀ a, (f a).lease? = none) (x : Except Error α) :
    (Answer.of f x).lease? = none := by
  cases x with
  | error => rfl
  | ok a => exact hf a

/-- The only leases are handed out by `claim`, each for the attempt it starts. -/
lemma call_lease (hk : Keyed s) {op : Op}
    (h : (MemoryStorage.call digest caps s op).1.lease? = some l) :
    ∃ e ∈ s.jobs, ∃ e' ∈ (MemoryStorage.call digest caps s op).2.jobs,
      e'.job.jobId = l.jobId ∧ e'.job.clusterId = l.clusterId ∧ e'.job.kind = l.kind ∧
      e'.job.attempts = l.attempt ∧ e'.job.leaseOwner = some l.owner ∧
      s.manifests.get? e'.job.manifestId = some l.manifest ∧
      e.job.jobId = e'.job.jobId ∧ l.attempt = e.job.attempts + 1 := by
  cases op with
  | claim owner secs scope now =>
      revert h
      simp only [MemoryStorage.call, MemoryStorage.claim, hk.mergeSort_jobs]
      cases hscan : (MemoryStorage.claimScan owner secs scope now s.jobs).1 with
      | none => exact fun h => absurd h (by simp [Answer.of, Answer.lease?])
      | some j =>
          obtain ⟨e, he, rfl, -, he'⟩ := claimScan_eq_some hscan
          simp only
          cases hm : s.manifests.get? (e.job.lease owner secs now).manifestId with
          | none => exact fun h => absurd h (by simp [Answer.of, Answer.lease?])
          | some m =>
              intro h
              obtain rfl := Option.some.inj h
              exact ⟨e, he, _, he', rfl, rfl, rfl, rfl, rfl, hm, rfl, rfl⟩
  | createCase | recordAnalysis | enqueue | complete | getCase | getAnalysis =>
      exact absurd ((lease?_of (fun _ => rfl) _).symm.trans h) (by simp)
  | _ => exact absurd h (by simp [MemoryStorage.call, Answer.lease?])

/-! ### The leases on a job -/

/-- How a lease that was handed out stands to its job. -/
structure Granted (l : Lease) (s : Store) (j : Job) : Prop where
  job : s.job? l.jobId = some j
  cluster : j.clusterId = l.clusterId
  kind : j.kind = l.kind
  attempt : l.attempt ≤ j.attempts
  /-- While the attempt of the lease lasts the job is leased to its owner. -/
  owner : j.attempts = l.attempt → j.state.active = true → j.leaseOwner = some l.owner
  manifest : s.manifests.get? j.manifestId = some l.manifest

/-- Every lease handed out stands to its job as it should, and later leases on a job are for
later attempts. -/
structure Leased (w : World) : Prop where
  granted : ∀ l ∈ w.leases, ∃ j, Granted l w.store j
  ordered : w.leases.Pairwise fun l' l => l'.jobId = l.jobId → l.attempt < l'.attempt

lemma mem_withManifest {m : Manifest} {mid : String} {x : Manifest}
    (h : s.manifests.get? mid = some x) : (s.withManifest m).manifests.get? mid = some x := by
  unfold Store.withManifest
  split_ifs with hc
  · exact h
  · obtain ⟨hx, rfl⟩ := Table.get?_eq_some_iff.1 h
    rw [Bool.not_eq_true, Table.contains_eq_false_iff] at hc
    exact Table.get?_key (Table.mem_put.2 (Or.inr ⟨hx, hc x hx⟩))

/-- Manifests are immutable. -/
lemma Effect.get?_manifest {op : Op} (he : Effect s op s') {mid : String} {m : Manifest}
    (h : s.manifests.get? mid = some m) : s'.manifests.get? mid = some m := by
  cases he with
  | jobs | case | publish => exact h
  | manifest | analysis | enqueue => exact mem_withManifest h

/-- The job of an id before and after a call. -/
lemma Effect.job? (hk : Keyed s) {op : Op} (he : Effect s op s') {j : Job}
    (hj : s.job? j.jobId = some j) :
    ∃ j', s'.job? j.jobId = some j' ∧ (j' = j ∨ Move op.readings j j') := by
  have hk' := he.keyed hk
  obtain ⟨e, he₀, rfl, -⟩ := exists_of_job? hj
  rcases he.jobs_cases hk with hjobs | ⟨m, createdBy, jid, n, hjobs, -, -⟩
  · obtain ⟨e', he', hkept⟩ := Kept.exists_right hjobs he₀
    refine ⟨e'.job, ?_, hkept.2⟩
    rw [← hkept.jobId]
    exact job?_of_mem hk' he'
  · exact ⟨e.job, job?_of_mem hk' (by rw [hjobs]; exact List.mem_append_left _ he₀), Or.inl rfl⟩

lemma Granted.jobId {j : Job} (h : Granted l s j) : j.jobId = l.jobId := by
  obtain ⟨e, -, -, hid⟩ := exists_of_job? h.job
  exact hid

lemma Granted.effect (hk : Keyed s) {op : Op} (he : Effect s op s') {j : Job}
    (h : Granted l s j) : ∃ j', Granted l s' j' ∧ (j' = j ∨ Move op.readings j j') := by
  obtain ⟨j', hj', hmove⟩ := he.job? hk (h.jobId.symm ▸ h.job)
  rw [h.jobId] at hj'
  refine ⟨j', ?_, hmove⟩
  rcases hmove with rfl | hmove
  · exact ⟨hj', h.cluster, h.kind, h.attempt, h.owner, he.get?_manifest h.manifest⟩
  · obtain ⟨-, hcluster, hmid, hkind, -, -⟩ := hmove.frame
    refine ⟨hj', hcluster.trans h.cluster, hkind.trans h.kind,
      h.attempt.trans hmove.attempts_le, ?_, ?_⟩
    · intro hatt hact
      have hatt' : j'.attempts = j.attempts :=
        le_antisymm (hatt.le.trans h.attempt) hmove.attempts_le
      obtain ⟨hact', howner⟩ := hmove.kept_or_idle hatt' hact
      exact howner.trans (h.owner (hatt'.symm.trans hatt) hact')
    · rw [hmid]
      exact he.get?_manifest h.manifest

lemma Leased.step {w : World} {op : Op} (hk : Keyed w.store) (h : Leased w) (hm : w.May op) :
    Leased ((memory digest caps).step w op).2 := by
  have he := @call_effect digest caps _ hk _ hm.2
  have hold : ∀ l ∈ w.leases, ∃ j, Granted l ((memory digest caps).step w op).2.store j := by
    intro l hl
    obtain ⟨j, hj⟩ := h.granted l hl
    obtain ⟨j', hj', -⟩ := hj.effect hk he
    exact ⟨j', hj'⟩
  change Leased ⟨_, Option.toList (Answer.lease? _) ++ _⟩
  cases hans : (MemoryStorage.call digest caps w.store op).1.lease? with
  | none => exact ⟨hold, h.ordered⟩
  | some l =>
      obtain ⟨e, he₀, e', he', hid, hcluster, hkind, hatt, howner, hmanifest, heid, hsucc⟩ :=
        call_lease hk hans
      have hjob := job?_of_mem (he.keyed hk) he'
      refine ⟨?_, ?_⟩
      · intro l' hl'
        rcases List.mem_cons.1 hl' with rfl | hl'
        · refine ⟨e'.job, ?_, hcluster, hkind, hatt.ge, fun _ _ => howner, he.get?_manifest hmanifest⟩
          rw [← hid]
          exact hjob
        · exact hold l' hl'
      · -- the new lease has one attempt more than the job had, and every earlier lease has at most
        -- those
        refine List.pairwise_cons.2 ⟨fun l' hl' hsame => ?_, h.ordered⟩
        obtain ⟨j, hj⟩ := h.granted l' hl'
        have hje : j = e.job := by
          have hfound := job?_of_mem hk he₀
          rw [heid, hid, hsame, hj.job] at hfound
          exact Option.some.inj hfound
        subst hje
        exact hsucc ▸ Nat.lt_succ_of_le hj.attempt

lemma World.Reachable.leased {w : World} (h : w.Reachable digest caps) : Leased w :=
  h.invariant (P := Leased) ⟨by simp [World.initial], by simp [World.initial]⟩
    fun _ _ hk hl hm => hl.step hk hm

/-- Two leases on a job for the same attempt are one. -/
lemma Leased.eq_of_attempt {w : World} (h : Leased w) {l l' : Lease} (hl : l ∈ w.leases)
    (hl' : l' ∈ w.leases) (hjob : l.jobId = l'.jobId) (hatt : l.attempt = l'.attempt) :
    l = l' := by
  by_contra hne
  have key := h.ordered.imp (S := fun a b => a.jobId = b.jobId → a.attempt ≠ b.attempt)
    fun hab heq => (hab heq).ne'
  have hsymm : Std.Symm fun a b : Lease => a.jobId = b.jobId → a.attempt ≠ b.attempt :=
    ⟨fun a b hab heq hatt => hab heq.symm hatt.symm⟩
  exact key.forall hl hl' hne hjob hatt

/-! ### Stale leases -/

/-- The lease is over: a later attempt has begun, or its own has ended. -/
def Over (l : Lease) (s : Store) : Prop :=
  ∀ j, s.job? l.jobId = some j → l.attempt = j.attempts → j.state.active = false

/-- The lease is not held when the clock reads `now`, and will not be later. -/
def Stale (l : Lease) (now : Time) (s : Store) : Prop :=
  ∀ j, s.job? l.jobId = some j → l.attempt = j.attempts → j.state.active = true →
    j.lapsed now = true

lemma Over.held {now : Time} (h : Over l s) : MemoryStorage.held l now s = none := by
  cases hh : MemoryStorage.held l now s with
  | none => rfl
  | some j =>
      obtain ⟨hj, -, hact, -, hatt, -⟩ := held_eq_some_iff.1 hh
      exact absurd hact (by simp [h j hj hatt.symm])

lemma Stale.held {now now' : Time} (h : Stale l now s) (hle : now ≤ now') :
    MemoryStorage.held l now' s = none := by
  cases hh : MemoryStorage.held l now' s with
  | none => rfl
  | some j =>
      obtain ⟨hj, -, hact, -, hatt, hlapsed⟩ := held_eq_some_iff.1 hh
      have hnow := h j hj hatt.symm hact
      unfold Job.lapsed at hnow hlapsed
      cases ht : j.leaseExpiresAt with
      | none => simp [ht] at hlapsed
      | some t =>
          rw [ht] at hnow hlapsed
          simp only [decide_eq_true_eq, decide_eq_false_iff_not, not_le] at hnow hlapsed
          exact absurd (hnow.trans hle) (not_le.2 hlapsed)

/-- A granted lease that is not held is stale. -/
lemma Granted.stale {now : Time} {j : Job} (h : Granted l s j)
    (hh : MemoryStorage.held l now s = none) : Stale l now s := by
  intro j' hj' hatt hact
  obtain rfl : j = j' := Option.some.inj (h.job.symm.trans hj')
  by_contra hlapsed
  rw [Bool.not_eq_true] at hlapsed
  rw [held_eq_some_iff.2 ⟨h.job, h.cluster, hact, h.owner hatt.symm hact, hatt.symm, hlapsed⟩] at hh
  exact absurd hh (by simp)

/-- A change leaves a stale attempt stale when the clock reads no earlier. -/
lemma Move.lapsed {rs : List Time} {j j' : Job} {now : Time} (hm : Move rs j j')
    (hrs : ∀ t ∈ rs, now ≤ t) (hatt : j'.attempts = j.attempts) (hact : j'.state.active = true)
    (hlapsed : j.lapsed now = true) : j'.lapsed now = true := by
  have hlate : ∀ t ∈ rs, j.lapsed t = true := by
    intro t ht
    unfold Job.lapsed at hlapsed ⊢
    cases he : j.leaseExpiresAt with
    | none => rfl
    | some x =>
        rw [he] at hlapsed
        exact decide_eq_true ((of_decide_eq_true hlapsed).trans (hrs t ht))
  cases hm with
  | publish => exact absurd hact (by simp [Job.release, JobState.active])
  | change h =>
      cases h with
      | cancel =>
          unfold Job.cancel
          split_ifs <;> exact hlapsed
      | lease => exact absurd hatt (Nat.succ_ne_self _)
      | extend _ _ _ hl | run _ _ _ hl =>
          obtain ⟨t, ht, hf⟩ := hl
          exact absurd (hlate t ht) (by simp [hf])
      | _ => exact absurd hact (by simp [Job.release, JobState.active])

lemma Granted.over_effect (hk : Keyed s) {op : Op} (he : Effect s op s') {j : Job}
    (h : Granted l s j) (ho : Over l s) : Over l s' := by
  obtain ⟨j', hj', hmove⟩ := h.effect hk he
  intro x hx hatt
  obtain rfl : j' = x := Option.some.inj (hj'.job.symm.trans hx)
  rcases hmove with rfl | hmove
  · exact ho _ h.job hatt
  · by_contra hact
    rw [Bool.not_eq_false] at hact
    have hatt' : j'.attempts = j.attempts :=
      le_antisymm (hatt.ge.trans h.attempt) hmove.attempts_le
    have hidle := ho j h.job (hatt.trans hatt')
    exact absurd (hmove.kept_or_idle hatt' hact).1 (by simp [hidle])

lemma Granted.stale_effect (hk : Keyed s) {op : Op} (he : Effect s op s') {j : Job} {now : Time}
    (hrs : ∀ t ∈ op.readings, now ≤ t) (h : Granted l s j) (hs : Stale l now s) :
    Stale l now s' := by
  obtain ⟨j', hj', hmove⟩ := h.effect hk he
  intro x hx hatt hact
  obtain rfl : j' = x := Option.some.inj (hj'.job.symm.trans hx)
  rcases hmove with rfl | hmove
  · exact hs _ h.job hatt hact
  · have hatt' : j'.attempts = j.attempts :=
      le_antisymm (hatt.ge.trans h.attempt) hmove.attempts_le
    have hact' := (hmove.kept_or_idle hatt' hact).1
    exact hmove.lapsed hrs hatt' hact (hs j h.job (hatt.trans hatt') hact')

/-- A lease that is over stays over. -/
lemma World.Reachable.over_final {w : World} (h : w.Reachable digest caps) (hl : l ∈ w.leases)
    (ho : Over l w.store) {ops : List Op} (hadm : (memory digest caps).Admits World.May w ops) :
    Over l ((memory digest caps).final w ops).store := by
  refine (hadm.preserved (I := fun w => Keyed w.store ∧ Leased w)
    (P := fun w => l ∈ w.leases ∧ Over l w.store)
    (fun _ _ hi hm => ⟨World.step_keyed hi.1 hm, hi.2.step hi.1 hm⟩) ?_ ⟨h.keyed, h.leased⟩
    ⟨hl, ho⟩).2
  intro w op hi hp hm
  obtain ⟨j, hj⟩ := hi.2.granted l hp.1
  exact ⟨List.mem_append_right _ hp.1, hj.over_effect hi.1 (call_effect hi.1 hm.2) hp.2⟩

/-- A stale lease stays stale while the clock does not go back. -/
lemma World.Reachable.stale_final {w : World} (h : w.Reachable digest caps) (hl : l ∈ w.leases)
    {now : Time} (hs : Stale l now w.store) {ops : List Op}
    (hadm : (memory digest caps).Admits World.May w ops)
    (hclock : ∀ op ∈ ops, ∀ t ∈ op.readings, now ≤ t) :
    Stale l now ((memory digest caps).final w ops).store := by
  have hadm' : (memory digest caps).Admits
      (fun w op => w.May op ∧ ∀ t ∈ op.readings, now ≤ t) w ops := by
    clear hs hl h
    induction ops generalizing w with
    | nil => trivial
    | cons op ops ih =>
        exact ⟨⟨hadm.1, hclock op List.mem_cons_self⟩,
          ih hadm.2 fun op' hop' => hclock op' (List.mem_cons_of_mem _ hop')⟩
  refine (hadm'.preserved (I := fun w => Keyed w.store ∧ Leased w)
    (P := fun w => l ∈ w.leases ∧ Stale l now w.store)
    (fun _ _ hi hm => ⟨World.step_keyed hi.1 hm.1, hi.2.step hi.1 hm.1⟩) ?_ ⟨h.keyed, h.leased⟩
    ⟨hl, hs⟩).2
  intro w op hi hp hm
  obtain ⟨j, hj⟩ := hi.2.granted l hp.1
  exact ⟨List.mem_append_right _ hp.1,
    hj.stale_effect hi.1 (call_effect hi.1 hm.1.2) hm.2 hp.2⟩

/-- A later claim of the job ends the attempt of the lease. -/
lemma Leased.over_of_claim {w : World} (hw : Leased w) (hk : Keyed w.store) (hl : l ∈ w.leases)
    {op : Op} (hm : w.May op) {l' : Lease}
    (hans : ((memory digest caps).step w op).1.lease? = some l') (hid : l'.jobId = l.jobId) :
    Over l ((memory digest caps).step w op).2.store := by
  have hw' := @Leased.step digest caps _ _ hk hw hm
  have hcons : ((memory digest caps).step w op).2.leases = l' :: w.leases := by
    have hans' : (MemoryStorage.call digest caps w.store op).1.lease? = some l' := hans
    change Option.toList (Answer.lease? _) ++ _ = _
    rw [hans', Option.toList_some, List.singleton_append]
  have hmem : l' ∈ ((memory digest caps).step w op).2.leases := by
    rw [hcons]
    exact List.mem_cons_self
  obtain ⟨j', hj'⟩ := hw'.granted l' hmem
  have hlt : l.attempt < l'.attempt := by
    have hord := hw'.ordered
    rw [hcons, List.pairwise_cons] at hord
    exact hord.1 l hl hid
  intro j hj hatt
  rw [← hid, hj'.job] at hj
  obtain rfl := Option.some.inj hj
  exact absurd hj'.attempt (not_le.2 (hatt ▸ hlt))

/-- How the calls that present the lease `l` are fenced, from the world `w` on. -/
structure Fenced (digest : Json → String) (caps : Caps) (w : World) (l : Lease) : Prop where
  /-- At most one lease on a job is held. -/
  unique : ∀ l' ∈ w.leases, l'.jobId = l.jobId → ∀ now now',
    (MemoryStorage.held l now w.store).isSome = true →
    (MemoryStorage.held l' now' w.store).isSome = true → l' = l
  /-- After another claim of its job the lease is refused. -/
  reclaimed : ∀ op l', w.May op → ((memory digest caps).step w op).1.lease? = some l' →
    l'.jobId = l.jobId → ∀ ops,
    (memory digest caps).Admits World.May ((memory digest caps).step w op).2 ops → ∀ now,
    Refused caps l now ((memory digest caps).final ((memory digest caps).step w op).2 ops).store
  /-- Once its job was released or finished the lease is refused. -/
  released : ∀ j, w.store.job? l.jobId = some j → j.state.active = false → ∀ ops,
    (memory digest caps).Admits World.May w ops → ∀ now,
    Refused caps l now ((memory digest caps).final w ops).store
  /-- When it has expired the lease is refused. -/
  expired : ∀ j t now, w.store.job? l.jobId = some j → j.leaseExpiresAt = some t → t ≤ now →
    Refused caps l now w.store
  /-- Once refused, the lease is refused for ever by a clock that does not go back. -/
  forever : ∀ now, Refused caps l now w.store → ∀ ops,
    (memory digest caps).Admits World.May w ops → (∀ op ∈ ops, ∀ t ∈ op.readings, now ≤ t) →
    ∀ now', now ≤ now' → Refused caps l now' ((memory digest caps).final w ops).store

/-- Every lease handed out is fenced, in every world that calls lead to. -/
theorem fenced_of_reachable {w : World} (h : w.Reachable digest caps) {l : Lease}
    (hl : l ∈ w.leases) : Fenced digest caps w l where
  unique l' hl' hid now now' hheld hheld' := by
    obtain ⟨j, hj⟩ := Option.isSome_iff_exists.1 hheld
    obtain ⟨j', hj'⟩ := Option.isSome_iff_exists.1 hheld'
    obtain ⟨hjob, -, -, -, hatt, -⟩ := held_eq_some_iff.1 hj
    obtain ⟨hjob', -, -, -, hatt', -⟩ := held_eq_some_iff.1 hj'
    rw [hid, hjob] at hjob'
    obtain rfl := Option.some.inj hjob'
    exact h.leased.eq_of_attempt hl' hl hid (hatt'.symm.trans hatt)
  reclaimed op l' hm hans hid ops hadm now := by
    have hw : World.Reachable digest caps ((memory digest caps).step w op).2 :=
      @World.Reachable.final _ _ _ [op] h ⟨hm, trivial⟩
    have hover := h.leased.over_of_claim h.keyed hl hm hans hid
    exact refused_iff.2 (hw.over_final (List.mem_append_right _ hl) hover hadm).held
  released j hj hidle ops hadm now := by
    refine refused_iff.2 (h.over_final hl (fun x hx _ => ?_) hadm).held
    obtain rfl := Option.some.inj (hj.symm.trans hx)
    exact hidle
  expired j t now hj ht hle := by
    refine refused_iff.2 (@Stale.held _ _ now _ (fun x hx _ _ => ?_) le_rfl)
    obtain rfl := Option.some.inj (hj.symm.trans hx)
    rw [Job.lapsed, ht]
    exact decide_eq_true hle
  forever now href ops hadm hclock now' hle := by
    obtain ⟨j, hj⟩ := h.leased.granted l hl
    have hstale := hj.stale (refused_iff.1 href)
    exact refused_iff.2 ((h.stale_final hl hstale hadm hclock).held hle)

theorem sample_fenced : Fenced Sample.digest Sample.caps Sample.world Sample.lease :=
  fenced_of_reachable Sample.world_reachable
    (by rw [Sample.world_leases]; exact List.mem_singleton_self _)

end Storage

end Afterlock
