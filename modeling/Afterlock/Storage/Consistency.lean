import Afterlock.Storage.Publication

/-!
# References between records

Jobs and results name manifests, manifests name cases, and results name jobs.  Where a manifest id
stands for the manifests of one cluster only, as it does for content-addressed manifests, every
reference stays within its cluster over every run (`World.ReachableOf.consistent`).
-/

namespace Afterlock

namespace Storage

/-! ### Content-addressed manifests -/

/-- `ENGINE_VERSION`. -/
def engineVersion : String := "0.1.0"

/-- The document that a manifest is the digest of. -/
def manifestBody (clusterId caseId kind : String) (payload : Json.Fields) : Json :=
  .obj [("cluster_id", .str clusterId), ("case_id", .str caseId), ("kind", .str kind),
    ("engine_version", .str engineVersion), ("payload", .obj payload)]

/-- The semantic profile that a manifest shows. -/
def semanticProfile (payload : Json.Fields) : Json :=
  match (Json.get payload "input").orElse (.obj []) with
  | .obj inp =>
    match Json.get inp "profile" with
    | .obj prof => .obj [("id", Json.get prof "id"),
        ("kubernetes_version", Json.get prof "kubernetes_version")]
    | _ => .obj []
  | _ => .obj []

/-- `build_manifest`, for a digest of the form `sha256:` followed by its digits. -/
def buildManifest (digest : Json → String) (clusterId caseId kind : String)
    (payload : Json.Fields) : Except Error Manifest :=
  if (resultPrefix kind).isNone then
    .error (.valueError ("unknown job kind " ++ Json.quoted kind))
  else
    let h := digest (manifestBody clusterId caseId kind payload)
    .ok {
      manifestId := "mf-" ++ String.ofList ((h.toList.drop 7).take 40)
      clusterId := clusterId
      caseId := caseId
      kind := kind
      inputHash := h
      semanticProfile := semanticProfile payload
      engineVersion := engineVersion
      payload := payload }

/-- Among the manifests of `M`, an id stands for the manifests of one cluster. -/
def Unshared (M : Set Manifest) : Prop :=
  ∀ m ∈ M, ∀ m' ∈ M, m.manifestId = m'.manifestId → m.clusterId = m'.clusterId

/-- The manifests that `build_manifest` makes. -/
def Built (digest : Json → String) : Set Manifest :=
  { m | ∃ clusterId caseId kind payload, buildManifest digest clusterId caseId kind payload = .ok m }

/-- The document whose digest is the hash of a manifest. -/
def Manifest.body (m : Manifest) : Json :=
  .obj [("cluster_id", .str m.clusterId), ("case_id", .str m.caseId), ("kind", .str m.kind),
    ("engine_version", .str m.engineVersion), ("payload", .obj m.payload)]

/-- The digits of a digest that a manifest id shows. -/
def idDigits (h : String) : List Char := (h.toList.drop 7).take 40

/-- The manifests of `M` come from `build_manifest`, and no two documents that they were built from
have a digest that begins with the same digits. -/
structure CollisionFree (digest : Json → String) (M : Set Manifest) : Prop where
  built : M ⊆ Built digest
  eq_of_digits : ∀ m ∈ M, ∀ m' ∈ M, idDigits (digest m.body) = idDigits (digest m'.body) →
    m.body = m'.body

/-- What `build_manifest` makes is settled by the document that it is built from. -/
lemma built_cases {digest : Json → String} {m : Manifest} (h : m ∈ Built digest) :
    (resultPrefix m.kind).isSome = true ∧
      m = { m with
        manifestId := "mf-" ++ String.ofList (idDigits (digest m.body))
        inputHash := digest m.body
        semanticProfile := Storage.semanticProfile m.payload
        engineVersion := Storage.engineVersion } := by
  obtain ⟨cl, ca, k, p, hm⟩ := h
  unfold buildManifest at hm
  split_ifs at hm with hk
  obtain rfl := Except.ok.inj hm
  exact ⟨by simpa [Option.isSome_iff_ne_none] using hk, rfl⟩

/-- Manifests whose documents do not collide are settled by their ids. -/
lemma CollisionFree.eq_of_id {digest : Json → String} {M : Set Manifest}
    (h : CollisionFree digest M) {m m' : Manifest} (hm : m ∈ M) (hm' : m' ∈ M)
    (hid : m.manifestId = m'.manifestId) : m = m' := by
  obtain ⟨-, heq⟩ := built_cases (h.built hm)
  obtain ⟨-, heq'⟩ := built_cases (h.built hm')
  have hdigits : idDigits (digest m.body) = idDigits (digest m'.body) := by
    rw [heq, heq'] at hid
    simpa only [String.append_right_inj, String.ofList_inj] using hid
  have hbody := h.eq_of_digits m hm m' hm' hdigits
  have hfields := hbody
  simp only [Manifest.body, Json.obj.injEq, List.cons.injEq, Prod.mk.injEq,
    Json.str.injEq, true_and, and_true] at hfields
  obtain ⟨hcl, hca, hk, -, hp⟩ := hfields
  rw [heq, heq', hbody, hcl, hca, hk, hp]

lemma CollisionFree.unshared {digest : Json → String} {M : Set Manifest}
    (h : CollisionFree digest M) : Unshared M :=
  fun _ hm _ hm' hid => congrArg _ (h.eq_of_id hm hm' hid)

/-! ### Consistent stores -/

/-- The records of a store refer to records of their own cluster. -/
structure Consistent (s : Store) : Prop where
  keyed : Keyed s
  recorded : Recorded s
  jobManifest : ∀ e ∈ s.jobs, ∃ m ∈ s.manifests, m.manifestId = e.job.manifestId ∧
    m.clusterId = e.job.clusterId
  resultManifest : ∀ r ∈ s.results, ∃ m ∈ s.manifests, m.manifestId = r.manifestId ∧
    m.clusterId = r.clusterId
  resultJob : ∀ r ∈ s.results, ∀ jid, r.jobId = some jid →
    ∃ e ∈ s.jobs, e.job.jobId = jid ∧ e.job.clusterId = r.clusterId
  manifestCase : ∀ m ∈ s.manifests, s.cases.contains (m.clusterId, m.caseId) = true

/-- A call may come, and the manifest it passes is one of `M`. -/
def World.MayOf (M : Set Manifest) (w : World) (op : Op) : Prop :=
  w.May op ∧ ∀ m, op.manifest? = some m → m ∈ M

/-- A world that some run of calls with manifests of `M` leads to. -/
def World.ReachableOf (M : Set Manifest) (digest : Json → String) (caps : Caps) (w : World) :
    Prop :=
  ∃ ops, (memory digest caps).Admits (World.MayOf M) World.initial ops ∧
    (memory digest caps).final World.initial ops = w

variable {digest : Json → String} {caps : Caps} {M : Set Manifest} {s s' : Store}

lemma World.ReachableOf.reachable {w : World} (h : w.ReachableOf M digest caps) :
    w.Reachable digest caps := by
  obtain ⟨ops, hadm, rfl⟩ := h
  exact ⟨ops, hadm.mono fun _ _ h => h.1, rfl⟩

lemma mem_withManifest_of_mem {m x : Manifest} (h : x ∈ s.manifests) :
    x ∈ (s.withManifest m).manifests := by
  unfold Store.withManifest
  split_ifs with hc
  · exact h
  · rw [Bool.not_eq_true, Table.contains_eq_false_iff] at hc
    exact Table.mem_put.2 (Or.inr ⟨h, hc x h⟩)

lemma mem_withManifest_iff {m x : Manifest} (h : x ∈ (s.withManifest m).manifests) :
    x = m ∨ x ∈ s.manifests := by
  unfold Store.withManifest at h
  split_ifs at h with hc
  · exact Or.inr h
  · exact (Table.mem_put.1 h).imp_right And.left

/-- The manifest stored under the id of `m` once `m` was put. -/
lemma exists_withManifest (hM : Unshared M) (hs : ∀ x ∈ s.manifests, x ∈ M) {m : Manifest}
    (hm : m ∈ M) : ∃ x ∈ (s.withManifest m).manifests, x.manifestId = m.manifestId ∧
      x.clusterId = m.clusterId := by
  unfold Store.withManifest
  split_ifs with hc
  · obtain ⟨x, hx, hid⟩ := Table.contains_iff.1 hc
    exact ⟨x, hx, hid, hM x (hs x hx) m hm hid⟩
  · exact ⟨m, Table.mem_put_self, rfl, rfl⟩

lemma contains_put {c : CaseRecord} {k : String × String} (h : s.cases.contains k = true) :
    (s.cases.put c).contains k = true := by
  rw [Table.contains_iff] at h ⊢
  exact Table.exists_mem_put.2 (Or.inr h)

/-- The references of the jobs of `s'` when its jobs are those of `s`, each changed at most
once. -/
lemma Consistent.jobManifest_kept (h : Consistent s) {rs : List Time} {jobs : List Entry}
    (hj : List.Forall₂ (Kept (Move rs)) s.jobs jobs) :
    ∀ e ∈ jobs, ∃ m ∈ s.manifests, m.manifestId = e.job.manifestId ∧
      m.clusterId = e.job.clusterId := by
  intro e' he'
  obtain ⟨e, he, hk⟩ := Kept.exists_left hj he'
  obtain ⟨m, hm, hid, hcl⟩ := h.jobManifest e he
  exact ⟨m, hm, hid.trans hk.frame.2.2.1.symm, hcl.trans hk.frame.2.1.symm⟩

lemma Consistent.resultJob_kept (h : Consistent s) {rs : List Time} {jobs : List Entry}
    (hj : List.Forall₂ (Kept (Move rs)) s.jobs jobs) :
    ∀ r ∈ s.results, ∀ jid, r.jobId = some jid →
      ∃ e ∈ jobs, e.job.jobId = jid ∧ e.job.clusterId = r.clusterId := by
  intro r hr jid hjid
  obtain ⟨e, he, hid, hcl⟩ := h.resultJob r hr jid hjid
  obtain ⟨e', he', hk⟩ := Kept.exists_right hj he
  exact ⟨e', he', hk.jobId.trans hid, hk.frame.2.1.trans hcl⟩

/-- A call with an unshared manifest keeps the store consistent. -/
lemma Consistent.effect (hM : Unshared M) (hs : ∀ x ∈ s.manifests, x ∈ M) (h : Consistent s)
    {op : Op} (hop : ∀ m, op.manifest? = some m → m ∈ M) (he : Effect s op s') :
    Consistent s' := by
  have hk' := he.keyed h.keyed
  have hr' := h.recorded.effect h.keyed he
  cases he with
  | jobs jobs hj =>
      exact ⟨hk', hr', h.jobManifest_kept (Kept.toMove_all hj), h.resultManifest,
        h.resultJob_kept (Kept.toMove_all hj), h.manifestCase⟩
  | case c hc =>
      exact ⟨hk', hr', h.jobManifest, h.resultManifest, h.resultJob,
        fun m hm => contains_put (h.manifestCase m hm)⟩
  | manifest m hm hc =>
      -- a manifest is only added, if its case is there
      refine ⟨hk', hr', ?_, ?_, by simpa using h.resultJob, ?_⟩
      · intro e he
        obtain ⟨x, hx, hid⟩ := h.jobManifest e (by simpa using he)
        exact ⟨x, mem_withManifest_of_mem hx, hid⟩
      · intro r hr
        obtain ⟨x, hx, hid⟩ := h.resultManifest r (by simpa using hr)
        exact ⟨x, mem_withManifest_of_mem hx, hid⟩
      · intro x hx
        rw [withManifest_cases]
        rcases mem_withManifest_iff hx with rfl | hx
        · exact hc
        · exact h.manifestCase x hx
  | analysis m hm hc result rid hrid =>
      -- the new result is that of the manifest that was passed
      refine ⟨hk', hr', ?_, ?_, ?_, ?_⟩
      · intro e he
        obtain ⟨x, hx, hid⟩ := h.jobManifest e (by simpa using he)
        exact ⟨x, mem_withManifest_of_mem hx, hid⟩
      · intro r hr
        rcases Table.mem_put.1 hr with rfl | ⟨hr, -⟩
        · exact exists_withManifest hM hs (hop m hm)
        · obtain ⟨x, hx, hid⟩ := h.resultManifest r hr
          exact ⟨x, mem_withManifest_of_mem hx, hid⟩
      · intro r hr jid hjid
        rcases Table.mem_put.1 hr with rfl | ⟨hr, -⟩
        · exact absurd hjid (by simp [MemoryStorage.syncResult])
        · simpa using h.resultJob r hr jid hjid
      · intro x hx
        rcases mem_withManifest_iff hx with rfl | hx
        · simpa using hc
        · simpa using h.manifestCase x hx
  | enqueue m hm hc createdBy jid n hn hjid =>
      -- the new job is that of the manifest that was passed
      refine ⟨hk', hr', ?_, ?_, ?_, ?_⟩
      · intro e he
        rcases List.mem_append.1 he with he | he
        · obtain ⟨x, hx, hid⟩ := h.jobManifest e he
          exact ⟨x, mem_withManifest_of_mem hx, hid⟩
        · obtain rfl := List.mem_singleton.1 he
          exact exists_withManifest hM hs (hop m hm)
      · intro r hr
        obtain ⟨x, hx, hid⟩ := h.resultManifest r (by simpa using hr)
        exact ⟨x, mem_withManifest_of_mem hx, hid⟩
      · intro r hr jid' hjid'
        obtain ⟨e, he, hid⟩ := h.resultJob r (by simpa using hr) jid' hjid'
        exact ⟨e, List.mem_append_left _ he, hid⟩
      · intro x hx
        rcases mem_withManifest_iff hx with rfl | hx
        · simpa using hc
        · simpa using h.manifestCase x hx
  | publish l result digits now j hj hc hpub m hm hcase rid hrid jobs hjobs =>
      -- the new result is that of the job that was held, and of its manifest
      subst hjobs
      obtain ⟨hjob, hact⟩ := held_job? hj
      have hkept : List.Forall₂ (Kept (Move [])) s.jobs
          (s.updateJob l.jobId fun j => j.release .succeeded none).jobs :=
        kept_updateJob (f := fun j => j.release .succeeded none) h.keyed hjob (.publish hact hc)
      obtain ⟨e, he, rfl, hid⟩ := exists_of_job? hjob
      obtain ⟨hmem, hmid⟩ := Table.get?_eq_some_iff.1 hm
      refine ⟨hk', hr', h.jobManifest_kept hkept, ?_, ?_, h.manifestCase⟩
      · intro r hr
        rcases Table.mem_put.1 hr with rfl | ⟨hr, -⟩
        · obtain ⟨x, hx, hxid, hcl⟩ := h.jobManifest e he
          obtain rfl := Table.eq_of_key_eq hmem hx (hmid.trans hxid.symm)
          exact ⟨m, hmem, rfl, hcl⟩
        · exact h.resultManifest r hr
      · intro r hr jid hjid
        rcases Table.mem_put.1 hr with rfl | ⟨hr, -⟩
        · obtain ⟨e', he', hk⟩ := Kept.exists_right hkept he
          obtain rfl := Option.some.inj hjid
          exact ⟨e', he', hk.jobId, hk.frame.2.1⟩
        · exact h.resultJob_kept hkept r hr jid hjid

lemma manifests_effect {op : Op} (he : Effect s op s') (hs : ∀ x ∈ s.manifests, x ∈ M)
    (hop : ∀ m, op.manifest? = some m → m ∈ M) : ∀ x ∈ s'.manifests, x ∈ M := by
  intro x hx
  cases he with
  | jobs | case | publish => exact hs x hx
  | manifest m hm | analysis m hm | enqueue m hm =>
      rcases mem_withManifest_iff hx with rfl | hx
      · exact hop _ hm
      · exact hs x hx

lemma consistent_initial : Consistent Store.initial where
  keyed := keyed_initial
  recorded := ⟨by simp [Store.initial], by simp [Store.initial], by simp [Store.initial],
    by simp [Store.initial]⟩
  jobManifest := by simp [Store.initial]
  resultManifest := by simp [Store.initial]
  resultJob := by simp [Store.initial]
  manifestCase := by simp [Store.initial]

/-- Every store that calls with unshared manifests lead to is consistent, and its manifests are
among those passed. -/
theorem World.ReachableOf.consistent (hM : Unshared M) {w : World}
    (h : w.ReachableOf M digest caps) :
    Consistent w.store ∧ ∀ x ∈ w.store.manifests, x ∈ M := by
  obtain ⟨ops, hadm, rfl⟩ := h
  refine hadm.invariant (P := fun w => Consistent w.store ∧ ∀ x ∈ w.store.manifests, x ∈ M) ?_
    ⟨consistent_initial, by simp [World.initial, Store.initial]⟩
  intro w op hw hm
  have he := @call_effect digest caps _ hw.1.keyed _ hm.1.2
  exact ⟨hw.1.effect hM hw.2 hm.2 he, manifests_effect he hw.2 hm.2⟩

end Storage

end Afterlock
