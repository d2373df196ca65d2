import Afterlock.Transitions

/-!
# Saturation

The last round of a closure changes nothing, so every rule has been applied to everything: no step
of the attacker is left (`Done.saturated`).  The only thing a quiet round may do is to note
something unsupported.
-/

namespace Afterlock

open Prog

namespace Engine

variable {ctx : Ctx} {i : ℤ}

/-! ### Quiet turns -/

/-- Nothing has changed but the unknowns, of which none is lost. -/
def Quiet (s t : ViewState) : Prop :=
  ∃ us, t = { s with unknowns := us } ∧ ∀ u ∈ s.unknowns, u ∈ us

lemma Quiet.refl (s : ViewState) : Quiet s s := ⟨s.unknowns, rfl, fun _ h => h⟩

lemma Quiet.trans {s t u : ViewState} (h : Quiet s t) (h' : Quiet t u) : Quiet s u := by
  obtain ⟨us, rfl, hus⟩ := h
  obtain ⟨vs, rfl, hvs⟩ := h'
  exact ⟨vs, rfl, fun u hu => hvs u (hus u hu)⟩

lemma Quiet.note (s : ViewState) (u : UnknownEntry) : Quiet s (s.note u) := by
  refine ⟨(s.note u).unknowns, ?_, fun v hv => ViewState.mem_unknowns_note hv⟩
  unfold ViewState.note
  split_ifs <;> rfl

lemma Quiet.unknowns {s t : ViewState} (h : Quiet s t) {k : String}
    (hk : s.unknowns.contains k = true) : t.unknowns.contains k = true := by
  obtain ⟨us, rfl, hus⟩ := h
  obtain ⟨u, hu, rfl⟩ := Table.contains_iff.1 hk
  exact Table.contains_iff.2 ⟨u, hus u hu, rfl⟩

/-- The workloads that this interval's UIDs name exist as soon as they are controlled. -/
structure Dated (i : ℤ) (s : ViewState) : Prop where
  pods : ∀ ns sa, s.Has (.controlsPod (modelPodUid ns sa i)) →
    s.env.pods.contains (modelPodUid ns sa i) = true
  controllers : ∀ ns sa, s.Has (.controlsController (modelControllerUid ns sa i)) →
    s.env.controllers.contains (modelControllerUid ns sa i) = true

lemma Dated.quiet {s t : ViewState} (h : Dated i s) (hq : Quiet s t) : Dated i t := by
  obtain ⟨us, rfl, -⟩ := hq
  exact ⟨h.pods, h.controllers⟩

lemma quiet_of_add {d : Derivation} {s t : ViewState} (h : (add ctx d).Returns s false t) :
    s.recorded d.fact = true ∧ t = s := by
  rcases returns_add.1 h with ⟨hr, -, ht⟩ | ⟨-, -, hb, -⟩
  · exact ⟨hr, ht⟩
  · cases hb

lemma quiet_of_obtainToken {pod : Pod} {sa : ServiceAccount} {aud : String} {s t : ViewState}
    (h : (obtainToken ctx i pod sa aud).Returns s false t) :
    holdsUntil s (projectedId pod.uid aud) (tokenExpiry ctx s.env) = true ∧ t = s := by
  rcases returns_obtainToken.1 h with ⟨hr, -, ht⟩ | ⟨-, -, hb, -⟩
  · exact ⟨hr, ht⟩
  · cases hb

/-- A loop that reports no change was quiet, and each of its turns has done its part. -/
lemma forEach_done {α : Type} {xs : List α} {body : α → EngineM Bool} {G : α → ViewState → Prop}
    (hG : ∀ {x u t}, G x u → Quiet u t → G x t)
    (hbody : ∀ x ∈ xs, ∀ {u t}, Dated i u → (body x).Returns u false t → Quiet u t ∧ G x t)
    {s s' : ViewState} (hs : Dated i s) (h : (forEach xs body).Returns s false s') :
    Quiet s s' ∧ ∀ x ∈ xs, G x s' :=
  forEach_quiet (R := Quiet) (P := Dated i) (G := G) Quiet.refl (fun h h' => h.trans h')
    (fun h h' => h.quiet h') hG hbody hs h

/-! ### What is done after a quiet turn of each rule -/

def ControllerDone (c : String) (s : ViewState) : Prop :=
  ∀ p ∈ s.env.pods, p.controllerUid = some c → s.Has (.controlsPod p.uid)

def PodDone (ctx : Ctx) (u : String) (s : ViewState) : Prop :=
  ∀ pod ∈ s.env.pods, pod.uid = u → ∀ sa ∈ s.env.serviceAccounts,
    sa.key = (pod.ns, pod.serviceAccount) → ∀ aud ∈ tokenAudiences ctx.inp.profile pod,
      holdsUntil s (projectedId pod.uid aud) (tokenExpiry ctx s.env) = true

/-- The UID that a workload created in the interval gets is taken. -/
def uidTaken (i : ℤ) (s : ViewState) (ns sa : String) : WorkloadKind → Prop
  | .pod => s.env.pods.contains (modelPodUid ns sa i) = true
  | .controller => s.env.controllers.contains (modelControllerUid ns sa i) = true

/-- A workload is live or cannot be created, in the latter case with a note if that is because
admission is unsupported. -/
def WorkloadDone (i : ℤ) (cred : CredentialSpec) (ns sa : String) (kind : WorkloadKind)
    (s : ViewState) : Prop :=
  controlsLive s ns sa kind = true ∨
    match (admissionDecision s.env cred.username ns sa).outcome with
    | .unsupported => s.unknowns.contains
        (unsupportedAdmission ns cred.username sa kind
          (admissionDecision s.env cred.username ns sa).policies).key = true
    | .deny => True
    | .allow => uidTaken i s ns sa kind

def WorkloadsDone (i : ℤ) (cred : CredentialSpec) (ns : String) (kind : WorkloadKind)
    (s : ViewState) : Prop :=
  authorizingBindings s.env cred.username "create" kind.resource ns none ≠ [] →
    ∀ sa ∈ accountsIn s.env ns, WorkloadDone i cred ns sa kind s

def ExecDone (cred : CredentialSpec) (p : Pod) (s : ViewState) : Prop :=
  authorizingBindings s.env cred.username "create" "pods/exec" p.ns (some p.name) ≠ [] →
    s.Has (.controlsPod p.uid)

def ReadDone (cred : CredentialSpec) (sec : Secret) (s : ViewState) : Prop :=
  (readGrant s.env cred.username sec).isSome →
    s.Has (.knowsSecret sec.ns sec.name (Text.ofInt sec.version)) ∧
      s.eph.contains (.canReadSecret sec.ns sec.name) = true

structure RequestsDone (i : ℤ) (cred : CredentialSpec) (s : ViewState) : Prop where
  workloads : ∀ ns ∈ s.env.namespaces, ∀ kind, WorkloadsDone i cred ns kind s
  exec : ∀ p ∈ s.env.pods, ExecDone cred p s
  read : ∀ sec ∈ s.env.secrets, ReadDone cred sec s

def CredentialDone (ctx : Ctx) (i : ℤ) (cid : String) (s : ViewState) : Prop :=
  ∀ cred ∈ s.creds, cred.id = cid →
    (supports cred = false → s.unknowns.contains (unsupportedEntry ctx s.env cred).key = true) ∧
      (canUse ctx s.env cred = true → RequestsDone i cred s)

def SecretDone (k : String × String × String) (s : ViewState) : Prop :=
  ∀ svc ∈ s.env.services, svc.sourceNs = k.1 ∧ svc.sourceSecret = k.2.1 →
    s.Has (.possessesDownstream svc.name k.2.2)

def DownstreamDone (k : String × String) (s : ViewState) : Prop :=
  ∀ svc ∈ s.env.services, svc.name = k.1 → ∀ version, Text.toInt? k.2 = some version →
    svc.accepts version s.env.time = true → s.eph.contains (.canUseDownstream svc.name) = true

lemma ControllerDone.quiet {c : String} {s t : ViewState} (h : ControllerDone c s)
    (hq : Quiet s t) : ControllerDone c t := by
  obtain ⟨us, rfl, -⟩ := hq
  exact h

lemma PodDone.quiet {u : String} {s t : ViewState} (h : PodDone ctx u s) (hq : Quiet s t) :
    PodDone ctx u t := by
  obtain ⟨us, rfl, -⟩ := hq
  exact h

lemma WorkloadDone.quiet {cred : CredentialSpec} {ns sa : String} {kind : WorkloadKind}
    {s t : ViewState} (h : WorkloadDone i cred ns sa kind s) (hq : Quiet s t) :
    WorkloadDone i cred ns sa kind t := by
  have hun := fun {k} => hq.unknowns (k := k)
  obtain ⟨us, rfl, -⟩ := hq
  refine h.imp id fun h => ?_
  split at h
  next hadm =>
    simp only [hadm]
    exact hun h
  next hadm => simp only [hadm]
  next hadm =>
    simp only [hadm]
    cases kind <;> exact h

lemma WorkloadsDone.quiet {cred : CredentialSpec} {ns : String} {kind : WorkloadKind}
    {s t : ViewState} (h : WorkloadsDone i cred ns kind s) (hq : Quiet s t) :
    WorkloadsDone i cred ns kind t := by
  have hall := fun {sa} (h : WorkloadDone i cred ns sa kind s) => h.quiet hq
  obtain ⟨us, rfl, -⟩ := hq
  exact fun hv sa hsa => hall (h hv sa hsa)

lemma ExecDone.quiet {cred : CredentialSpec} {p : Pod} {s t : ViewState} (h : ExecDone cred p s)
    (hq : Quiet s t) : ExecDone cred p t := by
  obtain ⟨us, rfl, -⟩ := hq
  exact h

lemma ReadDone.quiet {cred : CredentialSpec} {sec : Secret} {s t : ViewState}
    (h : ReadDone cred sec s) (hq : Quiet s t) : ReadDone cred sec t := by
  obtain ⟨us, rfl, -⟩ := hq
  exact h

lemma RequestsDone.quiet {cred : CredentialSpec} {s t : ViewState} (h : RequestsDone i cred s)
    (hq : Quiet s t) : RequestsDone i cred t := by
  have hall := fun {ns kind} (h : WorkloadsDone i cred ns kind s) => h.quiet hq
  obtain ⟨us, rfl, -⟩ := hq
  exact ⟨fun ns hns kind => hall (h.workloads ns hns kind), h.exec, h.read⟩

lemma CredentialDone.quiet {cid : String} {s t : ViewState} (h : CredentialDone ctx i cid s)
    (hq : Quiet s t) : CredentialDone ctx i cid t := by
  have hun := fun {k} => hq.unknowns (k := k)
  have hreq := fun {cred} (h : RequestsDone i cred s) => h.quiet hq
  obtain ⟨us, rfl, -⟩ := hq
  exact fun cred hc hid => ⟨fun hs => hun ((h cred hc hid).1 hs),
    fun hu => hreq ((h cred hc hid).2 hu)⟩

lemma SecretDone.quiet {k : String × String × String} {s t : ViewState} (h : SecretDone k s)
    (hq : Quiet s t) : SecretDone k t := by
  obtain ⟨us, rfl, -⟩ := hq
  exact h

lemma DownstreamDone.quiet {k : String × String} {s t : ViewState} (h : DownstreamDone k s)
    (hq : Quiet s t) : DownstreamDone k t := by
  obtain ⟨us, rfl, -⟩ := hq
  exact h

/-! ### Quiet rounds -/

variable {s s' : ViewState}

lemma controllerPods_done (hs : Dated i s) (h : (controllerPods ctx i).Returns s false s') :
    Quiet s s' ∧ ∀ c, s'.Has (.controlsController c) → ControllerDone c s' := by
  rw [controllerPods, returns_getState_bind] at h
  have hall := forEach_done (G := ControllerDone) (fun h hq => h.quiet hq) ?_ hs h
  · obtain ⟨hq, hd⟩ := hall
    refine ⟨hq, fun c hc => hd c (mem_sortedControllers.2 ?_)⟩
    obtain ⟨us, rfl, -⟩ := hq
    exact hc
  intro c _ u t hu h
  rw [returns_getState_bind] at h
  have hall := forEach_done
    (G := fun p v => p.controllerUid = some c → v.Has (.controlsPod p.uid))
    (fun {p v w} hg hq => by obtain ⟨us, rfl, -⟩ := hq; exact hg) ?_ hu h
  · obtain ⟨hq, hd⟩ := hall
    refine ⟨hq, fun p hp => hd p (mem_sortedPods.2 ?_)⟩
    obtain ⟨us, rfl, -⟩ := hq
    exact hp
  intro p _ v w _ h
  rcases returns_ite.1 h with ⟨-, h⟩ | ⟨hne, h⟩
  · obtain ⟨hr, rfl⟩ := quiet_of_add h
    exact ⟨Quiet.refl _, fun _ => (ViewState.recorded_of_persistent rfl).1 hr⟩
  · obtain ⟨-, rfl⟩ := returns_pure.1 h
    exact ⟨Quiet.refl _, fun ho => absurd ho hne⟩

lemma projectedTokens_done (hs : Dated i s) (h : (projectedTokens ctx i).Returns s false s') :
    Quiet s s' ∧ ∀ u, s'.Has (.controlsPod u) → PodDone ctx u s' := by
  rw [projectedTokens, returns_getState_bind] at h
  have hall := forEach_done (G := PodDone ctx) (fun h hq => h.quiet hq) ?_ hs h
  · obtain ⟨hq, hd⟩ := hall
    refine ⟨hq, fun u hu => hd u (mem_sortedControlledPods.2 ?_)⟩
    obtain ⟨us, rfl, -⟩ := hq
    exact hu
  intro u _ v w hv h
  rw [returns_getState_bind] at h
  split at h
  next hnone =>
    obtain ⟨-, rfl⟩ := returns_pure.1 h
    exact ⟨Quiet.refl _, fun pod hp hu => absurd hu (Table.get?_eq_none_iff.1 hnone pod hp)⟩
  next pod hpod =>
    obtain ⟨hmem, rfl⟩ := Table.get?_eq_some_iff.1 hpod
    have hpod' : ∀ q ∈ v.env.pods, q.uid = pod.uid → q = pod := fun q hq hk =>
      Table.eq_of_key_eq hq hmem hk
    split at h
    next hnone =>
      obtain ⟨-, rfl⟩ := returns_pure.1 h
      refine ⟨Quiet.refl _, fun q hq hu sa hsa hk => ?_⟩
      obtain rfl := hpod' q hq hu
      exact absurd hk (Table.get?_eq_none_iff.1 hnone sa hsa)
    next sa hsa =>
      obtain ⟨hsam, hkey⟩ := Table.get?_eq_some_iff.1 hsa
      obtain ⟨hq, hd⟩ := forEach_done
        (G := fun aud w => holdsUntil w (projectedId pod.uid aud) (tokenExpiry ctx w.env) = true)
        (fun {p v w} hg hq => by obtain ⟨us, rfl, -⟩ := hq; exact hg)
        (fun aud _ _ _ _ h => by
          obtain ⟨hr, rfl⟩ := quiet_of_obtainToken h
          exact ⟨Quiet.refl _, hr⟩) hv h
      refine ⟨hq, ?_⟩
      obtain ⟨us, rfl, -⟩ := hq
      intro q hq hu sa' hsa' hk aud haud
      obtain rfl := hpod' q hq hu
      exact hd aud haud

lemma createWorkload_done {cred : CredentialSpec} {ucond : Condition} {ns sa : String}
    {via : List String} {kind : WorkloadKind} (hs : Dated i s)
    (h : (createWorkload ctx i cred.id ucond cred.username ns via kind sa).Returns s false s') :
    Quiet s s' ∧ WorkloadDone i cred ns sa kind s' := by
  rw [createWorkload, returns_getState_bind] at h
  rcases returns_ite.1 h with ⟨hl, h⟩ | ⟨hl, h⟩
  · obtain ⟨-, rfl⟩ := returns_pure.1 h
    exact ⟨Quiet.refl _, Or.inl hl⟩
  · cases hadm : (admissionDecision s.env cred.username ns sa).outcome with
    | unsupported =>
        simp only [hadm, returns_bind, returns_recordUnknown, returns_pure] at h
        obtain ⟨_, _, rfl, -, rfl⟩ := h
        refine ⟨Quiet.note s _, Or.inr ?_⟩
        simp only [ViewState.note_env, hadm]
        exact ViewState.contains_unknowns_note
    | deny =>
        simp only [hadm, returns_pure] at h
        obtain ⟨-, rfl⟩ := h
        exact ⟨Quiet.refl _, Or.inr (by simp only [hadm])⟩
    | allow =>
        -- a workload that is created is new, since a controlled one of this interval exists
        simp only [hadm] at h
        cases kind with
        | pod =>
            rcases returns_ite.1 h with ⟨hc, h⟩ | ⟨hfree, h⟩
            · obtain ⟨-, rfl⟩ := returns_pure.1 h
              exact ⟨Quiet.refl _, Or.inr (by simpa only [hadm, uidTaken] using hc)⟩
            · rw [returns_update_bind] at h
              obtain ⟨hr, -⟩ := quiet_of_add h
              exact absurd (hs.pods ns sa ((ViewState.recorded_of_persistent rfl).1 hr)) hfree
        | controller =>
            rcases returns_ite.1 h with ⟨hc, h⟩ | ⟨hfree, h⟩
            · obtain ⟨-, rfl⟩ := returns_pure.1 h
              exact ⟨Quiet.refl _, Or.inr (by simpa only [hadm, uidTaken] using hc)⟩
            · rw [returns_update_bind] at h
              obtain ⟨hr, -⟩ := quiet_of_add h
              exact absurd (hs.controllers ns sa ((ViewState.recorded_of_persistent rfl).1 hr)) hfree

lemma createWorkloads_done {cred : CredentialSpec} {ucond : Condition} {ns : String}
    {kind : WorkloadKind} (hs : Dated i s)
    (h : (createWorkloads ctx i cred.id ucond cred.username ns kind).Returns s false s') :
    Quiet s s' ∧ WorkloadsDone i cred ns kind s' := by
  rw [createWorkloads, returns_getState_bind] at h
  rcases returns_ite.1 h with ⟨hv, h⟩ | ⟨hv, h⟩
  · obtain ⟨-, rfl⟩ := returns_pure.1 h
    exact ⟨Quiet.refl _, fun hv' => absurd hv hv'⟩
  · obtain ⟨hq, hd⟩ := forEach_done (G := fun sa => WorkloadDone i cred ns sa kind)
      (fun h hq => h.quiet hq) (fun sa _ _ _ hu h => createWorkload_done hu h) hs h
    refine ⟨hq, fun _ sa hsa => hd sa ?_⟩
    obtain ⟨us, rfl, -⟩ := hq
    exact hsa

lemma execPod_done {cred : CredentialSpec} {ucond : Condition} {p : Pod}
    (h : (execPod ctx i cred.id ucond cred.username p).Returns s false s') :
    Quiet s s' ∧ ExecDone cred p s' := by
  rw [execPod, returns_getState_bind] at h
  rcases returns_ite.1 h with ⟨hv, h⟩ | ⟨hv, h⟩
  · obtain ⟨-, rfl⟩ := returns_pure.1 h
    exact ⟨Quiet.refl _, fun hv' => absurd hv hv'⟩
  · obtain ⟨hr, rfl⟩ := quiet_of_add h
    exact ⟨Quiet.refl _, fun _ => (ViewState.recorded_of_persistent rfl).1 hr⟩

lemma readSecret_done {cred : CredentialSpec} {ucond : Condition} {sec : Secret}
    (h : (readSecret ctx i cred.id ucond cred.username sec).Returns s false s') :
    Quiet s s' ∧ ReadDone cred sec s' := by
  rw [readSecret, returns_getState_bind] at h
  split at h
  next hg =>
    obtain ⟨-, rfl⟩ := returns_pure.1 h
    exact ⟨Quiet.refl _, fun hs => by simp [hg] at hs⟩
  next grant hg =>
    simp only [returns_bind, returns_pure] at h
    obtain ⟨a, t, ha, b, u, hb, hab, rfl⟩ := h
    obtain ⟨rfl, rfl⟩ : a = false ∧ b = false := Bool.or_eq_false_iff.1 hab.symm
    obtain ⟨hka, rfl⟩ := quiet_of_add ha
    obtain ⟨hkb, rfl⟩ := quiet_of_add hb
    exact ⟨Quiet.refl _, fun _ => ⟨(ViewState.recorded_of_persistent rfl).1 hka, hkb⟩⟩

lemma credentialRequests_done (hfull : ctx.mode = .full) {cid : String} (hs : Dated i s)
    (h : (credentialRequests ctx i cid).Returns s false s') :
    Quiet s s' ∧ CredentialDone ctx i cid s' := by
  rw [credentialRequests, returns_getState_bind] at h
  split at h
  next hnone =>
    -- a credential that has been overwritten is asked for nothing
    obtain ⟨-, rfl⟩ := returns_pure.1 h
    exact ⟨Quiet.refl _, fun c hc hid => absurd hid (Table.get?_eq_none_iff.1 hnone c hc)⟩
  next cred hcred =>
    obtain ⟨hmem, rfl⟩ := Table.get?_eq_some_iff.1 hcred
    obtain ⟨r, t, hr, h⟩ := returns_bind.1 h
    rcases (returns_usable hfull).1 hr with ⟨hsup, rfl, rfl⟩ | ⟨hsup, hu, rfl, rfl⟩ | ⟨hu, rfl, rfl⟩
    · -- an unsupported credential is noted
      obtain ⟨-, rfl⟩ := returns_pure.1 h
      refine ⟨Quiet.note s _, fun c hc hid => ?_⟩
      rw [ViewState.note_creds] at hc
      obtain rfl := Table.eq_of_key_eq hc hmem hid
      refine ⟨fun _ => ?_, fun hu => ?_⟩
      · rw [ViewState.note_env]
        exact ViewState.contains_unknowns_note
      · rw [supports_of_canUse hu] at hsup
        cases hsup
    · -- a credential that cannot be used
      obtain ⟨-, rfl⟩ := returns_pure.1 h
      refine ⟨Quiet.refl _, fun c hc hid => ?_⟩
      obtain rfl := Table.eq_of_key_eq hc hmem hid
      exact ⟨fun hn => absurd (hsup.symm.trans hn) (by simp),
        fun hu' => absurd (hu.symm.trans hu') (by simp)⟩
    · -- none of the three loops has added anything, so that each has done its work for good
      obtain ⟨c₁, s₁, h₁, h⟩ := returns_bind.1 h
      rw [returns_getState_bind] at h
      obtain ⟨c₂, s₂, h₂, h⟩ := returns_bind.1 h
      rw [returns_getState_bind] at h
      obtain ⟨c₃, s₃, h₃, h⟩ := returns_bind.1 h
      obtain ⟨hc, rfl⟩ := returns_pure.1 h
      obtain ⟨⟨rfl, rfl⟩, rfl⟩ : (c₁ = false ∧ c₂ = false) ∧ c₃ = false := by
        simpa using hc.symm
      obtain ⟨hq₁, hd₁⟩ := forEach_done
        (G := fun ns v => ∀ kind, WorkloadsDone i cred ns kind v)
        (fun h hq kind => (h kind).quiet hq) (fun ns _ v w hv h => by
          simp only [returns_bind, returns_pure] at h
          obtain ⟨a, v₁, ha, b, v₂, hb, hab, rfl⟩ := h
          obtain ⟨rfl, rfl⟩ : a = false ∧ b = false := Bool.or_eq_false_iff.1 hab.symm
          obtain ⟨hqa, hda⟩ := createWorkloads_done hv ha
          obtain ⟨hqb, hdb⟩ := createWorkloads_done (hv.quiet hqa) hb
          refine ⟨hqa.trans hqb, fun kind => ?_⟩
          cases kind with
          | pod => exact hda.quiet hqb
          | controller => exact hdb) hs h₁
      obtain ⟨hq₂, hd₂⟩ := forEach_done (G := ExecDone cred) (fun h hq => h.quiet hq)
        (fun p _ _ _ _ h => execPod_done h) (hs.quiet hq₁) h₂
      obtain ⟨hq₃, hd₃⟩ := forEach_done (G := ReadDone cred) (fun h hq => h.quiet hq)
        (fun x _ _ _ _ h => readSecret_done h) ((hs.quiet hq₁).quiet hq₂) h₃
      refine ⟨(hq₁.trans hq₂).trans hq₃, fun c hc hid => ?_⟩
      have hq₂₃ := hq₂.trans hq₃
      have hw : ∀ ns ∈ t.env.namespaces, ∀ kind, WorkloadsDone i cred ns kind s' :=
        fun ns hns kind => (hd₁ ns hns kind).quiet hq₂₃
      have he : ∀ p ∈ s₁.env.pods, ExecDone cred p s' := fun p hp =>
        (hd₂ p (mem_sortedPods.2 hp)).quiet hq₃
      obtain ⟨us₁, rfl, -⟩ := hq₁
      obtain ⟨us₂, rfl, -⟩ := hq₂
      obtain ⟨us₃, rfl, -⟩ := hq₃
      obtain rfl := Table.eq_of_key_eq hc hmem hid
      refine ⟨fun hn => ?_, fun _ => ⟨hw, he, fun x hx => hd₃ x (mem_sortedSecrets.2 hx)⟩⟩
      rw [supports_of_canUse hu] at hn
      cases hn

lemma apiRequests_done (hfull : ctx.mode = .full) (hs : Dated i s)
    (h : (apiRequests ctx i).Returns s false s') :
    Quiet s s' ∧ ∀ cid, s'.Has (.possesses cid) → CredentialDone ctx i cid s' := by
  rw [apiRequests, returns_getState_bind] at h
  obtain ⟨hq, hd⟩ := forEach_done (G := CredentialDone ctx i) (fun h hq => h.quiet hq)
    (fun c _ _ _ hu h => credentialRequests_done hfull hu h) hs h
  refine ⟨hq, fun c hc => hd c (mem_sortedCredentials.2 ?_)⟩
  obtain ⟨us, rfl, -⟩ := hq
  exact hc

lemma downstreamCredentials_done (hs : Dated i s)
    (h : (downstreamCredentials ctx i).Returns s false s') :
    Quiet s s' ∧ ∀ k : String × String × String, s'.Has (.knowsSecret k.1 k.2.1 k.2.2) →
      SecretDone k s' := by
  rw [downstreamCredentials, returns_getState_bind] at h
  have hall := forEach_done (G := SecretDone) (fun h hq => h.quiet hq) ?_ hs h
  · obtain ⟨hq, hd⟩ := hall
    refine ⟨hq, fun k hk => hd k (mem_sortedKnown.2 ?_)⟩
    obtain ⟨us, rfl, -⟩ := hq
    exact hk
  intro k _ v w hv h
  rw [returns_getState_bind] at h
  obtain ⟨hq, hd⟩ := forEach_done
    (G := fun svc w => w.Has (.possessesDownstream svc.name k.2.2))
    (fun {x v w} hg hq => by obtain ⟨us, rfl, -⟩ := hq; exact hg)
    (fun svc _ _ _ _ h => by
      obtain ⟨hr, rfl⟩ := quiet_of_add h
      exact ⟨Quiet.refl _, (ViewState.recorded_of_persistent rfl).1 hr⟩) hv h
  refine ⟨hq, fun svc hsvc hsrc => hd svc (mem_secretsFeeding.2 ⟨?_, hsrc⟩)⟩
  obtain ⟨us, rfl, -⟩ := hq
  exact hsvc

lemma downstreamUse_done (hs : Dated i s) (h : (downstreamUse ctx i).Returns s false s') :
    Quiet s s' ∧ ∀ k : String × String, s'.Has (.possessesDownstream k.1 k.2) →
      DownstreamDone k s' := by
  rw [downstreamUse, returns_getState_bind] at h
  have hall := forEach_done (G := DownstreamDone) (fun h hq => h.quiet hq) ?_ hs h
  · obtain ⟨hq, hd⟩ := hall
    refine ⟨hq, fun k hk => hd k (mem_sortedDownstream.2 ?_)⟩
    obtain ⟨us, rfl, -⟩ := hq
    exact hk
  intro k _ v w _ h
  rw [returns_getState_bind] at h
  split at h
  next svc version hsvc hver =>
    obtain ⟨hmem, hname⟩ := Table.get?_eq_some_iff.1 hsvc
    rcases returns_ite.1 h with ⟨-, h⟩ | ⟨hna, h⟩
    · obtain ⟨hr, rfl⟩ := quiet_of_add h
      refine ⟨Quiet.refl _, fun x hx hn version' hv' ha => ?_⟩
      obtain rfl := Table.eq_of_key_eq hx hmem (hn.trans hname.symm)
      exact hr
    · obtain ⟨-, rfl⟩ := returns_pure.1 h
      refine ⟨Quiet.refl _, fun x hx hn version' hv' ha => ?_⟩
      obtain rfl := Table.eq_of_key_eq hx hmem (hn.trans hname.symm)
      obtain rfl : version' = version := Option.some.inj (hv'.symm.trans hver)
      exact absurd ha hna
  next hnone =>
    obtain ⟨-, rfl⟩ := returns_pure.1 h
    refine ⟨Quiet.refl _, fun x hx hn version hv _ => ?_⟩
    exact (hnone x version (Table.get?_eq_some_iff.2 ⟨hx, hn⟩) hv).elim

/-! ### Saturation -/

/-- No step of the attacker is left. -/
def Saturated (ctx : Ctx) (i : ℤ) (s : ViewState) : Prop := ∀ t, Step ctx i s t → t = s

lemma mem_namespaces_of_account {env : Env} {a : ServiceAccount} {ns sa : String}
    (ha : a ∈ env.serviceAccounts) (hk : a.key = (ns, sa)) : ns ∈ env.namespaces := by
  simp only [Env.namespaces, Text.mem_sortedBy, List.mem_dedup, List.mem_append, List.mem_map]
  exact Or.inl ⟨a, ha, congrArg Prod.fst hk⟩

/-- A workload that may be created is dealt with. -/
lemma RequestsDone.workload {cred : CredentialSpec} {ns sa : String} {kind : WorkloadKind}
    (h : RequestsDone i cred s) (hm : MayCreate ctx s cred ns sa kind) :
    WorkloadDone i cred ns sa kind s := by
  obtain ⟨a, ha, hk⟩ := hm.account
  exact h.workloads ns (mem_namespaces_of_account ha hk) kind hm.authorized sa
    (mem_accountsIn.2 hm.account)

/-- All rules have been applied. -/
structure Done (ctx : Ctx) (i : ℤ) (s : ViewState) : Prop where
  controllers : ∀ c, s.Has (.controlsController c) → ControllerDone c s
  pods : ∀ u, s.Has (.controlsPod u) → PodDone ctx u s
  credentials : ∀ cid, s.Has (.possesses cid) → CredentialDone ctx i cid s
  secrets : ∀ k : String × String × String, s.Has (.knowsSecret k.1 k.2.1 k.2.2) → SecretDone k s
  downstream : ∀ k : String × String, s.Has (.possessesDownstream k.1 k.2) → DownstreamDone k s

lemma Done.requests (h : Done ctx i s) {cred : CredentialSpec} (hu : Uses ctx s cred) :
    RequestsDone i cred s := (h.credentials cred.id hu.has cred hu.mem rfl).2 hu.usable

lemma Done.recorded_of_infers (h : Done ctx i s) {d : Derivation} (hd : Infers ctx i s d) :
    s.recorded d.fact = true := by
  cases hd with
  | ownedPod hc hp ho => exact (ViewState.recorded_of_persistent rfl).2 (h.controllers _ hc _ hp ho)
  | execPod hu hp hv => exact (ViewState.recorded_of_persistent rfl).2 ((h.requests hu).exec _ hp hv)
  | knowSecret hu hs hg =>
      have hr := (h.requests hu).read _ hs (Option.isSome_of_eq_some hg)
      exact (ViewState.recorded_of_persistent rfl).2 hr.1
  | readSecret hu hs hg =>
      exact ((h.requests hu).read _ hs (Option.isSome_of_eq_some hg)).2
  | downstreamCredential hk hs hsrc =>
      exact (ViewState.recorded_of_persistent rfl).2 (h.secrets _ hk _ hs hsrc)
  | downstreamUse hk hs hn hv ha => exact h.downstream _ hk _ hs hn _ hv ha

lemma Done.saturated (h : Done ctx i s) : Saturated ctx i s := by
  intro t hst
  cases hst with
  | infer hd hnew =>
      rw [h.recorded_of_infers hd] at hnew
      cases hnew
  | token hc hp ha hk haud hnew =>
      rw [h.pods _ hc _ hp rfl _ ha hk _ haud] at hnew
      cases hnew
  | createPod hm hadm hfree =>
      rcases (h.requests hm.uses).workload hm with hl | hw
      · rw [hm.notLive] at hl
        cases hl
      · simp only [hadm, uidTaken, hfree] at hw
        cases hw
  | createController hm hadm hfree =>
      rcases (h.requests hm.uses).workload hm with hl | hw
      · rw [hm.notLive] at hl
        cases hl
      · simp only [hadm, uidTaken, hfree] at hw
        cases hw
  | unsupportedCredential hhas hmem hsup =>
      exact if_pos ((h.credentials _ hhas _ hmem rfl).1 hsup)
  | unsupportedAdmission hm hadm =>
      rcases (h.requests hm.uses).workload hm with hl | hw
      · rw [hm.notLive] at hl
        cases hl
      · simp only [hadm] at hw
        exact if_pos hw

/-- After a quiet round all rules have been applied. -/
lemma pass_done (hfull : ctx.mode = .full) (hs : Dated i s)
    (h : (pass ctx i).Returns s false s') : Done ctx i s' := by
  simp only [pass, returns_bind, returns_pure] at h
  obtain ⟨b₁, s₁, h₁, b₂, s₂, h₂, b₃, s₃, h₃, b₄, s₄, h₄, b₅, s₅, h₅, hb, rfl⟩ := h
  obtain ⟨⟨⟨⟨rfl, rfl⟩, rfl⟩, rfl⟩, rfl⟩ :
      (((b₁ = false ∧ b₂ = false) ∧ b₃ = false) ∧ b₄ = false) ∧ b₅ = false := by
    simpa using hb.symm
  obtain ⟨hq₁, hd₁⟩ := controllerPods_done hs h₁
  obtain ⟨hq₂, hd₂⟩ := projectedTokens_done (hs.quiet hq₁) h₂
  obtain ⟨hq₃, hd₃⟩ := apiRequests_done hfull ((hs.quiet hq₁).quiet hq₂) h₃
  obtain ⟨hq₄, hd₄⟩ := downstreamCredentials_done (((hs.quiet hq₁).quiet hq₂).quiet hq₃) h₄
  obtain ⟨hq₅, hd₅⟩ := downstreamUse_done ((((hs.quiet hq₁).quiet hq₂).quiet hq₃).quiet hq₄) h₅
  have hd₃' := fun cid h => (hd₃ cid h).quiet (hq₄.trans hq₅)
  obtain ⟨us₁, rfl, -⟩ := hq₁
  obtain ⟨us₂, rfl, -⟩ := hq₂
  obtain ⟨us₃, rfl, -⟩ := hq₃
  obtain ⟨us₄, rfl, -⟩ := hq₄
  obtain ⟨us₅, rfl, -⟩ := hq₅
  exact ⟨hd₁, hd₂, hd₃', hd₄, hd₅⟩

/-- After a closure all rules have been applied.  The UIDs of the interval must stay dated along
its steps. -/
theorem closure_done (hfull : ctx.mode = .full)
    (hdated : ∀ t, Steps ctx i (opening s) t → Dated i t)
    (h : (closure ctx i).Returns s () s') : Done ctx i s' := by
  rw [closure, returns_update_bind, returns_getState_bind] at h
  obtain ⟨t, ht, -, hlast⟩ := untilQuiet_last (R := Steps ctx i) (P := fun _ => True)
    (fun _ => .refl) (fun h h' => h.trans h') (fun _ _ => trivial)
    (fun _ h => pass_steps hfull h) trivial h
  exact pass_done hfull (hdated t ht) hlast

end Engine

end Afterlock
