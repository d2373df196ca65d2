import Afterlock.Legitimate
import Afterlock.Within

/-!
# More evidence gives the attacker no less

Of two cases about one cluster the one that says more about the attacker lets the attacker reach at
least as much: every final goal of the first run is one of the second (`goals_within`).

In the second run the attacker need not do what it does in the first: it may have a workload of a
service account since an earlier interval, where the first run creates one only now.  So the states
are compared by what the attacker can do (`Covers`): for each workload in the first state the second
has one that runs as the same service account, and for each credential one that lasts as long.  No
defender action can tell the two apart, since it names no UID of the attacker's.  The comparison is
with the state in which a closure of the second run ends: that state is complete, so whatever step
the first run takes has its counterpart there already.
-/

namespace Afterlock

open Prog Engine

/-- The credential `c'` is `c` with an expiry that is no earlier. -/
def Outlasts (c c' : CredentialSpec) : Prop :=
  ∃ e, c' = { c with expiresAt := e } ∧ ∀ y, e = some y → ∃ x, c.expiresAt = some x ∧ x ≤ y

lemma Outlasts.refl (c : CredentialSpec) : Outlasts c c :=
  ⟨c.expiresAt, rfl, fun y hy => ⟨y, hy, le_rfl⟩⟩

lemma Outlasts.trans {c c' c'' : CredentialSpec} (h : Outlasts c c') (h' : Outlasts c' c'') :
    Outlasts c c'' := by
  obtain ⟨e, rfl, he⟩ := h
  obtain ⟨e', rfl, he'⟩ := h'
  refine ⟨e', rfl, fun z hz => ?_⟩
  obtain ⟨y, hy, hyz⟩ := he' z hz
  obtain ⟨x, hx, hxy⟩ := he y hy
  exact ⟨x, hx, hxy.trans hyz⟩

/-- A credential that lasts longer can be used where the other can, also in the possible history. -/
lemma Outlasts.useTime_lt {ctx ctx' : Ctx} {env env' : Env} {c c' : CredentialSpec}
    (h : Outlasts c c') (hhistory : ctx'.inHistory = ctx.inHistory)
    (hstart : ctx'.inp.historyStart = ctx.inp.historyStart) (htime : env'.time = env.time)
    (hlt : ∀ x, c.expiresAt = some x → useTime ctx env c < x) {y : ℤ}
    (hy : c'.expiresAt = some y) : useTime ctx' env' c' < y := by
  obtain ⟨e, rfl, he⟩ := h
  obtain ⟨x, hx, hxy⟩ := he y hy
  have hlt := hlt x hx
  obtain rfl : e = some y := hy
  unfold useTime at hlt ⊢
  rw [hx] at hlt
  rw [hhistory, hstart, htime]
  cases hh : ctx.inHistory with
  | false =>
      simp only [hh] at hlt ⊢
      omega
  | true =>
      simp only [hh] at hlt ⊢
      cases hstart : ctx.inp.historyStart with
      | none =>
          simp only [hstart] at hlt ⊢
          split_ifs at hlt ⊢ <;> omega
      | some start =>
          simp only [hstart] at hlt ⊢
          split_ifs at hlt ⊢ <;> omega

/-- A credential that has not expired is used now. -/
lemma useTime_of_unexpired {ctx : Ctx} {env : Env} {c : CredentialSpec} {e : ℤ}
    (hc : c.expiresAt = some e) (h : env.time < e) : useTime ctx env c = env.time := by
  unfold useTime
  rw [hc]
  cases hh : ctx.inHistory with
  | false => rfl
  | true => exact if_pos h

lemma defaultAudience_mem {inp : AnalysisInput} (hw : WellFormed inp) :
    inp.profile.defaultAudience ∈ inp.profile.apiAudiences := by
  obtain ⟨aud, auds, hauds⟩ := List.exists_cons_of_ne_nil hw.audiences
  rw [Profile.defaultAudience, hauds]
  exact List.mem_cons_self

lemma parseSaUsername_eq_some {u ns name : String} (h : parseSaUsername u = some (ns, name)) :
    u = saUsername ns name := by
  unfold parseSaUsername at h
  split_ifs at h with hp
  obtain ⟨rest, rfl⟩ := Text.hasPrefix_iff.1 hp
  rw [Text.dropLen_append] at h
  split at h
  next x y hsplit =>
    split_ifs at h
    cases h
    obtain ⟨hrest, -⟩ := Text.splitOn_eq_pair_iff.1 hsplit
    have hcolon : rest = ns ++ ":" ++ name := by
      apply String.toList_injective
      rw [hrest]
      simp
    rw [hcolon, saUsername, String.append_assoc, String.append_assoc, String.append_assoc]
  · cases h

namespace Engine

variable {inp : AnalysisInput} {view : View} {φ : Phase} {s t : ViewState}

/-- Steps replace a credential by one that lasts longer, if at all. -/
lemma Step.outlasts (hw : WellFormed inp) (hid : IdsApart inp) (hs : During inp view φ s)
    (h : Step (phaseCtx inp view φ) φ.index s t) {c : CredentialSpec} (hc : c ∈ s.creds) :
    ∃ c' ∈ t.creds, Outlasts c c' := by
  rcases h.token_cases with ht | ⟨pod, sa, aud, hy, hnew, ht⟩
  · exact ⟨c, ht ▸ hc, .refl c⟩
  rw [ht]
  by_cases he : c.id = projectedId pod.uid aud
  · obtain ⟨e, rfl⟩ := stored_token hw hid hs hy hc he
    refine ⟨_, Table.mem_put_self, ⟨_, rfl, fun y hy => ⟨e, rfl, ?_⟩⟩⟩
    obtain rfl := Option.some.inj hy
    by_contra hlt
    rw [holdsUntil_projectedToken hc, decide_eq_false_iff_not] at hnew
    omega
  · exact ⟨c, Table.mem_put.2 (.inr ⟨hc, he⟩), .refl c⟩

lemma Steps.outlasts (hw : WellFormed inp) (hid : IdsApart inp) (hs : During inp view φ s)
    (h : Steps (phaseCtx inp view φ) φ.index s t) {c : CredentialSpec} (hc : c ∈ s.creds) :
    ∃ c' ∈ t.creds, Outlasts c c' := by
  induction h with
  | refl => exact ⟨c, hc, .refl c⟩
  | tail hst hlast ih =>
      obtain ⟨c', hc', hout⟩ := ih
      obtain ⟨c'', hc'', hout'⟩ := hlast.outlasts hw hid (hs.steps hst) hc'
      exact ⟨c'', hc'', hout.trans hout'⟩

lemma Steps.controlsLive {ctx : Ctx} {i : ℤ} (h : Steps ctx i s t) {ns sa : String}
    {kind : WorkloadKind} (hl : controlsLive s ns sa kind = true) :
    Engine.controlsLive t ns sa kind = true := by
  have hgrow := h.grows
  have hl := controlsLive_iff.1 hl
  refine controlsLive_iff.2 ?_
  cases kind with
  | pod =>
      obtain ⟨p, hp, hu, hf, hrest⟩ := hl
      exact ⟨p, hgrow.pods p hp, hu, h.has hf, hrest⟩
  | controller =>
      obtain ⟨c, hc, hu, hf, hrest⟩ := hl
      exact ⟨c, hgrow.controllers c hc, hu, h.has hf, hrest⟩

end Engine

/-! ### The comparison -/

/-- The facts by which states are compared: a workload of the attacker's may have another UID in the
other state, and a credential counts for what can be done with it. -/
def Fact.Comparable : Fact → Prop
  | .controlsPod uid => isModelUid uid = false
  | .controlsController uid => isModelUid uid = false
  | .possesses _ => False
  | _ => True

/-- What the attacker of the first state has obtained for good, the one of the second has. -/
structure Knows (s t : ViewState) : Prop where
  facts : ∀ f : Fact, f.Comparable → s.Has f → t.Has f
  creds : ∀ c ∈ s.creds, (∀ uid, c.boundPodUid = some uid → isModelUid uid = false) →
    ∃ c' ∈ t.creds, Outlasts c c'

/-- The attacker of the second state can do in the environment what the one of the first can. -/
structure Covers (s t : ViewState) : Prop extends Knows s t where
  livePods : ∀ p ∈ s.env.pods, isModelUid p.uid = false → p ∈ t.env.pods
  createdPods : ∀ p ∈ s.env.pods, Text.hasPrefix modelPodPrefix p.uid = true →
    controlsLive t p.ns p.serviceAccount .pod = true
  createdControllers : ∀ c ∈ s.env.controllers, isModelUid c.uid = true →
    controlsLive t c.ns c.serviceAccount .controller = true
  goals : ∀ f, s.eph.contains f = true → t.eph.contains f = true

/-- Two runs in one cluster of which the second begins with more. -/
structure Compared (inp inp' : AnalysisInput) (view view' : View) : Prop where
  within : inp.Within inp'
  views : view.Within view'
  first : WellFormed inp
  second : WellFormed inp'
  apart : IdsApart inp'

section

variable {inp inp' : AnalysisInput} {view view' : View} {φ : Phase} {s s' t t' : ViewState}

lemma Knows.steps (h : Knows s t) (hx : Compared inp inp' view view') (ht : During inp' view' φ t)
    (hst : Steps (phaseCtx inp' view' φ) φ.index t t') : Knows s t' where
  facts f hf hhas := hst.has (h.facts f hf hhas)
  creds c hc hbound := by
    obtain ⟨c', hc', hout⟩ := h.creds c hc hbound
    obtain ⟨c'', hc'', hout'⟩ := hst.outlasts hx.second hx.apart ht hc'
    exact ⟨c'', hc'', hout.trans hout'⟩

/-- What is known carries over to states with the same facts and credentials. -/
lemma Knows.congr (h : Knows s t) (hfacts : s'.facts = s.facts) (hcreds : s'.creds = s.creds)
    (hfacts' : t'.facts = t.facts) (hcreds' : t'.creds = t.creds) : Knows s' t' := by
  refine ⟨fun f hf hhas => ?_, ?_⟩
  · rw [ViewState.Has, hfacts] at hhas
    rw [ViewState.Has, hfacts']
    exact h.facts f hf hhas
  · rw [hcreds, hcreds']
    exact h.creds

/-- Recording adds the fact to the capabilities, if it is one. -/
lemma contains_record_eph {d : Derivation} {f : Fact} :
    (s.record d).eph.contains f = true ↔
      s.eph.contains f = true ∨ (d.fact.persistent = false ∧ f = d.fact) := by
  unfold ViewState.record
  split_ifs with hp
  · simp [hp]
  · rw [Table.contains_iff, Table.exists_mem_put, Table.contains_iff]
    constructor
    · rintro (rfl | h)
      · exact .inr ⟨by simpa using hp, rfl⟩
      · exact .inl h
    · rintro (h | ⟨-, rfl⟩)
      · exact .inr h
      · exact .inl rfl

lemma eph_learn {d : Derivation} (hd : d.fact.persistent = true) : (s.learn d).eph = s.eph := by
  rw [ViewState.learn]
  split_ifs
  · rfl
  · rw [ViewState.record, if_pos hd]

/-- A step forgets no capability. -/
lemma contains_step_eph {ctx : Ctx} {i : ℤ} (h : Step ctx i s t) {f : Fact}
    (hf : s.eph.contains f = true) : t.eph.contains f = true := by
  cases h with
  | infer => exact contains_record_eph.2 (.inl hf)
  | token => exact hf
  | createPod =>
      rw [eph_learn rfl]
      exact hf
  | createController =>
      rw [eph_learn rfl]
      exact hf
  | unsupportedCredential =>
      rw [ViewState.note_eph]
      exact hf
  | unsupportedAdmission =>
      rw [ViewState.note_eph]
      exact hf

/-- The comparison survives what the second attacker does. -/
lemma Covers.steps (h : Covers s t) (hx : Compared inp inp' view view')
    (ht : During inp' view' φ t) (hst : Steps (phaseCtx inp' view' φ) φ.index t t') :
    Covers s t' where
  toKnows := h.toKnows.steps hx ht hst
  livePods p hp hu := hst.grows.pods p (h.livePods p hp hu)
  createdPods p hp hu := hst.controlsLive (h.createdPods p hp hu)
  createdControllers c hc hu := hst.controlsLive (h.createdControllers c hc hu)
  goals f hf := by
    induction hst with
    | refl => exact h.goals f hf
    | tail _ hlast ih => exact contains_step_eph hlast ih

/-- Where the attacker has a controller, every controller owns a Pod. -/
lemma settled_of_controller (hw : WellFormed inp) (hs : During inp view φ s) {c : Controller}
    (hc : c ∈ s.env.controllers) (hu : isModelUid c.uid = true) : Settled s.env := by
  rcases hs.settled hw with hsettled | ⟨-, hnone⟩
  · exact hsettled
  · rw [hnone c hc] at hu
    cases hu

/-- For each of the first attacker's Pods the second has one of the same service account. -/
lemma Covers.twin (h : Covers s t) (hx : Compared inp inp' view view') (hs : During inp view φ s)
    (ht : During inp' view' φ t) (hdone : Complete (phaseCtx inp' view' φ) φ.index t) {p : Pod}
    (hp : p ∈ s.env.pods) (hu : isModelUid p.uid = true) :
    ∃ q ∈ t.env.pods, t.Has (.controlsPod q.uid) ∧ q.ns = p.ns ∧
      q.serviceAccount = p.serviceAccount ∧ q.tokenAudiences = [] := by
  have haud : ∀ q ∈ t.env.pods, isModelUid q.uid = true → q.tokenAudiences = [] := by
    intro q hq hqu
    obtain ⟨B, -, hB⟩ := ht.over hx.second
    cases hB.modelPods q hq hqu with
    | created => rfl
    | owned => rfl
  by_cases hpre : Text.hasPrefix modelPodPrefix p.uid = true
  · obtain ⟨q, hq, hqu, hf, hns, hsa⟩ := controlsLive_iff.1 (h.createdPods p hp hpre)
    exact ⟨q, hq, hf, hns, hsa, haud q hq (isModelUid_of_hasPrefix (.inl hqu))⟩
  -- the owner of the Pod has a counterpart, and that one owns a Pod
  have howner : p.controllerUid ≠ none := by
    obtain ⟨B, -, hB⟩ := hs.over hx.first
    cases hB.modelPods p hp hu with
    | created => exact absurd (hasPrefix_modelPodUid _ _ _) hpre
    | owned => simp [replacementPod]
  obtain ⟨d, hd, -, hdu, hns, hsa⟩ := exists_owner hx.first hs hp hu howner
  obtain ⟨d', hd', hpre', hf, hns', hsa'⟩ := controlsLive_iff.1 (h.createdControllers d hd hdu)
  have hmodel : isModelUid d'.uid = true := isModelUid_of_hasPrefix (.inr hpre')
  have hsettled := settled_of_controller hx.second ht hd' hmodel
  obtain ⟨q, hq, hqo⟩ := ownsPod_iff.1 (hsettled d' hd')
  have hqf := hdone.rules _ (.ownedPod hf hq hqo)
  obtain ⟨d'', hd'', hdd, hqns, hqsa⟩ := ht.cared hx.second q hq _ hqo hmodel
  obtain rfl := Table.eq_of_key_eq hd'' hd' hdd
  have hqu : isModelUid q.uid = true := by
    obtain ⟨B, -, hB⟩ := ht.over hx.second
    rcases hB.pod_cases hq with hqB | hqm
    · rw [hB.plain.owners q hqB _ hqo] at hmodel
      cases hmodel
    · exact hqm.isModelUid
  refine ⟨q, hq, ViewState.contains_facts_iff.1 hqf, ?_, ?_, haud q hq hqu⟩
  · rw [← hqns, hns', hns]
  · rw [← hqsa, hsa', hsa]

/-- Whoever the first attacker can act as, the second can. -/
lemma Covers.uses (h : Covers s t) (hx : Compared inp inp' view view') (hs : During inp view φ s)
    (ht : During inp' view' φ t) (hdone : Complete (phaseCtx inp' view' φ) φ.index t)
    {cred : CredentialSpec} (hu : Uses (phaseCtx inp view φ) s cred) :
    ∃ cred', Uses (phaseCtx inp' view' φ) t cred' ∧ cred'.username = cred.username := by
  have hsame := hs.sameCluster hx.within hx.first hx.second ht
  have hprofile : inp'.profile = inp.profile := hx.within.profile
  have hstart : (phaseCtx inp' view' φ).inp.historyStart =
      (phaseCtx inp view φ).inp.historyStart := by
    rw [phaseCtx_inp, phaseCtx_inp]
    exact hx.within.start
  have hhistory : (phaseCtx inp' view' φ).inHistory = (phaseCtx inp view φ).inHistory := by
    cases φ <;> rfl
  obtain ⟨sa, hok⟩ := credentialUsable_usable_iff.1 hu.usable
  rw [phaseCtx_inp, Option.getD_some] at hok
  obtain ⟨a, ha, hk, hauid⟩ := hok.account
  by_cases hbound : ∃ uid, cred.boundPodUid = some uid ∧ isModelUid uid = true
  · -- the token of a workload: the counterpart of the workload has a token of the same account
    obtain ⟨uid, huid, hmodel⟩ := hbound
    obtain ⟨p, hp, rfl, hpsa⟩ := hok.boundPod uid huid
    obtain ⟨q, hq, hqf, hns, hsa, hqaud⟩ := h.twin hx hs ht hdone hp hmodel
    have haccount : a ∈ t.env.serviceAccounts := hsame.serviceAccounts ▸ ha
    have hruns : a.key = (q.ns, q.serviceAccount) := by rw [hns, hsa, hpsa, hk]
    have hdefault : inp'.profile.defaultAudience ∈ tokenAudiences inp'.profile q := by
      rw [tokenAudiences, if_pos hqaud]
      exact List.mem_singleton_self _
    obtain ⟨hhas, e, hmem, hle⟩ := hdone.tokens q a inp'.profile.defaultAudience
      ⟨hqf, hq, haccount, hruns, by rwa [phaseCtx_inp]⟩
    rw [phaseCtx_inp] at hle
    have husername : a.username = cred.username := by
      have hname : parseSaUsername cred.username = some (a.ns, a.name) := hok.username.trans
        (congrArg some hk.symm)
      exact (parseSaUsername_eq_some hname).symm
    have httl := hx.second.ttl
    refine ⟨projectedToken q a _ e, ⟨hhas, hmem, ?_⟩, husername⟩
    refine credentialUsable_usable_iff.2 ⟨sa, rfl, ?_, fun y hy => ?_, ?_, ⟨a, haccount, hk, ?_⟩, ?_⟩
    · rw [projectedToken, husername]
      exact hok.username
    · obtain rfl := Option.some.inj hy
      rw [Option.getD_some, useTime_of_unexpired rfl (by omega)]
      omega
    · rw [phaseCtx_inp]
      exact defaultAudience_mem hx.second
    · rintro u hu
      exact Option.some.inj hu
    · rintro u hu
      obtain rfl := Option.some.inj hu
      exact ⟨q, hq, rfl, by rw [hns, hsa, hpsa]⟩
  · -- any other credential is there itself, and lasts as long
    have hfree : ∀ uid, cred.boundPodUid = some uid → isModelUid uid = false := by
      intro uid huid
      by_contra hm
      exact hbound ⟨uid, huid, by simpa using hm⟩
    obtain ⟨cred', hmem, hout⟩ := h.creds cred hu.mem hfree
    have hlt := fun y => hout.useTime_lt (y := y) hhistory hstart hsame.time hok.unexpired
    obtain ⟨e, rfl, -⟩ := hout
    refine ⟨_, ⟨ht.possesses hmem, hmem, ?_⟩, rfl⟩
    refine credentialUsable_usable_iff.2 ⟨sa, hok.kind, hok.username, ?_, ?_,
      ⟨a, hsame.serviceAccounts ▸ ha, hk, hauid⟩, fun u hu => ?_⟩
    · rw [Option.getD_some]
      exact fun y hy => hlt y hy
    · rw [phaseCtx_inp, hprofile]
      exact hok.audience
    · obtain ⟨p, hp, rfl, hpsa⟩ := hok.boundPod u hu
      exact ⟨p, h.livePods p hp (hfree _ hu), rfl, hpsa⟩

/-- A Secret that the first attacker can read, the second can read. -/
lemma Covers.reads (h : Covers s t) (hx : Compared inp inp' view view') (hs : During inp view φ s)
    (ht : During inp' view' φ t) (hdone : Complete (phaseCtx inp' view' φ) φ.index t)
    {cred : CredentialSpec} {sec : Secret} {grant : String × List String}
    (hu : Uses (phaseCtx inp view φ) s cred)
    (hg : readGrant s.env cred.username sec = some grant) :
    ∃ cred' grant', Uses (phaseCtx inp' view' φ) t cred' ∧
      readGrant t.env cred'.username sec = some grant' := by
  have hsame := hs.sameCluster hx.within hx.first hx.second ht
  obtain ⟨cred', hu', husername⟩ := h.uses hx hs ht hdone hu
  obtain ⟨grant', hg'⟩ := Option.isSome_iff_exists.1
    (hsame.readGrant (Option.isSome_of_eq_some hg))
  refine ⟨cred', grant', hu', ?_⟩
  rw [husername]
  exact hg'

/-- What the first attacker can infer, the second has inferred. -/
lemma Covers.infers (h : Covers s t) (hx : Compared inp inp' view view') (hs : During inp view φ s)
    (ht : During inp' view' φ t) (hdone : Complete (phaseCtx inp' view' φ) φ.index t)
    {d : Derivation} (hd : Infers (phaseCtx inp view φ) φ.index s d) :
    d.fact.Comparable → t.recorded d.fact = true := by
  intro hf
  have hsame := hs.sameCluster hx.within hx.first hx.second ht
  cases hd with
  | @ownedPod cuid p hc hp ho =>
      -- the Pod and its controller are of the inventory
      have hm : isModelUid p.uid = false := hf
      have hcu : isModelUid cuid = false := by
        obtain ⟨B, -, hB⟩ := hs.over hx.first
        exact hB.plain.owners p ((hB.pods p hm).1 hp) cuid ho
      exact hdone.rules _ (.ownedPod (h.facts _ hcu hc) (h.livePods p hp hm) ho)
  | @execPod cred p hu hp hv =>
      -- the second run has a credential of the same user that can be used
      have hm : isModelUid p.uid = false := hf
      obtain ⟨cred', hu', husername⟩ := h.uses hx hs ht hdone hu
      have hv' := hsame.authorized hv
      rw [← husername] at hv'
      have hrecorded := hdone.rules _ (.execPod hu' (h.livePods p hp hm) hv')
      exact hrecorded
  | knowSecret hu hsec hg =>
      obtain ⟨cred', grant', hu', hg'⟩ := h.reads hx hs ht hdone hu hg
      have hrecorded := hdone.rules _ (.knowSecret hu' (hsame.secrets ▸ hsec) hg')
      exact hrecorded
  | readSecret hu hsec hg =>
      obtain ⟨cred', grant', hu', hg'⟩ := h.reads hx hs ht hdone hu hg
      have hrecorded := hdone.rules _ (.readSecret hu' (hsame.secrets ▸ hsec) hg')
      exact hrecorded
  | downstreamCredential hk hsvc hsrc =>
      have hk' := h.facts (.knowsSecret _ _ _) trivial hk
      exact hdone.rules _ (.downstreamCredential hk' (hsame.services ▸ hsvc) hsrc)
  | downstreamUse hk hsvc hn hv ha =>
      rw [← hsame.time] at ha
      have hk' := h.facts (.possessesDownstream _ _) trivial hk
      have hrecorded := hdone.rules _ (.downstreamUse hk' (hsame.services ▸ hsvc) hn hv ha)
      exact hrecorded

/-- A workload that the first attacker may create, the second has. -/
lemma Covers.creation (h : Covers s t) (hx : Compared inp inp' view view')
    (hs : During inp view φ s) (ht : During inp' view' φ t)
    (hdone : Complete (phaseCtx inp' view' φ) φ.index t) {cred : CredentialSpec} {ns sa : String}
    {kind : WorkloadKind} (hm : MayCreate (phaseCtx inp view φ) s cred ns sa kind)
    (hadm : (admissionDecision s.env cred.username ns sa).outcome = .allow) :
    controlsLive t ns sa kind = true := by
  have hsame := hs.sameCluster hx.within hx.first hx.second ht
  obtain ⟨cred', hu', husername⟩ := h.uses hx hs ht hdone hm.uses
  have hauth := hsame.authorized hm.authorized
  rw [← husername] at hauth
  rcases hdone.creation cred' ns sa kind hu' (hsame.serviceAccounts ▸ hm.account) hauth with
    hl | hdeny | hunsupported
  · exact controlsLive_iff.2 hl
  · rw [husername, hsame.admissionDecision, hadm] at hdeny
    cases hdeny
  · rw [husername, hsame.admissionDecision, hadm] at hunsupported
    cases hunsupported

/-- Where every controller owns a Pod, the Pods that are not the attacker's are the same. -/
lemma livePods_of_settled (hx : Compared inp inp' view view') (hs : During inp view φ s)
    (ht : During inp' view' φ t) (hsettled : Settled s.env) (hsettled' : Settled t.env) {p : Pod}
    (hp : p ∈ s.env.pods) (hu : isModelUid p.uid = false) : p ∈ t.env.pods := by
  cases φ with
  | history =>
      have hB := hs.over_reconciled hx.first hsettled
      have hB' := ht.over_reconciled hx.second hsettled'
      have hmore := (morePods_historyBase hx.within hx.views hx.apart).reconcile
      exact (hB'.pods p hu).2 (hmore.pods p ((hB.pods p hu).1 hp))
  | interval k =>
      obtain ⟨B, rfl, hB⟩ := hs.over hx.first
      obtain ⟨B', rfl, hB'⟩ := ht.over hx.second
      have hmore := hx.within.baseEnv hx.first.inventory hx.second.inventory k
      rw [hB'.pods p hu, hmore.same]
      exact (hB.pods p hu).1 hp

lemma Covers.record (h : Covers s t) {d : Derivation}
    (hd : d.fact.Comparable → t.recorded d.fact = true) : Covers (s.record d) t where
  facts f hf hhas := by
    rcases ViewState.has_record.1 hhas with hhas | ⟨hp, rfl⟩
    · exact h.facts f hf hhas
    · exact (ViewState.recorded_of_persistent hp).1 (hd hf)
  creds := by
    rw [ViewState.record_creds]
    exact h.creds
  livePods := by
    rw [ViewState.record_env]
    exact h.livePods
  createdPods := by
    rw [ViewState.record_env]
    exact h.createdPods
  createdControllers := by
    rw [ViewState.record_env]
    exact h.createdControllers
  goals f hf := by
    rcases contains_record_eph.1 hf with hf | ⟨hp, rfl⟩
    · exact h.goals f hf
    · have hcomparable : d.fact.Comparable := by
        cases hfact : d.fact with
        | controlsPod | controlsController | possesses =>
            rw [hfact] at hp
            cases hp
        | _ => trivial
      have hr := hd hcomparable
      rwa [ViewState.recorded, if_neg (by simp [hp])] at hr

lemma Covers.learn (h : Covers s t) {d : Derivation}
    (hd : d.fact.Comparable → t.recorded d.fact = true) : Covers (s.learn d) t := by
  rw [ViewState.learn]
  split_ifs
  · exact h
  · exact h.record hd

lemma Covers.note (h : Covers s t) (u : UnknownEntry) : Covers (s.note u) t := by
  refine ⟨h.toKnows.congr ?_ ?_ rfl rfl, ?_, ?_, ?_, ?_⟩
  · exact ViewState.note_facts
  · exact ViewState.note_creds
  · rw [ViewState.note_env]
    exact h.livePods
  · rw [ViewState.note_env]
    exact h.createdPods
  · rw [ViewState.note_env]
    exact h.createdControllers
  · rw [ViewState.note_eph]
    exact h.goals

/-- A token of a Pod that is not the attacker's is obtained in both states. -/
lemma Covers.token (h : Covers s t) (hx : Compared inp inp' view view') (hs : During inp view φ s)
    (ht : During inp' view' φ t) (hdone : Complete (phaseCtx inp' view' φ) φ.index t) {pod : Pod}
    {sa : ServiceAccount} {aud : String}
    (hy : Yields (phaseCtx inp view φ) s pod sa aud) :
    Covers (withToken s (projectedToken pod sa aud (tokenExpiry (phaseCtx inp view φ) s.env))
      (tokenDerivation φ.index pod sa aud (tokenExpiry (phaseCtx inp view φ) s.env))) t where
  facts f hf hhas := by
    obtain ⟨d, hd, rfl⟩ := hhas
    rcases Table.mem_put.1 hd with rfl | ⟨hd, -⟩
    · exact hf.elim
    · exact h.facts d.fact hf ⟨d, hd, rfl⟩
  creds c hc hbound := by
    have hsame := hs.sameCluster hx.within hx.first hx.second ht
    rcases Table.mem_put.1 hc with rfl | ⟨hc, -⟩
    · have hu := hbound pod.uid rfl
      have hprofile : inp'.profile = inp.profile := hx.within.profile
      have hy' : Yields (phaseCtx inp' view' φ) t pod sa aud := by
        refine ⟨h.facts (.controlsPod pod.uid) hu hy.controlled, h.livePods pod hy.live hu,
          hsame.serviceAccounts ▸ hy.account, hy.runsAs, ?_⟩
        rw [phaseCtx_inp, hprofile]
        simpa using hy.audience
      obtain ⟨-, e, hmem, hle⟩ := hdone.tokens pod sa aud hy'
      refine ⟨_, hmem, e, rfl, fun y hy => ⟨_, rfl, ?_⟩⟩
      obtain rfl := Option.some.inj hy
      rw [phaseCtx_inp, hprofile, hsame.time] at hle
      simpa [tokenExpiry] using hle
    · exact h.creds c hc hbound
  livePods := h.livePods
  createdPods := h.createdPods
  createdControllers := h.createdControllers
  goals := h.goals

/-- The comparison survives a step of the first attacker, if the second has nothing left to do. -/
theorem Covers.step (h : Covers s t) (hx : Compared inp inp' view view') (hs : During inp view φ s)
    (ht : During inp' view' φ t) (hdone : Complete (phaseCtx inp' view' φ) φ.index t)
    (hst : Step (phaseCtx inp view φ) φ.index s s') : Covers s' t := by
  have hs' := hs.step hst
  have hpods : ∀ p ∈ s'.env.pods, Text.hasPrefix modelPodPrefix p.uid = true →
      controlsLive t p.ns p.serviceAccount .pod = true := by
    obtain ⟨B, -, hB⟩ := hs.over hx.first
    intro p hp hu
    rcases hst.modelPod_cases hB hp hu with hp | ⟨cred, ns, sa, hm, hadm, rfl, -⟩
    · exact h.createdPods p hp hu
    · exact h.creation hx hs ht hdone hm hadm
  have hcontrollers : ∀ c ∈ s'.env.controllers, isModelUid c.uid = true →
      controlsLive t c.ns c.serviceAccount .controller = true := by
    intro c hc hu
    rcases hst.controller_cases hc with hc | ⟨cred, ns, sa, hm, hadm, rfl, -⟩
    · exact h.createdControllers c hc hu
    · exact h.creation hx hs ht hdone hm hadm
  cases hst with
  | infer hd hnew => exact h.record (h.infers hx hs ht hdone hd)
  | token hc hp ha hk haud hnew => exact h.token hx hs ht hdone ⟨hc, hp, ha, hk, haud⟩
  | @createPod cred ns sa hm hadm hfree =>
      rw [ViewState.learn_env] at hpods hcontrollers
      refine Covers.learn (s := withPod s (createdPod ns sa (modelPodUid ns sa φ.index)))
        ⟨h.toKnows.congr rfl rfl rfl rfl, fun p hp hu => ?_, hpods, hcontrollers, h.goals⟩
        fun hf => ?_
      · rcases (mem_put_of_contains_eq_false
          (p := createdPod ns sa (modelPodUid ns sa φ.index)) hfree).1 hp with rfl | hp
        · simp [createdPod] at hu
        · exact h.livePods p hp hu
      · have hmodel : isModelUid (modelPodUid ns sa φ.index) = false := hf
        rw [isModelUid_modelPodUid] at hmodel
        cases hmodel
  | @createController cred ns sa hm hadm hfree =>
      -- the reconciliation gives Pods to all controllers; in the second run they have them
      have hsettled : Settled t.env := by
        obtain ⟨d, hd, hpre, -⟩ := controlsLive_iff.1 (h.creation hx hs ht hdone hm hadm)
        exact settled_of_controller hx.second ht hd (isModelUid_of_hasPrefix (.inr hpre))
      have hpods' := fun p => livePods_of_settled (p := p) hx hs' ht
        (by rw [ViewState.learn_env]; exact settled_reconcileControllers _) hsettled
      rw [ViewState.learn_env] at hpods hcontrollers hpods'
      refine Covers.learn
        (s := withController s (createdController ns sa (modelControllerUid ns sa φ.index)))
        ⟨h.toKnows.congr rfl rfl rfl rfl, hpods', hpods, hcontrollers, h.goals⟩ fun hf => ?_
      have hmodel : isModelUid (modelControllerUid ns sa φ.index) = false := hf
      rw [isModelUid_modelControllerUid] at hmodel
      cases hmodel
  | unsupportedCredential => exact h.note _
  | unsupportedAdmission => exact h.note _

/-! ### Along two runs -/

/-- A Pod with the UID of a created one has no owner. -/
lemma controllerUid_of_created (hw : WellFormed inp) (hs : During inp view φ s) {p : Pod}
    (hp : p ∈ s.env.pods) (hu : Text.hasPrefix modelPodPrefix p.uid = true) :
    p.controllerUid = none := by
  obtain ⟨B, -, hB⟩ := hs.over hw
  cases hB.modelPods p hp (isModelUid_of_hasPrefix (.inl hu)) with
  | created => rfl
  | @owned ns sa j k =>
      have hc := not_hasPrefix_modelPod_of_modelDeploy (hasPrefix_modelControllerUid ns sa j)
      have hr : Text.hasPrefix modelPodPrefix
          (replacementUid (modelControllerUid ns sa j) k) = true := hu
      rw [modelPodPrefix_eq, hasPrefix_replacementUid, ← modelPodPrefix_eq, hc] at hr
      cases hr

/-- No defender action tells a workload of the first attacker from one of the second. -/
theorem Covers.defend (h : Covers s t) (hx : Compared inp inp' view view') {k : ℕ}
    (hs : During inp view (.interval k) s) (ht : During inp' view' (.interval k) t)
    {a : DefenderAction} (ha : inp.remediation[k]? = some a)
    (hs' : During inp view (.interval (k + 1)) s') (ht' : During inp' view' (.interval (k + 1)) t')
    (hse : s'.env = Afterlock.defend s.env a) (hte : t'.env = Afterlock.defend t.env a)
    (hk : Knows s' t') (hknown : ∀ f, t.Has f → t'.Has f) (heph : s'.eph = ∅) : Covers s' t' := by
  have huids : ∀ uid ∈ a.uids, isModelUid uid = false := fun uid hmem =>
    hx.apart.reserved uid (action_uids_written
      (hx.within.remediation ▸ List.mem_of_getElem? ha) hmem)
  obtain ⟨B, -, hB⟩ := hs.over hx.first
  refine ⟨hk, fun p hp hu => ?_, fun p hp hu => ?_, fun c hc hu => ?_, fun f hf => ?_⟩
  · refine livePods_of_settled hx hs' ht' ?_ ?_ hp hu
    · rw [hse]
      exact settled_reconcileControllers _
    · rw [hte]
      exact settled_reconcileControllers _
  · -- a created Pod goes exactly if all Pods of its service account go
    rw [hse, Afterlock.defend] at hp
    have hleft := mem_of_mem_reconcileControllers
      (fun c hc => Over.not_modelPod hB (mem_applyDefenderAction_controllers hc)) hp hu
    have hmem := mem_applyDefenderAction_pods hleft
    have hspared := (mem_apply_createdPod huids hmem (isModelUid_of_hasPrefix (.inl hu))
      (controllerUid_of_created hx.first hs hmem hu)).1 hleft
    obtain ⟨q, hq, hqu, hf, hns, hsa⟩ := controlsLive_iff.1 (h.createdPods p hmem hu)
    rw [← hns, ← hsa] at hspared
    have hleft' := (mem_apply_createdPod huids hq (isModelUid_of_hasPrefix (.inl hqu))
      (controllerUid_of_created hx.second ht hq hqu)).2 hspared
    refine controlsLive_iff.2 ⟨q, ?_, hqu, hknown _ hf, hns, hsa⟩
    rw [hte]
    exact (reconcileControllers_grows _).pods q hleft'
  · rw [hse, Afterlock.defend, reconcileControllers_controllers] at hc
    have hmem := mem_applyDefenderAction_controllers hc
    have hspared := (mem_apply_controller huids hmem hu).1 hc
    obtain ⟨d, hd, hdu, hf, hns, hsa⟩ := controlsLive_iff.1 (h.createdControllers c hmem hu)
    rw [← hns, ← hsa] at hspared
    have hleft' := (mem_apply_controller huids hd (isModelUid_of_hasPrefix (.inr hdu))).2 hspared
    refine controlsLive_iff.2 ⟨d, ?_, hdu, hknown _ hf, hns, hsa⟩
    rw [hte, Afterlock.defend, reconcileControllers_controllers]
    exact hleft'
  · obtain ⟨d, hd, -⟩ := Table.contains_iff.1 (heph ▸ hf)
    exact absurd hd (Table.not_mem_empty d)

/-- In an interval every controller owns a Pod. -/
lemma settled_of_interval (hw : WellFormed inp) {k : ℕ} (hs : During inp view (.interval k) s) :
    Settled s.env :=
  (hs.settled hw).resolve_right (by simp)

lemma hasHistory_of_during (hs : During inp view φ s) (hφ : φ = .history) :
    hasHistory (viewCtx inp view) = true := by
  induction hs with
  | history hh => exact hh
  | step _ _ ih => exact ih hφ
  | _ => cases hφ

/-- Without workloads of the attacker's and without capabilities there is little to compare. -/
lemma covers_of_plain (hk : Knows s t) (hplain : Plain s.env) (heph : s.eph = ∅)
    (hlive : ∀ p ∈ s.env.pods, isModelUid p.uid = false → p ∈ t.env.pods) : Covers s t where
  toKnows := hk
  livePods := hlive
  createdPods p hp hu := by
    have hm := hplain.pods p hp
    rw [isModelUid_of_hasPrefix (.inl hu)] at hm
    cases hm
  createdControllers c hc hu := by
    rw [hplain.controllers c hc] at hu
    cases hu
  goals f hf := by
    obtain ⟨d, hd, -⟩ := Table.contains_iff.1 (heph ▸ hf)
    exact absurd hd (Table.not_mem_empty d)

lemma knows_initialState (hx : Compared inp inp' view view') :
    Knows (initialState (viewCtx inp view)) (initialState (viewCtx inp' view')) where
  facts _ _ hf := initialState_within hx.within hx.views hf
  creds c hc _ := ⟨c, initialCreds_within hx.within hx.views hx.first hx.second hc, .refl c⟩

lemma knows_enterHistory (hx : Compared inp inp' view view') :
    Knows (enterHistory (viewCtx inp view) (initialState (viewCtx inp view)))
      (enterHistory (viewCtx inp' view') (initialState (viewCtx inp' view'))) where
  facts f hf hhas := by
    rcases has_enterHistory.1 hhas with hhas | ⟨x, hmem, rfl⟩
    · exact has_enterHistory.2 (.inl ((knows_initialState hx).facts f hf hhas))
    · exact has_enterHistory.2 (.inr ⟨x, historical_within hx.within hx.views hmem, rfl⟩)
  creds := (knows_initialState hx).creds

/-- What the second run begins with is known in its interval 0. -/
lemma knows_interval_zero (hx : Compared inp inp' view view') (hk : Knows s
    (initialState (viewCtx inp' view'))) (ht : Enters inp' view' (.interval 0) t) : Knows s t := by
  obtain ⟨p, hp, rfl⟩ := ht
  rcases returns_possibleHistory hp with ⟨hh, u, hu, rfl⟩ | ⟨-, rfl⟩
  · have hstart := During.history hh
    have hknows : Knows s (opening (enterHistory (viewCtx inp' view')
        (initialState (viewCtx inp' view')))) :=
      ⟨fun f hf hhas => has_enterHistory.2 (.inl (hk.facts f hf hhas)), hk.creds⟩
    exact (hknows.steps hx hstart (closure_steps (phaseCtx_mode .history) hu)).congr rfl rfl rfl rfl
  · exact hk.congr rfl rfl rfl rfl

/-- In a phase the end of the second run covers every state of the first one. -/
theorem Engine.During.covers (hx : Compared inp inp' view view')
    (hb : (runView inp' view' .full).boundsExceeded = false) (hs : During inp view φ s)
    (ht : Passes inp' view' φ t t') : Covers s t' := by
  obtain ⟨hstart, hend, hdone⟩ := ht.during hx.second
  induction hs generalizing t t' with
  | history =>
      obtain ⟨-, rfl⟩ := ht.enters
      refine (covers_of_plain ((knows_enterHistory hx).congr rfl rfl rfl rfl)
        (plain_historyBase hx.first) rfl fun p hp _ => ?_).steps hx hstart ht.steps
      exact (morePods_historyBase hx.within hx.views hx.apart).pods p hp
  | first hh =>
      have hk := knows_interval_zero hx (knows_initialState hx) ht.enters
      refine (covers_of_plain (s := enter (initialState (viewCtx inp view)) (baseEnv inp 0) ∅ [])
        (hk.congr rfl rfl rfl rfl) (plain_baseEnv hx.first 0) rfl
        fun p hp hu => ?_).steps hx hstart ht.steps
      exact livePods_of_settled hx (During.first hh) hstart (settled_baseEnv inp 0)
        (settled_of_interval hx.second hstart) hp hu
  | @afterHistory s hs ih =>
      -- the second run has a possible history too, and what is known at its end stays known
      have hh := hasHistory_within hx.within hx.views hx.first hx.second
        (hasHistory_of_during hs rfl)
      obtain ⟨u, v, huv⟩ := (passes_of_complete hb).1 hh
      obtain ⟨hu, hv, hvdone⟩ := huv.during hx.second
      have hk := (ih huv hu hv hvdone).toKnows
      obtain ⟨p, hp, rfl⟩ := ht.enters
      have hpv : p.facts = v.facts ∧ p.creds = v.creds := by
        rcases returns_possibleHistory hp with ⟨-, w, hw, rfl⟩ | ⟨hno, -⟩
        · obtain ⟨-, rfl⟩ := huv.unique ⟨⟨hh, rfl⟩, returns_closure_opening.2 hw⟩
          exact ⟨rfl, rfl⟩
        · rw [hh] at hno
          cases hno
      have hk' : Knows (enter s (baseEnv inp 0) ∅ []) (opening (reconciled p)) :=
        hk.congr rfl rfl hpv.1 hpv.2
      refine (covers_of_plain hk' (plain_baseEnv hx.first 0) rfl fun p hp hu => ?_).steps hx hstart
        ht.steps
      exact livePods_of_settled hx hs.afterHistory hstart (settled_baseEnv inp 0)
        (settled_of_interval hx.second hstart) hp hu
  | @defend k s a goals records hs ha ih =>
      obtain ⟨u, a', hu, ha', rfl⟩ := ht.enters
      obtain ⟨v, w, hvw, hclose⟩ := hu.passes
      obtain ⟨hv, hw, hwdone⟩ := hvw.during hx.second
      have hcov := ih hvw hv hw hwdone
      obtain rfl : a = a' := by
        rw [hx.within.remediation] at ha'
        exact Option.some.inj (ha.symm.trans ha')
      have henv : u.env = w.env := by rw [hclose.same]
      have hk : Knows (enter s (Afterlock.defend s.env a) goals records)
          (opening (defended u a)) := by
        rw [hclose.same]
        exact hcov.toKnows.congr rfl rfl rfl rfl
      refine (hcov.defend hx hs hw ha (hs.defend ha) hstart rfl ?_ hk (fun f hf => ?_) rfl).steps
        hx hstart ht.steps
      · rw [← henv]
        rfl
      · rw [hclose.same]
        exact hf
  | step hs hst ih =>
      have hcomplete := hdone.complete hx.second hx.apart hend
      exact (ih ht hstart hend hdone).step hx hs hend hcomplete hst

end

/-- Of two cases about one cluster the one with more facts, credentials and bindings, or seen in the
conservative view, lets the attacker keep at least as many capabilities. -/
theorem goals_within {raw raw' : Json} {inp inp' : AnalysisInput} {view view' : View}
    (h : parseAnalysisInput raw = .ok inp) (h' : parseAnalysisInput raw' = .ok inp')
    (hx : inp.Within inp') (hv : view.Within view') (hid : IdsApart inp')
    (hb : (runView inp view .full).boundsExceeded = false)
    (hb' : (runView inp' view' .full).boundsExceeded = false) {f : Fact}
    (hf : (runView inp view .full).goalsFinal.contains f = true) :
    (runView inp' view' .full).goalsFinal.contains f = true := by
  have hcompared : Compared inp inp' view view' :=
    ⟨hx, hv, wellFormed_of_parse h, wellFormed_of_parse h', hid⟩
  obtain ⟨s, hs⟩ := runView_completed.1 hb
  obtain ⟨t, ht⟩ := runView_completed.1 hb'
  rw [runView_of_after hs] at hf
  rw [runView_of_after ht]
  rw [hx.remediation] at ht
  obtain ⟨u, hu, -, hclose⟩ := hs.during hcompared.first
  obtain ⟨v, w, hvw, hclose'⟩ := ht.passes
  have hcov := hu.covers hcompared hb' hvw
  rw [hclose.same] at hf
  rw [hclose'.same]
  exact hcov.goals f hf

/-- The second case says more than the first, its identifiers are apart, both runs are complete, and
in the first the attacker can read the Secret. -/
def Sample.surpasses (inp inp' : AnalysisInput) : Bool :=
  decide (inp'.analysisTime = inp.analysisTime) && decide (inp'.historyStart = inp.historyStart) &&
    decide (inp'.profile = inp.profile) && decide (inp'.remediation = inp.remediation) &&
    decide (inp'.inventory = inp.inventory) && inp.initialFacts.all inp'.initialFacts.contains &&
    inp.credentials.all inp'.credentials.contains && idsApartCheck inp' &&
    !(runView inp .evidenceSupported .full).boundsExceeded &&
    !(runView inp' .conservativePossible .full).boundsExceeded &&
    (runView inp .evidenceSupported .full).goalsFinal.contains (.canReadSecret "n" "x")

lemma Sample.within_of_surpasses {inp inp' : AnalysisInput} (h : Sample.surpasses inp inp' = true) :
    inp.Within inp' ∧ IdsApart inp' := by
  simp only [Sample.surpasses, Bool.and_eq_true, decide_eq_true_eq, List.all_eq_true,
    List.contains_iff_mem] at h
  obtain ⟨⟨⟨⟨⟨⟨⟨⟨⟨⟨htime, hstart⟩, hprofile⟩, hremediation⟩, hinventory⟩, hfacts⟩, hcreds⟩, hid⟩,
    -⟩, -⟩, -⟩ := h
  refine ⟨⟨htime, hstart, hprofile, hremediation, ?_, ?_, hfacts, hcreds⟩, idsApart_of_check hid⟩
  · rw [hinventory]
  · rw [hinventory]
    exact List.Subset.refl _

/-- A case in which the attacker controls a Pod, and one in which it may also hold a token. -/
theorem served_within : ∃ inp inp',
    parseAnalysisInput (Sample.serving [] [Sample.fact "controls_pod" ["p"] "observed"]) =
        .ok inp ∧
      parseAnalysisInput (Sample.serving [Sample.credential "c" "n" "reader" []]
        [Sample.fact "controls_pod" ["p"] "observed",
          Sample.fact "possesses_credential" ["c"] "assumed"]) = .ok inp' ∧
      (runView inp' .conservativePossible .full).goalsFinal.contains
        (.canReadSecret "n" "x") = true := by
  obtain ⟨inp', hinp', hp⟩ := Sample.accepted
    (Sample.serving [Sample.credential "c" "n" "reader" []]
      [Sample.fact "controls_pod" ["p"] "observed",
        Sample.fact "possesses_credential" ["c"] "assumed"])
    (p := fun inp' => (parseAnalysisInput (Sample.serving []
      [Sample.fact "controls_pod" ["p"] "observed"])).toOption.any fun inp =>
        Sample.surpasses inp inp') (by decide +kernel)
  obtain ⟨inp, hinp, hp⟩ := Sample.accepted _ hp
  obtain ⟨hx, hid⟩ := Sample.within_of_surpasses hp
  simp only [Sample.surpasses, Bool.and_eq_true, Bool.not_eq_true'] at hp
  obtain ⟨⟨⟨-, hb⟩, hb'⟩, hf⟩ := hp
  exact ⟨inp, inp', hinp, hinp', goals_within hinp hinp' hx (.inr rfl) hid hb hb' hf⟩

end Afterlock
