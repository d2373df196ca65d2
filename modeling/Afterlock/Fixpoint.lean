import Afterlock.Containment
import Afterlock.Identifiers
import Afterlock.Provenance

/-!
# What a closure computes

Where identifiers identify, the closure of a phase is a fixpoint of the rules: in its last state no
rule has anything to add, except a workload that is live or that admission does not allow, and every
controlled Pod has given its tokens (`Complete`).  It is sound as well: whatever the closure has
derived has premises that are held and conditions that are true in the last state (`Justified`), since
a condition that was true stays true while the attacker goes on (`Step.holds`).
-/

namespace Afterlock

open Prog Engine

/-! ### The meaning of conditions -/

/-- The condition is true of the attacker's credentials and the environment. -/
def Condition.Holds (ctx : Ctx) (s : ViewState) : Condition → Prop
  | .credentialUsable id time _ => ∃ cred ∈ s.creds, cred.id = id ∧ time ≤ s.env.time ∧
      (Afterlock.credentialUsable s.env cred ctx.inp.profile (some time)).usable = true
  | .authorized user verb resource ns name via => via ≠ [] ∧
      via = authorizingBindings s.env user verb resource ns name
  | .admissionAllows creator ns sa policies =>
      (admissionDecision s.env creator ns sa).outcome = .allow ∧
        policies = (admissionDecision s.env creator ns sa).policies
  | .serviceAccountExists ns name uid =>
      ∃ a ∈ s.env.serviceAccounts, a.key = (ns, name) ∧ ∀ u, uid = some u → a.uid = u
  | .podExists pod => ∃ p ∈ s.env.pods, p.uid = pod
  | .podOwnedByController pod c => ∃ p ∈ s.env.pods, p.uid = pod ∧ p.controllerUid = some c
  | .secretVersion ns name version =>
      ∃ sec ∈ s.env.secrets, sec.ns = ns ∧ sec.name = name ∧ sec.version = version
  | .serviceSources service ns secret =>
      ∃ svc ∈ s.env.services, svc.name = service ∧ svc.sourceNs = ns ∧ svc.sourceSecret = secret
  | .serviceAccepts service version time _ => ∃ svc ∈ s.env.services, svc.name = service ∧
      svc.accepts version s.env.time = true ∧ ∀ t, time = some t → t = s.env.time

variable {inp : AnalysisInput} {view : View} {ctx : Ctx} {i : ℤ} {s t : ViewState}

/-- A condition on the environment stays true while it grows and no credential is lost. -/
lemma Condition.Holds.mono {c : Condition} (h : c.Holds ctx s) (hg : s.env.Grows t.env)
    (hcreds : ∀ cred ∈ s.creds, ∀ time ≤ s.env.time,
      (Afterlock.credentialUsable s.env cred ctx.inp.profile (some time)).usable = true →
        ∃ cred' ∈ t.creds, cred'.id = cred.id ∧
          (Afterlock.credentialUsable t.env cred' ctx.inp.profile (some time)).usable = true) :
    c.Holds ctx t := by
  cases c with
  | credentialUsable id time detail =>
      -- a credential may have been replaced by one that can be used as well
      obtain ⟨cred, hcred, rfl, htime, hu⟩ := h
      obtain ⟨cred', hcred', hid, hu'⟩ := hcreds cred hcred time htime hu
      exact ⟨cred', hcred', hid, hg.time ▸ htime, hu'⟩
  | authorized user verb resource ns name via =>
      show via ≠ [] ∧ via = authorizingBindings t.env user verb resource ns name
      rw [hg.authorizingBindings]
      exact h
  | admissionAllows creator ns sa policies =>
      show (admissionDecision t.env creator ns sa).outcome = .allow ∧
        policies = (admissionDecision t.env creator ns sa).policies
      rw [hg.admissionDecision]
      exact h
  | serviceAccountExists ns name uid =>
      obtain ⟨a, ha, hrest⟩ := h
      exact ⟨a, hg.serviceAccounts ▸ ha, hrest⟩
  | podExists pod =>
      obtain ⟨p, hp, hrest⟩ := h
      exact ⟨p, hg.pods p hp, hrest⟩
  | podOwnedByController pod c =>
      obtain ⟨p, hp, hrest⟩ := h
      exact ⟨p, hg.pods p hp, hrest⟩
  | secretVersion ns name version =>
      obtain ⟨sec, hsec, hrest⟩ := h
      exact ⟨sec, hg.secrets ▸ hsec, hrest⟩
  | serviceSources service ns secret =>
      obtain ⟨svc, hsvc, hrest⟩ := h
      exact ⟨svc, hg.services ▸ hsvc, hrest⟩
  | serviceAccepts service version time detail =>
      -- the time does not change in an interval
      obtain ⟨svc, hsvc, hname, ha, htime⟩ := h
      refine ⟨svc, hg.services ▸ hsvc, hname, ?_, fun u hu => ?_⟩
      · rw [hg.time]
        exact ha
      · rw [hg.time]
        exact htime u hu

/-- A token that lasts longer is usable where the one before it was. -/
lemma credentialUsable_projectedToken {env : Env} {profile : Profile} {pod : Pod}
    {sa : ServiceAccount} {aud : String} {e e' time : ℤ} (hle : e ≤ e')
    (h : (credentialUsable env (projectedToken pod sa aud e) profile (some time)).usable = true) :
    (credentialUsable env (projectedToken pod sa aud e') profile (some time)).usable = true := by
  rw [credentialUsable_usable_iff] at h ⊢
  obtain ⟨k, hk⟩ := h
  refine ⟨k, hk.kind, hk.username, fun x hx => ?_, hk.audience, hk.account, hk.boundPod⟩
  obtain rfl := Option.some.inj hx
  have := hk.unexpired e rfl
  omega

/-- Conditions stay true while the attacker goes on: a token is only replaced by the same token with a
later expiry. -/
theorem Engine.Step.holds (hw : WellFormed inp) (hid : IdsApart inp) {φ : Phase}
    (hs : During inp view φ s) (h : Step (phaseCtx inp view φ) φ.index s t) {c : Condition}
    (hc : c.Holds (phaseCtx inp view φ) s) : c.Holds (phaseCtx inp view φ) t := by
  refine hc.mono h.grows fun cred hcred time htime hu => ?_
  have hgrow : ∀ {c}, (credentialUsable s.env c inp.profile (some time)).usable = true →
      (credentialUsable t.env c inp.profile (some time)).usable = true := h.grows.usable
  rw [phaseCtx_inp] at hu ⊢
  rcases h.token_cases with ht | ⟨pod, sa, aud, hy, hnew, ht⟩
  · exact ⟨cred, ht ▸ hcred, rfl, hgrow hu⟩
  rw [ht]
  by_cases he : cred.id = projectedId pod.uid aud
  · obtain ⟨e, rfl⟩ := stored_token hw hid hs hy hcred he
    refine ⟨_, Table.mem_put_self, rfl, hgrow (credentialUsable_projectedToken ?_ hu)⟩
    by_contra hlt
    rw [holdsUntil_projectedToken hcred, decide_eq_false_iff_not] at hnew
    omega
  · exact ⟨cred, Table.mem_put.2 (.inr ⟨hcred, he⟩), rfl, hgrow hu⟩

/-! ### What a derivation needs -/

/-- The premises of the derivation are held and its conditions are true. -/
structure Justified (ctx : Ctx) (t : ViewState) (d : Derivation) : Prop where
  premises : ∀ g ∈ d.premises, t.Has g
  conditions : ∀ c ∈ d.conditions, c.Holds ctx t

/-- A credential that can be used now is used no later than now. -/
lemma useTime_le {env : Env} {cred : CredentialSpec} (h : canUse ctx env cred = true) :
    useTime ctx env cred ≤ env.time := by
  obtain ⟨k, hk⟩ := credentialUsable_usable_iff.1 h
  have hlt := hk.unexpired
  simp only [Option.getD_some] at hlt
  unfold useTime at hlt ⊢
  split
  next e hh he =>
    simp only [hh, he] at hlt
    have hlt := hlt e rfl
    split_ifs at hlt ⊢ with hc
    · exact le_rfl
    · omega
  · exact le_rfl

lemma Engine.Uses.holds {cred : CredentialSpec} (h : Uses ctx s cred) :
    (useCondition ctx s.env cred).Holds ctx s :=
  ⟨cred, h.mem, rfl, useTime_le h.usable, h.usable⟩

lemma holds_acceptsCondition {svc : DownstreamService} {version : ℤ} (hs : svc ∈ s.env.services)
    (ha : svc.accepts version s.env.time = true) :
    (acceptsCondition svc version s.env.time).Holds ctx s := by
  unfold acceptsCondition
  split_ifs
  · exact ⟨svc, hs, rfl, ha, fun t ht => by cases ht⟩
  · exact ⟨svc, hs, rfl, ha, fun t ht => (Option.some.inj ht).symm⟩

lemma readGrant_eq_some {env : Env} {user : String} {sec : Secret} {grant : String × List String}
    (h : readGrant env user sec = some grant) : grant.2 ≠ [] ∧
      grant.2 = authorizingBindings env user grant.1 "secrets" sec.ns (some sec.name) := by
  obtain ⟨verb, -, hv⟩ := List.exists_of_findSome?_eq_some h
  simp only at hv
  split_ifs at hv with hnil
  obtain rfl := Option.some.inj hv
  exact ⟨hnil, rfl⟩

/-- What the rules derive is justified. -/
lemma Engine.Infers.justified {d : Derivation} (hown : Owned s) (hcare : Cared s)
    (h : Infers ctx i s d) : Justified ctx s d := by
  refine ⟨(h.supported hown hcare).premises, ?_⟩
  cases h with
  | ownedPod hc hp ho =>
      exact List.forall_mem_singleton.2 ⟨_, hp, rfl, ho⟩
  | execPod hu hp hv =>
      exact List.forall_mem_cons.2 ⟨hu.holds, List.forall_mem_singleton.2 ⟨hv, rfl⟩⟩
  | knowSecret hu hs hg =>
      exact List.forall_mem_cons.2 ⟨hu.holds, List.forall_mem_cons.2 ⟨readGrant_eq_some hg,
        List.forall_mem_singleton.2 ⟨_, hs, rfl, rfl, rfl⟩⟩⟩
  | readSecret hu hs hg =>
      exact List.forall_mem_cons.2 ⟨hu.holds, List.forall_mem_cons.2 ⟨readGrant_eq_some hg,
        List.forall_mem_singleton.2 ⟨_, hs, rfl, rfl, rfl⟩⟩⟩
  | downstreamCredential hk hs hsrc =>
      exact List.forall_mem_singleton.2 ⟨_, hs, rfl, hsrc⟩
  | downstreamUse hk hs hn hv ha =>
      exact List.forall_mem_singleton.2 (holds_acceptsCondition hs ha)

lemma justified_token {pod : Pod} {sa : ServiceAccount} {aud : String} {e : ℤ}
    (h : Yields ctx s pod sa aud) : Justified ctx s (tokenDerivation i pod sa aud e) where
  premises := List.forall_mem_singleton.2 h.controlled
  conditions := List.forall_mem_cons.2 ⟨⟨pod, h.live, rfl⟩,
    List.forall_mem_singleton.2 ⟨sa, h.account, rfl, fun _ hu => Option.some.inj hu⟩⟩

/-- What is checked in a creation is true. -/
lemma holds_creationChecks {cred : CredentialSpec} {ns sa : String} {kind : WorkloadKind}
    (h : MayCreate ctx s cred ns sa kind)
    (hadm : (admissionDecision s.env cred.username ns sa).outcome = .allow) :
    ∀ c ∈ creationChecks ctx s cred ns sa kind, c.Holds ctx s := by
  obtain ⟨a, ha, hk⟩ := h.account
  exact List.forall_mem_cons.2 ⟨h.uses.holds, List.forall_mem_cons.2 ⟨⟨h.authorized, rfl⟩,
    List.forall_mem_cons.2 ⟨⟨hadm, rfl⟩,
      List.forall_mem_singleton.2 ⟨a, ha, hk, fun _ hu => by cases hu⟩⟩⟩⟩

/-! ### Soundness -/

/-- What is recorded was recorded before, or is the derivation learnt. -/
lemma ViewState.records_learn {d e : Derivation}
    (h : d ∈ (s.learn e).facts ∨ d ∈ (s.learn e).eph) : (d ∈ s.facts ∨ d ∈ s.eph) ∨ d = e := by
  unfold ViewState.learn ViewState.record at h
  split_ifs at h with hr hp
  · exact .inl h
  · rcases h with h | h
    · exact (Table.mem_put.1 h).elim .inr fun h => .inl (.inl h.1)
    · exact .inl (.inr h)
  · rcases h with h | h
    · exact .inl (.inl h)
    · exact (Table.mem_put.1 h).elim .inr fun h => .inl (.inr h.1)

/-- Whatever a step records is justified. -/
lemma Engine.Step.adds {d : Derivation} (hown : Owned s) (hcare : Cared s) (h : Step ctx i s t)
    (hd : d ∈ t.facts ∨ d ∈ t.eph) : (d ∈ s.facts ∨ d ∈ s.eph) ∨ Justified ctx s d := by
  cases h with
  | @infer e he hnew =>
      have hlearn : s.record e = s.learn e := by simp [ViewState.learn, hnew]
      rw [hlearn] at hd
      refine (ViewState.records_learn hd).imp_right ?_
      rintro rfl
      exact he.justified hown hcare
  | token hc hp ha hk haud hnew =>
      rcases hd with hd | hd
      · refine (Table.mem_put.1 hd).symm.imp (fun h => .inl h.1) ?_
        rintro rfl
        exact justified_token ⟨hc, hp, ha, hk, haud⟩
      · exact .inl (.inr hd)
  | createPod hm hadm hfree =>
      refine (ViewState.records_learn hd).imp_right ?_
      rintro rfl
      exact ⟨List.forall_mem_singleton.2 hm.uses.has, holds_creationChecks hm hadm⟩
  | createController hm hadm hfree =>
      refine (ViewState.records_learn hd).imp_right ?_
      rintro rfl
      exact ⟨List.forall_mem_singleton.2 hm.uses.has, holds_creationChecks hm hadm⟩
  | unsupportedCredential =>
      rw [ViewState.note_facts, ViewState.note_eph] at hd
      exact .inl hd
  | unsupportedAdmission =>
      rw [ViewState.note_facts, ViewState.note_eph] at hd
      exact .inl hd

/-- What is justified stays justified while the attacker goes on. -/
lemma Justified.step (hw : WellFormed inp) (hid : IdsApart inp) {φ : Phase}
    (hs : During inp view φ s) (h : Step (phaseCtx inp view φ) φ.index s t) {d : Derivation}
    (hd : Justified (phaseCtx inp view φ) s d) : Justified (phaseCtx inp view φ) t d where
  premises g hg := h.has (hd.premises g hg)
  conditions c hc := h.holds hw hid hs (hd.conditions c hc)

/-- Whatever the steps of a phase record is justified at their end. -/
theorem Engine.Steps.justified (hw : WellFormed inp) (hid : IdsApart inp) {φ : Phase}
    (hs : During inp view φ s) (h : Steps (phaseCtx inp view φ) φ.index s t) {d : Derivation}
    (hd : d ∈ t.facts ∨ d ∈ t.eph) :
    (d ∈ s.facts ∨ d ∈ s.eph) ∨ Justified (phaseCtx inp view φ) t d := by
  induction h with
  | refl => exact .inl hd
  | tail hst hlast ih =>
      have hu := hs.steps hst
      rcases hlast.adds (hu.owned hw) (hu.cared hw) hd with hd | hd
      · exact (ih hd).imp_right fun hj => hj.step hw hid hu hlast
      · exact .inr (hd.step hw hid hu hlast)

/-! ### Completeness -/

/-- Every credential that is stored is possessed. -/
lemma Engine.During.possesses {φ : Phase} (h : During inp view φ s) {cred : CredentialSpec}
    (hc : cred ∈ s.creds) : s.Has (.possesses cred.id) := by
  have hinit : ∀ {c}, c ∈ initialCreds (viewCtx inp view) →
      (initialState (viewCtx inp view)).Has (.possesses c.id) := by
    intro c hc
    obtain ⟨f, hf, hclaim⟩ := List.mem_filterMap.1 (Table.mem_of_mem_ofList hc)
    split at hclaim
    next id hid =>
      have hfind := List.find?_some hclaim
      refine has_initialState.2 ⟨f, hf, ?_⟩
      rw [hid]
      simpa [initialFactOf] using (eq_of_beq hfind).symm
    · cases hclaim
  induction h with
  | history => exact has_enterHistory.2 (.inl (hinit hc))
  | first => exact hinit hc
  | afterHistory _ ih => exact ih hc
  | defend _ _ ih => exact ih hc
  | @step φ s t _ hst ih =>
      cases hst with
      | infer => exact ViewState.has_record.2 (.inl (ih (ViewState.record_creds ▸ hc)))
      | @token pod sa aud hcp hp ha hk haud hnew =>
          rcases Table.mem_put.1 hc with rfl | ⟨hc, hne⟩
          · exact ⟨_, Table.mem_put_self, rfl⟩
          · exact has_withToken (ih hc)
      | createPod =>
          rw [ViewState.learn_creds] at hc
          exact ViewState.has_learn_of_has (ih hc)
      | createController =>
          rw [ViewState.learn_creds] at hc
          exact ViewState.has_learn_of_has (ih hc)
      | unsupportedCredential => exact ViewState.has_note.2 (ih (ViewState.note_creds ▸ hc))
      | unsupportedAdmission => exact ViewState.has_note.2 (ih (ViewState.note_creds ▸ hc))

/-- A workload that has the UID which one created now as the service account gets is live. -/
lemma liveWorkload_of_uidTaken (hw : WellFormed inp) (hid : IdsApart inp) {φ : Phase}
    (hs : During inp view φ s) {ns sa : String} {kind : WorkloadKind} (ha : IsAccount inp ns sa)
    (h : uidTaken φ.index s ns sa kind) : LiveWorkload s ns sa kind := by
  cases kind with
  | pod =>
      obtain ⟨p, hp, hu⟩ := Table.contains_iff.1 h
      have hpre : Text.hasPrefix modelPodPrefix p.uid = true := by
        rw [hu]
        exact hasPrefix_modelPodUid ns sa _
      refine ⟨p, hp, hpre, (hs.owned hw).pods p hp hpre, ?_⟩
      rcases hs.pod_cases hw hp with ⟨-, hn⟩ | ⟨hm, hap⟩
      · rw [isModelUid_of_hasPrefix (.inl hpre)] at hn
        cases hn
      cases hm with
      | created =>
          -- the UID tells the account, since identifiers are apart
          obtain ⟨rfl, rfl, -⟩ := hid.account_eq hap ha hu
          exact ⟨rfl, rfl⟩
      | owned =>
          rw [hasPrefix_ownedPod] at hpre
          cases hpre
  | controller =>
      obtain ⟨c, hc, hu⟩ := Table.contains_iff.1 h
      have hpre : Text.hasPrefix modelDeployPrefix c.uid = true := by
        rw [hu]
        exact hasPrefix_modelControllerUid ns sa _
      refine ⟨c, hc, hpre, (hs.owned hw).controllers c hc hpre, ?_⟩
      rcases hs.controller_cases hw hc with ⟨-, hn⟩ | ⟨⟨ns', sa', j, -, rfl⟩, hac⟩
      · rw [isModelUid_of_hasPrefix (.inr hpre)] at hn
        cases hn
      · obtain ⟨rfl, rfl, -⟩ := hid.account_eq hac ha hu
        exact ⟨rfl, rfl⟩

/-- No rule has anything to add, unless a workload is live or admission does not allow one, and
every controlled Pod has given its tokens. -/
structure Complete (ctx : Ctx) (i : ℤ) (t : ViewState) : Prop where
  rules : ∀ d, Infers ctx i t d → t.recorded d.fact = true
  creation : ∀ cred ns sa kind, Uses ctx t cred →
    (∃ a ∈ t.env.serviceAccounts, a.key = (ns, sa)) →
    authorizingBindings t.env cred.username "create" kind.resource ns none ≠ [] →
      LiveWorkload t ns sa kind ∨
        (admissionDecision t.env cred.username ns sa).outcome = .deny ∨
        (admissionDecision t.env cred.username ns sa).outcome = .unsupported
  tokens : ∀ pod sa aud, Yields ctx t pod sa aud →
    t.Has (.possesses (projectedId pod.uid aud)) ∧
      ∃ e, projectedToken pod sa aud e ∈ t.creds ∧
        t.env.time + ctx.inp.profile.projectedTokenTtlSeconds ≤ e

/-- The last state of a phase in which all rules have been applied is complete. -/
lemma Engine.Done.complete (hw : WellFormed inp) (hid : IdsApart inp) {φ : Phase}
    (ht : During inp view φ t) (h : Done (phaseCtx inp view φ) φ.index t) :
    Complete (phaseCtx inp view φ) φ.index t where
  rules _ hd := h.recorded_of_infers hd
  creation cred ns sa kind hu hacc hauth := by
    obtain ⟨a, ha, hk⟩ := hacc
    by_cases hl : controlsLive t ns sa kind = true
    · exact .inl (controlsLive_iff.1 hl)
    rcases (h.requests hu).workload ⟨hu, ⟨a, ha, hk⟩, hauth, by simpa using hl⟩ with hl' | hdone
    · exact .inl (controlsLive_iff.1 hl')
    cases hadm : (admissionDecision t.env cred.username ns sa).outcome with
    | deny => exact .inr (.inl rfl)
    | unsupported => exact .inr (.inr rfl)
    | allow =>
        -- the UID can only be taken by a workload of the service account, which is live
        simp only [hadm] at hdone
        exact .inl (liveWorkload_of_uidTaken hw hid ht ⟨a, ht.account hw ha, hk⟩ hdone)
  tokens pod sa aud hy := by
    have hheld := h.pods pod.uid hy.controlled pod hy.live rfl sa hy.account hy.runsAs aud hy.audience
    rw [holdsUntil, Option.any_eq_true] at hheld
    obtain ⟨cred, hget, he⟩ := hheld
    obtain ⟨hmem, hkey⟩ := Table.get?_eq_some_iff.1 hget
    obtain ⟨e, rfl⟩ := stored_token hw hid ht hy hmem hkey
    refine ⟨ht.possesses hmem, e, hmem, ?_⟩
    simpa [projectedToken, tokenExpiry] using he

/-- A closure is a fixpoint: it is complete, no step of the attacker is left, and whatever it has
added is justified at its end. -/
theorem closure_fixpoint {raw : Json} (hraw : parseAnalysisInput raw = .ok inp)
    (hid : IdsApart inp) {φ : Phase} (h : Passes inp view φ s t) :
    Complete (phaseCtx inp view φ) φ.index t ∧ Saturated (phaseCtx inp view φ) φ.index t ∧
      ∀ d, d ∈ t.facts ∨ d ∈ t.eph → d ∈ s.facts ∨ Justified (phaseCtx inp view φ) t d := by
  have hw := wellFormed_of_parse hraw
  obtain ⟨hs, ht, hdone⟩ := h.during hw
  refine ⟨hdone.complete hw hid ht, hdone.saturated, fun d hd => ?_⟩
  have hopen : s.eph = ∅ := by
    rw [← opening_of_enters h.enters]
    rfl
  rcases h.steps.justified hw hid hs hd with (hd | hd) | hd
  · exact .inl hd
  · rw [hopen] at hd
    exact absurd hd (by simp)
  · exact .inr hd

/-- A document in which the attacker may create Pods, and another service account reads a Secret. -/
def Sample.launching : Json :=
  Sample.document
    [("service_accounts", .arr [Sample.account "n" "maker", Sample.account "n" "reader"]),
      ("pods", .arr [Sample.pod "n" "p" "maker" []]),
      ("roles", .arr [Sample.role "n" "make" ["create"] "pods",
        Sample.role "n" "read" ["get"] "secrets"]),
      ("bindings", .arr [Sample.binding "n" "make" "maker", Sample.binding "n" "read" "reader"]),
      ("secrets", .arr [Sample.secret "n" "x"])]
    [("initial_facts", .arr [Sample.fact "controls_pod" ["p"] "observed"]),
      ("objectives", .arr [Sample.noSecretRead "o" "n" "x"])]

/-- The attacker creates a Pod as the other service account and reads the Secret with its token, and
then the closure is a fixpoint. -/
theorem launching_fixpoint :
    ∃ inp, parseAnalysisInput Sample.launching = .ok inp ∧ ∀ view, ∃ s t : ViewState,
      Passes inp view (.interval 0) s t ∧
      t.Has (.controlsPod (modelPodUid "n" "reader" 0)) ∧ t.Has (.knowsSecret "n" "x" "1") ∧
      Complete (phaseCtx inp view (.interval 0)) (Phase.interval 0).index t ∧
      Saturated (phaseCtx inp view (.interval 0)) (Phase.interval 0).index t ∧
      ∀ d, d ∈ t.facts ∨ d ∈ t.eph →
        d ∈ s.facts ∨ Justified (phaseCtx inp view (.interval 0)) t d := by
  have hreads : ∀ view, ∃ inp, parseAnalysisInput Sample.launching = .ok inp ∧
      (idsApartCheck inp && inp.remediation.isEmpty && !(runView inp view .full).boundsExceeded &&
        (runView inp view .full).derivations.contains (.controlsPod (modelPodUid "n" "reader" 0)) &&
        (runView inp view .full).derivations.contains (.knowsSecret "n" "x" "1")) = true := by
    intro view
    cases view with
    | evidenceSupported => exact Sample.accepted Sample.launching (by decide +kernel)
    | conservativePossible => exact Sample.accepted Sample.launching (by decide +kernel)
  obtain ⟨inp, hinp, -⟩ := hreads .evidenceSupported
  refine ⟨inp, hinp, fun view => ?_⟩
  obtain ⟨inp', hinp', hp⟩ := hreads view
  obtain rfl := Except.ok.inj (hinp.symm.trans hinp')
  simp only [Bool.and_eq_true, Bool.not_eq_true', List.isEmpty_iff] at hp
  obtain ⟨⟨⟨⟨hid, hnil⟩, hb⟩, hpod⟩, hsecret⟩ := hp
  obtain ⟨f, hf⟩ := runView_completed.1 hb
  rw [runView_of_after hf] at hpod hsecret
  rw [hnil] at hf
  obtain ⟨s, t, hpass, hclose⟩ := hf.passes
  rw [hclose.same] at hpod hsecret
  exact ⟨s, t, hpass, Table.contains_iff.1 hpod, Table.contains_iff.1 hsecret,
    closure_fixpoint hinp (idsApart_of_check hid) hpass⟩

end Afterlock
