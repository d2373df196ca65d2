import Afterlock.Identifiers
import Afterlock.Verdict

/-!
# What containment rests on

Containment is concluded when nothing is missing and no objective's goal is final.  What would have
to be noted as unknown is noted in the closure in which it is met, unless a token is stored in the
place of the credential that it is about before the closure gets to it.
-/

namespace Afterlock

open Prog Engine Results Sample

namespace Engine

variable {inp : AnalysisInput} {view : View}

/-- A closure has to note something about the credential: it is unsupported, or it is authorized
to create a workload where admission is unsupported and no workload is live. -/
def Notable (ctx : Ctx) (s : ViewState) (cred : CredentialSpec) : Prop :=
  supports cred = false ∨ ∃ ns sa kind, MayCreate ctx s cred ns sa kind ∧
    (admissionDecision s.env cred.username ns sa).outcome = .unsupported

/-- The attacker controls a workload that it has created as the service account, and that is still
there. -/
abbrev LiveWorkload (s : ViewState) (ns sa : String) (kind : WorkloadKind) : Prop :=
  match kind with
  | .pod => ∃ p ∈ s.env.pods, Text.hasPrefix modelPodPrefix p.uid = true ∧
      s.Has (.controlsPod p.uid) ∧ p.ns = ns ∧ p.serviceAccount = sa
  | .controller => ∃ c ∈ s.env.controllers, Text.hasPrefix modelDeployPrefix c.uid = true ∧
      s.Has (.controlsController c.uid) ∧ c.ns = ns ∧ c.serviceAccount = sa

lemma controlsLive_iff {s : ViewState} {ns sa : String} {kind : WorkloadKind} :
    controlsLive s ns sa kind = true ↔ LiveWorkload s ns sa kind := by
  simp only [controlsLive, List.any_eq_true]
  cases kind with
  | pod =>
      constructor
      · rintro ⟨d, hd, h⟩
        split at h
        next uid hf hk =>
          simp only [Bool.and_eq_true, Option.any_eq_true, beq_iff_eq] at h
          obtain ⟨hu, p, hp, hns, hsa⟩ := h
          obtain ⟨hmem, rfl⟩ := Table.get?_eq_some_iff.1 hp
          exact ⟨p, hmem, hu, ⟨d, hd, hf⟩, hns, hsa⟩
        next hk => cases hk
        · cases h
      · rintro ⟨p, hp, hu, ⟨d, hd, hf⟩, hns, hsa⟩
        refine ⟨d, hd, ?_⟩
        simp [hf, hu, Table.get?_key hp, hns, hsa]
  | controller =>
      constructor
      · rintro ⟨d, hd, h⟩
        split at h
        next hk => cases hk
        next uid hf hk =>
          simp only [Bool.and_eq_true, Option.any_eq_true, beq_iff_eq] at h
          obtain ⟨hu, c, hc, hns, hsa⟩ := h
          obtain ⟨hmem, rfl⟩ := Table.get?_eq_some_iff.1 hc
          exact ⟨c, hmem, hu, ⟨d, hd, hf⟩, hns, hsa⟩
        · cases h
      · rintro ⟨c, hc, hu, ⟨d, hd, hf⟩, hns, hsa⟩
        refine ⟨d, hd, ?_⟩
        simp [hf, hu, Table.get?_key hc, hns, hsa]

/-- Where admission is unsupported no workload becomes live in a step. -/
lemma Step.not_live {ctx : Ctx} {i : ℤ} {s t : ViewState} {B : Env} (hB : Over i B s.env)
    (ho : Owned s) (h : Step ctx i s t) {creator ns sa : String} {kind : WorkloadKind}
    (hadm : (admissionDecision s.env creator ns sa).outcome = .unsupported)
    (hl : controlsLive s ns sa kind = false) : controlsLive t ns sa kind = false := by
  have hallow : ∀ {user sa'}, (admissionDecision s.env user ns sa').outcome ≠ .allow := by
    intro user sa' ha
    rw [admissionDecision_unsupported_iff.2 (admissionDecision_unsupported_iff.1 hadm)] at ha
    cases ha
  rw [← Bool.not_eq_true] at hl ⊢
  refine fun hl' => hl (controlsLive_iff.2 ?_)
  have hl' := controlsLive_iff.1 hl'
  cases kind with
  | pod =>
      obtain ⟨p, hp, hu, -, hns, hsa⟩ := hl'
      rcases h.modelPod_cases hB hp hu with hp | ⟨cred, ns', sa', -, ha, rfl, -⟩
      · exact ⟨p, hp, hu, ho.pods p hp hu, hns, hsa⟩
      · obtain rfl : ns' = ns := hns
        exact absurd ha hallow
  | controller =>
      obtain ⟨c, hc, hu, -, hns, hsa⟩ := hl'
      rcases h.controller_cases hc with hc | ⟨cred, ns', sa', -, ha, rfl, -⟩
      · exact ⟨c, hc, hu, ho.controllers c hc hu, hns, hsa⟩
      · obtain rfl : ns' = ns := hns
        exact absurd ha hallow

/-- What is notable about a credential stays notable while the credential is held. -/
lemma Notable.step {ctx : Ctx} {i : ℤ} {s t : ViewState} {B : Env} {cred : CredentialSpec}
    (h : Notable ctx s cred) (hB : Over i B s.env) (ho : Owned s) (hst : Step ctx i s t)
    (hmem : cred ∈ t.creds) : Notable ctx t cred := by
  refine h.imp id ?_
  rintro ⟨ns, sa, kind, hm, hadm⟩
  have hgrow := hst.grows
  refine ⟨ns, sa, kind, ⟨⟨hst.has hm.uses.has, hmem, canUse_of_grows hgrow hm.uses.usable⟩, ?_, ?_,
    hst.not_live hB ho hadm hm.notLive⟩, ?_⟩
  · rw [hgrow.serviceAccounts]
    exact hm.account
  · rw [hgrow.authorizingBindings]
    exact hm.authorized
  · rw [hgrow.admissionDecision]
    exact hadm

/-- At the end of a closure everything notable about the credentials held is noted. -/
lemma Done.noted {ctx : Ctx} {i : ℤ} {s : ViewState} (h : Done ctx i s) {cred : CredentialSpec}
    (hmem : cred ∈ s.creds) (hhas : s.Has (.possesses cred.id)) (hn : Notable ctx s cred) :
    ∃ u, u ∈ s.unknowns := by
  have hdone := h.credentials _ hhas cred hmem rfl
  have hof : ∀ {k}, s.unknowns.contains k = true → ∃ u, u ∈ s.unknowns := fun hk =>
    let ⟨u, hu, _⟩ := Table.contains_iff.1 hk
    ⟨u, hu⟩
  rcases hn with hsup | ⟨ns, sa, kind, hm, hadm⟩
  · exact hof (hdone.1 hsup)
  · have hw := (hdone.2 hm.uses.usable).workload hm
    rcases hw with hl | hw
    · rw [hm.notLive] at hl
      cases hl
    · rw [hadm] at hw
      exact hof hw

/-- No step of the engine's run takes a credential away about which there is something to note. -/
def NotablesStay (inp : AnalysisInput) (view : View) : Prop :=
  ∀ φ s t, Along inp view φ s → Step (phaseCtx inp view φ) φ.index s t → Along inp view φ t →
    ∀ cred ∈ s.creds, s.Has (.possesses cred.id) → cred ∉ t.creds →
      ¬Notable (phaseCtx inp view φ) s cred

/-- Where everything that the document names is supported, there is nothing to note. -/
lemma notablesStay_of_supported (hw : WellFormed inp)
    (hcreds : ∀ c ∈ inp.credentials, supports c = true)
    (haccounts : ∀ a ∈ inp.inventory.serviceAccounts,
      (parseSaUsername (saUsername a.ns a.name)).isSome)
    (hadmission : ∀ p ∈ inp.inventory.admissionPolicies, p.supported = true) (view : View) :
    NotablesStay inp view := by
  rintro φ s - hs - - cred hmem - - (hsup | ⟨ns, sa, kind, -, hadm⟩)
  · have htrue : supports cred = true := by
      rcases (hs.during hw).creds_cases hmem with hseed | ⟨φ', s', pod, sa, aud, e, hs', hy, rfl⟩
      · obtain ⟨f, -, hc⟩ := List.mem_filterMap.1 (Table.mem_of_mem_ofList hseed)
        split at hc
        · exact hcreds cred (List.mem_of_find?_eq_some hc)
        · cases hc
      · exact Bool.and_eq_true_iff.2
          ⟨rfl, haccounts sa (Table.mem_of_mem_ofList (hs'.account hw hy.account))⟩
    rw [hsup] at htrue
    cases htrue
  · obtain ⟨p, hp, -, hsup⟩ := admissionDecision_unsupported_iff.1 hadm
    rw [(hs.during hw).admission hw] at hp
    rw [hadmission p hp] at hsup
    cases hsup

/-- If no step takes a notable credential away, what is notable in a phase is noted at its end. -/
lemma noted_of_notablesStay (hw : WellFormed inp) (hstay : NotablesStay inp view) {φ : Phase}
    {b u t : ViewState} (hpass : Passes inp view φ b t)
    (hbu : Steps (phaseCtx inp view φ) φ.index b u)
    (hut : Steps (phaseCtx inp view φ) φ.index u t) {cred : CredentialSpec}
    (hmem : cred ∈ u.creds) (hhas : u.Has (.possesses cred.id))
    (hn : Notable (phaseCtx inp view φ) u cred) : ∃ e, e ∈ t.unknowns := by
  induction hut using Relation.ReflTransGen.head_induction_on with
  | refl => exact ((hpass.during hw).2.2).noted hmem hhas hn
  | @head u v huv hvt ih =>
      have hbv := hbu.tail huv
      have hu : Along inp view φ u := ⟨b, t, hpass, hbu, hvt.head huv⟩
      have hv : Along inp view φ v := ⟨b, t, hpass, hbv, hvt⟩
      by_cases hmem' : cred ∈ v.creds
      · obtain ⟨B, -, hB⟩ := (hu.during hw).over hw
        exact ih hbv hmem' (huv.has hhas) (hn.step hB ((hu.during hw).owned hw) huv hmem')
      · exact absurd hn (hstay φ u v hu huv hv cred hmem hhas hmem')

end Engine

/-! ### Containment -/

/-- What containment is supposed to rest on. -/
structure ContainmentEarned (inp : AnalysisInput) : Prop where
  gaps : inp.coverageGaps = []
  complete : ∀ view, (runView inp view .full).boundsExceeded = false
  supported : ∀ view φ s, Along inp view φ s → ∀ cred ∈ s.creds, s.Has (.possesses cred.id) →
    (credentialUsable s.env cred inp.profile
      (some (useTime (phaseCtx inp view φ) s.env cred))).supported = true
  admission : ∀ view φ s, Along inp view φ s → ∀ cred ns sa kind,
    MayCreate (phaseCtx inp view φ) s cred ns sa kind →
      (admissionDecision s.env cred.username ns sa).outcome ≠ .unsupported
  goals : ∀ view s t, Passes inp view (.interval inp.remediation.length) s t →
    ∀ o ∈ inp.objectives, t.eph.contains (objectiveGoal o.target) = false

/-- An analysis that concludes containment is complete, notes nothing and leaves no goal. -/
lemma contained_iff {inp : AnalysisInput} (ho : inp.objectives ≠ []) :
    (analyze inp .full).conclusion = .containedWithinScope ↔
      inp.coverageGaps = [] ∧ ∀ view, (runView inp view .full).boundsExceeded = false ∧
        (runView inp view .full).unknowns = [] ∧
        ∀ o ∈ inp.objectives, inFinal (runView inp view .full) o = false := by
  rw [analyze, assemble_contained_iff ho, unknownReasons_eq_nil_iff]
  constructor
  · rintro ⟨⟨hg, ⟨hu, hu'⟩, hb, hb'⟩, h⟩
    refine ⟨hg, fun view => ?_⟩
    cases view with
    | evidenceSupported => exact ⟨hb, hu, fun o ho => (h o ho).1⟩
    | conservativePossible => exact ⟨hb', hu', fun o ho => (h o ho).2⟩
  · rintro ⟨hg, h⟩
    obtain ⟨hb, hu, ho⟩ := h .evidenceSupported
    obtain ⟨hb', hu', ho'⟩ := h .conservativePossible
    exact ⟨⟨hg, ⟨hu, hu'⟩, hb, hb'⟩, fun o hmem => ⟨ho o hmem, ho' o hmem⟩⟩

/-- Where nothing is noted at the end of a run, nothing is in any phase of it. -/
lemma no_unknowns_of_run {inp : AnalysisInput} {view : View} {f : ViewState}
    (hf : After inp view inp.remediation.length f) (hu : (runView inp view .full).unknowns = [])
    {φ : Phase} {s t : ViewState} (h : Passes inp view φ s t) : ¬∃ u, u ∈ t.unknowns := by
  rintro ⟨u, hmem⟩
  have hmem' := h.unknowns hf hmem
  rw [runView_of_after hf] at hu
  have hnil : Text.sortedBy UnknownEntry.key f.unknowns.rows = [] := List.map_eq_nil_iff.1 hu
  have : u ∈ Text.sortedBy UnknownEntry.key f.unknowns.rows := Text.mem_sortedBy.2 hmem'
  rw [hnil] at this
  cases this

/-- A concluded containment is earned exactly if no step of the runs takes a credential away about
which there is something to note. -/
theorem containmentEarned_iff {raw : Json} {inp : AnalysisInput}
    (h : parseAnalysisInput raw = .ok inp)
    (hc : (analyze inp .full).conclusion = .containedWithinScope) :
    ContainmentEarned inp ↔ ∀ view, NotablesStay inp view := by
  have hw := wellFormed_of_parse h
  obtain ⟨hgaps, hviews⟩ := (contained_iff hw.objectives).1 hc
  constructor
  · -- what is notable contradicts what was earned, so that there is nothing to stay
    intro he view φ s t hs _ _ cred hmem hhas _ hn
    rcases hn with hsup | ⟨ns, sa, kind, hm, hadm⟩
    · have := he.supported view φ s hs cred hmem hhas
      rw [credentialUsable_supported_eq, hsup] at this
      cases this
    · exact he.admission view φ s hs cred ns sa kind hm hadm
  · intro hstay
    -- what is notable stays until it is noted, and a contained run has noted nothing
    have hno : ∀ view φ s, Along inp view φ s → ∀ cred ∈ s.creds, s.Has (.possesses cred.id) →
        ¬Notable (phaseCtx inp view φ) s cred := by
      rintro view φ u ⟨s, t, hpass, hsu, hut⟩ cred hmem hhas hn
      obtain ⟨f, hf⟩ := runView_completed.1 (hviews view).1
      exact no_unknowns_of_run hf (hviews view).2.1 hpass
        (noted_of_notablesStay hw (hstay view) hpass hsu hut hmem hhas hn)
    refine ⟨hgaps, fun view => (hviews view).1, ?_, ?_, ?_⟩
    · intro view φ s hs cred hmem hhas
      rw [credentialUsable_supported_eq]
      by_contra hsup
      exact hno view φ s hs cred hmem hhas (Or.inl (by simpa using hsup))
    · intro view φ s hs cred ns sa kind hm hadm
      exact hno view φ s hs cred hm.uses.mem hm.uses.has (Or.inr ⟨ns, sa, kind, hm, hadm⟩)
    · intro view s t hpass o ho
      obtain ⟨t', ht', hclose⟩ := hpass.after
      have hfin := (hviews view).2.2 o ho
      rw [inFinal, runView_of_after ht', hclose.same] at hfin
      exact hfin

/-- No containment is earned where an unsupported credential is possessed from the beginning. -/
lemma not_containmentEarned_of_seed {inp : AnalysisInput} {cred : CredentialSpec}
    (hmem : cred ∈ initialCreds (viewCtx inp .evidenceSupported))
    (hhas : (initialFacts (viewCtx inp .evidenceSupported)).contains (.possesses cred.id) = true)
    (hsup : supports cred = false) : ¬ContainmentEarned inp := by
  intro he
  obtain ⟨s, t, hpass⟩ := (passes_of_complete (he.complete .evidenceSupported)).2 0 (Nat.zero_le _)
  obtain ⟨p, hp, rfl⟩ := hpass.enters
  rcases returns_possibleHistory hp with ⟨hh, -⟩ | ⟨-, rfl⟩
  · simp [hasHistory, viewCtx] at hh
  · have halong : Along inp .evidenceSupported (.interval 0)
        (opening (reconciled (initialState (viewCtx inp .evidenceSupported)))) :=
      ⟨_, t, hpass, .refl, hpass.steps⟩
    have := he.supported _ _ _ halong cred hmem (Table.contains_iff.1 hhas)
    rw [credentialUsable_supported_eq, hsup] at this
    cases this

/-- A document with an unsupported credential under the id that a token of a controlled Pod has. -/
def Sample.overwritten : Json :=
  document
    [("service_accounts", .arr [account "n" "other"]), ("pods", .arr [pod "n" "p" "other" []]),
      ("secrets", .arr [secret "n" "x"])]
    [("credentials", .arr [.obj [("id", .str "projected:p:api"), ("kind", .str "client_certificate"),
        ("username", .str "admin"), ("audience", .str "api")]]),
      ("initial_facts", .arr [fact "possesses_credential" ["projected:p:api"] "observed",
        fact "controls_pod" ["p"] "observed"]),
      ("objectives", .arr [noSecretRead "o" "n" "x"])]

/-- Whether an analysis concludes containment though an unsupported credential is possessed from
the beginning. -/
def Sample.unearned (inp : AnalysisInput) : Bool :=
  decide ((analyze inp .full).conclusion = .containedWithinScope) &&
    (initialCreds (viewCtx inp .evidenceSupported)).rows.any fun c => !supports c &&
      (initialFacts (viewCtx inp .evidenceSupported)).contains (.possesses c.id)

lemma Sample.unearned_spec {inp : AnalysisInput} (h : Sample.unearned inp = true) :
    (analyze inp .full).conclusion = .containedWithinScope ∧ ¬ContainmentEarned inp := by
  simp only [unearned, Bool.and_eq_true, decide_eq_true_eq, List.any_eq_true,
    Bool.not_eq_true'] at h
  obtain ⟨hc, cred, hmem, hsup, hhas⟩ := h
  exact ⟨hc, not_containmentEarned_of_seed hmem hhas hsup⟩

/-- The Pod's token takes the place of the unsupported credential before that is noted, and
containment is concluded. -/
theorem overwritten_not_earned :
    ∃ inp, parseAnalysisInput Sample.overwritten = .ok inp ∧
      (analyze inp .full).conclusion = .containedWithinScope ∧ ¬ContainmentEarned inp := by
  obtain ⟨inp, hinp, hp⟩ := Sample.accepted Sample.overwritten (p := Sample.unearned)
    (by decide +kernel)
  exact ⟨inp, hinp, Sample.unearned_spec hp⟩

/-- Where a Pod's token is renewed after a wait containment is earned; in the runs over the document
above a step takes the unsupported credential away. -/
theorem controlled_earned :
    (∃ inp, parseAnalysisInput (Sample.controlled "c") = .ok inp ∧
      (analyze inp .full).conclusion = .containedWithinScope ∧ ContainmentEarned inp) ∧
    ∃ inp, parseAnalysisInput Sample.overwritten = .ok inp ∧
      (analyze inp .full).conclusion = .containedWithinScope ∧ ¬∀ view, NotablesStay inp view := by
  constructor
  · obtain ⟨inp, hinp, hp⟩ := Sample.accepted (Sample.controlled "c")
      (p := fun inp => decide ((analyze inp .full).conclusion = .containedWithinScope) &&
        inp.credentials.all supports && inp.inventory.admissionPolicies.isEmpty &&
        inp.inventory.serviceAccounts.all fun a =>
          (parseSaUsername (saUsername a.ns a.name)).isSome)
      (by decide +kernel)
    simp only [Bool.and_eq_true, decide_eq_true_eq, List.all_eq_true, List.isEmpty_iff] at hp
    obtain ⟨⟨⟨hc, hcreds⟩, hpolicies⟩, haccounts⟩ := hp
    refine ⟨inp, hinp, hc, (containmentEarned_iff hinp hc).2 ?_⟩
    refine notablesStay_of_supported (wellFormed_of_parse hinp) hcreds haccounts fun p hp => ?_
    rw [hpolicies] at hp
    cases hp
  · obtain ⟨inp, hinp, hp⟩ := Sample.accepted Sample.overwritten (p := Sample.unearned)
      (by decide +kernel)
    obtain ⟨hc, hn⟩ := Sample.unearned_spec hp
    exact ⟨inp, hinp, hc, fun hstay => hn ((containmentEarned_iff hinp hc).2 hstay)⟩

end Afterlock
