import Afterlock.Permanence

/-!
# Identifiers

UIDs and credential ids are written in the document or made by joining texts: UIDs of the
attacker's workloads and of recreated Pods, and ids of projected tokens.  `IdsApart` is a condition
on the document under which what is written and what may be generated never coincide; under it a
credential id names one token of the run (`tokenIdsUnambiguous_of_idsApart`).
-/

namespace Afterlock

open Engine Sample

/-! ### What a document writes and what a run may generate -/

/-- The UIDs that a claim names. -/
def FactClaim.uids : FactClaim → List String
  | .controlsPod uid => [uid]
  | .controlsController uid => [uid]
  | .historicalPod uid _ _ => [uid]
  | _ => []

/-- The credential ids that a claim names. -/
def FactClaim.credentialIds : FactClaim → List String
  | .possessesCredential id => [id]
  | _ => []

namespace AnalysisInput

/-- The UIDs of Pods and controllers that are written in the document. -/
def writtenUids (inp : AnalysisInput) : List String :=
  inp.inventory.pods.map Pod.uid ++ inp.inventory.pods.filterMap Pod.controllerUid ++
    inp.inventory.controllers.map Controller.uid ++
    inp.credentials.filterMap CredentialSpec.boundPodUid ++
    inp.initialFacts.flatMap (fun f => f.claim.uids) ++
    inp.remediation.flatMap DefenderAction.uids ++
    inp.legitimateOperations.map LegitimateOperation.podUid

/-- The credential ids that are written in the document. -/
def writtenCredentialIds (inp : AnalysisInput) : List String :=
  inp.credentials.map CredentialSpec.id ++
    inp.initialFacts.flatMap fun f => f.claim.credentialIds

/-- The audiences for which Pods may project tokens. -/
def audiences (inp : AnalysisInput) : List String :=
  inp.profile.defaultAudience ::
    (inp.inventory.pods.flatMap Pod.tokenAudiences ++
      inp.inventory.controllers.flatMap Controller.tokenAudiences)

end AnalysisInput

/-- The UIDs that Pods of a run may have. -/
inductive PodUid (inp : AnalysisInput) : String → Prop
  | inventory {p : Pod} (h : p ∈ inp.inventory.pods) : PodUid inp p.uid
  | historical {f : InitialFact} {uid ns sa : String} (h : f ∈ inp.initialFacts)
      (hc : f.claim = .historicalPod uid ns sa) : PodUid inp uid
  | replacement {c : Controller} {k : ℤ} (hc : c ∈ inp.inventory.controllers) (hk : 1 ≤ k) :
      PodUid inp (replacementUid c.uid k)
  | created {ns sa : String} (i : ℤ) (h : IsAccount inp ns sa) : PodUid inp (modelPodUid ns sa i)
  | owned {ns sa : String} (i k : ℤ) (h : IsAccount inp ns sa) :
      PodUid inp (replacementUid (modelControllerUid ns sa i) k)

/-- The Pods written in the document: UID, namespace and service account. -/
def writtenPods (inp : AnalysisInput) : List (String × String × String) :=
  inp.inventory.pods.map (fun p => (p.uid, p.ns, p.serviceAccount)) ++
    inp.initialFacts.filterMap fun f =>
      match f.claim with
      | .historicalPod uid ns sa => some (uid, ns, sa)
      | _ => none

/-- What is written and what may be generated have different identifiers. -/
structure IdsApart (inp : AnalysisInput) : Prop where
  /-- No UID that is written has a reserved prefix. -/
  reserved : ∀ uid ∈ inp.writtenUids, isModelUid uid = false
  /-- No UID that is written is that of a Pod which a controller may recreate. -/
  replacements : ∀ uid ∈ inp.writtenUids, ∀ c ∈ inp.inventory.controllers, ∀ k, 1 ≤ k →
    uid ≠ replacementUid c.uid k
  /-- No credential id that is written begins as the ids of tokens do. -/
  credentials : ∀ id ∈ inp.writtenCredentialIds, Text.hasPrefix "projected:" id = false
  /-- A namespace and a service account can be read off the text that joins them. -/
  accounts : ∀ ns sa ns' sa', IsAccount inp ns sa → IsAccount inp ns' sa' →
    ns ++ ":" ++ sa = ns' ++ ":" ++ sa' → ns = ns' ∧ sa = sa'
  /-- Written Pods with one UID run as one service account. -/
  pods : ∀ p ∈ writtenPods inp, ∀ q ∈ writtenPods inp, p.1 = q.1 → p = q
  /-- A Pod UID and an audience can be read off the id of the token. -/
  tokens : ∀ uid uid' aud aud', PodUid inp uid → PodUid inp uid' → aud ∈ inp.audiences →
    aud' ∈ inp.audiences → projectedId uid aud = projectedId uid' aud' → uid = uid' ∧ aud = aud'

/-! ### What a run generates -/

/-- A Pod that the run has made: neither one of the inventory nor a historical one. -/
def GeneratedPod (inp : AnalysisInput) (view : View) (p : Pod) : Prop :=
  p ∉ inp.inventory.pods ∧
    ∀ x ∈ historical (viewCtx inp view), p ≠ createdPod x.2.1 x.2.2 x.1

/-- The controller and the number can be read off a replacement UID. -/
lemma replacementUid_inj_both {c c' : String} {k k' : ℤ}
    (h : replacementUid c k = replacementUid c' k') : c = c' ∧ k = k' := by
  have hfree : ∀ n : ℤ, 'p' ∉ (Text.ofInt n).toList := fun n =>
    Text.not_hasChar_ofInt (by decide) (by decide)
  have hl : (c ++ "-").toList ++ 'p' :: (Text.ofInt k).toList =
      (c' ++ "-").toList ++ 'p' :: (Text.ofInt k').toList := by
    have := congrArg String.toList h
    simpa [replacementUid] using this
  obtain ⟨h1, h2⟩ := Text.append_sep_inj hl (hfree k) (hfree k')
  refine ⟨?_, Text.ofInt_inj (String.toList_inj.1 h2)⟩
  exact (String.append_left_inj _).1 (String.toList_inj.1 h1)

section

variable {inp : AnalysisInput} {view : View}

/-- The service account can be read off the UID of a workload, where the names allow it. -/
lemma IdsApart.account_eq (hid : IdsApart inp) {ns sa ns' sa' : String}
    (ha : IsAccount inp ns sa) (ha' : IsAccount inp ns' sa') {pre : String} {i j : ℤ}
    (h : pre ++ ns ++ ":" ++ sa ++ ":i" ++ Text.ofInt i =
      pre ++ ns' ++ ":" ++ sa' ++ ":i" ++ Text.ofInt j) : ns = ns' ∧ sa = sa' ∧ i = j := by
  obtain ⟨h1, rfl⟩ := index_inj h
  have h2 : ns ++ ":" ++ sa = ns' ++ ":" ++ sa' := by
    simp only [String.append_assoc] at h1 ⊢
    exact (String.append_right_inj _).1 h1
  obtain ⟨rfl, rfl⟩ := hid.accounts _ _ _ _ ha ha' h2
  exact ⟨rfl, rfl, rfl⟩

/-- A generated Pod is recreated by a controller of the inventory or one of the attacker's. -/
lemma generatedPod_cases (hw : WellFormed inp) {φ : Phase} {s : ViewState}
    (h : During inp view φ s) {p : Pod} (hp : p ∈ s.env.pods) (hg : GeneratedPod inp view p) :
    (∃ c ∈ inp.inventory.controllers, ∃ k, 1 ≤ k ∧ p = replacementPod c k ∧
        isModelUid p.uid = false) ∨
      (ModelPod φ.index p ∧ IsAccount inp p.ns p.serviceAccount) := by
  rcases h.pod_cases hw hp with ⟨hb, hu⟩ | hm
  · cases hb with
    | inventory h => exact absurd h hg.1
    | historical h => exact absurd rfl (hg.2 _ h)
    | replacement hc hk => exact Or.inl ⟨_, hc, _, hk, rfl, hu⟩
  · exact Or.inr hm

lemma generatedPod_not_written (hw : WellFormed inp) (hid : IdsApart inp) {φ : Phase}
    {s : ViewState} (h : During inp view φ s) {p : Pod} (hp : p ∈ s.env.pods)
    (hg : GeneratedPod inp view p) : p.uid ∉ inp.writtenUids := by
  intro hmem
  rcases generatedPod_cases hw h hp hg with ⟨c, hc, k, hk, rfl, -⟩ | ⟨hm, -⟩
  · exact hid.replacements _ hmem c hc k hk rfl
  · have := hid.reserved _ hmem
    rw [hm.isModelUid] at this
    cases this

/-- The Pods of the attacker's controllers have no UID of a created Pod. -/
lemma hasPrefix_ownedPod {ns sa : String} {j k : ℤ} : Text.hasPrefix modelPodPrefix
    (replacementPod (createdController ns sa (modelControllerUid ns sa j)) k).uid = false := by
  rw [replacementPod, modelPodPrefix_eq, hasPrefix_replacementUid, ← modelPodPrefix_eq]
  exact not_hasPrefix_modelPod_of_modelDeploy (hasPrefix_modelControllerUid ns sa j)

/-- Generated Pods with one UID are one Pod. -/
lemma generatedPod_eq (hw : WellFormed inp) (hid : IdsApart inp) {φ φ' : Phase}
    {s s' : ViewState} (h : During inp view φ s) (h' : During inp view φ' s') {p q : Pod}
    (hp : p ∈ s.env.pods) (hq : q ∈ s'.env.pods) (hgp : GeneratedPod inp view p)
    (hgq : GeneratedPod inp view q) (he : p.uid = q.uid) : p = q := by
  have hpc := generatedPod_cases hw h hp hgp
  have hqc := generatedPod_cases hw h' hq hgq
  rcases hpc with ⟨c, hc, k, hk, rfl, hu⟩ | ⟨hmp, hap⟩ <;>
    rcases hqc with ⟨c', hc', k', hk', rfl, hu'⟩ | ⟨hmq, haq⟩
  · -- two replacements of controllers of the inventory
    obtain ⟨h1, rfl⟩ := replacementUid_inj_both he
    rw [List.inj_on_of_nodup_map hw.inventory.controllers hc hc' h1]
  · -- a replacement and a workload of the attacker, whose UID has a reserved prefix
    rw [he, hmq.isModelUid] at hu
    cases hu
  · rw [← he, hmp.isModelUid] at hu'
    cases hu'
  · -- two workloads of the attacker: a Pod that it created, or one that a controller owns
    cases hmp with
    | @created ns sa j _ =>
        cases hmq with
        | created =>
            obtain ⟨rfl, rfl, rfl⟩ := hid.account_eq hap haq he
            rfl
        | owned =>
            have hpre : Text.hasPrefix modelPodPrefix (createdPod ns sa (modelPodUid ns sa j)).uid =
                true := hasPrefix_modelPodUid ns sa j
            rw [he, hasPrefix_ownedPod] at hpre
            cases hpre
    | owned =>
        cases hmq with
        | @created ns sa j _ =>
            have hpre : Text.hasPrefix modelPodPrefix (createdPod ns sa (modelPodUid ns sa j)).uid =
                true := hasPrefix_modelPodUid ns sa j
            rw [← he, hasPrefix_ownedPod] at hpre
            cases hpre
        | owned =>
            obtain ⟨h1, rfl⟩ := replacementUid_inj_both he
            obtain ⟨rfl, rfl, rfl⟩ := hid.account_eq hap haq h1
            rfl

/-- A Pod of a run that the run has not made is written in the document. -/
lemma written_of_not_generated {p : Pod} (hg : ¬GeneratedPod inp view p) :
    (p.uid, p.ns, p.serviceAccount) ∈ writtenPods inp ∧ p.uid ∈ inp.writtenUids := by
  simp only [GeneratedPod, not_and_or, not_not, not_forall] at hg
  rcases hg with hp | ⟨x, hx, rfl⟩
  · refine ⟨List.mem_append_left _ (List.mem_map.2 ⟨p, hp, rfl⟩), ?_⟩
    have : p.uid ∈ inp.inventory.pods.map Pod.uid := List.mem_map.2 ⟨p, hp, rfl⟩
    simp only [AnalysisInput.writtenUids, List.mem_append]
    tauto
  · obtain ⟨f, hf, hc⟩ := mem_historical.1 hx
    have hf' : f ∈ inp.initialFacts := (List.mem_filter.1 hf).1
    refine ⟨List.mem_append_right _ (List.mem_filterMap.2 ⟨f, hf', by rw [hc]; rfl⟩), ?_⟩
    have : x.1 ∈ inp.initialFacts.flatMap fun f => f.claim.uids :=
      List.mem_flatMap.2 ⟨f, hf', by rw [hc]; simp [FactClaim.uids]⟩
    simp only [AnalysisInput.writtenUids, List.mem_append, createdPod]
    tauto

/-- Pods of a run with one UID run as one service account. -/
lemma pod_account_eq (hw : WellFormed inp) (hid : IdsApart inp) {φ φ' : Phase} {s s' : ViewState}
    (h : During inp view φ s) (h' : During inp view φ' s') {p q : Pod} (hp : p ∈ s.env.pods)
    (hq : q ∈ s'.env.pods) (he : p.uid = q.uid) :
    (p.ns, p.serviceAccount) = (q.ns, q.serviceAccount) := by
  by_cases hgp : GeneratedPod inp view p <;> by_cases hgq : GeneratedPod inp view q
  · rw [generatedPod_eq hw hid h h' hp hq hgp hgq he]
  · exact absurd (he ▸ (written_of_not_generated hgq).2)
      (generatedPod_not_written hw hid h hp hgp)
  · exact absurd (he ▸ (written_of_not_generated hgp).2)
      (generatedPod_not_written hw hid h' hq hgq)
  · have := hid.pods _ (written_of_not_generated hgp).1 _ (written_of_not_generated hgq).1 he
    exact congrArg Prod.snd this

lemma podUid_of_during (hw : WellFormed inp) {φ : Phase} {s : ViewState} (h : During inp view φ s)
    {p : Pod} (hp : p ∈ s.env.pods) : PodUid inp p.uid := by
  rcases h.pod_cases hw hp with ⟨hb, -⟩ | ⟨hm, ha⟩
  · cases hb with
    | inventory h => exact .inventory h
    | historical h =>
        obtain ⟨f, hf, hc⟩ := mem_historical.1 h
        exact .historical (List.mem_filter.1 hf).1 hc
    | replacement hc hk => exact .replacement hc hk
  · cases hm with
    | created => exact .created _ ha
    | owned => exact .owned _ _ ha

lemma audience_of_during (hw : WellFormed inp) {φ : Phase} {s : ViewState}
    (h : During inp view φ s) {p : Pod} (hp : p ∈ s.env.pods) {aud : String}
    (ha : aud ∈ tokenAudiences inp.profile p) : aud ∈ inp.audiences := by
  have hdefault : p.tokenAudiences = [] → aud ∈ inp.audiences := by
    intro hnil
    rw [tokenAudiences, if_pos hnil, List.mem_singleton] at ha
    exact ha ▸ List.mem_cons_self
  by_cases hnil : p.tokenAudiences = []
  · exact hdefault hnil
  · rw [tokenAudiences, if_neg hnil] at ha
    refine List.mem_cons_of_mem _ ?_
    rcases h.pod_cases hw hp with ⟨hb, -⟩ | ⟨hm, -⟩
    · cases hb with
      | inventory h => exact List.mem_append_left _ (List.mem_flatMap.2 ⟨_, h, ha⟩)
      | historical => exact absurd rfl hnil
      | replacement hc hk => exact List.mem_append_right _ (List.mem_flatMap.2 ⟨_, hc, ha⟩)
    · cases hm with
      | created => exact absurd rfl hnil
      | owned => exact absurd rfl hnil

/-- The id of a token tells the Pod's UID, the service account and the audience. -/
lemma yields_eq (hw : WellFormed inp) (hid : IdsApart inp) {φ φ' : Phase} {s s' : ViewState}
    (h : During inp view φ s) (h' : During inp view φ' s') {pod pod' : Pod}
    {sa sa' : ServiceAccount} {aud aud' : String} (hy : Yields (phaseCtx inp view φ) s pod sa aud)
    (hy' : Yields (phaseCtx inp view φ') s' pod' sa' aud')
    (he : projectedId pod.uid aud = projectedId pod'.uid aud') :
    pod.uid = pod'.uid ∧ sa = sa' ∧ aud = aud' := by
  have haud := hy.audience
  have haud' := hy'.audience
  rw [phaseCtx_inp] at haud haud'
  obtain ⟨hu, ha⟩ := hid.tokens _ _ _ _ (podUid_of_during hw h hy.live)
    (podUid_of_during hw h' hy'.live) (audience_of_during hw h hy.live haud)
    (audience_of_during hw h' hy'.live haud') he
  refine ⟨hu, Table.eq_of_key_eq (h.account hw hy.account) (h'.account hw hy'.account) ?_, ha⟩
  rw [hy.runsAs, hy'.runsAs, pod_account_eq hw hid h h' hy.live hy'.live hu]

lemma hasPrefix_projectedId (uid aud : String) :
    Text.hasPrefix "projected:" (projectedId uid aud) = true := by
  simp only [projectedId, String.append_assoc, Text.hasPrefix_append]

lemma projectedId_not_written (hid : IdsApart inp) (uid aud : String) :
    projectedId uid aud ∉ inp.writtenCredentialIds := by
  intro hmem
  have := hid.credentials _ hmem
  rw [hasPrefix_projectedId] at this
  cases this

/-- The credentials possessed from the beginning have ids that are written. -/
lemma written_of_initialCreds {ctx : Ctx} {c : CredentialSpec} (h : c ∈ initialCreds ctx) :
    c.id ∈ ctx.inp.writtenCredentialIds := by
  obtain ⟨f, -, hc⟩ := List.mem_filterMap.1 (Table.mem_of_mem_ofList h)
  split at hc
  · have hmem := List.mem_of_find?_eq_some hc
    exact List.mem_append_left _ (List.mem_map.2 ⟨c, hmem, rfl⟩)
  · cases hc

/-- The credentials of a run are the ones possessed from the beginning and tokens. -/
lemma Engine.During.creds_cases {φ : Phase} {s : ViewState} (h : During inp view φ s)
    {c : CredentialSpec} (hc : c ∈ s.creds) :
    c ∈ initialCreds (viewCtx inp view) ∨ ∃ φ' s' pod sa aud e, During inp view φ' s' ∧
      Yields (phaseCtx inp view φ') s' pod sa aud ∧ c = projectedToken pod sa aud e := by
  induction h with
  | history => exact Or.inl hc
  | first => exact Or.inl hc
  | afterHistory _ ih => exact ih hc
  | defend _ _ ih => exact ih hc
  | @step φ s t h hst ih =>
      rcases hst.token_cases with ht | ⟨pod, sa, aud, hy, -, ht⟩
      · exact ih (ht ▸ hc)
      · rw [ht] at hc
        rcases Table.mem_put.1 hc with rfl | ⟨hc, -⟩
        · exact Or.inr ⟨φ, s, pod, sa, aud, _, h, hy, rfl⟩
        · exact ih hc

/-- What is stored under the id of a token is that token. -/
lemma stored_token (hw : WellFormed inp) (hid : IdsApart inp) {φ : Phase} {s : ViewState}
    (h : During inp view φ s) {pod : Pod} {sa : ServiceAccount} {aud : String}
    (hy : Yields (phaseCtx inp view φ) s pod sa aud) {cred : CredentialSpec} (hc : cred ∈ s.creds)
    (he : cred.id = projectedId pod.uid aud) : ∃ e, cred = projectedToken pod sa aud e := by
  rcases h.creds_cases hc with hseed | ⟨φ', s', pod', sa', aud', e, h', hy', rfl⟩
  · exact absurd (he ▸ written_of_initialCreds hseed) (projectedId_not_written hid _ _)
  · obtain ⟨hu, rfl, rfl⟩ := yields_eq hw hid h' h hy' hy he
    exact ⟨e, by rw [projectedToken, projectedToken, hu]⟩

/-! ### Defender actions -/

lemma action_uids_written {a : DefenderAction} (ha : a ∈ inp.remediation) {uid : String}
    (hu : uid ∈ a.uids) : uid ∈ inp.writtenUids := by
  have : uid ∈ inp.remediation.flatMap DefenderAction.uids := List.mem_flatMap.2 ⟨a, ha, hu⟩
  simp only [AnalysisInput.writtenUids, List.mem_append]
  tauto

/-- The owner of a Pod that one of the attacker's controllers has. -/
lemma exists_owner (hw : WellFormed inp) {φ : Phase} {s : ViewState} (h : During inp view φ s)
    {p : Pod} (hp : p ∈ s.env.pods) (hu : isModelUid p.uid = true) (ho : p.controllerUid ≠ none) :
    ∃ d ∈ s.env.controllers, p.controllerUid = some d.uid ∧ isModelUid d.uid = true ∧
      d.ns = p.ns ∧ d.serviceAccount = p.serviceAccount := by
  obtain ⟨c, hc⟩ := Option.ne_none_iff_exists'.1 ho
  obtain ⟨B, -, hB⟩ := h.over hw
  have hm := (hB.modelPods p hp hu).owner hc
  obtain ⟨d, hd, rfl, hns, hsa⟩ := h.cared hw p hp c hc hm
  exact ⟨d, hd, hc, hm, hns, hsa⟩

end

/-! ### The tokens of a run -/

/-- Where identifiers are apart, a credential id names one token of the run. -/
lemma tokenIdsUnambiguous_of_idsApart {inp : AnalysisInput} (hw : WellFormed inp)
    (hid : IdsApart inp) (view : View) : TokenIdsUnambiguous inp view where
  seeds c hc pod sa aud _ he :=
    projectedId_not_written hid pod.uid aud (he ▸ written_of_initialCreds hc)
  tokens := by
    rintro pod sa aud pod' sa' aud' ⟨φ, s, hs, hy⟩ ⟨φ', s', hs', hy'⟩ he
    obtain ⟨hu, rfl, ha⟩ := yields_eq hw hid (hs.during hw) (hs'.during hw) hy hy' he
    exact ⟨hu, rfl, ha⟩

/-! ### A condition that can be checked -/

/-- Where no audience has a colon, a Pod UID and an audience can be read off the id of the token. -/
lemma projectedId_inj_of_no_colon {uid uid' aud aud' : String} (ha : ':' ∉ aud.toList)
    (ha' : ':' ∉ aud'.toList) (h : projectedId uid aud = projectedId uid' aud') :
    uid = uid' ∧ aud = aud' := by
  have hl : ("projected:" ++ uid).toList ++ ':' :: aud.toList =
      ("projected:" ++ uid').toList ++ ':' :: aud'.toList := by
    have := congrArg String.toList h
    simpa [projectedId] using this
  obtain ⟨h1, h2⟩ := Text.append_sep_inj hl ha ha'
  exact ⟨(String.append_right_inj _).1 (String.toList_inj.1 h1), String.toList_inj.1 h2⟩

/-- A check of the document that is enough. -/
def idsApartCheck (inp : AnalysisInput) : Bool :=
  (inp.writtenUids.all fun uid => inp.inventory.controllers.all fun c =>
      !Text.hasPrefix (c.uid ++ "-p") uid) &&
    inp.writtenUids.all (fun uid => !isModelUid uid) &&
    inp.writtenCredentialIds.all (fun id => !Text.hasPrefix "projected:" id) &&
    inp.audiences.all (fun aud => !aud.toList.contains ':') &&
    (inp.inventory.serviceAccounts.all fun a => inp.inventory.serviceAccounts.all fun b =>
      a.ns ++ ":" ++ a.name != b.ns ++ ":" ++ b.name || (a.ns == b.ns && a.name == b.name)) &&
    (writtenPods inp).all fun p => (writtenPods inp).all fun q => p.1 != q.1 || p == q

lemma idsApart_of_check {inp : AnalysisInput} (h : idsApartCheck inp = true) : IdsApart inp := by
  simp only [idsApartCheck, Bool.and_eq_true, List.all_eq_true, Bool.not_eq_true',
    List.contains_eq_mem, decide_eq_false_iff_not, Bool.or_eq_true, bne_iff_ne, ne_eq,
    beq_iff_eq] at h
  obtain ⟨⟨⟨⟨⟨hrep, huid⟩, hcred⟩, haud⟩, hacc⟩, hpods⟩ := h
  refine ⟨huid, ?_, hcred, ?_, ?_, ?_⟩
  · rintro uid hu c hc k - rfl
    -- the UID of a replacement begins with that of its controller
    exact Bool.false_ne_true ((hrep _ hu c hc).symm.trans (Text.hasPrefix_append _ _))
  · rintro ns sa ns' sa' ⟨a, ha, hk⟩ ⟨b, hb, hk'⟩ he
    cases hk
    cases hk'
    exact (hacc a (Table.mem_of_mem_ofList ha) b (Table.mem_of_mem_ofList hb)).resolve_left
      fun hne => hne he
  · exact fun p hp q hq he => (hpods p hp q hq).resolve_left fun hne => hne he
  · exact fun uid uid' aud aud' _ _ ha ha' he =>
      projectedId_inj_of_no_colon (haud aud ha) (haud aud' ha') he

/-- In the runs over a document with a controlled Pod acquisition is permanent. -/
theorem controlled_permanent :
    ∃ inp, parseAnalysisInput (Sample.controlled "c") = .ok inp ∧
      ∀ view, AcquisitionPermanent inp view := by
  obtain ⟨inp, hinp, hp⟩ := Sample.accepted (Sample.controlled "c") (p := idsApartCheck)
    (by decide +kernel)
  exact ⟨inp, hinp, fun view => acquisition_permanent hinp
    (tokenIdsUnambiguous_of_idsApart (wellFormed_of_parse hinp) (idsApart_of_check hp) view)⟩

end Afterlock
