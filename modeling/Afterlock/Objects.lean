import Afterlock.Run

/-!
# Where the Pods and controllers of a run come from

In every state of a run a Pod is one of the inventory, a historical one, one that a controller of
the inventory has recreated, or a workload of the attacker's; and the attacker's workloads run as
service accounts of the inventory (`During.pod_cases`, `During.staffed`).
-/

namespace Afterlock

open Engine

variable {inp : AnalysisInput} {view : View}

/-! ### Without the attacker -/

/-- A Pod that a run has without the attacker. -/
inductive BasePod (inp : AnalysisInput) (view : View) : Pod → Prop
  | inventory {p : Pod} (h : p ∈ inp.inventory.pods) : BasePod inp view p
  | historical {x : String × String × String} (h : x ∈ historical (viewCtx inp view)) :
      BasePod inp view (createdPod x.2.1 x.2.2 x.1)
  | replacement {c : Controller} {k : ℤ} (hc : c ∈ inp.inventory.controllers) (hk : 1 ≤ k) :
      BasePod inp view (replacementPod c k)

/-- An environment that a run may have without the attacker. -/
structure BaseOf (inp : AnalysisInput) (view : View) (B : Env) : Prop where
  pods : ∀ p ∈ B.pods, BasePod inp view p
  controllers : ∀ c ∈ B.controllers, c ∈ inp.inventory.controllers
  counters : ∀ x ∈ B.controllerPodCounter, 0 ≤ x.2

lemma BaseOf.reconcileController {B : Env} (h : BaseOf inp view B) {c : Controller}
    (hc : c ∈ inp.inventory.controllers) : BaseOf inp view (reconcileController B c).1 := by
  rcases reconcileController_cases B c with ⟨-, he⟩ | ⟨k, -, hfree, hle, -, he⟩
  · rw [he]
    exact h
  · rw [he]
    have hk : 1 ≤ k := by
      cases hg : B.controllerPodCounter.get? c.uid with
      | none => simpa [hg] using hle
      | some x =>
          have := h.counters x (Table.get?_eq_some_iff.1 hg).1
          simp only [hg, Option.map_some, Option.getD_some] at hle
          omega
    refine ⟨fun p hp => ?_, h.controllers, fun x hx => ?_⟩
    · rcases Table.mem_put.1 hp with rfl | ⟨hp, -⟩
      · exact .replacement hc hk
      · exact h.pods p hp
    · rcases Table.mem_put.1 hx with rfl | ⟨hx, -⟩
      · exact zero_le_one.trans hk
      · exact h.counters x hx

lemma BaseOf.reconcileEach {cs : List Controller} {B : Env} (h : BaseOf inp view B)
    (hcs : ∀ c ∈ cs, c ∈ inp.inventory.controllers) : BaseOf inp view (reconcileEach cs B).1 := by
  induction cs generalizing B with
  | nil => exact h
  | cons c cs ih =>
      exact ih (h.reconcileController (hcs c List.mem_cons_self))
        fun d hd => hcs d (List.mem_cons_of_mem _ hd)

lemma BaseOf.reconcile {B : Env} (h : BaseOf inp view B) :
    BaseOf inp view (reconcileControllers B).1 :=
  h.reconcileEach fun c hc => h.controllers c (Text.mem_sortedBy.1 hc)

lemma BaseOf.apply {B : Env} (h : BaseOf inp view B) (a : DefenderAction) :
    BaseOf inp view (applyDefenderAction B a).1 := by
  refine ⟨fun p hp => h.pods p (mem_applyDefenderAction_pods hp),
    fun c hc => h.controllers c (mem_applyDefenderAction_controllers hc), ?_⟩
  rw [applyDefenderAction_controllerPodCounter]
  exact h.counters

lemma baseOf_inventoryEnv : BaseOf inp view (inventoryEnv inp) :=
  ⟨fun _ hp => .inventory (Table.mem_of_mem_ofList hp),
    fun _ hc => Table.mem_of_mem_ofList hc, fun x hx => absurd hx (Table.not_mem_empty x)⟩

lemma baseOf_baseEnv (k : ℕ) : BaseOf inp view (baseEnv inp k) := by
  induction k with
  | zero => exact baseOf_inventoryEnv.reconcile
  | succ k ih =>
      rw [baseEnv]
      split
      · exact (ih.apply _).reconcile
      · exact ih

lemma baseOf_historyBase : BaseOf inp view (historyBase inp view) := by
  refine ⟨fun p hp => ?_, fun c hc => ?_, fun x hx => ?_⟩
  · rcases mem_historyEnv_pods hp with hp | ⟨x, hx, rfl⟩
    · exact baseOf_inventoryEnv.pods p hp
    · exact .historical hx
  · rw [historyBase, historyEnv_eq] at hc
    exact (baseOf_inventoryEnv : BaseOf inp view _).controllers c hc
  · rw [historyBase, historyEnv_eq] at hx
    exact (baseOf_inventoryEnv : BaseOf inp view _).counters x hx

lemma Engine.PhaseBase.baseOf {φ : Phase} {B : Env} (h : PhaseBase inp view φ B) : BaseOf inp view B := by
  cases φ with
  | history =>
      rcases h with rfl | rfl
      · exact baseOf_historyBase
      · exact baseOf_historyBase.reconcile
  | interval k =>
      obtain rfl := h
      exact baseOf_baseEnv k

/-! ### With the attacker -/

/-- The service accounts of the inventory. -/
def IsAccount (inp : AnalysisInput) (ns sa : String) : Prop :=
  ∃ a ∈ (inventoryEnv inp).serviceAccounts, a.key = (ns, sa)

namespace Engine

/-- The attacker's workloads run as service accounts of the inventory. -/
structure Staffed (inp : AnalysisInput) (s : ViewState) : Prop where
  pods : ∀ p ∈ s.env.pods, isModelUid p.uid = true → IsAccount inp p.ns p.serviceAccount
  controllers : ∀ c ∈ s.env.controllers, isModelUid c.uid = true →
    IsAccount inp c.ns c.serviceAccount

lemma staffed_of_plain {s : ViewState} (h : Plain s.env) : Staffed inp s where
  pods p hp hu := by
    rw [h.pods p hp] at hu
    cases hu
  controllers c hc hu := by
    rw [h.controllers c hc] at hu
    cases hu

/-- The accounts of a run are those of the inventory. -/
lemma mem_baseEnv_serviceAccounts {k : ℕ} {a : ServiceAccount}
    (h : a ∈ (baseEnv inp k).serviceAccounts) : a ∈ (inventoryEnv inp).serviceAccounts := by
  induction k with
  | zero =>
      rw [baseEnv, (reconcileControllers_grows _).serviceAccounts] at h
      exact h
  | succ k ih =>
      rw [baseEnv] at h
      split at h
      · rw [Afterlock.defend, (reconcileControllers_grows _).serviceAccounts] at h
        exact ih (mem_applyDefenderAction_serviceAccounts h)
      · exact ih h

lemma During.account (hw : WellFormed inp) {φ : Phase} {s : ViewState} (h : During inp view φ s)
    {a : ServiceAccount} (ha : a ∈ s.env.serviceAccounts) :
    a ∈ (inventoryEnv inp).serviceAccounts := by
  obtain ⟨B, hφ, hB⟩ := h.over hw
  rw [hB.serviceAccounts] at ha
  cases φ with
  | history =>
      rcases hφ with rfl | rfl
      · rw [historyBase, historyEnv_eq] at ha
        exact ha
      · rw [(reconcileControllers_grows _).serviceAccounts, historyBase, historyEnv_eq] at ha
        exact ha
  | interval k =>
      obtain rfl := hφ
      exact mem_baseEnv_serviceAccounts ha

lemma applyDefenderAction_admission (env : Env) (a : DefenderAction) :
    (applyDefenderAction env a).1.admission = env.admission := by
  cases a with
  | rotateDownstreamCredential service =>
      rw [applyDefenderAction]
      split
      · rfl
      · unfold rotate
        split
        · rfl
        · rfl
  | _ => rfl

lemma baseEnv_admission (k : ℕ) : (baseEnv inp k).admission = inp.inventory.admissionPolicies := by
  induction k with
  | zero =>
      rw [baseEnv, (reconcileControllers_grows _).admission]
      rfl
  | succ k ih =>
      rw [baseEnv]
      split
      · rw [Afterlock.defend, (reconcileControllers_grows _).admission,
          applyDefenderAction_admission, ih]
      · exact ih

/-- The admission policies of a run are those of the inventory. -/
lemma During.admission (hw : WellFormed inp) {φ : Phase} {s : ViewState} (h : During inp view φ s) :
    s.env.admission = inp.inventory.admissionPolicies := by
  obtain ⟨B, hφ, hB⟩ := h.over hw
  rw [hB.admission]
  cases φ with
  | history =>
      rcases hφ with rfl | rfl
      · rw [historyBase, historyEnv_eq]
        rfl
      · rw [(reconcileControllers_grows _).admission, historyBase, historyEnv_eq]
        rfl
  | interval k =>
      obtain rfl := hφ
      exact baseEnv_admission k

/-- A Pod that reconciliation adds runs as its controller does. -/
lemma staffed_reconcile {E : Env}
    (hp : ∀ p ∈ E.pods, isModelUid p.uid = true → IsAccount inp p.ns p.serviceAccount)
    (hc : ∀ c ∈ E.controllers, isModelUid c.uid = true → IsAccount inp c.ns c.serviceAccount) :
    ∀ p ∈ (reconcileControllers E).1.pods, isModelUid p.uid = true →
      IsAccount inp p.ns p.serviceAccount := by
  intro p hmem hu
  rcases mem_reconcileControllers_pods hmem with hmem | ⟨c, hcm, k, rfl, -⟩
  · exact hp p hmem hu
  · rw [replacementPod, isModelUid_replacementUid] at hu
    exact hc c hcm hu

lemma Staffed.step (hw : WellFormed inp) {φ : Phase} {s t : ViewState} (h : Staffed inp s)
    (hd : During inp view φ s) (hst : Step (phaseCtx inp view φ) φ.index s t) : Staffed inp t := by
  have hacc : ∀ {cred ns sa kind}, MayCreate (phaseCtx inp view φ) s cred ns sa kind →
      IsAccount inp ns sa := fun hm =>
    let ⟨a, ha, hk⟩ := hm.account
    ⟨a, hd.account hw ha, hk⟩
  have hctl : ∀ c ∈ t.env.controllers, isModelUid c.uid = true →
      IsAccount inp c.ns c.serviceAccount := by
    intro c hc hu
    rcases hst.controller_cases hc with hc | ⟨cred, ns, sa, hm, -, rfl, -⟩
    · exact h.controllers c hc hu
    · exact hacc hm
  refine ⟨?_, hctl⟩
  cases hst with
  | infer => simpa using h.pods
  | token => exact h.pods
  | @createPod cred ns sa hm hadm hfree =>
      rw [ViewState.learn_env]
      intro p hp hu
      rcases (mem_put_of_contains_eq_false
        (p := createdPod ns sa (modelPodUid ns sa φ.index)) hfree).1 hp with rfl | hp
      · exact hacc hm
      · exact h.pods p hp hu
  | @createController cred ns sa hm =>
      rw [ViewState.learn_env] at hctl ⊢
      refine staffed_reconcile h.pods fun c hc hu => ?_
      rcases Table.mem_put.1 hc with rfl | ⟨hc, -⟩
      · exact hacc hm
      · exact h.controllers c hc hu
  | unsupportedCredential => simpa using h.pods
  | unsupportedAdmission => simpa using h.pods

theorem During.staffed (hw : WellFormed inp) {φ : Phase} {s : ViewState}
    (h : During inp view φ s) : Staffed inp s := by
  induction h with
  | history => exact staffed_of_plain (plain_historyBase hw)
  | first => exact staffed_of_plain (plain_baseEnv hw 0)
  | afterHistory => exact staffed_of_plain (plain_baseEnv hw 0)
  | @defend k s a goals records h _ ih =>
      have hctl : ∀ c ∈ (applyDefenderAction s.env a).1.controllers, isModelUid c.uid = true →
          IsAccount inp c.ns c.serviceAccount := fun c hc hu =>
        ih.controllers c (mem_applyDefenderAction_controllers hc) hu
      refine ⟨staffed_reconcile (fun p hp hu => ih.pods p (mem_applyDefenderAction_pods hp) hu) hctl,
        fun c hc hu => hctl c ?_ hu⟩
      rwa [enter_env, Afterlock.defend, reconcileControllers_controllers] at hc
  | step h hst ih => exact ih.step hw h hst

/-- A Pod of a state of the run is one that the run has without the attacker or one of the
attacker's. -/
lemma During.pod_cases (hw : WellFormed inp) {φ : Phase} {s : ViewState} (h : During inp view φ s)
    {p : Pod} (hp : p ∈ s.env.pods) :
    (BasePod inp view p ∧ isModelUid p.uid = false) ∨
      (ModelPod φ.index p ∧ IsAccount inp p.ns p.serviceAccount) := by
  obtain ⟨B, hφ, hB⟩ := h.over hw
  rcases hB.pod_cases hp with hpB | hm
  · exact Or.inl ⟨hφ.baseOf.pods p hpB, hB.plain.pods p hpB⟩
  · exact Or.inr ⟨hm, (h.staffed hw).pods p hp hm.isModelUid⟩

lemma During.controller_cases (hw : WellFormed inp) {φ : Phase} {s : ViewState}
    (h : During inp view φ s) {c : Controller} (hc : c ∈ s.env.controllers) :
    (c ∈ inp.inventory.controllers ∧ isModelUid c.uid = false) ∨
      (ModelController φ.index c ∧ IsAccount inp c.ns c.serviceAccount) := by
  obtain ⟨B, hφ, hB⟩ := h.over hw
  rcases hB.controller_cases hc with hcB | hm
  · exact Or.inl ⟨hφ.baseOf.controllers c hcB, hB.plain.controllers c hcB⟩
  · exact Or.inr ⟨hm, (h.staffed hw).controllers c hc hm.isModelUid⟩

/-! ### Owners -/

/-- The owner of a Pod of one of the attacker's controllers exists and runs as the Pod does. -/
def Cared (s : ViewState) : Prop :=
  ∀ p ∈ s.env.pods, ∀ c, p.controllerUid = some c → isModelUid c = true →
    ∃ d ∈ s.env.controllers, d.uid = c ∧ d.ns = p.ns ∧ d.serviceAccount = p.serviceAccount

/-- With a controller a defender action removes the controller's Pods. -/
lemma mem_controllers_of_owner {env : Env} {a : DefenderAction} {p : Pod} {d : Controller}
    (hp : p ∈ (applyDefenderAction env a).1.pods) (ho : p.controllerUid = some d.uid)
    (hd : d ∈ env.controllers) : d ∈ (applyDefenderAction env a).1.controllers := by
  cases a with
  | deleteController uid =>
      refine Table.mem_erase.2 ⟨hd, fun he => ?_⟩
      have := (Table.mem_filter.1 hp).2
      simp [ho, he] at this
  | deleteControllersExcept ns sa keep =>
      refine Table.mem_filter.2 ⟨hd, ?_⟩
      by_contra hv
      have := (Table.mem_filter.1 hp).2
      simp only [ho, Option.any_some, Bool.not_eq_true', List.contains_eq_mem,
        decide_eq_false_iff_not, List.mem_map, List.mem_filter, not_exists, not_and] at this
      exact this d ⟨hd, by simpa using hv⟩ rfl
  | rotateDownstreamCredential service =>
      obtain ⟨_, _, he⟩ := exists_applyDefenderAction_rotate env service
      rw [he]
      exact hd
  | _ => exact hd

/-- Reconciliation gives a Pod only to a controller that exists. -/
lemma cared_reconcile {E : Env}
    (h : ∀ p ∈ E.pods, ∀ c, p.controllerUid = some c → isModelUid c = true →
      ∃ d ∈ E.controllers, d.uid = c ∧ d.ns = p.ns ∧ d.serviceAccount = p.serviceAccount) :
    ∀ p ∈ (reconcileControllers E).1.pods, ∀ c, p.controllerUid = some c → isModelUid c = true →
      ∃ d ∈ E.controllers, d.uid = c ∧ d.ns = p.ns ∧ d.serviceAccount = p.serviceAccount := by
  intro p hp c hc hm
  rcases mem_reconcileControllers_pods hp with hp | ⟨d, hd, k, rfl, -⟩
  · exact h p hp c hc hm
  · cases hc
    exact ⟨d, hd, rfl, rfl, rfl⟩

lemma cared_of_plain {s : ViewState} (h : Plain s.env) : Cared s := by
  intro p hp c hc hm
  rw [h.owners p hp c hc] at hm
  cases hm

lemma Cared.step {ctx : Ctx} {i : ℤ} {s t : ViewState} (h : Cared s) (hst : Step ctx i s t) :
    Cared t := by
  cases hst with
  | infer => simpa [Cared] using h
  | token => exact h
  | @createPod cred ns sa hm hadm hfree =>
      rw [Cared, ViewState.learn_env]
      intro p hp c hc hu
      rcases (mem_put_of_contains_eq_false
        (p := createdPod ns sa (modelPodUid ns sa i)) hfree).1 hp with rfl | hp
      · cases hc
      · exact h p hp c hc hu
  | @createController cred ns sa hm hadm hfree =>
      rw [Cared, ViewState.learn_env]
      simp only [withController, Env.addController, reconcileControllers_controllers]
      refine cared_reconcile fun p hp c hc hu => ?_
      obtain ⟨d, hd, hrest⟩ := h p hp c hc hu
      exact ⟨d, (Table.mem_put_of_fresh (Table.contains_eq_false_iff.1 hfree)).2 (Or.inr hd), hrest⟩
  | unsupportedCredential => simpa [Cared] using h
  | unsupportedAdmission => simpa [Cared] using h

theorem During.cared (hw : WellFormed inp) {φ : Phase} {s : ViewState} (h : During inp view φ s) :
    Cared s := by
  induction h with
  | history => exact cared_of_plain (plain_historyBase hw)
  | first => exact cared_of_plain (plain_baseEnv hw 0)
  | afterHistory => exact cared_of_plain (plain_baseEnv hw 0)
  | @defend k s a goals records _ _ ih =>
      rw [Cared, enter_env, Afterlock.defend, reconcileControllers_controllers]
      refine cared_reconcile fun p hp c hc hu => ?_
      obtain ⟨d, hd, rfl, hrest⟩ := ih p (mem_applyDefenderAction_pods hp) c hc hu
      exact ⟨d, mem_controllers_of_owner hp hc hd, rfl, hrest⟩
  | step _ hst ih => exact ih.step hst

/-! ### What defender actions do to the attacker's workloads -/

end Engine

/-- The UIDs that a defender action names. -/
def DefenderAction.uids : DefenderAction → List String
  | .deletePod uid => [uid]
  | .deleteController uid => [uid]
  | .deletePodsExcept _ _ keep => keep
  | .deleteControllersExcept _ _ keep => keep
  | _ => []

/-- The action deletes the Pods of the service account, but for some. -/
def DefenderAction.deletesPods (a : DefenderAction) (ns sa : String) : Prop :=
  ∃ keep, a = .deletePodsExcept ns sa keep

/-- The action deletes the controllers of the service account, but for some. -/
def DefenderAction.deletesControllers (a : DefenderAction) (ns sa : String) : Prop :=
  ∃ keep, a = .deleteControllersExcept ns sa keep

section

variable {env : Env} {a : DefenderAction}

/-- An action that names no reserved UID removes a created Pod exactly if it deletes the Pods of its
service account. -/
lemma mem_apply_createdPod (ha : ∀ uid ∈ a.uids, isModelUid uid = false) {p : Pod}
    (hp : p ∈ env.pods) (hu : isModelUid p.uid = true) (ho : p.controllerUid = none) :
    p ∈ (applyDefenderAction env a).1.pods ↔ ¬a.deletesPods p.ns p.serviceAccount := by
  have hne : ∀ {uid}, uid ∈ a.uids → p.uid ≠ uid := by
    rintro uid hmem rfl
    rw [ha _ hmem] at hu
    cases hu
  cases a with
  | deletePod uid =>
      have := @hne uid (by simp [DefenderAction.uids])
      simp [applyDefenderAction, DefenderAction.deletesPods, hp, this]
  | deleteController uid =>
      simp [applyDefenderAction, DefenderAction.deletesPods, Env.dropPods, hp, ho]
  | deletePodsExcept ns sa keep =>
      have hk : p.uid ∉ keep := fun hk => hne (show p.uid ∈ DefenderAction.uids _ from hk) rfl
      simp only [applyDefenderAction, DefenderAction.deletesPods, Env.dropPods, Table.mem_filter,
        DefenderAction.deletePodsExcept.injEq, List.contains_eq_mem, hk]
      simp only [hp, decide_false, Bool.not_false, Bool.and_true, Bool.not_eq_true',
        Bool.and_eq_false_iff, beq_eq_false_iff_ne, true_and, not_exists, not_and]
      constructor
      · rintro (h | h) keep' rfl hsa
        · exact absurd rfl h
        · exact absurd hsa.symm h
      · intro h
        by_cases hns : p.ns = ns
        · exact Or.inr fun hsa => h keep hns.symm hsa.symm rfl
        · exact Or.inl hns
  | deleteControllersExcept ns sa keep =>
      simp [applyDefenderAction, DefenderAction.deletesPods, Env.dropPods, hp, ho]
  | rotateDownstreamCredential service =>
      obtain ⟨_, _, he⟩ := exists_applyDefenderAction_rotate env service
      simp [he, DefenderAction.deletesPods, hp]
  | removeBinding => simpa [applyDefenderAction, DefenderAction.deletesPods] using hp
  | deleteServiceAccount => simpa [applyDefenderAction, DefenderAction.deletesPods] using hp
  | wait => simpa [applyDefenderAction, DefenderAction.deletesPods] using hp

/-- The same for a controller of the attacker's. -/
lemma mem_apply_controller (ha : ∀ uid ∈ a.uids, isModelUid uid = false) {c : Controller}
    (hc : c ∈ env.controllers) (hu : isModelUid c.uid = true) :
    c ∈ (applyDefenderAction env a).1.controllers ↔
      ¬a.deletesControllers c.ns c.serviceAccount := by
  -- no UID that the action names is the attacker's
  have hne : ∀ {uid}, uid ∈ a.uids → c.uid ≠ uid := by
    rintro uid hmem rfl
    rw [ha _ hmem] at hu
    cases hu
  cases a with
  | deleteController uid =>
      have := @hne uid (by simp [DefenderAction.uids])
      simp [applyDefenderAction, DefenderAction.deletesControllers, Env.dropPods, hc, this]
  | deleteControllersExcept ns sa keep =>
      have hk : c.uid ∉ keep := fun hk => hne (show c.uid ∈ DefenderAction.uids _ from hk) rfl
      simp only [applyDefenderAction, DefenderAction.deletesControllers, Env.dropPods,
        Table.mem_filter, DefenderAction.deleteControllersExcept.injEq, List.contains_eq_mem, hk]
      simp only [hc, decide_false, Bool.not_false, Bool.and_true, Bool.not_eq_true',
        Bool.and_eq_false_iff, beq_eq_false_iff_ne, true_and, not_exists, not_and]
      constructor
      · rintro (h | h) keep' rfl hsa
        · exact absurd rfl h
        · exact absurd hsa.symm h
      · intro h
        by_cases hns : c.ns = ns
        · exact Or.inr fun hsa => h keep hns.symm hsa.symm rfl
        · exact Or.inl hns
  | rotateDownstreamCredential service =>
      obtain ⟨_, _, he⟩ := exists_applyDefenderAction_rotate env service
      simp [he, DefenderAction.deletesControllers, hc]
  | deletePodsExcept =>
      simpa [applyDefenderAction, DefenderAction.deletesControllers, Env.dropPods] using hc
  | deletePod => simpa [applyDefenderAction, DefenderAction.deletesControllers] using hc
  | removeBinding => simpa [applyDefenderAction, DefenderAction.deletesControllers] using hc
  | deleteServiceAccount => simpa [applyDefenderAction, DefenderAction.deletesControllers] using hc
  | wait => simpa [applyDefenderAction, DefenderAction.deletesControllers] using hc

end

end Afterlock
