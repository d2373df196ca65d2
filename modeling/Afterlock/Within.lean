import Afterlock.Fixpoint

/-!
# Two cases about one cluster

A case may say more about the attacker than another: further credentials, further facts and further
bindings, in the same cluster and under the same remediation (`AnalysisInput.Within`).  The
environments of the two runs then differ in the bindings and in the attacker's workloads only
(`SameCluster`), except that the possible history may have further historical Pods.
-/

namespace Afterlock

open Prog Engine

/-- `inp'` is `inp` with further credentials, initial facts and bindings. -/
structure AnalysisInput.Within (inp inp' : AnalysisInput) : Prop where
  time : inp'.analysisTime = inp.analysisTime
  start : inp'.historyStart = inp.historyStart
  profile : inp'.profile = inp.profile
  remediation : inp'.remediation = inp.remediation
  inventory : inp'.inventory = { inp.inventory with bindings := inp'.inventory.bindings }
  bindings : inp.inventory.bindings ⊆ inp'.inventory.bindings
  facts : inp.initialFacts ⊆ inp'.initialFacts
  credentials : inp.credentials ⊆ inp'.credentials

/-- The second environment has the accounts, Secrets and services of the first, and its bindings or
more. -/
structure SameCluster (e e' : Env) : Prop where
  time : e'.time = e.time
  serviceAccounts : e'.serviceAccounts = e.serviceAccounts
  roles : e'.roles = e.roles
  bindings : ∀ b ∈ e.bindings, b ∈ e'.bindings
  secrets : e'.secrets = e.secrets
  services : e'.services = e.services
  admission : e'.admission = e.admission

namespace SameCluster

variable {e e' : Env}

/-- Neither environment changes in this respect while the attacker goes on. -/
lemma grows {f f' : Env} (h : SameCluster e e') (hf : e.Grows f) (hf' : e'.Grows f') :
    SameCluster f f' where
  time := by rw [hf'.time, hf.time, h.time]
  serviceAccounts := by rw [hf'.serviceAccounts, hf.serviceAccounts, h.serviceAccounts]
  roles := by rw [hf'.roles, hf.roles, h.roles]
  bindings := by
    rw [hf'.bindings, hf.bindings]
    exact h.bindings
  secrets := by rw [hf'.secrets, hf.secrets, h.secrets]
  services := by rw [hf'.services, hf.services, h.services]
  admission := by rw [hf'.admission, hf.admission, h.admission]

lemma of_over {i j : ℤ} {B B' : Env} (h : SameCluster B B') (hB : Over i B e) (hB' : Over j B' e') :
    SameCluster e e' where
  time := by rw [hB'.time, hB.time, h.time]
  serviceAccounts := by rw [hB'.serviceAccounts, hB.serviceAccounts, h.serviceAccounts]
  roles := by rw [hB'.roles, hB.roles, h.roles]
  bindings := by
    rw [hB'.bindings, hB.bindings]
    exact h.bindings
  secrets := by rw [hB'.secrets, hB.secrets, h.secrets]
  services := by rw [hB'.services, hB.services, h.services]
  admission := by rw [hB'.admission, hB.admission, h.admission]

/-- Who is authorized stays authorized. -/
lemma authorized (h : SameCluster e e') {user verb resource ns : String} {name : Option String}
    (ha : authorizingBindings e user verb resource ns name ≠ []) :
    authorizingBindings e' user verb resource ns name ≠ [] := by
  obtain ⟨b, hb, hg⟩ := authorizingBindings_ne_nil_iff.1 ha
  refine authorizingBindings_ne_nil_iff.2 ⟨b, h.bindings b hb, ?_⟩
  rw [bindingGrants, h.roles]
  exact hg

lemma readGrant (h : SameCluster e e') {user : String} {sec : Secret}
    (hg : (Engine.readGrant e user sec).isSome) : (Engine.readGrant e' user sec).isSome := by
  rw [Engine.readGrant, List.findSome?_isSome_iff] at hg ⊢
  obtain ⟨verb, hverb, hg⟩ := hg
  refine ⟨verb, hverb, ?_⟩
  by_cases ha : authorizingBindings e user verb "secrets" sec.ns (some sec.name) = []
  · simp [ha] at hg
  · simp [h.authorized ha]

lemma admissionDecision (h : SameCluster e e') (creator ns sa : String) :
    Afterlock.admissionDecision e' creator ns sa = Afterlock.admissionDecision e creator ns sa := by
  unfold Afterlock.admissionDecision
  rw [h.admission]

end SameCluster

/-! ### Reconciliation and defender actions -/

/-- The second environment is the first with further bindings. -/
structure Env.MoreBindings (e e' : Env) : Prop where
  same : e' = { e with bindings := e'.bindings }
  bindings : ∀ b ∈ e.bindings, b ∈ e'.bindings

namespace Env.MoreBindings

variable {e e' : Env}

lemma reconcileController {c : Controller} (h : e.MoreBindings e') :
    (reconcileController e c).1.MoreBindings (reconcileController e' c).1 := by
  obtain ⟨hsame, hb⟩ := h
  generalize e'.bindings = bs at hsame hb
  subst hsame
  have hown : ownsPod { e with bindings := bs } c.uid = ownsPod e c.uid := rfl
  unfold Afterlock.reconcileController
  rw [hown]
  split_ifs <;> exact ⟨rfl, hb⟩

lemma reconcileEach {cs : List Controller} (h : e.MoreBindings e') :
    (reconcileEach cs e).1.MoreBindings (reconcileEach cs e').1 := by
  induction cs generalizing e e' with
  | nil => exact h
  | cons c cs ih =>
      rw [reconcileEach_cons_fst, reconcileEach_cons_fst]
      exact ih h.reconcileController

lemma reconcile (h : e.MoreBindings e') :
    (reconcileControllers e).1.MoreBindings (reconcileControllers e').1 := by
  have hc : e'.controllers = e.controllers := by rw [h.same]
  unfold reconcileControllers
  rw [hc]
  exact h.reconcileEach

/-- A defender action removes the same from both, a binding as well. -/
lemma apply (h : e.MoreBindings e') (a : DefenderAction) :
    (applyDefenderAction e a).1.MoreBindings (applyDefenderAction e' a).1 := by
  obtain ⟨hsame, hb⟩ := h
  generalize e'.bindings = bs at hsame hb
  subst hsame
  cases a with
  | removeBinding ns name =>
      refine ⟨rfl, fun b hmem => ?_⟩
      obtain ⟨hmem, hne⟩ := Table.mem_erase.1 hmem
      exact Table.mem_erase.2 ⟨hb b hmem, hne⟩
  | rotateDownstreamCredential service =>
      simp only [applyDefenderAction]
      cases e.services.get? service with
      | none => exact ⟨rfl, hb⟩
      | some svc =>
          simp only [rotate]
          split_ifs <;> exact ⟨rfl, hb⟩
  | _ => exact ⟨rfl, hb⟩

lemma sameCluster (h : e.MoreBindings e') : SameCluster e e' := by
  obtain ⟨hsame, hb⟩ := h
  generalize e'.bindings = bs at hsame hb
  subst hsame
  exact ⟨rfl, rfl, rfl, hb, rfl, rfl, rfl⟩

end Env.MoreBindings

namespace AnalysisInput.Within

variable {inp inp' : AnalysisInput}

lemma inventoryEnv (h : inp.Within inp') (hw : inp.inventory.WellFormed)
    (hw' : inp'.inventory.WellFormed) :
    (Afterlock.inventoryEnv inp).MoreBindings (Afterlock.inventoryEnv inp') := by
  refine ⟨?_, fun b hb => ?_⟩
  · unfold Afterlock.inventoryEnv Env.fromInventory
    rw [h.inventory, h.time]
  · rw [Afterlock.inventoryEnv, Env.fromInventory] at hb ⊢
    rw [Table.mem_ofList hw'.bindings]
    exact h.bindings ((Table.mem_ofList hw.bindings).1 hb)

lemma baseEnv (h : inp.Within inp') (hw : inp.inventory.WellFormed)
    (hw' : inp'.inventory.WellFormed) (k : ℕ) :
    (Afterlock.baseEnv inp k).MoreBindings (Afterlock.baseEnv inp' k) := by
  induction k with
  | zero => exact (h.inventoryEnv hw hw').reconcile
  | succ k ih =>
      rw [Afterlock.baseEnv, Afterlock.baseEnv, h.remediation]
      cases inp.remediation[k]? with
      | none => exact ih
      | some a => exact (ih.apply a).reconcile

end AnalysisInput.Within

/-! ### Further Pods -/

/-- The second environment is the first with further Pods that nobody owns, and that have no UID of a
Pod which a controller may recreate. -/
structure Env.MorePods (e e' : Env) : Prop where
  controllers : e'.controllers = e.controllers
  numbers : ∀ cuid, e'.lastNumber cuid = e.lastNumber cuid
  started : ∀ cuid, 0 ≤ e.lastNumber cuid
  pods : ∀ p ∈ e.pods, p ∈ e'.pods
  further : ∀ p ∈ e'.pods, p ∈ e.pods ∨ p.controllerUid = none ∧
    ∀ c ∈ e.controllers, ∀ k, 1 ≤ k → p.uid ≠ replacementUid c.uid k

namespace Env.MorePods

variable {e e' : Env} {c : Controller}

lemma ownsPod (h : e.MorePods e') (cuid : String) :
    Afterlock.ownsPod e' cuid = Afterlock.ownsPod e cuid := by
  rw [Bool.eq_iff_iff, ownsPod_iff, ownsPod_iff]
  constructor
  · rintro ⟨p, hp, ho⟩
    rcases h.further p hp with hp | ⟨hn, -⟩
    · exact ⟨p, hp, ho⟩
    · rw [hn] at ho
      cases ho
  · rintro ⟨p, hp, ho⟩
    exact ⟨p, h.pods p hp, ho⟩

lemma taken (h : e.MorePods e') (hc : c ∈ e.controllers) {k : ℤ} (hk : 1 ≤ k) :
    replacementUid c.uid k ∈ e'.podUids ↔ replacementUid c.uid k ∈ e.podUids := by
  constructor
  · rintro ⟨p, hp, hu⟩
    rcases h.further p hp with hp | ⟨-, hne⟩
    · exact ⟨p, hp, hu⟩
    · exact absurd hu (hne c hc k hk)
  · rintro ⟨p, hp, hu⟩
    exact ⟨p, h.pods p hp, hu⟩

/-- A controller gets the same Pod in both environments. -/
lemma reconcileController (h : e.MorePods e') (hc : c ∈ e.controllers) :
    (reconcileController e c).1.MorePods (reconcileController e' c).1 := by
  have hstart := h.started c.uid
  rcases reconcileController_replaced e c with ⟨ho, he⟩ | ⟨k, ho, hfree, hlt, hmin, he⟩ <;>
    rcases reconcileController_replaced e' c with ⟨ho', he'⟩ | ⟨k', ho', hfree', hlt', hmin', he'⟩
  · rw [he, he']
    exact h
  · rw [h.ownsPod, ho] at ho'
    cases ho'
  · rw [h.ownsPod, ho] at ho'
    cases ho'
  · -- both take the first number whose UID is free
    rw [h.numbers] at hlt' hmin'
    obtain rfl : k' = k := by
      rcases lt_trichotomy k k' with hkk | heq | hkk
      · exact absurd ((h.taken hc (by omega)).1 (hmin' k hlt hkk)) hfree
      · exact heq.symm
      · exact absurd ((h.taken hc (by omega)).2 (hmin k' hlt' hkk)) hfree'
    rw [he, he']
    refine ⟨h.controllers, fun cuid => ?_, fun cuid => ?_, fun p hp => ?_, fun p hp => ?_⟩
    · by_cases hcu : cuid = c.uid
      · rw [hcu, Env.lastNumber_replaced_self, Env.lastNumber_replaced_self]
      · rw [Env.lastNumber_replaced_of_ne hcu, Env.lastNumber_replaced_of_ne hcu, h.numbers]
    · by_cases hcu : cuid = c.uid
      · rw [hcu, Env.lastNumber_replaced_self]
        omega
      · rw [Env.lastNumber_replaced_of_ne hcu]
        exact h.started cuid
    · exact (Env.mem_replaced_pods hfree').2 (((Env.mem_replaced_pods hfree).1 hp).imp_right
        (h.pods p))
    · rcases (Env.mem_replaced_pods hfree').1 hp with rfl | hp
      · exact .inl ((Env.mem_replaced_pods hfree).2 (.inl rfl))
      · exact (h.further p hp).imp_left fun hp => (Env.mem_replaced_pods hfree).2 (.inr hp)

lemma reconcileEach {cs : List Controller} (h : e.MorePods e') (hcs : ∀ c ∈ cs, c ∈ e.controllers) :
    (reconcileEach cs e).1.MorePods (reconcileEach cs e').1 := by
  induction cs generalizing e e' with
  | nil => exact h
  | cons c cs ih =>
      rw [reconcileEach_cons_fst, reconcileEach_cons_fst]
      refine ih (h.reconcileController (hcs c List.mem_cons_self)) fun d hd => ?_
      rw [reconcileController_controllers]
      exact hcs d (List.mem_cons_of_mem _ hd)

lemma reconcile (h : e.MorePods e') :
    (reconcileControllers e).1.MorePods (reconcileControllers e').1 := by
  unfold reconcileControllers
  rw [h.controllers]
  exact h.reconcileEach fun c hc => Text.mem_sortedBy.1 hc

end Env.MorePods

/-! ### The phases -/

/-- The second view uses at least the facts of the first. -/
def View.Within (view view' : View) : Prop := view = view' ∨ view' = .conservativePossible

section

variable {inp inp' : AnalysisInput} {view view' : View}

lemma usedFacts_within (h : inp.Within inp') (hv : view.Within view') {f : InitialFact}
    (hf : f ∈ usedFacts (viewCtx inp view)) : f ∈ usedFacts (viewCtx inp' view') := by
  obtain ⟨hmem, hused⟩ := List.mem_filter.1 hf
  refine List.mem_filter.2 ⟨h.facts hmem, ?_⟩
  rcases hv with rfl | rfl
  · exact hused
  · rfl

lemma historical_within (h : inp.Within inp') (hv : view.Within view')
    {x : String × String × String} (hx : x ∈ historical (viewCtx inp view)) :
    x ∈ historical (viewCtx inp' view') := by
  obtain ⟨f, hf, hclaim⟩ := mem_historical.1 hx
  exact mem_historical.2 ⟨f, usedFacts_within h hv hf, hclaim⟩

lemma initialState_within (h : inp.Within inp') (hv : view.Within view') {f : Fact}
    (hf : (initialState (viewCtx inp view)).Has f) : (initialState (viewCtx inp' view')).Has f := by
  obtain ⟨g, hg, hclaim⟩ := has_initialState.1 hf
  exact has_initialState.2 ⟨g, usedFacts_within h hv hg, hclaim⟩

lemma credential?_eq_some_iff (hw : WellFormed inp) {id : String} {c : CredentialSpec} :
    inp.credential? id = some c ↔ c ∈ inp.credentials ∧ c.id = id := by
  constructor
  · intro hc
    exact ⟨List.mem_of_find?_eq_some hc, by simpa using List.find?_some hc⟩
  · rintro ⟨hc, rfl⟩
    cases hd : inp.credential? c.id with
    | none => exact absurd (List.find?_eq_none.1 hd c hc) (by simp)
    | some d =>
        have hmem := List.mem_of_find?_eq_some hd
        have hid : d.id = c.id := by simpa using List.find?_some hd
        rw [List.inj_on_of_nodup_map hw.credentials hmem hc hid]

lemma mem_initialCreds (hw : WellFormed inp) {c : CredentialSpec} :
    c ∈ initialCreds (viewCtx inp view) ↔ c ∈ inp.credentials ∧
      ∃ f ∈ usedFacts (viewCtx inp view), f.claim = .possessesCredential c.id := by
  have hfrom : ∀ {d}, d ∈ initialCreds (viewCtx inp view) → d ∈ inp.credentials ∧
      ∃ f ∈ usedFacts (viewCtx inp view), f.claim = .possessesCredential d.id := by
    intro d hd
    obtain ⟨f, hf, hclaim⟩ := List.mem_filterMap.1 (Table.mem_of_mem_ofList hd)
    split at hclaim
    next id hid =>
      obtain ⟨hmem, rfl⟩ := (credential?_eq_some_iff hw).1 hclaim
      exact ⟨hmem, f, hf, hid⟩
    · cases hclaim
  refine ⟨hfrom, ?_⟩
  rintro ⟨hc, f, hf, hclaim⟩
  obtain ⟨d, hd, hid⟩ : ∃ d ∈ initialCreds (viewCtx inp view), d.id = c.id := by
    refine Table.exists_mem_ofList.2 ⟨c, List.mem_filterMap.2 ⟨f, hf, ?_⟩, rfl⟩
    rw [hclaim]
    exact (credential?_eq_some_iff hw).2 ⟨hc, rfl⟩
  rwa [List.inj_on_of_nodup_map hw.credentials (hfrom hd).1 hc hid] at hd

lemma initialCreds_within (h : inp.Within inp') (hv : view.Within view') (hw : WellFormed inp)
    (hw' : WellFormed inp') {c : CredentialSpec} (hc : c ∈ initialCreds (viewCtx inp view)) :
    c ∈ initialCreds (viewCtx inp' view') := by
  obtain ⟨hmem, f, hf, hclaim⟩ := (mem_initialCreds hw).1 hc
  exact (mem_initialCreds hw').2 ⟨h.credentials hmem, f, usedFacts_within h hv hf, hclaim⟩

/-- If the first run has a possible history, the second has one. -/
lemma hasHistory_within (h : inp.Within inp') (hv : view.Within view') (hw : WellFormed inp)
    (hw' : WellFormed inp') (hh : hasHistory (viewCtx inp view) = true) :
    hasHistory (viewCtx inp' view') = true := by
  rw [hasHistory, Bool.and_eq_true, Bool.or_eq_true, decide_eq_true_eq] at hh ⊢
  obtain ⟨hpossible, hh⟩ := hh
  have htime : (viewCtx inp' view').inp.analysisTime = (viewCtx inp view).inp.analysisTime := h.time
  constructor
  · rcases hv with rfl | rfl
    · exact hpossible
    · rfl
  rcases hh with hne | hexp
  · obtain ⟨x, hx⟩ := List.exists_mem_of_ne_nil _ hne
    exact .inl (List.ne_nil_of_mem (historical_within h hv hx))
  · obtain ⟨c, hc, hexp⟩ := List.any_eq_true.1 hexp
    refine .inr (List.any_eq_true.2 ⟨c, initialCreds_within h hv hw hw' hc, ?_⟩)
    rw [htime]
    exact hexp

end

lemma contains_historyEnv {env : Env} {pods : List (String × String × String)}
    {x : String × String × String} (hx : x ∈ pods) :
    ∃ p ∈ (historyEnv env pods).pods, p.uid = x.1 := by
  induction pods generalizing env with
  | nil => cases hx
  | cons y pods ih =>
      rcases List.mem_cons.1 hx with rfl | hx
      · have hgrow := historyEnv_grows (historyEnv env [x]) pods
        obtain ⟨p, hp, hu⟩ : ∃ p ∈ (historyEnv env [x]).pods, p.uid = x.1 := by
          simp only [historyEnv, List.foldl_cons, List.foldl_nil]
          split_ifs with hc
          · exact Table.contains_iff.1 hc
          · exact ⟨_, Table.mem_put_self, rfl⟩
        exact ⟨p, hgrow.pods p hp, hu⟩
      · exact ih hx

namespace Engine

variable {inp inp' : AnalysisInput} {view view' : View} {φ : Phase} {s t : ViewState} {B B' : Env}

lemma PhaseBase.sameCluster (h : inp.Within inp') (hw : WellFormed inp) (hw' : WellFormed inp')
    (hB : PhaseBase inp view φ B) (hB' : PhaseBase inp' view' φ B') : SameCluster B B' := by
  cases φ with
  | history =>
      have hgrows : ∀ {inp : AnalysisInput} {view : View} {B : Env}, PhaseBase inp view .history B →
          (inventoryEnv inp).Grows B := by
        rintro inp view B (rfl | rfl)
        · exact historyEnv_grows _ _
        · exact (historyEnv_grows _ _).trans (reconcileControllers_grows _)
      exact (h.inventoryEnv hw.inventory hw'.inventory).sameCluster.grows (hgrows hB) (hgrows hB')
  | interval k =>
      obtain rfl := hB
      obtain rfl := hB'
      exact (h.baseEnv hw.inventory hw'.inventory k).sameCluster

lemma written_of_historical {x : String × String × String}
    (hx : x ∈ historical (viewCtx inp view)) : x ∈ writtenPods inp ∧ x.1 ∈ inp.writtenUids := by
  have hgiven : ¬GeneratedPod inp view (createdPod x.2.1 x.2.2 x.1) := fun hg => hg.2 x hx rfl
  exact written_of_not_generated hgiven

/-- The possible history of the second run has the Pods of the first one's, and further historical
Pods. -/
lemma morePods_historyBase (h : inp.Within inp') (hv : view.Within view')
    (hid : IdsApart inp') : (historyBase inp view).MorePods (historyBase inp' view') := by
  have hpods : (inventoryEnv inp').pods = (inventoryEnv inp).pods := by
    rw [inventoryEnv, inventoryEnv, Env.fromInventory, Env.fromInventory, h.inventory]
  have hcontrollers : ∀ {inp : AnalysisInput} {view : View},
      (historyBase inp view).controllers = (inventoryEnv inp).controllers := by
    intro inp view
    rw [historyBase, historyEnv_eq]
  have hcounter : ∀ {inp : AnalysisInput} {view : View},
      (historyBase inp view).controllerPodCounter = ∅ := by
    intro inp view
    rw [historyBase, historyEnv_eq]
    rfl
  have hlast : ∀ {inp : AnalysisInput} {view : View} (cuid : String),
      (historyBase inp view).lastNumber cuid = 0 := by
    intro inp view cuid
    rw [Env.lastNumber, hcounter]
    rfl
  refine ⟨?_, fun cuid => by rw [hlast, hlast], fun cuid => (hlast cuid).ge, fun p hp => ?_,
    fun p hp => ?_⟩
  · rw [hcontrollers, hcontrollers, inventoryEnv, inventoryEnv, Env.fromInventory,
      Env.fromInventory, h.inventory]
  · rcases mem_historyEnv_pods hp with hp | ⟨x, hx, rfl⟩
    · exact (historyEnv_grows _ _).pods p (hpods ▸ hp)
    -- its UID is taken, by a Pod of the inventory or by a historical one, which is the same
    have hx' := historical_within h hv hx
    obtain ⟨q, hq, hu⟩ := @contains_historyEnv (inventoryEnv inp') _ _ hx'
    rcases mem_historyEnv_pods hq with hinv | ⟨y, hy, rfl⟩
    · rw [hpods] at hinv
      have hmem : q ∈ (historyBase inp view).pods := (historyEnv_grows _ _).pods q hinv
      rwa [Table.eq_of_key_eq hp hmem hu.symm]
    · obtain rfl : x = y :=
        hid.pods _ (written_of_historical hx').1 _ (written_of_historical hy).1 hu.symm
      exact hq
  · rcases mem_historyEnv_pods hp with hp | ⟨x, hx, rfl⟩
    · exact .inl ((historyEnv_grows _ _).pods p (hpods ▸ hp))
    · refine .inr ⟨rfl, fun c hc k hk => ?_⟩
      rw [hcontrollers] at hc
      have hc' : c ∈ inp'.inventory.controllers := by
        rw [h.inventory]
        exact Table.mem_of_mem_ofList hc
      exact hid.replacements _ (written_of_historical hx).2 c hc' k hk

/-- In the same phase both runs are in the same cluster. -/
lemma During.sameCluster (h : inp.Within inp') (hw : WellFormed inp) (hw' : WellFormed inp')
    (hs : During inp view φ s) (ht : During inp' view' φ t) : SameCluster s.env t.env := by
  obtain ⟨B, hφ, hB⟩ := hs.over hw
  obtain ⟨B', hφ', hB'⟩ := ht.over hw'
  exact (hφ.sameCluster h hw hw' hφ').of_over hB hB'

lemma settled_of_grows {e e' : Env} (h : Settled e) (hg : e.Grows e')
    (hc : e'.controllers = e.controllers) : Settled e' := by
  intro c hmem
  obtain ⟨p, hp, ho⟩ := ownsPod_iff.1 (h c (hc ▸ hmem))
  exact ownsPod_iff.2 ⟨p, hg.pods p hp, ho⟩

/-- Every controller owns a Pod, except in a possible history in which the attacker has no
controller. -/
lemma During.settled (hw : WellFormed inp) (h : During inp view φ s) :
    Settled s.env ∨ φ = .history ∧ ∀ c ∈ s.env.controllers, isModelUid c.uid = false := by
  induction h with
  | history => exact .inr ⟨rfl, (plain_historyBase hw).controllers⟩
  | first => exact .inl (settled_baseEnv inp 0)
  | afterHistory => exact .inl (settled_baseEnv inp 0)
  | defend => exact .inl (settled_reconcileControllers _)
  | step _ hst ih =>
      cases hst with
      | infer => simpa using ih
      | token => exact ih
      | createPod hm hadm hfree =>
          rw [ViewState.learn_env]
          exact ih.imp_left fun hs => settled_of_grows hs (withPod_grows hfree) rfl
      | createController =>
          rw [ViewState.learn_env]
          exact .inl (settled_reconcileControllers _)
      | unsupportedCredential => simpa using ih
      | unsupportedAdmission => simpa using ih

/-- Where every controller owns a Pod, the Pods are over those of the reconciled phase. -/
lemma During.over_reconciled (hw : WellFormed inp) (h : During inp view .history s)
    (hs : Settled s.env) :
    Over historyInterval (reconcileControllers (historyBase inp view)).1 s.env := by
  obtain ⟨B, rfl | rfl, hB⟩ := h.over hw
  · have hsettled : Settled (historyBase inp view) := by
      intro c hc
      rw [← hB.ownsPod (hB.plain.controllers c hc)]
      exact hs c (hB.mem_controllers hc)
    rw [hsettled.reconcileControllers]
    exact hB
  · exact hB

end Engine

end Afterlock
