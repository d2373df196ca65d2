import Afterlock.Base
import Afterlock.Saturation

/-!
# The run of a view

The full run of a view goes through the possible-history phase, if it has one, and the intervals
`0, 1, …`.  `During` is the run as a transition system: in a phase the attacker takes any steps, and
between two phases the environment changes.
-/

namespace Afterlock

open Prog

/-- The phases of a run. -/
inductive Phase where
  | history
  | interval (k : ℕ)
deriving DecidableEq, Repr

/-- The number the engine records for a phase. -/
def Phase.index : Phase → ℤ
  | history => historyInterval
  | interval k => k

namespace Engine

/-- The context of the full run of a view. -/
def viewCtx (inp : AnalysisInput) (view : View) : Ctx :=
  { inp := inp, view := view, mode := .full, inHistory := false }

/-- The context of a phase. -/
def phaseCtx (inp : AnalysisInput) (view : View) : Phase → Ctx
  | .history => { viewCtx inp view with inHistory := true }
  | .interval _ => viewCtx inp view

variable {inp : AnalysisInput} {view : View}

@[simp] lemma phaseCtx_inp (φ : Phase) : (phaseCtx inp view φ).inp = inp := by cases φ <;> rfl

@[simp] lemma phaseCtx_mode (φ : Phase) : (phaseCtx inp view φ).mode = .full := by cases φ <;> rfl

/-- The state in which the possible-history phase begins: historical Pods exist again and are
controlled. -/
def enterHistory (ctx : Ctx) (s : ViewState) : ViewState :=
  { s with env := historyEnv s.env (historical ctx)
           facts := addHistorical s.facts (historical ctx) }

/-- The state with which a phase begins in the environment `env`. -/
def enter (s : ViewState) (env : Env) (goals : Table Derivation.fact)
    (records : List IntervalRecord) : ViewState :=
  { s with eph := ∅, env := env, goalsFinal := goals, intervals := records }

@[simp] lemma enter_facts (s : ViewState) (env : Env) (goals : Table Derivation.fact)
    (records : List IntervalRecord) : (enter s env goals records).facts = s.facts := rfl

@[simp] lemma enter_creds (s : ViewState) (env : Env) (goals : Table Derivation.fact)
    (records : List IntervalRecord) : (enter s env goals records).creds = s.creds := rfl

@[simp] lemma enter_env (s : ViewState) (env : Env) (goals : Table Derivation.fact)
    (records : List IntervalRecord) : (enter s env goals records).env = env := rfl

@[simp] lemma enter_unknowns (s : ViewState) (env : Env) (goals : Table Derivation.fact)
    (records : List IntervalRecord) : (enter s env goals records).unknowns = s.unknowns := rfl

@[simp] lemma enter_has {s : ViewState} {env : Env} {goals : Table Derivation.fact}
    {records : List IntervalRecord} {f : Fact} : (enter s env goals records).Has f ↔ s.Has f :=
  Iff.rfl

/-- The states of the run of a view, with the attacker's steps in any order.  The table of final
goals and the list of interval records play no part in the steps. -/
inductive During (inp : AnalysisInput) (view : View) : Phase → ViewState → Prop
  | history (h : hasHistory (viewCtx inp view) = true) :
      During inp view .history
        (opening (enterHistory (viewCtx inp view) (initialState (viewCtx inp view))))
  | first (h : hasHistory (viewCtx inp view) = false) :
      During inp view (.interval 0) (enter (initialState (viewCtx inp view)) (baseEnv inp 0) ∅ [])
  | afterHistory {s : ViewState} (h : During inp view .history s) :
      During inp view (.interval 0) (enter s (baseEnv inp 0) ∅ [])
  | defend {k : ℕ} {s : ViewState} {a : DefenderAction} {goals : Table Derivation.fact}
      {records : List IntervalRecord} (h : During inp view (.interval k) s)
      (ha : inp.remediation[k]? = some a) :
      During inp view (.interval (k + 1)) (enter s (Afterlock.defend s.env a) goals records)
  | step {φ : Phase} {s t : ViewState} (h : During inp view φ s)
      (hst : Step (phaseCtx inp view φ) φ.index s t) : During inp view φ t

lemma During.steps {φ : Phase} {s t : ViewState} (h : During inp view φ s)
    (hst : Steps (phaseCtx inp view φ) φ.index s t) : During inp view φ t := by
  induction hst with
  | refl => exact h
  | tail _ hst ih => exact ih.step hst

/-! ### The environment during a run -/

/-- The environment of the possible-history phase without the attacker. -/
def historyBase (inp : AnalysisInput) (view : View) : Env :=
  historyEnv (inventoryEnv inp) (historical (viewCtx inp view))

/-- A Pod of the history environment is one of the inventory or a historical one. -/
lemma mem_historyEnv_pods {env : Env} {pods : List (String × String × String)} {p : Pod}
    (h : p ∈ (historyEnv env pods).pods) :
    p ∈ env.pods ∨ ∃ x ∈ pods, p = createdPod x.2.1 x.2.2 x.1 := by
  unfold historyEnv at h
  induction pods generalizing env with
  | nil => exact Or.inl h
  | cons x pods ih =>
      rw [List.foldl_cons] at h
      rcases ih h with h | ⟨y, hy, rfl⟩
      · split_ifs at h with hc
        · exact Or.inl h
        · rcases (mem_put_of_contains_eq_false (p := createdPod x.2.1 x.2.2 x.1)
            (show env.pods.contains x.1 = false by simpa using hc)).1 h with rfl | h
          · exact Or.inr ⟨x, List.mem_cons_self, rfl⟩
          · exact Or.inl h
      · exact Or.inr ⟨y, List.mem_cons_of_mem _ hy, rfl⟩

/-- The history environment has the Pods of the inventory and further ones. -/
lemma historyEnv_grows (env : Env) (pods : List (String × String × String)) :
    env.Grows (historyEnv env pods) := by
  unfold historyEnv
  induction pods generalizing env with
  | nil => exact Env.Grows.refl env
  | cons x pods ih =>
      rw [List.foldl_cons]
      refine Env.Grows.trans ?_ (ih _)
      split_ifs with hc
      · exact Env.Grows.refl env
      · refine ⟨rfl, rfl, rfl, rfl, rfl, rfl, rfl, fun p hp => ?_, fun _ hd => hd⟩
        exact (mem_put_of_contains_eq_false (p := createdPod x.2.1 x.2.2 x.1)
          (show env.pods.contains x.1 = false by simpa using hc)).2 (.inr hp)

/-- Historical Pods are the only thing in which the history environment differs. -/
lemma historyEnv_eq (env : Env) (pods : List (String × String × String)) :
    historyEnv env pods = { env with pods := (historyEnv env pods).pods } := by
  unfold historyEnv
  induction pods generalizing env with
  | nil => rfl
  | cons x pods ih =>
      rw [List.foldl_cons, ih]
      split_ifs <;> rfl

lemma mem_historical {ctx : Ctx} {x : String × String × String} :
    x ∈ historical ctx ↔ ∃ f ∈ usedFacts ctx, f.claim = .historicalPod x.1 x.2.1 x.2.2 := by
  simp only [historical, List.mem_filterMap]
  constructor
  · rintro ⟨f, hf, h⟩
    split at h
    next uid ns sa hc =>
      cases h
      exact ⟨f, hf, hc⟩
    · cases h
  · rintro ⟨f, hf, h⟩
    exact ⟨f, hf, by rw [h]⟩

lemma isModelUid_of_historical (ctx : Ctx) (hw : WellFormed ctx.inp)
    {x : String × String × String} (hx : x ∈ historical ctx) : isModelUid x.1 = false := by
  obtain ⟨f, hf, hc⟩ := mem_historical.1 hx
  have := hw.facts f (List.mem_filter.1 hf).1
  rw [hc] at this
  exact this

lemma plain_historyBase (hw : WellFormed inp) : Plain (historyBase inp view) := by
  have hp := plain_inventoryEnv hw
  unfold historyBase
  refine ⟨fun p h => ?_, fun c h => ?_, fun p h c hc => ?_⟩
  · rcases mem_historyEnv_pods h with h | ⟨x, hx, rfl⟩
    · exact hp.pods p h
    · exact isModelUid_of_historical (viewCtx inp view) hw hx
  · rw [historyEnv_eq] at h
    exact hp.controllers c h
  · rcases mem_historyEnv_pods h with h | ⟨x, hx, rfl⟩
    · exact hp.owners p h c hc
    · cases hc

/-- The environments that a phase has under the attacker's workloads: that of the interval, and in
the possible history the one with or without the Pods that reconciliation adds. -/
def PhaseBase (inp : AnalysisInput) (view : View) : Phase → Env → Prop
  | .history, B => B = historyBase inp view ∨ B = (reconcileControllers (historyBase inp view)).1
  | .interval k, B => B = baseEnv inp k

/-- Reconciling the environment under a phase gives one that the phase may have. -/
lemma PhaseBase.reconcile {φ : Phase} {B : Env} (h : PhaseBase inp view φ B) :
    PhaseBase inp view φ (reconcileControllers B).1 := by
  cases φ with
  | history =>
      rcases h with rfl | rfl
      · exact Or.inr rfl
      · exact Or.inr (by rw [(settled_reconcileControllers _).reconcileControllers])
  | interval k =>
      obtain rfl := h
      exact congrArg Prod.fst (settled_baseEnv inp k).reconcileControllers

lemma Step.over {ctx : Ctx} {i : ℤ} {s t : ViewState} {B : Env} (hB : Over i B s.env)
    (h : Step ctx i s t) : Over i B t.env ∨ Over i (reconcileControllers B).1 t.env := by
  cases h with
  | infer => exact Or.inl (by simpa using hB)
  | token => exact Or.inl hB
  | createPod =>
      rw [ViewState.learn_env]
      exact Or.inl (hB.putPod (.created le_rfl))
  | createController =>
      rw [ViewState.learn_env]
      exact Or.inr ((hB.putController ⟨_, _, _, le_rfl, rfl⟩).putCounter
        (c := modelControllerUid _ _ i) (isModelUid_modelControllerUid _ _ _) (-1)).reconcile
  | unsupportedCredential => exact Or.inl (by simpa using hB)
  | unsupportedAdmission => exact Or.inl (by simpa using hB)

/-- In every state of a run the environment is that of the phase, with workloads of the attacker. -/
theorem During.over (hw : WellFormed inp) {φ : Phase} {s : ViewState}
    (h : During inp view φ s) : ∃ B, PhaseBase inp view φ B ∧ Over φ.index B s.env := by
  induction h with
  | history => exact ⟨_, Or.inl rfl, Over.refl (plain_historyBase hw)⟩
  | first => exact ⟨_, rfl, Over.refl (plain_baseEnv hw 0)⟩
  | afterHistory => exact ⟨_, rfl, Over.refl (plain_baseEnv hw 0)⟩
  | @defend k s a goals records _ ha ih =>
      obtain ⟨B, rfl, hB⟩ := ih
      refine ⟨_, rfl, ?_⟩
      rw [baseEnv_succ ha]
      exact (hB.defend a).mono (by simp [Phase.index])
  | step _ hst ih =>
      obtain ⟨B, hφ, hB⟩ := ih
      rcases hst.over hB with h | h
      · exact ⟨B, hφ, h⟩
      · exact ⟨_, hφ.reconcile, h⟩

/-! ### The facts a run begins with -/

lemma has_initialState {ctx : Ctx} {f : Fact} :
    (initialState ctx).Has f ↔ ∃ g ∈ usedFacts ctx, initialFactOf g.claim = some f := by
  simp only [ViewState.Has, initialState, initialFacts, Table.exists_mem_ofList,
    List.mem_filterMap, Option.map_eq_some_iff]
  constructor
  · rintro ⟨_, ⟨g, hg, f, hf, rfl⟩, rfl⟩
    exact ⟨g, hg, hf⟩
  · rintro ⟨g, hg, hf⟩
    exact ⟨_, ⟨g, hg, f, hf, rfl⟩, rfl⟩

lemma has_addHistorical {facts : Table Derivation.fact} {pods : List (String × String × String)}
    {f : Fact} : (∃ d ∈ addHistorical facts pods, d.fact = f) ↔
      (∃ d ∈ facts, d.fact = f) ∨ ∃ x ∈ pods, f = .controlsPod x.1 := by
  unfold addHistorical
  induction pods generalizing facts with
  | nil => simp
  | cons x pods ih =>
      rw [List.foldl_cons, ih]
      split_ifs with hc
      · constructor
        · rintro (h | ⟨y, hy, rfl⟩)
          · exact Or.inl h
          · exact Or.inr ⟨y, List.mem_cons_of_mem _ hy, rfl⟩
        · rintro (h | ⟨y, hy, rfl⟩)
          · exact Or.inl h
          · rcases List.mem_cons.1 hy with rfl | hy
            · exact Or.inl (Table.contains_iff.1 hc)
            · exact Or.inr ⟨y, hy, rfl⟩
      · rw [Table.exists_mem_put]
        simp only [List.mem_cons, exists_eq_or_imp, historicalDerivation]
        constructor
        · rintro ((rfl | h) | h)
          · exact Or.inr (Or.inl rfl)
          · exact Or.inl h
          · exact Or.inr (Or.inr h)
        · rintro (h | rfl | h)
          · exact Or.inl (Or.inr h)
          · exact Or.inl (Or.inl rfl)
          · exact Or.inr h

lemma has_enterHistory {ctx : Ctx} {s : ViewState} {f : Fact} :
    (enterHistory ctx s).Has f ↔ s.Has f ∨ ∃ x ∈ historical ctx, f = .controlsPod x.1 :=
  has_addHistorical

/-- The Pods and controllers controlled at first have no reserved UID. -/
lemma isModelUid_of_initial (ctx : Ctx) (hw : WellFormed ctx.inp) (uid : String)
    (h : (initialState ctx).Has (.controlsPod uid) ∨
      (initialState ctx).Has (.controlsController uid)) : isModelUid uid = false := by
  rcases h with h | h <;>
  · obtain ⟨g, hg, hf⟩ := has_initialState.1 h
    have hgood := hw.facts g (List.mem_filter.1 hg).1
    cases hc : g.claim <;> rw [hc] at hf hgood <;> cases hf
    exact hgood

/-! ### UIDs of an interval -/

/-- A Pod or controller with the UID of a workload is as old as the UID says. -/
lemma Over.dated {i : ℤ} {B E : Env} (h : Over i B E) {ns sa : String} {j : ℤ} :
    ((∃ p ∈ E.pods, p.uid = modelPodUid ns sa j) → j ≤ i) ∧
      ((∃ c ∈ E.controllers, c.uid = modelControllerUid ns sa j) → j ≤ i) := by
  constructor
  · rintro ⟨p, hp, hu⟩
    rcases h.pod_cases hp with hp | hp
    · have := h.plain.pods p hp
      rw [hu, isModelUid_modelPodUid] at this
      cases this
    · cases hp with
      | created hj => exact modelPodUid_index hu ▸ hj
      | @owned ns' sa' j' k hj =>
          have h1 : Text.hasPrefix modelDeployPrefix
              (replacementUid (modelControllerUid ns' sa' j') k) = true :=
            hasPrefix_append_of_hasPrefix (hasPrefix_append_of_hasPrefix (by simp))
          have h2 := not_hasPrefix_modelPod_of_modelDeploy h1
          have h3 : replacementUid (modelControllerUid ns' sa' j') k = modelPodUid ns sa j := hu
          rw [h3, hasPrefix_modelPodUid] at h2
          cases h2
  · rintro ⟨c, hc, hu⟩
    rcases h.controller_cases hc with hc | ⟨ns', sa', j', hj, rfl⟩
    · have := h.plain.controllers c hc
      rw [hu, isModelUid_modelControllerUid] at this
      cases this
    · exact modelControllerUid_index hu ▸ hj

/-- A controlled workload is of an interval that has come, and one of the present interval
exists. -/
structure Aged (i : ℤ) (s : ViewState) : Prop where
  pods : ∀ ns sa j, s.Has (.controlsPod (modelPodUid ns sa j)) →
    j ≤ i ∧ (j = i → ∃ p ∈ s.env.pods, p.uid = modelPodUid ns sa j)
  controllers : ∀ ns sa j, s.Has (.controlsController (modelControllerUid ns sa j)) →
    j ≤ i ∧ (j = i → ∃ c ∈ s.env.controllers, c.uid = modelControllerUid ns sa j)

lemma Aged.dated {i : ℤ} {s : ViewState} (h : Aged i s) : Dated i s where
  pods ns sa hs := Table.contains_iff.2 ((h.pods ns sa i hs).2 rfl)
  controllers ns sa hs := Table.contains_iff.2 ((h.controllers ns sa i hs).2 rfl)

/-- In a later interval all controlled workloads are older. -/
lemma Aged.later {i j : ℤ} {s t : ViewState} (h : Aged i s) (hij : i < j)
    (hst : ∀ f, t.Has f → s.Has f) : Aged j t where
  pods ns sa k hk := by
    have := (h.pods ns sa k (hst _ hk)).1
    exact ⟨by omega, fun he => by omega⟩
  controllers ns sa k hk := by
    have := (h.controllers ns sa k (hst _ hk)).1
    exact ⟨by omega, fun he => by omega⟩

/-- Where no workload is controlled, none is too young. -/
lemma aged_of_plain {i : ℤ} {s : ViewState}
    (h : ∀ uid, s.Has (.controlsPod uid) ∨ s.Has (.controlsController uid) →
      isModelUid uid = false) : Aged i s where
  pods ns sa j hs := by
    have := h _ (Or.inl hs)
    rw [isModelUid_modelPodUid] at this
    cases this
  controllers ns sa j hs := by
    have := h _ (Or.inr hs)
    rw [isModelUid_modelControllerUid] at this
    cases this

lemma Aged.step {ctx : Ctx} {i : ℤ} {s t : ViewState} {B : Env} (h : Aged i s)
    (hB : Over i B s.env) (hst : Step ctx i s t) : Aged i t where
  pods ns sa j hs := by
    have hpod : ∀ p ∈ s.env.pods, p.uid = modelPodUid ns sa j →
        j ≤ i ∧ (j = i → ∃ p ∈ t.env.pods, p.uid = modelPodUid ns sa j) := fun p hp hu =>
      ⟨(Over.dated hB).1 ⟨p, hp, hu⟩, fun _ => ⟨p, hst.grows.pods p hp, hu⟩⟩
    rcases hst.has_cases hs with hs | hg
    · obtain ⟨h1, h2⟩ := h.pods ns sa j hs
      refine ⟨h1, fun he => ?_⟩
      obtain ⟨p, hp, hu⟩ := h2 he
      exact ⟨p, hst.grows.pods p hp, hu⟩
    · generalize hf : Fact.controlsPod (modelPodUid ns sa j) = f at hg
      cases hg with
      | ownedPod _ hp _ => exact hpod _ hp (Fact.controlsPod.inj hf).symm
      | execPod _ hp _ => exact hpod _ hp (Fact.controlsPod.inj hf).symm
      | createdPod _ _ hp =>
          have hu := Fact.controlsPod.inj hf
          exact ⟨(modelPodUid_index hu).le, fun _ => ⟨_, hp, hu.symm⟩⟩
      | _ => cases hf
  controllers ns sa j hs := by
    rcases hst.has_cases hs with hs | hg
    · obtain ⟨h1, h2⟩ := h.controllers ns sa j hs
      refine ⟨h1, fun he => ?_⟩
      obtain ⟨c, hc, hu⟩ := h2 he
      exact ⟨c, hst.grows.controllers c hc, hu⟩
    · generalize hf : Fact.controlsController (modelControllerUid ns sa j) = f at hg
      cases hg with
      | createdController _ _ hc =>
          have hu := Fact.controlsController.inj hf
          exact ⟨(modelControllerUid_index hu).le, fun _ => ⟨_, hc, hu.symm⟩⟩
      | _ => cases hf

theorem During.aged (hw : WellFormed inp) {φ : Phase} {s : ViewState} (h : During inp view φ s) :
    Aged φ.index s := by
  have hinit := isModelUid_of_initial (viewCtx inp view) hw
  induction h with
  | history =>
      refine aged_of_plain fun uid hu => ?_
      rcases hu with hu | hu
      · rcases has_enterHistory.1 hu with hu | ⟨x, hx, he⟩
        · exact hinit uid (Or.inl hu)
        · cases he
          exact isModelUid_of_historical (viewCtx inp view) hw hx
      · rcases has_enterHistory.1 hu with hu | ⟨x, hx, he⟩
        · exact hinit uid (Or.inr hu)
        · cases he
  | first => exact aged_of_plain hinit
  | afterHistory _ ih => exact ih.later (by decide) fun _ h => h
  | defend _ _ ih => exact ih.later (by simp [Phase.index]) fun _ h => h
  | step h hst ih =>
      obtain ⟨B, -, hB⟩ := h.over hw
      exact ih.step hB hst

/-! ### The attacker's workloads are controlled -/

/-- Every workload of the attacker's that exists is controlled. -/
structure Owned (s : ViewState) : Prop where
  pods : ∀ p ∈ s.env.pods, Text.hasPrefix modelPodPrefix p.uid = true → s.Has (.controlsPod p.uid)
  controllers : ∀ c ∈ s.env.controllers, Text.hasPrefix modelDeployPrefix c.uid = true →
    s.Has (.controlsController c.uid)

lemma isModelUid_of_hasPrefix {uid : String}
    (h : Text.hasPrefix modelPodPrefix uid = true ∨ Text.hasPrefix modelDeployPrefix uid = true) :
    isModelUid uid = true := by
  rcases h with h | h <;> simp [isModelUid, h]

lemma owned_of_plain {s : ViewState} (h : Plain s.env) : Owned s where
  pods p hp hu := by
    have := h.pods p hp
    rw [isModelUid_of_hasPrefix (Or.inl hu)] at this
    cases this
  controllers c hc hu := by
    have := h.controllers c hc
    rw [isModelUid_of_hasPrefix (Or.inr hu)] at this
    cases this

/-- No controller has the UID of a created Pod. -/
lemma Over.not_modelPod {i : ℤ} {B E : Env} (h : Over i B E) {c : Controller}
    (hc : c ∈ E.controllers) : Text.hasPrefix modelPodPrefix c.uid = false := by
  rcases h.controller_cases hc with hc | ⟨ns, sa, j, -, rfl⟩
  · by_contra hp
    have := h.plain.controllers c hc
    rw [isModelUid_of_hasPrefix (Or.inl (by simpa using hp))] at this
    cases this
  · exact not_hasPrefix_modelPod_of_modelDeploy (hasPrefix_modelControllerUid ns sa j)

/-- Reconciliation adds no Pod with the UID of a created one. -/
lemma mem_of_mem_reconcileControllers {env : Env} {p : Pod}
    (hc : ∀ c ∈ env.controllers, Text.hasPrefix modelPodPrefix c.uid = false)
    (hp : p ∈ (reconcileControllers env).1.pods)
    (hu : Text.hasPrefix modelPodPrefix p.uid = true) : p ∈ env.pods := by
  rcases mem_reconcileControllers_pods hp with hp | ⟨c, hcm, k, rfl, -⟩
  · exact hp
  · rw [replacementPod, modelPodPrefix_eq, hasPrefix_replacementUid, ← modelPodPrefix_eq,
      hc c hcm] at hu
    cases hu

/-- A Pod with the UID of a created one was there before the step, or is the one created in it. -/
lemma Step.modelPod_cases {ctx : Ctx} {i : ℤ} {s t : ViewState} {B : Env} (hB : Over i B s.env)
    (h : Step ctx i s t) {p : Pod} (hp : p ∈ t.env.pods)
    (hu : Text.hasPrefix modelPodPrefix p.uid = true) :
    p ∈ s.env.pods ∨ ∃ cred ns sa, MayCreate ctx s cred ns sa .pod ∧
      (admissionDecision s.env cred.username ns sa).outcome = .allow ∧
      p = createdPod ns sa (modelPodUid ns sa i) ∧ t.Has (.controlsPod p.uid) := by
  cases h with
  | infer => exact Or.inl (by simpa using hp)
  | token => exact Or.inl hp
  | @createPod cred ns sa hm hadm hfree =>
      rw [ViewState.learn_env] at hp
      rcases (mem_put_of_contains_eq_false
        (p := createdPod ns sa (modelPodUid ns sa i)) hfree).1 hp with rfl | hp
      · exact Or.inr ⟨cred, ns, sa, hm, hadm, rfl, (ViewState.has_learn rfl).2 (Or.inr rfl)⟩
      · exact Or.inl hp
  | @createController cred ns sa =>
      rw [ViewState.learn_env] at hp
      have key := mem_of_mem_reconcileControllers (p := p) (fun c hc => ?_) hp hu
      · exact Or.inl key
      rcases Table.mem_put.1 hc with rfl | ⟨hc, -⟩
      · exact not_hasPrefix_modelPod_of_modelDeploy (hasPrefix_modelControllerUid ns sa i)
      · exact Over.not_modelPod hB hc
  | unsupportedCredential => exact Or.inl (by simpa using hp)
  | unsupportedAdmission => exact Or.inl (by simpa using hp)

/-- A controller was there before the step, or is the one created in it. -/
lemma Step.controller_cases {ctx : Ctx} {i : ℤ} {s t : ViewState} (h : Step ctx i s t)
    {c : Controller} (hc : c ∈ t.env.controllers) :
    c ∈ s.env.controllers ∨ ∃ cred ns sa, MayCreate ctx s cred ns sa .controller ∧
      (admissionDecision s.env cred.username ns sa).outcome = .allow ∧
      c = createdController ns sa (modelControllerUid ns sa i) ∧
      t.Has (.controlsController c.uid) := by
  cases h with
  | infer => exact Or.inl (by simpa using hc)
  | token => exact Or.inl hc
  | createPod =>
      rw [ViewState.learn_env] at hc
      exact Or.inl hc
  | @createController cred ns sa hm hadm hfree =>
      rw [ViewState.learn_env] at hc
      simp only [withController, Env.addController, reconcileControllers_controllers] at hc
      rcases Table.mem_put.1 hc with rfl | ⟨hc, -⟩
      · exact Or.inr ⟨cred, ns, sa, hm, hadm, rfl, (ViewState.has_learn rfl).2 (Or.inr rfl)⟩
      · exact Or.inl hc
  | unsupportedCredential => exact Or.inl (by simpa using hc)
  | unsupportedAdmission => exact Or.inl (by simpa using hc)

lemma Owned.step {ctx : Ctx} {i : ℤ} {s t : ViewState} {B : Env} (h : Owned s)
    (hB : Over i B s.env) (hst : Step ctx i s t) : Owned t where
  pods p hp hu := by
    rcases hst.modelPod_cases hB hp hu with hp | ⟨-, -, -, -, -, -, hs⟩
    · exact hst.has (h.pods p hp hu)
    · exact hs
  controllers c hc hu := by
    rcases hst.controller_cases hc with hc | ⟨-, -, -, -, -, -, hs⟩
    · exact hst.has (h.controllers c hc hu)
    · exact hs

theorem During.owned (hw : WellFormed inp) {φ : Phase} {s : ViewState} (h : During inp view φ s) :
    Owned s := by
  induction h with
  | history => exact owned_of_plain (plain_historyBase hw)
  | first => exact owned_of_plain (plain_baseEnv hw 0)
  | afterHistory => exact owned_of_plain (plain_baseEnv hw 0)
  | @defend k s a goals records h _ ih =>
      obtain ⟨B, -, hB⟩ := h.over hw
      refine ⟨fun p hp hu => ih.pods p ?_ hu, fun c hc hu => ih.controllers c ?_ hu⟩
      · refine mem_applyDefenderAction_pods (mem_of_mem_reconcileControllers (fun c hc => ?_) hp hu)
        exact Over.not_modelPod hB (mem_applyDefenderAction_controllers hc)
      · rw [enter_env, Afterlock.defend, reconcileControllers_controllers] at hc
        exact mem_applyDefenderAction_controllers hc
  | step h hst ih =>
      obtain ⟨B, -, hB⟩ := h.over hw
      exact ih.step hB hst

end Engine

end Afterlock
