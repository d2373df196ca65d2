import Afterlock.Identifiers

/-!
# Replacement Pods

The UID of a replacement Pod is that of its controller with a number, which only grows.  Whether it
is new depends on the Pods of the inventory: it is in every run exactly if none of them has the UID
of a replacement (`replacementsNew_iff`), since numbers start at one whatever the inventory has.
-/

namespace Afterlock

open Engine

/-! ### Runs of the environment -/

/-- A moment of a run: the environment, the number of the interval, and the UIDs of all the Pods
that have existed so far. -/
structure Moment where
  env : Env
  index : ℤ
  past : Set String

/-- The moment at which the environment becomes `env`. -/
def Moment.after (m : Moment) (index : ℤ) (env : Env) : Moment where
  env := env
  index := index
  past := m.past ∪ env.podUids

@[simp] lemma Moment.after_env (m : Moment) (index : ℤ) (env : Env) :
    (m.after index env).env = env := rfl

@[simp] lemma Moment.after_index (m : Moment) (index : ℤ) (env : Env) :
    (m.after index env).index = index := rfl

/-- The environment with a controller that has no Pod yet. -/
def Env.withController (env : Env) (c : Controller) : Env :=
  { env with controllers := env.controllers.put c
             controllerPodCounter := env.controllerPodCounter.put (c.uid, -1) }

/-- What happens to the environment, with the replacement Pods that come into being: the controllers
are reconciled, a defender acts and they are reconciled, or the attacker creates a workload. -/
inductive Happens : Moment → List Pod → Moment → Prop
  | reconcile {m : Moment} :
      Happens m (reconcileControllers m.env).2 (m.after m.index (reconcileControllers m.env).1)
  | defend {m : Moment} {a : DefenderAction} (ha : a.Good) :
      Happens m (reconcileControllers (applyDefenderAction m.env a).1).2
        (m.after (m.index + 1) (Afterlock.defend m.env a))
  | createPod {m : Moment} {ns sa : String}
      (hfree : m.env.pods.contains (modelPodUid ns sa m.index) = false) :
      Happens m [] (m.after m.index
        { m.env with pods := m.env.pods.put (createdPod ns sa (modelPodUid ns sa m.index)) })
  | createController {m : Moment} {ns sa : String}
      (hfree : m.env.controllers.contains (modelControllerUid ns sa m.index) = false) :
      Happens m (reconcileControllers (m.env.withController
          (createdController ns sa (modelControllerUid ns sa m.index)))).2
        (m.after m.index (Engine.Env.addController m.env
          (createdController ns sa (modelControllerUid ns sa m.index))))

/-- The moment of the inventory. The interval that follows may have any number: the baselines act
on the inventory before the interval they evaluate. -/
def Moment.start (inp : AnalysisInput) (index : ℤ) : Moment where
  env := inventoryEnv inp
  index := index
  past := (inventoryEnv inp).podUids

/-- One moment comes after another in a run. -/
abbrev Later : Moment → Moment → Prop :=
  Relation.ReflTransGen fun m m' => ∃ pods, Happens m pods m'

/-- The moments of the runs over an input. -/
def Reached (inp : AnalysisInput) (m : Moment) : Prop := ∃ i, Later (Moment.start inp i) m

lemma Reached.later {inp : AnalysisInput} {m m' : Moment} (h : Reached inp m) (h' : Later m m') :
    Reached inp m' := by
  obtain ⟨i, hi⟩ := h
  exact ⟨i, hi.trans h'⟩

lemma Reached.happens {inp : AnalysisInput} {m m' : Moment} {pods : List Pod} (h : Reached inp m)
    (h' : Happens m pods m') : Reached inp m' :=
  h.later (.single ⟨pods, h'⟩)

/-- In every run replacement Pods are new, and a token bound to a Pod that is gone stays useless. -/
structure ReplacementsNew (inp : AnalysisInput) : Prop where
  new : ∀ m pods m', Reached inp m → Happens m pods m' →
    (∀ p ∈ pods, p.uid ∉ m.past) ∧ (pods.map Pod.uid).Nodup
  useless : ∀ m m', Reached inp m → Later m m' → ∀ cred uid, cred.boundPodUid = some uid →
    uid ∈ m.past → uid ∉ m.env.podUids → ∀ profile time,
      (credentialUsable m'.env cred profile time).usable = false

/-- No Pod of the inventory has the UID of a replacement. -/
def Inventory.UidsApart (inv : Inventory) : Prop :=
  ∀ p ∈ inv.pods, ∀ c ∈ inv.controllers, ∀ k, 1 ≤ k → p.uid ≠ replacementUid c.uid k

/-! ### The engine's runs -/

section

variable {inp : AnalysisInput} {view : View}

/-- An attacker's step leaves the environment alone or creates a workload in it. -/
lemma Engine.Step.happens {ctx : Ctx} {s t : ViewState} {m : Moment} (h : Step ctx m.index s t)
    (hm : m.env = s.env) : t.env = s.env ∨ ∃ pods m', Happens m pods m' ∧ m'.env = t.env ∧
      m'.index = m.index := by
  obtain ⟨env, i, past⟩ := m
  obtain rfl : env = s.env := hm
  cases h with
  | createPod _ _ hfree => exact Or.inr ⟨_, _, .createPod hfree, by simp [withPod], rfl⟩
  | createController _ _ hfree =>
      exact Or.inr ⟨_, _, .createController hfree, by simp [withController], rfl⟩
  | infer => exact Or.inl (by simp)
  | token => exact Or.inl rfl
  | unsupportedCredential => exact Or.inl (by simp)
  | unsupportedAdmission => exact Or.inl (by simp)

/-- The environments of the intervals of a run of the engine are those of runs. -/
theorem Engine.During.reached (hw : WellFormed inp) {k : ℕ} {s : ViewState}
    (h : During inp view (.interval k) s) :
    ∃ m, Reached inp m ∧ m.env = s.env ∧ m.index = k := by
  generalize hφ : Phase.interval k = φ at h
  induction h generalizing k with
  | history => cases hφ
  | first =>
      cases hφ
      exact ⟨_, ⟨0, .single ⟨_, .reconcile⟩⟩, rfl, rfl⟩
  | afterHistory =>
      cases hφ
      exact ⟨_, ⟨0, .single ⟨_, .reconcile⟩⟩, rfl, rfl⟩
  | @defend j s a goals records h ha ih =>
      cases hφ
      obtain ⟨m, hm, henv, hi⟩ := ih rfl
      have hgood : a.Good := hw.actions a (List.mem_of_getElem? ha)
      refine ⟨_, hm.happens (.defend hgood), ?_, ?_⟩
      · rw [enter_env, ← henv]
        rfl
      · push_cast
        exact congrArg (· + 1) hi
  | @step φ s t h hst ih =>
      cases hφ
      obtain ⟨m, hm, henv, hi⟩ := ih rfl
      rw [show Phase.index (.interval k) = m.index from hi.symm] at hst
      rcases hst.happens henv with he | ⟨pods, m', hm', he, hi'⟩
      · exact ⟨m, hm, henv.trans he.symm, hi⟩
      · exact ⟨m', hm.happens hm', he, hi'.trans hi⟩

end

/-! ### What has existed -/

/-- A replacement UID is not that of a created Pod, if the controller is from the inventory or one
of the attacker's. -/
lemma replacementUid_ne_modelPodUid {cuid ns sa : String} {j k : ℤ}
    (h : isModelUid cuid = false ∨ ∃ ns sa j, cuid = modelControllerUid ns sa j) :
    replacementUid cuid k ≠ modelPodUid ns sa j := by
  intro he
  have hpre : Text.hasPrefix modelPodPrefix cuid = true := by
    rw [modelPodPrefix_eq, ← hasPrefix_replacementUid (k := k), he, ← modelPodPrefix_eq]
    exact hasPrefix_modelPodUid ns sa j
  rcases h with h | ⟨ns', sa', j', rfl⟩
  · simp [isModelUid, hpre] at h
  · rw [not_hasPrefix_modelPod_of_modelDeploy (hasPrefix_modelControllerUid ns' sa' j')] at hpre
    cases hpre

/-- What the past of a run looks like: the replacements of a controller that exists have numbers up
to its last one, and what the attacker has created in this interval exists. -/
structure Ledger (m : Moment) : Prop where
  present : ∀ p ∈ m.env.pods, p.uid ∈ m.past
  numbered : ∀ c ∈ m.env.controllers, ∀ k, replacementUid c.uid k ∈ m.past →
    k ≤ m.env.lastNumber c.uid
  created : ∀ ns sa j, modelPodUid ns sa j ∈ m.past →
    j < m.index ∨ j = m.index ∧ modelPodUid ns sa j ∈ m.env.podUids
  owned : ∀ ns sa j k, replacementUid (modelControllerUid ns sa j) k ∈ m.past →
    j < m.index ∨ j = m.index ∧ m.env.controllers.contains (modelControllerUid ns sa j) = true
  controllers : ∀ c ∈ m.env.controllers,
    isModelUid c.uid = false ∨ ∃ ns sa j, j ≤ m.index ∧ c.uid = modelControllerUid ns sa j

lemma Moment.after_after {m : Moment} {i j : ℤ} {env env' : Env} (h : env.Grows env') :
    (m.after i env).after j env' = m.after j env' := by
  have hsub : env.podUids ⊆ env'.podUids := fun uid ⟨p, hp, he⟩ => ⟨p, h.pods p hp, he⟩
  simp only [after, Set.union_assoc, Set.union_eq_self_of_subset_left hsub]

namespace Ledger

variable {m : Moment}

lemma podUids_subset (h : Ledger m) : m.env.podUids ⊆ m.past := fun _ ⟨p, hp, he⟩ =>
  he ▸ h.present p hp

lemma after_self (h : Ledger m) : m.after m.index m.env = m := by
  simp only [Moment.after, Set.union_eq_self_of_subset_right h.podUids_subset]

lemma start {inp : AnalysisInput} (hw : WellFormed inp) (hap : inp.inventory.UidsApart) (i : ℤ) :
    Ledger (Moment.start inp i) := by
  have hplain := plain_inventoryEnv hw
  have hpast : ∀ uid ∈ (Moment.start inp i).past, isModelUid uid = false := by
    rintro _ ⟨p, hp, rfl⟩
    exact hplain.pods p hp
  refine ⟨fun p hp => ⟨p, hp, rfl⟩, fun c hc k hk => ?_, fun ns sa j hj => ?_,
    fun ns sa j k hj => ?_, fun c hc => Or.inl (hplain.controllers c hc)⟩
  · obtain ⟨p, hp, he⟩ := hk
    have hzero : (inventoryEnv inp).lastNumber c.uid = 0 := rfl
    show k ≤ (inventoryEnv inp).lastNumber c.uid
    rw [hzero]
    by_contra hlt
    exact hap p (Table.mem_of_mem_ofList hp) c (Table.mem_of_mem_ofList hc) k (by omega) he
  · exact absurd (hpast _ hj) (by simp)
  · exact absurd (hpast _ hj) (by simp)

/-- The UIDs that have existed after a Pod is added. -/
lemma mem_after_past (h : Ledger m) {env : Env} {q : Pod} {i : ℤ} {uid : String}
    (hpods : ∀ p, p ∈ env.pods ↔ p = q ∨ p ∈ m.env.pods) :
    uid ∈ (m.after i env).past ↔ uid = q.uid ∨ uid ∈ m.past := by
  constructor
  · rintro (hu | ⟨p, hp, rfl⟩)
    · exact Or.inr hu
    · rcases (hpods p).1 hp with rfl | hp
      · exact Or.inl rfl
      · exact Or.inr (h.present p hp)
  · rintro (rfl | hu)
    · exact Or.inr ⟨q, (hpods q).2 (Or.inl rfl), rfl⟩
    · exact Or.inl hu

lemma controllers' (h : Ledger m) {c : Controller} (hc : c ∈ m.env.controllers) :
    isModelUid c.uid = false ∨ ∃ ns sa j, c.uid = modelControllerUid ns sa j :=
  (h.controllers c hc).imp id fun ⟨ns, sa, j, _, he⟩ => ⟨ns, sa, j, he⟩

/-- Reconciling a controller gives a Pod that is new. -/
lemma reconcileController (h : Ledger m) {c : Controller} (hc : c ∈ m.env.controllers) :
    Ledger (m.after m.index (Afterlock.reconcileController m.env c).1) ∧
      ∀ p ∈ (Afterlock.reconcileController m.env c).2,
        p.uid ∉ m.past ∧ p ∈ (Afterlock.reconcileController m.env c).1.pods := by
  rcases reconcileController_replaced m.env c with ⟨-, he⟩ | ⟨k, -, hfree, hlast, -, he⟩
  · rw [he, h.after_self]
    exact ⟨h, fun p hp => by cases hp⟩
  have hnew : replacementUid c.uid k ∉ m.past := fun hk => absurd (h.numbered c hc k hk) (by omega)
  have hpast : ∀ uid, uid ∈ (m.after m.index (m.env.replaced c k)).past ↔
      uid = replacementUid c.uid k ∨ uid ∈ m.past := fun uid =>
    h.mem_after_past fun p => Env.mem_replaced_pods hfree
  have hmono : m.env.podUids ⊆ (m.env.replaced c k).podUids := fun uid ⟨p, hp, hu⟩ =>
    ⟨p, (Env.mem_replaced_pods hfree).2 (Or.inr hp), hu⟩
  rw [he]
  refine ⟨⟨fun p hp => Or.inr ⟨p, hp, rfl⟩, fun d hd j hj => ?_, fun ns sa j hj => ?_,
    fun ns sa j l hj => ?_, h.controllers⟩, ?_⟩
  · -- the number of the controller is the one it has just got
    show j ≤ (m.env.replaced c k).lastNumber d.uid
    by_cases hdc : d.uid = c.uid
    · rw [hdc, Env.lastNumber_replaced_self]
      rcases (hpast _).1 hj with hj | hj
      · exact (replacementUid_inj_both hj).2.le
      · have := h.numbered d hd j hj
        rw [hdc] at this
        omega
    · rw [Env.lastNumber_replaced_of_ne hdc]
      refine h.numbered d hd j (((hpast _).1 hj).resolve_left fun hj => ?_)
      exact hdc (replacementUid_inj_both hj).1
  · have hold := ((hpast _).1 hj).resolve_left fun hj =>
      replacementUid_ne_modelPodUid (h.controllers' hc) hj.symm
    exact (h.created ns sa j hold).imp id fun ⟨hi, hp⟩ => ⟨hi, hmono hp⟩
  · rcases (hpast _).1 hj with hj | hj
    · obtain ⟨hcu, -⟩ := replacementUid_inj_both hj
      rcases h.controllers c hc with hplain | ⟨ns', sa', j', hle, hu⟩
      · rw [← hcu] at hplain
        simp at hplain
      · have hi : j = j' := modelControllerUid_index (hcu.trans hu)
        rcases hle.lt_or_eq with hlt | heq
        · exact Or.inl (hi ▸ hlt)
        · exact Or.inr ⟨hi.trans heq, Table.contains_iff.2 ⟨c, hc, hcu.symm⟩⟩
    · exact h.owned ns sa j l hj
  · rintro p hp
    cases hp
    exact ⟨hnew, (Env.mem_replaced_pods hfree).2 (Or.inl rfl)⟩

lemma reconcileEach {cs : List Controller} (h : Ledger m) (hcs : ∀ c ∈ cs, c ∈ m.env.controllers) :
    Ledger (m.after m.index (Afterlock.reconcileEach cs m.env).1) ∧
      (∀ p ∈ (Afterlock.reconcileEach cs m.env).2, p.uid ∉ m.past) ∧
      ((Afterlock.reconcileEach cs m.env).2.map Pod.uid).Nodup := by
  induction cs generalizing m with
  | nil =>
      rw [Afterlock.reconcileEach, h.after_self]
      exact ⟨h, fun p hp => (by cases hp), List.nodup_nil⟩
  | cons c cs ih =>
      obtain ⟨hled, hnew⟩ := h.reconcileController (hcs c List.mem_cons_self)
      obtain ⟨hled', hnew', hnd⟩ := ih hled fun d hd => by
        show d ∈ (Afterlock.reconcileController m.env c).1.controllers
        rw [reconcileController_controllers]
        exact hcs d (List.mem_cons_of_mem _ hd)
      have hpast : m.past ⊆ (m.after m.index (Afterlock.reconcileController m.env c).1).past :=
        Set.subset_union_left
      refine ⟨?_, fun p hp => ?_, ?_⟩
      · rw [reconcileEach_cons_fst, ← Moment.after_after (reconcileEach_grows cs _)]
        exact hled'
      · rcases List.mem_append.1 hp with hp | hp
        · exact (hnew p (Option.mem_toList.1 hp)).1
        · exact fun hu => hnew' p hp (hpast hu)
      · show (List.map Pod.uid ((Afterlock.reconcileController m.env c).2.toList ++ _)).Nodup
        rw [List.map_append]
        refine List.Nodup.append ?_ hnd fun uid hu hu' => ?_
        · cases (Afterlock.reconcileController m.env c).2 <;> simp
        · obtain ⟨p, hp, rfl⟩ := List.mem_map.1 hu
          obtain ⟨q, hq, he⟩ := List.mem_map.1 hu'
          -- the Pod that has just been added exists when the others are
          exact hnew' q hq (he ▸ hled.present p (hnew p (Option.mem_toList.1 hp)).2)

lemma reconcile (h : Ledger m) :
    Ledger (m.after m.index (reconcileControllers m.env).1) ∧
      (∀ p ∈ (reconcileControllers m.env).2, p.uid ∉ m.past) ∧
      ((reconcileControllers m.env).2.map Pod.uid).Nodup :=
  h.reconcileEach fun _ hc => Text.mem_sortedBy.1 hc

/-- After a defender action the past is that of an earlier interval. -/
lemma apply (h : Ledger m) (a : DefenderAction) :
    Ledger ⟨(applyDefenderAction m.env a).1, m.index + 1, m.past⟩ where
  present p hp := h.present p (mem_applyDefenderAction_pods hp)
  numbered c hc k hk := by
    simp only [Env.lastNumber, applyDefenderAction_controllerPodCounter]
    exact h.numbered c (mem_applyDefenderAction_controllers hc) k hk
  created ns sa j hj := Or.inl <| by
    have := h.created ns sa j hj
    show j < m.index + 1
    omega
  owned ns sa j k hj := Or.inl <| by
    have := h.owned ns sa j k hj
    show j < m.index + 1
    omega
  controllers c hc := (h.controllers c (mem_applyDefenderAction_controllers hc)).imp id
    fun ⟨ns, sa, j, hj, he⟩ => ⟨ns, sa, j, hj.trans (Int.le_add_one le_rfl), he⟩

/-- A Pod that the attacker creates is new. -/
lemma createdPod_not_past (h : Ledger m) {ns sa : String}
    (hfree : m.env.pods.contains (modelPodUid ns sa m.index) = false) :
    modelPodUid ns sa m.index ∉ m.past := by
  intro hp
  rcases h.created ns sa m.index hp with hlt | ⟨-, q, hq, hu⟩
  · exact absurd hlt (lt_irrefl _)
  · exact Table.contains_eq_false_iff.1 hfree q hq hu

lemma createPod (h : Ledger m) {ns sa : String}
    (hfree : m.env.pods.contains (modelPodUid ns sa m.index) = false) :
    Ledger (m.after m.index
      { m.env with pods := m.env.pods.put (createdPod ns sa (modelPodUid ns sa m.index)) }) := by
  have hpods : ∀ p, p ∈ m.env.pods.put (createdPod ns sa (modelPodUid ns sa m.index)) ↔
      p = createdPod ns sa (modelPodUid ns sa m.index) ∨ p ∈ m.env.pods := fun p =>
    mem_put_of_contains_eq_false hfree
  have hpast : ∀ uid, uid ∈ (m.after m.index { m.env with
      pods := m.env.pods.put (createdPod ns sa (modelPodUid ns sa m.index)) }).past ↔
      uid = modelPodUid ns sa m.index ∨ uid ∈ m.past := fun uid =>
    h.mem_after_past (q := createdPod ns sa (modelPodUid ns sa m.index)) hpods
  refine ⟨fun p hp => Or.inr ⟨p, hp, rfl⟩, fun c hc k hk => ?_, fun ns' sa' j hj => ?_,
    fun ns' sa' j k hj => ?_, h.controllers⟩
  · refine h.numbered c hc k (((hpast _).1 hk).resolve_left fun he => ?_)
    exact replacementUid_ne_modelPodUid (h.controllers' hc) he
  · rcases (hpast _).1 hj with he | hj
    · exact Or.inr ⟨modelPodUid_index he, ⟨_, (hpods _).2 (Or.inl rfl), he.symm⟩⟩
    · refine (h.created ns' sa' j hj).imp id ?_
      rintro ⟨hi, p, hp, hu⟩
      exact ⟨hi, p, (hpods p).2 (Or.inr hp), hu⟩
  · refine h.owned ns' sa' j k (((hpast _).1 hj).resolve_left fun he => ?_)
    exact replacementUid_ne_modelPodUid (Or.inr ⟨ns', sa', j, rfl⟩) he

/-- A controller that the attacker creates has had no Pods. -/
lemma withController (h : Ledger m) {ns sa : String}
    (hfree : m.env.controllers.contains (modelControllerUid ns sa m.index) = false) :
    Ledger ⟨m.env.withController (createdController ns sa (modelControllerUid ns sa m.index)),
      m.index, m.past⟩ := by
  have hctl : ∀ c, c ∈ m.env.controllers.put
      (createdController ns sa (modelControllerUid ns sa m.index)) ↔
      c = createdController ns sa (modelControllerUid ns sa m.index) ∨ c ∈ m.env.controllers :=
    fun c => Table.mem_put_of_fresh (Table.contains_eq_false_iff.1 hfree)
  refine ⟨h.present, fun c hc k hk => ?_, h.created, fun ns' sa' j k hj => ?_, fun c hc => ?_⟩
  · rcases (hctl c).1 hc with rfl | hc
    · rcases h.owned ns sa m.index k hk with hlt | ⟨-, hp⟩
      · exact absurd hlt (lt_irrefl _)
      · exact absurd (hfree.symm.trans hp) (by decide)
    · have hne : c.uid ≠ modelControllerUid ns sa m.index :=
        Table.contains_eq_false_iff.1 hfree c hc
      simp only [Env.lastNumber, Env.withController]
      rw [Table.get?_put_of_ne (by exact hne)]
      exact h.numbered c hc k hk
  · refine (h.owned ns' sa' j k hj).imp id ?_
    rintro ⟨hi, hp⟩
    obtain ⟨c, hc, hu⟩ := Table.contains_iff.1 hp
    exact ⟨hi, Table.contains_iff.2 ⟨c, (hctl c).2 (Or.inr hc), hu⟩⟩
  · rcases (hctl c).1 hc with rfl | hc
    · exact Or.inr ⟨ns, sa, m.index, le_rfl, rfl⟩
    · exact h.controllers c hc

variable {m' : Moment} {pods : List Pod}

/-- Whatever happens, the past is kept up to date and the replacement Pods are new. -/
lemma happens (h : Ledger m) (hm : Happens m pods m') :
    Ledger m' ∧ (∀ p ∈ pods, p.uid ∉ m.past) ∧ (pods.map Pod.uid).Nodup := by
  cases hm with
  | reconcile => exact h.reconcile
  | defend => exact (h.apply _).reconcile
  | createPod hfree => exact ⟨h.createPod hfree, by simp, by simp⟩
  | createController hfree => exact (h.withController hfree).reconcile

lemma later (h : Ledger m) (hm : Later m m') : Ledger m' := by
  induction hm with
  | refl => exact h
  | tail _ hst ih =>
      obtain ⟨pods, hst⟩ := hst
      exact (ih.happens hst).1

end Ledger

/-! ### Pods that are gone -/

lemma Happens.past_subset {m m' : Moment} {pods : List Pod} (h : Happens m pods m') :
    m.past ⊆ m'.past := by
  cases h <;> exact Set.subset_union_left

lemma Later.past_subset {m m' : Moment} (h : Later m m') : m.past ⊆ m'.past := by
  induction h with
  | refl => exact Set.Subset.rfl
  | tail _ hst ih =>
      obtain ⟨pods, hst⟩ := hst
      exact ih.trans hst.past_subset

/-- A Pod that is there only after reconciliation is one of those returned. -/
lemma mem_reconcileEach_new {cs : List Controller} {env : Env} {p : Pod}
    (h : p ∈ (reconcileEach cs env).1.pods) : p ∈ env.pods ∨ p ∈ (reconcileEach cs env).2 := by
  induction cs generalizing env with
  | nil => exact Or.inl h
  | cons c cs ih =>
      show p ∈ env.pods ∨ p ∈ (reconcileController env c).2.toList ++ _
      rw [List.mem_append, Option.mem_toList]
      rw [reconcileEach_cons_fst] at h
      rcases ih h with h | h
      · rcases reconcileController_replaced env c with ⟨-, he⟩ | ⟨k, -, hfree, -, -, he⟩
        · rw [he] at h
          exact Or.inl h
        · rw [he] at h
          rcases (Env.mem_replaced_pods hfree).1 h with rfl | h
          · exact Or.inr (Or.inl (by rw [he]))
          · exact Or.inl h
      · exact Or.inr (Or.inr h)

/-- A Pod that comes into being is new. -/
lemma Ledger.not_past_of_new {m m' : Moment} {pods : List Pod} (h : Ledger m)
    (hm : Happens m pods m') {p : Pod} (hp : p ∈ m'.env.pods) (hold : p.uid ∉ m.env.podUids) :
    p.uid ∉ m.past := by
  have hnew : p ∈ pods → p.uid ∉ m.past := (h.happens hm).2.1 p
  have hgone : p ∉ m.env.pods := fun hp => hold ⟨p, hp, rfl⟩
  cases hm with
  | reconcile => exact hnew ((mem_reconcileEach_new hp).resolve_left hgone)
  | defend =>
      refine hnew ((mem_reconcileEach_new hp).resolve_left fun hp => ?_)
      exact hgone (mem_applyDefenderAction_pods hp)
  | createPod hfree =>
      rcases (mem_put_of_contains_eq_false (p := createdPod _ _ _) hfree).1 hp with rfl | hp
      · exact h.createdPod_not_past hfree
      · exact absurd hp hgone
  | createController => exact hnew ((mem_reconcileEach_new hp).resolve_left hgone)

/-- A Pod that has existed and is gone does not come back. -/
lemma Ledger.gone_later {m m' : Moment} (h : Ledger m) (hm : Later m m') {uid : String}
    (hpast : uid ∈ m.past) (hgone : uid ∉ m.env.podUids) :
    uid ∈ m'.past ∧ uid ∉ m'.env.podUids := by
  induction hm with
  | refl => exact ⟨hpast, hgone⟩
  | tail hm hst ih =>
      obtain ⟨pods, hst⟩ := hst
      refine ⟨hst.past_subset ih.1, ?_⟩
      rintro ⟨p, hp, rfl⟩
      exact (h.later hm).not_past_of_new hst hp ih.2 ih.1

/-- A credential bound to a Pod that does not exist is not usable. -/
lemma not_usable_of_gone {env : Env} {cred : CredentialSpec} {uid : String}
    (hb : cred.boundPodUid = some uid) (h : uid ∉ env.podUids) (profile : Profile)
    (time : Option ℤ) : (credentialUsable env cred profile time).usable = false := by
  rw [← Bool.not_eq_true, credentialUsable_usable_iff]
  rintro ⟨sa, hok⟩
  obtain ⟨p, hp, hu, -⟩ := hok.boundPod uid hb
  exact h ⟨p, hp, hu⟩

lemma replacementsNew_of_uidsApart {inp : AnalysisInput} (hw : WellFormed inp)
    (hap : inp.inventory.UidsApart) : ReplacementsNew inp where
  new := by
    rintro m pods m' ⟨i, hm⟩ hst
    exact (((Ledger.start hw hap i).later hm).happens hst).2
  useless := by
    rintro m m' ⟨i, hm⟩ hst cred uid hb hpast hgone
    exact not_usable_of_gone hb (((Ledger.start hw hap i).later hm).gone_later hst hpast hgone).2

/-! ### Replacements that are not new -/

section

variable {env : Env} {c : Controller}

/-- Reconciling another controller neither numbers a controller nor gives it Pods, and takes none of
its replacement UIDs. -/
lemma reconcileController_other {d : Controller} {cuid : String} (h : d.uid ≠ cuid) :
    (reconcileController env d).1.lastNumber cuid = env.lastNumber cuid ∧
      (∀ p ∈ (reconcileController env d).1.pods, p.controllerUid = some cuid → p ∈ env.pods) ∧
      ∀ j, replacementUid cuid j ∈ (reconcileController env d).1.podUids →
        replacementUid cuid j ∈ env.podUids := by
  rcases reconcileController_replaced env d with ⟨-, he⟩ | ⟨k, -, hfree, -, -, he⟩
  · rw [he]
    exact ⟨rfl, fun p hp _ => hp, fun j hj => hj⟩
  rw [he]
  refine ⟨Env.lastNumber_replaced_of_ne h.symm, fun p hp ho => ?_, ?_⟩
  · rcases (Env.mem_replaced_pods hfree).1 hp with rfl | hp
    · exact absurd (Option.some.inj ho) h
    · exact hp
  · rintro j ⟨p, hp, hu⟩
    rcases (Env.mem_replaced_pods hfree).1 hp with rfl | hp
    · exact absurd (replacementUid_inj_both hu).1 h
    · exact ⟨p, hp, hu⟩

lemma reconcileEach_other {cs : List Controller} {cuid : String} (h : ∀ d ∈ cs, d.uid ≠ cuid) :
    (reconcileEach cs env).1.lastNumber cuid = env.lastNumber cuid ∧
      ∀ p ∈ (reconcileEach cs env).1.pods, p.controllerUid = some cuid → p ∈ env.pods := by
  induction cs generalizing env with
  | nil => exact ⟨rfl, fun p hp _ => hp⟩
  | cons d cs ih =>
      obtain ⟨hnum, hpods, -⟩ := @reconcileController_other env d cuid (h d List.mem_cons_self)
      obtain ⟨hnum', hpods'⟩ := @ih (reconcileController env d).1
        fun e he => h e (List.mem_cons_of_mem _ he)
      exact ⟨hnum'.trans hnum, fun p hp ho => hpods p (hpods' p hp ho) ho⟩

/-- Reconciling a controller among others: if it owns a Pod nothing changes for it, else it gets
the first number after its last that is free. -/
lemma reconcileEach_number {cs : List Controller} (hnd : (cs.map Controller.uid).Nodup)
    (hc : c ∈ cs) :
    (ownsPod env c.uid = true ∧ (reconcileEach cs env).1.lastNumber c.uid = env.lastNumber c.uid ∧
        ∀ p ∈ (reconcileEach cs env).1.pods, p.controllerUid = some c.uid → p ∈ env.pods) ∨
      ∃ k, env.lastNumber c.uid < k ∧
        (∀ j, env.lastNumber c.uid < j → j < k → replacementUid c.uid j ∈ env.podUids) ∧
        (reconcileEach cs env).1.lastNumber c.uid = k ∧
        replacementPod c k ∈ (reconcileEach cs env).2 := by
  induction cs generalizing env with
  | nil => cases hc
  | cons d cs ih =>
      rw [List.map_cons, List.nodup_cons] at hnd
      have hother : c = d → ∀ e ∈ cs, e.uid ≠ d.uid := fun _ e he hu =>
        hnd.1 (List.mem_map.2 ⟨e, he, hu⟩)
      rw [reconcileEach_cons_fst]
      rcases List.mem_cons.1 hc with rfl | hc
      · obtain ⟨hnum, hpods⟩ :=
          @reconcileEach_other (reconcileController env c).1 cs c.uid (hother rfl)
        rw [hnum]
        rcases reconcileController_replaced env c with ⟨ho, he⟩ | ⟨k, -, hfree, hlt, htaken, he⟩
        · rw [he] at hpods ⊢
          exact Or.inl ⟨ho, rfl, hpods⟩
        · refine Or.inr ⟨k, hlt, htaken, by rw [he]; exact Env.lastNumber_replaced_self, ?_⟩
          show _ ∈ (reconcileController env c).2.toList ++ _
          rw [he]
          exact List.mem_append_left _ (by simp)
      · have hne : c.uid ≠ d.uid := fun hu => hnd.1 (List.mem_map.2 ⟨c, hc, hu⟩)
        -- reconciling the head changes nothing for the controller
        obtain ⟨hnum, hpods, huids⟩ := @reconcileController_other env d c.uid hne.symm
        rw [← hnum]
        rcases @ih (reconcileController env d).1 hnd.2 hc with
          ⟨ho, hlast, hkept⟩ | ⟨k, hlt, htaken, hlast, hmem⟩
        · obtain ⟨p, hp, hpc⟩ := ownsPod_iff.1 ho
          exact Or.inl ⟨ownsPod_iff.2 ⟨p, hpods p hp hpc, hpc⟩, hlast,
            fun p hp hpc => hpods p (hkept p hp hpc) hpc⟩
        · exact Or.inr ⟨k, hlt, fun j hj hjk => huids j (htaken j hj hjk), hlast,
            List.mem_append_right _ hmem⟩

end

/-- A replacement UID of a controller that has existed and is free, with a number that the
controller has not reached. -/
structure Awaits (inp : AnalysisInput) (c : Controller) (k : ℤ) (m : Moment) : Prop where
  reached : Reached inp m
  plain : Plain m.env
  settled : Settled m.env
  controller : c ∈ m.env.controllers
  past : replacementUid c.uid k ∈ m.past
  free : replacementUid c.uid k ∉ m.env.podUids
  below : m.env.lastNumber c.uid < k

/-- The UIDs of the Pods of a controller. -/
def Env.ownedUids (env : Env) (cuid : String) : Finset String :=
  ((env.pods.rows.filter fun p => p.controllerUid == some cuid).map Pod.uid).toFinset

lemma Env.mem_ownedUids {env : Env} {cuid uid : String} :
    uid ∈ env.ownedUids cuid ↔ ∃ p ∈ env.pods, p.controllerUid = some cuid ∧ p.uid = uid := by
  simp [ownedUids, Table.mem_def, and_assoc]

variable {inp : AnalysisInput} {c : Controller} {k : ℤ} {m : Moment}

/-- A Pod is deleted, after which the replacement UID is free: where replacement Pods are new, it
stays free, and the controller has lost a Pod or comes closer to the number. -/
lemma ReplacementsNew.delete (hnew : ReplacementsNew inp) (hm : Reached inp m)
    (hplain : Plain m.env) (hc : c ∈ m.env.controllers) (hpast : replacementUid c.uid k ∈ m.past)
    (hbelow : m.env.lastNumber c.uid < k) {uid : String} (huid : isModelUid uid = false)
    (hfree : ∀ p ∈ m.env.pods, p.uid = replacementUid c.uid k → p.uid = uid) :
    ∃ m', Later m m' ∧ Awaits inp c k m' ∧
      (m.env.lastNumber c.uid < m'.env.lastNumber c.uid ∨
        m'.env.ownedUids c.uid ⊆ (m.env.ownedUids c.uid).erase uid ∧
          m'.env.lastNumber c.uid = m.env.lastNumber c.uid) := by
  have hst : Happens m _ _ := .defend (a := .deletePod uid) huid
  have hreach := hm.happens hst
  have hnotpast := (hnew.new m _ _ hm hst).1
  -- the environment between the deletion and the reconciliation
  set env : Env := { m.env with pods := m.env.pods.erase uid } with henv
  have hfree' : replacementUid c.uid k ∉ env.podUids := by
    rintro ⟨p, hp, hu⟩
    obtain ⟨hp, hne⟩ := Table.mem_erase.1 hp
    exact hne (hfree p hp hu)
  have hnum := @reconcileEach_number env c _
    (show ((Text.sortedBy Controller.uid m.env.controllers.rows).map Controller.uid).Nodup from
      Parse.nodup_map_sortedBy m.env.controllers.nodup)
    (Text.mem_sortedBy.2 hc)
  have hbelow' : (reconcileControllers env).1.lastNumber c.uid < k := by
    rcases hnum with ⟨-, hlast, -⟩ | ⟨l, hlt, htaken, hlast, hmem⟩
    · exact hlast.trans_lt hbelow
    · rw [show (reconcileControllers env).1.lastNumber c.uid = l from hlast]
      rcases lt_trichotomy l k with h | rfl | h
      · exact h
      · exact absurd hpast (hnotpast _ hmem)
      · exact absurd (htaken k hbelow h) hfree'
  refine ⟨_, .single ⟨_, hst⟩, ⟨hreach, ((Over.refl (i := 0) hplain).defend _).plain,
    settled_reconcileControllers _, ?_, Or.inl hpast, ?_, hbelow'⟩, ?_⟩
  · show c ∈ (reconcileControllers env).1.controllers
    rw [reconcileControllers_controllers]
    exact hc
  · rintro ⟨p, hp, hu⟩
    rcases mem_reconcileEach_new hp with hp | hp
    · exact hfree' ⟨p, hp, hu⟩
    · exact hnotpast p hp (hu ▸ hpast)
  · rcases hnum with ⟨-, hlast, hkept⟩ | ⟨l, hlt, -, hlast, -⟩
    · refine Or.inr ⟨fun u hu => ?_, hlast⟩
      obtain ⟨p, hp, ho, rfl⟩ := Env.mem_ownedUids.1 hu
      obtain ⟨hp, hne⟩ := Table.mem_erase.1 (hkept p hp ho)
      exact Finset.mem_erase.2 ⟨hne, Env.mem_ownedUids.2 ⟨p, hp, ho, rfl⟩⟩
    · exact Or.inl (hlt.trans_eq hlast.symm)

/-- By deleting the Pods of the controller one comes closer to the number. -/
lemma Awaits.closer (hnew : ReplacementsNew inp) (h : Awaits inp c k m) :
    ∃ m', Awaits inp c k m' ∧ m.env.lastNumber c.uid < m'.env.lastNumber c.uid := by
  generalize hn : (m.env.ownedUids c.uid).card = n
  induction n using Nat.strong_induction_on generalizing m with
  | _ n ih =>
      obtain ⟨p, hp, ho⟩ := ownsPod_iff.1 (h.settled c h.controller)
      obtain ⟨m', -, h', hlt | ⟨hsub, hlast⟩⟩ := hnew.delete h.reached h.plain h.controller h.past
        h.below (h.plain.pods p hp) fun q hq hu => absurd ⟨q, hq, hu⟩ h.free
      · exact ⟨m', h', hlt⟩
      · have hcard : (m'.env.ownedUids c.uid).card < n := by
          rw [← hn]
          refine (Finset.card_le_card hsub).trans_lt (Finset.card_erase_lt_of_mem ?_)
          exact Env.mem_ownedUids.2 ⟨p, hp, ho, rfl⟩
        obtain ⟨m'', h'', hlt⟩ := ih _ hcard h' rfl
        exact ⟨m'', h'', hlast ▸ hlt⟩

/-- Where replacement Pods are new, no controller can come closer and closer to a number. -/
lemma Awaits.false (hnew : ReplacementsNew inp) (h : Awaits inp c k m) : False := by
  generalize hn : (k - m.env.lastNumber c.uid).toNat = n
  induction n using Nat.strong_induction_on generalizing m with
  | _ n ih =>
      obtain ⟨m', h', hlt⟩ := h.closer hnew
      have hbelow := h'.below
      exact ih _ (by omega) h' rfl

lemma uidsApart_of_replacementsNew (hw : WellFormed inp) (hnew : ReplacementsNew inp) :
    inp.inventory.UidsApart := by
  intro p hp c hc k hk hu
  have hstart : Reached inp (Moment.start inp 0) := ⟨0, .refl⟩
  have hpmem : p ∈ (inventoryEnv inp).pods :=
    (Table.mem_ofList hw.inventory.pods).2 hp
  have hcmem : c ∈ (inventoryEnv inp).controllers :=
    (Table.mem_ofList hw.inventory.controllers).2 hc
  obtain ⟨m', -, h', -⟩ := hnew.delete (k := k) hstart (plain_inventoryEnv hw) hcmem
    ⟨p, hpmem, hu⟩ (show (0 : ℤ) < k by omega) (hw.inventory.podUids p hp)
    fun q hq hq' => hq'.trans hu.symm
  exact h'.false hnew

/-- In every run replacement Pods are new, and a token bound to a Pod that is gone stays useless,
exactly if no Pod of the inventory has the UID of a replacement. -/
theorem replacementsNew_iff {raw : Json} {inp : AnalysisInput}
    (h : parseAnalysisInput raw = .ok inp) :
    ReplacementsNew inp ↔ inp.inventory.UidsApart :=
  ⟨uidsApart_of_replacementsNew (wellFormed_of_parse h),
    replacementsNew_of_uidsApart (wellFormed_of_parse h)⟩

/-- A controller with one Pod, under the UID given. -/
def Sample.staffed (podUid : String) : Json :=
  document [("service_accounts", .arr [account "n" "sa"]),
      ("controllers", .arr [controller "n" "c" "sa"]),
      ("pods", .arr [pod "n" podUid "sa" [("controller_uid", .str "c")]])]
    [("objectives", .arr [noSecretRead "o" "n" "s"])]

/-- A Pod of the inventory that has the UID of a replacement is deleted, and the replacement Pod has
its UID. -/
theorem staffed_not_replacementsNew :
    ∃ inp, parseAnalysisInput (Sample.staffed "c-p1") = .ok inp ∧ ¬ReplacementsNew inp := by
  obtain ⟨inp, hinp, hp⟩ := Sample.accepted (Sample.staffed "c-p1")
    (p := fun inp => (inventoryEnv inp).pods.contains "c-p1" &&
      (reconcileControllers (applyDefenderAction (inventoryEnv inp) (.deletePod "c-p1")).1).2.any
        fun p => p.uid == "c-p1")
    (by decide +kernel)
  refine ⟨inp, hinp, fun hnew => ?_⟩
  rw [Bool.and_eq_true, List.any_eq_true] at hp
  obtain ⟨hc, p, hp, hu⟩ := hp
  obtain ⟨q, hq, hqu⟩ := Table.contains_iff.1 hc
  have hst : Happens (Moment.start inp 0) _ _ :=
    .defend (a := .deletePod "c-p1") (show isModelUid "c-p1" = false by decide)
  refine (hnew.new _ _ _ ⟨0, .refl⟩ hst).1 p hp ⟨q, hq, ?_⟩
  rw [hqu, beq_iff_eq.1 hu]

/-- With another UID for the Pod, replacement Pods are new. -/
theorem staffed_replacementsNew :
    ∃ inp, parseAnalysisInput (Sample.staffed "p") = .ok inp ∧ ReplacementsNew inp := by
  obtain ⟨inp, hinp, hp⟩ := Sample.accepted (Sample.staffed "p")
    (p := fun inp => inp.inventory.pods.all fun p => p.uid.length == 1) (by decide +kernel)
  refine ⟨inp, hinp, (replacementsNew_iff hinp).2 fun p hpod c hc k hk hu => ?_⟩
  have hlen : p.uid.length = 1 := by simpa using List.all_eq_true.1 hp p hpod
  have hlen' : 2 ≤ (replacementUid c.uid k).length := by
    simp only [replacementUid, String.length_append]
    have : ("-p" : String).length = 2 := rfl
    omega
  rw [hu] at hlen
  omega

end Afterlock
