import Afterlock.Accepted
import Afterlock.Transitions

/-!
# The environment under the attacker's workloads

The attacker only adds Pods and controllers, whose UIDs have the reserved prefixes.  `Over i B E`
says that `E` is the environment `B` with such workloads of intervals up to `i` in it.  Defender
actions and reconciliation respect the relation, so the part of the environment that the attacker
has not made does not depend on the attacker (`Over.apply`, `Over.reconcile`).
-/

namespace Afterlock

/-! ### Reserved UIDs -/

lemma hasPrefix_append_of_hasPrefix {p s t : String} (h : Text.hasPrefix p s = true) :
    Text.hasPrefix p (s ++ t) = true := by
  obtain ⟨r, rfl⟩ := Text.hasPrefix_iff.1 h
  rw [String.append_assoc]
  exact Text.hasPrefix_append p _

lemma not_hasChar_replacement (k : ℤ) : ¬ Text.HasChar ':' ("-p" ++ Text.ofInt k) := by
  rw [Text.hasChar_append]
  rintro (h | h)
  · exact absurd h (by decide)
  · exact Text.not_hasChar_ofInt (by decide) (by decide) h

/-- A replacement UID has a reserved prefix exactly if the UID of its controller has it. -/
lemma hasPrefix_replacementUid {p cuid : String} {k : ℤ} :
    Text.hasPrefix (p.push ':') (replacementUid cuid k) = Text.hasPrefix (p.push ':') cuid := by
  rw [Bool.eq_iff_iff, replacementUid, String.append_assoc]
  exact ⟨fun h => Text.hasPrefix_of_hasPrefix_append h (not_hasChar_replacement k),
    hasPrefix_append_of_hasPrefix⟩

lemma modelPodPrefix_eq : modelPodPrefix = "model-pod".push ':' := by decide

lemma modelDeployPrefix_eq : modelDeployPrefix = "model-deploy".push ':' := by decide

@[simp] lemma isModelUid_replacementUid {cuid : String} {k : ℤ} :
    isModelUid (replacementUid cuid k) = isModelUid cuid := by
  simp only [isModelUid, modelPodPrefix_eq, modelDeployPrefix_eq, hasPrefix_replacementUid]

@[simp] lemma hasPrefix_modelPodUid (ns sa : String) (i : ℤ) :
    Text.hasPrefix modelPodPrefix (modelPodUid ns sa i) = true := by
  simp only [modelPodUid, String.append_assoc, Text.hasPrefix_append]

@[simp] lemma hasPrefix_modelControllerUid (ns sa : String) (i : ℤ) :
    Text.hasPrefix modelDeployPrefix (modelControllerUid ns sa i) = true := by
  simp only [modelControllerUid, String.append_assoc, Text.hasPrefix_append]

@[simp] lemma isModelUid_modelPodUid (ns sa : String) (i : ℤ) :
    isModelUid (modelPodUid ns sa i) = true := by
  simp [isModelUid]

@[simp] lemma isModelUid_modelControllerUid (ns sa : String) (i : ℤ) :
    isModelUid (modelControllerUid ns sa i) = true := by
  simp [isModelUid]

/-- No UID has both reserved prefixes. -/
lemma not_hasPrefix_modelPod_of_modelDeploy {uid : String}
    (h : Text.hasPrefix modelDeployPrefix uid = true) :
    Text.hasPrefix modelPodPrefix uid = false := by
  obtain ⟨t, rfl⟩ := Text.hasPrefix_iff.1 h
  simp [Text.hasPrefix, modelPodPrefix, modelDeployPrefix, List.isPrefixOf]

/-- The interval can be read off a text that ends in it. -/
lemma index_inj {a b : String} {i j : ℤ} (h : a ++ ":i" ++ Text.ofInt i = b ++ ":i" ++ Text.ofInt j) :
    a = b ∧ i = j := by
  have hfree : ∀ n : ℤ, ':' ∉ 'i' :: (Text.ofInt n).toList := by
    intro n hn
    rcases List.mem_cons.1 hn with hn | hn
    · exact absurd hn (by decide)
    · exact Text.not_hasChar_ofInt (by decide) (by decide) hn
  have hl : a.toList ++ ':' :: ('i' :: (Text.ofInt i).toList) =
      b.toList ++ ':' :: ('i' :: (Text.ofInt j).toList) := by
    simpa using congrArg String.toList h
  obtain ⟨h1, h2⟩ := Text.append_sep_inj hl (hfree i) (hfree j)
  simp only [List.cons.injEq, true_and] at h2
  exact ⟨String.toList_inj.1 h1, Text.ofInt_inj (String.toList_inj.1 h2)⟩

lemma modelPodUid_index {ns sa ns' sa' : String} {i j : ℤ}
    (h : modelPodUid ns sa i = modelPodUid ns' sa' j) : i = j := (index_inj h).2

lemma modelControllerUid_index {ns sa ns' sa' : String} {i j : ℤ}
    (h : modelControllerUid ns sa i = modelControllerUid ns' sa' j) : i = j := (index_inj h).2

/-! ### The attacker's workloads -/

open Engine

/-- A Pod that the attacker's workloads of the intervals up to `i` give rise to. -/
inductive ModelPod (i : ℤ) : Pod → Prop
  | created {ns sa : String} {j : ℤ} (h : j ≤ i) : ModelPod i (createdPod ns sa (modelPodUid ns sa j))
  | owned {ns sa : String} {j k : ℤ} (h : j ≤ i) :
      ModelPod i (replacementPod (createdController ns sa (modelControllerUid ns sa j)) k)

/-- A controller that the attacker has created in an interval up to `i`. -/
def ModelController (i : ℤ) (c : Controller) : Prop :=
  ∃ ns sa j, j ≤ i ∧ c = createdController ns sa (modelControllerUid ns sa j)

lemma ModelPod.mono {i j : ℤ} {p : Pod} (h : ModelPod i p) (hij : i ≤ j) : ModelPod j p := by
  cases h with
  | created h => exact .created (h.trans hij)
  | owned h => exact .owned (h.trans hij)

lemma ModelController.mono {i j : ℤ} {c : Controller} (h : ModelController i c) (hij : i ≤ j) :
    ModelController j c := by
  obtain ⟨ns, sa, k, hk, rfl⟩ := h
  exact ⟨ns, sa, k, hk.trans hij, rfl⟩

lemma ModelPod.isModelUid {i : ℤ} {p : Pod} (h : ModelPod i p) : isModelUid p.uid = true := by
  cases h with
  | created => simp [createdPod]
  | owned => simp [replacementPod, createdController]

lemma ModelController.isModelUid {i : ℤ} {c : Controller} (h : ModelController i c) :
    isModelUid c.uid = true := by
  obtain ⟨ns, sa, k, -, rfl⟩ := h
  simp [createdController]

/-- The attacker's Pods have no owner or one of the attacker's controllers. -/
lemma ModelPod.owner {i : ℤ} {p : Pod} (h : ModelPod i p) {c : String}
    (hc : p.controllerUid = some c) : Afterlock.isModelUid c = true := by
  cases h with
  | created => cases hc
  | owned =>
      cases hc
      simp [createdController]

/-- The UIDs and owners of an environment that the attacker has not touched are not reserved. -/
structure Plain (B : Env) : Prop where
  pods : ∀ p ∈ B.pods, isModelUid p.uid = false
  controllers : ∀ c ∈ B.controllers, isModelUid c.uid = false
  owners : ∀ p ∈ B.pods, ∀ c, p.controllerUid = some c → isModelUid c = false

/-- `E` is `B` with workloads of the attacker of the intervals up to `i`. -/
structure Over (i : ℤ) (B E : Env) : Prop where
  time : E.time = B.time
  serviceAccounts : E.serviceAccounts = B.serviceAccounts
  roles : E.roles = B.roles
  bindings : E.bindings = B.bindings
  secrets : E.secrets = B.secrets
  services : E.services = B.services
  admission : E.admission = B.admission
  pods : ∀ p, isModelUid p.uid = false → (p ∈ E.pods ↔ p ∈ B.pods)
  controllers : ∀ c, isModelUid c.uid = false → (c ∈ E.controllers ↔ c ∈ B.controllers)
  counters : ∀ c, isModelUid c = false →
    E.controllerPodCounter.get? c = B.controllerPodCounter.get? c
  plain : Plain B
  modelPods : ∀ p ∈ E.pods, isModelUid p.uid = true → ModelPod i p
  modelControllers : ∀ c ∈ E.controllers, isModelUid c.uid = true → ModelController i c

namespace Over

variable {i : ℤ} {B E : Env}

lemma refl (hB : Plain B) : Over i B B where
  time := rfl
  serviceAccounts := rfl
  roles := rfl
  bindings := rfl
  secrets := rfl
  services := rfl
  admission := rfl
  pods := fun _ _ => Iff.rfl
  controllers := fun _ _ => Iff.rfl
  counters := fun _ _ => rfl
  plain := hB
  modelPods := fun p hp hm => absurd (hB.pods p hp) (by simp [hm])
  modelControllers := fun c hc hm => absurd (hB.controllers c hc) (by simp [hm])

lemma mono (h : Over i B E) {j : ℤ} (hij : i ≤ j) : Over j B E :=
  { h with
    modelPods := fun p hp hm => (h.modelPods p hp hm).mono hij
    modelControllers := fun c hc hm => (h.modelControllers c hc hm).mono hij }

lemma mem_pods (h : Over i B E) {p : Pod} (hp : p ∈ B.pods) : p ∈ E.pods :=
  (h.pods p (h.plain.pods p hp)).2 hp

lemma mem_controllers (h : Over i B E) {c : Controller} (hc : c ∈ B.controllers) :
    c ∈ E.controllers := (h.controllers c (h.plain.controllers c hc)).2 hc

/-- A Pod of `E` is one of `B` or one of the attacker's. -/
lemma pod_cases (h : Over i B E) {p : Pod} (hp : p ∈ E.pods) : p ∈ B.pods ∨ ModelPod i p := by
  cases hm : isModelUid p.uid with
  | false => exact Or.inl ((h.pods p hm).1 hp)
  | true => exact Or.inr (h.modelPods p hp hm)

lemma controller_cases (h : Over i B E) {c : Controller} (hc : c ∈ E.controllers) :
    c ∈ B.controllers ∨ ModelController i c := by
  cases hm : isModelUid c.uid with
  | false => exact Or.inl ((h.controllers c hm).1 hc)
  | true => exact Or.inr (h.modelControllers c hc hm)

lemma contains_pods (h : Over i B E) {uid : String} (hu : isModelUid uid = false) :
    E.pods.contains uid = B.pods.contains uid := by
  rw [Bool.eq_iff_iff, Table.contains_iff, Table.contains_iff]
  constructor
  · rintro ⟨p, hp, rfl⟩
    exact ⟨p, (h.pods p hu).1 hp, rfl⟩
  · rintro ⟨p, hp, rfl⟩
    exact ⟨p, (h.pods p hu).2 hp, rfl⟩

lemma ownsPod (h : Over i B E) {c : String} (hc : isModelUid c = false) :
    Afterlock.ownsPod E c = Afterlock.ownsPod B c := by
  rw [Bool.eq_iff_iff, ownsPod_iff, ownsPod_iff]
  constructor
  · rintro ⟨p, hp, ho⟩
    rcases h.pod_cases hp with hp | hp
    · exact ⟨p, hp, ho⟩
    · rw [hp.owner ho] at hc
      cases hc
  · rintro ⟨p, hp, ho⟩
    exact ⟨p, h.mem_pods hp, ho⟩

/-! #### The attacker adds a workload -/

lemma putPod (h : Over i B E) {p : Pod} (hp : ModelPod i p) :
    Over i B { E with pods := E.pods.put p } :=
  { h with
    pods := fun q hq => by
      have hne : q.uid ≠ p.uid := fun he => by
        rw [he, hp.isModelUid] at hq
        cases hq
      rw [Table.mem_put, ← h.pods q hq]
      constructor
      · rintro (rfl | hq')
        · exact absurd rfl hne
        · exact hq'.1
      · exact fun hq' => Or.inr ⟨hq', hne⟩
    modelPods := fun q hq hm => by
      rcases Table.mem_put.1 hq with rfl | ⟨hq, -⟩
      · exact hp
      · exact h.modelPods q hq hm }

lemma putCounter (h : Over i B E) {c : String} (hc : isModelUid c = true) (k : ℤ) :
    Over i B { E with controllerPodCounter := E.controllerPodCounter.put (c, k) } :=
  { h with
    counters := fun d hd => by
      have hne : d ≠ c := fun he => by
        rw [he, hc] at hd
        cases hd
      rw [← h.counters d hd]
      exact Table.get?_put_of_ne hne }

lemma putController (h : Over i B E) {c : Controller} (hc : ModelController i c) :
    Over i B { E with controllers := E.controllers.put c } :=
  { h with
    controllers := fun d hd => by
      have hne : d.uid ≠ c.uid := fun he => by
        rw [he, hc.isModelUid] at hd
        cases hd
      rw [Table.mem_put, ← h.controllers d hd]
      constructor
      · rintro (rfl | hd')
        · exact absurd rfl hne
        · exact hd'.1
      · exact fun hd' => Or.inr ⟨hd', hne⟩
    modelControllers := fun d hd hm => by
      rcases Table.mem_put.1 hd with rfl | ⟨hd, -⟩
      · exact hc
      · exact h.modelControllers d hd hm }

/-! #### Reconciliation -/

/-- Reconciling a controller of the attacker's. -/
lemma reconcile_model (h : Over i B E) {c : Controller} (hc : ModelController i c) :
    Over i B (reconcileController E c).1 := by
  rcases reconcileController_cases E c with ⟨-, he⟩ | ⟨k, -, -, -, -, he⟩
  · rw [he]
    exact h
  · rw [he]
    have hp : ModelPod i (replacementPod c k) := by
      obtain ⟨ns, sa, j, hj, rfl⟩ := hc
      exact .owned hj
    exact (h.putCounter hc.isModelUid k).putPod hp

/-- Reconciling any other controller does the same in both environments. -/
lemma reconcile_plain (h : Over i B E) {c : Controller} (hc : isModelUid c.uid = false) :
    Over i (reconcileController B c).1 (reconcileController E c).1 := by
  have hown := h.ownsPod hc
  have hcnt := h.counters c.uid hc
  have hcont : ∀ k, E.pods.contains (replacementUid c.uid k) =
      B.pods.contains (replacementUid c.uid k) := fun k =>
    h.contains_pods (by rw [isModelUid_replacementUid, hc])
  rcases reconcileController_cases B c with ⟨ho, he⟩ | ⟨k, ho, hfree, hle, hmin, he⟩ <;>
    rcases reconcileController_cases E c with ⟨ho', he'⟩ | ⟨k', ho', hfree', hle', hmin', he'⟩
  · rw [he, he']
    exact h
  · rw [hown, ho] at ho'
    cases ho'
  · rw [hown, ho] at ho'
    cases ho'
  · -- both take the first number whose UID is free
    have hk : k' = k := by
      rw [hcnt] at hle' hmin'
      rcases lt_trichotomy k k' with hlt | heq | hlt
      · have := hmin' k hle hlt
        rw [hcont, hfree] at this
        cases this
      · exact heq.symm
      · have := hmin k' hle' hlt
        rw [← hcont, hfree'] at this
        cases this
    subst hk
    rw [he, he']
    have hpm : isModelUid (replacementPod c k').uid = false := by
      rw [replacementPod, isModelUid_replacementUid, hc]
    refine { h with pods := ?_, counters := ?_, plain := ?_, modelPods := ?_ }
    · intro q hq
      simp only [Table.mem_put]
      rw [h.pods q hq]
    · intro d hd
      by_cases hdc : d = c.uid
      · subst hdc
        exact (Table.get?_put_self (t := E.controllerPodCounter) (x := (c.uid, k'))).trans
          (Table.get?_put_self (t := B.controllerPodCounter) (x := (c.uid, k'))).symm
      · exact (Table.get?_put_of_ne (t := E.controllerPodCounter) (x := (c.uid, k')) hdc).trans
          ((h.counters d hd).trans
            (Table.get?_put_of_ne (t := B.controllerPodCounter) (x := (c.uid, k')) hdc).symm)
    · refine ⟨fun q hq => ?_, h.plain.controllers, fun q hq d hd => ?_⟩
      · rcases Table.mem_put.1 hq with rfl | ⟨hq, -⟩
        · exact hpm
        · exact h.plain.pods q hq
      · rcases Table.mem_put.1 hq with rfl | ⟨hq, -⟩
        · cases hd
          exact hc
        · exact h.plain.owners q hq d hd
    · intro q hq hm
      rcases Table.mem_put.1 hq with rfl | ⟨hq, -⟩
      · rw [hpm] at hm
        cases hm
      · exact h.modelPods q hq hm

lemma reconcileEach_filter (h : Over i B E) {cs : List Controller}
    (hcs : ∀ c ∈ cs, isModelUid c.uid = true → ModelController i c) :
    Over i (reconcileEach (cs.filter fun c => !isModelUid c.uid) B).1 (reconcileEach cs E).1 := by
  induction cs generalizing B E with
  | nil => exact h
  | cons c cs ih =>
      have hcs' := fun d hd => hcs d (List.mem_cons_of_mem _ hd)
      cases hm : isModelUid c.uid with
      | true =>
          rw [List.filter_cons_of_neg (by simp [hm]), reconcileEach_cons_fst]
          exact ih (h.reconcile_model (hcs c List.mem_cons_self hm)) hcs'
      | false =>
          rw [List.filter_cons_of_pos (by simp [hm]), reconcileEach_cons_fst, reconcileEach_cons_fst]
          exact ih (h.reconcile_plain hm) hcs'

end Over

/-- Sorting by a key that no two elements share forgets the order of the list. -/
lemma sortedBy_eq_of_mem_iff {α : Type} {key : α → String} {xs ys : List α}
    (hx : (xs.map key).Nodup) (hy : (ys.map key).Nodup) (h : ∀ x, x ∈ xs ↔ x ∈ ys) :
    Text.sortedBy key xs = Text.sortedBy key ys := by
  have hperm : (Text.sortedBy key xs).Perm (Text.sortedBy key ys) :=
    (Text.sortedBy_perm key xs).trans <|
      ((List.perm_ext_iff_of_nodup hx.of_map hy.of_map).2 h).trans (Text.sortedBy_perm key ys).symm
  refine hperm.eq_of_pairwise ?_ (List.pairwise_insertionSort _ xs) (List.pairwise_insertionSort _ ys)
  intro a b ha hb hab hba
  exact List.inj_on_of_nodup_map hx (Text.mem_sortedBy.1 ha)
    ((h b).2 (Text.mem_sortedBy.1 hb)) (le_antisymm hab hba)

namespace Over

variable {i : ℤ} {B E : Env}

/-- Reconciliation respects the relation. -/
theorem reconcile (h : Over i B E) :
    Over i (reconcileControllers B).1 (reconcileControllers E).1 := by
  have hlist : Text.sortedBy Controller.uid B.controllers.rows =
      (Text.sortedBy Controller.uid E.controllers.rows).filter fun c => !isModelUid c.uid := by
    have hsub : ((E.controllers.rows.filter fun c => !isModelUid c.uid).map Controller.uid).Nodup :=
      E.controllers.nodup.sublist (List.filter_sublist.map _)
    rw [sortedBy_eq_of_mem_iff B.controllers.nodup hsub]
    · have hpw := List.pairwise_insertionSort
        (fun a b : Controller => a.uid ≤ b.uid) E.controllers.rows
      have hperm : ((Text.sortedBy Controller.uid E.controllers.rows).filter
          fun c => !isModelUid c.uid).Perm
          (Text.sortedBy Controller.uid (E.controllers.rows.filter fun c => !isModelUid c.uid)) :=
        ((Text.sortedBy_perm _ _).filter _).trans (Text.sortedBy_perm _ _).symm
      refine (hperm.eq_of_pairwise ?_ (hpw.filter _) (List.pairwise_insertionSort _ _)).symm
      intro a b ha hb hab hba
      exact List.inj_on_of_nodup_map E.controllers.nodup (Text.mem_sortedBy.1 (List.mem_filter.1 ha).1)
        (List.mem_filter.1 (Text.mem_sortedBy.1 hb)).1 (le_antisymm hab hba)
    · intro c
      rw [List.mem_filter, ← Table.mem_def, ← Table.mem_def]
      constructor
      · intro hc
        have hm := h.plain.controllers c hc
        exact ⟨(h.controllers c hm).2 hc, by simp [hm]⟩
      · rintro ⟨hc, hm⟩
        exact (h.controllers c (by simpa using hm)).1 hc
  unfold reconcileControllers
  rw [hlist]
  exact h.reconcileEach_filter fun c hc hm => h.modelControllers c (Text.mem_sortedBy.1 hc) hm

/-! #### Defender actions -/

/-- Dropping Pods by the same test, where the tests agree on the Pods of `B`. -/
lemma dropPods (h : Over i B E) {p q : Pod → Bool} (hpq : ∀ x ∈ B.pods, p x = q x) :
    Over i (B.dropPods p) (E.dropPods q) :=
  { h with
    pods := fun x hx => by
      simp only [Env.dropPods, Table.mem_filter, h.pods x hx]
      exact and_congr_right fun hB => by rw [hpq x hB]
    plain := ⟨fun x hx => h.plain.pods x (Table.mem_filter.1 hx).1, h.plain.controllers,
      fun x hx => h.plain.owners x (Table.mem_filter.1 hx).1⟩
    modelPods := fun x hx => h.modelPods x (Table.mem_filter.1 hx).1 }

lemma filterControllers (h : Over i B E) (p : Controller → Bool) :
    Over i { B with controllers := B.controllers.filter p }
      { E with controllers := E.controllers.filter p } :=
  { h with
    controllers := fun c hc => by simp only [Table.mem_filter, h.controllers c hc]
    plain := ⟨h.plain.pods, fun c hc => h.plain.controllers c (Table.mem_filter.1 hc).1,
      h.plain.owners⟩
    modelControllers := fun c hc => h.modelControllers c (Table.mem_filter.1 hc).1 }

/-- The action a defender takes has the same effect on the part that the attacker has not made. -/
theorem apply (h : Over i B E) (a : DefenderAction) :
    Over i (applyDefenderAction B a).1 (applyDefenderAction E a).1 := by
  cases a with
  | removeBinding ns name =>
      exact { h with
        bindings := by simp only [applyDefenderAction, h.bindings]
        plain := ⟨h.plain.pods, h.plain.controllers, h.plain.owners⟩ }
  | deletePod uid =>
      have hd := h.dropPods (p := fun p => decide (p.uid = uid)) (q := fun p => decide (p.uid = uid))
        fun _ _ => rfl
      simpa only [applyDefenderAction, Env.dropPods, Table.erase] using hd
  | deleteController uid =>
      have hc := h.filterControllers fun c => !decide (c.uid = uid)
      have hd := hc.dropPods (p := fun p => p.controllerUid == some uid)
        (q := fun p => p.controllerUid == some uid) fun _ _ => rfl
      simpa only [applyDefenderAction, Table.erase] using hd
  | deletePodsExcept ns sa keep => exact h.dropPods fun _ _ => rfl
  | deleteControllersExcept ns sa keep =>
      -- the Pods that go are those of the controllers that go, and only the base's own Pods matter
      refine (h.filterControllers _).dropPods fun x hx => ?_
      rw [Bool.eq_iff_iff]
      simp only [Option.any_eq_true, List.contains_iff_mem, List.mem_map, List.mem_filter,
        ← Table.mem_def]
      constructor
      · rintro ⟨c, hc, d, ⟨hd, hv⟩, rfl⟩
        exact ⟨_, hc, d, ⟨h.mem_controllers hd, hv⟩, rfl⟩
      · rintro ⟨c, hc, d, ⟨hd, hv⟩, rfl⟩
        exact ⟨_, hc, d, ⟨(h.controllers d (h.plain.owners x hx d.uid hc)).1 hd, hv⟩, rfl⟩
  | deleteServiceAccount ns name =>
      exact { h with
        serviceAccounts := by simp only [applyDefenderAction, h.serviceAccounts]
        plain := ⟨h.plain.pods, h.plain.controllers, h.plain.owners⟩ }
  | rotateDownstreamCredential service =>
      simp only [applyDefenderAction, h.services]
      cases B.services.get? service with
      | none => exact h
      | some svc =>
          simp only [rotate, h.secrets, h.time, h.services]
          split_ifs
          · exact { h with
              time := rfl
              secrets := rfl
              services := rfl
              plain := ⟨h.plain.pods, h.plain.controllers, h.plain.owners⟩ }
          · exact { h with
              time := rfl
              secrets := rfl
              services := rfl
              plain := ⟨h.plain.pods, h.plain.controllers, h.plain.owners⟩ }
  | wait seconds =>
      exact { h with
        time := by simp only [applyDefenderAction, h.time]
        plain := ⟨h.plain.pods, h.plain.controllers, h.plain.owners⟩ }

end Over

/-! ### Settled environments -/

/-- Every controller owns a Pod. -/
def Settled (env : Env) : Prop := ∀ c ∈ env.controllers, ownsPod env c.uid = true

lemma settled_reconcileControllers (env : Env) : Settled (reconcileControllers env).1 := by
  intro c hc
  rw [reconcileControllers_controllers] at hc
  exact ownsPod_reconcileControllers hc

lemma reconcileEach_of_owned {cs : List Controller} {env : Env}
    (h : ∀ c ∈ cs, ownsPod env c.uid = true) : reconcileEach cs env = (env, []) := by
  induction cs with
  | nil => rfl
  | cons c cs ih =>
      rw [reconcileEach]
      simp [reconcileController, h c List.mem_cons_self,
        ih fun d hd => h d (List.mem_cons_of_mem _ hd)]

/-- Reconciliation leaves a settled environment alone. -/
lemma Settled.reconcileControllers {env : Env} (h : Settled env) :
    reconcileControllers env = (env, []) :=
  reconcileEach_of_owned fun c hc => h c (Text.mem_sortedBy.1 hc)

/-! ### The environments of a run without the attacker -/

/-- The environment after a defender action, with the Pods that the controllers recreate. -/
def defend (env : Env) (a : DefenderAction) : Env :=
  (reconcileControllers (applyDefenderAction env a).1).1

/-- The inventory at analysis time. -/
def inventoryEnv (inp : AnalysisInput) : Env := Env.fromInventory inp.inventory inp.analysisTime

/-- The environment of interval `k` without the attacker. -/
def baseEnv (inp : AnalysisInput) : ℕ → Env
  | 0 => (reconcileControllers (inventoryEnv inp)).1
  | k + 1 =>
      match inp.remediation[k]? with
      | some a => defend (baseEnv inp k) a
      | none => baseEnv inp k

lemma baseEnv_succ {inp : AnalysisInput} {k : ℕ} {a : DefenderAction}
    (h : inp.remediation[k]? = some a) : baseEnv inp (k + 1) = defend (baseEnv inp k) a := by
  rw [baseEnv, h]

lemma settled_baseEnv (inp : AnalysisInput) (k : ℕ) : Settled (baseEnv inp k) := by
  induction k with
  | zero => exact settled_reconcileControllers _
  | succ k ih =>
      rw [baseEnv]
      split
      · exact settled_reconcileControllers _
      · exact ih

lemma plain_inventoryEnv {inp : AnalysisInput} (hw : WellFormed inp) : Plain (inventoryEnv inp) := by
  refine ⟨fun p hp => ?_, fun c hc => ?_, fun p hp c hc => ?_⟩
  · exact hw.inventory.podUids p (Table.mem_of_mem_ofList hp)
  · exact hw.inventory.controllerUids c (Table.mem_of_mem_ofList hc)
  · obtain ⟨d, hd, rfl⟩ := hw.inventory.podControllers p (Table.mem_of_mem_ofList hp) c hc
    exact hw.inventory.controllerUids d hd

lemma Over.defend {i : ℤ} {B E : Env} (h : Over i B E) (a : DefenderAction) :
    Over i (Afterlock.defend B a) (Afterlock.defend E a) := (h.apply a).reconcile

lemma plain_baseEnv {inp : AnalysisInput} (hw : WellFormed inp) (k : ℕ) :
    Plain (baseEnv inp k) := by
  induction k with
  | zero => exact (Over.refl (i := 0) (plain_inventoryEnv hw)).reconcile.plain
  | succ k ih =>
      rw [baseEnv]
      split
      · exact ((Over.refl (i := 0) ih).defend _).plain
      · exact ih

end Afterlock
