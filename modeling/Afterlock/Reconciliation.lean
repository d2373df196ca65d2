import Afterlock.Reference.Represents
import Afterlock.Replacement

/-!
# What reconciliation does

`reconcile_controllers` and `_reconcile` search for a free number in a loop without a bound.  Here
the loop is cut off after some number of steps, and from a bound on that the Pods and the
controllers give it is never cut off (`reconcileControllersIn_eq`).  The postcondition
(`Reconciled`) comes from what the controllers of a list add to an environment (`Adds`), one
controller after the other.
-/

namespace Afterlock

/-! ### The loops, cut off -/

/-- `reconcile_controllers` for one controller; none if the loop takes longer. -/
def reconcileControllerIn (fuel : ℕ) (env : Env) (c : Controller) : Option (Env × Option Pod) :=
  if ownsPod env c.uid then some (env, none)
  else
    (search? (fun k => env.pods.contains (replacementUid c.uid k)) fuel
      (env.lastNumber c.uid + 1)).map fun k => (env.replaced c k, some (replacementPod c k))

def reconcileEachIn (fuel : ℕ) : List Controller → Env → Option (Env × List Pod)
  | [], env => some (env, [])
  | c :: cs, env => do
      let (env, pod) ← reconcileControllerIn fuel env c
      let (env, pods) ← reconcileEachIn fuel cs env
      pure (env, pod.toList ++ pods)

/-- `reconcile_controllers`; none if one of the loops takes longer. -/
def reconcileControllersIn (fuel : ℕ) (env : Env) : Option (Env × List Pod) :=
  reconcileEachIn fuel (Text.sortedBy Controller.uid env.controllers.rows) env

lemma reconcileControllerIn_eq {fuel : ℕ} {env : Env} (h : env.pods.rows.length < fuel)
    (c : Controller) : reconcileControllerIn fuel env c = some (reconcileController env c) := by
  unfold reconcileControllerIn reconcileController
  split_ifs
  · rfl
  · rw [Table.length_eq_keys] at h
    have hloop := @search?_of_length_lt (fun k => env.pods.contains (replacementUid c.uid k)) _
      (replacementUid c.uid) (fun _ _ he => replacementUid_inj he) env.pods.keys
      (fun j hj => Table.mem_keys.2 (Table.contains_iff.1 hj)) fuel h (env.lastNumber c.uid + 1)
    rw [hloop, ← Table.length_eq_keys, ← firstFree_eq_search]
    rfl

lemma length_reconcileController (env : Env) (c : Controller) :
    (reconcileController env c).1.pods.rows.length ≤ env.pods.rows.length + 1 := by
  rcases reconcileController_replaced env c with ⟨-, he⟩ | ⟨k, -, -, -, -, he⟩
  · rw [he]
    exact Nat.le_succ _
  · rw [he]
    exact Table.length_put_le

lemma reconcileEachIn_eq {fuel : ℕ} {cs : List Controller} {env : Env}
    (h : env.pods.rows.length + cs.length < fuel) :
    reconcileEachIn fuel cs env = some (reconcileEach cs env) := by
  induction cs generalizing env with
  | nil => rfl
  | cons c cs ih =>
      rw [List.length_cons] at h
      have hlen := length_reconcileController env c
      rw [reconcileEachIn, reconcileControllerIn_eq (by omega)]
      simp only [Option.bind_eq_bind, Option.bind_some,
        @ih (reconcileController env c).1 (by omega)]
      rfl

/-- No loop is cut off after more steps than there are Pods and controllers. -/
theorem reconcileControllersIn_eq {fuel : ℕ} {env : Env}
    (h : env.pods.rows.length + env.controllers.rows.length < fuel) :
    reconcileControllersIn fuel env = some (reconcileControllers env) := by
  refine reconcileEachIn_eq ?_
  rwa [(Text.sortedBy_perm Controller.uid env.controllers.rows).length_eq]

namespace Reference

/-- One round of the loop of `_reconcile`; none if the inner loop takes longer. -/
def reconcileOneIn (fuel : ℕ) (env : EnvTuple) (c : CtrlTuple) : Option EnvTuple :=
  if env.pods.any fun p => p.ctrl == some c.uid then some env
  else
    (search? (fun j => (env.pods.map PodTuple.uid).contains (numbered c.uid j)) fuel
      (count env.counters c.uid + 1)).map fun k =>
        let pod : PodTuple :=
          { uid := numbered c.uid k, ns := c.ns, name := numbered c.name k, sa := c.sa,
            auds := c.auds, ctrl := some c.uid }
        { env with counters := setCount env.counters c.uid k, pods := pod :: env.pods }

/-- `_reconcile`; none if one of the inner loops takes longer. -/
def reconcileIn (fuel : ℕ) (env : EnvTuple) : Option EnvTuple :=
  (Text.sortedBy CtrlTuple.key env.ctrls).foldlM (reconcileOneIn fuel) env

lemma reconcileOneIn_eq {fuel : ℕ} {env : EnvTuple} (h : env.pods.length < fuel) (c : CtrlTuple) :
    reconcileOneIn fuel env c = some (reconcileOne env c) := by
  unfold reconcileOneIn reconcileOne
  split_ifs
  · rfl
  · have hloop := @search?_of_length_lt
      (fun j => (env.pods.map PodTuple.uid).contains (numbered c.uid j)) _ (numbered c.uid)
      (fun _ _ he => replacementUid_inj he) (env.pods.map PodTuple.uid)
      (fun j hj => List.contains_iff_mem.1 hj) fuel (by rwa [List.length_map])
      (count env.counters c.uid + 1)
    rw [hloop]
    rfl

lemma length_reconcileOne (env : EnvTuple) (c : CtrlTuple) :
    (reconcileOne env c).pods.length ≤ env.pods.length + 1 := by
  unfold reconcileOne
  split_ifs
  · exact Nat.le_succ _
  · exact le_rfl

/-- The reference checker ends its loops as well. -/
theorem reconcileIn_eq {fuel : ℕ} {env : EnvTuple}
    (h : env.pods.length + env.ctrls.length < fuel) :
    reconcileIn fuel env = some (reconcile env) := by
  rw [← (Text.sortedBy_perm CtrlTuple.key env.ctrls).length_eq] at h
  rw [reconcileIn, reconcile]
  generalize Text.sortedBy CtrlTuple.key env.ctrls = cs at h
  induction cs generalizing env with
  | nil => rfl
  | cons c cs ih =>
      rw [List.length_cons] at h
      have hlen := length_reconcileOne env c
      rw [List.foldlM_cons, reconcileOneIn_eq (by omega), List.foldl_cons]
      exact ih (by omega)

end Reference

/-! ### What is added -/

/-- The Pod is one that the controller makes. -/
structure MadeBy (c : Controller) (p : Pod) : Prop where
  ns : p.ns = c.ns
  serviceAccount : p.serviceAccount = c.serviceAccount
  tokenAudiences : p.tokenAudiences = c.tokenAudiences
  controllerUid : p.controllerUid = some c.uid

lemma madeBy_replacementPod (c : Controller) (k : ℤ) : MadeBy c (replacementPod c k) :=
  ⟨rfl, rfl, rfl, rfl⟩

/-- The controllers of a list that own no Pod. -/
def unstaffed (env : Env) (cs : List Controller) : List Controller :=
  cs.filter fun c => !ownsPod env c.uid

/-- The environment `e` is `env` with the Pods `new`, one for each controller of the list that owned
none, and with other counters of these controllers. -/
structure Adds (env : Env) (cs : List Controller) (e : Env) (new : List Pod) : Prop where
  frame : e = { env with pods := e.pods, controllerPodCounter := e.controllerPodCounter }
  pods : ∀ p, p ∈ e.pods ↔ p ∈ env.pods ∨ p ∈ new
  made : List.Forall₂ MadeBy (unstaffed env cs) new
  fresh : ∀ p ∈ new, p.uid ∉ env.podUids
  distinct : (new.map Pod.uid).Nodup
  counters : ∀ cuid, (∀ c ∈ unstaffed env cs, c.uid ≠ cuid) → e.lastNumber cuid = env.lastNumber cuid

lemma adds_nil (env : Env) : Adds env [] env [] where
  frame := rfl
  pods p := by simp
  made := List.Forall₂.nil
  fresh p hp := absurd hp List.not_mem_nil
  distinct := List.nodup_nil
  counters cuid _ := rfl

lemma ownsPod_replaced {env : Env} {c : Controller} {k : ℤ} {cuid : String}
    (h : replacementUid c.uid k ∉ env.podUids) (hne : cuid ≠ c.uid) :
    ownsPod (env.replaced c k) cuid = ownsPod env cuid := by
  rw [Bool.eq_iff_iff, ownsPod_iff, ownsPod_iff]
  constructor
  · rintro ⟨p, hp, ho⟩
    rcases (Env.mem_replaced_pods h).1 hp with rfl | hp
    · exact absurd (Option.some.inj ho).symm hne
    · exact ⟨p, hp, ho⟩
  · rintro ⟨p, hp, ho⟩
    exact ⟨p, (Env.mem_replaced_pods h).2 (Or.inr hp), ho⟩

/-- A Pod for the first controller and those for the others. -/
lemma Adds.cons {env e : Env} {c : Controller} {cs : List Controller} {k : ℤ} {new : List Pod}
    (howns : ownsPod env c.uid = false) (hfree : replacementUid c.uid k ∉ env.podUids)
    (hne : ∀ d ∈ cs, d.uid ≠ c.uid) (h : Adds (env.replaced c k) cs e new) :
    Adds env (c :: cs) e (replacementPod c k :: new) := by
  have hothers : unstaffed (env.replaced c k) cs = unstaffed env cs :=
    List.filter_congr fun d hd => by rw [ownsPod_replaced hfree (hne d hd)]
  have hcons : unstaffed env (c :: cs) = c :: unstaffed env cs :=
    List.filter_cons_of_pos (by simp [howns])
  have hmem (p : Pod) := Env.mem_replaced_pods (p := p) hfree
  -- the later Pods are fresh in an environment that has the first one
  have huids : ∀ p ∈ new, p.uid ≠ replacementUid c.uid k ∧ p.uid ∉ env.podUids := by
    intro p hp
    have hnot := h.fresh p hp
    refine ⟨fun he => hnot ⟨replacementPod c k, (hmem _).2 (Or.inl rfl), he.symm⟩, ?_⟩
    rintro ⟨q, hq, he⟩
    exact hnot ⟨q, (hmem q).2 (Or.inr hq), he⟩
  refine ⟨?_, fun p => ?_, ?_, ?_, ?_, fun cuid hcuid => ?_⟩
  · rw [h.frame]
    rfl
  · rw [h.pods, hmem, List.mem_cons]
    tauto
  · rw [hcons]
    exact List.Forall₂.cons (madeBy_replacementPod c k) (hothers ▸ h.made)
  · exact List.forall_mem_cons.2 ⟨hfree, fun p hp => (huids p hp).2⟩
  · rw [List.map_cons, List.nodup_cons]
    refine ⟨fun hin => ?_, h.distinct⟩
    obtain ⟨p, hp, he⟩ := List.mem_map.1 hin
    exact (huids p hp).1 he
  · rw [hcons] at hcuid
    rw [h.counters cuid (hothers ▸ fun d hd => hcuid d (List.mem_cons_of_mem _ hd))]
    exact Env.lastNumber_replaced_of_ne (hcuid c List.mem_cons_self).symm

theorem adds_reconcileEach {cs : List Controller} (hnd : (cs.map Controller.uid).Nodup)
    (env : Env) : Adds env cs (reconcileEach cs env).1 (reconcileEach cs env).2 := by
  induction cs generalizing env with
  | nil => exact adds_nil env
  | cons c cs ih =>
      rw [List.map_cons, List.nodup_cons] at hnd
      have hne : ∀ d ∈ cs, d.uid ≠ c.uid := fun d hd he => hnd.1 (List.mem_map.2 ⟨d, hd, he⟩)
      show Adds env (c :: cs) (reconcileEach cs (reconcileController env c).1).1
        ((reconcileController env c).2.toList ++ (reconcileEach cs (reconcileController env c).1).2)
      rcases reconcileController_replaced env c with ⟨howns, he⟩ | ⟨k, howns, hfree, -, -, he⟩
      · have hskip : unstaffed env (c :: cs) = unstaffed env cs :=
          List.filter_cons_of_neg (by simp [howns])
        have hrest := ih hnd.2 env
        rw [he]
        exact { hrest with made := hskip ▸ hrest.made, counters := hskip ▸ hrest.counters }
      · rw [he]
        exact Adds.cons howns hfree hne (ih hnd.2 (env.replaced c k))

/-! ### The postcondition -/

/-- The postcondition of reconciliation. -/
structure Reconciled (env : Env) (r : Env × List Pod) : Prop where
  /-- Whatever bound above some number the loops are given, they end within it. -/
  terminates : ∃ n, ∀ fuel ≥ n, reconcileControllersIn fuel env = some r
  /-- Each controller without a Pod, and no other, has exactly one new Pod. -/
  adds : Adds env (Text.sortedBy Controller.uid env.controllers.rows) r.1 r.2
  /-- A second call does nothing. -/
  again : reconcileControllers r.1 = (r.1, [])
  /-- The reference checker ends its loops and does the same. -/
  reference : ∀ t, Reference.Represents env t →
    (∃ n, ∀ fuel ≥ n, Reference.reconcileIn fuel t = some (Reference.reconcile t)) ∧
      Reference.Represents r.1 (Reference.reconcile t)

theorem reconciled_reconcileControllers (env : Env) : Reconciled env (reconcileControllers env) where
  terminates := ⟨env.pods.rows.length + env.controllers.rows.length + 1,
    fun _ hfuel => reconcileControllersIn_eq hfuel⟩
  adds := adds_reconcileEach (Parse.nodup_map_sortedBy env.controllers.nodup) env
  again := (settled_reconcileControllers env).reconcileControllers
  reference t ht := ⟨⟨t.pods.length + t.ctrls.length + 1,
    fun _ hfuel => Reference.reconcileIn_eq hfuel⟩, ht.reconcile⟩

end Afterlock
