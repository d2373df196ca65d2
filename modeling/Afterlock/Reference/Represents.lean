import Afterlock.Lib.Shows
import Afterlock.Reference.Env
import Afterlock.Rotation

/-!
# The two environments step together

An environment of the engine and a tuple of the reference checker represent the same objects
(`Represents`).  The inventory does so in both, and defender actions and reconciliation keep the
relation (`Represents.apply`, `Represents.reconcile`).
-/

namespace Afterlock.Reference

/-! ### The tuples of objects -/

def saTuple (a : ServiceAccount) : String × String × String := (a.ns, a.name, a.uid)

def podTuple (p : Pod) : PodTuple :=
  { uid := p.uid, ns := p.ns, name := p.name, sa := p.serviceAccount, auds := p.tokenAudiences,
    ctrl := p.controllerUid }

def ctrlTuple (c : Controller) : CtrlTuple :=
  { uid := c.uid, ns := c.ns, name := c.name, sa := c.serviceAccount, auds := c.tokenAudiences }

def secretTuple (s : Secret) : String × String × ℤ := (s.ns, s.name, s.version)

def serviceTuple (s : DownstreamService) : ServiceTuple :=
  { name := s.name, srcNs := s.sourceNs, srcName := s.sourceSecret, accepted := s.acceptedVersion,
    delay := s.rotationPropagationSeconds, old := s.grace.toFinset }

lemma ctrlTuple_inj {c d : Controller} (h : ctrlTuple c = ctrlTuple d) : c = d := by
  cases c
  cases d
  simp only [ctrlTuple, CtrlTuple.mk.injEq] at h
  obtain ⟨rfl, rfl, rfl, rfl, rfl⟩ := h
  rfl

/-- An environment and a tuple have the same objects. -/
structure Represents (env : Env) (r : EnvTuple) : Prop where
  time : r.time = env.time
  sas : Shows saTuple env.serviceAccounts r.sas
  pods : Shows podTuple env.pods r.pods
  ctrls : Shows ctrlTuple env.controllers r.ctrls
  bindings : Shows RoleBinding.ident env.bindings r.bindings
  secrets : Shows secretTuple env.secrets r.secrets
  services : Shows serviceTuple env.services r.services
  counters : ∀ cuid, count r.counters cuid = env.lastNumber cuid
  /-- The controllers are a set, which is sorted. -/
  nodup : r.ctrls.Nodup
  range : ∀ s ∈ env.services, 0 ≤ s.acceptedVersion ∧ 0 ≤ s.rotationPropagationSeconds

namespace Represents

variable {env : Env} {r : EnvTuple}

/-! ### Reconciliation -/

lemma count_setCount (counters : List (String × ℤ)) (cuid : String) (k : ℤ) (d : String) :
    count (setCount counters cuid k) d = if d = cuid then k else count counters d := by
  unfold count setCount
  by_cases hd : d = cuid
  · simp [hd]
  · rw [if_neg hd, List.lookup_cons, show (d == cuid) = false by simpa using hd]
    refine congrArg (Option.getD · 0) ?_
    show List.lookup d (counters.filter fun e => e.1 != cuid) = List.lookup d counters
    induction counters with
    | nil => rfl
    | cons e counters ih =>
        by_cases he : e.1 = cuid
        · rw [List.filter_cons_of_neg (by simp [he]), ih, List.lookup_cons,
            show (d == e.1) = false by simpa [he] using hd]
        · rw [List.filter_cons_of_pos (by simpa using he), List.lookup_cons, List.lookup_cons, ih]

lemma ownsPod (h : Represents env r) (cuid : String) :
    (r.pods.any fun p => p.ctrl == some cuid) = Afterlock.ownsPod env cuid :=
  h.pods.any fun _ _ => rfl

lemma mem_uids (h : Represents env r) {uid : String} :
    uid ∈ r.pods.map PodTuple.uid ↔ uid ∈ env.podUids := by
  rw [List.mem_map]
  constructor
  · rintro ⟨y, hy, rfl⟩
    obtain ⟨p, hp, rfl⟩ := (h.pods y).1 hy
    exact ⟨p, hp, rfl⟩
  · rintro ⟨p, hp, rfl⟩
    exact ⟨podTuple p, h.pods.mem hp, rfl⟩

/-- The loop of the reference checker finds the first free number. -/
lemma search_eq (h : Represents env r) {cuid : String} {k l : ℤ} (hlt : k < l)
    (hfree : replacementUid cuid l ∉ env.podUids)
    (htaken : ∀ j, k < j → j < l → replacementUid cuid j ∈ env.podUids) :
    search (fun j => (r.pods.map PodTuple.uid).contains (numbered cuid j))
      (r.pods.map PodTuple.uid).length (k + 1) = l := by
  have hmem : ∀ j, (r.pods.map PodTuple.uid).contains (numbered cuid j) = true ↔
      replacementUid cuid j ∈ env.podUids := fun j => by
    rw [List.contains_iff_mem, h.mem_uids]
    rfl
  have hsearch := @search_firstFree (fun j => (r.pods.map PodTuple.uid).contains (numbered cuid j))
    String (numbered cuid) (fun _ _ he => replacementUid_inj he) (r.pods.map PodTuple.uid)
    (fun j hj => List.contains_iff_mem.1 hj) (k + 1)
  refine hsearch.unique ⟨hlt, ?_, fun j hj hjl => (hmem j).2 (htaken j hj hjl)⟩
  rw [← Bool.not_eq_true, hmem]
  exact hfree

lemma reconcileController (h : Represents env r) (c : Controller) :
    Represents (Afterlock.reconcileController env c).1 (reconcileOne r (ctrlTuple c)) := by
  unfold reconcileOne
  rw [show (ctrlTuple c).uid = c.uid from rfl, h.ownsPod]
  rcases reconcileController_replaced env c with ⟨ho, he⟩ | ⟨k, ho, hfree, hlt, htaken, he⟩
  · rw [if_pos ho, he]
    exact h
  · rw [if_neg (by simp [ho]), he]
    simp only [h.counters, h.search_eq hlt hfree htaken]
    refine ⟨h.time, h.sas, ?_, h.ctrls, h.bindings, h.secrets, h.services, fun d => ?_,
      h.nodup, h.range⟩
    · exact h.pods.put_fresh fun p hp hu => hfree ⟨p, hp, hu⟩
    · rw [count_setCount]
      split_ifs with hd
      · rw [hd, Env.lastNumber_replaced_self]
      · rw [Env.lastNumber_replaced_of_ne hd, h.counters]

/-- The sets of controllers are sorted alike: the tuples begin with the UID. -/
lemma sorted_ctrls (h : Represents env r) : Text.sortedBy CtrlTuple.key r.ctrls =
    (Text.sortedBy Controller.uid env.controllers.rows).map ctrlTuple := by
  have hnd : (env.controllers.rows.map ctrlTuple).Nodup :=
    env.controllers.nodup.of_map.map fun _ _ => ctrlTuple_inj
  have hperm : r.ctrls.Perm (env.controllers.rows.map ctrlTuple) := by
    refine (List.perm_ext_iff_of_nodup h.nodup hnd).2 fun y => ?_
    rw [h.ctrls y, List.mem_map]
    rfl
  have hsorted := List.pairwise_insertionSort (fun a b : Controller => a.uid ≤ b.uid)
    env.controllers.rows
  refine ((Text.sortedBy_perm _ _).trans (hperm.trans
    ((Text.sortedBy_perm _ _).map ctrlTuple).symm)).eq_of_pairwise ?_
    (List.pairwise_insertionSort _ _) ?_
  · intro a b _ _ hab hba
    have hkey := le_antisymm hab hba
    cases a
    cases b
    simpa [CtrlTuple.key] using hkey
  · have hne : (Text.sortedBy Controller.uid env.controllers.rows).Pairwise
        fun a b => a.uid ≠ b.uid :=
      List.pairwise_map.1 (Parse.nodup_map_sortedBy env.controllers.nodup)
    rw [List.pairwise_map]
    refine (hsorted.and hne).imp fun {a b} hab => le_of_lt ?_
    exact List.cons_lt_cons_iff.2 (Or.inl (List.cons_lt_cons_iff.2
      (Or.inl (lt_of_le_of_ne hab.1 hab.2))))

/-- Reconciliation keeps the relation. -/
theorem reconcile (h : Represents env r) :
    Represents (reconcileControllers env).1 (Reference.reconcile r) := by
  rw [Reference.reconcile, h.sorted_ctrls, reconcileControllers, List.foldl_map]
  generalize Text.sortedBy Controller.uid env.controllers.rows = cs
  induction cs generalizing env r with
  | nil => exact h
  | cons c cs ih => exact ih (h.reconcileController c)

/-! ### Defender actions -/

variable {raw : Json} {loc : String} {a : DefenderAction}

lemma dropPods (h : Represents env r) {p : Pod → Bool} {q : PodTuple → Bool}
    (hpq : ∀ x ∈ env.pods, q (podTuple x) = !p x) :
    Represents (env.dropPods p) { r with pods := r.pods.filter q } :=
  { h with pods := h.pods.filter hpq }

lemma foldl_max_of_forall_eq {xs : List (String × String × ℤ)} {v : ℤ} (h : ∀ x ∈ xs, x.2.2 = v)
    (hne : xs ≠ []) (n : ℤ) : xs.foldl (fun n s => max n s.2.2) n = max n v := by
  induction xs generalizing n with
  | nil => exact absurd rfl hne
  | cons x xs ih =>
      rw [List.foldl_cons, h x List.mem_cons_self]
      by_cases hxs : xs = []
      · rw [hxs, List.foldl_nil]
      · rw [ih (fun y hy => h y (List.mem_cons_of_mem _ hy)) hxs, max_assoc, max_self]

/-- The tuples of the source Secret of a service. -/
lemma mem_sources (h : Represents env r) {ns name : String} {y : String × String × ℤ} :
    y ∈ r.secrets.filter (fun s => s.1 == ns && s.2.1 == name) ↔
      ∃ x, env.secrets.get? (ns, name) = some x ∧ secretTuple x = y := by
  simp only [List.mem_filter, h.secrets y, Table.get?_eq_some_iff, Bool.and_eq_true, beq_iff_eq]
  constructor
  · rintro ⟨⟨x, hx, rfl⟩, hns, hname⟩
    exact ⟨x, ⟨hx, Prod.ext hns hname⟩, rfl⟩
  · rintro ⟨x, ⟨hx, hk⟩, rfl⟩
    exact ⟨⟨x, hx, rfl⟩, congrArg Prod.fst hk, congrArg Prod.snd hk⟩

/-- Both rotate to the same version. -/
lemma next_eq (h : Represents env r) {svc : DownstreamService} (hsvc : svc ∈ env.services) :
    (r.secrets.filter fun s => s.1 == svc.sourceNs && s.2.1 == svc.sourceSecret).foldl
      (fun n s => max n s.2.2) svc.acceptedVersion + 1 = nextVersion env svc := by
  rw [nextVersion]
  cases hs : env.secrets.get? (svc.sourceNs, svc.sourceSecret) with
  | none =>
      have hnil : (r.secrets.filter fun s => s.1 == svc.sourceNs && s.2.1 == svc.sourceSecret) =
          [] := List.eq_nil_iff_forall_not_mem.2 fun y hy => by
        obtain ⟨x, hx, -⟩ := h.mem_sources.1 hy
        rw [hs] at hx
        cases hx
      have := (h.range svc hsvc).1
      simp only [hnil, List.foldl_nil, Option.map_none, Option.getD_none]
      omega
  | some x =>
      rw [foldl_max_of_forall_eq (v := x.version)]
      · rfl
      · intro y hy
        obtain ⟨z, hz, rfl⟩ := h.mem_sources.1 hy
        rw [Option.some.inj (hs.symm.trans hz)]
        rfl
      · exact List.ne_nil_of_mem (h.mem_sources.2 ⟨x, hs, rfl⟩)

lemma serviceTuple_rotated {svc : DownstreamService} (hd : 0 ≤ svc.rotationPropagationSeconds) :
    serviceTuple (rotated env svc) =
      { serviceTuple svc with
        accepted := nextVersion env svc
        old := if (serviceTuple svc).delay ≠ 0 then
          insert (svc.acceptedVersion, env.time + (serviceTuple svc).delay) (serviceTuple svc).old
          else (serviceTuple svc).old } := by
  have hold : (rotated env svc).grace.toFinset =
      if svc.rotationPropagationSeconds ≠ 0 then
        insert (svc.acceptedVersion, env.time + svc.rotationPropagationSeconds) svc.grace.toFinset
      else svc.grace.toFinset := by
    unfold rotated
    by_cases h0 : svc.rotationPropagationSeconds = 0
    · rw [if_neg (by omega), if_neg (by simpa using h0)]
    · rw [if_pos (by omega), if_pos h0]
      ext g
      simp
  simp only [serviceTuple, hold]
  rfl

/-- Without the tuples of the source Secret, the other Secrets are left. -/
lemma mem_others (h : Represents env r) {ns name : String} {y : String × String × ℤ} :
    y ∈ r.secrets.filter (fun s => !(s.1 == ns && s.2.1 == name)) ↔
      ∃ x ∈ env.secrets, x.key ≠ (ns, name) ∧ secretTuple x = y := by
  simp only [List.mem_filter, h.secrets y, Bool.not_eq_true', Bool.and_eq_false_iff,
    beq_eq_false_iff_ne, ne_eq]
  constructor
  · rintro ⟨⟨x, hx, rfl⟩, hne⟩
    refine ⟨x, hx, fun hk => ?_, rfl⟩
    rcases hne with hne | hne
    · exact hne (congrArg Prod.fst hk)
    · exact hne (congrArg Prod.snd hk)
  · rintro ⟨x, hx, hne, rfl⟩
    refine ⟨⟨x, hx, rfl⟩, ?_⟩
    by_contra hcon
    rw [not_or, not_not, not_not] at hcon
    exact hne (Prod.ext hcon.1 hcon.2)

lemma rotate_secrets (h : Represents env r) {svc : DownstreamService} (hsvc : svc ∈ env.services) :
    Shows secretTuple (rotatedSecrets env svc)
      (Reference.rotate r (serviceTuple svc)).secrets := by
  have hcur : ∀ y, y ∈ r.secrets.filter (fun s => s.1 == svc.sourceNs && s.2.1 == svc.sourceSecret) ↔
      ∃ x, env.secrets.get? (svc.sourceNs, svc.sourceSecret) = some x ∧ secretTuple x = y :=
    fun _ => h.mem_sources
  have hnext := h.next_eq hsvc
  unfold Reference.rotate rotatedSecrets
  simp only [show (serviceTuple svc).srcNs = svc.sourceNs from rfl,
    show (serviceTuple svc).srcName = svc.sourceSecret from rfl,
    show (serviceTuple svc).accepted = svc.acceptedVersion from rfl]
  rw [hnext]
  cases hs : env.secrets.get? (svc.sourceNs, svc.sourceSecret) with
  | none =>
      rw [if_pos (List.eq_nil_iff_forall_not_mem.2 fun y hy => by
        obtain ⟨x, hx, -⟩ := (hcur y).1 hy
        rw [hs] at hx
        cases hx)]
      intro y
      rw [h.mem_others]
      exact exists_congr fun x => and_congr_right fun hx =>
        ⟨And.right, fun he => ⟨Table.get?_eq_none_iff.1 hs x hx, he⟩⟩
  | some x =>
      obtain ⟨-, hk⟩ := Table.get?_eq_some_iff.1 hs
      rw [if_neg (List.ne_nil_of_mem ((hcur _).2 ⟨x, hs, rfl⟩))]
      refine Shows.put fun y => ?_
      rw [List.mem_cons, h.mem_others]
      refine or_congr ?_ ?_
      · rw [← show x.ns = svc.sourceNs from congrArg Prod.fst hk,
          ← show x.name = svc.sourceSecret from congrArg Prod.snd hk]
        rfl
      · rw [← hk]
        rfl

lemma rotate_services (h : Represents env r) {svc : DownstreamService}
    (hsvc : svc ∈ env.services) :
    Shows serviceTuple (env.services.put (rotated env svc))
      (Reference.rotate r (serviceTuple svc)).services := by
  have hnext := h.next_eq hsvc
  unfold Reference.rotate
  simp only [show (serviceTuple svc).srcNs = svc.sourceNs from rfl,
    show (serviceTuple svc).srcName = svc.sourceSecret from rfl,
    show (serviceTuple svc).accepted = svc.acceptedVersion from rfl]
  rw [hnext]
  refine Shows.put fun y => ?_
  rw [List.mem_cons, serviceTuple_rotated (h.range svc hsvc).2, h.time]
  refine or_congr Iff.rfl ?_
  simp only [List.mem_filter, h.services y, decide_eq_true_eq]
  constructor
  · rintro ⟨⟨z, hz, rfl⟩, hne⟩
    refine ⟨z, hz, fun hn => hne ?_, rfl⟩
    rw [Table.eq_of_key_eq hz hsvc hn]
  · rintro ⟨z, hz, hne, rfl⟩
    exact ⟨⟨z, hz, rfl⟩, fun he => hne (congrArg ServiceTuple.name he)⟩

lemma rotate (h : Represents env r) {svc : DownstreamService} (hsvc : svc ∈ env.services) :
    Represents (Afterlock.rotate env svc).1 (Reference.rotate r (serviceTuple svc)) := by
  obtain ⟨hacc, hdelay⟩ := h.range svc hsvc
  rw [rotate_eq]
  refine ⟨h.time, h.sas, h.pods, h.ctrls, h.bindings, h.rotate_secrets hsvc, h.rotate_services hsvc,
    h.counters, h.nodup, fun s hs => ?_⟩
  rcases Table.mem_put.1 hs with rfl | ⟨hs, -⟩
  · refine ⟨?_, hdelay⟩
    show 0 ≤ nextVersion env svc
    rw [nextVersion]
    omega
  · exact h.range s hs

end Represents

end Afterlock.Reference
