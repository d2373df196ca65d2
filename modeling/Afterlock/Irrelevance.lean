import Afterlock.Identifiers
import Afterlock.Results

/-!
# Irrelevant namespaces

Objects of a namespace that the rest of the document does not mention make no difference to an
analysis (`analyze_extends`): no binding applies there and no credential is of there, so a run with
them and a run without them do the same, side by side.
-/

namespace Afterlock

open Prog Engine

/-! ### Environments side by side -/

/-- `e'` is `e` with further objects in the namespace `N`, where the further Pods have UIDs in `U`
and no other object has or will have one. -/
structure Env.Beside (N : String) (U : String → Prop) (e e' : Env) : Prop where
  time : e'.time = e.time
  accounts : e'.serviceAccounts.filter (fun a => a.ns != N) = e.serviceAccounts
  pods : e'.pods.filter (fun p => p.ns != N) = e.pods
  controllers : e'.controllers = e.controllers
  roles : e'.roles.filter (fun r => r.ns != some N) = e.roles
  bindings : e'.bindings = e.bindings
  secrets : e'.secrets.filter (fun x => x.ns != N) = e.secrets
  services : e'.services = e.services
  admission : e'.admission.filter (fun p => p.ns != N) = e.admission
  counter : e'.controllerPodCounter = e.controllerPodCounter
  reserved : ∀ uid, isModelUid uid = true → ¬U uid
  extra : ∀ p ∈ e'.pods, p.ns = N → p.controllerUid = none ∧ U p.uid
  own : ∀ p ∈ e.pods, ¬U p.uid
  bindingNs : ∀ b ∈ e.bindings, b.ns ≠ none ∧ b.ns ≠ some N
  serviceNs : ∀ svc ∈ e.services, svc.sourceNs ≠ N
  controllerNs : ∀ c ∈ e.controllers, c.ns ≠ N ∧ ∀ k, ¬U (replacementUid c.uid k)

namespace Env.Beside

variable {N : String} {U : String → Prop} {e e' : Env} {ns : String}

lemma pod_get? (h : e.Beside N U e') {uid : String} (hu : ¬U uid) :
    e'.pods.get? uid = e.pods.get? uid := by
  rw [← h.pods]
  refine (Table.get?_filter fun p hp hk => ?_).symm
  rw [bne_iff_ne]
  intro hns
  exact hu (hk ▸ (h.extra p hp hns).2)

lemma pod_contains (h : e.Beside N U e') {uid : String} (hu : ¬U uid) :
    e'.pods.contains uid = e.pods.contains uid := by
  rw [Table.contains, Table.contains, h.pod_get? hu]

lemma account_get? (h : e.Beside N U e') {sa : String × String} (hns : sa.1 ≠ N) :
    e'.serviceAccounts.get? sa = e.serviceAccounts.get? sa := by
  rw [← h.accounts]
  refine (Table.get?_filter fun a _ hk => ?_).symm
  rw [bne_iff_ne]
  rintro rfl
  exact hns (congrArg Prod.fst hk).symm

lemma secret_get? (h : e.Beside N U e') {key : String × String} (hns : key.1 ≠ N) :
    e'.secrets.get? key = e.secrets.get? key := by
  rw [← h.secrets]
  refine (Table.get?_filter fun x _ hk => ?_).symm
  rw [bne_iff_ne]
  rintro rfl
  exact hns (congrArg Prod.fst hk).symm

lemma role_get? (h : e.Beside N U e') {key : Option String × String} (hns : key.1 ≠ some N) :
    e'.roles.get? key = e.roles.get? key := by
  rw [← h.roles]
  refine (Table.get?_filter fun x _ hk => ?_).symm
  rw [bne_iff_ne]
  intro hx
  exact hns (hx ▸ (congrArg Prod.fst hk).symm)

/-! RBAC -/

lemma authorizingBindings (h : e.Beside N U e') (user verb resource ns : String)
    (name : Option String) : Afterlock.authorizingBindings e' user verb resource ns name =
      Afterlock.authorizingBindings e user verb resource ns name := by
  unfold Afterlock.authorizingBindings
  rw [h.bindings]
  refine congrArg (List.map RoleBinding.key) (List.filter_congr fun b hb => ?_)
  have hns := (h.bindingNs b (Text.mem_sortedBy.1 hb)).2
  unfold bindingGrants
  rw [h.role_get?]
  cases b.roleKind with
  | role => exact hns
  | clusterRole => exact fun hnone => by cases hnone

/-- Nobody is authorized in the further namespace. -/
lemma authorizingBindings_eq_nil (h : e.Beside N U e') (user verb resource : String)
    (name : Option String) : Afterlock.authorizingBindings e user verb resource N name = [] := by
  by_contra hne
  obtain ⟨b, hb, hgrants⟩ := authorizingBindings_ne_nil_iff.1 hne
  obtain ⟨hnone, hN⟩ := h.bindingNs b hb
  simp only [bindingGrants, Bool.and_eq_true] at hgrants
  cases hbn : b.ns with
  | none => exact hnone hbn
  | some n =>
      rw [hbn] at hgrants
      have : n = N := by simpa using hgrants.1.1
      exact hN (hbn ▸ this ▸ rfl)

lemma readGrant (h : e.Beside N U e') (user : String) (sec : Secret) :
    Engine.readGrant e' user sec = Engine.readGrant e user sec := by
  unfold Engine.readGrant
  simp only [h.authorizingBindings]

lemma readGrant_eq_none (h : e.Beside N U e') (user : String) {sec : Secret} (hs : sec.ns = N) :
    Engine.readGrant e user sec = none := by
  unfold Engine.readGrant
  simp [hs, h.authorizingBindings_eq_nil]

lemma admissionDecision (h : e.Beside N U e') (user : String) {ns : String} (sa : String)
    (hns : ns ≠ N) :
    Afterlock.admissionDecision e' user ns sa = Afterlock.admissionDecision e user ns sa := by
  have hfilter : e'.admission.filter (fun p => p.ns == ns) =
      e.admission.filter (fun p => p.ns == ns) := by
    rw [← h.admission, List.filter_filter]
    refine List.filter_congr fun p _ => ?_
    by_cases hp : p.ns = ns
    · simp [hp, hns]
    · simp [hp]
  unfold Afterlock.admissionDecision
  rw [hfilter]

/-- The credentials of the part: of no account of the further namespace, bound to no Pod of it. -/
def Ours (N : String) (U : String → Prop) (c : CredentialSpec) : Prop :=
  (∀ sa, parseSaUsername c.username = some sa → sa.1 ≠ N) ∧ ∀ u, c.boundPodUid = some u → ¬U u

lemma credentialUsable (h : e.Beside N U e') {c : CredentialSpec} (hc : Ours N U c)
    (profile : Profile) (at? : Option ℤ) :
    Afterlock.credentialUsable e' c profile at? = Afterlock.credentialUsable e c profile at? := by
  unfold Afterlock.credentialUsable
  cases hsa : parseSaUsername c.username with
  | none => rfl
  | some sa =>
      have haccount : accountReasons e' c sa = accountReasons e c sa := by
        unfold accountReasons
        rw [h.account_get? (hc.1 sa hsa)]
      have hpod : boundPodReasons e' c sa = boundPodReasons e c sa := by
        unfold boundPodReasons
        cases hu : c.boundPodUid with
        | none => rfl
        | some u =>
            simp only
            rw [h.pod_get? (hc.2 u hu)]
      simp only [h.time, haccount, hpod]

/-! What the loops run over -/

lemma sortedPods (h : e.Beside N U e') :
    (Engine.sortedPods e').filter (fun p => p.ns != N) = Engine.sortedPods e := by
  unfold Engine.sortedPods
  rw [Text.filter_sortedBy, ← h.pods]
  rfl

lemma sortedSecrets (h : e.Beside N U e') :
    (Engine.sortedSecrets e').filter (fun x => x.ns != N) = Engine.sortedSecrets e := by
  unfold Engine.sortedSecrets
  rw [Text.filter_sortedBy, ← h.secrets]
  rfl

lemma accountsIn (h : e.Beside N U e') (hns : ns ≠ N) :
    Engine.accountsIn e' ns = Engine.accountsIn e ns := by
  unfold Engine.accountsIn
  have hrows : e.serviceAccounts.rows = e'.serviceAccounts.rows.filter fun a => a.ns != N := by
    rw [← h.accounts]
    rfl
  rw [hrows, ← Text.filter_sortedBy, List.filter_filter]
  refine congrArg (List.map ServiceAccount.name) (List.filter_congr fun a _ => ?_)
  by_cases ha : a.ns = ns
  · simp [ha, hns]
  · simp [ha]

lemma namespaces (h : e.Beside N U e') :
    e'.namespaces.filter (fun n => n != N) = e.namespaces := by
  unfold Env.namespaces
  rw [Text.filter_sortedBy, Text.filter_dedup, List.filter_append, ← h.accounts, ← h.pods]
  simp only [List.filter_map]
  rfl

lemma ownsPod (h : e.Beside N U e') (cuid : String) :
    Afterlock.ownsPod e' cuid = Afterlock.ownsPod e cuid := by
  rw [Bool.eq_iff_iff, ownsPod_iff, ownsPod_iff, ← h.pods]
  constructor
  · rintro ⟨p, hp, ho⟩
    refine ⟨p, Table.mem_filter.2 ⟨hp, ?_⟩, ho⟩
    rw [bne_iff_ne]
    intro hns
    rw [(h.extra p hp hns).1] at ho
    cases ho
  · rintro ⟨p, hp, ho⟩
    exact ⟨p, (Table.mem_filter.1 hp).1, ho⟩

/-! Environment transitions -/

/-- Pods outside the further namespace are added on both sides. -/
lemma putPod (h : e.Beside N U e') {p : Pod} (hns : p.ns ≠ N) (hu : ¬U p.uid) :
    Env.Beside N U { e with pods := e.pods.put p } { e' with pods := e'.pods.put p } where
  time := h.time
  accounts := h.accounts
  pods := by
    show (e'.pods.put p).filter (fun p => p.ns != N) = e.pods.put p
    rw [Table.filter_put (by simpa using hns), h.pods]
  controllers := h.controllers
  roles := h.roles
  bindings := h.bindings
  secrets := h.secrets
  services := h.services
  admission := h.admission
  counter := h.counter
  reserved := h.reserved
  extra q hq hqns := by
    rcases Table.mem_put.1 hq with rfl | ⟨hq, -⟩
    · exact absurd hqns hns
    · exact h.extra q hq hqns
  own q hq := by
    rcases Table.mem_put.1 hq with rfl | ⟨hq, -⟩
    · exact hu
    · exact h.own q hq
  bindingNs := h.bindingNs
  serviceNs := h.serviceNs
  controllerNs := h.controllerNs

/-- The numbers of the recreated Pods are replaced on both sides. -/
lemma withCounter (h : e.Beside N U e') (counter : Table (Prod.fst : String × ℤ → String)) :
    Env.Beside N U { e with controllerPodCounter := counter }
      { e' with controllerPodCounter := counter } :=
  { h with counter := rfl }

/-- A controller recreates the same Pod on both sides. -/
lemma reconcileController (h : e.Beside N U e') {c : Controller} (hc : c ∈ e.controllers) :
    (Afterlock.reconcileController e c).2 = (Afterlock.reconcileController e' c).2 ∧
      (Afterlock.reconcileController e c).1.Beside N U (Afterlock.reconcileController e' c).1 ∧
      (Afterlock.reconcileController e c).1.controllers = e.controllers := by
  obtain ⟨hns, hfresh⟩ := h.controllerNs c hc
  rcases reconcileController_cases e c with ⟨ho, heq⟩ | ⟨k, ho, hfree, hle, htaken, heq⟩ <;>
    rcases reconcileController_cases e' c with ⟨ho', heq'⟩ | ⟨k', ho', hfree', hle', htaken', heq'⟩
  · rw [heq, heq']
    exact ⟨rfl, h, rfl⟩
  · rw [h.ownsPod, ho] at ho'
    cases ho'
  · rw [h.ownsPod, ho] at ho'
    cases ho'
  · -- the first number that is free is the same
    obtain rfl : k = k' := by
      rw [h.counter] at hle' htaken'
      rcases lt_trichotomy k k' with hlt | rfl | hlt
      · have := htaken' k hle hlt
        rw [h.pod_contains (hfresh k), hfree] at this
        cases this
      · rfl
      · have := htaken k' hle' hlt
        rw [← h.pod_contains (hfresh k'), hfree'] at this
        cases this
    rw [heq, heq', h.counter]
    exact ⟨rfl, (h.putPod hns (hfresh k)).withCounter _, rfl⟩

lemma reconcileEach_cons_snd (c : Controller) (cs : List Controller) (e : Env) :
    (Afterlock.reconcileEach (c :: cs) e).2 = (Afterlock.reconcileController e c).2.toList ++
      (Afterlock.reconcileEach cs (Afterlock.reconcileController e c).1).2 := rfl

lemma reconcileEach {cs : List Controller} (h : e.Beside N U e')
    (hcs : ∀ c ∈ cs, c ∈ e.controllers) :
    (Afterlock.reconcileEach cs e).2 = (Afterlock.reconcileEach cs e').2 ∧
      (Afterlock.reconcileEach cs e).1.Beside N U (Afterlock.reconcileEach cs e').1 := by
  induction cs generalizing e e' with
  | nil => exact ⟨rfl, h⟩
  | cons c cs ih =>
      obtain ⟨hpod, hrest, hctl⟩ := h.reconcileController (hcs c List.mem_cons_self)
      obtain ⟨hpods, hend⟩ := ih hrest fun d hd => hctl ▸ hcs d (List.mem_cons_of_mem _ hd)
      exact ⟨by rw [reconcileEach_cons_snd, reconcileEach_cons_snd, hpod, hpods], hend⟩

lemma reconcile (h : e.Beside N U e') :
    (reconcileControllers e).2 = (reconcileControllers e').2 ∧
      (reconcileControllers e).1.Beside N U (reconcileControllers e').1 := by
  unfold reconcileControllers
  rw [h.controllers]
  exact h.reconcileEach fun c hc => Text.mem_sortedBy.1 hc

/-- The controllers are replaced on both sides. -/
lemma withControllers (h : e.Beside N U e') {controllers : Table Controller.uid}
    (hc : ∀ c ∈ controllers, c.ns ≠ N ∧ ∀ k, ¬U (replacementUid c.uid k)) :
    Env.Beside N U { e with controllers := controllers } { e' with controllers := controllers } :=
  { h with controllers := rfl, controllerNs := hc }

/-- Pods are dropped on both sides, and none of the further ones. -/
lemma dropPods (h : e.Beside N U e') (victim : Pod → Bool) :
    (e.dropPods victim).Beside N U (e'.dropPods victim) where
  time := h.time
  accounts := h.accounts
  pods := by
    show (e'.pods.filter _).filter _ = e.pods.filter _
    rw [Table.filter_filter_comm, h.pods]
  controllers := h.controllers
  roles := h.roles
  bindings := h.bindings
  secrets := h.secrets
  services := h.services
  admission := h.admission
  counter := h.counter
  reserved := h.reserved
  extra p hp := h.extra p (Table.mem_filter.1 hp).1
  own p hp := h.own p (Table.mem_filter.1 hp).1
  bindingNs := h.bindingNs
  serviceNs := h.serviceNs
  controllerNs := h.controllerNs

end Env.Beside

/-- The action names nothing of the further namespace. -/
def DefenderAction.Avoids (N : String) (U : String → Prop) : DefenderAction → Prop
  | .deletePod uid => ¬U uid
  | .deletePodsExcept ns _ _ => ns ≠ N
  | .deleteServiceAccount ns _ => ns ≠ N
  | _ => True

namespace Env.Beside

variable {N : String} {U : String → Prop} {e e' : Env}

/-- The Secrets of the part and the services are replaced on both sides. -/
lemma withServices (h : e.Beside N U e') {secrets secrets' : Table Secret.key}
    {services : Table DownstreamService.name}
    (hsecrets : secrets'.filter (fun x => x.ns != N) = secrets)
    (hservices : ∀ svc ∈ services, svc.sourceNs ≠ N) :
    Env.Beside N U { e with secrets := secrets, services := services }
      { e' with secrets := secrets', services := services } :=
  { h with secrets := hsecrets, services := rfl, serviceNs := hservices }

lemma rotate (h : e.Beside N U e') {svc : DownstreamService} (hsvc : svc ∈ e.services) :
    (Afterlock.rotate e svc).2 = (Afterlock.rotate e' svc).2 ∧
      (Afterlock.rotate e svc).1.Beside N U (Afterlock.rotate e' svc).1 := by
  have hns := h.serviceNs svc hsvc
  have hget : e'.secrets.get? (svc.sourceNs, svc.sourceSecret) =
      e.secrets.get? (svc.sourceNs, svc.sourceSecret) := h.secret_get? hns
  have hservices : ∀ v g, ∀ x ∈ e.services.put { svc with acceptedVersion := v, grace := g },
      x.sourceNs ≠ N := by
    intro v g x hx
    rcases Table.mem_put.1 hx with rfl | ⟨hx, -⟩
    · exact hns
    · exact h.serviceNs x hx
  rcases e' with ⟨time', accounts', pods', controllers', roles', bindings', secrets', services', _,
    _⟩
  obtain rfl : time' = e.time := h.time
  obtain rfl : services' = e.services := h.services
  simp only at hget
  unfold Afterlock.rotate
  simp only [hget]
  cases hsec : e.secrets.get? (svc.sourceNs, svc.sourceSecret) with
  | none =>
      -- without its Secret the service goes to the next version alone
      simp only
      split_ifs
      · exact ⟨rfl, h.withServices h.secrets (hservices _ _)⟩
      · exact ⟨rfl, h.withServices h.secrets (hservices _ _)⟩
  | some x =>
      -- the Secret is not of the further namespace, so that the put commutes with the filter
      have hkey := (Table.get?_eq_some_iff.1 hsec).2
      have hput : ∀ v : ℤ, (secrets'.put { x with version := v }).filter
          (fun x => x.ns != N) = e.secrets.put { x with version := v } := by
        intro v
        have hx : x.ns ≠ N := fun hx => hns (hx ▸ (congrArg Prod.fst hkey).symm)
        rw [Table.filter_put (by simpa using hx), h.secrets]
      simp only
      split_ifs
      · exact ⟨rfl, h.withServices (hput _) (hservices _ _)⟩
      · exact ⟨rfl, h.withServices (hput _) (hservices _ _)⟩

/-- A defender action that names nothing of the further namespace does the same on both sides. -/
lemma apply (h : e.Beside N U e') {a : DefenderAction} (ha : a.Avoids N U) :
    (applyDefenderAction e a).2 = (applyDefenderAction e' a).2 ∧
      (applyDefenderAction e a).1.Beside N U (applyDefenderAction e' a).1 := by
  rcases e' with ⟨time', accounts', pods', controllers', roles', bindings', secrets', services', _,
    _⟩
  obtain rfl : time' = e.time := h.time
  obtain rfl : controllers' = e.controllers := h.controllers
  obtain rfl : bindings' = e.bindings := h.bindings
  obtain rfl : services' = e.services := h.services
  cases a with
  | removeBinding ns name =>
      exact ⟨rfl, { h with
        bindings := rfl, bindingNs := fun b hb => h.bindingNs b (Table.mem_erase.1 hb).1 }⟩
  | deletePod uid =>
      -- the note says whether the Pod was there, and it is the same Pod on both sides
      have hcontains : pods'.contains uid = e.pods.contains uid := h.pod_contains ha
      simp only [applyDefenderAction, hcontains]
      refine ⟨trivial, { h with pods := ?_, extra := ?_, own := ?_ }⟩
      · show (pods'.erase uid).filter (fun p => p.ns != N) = e.pods.erase uid
        rw [Table.filter_erase, h.pods]
      · exact fun p hp => h.extra p (Table.mem_erase.1 hp).1
      · exact fun p hp => h.own p (Table.mem_erase.1 hp).1
  | deleteController uid =>
      refine ⟨rfl, Env.Beside.dropPods (h.withControllers fun c hc => ?_) _⟩
      exact h.controllerNs c (Table.mem_erase.1 hc).1
  | deletePodsExcept ns sa keep =>
      -- the note says whether any Pod goes: the Pods of the namespace are the same on both sides
      have hany : (pods'.rows.any fun p => p.ns == ns && p.serviceAccount == sa &&
          !keep.contains p.uid) = e.pods.rows.any fun p => p.ns == ns && p.serviceAccount == sa &&
          !keep.contains p.uid := by
        have hrows : e.pods.rows = pods'.rows.filter fun p => p.ns != N := by
          rw [← h.pods]
          rfl
        rw [hrows, List.any_filter]
        refine List.any_congr rfl fun p => ?_
        by_cases hp : p.ns = ns
        · have hN : p.ns ≠ N := fun hN => ha (hp.symm.trans hN)
          simp [bne_iff_ne.2 hN]
        · simp [hp]
      simp only [applyDefenderAction, hany]
      exact ⟨trivial, h.dropPods _⟩
  | deleteControllersExcept ns sa keep =>
      exact ⟨rfl, (h.withControllers fun c hc =>
        h.controllerNs c (Table.mem_filter.1 hc).1).dropPods _⟩
  | deleteServiceAccount ns name =>
      -- the note says whether the account was there
      have hcontains : accounts'.contains (ns, name) = e.serviceAccounts.contains (ns, name) :=
        congrArg Option.isSome (h.account_get? ha)
      simp only [applyDefenderAction, hcontains]
      refine ⟨trivial, { h with accounts := ?_ }⟩
      show (accounts'.erase (ns, name)).filter (fun a => a.ns != N) =
        e.serviceAccounts.erase (ns, name)
      rw [Table.filter_erase, h.accounts]
  | rotateDownstreamCredential service =>
      simp only [applyDefenderAction]
      cases hsvc : e.services.get? service with
      | none => exact ⟨rfl, h⟩
      | some svc => exact h.rotate (Table.get?_eq_some_iff.1 hsvc).1
  | wait seconds =>
      exact ⟨rfl, { h with time := rfl }⟩

end Env.Beside

/-- The username of a service account is of that account, if of any. -/
lemma parseSaUsername_saUsername {ns name : String} {sa : String × String}
    (h : parseSaUsername (saUsername ns name) = some sa) : sa = (ns, name) := by
  unfold parseSaUsername saUsername at h
  rw [String.append_assoc, String.append_assoc, if_pos (Text.hasPrefix_append _ _),
    Text.dropLen_append, ← String.append_assoc] at h
  split at h
  next x y hsplit =>
    split_ifs at h
    cases h
    obtain ⟨heq, hx, hy⟩ := Text.splitOn_eq_pair_iff.1 hsplit
    have hlist : ns.toList ++ ':' :: name.toList = x.toList ++ ':' :: y.toList := by
      rw [← heq]
      simp
    -- there is one colon, so none in the name
    have hcount := congrArg (List.count ':') hlist
    rw [List.count_append, List.count_append, List.count_cons_self, List.count_cons_self,
      List.count_eq_zero.2 hx, List.count_eq_zero.2 hy] at hcount
    have hname : ':' ∉ name.toList := List.count_eq_zero.1 (by omega)
    obtain ⟨h1, h2⟩ := Text.append_sep_inj hlist hname hy
    rw [String.toList_inj.1 h1, String.toList_inj.1 h2]
  · cases h

/-! ### States side by side -/

/-- The states of two runs: the environments are side by side and everything else is the same. -/
structure ViewState.Beside (N : String) (U : String → Prop) (s s' : ViewState) : Prop where
  same : s' = { s with env := s'.env }
  env : s.env.Beside N U s'.env
  controlled : ∀ uid, s.Has (.controlsPod uid) → ¬U uid
  creds : ∀ c ∈ s.creds, Env.Beside.Ours N U c

namespace ViewState.Beside

variable {N : String} {U : String → Prop} {s s' : ViewState} {ctx : Ctx} {i : ℤ}

lemma exists_env (h : s.Beside N U s') : ∃ e', s' = { s with env := e' } := ⟨_, h.same⟩

/-- What is done to everything but the environment is done on both sides. -/
lemma congr (h : s.Beside N U s') {t t' : ViewState} (hsame : t' = { t with env := s'.env })
    (henv : t.env = s.env) (hc : ∀ uid, t.Has (.controlsPod uid) → ¬U uid)
    (hcreds : ∀ c ∈ t.creds, Env.Beside.Ours N U c) : t.Beside N U t' where
  same := by rw [hsame]
  env := by
    rw [hsame, henv]
    exact h.env
  controlled := hc
  creds := hcreds

lemma tick (h : s.Beside N U s') :
    Alike (Beside N U) (Engine.tick ctx) (Engine.tick ctx) s s' := by
  obtain ⟨e', rfl⟩ := h.exists_env
  have ht : Beside N U { s with count := s.count + 1 } { s with env := e', count := s.count + 1 } :=
    h.congr rfl rfl h.controlled h.creds
  exact alike_update_bind (alike_getState_bind (alike_ite Iff.rfl (fun _ => alike_stop ht)
    fun _ => alike_pure ht))

lemma recordUnknown (h : s.Beside N U s') (u : UnknownEntry) :
    Alike (Beside N U) (Engine.recordUnknown u) (Engine.recordUnknown u) s s' := by
  obtain ⟨e', rfl⟩ := h.exists_env
  refine alike_update ?_
  show Beside N U (if s.unknowns.contains u.key then s else { s with unknowns := s.unknowns.put u })
    (if s.unknowns.contains u.key then { s with env := e' } else
      { s with env := e', unknowns := s.unknowns.put u })
  split_ifs
  · exact h
  · exact h.congr rfl rfl h.controlled h.creds

/-- A fact is put in its table on both sides. -/
lemma putFact (h : s.Beside N U s') {d : Derivation}
    (hd : ∀ uid, d.fact = .controlsPod uid → ¬U uid) :
    Beside N U { s with facts := s.facts.put d } { s' with facts := s'.facts.put d } := by
  obtain ⟨e', rfl⟩ := h.exists_env
  refine h.congr rfl rfl (fun uid hhas => ?_) h.creds
  obtain ⟨x, hx, hxf⟩ := hhas
  rcases Table.mem_put.1 hx with rfl | ⟨hx, -⟩
  · exact hd uid hxf
  · exact h.controlled uid ⟨x, hx, hxf⟩

lemma putCapability (h : s.Beside N U s') (d : Derivation) :
    Beside N U { s with eph := s.eph.put d } { s' with eph := s'.eph.put d } := by
  obtain ⟨e', rfl⟩ := h.exists_env
  exact h.congr rfl rfl h.controlled h.creds

lemma add (h : s.Beside N U s') {d : Derivation}
    (hd : ∀ uid, d.fact = .controlsPod uid → ¬U uid) :
    Alike (Beside N U) (Engine.add ctx d) (Engine.add ctx d) s s' := by
  have hfacts : s'.facts = s.facts := by rw [h.same]
  have heph : s'.eph = s.eph := by rw [h.same]
  refine alike_getState_bind (alike_ite Iff.rfl (fun _ => ?_) fun _ => ?_)
  · refine alike_ite (by rw [hfacts]) (fun _ => alike_pure h) fun _ => ?_
    exact h.tick.bind fun _ t t' ht => alike_update_bind (alike_pure (ht.putFact hd))
  · refine alike_ite (by rw [heph]) (fun _ => alike_pure h) fun _ => ?_
    exact h.tick.bind fun _ t t' ht => alike_update_bind (alike_pure (ht.putCapability d))

lemma usable (h : s.Beside N U s') {cred : CredentialSpec} (hc : Env.Beside.Ours N U cred) :
    Alike (Beside N U) (Engine.usable ctx cred) (Engine.usable ctx cred) s s' := by
  have htime : useTime ctx s'.env cred = useTime ctx s.env cred := by
    unfold useTime
    rw [h.env.time]
  refine alike_getState_bind ?_
  simp only [htime, h.env.credentialUsable hc]
  refine alike_ite Iff.rfl (fun _ => ?_) fun _ => alike_ite Iff.rfl (fun _ => alike_pure h)
    fun _ => alike_pure h
  exact (h.recordUnknown _).bind fun _ t t' ht => alike_pure ht

/-! The rules -/

lemma sortedFacts (h : s.Beside N U s') {α : Type} (select : Fact → Option α)
    (key : α → List String) :
    Engine.sortedFacts select key s' = Engine.sortedFacts select key s := by
  rw [h.same]
  rfl

/-- A loop over what was known before runs alike, if its turns do. -/
lemma forEach (h : s.Beside N U s') {α : Type} {xs : List α} {body body' : α → EngineM Bool}
    (hbody : ∀ x ∈ xs, ∀ t t', t.Beside N U t' → Alike (Beside N U) (body x) (body' x) t t') :
    Alike (Beside N U) (Prog.forEach xs body) (Prog.forEach xs body') s s' :=
  alike_forEach (show xs.filter (fun _ => true) = xs from List.filter_true xs) hbody
    (fun _ _ hk => by cases hk) h

lemma controllerPods (h : s.Beside N U s') :
    Alike (Beside N U) (Engine.controllerPods ctx i) (Engine.controllerPods ctx i) s s' := by
  refine alike_getState_bind ?_
  rw [h.sortedFacts]
  refine h.forEach fun c _ t t' ht => alike_getState_bind ?_
  refine alike_forEach ht.env.sortedPods (fun p hp u u' hu => ?_) (fun p hp hk u u' hu => ?_) ht
  · exact alike_ite Iff.rfl (fun _ => hu.add fun uid huid => by
      cases huid
      exact ht.env.own p (mem_sortedPods.1 hp)) fun _ => alike_pure hu
  · have hnone := (ht.env.extra p (mem_sortedPods.1 hp) (by simpa using hk)).1
    rw [hnone, if_neg (by simp)]
    exact alike_pure hu

lemma obtainToken (h : s.Beside N U s') {pod : Pod} {sa : ServiceAccount} (aud : String)
    (hpod : ¬U pod.uid) (hsa : sa.ns ≠ N) :
    Alike (Beside N U) (Engine.obtainToken ctx i pod sa aud) (Engine.obtainToken ctx i pod sa aud)
      s s' := by
  obtain ⟨e', rfl⟩ := h.exists_env
  have htime : e'.time = s.env.time := h.env.time
  refine alike_getState_bind ?_
  simp only [htime]
  refine alike_ite Iff.rfl (fun _ => alike_pure h) fun _ => alike_update_bind ?_
  have hput := h.congr (t := { s with creds := s.creds.put (projectedToken pod sa aud
    (s.env.time + ctx.inp.profile.projectedTokenTtlSeconds)) }) rfl rfl h.controlled fun c hc => by
      rcases Table.mem_put.1 hc with rfl | ⟨hc, -⟩
      · refine ⟨fun x hx => ?_, fun u hu => Option.some.inj hu ▸ hpod⟩
        rw [parseSaUsername_saUsername hx]
        exact hsa
      · exact h.creds c hc
  refine hput.tick.bind fun _ t t' ht => ?_
  refine alike_update_bind (alike_pure (ht.putFact fun uid hu => ?_))
  cases hu

lemma projectedTokens (h : s.Beside N U s') :
    Alike (Beside N U) (Engine.projectedTokens ctx i) (Engine.projectedTokens ctx i) s s' := by
  refine alike_getState_bind ?_
  rw [h.sortedFacts]
  refine h.forEach fun uid huid t t' ht => alike_getState_bind ?_
  have hfree : ¬U uid := h.controlled uid (mem_sortedControlledPods.1 huid)
  rw [ht.env.pod_get? hfree]
  cases hpod : t.env.pods.get? uid with
  | none => exact alike_pure ht
  | some pod =>
      obtain ⟨hmem, hkey⟩ := Table.get?_eq_some_iff.1 hpod
      have hns : pod.ns ≠ N := by
        rw [← ht.env.pods] at hmem
        simpa using (Table.mem_filter.1 hmem).2
      simp only
      rw [ht.env.account_get? hns]
      cases hsa : t.env.serviceAccounts.get? (pod.ns, pod.serviceAccount) with
      | none => exact alike_pure ht
      | some sa =>
          have hsans : sa.ns ≠ N := by
            have := (Table.get?_eq_some_iff.1 hsa).2
            rw [show sa.ns = pod.ns from congrArg Prod.fst this]
            exact hns
          exact ht.forEach fun aud _ u u' hu => hu.obtainToken aud (hkey ▸ hfree) hsans

/-- A Pod of the part is created on both sides. -/
lemma createPod (h : s.Beside N U s') {ns sa : String} (hns : ns ≠ N) :
    Beside N U (withPod s (createdPod ns sa (modelPodUid ns sa i)))
      (withPod s' (createdPod ns sa (modelPodUid ns sa i))) := by
  obtain ⟨e', rfl⟩ := h.exists_env
  refine ⟨rfl, ?_, h.controlled, h.creds⟩
  exact h.env.putPod (show (createdPod ns sa (modelPodUid ns sa i)).ns ≠ N from hns)
    (h.env.reserved _ (isModelUid_modelPodUid ns sa i))

/-- A controller of the part is created on both sides. -/
lemma createController (h : s.Beside N U s') {ns sa : String} (hns : ns ≠ N) :
    Beside N U (withController s (createdController ns sa (modelControllerUid ns sa i)))
      (withController s' (createdController ns sa (modelControllerUid ns sa i))) := by
  obtain ⟨e', rfl⟩ := h.exists_env
  refine ⟨rfl, ?_, h.controlled, h.creds⟩
  have hcounter : e'.controllerPodCounter = s.env.controllerPodCounter := h.env.counter
  have hcontrollers : e'.controllers = s.env.controllers := h.env.controllers
  show (Env.addController s.env _).Beside N U (Env.addController e' _)
  unfold Env.addController
  rw [hcounter, hcontrollers]
  refine ((h.env.withControllers fun c hc => ?_).withCounter _).reconcile.2
  rcases Table.mem_put.1 hc with rfl | ⟨hc, -⟩
  · refine ⟨hns, fun k => h.env.reserved _ ?_⟩
    exact isModelUid_of_hasPrefix (.inr (hasPrefix_append_of_hasPrefix
      (hasPrefix_append_of_hasPrefix (hasPrefix_modelControllerUid ns sa i))))
  · exact h.env.controllerNs c hc

lemma controlsLive (h : s.Beside N U s') (ns sa : String) (kind : WorkloadKind) :
    Engine.controlsLive s' ns sa kind = Engine.controlsLive s ns sa kind := by
  obtain ⟨e', rfl⟩ := h.exists_env
  have hcontrollers : e'.controllers = s.env.controllers := h.env.controllers
  unfold Engine.controlsLive
  rw [Bool.eq_iff_iff, List.any_eq_true, List.any_eq_true]
  refine exists_congr fun d => and_congr_right fun hd => ?_
  cases hf : d.fact with
  | controlsPod uid =>
      have hpod : e'.pods.get? uid = s.env.pods.get? uid :=
        h.env.pod_get? (h.controlled uid ⟨d, hd, hf⟩)
      cases kind <;> simp only [hpod]
  | controlsController uid => cases kind <;> simp only [hcontrollers]
  | _ => exact Iff.rfl

lemma createWorkload (h : s.Beside N U s') {cid : String} {ucond : Condition} {user ns sa : String}
    {via : List String} {kind : WorkloadKind} (hns : ns ≠ N) :
    Alike (Beside N U) (Engine.createWorkload ctx i cid ucond user ns via kind sa)
      (Engine.createWorkload ctx i cid ucond user ns via kind sa) s s' := by
  have hadm := h.env.admissionDecision user sa hns
  refine alike_getState_bind (alike_ite ?_ (fun _ => alike_pure h) fun _ => ?_)
  · rw [h.controlsLive]
  simp only [hadm]
  cases (admissionDecision s.env user ns sa).outcome with
  | unsupported => exact (h.recordUnknown _).bind fun _ t t' ht => alike_pure ht
  | deny => exact alike_pure h
  | allow =>
      cases kind with
      | pod =>
          have hfree := h.env.reserved _ (isModelUid_modelPodUid ns sa i)
          refine alike_ite (by rw [h.env.pod_contains hfree]) (fun _ => alike_pure h) fun _ =>
            alike_update_bind ((h.createPod hns).add fun uid huid => ?_)
          cases huid
          exact hfree
      | controller =>
          refine alike_ite (by rw [h.env.controllers]) (fun _ => alike_pure h) fun _ =>
            alike_update_bind ((h.createController hns).add fun uid huid => ?_)
          cases huid

lemma createWorkloads (h : s.Beside N U s') {cid : String} {ucond : Condition} {user ns : String}
    {kind : WorkloadKind} (hns : ns ≠ N) :
    Alike (Beside N U) (Engine.createWorkloads ctx i cid ucond user ns kind)
      (Engine.createWorkloads ctx i cid ucond user ns kind) s s' := by
  refine alike_getState_bind ?_
  simp only [h.env.authorizingBindings, h.env.accountsIn hns]
  exact alike_ite Iff.rfl (fun _ => alike_pure h) fun _ =>
    h.forEach fun sa _ t t' ht => ht.createWorkload hns

/-- Nothing is created in the further namespace. -/
lemma skip_createWorkloads (h : s.Beside N U s') {cid : String} {ucond : Condition} {user : String}
    {kind : WorkloadKind} : Alike (Beside N U) (pure false)
      (Engine.createWorkloads ctx i cid ucond user N kind) s s' := by
  show Alike (Beside N U) (getState >>= fun _ => pure false) _ s s'
  refine alike_getState_bind ?_
  simp only [h.env.authorizingBindings, h.env.authorizingBindings_eq_nil]
  exact alike_pure h

lemma execPod (h : s.Beside N U s') {cid : String} {ucond : Condition} {user : String} {p : Pod}
    (hp : ¬U p.uid) : Alike (Beside N U) (Engine.execPod ctx i cid ucond user p)
      (Engine.execPod ctx i cid ucond user p) s s' := by
  refine alike_getState_bind ?_
  simp only [h.env.authorizingBindings]
  refine alike_ite Iff.rfl (fun _ => alike_pure h) fun _ => h.add fun uid huid => ?_
  cases huid
  exact hp

lemma skip_execPod (h : s.Beside N U s') {cid : String} {ucond : Condition} {user : String}
    {p : Pod} (hp : p.ns = N) :
    Alike (Beside N U) (pure false) (Engine.execPod ctx i cid ucond user p) s s' := by
  show Alike (Beside N U) (getState >>= fun _ => pure false) _ s s'
  refine alike_getState_bind ?_
  simp only [h.env.authorizingBindings, hp, h.env.authorizingBindings_eq_nil]
  exact alike_pure h

lemma readSecret (h : s.Beside N U s') {cid : String} {ucond : Condition} {user : String}
    {sec : Secret} : Alike (Beside N U) (Engine.readSecret ctx i cid ucond user sec)
      (Engine.readSecret ctx i cid ucond user sec) s s' := by
  refine alike_getState_bind ?_
  rw [h.env.readGrant]
  cases Engine.readGrant s.env user sec with
  | none => exact alike_pure h
  | some grant =>
      refine (h.add fun uid hu => by cases hu).bind fun a t t' ht => ?_
      exact (ht.add fun uid hu => by cases hu).bind fun b u u' hu => alike_pure hu

lemma skip_readSecret (h : s.Beside N U s') {cid : String} {ucond : Condition} {user : String}
    {sec : Secret} (hs : sec.ns = N) : Alike (Beside N U) (pure false)
      (Engine.readSecret ctx i cid ucond user sec) s s' := by
  show Alike (Beside N U) (getState >>= fun _ => pure false) _ s s'
  refine alike_getState_bind ?_
  rw [h.env.readGrant, h.env.readGrant_eq_none user hs]
  exact alike_pure h

lemma credentialRequests (h : s.Beside N U s') (cid : String) :
    Alike (Beside N U) (Engine.credentialRequests ctx i cid) (Engine.credentialRequests ctx i cid)
      s s' := by
  have hcreds : s'.creds = s.creds := by rw [h.same]
  refine alike_getState_bind ?_
  rw [hcreds]
  cases hget : s.creds.get? cid with
  | none => exact alike_pure h
  | some cred =>
      have hours := h.creds cred (Table.get?_eq_some_iff.1 hget).1
      refine (h.usable hours).bind fun r t t' ht => ?_
      cases r with
      | none => exact alike_pure ht
      | some ucond =>
          refine Alike.bind (alike_forEach h.env.namespaces (fun ns hns u u' hu => ?_)
            (fun ns _ hk u u' hu => ?_) ht) fun a u u' hu => alike_getState_bind ?_
          · rw [← h.env.namespaces] at hns
            have hns : ns ≠ N := by simpa using (List.mem_filter.1 hns).2
            exact (hu.createWorkloads hns).bind fun a v v' hv =>
              (hv.createWorkloads hns).bind fun b w w' hw => alike_pure hw
          · obtain rfl : ns = N := by simpa using hk
            show Alike (Beside ns U) (pure false >>= fun a => pure false >>= fun b => pure (a || b))
              _ u u'
            exact hu.skip_createWorkloads.bind fun a v v' hv =>
              hv.skip_createWorkloads.bind fun b w w' hw => alike_pure hw
          refine Alike.bind (alike_forEach hu.env.sortedPods (fun p hp v v' hv => ?_)
            (fun p _ hk v v' hv => ?_) hu) fun b v v' hv => alike_getState_bind ?_
          · exact hv.execPod (hu.env.own p (mem_sortedPods.1 hp))
          · exact hv.skip_execPod (by simpa using hk)
          refine Alike.bind (alike_forEach hv.env.sortedSecrets (fun x _ w w' hw => hw.readSecret)
            (fun x _ hk w w' hw => hw.skip_readSecret (by simpa using hk)) hv) fun c w w' hw =>
              alike_pure hw

lemma apiRequests (h : s.Beside N U s') :
    Alike (Beside N U) (Engine.apiRequests ctx i) (Engine.apiRequests ctx i) s s' := by
  refine alike_getState_bind ?_
  rw [h.sortedFacts]
  exact h.forEach fun c _ t t' ht => ht.credentialRequests c

lemma downstreamCredentials (h : s.Beside N U s') :
    Alike (Beside N U) (Engine.downstreamCredentials ctx i) (Engine.downstreamCredentials ctx i)
      s s' := by
  refine alike_getState_bind ?_
  rw [h.sortedFacts]
  refine h.forEach fun k _ t t' ht => alike_getState_bind ?_
  have hfeed : secretsFeeding t'.env k.1 k.2.1 = secretsFeeding t.env k.1 k.2.1 := by
    unfold secretsFeeding
    rw [ht.env.services]
  rw [hfeed]
  exact ht.forEach fun svc _ u u' hu => hu.add fun uid huid => by cases huid

lemma downstreamUse (h : s.Beside N U s') :
    Alike (Beside N U) (Engine.downstreamUse ctx i) (Engine.downstreamUse ctx i) s s' := by
  refine alike_getState_bind ?_
  rw [h.sortedFacts]
  refine h.forEach fun k _ t t' ht => alike_getState_bind ?_
  simp only [ht.env.services, ht.env.time]
  split
  · exact alike_ite Iff.rfl (fun _ => ht.add fun uid hu => by cases hu) fun _ => alike_pure ht
  · exact alike_pure ht

lemma pass (h : s.Beside N U s') :
    Alike (Beside N U) (Engine.pass ctx i) (Engine.pass ctx i) s s' := by
  refine h.controllerPods.bind fun a t t' ht => ht.projectedTokens.bind fun b u u' hu => ?_
  refine hu.apiRequests.bind fun c v v' hv => hv.downstreamCredentials.bind fun d w w' hw => ?_
  exact hw.downstreamUse.bind fun e x x' hx => alike_pure hx

lemma closure (h : s.Beside N U s') :
    Alike (Beside N U) (Engine.closure ctx i) (Engine.closure ctx i) s s' := by
  obtain ⟨e', rfl⟩ := h.exists_env
  have ht : Beside N U { s with eph := ∅ } { s with env := e', eph := ∅ } :=
    h.congr rfl rfl h.controlled h.creds
  exact alike_update_bind (alike_getState_bind
    (alike_untilQuiet (fun _ _ hu => hu.pass) _ ht))

end ViewState.Beside

/-! ### Runs side by side -/

/-- The context of the run over a document with another inventory. -/
def Ctx.withInventory (ctx : Ctx) (inv : Inventory) : Ctx :=
  { ctx with inp := { ctx.inp with inventory := inv } }

namespace ViewState.Beside

variable {N : String} {U : String → Prop} {s s' : ViewState} {ctx : Ctx} {i : ℤ} {inv : Inventory}

lemma interval (h : s.Beside N U s') (label : Option String) (notes reconciled : List String) :
    Alike (Beside N U) (Engine.interval ctx i label notes reconciled)
      (Engine.interval (ctx.withInventory inv) i label notes reconciled) s s' := by
  refine h.closure.bind fun _ t t' ht => alike_update ?_
  obtain ⟨e', rfl⟩ := ht.exists_env
  have htime : e'.time = t.env.time := ht.env.time
  refine ht.congr ?_ rfl ht.controlled ht.creds
  simp only [htime]

lemma defenderStep (h : s.Beside N U s') {a : DefenderAction} (ha : a.Avoids N U) :
    Alike (Beside N U) (Engine.defenderStep a) (Engine.defenderStep a) s s' := by
  obtain ⟨hnotes, henv⟩ := h.env.apply ha
  obtain ⟨hpods, henv⟩ := henv.reconcile
  refine alike_getState_bind ?_
  simp only [hnotes, hpods]
  refine alike_update_bind (alike_pure ?_)
  obtain ⟨e', rfl⟩ := h.exists_env
  exact ⟨rfl, henv, h.controlled, h.creds⟩

lemma laterIntervals (h : s.Beside N U s') {actions : List DefenderAction}
    (ha : ∀ a ∈ actions, a.Avoids N U) (j : ℕ) :
    Alike (Beside N U) (Engine.laterIntervals ctx j actions)
      (Engine.laterIntervals (ctx.withInventory inv) j actions) s s' := by
  induction actions generalizing j s s' with
  | nil => exact alike_pure h
  | cons a rest ih =>
      refine (h.defenderStep (ha a List.mem_cons_self)).bind fun r t t' ht => ?_
      refine (ht.interval _ _ _).bind fun _ u u' hu => ?_
      exact ih hu (fun b hb => ha b (List.mem_cons_of_mem _ hb)) (j + 1)

lemma finalConfiguration (h : s.Beside N U s') {actions : List DefenderAction}
    (ha : ∀ a ∈ actions, a.Avoids N U) (notes : List String) :
    Alike (Beside N U) (Engine.finalConfiguration ctx actions notes)
      (Engine.finalConfiguration (ctx.withInventory inv) actions notes) s s' := by
  induction actions generalizing notes s s' with
  | nil => exact h.interval _ _ _
  | cons a rest ih =>
      refine (h.defenderStep (ha a List.mem_cons_self)).bind fun r t t' ht => ?_
      exact ih ht (fun b hb => ha b (List.mem_cons_of_mem _ hb)) _

lemma firstInterval (h : s.Beside N U s') : Alike (Beside N U) (Engine.firstInterval ctx)
    (Engine.firstInterval (ctx.withInventory inv)) s s' := by
  obtain ⟨hpods, henv⟩ := h.env.reconcile
  refine alike_getState_bind ?_
  simp only [hpods]
  refine alike_update_bind (Beside.interval ?_ _ _ _)
  obtain ⟨e', rfl⟩ := h.exists_env
  exact ⟨rfl, henv, h.controlled, h.creds⟩

/-- The historical Pods are put back on both sides. -/
lemma historyEnv {e e' : Env} (h : e.Beside N U e') {pods : List (String × String × String)}
    (hpods : ∀ x ∈ pods, x.2.1 ≠ N ∧ ¬U x.1) :
    (Engine.historyEnv e pods).Beside N U (Engine.historyEnv e' pods) := by
  unfold Engine.historyEnv
  induction pods generalizing e e' with
  | nil => exact h
  | cons x pods ih =>
      obtain ⟨hns, hu⟩ := hpods x List.mem_cons_self
      rw [List.foldl_cons, List.foldl_cons, h.pod_contains hu]
      refine ih ?_ fun y hy => hpods y (List.mem_cons_of_mem _ hy)
      split_ifs
      · exact h
      · exact h.putPod hns hu

lemma possibleHistory (h : s.Beside N U s')
    (hpods : ∀ x ∈ historical ctx, x.2.1 ≠ N ∧ ¬U x.1) :
    Alike (Beside N U) (Engine.possibleHistory ctx)
      (Engine.possibleHistory (ctx.withInventory inv)) s s' := by
  refine alike_ite Iff.rfl (fun _ => ?_) fun _ => alike_pure h
  obtain ⟨e', rfl⟩ := h.exists_env
  have henter : Beside N U
      { s with env := Engine.historyEnv s.env (historical ctx)
               facts := addHistorical s.facts (historical ctx) }
      { s with env := Engine.historyEnv e' (historical ctx)
               facts := addHistorical s.facts (historical ctx) } := by
    refine ⟨rfl, historyEnv h.env hpods, fun uid huid => ?_, h.creds⟩
    rcases has_addHistorical.1 huid with huid | ⟨x, hx, hxu⟩
    · exact h.controlled uid huid
    · cases hxu
      exact (hpods x hx).2
  refine alike_withScratch (P := Beside N U) henter.closure fun t t' ht => ?_
  obtain ⟨e'', rfl⟩ := ht.exists_env
  exact ⟨rfl, h.env, ht.controlled, ht.creds⟩

lemma runBody (h : s.Beside N U s') (hpods : ∀ x ∈ historical ctx, x.2.1 ≠ N ∧ ¬U x.1)
    (ha : ∀ a ∈ ctx.inp.remediation, a.Avoids N U) :
    Alike (Beside N U) (Engine.runBody ctx) (Engine.runBody (ctx.withInventory inv)) s s' := by
  refine alike_ite Iff.rfl (fun _ => ?_) fun _ => ?_
  · exact (h.possibleHistory hpods).bind fun _ t t' ht => ht.finalConfiguration ha []
  · refine (h.possibleHistory hpods).bind fun _ t t' ht => ?_
    exact ht.firstInterval.bind fun _ u u' hu => hu.laterIntervals ha 0

end ViewState.Beside

/-! ### Legitimate operations -/

namespace Env.Beside

variable {N : String} {U : String → Prop} {e e' : Env} {uid ns secret service : String}

lemma account_contains (h : e.Beside N U e') {sa : String × String} (hns : sa.1 ≠ N) :
    e'.serviceAccounts.contains sa = e.serviceAccounts.contains sa := by
  rw [Table.contains, Table.contains, h.account_get? hns]

lemma secret_contains (h : e.Beside N U e') {key : String × String} (hns : key.1 ≠ N) :
    e'.secrets.contains key = e.secrets.contains key := by
  rw [Table.contains, Table.contains, h.secret_get? hns]

/-- A Pod of the part is of another namespace. -/
lemma pod_ns (h : e.Beside N U e') {p : Pod} (hp : p ∈ e.pods) : p.ns ≠ N := by
  rw [← h.pods] at hp
  exact bne_iff_ne.1 (List.mem_filter.1 hp).2

lemma legitCanRead (h : e.Beside N U e') (hu : ¬U uid) (hns : ns ≠ N) :
    Afterlock.legitCanRead e' uid ns secret = Afterlock.legitCanRead e uid ns secret := by
  unfold Afterlock.legitCanRead
  rw [h.pod_get? hu]
  cases hp : e.pods.get? uid with
  | none => rfl
  | some p =>
      have hpod := h.pod_ns (Table.get?_eq_some_iff.1 hp).1
      have haccount : e'.serviceAccounts.contains (p.ns, p.serviceAccount) =
          e.serviceAccounts.contains (p.ns, p.serviceAccount) := h.account_contains hpod
      have hsecret : e'.secrets.contains (ns, secret) = e.secrets.contains (ns, secret) :=
        h.secret_contains hns
      simp only [haccount, hsecret, h.authorizingBindings]

lemma legitCanUseService (h : e.Beside N U e') (hu : ¬U uid) :
    Afterlock.legitCanUseService e' uid service = Afterlock.legitCanUseService e uid service := by
  unfold Afterlock.legitCanUseService
  rw [h.services]
  cases hsvc : e.services.get? service with
  | none => rfl
  | some svc =>
      have hns := h.serviceNs svc (Table.get?_eq_some_iff.1 hsvc).1
      have hsecret : e'.secrets.get? (svc.sourceNs, svc.sourceSecret) =
          e.secrets.get? (svc.sourceNs, svc.sourceSecret) := h.secret_get? hns
      simp only [h.legitCanRead hu hns, hsecret]

end Env.Beside

/-! ### Documents with further objects -/

/-- The namespace of the service account that a username names. -/
def usernameNamespaces (username : String) : List String :=
  ((parseSaUsername username).map Prod.fst).toList

/-- The namespaces that a subject names. -/
def Subject.namespaces (s : Subject) : List String := s.ns.toList ++ usernameNamespaces s.name

/-- The namespaces that a claim names. -/
def FactClaim.namespaces : FactClaim → List String
  | .knowsSecret ns _ _ => [ns]
  | .historicalPod _ ns _ => [ns]
  | _ => []

/-- The namespaces that an action names. -/
def DefenderAction.namespaces : DefenderAction → List String
  | .removeBinding ns _ => ns.toList
  | .deletePodsExcept ns _ _ => [ns]
  | .deleteControllersExcept ns _ _ => [ns]
  | .deleteServiceAccount ns _ => [ns]
  | _ => []

/-- The namespaces that an objective names. -/
def ObjectiveTarget.namespaces : ObjectiveTarget → List String
  | .noSecretRead ns _ => [ns]
  | .noDownstreamUse _ => []

/-- The namespaces that a legitimate operation names. -/
def LegitTarget.namespaces : LegitTarget → List String
  | .readSecret ns _ => [ns]
  | .useDownstream _ => []

/-- The namespaces of an inventory. -/
def Inventory.namespaces (inv : Inventory) : List String :=
  inv.serviceAccounts.map ServiceAccount.ns ++ inv.pods.map Pod.ns ++
    inv.controllers.map Controller.ns ++ inv.roles.filterMap Role.ns ++
    inv.bindings.filterMap RoleBinding.ns ++
    inv.bindings.flatMap (fun b => b.subjects.flatMap Subject.namespaces) ++
    inv.secrets.map Secret.ns ++ inv.services.map DownstreamService.sourceNs ++
    inv.admissionPolicies.map AdmissionPolicy.ns

/-- The namespaces of a document. -/
def AnalysisInput.namespaces (inp : AnalysisInput) : List String :=
  inp.inventory.namespaces ++ inp.credentials.flatMap (fun c => usernameNamespaces c.username) ++
    inp.initialFacts.flatMap (fun f => f.claim.namespaces) ++
    inp.remediation.flatMap DefenderAction.namespaces ++
    inp.objectives.flatMap (fun o => o.target.namespaces) ++
    inp.legitimateOperations.flatMap fun op => op.target.namespaces

namespace AnalysisInput

variable {inp : AnalysisInput} {uid ns : String}

lemma mem_writtenUids (h : (∃ p ∈ inp.inventory.pods, p.uid = uid) ∨
    (∃ a ∈ inp.remediation, uid ∈ a.uids) ∨ (∃ f ∈ inp.initialFacts, uid ∈ f.claim.uids) ∨
    (∃ c ∈ inp.credentials, c.boundPodUid = some uid) ∨
    ∃ op ∈ inp.legitimateOperations, op.podUid = uid) : uid ∈ inp.writtenUids := by
  simp only [writtenUids, List.mem_append, List.mem_map, List.mem_filterMap, List.mem_flatMap]
  rcases h with h | h | h | h | h <;> simp [h]

lemma mem_namespaces (h : (∃ b ∈ inp.inventory.bindings, b.ns = some ns) ∨
    (∃ svc ∈ inp.inventory.services, svc.sourceNs = ns) ∨
    (∃ c ∈ inp.inventory.controllers, c.ns = ns) ∨ (∃ a ∈ inp.remediation, ns ∈ a.namespaces) ∨
    (∃ f ∈ inp.initialFacts, ns ∈ f.claim.namespaces) ∨
    (∃ c ∈ inp.credentials, ns ∈ usernameNamespaces c.username) ∨
    ∃ op ∈ inp.legitimateOperations, ns ∈ op.target.namespaces) : ns ∈ inp.namespaces := by
  simp only [AnalysisInput.namespaces, Inventory.namespaces, List.mem_append, List.mem_map,
    List.mem_filterMap, List.mem_flatMap]
  rcases h with h | h | h | h | h | h | h <;> simp [h]

end AnalysisInput

/-- The input `inp'` is `inp`, which has no ClusterRoleBindings, with further service accounts,
Pods without controllers, roles, Secrets and admission policies, all of them in the namespace `N`
that `inp` has nowhere.  No further Pod has a UID that `inp` has or that is of the form of a
replacement. -/
structure AnalysisInput.Extends (N : String) (inp inp' : AnalysisInput) : Prop where
  same : inp' = { inp with inventory := inp'.inventory }
  accounts : inp'.inventory.serviceAccounts.filter (fun a => a.ns != N) =
    inp.inventory.serviceAccounts
  pods : inp'.inventory.pods.filter (fun p => p.ns != N) = inp.inventory.pods
  controllers : inp'.inventory.controllers = inp.inventory.controllers
  roles : inp'.inventory.roles.filter (fun r => r.ns != some N) = inp.inventory.roles
  bindings : inp'.inventory.bindings = inp.inventory.bindings
  secrets : inp'.inventory.secrets.filter (fun x => x.ns != N) = inp.inventory.secrets
  services : inp'.inventory.services = inp.inventory.services
  policies : inp'.inventory.admissionPolicies.filter (fun p => p.ns != N) =
    inp.inventory.admissionPolicies
  namespaced : ∀ b ∈ inp.inventory.bindings, b.ns ≠ none
  absent : N ∉ inp.namespaces
  alone : ∀ p ∈ inp'.inventory.pods, p.ns = N → p.controllerUid = none
  fresh : ∀ p ∈ inp'.inventory.pods, p.ns = N → p.uid ∉ inp.writtenUids
  apart : ∀ p ∈ inp'.inventory.pods, p.ns = N → ∀ c ∈ inp.inventory.controllers, ∀ k,
    p.uid ≠ replacementUid c.uid k

namespace AnalysisInput.Extends

variable {N : String} {inp inp' : AnalysisInput}

/-- The UIDs of the further Pods. -/
def podUid (N : String) (inv : Inventory) (uid : String) : Prop :=
  ∃ p ∈ inv.pods, p.ns = N ∧ p.uid = uid

/-- A UID that `inp` has is not that of a further Pod. -/
lemma not_podUid (h : inp.Extends N inp') {uid : String} (hu : uid ∈ inp.writtenUids) :
    ¬podUid N inp'.inventory uid := by
  rintro ⟨p, hp, hns, rfl⟩
  exact h.fresh p hp hns hu

/-- The environments in the beginning are side by side. -/
lemma beside_fromInventory (h : inp.Extends N inp') (hw : inp'.inventory.WellFormed) (time : ℤ) :
    (Env.fromInventory inp.inventory time).Beside N (podUid N inp'.inventory)
      (Env.fromInventory inp'.inventory time) where
  time := rfl
  accounts := by
    show Table.filter _ (Table.ofList _) = Table.ofList _
    rw [Table.filter_ofList hw.accounts, h.accounts]
  pods := by
    show Table.filter _ (Table.ofList _) = Table.ofList _
    rw [Table.filter_ofList hw.pods, h.pods]
  controllers := congrArg Table.ofList h.controllers
  roles := by
    show Table.filter _ (Table.ofList _) = Table.ofList _
    rw [Table.filter_ofList hw.roles, h.roles]
  bindings := congrArg Table.ofList h.bindings
  secrets := by
    show Table.filter _ (Table.ofList _) = Table.ofList _
    rw [Table.filter_ofList hw.secrets, h.secrets]
  services := congrArg Table.ofList h.services
  admission := h.policies
  counter := rfl
  reserved := by
    rintro uid huid ⟨p, hp, -, rfl⟩
    rw [hw.podUids p hp] at huid
    cases huid
  extra p hp hns := by
    have hmem := Table.mem_of_mem_ofList hp
    exact ⟨h.alone p hmem hns, p, hmem, hns, rfl⟩
  own p hp := h.not_podUid (mem_writtenUids (Or.inl ⟨p, Table.mem_of_mem_ofList hp, rfl⟩))
  bindingNs b hb := by
    have hmem := Table.mem_of_mem_ofList hb
    exact ⟨h.namespaced b hmem, fun hns => h.absent (mem_namespaces (Or.inl ⟨b, hmem, hns⟩))⟩
  serviceNs svc hsvc hns :=
    h.absent (mem_namespaces (Or.inr (Or.inl ⟨svc, Table.mem_of_mem_ofList hsvc, hns⟩)))
  controllerNs c hc := by
    have hmem := Table.mem_of_mem_ofList hc
    refine ⟨fun hns => h.absent (mem_namespaces (Or.inr (Or.inr (Or.inl ⟨c, hmem, hns⟩)))), ?_⟩
    rintro k ⟨p, hp, hns, hu⟩
    exact h.apart p hp hns c hmem k hu

/-- The actions name nothing of the namespace. -/
lemma avoids (h : inp.Extends N inp') {a : DefenderAction} (ha : a ∈ inp.remediation) :
    a.Avoids N (podUid N inp'.inventory) := by
  have hns : N ∉ a.namespaces := fun hmem =>
    h.absent (mem_namespaces (Or.inr (Or.inr (Or.inr (Or.inl ⟨a, ha, hmem⟩)))))
  have huid : ∀ uid ∈ a.uids, ¬podUid N inp'.inventory uid := fun uid hmem =>
    h.not_podUid (mem_writtenUids (Or.inr (Or.inl ⟨a, ha, hmem⟩)))
  cases a with
  | deletePod uid => exact huid uid List.mem_cons_self
  | deletePodsExcept ns _ _ => exact fun he => hns (he ▸ List.mem_cons_self)
  | deleteServiceAccount ns _ => exact fun he => hns (he ▸ List.mem_cons_self)
  | _ => trivial

/-- Credentials that the attacker possesses at first are of no account of the namespace. -/
lemma ours (h : inp.Extends N inp') {c : CredentialSpec} (hc : c ∈ inp.credentials) :
    Env.Beside.Ours N (podUid N inp'.inventory) c := by
  refine ⟨fun sa hsa hns => ?_, fun u hu => ?_⟩
  · refine h.absent (mem_namespaces ?_)
    refine Or.inr (Or.inr (Or.inr (Or.inr (Or.inr (Or.inl ⟨c, hc, ?_⟩)))))
    simp [usernameNamespaces, hsa, hns]
  · exact h.not_podUid (mem_writtenUids (Or.inr (Or.inr (Or.inr (Or.inl ⟨c, hc, hu⟩)))))

/-- No fact is about a further Pod. -/
lemma fact_uids (h : inp.Extends N inp') {f : InitialFact} (hf : f ∈ inp.initialFacts)
    {uid : String} (hu : uid ∈ f.claim.uids) : ¬podUid N inp'.inventory uid :=
  h.not_podUid (mem_writtenUids (Or.inr (Or.inr (Or.inl ⟨f, hf, hu⟩))))

lemma historical (h : inp.Extends N inp') (view : View) (mode : Mode) {x : String × String × String}
    (hx : x ∈ Engine.historical { inp, view, mode, inHistory := false }) :
    x.2.1 ≠ N ∧ ¬podUid N inp'.inventory x.1 := by
  obtain ⟨f, hf, hc⟩ := mem_historical.1 hx
  have hmem : f ∈ inp.initialFacts := (List.mem_filter.1 hf).1
  refine ⟨fun hns => h.absent (mem_namespaces ?_), h.fact_uids hmem ?_⟩
  · refine Or.inr (Or.inr (Or.inr (Or.inr (Or.inl ⟨f, hmem, ?_⟩))))
    simp [hc, FactClaim.namespaces, hns]
  · simp [hc, FactClaim.uids]

lemma beside_initialState (h : inp.Extends N inp') (hw : inp'.inventory.WellFormed) (view : View)
    (mode : Mode) : (initialState { inp, view, mode, inHistory := false }).Beside N
      (podUid N inp'.inventory) (initialState
        { inp := { inp with inventory := inp'.inventory }, view, mode, inHistory := false }) where
  same := rfl
  env := h.beside_fromInventory hw inp.analysisTime
  controlled uid hu := by
    obtain ⟨f, hf, hc⟩ := has_initialState.1 hu
    refine h.fact_uids (List.mem_filter.1 hf).1 ?_
    cases hclaim : f.claim <;> rw [hclaim] at hc <;> cases hc
    exact List.mem_cons_self
  creds c hc := by
    obtain ⟨f, -, hcred⟩ := List.mem_filterMap.1 (Table.mem_of_mem_ofList hc)
    split at hcred
    · exact h.ours (List.mem_of_find?_eq_some hcred)
    · cases hcred

/-- The two runs of a view do the same, and their environments in the end are side by side. -/
theorem runView (h : inp.Extends N inp') (hw : inp'.inventory.WellFormed) (view : View)
    (mode : Mode) :
    (Afterlock.runView inp view mode).finalEnv.Beside N (podUid N inp'.inventory)
        (Afterlock.runView inp' view mode).finalEnv ∧
      Afterlock.runView inp' view mode = { Afterlock.runView inp view mode with
        finalEnv := (Afterlock.runView inp' view mode).finalEnv } := by
  obtain ⟨hresult, hstate⟩ := (h.beside_initialState hw view mode).runBody
    (fun x hx => h.historical view mode hx) fun a ha => h.avoids ha
  rw [h.same]
  refine ⟨hstate.env, ?_⟩
  obtain ⟨e', he'⟩ := hstate.exists_env
  simp only [Ctx.withInventory] at hresult he'
  simp only [Afterlock.runView, ← hresult, he']

lemma legitStatus (h : inp.Extends N inp') {e e' : Env}
    (he : e.Beside N (podUid N inp'.inventory) e') :
    Afterlock.legitStatus inp e' = Afterlock.legitStatus inp e := by
  unfold Afterlock.legitStatus
  refine List.map_congr_left fun op hop => ?_
  have huid : ¬podUid N inp'.inventory op.podUid :=
    h.not_podUid (mem_writtenUids (Or.inr (Or.inr (Or.inr (Or.inr ⟨op, hop, rfl⟩)))))
  cases htarget : op.target with
  | readSecret ns secret =>
      have hns : ns ≠ N := by
        intro hns
        refine h.absent (mem_namespaces ?_)
        refine Or.inr (Or.inr (Or.inr (Or.inr (Or.inr (Or.inr ⟨op, hop, ?_⟩)))))
        simp [htarget, LegitTarget.namespaces, hns]
      simp only [he.legitCanRead huid hns]
  | useDownstream service => simp only [he.legitCanUseService huid]

end AnalysisInput.Extends

lemma Results.exceeded_congr {ev pv : ViewOutcome} {e e' : Env} :
    exceeded { ev with finalEnv := e } { pv with finalEnv := e' } = exceeded ev pv := by
  simp only [exceeded, List.filter_cons, List.filter_nil]
  split_ifs <;> rfl

/-- The environment in the end only matters to the legitimate operations, and the inventory only to
the runs. -/
lemma assemble_congr {inp : AnalysisInput} {inv : Inventory} {mode : Mode} {ev pv : ViewOutcome}
    {e e' : Env} (h : legitStatus inp e = legitStatus inp ev.finalEnv) :
    assemble { inp with inventory := inv } mode { ev with finalEnv := e }
      { pv with finalEnv := e' } = assemble inp mode ev pv := by
  have hlegit : legitStatus { inp with inventory := inv } e = legitStatus inp ev.finalEnv := h
  simp only [assemble, Results.unknownReasons, Results.missing, Results.exceeded_congr, hlegit]
  rfl

/-- Further objects in a namespace that the document has nowhere make no difference to the result
of an analysis. -/
theorem analyze_extends {raw : Json} {N : String} {inp inp' : AnalysisInput}
    (h : parseAnalysisInput raw = .ok inp') (hext : inp.Extends N inp') (mode : Mode) :
    analyze inp' mode = analyze inp mode := by
  have hw := (wellFormed_of_parse h).inventory
  obtain ⟨hev, hev'⟩ := hext.runView hw .evidenceSupported mode
  obtain ⟨-, hpv'⟩ := hext.runView hw .conservativePossible mode
  have hlegit := hext.legitStatus hev
  unfold analyze
  rw [hev', hpv']
  generalize (runView inp' .evidenceSupported mode).finalEnv = e at hlegit
  generalize (runView inp' .conservativePossible mode).finalEnv = e'
  rw [hext.same]
  exact assemble_congr hlegit

namespace Sample

open Json

/-- A check that is enough where there are no controllers. -/
def extendsCheck (N : String) (inp inp' : AnalysisInput) : Bool :=
  let inv := inp.inventory
  let inv' := inp'.inventory
  decide (inp' = { inp with inventory := inv' }) &&
    decide (inv'.serviceAccounts.filter (fun a => a.ns != N) = inv.serviceAccounts) &&
    decide (inv'.pods.filter (fun p => p.ns != N) = inv.pods) &&
    decide (inv'.controllers = inv.controllers) &&
    decide (inv'.roles.filter (fun r => r.ns != some N) = inv.roles) &&
    decide (inv'.bindings = inv.bindings) &&
    decide (inv'.secrets.filter (fun x => x.ns != N) = inv.secrets) &&
    decide (inv'.services = inv.services) &&
    decide (inv'.admissionPolicies.filter (fun p => p.ns != N) = inv.admissionPolicies) &&
    decide (∀ b ∈ inv.bindings, b.ns ≠ none) && decide (N ∉ inp.namespaces) &&
    decide (∀ p ∈ inv'.pods, p.ns = N → p.controllerUid = none) &&
    decide (∀ p ∈ inv'.pods, p.ns = N → p.uid ∉ inp.writtenUids) && inv.controllers.isEmpty

lemma extends_of_check {N : String} {inp inp' : AnalysisInput}
    (h : extendsCheck N inp inp' = true) : inp.Extends N inp' := by
  simp only [extendsCheck, Bool.and_eq_true, decide_eq_true_eq, List.isEmpty_iff] at h
  obtain ⟨⟨⟨⟨⟨⟨⟨⟨⟨⟨⟨⟨⟨h1, h2⟩, h3⟩, h4⟩, h5⟩, h6⟩, h7⟩, h8⟩, h9⟩, h10⟩, h11⟩, h12⟩, h13⟩, h14⟩ := h
  refine ⟨h1, h2, h3, h4, h5, h6, h7, h8, h9, h10, h11, h12, h13, fun p _ _ c hc => ?_⟩
  rw [h14] at hc
  cases hc

/-- A document in which the holder of a credential may read a Secret and create Pods, with further
objects of an inventory. -/
def reader (accounts pods roles secrets policies : List Json) : Json :=
  document
    [("service_accounts", .arr ([account "n" "reader"] ++ accounts)), ("pods", .arr pods),
      ("roles", .arr ([role "n" "read" ["get"] "secrets", role "n" "run" ["create"] "pods"] ++
        roles)),
      ("bindings", .arr [binding "n" "read" "reader", binding "n" "run" "reader"]),
      ("secrets", .arr ([secret "n" "x"] ++ secrets)), ("admission_policies", .arr policies)]
    [("credentials", .arr [credential "c" "n" "reader" []]),
      ("initial_facts", .arr [fact "possesses_credential" ["c"] "observed"]),
      ("remediation", .arr [action "wait" [("seconds", .int 5)]]),
      ("objectives", .arr [noSecretRead "o" "n" "x"])]

/-- The document with an account, a Pod, a role, a Secret and a policy in another namespace. -/
def crowded : Json :=
  reader [account "a" "reader"] [pod "a" "p" "reader" []] [role "a" "read" ["get"] "secrets"]
    [secret "a" "x"] [named "a" "deny" [("kind", .str "other")]]

end Sample

/-- The result is that of the document without the other namespace. -/
theorem crowded_analyze :
    ∃ inp inp', parseAnalysisInput (Sample.reader [] [] [] [] []) = .ok inp ∧
      parseAnalysisInput Sample.crowded = .ok inp' ∧ inp ≠ inp' ∧
      ∀ mode, analyze inp' mode = analyze inp mode := by
  obtain ⟨inp', hinp', hp⟩ := Sample.accepted Sample.crowded
    (p := fun inp' => (parseAnalysisInput (Sample.reader [] [] [] [] [])).toOption.any fun inp =>
      Sample.extendsCheck "a" inp inp' && decide (inp ≠ inp')) (by decide +kernel)
  obtain ⟨inp, hinp, hp⟩ := Sample.accepted _ hp
  rw [Bool.and_eq_true, decide_eq_true_eq] at hp
  exact ⟨inp, inp', hinp, hinp', hp.2, fun mode =>
    analyze_extends hinp' (Sample.extends_of_check hp.1) mode⟩

end Afterlock
