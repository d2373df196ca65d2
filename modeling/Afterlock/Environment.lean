import Afterlock.Lib.Search
import Afterlock.Semantics

/-!
# Facts about the environment

What the checks of `Semantics` say in terms of membership, and what reconciliation does to an
environment: it only adds Pods, each under a UID that no Pod had.
-/

namespace Afterlock

/-! ### Checks -/

lemma authorizingBindings_ne_nil_iff {env : Env} {username verb resource ns : String}
    {name : Option String} :
    authorizingBindings env username verb resource ns name ≠ [] ↔
      ∃ b ∈ env.bindings, bindingGrants env username verb resource ns name b = true := by
  simp only [authorizingBindings, ne_eq, List.map_eq_nil_iff, List.filter_eq_nil_iff,
    Text.mem_sortedBy, not_forall, not_not, Table.mem_def, exists_prop]

/-- The API accepts a credential as the service account `sa` at `time`, where `accounts` and `pods`
are the accounts and Pods that exist. -/
structure CredOk (profile : Profile) (time : ℤ) (accounts : ServiceAccount → Prop)
    (pods : Pod → Prop) (c : CredentialSpec) (sa : String × String) : Prop where
  kind : c.kind = "sa_token"
  username : parseSaUsername c.username = some sa
  unexpired : ∀ e, c.expiresAt = some e → time < e
  audience : c.audience ∈ profile.apiAudiences
  account : ∃ a, accounts a ∧ a.key = sa ∧ ∀ u, c.saUid = some u → a.uid = u
  boundPod : ∀ u, c.boundPodUid = some u → ∃ p, pods p ∧ p.uid = u ∧ (p.ns, p.serviceAccount) = sa

lemma accountReasons_eq_nil_iff {env : Env} {c : CredentialSpec} {sa : String × String} :
    accountReasons env c sa = [] ↔
      ∃ a ∈ env.serviceAccounts, a.key = sa ∧ ∀ u, c.saUid = some u → a.uid = u := by
  unfold accountReasons
  cases ha : env.serviceAccounts.get? sa with
  | none =>
      rw [Table.get?_eq_none_iff] at ha
      simp only [reduceCtorEq, false_iff, not_exists, not_and]
      exact fun a hmem hk => absurd hk (ha a hmem)
  | some acct =>
      obtain ⟨hmem, hk⟩ := Table.get?_eq_some_iff.1 ha
      have huniq : ∀ a ∈ env.serviceAccounts, a.key = sa → a = acct := fun a h hka =>
        Table.eq_of_key_eq h hmem (hka.trans hk.symm)
      cases hu : c.saUid with
      | none => simpa using ⟨acct, hmem, hk⟩
      | some uid =>
          simp only [Option.some.injEq, forall_eq']
          split_ifs with h
          · simpa using ⟨acct, hmem, hk, h⟩
          · simp only [false_iff, not_exists, not_and]
            intro a ha hka hau
            exact h (huniq a ha hka ▸ hau)

lemma boundPodReasons_eq_nil_iff {env : Env} {c : CredentialSpec} {sa : String × String} :
    boundPodReasons env c sa = [] ↔
      ∀ u, c.boundPodUid = some u →
        ∃ p ∈ env.pods, p.uid = u ∧ (p.ns, p.serviceAccount) = sa := by
  unfold boundPodReasons
  cases hb : c.boundPodUid with
  | none => simp
  | some uid =>
      simp only [Option.some.injEq, forall_eq']
      cases hp : env.pods.get? uid with
      | none =>
          rw [Table.get?_eq_none_iff] at hp
          simp only [reduceCtorEq, false_iff, not_exists, not_and]
          exact fun p hmem hk => absurd hk (hp p hmem)
      | some pod =>
          obtain ⟨hmem, hk⟩ := Table.get?_eq_some_iff.1 hp
          simp only
          split_ifs with h
          · simpa using ⟨pod, hmem, hk, h⟩
          · simp only [false_iff, not_exists, not_and]
            intro p hp' hkp hsa
            exact h (Table.eq_of_key_eq hp' hmem (hkp.trans hk.symm) ▸ hsa)

lemma expiryReasons_eq_nil_iff {c : CredentialSpec} {time : ℤ} {hyp : Bool} :
    expiryReasons c time hyp = [] ↔ ∀ e, c.expiresAt = some e → time < e := by
  unfold expiryReasons
  cases c.expiresAt with
  | none => simp
  | some e =>
      simp only [Option.some.injEq, forall_eq']
      by_cases h : e ≤ time
      · simp [h]
      · simp [h, not_le.1 h]

lemma audienceReasons_eq_nil_iff {c : CredentialSpec} {profile : Profile} :
    audienceReasons c profile = [] ↔ c.audience ∈ profile.apiAudiences := by
  unfold audienceReasons
  by_cases h : c.audience ∈ profile.apiAudiences <;> simp [h]

lemma credentialUsable_supported_iff {env : Env} {c : CredentialSpec} {profile : Profile}
    {at? : Option ℤ} :
    (credentialUsable env c profile at?).supported = true ↔
      c.kind = "sa_token" ∧ (parseSaUsername c.username).isSome := by
  unfold credentialUsable
  by_cases hk : c.kind = "sa_token"
  · rw [if_neg (by simp [hk])]
    cases parseSaUsername c.username with
    | none => simp
    | some sa =>
        simp only [hk, Option.isSome_some, and_self, iff_true]
        split_ifs <;> rfl
  · simp [hk]

lemma credentialUsable_usable_iff {env : Env} {c : CredentialSpec} {profile : Profile}
    {at? : Option ℤ} :
    (credentialUsable env c profile at?).usable = true ↔
      ∃ sa, CredOk profile (at?.getD env.time) (· ∈ env.serviceAccounts) (· ∈ env.pods) c sa := by
  unfold credentialUsable
  by_cases hk : c.kind = "sa_token"
  · rw [if_neg (by simp [hk])]
    cases hp : parseSaUsername c.username with
    | none =>
        simp only [Bool.false_eq_true, false_iff, not_exists]
        exact fun sa h => by simpa [hp] using h.username
    | some sa =>
        -- each clause of `CredOk` is the absence of the reasons of its kind
        have key : ∀ sa', CredOk profile (at?.getD env.time) (· ∈ env.serviceAccounts)
            (· ∈ env.pods) c sa' ↔ sa' = sa ∧ (expiryReasons c (at?.getD env.time) at?.isSome ++
              audienceReasons c profile ++ accountReasons env c sa ++
              boundPodReasons env c sa = []) := by
          intro sa'
          simp only [List.append_eq_nil_iff, expiryReasons_eq_nil_iff, audienceReasons_eq_nil_iff,
            accountReasons_eq_nil_iff, boundPodReasons_eq_nil_iff]
          constructor
          · intro h
            obtain rfl : sa = sa' := Option.some.inj (hp.symm.trans h.username)
            exact ⟨rfl, ⟨⟨h.unexpired, h.audience⟩, h.account⟩, h.boundPod⟩
          · rintro ⟨rfl, ⟨⟨h1, h2⟩, h3⟩, h4⟩
            exact ⟨hk, hp, h1, h2, h3, h4⟩
        simp only [key, exists_eq_left]
        split_ifs with h
        · exact iff_of_true rfl h
        · exact iff_of_false id h
  · simp only [hk, ne_eq, not_false_eq_true, ↓reduceIte, Bool.false_eq_true, false_iff, not_exists]
    exact fun sa h => hk h.kind

/-- The remark of a usable credential. -/
def usableText : String :=
  "unexpired, API audience, service account UID and bound object present"

lemma credentialUsable_reasons {env : Env} {c : CredentialSpec} {profile : Profile}
    {at? : Option ℤ} (h : (credentialUsable env c profile at?).usable = true) :
    (credentialUsable env c profile at?).reasons = [usableText] := by
  unfold credentialUsable at h ⊢
  by_cases hk : c.kind = "sa_token"
  · rw [if_neg (by simp [hk])] at h ⊢
    cases hp : parseSaUsername c.username with
    | none => simp [hp] at h
    | some sa =>
        simp only [hp] at h ⊢
        split_ifs at h ⊢
        rfl
  · simp [hk] at h

lemma CredOk.mono {profile : Profile} {time : ℤ} {accounts accounts' : ServiceAccount → Prop}
    {pods pods' : Pod → Prop} {c : CredentialSpec} {sa : String × String}
    (h : CredOk profile time accounts pods c sa) (ha : ∀ a, accounts a → accounts' a)
    (hp : ∀ p, pods p → pods' p) : CredOk profile time accounts' pods' c sa := by
  refine ⟨h.kind, h.username, h.unexpired, h.audience, ?_, fun u hu => ?_⟩
  · obtain ⟨a, hacc, hk⟩ := h.account
    exact ⟨a, ha a hacc, hk⟩
  · obtain ⟨p, hpod, hk⟩ := h.boundPod u hu
    exact ⟨p, hp p hpod, hk⟩

/-! ### Growing environments -/

/-- `e'` is `e` with further Pods and controllers. -/
structure Env.Grows (e e' : Env) : Prop where
  time : e'.time = e.time
  serviceAccounts : e'.serviceAccounts = e.serviceAccounts
  roles : e'.roles = e.roles
  bindings : e'.bindings = e.bindings
  secrets : e'.secrets = e.secrets
  services : e'.services = e.services
  admission : e'.admission = e.admission
  pods : ∀ p ∈ e.pods, p ∈ e'.pods
  controllers : ∀ c ∈ e.controllers, c ∈ e'.controllers

namespace Env.Grows

lemma refl (e : Env) : e.Grows e :=
  ⟨rfl, rfl, rfl, rfl, rfl, rfl, rfl, fun _ h => h, fun _ h => h⟩

lemma trans {e e' e'' : Env} (h : e.Grows e') (h' : e'.Grows e'') : e.Grows e'' where
  time := h'.time.trans h.time
  serviceAccounts := h'.serviceAccounts.trans h.serviceAccounts
  roles := h'.roles.trans h.roles
  bindings := h'.bindings.trans h.bindings
  secrets := h'.secrets.trans h.secrets
  services := h'.services.trans h.services
  admission := h'.admission.trans h.admission
  pods := fun p hp => h'.pods p (h.pods p hp)
  controllers := fun c hc => h'.controllers c (h.controllers c hc)

variable {e e' : Env}

/-- RBAC does not look at Pods and controllers. -/
lemma authorizingBindings (h : e.Grows e') (username verb resource ns : String)
    (name : Option String) :
    Afterlock.authorizingBindings e' username verb resource ns name =
      Afterlock.authorizingBindings e username verb resource ns name := by
  unfold Afterlock.authorizingBindings bindingGrants
  rw [h.bindings, h.roles]

lemma admissionDecision (h : e.Grows e') (creator ns sa : String) :
    Afterlock.admissionDecision e' creator ns sa = Afterlock.admissionDecision e creator ns sa := by
  unfold Afterlock.admissionDecision
  rw [h.admission]

/-- A usable credential stays usable. -/
lemma usable (h : e.Grows e') {c : CredentialSpec} {profile : Profile} {at? : Option ℤ}
    (hu : (credentialUsable e c profile at?).usable = true) :
    (credentialUsable e' c profile at?).usable = true := by
  rw [credentialUsable_usable_iff] at hu ⊢
  obtain ⟨sa, hok⟩ := hu
  rw [h.time, h.serviceAccounts]
  exact ⟨sa, hok.mono (fun _ => id) h.pods⟩

end Env.Grows

/-! ### Reconciliation -/

lemma replacementUid_inj {cuid : String} {k l : ℤ} (h : replacementUid cuid k = replacementUid cuid l) :
    k = l := by
  unfold replacementUid at h
  exact Text.ofInt_inj (String.append_right_inj _ |>.1 h)

lemma firstFree_eq_search (pods : Table Pod.uid) (cuid : String) (fuel : ℕ) (k : ℤ) :
    firstFree pods cuid fuel k = search (fun j => pods.contains (replacementUid cuid j)) fuel k := by
  induction fuel generalizing k with
  | zero => rfl
  | succ fuel ih => rw [firstFree, search, ih]

/-- A replacement takes the first number whose UID no Pod has: there are more candidates than
Pods. -/
lemma firstFree_spec (pods : Table Pod.uid) (cuid : String) (k : ℤ) :
    FirstFree (fun j => pods.contains (replacementUid cuid j)) k
      (firstFree pods cuid pods.rows.length k) := by
  rw [firstFree_eq_search, Table.length_eq_keys]
  refine @search_firstFree _ _ (replacementUid cuid) (fun _ _ h => replacementUid_inj h) _ ?_ k
  exact fun j hj => Table.mem_keys.2 (Table.contains_iff.1 hj)

lemma ownsPod_iff {env : Env} {cuid : String} :
    ownsPod env cuid = true ↔ ∃ p ∈ env.pods, p.controllerUid = some cuid := by
  simp [ownsPod, List.any_eq_true, Table.mem_def]

/-- What reconciling one controller does: nothing if it owns a Pod, else it adds one under a UID
that is free. -/
lemma reconcileController_cases (env : Env) (c : Controller) :
    (ownsPod env c.uid = true ∧ reconcileController env c = (env, none)) ∨
      ∃ k, ownsPod env c.uid = false ∧
        env.pods.contains (replacementUid c.uid k) = false ∧
        ((env.controllerPodCounter.get? c.uid).map Prod.snd).getD 0 + 1 ≤ k ∧
        (∀ j, ((env.controllerPodCounter.get? c.uid).map Prod.snd).getD 0 + 1 ≤ j → j < k →
          env.pods.contains (replacementUid c.uid j) = true) ∧
        reconcileController env c =
          ({ env with
              controllerPodCounter := env.controllerPodCounter.put (c.uid, k)
              pods := env.pods.put (replacementPod c k) }, some (replacementPod c k)) := by
  by_cases h : ownsPod env c.uid = true
  · exact Or.inl ⟨h, by simp [reconcileController, h]⟩
  · have hspec := firstFree_spec env.pods c.uid
      (((env.controllerPodCounter.get? c.uid).map Prod.snd).getD 0 + 1)
    refine Or.inr ⟨_, by simpa using h, hspec.free, hspec.le, hspec.taken, ?_⟩
    simp [reconcileController, h]

lemma mem_put_of_contains_eq_false {pods : Table Pod.uid} {p q : Pod}
    (h : pods.contains p.uid = false) : q ∈ pods.put p ↔ q = p ∨ q ∈ pods :=
  Table.mem_put_of_fresh (Table.contains_eq_false_iff.1 h)

/-- The UIDs of the Pods that exist. -/
def Env.podUids (env : Env) : Set String := {uid | ∃ p ∈ env.pods, p.uid = uid}

/-- The number of the last replacement Pod of a controller. -/
def Env.lastNumber (env : Env) (cuid : String) : ℤ :=
  ((env.controllerPodCounter.get? cuid).map Prod.snd).getD 0

/-- The environment with the `k`-th replacement Pod of a controller. -/
def Env.replaced (env : Env) (c : Controller) (k : ℤ) : Env :=
  { env with controllerPodCounter := env.controllerPodCounter.put (c.uid, k)
             pods := env.pods.put (replacementPod c k) }

@[simp] lemma Env.replaced_controllers (env : Env) (c : Controller) (k : ℤ) :
    (env.replaced c k).controllers = env.controllers := rfl

@[simp] lemma Env.lastNumber_replaced_self {env : Env} {c : Controller} {k : ℤ} :
    (env.replaced c k).lastNumber c.uid = k :=
  congrArg (fun o => (Option.map Prod.snd o).getD 0) (Table.get?_put_self (x := (c.uid, k)))

lemma Env.lastNumber_replaced_of_ne {env : Env} {c : Controller} {k : ℤ} {cuid : String}
    (h : cuid ≠ c.uid) : (env.replaced c k).lastNumber cuid = env.lastNumber cuid := by
  simp only [lastNumber, replaced]
  rw [Table.get?_put_of_ne (show cuid ≠ (c.uid, k).1 from h)]

/-- What reconciling one controller does, in these terms. -/
lemma reconcileController_replaced (env : Env) (c : Controller) :
    (ownsPod env c.uid = true ∧ reconcileController env c = (env, none)) ∨
      ∃ k, ownsPod env c.uid = false ∧ replacementUid c.uid k ∉ env.podUids ∧
        env.lastNumber c.uid < k ∧
        (∀ j, env.lastNumber c.uid < j → j < k → replacementUid c.uid j ∈ env.podUids) ∧
        reconcileController env c = (env.replaced c k, some (replacementPod c k)) := by
  rcases reconcileController_cases env c with h | ⟨k, ho, hfree, hle, htaken, he⟩
  · exact Or.inl h
  · refine Or.inr ⟨k, ho, ?_, ?_, fun j hj hjk => ?_, he⟩
    · rintro ⟨p, hp, hu⟩
      exact Table.contains_eq_false_iff.1 hfree p hp hu
    · rw [Env.lastNumber]
      omega
    · rw [Env.lastNumber] at hj
      exact Table.contains_iff.1 (htaken j (by omega) hjk)

lemma Env.mem_replaced_pods {env : Env} {c : Controller} {k : ℤ} {p : Pod}
    (h : replacementUid c.uid k ∉ env.podUids) :
    p ∈ (env.replaced c k).pods ↔ p = replacementPod c k ∨ p ∈ env.pods :=
  mem_put_of_contains_eq_false (Table.contains_eq_false_iff.2 fun q hq hu => h ⟨q, hq, hu⟩)

lemma reconcileController_grows (env : Env) (c : Controller) :
    env.Grows (reconcileController env c).1 := by
  rcases reconcileController_cases env c with ⟨-, h⟩ | ⟨k, -, hfree, -, -, h⟩
  · rw [h]
    exact Env.Grows.refl env
  · rw [h]
    refine ⟨rfl, rfl, rfl, rfl, rfl, rfl, rfl, fun p hp => ?_, fun _ hc => hc⟩
    exact (mem_put_of_contains_eq_false hfree).2 (Or.inr hp)

lemma reconcileEach_cons_fst (c : Controller) (cs : List Controller) (env : Env) :
    (reconcileEach (c :: cs) env).1 = (reconcileEach cs (reconcileController env c).1).1 := rfl

lemma reconcileEach_grows (cs : List Controller) (env : Env) :
    env.Grows (reconcileEach cs env).1 := by
  induction cs generalizing env with
  | nil => exact Env.Grows.refl env
  | cons c cs ih => exact (reconcileController_grows env c).trans (ih _)

lemma reconcileControllers_grows (env : Env) : env.Grows (reconcileControllers env).1 :=
  reconcileEach_grows _ env

lemma reconcileController_controllers (env : Env) (c : Controller) :
    (reconcileController env c).1.controllers = env.controllers := by
  rcases reconcileController_cases env c with ⟨-, h⟩ | ⟨k, -, -, -, -, h⟩ <;> rw [h]

lemma reconcileEach_controllers (cs : List Controller) (env : Env) :
    (reconcileEach cs env).1.controllers = env.controllers := by
  induction cs generalizing env with
  | nil => rfl
  | cons c cs ih => exact (ih _).trans (reconcileController_controllers env c)

@[simp] lemma reconcileControllers_controllers (env : Env) :
    (reconcileControllers env).1.controllers = env.controllers :=
  reconcileEach_controllers _ env

/-- A Pod that reconciliation adds is a replacement Pod of one of the controllers. -/
lemma mem_reconcileEach_pods {cs : List Controller} {env : Env} {p : Pod}
    (h : p ∈ (reconcileEach cs env).1.pods) :
    p ∈ env.pods ∨ ∃ c ∈ cs, ∃ k, p = replacementPod c k ∧ ownsPod env c.uid = false := by
  induction cs generalizing env with
  | nil => exact Or.inl h
  | cons c cs ih =>
      have howns : ∀ d : String, ownsPod (reconcileController env c).1 d = false →
          ownsPod env d = false := by
        intro d hd
        rw [← Bool.not_eq_true, ownsPod_iff] at hd ⊢
        exact fun ⟨q, hq, ho⟩ => hd ⟨q, (reconcileController_grows env c).pods q hq, ho⟩
      rw [reconcileEach_cons_fst] at h
      rcases ih h with h | ⟨d, hd, k, rfl, ho⟩
      · rcases reconcileController_cases env c with ⟨-, hc⟩ | ⟨k, ho, hfree, -, -, hc⟩
        · rw [hc] at h
          exact Or.inl h
        · rw [hc] at h
          rcases (mem_put_of_contains_eq_false hfree).1 h with rfl | h
          · exact Or.inr ⟨c, List.mem_cons_self, k, rfl, ho⟩
          · exact Or.inl h
      · exact Or.inr ⟨d, List.mem_cons_of_mem _ hd, k, rfl, howns d.uid ho⟩

lemma mem_reconcileControllers_pods {env : Env} {p : Pod}
    (h : p ∈ (reconcileControllers env).1.pods) :
    p ∈ env.pods ∨
      ∃ c ∈ env.controllers, ∃ k, p = replacementPod c k ∧ ownsPod env c.uid = false := by
  rcases mem_reconcileEach_pods h with h | ⟨c, hc, h⟩
  · exact Or.inl h
  · exact Or.inr ⟨c, Text.mem_sortedBy.1 hc, h⟩

/-- After reconciliation every controller owns a Pod. -/
lemma ownsPod_reconcileEach {cs : List Controller} {env : Env} {c : Controller} (h : c ∈ cs) :
    ownsPod (reconcileEach cs env).1 c.uid = true := by
  induction cs generalizing env with
  | nil => cases h
  | cons d cs ih =>
      rcases List.mem_cons.1 h with rfl | h
      · rw [ownsPod_iff]
        have hgrow := reconcileEach_grows cs (reconcileController env c).1
        rcases reconcileController_cases env c with ⟨ho, hc⟩ | ⟨k, -, -, -, -, hc⟩
        · obtain ⟨p, hp, hpc⟩ := ownsPod_iff.1 ho
          exact ⟨p, hgrow.pods p (by rw [hc]; exact hp), hpc⟩
        · exact ⟨replacementPod c k, hgrow.pods _ (by rw [hc]; exact Table.mem_put_self), rfl⟩
      · exact ih h

lemma ownsPod_reconcileControllers {env : Env} {c : Controller} (h : c ∈ env.controllers) :
    ownsPod (reconcileControllers env).1 c.uid = true :=
  ownsPod_reconcileEach (Text.mem_sortedBy.2 h)

/-! ### Admission and defender actions -/

/-- Whether admission is supported depends on the namespace only. -/
lemma admissionDecision_unsupported_iff {env : Env} {creator ns sa : String} :
    (admissionDecision env creator ns sa).outcome = .unsupported ↔
      ∃ p ∈ env.admission, p.ns = ns ∧ p.supported = false := by
  unfold admissionDecision
  by_cases h : ((env.admission.filter fun p => p.ns == ns).filter fun p => !p.supported).map
      AdmissionPolicy.name = []
  · rw [if_neg (by simpa using h)]
    constructor
    · intro ho
      split at ho <;> cases ho
    · rintro ⟨p, hp, hns, hs⟩
      rw [List.map_eq_nil_iff, List.filter_eq_nil_iff] at h
      exact absurd (h p (List.mem_filter.2 ⟨hp, by simpa using hns⟩)) (by simp [hs])
  · rw [if_pos h]
    simp only [true_iff]
    rw [List.map_eq_nil_iff, List.filter_eq_nil_iff] at h
    push Not at h
    obtain ⟨p, hp, hs⟩ := h
    obtain ⟨hp, hns⟩ := List.mem_filter.1 hp
    exact ⟨p, hp, by simpa using hns, by simpa using hs⟩

/-- A rotation touches nothing but Secrets and services. -/
lemma exists_applyDefenderAction_rotate (env : Env) (service : String) :
    ∃ secrets services, (applyDefenderAction env (.rotateDownstreamCredential service)).1 =
      { env with secrets := secrets, services := services } := by
  simp only [applyDefenderAction]
  split
  · exact ⟨env.secrets, env.services, rfl⟩
  · simp only [rotate]
    split_ifs <;> exact ⟨_, _, rfl⟩

/-- A defender action adds no Pod. -/
lemma mem_applyDefenderAction_pods {env : Env} {a : DefenderAction} {p : Pod}
    (h : p ∈ (applyDefenderAction env a).1.pods) : p ∈ env.pods := by
  cases a with
  | removeBinding => exact h
  | deletePod => exact (Table.mem_erase.1 h).1
  | deleteController => exact (Table.mem_filter.1 h).1
  | deletePodsExcept => exact (Table.mem_filter.1 h).1
  | deleteControllersExcept => exact (Table.mem_filter.1 h).1
  | deleteServiceAccount => exact h
  | rotateDownstreamCredential service =>
      obtain ⟨_, _, he⟩ := exists_applyDefenderAction_rotate env service
      rw [he] at h
      exact h
  | wait => exact h

/-- A defender action adds no controller. -/
lemma mem_applyDefenderAction_controllers {env : Env} {a : DefenderAction} {c : Controller}
    (h : c ∈ (applyDefenderAction env a).1.controllers) : c ∈ env.controllers := by
  cases a with
  | removeBinding => exact h
  | deletePod => exact h
  | deleteController => exact (Table.mem_erase.1 h).1
  | deletePodsExcept => exact h
  | deleteControllersExcept => exact (Table.mem_filter.1 h).1
  | deleteServiceAccount => exact h
  | rotateDownstreamCredential service =>
      obtain ⟨_, _, he⟩ := exists_applyDefenderAction_rotate env service
      rw [he] at h
      exact h
  | wait => exact h

/-- A defender action adds no service account. -/
lemma mem_applyDefenderAction_serviceAccounts {env : Env} {a : DefenderAction} {x : ServiceAccount}
    (h : x ∈ (applyDefenderAction env a).1.serviceAccounts) : x ∈ env.serviceAccounts := by
  cases a with
  | deleteServiceAccount => exact (Table.mem_erase.1 h).1
  | rotateDownstreamCredential service =>
      obtain ⟨_, _, he⟩ := exists_applyDefenderAction_rotate env service
      rw [he] at h
      exact h
  | _ => exact h

lemma applyDefenderAction_controllerPodCounter (env : Env) (a : DefenderAction) :
    (applyDefenderAction env a).1.controllerPodCounter = env.controllerPodCounter := by
  cases a with
  | rotateDownstreamCredential service =>
      obtain ⟨_, _, he⟩ := exists_applyDefenderAction_rotate env service
      rw [he]
  | _ => rfl

end Afterlock
