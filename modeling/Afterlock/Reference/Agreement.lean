import Afterlock.Reference.Admission

/-!
# The checks agree

Requests, credentials, admission and services are decided alike by the engine, on the parsed model,
and by the reference checker, on the raw document (`checksAgree_iff`).  They differ exactly where
the document has `null`: for a list the reference checker raises an exception, and in a policy it
takes `null` for no restriction where the parser takes it for an empty list.
-/

namespace Afterlock.Reference

open Parse

/-! ### The environments of an input -/

/-- The environments reached from an input: the defender acts, controllers are reconciled, and the
attacker or the possible history adds Pods and controllers. -/
inductive Reaches (inp : AnalysisInput) : Env → Prop
  | start : Reaches inp (Env.fromInventory inp.inventory inp.analysisTime)
  | act {env : Env} (h : Reaches inp env) {a : DefenderAction} (ha : a.Good) :
      Reaches inp (applyDefenderAction env a).1
  | reconcile {env : Env} (h : Reaches inp env) : Reaches inp (reconcileControllers env).1
  | pod {env : Env} (h : Reaches inp env) (p : Pod) :
      Reaches inp { env with pods := env.pods.put p }
  | controller {env : Env} (h : Reaches inp env) (c : Controller) :
      Reaches inp (Engine.Env.addController env c)

/-- What no step changes, and what the steps keep. -/
structure Stays (inp : AnalysisInput) (env : Env) : Prop where
  roles : env.roles = Table.ofList inp.inventory.roles
  admission : env.admission = inp.inventory.admissionPolicies
  bindings : ∀ b ∈ env.bindings, b ∈ inp.inventory.bindings
  time : inp.analysisTime ≤ env.time
  range : ∀ s ∈ env.services, 0 ≤ s.acceptedVersion ∧ 0 ≤ s.rotationPropagationSeconds

section

variable {inp : AnalysisInput} {env : Env}

lemma Stays.grows {env' : Env} (h : Stays inp env) (hg : env.Grows env') : Stays inp env' where
  roles := hg.roles.trans h.roles
  admission := hg.admission.trans h.admission
  bindings := hg.bindings ▸ h.bindings
  time := hg.time ▸ h.time
  range := hg.services ▸ h.range

lemma Stays.act (h : Stays inp env) {a : DefenderAction} (ha : a.Good) :
    Stays inp (applyDefenderAction env a).1 := by
  cases a with
  | removeBinding ns name =>
      exact { h with bindings := fun b hb => h.bindings b (Table.mem_filter.1 hb).1 }
  | wait seconds =>
      have hs : 1 ≤ seconds := ha
      have ht := h.time
      exact { h with time := show inp.analysisTime ≤ env.time + seconds by omega }
  | rotateDownstreamCredential service =>
      simp only [applyDefenderAction]
      cases hs : env.services.get? service with
      | none => exact h
      | some svc =>
          obtain ⟨hacc, hdelay⟩ := h.range svc (Table.get?_eq_some_iff.1 hs).1
          simp only
          rw [rotate_eq]
          refine ⟨h.roles, h.admission, h.bindings, h.time, fun s hs => ?_⟩
          rcases Table.mem_put.1 hs with rfl | ⟨hs, -⟩
          · refine ⟨?_, hdelay⟩
            show 0 ≤ nextVersion env svc
            rw [nextVersion]
            omega
          · exact h.range s hs
  | deletePod _ => exact ⟨h.roles, h.admission, h.bindings, h.time, h.range⟩
  | deleteController _ => exact ⟨h.roles, h.admission, h.bindings, h.time, h.range⟩
  | deletePodsExcept _ _ _ => exact ⟨h.roles, h.admission, h.bindings, h.time, h.range⟩
  | deleteControllersExcept _ _ _ => exact ⟨h.roles, h.admission, h.bindings, h.time, h.range⟩
  | deleteServiceAccount _ _ => exact ⟨h.roles, h.admission, h.bindings, h.time, h.range⟩

lemma Stays.controller (h : Stays inp env) (c : Controller) :
    Stays inp (Engine.Env.addController env c) := by
  have h' : Stays inp { env with
      controllers := env.controllers.put c
      controllerPodCounter := env.controllerPodCounter.put (c.uid, -1) } :=
    ⟨h.roles, h.admission, h.bindings, h.time, h.range⟩
  exact h'.grows (reconcileControllers_grows _)

lemma Reaches.stays (hstart : Stays inp (Env.fromInventory inp.inventory inp.analysisTime))
    (h : Reaches inp env) : Stays inp env := by
  induction h with
  | start => exact hstart
  | act _ ha ih => exact ih.act ha
  | reconcile _ ih => exact ih.grows (reconcileControllers_grows _)
  | pod _ p ih => exact ⟨ih.roles, ih.admission, ih.bindings, ih.time, ih.range⟩
  | controller _ c ih => exact ih.controller c

/-- Every environment is represented by some tuple. -/
lemma exists_represents
    (hr : ∀ s ∈ env.services, 0 ≤ s.acceptedVersion ∧ 0 ≤ s.rotationPropagationSeconds) :
    ∃ r, Represents env r := by
  have hmap : ∀ {α β κ : Type} {key : α → κ} (f : α → β) (t : Table key),
      Shows f t (t.rows.map f) := fun f t y => List.mem_map
  refine ⟨{ time := env.time
            sas := env.serviceAccounts.rows.map saTuple
            pods := env.pods.rows.map podTuple
            ctrls := env.controllers.rows.map ctrlTuple
            bindings := env.bindings.rows.map RoleBinding.ident
            secrets := env.secrets.rows.map secretTuple
            services := env.services.rows.map serviceTuple
            counters := env.controllerPodCounter.rows }, ?_⟩
  refine ⟨rfl, hmap _ _, hmap _ _, hmap _ _, hmap _ _, hmap _ _, hmap _ _, fun cuid => ?_, ?_, hr⟩
  · unfold count Env.lastNumber Table.get?
    refine congrArg (Option.getD · 0) ?_
    induction env.controllerPodCounter.rows with
    | nil => rfl
    | cons e es ih =>
        rw [List.lookup_cons, List.find?_cons]
        by_cases he : e.1 = cuid
        · simp [he]
        · rw [show (cuid == e.1) = false by simpa using Ne.symm he]
          simpa [he] using ih
  · exact env.controllers.nodup.of_map.map fun _ _ => ctrlTuple_inj

end

/-! ### Agreement -/

/-- The fields of a document. -/
def fieldsOf (raw : Json) : Json.Fields := (obj? raw).getD []

def inventoryOf (raw : Json) : Json.Fields := fieldsOf (Json.get (fieldsOf raw) "inventory")

def rawBindings (raw : Json) : List Json := (entries? (inventoryOf raw) "bindings").getD []

def rawPolicies (raw : Json) : List Json :=
  (entries? (inventoryOf raw) "admission_policies").getD []

/-- The checks agree in an environment, which the tuple represents. -/
structure Agree (inp : AnalysisInput) (st : Static) (env : Env) (r : EnvTuple) : Prop where
  requests : ∀ user verb resource ns name, ∃ ks, granting st r user verb resource ns name = some ks ∧
    ∀ k, k ∈ ks ↔ k ∈ authorizingBindings env user verb resource ns name
  reads : ∀ user (sec : Secret), canRead st r user sec.ns sec.name =
    some (Engine.readGrant env user sec).isSome
  credentials : ∀ view mode c, credOk st r (credTuple c) none =
    verdict (credentialUsable env c inp.profile (some (Engine.useTime ⟨inp, view, mode, false⟩ env c)))
  history : ∀ view mode c,
    credOk st r (credTuple c) (some (inp.historyStart, inp.analysisTime)) =
      verdict (credentialUsable env c inp.profile (some (Engine.useTime ⟨inp, view, mode, true⟩ env c)))
  /-- A use in the possible history is one at some instant of the window. -/
  window : ∀ c, credOk st r (credTuple c) (some (inp.historyStart, inp.analysisTime)) = .ok ↔
    ∃ t, (∀ s, inp.historyStart = some s → s ≤ t) ∧ t ≤ inp.analysisTime ∧
      credOk st { r with time := t } (credTuple c) none = .ok
  admission : ∀ creator ns sa, admission st creator ns sa =
    some (admissionDecision env creator ns sa).outcome
  services : ∀ svc ∈ env.services, ∀ version,
    svc.accepts version env.time = honours r (serviceTuple svc) version

/-- The reference checker reads the document, and the checks agree in every environment reached
from it and every tuple that represents the environment. -/
def ChecksAgree (raw : Json) (inp : AnalysisInput) : Prop :=
  ∃ st r₀, static? (fieldsOf raw) = some st ∧ env0 (inventoryOf raw) inp.analysisTime = some r₀ ∧
    Represents (Env.fromInventory inp.inventory inp.analysisTime) r₀ ∧
    ∀ env, Reaches inp env → (∃ r, Represents env r) ∧ ∀ r, Represents env r → Agree inp st env r

/-- No list that is read is `null`, and no list of service accounts that makes a difference. -/
structure Readable (raw : Json) : Prop where
  credentials : nullAt (fieldsOf raw) "credentials" = false
  objects : ListsGiven (inventoryOf raw)
  lists : ∀ key ∈ ["roles", "admission_policies"], nullAt (inventoryOf raw) key = false
  subjects : ∀ b, .obj b ∈ rawBindings raw → nullAt b "subjects" = false
  moot : ∀ p, .obj p ∈ rawPolicies raw → ∀ ns creator, str? p "namespace" = some ns →
    nullEntry p creator = true → Moot (rawPolicies raw) ns creator

section

variable {raw : Json} {inp : AnalysisInput}

/-- The parts of an accepted document that the reference checker reads. -/
structure Parts (raw : Json) (inp : AnalysisInput) : Prop where
  inventory : Json.get (fieldsOf raw) "inventory" = .obj (inventoryOf raw)
  profile : ∃ p, Json.get (fieldsOf raw) "profile" = .obj p ∧ Parse.profile p = .ok inp.profile
  parsed : Parse.inventory (inventoryOf raw) = .ok inp.inventory
  creds : ∃ xs cs, list (Json.get (fieldsOf raw) "credentials") "credentials" = .ok xs ∧
    xs.mapM credential = .ok cs

lemma parts_of_parse (h : parseAnalysisInput raw = .ok inp) : Parts raw inp := by
  simp only [parseAnalysisInput, bind_eq_ok, pure_eq_ok] at h
  obtain ⟨m, hm, _, -, time, -, start, -, _, -, prof, hprof, profile, hprofile, invm, hinvm,
    inv, hinv, xs, hxs, cs, hcs, _, -, _, -, _, -, _, -, _, -, _, -, _, -, _, -, _, -, _, -, _, -,
    _, -, _, -, _, -, _, -, _, -, _, -, _, -, rfl⟩ := h
  obtain rfl := obj_eq_ok hm
  have hinvm' : Json.get m "inventory" = .obj invm := obj_eq_ok hinvm
  have hof : inventoryOf (.obj m) = invm := by
    unfold inventoryOf
    rw [show fieldsOf (Json.obj m) = m from rfl, hinvm']
    rfl
  refine ⟨?_, ⟨_, obj_eq_ok hprof, hprofile⟩, ?_, ⟨xs, cs, hxs, hcs⟩⟩
  · rw [hof]
    exact hinvm'
  · rw [hof]
    exact hinv

lemma credItem?_eq {x : Json} {c : CredentialSpec} (h : credential x = .ok c) :
    ∃ m, credItem? x = some (c.id, m) := by
  simp only [credential, bind_eq_ok, pure_eq_ok] at h
  obtain ⟨m, hm, id, hid, _, -, _, -, _, -, _, -, _, -, _, -, rfl⟩ := h
  rw [obj_eq_ok hm]
  refine ⟨m, ?_⟩
  simp only [credItem?, obj?, str?_of_reqStr hid, Option.bind_eq_bind, Option.bind_some]
  rfl

/-- Entries that the parser reads are all read. -/
lemma exists_mapM {α β : Type} {parse : Json → Parsed α} {read : Json → Option β} {xs : List Json}
    {ys : List α} (h : xs.mapM parse = .ok ys)
    (hread : ∀ x y, parse x = .ok y → ∃ v, read x = some v) : ∃ vs, xs.mapM read = some vs := by
  induction xs generalizing ys with
  | nil => exact ⟨[], rfl⟩
  | cons x xs ih =>
      rw [List.mapM_cons, bind_eq_ok] at h
      obtain ⟨y, hy, h⟩ := h
      obtain ⟨zs, hzs, -⟩ := bind_eq_ok.1 h
      obtain ⟨v, hv⟩ := hread x y hy
      obtain ⟨vs, hvs⟩ := ih hzs
      refine ⟨v :: vs, ?_⟩
      rw [List.mapM_cons, hv, hvs]
      rfl

/-- The static part of an accepted document. -/
structure StaticOf (raw : Json) (inp : AnalysisInput) (st : Static)
    (prs : List (Json.Fields × AdmissionPolicy)) : Prop where
  read : static? (fieldsOf raw) = some st
  knows : Knows st (rawBindings raw) inp.inventory
  apiAuds : st.apiAuds = inp.profile.apiAudiences
  policies : rawPolicies raw = prs.map fun e => Json.obj e.1
  admission : st.admission = prs.map fun e => Json.obj e.1
  parsed : ∀ e ∈ prs, admissionPolicy (.obj e.1) = .ok e.2
  perm : inp.inventory.admissionPolicies.Perm (prs.map Prod.snd)

lemma profile_fields {m : Json.Fields} {p : Profile} (h : profile m = .ok p) :
    strings? m "api_audiences" = some p.apiAudiences ∧
      int? m "projected_token_ttl_seconds" = some p.projectedTokenTtlSeconds := by
  simp only [profile, bind_eq_ok, pure_eq_ok, rejectIf_eq_ok] at h
  obtain ⟨ttl, httl, auds, hauds, _, hne, _, -, _, -, rfl⟩ := h
  exact ⟨strings?_of_strs hauds (nullAt_of_strs hauds (by simpa using hne)), int?_of_reqInt httl⟩

lemma exists_staticOf (h : Parts raw inp) (hc : nullAt (fieldsOf raw) "credentials" = false)
    (hl : ∀ key ∈ ["roles", "bindings", "admission_policies"],
      nullAt (inventoryOf raw) key = false) : ∃ st prs, StaticOf raw inp st prs := by
  obtain ⟨xs, cs, hxs, hcs⟩ := h.creds
  obtain ⟨ces, hces⟩ := exists_mapM hcs fun x c hx => by
    obtain ⟨m, hm⟩ := credItem?_eq hx
    exact ⟨_, hm⟩
  obtain ⟨p, hp, hprof⟩ := h.profile
  obtain ⟨hauds, httl⟩ := profile_fields hprof
  have hw := inventory_wellFormed h.parsed
  have hparsed := h.parsed
  simp only [inventory, bind_eq_ok, pure_eq_ok] at hparsed
  obtain ⟨_, -, sas, -, _, -, pods, -, _, -, ctrls, -, rroles, hrroles, roles, hroles, rbinds,
    hrbinds, binds, hbinds, _, -, secs, -, _, -, svcs, -, rpols, hrpols, pols, hpols, _, -, _, -,
    _, -, _, -, _, -, _, huroles, _, hubinds, _, -, _, -, _, -, _, -, hinv⟩ := hparsed
  have eroles := entries?_of_list hrroles (hl "roles" (by simp))
  have ebinds := entries?_of_list hrbinds (hl "bindings" (by simp))
  have epols := entries?_of_list hrpols (hl "admission_policies" (by simp))
  -- the checker keeps roles and bindings in dictionaries; their keys are unique, so none is lost
  obtain ⟨es, hes, hrole, hnone⟩ := dict_of_mapM roleItem? hroles
    (unique_eq_ok huroles) fun x _ y hy => by
      obtain ⟨rules, hrules, -⟩ := roleItem?_eq hy
      exact ⟨rules, hrules⟩
  obtain ⟨bes, hbes, hbody, -⟩ := dict_of_mapM bindingItem? hbinds
    (unique_eq_ok hubinds) fun x _ y hy => by
      obtain ⟨v, -, hv⟩ := bindingItem?_eq hy
      exact ⟨v, hv⟩
  obtain ⟨prs, hprs, hpols', hparse⟩ := pairs_of_mapM hpols
  have hmem : ∀ r ∈ inp.inventory.roles, r ∈ roles := by
    rw [← hinv]
    exact fun r hr => Text.mem_sortedBy.1 hr
  have hbmem : ∀ b ∈ inp.inventory.bindings, b ∈ binds := by
    rw [← hinv]
    exact fun b hb => Text.mem_sortedBy.1 hb
  have hraws : rawBindings raw = rbinds := by
    rw [rawBindings, ebinds]
    rfl
  -- a dictionary that is built by one assignment after another has the last entry first
  refine ⟨⟨es.reverse, bes.reverse, rpols, inp.profile.apiAudiences,
    inp.profile.projectedTokenTtlSeconds, ces.reverse⟩, prs, ?_, ⟨?_, ?_, ?_, ?_, ?_⟩, rfl, ?_, hprs,
    hparse, ?_⟩
  · simp only [static?, h.inventory, hp, obj?, eroles, ebinds, epols, hes, hbes, hauds, httl,
      entries?_of_list hxs hc, hces, Option.bind_eq_bind, Option.bind_some]
    rfl
  · -- roles
    intro r hr
    obtain ⟨x, hx, hparsed⟩ := mem_of_mapM_eq_ok hroles (hmem r hr)
    obtain ⟨rules, hrules, hof⟩ := roleItem?_eq hparsed
    exact ⟨rules, hrole x hx _ _ hrules, hof⟩
  · refine fun k hk => hnone k fun r hr => hk r ?_
    rw [← hinv]
    exact Text.mem_sortedBy.2 hr
  · -- bindings
    intro v hv b hb
    obtain ⟨v', hv', hentry⟩ := bindingItem?_eq hb
    obtain rfl := Json.obj.inj hv'
    exact hbody _ (hraws ▸ hv) _ _ hentry
  · intro b hb
    obtain ⟨x, hx, hparsed⟩ := mem_of_mapM_eq_ok hbinds (hbmem b hb)
    obtain ⟨v, rfl, -⟩ := bindingItem?_eq hparsed
    exact ⟨v, hraws ▸ hx, hparsed⟩
  · intro x hx
    obtain ⟨b, hb, hparsed⟩ := exists_of_mapM_eq_ok hbinds (hraws ▸ hx)
    refine ⟨b, ?_, hparsed⟩
    rw [← hinv]
    exact Text.mem_sortedBy.2 hb
  · -- policies
    rw [rawPolicies, epols]
    exact hprs
  · rw [← hpols', ← hinv]
    exact Text.sortedBy_perm _ _

/-- The reference checker raises an exception where a list is `null`. -/
lemma nullAt_of_entries {m : Json.Fields} {key : String} {xs : List Json}
    (h : entries? m key = some xs) : nullAt m key = false := by
  by_contra hn
  rw [entries?_of_null (by simpa using hn)] at h
  cases h

lemma nullAt_of_static {st : Static} (h : Parts raw inp) (hs : static? (fieldsOf raw) = some st) :
    nullAt (fieldsOf raw) "credentials" = false ∧
      ∀ key ∈ ["roles", "bindings", "admission_policies"], nullAt (inventoryOf raw) key = false := by
  obtain ⟨p, hp, -⟩ := h.profile
  simp only [static?, h.inventory, hp, obj?, Option.bind_eq_bind, Option.bind_some,
    Option.bind_eq_some_iff] at hs
  obtain ⟨rroles, hroles, _, -, rbinds, hbinds, _, -, pols, hpols, _, -, _, -, cs, hcs, -⟩ := hs
  refine ⟨nullAt_of_entries hcs, ?_⟩
  simp only [List.forall_mem_cons, List.not_mem_nil, false_imp_iff, implies_true, and_true]
  exact ⟨nullAt_of_entries hroles, nullAt_of_entries hbinds, nullAt_of_entries hpols⟩

/-- The environment is read only if the lists it is made of are given. -/
lemma listsGiven_of_env0 {m : Json.Fields} {t : ℤ} {r : EnvTuple} (h : env0 m t = some r) :
    ListsGiven m := by
  simp only [env0, Option.bind_eq_bind, Option.bind_eq_some_iff] at h
  obtain ⟨sas, hsas, _, -, pods, hpods, _, hpods', ctrls, hctrls, _, hctrls', binds, hbinds, _, -,
    secs, hsecs, _, -, svcs, hsvcs, -⟩ := h
  have haud : ∀ {p : Json.Fields} {key : String} {xs : List String},
      strings? p key = some xs → nullAt p key = false := fun {p key xs} hxs => by
    by_contra hn
    rw [strings?_of_null (by simpa using hn)] at hxs
    cases hxs
  refine ⟨?_, ?_⟩
  · simp only [List.forall_mem_cons, List.not_mem_nil, false_imp_iff, implies_true, and_true]
    exact ⟨nullAt_of_entries hsas, nullAt_of_entries hpods, nullAt_of_entries hctrls,
      nullAt_of_entries hbinds, nullAt_of_entries hsecs, nullAt_of_entries hsvcs⟩
  · simp only [List.forall_mem_cons, List.not_mem_nil, false_imp_iff, implies_true, and_true]
    refine ⟨fun xs hxs p hp => ?_, fun xs hxs c hc => ?_⟩
    · obtain rfl := Option.some.inj (hxs.symm.trans hpods)
      obtain ⟨y, hy⟩ := exists_of_mapM hpods' hp
      simp only [podTuple?, obj?, Option.bind_eq_bind, Option.bind_some, Option.bind_eq_some_iff] at hy
      obtain ⟨_, -, _, -, _, -, _, -, auds, hauds, -⟩ := hy
      exact haud hauds
    · obtain rfl := Option.some.inj (hxs.symm.trans hctrls)
      obtain ⟨y, hy⟩ := exists_of_mapM hctrls' hc
      simp only [ctrlTuple?, obj?, Option.bind_eq_bind, Option.bind_some, Option.bind_eq_some_iff] at hy
      obtain ⟨_, -, _, -, _, -, _, -, auds, hauds, -⟩ := hy
      exact haud hauds

lemma anyM_eq_some_any {α : Type} {f : α → Option Bool} {p : α → Bool} {xs : List α}
    (h : ∀ x ∈ xs, f x = some (p x)) : xs.anyM f = some (xs.any p) := by
  induction xs with
  | nil => rfl
  | cons x xs ih =>
      have ih' := ih fun y hy => h y (List.mem_cons_of_mem _ hy)
      rw [List.anyM, h x List.mem_cons_self, List.any_cons]
      cases p x with
      | true => rfl
      | false => exact ih'

variable {st : Static} {env : Env} {r : EnvTuple}

/-- A Secret is readable in both, if the requests agree. -/
lemma canRead_eq
    (h : ∀ user verb resource ns name, ∃ ks, granting st r user verb resource ns name = some ks ∧
      ∀ k, k ∈ ks ↔ k ∈ authorizingBindings env user verb resource ns name)
    (user : String) (sec : Secret) : canRead st r user sec.ns sec.name =
      some (Engine.readGrant env user sec).isSome := by
  have hverb : ∀ v ∈ ["watch", "list", "get"],
      (do pure (!(← granting st r user v "secrets" sec.ns (some sec.name)).isEmpty)) =
        some !decide (authorizingBindings env user v "secrets" sec.ns (some sec.name) = []) := by
    intro v _
    obtain ⟨ks, hks, hmem⟩ := h user v "secrets" sec.ns (some sec.name)
    rw [hks]
    refine congrArg some (congrArg Bool.not ?_)
    rw [Bool.eq_iff_iff, List.isEmpty_iff, decide_eq_true_eq, List.eq_nil_iff_forall_not_mem,
      List.eq_nil_iff_forall_not_mem]
    exact forall_congr' fun k => not_congr (hmem k)
  unfold canRead
  rw [anyM_eq_some_any hverb]
  refine congrArg some ?_
  unfold Engine.readGrant secretReadVerbs
  simp only [List.any_cons, List.any_nil, List.findSome?_cons, List.findSome?_nil]
  by_cases hg : authorizingBindings env user "get" "secrets" sec.ns (some sec.name) = []
  · by_cases hl : authorizingBindings env user "list" "secrets" sec.ns (some sec.name) = []
    · by_cases hw : authorizingBindings env user "watch" "secrets" sec.ns (some sec.name) = []
      · simp [hg, hl, hw]
      · simp [hg, hl, hw]
    · simp [hg, hl]
  · simp [hg]

/-- In the possible history, a credential is judged at its last instant of the window. -/
lemma useTime_history (hstart : ∀ s, inp.historyStart = some s → s ≤ env.time) (view : View)
    (mode : Mode) {c : CredentialSpec} {e : ℤ} (he : c.expiresAt = some e) :
    Engine.useTime ⟨inp, view, mode, true⟩ env c < e ↔ ∀ s, inp.historyStart = some s → s < e := by
  unfold Engine.useTime
  rw [he]
  simp only
  by_cases hlate : e > env.time
  · rw [if_pos hlate]
    exact iff_of_true hlate fun s hs => lt_of_le_of_lt (hstart s hs) hlate
  · rw [if_neg hlate]
    cases hs : inp.historyStart with
    | none => simp
    | some start =>
        simp only [Option.some.injEq, forall_eq']
        split_ifs <;> omega

lemma credOk_eq_ok_iff {c : CredTuple} {w : Option (Option ℤ × ℤ)} : credOk st r c w = .ok ↔
    (∀ e, c.exp = some e → ∀ s, earliest r w = some s → s < e) ∧
      ∃ sa, c.kind = "sa_token" ∧ saOf c.user = some sa ∧ c.aud ∈ st.apiAuds ∧
        accountOk r c sa = .ok := by
  have hexp : (c.exp.any fun e => (earliest r w).any fun t => !decide (t < e)) = true ↔
      ¬∀ e, c.exp = some e → ∀ s, earliest r w = some s → s < e := by
    simp only [Option.any_eq_true, Bool.not_eq_true', decide_eq_false_iff_not, not_forall,
      exists_prop]
  unfold credOk
  by_cases hk : c.kind = "sa_token"
  swap
  · simp [hk]
  rw [if_neg (not_not.2 hk)]
  cases hsa : saOf c.user with
  | none => simp
  | some sa =>
      simp only [hk, true_and, Option.some.injEq, exists_eq_left']
      by_cases he : ∀ e, c.exp = some e → ∀ s, earliest r w = some s → s < e
      · rw [if_neg (fun h => hexp.1 h he)]
        by_cases ha : c.aud ∈ st.apiAuds
        · rw [if_neg (not_not.2 ha)]
          exact ⟨fun h => ⟨he, ha, h⟩, fun h => h.2.2⟩
        · rw [if_pos ha]
          exact iff_of_false (by simp) fun h => ha h.2.1
      · rw [if_pos (hexp.2 he)]
        exact iff_of_false (by simp) fun h => he h.1

/-- A use in the window is one at some instant of it. -/
lemma credOk_window (hle : ∀ s, inp.historyStart = some s → s ≤ inp.analysisTime) (c : CredTuple) :
    credOk st r c (some (inp.historyStart, inp.analysisTime)) = .ok ↔
      ∃ t, (∀ s, inp.historyStart = some s → s ≤ t) ∧ t ≤ inp.analysisTime ∧
        credOk st { r with time := t } c none = .ok := by
  have hobj : ∀ t, accountOk { r with time := t } c = accountOk r c := fun t => rfl
  simp only [credOk_eq_ok_iff, hobj, earliest]
  constructor
  · rintro ⟨hexp, hrest⟩
    cases he : c.exp with
    | none => exact ⟨inp.analysisTime, hle, le_rfl, by simp, hrest⟩
    | some e =>
        refine ⟨min inp.analysisTime (e - 1), fun s hs => ?_, min_le_left _ _, ?_, hrest⟩
        · have h1 := hle s hs
          have h2 := hexp e he s hs
          omega
        · simp only [Option.some.injEq, forall_eq']
          omega
  · rintro ⟨t, hs, -, hexp, hrest⟩
    exact ⟨fun e he s hstart => lt_of_le_of_lt (hs s hstart) (hexp e he t rfl), hrest⟩

/-- The checks agree in every environment of a readable document. -/
lemma agree_of_readable (hparse : parseAnalysisInput raw = .ok inp)
    {prs : List (Json.Fields × AdmissionPolicy)} (hst : StaticOf raw inp st prs)
    (hread : Readable raw) (hstay : Stays inp env) (hr : Represents env r) :
    Agree inp st env r := by
  have hw := wellFormed_of_parse hparse
  have hreq := fun user verb resource ns name => hst.knows.granting hw.inventory.roles hstay.roles
    hstay.bindings hread.subjects hr user verb resource ns name
  refine ⟨hreq, canRead_eq hreq, fun view mode c => ?_, fun view mode c => ?_,
    fun c => credOk_window hw.start _, ?_, fun svc _ version => ?_⟩
  · refine hr.credOk hst.apiAuds fun e he => ?_
    show env.time < e ↔ _
    simp only [earliest, Option.some.injEq, forall_eq', hr.time]
  · refine hr.credOk hst.apiAuds fun e he => ?_
    exact useTime_history (fun s hs => (hw.start s hs).trans hstay.time) view mode he
  · refine (admission_agrees_iff hst.parsed hst.admission (hstay.admission ▸ hst.perm)).2 ?_
    rw [← hst.policies]
    exact hread.moot
  · rw [← hr.time]
    exact accepts_eq_honours svc version r

/-- The checks of both agree on a document, in every environment reached from it, exactly if the
reference checker can read the document. -/
theorem checksAgree_iff (hparse : parseAnalysisInput raw = .ok inp) :
    ChecksAgree raw inp ↔ Readable raw := by
  have hparts := parts_of_parse hparse
  have hw := wellFormed_of_parse hparse
  constructor
  · -- the checker has read the document, so that its lists are there
    rintro ⟨st, r₀, hst, hr₀, hrep, hall⟩
    obtain ⟨hc, hl⟩ := nullAt_of_static hparts hst
    obtain ⟨st', prs, hof⟩ := exists_staticOf hparts hc hl
    obtain rfl := Option.some.inj (hst.symm.trans hof.read)
    have hagree := (hall _ .start).2 r₀ hrep
    refine ⟨hc, listsGiven_of_env0 hr₀, fun key hkey => hl key ?_, fun b hb => ?_, ?_⟩
    · simp only [List.mem_cons, List.not_mem_nil, or_false] at hkey ⊢
      tauto
    · -- a binding whose subjects are `null` makes the checker raise an exception
      by_contra hnull
      obtain ⟨rb, hrb, hparsed⟩ := hof.knows.parsed _ hb
      have hmem : rb.ident ∈ r₀.bindings :=
        hrep.bindings.mem ((Table.mem_ofList hw.inventory.bindings).2 hrb)
      obtain ⟨ks, hks, -⟩ := hagree.requests "" "" "" (rb.ns.getD "") none
      simp only [granting, Option.bind_eq_bind, Option.bind_eq_some_iff] at hks
      obtain ⟨gs, hgs, -⟩ := hks
      obtain ⟨g, hg⟩ := exists_of_mapM hgs hmem
      rw [hof.knows.grant_of_null hb hparsed (by simpa using hnull)] at hg
      cases hg
    · rw [hof.policies]
      exact (admission_agrees_iff hof.parsed hof.admission hof.perm).1 hagree.admission
  · -- what can be read is read alike, and every action keeps it so
    intro hread
    have hbinds : nullAt (inventoryOf raw) "bindings" = false :=
      hread.objects.lists "bindings" (by simp)
    obtain ⟨st, prs, hst⟩ := exists_staticOf hparts hread.credentials (by
      intro key hkey
      simp only [List.mem_cons, List.not_mem_nil, or_false] at hkey
      rcases hkey with rfl | rfl | rfl
      · exact hread.lists _ (by simp)
      · exact hbinds
      · exact hread.lists _ (by simp))
    obtain ⟨r₀, hr₀, hrep⟩ := represents_fromInventory hparts.parsed hread.objects inp.analysisTime
    have hstart : Stays inp (Env.fromInventory inp.inventory inp.analysisTime) :=
      ⟨rfl, rfl, fun b hb => Table.mem_of_mem_ofList hb, le_rfl, hrep.range⟩
    refine ⟨st, r₀, hst.read, hr₀, hrep, fun env henv => ?_⟩
    have hstay := henv.stays hstart
    exact ⟨exists_represents hstay.range, fun r hr => agree_of_readable hparse hst hread hstay hr⟩

end

/-! ### A policy -/

/-- A reader of Secrets in a namespace with one admission policy, for every creator. -/
def restricted (names : Json) : Json :=
  Sample.document
    [("service_accounts", .arr [Sample.account "n" "sa"]), ("pods", .arr [Sample.pod "n" "p" "sa" []]),
      ("roles", .arr [Sample.role "n" "reader" ["get"] "secrets"]),
      ("bindings", .arr [Sample.binding "n" "reader" "sa"]),
      ("secrets", .arr [Sample.secret "n" "x"]),
      ("admission_policies", .arr [Sample.named "n" "policy"
        [("kind", .str "service-account-restriction"),
          ("allowed_service_accounts", .obj [("*", names)])]])]
    [("credentials", .arr [Sample.credential "c" "n" "sa" []]),
      ("objectives", .arr [Sample.noSecretRead "o" "n" "x"])]

lemma restricted_readable : Readable (restricted (Sample.texts ["sa"])) where
  credentials := rfl
  objects := by
    refine ⟨by decide, fun key hkey xs hxs p hp => ?_⟩
    simp only [List.mem_cons, List.not_mem_nil, or_false] at hkey
    rcases hkey with rfl | rfl
    · obtain rfl := Option.some.inj hxs
      obtain rfl := Json.obj.inj (List.mem_singleton.1 hp)
      rfl
    · obtain rfl := Option.some.inj hxs
      cases hp
  lists := by decide
  subjects := by
    intro b hb
    obtain rfl := Json.obj.inj (List.mem_singleton.1 hb)
    rfl
  moot := by
    intro p hp ns creator _ hnull
    obtain rfl := Json.obj.inj (List.mem_singleton.1 hp)
    refine absurd hnull ?_
    show ¬nullAt [("*", Sample.texts ["sa"])] (entryKey [("*", Sample.texts ["sa"])] creator) = true
    have hkey : entryKey [("*", Sample.texts ["sa"])] creator = "*" := by
      unfold entryKey
      by_cases hc : creator = "*"
      · simp [hc]
      · rw [if_neg]
        simp [Json.has, hc]
    rw [hkey]
    decide

/-- With a list of service accounts, the checks agree. -/
theorem restricted_checksAgree :
    ∃ inp, parseAnalysisInput (restricted (Sample.texts ["sa"])) = .ok inp ∧
      ChecksAgree (restricted (Sample.texts ["sa"])) inp := by
  obtain ⟨inp, hinp, -⟩ := Sample.accepted (restricted (Sample.texts ["sa"])) (p := fun _ => true)
    (by decide +kernel)
  exact ⟨inp, hinp, (checksAgree_iff hinp).2 restricted_readable⟩

/-- With `null` for it, the engine denies what the reference checker allows. -/
theorem restricted_not_checksAgree :
    ∃ inp, parseAnalysisInput (restricted .null) = .ok inp ∧ ¬ChecksAgree (restricted .null) inp := by
  obtain ⟨inp, hinp, hdeny⟩ := Sample.accepted (restricted .null)
    (p := fun inp => (admissionDecision (Env.fromInventory inp.inventory inp.analysisTime)
      "u" "n" "sa").outcome == .deny) (by decide +kernel)
  refine ⟨inp, hinp, fun ⟨st, r₀, hst, _, hrep, hall⟩ => ?_⟩
  have hagree := ((hall _ .start).2 r₀ hrep).admission "u" "n" "sa"
  rw [beq_iff_eq.1 hdeny] at hagree
  have hallow : ((static? (fieldsOf (restricted .null))).bind fun st =>
      admission st "u" "n" "sa") = some .allow := by rfl
  rw [hst, Option.bind_some, hagree] at hallow
  cases hallow

end Afterlock.Reference
