import Afterlock.Engine
import Afterlock.Environment

/-!
# The attacker's transitions

`Step` lists what one turn of the closure can do to the attacker's state: record a derived fact,
obtain a token, create a workload, or note something unsupported.  A closure that returns is a
sequence of steps (`closure_steps`), so an invariant of the steps is an invariant of the closure.
-/

namespace Afterlock

open Prog

/-! ### The tables of facts -/

namespace ViewState

/-- The fact is among the ones kept for ever. -/
def Has (s : ViewState) (f : Fact) : Prop := ∃ d ∈ s.facts, d.fact = f

/-- The fact is in the table of its kind. -/
def recorded (s : ViewState) (f : Fact) : Bool :=
  if f.persistent then s.facts.contains f else s.eph.contains f

/-- Put a derivation in the table of its fact, at the cost of one derivation. -/
def record (s : ViewState) (d : Derivation) : ViewState :=
  if d.fact.persistent then { s with count := s.count + 1, facts := s.facts.put d }
  else { s with count := s.count + 1, eph := s.eph.put d }

/-- Record a derivation unless its fact is there. -/
def learn (s : ViewState) (d : Derivation) : ViewState :=
  if s.recorded d.fact then s else s.record d

/-- Note an unknown under its key. -/
def note (s : ViewState) (u : UnknownEntry) : ViewState :=
  if s.unknowns.contains u.key then s else { s with unknowns := s.unknowns.put u }

variable {s : ViewState} {d : Derivation} {u : UnknownEntry} {f : Fact}

lemma contains_facts_iff : s.facts.contains f = true ↔ s.Has f := Table.contains_iff

@[simp] lemma record_env : (s.record d).env = s.env := by
  unfold record
  split_ifs <;> rfl

@[simp] lemma record_creds : (s.record d).creds = s.creds := by
  unfold record
  split_ifs <;> rfl

@[simp] lemma record_unknowns : (s.record d).unknowns = s.unknowns := by
  unfold record
  split_ifs <;> rfl

@[simp] lemma record_count : (s.record d).count = s.count + 1 := by
  unfold record
  split_ifs <;> rfl

@[simp] lemma learn_env : (s.learn d).env = s.env := by
  unfold learn
  split_ifs <;> simp

@[simp] lemma learn_creds : (s.learn d).creds = s.creds := by
  unfold learn
  split_ifs <;> simp

@[simp] lemma learn_unknowns : (s.learn d).unknowns = s.unknowns := by
  unfold learn
  split_ifs <;> simp

@[simp] lemma note_env : (s.note u).env = s.env := by
  unfold note
  split_ifs <;> rfl

@[simp] lemma note_creds : (s.note u).creds = s.creds := by
  unfold note
  split_ifs <;> rfl

@[simp] lemma note_facts : (s.note u).facts = s.facts := by
  unfold note
  split_ifs <;> rfl

@[simp] lemma note_eph : (s.note u).eph = s.eph := by
  unfold note
  split_ifs <;> rfl

@[simp] lemma note_count : (s.note u).count = s.count := by
  unfold note
  split_ifs <;> rfl

lemma mem_record_facts {e : Derivation} :
    e ∈ (s.record d).facts ↔
      (d.fact.persistent = true ∧ e = d) ∨
        (e ∈ s.facts ∧ ¬(d.fact.persistent = true ∧ e.fact = d.fact)) := by
  unfold record
  split_ifs with h
  · simp [h]
  · simp [h]

lemma has_record : (s.record d).Has f ↔ s.Has f ∨ (d.fact.persistent = true ∧ f = d.fact) := by
  simp only [Has, mem_record_facts]
  constructor
  · rintro ⟨e, ⟨hp, rfl⟩ | ⟨he, -⟩, rfl⟩
    · exact Or.inr ⟨hp, rfl⟩
    · exact Or.inl ⟨e, he, rfl⟩
  · rintro (⟨e, he, rfl⟩ | ⟨hp, rfl⟩)
    · by_cases h : d.fact.persistent = true ∧ e.fact = d.fact
      · exact ⟨d, Or.inl ⟨h.1, rfl⟩, h.2.symm⟩
      · exact ⟨e, Or.inr ⟨he, h⟩, rfl⟩
    · exact ⟨d, Or.inl ⟨hp, rfl⟩, rfl⟩

lemma recorded_of_persistent (h : f.persistent = true) : s.recorded f = true ↔ s.Has f := by
  rw [recorded, if_pos h, contains_facts_iff]

lemma has_learn (h : d.fact.persistent = true) : (s.learn d).Has f ↔ s.Has f ∨ f = d.fact := by
  unfold learn
  split_ifs with hr
  · rw [recorded_of_persistent h] at hr
    exact ⟨Or.inl, fun hf => hf.elim id fun hf => hf ▸ hr⟩
  · rw [has_record]
    simp [h]

lemma has_learn_of_has (h : s.Has f) : (s.learn d).Has f := by
  unfold learn
  split_ifs
  · exact h
  · exact has_record.2 (Or.inl h)

@[simp] lemma has_note : (s.note u).Has f ↔ s.Has f := by simp [Has]

/-- What is noted stays noted. -/
lemma mem_unknowns_note {v : UnknownEntry} (h : v ∈ s.unknowns) : v ∈ (s.note u).unknowns := by
  unfold note
  split_ifs with hu
  · exact h
  · exact (Table.mem_put_of_fresh
      (Table.contains_eq_false_iff.1 (by simpa using hu))).2 (Or.inr h)

lemma contains_unknowns_note : (s.note u).unknowns.contains u.key = true := by
  unfold note
  split_ifs with hu
  · exact hu
  · exact Table.contains_iff.2 ⟨u, Table.mem_put_self, rfl⟩

end ViewState

namespace Engine

variable {ctx : Ctx} {i : ℤ}

/-! ### Running the pieces -/

lemma returns_tick {s s' : ViewState} {u : Unit} :
    (tick ctx).Returns s u s' ↔
      (s.count : ℤ) + 1 ≤ ctx.inp.bounds.maxDerivations ∧ s' = { s with count := s.count + 1 } := by
  simp only [tick, gt_iff_lt, returns_bind, returns_update, returns_getState, returns_ite,
    returns_stop, returns_pure, and_false, not_lt, false_or]
  constructor
  · rintro ⟨_, _, rfl, _, _, ⟨rfl, rfl⟩, h, -, rfl⟩
    exact ⟨by simpa using h, rfl⟩
  · rintro ⟨h, rfl⟩
    exact ⟨(), _, rfl, _, _, ⟨rfl, rfl⟩, by simpa using h, trivial, rfl⟩

lemma returns_recordUnknown {s s' : ViewState} {v : UnknownEntry} {u : Unit} :
    (recordUnknown v).Returns s u s' ↔ s' = s.note v := by
  simp only [recordUnknown, returns_update, ViewState.note]

lemma returns_add {d : Derivation} {s s' : ViewState} {b : Bool} :
    (add ctx d).Returns s b s' ↔
      (s.recorded d.fact = true ∧ b = false ∧ s' = s) ∨
        (s.recorded d.fact = false ∧ (s.count : ℤ) + 1 ≤ ctx.inp.bounds.maxDerivations ∧
          b = true ∧ s' = s.record d) := by
  simp only [add, ViewState.recorded, ViewState.record, returns_bind, returns_getState,
    returns_ite, returns_pure, returns_update, returns_tick]
  constructor
  · rintro ⟨_, _, ⟨rfl, rfl⟩, h⟩
    rcases h with ⟨hp, ⟨hc, rfl, rfl⟩ | ⟨hc, _, _, ⟨hle, rfl⟩, _, _, rfl, rfl, rfl⟩⟩ |
      ⟨hp, ⟨hc, rfl, rfl⟩ | ⟨hc, _, _, ⟨hle, rfl⟩, _, _, rfl, rfl, rfl⟩⟩
    · exact Or.inl ⟨by simpa [hp] using hc, rfl, rfl⟩
    · exact Or.inr ⟨by simpa [hp] using hc, hle, rfl, by simp [hp]⟩
    · exact Or.inl ⟨by simpa [hp] using hc, rfl, rfl⟩
    · exact Or.inr ⟨by simpa [hp] using hc, hle, rfl, by simp [hp]⟩
  · rintro (⟨h, rfl, rfl⟩ | ⟨h, hle, rfl, rfl⟩)
    · refine ⟨_, _, ⟨rfl, rfl⟩, ?_⟩
      by_cases hp : d.fact.persistent = true
      · exact Or.inl ⟨hp, Or.inl ⟨by simpa [hp] using h, rfl, rfl⟩⟩
      · exact Or.inr ⟨hp, Or.inl ⟨by simpa [hp] using h, rfl, rfl⟩⟩
    · refine ⟨_, _, ⟨rfl, rfl⟩, ?_⟩
      by_cases hp : d.fact.persistent = true
      · rw [if_pos hp] at h ⊢
        refine Or.inl ⟨hp, Or.inr ⟨by simp [h], (), _, ⟨hle, rfl⟩, (), _, rfl, rfl, rfl⟩⟩
      · rw [if_neg hp] at h ⊢
        refine Or.inr ⟨hp, Or.inr ⟨by simp [h], (), _, ⟨hle, rfl⟩, (), _, rfl, rfl, rfl⟩⟩

/-- `add` learns the derivation. -/
lemma learn_of_returns_add {d : Derivation} {s s' : ViewState} {b : Bool}
    (h : (add ctx d).Returns s b s') : s' = s.learn d := by
  rcases returns_add.1 h with ⟨hr, -, rfl⟩ | ⟨hr, -, -, rfl⟩ <;> simp [ViewState.learn, hr]

/-- Whether a credential can be used in the environment. -/
def canUse (ctx : Ctx) (env : Env) (cred : CredentialSpec) : Bool :=
  (credentialUsable env cred ctx.inp.profile (some (useTime ctx env cred))).usable

/-- The condition under which a credential is used. -/
def useCondition (ctx : Ctx) (env : Env) (cred : CredentialSpec) : Condition :=
  .credentialUsable cred.id (useTime ctx env cred) usableText

/-- Whether the profile supports a credential. -/
def supports (cred : CredentialSpec) : Bool :=
  cred.kind == "sa_token" && (parseSaUsername cred.username).isSome

lemma credentialUsable_supported_eq {env : Env} {cred : CredentialSpec} {profile : Profile}
    {at? : Option ℤ} :
    (credentialUsable env cred profile at?).supported = supports cred := by
  rw [Bool.eq_iff_iff, credentialUsable_supported_iff]
  simp [supports]

lemma supports_of_canUse {env : Env} {cred : CredentialSpec} (h : canUse ctx env cred = true) :
    supports cred = true := by
  obtain ⟨sa, hok⟩ := credentialUsable_usable_iff.1 h
  simp [supports, hok.kind, hok.username]

/-- The unknown that an unsupported credential is. -/
def unsupportedEntry (ctx : Ctx) (env : Env) (cred : CredentialSpec) : UnknownEntry :=
  unsupportedCredential cred
    (credentialUsable env cred ctx.inp.profile (some (useTime ctx env cred)))

lemma returns_usable (hfull : ctx.mode = .full) {cred : CredentialSpec} {s s' : ViewState}
    {r : Option Condition} :
    (usable ctx cred).Returns s r s' ↔
      (supports cred = false ∧ r = none ∧ s' = s.note (unsupportedEntry ctx s.env cred)) ∨
      (supports cred = true ∧ canUse ctx s.env cred = false ∧ r = none ∧ s' = s) ∨
      (canUse ctx s.env cred = true ∧ r = some (useCondition ctx s.env cred) ∧ s' = s) := by
  have hm : (ctx.mode == .historyWithoutLifecycle) = false := by rw [hfull]; rfl
  simp only [usable, returns_bind, returns_getState, returns_ite, returns_pure,
    returns_recordUnknown, credentialUsable_supported_eq, hm, Bool.or_false, Bool.not_eq_true',
    Bool.not_eq_false]
  constructor
  · rintro ⟨_, _, ⟨rfl, rfl⟩, h⟩
    rcases h with ⟨hs, _, _, rfl, rfl, rfl⟩ | ⟨hs, ⟨hu, rfl, rfl⟩ | ⟨hu, rfl, rfl⟩⟩
    · exact Or.inl ⟨hs, rfl, rfl⟩
    · refine Or.inr (Or.inr ⟨hu, ?_, rfl⟩)
      rw [useCondition, credentialUsable_reasons hu]
      rfl
    · exact Or.inr (Or.inl ⟨hs, by simpa [canUse] using hu, rfl, rfl⟩)
  · rintro (⟨hs, rfl, rfl⟩ | ⟨hs, hu, rfl, rfl⟩ | ⟨hu, rfl, rfl⟩)
    · exact ⟨_, _, ⟨rfl, rfl⟩, Or.inl ⟨hs, (), _, rfl, rfl, rfl⟩⟩
    · refine ⟨_, _, ⟨rfl, rfl⟩, Or.inr ⟨hs, Or.inr ⟨?_, rfl, rfl⟩⟩⟩
      unfold canUse at hu
      simp [hu]
    · refine ⟨_, _, ⟨rfl, rfl⟩, Or.inr ⟨supports_of_canUse hu, Or.inl ⟨hu, ?_, rfl⟩⟩⟩
      rw [useCondition, credentialUsable_reasons hu]
      rfl

/-! ### Steps -/

/-- The attacker possesses a credential that can be used now. -/
structure Uses (ctx : Ctx) (s : ViewState) (cred : CredentialSpec) : Prop where
  has : s.Has (.possesses cred.id)
  mem : cred ∈ s.creds
  usable : canUse ctx s.env cred = true

/-- The derivations of the rules that only add a fact. -/
inductive Infers (ctx : Ctx) (i : ℤ) (s : ViewState) : Derivation → Prop
  | ownedPod {cuid : String} {p : Pod} (hc : s.Has (.controlsController cuid))
      (hp : p ∈ s.env.pods) (ho : p.controllerUid = some cuid) : Infers ctx i s (ownedPod i cuid p)
  | execPod {cred : CredentialSpec} {p : Pod} (hu : Uses ctx s cred) (hp : p ∈ s.env.pods)
      (hv : authorizingBindings s.env cred.username "create" "pods/exec" p.ns (some p.name) ≠ []) :
      Infers ctx i s (podExec i cred.id (useCondition ctx s.env cred) cred.username p
        (authorizingBindings s.env cred.username "create" "pods/exec" p.ns (some p.name)))
  | knowSecret {cred : CredentialSpec} {sec : Secret} {grant : String × List String}
      (hu : Uses ctx s cred) (hs : sec ∈ s.env.secrets)
      (hg : readGrant s.env cred.username sec = some grant) :
      Infers ctx i s (secretRead i cred.id (useCondition ctx s.env cred) cred.username sec grant
        (.knowsSecret sec.ns sec.name (Text.ofInt sec.version)))
  | readSecret {cred : CredentialSpec} {sec : Secret} {grant : String × List String}
      (hu : Uses ctx s cred) (hs : sec ∈ s.env.secrets)
      (hg : readGrant s.env cred.username sec = some grant) :
      Infers ctx i s (secretRead i cred.id (useCondition ctx s.env cred) cred.username sec grant
        (.canReadSecret sec.ns sec.name))
  | downstreamCredential {k : String × String × String} {svc : DownstreamService}
      (hk : s.Has (.knowsSecret k.1 k.2.1 k.2.2)) (hs : svc ∈ s.env.services)
      (hsrc : svc.sourceNs = k.1 ∧ svc.sourceSecret = k.2.1) : Infers ctx i s (secretFeeds i k svc)
  | downstreamUse {k : String × String} {svc : DownstreamService} {version : ℤ}
      (hk : s.Has (.possessesDownstream k.1 k.2)) (hs : svc ∈ s.env.services) (hn : svc.name = k.1)
      (hv : Text.toInt? k.2 = some version) (ha : svc.accepts version s.env.time = true) :
      Infers ctx i s (serviceUse i k svc version s.env.time)

/-- The credential authorizes its user to create a workload as a service account of which no
workload is live. -/
structure MayCreate (ctx : Ctx) (s : ViewState) (cred : CredentialSpec) (ns sa : String)
    (kind : WorkloadKind) : Prop where
  uses : Uses ctx s cred
  account : ∃ a ∈ s.env.serviceAccounts, a.key = (ns, sa)
  authorized : authorizingBindings s.env cred.username "create" kind.resource ns none ≠ []
  notLive : controlsLive s ns sa kind = false

/-- What is checked when `cred` creates a workload. -/
def creationChecks (ctx : Ctx) (s : ViewState) (cred : CredentialSpec) (ns sa : String)
    (kind : WorkloadKind) : List Condition :=
  creationConditions (useCondition ctx s.env cred) cred.username ns sa kind
    (authorizingBindings s.env cred.username "create" kind.resource ns none)
    (admissionDecision s.env cred.username ns sa).policies

/-- The state with a token in the place of what was stored under its id. -/
def withToken (s : ViewState) (cred : CredentialSpec) (d : Derivation) : ViewState :=
  { s with creds := s.creds.put cred, count := s.count + 1, facts := s.facts.put d }

def withPod (s : ViewState) (p : Pod) : ViewState :=
  { s with env := { s.env with pods := s.env.pods.put p } }

def withController (s : ViewState) (c : Controller) : ViewState :=
  { s with env := Env.addController s.env c }

/-- When a token obtained now expires. -/
def tokenExpiry (ctx : Ctx) (env : Env) : ℤ := env.time + ctx.inp.profile.projectedTokenTtlSeconds

/-- A token that is held lasts until it expires. -/
lemma holdsUntil_projectedToken {s : ViewState} {pod : Pod} {sa : ServiceAccount} {aud : String}
    {e : ℤ} (h : projectedToken pod sa aud e ∈ s.creds) (x : ℤ) :
    holdsUntil s (projectedId pod.uid aud) x = decide (x ≤ e) := by
  have hget : s.creds.get? (projectedId pod.uid aud) = some (projectedToken pod sa aud e) :=
    Table.get?_key h
  rw [holdsUntil, hget]
  rfl

/-- One step of the attacker in an interval. -/
inductive Step (ctx : Ctx) (i : ℤ) : ViewState → ViewState → Prop
  | infer {s : ViewState} {d : Derivation} (h : Infers ctx i s d)
      (hnew : s.recorded d.fact = false) : Step ctx i s (s.record d)
  | token {s : ViewState} {pod : Pod} {sa : ServiceAccount} {aud : String}
      (hc : s.Has (.controlsPod pod.uid)) (hp : pod ∈ s.env.pods) (ha : sa ∈ s.env.serviceAccounts)
      (hk : sa.key = (pod.ns, pod.serviceAccount)) (haud : aud ∈ tokenAudiences ctx.inp.profile pod)
      (hnew : holdsUntil s (projectedId pod.uid aud) (tokenExpiry ctx s.env) = false) :
      Step ctx i s (withToken s (projectedToken pod sa aud (tokenExpiry ctx s.env))
        (tokenDerivation i pod sa aud (tokenExpiry ctx s.env)))
  | createPod {s : ViewState} {cred : CredentialSpec} {ns sa : String}
      (h : MayCreate ctx s cred ns sa .pod)
      (hadm : (admissionDecision s.env cred.username ns sa).outcome = .allow)
      (hfree : s.env.pods.contains (modelPodUid ns sa i) = false) :
      Step ctx i s ((withPod s (createdPod ns sa (modelPodUid ns sa i))).learn
        (podCreation i cred.id (modelPodUid ns sa i) (creationChecks ctx s cred ns sa .pod)))
  | createController {s : ViewState} {cred : CredentialSpec} {ns sa : String}
      (h : MayCreate ctx s cred ns sa .controller)
      (hadm : (admissionDecision s.env cred.username ns sa).outcome = .allow)
      (hfree : s.env.controllers.contains (modelControllerUid ns sa i) = false) :
      Step ctx i s ((withController s (createdController ns sa (modelControllerUid ns sa i))).learn
        (controllerCreation i cred.id (modelControllerUid ns sa i)
          (creationChecks ctx s cred ns sa .controller)))
  | unsupportedCredential {s : ViewState} {cred : CredentialSpec}
      (hhas : s.Has (.possesses cred.id)) (hmem : cred ∈ s.creds) (hsup : supports cred = false) :
      Step ctx i s (s.note (unsupportedEntry ctx s.env cred))
  | unsupportedAdmission {s : ViewState} {cred : CredentialSpec} {ns sa : String}
      {kind : WorkloadKind} (h : MayCreate ctx s cred ns sa kind)
      (hadm : (admissionDecision s.env cred.username ns sa).outcome = .unsupported) :
      Step ctx i s (s.note (unsupportedAdmission ns cred.username sa kind
        (admissionDecision s.env cred.username ns sa).policies))

/-- Any number of steps. -/
abbrev Steps (ctx : Ctx) (i : ℤ) : ViewState → ViewState → Prop :=
  Relation.ReflTransGen (Step ctx i)

/-! ### What every step keeps -/

lemma addController_grows {env : Env} {c : Controller} (h : env.controllers.contains c.uid = false) :
    env.Grows (Env.addController env c) := by
  refine Env.Grows.trans ?_ (reconcileControllers_grows _)
  refine ⟨rfl, rfl, rfl, rfl, rfl, rfl, rfl, fun _ hp => hp, fun d hd => ?_⟩
  exact (Table.mem_put_of_fresh (Table.contains_eq_false_iff.1 h)).2 (Or.inr hd)

lemma withPod_grows {s : ViewState} {p : Pod} (h : s.env.pods.contains p.uid = false) :
    s.env.Grows (withPod s p).env :=
  ⟨rfl, rfl, rfl, rfl, rfl, rfl, rfl,
    fun _ hq => (mem_put_of_contains_eq_false h).2 (Or.inr hq), fun _ hc => hc⟩

lemma Step.grows {s t : ViewState} (h : Step ctx i s t) : s.env.Grows t.env := by
  cases h with
  | infer => simpa using Env.Grows.refl s.env
  | token => exact Env.Grows.refl s.env
  | createPod h hadm hfree =>
      rw [ViewState.learn_env]
      exact withPod_grows hfree
  | createController h hadm hfree =>
      rw [ViewState.learn_env]
      exact addController_grows hfree
  | unsupportedCredential => simpa using Env.Grows.refl s.env
  | unsupportedAdmission => simpa using Env.Grows.refl s.env

/-- A token in the place of another hides no fact. -/
lemma has_withToken {s : ViewState} {cred : CredentialSpec} {d : Derivation} {f : Fact}
    (hf : s.Has f) : (withToken s cred d).Has f := by
  obtain ⟨e, he, rfl⟩ := hf
  by_cases hd : e.fact = d.fact
  · exact ⟨d, Table.mem_put_self, hd.symm⟩
  · exact ⟨e, Table.mem_put.2 (Or.inr ⟨he, hd⟩), rfl⟩

lemma Step.has {s t : ViewState} (h : Step ctx i s t) {f : Fact} (hf : s.Has f) : t.Has f := by
  cases h with
  | infer => exact ViewState.has_record.2 (Or.inl hf)
  | token => exact has_withToken hf
  | createPod => exact ViewState.has_learn_of_has hf
  | createController => exact ViewState.has_learn_of_has hf
  | unsupportedCredential => exact ViewState.has_note.2 hf
  | unsupportedAdmission => exact ViewState.has_note.2 hf

/-- What a step from `s` to `t` adds to the facts kept for ever. -/
inductive Gains (ctx : Ctx) (i : ℤ) (s t : ViewState) : Fact → Prop
  | ownedPod {cuid : String} {p : Pod} (hc : s.Has (.controlsController cuid))
      (hp : p ∈ s.env.pods) (ho : p.controllerUid = some cuid) : Gains ctx i s t (.controlsPod p.uid)
  | execPod {cred : CredentialSpec} {p : Pod} (hu : Uses ctx s cred) (hp : p ∈ s.env.pods)
      (hv : authorizingBindings s.env cred.username "create" "pods/exec" p.ns (some p.name) ≠ []) :
      Gains ctx i s t (.controlsPod p.uid)
  | knowsSecret {cred : CredentialSpec} {sec : Secret} (hu : Uses ctx s cred)
      (hs : sec ∈ s.env.secrets) (hg : (readGrant s.env cred.username sec).isSome) :
      Gains ctx i s t (.knowsSecret sec.ns sec.name (Text.ofInt sec.version))
  | downstream {ns name version : String} {svc : DownstreamService}
      (hk : s.Has (.knowsSecret ns name version)) (hs : svc ∈ s.env.services)
      (hsrc : svc.sourceNs = ns ∧ svc.sourceSecret = name) :
      Gains ctx i s t (.possessesDownstream svc.name version)
  | token {pod : Pod} {sa : ServiceAccount} {aud : String} (hc : s.Has (.controlsPod pod.uid))
      (hp : pod ∈ s.env.pods) (ha : sa ∈ s.env.serviceAccounts)
      (hk : sa.key = (pod.ns, pod.serviceAccount)) (haud : aud ∈ tokenAudiences ctx.inp.profile pod) :
      Gains ctx i s t (.possesses (projectedId pod.uid aud))
  | createdPod {cred : CredentialSpec} {ns sa : String} (h : MayCreate ctx s cred ns sa .pod)
      (hadm : (admissionDecision s.env cred.username ns sa).outcome = .allow)
      (hp : createdPod ns sa (modelPodUid ns sa i) ∈ t.env.pods) :
      Gains ctx i s t (.controlsPod (modelPodUid ns sa i))
  | createdController {cred : CredentialSpec} {ns sa : String}
      (h : MayCreate ctx s cred ns sa .controller)
      (hadm : (admissionDecision s.env cred.username ns sa).outcome = .allow)
      (hc : createdController ns sa (modelControllerUid ns sa i) ∈ t.env.controllers) :
      Gains ctx i s t (.controlsController (modelControllerUid ns sa i))

lemma createdController_mem_addController (env : Env) (c : Controller) :
    c ∈ (Env.addController env c).controllers := by
  simp only [Env.addController, reconcileControllers_controllers]
  exact Table.mem_put_self

/-- A fact after a step was there before or is gained. -/
lemma Step.has_cases {s t : ViewState} (h : Step ctx i s t) {f : Fact} (hf : t.Has f) :
    s.Has f ∨ Gains ctx i s t f := by
  cases h with
  | infer hd hnew =>
      rcases ViewState.has_record.1 hf with hf | ⟨hkeep, rfl⟩
      · exact Or.inl hf
      · refine Or.inr ?_
        -- a fact of the interval alone is not kept
        cases hd with
        | ownedPod hc hp ho => exact .ownedPod hc hp ho
        | execPod hu hp hv => exact .execPod hu hp hv
        | knowSecret hu hs hg => exact .knowsSecret hu hs (Option.isSome_of_eq_some hg)
        | readSecret => cases hkeep
        | downstreamCredential hk hs hsrc => exact .downstream hk hs hsrc
        | downstreamUse => cases hkeep
  | token hc hp ha hk haud hnew =>
      obtain ⟨d, hd, rfl⟩ := hf
      rcases Table.mem_put.1 hd with rfl | ⟨hd, -⟩
      · exact Or.inr (.token hc hp ha hk haud)
      · exact Or.inl ⟨d, hd, rfl⟩
  | createPod hm hadm hfree =>
      refine ((ViewState.has_learn rfl).1 hf).imp (fun h => h) ?_
      rintro rfl
      refine .createdPod hm hadm ?_
      rw [ViewState.learn_env]
      exact Table.mem_put_self
  | createController hm hadm hfree =>
      refine ((ViewState.has_learn rfl).1 hf).imp (fun h => h) ?_
      rintro rfl
      refine .createdController hm hadm ?_
      rw [ViewState.learn_env]
      exact createdController_mem_addController _ _
  | unsupportedCredential => exact Or.inl (ViewState.has_note.1 hf)
  | unsupportedAdmission => exact Or.inl (ViewState.has_note.1 hf)

/-- The credentials after a step are those before, or a token is stored under its id. -/
lemma Step.creds {s t : ViewState} (h : Step ctx i s t) :
    t.creds = s.creds ∨ ∃ pod sa aud, s.Has (.controlsPod pod.uid) ∧ pod ∈ s.env.pods ∧
      sa ∈ s.env.serviceAccounts ∧ sa.key = (pod.ns, pod.serviceAccount) ∧
      aud ∈ tokenAudiences ctx.inp.profile pod ∧
      holdsUntil s (projectedId pod.uid aud) (tokenExpiry ctx s.env) = false ∧
      t.creds = s.creds.put (projectedToken pod sa aud (tokenExpiry ctx s.env)) := by
  cases h with
  | infer => exact Or.inl ViewState.record_creds
  | token hc hp ha hk haud hnew => exact Or.inr ⟨_, _, _, hc, hp, ha, hk, haud, hnew, rfl⟩
  | createPod => exact Or.inl ViewState.learn_creds
  | createController => exact Or.inl ViewState.learn_creds
  | unsupportedCredential => exact Or.inl ViewState.note_creds
  | unsupportedAdmission => exact Or.inl ViewState.note_creds

lemma Steps.grows {s t : ViewState} (h : Steps ctx i s t) : s.env.Grows t.env := by
  induction h with
  | refl => exact Env.Grows.refl s.env
  | tail _ h ih => exact ih.trans h.grows

lemma Steps.has {s t : ViewState} (h : Steps ctx i s t) {f : Fact} (hf : s.Has f) : t.Has f := by
  induction h with
  | refl => exact hf
  | tail _ h ih => exact h.has ih

lemma Step.unknowns {s t : ViewState} (h : Step ctx i s t) {u : UnknownEntry}
    (hu : u ∈ s.unknowns) : u ∈ t.unknowns := by
  cases h with
  | infer => rwa [ViewState.record_unknowns]
  | token => exact hu
  | createPod =>
      rw [ViewState.learn_unknowns]
      exact hu
  | createController =>
      rw [ViewState.learn_unknowns]
      exact hu
  | unsupportedCredential => exact ViewState.mem_unknowns_note hu
  | unsupportedAdmission => exact ViewState.mem_unknowns_note hu

lemma Steps.unknowns {s t : ViewState} (h : Steps ctx i s t) {u : UnknownEntry}
    (hu : u ∈ s.unknowns) : u ∈ t.unknowns := by
  induction h with
  | refl => exact hu
  | tail _ h ih => exact h.unknowns ih

lemma useTime_of_grows {e e' : Env} (h : e.Grows e') (cred : CredentialSpec) :
    useTime ctx e' cred = useTime ctx e cred := by
  unfold useTime
  rw [h.time]

lemma canUse_of_grows {e e' : Env} (h : e.Grows e') {cred : CredentialSpec}
    (hu : canUse ctx e cred = true) : canUse ctx e' cred = true := by
  unfold canUse at hu ⊢
  rw [useTime_of_grows h]
  exact h.usable hu

lemma useCondition_of_grows {e e' : Env} (h : e.Grows e') (cred : CredentialSpec) :
    useCondition ctx e' cred = useCondition ctx e cred := by
  unfold useCondition
  rw [useTime_of_grows h]

/-- A credential in use stays in use until its row is replaced. -/
lemma Uses.steps {s t : ViewState} {cred : CredentialSpec} (h : Uses ctx s cred)
    (hst : Steps ctx i s t) (hc : t.creds = s.creds) : Uses ctx t cred :=
  ⟨hst.has h.has, hc ▸ h.mem, canUse_of_grows hst.grows h.usable⟩

/-! ### A closure is a sequence of steps -/

section

variable {s s' : ViewState} {b : Bool}

lemma mem_sortedFacts {α : Type} {select : Fact → Option α} {key : α → List String} {x : α} :
    x ∈ sortedFacts select key s ↔ ∃ f, s.Has f ∧ select f = some x := by
  simp only [sortedFacts, Text.mem_sortedBy, List.mem_filterMap, ViewState.Has, Table.mem_def]
  constructor
  · rintro ⟨d, hd, h⟩
    exact ⟨d.fact, ⟨d, hd, rfl⟩, h⟩
  · rintro ⟨_, ⟨d, hd, rfl⟩, h⟩
    exact ⟨d, hd, h⟩

lemma mem_sortedControllers {c : String} :
    c ∈ sortedFacts selectController (fun c => [c]) s ↔ s.Has (.controlsController c) := by
  rw [mem_sortedFacts]
  constructor
  · rintro ⟨f, hf, h⟩
    cases f <;> simp_all [selectController]
  · exact fun h => ⟨_, h, rfl⟩

lemma mem_sortedControlledPods {u : String} :
    u ∈ sortedFacts selectPod (fun u => [u]) s ↔ s.Has (.controlsPod u) := by
  rw [mem_sortedFacts]
  constructor
  · rintro ⟨f, hf, h⟩
    cases f <;> simp_all [selectPod]
  · exact fun h => ⟨_, h, rfl⟩

lemma mem_sortedCredentials {c : String} :
    c ∈ sortedFacts selectCredential (fun c => [c]) s ↔ s.Has (.possesses c) := by
  rw [mem_sortedFacts]
  constructor
  · rintro ⟨f, hf, h⟩
    cases f <;> simp_all [selectCredential]
  · exact fun h => ⟨_, h, rfl⟩

lemma mem_sortedKnown {k : String × String × String} :
    k ∈ sortedFacts selectSecret (fun k => [k.1, k.2.1, k.2.2]) s ↔
      s.Has (.knowsSecret k.1 k.2.1 k.2.2) := by
  rw [mem_sortedFacts]
  constructor
  · rintro ⟨f, hf, h⟩
    cases f <;> simp_all [selectSecret]
    subst h
    exact hf
  · exact fun h => ⟨_, h, rfl⟩

lemma mem_sortedDownstream {k : String × String} :
    k ∈ sortedFacts selectDownstream (fun k => [k.1, k.2]) s ↔
      s.Has (.possessesDownstream k.1 k.2) := by
  rw [mem_sortedFacts]
  constructor
  · rintro ⟨f, hf, h⟩
    cases f <;> simp_all [selectDownstream]
    subst h
    exact hf
  · exact fun h => ⟨_, h, rfl⟩

@[simp] lemma mem_sortedPods {env : Env} {p : Pod} : p ∈ sortedPods env ↔ p ∈ env.pods :=
  Text.mem_sortedBy

@[simp] lemma mem_sortedSecrets {env : Env} {x : Secret} : x ∈ sortedSecrets env ↔ x ∈ env.secrets :=
  Text.mem_sortedBy

lemma mem_accountsIn {env : Env} {ns sa : String} :
    sa ∈ accountsIn env ns ↔ ∃ a ∈ env.serviceAccounts, a.key = (ns, sa) := by
  simp only [accountsIn, List.mem_map, List.mem_filter, Text.mem_sortedBy, beq_iff_eq,
    ServiceAccount.key, Prod.mk.injEq, Table.mem_def, and_assoc]

lemma mem_secretsFeeding {env : Env} {ns name : String} {svc : DownstreamService} :
    svc ∈ secretsFeeding env ns name ↔
      svc ∈ env.services ∧ svc.sourceNs = ns ∧ svc.sourceSecret = name := by
  simp [secretsFeeding, Table.mem_def]

/-- A loop whose turns are sequences of steps is one. -/
lemma forEach_steps {α : Type} {xs : List α} {body : α → EngineM Bool}
    {P : ViewState → Prop} (hP : ∀ {u t}, P u → Steps ctx i u t → P t)
    (hbody : ∀ x ∈ xs, ∀ {u c t}, P u → (body x).Returns u c t → Steps ctx i u t) (hs : P s)
    (h : (forEach xs body).Returns s b s') : Steps ctx i s s' :=
  forEach_rel (R := Steps ctx i) (P := P) (fun _ => .refl) (fun h h' => h.trans h') hP hbody hs h

/-- Recording an inferred fact is a step, or nothing where the fact is known. -/
lemma add_steps {d : Derivation} (hd : Infers ctx i s d) (h : (add ctx d).Returns s b s') :
    Steps ctx i s s' := by
  rcases returns_add.1 h with ⟨-, -, rfl⟩ | ⟨hnew, -, -, rfl⟩
  · exact .refl
  · exact .single (.infer hd hnew)

lemma controllerPods_steps (h : (controllerPods ctx i).Returns s b s') : Steps ctx i s s' := by
  simp only [controllerPods, returns_getState_bind] at h
  refine forEach_steps (P := fun t => ∀ c ∈ sortedFacts selectController (fun c => [c]) s,
    t.Has (.controlsController c)) (fun hP hst c hc => hst.has (hP c hc)) ?_
    (fun c hc => mem_sortedControllers.1 hc) h
  intro c hc s₁ b₁ t₁ hP h₁
  rw [returns_getState_bind] at h₁
  refine forEach_steps (P := fun t => t.Has (.controlsController c) ∧ s₁.env.Grows t.env)
    (fun hP hst => ⟨hst.has hP.1, hP.2.trans hst.grows⟩) ?_ ⟨hP c hc, Env.Grows.refl _⟩ h₁
  intro p hp s₂ b₂ t₂ hP₂ h₂
  rcases returns_ite.1 h₂ with ⟨ho, h₂⟩ | ⟨-, h₂⟩
  · exact add_steps (.ownedPod hP₂.1 (hP₂.2.pods p (mem_sortedPods.1 hp)) ho) h₂
  · obtain ⟨-, rfl⟩ := returns_pure.1 h₂
    exact .refl

lemma returns_obtainToken {pod : Pod} {sa : ServiceAccount} {aud : String} :
    (obtainToken ctx i pod sa aud).Returns s b s' ↔
      (holdsUntil s (projectedId pod.uid aud) (tokenExpiry ctx s.env) = true ∧ b = false ∧ s' = s) ∨
      (holdsUntil s (projectedId pod.uid aud) (tokenExpiry ctx s.env) = false ∧
        (s.count : ℤ) + 1 ≤ ctx.inp.bounds.maxDerivations ∧ b = true ∧
        s' = withToken s (projectedToken pod sa aud (tokenExpiry ctx s.env))
          (tokenDerivation i pod sa aud (tokenExpiry ctx s.env))) := by
  simp only [obtainToken, returns_bind, returns_getState, returns_ite, returns_pure,
    returns_update, returns_tick, Bool.not_eq_true]
  constructor
  · rintro ⟨_, _, ⟨rfl, rfl⟩, ⟨h, rfl, rfl⟩ | ⟨h, _, _, rfl, _, _, ⟨hle, rfl⟩, _, _, rfl, rfl, rfl⟩⟩
    · exact Or.inl ⟨h, rfl, rfl⟩
    · exact Or.inr ⟨h, hle, rfl, rfl⟩
  · rintro (⟨h, rfl, rfl⟩ | ⟨h, hle, rfl, rfl⟩)
    · exact ⟨_, _, ⟨rfl, rfl⟩, Or.inl ⟨h, rfl, rfl⟩⟩
    · exact ⟨_, _, ⟨rfl, rfl⟩, Or.inr ⟨h, (), _, rfl, (), _, ⟨hle, rfl⟩, (), _, rfl, rfl, rfl⟩⟩

lemma projectedTokens_steps (h : (projectedTokens ctx i).Returns s b s') : Steps ctx i s s' := by
  simp only [projectedTokens, returns_getState_bind] at h
  refine forEach_steps (P := fun t => ∀ u ∈ sortedFacts selectPod (fun u => [u]) s,
    t.Has (.controlsPod u)) (fun hP hst u hu => hst.has (hP u hu)) ?_
    (fun u hu => mem_sortedControlledPods.1 hu) h
  intro u hu s₁ b₁ t₁ hP h₁
  rw [returns_getState_bind] at h₁
  split at h₁
  · obtain ⟨-, rfl⟩ := returns_pure.1 h₁
    exact .refl
  next pod hpod =>
    obtain ⟨hmem, rfl⟩ := Table.get?_eq_some_iff.1 hpod
    split at h₁
    · obtain ⟨-, rfl⟩ := returns_pure.1 h₁
      exact .refl
    next sa hsa =>
      obtain ⟨hsam, hkey⟩ := Table.get?_eq_some_iff.1 hsa
      refine forEach_steps (P := fun t => t.Has (.controlsPod pod.uid) ∧ s₁.env.Grows t.env)
        (fun hP hst => ⟨hst.has hP.1, hP.2.trans hst.grows⟩) ?_
        ⟨hP pod.uid hu, Env.Grows.refl _⟩ h₁
      intro aud haud s₂ b₂ t₂ hP₂ h₂
      rcases returns_obtainToken.1 h₂ with ⟨-, -, rfl⟩ | ⟨hnew, -, -, rfl⟩
      · exact .refl
      · exact .single (.token hP₂.1 (hP₂.2.pods pod hmem)
          (hP₂.2.serviceAccounts.symm ▸ hsam) hkey haud hnew)

/-! Requests: the credential is looked up and checked once, and stays usable while they run. -/

/-- Steps that leave the credentials alone. -/
def Requests (ctx : Ctx) (i : ℤ) (s t : ViewState) : Prop := Steps ctx i s t ∧ t.creds = s.creds

lemma Requests.refl (s : ViewState) : Requests ctx i s s := ⟨.refl, rfl⟩

lemma Requests.trans {s t u : ViewState} (h : Requests ctx i s t) (h' : Requests ctx i t u) :
    Requests ctx i s u := ⟨h.1.trans h'.1, h'.2.trans h.2⟩

/-- While `cred` drives requests from `s₀`: it is in use and the environment has only grown. -/
def Driving (ctx : Ctx) (cred : CredentialSpec) (s₀ t : ViewState) : Prop :=
  Uses ctx t cred ∧ s₀.env.Grows t.env

lemma Driving.requests {cred : CredentialSpec} {s₀ s t : ViewState} (h : Driving ctx cred s₀ s)
    (hst : Requests ctx i s t) : Driving ctx cred s₀ t :=
  ⟨h.1.steps hst.1 hst.2, h.2.trans hst.1.grows⟩

lemma Driving.self {cred : CredentialSpec} {s₀ s : ViewState} (h : Driving ctx cred s₀ s) :
    Driving ctx cred s s := ⟨h.1, Env.Grows.refl _⟩

/-- A loop of requests is a sequence of steps. -/
lemma forEach_requests {α : Type} {xs : List α} {body : α → EngineM Bool} {cred : CredentialSpec}
    (s₀ : ViewState)
    (hbody : ∀ x ∈ xs, ∀ {u c t}, Driving ctx cred s₀ u → (body x).Returns u c t →
      Requests ctx i u t)
    (hs : Driving ctx cred s₀ s) (h : (forEach xs body).Returns s b s') : Requests ctx i s s' :=
  forEach_rel (R := Requests ctx i) (P := Driving ctx cred s₀) Requests.refl
    (fun h h' => h.trans h') (fun h h' => h.requests h') hbody hs h

lemma add_requests {d : Derivation} (hd : Infers ctx i s d) (h : (add ctx d).Returns s b s') :
    Requests ctx i s s' := by
  refine ⟨add_steps hd h, ?_⟩
  rw [learn_of_returns_add h, ViewState.learn_creds]

lemma createWorkload_requests {cred : CredentialSpec} {s₀ : ViewState} {ns sa : String}
    {kind : WorkloadKind} (hd : Driving ctx cred s₀ s)
    (hv : authorizingBindings s₀.env cred.username "create" kind.resource ns none ≠ [])
    (hsa : sa ∈ accountsIn s₀.env ns)
    (h : (createWorkload ctx i cred.id (useCondition ctx s₀.env cred) cred.username ns
      (authorizingBindings s₀.env cred.username "create" kind.resource ns none) kind sa).Returns
      s b s') : Requests ctx i s s' := by
  have hvia := hd.2.authorizingBindings cred.username "create" kind.resource ns none
  have hcond : useCondition ctx s.env cred = useCondition ctx s₀.env cred :=
    useCondition_of_grows hd.2 cred
  have hmay : controlsLive s ns sa kind = false → MayCreate ctx s cred ns sa kind := fun hl =>
    ⟨hd.1, by rw [hd.2.serviceAccounts]; exact mem_accountsIn.1 hsa, by rw [hvia]; exact hv, hl⟩
  rw [createWorkload, returns_getState_bind] at h
  rcases returns_ite.1 h with ⟨-, h⟩ | ⟨hl, h⟩
  · -- the attacker already controls a live workload of the account
    obtain ⟨-, rfl⟩ := returns_pure.1 h
    exact Requests.refl _
  · -- admission decides
    have hm := hmay (by simpa using hl)
    cases hadm : (admissionDecision s.env cred.username ns sa).outcome with
    | unsupported =>
        simp only [hadm, returns_bind, returns_recordUnknown, returns_pure] at h
        obtain ⟨_, _, rfl, -, rfl⟩ := h
        exact ⟨.single (.unsupportedAdmission hm hadm), ViewState.note_creds⟩
    | deny =>
        simp only [hadm, returns_pure] at h
        obtain ⟨-, rfl⟩ := h
        exact Requests.refl _
    | allow =>
        simp only [hadm] at h
        cases kind with
        | pod =>
            -- a workload with the UID may be there that the attacker does not control
            rcases returns_ite.1 h with ⟨-, h⟩ | ⟨hfree, h⟩
            · obtain ⟨-, rfl⟩ := returns_pure.1 h
              exact Requests.refl _
            · rw [returns_update_bind] at h
              rw [learn_of_returns_add h, ← hcond, ← hvia]
              exact ⟨.single (.createPod hm hadm (by simpa using hfree)), by simp⟩
        | controller =>
            rcases returns_ite.1 h with ⟨-, h⟩ | ⟨hfree, h⟩
            · obtain ⟨-, rfl⟩ := returns_pure.1 h
              exact Requests.refl _
            · rw [returns_update_bind] at h
              rw [learn_of_returns_add h, ← hcond, ← hvia]
              exact ⟨.single (.createController hm hadm (by simpa using hfree)), by simp⟩

lemma createWorkloads_requests {cred : CredentialSpec} {s₀ : ViewState} {ns : String}
    {kind : WorkloadKind} (hd : Driving ctx cred s₀ s)
    (h : (createWorkloads ctx i cred.id (useCondition ctx s₀.env cred) cred.username ns kind).Returns
      s b s') : Requests ctx i s s' := by
  rw [createWorkloads, returns_getState_bind] at h
  rcases returns_ite.1 h with ⟨-, h⟩ | ⟨hv, h⟩
  · obtain ⟨-, rfl⟩ := returns_pure.1 h
    exact Requests.refl _
  · rw [← useCondition_of_grows hd.2] at h
    exact forEach_requests s
      (fun sa hsa _ _ _ hu hb => createWorkload_requests hu hv hsa hb) hd.self h

lemma execPod_requests {cred : CredentialSpec} {s₀ : ViewState} {p : Pod}
    (hd : Driving ctx cred s₀ s) (hp : p ∈ s₀.env.pods)
    (h : (execPod ctx i cred.id (useCondition ctx s₀.env cred) cred.username p).Returns s b s') :
    Requests ctx i s s' := by
  rw [execPod, returns_getState_bind] at h
  rcases returns_ite.1 h with ⟨-, h⟩ | ⟨hv, h⟩
  · obtain ⟨-, rfl⟩ := returns_pure.1 h
    exact Requests.refl _
  · rw [← useCondition_of_grows hd.2] at h
    exact add_requests (.execPod hd.1 (hd.2.pods p hp) hv) h

lemma readSecret_requests {cred : CredentialSpec} {s₀ : ViewState} {sec : Secret}
    (hd : Driving ctx cred s₀ s) (hs : sec ∈ s₀.env.secrets)
    (h : (readSecret ctx i cred.id (useCondition ctx s₀.env cred) cred.username sec).Returns
      s b s') : Requests ctx i s s' := by
  rw [readSecret, returns_getState_bind] at h
  split at h
  · obtain ⟨-, rfl⟩ := returns_pure.1 h
    exact Requests.refl _
  next grant hg =>
    simp only [returns_bind, returns_pure] at h
    obtain ⟨a, t, ha, b', u, hb, -, rfl⟩ := h
    rw [← useCondition_of_grows hd.2] at ha hb
    have hmem : ∀ {v : ViewState}, Driving ctx cred s₀ v → sec ∈ v.env.secrets := fun h =>
      h.2.secrets.symm ▸ hs
    have h1 : Requests ctx i s t := add_requests (.knowSecret hd.1 (hmem hd) hg) ha
    have hd' := hd.requests h1
    rw [← useCondition_of_grows h1.1.grows] at hb
    have hg' : readGrant t.env cred.username sec = some grant := by
      rw [← hg]
      unfold readGrant
      simp only [h1.1.grows.authorizingBindings]
    exact h1.trans (add_requests (.readSecret hd'.1 (hmem hd') hg') hb)

/-- The API requests that one credential drives are steps. -/
lemma credentialRequests_steps (hfull : ctx.mode = .full) {cid : String}
    (hhas : s.Has (.possesses cid)) (h : (credentialRequests ctx i cid).Returns s b s') :
    Requests ctx i s s' := by
  rw [credentialRequests, returns_getState_bind] at h
  split at h
  · obtain ⟨-, rfl⟩ := returns_pure.1 h
    exact Requests.refl _
  next cred hcred =>
    obtain ⟨hmem, rfl⟩ := Table.get?_eq_some_iff.1 hcred
    obtain ⟨r, t, hr, h⟩ := returns_bind.1 h
    rcases (returns_usable hfull).1 hr with ⟨hsup, rfl, rfl⟩ | ⟨-, -, rfl, rfl⟩ | ⟨hu, rfl, rfl⟩
    · obtain ⟨-, rfl⟩ := returns_pure.1 h
      exact ⟨.single (.unsupportedCredential hhas hmem hsup), ViewState.note_creds⟩
    · obtain ⟨-, rfl⟩ := returns_pure.1 h
      exact Requests.refl _
    -- the credential stays usable through the three loops, since the environment only grows
    · have hd : Driving ctx cred t t := ⟨⟨hhas, hmem, hu⟩, Env.Grows.refl _⟩
      obtain ⟨c₁, s₁, h₁, h⟩ := returns_bind.1 h
      rw [returns_getState_bind] at h
      obtain ⟨c₂, s₂, h₂, h⟩ := returns_bind.1 h
      rw [returns_getState_bind] at h
      obtain ⟨c₃, s₃, h₃, h⟩ := returns_bind.1 h
      obtain ⟨-, rfl⟩ := returns_pure.1 h
      have hr₁ : Requests ctx i t s₁ := by
        refine forEach_requests t ?_ hd h₁
        intro ns _ u c v hdu hb
        simp only [returns_bind, returns_pure] at hb
        obtain ⟨a, u', ha, b', u'', hb', -, rfl⟩ := hb
        have h1 := createWorkloads_requests hdu ha
        exact h1.trans (createWorkloads_requests (hdu.requests h1) hb')
      have hd₁ := hd.requests hr₁
      have hr₂ : Requests ctx i s₁ s₂ := by
        rw [← useCondition_of_grows hd₁.2] at h₂
        exact forEach_requests s₁
          (fun p hp _ _ _ hdu hb => execPod_requests hdu (mem_sortedPods.1 hp) hb) hd₁.self h₂
      have hd₂ := hd₁.requests hr₂
      have hr₃ : Requests ctx i s₂ s' := by
        rw [← useCondition_of_grows hd₂.2] at h₃
        exact forEach_requests s₂
          (fun x hx _ _ _ hdu hb => readSecret_requests hdu (mem_sortedSecrets.1 hx) hb) hd₂.self h₃
      exact (hr₁.trans hr₂).trans hr₃

lemma apiRequests_steps (hfull : ctx.mode = .full) (h : (apiRequests ctx i).Returns s b s') :
    Steps ctx i s s' := by
  rw [apiRequests, returns_getState_bind] at h
  refine forEach_steps (P := fun t => ∀ c ∈ sortedFacts selectCredential (fun c => [c]) s,
    t.Has (.possesses c)) (fun hP hst c hc => hst.has (hP c hc)) ?_
    (fun c hc => mem_sortedCredentials.1 hc) h
  exact fun c hc _ _ _ hP h₁ => (credentialRequests_steps hfull (hP c hc) h₁).1

lemma downstreamCredentials_steps (h : (downstreamCredentials ctx i).Returns s b s') :
    Steps ctx i s s' := by
  rw [downstreamCredentials, returns_getState_bind] at h
  refine forEach_steps (P := fun t => ∀ k ∈ sortedFacts selectSecret
    (fun k => [k.1, k.2.1, k.2.2]) s, t.Has (.knowsSecret k.1 k.2.1 k.2.2))
    (fun hP hst k hk => hst.has (hP k hk)) ?_ (fun k hk => mem_sortedKnown.1 hk) h
  intro k hk s₁ b₁ t₁ hP h₁
  rw [returns_getState_bind] at h₁
  refine forEach_steps (P := fun t => t.Has (.knowsSecret k.1 k.2.1 k.2.2) ∧ s₁.env.Grows t.env)
    (fun hP hst => ⟨hst.has hP.1, hP.2.trans hst.grows⟩) ?_ ⟨hP k hk, Env.Grows.refl _⟩ h₁
  intro svc hsvc s₂ b₂ t₂ hP₂ h₂
  obtain ⟨hmem, hsrc⟩ := mem_secretsFeeding.1 hsvc
  exact add_steps (.downstreamCredential hP₂.1 (hP₂.2.services.symm ▸ hmem) hsrc) h₂

lemma downstreamUse_steps (h : (downstreamUse ctx i).Returns s b s') : Steps ctx i s s' := by
  rw [downstreamUse, returns_getState_bind] at h
  refine forEach_steps (P := fun t => ∀ k ∈ sortedFacts selectDownstream (fun k => [k.1, k.2]) s,
    t.Has (.possessesDownstream k.1 k.2)) (fun hP hst k hk => hst.has (hP k hk)) ?_
    (fun k hk => mem_sortedDownstream.1 hk) h
  intro k hk s₁ b₁ t₁ hP h₁
  rw [returns_getState_bind] at h₁
  split at h₁
  next svc version hsvc hver =>
    obtain ⟨hmem, hname⟩ := Table.get?_eq_some_iff.1 hsvc
    rcases returns_ite.1 h₁ with ⟨ha, h₁⟩ | ⟨-, h₁⟩
    · exact add_steps (.downstreamUse (hP k hk) hmem hname hver ha) h₁
    · obtain ⟨-, rfl⟩ := returns_pure.1 h₁
      exact .refl
  · obtain ⟨-, rfl⟩ := returns_pure.1 h₁
    exact .refl

lemma pass_steps (hfull : ctx.mode = .full) (h : (pass ctx i).Returns s b s') :
    Steps ctx i s s' := by
  simp only [pass, returns_bind, returns_pure] at h
  obtain ⟨_, _, h₁, _, _, h₂, _, _, h₃, _, _, h₄, _, _, h₅, -, rfl⟩ := h
  exact (controllerPods_steps h₁).trans <| (projectedTokens_steps h₂).trans <|
    (apiRequests_steps hfull h₃).trans <| (downstreamCredentials_steps h₄).trans <|
    downstreamUse_steps h₅

end

/-- The state a closure begins with: no capability is known to hold. -/
def opening (s : ViewState) : ViewState := { s with eph := ∅ }

/-- A closure that returns is a sequence of steps. -/
theorem closure_steps (hfull : ctx.mode = .full) {s s' : ViewState}
    (h : (closure ctx i).Returns s () s') : Steps ctx i (opening s) s' := by
  rw [closure, returns_update_bind, returns_getState_bind] at h
  exact untilQuiet_rel (R := Steps ctx i) (P := fun _ => True) (fun h h' => h.trans h')
    (fun _ _ => trivial) (fun _ h => pass_steps hfull h) trivial h

end Engine

end Afterlock
