import Afterlock.Identifiers
import Afterlock.Termination

/-!
# How much a run derives

A closure derives no fact twice and takes no token twice, and there are only finitely many facts to
derive: it creates a workload of a kind for a service account at most once, so the Pods and
controllers are bounded, and with them everything else.  A run therefore derives no more than
`Sizes.derivationCap` facts, a polynomial in the sizes of what it reads, whatever the mode; with that
much room the cap is never passed (`runView_within_cap`).
-/

namespace Afterlock

open Prog Engine

/-! ### Sizes -/

/-- The sizes of what an analysis reads. -/
structure Sizes where
  pods : ℕ
  controllers : ℕ
  accounts : ℕ
  secrets : ℕ
  services : ℕ
  facts : ℕ
  audiences : ℕ
  actions : ℕ

namespace Sizes

variable (n : Sizes)

/-- The closures of a run and the changes of the environment between them, at most. -/
def stages : ℕ := 2 * n.actions + 3

/-- The controllers there are after `k` stages, at most: a stage adds one for each account. -/
def controllersAt (k : ℕ) : ℕ := n.controllers + k * n.accounts

def controllerCap : ℕ := n.controllersAt n.stages

/-- The Pods that a stage adds, at most: one for each account, and every time a controller is created
or the environment changes one for each controller. -/
def podsPerStage : ℕ := n.accounts + (n.accounts + 1) * n.controllerCap

/-- The Pods there are after `k` stages, at most; historical Pods are written as facts. -/
def podsAt (k : ℕ) : ℕ := n.pods + n.facts + k * n.podsPerStage

def podCap : ℕ := n.podsAt n.stages

/-- The versions of Secrets that are known after `k` stages, at most. -/
def versionsAt (k : ℕ) : ℕ := n.facts + k * n.secrets

def versionCap : ℕ := n.versionsAt n.stages

/-- The facts that a closure derives, at most. -/
def closureCap : ℕ :=
  n.podCap + n.controllerCap + n.podCap * n.audiences + n.secrets + n.secrets +
    n.services * n.versionCap + n.services

/-- The facts that a run derives, at most. -/
def derivationCap : ℕ := n.stages * n.closureCap

variable {n} {j k : ℕ}

lemma controllersAt_mono (h : j ≤ k) : n.controllersAt j ≤ n.controllersAt k :=
  Nat.add_le_add_left (Nat.mul_le_mul_right _ h) _

lemma podsAt_mono (h : j ≤ k) : n.podsAt j ≤ n.podsAt k :=
  Nat.add_le_add_left (Nat.mul_le_mul_right _ h) _

lemma versionsAt_mono (h : j ≤ k) : n.versionsAt j ≤ n.versionsAt k :=
  Nat.add_le_add_left (Nat.mul_le_mul_right _ h) _

lemma controllersAt_succ : n.controllersAt (k + 1) = n.controllersAt k + n.accounts := by
  simp only [controllersAt]
  ring

lemma podsAt_succ : n.podsAt (k + 1) = n.podsAt k + n.podsPerStage := by
  simp only [podsAt]
  ring

lemma versionsAt_succ : n.versionsAt (k + 1) = n.versionsAt k + n.secrets := by
  simp only [versionsAt]
  ring

end Sizes

/-- The sizes of the document. -/
def AnalysisInput.sizes (inp : AnalysisInput) : Sizes where
  pods := inp.inventory.pods.length
  controllers := inp.inventory.controllers.length
  accounts := inp.inventory.serviceAccounts.length
  secrets := inp.inventory.secrets.length
  services := inp.inventory.services.length
  facts := inp.initialFacts.length
  audiences := inp.audiences.length
  actions := inp.remediation.length

/-! ### What there is to derive -/

/-- The facts that the rules can derive in an environment, where `vs` are the versions of Secrets
that are or can be known. -/
def scope (inp : AnalysisInput) (vs : List String) (e : Env) : List Fact :=
  e.pods.rows.map (fun p => Fact.controlsPod p.uid) ++
    e.controllers.rows.map (fun c => Fact.controlsController c.uid) ++
    e.pods.rows.flatMap (fun p =>
      inp.audiences.map fun aud => Fact.possesses (projectedId p.uid aud)) ++
    e.secrets.rows.map (fun x => Fact.knowsSecret x.ns x.name (Text.ofInt x.version)) ++
    e.secrets.rows.map (fun x => Fact.canReadSecret x.ns x.name) ++
    e.services.rows.flatMap (fun svc => vs.map fun v => Fact.possessesDownstream svc.name v) ++
    e.services.rows.map (fun svc => Fact.canUseDownstream svc.name)

section scope

variable {inp : AnalysisInput} {vs : List String} {e e' : Env}

lemma controlsPod_mem_scope {uid : String} :
    .controlsPod uid ∈ scope inp vs e ↔ ∃ p ∈ e.pods, p.uid = uid := by
  simp [scope, Table.mem_def]

lemma controlsController_mem_scope {uid : String} :
    .controlsController uid ∈ scope inp vs e ↔ ∃ c ∈ e.controllers, c.uid = uid := by
  simp [scope, Table.mem_def]

lemma possesses_mem_scope {id : String} : .possesses id ∈ scope inp vs e ↔
    ∃ p ∈ e.pods, ∃ aud ∈ inp.audiences, projectedId p.uid aud = id := by
  simp [scope, Table.mem_def]

lemma knowsSecret_mem_scope {ns name version : String} :
    .knowsSecret ns name version ∈ scope inp vs e ↔
      ∃ x ∈ e.secrets, x.ns = ns ∧ x.name = name ∧ Text.ofInt x.version = version := by
  simp [scope, Table.mem_def]

lemma canReadSecret_mem_scope {ns name : String} : .canReadSecret ns name ∈ scope inp vs e ↔
    ∃ x ∈ e.secrets, x.ns = ns ∧ x.name = name := by
  simp [scope, Table.mem_def]

lemma possessesDownstream_mem_scope {service version : String} :
    .possessesDownstream service version ∈ scope inp vs e ↔
      version ∈ vs ∧ ∃ svc ∈ e.services, svc.name = service := by
  have h : .possessesDownstream service version ∈ scope inp vs e ↔
      ∃ svc ∈ e.services, version ∈ vs ∧ svc.name = service := by
    simp [scope, Table.mem_def]
  rw [h]
  constructor
  · rintro ⟨svc, hsvc, hv, hn⟩
    exact ⟨hv, svc, hsvc, hn⟩
  · rintro ⟨hv, svc, hsvc, hn⟩
    exact ⟨svc, hsvc, hv, hn⟩

lemma canUseDownstream_mem_scope {service : String} :
    .canUseDownstream service ∈ scope inp vs e ↔ ∃ svc ∈ e.services, svc.name = service := by
  simp [scope, Table.mem_def]

/-- There is more to derive in a larger environment. -/
lemma scope_mono (h : e.Grows e') {f : Fact} (hf : f ∈ scope inp vs e) : f ∈ scope inp vs e' := by
  cases f with
  | controlsPod uid =>
      obtain ⟨p, hp, hu⟩ := controlsPod_mem_scope.1 hf
      exact controlsPod_mem_scope.2 ⟨p, h.pods p hp, hu⟩
  | controlsController uid =>
      obtain ⟨c, hc, hu⟩ := controlsController_mem_scope.1 hf
      exact controlsController_mem_scope.2 ⟨c, h.controllers c hc, hu⟩
  | possesses id =>
      obtain ⟨p, hp, haud⟩ := possesses_mem_scope.1 hf
      exact possesses_mem_scope.2 ⟨p, h.pods p hp, haud⟩
  | knowsSecret ns name version =>
      rw [knowsSecret_mem_scope, h.secrets]
      exact knowsSecret_mem_scope.1 hf
  | canReadSecret ns name =>
      rw [canReadSecret_mem_scope, h.secrets]
      exact canReadSecret_mem_scope.1 hf
  | possessesDownstream service version =>
      rw [possessesDownstream_mem_scope, h.services]
      exact possessesDownstream_mem_scope.1 hf
  | canUseDownstream service =>
      rw [canUseDownstream_mem_scope, h.services]
      exact canUseDownstream_mem_scope.1 hf

lemma length_scope : (scope inp vs e).length = e.pods.rows.length + e.controllers.rows.length +
    e.pods.rows.length * inp.audiences.length + e.secrets.rows.length + e.secrets.rows.length +
    e.services.rows.length * vs.length + e.services.rows.length := by
  simp [scope, List.length_flatMap, add_assoc]

end scope

/-! ### The count of a closure -/

/-- A closure has no use for the fact any more: it is recorded, or the token is held and lasts as long
as one taken now. -/
def Achieved (ctx : Ctx) (s : ViewState) : Fact → Prop
  | .possesses id => holdsUntil s id (tokenExpiry ctx s.env) = true
  | f => s.recorded f = true

/-- What is true of the environments of a run and does not depend on how far it is. -/
structure EnvOf (inp : AnalysisInput) (e : Env) : Prop where
  accounts : ∀ a ∈ e.serviceAccounts, a ∈ inp.inventory.serviceAccounts
  secrets : e.secrets.rows.length ≤ inp.inventory.secrets.length
  services : e.services.rows.length ≤ inp.inventory.services.length
  podAudiences : ∀ p ∈ e.pods, ∀ aud ∈ p.tokenAudiences, aud ∈ inp.audiences
  controllerAudiences : ∀ c ∈ e.controllers, ∀ aud ∈ c.tokenAudiences, aud ∈ inp.audiences

/-- The UIDs of the Pods that a closure may create. -/
def podUids (inp : AnalysisInput) (i : ℤ) : List String :=
  inp.inventory.serviceAccounts.map fun a => modelPodUid a.ns a.name i

/-- The UIDs of the controllers that a closure may create. -/
def controllerUids (inp : AnalysisInput) (i : ℤ) : List String :=
  inp.inventory.serviceAccounts.map fun a => modelControllerUid a.ns a.name i

/-- The state in the closure of stage `k`: every derivation counted is of a fact achieved, and a
workload created pays for itself with its UID. -/
structure Tally (ctx : Ctx) (i : ℤ) (k : ℕ) (vs : List String) (s : ViewState) : Prop where
  stage : k + 1 ≤ ctx.inp.sizes.stages
  room : (ctx.inp.sizes.derivationCap : ℤ) ≤ ctx.inp.bounds.maxDerivations
  versions : vs.length ≤ ctx.inp.sizes.versionsAt (k + 1)
  env : EnvOf ctx.inp s.env
  known : ∀ ns name version, s.Has (.knowsSecret ns name version) → version ∈ vs
  current : ∀ x ∈ s.env.secrets, Text.ofInt x.version ∈ vs
  controllers : s.env.controllers.rows.length +
    (s.env.controllers.free (controllerUids ctx.inp i)).length ≤ ctx.inp.sizes.controllersAt (k + 1)
  pods : s.env.pods.rows.length + (s.env.pods.free (podUids ctx.inp i)).length +
      (s.env.controllers.free (controllerUids ctx.inp i)).length * ctx.inp.sizes.controllerCap ≤
    ctx.inp.sizes.podsAt (k + 1)
  count : ∃ fs : List Fact, fs.Nodup ∧ s.count ≤ k * ctx.inp.sizes.closureCap + fs.length ∧
    ∀ f ∈ fs, f ∈ scope ctx.inp vs s.env ∧ Achieved ctx s f

variable {ctx : Ctx} {i : ℤ} {k : ℕ} {vs : List String} {s t : ViewState}

namespace Tally

lemma length_scope_le (h : Tally ctx i k vs s) :
    (scope ctx.inp vs s.env).length ≤ ctx.inp.sizes.closureCap := by
  have hpods : s.env.pods.rows.length ≤ ctx.inp.sizes.podCap :=
    le_trans (by have := h.pods; omega) (Sizes.podsAt_mono h.stage)
  have hcontrollers : s.env.controllers.rows.length ≤ ctx.inp.sizes.controllerCap :=
    le_trans (by have := h.controllers; omega) (Sizes.controllersAt_mono h.stage)
  have hvs : vs.length ≤ ctx.inp.sizes.versionCap :=
    h.versions.trans (Sizes.versionsAt_mono h.stage)
  rw [length_scope, Sizes.closureCap]
  have hsecrets : s.env.secrets.rows.length ≤ ctx.inp.sizes.secrets := h.env.secrets
  have hservices : s.env.services.rows.length ≤ ctx.inp.sizes.services := h.env.services
  have htokens := Nat.mul_le_mul_right ctx.inp.audiences.length hpods
  have hdownstream := Nat.mul_le_mul hservices hvs
  show _ ≤ ctx.inp.sizes.podCap + ctx.inp.sizes.controllerCap +
    ctx.inp.sizes.podCap * ctx.inp.audiences.length + _ + _ + _ + _
  omega

/-- There is room for a fact that is not achieved yet. -/
lemma count_lt (h : Tally ctx i k vs s) {f : Fact} (hf : f ∈ scope ctx.inp vs s.env)
    (hnew : ¬Achieved ctx s f) : (s.count : ℤ) + 1 ≤ ctx.inp.bounds.maxDerivations := by
  obtain ⟨fs, hn, hcount, hfs⟩ := h.count
  have hsub : f :: fs ⊆ scope ctx.inp vs s.env := by
    intro g hg
    rcases List.mem_cons.1 hg with rfl | hg
    · exact hf
    · exact (hfs g hg).1
  have hnot : f ∉ fs := fun hmem => hnew (hfs f hmem).2
  have hlen : (f :: fs).length ≤ ctx.inp.sizes.closureCap :=
    (List.subperm_of_subset (List.nodup_cons.2 ⟨hnot, hn⟩) hsub).length_le.trans h.length_scope_le
  have hstage := Nat.mul_le_mul_right ctx.inp.sizes.closureCap h.stage
  rw [Nat.succ_mul] at hstage
  rw [List.length_cons] at hlen
  have hroom := h.room
  rw [Sizes.derivationCap] at hroom
  have : s.count + 1 ≤ ctx.inp.sizes.stages * ctx.inp.sizes.closureCap := by omega
  exact le_trans (by exact_mod_cast this) hroom

/-! What happens in a closure keeps the tally. -/

lemma congr (h : Tally ctx i k vs s) (henv : t.env = s.env)
    (hknown : ∀ ns name version, t.Has (.knowsSecret ns name version) → version ∈ vs)
    (hcount : ∃ fs : List Fact, fs.Nodup ∧
      t.count ≤ k * ctx.inp.sizes.closureCap + fs.length ∧
      ∀ f ∈ fs, f ∈ scope ctx.inp vs s.env ∧ Achieved ctx t f) : Tally ctx i k vs t where
  stage := h.stage
  room := h.room
  versions := h.versions
  env := henv ▸ h.env
  known := hknown
  current := henv ▸ h.current
  controllers := henv ▸ h.controllers
  pods := henv ▸ h.pods
  count := henv ▸ hcount

lemma note (h : Tally ctx i k vs s) (u : UnknownEntry) : Tally ctx i k vs (s.note u) := by
  refine h.congr ViewState.note_env (fun ns name version hk => ?_) ?_
  · exact h.known ns name version (ViewState.has_note.1 hk)
  · obtain ⟨fs, hn, hcount, hfs⟩ := h.count
    refine ⟨fs, hn, by rwa [ViewState.note_count], fun f hf => ⟨(hfs f hf).1, ?_⟩⟩
    have := (hfs f hf).2
    cases f <;> simpa [Achieved, ViewState.recorded, holdsUntil] using this

end Tally

lemma achieved_iff {f : Fact} (hf : ∀ id, f ≠ .possesses id) :
    Achieved ctx s f ↔ s.recorded f = true := by
  cases f with
  | possesses id => exact absurd rfl (hf id)
  | _ => exact Iff.rfl

lemma ViewState.recorded_record {d : Derivation} {f : Fact} (h : s.recorded f = true ∨ f = d.fact) :
    (s.record d).recorded f = true := by
  unfold recorded record at *
  have hput : ∀ {tbl : Table Derivation.fact}, tbl.contains f = true ∨ f = d.fact →
      (tbl.put d).contains f = true := by
    intro tbl htbl
    rw [Table.contains_iff, Table.exists_mem_put]
    exact htbl.symm.imp Eq.symm Table.contains_iff.1
  rcases h with h | rfl
  · split_ifs at h ⊢ <;> first | exact h | exact hput (.inl h)
  · split_ifs <;> exact hput (.inr rfl)

/-- A fact that is recorded for the first time is counted. -/
lemma Tally.record (h : Tally ctx i k vs s) {d : Derivation} (hf : d.fact ∈ scope ctx.inp vs s.env)
    (hne : ∀ id, d.fact ≠ .possesses id) (hnew : s.recorded d.fact = false) :
    Tally ctx i k vs (s.record d) := by
  refine h.congr ViewState.record_env (fun ns name version hk => ?_) ?_
  · rcases ViewState.has_record.1 hk with hk | ⟨-, hk⟩
    · exact h.known ns name version hk
    · rw [← hk] at hf
      obtain ⟨x, hx, -, -, rfl⟩ := knowsSecret_mem_scope.1 hf
      exact h.current x hx
  · obtain ⟨fs, hn, hcount, hfs⟩ := h.count
    have hnot : d.fact ∉ fs := by
      intro hmem
      have := (achieved_iff hne).1 (hfs _ hmem).2
      rw [hnew] at this
      cases this
    refine ⟨d.fact :: fs, List.nodup_cons.2 ⟨hnot, hn⟩, ?_, fun f hmem => ?_⟩
    · rw [ViewState.record_count, List.length_cons]
      omega
    rcases List.mem_cons.1 hmem with rfl | hmem
    · exact ⟨hf, (achieved_iff hne).2 (ViewState.recorded_record (.inr rfl))⟩
    · refine ⟨(hfs f hmem).1, ?_⟩
      have hold := (hfs f hmem).2
      by_cases hp : ∃ id, f = .possesses id
      · obtain ⟨id, rfl⟩ := hp
        simpa [Achieved, holdsUntil] using hold
      · have hp' : ∀ id, f ≠ .possesses id := fun id hid => hp ⟨id, hid⟩
        exact (achieved_iff hp').2 (ViewState.recorded_record (.inl ((achieved_iff hp').1 hold)))

/-- A token that is taken is counted: from now on one that lasts as long is held. -/
lemma Tally.token (h : Tally ctx i k vs s) {pod : Pod} {sa : ServiceAccount} {aud : String}
    (hp : pod ∈ s.env.pods) (haud : aud ∈ ctx.inp.audiences)
    (hnew : holdsUntil s (projectedId pod.uid aud) (tokenExpiry ctx s.env) = false) :
    Tally ctx i k vs (withToken s (projectedToken pod sa aud (tokenExpiry ctx s.env))
      (tokenDerivation i pod sa aud (tokenExpiry ctx s.env))) := by
  refine h.congr rfl (fun ns name version hk => ?_) ?_
  · obtain ⟨d, hd, hdf⟩ := hk
    rcases Table.mem_put.1 hd with rfl | ⟨hd, -⟩
    · cases hdf
    · exact h.known ns name version ⟨d, hd, hdf⟩
  · obtain ⟨fs, hn, hcount, hfs⟩ := h.count
    -- the token has not been counted before, since nothing under its id holds so long
    have hnot : .possesses (projectedId pod.uid aud) ∉ fs := by
      intro hmem
      have hold : holdsUntil s (projectedId pod.uid aud) (tokenExpiry ctx s.env) = true :=
        (hfs _ hmem).2
      rw [hnew] at hold
      cases hold
    -- what has been counted still holds with the token in place
    have hself : ∀ id, id = projectedId pod.uid aud ∨
        holdsUntil s id (tokenExpiry ctx s.env) = true →
        holdsUntil (withToken s (projectedToken pod sa aud (tokenExpiry ctx s.env))
          (tokenDerivation i pod sa aud (tokenExpiry ctx s.env))) id (tokenExpiry ctx s.env) =
          true := by
      intro id hid
      by_cases he : id = projectedId pod.uid aud
      · subst he
        simp [holdsUntil, withToken, projectedToken]
      · have : (s.creds.put (projectedToken pod sa aud (tokenExpiry ctx s.env))).get? id =
            s.creds.get? id := Table.get?_put_of_ne he
        simpa [holdsUntil, withToken, this] using hid.resolve_left he
    refine ⟨_ :: fs, List.nodup_cons.2 ⟨hnot, hn⟩, ?_, fun f hmem => ?_⟩
    · show s.count + 1 ≤ _
      rw [List.length_cons]
      omega
    rcases List.mem_cons.1 hmem with rfl | hmem
    · exact ⟨possesses_mem_scope.2 ⟨pod, hp, aud, haud, rfl⟩, hself _ (.inl rfl)⟩
    · refine ⟨(hfs f hmem).1, ?_⟩
      have hold := (hfs f hmem).2
      by_cases hpos : ∃ id, f = .possesses id
      · obtain ⟨id, rfl⟩ := hpos
        exact hself id (.inr hold)
      · have hpos' : ∀ id, f ≠ .possesses id := fun id hid => hpos ⟨id, hid⟩
        rw [achieved_iff hpos'] at hold ⊢
        unfold ViewState.recorded at hold ⊢
        split_ifs at hold ⊢
        · rw [ViewState.contains_facts_iff] at hold ⊢
          exact has_withToken hold
        · exact hold

/-! ### Environments -/

lemma length_reconcileEach (cs : List Controller) (e : Env) :
    (reconcileEach cs e).1.pods.rows.length ≤ e.pods.rows.length + cs.length := by
  induction cs generalizing e with
  | nil => exact le_rfl
  | cons c cs ih =>
      have hc : (reconcileController e c).1.pods.rows.length ≤ e.pods.rows.length + 1 := by
        rcases reconcileController_cases e c with ⟨-, h⟩ | ⟨k, -, -, -, -, h⟩ <;> rw [h]
        · exact Nat.le_succ _
        · exact Table.length_put_le
      rw [reconcileEach_cons_fst, List.length_cons]
      have := ih (reconcileController e c).1
      omega

/-- Reconciliation adds at most one Pod for each controller. -/
lemma length_reconcileControllers (e : Env) :
    (reconcileControllers e).1.pods.rows.length ≤
      e.pods.rows.length + e.controllers.rows.length := by
  have h := length_reconcileEach (Text.sortedBy Controller.uid e.controllers.rows) e
  rwa [(Text.sortedBy_perm Controller.uid e.controllers.rows).length_eq] at h

namespace EnvOf

variable {inp : AnalysisInput} {e e' : Env}

/-- Growing keeps what is true of an environment, if the new objects have known audiences. -/
lemma grows (h : EnvOf inp e) (hg : e.Grows e')
    (hpods : ∀ p ∈ e'.pods, p ∉ e.pods → ∀ aud ∈ p.tokenAudiences, aud ∈ inp.audiences)
    (hcontrollers : ∀ c ∈ e'.controllers, c ∉ e.controllers → ∀ aud ∈ c.tokenAudiences,
      aud ∈ inp.audiences) : EnvOf inp e' where
  accounts := hg.serviceAccounts ▸ h.accounts
  secrets := hg.secrets ▸ h.secrets
  services := hg.services ▸ h.services
  podAudiences p hp := by
    by_cases hmem : p ∈ e.pods
    · exact h.podAudiences p hmem
    · exact hpods p hp hmem
  controllerAudiences c hc := by
    by_cases hmem : c ∈ e.controllers
    · exact h.controllerAudiences c hmem
    · exact hcontrollers c hc hmem

lemma reconcile (h : EnvOf inp e) : EnvOf inp (reconcileControllers e).1 := by
  refine h.grows (reconcileControllers_grows e) (fun p hp hnot => ?_) fun c hc hnot => ?_
  · rcases mem_reconcileControllers_pods hp with hp | ⟨c, hc, k, rfl, -⟩
    · exact absurd hp hnot
    · exact h.controllerAudiences c hc
  · rw [reconcileControllers_controllers] at hc
    exact absurd hc hnot

end EnvOf

/-- The UID of a Pod that is created pays for the Pod. -/
lemma Tally.createdPod (h : Tally ctx i k vs s) {ns sa : String}
    (ha : ∃ a ∈ s.env.serviceAccounts, a.key = (ns, sa))
    (hfree : s.env.pods.contains (modelPodUid ns sa i) = false) :
    Tally ctx i k vs (withPod s (createdPod ns sa (modelPodUid ns sa i))) where
  stage := h.stage
  room := h.room
  versions := h.versions
  env := h.env.grows (withPod_grows hfree)
    (fun p hp hnot aud haud => by
      rcases (mem_put_of_contains_eq_false hfree).1 hp with rfl | hp
      · cases haud
      · exact absurd hp hnot)
    fun c hc hnot => absurd hc hnot
  known := h.known
  current := h.current
  controllers := h.controllers
  pods := by
    obtain ⟨a, ha, hk⟩ := ha
    have huid : modelPodUid ns sa i ∈ podUids ctx.inp i := by
      cases hk
      exact List.mem_map.2 ⟨a, h.env.accounts a ha, rfl⟩
    -- one Pod more, one free UID less
    have h1 : (s.env.pods.put (Engine.createdPod ns sa (modelPodUid ns sa i))).rows.length ≤ _ :=
      Table.length_put_le
    have h2 := Table.length_free_put (x := Engine.createdPod ns sa (modelPodUid ns sa i)) huid hfree
    have h3 := h.pods
    show (s.env.pods.put (Engine.createdPod ns sa (modelPodUid ns sa i))).rows.length +
      ((s.env.pods.put (Engine.createdPod ns sa (modelPodUid ns sa i))).free
        (podUids ctx.inp i)).length +
      (s.env.controllers.free (controllerUids ctx.inp i)).length * ctx.inp.sizes.controllerCap ≤ _
    omega
  count := by
    obtain ⟨fs, hn, hcount, hfs⟩ := h.count
    refine ⟨fs, hn, hcount, fun f hf => ⟨scope_mono (withPod_grows hfree) (hfs f hf).1, ?_⟩⟩
    have := (hfs f hf).2
    cases f <;> exact this

/-- The UID of a controller that is created pays for the controller, and for the Pods that the
controllers recreate then. -/
lemma Tally.createdController (h : Tally ctx i k vs s) {ns sa : String}
    (ha : ∃ a ∈ s.env.serviceAccounts, a.key = (ns, sa))
    (hfree : s.env.controllers.contains (modelControllerUid ns sa i) = false) :
    Tally ctx i k vs (withController s (createdController ns sa (modelControllerUid ns sa i))) := by
  obtain ⟨a, ha, hk⟩ := ha
  have huid : modelControllerUid ns sa i ∈ controllerUids ctx.inp i := by
    cases hk
    exact List.mem_map.2 ⟨a, h.env.accounts a ha, rfl⟩
  set c := Engine.createdController ns sa (modelControllerUid ns sa i) with hc
  have hgrow : s.env.Grows (Env.addController s.env c) := addController_grows hfree
  have hctl : (Env.addController s.env c).controllers = s.env.controllers.put c :=
    reconcileControllers_controllers _
  have h1 : (s.env.controllers.put c).rows.length ≤ s.env.controllers.rows.length + 1 :=
    Table.length_put_le
  have h2 : ((s.env.controllers.put c).free (controllerUids ctx.inp i)).length + 1 ≤ _ :=
    Table.length_free_put huid hfree
  have h3 : (s.env.controllers.put c).rows.length +
      ((s.env.controllers.put c).free (controllerUids ctx.inp i)).length ≤
        ctx.inp.sizes.controllersAt (k + 1) := by
    have := h.controllers
    omega
  refine ⟨h.stage, h.room, h.versions, ?_, h.known, ?_, ?_, ?_, ?_⟩
  · refine EnvOf.reconcile (h.env.grows ?_ (fun p hp hnot => absurd hp hnot) fun d hd hnot => ?_)
    · exact ⟨rfl, rfl, rfl, rfl, rfl, rfl, rfl, fun _ hp => hp, fun d hd =>
        (Table.mem_put_of_fresh (Table.contains_eq_false_iff.1 hfree)).2 (.inr hd)⟩
    · rcases Table.mem_put.1 hd with rfl | ⟨hd, -⟩
      · intro aud haud
        cases haud
      · exact absurd hd hnot
  · exact hgrow.secrets.symm ▸ h.current
  · show (Env.addController s.env c).controllers.rows.length +
      ((Env.addController s.env c).controllers.free (controllerUids ctx.inp i)).length ≤ _
    rw [hctl]
    exact h3
  · show (Env.addController s.env c).pods.rows.length +
      ((Env.addController s.env c).pods.free (podUids ctx.inp i)).length +
      ((Env.addController s.env c).controllers.free (controllerUids ctx.inp i)).length *
        ctx.inp.sizes.controllerCap ≤ _
    have h4 : (Env.addController s.env c).pods.rows.length ≤
        s.env.pods.rows.length + (s.env.controllers.put c).rows.length :=
      length_reconcileControllers _
    have h5 : ((Env.addController s.env c).pods.free (podUids ctx.inp i)).length ≤
        (s.env.pods.free (podUids ctx.inp i)).length := Table.length_free_mono hgrow.pods
    have h6 : (s.env.controllers.put c).rows.length ≤ ctx.inp.sizes.controllerCap :=
      le_trans (by omega) (Sizes.controllersAt_mono h.stage)
    -- the Pods that are recreated are paid for with the UID of the controller
    have h7 := Nat.mul_le_mul_right ctx.inp.sizes.controllerCap h2
    rw [Nat.succ_mul] at h7
    have h8 := h.pods
    rw [hctl]
    omega
  · obtain ⟨fs, hn, hcount, hfs⟩ := h.count
    refine ⟨fs, hn, hcount, fun f hf => ⟨scope_mono hgrow (hfs f hf).1, ?_⟩⟩
    have hach := (hfs f hf).2
    have htime : tokenExpiry ctx (Env.addController s.env c) = tokenExpiry ctx s.env := by
      rw [tokenExpiry, tokenExpiry, hgrow.time]
    cases f with
    | possesses id =>
        show holdsUntil s id (tokenExpiry ctx (Env.addController s.env c)) = true
        rw [htime]
        exact hach
    | _ => exact hach

/-! ### The pieces of a round -/

/-- The program returns, keeps the tally and only makes the environment grow. -/
def Steady {α : Type} (ctx : Ctx) (i : ℤ) (k : ℕ) (vs : List String) (m : EngineM α)
    (s : ViewState) : Prop :=
  m.Succeeds s fun t => Tally ctx i k vs t ∧ s.env.Grows t.env

namespace Steady

variable {α β : Type}

lemma pure (h : Tally ctx i k vs s) (a : α) : Steady ctx i k vs (Pure.pure a : EngineM α) s :=
  succeeds_pure ⟨h, Env.Grows.refl _⟩

lemma getState_bind {f : ViewState → EngineM β} (h : Steady ctx i k vs (f s) s) :
    Steady ctx i k vs (getState >>= f) s :=
  succeeds_getState_bind.2 h

lemma bind {m : EngineM α} {f : α → EngineM β} (hm : Steady ctx i k vs m s)
    (hf : ∀ a t, Tally ctx i k vs t → s.env.Grows t.env → Steady ctx i k vs (f a) t) :
    Steady ctx i k vs (m >>= f) s :=
  Succeeds.bind hm fun a t ht => (hf a t ht.1 ht.2).mono fun _ hu => ⟨hu.1, ht.2.trans hu.2⟩

lemma ite {c : Prop} [Decidable c] {m n : EngineM α} (hm : c → Steady ctx i k vs m s)
    (hn : ¬c → Steady ctx i k vs n s) : Steady ctx i k vs (if c then m else n) s :=
  succeeds_ite hm hn

/-- A loop is steady if its turns are, in whatever the environment has grown to. -/
lemma forEach {xs : List α} {body : α → EngineM Bool} (h : Tally ctx i k vs s)
    (hbody : ∀ x ∈ xs, ∀ t, Tally ctx i k vs t → s.env.Grows t.env →
      Steady ctx i k vs (body x) t) : Steady ctx i k vs (Prog.forEach xs body) s :=
  succeeds_forEach (fun x hx t ht => (hbody x hx t ht.1 ht.2).mono fun _ hu =>
    ⟨hu.1, ht.2.trans hu.2⟩) ⟨h, Env.Grows.refl _⟩

/-- Adding something in scope never passes the cap. -/
lemma add (h : Tally ctx i k vs s) {d : Derivation} (hf : d.fact ∈ scope ctx.inp vs s.env)
    (hne : ∀ id, d.fact ≠ .possesses id) : Steady ctx i k vs (Engine.add ctx d) s := by
  by_cases hr : s.recorded d.fact = true
  · exact ⟨false, s, returns_add.2 (.inl ⟨hr, rfl, rfl⟩), h, Env.Grows.refl _⟩
  · have hnew : s.recorded d.fact = false := by simpa using hr
    have hroom := h.count_lt hf fun hach => hr ((achieved_iff hne).1 hach)
    refine ⟨true, s.record d, returns_add.2 (.inr ⟨hnew, hroom, rfl, rfl⟩), h.record hf hne hnew, ?_⟩
    rw [ViewState.record_env]
    exact Env.Grows.refl _

lemma controllerPods (h : Tally ctx i k vs s) :
    Steady ctx i k vs (Engine.controllerPods ctx i) s := by
  refine getState_bind (forEach h fun c _ t ht _ => getState_bind (forEach ht fun p hp u hu hg => ?_))
  refine ite (fun _ => add hu ?_ fun id hid => by cases hid) fun _ => pure hu false
  exact controlsPod_mem_scope.2 ⟨p, hg.pods p (mem_sortedPods.1 hp), rfl⟩

lemma obtainToken (h : Tally ctx i k vs s) {pod : Pod} {sa : ServiceAccount} {aud : String}
    (hp : pod ∈ s.env.pods) (haud : aud ∈ ctx.inp.audiences) :
    Steady ctx i k vs (Engine.obtainToken ctx i pod sa aud) s := by
  by_cases hheld : holdsUntil s (projectedId pod.uid aud) (tokenExpiry ctx s.env) = true
  · exact ⟨false, s, returns_obtainToken.2 (.inl ⟨hheld, rfl, rfl⟩), h, Env.Grows.refl _⟩
  · have hnew := Bool.not_eq_true _ ▸ hheld
    have hroom := h.count_lt (possesses_mem_scope.2 ⟨pod, hp, aud, haud, rfl⟩) hheld
    exact ⟨true, _, returns_obtainToken.2 (.inr ⟨hnew, hroom, rfl, rfl⟩), h.token hp haud hnew,
      Env.Grows.refl _⟩

lemma projectedTokens (h : Tally ctx i k vs s) :
    Steady ctx i k vs (Engine.projectedTokens ctx i) s := by
  refine getState_bind (forEach h fun u _ t ht _ => getState_bind ?_)
  split
  · exact pure ht false
  next pod hpod =>
    obtain ⟨hmem, rfl⟩ := Table.get?_eq_some_iff.1 hpod
    split
    · exact pure ht false
    · refine forEach ht fun aud haud v hv hg => obtainToken hv (hg.pods pod hmem) ?_
      unfold tokenAudiences at haud
      split_ifs at haud
      · exact List.mem_singleton.1 haud ▸ List.mem_cons_self
      · exact ht.env.podAudiences pod hmem aud haud

lemma recordUnknown (h : Tally ctx i k vs s) (u : UnknownEntry) :
    Steady ctx i k vs (Engine.recordUnknown u) s :=
  ⟨(), _, returns_recordUnknown.2 rfl, h.note u, by
    rw [ViewState.note_env]
    exact Env.Grows.refl _⟩

lemma usable (h : Tally ctx i k vs s) (cred : CredentialSpec) :
    Steady ctx i k vs (Engine.usable ctx cred) s := by
  refine getState_bind (ite (fun _ => ?_) fun _ => ite (fun _ => pure h _) fun _ => pure h _)
  exact bind (recordUnknown h _) fun _ t ht _ => pure ht none

lemma createWorkload (h : Tally ctx i k vs s) {cid : String} {ucond : Condition}
    {user ns sa : String} {via : List String} {kind : WorkloadKind}
    (ha : ∃ a ∈ s.env.serviceAccounts, a.key = (ns, sa)) :
    Steady ctx i k vs (Engine.createWorkload ctx i cid ucond user ns via kind sa) s := by
  refine getState_bind (ite (fun _ => pure h false) fun _ => ?_)
  cases hadm : (admissionDecision s.env user ns sa).outcome with
  | unsupported =>
      simp only [hadm]
      exact bind (recordUnknown h _) fun _ t ht _ => pure ht false
  | deny =>
      simp only [hadm]
      exact pure h false
  | allow =>
      simp only [hadm]
      cases kind with
      | pod =>
          -- the new Pod makes room for its own fact
          refine ite (fun _ => pure h false) fun hfree => succeeds_update_bind.2 ?_
          have hfree : s.env.pods.contains (modelPodUid ns sa i) = false := by simpa using hfree
          have ht := h.createdPod ha hfree
          have hscope : .controlsPod (modelPodUid ns sa i) ∈ scope ctx.inp vs
              (withPod s (createdPod ns sa (modelPodUid ns sa i))).env :=
            controlsPod_mem_scope.2 ⟨createdPod ns sa _, Table.mem_put_self, rfl⟩
          refine (add ht hscope fun id hid => by cases hid).mono fun u hu => ⟨hu.1, ?_⟩
          exact (withPod_grows hfree).trans hu.2
      | controller =>
          refine ite (fun _ => pure h false) fun hfree => succeeds_update_bind.2 ?_
          have hfree : s.env.controllers.contains (modelControllerUid ns sa i) = false := by
            simpa using hfree
          have ht := h.createdController ha hfree
          have hscope : .controlsController (modelControllerUid ns sa i) ∈ scope ctx.inp vs
              (withController s (createdController ns sa (modelControllerUid ns sa i))).env :=
            controlsController_mem_scope.2
              ⟨createdController ns sa _, createdController_mem_addController _ _, rfl⟩
          refine (add ht hscope fun id hid => by cases hid).mono fun u hu => ⟨hu.1, ?_⟩
          exact (addController_grows hfree).trans hu.2

lemma createWorkloads (h : Tally ctx i k vs s) {cid : String} {ucond : Condition}
    {user ns : String} {kind : WorkloadKind} :
    Steady ctx i k vs (Engine.createWorkloads ctx i cid ucond user ns kind) s := by
  refine getState_bind (ite (fun _ => pure h false) fun _ => ?_)
  refine forEach h fun sa hsa t ht hg => createWorkload ht ?_
  rw [hg.serviceAccounts]
  exact mem_accountsIn.1 hsa

lemma execPod (h : Tally ctx i k vs s) {cid : String} {ucond : Condition} {user : String} {p : Pod}
    (hp : p ∈ s.env.pods) : Steady ctx i k vs (Engine.execPod ctx i cid ucond user p) s := by
  refine getState_bind (ite (fun _ => pure h false) fun _ => ?_)
  exact add h (controlsPod_mem_scope.2 ⟨p, hp, rfl⟩) fun id hid => by cases hid

lemma readSecret (h : Tally ctx i k vs s) {cid : String} {ucond : Condition} {user : String}
    {sec : Secret} (hs : sec ∈ s.env.secrets) :
    Steady ctx i k vs (Engine.readSecret ctx i cid ucond user sec) s := by
  refine getState_bind ?_
  split
  · exact pure h false
  refine bind (add h (knowsSecret_mem_scope.2 ⟨sec, hs, rfl, rfl, rfl⟩) fun id hid => by cases hid)
    fun a t ht hg => ?_
  refine bind (add ht (canReadSecret_mem_scope.2 ⟨sec, hg.secrets ▸ hs, rfl, rfl⟩)
    fun id hid => by cases hid) fun b u hu _ => pure hu _

lemma credentialRequests (h : Tally ctx i k vs s) (cid : String) :
    Steady ctx i k vs (Engine.credentialRequests ctx i cid) s := by
  refine getState_bind ?_
  split
  · exact pure h false
  refine bind (usable h _) fun r t ht _ => ?_
  split
  · exact pure ht false
  refine bind (forEach ht fun ns _ u hu _ => ?_) fun a u hu _ => getState_bind ?_
  · exact bind (createWorkloads hu) fun a v hv _ =>
      bind (createWorkloads hv) fun b w hw _ => pure hw _
  refine bind (forEach hu fun p hp v hv hg => execPod hv (hg.pods p (mem_sortedPods.1 hp)))
    fun b v hv _ => getState_bind ?_
  refine bind (forEach hv fun x hx w hw hg => readSecret hw ?_) fun c w hw _ => pure hw _
  rw [hg.secrets]
  exact mem_sortedSecrets.1 hx

lemma apiRequests (h : Tally ctx i k vs s) : Steady ctx i k vs (Engine.apiRequests ctx i) s :=
  getState_bind (forEach h fun c _ _ ht _ => credentialRequests ht c)

lemma downstreamCredentials (h : Tally ctx i k vs s) :
    Steady ctx i k vs (Engine.downstreamCredentials ctx i) s := by
  refine getState_bind (forEach h fun x hx t ht _ => getState_bind (forEach ht
    fun svc hsvc u hu hg => add hu ?_ fun id hid => by cases hid))
  have hver : x.2.2 ∈ vs := h.known _ _ _ (mem_sortedKnown.1 hx)
  refine possessesDownstream_mem_scope.2 ⟨hver, svc, ?_, rfl⟩
  rw [hg.services]
  exact (mem_secretsFeeding.1 hsvc).1

lemma downstreamUse (h : Tally ctx i k vs s) : Steady ctx i k vs (Engine.downstreamUse ctx i) s := by
  refine getState_bind (forEach h fun x hx t ht _ => getState_bind ?_)
  split
  next svc version hsvc hver =>
    refine ite (fun _ => add ht ?_ fun id hid => by cases hid) fun _ => pure ht false
    exact canUseDownstream_mem_scope.2 ⟨svc, (Table.get?_eq_some_iff.1 hsvc).1, rfl⟩
  · exact pure ht false

lemma pass (h : Tally ctx i k vs s) : Steady ctx i k vs (Engine.pass ctx i) s := by
  refine bind (controllerPods h) fun a t ht _ => bind (projectedTokens ht) fun b u hu _ => ?_
  refine bind (apiRequests hu) fun c v hv _ => bind (downstreamCredentials hv) fun d w hw _ => ?_
  exact bind (downstreamUse hw) fun e x hx _ => pure hx _

/-- A closure reaches a round that changes nothing. -/
theorem closure (h : Tally ctx i k vs (opening s)) : (Engine.closure ctx i).Succeeds s
    fun t => Tally ctx i k vs t ∧ s.env.Grows t.env := by
  rw [Engine.closure, succeeds_update_bind, succeeds_getState_bind]
  refine succeeds_untilQuiet (fun t ht => (pass ht.1).mono fun u hu => ⟨hu.1, ht.2.trans hu.2⟩)
    ⟨h, Env.Grows.refl _⟩ fun t hout => ?_
  -- the bound on the rounds is never the reason to stop
  have hstop := @closure_stopsOnly ctx i s .outOfFuel t ?_
  · cases hstop
  · rw [Engine.closure, bind_stops_iff]
    refine .inr ⟨(), _, returns_update.2 rfl, ?_⟩
    rw [bind_stops_iff]
    exact .inr ⟨_, _, returns_getState.2 ⟨rfl, rfl⟩, hout⟩

end Steady

/-! ### The stages of a run -/

/-- The state after at most `k` stages of a run. -/
structure Between (inp : AnalysisInput) (k : ℕ) (s : ViewState) : Prop where
  env : EnvOf inp s.env
  count : s.count ≤ k * inp.sizes.closureCap
  pods : s.env.pods.rows.length ≤ inp.sizes.podsAt k
  controllers : s.env.controllers.rows.length ≤ inp.sizes.controllersAt k
  known : ∃ vs : List String, vs.length ≤ inp.sizes.versionsAt k ∧
    ∀ ns name version, s.Has (.knowsSecret ns name version) → version ∈ vs

namespace Between

variable {inp : AnalysisInput}

lemma mono (h : Between inp k s) {j : ℕ} (hkj : k ≤ j) : Between inp j s where
  env := h.env
  count := h.count.trans (Nat.mul_le_mul_right _ hkj)
  pods := h.pods.trans (Sizes.podsAt_mono hkj)
  controllers := h.controllers.trans (Sizes.controllersAt_mono hkj)
  known := by
    obtain ⟨vs, hlen, hvs⟩ := h.known
    exact ⟨vs, hlen.trans (Sizes.versionsAt_mono hkj), hvs⟩

/-- A closure begins with the UIDs of its workloads to pay with. -/
lemma tally (h : Between ctx.inp k s) (hk : k + 1 ≤ ctx.inp.sizes.stages)
    (hroom : (ctx.inp.sizes.derivationCap : ℤ) ≤ ctx.inp.bounds.maxDerivations) (i : ℤ) :
    ∃ vs, Tally ctx i k vs (opening s) := by
  obtain ⟨vs, hlen, hvs⟩ := h.known
  have hpodUids : (s.env.pods.free (podUids ctx.inp i)).length ≤ ctx.inp.sizes.accounts :=
    Table.length_free_le.trans (by simp [podUids, AnalysisInput.sizes])
  have hcontrollerUids : (s.env.controllers.free (controllerUids ctx.inp i)).length ≤
      ctx.inp.sizes.accounts :=
    Table.length_free_le.trans (by simp [controllerUids, AnalysisInput.sizes])
  refine ⟨vs ++ s.env.secrets.rows.map fun x => Text.ofInt x.version, hk, hroom, ?_, h.env, ?_, ?_,
    ?_, ?_, ?_⟩
  · have hsecrets : s.env.secrets.rows.length ≤ ctx.inp.sizes.secrets := h.env.secrets
    rw [List.length_append, List.length_map, Sizes.versionsAt_succ]
    omega
  · exact fun ns name version hv => List.mem_append_left _ (hvs ns name version hv)
  · exact fun x hx => List.mem_append_right _ (List.mem_map.2 ⟨x, hx, rfl⟩)
  · show s.env.controllers.rows.length + _ ≤ _
    rw [Sizes.controllersAt_succ]
    exact Nat.add_le_add h.controllers hcontrollerUids
  · show s.env.pods.rows.length + (s.env.pods.free (podUids ctx.inp i)).length +
      (s.env.controllers.free (controllerUids ctx.inp i)).length * ctx.inp.sizes.controllerCap ≤ _
    have hmul := Nat.mul_le_mul_right ctx.inp.sizes.controllerCap hcontrollerUids
    have hpods := h.pods
    rw [Sizes.podsAt_succ, Sizes.podsPerStage, Nat.succ_mul]
    omega
  · exact ⟨[], List.nodup_nil, h.count, fun f hf => by cases hf⟩

end Between

/-- What a closure has counted is in scope at its end. -/
lemma Tally.between (h : Tally ctx i k vs s) : Between ctx.inp (k + 1) s where
  env := h.env
  count := by
    obtain ⟨fs, hn, hcount, hfs⟩ := h.count
    have hlen := (List.subperm_of_subset hn fun f hf => (hfs f hf).1).length_le.trans
      h.length_scope_le
    rw [Nat.succ_mul]
    omega
  pods := le_trans (by omega) h.pods
  controllers := le_trans (Nat.le_add_right _ _) h.controllers
  known := ⟨vs, h.versions, h.known⟩

namespace Between

variable {inp : AnalysisInput}

lemma closure (h : Between ctx.inp k s) (hk : k + 1 ≤ ctx.inp.sizes.stages)
    (hroom : (ctx.inp.sizes.derivationCap : ℤ) ≤ ctx.inp.bounds.maxDerivations) (i : ℤ) :
    (Engine.closure ctx i).Succeeds s (Between ctx.inp (k + 1)) := by
  obtain ⟨vs, ht⟩ := h.tally hk hroom i
  exact (Steady.closure ht).mono fun t ht => ht.1.between

/-- Controllers recreate at most one Pod each. -/
lemma reconcile (h : Between inp k s) (hk : k ≤ inp.sizes.stages) :
    Between inp (k + 1) { s with env := (reconcileControllers s.env).1 } where
  env := h.env.reconcile
  count := h.count.trans (Nat.mul_le_mul_right _ (Nat.le_succ k))
  pods := by
    have hcap := h.controllers.trans (Sizes.controllersAt_mono hk)
    have hlen := length_reconcileControllers s.env
    have hpods := h.pods
    show (reconcileControllers s.env).1.pods.rows.length ≤ _
    rw [Sizes.podsAt_succ, Sizes.podsPerStage, Nat.succ_mul]
    rw [← Sizes.controllerCap] at hcap
    omega
  controllers := by
    show (reconcileControllers s.env).1.controllers.rows.length ≤ _
    rw [reconcileControllers_controllers]
    exact h.controllers.trans (Sizes.controllersAt_mono (Nat.le_succ k))
  known := (h.mono (Nat.le_succ k)).known

end Between

/-- A rotation replaces a Secret and a service. -/
lemma length_rotate_secrets (e : Env) (svc : DownstreamService) :
    (rotate e svc).1.secrets.rows.length ≤ e.secrets.rows.length := by
  unfold rotate
  cases hget : e.secrets.get? (svc.sourceNs, svc.sourceSecret) with
  | none =>
      simp only
      split_ifs <;> exact le_rfl
  | some x =>
      have hx := (Table.get?_eq_some_iff.1 hget).1
      simp only
      split_ifs <;> exact Table.length_put_le_of_mem hx rfl

lemma length_rotate_services {e : Env} {svc : DownstreamService} (h : svc ∈ e.services) :
    (rotate e svc).1.services.rows.length ≤ e.services.rows.length := by
  unfold rotate
  simp only
  split_ifs <;> exact Table.length_put_le_of_mem h rfl

/-- A defender action adds nothing. -/
lemma EnvOf.apply {inp : AnalysisInput} {e : Env} (h : EnvOf inp e) (a : DefenderAction) :
    EnvOf inp (applyDefenderAction e a).1 where
  accounts x hx := h.accounts x (mem_applyDefenderAction_serviceAccounts hx)
  secrets := by
    refine le_trans ?_ h.secrets
    cases a with
    | rotateDownstreamCredential service =>
        simp only [applyDefenderAction]
        split
        · exact le_rfl
        · exact length_rotate_secrets e _
    | _ => exact le_rfl
  services := by
    refine le_trans ?_ h.services
    cases a with
    | rotateDownstreamCredential service =>
        simp only [applyDefenderAction]
        split
        · exact le_rfl
        next svc hsvc => exact length_rotate_services (Table.get?_eq_some_iff.1 hsvc).1
    | _ => exact le_rfl
  podAudiences p hp := h.podAudiences p (mem_applyDefenderAction_pods hp)
  controllerAudiences c hc := h.controllerAudiences c (mem_applyDefenderAction_controllers hc)

lemma Between.apply {inp : AnalysisInput} (h : Between inp k s) (a : DefenderAction) :
    Between inp k { s with env := (applyDefenderAction s.env a).1 } where
  env := h.env.apply a
  count := h.count
  pods := le_trans (Table.length_le_of_keys fun p hp =>
    Table.mem_keys.2 ⟨p, mem_applyDefenderAction_pods hp, rfl⟩) (Table.length_eq_keys ▸ h.pods)
  controllers := le_trans (Table.length_le_of_keys fun c hc =>
    Table.mem_keys.2 ⟨c, mem_applyDefenderAction_controllers hc, rfl⟩)
      (Table.length_eq_keys ▸ h.controllers)
  known := h.known

/-! ### Runs -/

lemma interval_succeeds
    (hroom : (ctx.inp.sizes.derivationCap : ℤ) ≤ ctx.inp.bounds.maxDerivations)
    (h : Between ctx.inp k s) (hk : k + 1 ≤ ctx.inp.sizes.stages)
    {label : Option String} {notes reconciled : List String} :
    (interval ctx i label notes reconciled).Succeeds s (Between ctx.inp (k + 1)) := by
  refine (h.closure hk hroom i).bind fun _ t ht => succeeds_update ?_
  exact ⟨ht.env, ht.count, ht.pods, ht.controllers, ht.known⟩

lemma defenderStep_succeeds (h : Between ctx.inp k s) (hk : k ≤ ctx.inp.sizes.stages)
    (a : DefenderAction) : (defenderStep a).Succeeds s (Between ctx.inp (k + 1)) := by
  refine succeeds_getState_bind.2 (succeeds_update_bind.2 (succeeds_pure ?_))
  exact (h.apply a).reconcile hk

lemma laterIntervals_succeeds
    (hroom : (ctx.inp.sizes.derivationCap : ℤ) ≤ ctx.inp.bounds.maxDerivations) (j : ℕ)
    {actions : List DefenderAction} (h : Between ctx.inp k s)
    (hk : k + 2 * actions.length ≤ ctx.inp.sizes.stages) :
    (laterIntervals ctx j actions).Succeeds s (Between ctx.inp (k + 2 * actions.length)) := by
  induction actions generalizing j k s with
  | nil => exact succeeds_pure h
  | cons a rest ih =>
      rw [List.length_cons] at hk ⊢
      refine (defenderStep_succeeds h (by omega) a).bind fun _ t ht => ?_
      refine (interval_succeeds hroom ht (by omega)).bind fun _ u hu => ?_
      refine (ih (j + 1) hu (by omega)).mono fun v hv => ?_
      rwa [show k + 2 * (rest.length + 1) = k + 1 + 1 + 2 * rest.length by ring]

lemma finalConfiguration_succeeds
    (hroom : (ctx.inp.sizes.derivationCap : ℤ) ≤ ctx.inp.bounds.maxDerivations)
    {actions : List DefenderAction} {notes : List String} (h : Between ctx.inp k s)
    (hk : k + actions.length + 1 ≤ ctx.inp.sizes.stages) :
    (finalConfiguration ctx actions notes).Succeeds s
      (Between ctx.inp (k + actions.length + 1)) := by
  induction actions generalizing k s notes with
  | nil => exact interval_succeeds hroom h hk
  | cons a rest ih =>
      rw [List.length_cons] at hk ⊢
      refine (defenderStep_succeeds h (by omega) a).bind fun _ t ht => ?_
      refine (ih ht (by omega)).mono fun v hv => ?_
      rwa [show k + (rest.length + 1) + 1 = k + 1 + rest.length + 1 by ring]

lemma length_historical : (historical ctx).length ≤ ctx.inp.sizes.facts :=
  (List.length_filterMap_le _ _).trans (List.length_filter_le _ _)

lemma length_historyEnv (e : Env) (pods : List (String × String × String)) :
    (historyEnv e pods).pods.rows.length ≤ e.pods.rows.length + pods.length := by
  unfold historyEnv
  induction pods generalizing e with
  | nil => exact le_rfl
  | cons x pods ih =>
      rw [List.foldl_cons, List.length_cons]
      split_ifs
      · exact (ih e).trans (by omega)
      · refine (ih _).trans ?_
        have : (e.pods.put (createdPod x.2.1 x.2.2 x.1)).rows.length ≤ _ := Table.length_put_le
        show (e.pods.put (createdPod x.2.1 x.2.2 x.1)).rows.length + _ ≤ _
        omega

/-- The environment and the facts that a run begins with. -/
lemma between_initialState : Between ctx.inp 0 (initialState ctx) where
  env :=
    { accounts := fun a ha => Table.mem_of_mem_ofList ha
      secrets := Table.length_ofList_le
      services := Table.length_ofList_le
      podAudiences := fun p hp aud ha => List.mem_cons_of_mem _ (List.mem_append_left _
        (List.mem_flatMap.2 ⟨p, Table.mem_of_mem_ofList hp, ha⟩))
      controllerAudiences := fun c hc aud ha => List.mem_cons_of_mem _ (List.mem_append_right _
        (List.mem_flatMap.2 ⟨c, Table.mem_of_mem_ofList hc, ha⟩)) }
  count := Nat.zero_le _
  pods := by
    have : (initialState ctx).env.pods.rows.length ≤ ctx.inp.sizes.pods := Table.length_ofList_le
    simp only [Sizes.podsAt]
    omega
  controllers := by
    have : (initialState ctx).env.controllers.rows.length ≤ ctx.inp.sizes.controllers :=
      Table.length_ofList_le
    simp only [Sizes.controllersAt]
    omega
  known := by
    refine ⟨(usedFacts ctx).filterMap fun f =>
      match f.claim with
      | .knowsSecret _ _ version => some version
      | _ => none, ?_, fun ns name version hk => ?_⟩
    · have : (usedFacts ctx).length ≤ ctx.inp.sizes.facts := List.length_filter_le _ _
      refine (List.length_filterMap_le _ _).trans (this.trans ?_)
      simp [Sizes.versionsAt]
    · obtain ⟨f, hf, hclaim⟩ := has_initialState.1 hk
      refine List.mem_filterMap.2 ⟨f, hf, ?_⟩
      cases hc : f.claim <;> rw [hc] at hclaim <;> cases hclaim
      rfl

/-- The possible-history phase begins with the historical Pods as well. -/
lemma between_enterHistory : Between ctx.inp 0 (enterHistory ctx (initialState ctx)) where
  env := by
    have h := (@between_initialState ctx).env
    show EnvOf ctx.inp (historyEnv (initialState ctx).env (historical ctx))
    rw [historyEnv_eq]
    refine ⟨h.accounts, h.secrets, h.services, fun p hp => ?_, h.controllerAudiences⟩
    rcases mem_historyEnv_pods hp with hp | ⟨x, -, rfl⟩
    · exact h.podAudiences p hp
    · intro aud haud
      cases haud
  count := Nat.zero_le _
  pods := by
    have h : (initialState ctx).env.pods.rows.length ≤ ctx.inp.sizes.pods := Table.length_ofList_le
    have hadd := length_historyEnv (initialState ctx).env (historical ctx)
    have hhist := @length_historical ctx
    show (historyEnv (initialState ctx).env (historical ctx)).pods.rows.length ≤ _
    simp only [Sizes.podsAt]
    omega
  controllers := by
    show (historyEnv (initialState ctx).env (historical ctx)).controllers.rows.length ≤ _
    rw [historyEnv_eq]
    exact (@between_initialState ctx).controllers
  known := by
    obtain ⟨vs, hlen, hvs⟩ := (@between_initialState ctx).known
    refine ⟨vs, hlen, fun ns name version hk => ?_⟩
    rcases has_enterHistory.1 hk with hk | ⟨x, -, hx⟩
    · exact hvs ns name version hk
    · cases hx

lemma possibleHistory_succeeds
    (hroom : (ctx.inp.sizes.derivationCap : ℤ) ≤ ctx.inp.bounds.maxDerivations) :
    (possibleHistory ctx).Succeeds (initialState ctx) (Between ctx.inp 1) := by
  refine succeeds_ite (fun _ => succeeds_withScratch ?_) fun _ =>
    succeeds_pure (between_initialState.mono (Nat.zero_le 1))
  have hstages : 1 ≤ ctx.inp.sizes.stages := by simp only [Sizes.stages]; omega
  have hclosure := @Between.closure { ctx with inHistory := true } _ _ between_enterHistory
    hstages hroom historyInterval
  -- the environment is put back, and what was learnt is kept
  refine hclosure.mono fun t ht => ?_
  have h := (@between_initialState ctx).mono (Nat.zero_le 1)
  exact ⟨h.env, ht.count, h.pods, h.controllers, ht.known⟩

/-- With room for as many derivations as there are facts to derive, a run goes to its end. -/
lemma runBody_succeeds
    (hroom : (ctx.inp.sizes.derivationCap : ℤ) ≤ ctx.inp.bounds.maxDerivations) :
    (runBody ctx).Succeeds (initialState ctx) (Between ctx.inp ctx.inp.sizes.stages) := by
  have hactions : ctx.inp.sizes.actions = ctx.inp.remediation.length := rfl
  have hstages : ctx.inp.sizes.stages = 2 * ctx.inp.sizes.actions + 3 := rfl
  refine succeeds_ite (fun _ => ?_) fun _ => ?_
  · refine (possibleHistory_succeeds hroom).bind fun _ s hs => ?_
    refine (finalConfiguration_succeeds hroom hs (by omega)).mono fun t ht => ht.mono (by omega)
  · refine (possibleHistory_succeeds hroom).bind fun _ s hs => Succeeds.bind (P := Between ctx.inp 3)
      ?_ fun _ t ht => ?_
    · refine succeeds_getState_bind.2 (succeeds_update_bind.2 ?_)
      exact interval_succeeds hroom (hs.reconcile (by omega)) (by omega)
    · refine (laterIntervals_succeeds hroom 0 ht (by omega)).mono fun u hu => hu.mono (by omega)

/-- The document with another cap on derivations. -/
def AnalysisInput.withCap (inp : AnalysisInput) (cap : ℤ) : AnalysisInput :=
  { inp with bounds := { inp.bounds with maxDerivations := cap } }

/-- Whatever the cap on derivations from `derivationCap` on, every closure of a run ends by itself, and
no more than `derivationCap` facts are derived. -/
theorem runView_within_cap (inp : AnalysisInput) (view : View) (mode : Mode) {cap : ℤ}
    (hcap : inp.sizes.derivationCap ≤ cap) :
    (runView (inp.withCap cap) view mode).boundsExceeded = false ∧
      (runView (inp.withCap cap) view mode).derivationCount ≤ inp.sizes.derivationCap := by
  obtain ⟨_, t, hr, ht⟩ := @runBody_succeeds ⟨inp.withCap cap, view, mode, false⟩ hcap
  have hrun : runBody ⟨inp.withCap cap, view, mode, false⟩
      (initialState ⟨inp.withCap cap, view, mode, false⟩) = (.ok (), t) := hr
  simp only [runView, hrun, true_and]
  exact ht.count

/-- The runs over a document with a controlled Pod end by themselves. -/
theorem controlled_within_cap :
    ∃ inp, parseAnalysisInput (Sample.controlled "c") = .ok inp ∧ ∀ view mode,
      (runView (inp.withCap inp.sizes.derivationCap) view mode).boundsExceeded = false ∧
        (runView (inp.withCap inp.sizes.derivationCap) view mode).derivationCount ≤
          inp.sizes.derivationCap := by
  obtain ⟨inp, hinp, -⟩ := Sample.accepted (Sample.controlled "c") (p := fun _ => true)
    (by decide +kernel)
  exact ⟨inp, hinp, fun view mode => runView_within_cap inp view mode le_rfl⟩

end Afterlock
