import Afterlock.Parse

/-!
# What an accepted document satisfies

`WellFormed` collects what the parser has checked of an analysis input: the identifiers that do
not repeat, the UIDs that are not reserved, the references that resolve and the numbers that are
in range.  Every accepted document parses to a well-formed input (`wellFormed_of_parse`).
-/

namespace Afterlock

/-- A claim names no reserved UID, and the version of a known Secret is a positive numeral. -/
def FactClaim.Good : FactClaim → Prop
  | .possessesCredential _ => True
  | .controlsPod uid => isModelUid uid = false
  | .controlsController uid => isModelUid uid = false
  | .knowsSecret _ _ version => ∃ n, Text.toInt? version = some n ∧ 1 ≤ n
  | .historicalPod uid _ _ => isModelUid uid = false

/-- A deletion by UID names no reserved UID, and a wait goes forward in time. -/
def DefenderAction.Good : DefenderAction → Prop
  | .deletePod uid => isModelUid uid = false
  | .deleteController uid => isModelUid uid = false
  | .wait seconds => 1 ≤ seconds
  | _ => True

structure Inventory.WellFormed (inv : Inventory) : Prop where
  accounts : (inv.serviceAccounts.map ServiceAccount.key).Nodup
  pods : (inv.pods.map Pod.uid).Nodup
  controllers : (inv.controllers.map Controller.uid).Nodup
  roles : (inv.roles.map Role.key).Nodup
  bindings : (inv.bindings.map RoleBinding.ident).Nodup
  secrets : (inv.secrets.map Secret.key).Nodup
  services : (inv.services.map DownstreamService.name).Nodup
  podUids : ∀ p ∈ inv.pods, isModelUid p.uid = false
  controllerUids : ∀ c ∈ inv.controllers, isModelUid c.uid = false
  podControllers : ∀ p ∈ inv.pods, ∀ c, p.controllerUid = some c →
    ∃ d ∈ inv.controllers, d.uid = c
  grace : ∀ s ∈ inv.services, s.grace = []

structure WellFormed (inp : AnalysisInput) : Prop where
  inventory : inp.inventory.WellFormed
  start : ∀ t, inp.historyStart = some t → t ≤ inp.analysisTime
  ttl : 1 ≤ inp.profile.projectedTokenTtlSeconds
  audiences : inp.profile.apiAudiences ≠ []
  credentials : (inp.credentials.map CredentialSpec.id).Nodup
  possessed : ∀ f ∈ inp.initialFacts, ∀ id, f.claim = .possessesCredential id →
    ∃ c ∈ inp.credentials, c.id = id
  facts : ∀ f ∈ inp.initialFacts, f.claim.Good
  actions : ∀ a ∈ inp.remediation, a.Good
  objectives : inp.objectives ≠ []
  objectiveIds : (inp.objectives.map Objective.id).Nodup
  bounds : 1 ≤ inp.bounds.maxDerivations

/-! ### Parsers that return -/

namespace Parse

open Json

variable {α β : Type}

lemma bind_eq_ok {x : Parsed α} {f : α → Parsed β} {b : β} :
    (x >>= f) = .ok b ↔ ∃ a, x = .ok a ∧ f a = .ok b := by
  cases x with
  | error e => simp [bind, Except.bind]
  | ok a => simp [bind, Except.bind]

@[simp] lemma pure_eq_ok {a b : α} : (pure a : Parsed α) = .ok b ↔ a = b := by
  simp [pure, Except.pure]

@[simp] lemma reject_ne_ok {message : String} {a : α} : (reject message : Parsed α) ≠ .ok a := by
  simp [reject]

lemma ite_reject_eq_ok {c : Prop} [Decidable c] {message : String} {x : Parsed α} {a : α} :
    (if c then reject message else x) = .ok a ↔ ¬c ∧ x = .ok a := by
  by_cases h : c <;> simp [h]

lemma rejectIf_eq_ok {c : Prop} [Decidable c] {message : String} {u : Unit} :
    rejectIf c message = .ok u ↔ ¬c := by
  simp [rejectIf]

/-- Every element that a list of parsers returns comes from an element of the list. -/
lemma mem_of_mapM_eq_ok {f : α → Parsed β} {xs : List α} {ys : List β} (h : xs.mapM f = .ok ys)
    {y : β} (hy : y ∈ ys) : ∃ x ∈ xs, f x = .ok y := by
  induction xs generalizing ys with
  | nil =>
      rw [List.mapM_nil, pure_eq_ok] at h
      subst h
      cases hy
  | cons x xs ih =>
      rw [List.mapM_cons, bind_eq_ok] at h
      obtain ⟨z, hz, h⟩ := h
      obtain ⟨zs, hzs, h⟩ := bind_eq_ok.1 h
      rw [pure_eq_ok] at h
      subst h
      rcases List.mem_cons.1 hy with rfl | hy
      · exact ⟨x, List.mem_cons_self, hz⟩
      · obtain ⟨w, hw, hf⟩ := ih hzs hy
        exact ⟨w, List.mem_cons_of_mem _ hw, hf⟩

lemma uniqueFrom_eq_ok {κ : Type} [DecidableEq κ] {key : α → κ} {shown : κ → String} {loc : String}
    {seen : List κ} {xs : List α} (h : uniqueFrom key shown loc seen xs = .ok ()) :
    (xs.map key).Nodup ∧ ∀ x ∈ xs, key x ∉ seen := by
  induction xs generalizing seen with
  | nil => simp
  | cons x xs ih =>
      rw [uniqueFrom, ite_reject_eq_ok] at h
      obtain ⟨hnd, hseen⟩ := ih h.2
      refine ⟨?_, ?_⟩
      · rw [List.map_cons, List.nodup_cons]
        refine ⟨fun hmem => ?_, hnd⟩
        obtain ⟨y, hy, hk⟩ := List.mem_map.1 hmem
        exact hseen y hy (hk ▸ List.mem_cons_self)
      · intro y hy
        rcases List.mem_cons.1 hy with rfl | hy
        · exact h.1
        · exact fun hs => hseen y hy (List.mem_cons_of_mem _ hs)

lemma unique_eq_ok {κ : Type} [DecidableEq κ] {key : α → κ} {shown : κ → String} {loc : String}
    {xs : List α} (h : unique key shown loc xs = .ok ()) : (xs.map key).Nodup :=
  (uniqueFrom_eq_ok h).1

lemma notReserved_eq_ok {uid loc : String} :
    notReserved uid loc = .ok () ↔ isModelUid uid = false := by
  unfold notReserved
  rw [ite_reject_eq_ok]
  simp

lemma forM_eq_ok {f : α → Parsed PUnit} {xs : List α} {u : PUnit} (h : xs.forM f = .ok u) :
    ∀ x ∈ xs, f x = .ok PUnit.unit := by
  induction xs with
  | nil => simp
  | cons x xs ih =>
      obtain ⟨_, hx, hrest⟩ := bind_eq_ok.1 h
      intro y hy
      rcases List.mem_cons.1 hy with rfl | hy
      · exact hx
      · exact ih hrest y hy

lemma nodup_map_sortedBy {κ κ' : Type} [LE κ'] [DecidableLE κ'] {key : α → κ} {sort : α → κ'}
    {xs : List α} (h : (xs.map key).Nodup) : ((Text.sortedBy sort xs).map key).Nodup :=
  ((Text.sortedBy_perm sort xs).map key).nodup_iff.2 h

lemma le_of_optInt_eq_ok {m : Fields} {key loc : String} {minimum n : ℤ}
    (h : optInt m key loc minimum = .ok (some n)) : minimum ≤ n := by
  unfold optInt at h
  split at h
  · simp at h
  · rw [ite_reject_eq_ok] at h
    simp only [Except.ok.injEq, Option.some.injEq] at h
    omega
  · simp at h

lemma le_of_reqInt_eq_ok {m : Fields} {key loc : String} {minimum n : ℤ}
    (h : reqInt m key loc minimum = .ok n) : minimum ≤ n := by
  unfold reqInt at h
  obtain ⟨o, ho, h⟩ := bind_eq_ok.1 h
  cases o with
  | none => simp at h
  | some k =>
      obtain rfl := pure_eq_ok.1 h
      exact le_of_optInt_eq_ok ho

/-! ### The parts of an input -/

lemma profile_good {m : Fields} {p : Profile} (h : profile m = .ok p) :
    1 ≤ p.projectedTokenTtlSeconds ∧ p.apiAudiences ≠ [] := by
  simp only [profile, bind_eq_ok, pure_eq_ok, rejectIf_eq_ok] at h
  obtain ⟨ttl, httl, auds, -, _, hne, _, -, _, -, rfl⟩ := h
  exact ⟨le_of_reqInt_eq_ok httl, by simpa using hne⟩

lemma service_grace {raw : Json} {s : DownstreamService} (h : service raw = .ok s) :
    s.grace = [] := by
  simp only [service, bind_eq_ok, pure_eq_ok] at h
  obtain ⟨_, -, _, -, _, -, _, -, _, -, _, -, rfl⟩ := h
  rfl

lemma podController_eq_ok {controllers : List Controller} {p : Pod} {u : Unit}
    (h : podController controllers p = .ok u) (c : String) (hc : p.controllerUid = some c) :
    ∃ d ∈ controllers, d.uid = c := by
  simp only [podController, hc] at h
  split_ifs at h with hmem
  · simpa using hmem
  · simp at h

lemma inventory_wellFormed {m : Fields} {inv : Inventory} (h : inventory m = .ok inv) :
    inv.WellFormed := by
  simp only [inventory, bind_eq_ok, pure_eq_ok] at h
  obtain ⟨_, -, sas, -, _, -, pods, -, _, -, ctrls, -, _, -, roles, -, _, -, bindings, -, _, -,
    secrets, -, _, -, services, hsvc, _, -, policies, -, _, -, _, hsas, _, hpods, _, -, _, hctrls,
    _, hroles, _, hbinds, _, hsecs, _, hsvcs, _, hres, _, hown, rfl⟩ := h
  have hplain := forM_eq_ok hres
  simp only [List.mem_append, List.mem_map, notReserved_eq_ok] at hplain
  refine ⟨nodup_map_sortedBy (unique_eq_ok hsas), nodup_map_sortedBy (unique_eq_ok hpods),
    nodup_map_sortedBy (unique_eq_ok hctrls), nodup_map_sortedBy (unique_eq_ok hroles),
    nodup_map_sortedBy (unique_eq_ok hbinds), nodup_map_sortedBy (unique_eq_ok hsecs),
    nodup_map_sortedBy (unique_eq_ok hsvcs), ?_, ?_, ?_, ?_⟩
  · exact fun p hp => hplain p.uid (Or.inl ⟨p, Text.mem_sortedBy.1 hp, rfl⟩)
  · exact fun c hc => hplain c.uid (Or.inr ⟨c, Text.mem_sortedBy.1 hc, rfl⟩)
  · intro p hp c hc
    obtain ⟨d, hd, hu⟩ := podController_eq_ok (forM_eq_ok hown p (Text.mem_sortedBy.1 hp)) c hc
    exact ⟨d, Text.mem_sortedBy.2 hd, hu⟩
  · intro s hs
    obtain ⟨raw, -, hraw⟩ := mem_of_mapM_eq_ok hsvc (Text.mem_sortedBy.1 hs)
    exact service_grace hraw

lemma checkClaim_good {credIds : List String} {c : FactClaim} {u : Unit}
    (h : checkClaim credIds c = .ok u) :
    c.Good ∧ ∀ id, c = .possessesCredential id → id ∈ credIds := by
  cases c with
  | possessesCredential id =>
      refine ⟨trivial, fun id' he => ?_⟩
      cases he
      unfold checkClaim at h
      by_contra hn
      simp [hn] at h
  | controlsPod uid => exact ⟨notReserved_eq_ok.1 h, by simp⟩
  | controlsController uid => exact ⟨notReserved_eq_ok.1 h, by simp⟩
  | historicalPod uid ns sa => exact ⟨notReserved_eq_ok.1 h, by simp⟩
  | knowsSecret ns name version =>
      refine ⟨?_, by simp⟩
      rw [checkClaim] at h
      split at h
      next n hn =>
        rw [ite_reject_eq_ok] at h
        exact ⟨n, hn, by omega⟩
      · simp at h

lemma initialFact_good {credIds : List String} {raw : Json} {f : InitialFact}
    (h : initialFact credIds raw = .ok f) :
    f.claim.Good ∧ ∀ id, f.claim = .possessesCredential id → id ∈ credIds := by
  simp only [initialFact, bind_eq_ok, pure_eq_ok] at h
  obtain ⟨_, -, _, -, _, -, c, -, _, -, _, -, _, hc, _, -, rfl⟩ := h
  exact checkClaim_good hc

lemma actionBody_good {m : Fields} {kind loc : String} {a : DefenderAction}
    (h : actionBody m kind loc = .ok a) : a.Good := by
  unfold actionBody at h
  split_ifs at h <;> simp only [bind_eq_ok, pure_eq_ok] at h
  · obtain ⟨_, -, _, -, rfl⟩ := h
    trivial
  · obtain ⟨_, -, _, hr, rfl⟩ := h
    exact notReserved_eq_ok.1 hr
  · obtain ⟨_, -, _, hr, rfl⟩ := h
    exact notReserved_eq_ok.1 hr
  · obtain ⟨_, -, _, -, _, -, rfl⟩ := h
    trivial
  · obtain ⟨_, -, _, -, _, -, rfl⟩ := h
    trivial
  · obtain ⟨_, -, _, -, rfl⟩ := h
    trivial
  · obtain ⟨_, -, rfl⟩ := h
    trivial
  · obtain ⟨_, hs, rfl⟩ := h
    exact le_of_reqInt_eq_ok hs

lemma action_good {loc : String} {raw : Json} {a : DefenderAction} (h : action loc raw = .ok a) :
    a.Good := by
  unfold action at h
  obtain ⟨m, -, h⟩ := bind_eq_ok.1 h
  obtain ⟨kind, -, h⟩ := bind_eq_ok.1 h
  split at h
  · simp at h
  · obtain ⟨b, hb, h⟩ := bind_eq_ok.1 h
    rcases ite_eq_iff.1 h with ⟨-, h⟩ | ⟨-, h⟩
    · obtain rfl := pure_eq_ok.1 h
      exact actionBody_good hb
    · simp at h

lemma actionsFrom_good {loc : String} {i : ℕ} {xs : List Json} {as : List DefenderAction}
    (h : actionsFrom loc i xs = .ok as) : ∀ a ∈ as, a.Good := by
  induction xs generalizing i as with
  | nil =>
      simp only [actionsFrom, Except.ok.injEq] at h
      simp [← h]
  | cons x xs ih =>
      simp only [actionsFrom, bind_eq_ok, pure_eq_ok] at h
      obtain ⟨a, ha, rest, hrest, rfl⟩ := h
      intro b hb
      rcases List.mem_cons.1 hb with rfl | hb
      · exact action_good ha
      · exact ih hrest b hb

lemma parseActions_good {raw : Json} {as : List DefenderAction} (h : parseActions raw = .ok as) :
    ∀ a ∈ as, a.Good := by
  simp only [parseActions, actions, bind_eq_ok] at h
  obtain ⟨xs, -, h⟩ := h
  exact actionsFrom_good h

lemma bounds_good {value : Json} {b : Bounds} (h : bounds value = .ok b) : 1 ≤ b.maxDerivations := by
  simp only [bounds, bind_eq_ok, pure_eq_ok] at h
  obtain ⟨_, -, _, -, o, ho, _, -, rfl⟩ := h
  cases o with
  | none => simp
  | some n => exact le_of_optInt_eq_ok ho

end Parse

/-- Every accepted document parses to a well-formed input. -/
theorem wellFormed_of_parse {raw : Json} {inp : AnalysisInput}
    (h : parseAnalysisInput raw = .ok inp) : WellFormed inp := by
  simp only [parseAnalysisInput, Parse.bind_eq_ok, Parse.pure_eq_ok, Parse.rejectIf_eq_ok] at h
  obtain ⟨_, -, _, -, time, -, start, -, _, hstart, _, -, profile, hprofile, _, -, inv, hinv, _, -,
    creds, -, _, hcreds, _, -, facts, hfacts, _, -, objs, -, _, hobjs, _, hobjIds, _, -, _, -, _, -,
    _, -, _, -, bounds, hbounds, rem, hrem, _, -, _, -, _, -, _, -, rfl⟩ := h
  have hprof := Parse.profile_good hprofile
  have hfact : ∀ f ∈ facts, f.claim.Good ∧
      ∀ id, f.claim = .possessesCredential id → id ∈ creds.map CredentialSpec.id := by
    intro f hf
    obtain ⟨raw, -, hraw⟩ := Parse.mem_of_mapM_eq_ok hfacts hf
    exact Parse.initialFact_good hraw
  refine ⟨Parse.inventory_wellFormed hinv, ?_, hprof.1, hprof.2,
    Parse.nodup_map_sortedBy (Parse.unique_eq_ok hcreds), ?_, ?_, Parse.parseActions_good hrem, ?_,
    Parse.nodup_map_sortedBy (Parse.unique_eq_ok hobjIds), Parse.bounds_good hbounds⟩
  · intro t ht
    subst ht
    simpa using hstart
  · intro f hf id hid
    obtain ⟨c, hc, hk⟩ := List.mem_map.1 ((hfact f (Text.mem_sortedBy.1 hf)).2 id hid)
    exact ⟨c, Text.mem_sortedBy.2 hc, hk⟩
  · exact fun f hf => (hfact f (Text.mem_sortedBy.1 hf)).1
  · intro hnil
    have hlen := congrArg List.length hnil
    rw [(Text.sortedBy_perm _ _).length_eq, List.length_nil, List.length_eq_zero_iff] at hlen
    simp [hlen] at hobjs

/-! ### Documents

The parts of small documents.  The counterexamples of the development are documents made of them. -/

namespace Sample

open Json

def texts (xs : List String) : Json := .arr (xs.map .str)

/-- An object with a namespace and a name. -/
def named (ns name : String) (more : Fields) : Json :=
  .obj (("namespace", .str ns) :: ("name", .str name) :: more)

/-- A service account, with its name for a UID. -/
def account (ns name : String) : Json := named ns name [("uid", .str (ns ++ "/" ++ name))]

/-- A Pod with its UID for a name. -/
def pod (ns uid serviceAccount : String) (more : Fields) : Json :=
  named ns uid (("uid", .str uid) :: ("service_account", .str serviceAccount) :: more)

/-- A controller with its UID for a name. -/
def controller (ns uid serviceAccount : String) : Json :=
  named ns uid [("uid", .str uid), ("service_account", .str serviceAccount)]

/-- A role for some verbs on one resource. -/
def role (ns name : String) (verbs : List String) (resource : String) : Json :=
  named ns name [("rules", .arr [.obj [("verbs", texts verbs), ("resources", texts [resource])]])]

/-- A binding of a role to a service account of the same namespace. -/
def binding (ns role serviceAccount : String) : Json :=
  named ns (role ++ "-" ++ serviceAccount)
    [("role_kind", .str "Role"), ("role_name", .str role),
      ("subjects", .arr [named ns serviceAccount [("kind", .str "ServiceAccount")]])]

def secret (ns name : String) : Json := named ns name [("uid", .str name), ("version", .int 1)]

/-- A credential of a service account for the API. -/
def credential (id ns serviceAccount : String) (more : Fields) : Json :=
  .obj ([("id", .str id), ("kind", .str "sa_token"),
    ("username", .str (saUsername ns serviceAccount)), ("audience", .str "api")] ++ more)

def fact (kind : String) (args : List String) (status : String) : Json :=
  .obj [("kind", .str kind), ("args", texts args), ("status", .str status)]

def action (kind : String) (more : Fields) : Json := .obj (("kind", .str kind) :: more)

/-- The objective that a Secret is not read. -/
def noSecretRead (id ns secret : String) : Json :=
  .obj [("id", .str id), ("kind", .str "no_secret_read"), ("namespace", .str ns),
    ("secret", .str secret)]

/-- A document for time 100, with tokens that last 10 seconds. -/
def document (inventory more : Fields) : Json :=
  .obj ([("schema", .str analysisInputSchema), ("case_id", .str "case"),
    ("cluster_id", .str "cluster"), ("analysis_time", .int 100),
    ("profile", .obj [("id", .str "profile"), ("kubernetes_version", .str "1"),
      ("api_audiences", texts ["api"]), ("projected_token_ttl_seconds", .int 10)]),
    ("inventory", .obj inventory)] ++ more)

/-- A document is accepted if a test of the input that it parses to succeeds. -/
lemma accepted (raw : Json) {p : AnalysisInput → Bool}
    (h : (parseAnalysisInput raw).toOption.any p = true) :
    ∃ inp, parseAnalysisInput raw = .ok inp ∧ p inp = true := by
  cases hp : parseAnalysisInput raw with
  | error e =>
      rw [hp] at h
      cases h
  | ok inp =>
      rw [hp] at h
      exact ⟨inp, rfl, h⟩

end Sample

end Afterlock
