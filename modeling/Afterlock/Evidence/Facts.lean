import Afterlock.Evidence.Effects
import Afterlock.Accepted

/-!
# The facts of a projection

What a request of the attacker shows is a relation of its own, `Shows`: nothing else confers a
capability.  The facts of a projection are exactly what the case seeds and what the attacker's
requests show, each with the records that show it (`projected_facts`).
-/

namespace Afterlock

namespace Evidence

open Json

/-! ### The parts of a projection -/

namespace ReplayBundle

/-- What the lines of the bundle come to. -/
def records (host : Host) (b : ReplayBundle) : Intake :=
  intake host (textAt b.manifest "cluster_id") b.eventLines

def events (host : Host) (b : ReplayBundle) : List Envelope := (b.records host).events

end ReplayBundle

/-- What a projection is made of. -/
structure Parts (host : Host) (b : ReplayBundle) (p : Projection) (ctx : Context) (start : Seed)
    (xs : List Effect) (silent : List Gap) : Prop where
  profile : loadProfile host (getD b.case "profile" (.str "")).text = some p.profile
  context : contextOf host b p.profile = some (ctx, start)
  pods : attribution ctx (b.events host) = some p.attackerPods
  effects : (b.events host).mapM (effect ctx p.attackerPods) = some xs
  stale : staleGaps b.case p.analysisTime ((xs.flatMap Effect.beats).foldl store ∅) = some silent
  credentials : p.credentials = Text.sortedBy Credential.id
    ((xs.flatMap Effect.offers).foldl offer start.credentials).rows
  facts : p.facts = Text.sortedBy (fun f => toLex f.key)
    ((xs.flatMap Effect.facts).foldl contribute start.facts).rows
  gaps : p.gaps = Text.sortedBy Gap.id (xs.flatMap Effect.gaps ++ silent ++
    (b.records host).diag.rejected.map rejectionGap ++
    (b.records host).diag.conflicts.map conflictGap)
  diag : p.diag = { (b.records host).diag with ignored := xs.flatMap Effect.ignored }

section

variable {host : Host} {b : ReplayBundle} {p : Projection} {inp : AnalysisInput}

lemma exists_parts_of_gather (h : gather host b = some p) :
    ∃ ctx start xs silent, Parts host b p ctx start xs silent := by
  simp only [gather, gatherRecords, Option.bind_eq_bind, Option.bind_eq_some_iff] at h
  obtain ⟨caseId, -, clusterId, hcluster, profile, hprofile, time, -, ⟨ctx, start⟩, hctx, known, -,
    assumed, -, pods, hpods, s, hs, silent, hsilent, h⟩ := h
  split_ifs at h with hkeys
  cases h
  have hrecords : b.records host = intake host clusterId b.eventLines := by
    rw [ReplayBundle.records, textAt, hcluster, Option.getD_some]
  rw [foldlM_collect, Option.map_eq_some_iff] at hs
  obtain ⟨xs, hxs, rfl⟩ := hs
  rw [foldl_apply] at hsilent
  refine ⟨ctx, start, xs, silent, ?_⟩
  constructor
  · exact hprofile
  · exact hctx
  · rw [ReplayBundle.events, hrecords]
    exact hpods
  · rw [ReplayBundle.events, hrecords]
    exact hxs
  · exact hsilent
  · rw [foldl_apply]
  · rw [foldl_apply]
  · rw [foldl_apply, hrecords]
    rfl
  · rw [foldl_apply, hrecords]
    rfl

end

/-! ### The facts of the case -/

def seedContribution (c : Credential × String) : Contribution :=
  ⟨"possesses_credential", [c.1.id], "assumed", seededEvidence, ""⟩

lemma foldl_seed (cs : List (Credential × String)) (s : Seed) :
    (cs.foldl Seed.add s).credentials = cs.foldl (fun t c => t.put c.1) s.credentials ∧
      (cs.foldl Seed.add s).facts = (cs.map seedContribution).foldl contribute s.facts := by
  induction cs generalizing s with
  | nil => exact ⟨rfl, rfl⟩
  | cons c cs ih => exact ih (s.add c)

/-- What the case seeds: a fact for each credential. -/
lemma exists_seeded {m : Fields} {s : Seed} (h : seed m = some s) : ∃ cs : List Contribution,
    s.facts = cs.foldl contribute ∅ ∧ ∀ c, c ∈ cs ↔ ∃ a ∈ s.credentials,
      c = ⟨"possesses_credential", [a.id], "assumed", seededEvidence, ""⟩ := by
  simp only [seed, Option.bind_eq_bind, Option.bind_eq_some_iff] at h
  obtain ⟨_, -, specs, -, h⟩ := h
  cases h
  obtain ⟨hcreds, hfacts⟩ := foldl_seed specs ⟨∅, [], ∅⟩
  refine ⟨specs.map seedContribution, hfacts, fun c => ?_⟩
  have hids : ∀ i, (∃ a ∈ (specs.foldl Seed.add ⟨∅, [], ∅⟩).credentials, a.id = i) ↔
      ∃ x ∈ specs, x.1.id = i := by
    intro i
    have hof : (∃ a ∈ (Table.ofList (specs.map Prod.fst) : Table Credential.id), a.id = i) ↔
        ∃ a ∈ specs.map Prod.fst, a.id = i := Table.exists_mem_ofList
    rw [hcreds, ← List.foldl_map]
    rw [Table.ofList] at hof
    simpa using hof
  rw [List.mem_map]
  constructor
  · rintro ⟨x, hx, rfl⟩
    obtain ⟨a, ha, hid⟩ := (hids x.1.id).2 ⟨x, hx, rfl⟩
    exact ⟨a, ha, by rw [seedContribution, hid]⟩
  · rintro ⟨a, ha, rfl⟩
    obtain ⟨x, hx, hid⟩ := (hids a.id).1 ⟨a, ha, rfl⟩
    exact ⟨x, hx, by rw [seedContribution, hid]⟩

lemma seed_of_contextOf {host : Host} {b : ReplayBundle} {profile : Fields} {ctx : Context}
    {start : Seed} (h : contextOf host b profile = some (ctx, start)) :
    seed b.case = some start := by
  simp only [contextOf, Option.bind_eq_bind, Option.bind_eq_some_iff] at h
  obtain ⟨_, -, _, -, s, hs, _, -, _, -, h⟩ := h
  cases h
  exact hs

/-! ### What a request shows -/

/-- The event is about an action with the verb. -/
def Does (e : Envelope) (verb : String) (action target : Fields) : Prop :=
  dict (get e.body "action") = some action ∧ dict (get e.body "target") = some target ∧
    get action "verb" = .str verb

/-- The facts that a request of the attacker shows. -/
inductive Shows (ctx : Context) (events : List Envelope) (e : Envelope) :
    String → List String → Prop where
  /-- The credential of a Pod of the attacker that makes a request. -/
  | credential {actor : Fields} {pod username : String} {aud : Json}
      (ha : dict (get e.body "actor") = some actor) (hp : get actor "pod_uid" = .str pod)
      (hacts : Acts ctx events pod) (haud : audienceOf ctx.profile actor = some aud)
      (hu : get actor "username" = .str username) :
      Shows ctx events e "possesses_credential" [observedId pod aud]
  /-- A Pod that was created or entered. -/
  | pod {action target : Fields} {uid : String} (h : Does e "create" action target)
      (hr : isPods (get action "resource") = true) (hu : get target "uid" = .str uid) :
      Shows ctx events e "controls_pod" [uid]
  /-- The service account of such a Pod, where the inventory no longer has it. -/
  | historical {action target : Fields} {uid ns sa : String} (h : Does e "create" action target)
      (hr : isPods (get action "resource") = true) (hu : get target "uid" = .str uid)
      (hnew : ctx.pods.contains uid = false) (hns : get action "namespace" = .str ns)
      (hsa : get target "service_account" = .str sa) :
      Shows ctx events e "historical_pod" [uid, ns, sa]
  | controller {action target : Fields} {uid : String} (h : Does e "create" action target)
      (hr : get action "resource" = .str "deployments") (hu : get target "uid" = .str uid) :
      Shows ctx events e "controls_controller" [uid]
  /-- A Secret that was read at a version that the record has. -/
  | secret {action target : Fields} {ns name : String} (h : Does e "get" action target)
      (hr : get action "resource" = .str "secrets") (hns : get action "namespace" = .str ns)
      (hname : get target "name" = .str name)
      (hv : (get target "observed_version").asInt?.isSome = true) :
      Shows ctx events e "knows_secret" [ns, name, (get target "observed_version").text]
  /-- A Secret that was read, at the version that the inventory has. -/
  | assumed {action target : Fields} {ns name : String} {sec : (String × String) × Fields}
      {version : Json} (h : Does e "get" action target)
      (hr : get action "resource" = .str "secrets") (hns : get action "namespace" = .str ns)
      (hname : get target "name" = .str name)
      (hv : (get target "observed_version").asInt? = none)
      (hsec : ctx.secrets.get? (ns, name) = some sec)
      (hver : sec.2.lookup "version" = some version) :
      Shows ctx events e "knows_secret" [ns, name, version.text]
  /-- The Secrets that a list or a watch shows. -/
  | listed {verb : String} {action target : Fields} {sec : (String × String) × Fields}
      (hverb : verb = "list" ∨ verb = "watch") (h : Does e verb action target)
      (hr : get action "resource" = .str "secrets")
      (hsec : sec ∈ listedSecrets ctx (get action "namespace") (get target "name")) :
      Shows ctx events e "knows_secret" [sec.1.1, sec.1.2, (get sec.2 "version").text]

section

variable {ctx : Context} {pods : List String} {events : List Envelope} {e : Envelope}
  {kind : String} {args : List String}

lemma shows_of_possession {actor : Fields} {x : Effect} {c : Contribution}
    (hpods : ∀ uid, uid ∈ pods ↔ Acts ctx events uid)
    (ha : dict (get e.body "actor") = some actor) (h : possession ctx pods actor e.ref = some x)
    (hc : c ∈ x.facts) : c.evidence = e.ref ∧ Shows ctx events e c.kind c.args := by
  obtain rfl | ⟨pod, aud, username, expiry, hp, hpod, haud, hu, rfl⟩ := possession_cases h
  · cases hc
  · rw [List.mem_singleton.1 hc]
    exact ⟨rfl, .credential ha hp ((hpods pod).1 hpod) haud hu⟩

/-- The action and the target of an event. -/
def About (e : Envelope) (action target : Fields) : Prop :=
  dict (get e.body "action") = some action ∧ dict (get e.body "target") = some target

lemma About.does {action target : Fields} (h : About e action target) {verb : String}
    (hv : get action "verb" = .str verb) : Does e verb action target :=
  ⟨h.1, h.2, hv⟩

lemma shows_of_podEffect {action target : Fields} {uid : String} {c : Contribution}
    (h : Does e "create" action target) (hr : isPods (get action "resource") = true)
    (hu : get target "uid" = .str uid)
    (hc : c ∈ (podEffect ctx (get action "namespace") target e.ref uid).facts) :
    c.evidence = e.ref ∧ Shows ctx events e c.kind c.args := by
  have hpod : Shows ctx events e "controls_pod" [uid] := .pod h hr hu
  obtain ⟨-, heq⟩ | ⟨hnew, sa, name, hsa, hns, heq⟩ | ⟨-, heq⟩ :=
    podEffect_cases ctx (get action "namespace") target e.ref uid <;> rw [heq] at hc
  · rw [List.mem_singleton.1 hc]
    exact ⟨rfl, hpod⟩
  · rcases List.mem_pair.1 hc with rfl | rfl
    · exact ⟨rfl, hpod⟩
    · exact ⟨rfl, .historical h hr hu hnew hns hsa⟩
  · rw [List.mem_singleton.1 hc]
    exact ⟨rfl, hpod⟩

lemma shows_of_secretEffect {action target : Fields} {ns name : String} {y : Effect}
    {c : Contribution} (h : Does e "get" action target)
    (hr : get action "resource" = .str "secrets") (hns : get action "namespace" = .str ns)
    (hname : get target "name" = .str name) (hy : secretEffect ctx target e.ref ns name = some y)
    (hc : c ∈ y.facts) : c.evidence = e.ref ∧ Shows ctx events e c.kind c.args := by
  obtain ⟨hv, rfl⟩ | ⟨hv, sec, version, hsec, hver, rfl⟩ | ⟨-, -, rfl⟩ := secretEffect_cases hy
  · rw [List.mem_singleton.1 hc]
    exact ⟨rfl, .secret h hr hns hname hv⟩
  · rw [List.mem_singleton.1 hc]
    exact ⟨rfl, .assumed h hr hns hname hv hsec hver⟩
  · cases hc

lemma shows_of_acquisition {action target : Fields} {y : Effect} {c : Contribution}
    (h : About e action target) (hy : acquisition ctx action target e.ref = some y)
    (hc : c ∈ y.facts) : c.evidence = e.ref ∧ Shows ctx events e c.kind c.args := by
  obtain ⟨uid, hv, hr, hu, rfl⟩ | ⟨uid, hv, hr, hu, rfl⟩ | ⟨ns, name, hv, hr, hns, hname, hy⟩ |
    ⟨verb, hverb, hv, hr, rfl⟩ | rfl := acquisition_cases hy
  · exact shows_of_podEffect (h.does hv) hr hu hc
  · rw [List.mem_singleton.1 hc]
    exact ⟨rfl, .controller (h.does hv) hr hu⟩
  · exact shows_of_secretEffect (h.does hv) hr hns hname hy hc
  · obtain ⟨sec, hsec, rfl⟩ := List.mem_map.1 hc
    exact ⟨rfl, .listed hverb (h.does hv) hr hsec⟩
  · cases hc

/-- What an attributed request contributes. -/
lemma exists_of_requestEffect {x : Effect} (hatt : attributed ctx.users pods e = some true)
    (h : requestEffect ctx pods e = some x) : ∃ actor action target y z,
    dict (get e.body "actor") = some actor ∧ About e action target ∧
      possession ctx pods actor e.ref = some y ∧ acquisition ctx action target e.ref = some z ∧
      x = y.append z := by
  simp only [requestEffect, hatt, Option.bind_eq_bind, Option.bind_some, if_true,
    Option.bind_eq_some_iff] at h
  obtain ⟨actor, ha, y, hy, action, haction, target, htarget, z, hz, hx⟩ := h
  cases hx
  exact ⟨actor, action, target, y, z, ha, ⟨haction, htarget⟩, hy, hz, rfl⟩

lemma not_attributed {x : Effect} (hatt : attributed ctx.users pods e ≠ some true)
    (h : requestEffect ctx pods e = some x) : x = .empty := by
  unfold requestEffect at h
  rcases hb : attributed ctx.users pods e with _ | _ | _ <;> rw [hb] at h
  · cases h
  · cases h
    rfl
  · exact absurd hb hatt

/-- The contributions of a request are what it shows. -/
lemma shows_of_requestEffect {x : Effect} {c : Contribution}
    (hpods : ∀ uid, uid ∈ pods ↔ Acts ctx events uid) (h : requestEffect ctx pods e = some x)
    (hc : c ∈ x.facts) :
    OfAttacker ctx events e ∧ c.evidence = e.ref ∧ Shows ctx events e c.kind c.args := by
  by_cases hatt : attributed ctx.users pods e = some true
  · refine ⟨(attributed_iff_ofAttacker hpods).1 hatt, ?_⟩
    obtain ⟨actor, action, target, y, z, ha, habout, hy, hz, rfl⟩ :=
      exists_of_requestEffect hatt h
    rcases List.mem_append.1 hc with hc | hc
    · exact shows_of_possession hpods ha hy hc
    · exact shows_of_acquisition habout hz hc
  · rw [not_attributed hatt h] at hc
    cases hc

/-- The attacker gets what a request shows, as far as it is not the credential of the request. -/
lemma exists_of_acquisition {action target : Fields} {y : Effect} (habout : About e action target)
    (hy : acquisition ctx action target e.ref = some y) (h : Shows ctx events e kind args)
    (hkind : kind ≠ "possesses_credential") : ∃ c ∈ y.facts, c.key = (kind, args) := by
  -- what is shown is about the action and the target that are read
  have hsame : ∀ {v : String} {action' target' : Fields}, Does e v action' target' →
      action = action' ∧ target = target' ∧ get action "verb" = .str v := by
    rintro v action' target' ⟨ha, ht, hv⟩
    rw [habout.1] at ha
    rw [habout.2] at ht
    cases ha
    cases ht
    exact ⟨rfl, rfl, hv⟩
  cases h with
  | credential => exact absurd rfl hkind
  | pod hd hr hu =>
      -- a Pod that is not known may come with a historical one
      obtain ⟨rfl, rfl, hv⟩ := hsame hd
      simp [acquisition, hv, hr, hu, isText_str, asStr?] at hy
      subst hy
      unfold podEffect
      dsimp only
      split_ifs
      · exact ⟨_, List.mem_singleton_self _, rfl⟩
      · split
        · exact ⟨_, List.mem_cons_self, rfl⟩
        · exact ⟨_, List.mem_singleton_self _, rfl⟩
  | historical hd hr hu hnew hns hsa =>
      obtain ⟨rfl, rfl, hv⟩ := hsame hd
      simp [acquisition, hv, hr, hu, isText_str, asStr?, podEffect, hnew, hns, hsa] at hy
      subst hy
      exact ⟨_, List.mem_cons_of_mem _ (List.mem_singleton_self _), rfl⟩
  | controller hd hr hu =>
      obtain ⟨rfl, rfl, hv⟩ := hsame hd
      simp [acquisition, hv, hr, hu, isText_str, asStr?, isPods] at hy
      subst hy
      exact ⟨_, List.mem_singleton_self _, rfl⟩
  | secret hd hr hns hname hver =>
      obtain ⟨rfl, rfl, hv⟩ := hsame hd
      simp [acquisition, hv, hr, hns, hname, isText_str, asStr?, secretEffect, hver] at hy
      subst hy
      exact ⟨_, List.mem_singleton_self _, rfl⟩
  | assumed hd hr hns hname hver hsec hfound =>
      obtain ⟨rfl, rfl, hv⟩ := hsame hd
      simp [acquisition, hv, hr, hns, hname, isText_str, asStr?, secretEffect, hver, hsec,
        hfound] at hy
      subst hy
      exact ⟨_, List.mem_singleton_self _, rfl⟩
  | listed hverb hd hr hsec =>
      -- `list` and `watch` are one case of the code
      obtain ⟨rfl, rfl, hv⟩ := hsame hd
      have hlisted : y = secretsEffect ctx (get action "verb").text (get action "namespace")
          (get target "name") e.ref := by
        rcases hverb with rfl | rfl <;>
          simpa [acquisition, hv, hr, isText_str, eq_comm] using hy
      subst hlisted
      exact ⟨_, List.mem_map_of_mem hsec, rfl⟩

/-- What a request of the attacker shows is among its contributions. -/
lemma exists_of_shows {x : Effect} (hpods : ∀ uid, uid ∈ pods ↔ Acts ctx events uid)
    (h : requestEffect ctx pods e = some x) (hatt : OfAttacker ctx events e)
    (hshows : Shows ctx events e kind args) : ∃ c ∈ x.facts, c.key = (kind, args) := by
  obtain ⟨actor, action, target, y, z, ha, habout, hy, hz, rfl⟩ :=
    exists_of_requestEffect ((attributed_iff_ofAttacker hpods).2 hatt) h
  by_cases hkind : kind = "possesses_credential"
  · cases hshows with
    | @credential actor' pod username aud ha' hp hacts haud hu =>
        rw [ha] at ha'
        cases ha'
        have hin : isIn (get actor "pod_uid") pods = some true :=
          isIn_eq_some_true_iff.2 ⟨pod, (hpods pod).2 hacts, hp⟩
        rw [possession, hin] at hy
        simp only [haud, hu, hp, Option.map_eq_some_iff] at hy
        obtain ⟨_, -, rfl⟩ := hy
        exact ⟨_, List.mem_append_left _ (List.mem_singleton_self _), rfl⟩
    | _ => exact absurd hkind (by decide)
  · obtain ⟨c, hc, hkey⟩ := exists_of_acquisition habout hz hshows hkind
    exact ⟨c, List.mem_append_right _ hc, hkey⟩

/-- The contributions of an event of any type. -/
lemma mem_facts_effect {x : Effect} (h : effect ctx pods e = some x) {c : Contribution}
    (hc : c ∈ x.facts) : e.eventType = apiResponse ∧ requestEffect ctx pods e = some x := by
  unfold effect at h
  split_ifs at h with h1 h2 h3 h4 h5
  · cases h
    cases hc
  · cases h
    cases hc
  · cases h
    cases hc
  · cases h
    cases hc
  · refine ⟨?_, h⟩
    simp only [supportedEventTypes, List.mem_cons, List.not_mem_nil, or_false] at h4
    tauto
  · cases h
    cases hc

lemma effect_of_api (hapi : e.eventType = apiResponse) :
    effect ctx pods e = requestEffect ctx pods e := by
  simp [effect, hapi, apiResponse, supportedEventTypes]

end

/-! ### The kinds of gaps -/

/-- A request leaves a gap where its record lacks something. -/
lemma kind_of_mem_gaps_acquisition {ctx : Context} {action target : Fields} {ref : String}
    {x : Effect} (h : acquisition ctx action target ref = some x) {g : Gap} (hg : g ∈ x.gaps) :
    g.kind = "missing_metadata" := by
  obtain ⟨uid, -, -, -, rfl⟩ | ⟨_, -, -, -, rfl⟩ | ⟨ns, name, -, -, -, -, hsecret⟩ |
    ⟨_, -, -, -, rfl⟩ | rfl := acquisition_cases h
  · obtain ⟨-, heq⟩ | ⟨-, _, _, -, -, heq⟩ | ⟨-, heq⟩ :=
      podEffect_cases ctx (get action "namespace") target ref uid <;> rw [heq] at hg
    · cases hg
    · cases hg
    · rw [List.mem_singleton.1 hg]
      rfl
  · cases hg
  · obtain ⟨-, rfl⟩ | ⟨-, _, _, -, -, rfl⟩ | ⟨-, -, rfl⟩ := secretEffect_cases hsecret
    · cases hg
    · cases hg
    · rw [List.mem_singleton.1 hg]
      rfl
  · cases hg
  · cases hg

/-- An event leaves a gap where a collector missed something or its record lacks something. -/
lemma kind_of_mem_gaps_effect {ctx : Context} {pods : List String} {e : Envelope} {x : Effect}
    (h : effect ctx pods e = some x) {g : Gap} (hg : g ∈ x.gaps) :
    g.kind = "observation_gap" ∨ g.kind = "missing_metadata" := by
  unfold effect at h
  split_ifs at h with h1 h2 h3 h4 h5
  · cases h
    cases hg
  · cases h
    rw [List.mem_singleton.1 hg]
    exact .inl rfl
  · cases h
    cases hg
  · cases h
    cases hg
  · by_cases hatt : attributed ctx.users pods e = some true
    · obtain ⟨_, _, _, y, z, -, -, hy, hz, rfl⟩ := exists_of_requestEffect hatt h
      rcases List.mem_append.1 hg with hg | hg
      · rw [gaps_possession hy] at hg
        cases hg
      · exact .inr (kind_of_mem_gaps_acquisition hz hg)
    · rw [not_attributed hatt h] at hg
      cases hg
  · cases h
    cases hg

/-- The gaps of silent sources are of a kind of their own. -/
lemma kind_of_mem_staleGaps {case : Fields} {time : ℤ}
    {heartbeats : Table (Prod.fst : String × ℤ → String)} {silent : List Gap}
    (h : staleGaps case time heartbeats = some silent) {g : Gap} (hg : g ∈ silent) :
    g.kind = "stale_evidence" := by
  unfold staleGaps at h
  rcases hn : (get case "max_evidence_staleness_seconds").asInt? with _ | n <;> rw [hn] at h
  · cases h
    cases hg
  · simp only [Option.bind_eq_bind, Option.bind_eq_some_iff] at h
    obtain ⟨sources, -, h⟩ := h
    split_ifs at h
    cases h
    obtain ⟨src, -, rfl⟩ := List.mem_map.1 hg
    rfl

/-! ### The facts of a projection -/

section

variable {host : Host} {b : ReplayBundle} {p : Projection} {ctx : Context} {start : Seed}
  {xs : List Effect} {silent : List Gap}

/-- The contributions of the events are what the attacker's requests show. -/
lemma Parts.contributed (h : Parts host b p ctx start xs silent) {kind : String}
    {args : List String} {r : String} :
    (∃ c ∈ xs.flatMap Effect.facts, c.key = (kind, args) ∧ c.evidence = r) ↔
      ∃ e ∈ b.events host, e.eventType = apiResponse ∧ OfAttacker ctx (b.events host) e ∧
        e.ref = r ∧ Shows ctx (b.events host) e kind args := by
  have hpods : ∀ uid, uid ∈ p.attackerPods ↔ Acts ctx (b.events host) uid :=
    fun _ => mem_attribution_iff h.pods
  constructor
  · rintro ⟨c, hc, hkey, rfl⟩
    obtain ⟨x, hx, hcx⟩ := List.mem_flatMap.1 hc
    obtain ⟨e, he, heff⟩ := (mapM_eq_some h.effects).1 x hx
    obtain ⟨hapi, hreq⟩ := mem_facts_effect heff hcx
    obtain ⟨hatt, href, hshows⟩ := shows_of_requestEffect hpods hreq hcx
    cases hkey
    exact ⟨e, he, hapi, hatt, href.symm, hshows⟩
  · rintro ⟨e, he, hapi, hatt, rfl, hshows⟩
    obtain ⟨x, hx, heff⟩ := (mapM_eq_some h.effects).2 e he
    rw [effect_of_api hapi] at heff
    obtain ⟨c, hc, hkey⟩ := exists_of_shows hpods heff hatt hshows
    exact ⟨c, List.mem_flatMap.2 ⟨x, hx, hc⟩, hkey,
      (shows_of_requestEffect hpods heff hc).2.1⟩

/-- A fact cites a record if the case seeds it so or the record is a request that shows it. -/
lemma Parts.cites_iff (h : Parts host b p ctx start xs silent) {kind : String}
    {args : List String} {r : String} :
    (∃ f ∈ p.facts, f.key = (kind, args) ∧ r ∈ f.evidence) ↔
      (kind = "possesses_credential" ∧ (∃ c ∈ start.credentials, args = [c.id]) ∧
          r = seededEvidence) ∨
        ∃ e ∈ b.events host, e.eventType = apiResponse ∧ OfAttacker ctx (b.events host) e ∧
          e.ref = r ∧ Shows ctx (b.events host) e kind args := by
  obtain ⟨cs, hcs, hseeded⟩ := exists_seeded (seed_of_contextOf h.context)
  have hfacts : ∀ f, f ∈ p.facts ↔ f ∈ (cs ++ xs.flatMap Effect.facts).foldl contribute ∅ := by
    intro f
    rw [h.facts, Text.mem_sortedBy, List.foldl_append, hcs]
    rfl
  simp only [hfacts, Evidence.cites_iff, List.mem_append, or_and_right, exists_or]
  refine or_congr ?_ h.contributed
  constructor
  · rintro ⟨c, hc, hkey, rfl⟩
    obtain ⟨a, ha, rfl⟩ := (hseeded c).1 hc
    cases hkey
    exact ⟨rfl, ⟨a, ha, rfl⟩, rfl⟩
  · rintro ⟨rfl, ⟨a, ha, rfl⟩, rfl⟩
    exact ⟨_, (hseeded _).2 ⟨a, ha, rfl⟩, rfl, rfl⟩

/-- The gaps of rejected records are those of the rejections. -/
lemma Parts.rejected_gaps (h : Parts host b p ctx start xs silent) :
    (p.gaps.filter fun g => g.kind = "rejected_evidence").Perm
      (p.diag.rejected.map rejectionGap) := by
  have hevents : (xs.flatMap Effect.gaps).filter (fun g => g.kind = "rejected_evidence") = [] := by
    refine List.filter_eq_nil_iff.2 fun g hg => ?_
    obtain ⟨x, hx, hgx⟩ := List.mem_flatMap.1 hg
    obtain ⟨e, -, heff⟩ := (mapM_eq_some h.effects).1 x hx
    rcases kind_of_mem_gaps_effect heff hgx with hk | hk <;> simp [hk]
  have hsilent : silent.filter (fun g => g.kind = "rejected_evidence") = [] := by
    refine List.filter_eq_nil_iff.2 fun g hg => ?_
    simp [kind_of_mem_staleGaps h.stale hg]
  have hconflicts : ((b.records host).diag.conflicts.map conflictGap).filter
      (fun g => g.kind = "rejected_evidence") = [] := by
    simp [conflictGap]
  have hrejected : ((b.records host).diag.rejected.map rejectionGap).filter
      (fun g => g.kind = "rejected_evidence") =
        (b.records host).diag.rejected.map rejectionGap := by
    simp [rejectionGap]
  rw [h.gaps, h.diag]
  refine ((Text.sortedBy_perm _ _).filter _).trans ?_
  rw [List.filter_append, List.filter_append, List.filter_append, hevents, hsilent, hconflicts,
    hrejected, List.append_nil, List.nil_append, List.nil_append]

/-- The facts are sorted, one for each kind and arguments, and so are the records they cite. -/
lemma Parts.sorted_facts (h : Parts host b p ctx start xs silent) :
    p.facts.Pairwise (fun f g => toLex f.key < toLex g.key) ∧
      ∀ f ∈ p.facts, f.evidence.Pairwise (· < ·) := by
  obtain ⟨cs, hcs, -⟩ := exists_seeded (seed_of_contextOf h.context)
  rw [h.facts, hcs, ← List.foldl_append]
  refine ⟨Text.pairwise_sortedBy ?_, fun f hf => ?_⟩
  · have hkeys := ((cs ++ xs.flatMap Effect.facts).foldl contribute ∅).nodup
    simpa [List.map_map, Function.comp_def] using hkeys.map toLex.injective
  · exact sorted_evidence (Text.mem_sortedBy.1 hf)

end

lemma gather_of_project {host : Host} {b : ReplayBundle} {p : Projection} {inp : AnalysisInput}
    (h : project host b = some (p, inp)) :
    gather host b = some p ∧ parseAnalysisInput (p.json b) = .ok inp := by
  simp only [project, Option.bind_eq_bind, Option.bind_eq_some_iff] at h
  obtain ⟨q, hq, inp', hinp, h⟩ := h
  cases h
  refine ⟨hq, ?_⟩
  cases hparse : parseAnalysisInput (p.json b) with
  | error e =>
      rw [hparse] at hinp
      cases hinp
  | ok inp' =>
      rw [hparse] at hinp
      cases hinp
      rfl

/-- The Pods of the attacker are those that act for the attacker, and the facts of a projection
are what the case seeds and what the attacker's requests show, with the records that show it. -/
theorem projected_facts {host : Host} {b : ReplayBundle} {p : Projection} {inp : AnalysisInput}
    (h : project host b = some (p, inp)) :
    ∃ ctx start, contextOf host b p.profile = some (ctx, start) ∧
      (∀ uid, uid ∈ p.attackerPods ↔ Acts ctx (b.events host) uid) ∧
      (∀ kind args r, (∃ f ∈ p.facts, f.key = (kind, args) ∧ r ∈ f.evidence) ↔
        (kind = "possesses_credential" ∧ (∃ c ∈ start.credentials, args = [c.id]) ∧
            r = seededEvidence) ∨
          ∃ e ∈ b.events host, e.eventType = apiResponse ∧ OfAttacker ctx (b.events host) e ∧
            e.ref = r ∧ Shows ctx (b.events host) e kind args) ∧
      p.facts.Pairwise (fun f g => toLex f.key < toLex g.key) ∧
      ∀ f ∈ p.facts, f.evidence.Pairwise (· < ·) := by
  obtain ⟨ctx, start, xs, silent, hparts⟩ := exists_parts_of_gather (gather_of_project h).1
  exact ⟨ctx, start, hparts.context, fun _ => mem_attribution_iff hparts.pods,
    fun _ _ _ => hparts.cites_iff, hparts.sorted_facts⟩

/-! ### Two small bundles -/

namespace Sample

/-- A record with the given number and type. -/
def record (seq : ℤ) (eventType : String) (more : Fields) : Fields :=
  [("schema_version", .str "1"), ("event_id", .str "e"), ("source_id", .str "api"),
    ("source_sequence", .int seq), ("event_type", .str eventType), ("cluster_id", .str "c"),
    ("observed_at", .str "2026-01-01T00:00:00Z")] ++ more

def heartbeat : Fields := record 1 "collector.heartbeat" []

/-- The account of the case creates a Pod. -/
def creation : Fields :=
  record 2 apiResponse [("actor", .obj [("username", .str "system:serviceaccount:n:s")]),
    ("action", .obj [("verb", .str "create"), ("resource", .str "pods"), ("namespace", .str "n")]),
    ("target", .obj [("uid", .str "p"), ("service_account", .str "s")]),
    ("outcome", .obj [("http_status", .int 201)])]

def profile : Fields :=
  [("id", .str "k"), ("kubernetes_version", .str "1.31"),
    ("api_audiences", Afterlock.Sample.texts ["a"]), ("projected_token_ttl_seconds", .int 3600)]

/-- Reads the lines of some records. -/
def reader (ms : List Fields) (line : String) : Option Json :=
  (ms.find? fun m => canonicalJson (.obj m) = line).map .obj

def host : Host where
  loads := reader [heartbeat, creation]
  timestamp s := if s = "2026-01-01T00:00:00+00:00" then some (1767225600, 1767225600) else none
  profile id := if id = "k" then some profile else none

def heartbeatLine : String := canonicalJson (.obj heartbeat)

def creationLine : String := canonicalJson (.obj creation)

/-- A bundle in which only a source was heard of. -/
def quiet : ReplayBundle where
  manifest := [("case_id", .str "case"), ("cluster_id", .str "c")]
  inventory := [("service_accounts", .arr [Afterlock.Sample.account "n" "s"]),
    ("secrets", .arr [Afterlock.Sample.secret "n" "x"])]
  case := [("profile", .str "k"), ("analysis_time", .str "2026-01-01T00:00:00Z"),
    ("compromised_credentials", .arr [.obj [("id", .str "i"), ("kind", .str "sa_token"),
      ("username", .str "system:serviceaccount:n:s"), ("audience", .str "a")]]),
    ("required_sources", Afterlock.Sample.texts ["api"]),
    ("max_evidence_staleness_seconds", .int 60),
    ("objectives", .arr [Afterlock.Sample.noSecretRead "o" "n" "x"])]
  eventLines := [heartbeatLine]
  few := by simp [maxEvents]

/-- The bundle in which a Pod was created as well. -/
def created : ReplayBundle :=
  { quiet with eventLines := [heartbeatLine, creationLine], few := by simp [maxEvents] }

lemma reader_mem {ms : List Fields} (hd : (ms.map fun m => chars (.obj m)).Nodup) {m : Fields}
    (hm : m ∈ ms) : reader ms (canonicalJson (.obj m)) = some (.obj m) := by
  have hinj : ∀ x ∈ ms, canonicalJson (.obj x) = canonicalJson (.obj m) → x = m := fun x hx h =>
    List.inj_on_of_nodup_map hd hx hm (String.ofList_injective h)
  cases hfind : ms.find? fun x => canonicalJson (.obj x) = canonicalJson (.obj m) with
  | none => exact absurd (List.find?_eq_none.1 hfind m hm) (by simp)
  | some x =>
      have hx := hinj x (List.mem_of_find?_eq_some hfind) (by simpa using List.find?_some hfind)
      rw [reader, hfind, hx]
      rfl

lemma utf8ByteSize_le (cs : List Char) : (String.ofList cs).utf8ByteSize ≤ 4 * cs.length := by
  have hsize : (String.ofList cs).utf8ByteSize = (cs.flatMap String.utf8EncodeChar).length := by
    rw [← String.size_toByteArray]
    simp [List.utf8Encode]
  rw [hsize, List.length_flatMap]
  refine (List.sum_le_card_nsmul _ 4 fun n hn => ?_).trans (by simp [Nat.mul_comm])
  obtain ⟨c, -, rfl⟩ := List.mem_map.1 hn
  simpa using c.utf8Size_le_four

/-- The line of a record without problems is read as the record. -/
lemma readLine_canonical {host : Host} {clusterId : String} {m : Fields}
    (hloads : host.loads (canonicalJson (.obj m)) = some (.obj m))
    (hstrip : (Text.strip (chars (.obj m))).isEmpty = false)
    (hshort : 4 * (chars (.obj m)).length ≤ maxLineBytes)
    (hscan : scan "$" 0 (.obj m) = []) (hfields : fieldProblems host clusterId m = []) :
    readLine host clusterId (canonicalJson (.obj m)) = .record (envelope host m) := by
  have hlen : ¬(canonicalJson (.obj m)).utf8ByteSize > maxLineBytes :=
    not_lt.2 ((utf8ByteSize_le _).trans hshort)
  rw [readLine, canonicalJson, String.toList_ofList, hstrip, if_neg (by simp), ← canonicalJson,
    if_neg hlen, hloads]
  simp [validateEnvelope, hscan, hfields]

lemma lines_distinct : ([heartbeat, creation].map fun m => chars (.obj m)).Nodup := by
  decide +kernel

lemma host_loads : host.loads = reader [heartbeat, creation] := by
  simp only [host]

lemma read_heartbeat : readLine host "c" heartbeatLine = .record (envelope host heartbeat) :=
  readLine_canonical (host_loads ▸ reader_mem lines_distinct (by simp)) (by decide +kernel)
    (by decide +kernel) (by decide +kernel) (by decide +kernel)

lemma read_creation : readLine host "c" creationLine = .record (envelope host creation) :=
  readLine_canonical (host_loads ▸ reader_mem lines_distinct (by simp)) (by decide +kernel)
    (by decide +kernel) (by decide +kernel) (by decide +kernel)

/-- What the lines of the first bundle come to. -/
def heard : Intake := Intake.empty.accept (envelope host heartbeat)

lemma gather_eq_of {host : Host} {b : ReplayBundle} {caseId clusterId : String} {records : Intake}
    (hcase : (get b.manifest "case_id").asStr? = some caseId)
    (hcluster : (get b.manifest "cluster_id").asStr? = some clusterId)
    (hr : intake host clusterId b.eventLines = records) :
    gather host b = gatherRecords host b caseId clusterId records := by
  rw [gather, hcase, hcluster, ← hr]
  rfl

lemma gather_quiet : gather host quiet = gatherRecords host quiet "case" "c" heard := by
  refine gather_eq_of (by decide +kernel) (by decide +kernel) ?_
  have hone : ∀ {l : String} {e : Envelope}, readLine host "c" l = .record e →
      intake host "c" [l] = Intake.empty.accept e := by
    intro l e h
    simp [intake, h, Intake.add]
  exact hone read_heartbeat

lemma gather_created : gather host created =
    gatherRecords host created "case" "c" (heard.accept (envelope host creation)) := by
  refine gather_eq_of (by decide +kernel) (by decide +kernel) ?_
  have htwo : ∀ {l l' : String} {e e' : Envelope}, readLine host "c" l = .record e →
      readLine host "c" l' = .record e' →
      intake host "c" [l, l'] = (Intake.empty.accept e).accept e' := by
    intro l l' e e' h h'
    simp [intake, h, h', Intake.add]
  exact htwo read_heartbeat read_creation

lemma projected_created : (project host created).isSome = true := by
  rw [project, gather_created]
  decide +kernel

end Sample

theorem created_facts : ∃ p inp, project Sample.host Sample.created = some (p, inp) ∧
    ∃ ctx start, contextOf Sample.host Sample.created p.profile = some (ctx, start) ∧
      ∀ uid, uid ∈ p.attackerPods ↔ Acts ctx (Sample.created.events Sample.host) uid := by
  obtain ⟨⟨p, inp⟩, h⟩ := Option.isSome_iff_exists.1 Sample.projected_created
  obtain ⟨ctx, start, hctx, hpods, -⟩ := projected_facts h
  exact ⟨p, inp, h, ctx, start, hctx, hpods⟩

end Evidence

end Afterlock
