import Afterlock.Evidence.Attribution
import Afterlock.Lib.Collate

/-!
# What an event contributes

The loop that reads the events keeps tables of facts and credentials and a list of gaps.  What an
event contributes to them does not depend on what was collected before (`collect_eq`), so what is
collected in the end is collated from the contributions: under each key the table of facts has one
fact that cites the events that contribute it (`collated_facts`).
-/

namespace Afterlock

namespace Evidence

open Json

/-! ### Contributions -/

/-- A fact that one record rests on. -/
structure Contribution where
  kind : String
  args : List String
  status : String
  evidence : String
  note : String
deriving DecidableEq, Repr

def Contribution.key (c : Contribution) : String × List String := (c.kind, c.args)

/-- `add_fact`, for a contribution. -/
def contribute (facts : Table Entry.key) (c : Contribution) : Table Entry.key :=
  addFact facts c.kind c.args c.status c.evidence c.note

/-- What an event contributes. -/
structure Effect where
  offers : List Credential
  facts : List Contribution
  gaps : List Gap
  beats : List (String × ℤ)
  ignored : List Ignored

namespace Effect

def empty : Effect := ⟨[], [], [], [], []⟩

def ofFacts (facts : List Contribution) : Effect := { empty with facts := facts }

def ofGap (g : Gap) : Effect := { empty with gaps := [g] }

def append (x y : Effect) : Effect where
  offers := x.offers ++ y.offers
  facts := x.facts ++ y.facts
  gaps := x.gaps ++ y.gaps
  beats := x.beats ++ y.beats
  ignored := x.ignored ++ y.ignored

end Effect

/-- Store a heartbeat. -/
def store (heartbeats : Table (Prod.fst : String × ℤ → String)) (b : String × ℤ) :
    Table (Prod.fst : String × ℤ → String) :=
  heartbeats.put (b.1, max (((heartbeats.get? b.1).map Prod.snd).getD 0) b.2)

/-- Collect what an event contributes. -/
def Collected.apply (s : Collected) (x : Effect) : Collected where
  credentials := x.offers.foldl offer s.credentials
  facts := x.facts.foldl contribute s.facts
  gaps := s.gaps ++ x.gaps
  heartbeats := x.beats.foldl store s.heartbeats
  ignored := s.ignored ++ x.ignored

section

variable (ctx : Context) (pods : List String)

/-- What a request from a Pod of the attacker shows. -/
def possession (actor : Fields) (ref : String) : Option Effect :=
  match isIn (get actor "pod_uid") pods with
  | none => none
  | some false => some .empty
  | some true =>
      let pod := (get actor "pod_uid").text
      match audienceOf ctx.profile actor, get actor "username" with
      | none, _ => none
      | some aud, .str username =>
          (observedExpiry ctx.host actor).map fun expiry =>
            { Effect.empty with
              offers := [observedCredential username pod aud (get actor "sa_uid") expiry]
              facts := [⟨"possesses_credential", [observedId pod aud], "observed", ref,
                "credential observed in use"⟩] }
      | some _, _ => some .empty

/-- What the creation of a Pod, or a way into one, gives. -/
def podEffect (ns : Json) (target : Fields) (ref uid : String) : Effect :=
  let control : Contribution := ⟨"controls_pod", [uid], "observed", ref, ""⟩
  if ctx.pods.contains uid then .ofFacts [control]
  else
    match get target "service_account", ns with
    | .str sa, .str ns =>
        .ofFacts [control, ⟨"historical_pod", [uid, ns, sa], "observed", ref,
          "attacker pod no longer in inventory"⟩]
    | _, _ =>
        { Effect.ofFacts [control] with
          gaps := [missingMetadata ("pod-sa-unknown:" ++ uid)
            ("service account of attacker pod " ++ uid ++ " is unknown") ref] }

/-- What reading a Secret gives. -/
def secretEffect (target : Fields) (ref ns name : String) : Option Effect :=
  let version := get target "observed_version"
  if version.asInt?.isSome then
    some (.ofFacts [⟨"knows_secret", [ns, name, version.text], "observed", ref, ""⟩])
  else
    match ctx.secrets.get? (ns, name) with
    | none =>
        some (.ofGap (missingMetadata ("secret-version-unknown:" ++ ns ++ "/" ++ name)
          ("version of secret " ++ ns ++ "/" ++ name ++ " read at " ++ ref ++ " is unknown") ref))
    | some sec =>
        (sec.2.lookup "version").map fun version =>
          .ofFacts [⟨"knows_secret", [ns, name, version.text], "observed", ref,
            "version not in audit record; assumed equal to inventory version"⟩]

/-- What a list or a watch of Secrets gives. -/
def secretsEffect (verb : String) (ns name : Json) (ref : String) : Effect :=
  .ofFacts ((listedSecrets ctx ns name).map fun sec =>
    ⟨"knows_secret", [sec.1.1, sec.1.2, (get sec.2 "version").text], "observed", ref,
      verb ++ " response; version assumed equal to inventory version"⟩)

/-- What an action gives. -/
def acquisition (action target : Fields) (ref : String) : Option Effect :=
  let verb := get action "verb"
  let resource := get action "resource"
  let ns := get action "namespace"
  let uid := (get target "uid").asStr?
  let name := (get target "name").asStr?
  if isText verb "create" && isPods resource && uid.isSome then
    some (podEffect ctx ns target ref (uid.getD ""))
  else if isText verb "create" && isText resource "deployments" && uid.isSome then
    some (.ofFacts [⟨"controls_controller", [uid.getD ""], "observed", ref, ""⟩])
  else if isText verb "get" && isText resource "secrets" && ns.asStr?.isSome && name.isSome then
    secretEffect ctx target ref (ns.asStr?.getD "") (name.getD "")
  else if (isText verb "list" || isText verb "watch") && isText resource "secrets" then
    some (secretsEffect ctx verb.text ns (get target "name") ref)
  else some .empty

/-- What a response of the API server contributes. -/
def requestEffect (e : Envelope) : Option Effect := do
  if ← attributed ctx.users pods e then
    let x ← possession ctx pods (← dict (get e.body "actor")) e.ref
    let y ← acquisition ctx (← dict (get e.body "action")) (← dict (get e.body "target")) e.ref
    pure (x.append y)
  else pure .empty

/-- What an event contributes; `none` is an event that cannot be read. -/
def effect (e : Envelope) : Option Effect :=
  if e.eventType = "collector.gap" then
    some (if gapId e ∈ ctx.resolved then .empty else .ofGap (observationGap e (gapId e)))
  else if e.eventType = "collector.heartbeat" then
    some { Effect.empty with beats := [(e.sourceId, e.observedAt)] }
  else if e.eventType ∉ supportedEventTypes then
    some { Effect.empty with
      ignored := [⟨e.ref, "unsupported event type " ++ quoted e.eventType⟩] }
  else if e.eventType = "lab.receipt" then
    some { Effect.empty with
      ignored := [⟨e.ref, "lab receipts are validation records, not attacker evidence"⟩] }
  else requestEffect ctx pods e

end

/-! ### The cases of an effect -/

lemma isText_iff {value : Json} {s : String} : isText value s = true ↔ value = .str s := by
  rw [isText, decide_eq_true_iff, asStr?_eq_some]

lemma isText_str {s t : String} : isText (.str s) t = decide (s = t) := by
  simp [isText, asStr?]

lemma eq_str_of_isSome {v : Json} (h : v.asStr?.isSome = true) : v = .str (v.asStr?.getD "") := by
  obtain ⟨s, hs⟩ := Option.isSome_iff_exists.1 h
  rw [hs, asStr?_eq_some.1 hs, Option.getD_some]

section

variable {ctx : Context} {pods : List String} {ref : String} {actor action target : Fields}
  {x : Effect}

lemma possession_cases (h : possession ctx pods actor ref = some x) :
    x = .empty ∨ ∃ pod aud username expiry, get actor "pod_uid" = .str pod ∧ pod ∈ pods ∧
      audienceOf ctx.profile actor = some aud ∧ get actor "username" = .str username ∧
      x = { Effect.empty with
        offers := [observedCredential username pod aud (get actor "sa_uid") expiry]
        facts := [⟨"possesses_credential", [observedId pod aud], "observed", ref,
          "credential observed in use"⟩] } := by
  unfold possession at h
  rcases hin : isIn (get actor "pod_uid") pods with _ | _ | _ <;> rw [hin] at h
  · cases h
  · cases h
    exact .inl rfl
  · obtain ⟨pod, hpod, hp⟩ := isIn_eq_some_true_iff.1 hin
    rcases haud : audienceOf ctx.profile actor with _ | aud <;> rw [haud] at h
    · cases h
    · cases hu : get actor "username" with
      | str username =>
          rw [hu, hp] at h
          obtain ⟨expiry, -, rfl⟩ := Option.map_eq_some_iff.1 h
          exact .inr ⟨pod, aud, username, expiry, hp, hpod, rfl, rfl, rfl⟩
      | _ =>
          rw [hu] at h
          cases h
          exact .inl rfl

lemma gaps_possession (h : possession ctx pods actor ref = some x) : x.gaps = [] := by
  obtain rfl | ⟨_, _, _, _, -, -, -, -, rfl⟩ := possession_cases h
  · rfl
  · rfl

/-- A request from a Pod of the attacker that can be read has an audience. -/
lemma exists_audience_of_possession {pod : String} (hpod : pod ∈ pods)
    (hp : get actor "pod_uid" = .str pod) (h : possession ctx pods actor ref = some x) :
    ∃ aud, audienceOf ctx.profile actor = some aud := by
  have hin : isIn (get actor "pod_uid") pods = some true :=
    isIn_eq_some_true_iff.2 ⟨pod, hpod, hp⟩
  rw [possession, hin] at h
  rcases haud : audienceOf ctx.profile actor with _ | aud
  · rw [haud] at h
    cases h
  · exact ⟨aud, rfl⟩

lemma podEffect_cases (ctx : Context) (ns : Json) (target : Fields) (ref uid : String) :
    (ctx.pods.contains uid = true ∧ podEffect ctx ns target ref uid =
      .ofFacts [⟨"controls_pod", [uid], "observed", ref, ""⟩]) ∨
    (ctx.pods.contains uid = false ∧ ∃ sa name, get target "service_account" = .str sa ∧
      ns = .str name ∧ podEffect ctx ns target ref uid =
        .ofFacts [⟨"controls_pod", [uid], "observed", ref, ""⟩,
          ⟨"historical_pod", [uid, name, sa], "observed", ref,
            "attacker pod no longer in inventory"⟩]) ∨
    (ctx.pods.contains uid = false ∧ podEffect ctx ns target ref uid =
      { Effect.ofFacts [⟨"controls_pod", [uid], "observed", ref, ""⟩] with
        gaps := [missingMetadata ("pod-sa-unknown:" ++ uid)
          ("service account of attacker pod " ++ uid ++ " is unknown") ref] }) := by
  unfold podEffect
  dsimp only
  split_ifs with hold
  · exact .inl ⟨hold, rfl⟩
  · rw [Bool.not_eq_true] at hold
    cases hsa : get target "service_account" with
    | str sa =>
        cases ns with
        | str name => exact .inr (.inl ⟨hold, sa, name, rfl, rfl, rfl⟩)
        | _ => exact .inr (.inr ⟨hold, rfl⟩)
    | _ => exact .inr (.inr ⟨hold, rfl⟩)

lemma secretEffect_cases {ns name : String} (h : secretEffect ctx target ref ns name = some x) :
    ((get target "observed_version").asInt?.isSome = true ∧
      x = .ofFacts [⟨"knows_secret", [ns, name, (get target "observed_version").text], "observed",
        ref, ""⟩]) ∨
    ((get target "observed_version").asInt? = none ∧ ∃ sec version,
      ctx.secrets.get? (ns, name) = some sec ∧ sec.2.lookup "version" = some version ∧
      x = .ofFacts [⟨"knows_secret", [ns, name, version.text], "observed", ref,
        "version not in audit record; assumed equal to inventory version"⟩]) ∨
    ((get target "observed_version").asInt? = none ∧ ctx.secrets.get? (ns, name) = none ∧
      x = .ofGap (missingMetadata ("secret-version-unknown:" ++ ns ++ "/" ++ name)
        ("version of secret " ++ ns ++ "/" ++ name ++ " read at " ++ ref ++ " is unknown") ref)) := by
  unfold secretEffect at h
  dsimp only at h
  split_ifs at h with hv
  · cases h
    exact .inl ⟨hv, rfl⟩
  · have hv' : (get target "observed_version").asInt? = none := by simpa using hv
    rcases hsec : ctx.secrets.get? (ns, name) with _ | sec <;> rw [hsec] at h
    · cases h
      exact .inr (.inr ⟨hv', rfl, rfl⟩)
    · obtain ⟨version, hver, rfl⟩ := Option.map_eq_some_iff.1 h
      exact .inr (.inl ⟨hv', sec, version, rfl, hver, rfl⟩)

lemma acquisition_cases (h : acquisition ctx action target ref = some x) :
    (∃ uid, get action "verb" = .str "create" ∧ isPods (get action "resource") = true ∧
      get target "uid" = .str uid ∧ x = podEffect ctx (get action "namespace") target ref uid) ∨
    (∃ uid, get action "verb" = .str "create" ∧ get action "resource" = .str "deployments" ∧
      get target "uid" = .str uid ∧
      x = .ofFacts [⟨"controls_controller", [uid], "observed", ref, ""⟩]) ∨
    (∃ ns name, get action "verb" = .str "get" ∧ get action "resource" = .str "secrets" ∧
      get action "namespace" = .str ns ∧ get target "name" = .str name ∧
      secretEffect ctx target ref ns name = some x) ∨
    (∃ verb, (verb = "list" ∨ verb = "watch") ∧ get action "verb" = .str verb ∧
      get action "resource" = .str "secrets" ∧
      x = secretsEffect ctx verb (get action "namespace") (get target "name") ref) ∨
    x = .empty := by
  unfold acquisition at h
  dsimp only at h
  split_ifs at h with h1 h2 h3 h4
  · cases h
    obtain ⟨⟨hv, hr⟩, hu⟩ := by simpa only [Bool.and_eq_true] using h1
    exact .inl ⟨_, isText_iff.1 hv, hr, eq_str_of_isSome hu, rfl⟩
  · cases h
    obtain ⟨⟨hv, hr⟩, hu⟩ := by simpa only [Bool.and_eq_true] using h2
    exact .inr (.inl ⟨_, isText_iff.1 hv, isText_iff.1 hr, eq_str_of_isSome hu, rfl⟩)
  · obtain ⟨⟨⟨hv, hr⟩, hns⟩, hname⟩ := by simpa only [Bool.and_eq_true] using h3
    exact .inr (.inr (.inl ⟨_, _, isText_iff.1 hv, isText_iff.1 hr, eq_str_of_isSome hns,
      eq_str_of_isSome hname, h⟩))
  · cases h
    obtain ⟨hv, hr⟩ := by simpa only [Bool.and_eq_true, Bool.or_eq_true] using h4
    refine .inr (.inr (.inr (.inl ?_)))
    rcases hv with hv | hv
    · exact ⟨"list", .inl rfl, isText_iff.1 hv, isText_iff.1 hr, by rw [isText_iff.1 hv]; rfl⟩
    · exact ⟨"watch", .inr rfl, isText_iff.1 hv, isText_iff.1 hr, by rw [isText_iff.1 hv]; rfl⟩
  · cases h
    exact .inr (.inr (.inr (.inr rfl)))

end

/-! ### The loop collects the contributions -/

namespace Collected

variable {s : Collected} {x y : Effect}

@[simp] lemma apply_empty : s.apply .empty = s := by
  simp [apply, Effect.empty]

lemma apply_append : s.apply (x.append y) = (s.apply x).apply y := by
  simp [apply, Effect.append]

lemma apply_ofFacts {facts : List Contribution} :
    s.apply (.ofFacts facts) = { s with facts := facts.foldl contribute s.facts } := by
  simp [apply, Effect.ofFacts, Effect.empty]

lemma apply_ofGap {g : Gap} : s.apply (.ofGap g) = { s with gaps := s.gaps ++ [g] } := by
  simp [apply, Effect.ofGap, Effect.empty]

end Collected

section

variable {ctx : Context} {pods : List String} {s : Collected}

lemma possess_eq {actor : Fields} {ref : String} :
    possess ctx pods s actor ref = (possession ctx pods actor ref).map s.apply := by
  unfold possess possession
  rcases isIn (get actor "pod_uid") pods with _ | _ | _
  · rfl
  · simp
  · rcases audienceOf ctx.profile actor with _ | aud
    · rfl
    · cases get actor "username" with
      | str username =>
          dsimp only
          rcases observedExpiry ctx.host actor with _ | expiry
          · rfl
          · simp [Collected.apply, Effect.empty, contribute]
      | _ => simp

lemma acquirePod_eq {ns : Json} {target : Fields} {ref uid : String} :
    acquirePod ctx s ns target ref uid = s.apply (podEffect ctx ns target ref uid) := by
  unfold acquirePod podEffect
  dsimp only
  split_ifs
  · simp [Collected.apply_ofFacts, contribute]
  · cases get target "service_account" with
    | str sa =>
        cases ns with
        | str ns => simp [Collected.apply_ofFacts, contribute]
        | _ => simp [Collected.apply, Effect.ofFacts, Effect.empty, contribute]
    | _ => simp [Collected.apply, Effect.ofFacts, Effect.empty, contribute]

lemma acquireSecret_eq {target : Fields} {ref ns name : String} :
    acquireSecret ctx s target ref ns name =
      (secretEffect ctx target ref ns name).map s.apply := by
  unfold acquireSecret secretEffect
  dsimp only
  split_ifs
  · simp [Collected.apply_ofFacts, contribute]
  · rcases ctx.secrets.get? (ns, name) with _ | sec
    · simp [Collected.apply_ofGap]
    · dsimp only
      rcases sec.2.lookup "version" with _ | version
      · rfl
      · simp [Collected.apply_ofFacts, contribute]

lemma acquireSecrets_eq {verb : String} {ns name : Json} {ref : String} :
    acquireSecrets ctx s verb ns name ref = s.apply (secretsEffect ctx verb ns name ref) := by
  rw [secretsEffect, Collected.apply_ofFacts, List.foldl_map]
  rfl

lemma acquire_eq {action target : Fields} {ref : String} :
    acquire ctx s action target ref = (acquisition ctx action target ref).map s.apply := by
  unfold acquire acquisition
  dsimp only
  split_ifs
  · rw [acquirePod_eq, Option.map_some]
  · simp [Collected.apply_ofFacts, contribute]
  · exact acquireSecret_eq
  · rw [acquireSecrets_eq, Option.map_some]
  · simp

lemma collectRequest_eq {e : Envelope} :
    collectRequest ctx pods s e = (requestEffect ctx pods e).map s.apply := by
  unfold collectRequest requestEffect
  rcases attributed ctx.users pods e with _ | _ | _
  · rfl
  · simp
  · rcases dict (get e.body "actor") with _ | actor
    · rfl
    · simp only [Option.bind_eq_bind, Option.bind_some, if_true, possess_eq, acquire_eq]
      rcases possession ctx pods actor e.ref with _ | x
      · rfl
      · rcases dict (get e.body "action") with _ | action
        · rfl
        · rcases dict (get e.body "target") with _ | target
          · rfl
          · simp only [Option.map_some, Option.bind_some]
            rcases acquisition ctx action target e.ref with _ | y
            · rfl
            · exact congrArg some Collected.apply_append.symm

/-- The turn of the loop for an event collects what the event contributes. -/
lemma collect_eq {e : Envelope} :
    collect ctx pods s e = (effect ctx pods e).map s.apply := by
  rw [collect, effect]
  by_cases hgap : e.eventType = "collector.gap"
  · rw [if_pos hgap, if_pos hgap]
    split_ifs
    · simp
    · simp [Collected.apply_ofGap]
  · rw [if_neg hgap, if_neg hgap]
    by_cases hbeat : e.eventType = "collector.heartbeat"
    · rw [if_pos hbeat, if_pos hbeat]
      simp [Collected.apply, Effect.empty, beat, store]
    · rw [if_neg hbeat, if_neg hbeat]
      by_cases hknown : e.eventType ∉ supportedEventTypes
      · rw [if_pos hknown, if_pos hknown]
        simp [Collected.apply, Effect.empty]
      · rw [if_neg hknown, if_neg hknown]
        by_cases hlab : e.eventType = "lab.receipt"
        · rw [if_pos hlab, if_pos hlab]
          simp [Collected.apply, Effect.empty]
        · rw [if_neg hlab, if_neg hlab]
          exact collectRequest_eq

/-- The loop fails on an event that cannot be read, and otherwise collects all contributions. -/
lemma foldlM_collect (events : List Envelope) : events.foldlM (collect ctx pods) s =
    (events.mapM (effect ctx pods)).map fun xs => xs.foldl Collected.apply s := by
  induction events generalizing s with
  | nil => rfl
  | cons e events ih =>
      rw [List.foldlM_cons, List.mapM_cons, collect_eq]
      rcases effect ctx pods e with _ | x
      · rfl
      · simp only [Option.map_some, Option.bind_eq_bind, Option.bind_some, ih]
        cases events.mapM (effect ctx pods) <;> rfl

end

/-- What is collected of contributions, part by part. -/
lemma foldl_apply (xs : List Effect) (s : Collected) : xs.foldl Collected.apply s =
    ⟨(xs.flatMap Effect.offers).foldl offer s.credentials,
      (xs.flatMap Effect.facts).foldl contribute s.facts, s.gaps ++ xs.flatMap Effect.gaps,
      (xs.flatMap Effect.beats).foldl store s.heartbeats,
      s.ignored ++ xs.flatMap Effect.ignored⟩ := by
  induction xs generalizing s with
  | nil => simp
  | cons x xs ih => simp [ih, Collected.apply]

/-! ### One fact for each key -/

/-- The fact that contributions with one key make. -/
def collated : List Contribution → Option Entry
  | [] => none
  | c :: cs => some ⟨c.kind, c.args, c.status,
      Text.sortedSet ((c :: cs).map Contribution.evidence), c.note⟩

/-- A fact with one more contribution. -/
def cite : Option Entry → Contribution → Option Entry
  | none, c => some ⟨c.kind, c.args, c.status, [c.evidence], c.note⟩
  | some f, c => some { f with evidence := Text.insertSorted f.evidence c.evidence }

lemma local_contribute : Table.Local contribute Contribution.key cite := by
  intro facts c k
  unfold contribute addFact
  rw [← Contribution.key]
  cases hget : facts.get? c.key with
  | none =>
      dsimp only
      split_ifs with hk
      · subst hk
        rw [hget]
        exact Table.get?_put_self
      · exact Table.get?_put_of_ne fun h => hk h.symm
  | some f =>
      have hkey : f.key = c.key := (Table.get?_eq_some_iff.1 hget).2
      dsimp only
      by_cases hk : c.key = k
      · subst hk
        rw [if_pos rfl, hget, cite, Text.insertSorted]
        split_ifs
        · exact hget
        · rw [← hkey]
          exact Table.get?_put_self
      · rw [if_neg hk]
        split_ifs
        · rfl
        · exact Table.get?_put_of_ne fun h => hk (hkey.symm.trans h.symm)

lemma foldl_cite (cs : List Contribution) : cs.foldl cite none = collated cs := by
  induction cs using List.reverseRecOn with
  | nil => rfl
  | append_singleton cs c ih =>
      rw [List.foldl_append, ih]
      cases cs with
      | nil => simp [collated, cite, Text.sortedSet_singleton]
      | cons d cs =>
          simp only [List.foldl_cons, List.foldl_nil, collated, cite, Text.insertSorted_sortedSet,
            List.cons_append, List.map_cons, List.map_append, List.map_nil]

/-- The table of the contributions has under each key the fact that those with the key make. -/
lemma collated_facts (cs : List Contribution) (k : String × List String) :
    (cs.foldl contribute ∅).get? k = collated (cs.filter fun c => c.key = k) := by
  rw [local_contribute.get?_foldl, ← foldl_cite]
  rfl

/-- A record is cited for a fact if it contributes the fact. -/
lemma cites_iff {cs : List Contribution} {k : String × List String} {r : String} :
    (∃ f ∈ cs.foldl contribute ∅, f.key = k ∧ r ∈ f.evidence) ↔
      ∃ c ∈ cs, c.key = k ∧ c.evidence = r := by
  have hget : (∃ f ∈ cs.foldl contribute ∅, f.key = k ∧ r ∈ f.evidence) ↔
      ∃ f, collated (cs.filter fun c => c.key = k) = some f ∧ r ∈ f.evidence := by
    simp only [← collated_facts, Table.get?_eq_some_iff, and_assoc]
  have hmem : (∃ c ∈ cs, c.key = k ∧ c.evidence = r) ↔
      ∃ c ∈ cs.filter fun c => c.key = k, c.evidence = r := by
    simp [and_assoc]
  rw [hget, hmem]
  cases cs.filter fun c => c.key = k with
  | nil => simp [collated]
  | cons c cs => simp [collated, eq_comm (a := r)]

/-- There is a fact under a key if something contributes it. -/
lemma exists_key_iff {cs : List Contribution} {k : String × List String} :
    (∃ f ∈ cs.foldl contribute ∅, f.key = k) ↔ ∃ c ∈ cs, c.key = k := by
  have hget : (∃ f ∈ cs.foldl contribute ∅, f.key = k) ↔
      ∃ f, collated (cs.filter fun c => c.key = k) = some f := by
    simp only [← collated_facts, Table.get?_eq_some_iff]
  have hmem : (∃ c ∈ cs, c.key = k) ↔ ∃ c, c ∈ cs.filter fun c => c.key = k := by simp
  rw [hget, hmem]
  cases cs.filter fun c => c.key = k with
  | nil => simp [collated]
  | cons c cs => simp [collated]

/-- The records that a fact cites are sorted. -/
lemma sorted_evidence {cs : List Contribution} {f : Entry} (h : f ∈ cs.foldl contribute ∅) :
    f.evidence.Pairwise (· < ·) := by
  have hf := Table.get?_key h
  rw [collated_facts] at hf
  cases hcs : cs.filter fun c => c.key = f.key with
  | nil =>
      rw [hcs] at hf
      cases hf
  | cons c cs =>
      rw [hcs] at hf
      cases hf
      exact Text.pairwise_sortedSet _

end Evidence

end Afterlock
