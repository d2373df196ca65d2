import Afterlock.Evidence.Project

/-!
# Which requests are the attacker's

The specification of attribution: a Pod acts for the attacker if a successful request gave it to a
user of the case or to a Pod that acts for the attacker (`Acts`), and the requests of both are the
attacker's (`OfAttacker`).

`attribution` finds exactly these Pods, in whatever order the events are read, and fails only on an
event that the loop cannot read (`attribution_exact`).
-/

namespace Afterlock

namespace Evidence

open Json

/-! ### The specification -/

/-- The actor of a request that succeeded. -/
def Request (e : Envelope) (actor : Fields) : Prop :=
  dict (get e.body "actor") = some actor ∧
    ∃ outcome, dict (get e.body "outcome") = some outcome ∧ successful outcome = true

/-- A user of the case made the request. -/
def OfUser (users : List String) (e : Envelope) : Prop :=
  ∃ actor, Request e actor ∧ ∃ u ∈ users, get actor "username" = .str u

/-- The request was made from the Pod. -/
def FromPod (e : Envelope) (pod : String) : Prop :=
  ∃ actor, Request e actor ∧ hashable (get actor "username") = true ∧
    get actor "pod_uid" = .str pod

/-- The Pods that act for the attacker. -/
inductive Acts (ctx : Context) (events : List Envelope) : String → Prop where
  | user {e : Envelope} {given : List String} {uid : String} (he : e ∈ events)
      (hapi : e.eventType = apiResponse) (h : OfUser ctx.users e) (hg : gains ctx e = some given)
      (hu : uid ∈ given) : Acts ctx events uid
  | pod {e : Envelope} {given : List String} {uid pod : String} (he : e ∈ events)
      (hapi : e.eventType = apiResponse) (h : FromPod e pod) (hp : Acts ctx events pod)
      (hg : gains ctx e = some given) (hu : uid ∈ given) : Acts ctx events uid

/-- The request is the attacker's. -/
def OfAttacker (ctx : Context) (events : List Envelope) (e : Envelope) : Prop :=
  OfUser ctx.users e ∨ ∃ pod, FromPod e pod ∧ Acts ctx events pod

/-- The loop cannot read the event. -/
def Unreadable (ctx : Context) (events : List Envelope) (e : Envelope) : Prop :=
  attributed ctx.users [] e = none ∨ (OfAttacker ctx events e ∧ gains ctx e = none)

/-! ### One event -/

lemma isIn_eq_some_true_iff {value : Json} {xs : List String} :
    isIn value xs = some true ↔ ∃ s ∈ xs, value = .str s := by
  cases value <;> simp [isIn, hashable, asStr?]

lemma isIn_eq_none_iff {value : Json} {xs : List String} :
    isIn value xs = none ↔ hashable value = false := by
  simp [isIn]

/-- Who is the attacker, by the name and by the Pod. -/
lemma isAttacker_eq_some_true_iff {users pods : List String} {actor : Fields} :
    isAttacker users pods actor = some true ↔
      (∃ u ∈ users, get actor "username" = .str u) ∨
        (hashable (get actor "username") = true ∧ ∃ p ∈ pods, get actor "pod_uid" = .str p) := by
  rw [← isIn_eq_some_true_iff, ← isIn_eq_some_true_iff]
  have hnone : isIn (get actor "username") users = none ↔ _ := isIn_eq_none_iff
  unfold isAttacker
  rcases hu : isIn (get actor "username") users with _ | _ | _
  · simp [hnone.1 hu]
  · have hh : hashable (get actor "username") = true := by
      simpa [hu] using hnone
    simp only [hh, true_and]
    cases get actor "pod_uid" <;> simp [isIn, hashable, asStr?]
  · simp

lemma isAttacker_eq_none_iff {users pods : List String} {actor : Fields} :
    isAttacker users pods actor = none ↔ isAttacker users [] actor = none := by
  unfold isAttacker
  rcases isIn (get actor "username") users with _ | _ | _
  · simp
  · cases get actor "pod_uid" <;> simp [isIn, hashable]
  · simp

section

variable {users pods pods' : List String} {e : Envelope}

lemma attributed_eq : attributed users pods e =
    (dict (get e.body "actor")).bind fun actor => (dict (get e.body "outcome")).bind fun outcome =>
      (isAttacker users pods actor).map (· && successful outcome) := by
  simp only [attributed, Option.map_eq_bind, Function.comp_def]
  rfl

/-- A request is attributed if it succeeded and was made by a user or from a Pod of the attacker. -/
lemma attributed_eq_some_true_iff : attributed users pods e = some true ↔
    OfUser users e ∨ ∃ p ∈ pods, FromPod e p := by
  simp only [attributed_eq, Option.bind_eq_some_iff, Option.map_eq_some_iff, Bool.and_eq_true]
  constructor
  · rintro ⟨actor, ha, outcome, ho, _, hi, rfl, hs⟩
    rcases isAttacker_eq_some_true_iff.1 hi with hu | ⟨hh, p, hp, hpod⟩
    · exact .inl ⟨actor, ⟨ha, outcome, ho, hs⟩, hu⟩
    · exact .inr ⟨p, hp, actor, ⟨ha, outcome, ho, hs⟩, hh, hpod⟩
  · rintro (⟨actor, ⟨ha, outcome, ho, hs⟩, hu⟩ | ⟨p, hp, actor, ⟨ha, outcome, ho, hs⟩, hh, hpod⟩)
    · exact ⟨actor, ha, outcome, ho, true, isAttacker_eq_some_true_iff.2 (.inl hu), rfl, hs⟩
    · exact ⟨actor, ha, outcome, ho, true,
        isAttacker_eq_some_true_iff.2 (.inr ⟨hh, p, hp, hpod⟩), rfl, hs⟩

/-- Whether an event can be read does not depend on the Pods so far. -/
lemma attributed_eq_none_iff : attributed users pods e = none ↔ attributed users [] e = none := by
  simp only [attributed_eq]
  cases dict (get e.body "actor") with
  | none => simp
  | some actor =>
      cases dict (get e.body "outcome") with
      | none => simp
      | some outcome =>
          simp only [Option.bind_some, Option.map_eq_none_iff]
          exact isAttacker_eq_none_iff

/-- What is attributed for some Pods is attributed for more of them. -/
lemma attributed_mono (h : pods ⊆ pods') (hp : attributed users pods e = some true) :
    attributed users pods' e = some true := by
  rw [attributed_eq_some_true_iff] at hp ⊢
  exact hp.imp_right fun ⟨p, hp, hf⟩ => ⟨p, h hp, hf⟩

end

section

variable {ctx : Context} {pods : List String} {e : Envelope} {given : List String}

lemma establish_eq_some_iff : establish ctx e pods = some given ↔
    (e.eventType ≠ apiResponse ∧ given = []) ∨
      (e.eventType = apiResponse ∧ attributed ctx.users pods e = some false ∧ given = []) ∨
      (e.eventType = apiResponse ∧ attributed ctx.users pods e = some true ∧
        gains ctx e = some given) := by
  unfold establish
  by_cases hapi : e.eventType = apiResponse
  · rcases attributed ctx.users pods e with _ | _ | _ <;> simp [hapi, eq_comm]
  · simp [hapi, eq_comm]

lemma establish_eq_none_iff : establish ctx e pods = none ↔
    e.eventType = apiResponse ∧ (attributed ctx.users [] e = none ∨
      (attributed ctx.users pods e = some true ∧ gains ctx e = none)) := by
  unfold establish
  rw [← @attributed_eq_none_iff _ pods]
  by_cases hapi : e.eventType = apiResponse
  · rcases attributed ctx.users pods e with _ | _ | _ <;> simp [hapi]
  · simp [hapi]

/-- An event that is read with more Pods gives the attacker no less. -/
lemma growing_establish (ctx : Context) : Gather.Growing (establish ctx) where
  fails := by
    intro e pods pods' hsub h
    rw [establish_eq_none_iff] at h ⊢
    exact h.imp_right (Or.imp_right (And.imp_left (attributed_mono hsub)))
  grows := by
    intro e pods pods' given given' hsub h h'
    obtain ⟨-, rfl⟩ | ⟨-, -, rfl⟩ | ⟨hapi, hatt, hg⟩ := establish_eq_some_iff.1 h
    · exact List.nil_subset _
    · exact List.nil_subset _
    · obtain ⟨hne, -⟩ | ⟨-, hatt', -⟩ | ⟨-, -, hg'⟩ := establish_eq_some_iff.1 h'
      · exact absurd hapi hne
      · rw [attributed_mono hsub hatt] at hatt'
        cases hatt'
      · rw [hg] at hg'
        cases hg'
        exact List.Subset.refl _

end

/-! ### The loop -/

section

variable {ctx : Context} {events : List Envelope}

lemma establish_subset {e : Envelope} (he : e ∈ events) {pods given : List String}
    (h : establish ctx e pods = some given) : given ⊆ givable ctx events := by
  intro uid hu
  obtain ⟨-, rfl⟩ | ⟨-, -, rfl⟩ | ⟨-, -, hg⟩ := establish_eq_some_iff.1 h
  · cases hu
  · cases hu
  · exact List.mem_flatMap.2 ⟨e, he, by rw [hg]; exact hu⟩

/-- What the loop can gather is what acts for the attacker. -/
lemma gathered_iff_acts {uid : String} :
    Gather.Gathered (establish ctx) events uid ↔ Acts ctx events uid := by
  constructor
  · intro h
    induction h with
    | given _ he hest hu ih =>
        obtain ⟨-, rfl⟩ | ⟨-, -, rfl⟩ | ⟨hapi, hatt, hg⟩ := establish_eq_some_iff.1 hest
        · cases hu
        · cases hu
        · rcases attributed_eq_some_true_iff.1 hatt with hof | ⟨p, hp, hof⟩
          · exact .user he hapi hof hg hu
          · exact .pod he hapi hof (ih p hp) hg hu
  · intro h
    induction h with
    | user he hapi hof hg hu =>
        have hest : establish ctx _ [] = some _ := establish_eq_some_iff.2
          (.inr (.inr ⟨hapi, attributed_eq_some_true_iff.2 (.inl hof), hg⟩))
        exact .given (by simp) he hest hu
    | @pod _ _ _ p he hapi hof _ hg hu ih =>
        have hest : establish ctx _ [p] = some _ := establish_eq_some_iff.2
          (.inr (.inr ⟨hapi, attributed_eq_some_true_iff.2 (.inr ⟨p, by simp, hof⟩), hg⟩))
        exact .given (by simpa using ih) he hest hu

lemma mem_attribution_iff {pods : List String} (h : attribution ctx events = some pods)
    {uid : String} : uid ∈ pods ↔ Acts ctx events uid :=
  (Gather.mem_gather_iff (growing_establish ctx) h).trans gathered_iff_acts

/-- For the Pods that the loop finds, the attributed requests are the attacker's. -/
lemma attributed_iff_ofAttacker {pods : List String} (h : ∀ uid, uid ∈ pods ↔ Acts ctx events uid)
    {e : Envelope} : attributed ctx.users pods e = some true ↔ OfAttacker ctx events e := by
  rw [attributed_eq_some_true_iff]
  exact or_congr_right
    ⟨fun ⟨p, hp, hf⟩ => ⟨p, hf, (h p).1 hp⟩, fun ⟨p, hf, hp⟩ => ⟨p, (h p).2 hp, hf⟩⟩

lemma attribution_eq_none_iff : attribution ctx events = none ↔
    ∃ e ∈ events, e.eventType = apiResponse ∧ Unreadable ctx events e := by
  rw [attribution, Gather.gather_eq_none_iff (growing_establish ctx)
    (fun e he _ _ => establish_subset he) (Nat.lt_succ_self _)]
  refine exists_congr fun e => and_congr_right fun _ => ?_
  simp only [gathered_iff_acts, establish_eq_none_iff, Unreadable]
  constructor
  · rintro ⟨pods, hpods, hapi, h⟩
    refine ⟨hapi, h.imp_right (And.imp_left fun hatt => ?_)⟩
    exact (attributed_eq_some_true_iff.1 hatt).imp_right
      fun ⟨p, hp, hf⟩ => ⟨p, hf, hpods p hp⟩
  · rintro ⟨hapi, h | ⟨hof | ⟨p, hf, hp⟩, hg⟩⟩
    · exact ⟨[], by simp, hapi, .inl h⟩
    · exact ⟨[], by simp, hapi, .inr ⟨attributed_eq_some_true_iff.2 (.inl hof), hg⟩⟩
    · exact ⟨[p], by simpa using hp, hapi,
        .inr ⟨attributed_eq_some_true_iff.2 (.inr ⟨p, by simp, hf⟩), hg⟩⟩

/-- The loop ends with the Pods that act for the attacker, unless it meets an event of the API
server that it cannot read. -/
theorem attribution_exact (ctx : Context) (events : List Envelope) :
    (attribution ctx events = none ↔
      ∃ e ∈ events, e.eventType = apiResponse ∧ Unreadable ctx events e) ∧
    ∀ pods, attribution ctx events = some pods → ∀ uid, uid ∈ pods ↔ Acts ctx events uid :=
  ⟨attribution_eq_none_iff, fun _ h _ => mem_attribution_iff h⟩

/-- More events give the attacker no fewer Pods. -/
lemma Acts.mono {events' : List Envelope} (h : events ⊆ events') {uid : String}
    (hu : Acts ctx events uid) : Acts ctx events' uid :=
  gathered_iff_acts.1 ((gathered_iff_acts.2 hu).mono h)

lemma OfAttacker.mono {events' : List Envelope} (h : events ⊆ events') {e : Envelope}
    (he : OfAttacker ctx events e) : OfAttacker ctx events' e :=
  he.imp_right fun ⟨p, hf, hp⟩ => ⟨p, hf, hp.mono h⟩

end

end Evidence

end Afterlock
