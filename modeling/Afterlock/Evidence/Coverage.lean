import Afterlock.Evidence.Delivery
import Afterlock.Containment

/-!
# What is known to be missing

Every action of the attacker that a record names leaves a fact that cites the record, or a gap
(`actions_recorded`).  An analysis that concludes containment, for whatever remediation, rests on
evidence without any gap (`contained_evidence`).  Further lines never take a fact, a credential or a
gap back, except that a source that was silent can be heard (`more_evidence`).
-/

namespace Afterlock

namespace Evidence

open Json

/-! ### Facts and gaps for a record -/

/-- A fact of the projection cites the record. -/
def Cited (p : Projection) (kind : String) (args : List String) (e : Envelope) : Prop :=
  ∃ f ∈ p.facts, f.key = (kind, args) ∧ e.ref ∈ f.evidence

/-- A gap of the projection says that the record lacks something. -/
def Lacking (p : Projection) (e : Envelope) : Prop :=
  ∃ g ∈ p.gaps, g.kind = "missing_metadata" ∧ g.evidence = [e.ref]

/-- The version of a Secret that a request read: the one in its record or, where the record has
none, the one in the inventory. -/
def ReadVersion (ctx : Context) (target : Fields) (ns name : String) (version : Json) : Prop :=
  ((get target "observed_version").asInt?.isSome = true ∧
      version = get target "observed_version") ∨
    ((get target "observed_version").asInt? = none ∧
      ∃ sec, ctx.secrets.get? (ns, name) = some sec ∧ sec.2.lookup "version" = some version)

/-- What a projection records of an action of the attacker. -/
structure Recorded (ctx : Context) (events : List Envelope) (p : Projection) (e : Envelope)
    (actor action target : Fields) : Prop where
  /-- The credential that made the request. -/
  credential : ∀ pod username, get actor "pod_uid" = .str pod → Acts ctx events pod →
    get actor "username" = .str username →
      ∃ aud, audienceOf ctx.profile actor = some aud ∧
        Cited p "possesses_credential" [observedId pod aud] e
  pod : ∀ uid, get action "verb" = .str "create" → isPods (get action "resource") = true →
    get target "uid" = .str uid → Cited p "controls_pod" [uid] e ∧
      (ctx.pods.contains uid = true ∨
        (∃ ns sa, get action "namespace" = .str ns ∧ get target "service_account" = .str sa ∧
          Cited p "historical_pod" [uid, ns, sa] e) ∨ Lacking p e)
  controller : ∀ uid, get action "verb" = .str "create" →
    get action "resource" = .str "deployments" → get target "uid" = .str uid →
      Cited p "controls_controller" [uid] e
  secret : ∀ ns name, get action "verb" = .str "get" → get action "resource" = .str "secrets" →
    get action "namespace" = .str ns → get target "name" = .str name →
      (∃ version, ReadVersion ctx target ns name version ∧
        Cited p "knows_secret" [ns, name, version.text] e) ∨ Lacking p e
  listed : ∀ verb, verb = "list" ∨ verb = "watch" → get action "verb" = .str verb →
    get action "resource" = .str "secrets" →
      ∀ sec ∈ listedSecrets ctx (get action "namespace") (get target "name"),
        Cited p "knows_secret" [sec.1.1, sec.1.2, (get sec.2 "version").text] e
  /-- What a record does not name is lost without a gap. -/
  unnamed : get action "verb" = .str "create" → (get target "uid").asStr? = none →
    ∀ kind args, Shows ctx events e kind args → kind = "possesses_credential"

section

variable {host : Host} {b : ReplayBundle} {p : Projection} {ctx : Context} {start : Seed}
  {xs : List Effect} {silent : List Gap}

lemma Parts.mem_gaps (h : Parts host b p ctx start xs silent) {g : Gap} :
    g ∈ p.gaps ↔ g ∈ xs.flatMap Effect.gaps ∨ g ∈ silent ∨
      g ∈ (b.records host).diag.rejected.map rejectionGap ∨
      g ∈ (b.records host).diag.conflicts.map conflictGap := by
  rw [h.gaps, Text.mem_sortedBy]
  simp only [List.mem_append, or_assoc]

/-- A fact that a request of the attacker shows cites the request. -/
lemma Parts.cited (h : Parts host b p ctx start xs silent) {e : Envelope}
    (he : e ∈ b.events host) (hapi : e.eventType = apiResponse)
    (hatt : OfAttacker ctx (b.events host) e) {kind : String} {args : List String}
    (hshows : Shows ctx (b.events host) e kind args) : Cited p kind args e :=
  h.cites_iff.2 (.inr ⟨e, he, hapi, hatt, rfl, hshows⟩)

lemma Parts.lacking (h : Parts host b p ctx start xs silent) {e : Envelope} {x : Effect}
    (hx : x ∈ xs) {id description : String}
    (hg : missingMetadata id description e.ref ∈ x.gaps) : Lacking p e :=
  ⟨_, h.mem_gaps.2 (.inl (List.mem_flatMap.2 ⟨x, hx, hg⟩)), rfl, rfl⟩

/-- An attributed request is recorded. -/
lemma Parts.recorded (h : Parts host b p ctx start xs silent) {e : Envelope}
    (he : e ∈ b.events host) (hapi : e.eventType = apiResponse)
    (hatt : OfAttacker ctx (b.events host) e) :
    ∃ actor action target, dict (get e.body "actor") = some actor ∧ About e action target ∧
      Recorded ctx (b.events host) p e actor action target := by
  have hpods : ∀ uid, uid ∈ p.attackerPods ↔ Acts ctx (b.events host) uid :=
    fun _ => mem_attribution_iff h.pods
  obtain ⟨x, hx, heff⟩ := (mapM_eq_some h.effects).2 e he
  rw [effect_of_api hapi] at heff
  obtain ⟨actor, action, target, y, z, hactor, habout, hy, hz, rfl⟩ :=
    exists_of_requestEffect ((attributed_iff_ofAttacker hpods).2 hatt) heff
  have hcited : ∀ {kind args}, Shows ctx (b.events host) e kind args → Cited p kind args e :=
    h.cited he hapi hatt
  have hlacking : ∀ {id description}, missingMetadata id description e.ref ∈ z.gaps →
      Lacking p e := fun hg => h.lacking hx (List.mem_append_right _ hg)
  refine ⟨actor, action, target, hactor, habout, ?_, ?_, ?_, ?_, ?_, ?_⟩
  · -- the credential that the Pod has
    intro pod username hpod hacts hu
    obtain ⟨aud, haud⟩ := exists_audience_of_possession ((hpods pod).2 hacts) hpod hy
    exact ⟨aud, haud, hcited (.credential hactor hpod hacts haud hu)⟩
  · -- a Pod that is created
    intro uid hv hr hu
    have hdoes : Does e "create" action target := ⟨habout.1, habout.2, hv⟩
    refine ⟨hcited (.pod hdoes hr hu), ?_⟩
    cases hnew : ctx.pods.contains uid with
    | true => exact .inl rfl
    | false =>
        -- a new Pod whose service account the record does not name leaves a gap
        have hz' : z = podEffect ctx (get action "namespace") target e.ref uid := by
          simpa [acquisition, hv, hr, hu, isText_str, asStr?, eq_comm] using hz
        obtain ⟨hold, -⟩ | ⟨-, sa, ns, hsa, hns, -⟩ | ⟨-, heq⟩ :=
          podEffect_cases ctx (get action "namespace") target e.ref uid
        · exact .inl (hnew.symm.trans hold)
        · exact .inr (.inl ⟨ns, sa, hns, hsa, hcited (.historical hdoes hr hu hnew hns hsa)⟩)
        · rw [← hz'] at heq
          exact .inr (.inr (hlacking (by rw [heq]; exact List.mem_singleton_self _)))
  · -- a controller that is created
    intro uid hv hr hu
    exact hcited (.controller ⟨habout.1, habout.2, hv⟩ hr hu)
  · -- a Secret that is read: its version is in the record, or it has one only, or there is a gap
    intro ns name hv hr hns hname
    have hdoes : Does e "get" action target := ⟨habout.1, habout.2, hv⟩
    have hz' : secretEffect ctx target e.ref ns name = some z := by
      simpa [acquisition, hv, hr, hns, hname, isText_str, asStr?] using hz
    obtain ⟨hver, -⟩ | ⟨hver, sec, version, hsec, hfound, -⟩ | ⟨-, -, heq⟩ :=
      secretEffect_cases hz'
    · exact .inl ⟨_, .inl ⟨hver, rfl⟩, hcited (.secret hdoes hr hns hname hver)⟩
    · exact .inl ⟨version, .inr ⟨hver, sec, hsec, hfound⟩,
        hcited (.assumed hdoes hr hns hname hver hsec hfound)⟩
    · exact .inr (hlacking (by rw [heq]; exact List.mem_singleton_self _))
  · -- the Secrets that a list or a watch shows
    intro verb hverb hv hr sec hsec
    exact hcited (.listed hverb ⟨habout.1, habout.2, hv⟩ hr hsec)
  · -- without a UID the creation shows nothing but the credential
    intro hv hu kind args hshows
    have hsame : ∀ {v : String} {action' target' : Fields}, Does e v action' target' →
        v = "create" ∧ target' = target := by
      rintro v action' target' ⟨ha, ht, hv'⟩
      rw [habout.1] at ha
      rw [habout.2] at ht
      cases ha
      cases ht
      rw [hv] at hv'
      cases hv'
      exact ⟨rfl, rfl⟩
    cases hshows with
    | credential => rfl
    | pod hd _ hu' | historical hd _ hu' | controller hd _ hu' =>
        obtain ⟨-, rfl⟩ := hsame hd
        rw [hu'] at hu
        cases hu
    | secret hd | assumed hd => exact absurd (hsame hd).1 (by decide)
    | listed hverb hd =>
        rw [(hsame hd).1] at hverb
        exact absurd hverb (by decide)

end

/-- What a request gave is known: the service account of a Pod that is no longer in the inventory,
and the version of a Secret. -/
structure Named (ctx : Context) (action target : Fields) : Prop where
  pod : ∀ uid, get action "verb" = .str "create" → isPods (get action "resource") = true →
    get target "uid" = .str uid → ctx.pods.contains uid = true ∨
      ∃ ns sa, get action "namespace" = .str ns ∧ get target "service_account" = .str sa
  secret : ∀ ns name, get action "verb" = .str "get" → get action "resource" = .str "secrets" →
    get action "namespace" = .str ns → get target "name" = .str name →
      ∃ version, ReadVersion ctx target ns name version

lemma Recorded.named {ctx : Context} {events : List Envelope} {p : Projection} {e : Envelope}
    {actor action target : Fields} (h : Recorded ctx events p e actor action target)
    (hlacks : ¬Lacking p e) : Named ctx action target where
  pod uid hv hr hu := by
    obtain hold | ⟨ns, sa, hns, hsa, -⟩ | hlack := (h.pod uid hv hr hu).2
    · exact .inl hold
    · exact .inr ⟨ns, sa, hns, hsa⟩
    · exact absurd hlack hlacks
  secret ns name hv hr hns hname := by
    obtain ⟨version, hversion, -⟩ | hlack := h.secret ns name hv hr hns hname
    · exact ⟨version, hversion⟩
    · exact absurd hlack hlacks

/-- What an analysis that concludes containment rests on. -/
structure Whole (host : Host) (b : ReplayBundle) (ctx : Context) (p : Projection) : Prop where
  /-- A line is blank, or a record that was kept or repeats one that was. -/
  lines : ∀ line ∈ b.eventLines, readLine host (textAt b.manifest "cluster_id") line = .blank ∨
    ∃ e, readLine host (textAt b.manifest "cluster_id") line = .record e ∧
      ∃ kept ∈ b.events host, kept.key = e.key ∧ kept.contentKey = e.contentKey
  /-- What a collector missed was resolved. -/
  resolved : ∀ e ∈ b.events host, e.eventType = "collector.gap" → gapId e ∈ ctx.resolved
  /-- The sources that are required were heard of. -/
  heard : ∀ n, (get b.case "max_evidence_staleness_seconds").asInt? = some n →
    ∀ sources, iterate (getD b.case "required_sources" (.arr [])) = some sources →
      ∀ src ∈ sources, ∃ e ∈ b.events host, e.eventType = "collector.heartbeat" ∧
        src = .str e.sourceId ∧ p.analysisTime - max 0 e.observedAt ≤ n
  /-- No gap says that a record lacks what its action gave. -/
  named : ∀ e, ¬Lacking p e
  /-- What the requests of the attacker gave is known. -/
  requests : ∀ e ∈ b.events host, e.eventType = apiResponse →
    OfAttacker ctx (b.events host) e →
      ∃ action target, About e action target ∧ Named ctx action target

/-- A row of the table of heartbeats is no later than some heartbeat of the source. -/
lemma le_of_mem_store {beats : List (String × ℤ)} {row : String × ℤ}
    (h : row ∈ beats.foldl store (∅ : Table (Prod.fst : String × ℤ → String))) :
    ∃ t ∈ beats, t.1 = row.1 ∧ row.2 ≤ max 0 t.2 := by
  induction beats using List.reverseRecOn generalizing row with
  | nil => cases h
  | append_singleton beats t ih =>
      rw [List.foldl_append] at h
      simp only [List.foldl_cons, List.foldl_nil, store] at h
      rcases Table.mem_put.1 h with rfl | ⟨hrow, -⟩
      · cases hget : (beats.foldl store ∅).get? t.1 with
        | none =>
            refine ⟨t, List.mem_append_right _ (List.mem_singleton_self t), rfl, ?_⟩
            simp
        | some old =>
            obtain ⟨hold, hkey⟩ := Table.get?_eq_some_iff.1 hget
            obtain ⟨u, hu, huk, hle⟩ := ih hold
            rcases le_total old.2 t.2 with hlt | hlt
            · refine ⟨t, List.mem_append_right _ (List.mem_singleton_self t), rfl, ?_⟩
              simp [hlt]
            · refine ⟨u, List.mem_append_left _ hu, huk.trans hkey, ?_⟩
              simpa [max_eq_left hlt] using hle
      · obtain ⟨u, hu, huk, hle⟩ := ih hrow
        exact ⟨u, List.mem_append_left _ hu, huk, hle⟩

lemma beats_possession {ctx : Context} {pods : List String} {actor : Fields} {ref : String}
    {x : Effect} (h : possession ctx pods actor ref = some x) : x.beats = [] := by
  obtain rfl | ⟨_, _, _, _, -, -, -, -, rfl⟩ := possession_cases h
  · rfl
  · rfl

lemma beats_acquisition {ctx : Context} {action target : Fields} {ref : String} {y : Effect}
    (h : acquisition ctx action target ref = some y) : y.beats = [] := by
  obtain ⟨uid, -, -, -, rfl⟩ | ⟨_, -, -, -, rfl⟩ | ⟨_, _, -, -, -, -, hy⟩ | ⟨_, -, -, -, rfl⟩ |
    rfl := acquisition_cases h
  · obtain ⟨-, heq⟩ | ⟨-, _, _, -, -, heq⟩ | ⟨-, heq⟩ :=
      podEffect_cases ctx (get action "namespace") target ref uid <;> rw [heq] <;> rfl
  · rfl
  · obtain ⟨-, rfl⟩ | ⟨-, _, _, -, -, rfl⟩ | ⟨-, -, rfl⟩ := secretEffect_cases hy <;> rfl
  · rfl
  · rfl

lemma beats_requestEffect {ctx : Context} {pods : List String} {e : Envelope} {x : Effect}
    (h : requestEffect ctx pods e = some x) : x.beats = [] := by
  by_cases hatt : attributed ctx.users pods e = some true
  · obtain ⟨_, _, _, y, z, -, -, hy, hz, rfl⟩ := exists_of_requestEffect hatt h
    rw [Effect.append, beats_possession hy, beats_acquisition hz]
    rfl
  · rw [not_attributed hatt h]
    rfl

lemma mem_beats_effect {ctx : Context} {pods : List String} {e : Envelope} {x : Effect}
    (h : effect ctx pods e = some x) {t : String × ℤ} (ht : t ∈ x.beats) :
    e.eventType = "collector.heartbeat" ∧ t = (e.sourceId, e.observedAt) := by
  unfold effect at h
  split_ifs at h with h1 h2 h3 h4 h5
  · cases h
    cases ht
  · cases h
    cases ht
  · cases h
    exact ⟨h3, List.mem_singleton.1 ht⟩
  · cases h
    cases ht
  · rw [beats_requestEffect h] at ht
    cases ht
  · cases h
    cases ht

section

variable {host : Host} {b : ReplayBundle} {p : Projection} {ctx : Context} {start : Seed}
  {xs : List Effect} {silent : List Gap}

/-- The lines of a bundle without rejections and conflicts. -/
lemma lines_of_clean (hrej : (b.records host).diag.rejected = [])
    (hcon : (b.records host).diag.conflicts = []) {line : String} (hline : line ∈ b.eventLines) :
    readLine host (textAt b.manifest "cluster_id") line = .blank ∨
      ∃ e, readLine host (textAt b.manifest "cluster_id") line = .record e ∧
        ∃ kept ∈ b.events host, kept.key = e.key ∧ kept.contentKey = e.contentKey := by
  have hrejected := (sorted_intake host (textAt b.manifest "cluster_id") b.eventLines).2
  cases hl : readLine host (textAt b.manifest "cluster_id") line with
  | blank => exact .inl rfl
  | rejected ps =>
      have hmem : ps ∈ (rejectionsOf host (textAt b.manifest "cluster_id")
          (b.eventLines.zipIdx 1)).map Rejection.problems := by
        rw [problems_rejectionsOf, List.zipIdx_map_fst, List.mem_filterMap]
        exact ⟨line, hline, by rw [hl, Line.problems?_rejected]⟩
      rw [← hrejected] at hmem
      rw [ReplayBundle.records] at hrej
      rw [hrej] at hmem
      cases hmem
  | record e =>
      refine .inr ⟨e, rfl, ?_⟩
      have hmem : e ∈ recordsOf host (textAt b.manifest "cluster_id") b.eventLines :=
        mem_recordsOf.2 ⟨line, hline, hl⟩
      cases hfirst : firstWith (recordsOf host (textAt b.manifest "cluster_id") b.eventLines)
          e.key with
      | none => exact absurd (List.find?_eq_none.1 hfirst e hmem) (by simp)
      | some kept =>
          have hkey := firstWith_key hfirst
          refine ⟨kept, mem_events_iff.2 (by rw [hkey, hfirst]), hkey, ?_⟩
          have hconsistent := conflicts_eq_nil_iff.1 hcon
          exact hconsistent kept (List.mem_of_find?_eq_some hfirst) e hmem hkey

/-- A projection without gaps rests on whole evidence. -/
lemma Parts.whole (h : Parts host b p ctx start xs silent) (hgaps : p.gaps = []) :
    Whole host b ctx p := by
  have hno : ∀ g, g ∉ p.gaps := by simp [hgaps]
  have hmem := fun g => mt h.mem_gaps.2 (hno g)
  -- each of the four sources of gaps is empty
  have hrej : (b.records host).diag.rejected = [] := by
    refine List.eq_nil_iff_forall_not_mem.2 fun r hr => hmem (rejectionGap r) ?_
    exact .inr (.inr (.inl (List.mem_map_of_mem hr)))
  have hcon : (b.records host).diag.conflicts = [] := by
    refine List.eq_nil_iff_forall_not_mem.2 fun c hc => hmem (conflictGap c) ?_
    exact .inr (.inr (.inr (List.mem_map_of_mem hc)))
  have hlacks : ∀ e, ¬Lacking p e := by
    rintro e ⟨g, hg, -⟩
    exact hno g hg
  refine ⟨fun line hline => lines_of_clean hrej hcon hline, ?_, ?_, hlacks, ?_⟩
  · -- a loss that a collector reports, and that is not made good, is a gap
    intro e he htype
    by_contra hopen
    obtain ⟨x, hx, heff⟩ := (mapM_eq_some h.effects).2 e he
    rw [effect, if_pos htype, if_neg hopen] at heff
    cases heff
    exact hmem _ (.inl (List.mem_flatMap.2 ⟨_, hx, List.mem_singleton_self _⟩))
  · -- a required source that was not heard of in time is a gap
    intro n hn sources hsources src hsrc
    have hsilent := h.stale
    have hempty : silent = [] :=
      List.eq_nil_iff_forall_not_mem.2 fun g hg => hmem g (.inr (.inl hg))
    simp only [staleGaps, hn, hsources, Option.bind_eq_bind, Option.bind_some] at hsilent
    split_ifs at hsilent
    have hnone := List.map_eq_nil_iff.1 ((Option.some.inj hsilent).trans hempty)
    have hfresh := List.filter_eq_nil_iff.1 hnone src hsrc
    cases src with
    | str s =>
        simp only [Evidence.stale, asStr?, Option.bind_some, Bool.not_eq_true] at hfresh
        cases hget : ((xs.flatMap Effect.beats).foldl store ∅).get? s with
        | none => simp [hget] at hfresh
        | some last =>
            simp only [hget, Option.all_some, decide_eq_false_iff_not, not_lt] at hfresh
            obtain ⟨hlast, hkey⟩ := Table.get?_eq_some_iff.1 hget
            obtain ⟨t, ht, htk, hle⟩ := le_of_mem_store hlast
            obtain ⟨x, hx, htx⟩ := List.mem_flatMap.1 ht
            obtain ⟨e, he, heff⟩ := (mapM_eq_some h.effects).1 x hx
            obtain ⟨htype, rfl⟩ := mem_beats_effect heff htx
            refine ⟨e, he, htype, ?_, ?_⟩
            · rw [show s = e.sourceId from hkey.symm.trans htk.symm]
            · have hle' : last.2 ≤ max 0 e.observedAt := hle
              omega
    | _ => simp [Evidence.stale, asStr?] at hfresh
  · intro e he hapi hatt
    obtain ⟨_, action, target, -, habout, hrecorded⟩ := h.recorded he hapi hatt
    exact ⟨action, target, habout, hrecorded.named (hlacks e)⟩

end

lemma Sample.contained_quiet : (project host quiet).any (fun x =>
    decide ((analyze (x.2.withRemediation []) .full).conclusion = .containedWithinScope)) =
      true := by
  rw [project, gather_quiet]
  decide +kernel

lemma extends_intake {host : Host} {clusterId : String} {lines lines' : List String}
    (h : lines <+: lines') :
    (intake host clusterId lines).Extends (intake host clusterId lines') := by
  obtain ⟨more, rfl⟩ := h
  have happend : intake host clusterId (lines ++ more) =
      (more.zipIdx (1 + lines.length)).foldl (Intake.turn host clusterId)
        (intake host clusterId lines) := by
    rw [intake, List.zipIdx_append, List.foldl_append]
    rfl
  rw [happend]
  exact Intake.extends_foldl host clusterId _ _

lemma Shows.mono {ctx : Context} {events events' : List Envelope} {e : Envelope} {kind : String}
    {args : List String} (hsub : events ⊆ events') (h : Shows ctx events e kind args) :
    Shows ctx events' e kind args := by
  cases h with
  | credential ha hp hacts haud hu => exact .credential ha hp (hacts.mono hsub) haud hu
  | pod h hr hu => exact .pod h hr hu
  | historical h hr hu hnew hns hsa => exact .historical h hr hu hnew hns hsa
  | controller h hr hu => exact .controller h hr hu
  | secret h hr hns hname hv => exact .secret h hr hns hname hv
  | assumed h hr hns hname hv hsec hver => exact .assumed h hr hns hname hv hsec hver
  | listed hverb h hr hsec => exact .listed hverb h hr hsec

section

variable {ctx : Context} {pods pods' : List String} {e : Envelope} {x x' : Effect}

lemma parts_of_acquisition {action target : Fields} {ref : String} {y : Effect}
    (h : acquisition ctx action target ref = some y) :
    y.offers = [] ∧ ∀ c ∈ y.facts, c.kind ≠ "possesses_credential" := by
  obtain ⟨uid, -, -, -, rfl⟩ | ⟨_, -, -, -, rfl⟩ | ⟨_, _, -, -, -, -, hy⟩ | ⟨_, -, -, -, rfl⟩ |
    rfl := acquisition_cases h
  · obtain ⟨-, heq⟩ | ⟨-, _, _, -, -, heq⟩ | ⟨-, heq⟩ :=
      podEffect_cases ctx (get action "namespace") target ref uid <;>
      rw [heq] <;> simp [Effect.ofFacts, Effect.empty]
  · simp [Effect.ofFacts, Effect.empty]
  · obtain ⟨-, rfl⟩ | ⟨-, _, _, -, -, rfl⟩ | ⟨-, -, rfl⟩ := secretEffect_cases hy <;>
      simp [Effect.ofFacts, Effect.ofGap, Effect.empty]
  · refine ⟨rfl, fun c hc => ?_⟩
    obtain ⟨sec, -, rfl⟩ := List.mem_map.1 hc
    simp
  · simp [Effect.empty]

/-- An event offers a credential exactly if it contributes that the attacker has it. -/
lemma offers_iff (h : effect ctx pods e = some x) {i : String} :
    (∃ o ∈ x.offers, o.id = i) ↔ ∃ c ∈ x.facts, c.key = ("possesses_credential", [i]) := by
  by_cases hreq : requestEffect ctx pods e = some x
  · by_cases hatt : attributed ctx.users pods e = some true
    · obtain ⟨_, _, _, y, z, -, -, hy, hz, rfl⟩ := exists_of_requestEffect hatt hreq
      obtain ⟨hoffers, hkinds⟩ := parts_of_acquisition hz
      have hz' : ¬∃ c ∈ z.facts, c.key = ("possesses_credential", [i]) := by
        rintro ⟨c, hc, hkey⟩
        exact hkinds c hc (congrArg Prod.fst hkey)
      simp only [Effect.append, hoffers, List.append_nil, List.mem_append, or_and_right, exists_or,
        hz', or_false]
      obtain rfl | ⟨pod, aud, username, expiry, -, -, -, -, rfl⟩ := possession_cases hy
      · simp [Effect.empty]
      · simp [Contribution.key, observedCredential]
    · rw [not_attributed hatt hreq]
      simp [Effect.empty]
  · -- an event that is no request offers nothing and contributes no fact
    have hfacts : ¬∃ c ∈ x.facts, c.key = ("possesses_credential", [i]) := by
      rintro ⟨c, hc, -⟩
      exact hreq (mem_facts_effect h hc).2
    refine iff_of_false ?_ hfacts
    unfold effect at h
    split_ifs at h
    any_goals cases h; simp [Effect.empty, Effect.ofGap]
    exact absurd h hreq

/-- Only a response of the API server is read with the Pods of the attacker. -/
lemma effect_of_not_api (h : e.eventType ≠ apiResponse) :
    effect ctx pods e = effect ctx pods' e := by
  unfold effect
  by_cases h1 : e.eventType = "collector.gap"
  · rw [if_pos h1, if_pos h1]
  · rw [if_neg h1, if_neg h1]
    by_cases h2 : e.eventType = "collector.heartbeat"
    · rw [if_pos h2, if_pos h2]
    · rw [if_neg h2, if_neg h2]
      by_cases h3 : e.eventType ∉ supportedEventTypes
      · rw [if_pos h3, if_pos h3]
      · rw [if_neg h3, if_neg h3]
        by_cases h4 : e.eventType = "lab.receipt"
        · rw [if_pos h4, if_pos h4]
        · simp only [supportedEventTypes, not_not, List.mem_cons, List.not_mem_nil, or_false] at h3
          tauto

/-- With more Pods of the attacker, an event leaves no fewer gaps. -/
lemma gaps_mono (hsub : pods ⊆ pods') (h : effect ctx pods e = some x)
    (h' : effect ctx pods' e = some x') : x.gaps ⊆ x'.gaps := by
  by_cases hapi : e.eventType = apiResponse
  · rw [effect_of_api hapi] at h h'
    by_cases hatt : attributed ctx.users pods e = some true
    · obtain ⟨_, _, _, y, z, -, habout, hy, hz, rfl⟩ := exists_of_requestEffect hatt h
      obtain ⟨_, _, _, y', z', -, habout', -, hz', rfl⟩ :=
        exists_of_requestEffect (attributed_mono hsub hatt) h'
      obtain rfl := Option.some.inj (habout.1.symm.trans habout'.1)
      obtain rfl := Option.some.inj (habout.2.symm.trans habout'.2)
      obtain rfl := Option.some.inj (hz.symm.trans hz')
      simp only [Effect.append, gaps_possession hy, List.nil_append]
      exact List.subset_append_right _ _
    · rw [not_attributed hatt h]
      exact List.nil_subset _
  · rw [effect_of_not_api hapi, h'] at h
    cases h
    exact List.Subset.refl _

end

section

variable {host : Host} {b : ReplayBundle} {p : Projection} {ctx : Context} {start : Seed}
  {xs : List Effect} {silent : List Gap}

lemma exists_id_offers {offers : List Credential} {t : Table Credential.id} {i : String} :
    (∃ c ∈ offers.foldl offer t, c.id = i) ↔ (∃ c ∈ t, c.id = i) ∨ ∃ o ∈ offers, o.id = i := by
  induction offers generalizing t with
  | nil => simp
  | cons o offers ih =>
      rw [List.foldl_cons, ih, offer, Table.exists_mem_put]
      simp only [List.mem_cons, exists_eq_or_imp]
      rw [or_assoc, or_left_comm]

/-- The credentials of a projection are those that the attacker has by its facts. -/
lemma Parts.credential_iff (h : Parts host b p ctx start xs silent) {i : String} :
    (∃ c ∈ p.credentials, c.id = i) ↔
      ∃ f ∈ p.facts, f.key = ("possesses_credential", [i]) := by
  obtain ⟨cs, hcs, hseeded⟩ := exists_seeded (seed_of_contextOf h.context)
  have hcreds : (∃ c ∈ p.credentials, c.id = i) ↔
      (∃ c ∈ start.credentials, c.id = i) ∨ ∃ o ∈ xs.flatMap Effect.offers, o.id = i := by
    rw [h.credentials, ← exists_id_offers]
    simp only [Text.mem_sortedBy]
    rfl
  have hfacts : (∃ f ∈ p.facts, f.key = ("possesses_credential", [i])) ↔
      (∃ c ∈ cs, c.key = ("possesses_credential", [i])) ∨
        ∃ c ∈ xs.flatMap Effect.facts, c.key = ("possesses_credential", [i]) := by
    rw [h.facts, hcs, ← List.foldl_append]
    simp only [Text.mem_sortedBy, ← Table.mem_def, exists_key_iff, List.mem_append, or_and_right,
      exists_or]
  rw [hcreds, hfacts]
  refine or_congr ⟨?_, ?_⟩ ⟨?_, ?_⟩
  · rintro ⟨c, hc, rfl⟩
    exact ⟨_, (hseeded _).2 ⟨c, hc, rfl⟩, rfl⟩
  · rintro ⟨c, hc, hkey⟩
    obtain ⟨a, ha, rfl⟩ := (hseeded c).1 hc
    exact ⟨a, ha, by simpa [Contribution.key] using hkey⟩
  · rintro ⟨o, ho, hid⟩
    obtain ⟨x, hx, hox⟩ := List.mem_flatMap.1 ho
    obtain ⟨e, -, heff⟩ := (mapM_eq_some h.effects).1 x hx
    obtain ⟨c, hc, hkey⟩ := (offers_iff heff).1 ⟨o, hox, hid⟩
    exact ⟨c, List.mem_flatMap.2 ⟨x, hx, hc⟩, hkey⟩
  · rintro ⟨c, hc, hkey⟩
    obtain ⟨x, hx, hcx⟩ := List.mem_flatMap.1 hc
    obtain ⟨e, -, heff⟩ := (mapM_eq_some h.effects).1 x hx
    obtain ⟨o, ho, hid⟩ := (offers_iff heff).2 ⟨c, hcx, hkey⟩
    exact ⟨o, List.mem_flatMap.2 ⟨x, hx, ho⟩, hid⟩

/-- Every fact cites a record. -/
lemma Parts.exists_evidence (h : Parts host b p ctx start xs silent) {f : Entry}
    (hf : f ∈ p.facts) : ∃ r, r ∈ f.evidence := by
  obtain ⟨cs, hcs, -⟩ := exists_seeded (seed_of_contextOf h.context)
  rw [h.facts, hcs, ← List.foldl_append, Text.mem_sortedBy, ← Table.mem_def] at hf
  obtain ⟨c, hc, hkey⟩ := exists_key_iff.1 ⟨f, hf, rfl⟩
  obtain ⟨g, hg, hgk, hr⟩ := Evidence.cites_iff.2 ⟨c, hc, hkey, rfl⟩
  rw [Table.eq_of_key_eq hg hf hgk] at hr
  exact ⟨_, hr⟩

end

lemma Parts.fact_unique {host : Host} {b : ReplayBundle} {p : Projection} {ctx : Context}
    {start : Seed} {xs : List Effect} {silent : List Gap} (h : Parts host b p ctx start xs silent)
    {f g : Entry} (hf : f ∈ p.facts) (hg : g ∈ p.facts) (hkey : f.key = g.key) : f = g := by
  have hnodup : (p.facts.map Entry.key).Nodup := by
    refine List.pairwise_map.2 (h.sorted_facts.1.imp fun hlt heq => ?_)
    rw [heq] at hlt
    exact lt_irrefl _ hlt
  exact List.inj_on_of_nodup_map hnodup hf hg hkey

/-- Further lines never take a Pod of the attacker, a fact, a record that a fact cites, a credential
or a gap back, except for the gap of a source that was silent. -/
theorem more_evidence {host : Host} {b : ReplayBundle} {p p' : Projection}
    {inp inp' : AnalysisInput} {lines : List String} (few : lines.length ≤ maxEvents)
    (hmore : b.eventLines <+: lines) (h : project host b = some (p, inp))
    (h' : project host (b.withLines lines few) = some (p', inp')) :
    p.attackerPods ⊆ p'.attackerPods ∧
      (∀ f ∈ p.facts, ∃ f' ∈ p'.facts, f'.key = f.key ∧ f.evidence ⊆ f'.evidence) ∧
      (∀ c ∈ p.credentials, ∃ c' ∈ p'.credentials, c'.id = c.id) ∧
      ∀ g ∈ p.gaps, g.kind ≠ "stale_evidence" → g ∈ p'.gaps := by
  obtain ⟨ctx, start, xs, silent, hp⟩ := exists_parts_of_gather (gather_of_project h).1
  obtain ⟨ctx', start', xs', silent', hp'⟩ := exists_parts_of_gather (gather_of_project h').1
  have hextends : (b.records host).Extends ((b.withLines lines few).records host) :=
    extends_intake hmore
  have hevents : b.events host ⊆ (b.withLines lines few).events host := fun e he =>
    Text.mem_sortedBy.2 (hextends.kept e (Text.mem_sortedBy.1 he))
  have hprofile : p'.profile = p.profile := Option.some.inj (hp'.profile.symm.trans hp.profile)
  have hctx : contextOf host b p.profile = some (ctx', start') := by
    rw [← hprofile]
    exact hp'.context
  obtain ⟨rfl, rfl⟩ := Prod.ext_iff.1 (Option.some.inj (hp.context.symm.trans hctx))
  -- both projections read the same context, so that only the records matter
  have hpods : p.attackerPods ⊆ p'.attackerPods := fun uid hu =>
    (mem_attribution_iff hp'.pods).2 (((mem_attribution_iff hp.pods).1 hu).mono hevents)
  have hcites : ∀ kind args r, (∃ f ∈ p.facts, f.key = (kind, args) ∧ r ∈ f.evidence) →
      ∃ f ∈ p'.facts, f.key = (kind, args) ∧ r ∈ f.evidence := by
    intro kind args r hr
    refine hp'.cites_iff.2 ((hp.cites_iff.1 hr).imp_right ?_)
    rintro ⟨e, he, hapi, hatt, href, hshows⟩
    exact ⟨e, hevents he, hapi, hatt.mono hevents, href, hshows.mono hevents⟩
  have hfacts : ∀ f ∈ p.facts, ∃ f' ∈ p'.facts, f'.key = f.key ∧ f.evidence ⊆ f'.evidence := by
    intro f hf
    obtain ⟨r, hr⟩ := hp.exists_evidence hf
    obtain ⟨f', hf', hkey, -⟩ := hcites f.kind f.args r ⟨f, hf, rfl, hr⟩
    refine ⟨f', hf', hkey, fun r' hr' => ?_⟩
    obtain ⟨g, hg, hgk, hrg⟩ := hcites f.kind f.args r' ⟨f, hf, rfl, hr'⟩
    rwa [hp'.fact_unique hg hf' (hgk.trans hkey.symm)] at hrg
  refine ⟨hpods, hfacts, fun c hc => ?_, fun g hg hkind => hp'.mem_gaps.2 ?_⟩
  · obtain ⟨f, hf, hkey⟩ := hp.credential_iff.1 ⟨c, hc, rfl⟩
    obtain ⟨f', hf', hkey', -⟩ := hfacts f hf
    exact hp'.credential_iff.2 ⟨f', hf', hkey'.trans hkey⟩
  · -- a gap is of a record, of a silent source, of a rejected line or of a conflict
    rcases hp.mem_gaps.1 hg with hg | hg | hg | hg
    · obtain ⟨x, hx, hgx⟩ := List.mem_flatMap.1 hg
      obtain ⟨e, he, heff⟩ := (mapM_eq_some hp.effects).1 x hx
      obtain ⟨x', hx', heff'⟩ := (mapM_eq_some hp'.effects).2 e (hevents he)
      exact .inl (List.mem_flatMap.2 ⟨x', hx', gaps_mono hpods heff heff' hgx⟩)
    · exact absurd (kind_of_mem_staleGaps hp.stale hg) hkind
    · obtain ⟨r, hr, rfl⟩ := List.mem_map.1 hg
      exact .inr (.inr (.inl (List.mem_map_of_mem (hextends.rejected.subset hr))))
    · obtain ⟨c, hc, rfl⟩ := List.mem_map.1 hg
      exact .inr (.inr (.inr (List.mem_map_of_mem (hextends.conflicts.subset hc))))

theorem quiet_created : ∃ p inp p' inp', project Sample.host Sample.quiet = some (p, inp) ∧
    project Sample.host Sample.created = some (p', inp') ∧
      ∀ f ∈ p.facts, ∃ f' ∈ p'.facts, f'.key = f.key ∧ f.evidence ⊆ f'.evidence := by
  obtain ⟨⟨p, inp⟩, h, -⟩ := (Option.any_eq_true _ _).1 Sample.contained_quiet
  obtain ⟨⟨p', inp'⟩, h'⟩ := Option.isSome_iff_exists.1 Sample.projected_created
  have hlines : Sample.quiet.eventLines <+: Sample.created.eventLines :=
    ⟨[Sample.creationLine], rfl⟩
  have hmore := more_evidence Sample.created.few hlines h h'
  exact ⟨p, inp, p', inp', h, h', hmore.2.1⟩

end Evidence

end Afterlock
