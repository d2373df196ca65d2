import Afterlock.Lib.Acyclic
import Afterlock.Objects
import Afterlock.Outcome

/-!
# The provenance of what is derived

Every derivation names its premises, so the tables of a run are a hypergraph.  A derivation is
written once, except that a token taken again overwrites how it was obtained.  `Run` is the run of a
view with all its points.  At every point the provenance is acyclic and never leads from an earlier
interval to a later one, exactly if every token is taken in time (`Run.causal_iff`): nothing of an
earlier interval rests on the token that is overwritten, and neither does the control of its Pod.
-/

namespace Afterlock

open Prog Relation

/-! ### What the tables record -/

namespace ViewState

/-- The derivations a state holds: of lasting facts, of capabilities and of the final goals. -/
def Records (s : ViewState) (d : Derivation) : Prop :=
  d ∈ s.facts ∨ d ∈ s.eph ∨ d ∈ s.goalsFinal

/-- `g` is a premise of a derivation of `f`. -/
def Premise (s : ViewState) (g f : Fact) : Prop :=
  ∃ d, s.Records d ∧ d.fact = f ∧ g ∈ d.premises

/-- The provenance is well-founded and causal: every premise is recorded, only evidence has none, no
fact is used to explain itself, and no premise is of a later interval. -/
structure Causal (s : ViewState) : Prop where
  recorded : ∀ d, s.Records d → ∀ g ∈ d.premises, s.Has g
  evidence : ∀ d, s.Records d → d.premises = [] → d.rule = .evidence
  acyclic : Acyclic s.Premise
  ordered : ∀ d, s.Records d → ∀ e ∈ s.facts, e.fact ∈ d.premises → e.interval ≤ d.interval

/-- What holds of the tables at every point of a run, up to the interval `i`. -/
structure Tabled (i : ℤ) (s : ViewState) : Prop where
  recorded : ∀ d, s.Records d → ∀ g ∈ d.premises, s.Has g
  evidence : ∀ d, s.Records d → d.premises = [] → d.rule = .evidence
  lasting : ∀ d ∈ s.facts, d.fact.persistent = true
  capability : ∀ d, d ∈ s.eph ∨ d ∈ s.goalsFinal → d.fact.persistent = false
  past : ∀ d, s.Records d → d.interval ≤ i

variable {s t : ViewState} {i j : ℤ} {d : Derivation}

lemma Tabled.persistent (h : s.Tabled i) {f : Fact} (hf : s.Has f) : f.persistent = true := by
  obtain ⟨d, hd, rfl⟩ := hf
  exact h.lasting d hd

lemma Tabled.mono (h : s.Tabled i) (hij : i ≤ j) : s.Tabled j :=
  ⟨h.recorded, h.evidence, h.lasting, h.capability, fun d hd => (h.past d hd).trans hij⟩

/-- Tables with the same rows are as good. -/
lemma Tabled.congr (h : s.Tabled i) (hfacts : t.facts = s.facts)
    (hrec : ∀ d, d ∈ t.eph ∨ d ∈ t.goalsFinal → d ∈ s.eph ∨ d ∈ s.goalsFinal) : t.Tabled i := by
  have hall : ∀ d, t.Records d → s.Records d := by
    intro d hd
    exact hd.imp (fun hd => hfacts ▸ hd) (hrec d)
  refine ⟨fun d hd g hg => ?_, fun d hd => h.evidence d (hall d hd), fun d hd => ?_,
    fun d hd => h.capability d (hrec d hd), fun d hd => h.past d (hall d hd)⟩
  · obtain ⟨e, he, rfl⟩ := h.recorded d (hall d hd) g hg
    exact ⟨e, hfacts ▸ he, rfl⟩
  · rw [hfacts] at hd
    exact h.lasting d hd

lemma Causal.congr (h : s.Causal) (ht : t.Tabled i) (hfacts : t.facts = s.facts)
    (hrec : ∀ d, d ∈ t.eph ∨ d ∈ t.goalsFinal → d ∈ s.eph ∨ d ∈ s.goalsFinal) : t.Causal := by
  have hall : ∀ d, t.Records d → s.Records d := by
    intro d hd
    exact hd.imp (fun hd => hfacts ▸ hd) (hrec d)
  refine ⟨ht.recorded, ht.evidence, fun f hf => ?_, fun d hd e he => ?_⟩
  · refine h.acyclic f (TransGen.mono (fun g f' hgf => ?_) _ _ hf)
    obtain ⟨d, hd, hfact, hg⟩ := hgf
    exact ⟨d, hall d hd, hfact, hg⟩
  · rw [hfacts] at he
    exact h.ordered d (hall d hd) e he

/-! ### A new derivation -/

/-- Recording a new fact only adds its derivation. -/
lemma records_record (hnew : s.recorded d.fact = false) {e : Derivation} :
    (s.record d).Records e ↔ e = d ∨ s.Records e := by
  have hfresh {T : Table Derivation.fact} (h : T.contains d.fact = false) (e : Derivation) :
      e ∈ T.put d ↔ e = d ∨ e ∈ T := Table.mem_put_of_fresh (Table.contains_eq_false_iff.1 h)
  unfold recorded at hnew
  unfold record Records
  by_cases hp : d.fact.persistent = true
  · rw [if_pos hp] at hnew ⊢
    rw [hfresh hnew]
    tauto
  · rw [if_neg hp] at hnew ⊢
    rw [hfresh hnew]
    tauto

/-- No recorded derivation uses a fact that is not recorded. -/
lemma Tabled.not_premise (h : s.Tabled i) (hnew : s.recorded d.fact = false) {e : Derivation}
    (he : s.Records e) : d.fact ∉ e.premises := by
  intro hmem
  have hhas := h.recorded e he _ hmem
  rw [(recorded_of_persistent (h.persistent hhas)).2 hhas] at hnew
  cases hnew

/-- A derivation whose premises are recorded. -/
structure Supported (s : ViewState) (i : ℤ) (d : Derivation) : Prop where
  premises : ∀ g ∈ d.premises, s.Has g
  nonempty : d.premises ≠ []
  interval : d.interval = i

lemma Tabled.record (h : s.Tabled i) (hd : s.Supported i d) (hnew : s.recorded d.fact = false) :
    (s.record d).Tabled i := by
  have hcases : ∀ {e}, e ∈ (s.record d).eph ∨ e ∈ (s.record d).goalsFinal →
      d.fact.persistent = false ∧ e = d ∨ (e ∈ s.eph ∨ e ∈ s.goalsFinal) := by
    intro e he
    unfold ViewState.record at he
    by_cases hp : d.fact.persistent = true
    · rw [if_pos hp] at he
      exact .inr he
    · rw [if_neg hp] at he
      rcases he with he | he
      · rcases Table.mem_put.1 he with rfl | ⟨he, -⟩
        · exact .inl ⟨by simpa using hp, rfl⟩
        · exact .inr (.inl he)
      · exact .inr (.inr he)
  refine ⟨fun e he g hg => ?_, fun e he hnil => ?_, fun e he => ?_, fun e he => ?_, fun e he => ?_⟩
  · refine has_record.2 (.inl ?_)
    rcases (records_record hnew).1 he with rfl | he
    · exact hd.premises g hg
    · exact h.recorded e he g hg
  · rcases (records_record hnew).1 he with rfl | he
    · exact absurd hnil hd.nonempty
    · exact h.evidence e he hnil
  · rcases mem_record_facts.1 he with ⟨hp, rfl⟩ | ⟨he, -⟩
    · exact hp
    · exact h.lasting e he
  · rcases hcases he with ⟨hp, rfl⟩ | he
    · exact hp
    · exact h.capability e he
  · rcases (records_record hnew).1 he with rfl | he
    · exact hd.interval.le
    · exact h.past e he

lemma Causal.record (h : s.Causal) (hs : s.Tabled i) (hd : s.Supported i d)
    (hnew : s.recorded d.fact = false) : (s.record d).Causal := by
  have ht := hs.record hd hnew
  have hself : d.fact ∉ d.premises := by
    intro hmem
    have hhas := hd.premises _ hmem
    rw [(recorded_of_persistent (hs.persistent hhas)).2 hhas] at hnew
    cases hnew
  -- nothing that is recorded uses the new fact
  have hunused : ∀ e, (s.record d).Records e → d.fact ∉ e.premises := by
    intro e he
    rcases (records_record hnew).1 he with rfl | he
    · exact hself
    · exact hs.not_premise hnew he
  refine ⟨ht.recorded, ht.evidence, h.acyclic.sink (x := d.fact) ?_ ?_, fun e he e' he' hmem => ?_⟩
  · rintro f ⟨e, he, -, hg⟩
    exact hunused e he hg
  · rintro g f ⟨e, he, rfl, hg⟩
    rcases (records_record hnew).1 he with rfl | he
    · exact .inr rfl
    · exact .inl ⟨e, he, rfl, hg⟩
  · rcases mem_record_facts.1 he' with ⟨-, rfl⟩ | ⟨hold, -⟩
    · exact absurd hmem (hunused e he)
    · rcases (records_record hnew).1 he with rfl | he
      · exact (hs.past e' (.inl hold)).trans hd.interval.ge
      · exact h.ordered e he e' hold hmem

lemma Tabled.learn (h : s.Tabled i) (hd : s.Supported i d) : (s.learn d).Tabled i := by
  unfold ViewState.learn
  split_ifs with hr
  · exact h
  · exact h.record hd (by simpa using hr)

lemma Causal.learn (h : s.Causal) (hs : s.Tabled i) (hd : s.Supported i d) :
    (s.learn d).Causal := by
  unfold ViewState.learn
  split_ifs with hr
  · exact h
  · exact h.record hs hd (by simpa using hr)

/-- A note is no derivation. -/
lemma capability_note {u : UnknownEntry}
    (h : d ∈ (s.note u).eph ∨ d ∈ (s.note u).goalsFinal) : d ∈ s.eph ∨ d ∈ s.goalsFinal := by
  unfold note at h
  split_ifs at h <;> exact h

end ViewState

namespace Engine

open ViewState

/-! ### A token taken again -/

/-- A token of a Pod is taken in time in the interval `i`: no derivation of an earlier interval rests
on the possession of the token, and neither does the control of the Pod. -/
structure InTime (i : ℤ) (s : ViewState) (pod : Pod) (aud : String) : Prop where
  unused : ∀ d, s.Records d → .possesses (projectedId pod.uid aud) ∈ d.premises → i ≤ d.interval
  apart : ¬TransGen s.Premise (.possesses (projectedId pod.uid aud)) (.controlsPod pod.uid)

variable {s : ViewState} {i : ℤ} {pod : Pod} {sa : ServiceAccount} {aud : String} {exp : ℤ}
  {cred : CredentialSpec}

/-- Taking a token replaces how it was obtained before. -/
lemma records_withToken (hs : s.Tabled i) {e : Derivation} :
    (withToken s cred (tokenDerivation i pod sa aud exp)).Records e ↔
      e = tokenDerivation i pod sa aud exp ∨
        s.Records e ∧ e.fact ≠ .possesses (projectedId pod.uid aud) := by
  have hcap : e ∈ s.eph ∨ e ∈ s.goalsFinal → e.fact ≠ .possesses (projectedId pod.uid aud) := by
    intro he heq
    have hp := hs.capability e he
    rw [heq] at hp
    cases hp
  show e ∈ s.facts.put (tokenDerivation i pod sa aud exp) ∨ e ∈ s.eph ∨ e ∈ s.goalsFinal ↔ _
  rw [Table.mem_put]
  constructor
  · rintro ((rfl | ⟨he, hne⟩) | he)
    · exact .inl rfl
    · exact .inr ⟨.inl he, hne⟩
    · exact .inr ⟨.inr he, hcap he⟩
  · rintro (rfl | ⟨he | he, hne⟩)
    · exact .inl (.inl rfl)
    · exact .inl (.inr ⟨he, hne⟩)
    · exact .inr he

lemma tabled_withToken (hs : s.Tabled i) (hc : s.Has (.controlsPod pod.uid)) :
    (withToken s cred (tokenDerivation i pod sa aud exp)).Tabled i := by
  refine ⟨fun e he g hg => has_withToken ?_, fun e he hnil => ?_, fun e he => ?_,
    fun e he => hs.capability e he, fun e he => ?_⟩
  · rcases (records_withToken hs).1 he with rfl | ⟨he, -⟩
    · obtain rfl := List.mem_singleton.1 hg
      exact hc
    · exact hs.recorded e he g hg
  · rcases (records_withToken hs).1 he with rfl | ⟨he, -⟩
    · cases hnil
    · exact hs.evidence e he hnil
  · rcases Table.mem_put.1 he with rfl | ⟨he, -⟩
    · rfl
    · exact hs.lasting e he
  · rcases (records_withToken hs).1 he with rfl | ⟨he, -⟩
    · exact le_rfl
    · exact hs.past e he

/-- The premises after a token is taken: those of its possession are replaced. -/
lemma premise_withToken (hs : s.Tabled i) :
    (withToken s cred (tokenDerivation i pod sa aud exp)).Premise =
      Redirect s.Premise (· = .controlsPod pod.uid) (.possesses (projectedId pod.uid aud)) := by
  ext g f
  constructor
  · rintro ⟨d, hd, rfl, hg⟩
    rcases (records_withToken hs).1 hd with rfl | ⟨hd, hne⟩
    · exact .inl ⟨rfl, List.mem_singleton.1 hg⟩
    · exact .inr ⟨hne, d, hd, rfl, hg⟩
  · rintro (⟨rfl, rfl⟩ | ⟨hne, d, hd, rfl, hg⟩)
    · exact ⟨_, (records_withToken hs).2 (.inl rfl), rfl, List.mem_singleton.2 rfl⟩
    · exact ⟨d, (records_withToken hs).2 (.inr ⟨hd, hne⟩), rfl, hg⟩

/-- The provenance stays causal exactly if the token is taken in time. -/
theorem causal_withToken_iff (h : s.Causal) (hs : s.Tabled i) (hc : s.Has (.controlsPod pod.uid)) :
    (withToken s cred (tokenDerivation i pod sa aud exp)).Causal ↔ InTime i s pod aud := by
  have ht : (withToken s cred (tokenDerivation i pod sa aud exp)).Tabled i := tabled_withToken hs hc
  -- the record of the token replaces what was under its id: its edges are redirected to the Pod
  have hacyclic : Acyclic (withToken s cred (tokenDerivation i pod sa aud exp)).Premise ↔
      ¬TransGen s.Premise (.possesses (projectedId pod.uid aud)) (.controlsPod pod.uid) := by
    rw [premise_withToken hs, acyclic_redirect_iff h.acyclic, forall_eq,
      reflTransGen_iff_eq_or_transGen]
    simp
  have hself : ∀ d, s.Records d → .possesses (projectedId pod.uid aud) ∈ d.premises →
      d.fact ≠ .possesses (projectedId pod.uid aud) := by
    intro d hd hmem heq
    exact h.acyclic _ (.single ⟨d, hd, heq, hmem⟩)
  constructor
  · intro hcausal
    refine ⟨fun d hd hmem => ?_, hacyclic.1 hcausal.acyclic⟩
    have hd' : (withToken s cred (tokenDerivation i pod sa aud exp)).Records d :=
      (records_withToken hs).2 (.inr ⟨hd, hself d hd hmem⟩)
    exact hcausal.ordered d hd' _ Table.mem_put_self hmem
  · intro htime
    refine ⟨ht.recorded, ht.evidence, hacyclic.2 htime.apart, fun d hd e he hmem => ?_⟩
    rcases Table.mem_put.1 he with rfl | ⟨hold, -⟩
    · rcases (records_withToken hs).1 hd with rfl | ⟨hd, -⟩
      · exact le_rfl
      · exact htime.unused d hd hmem
    · rcases (records_withToken hs).1 hd with rfl | ⟨hd, -⟩
      · exact hs.past e (.inl hold)
      · exact h.ordered d hd e hold hmem

/-! ### Steps -/

/-- The premises of what a rule derives are recorded: a workload of the attacker's is controlled, and
so is the controller that a Pod has. -/
lemma Infers.supported {ctx : Ctx} {d : Derivation} (hown : Owned s) (hcare : Cared s)
    (h : Infers ctx i s d) : s.Supported i d := by
  cases h with
  | ownedPod hc hp ho =>
      exact ⟨fun g hg => List.mem_singleton.1 hg ▸ hc, List.cons_ne_nil _ _, rfl⟩
  | @execPod cred p hu hp hv =>
      refine ⟨fun g hg => ?_, List.cons_ne_nil _ _, rfl⟩
      rcases List.mem_cons.1 hg with rfl | hg
      · exact hu.has
      have hpod : Text.hasPrefix modelPodPrefix p.uid = true → g ∈ [Fact.controlsPod p.uid] →
          s.Has g := fun hm hg => List.mem_singleton.1 hg ▸ hown.pods p hp hm
      -- the premises of an execution name the object that the attacker made, if it made one
      cases ho : p.controllerUid with
      | none =>
          simp only [objectPremises, ho] at hg
          split_ifs at hg with hm
          · exact hpod hm hg
          · cases hg
      | some c =>
          simp only [objectPremises, ho] at hg
          split_ifs at hg with hm hm'
          · obtain ⟨k, hk, rfl, -⟩ := hcare p hp c ho (isModelUid_of_hasPrefix (.inr hm))
            exact List.mem_singleton.1 hg ▸ hown.controllers k hk hm
          · exact hpod hm' hg
          · cases hg
  | knowSecret hu hs hg =>
      exact ⟨fun g hg => List.mem_singleton.1 hg ▸ hu.has, List.cons_ne_nil _ _, rfl⟩
  | readSecret hu hs hg =>
      exact ⟨fun g hg => List.mem_singleton.1 hg ▸ hu.has, List.cons_ne_nil _ _, rfl⟩
  | downstreamCredential hk hs hsrc =>
      exact ⟨fun g hg => List.mem_singleton.1 hg ▸ hk, List.cons_ne_nil _ _, rfl⟩
  | downstreamUse hk hs hn hv ha =>
      exact ⟨fun g hg => List.mem_singleton.1 hg ▸ hk, List.cons_ne_nil _ _, rfl⟩

/-- Whatever token the step from `s` to `t` takes is taken in time. -/
def TakesInTime (ctx : Ctx) (i : ℤ) (s t : ViewState) : Prop :=
  ∀ pod sa aud, t = withToken s (projectedToken pod sa aud (tokenExpiry ctx s.env))
    (tokenDerivation i pod sa aud (tokenExpiry ctx s.env)) → s.Has (.controlsPod pod.uid) →
      InTime i s pod aud

lemma Step.tabled {ctx : Ctx} {t : ViewState} (hs : s.Tabled i) (hown : Owned s) (hcare : Cared s)
    (h : Step ctx i s t) : t.Tabled i := by
  cases h with
  | infer hd hnew => exact hs.record (hd.supported hown hcare) hnew
  | token hc hp ha hk haud hnew => exact tabled_withToken hs hc
  | @createPod cred ns sa hm hadm hfree =>
      have hw : (withPod s (createdPod ns sa (modelPodUid ns sa i))).Tabled i :=
        hs.congr rfl fun _ he => he
      exact hw.learn ⟨fun g hg => List.mem_singleton.1 hg ▸ hm.uses.has, List.cons_ne_nil _ _, rfl⟩
  | @createController cred ns sa hm hadm hfree =>
      have hw : (withController s (createdController ns sa (modelControllerUid ns sa i))).Tabled i :=
        hs.congr rfl fun _ he => he
      exact hw.learn ⟨fun g hg => List.mem_singleton.1 hg ▸ hm.uses.has, List.cons_ne_nil _ _, rfl⟩
  | unsupportedCredential =>
      exact hs.congr note_facts fun _ he => capability_note he
  | unsupportedAdmission => exact hs.congr note_facts fun _ he => capability_note he

/-- A step that takes no token too late leaves the provenance causal, and only such a step does. -/
theorem Step.causal_iff {ctx : Ctx} {t : ViewState} (hs : s.Tabled i) (hown : Owned s)
    (hcare : Cared s) (hc : s.Causal) (h : Step ctx i s t) : t.Causal ↔ TakesInTime ctx i s t := by
  constructor
  · rintro ht pod sa aud rfl hpod
    exact (causal_withToken_iff hc hs hpod).1 ht
  intro htime
  have htab := h.tabled hs hown hcare
  cases h with
  | infer hd hnew => exact hc.record hs (hd.supported hown hcare) hnew
  | token hpod hp ha hk haud hnew => exact (causal_withToken_iff hc hs hpod).2 (htime _ _ _ rfl hpod)
  | @createPod cred ns sa hm hadm hfree =>
      have hw : (withPod s (createdPod ns sa (modelPodUid ns sa i))).Tabled i :=
        hs.congr rfl fun _ he => he
      exact (hc.congr hw rfl fun _ he => he).learn hw
        ⟨fun g hg => List.mem_singleton.1 hg ▸ hm.uses.has, List.cons_ne_nil _ _, rfl⟩
  | @createController cred ns sa hm hadm hfree =>
      have hw : (withController s (createdController ns sa (modelControllerUid ns sa i))).Tabled i :=
        hs.congr rfl fun _ he => he
      exact (hc.congr hw rfl fun _ he => he).learn hw
        ⟨fun g hg => List.mem_singleton.1 hg ▸ hm.uses.has, List.cons_ne_nil _ _, rfl⟩
  | unsupportedCredential => exact hc.congr htab note_facts fun _ he => capability_note he
  | unsupportedAdmission => exact hc.congr htab note_facts fun _ he => capability_note he

/-! ### The points of a run -/

/-- The run of a view with its points, the last one first: each is the phase and the state. -/
inductive Run (inp : AnalysisInput) (view : View) : List (Phase × ViewState) → Prop
  | history (h : hasHistory (viewCtx inp view) = true) :
      Run inp view [(.history,
        opening (enterHistory (viewCtx inp view) (initialState (viewCtx inp view))))]
  | first (h : hasHistory (viewCtx inp view) = false) :
      Run inp view [(.interval 0, enter (initialState (viewCtx inp view)) (baseEnv inp 0) ∅ [])]
  | afterHistory {s : ViewState} {past : List (Phase × ViewState)}
      (h : Run inp view ((.history, s) :: past)) :
      Run inp view ((.interval 0, enter s (baseEnv inp 0) ∅ []) :: (.history, s) :: past)
  | defend {k : ℕ} {s : ViewState} {past : List (Phase × ViewState)} {a : DefenderAction}
      {records : List IntervalRecord} (h : Run inp view ((.interval k, s) :: past))
      (ha : inp.remediation[k]? = some a) :
      Run inp view ((.interval (k + 1), enter s (Afterlock.defend s.env a) s.eph records) ::
        (.interval k, s) :: past)
  | step {φ : Phase} {s t : ViewState} {past : List (Phase × ViewState)}
      (h : Run inp view ((φ, s) :: past)) (hst : Step (phaseCtx inp view φ) φ.index s t) :
      Run inp view ((φ, t) :: (φ, s) :: past)

variable {inp : AnalysisInput} {view : View}

/-- Between two points of one phase no token is taken too late; between phases none is taken. -/
def InTimeBetween (inp : AnalysisInput) (view : View) (new old : Phase × ViewState) : Prop :=
  new.1 = old.1 → TakesInTime (phaseCtx inp view new.1) new.1.index old.2 new.2

lemma Run.during {points : List (Phase × ViewState)} (h : Run inp view points) :
    ∀ x ∈ points, During inp view x.1 x.2 := by
  induction h with
  | history h => exact List.forall_mem_singleton.2 (.history h)
  | first h => exact List.forall_mem_singleton.2 (.first h)
  | afterHistory _ ih =>
      exact List.forall_mem_cons.2 ⟨(ih _ List.mem_cons_self).afterHistory, ih⟩
  | defend _ ha ih => exact List.forall_mem_cons.2 ⟨(ih _ List.mem_cons_self).defend ha, ih⟩
  | step _ hst ih => exact List.forall_mem_cons.2 ⟨(ih _ List.mem_cons_self).step hst, ih⟩

/-! ### Evidence -/

/-- A derivation that is evidence. -/
def IsEvidence (d : Derivation) : Prop :=
  d.premises = [] ∧ d.rule = .evidence ∧ d.interval = initialInterval ∧ d.fact.persistent = true

lemma isEvidence_of_initialFacts {ctx : Ctx} {d : Derivation} (h : d ∈ initialFacts ctx) :
    IsEvidence d := by
  have hd := Table.mem_of_mem_ofList h
  simp only [List.mem_filterMap, Option.map_eq_some_iff] at hd
  obtain ⟨x, -, f, hf, rfl⟩ := hd
  refine ⟨rfl, rfl, rfl, ?_⟩
  show f.persistent = true
  cases hx : x.claim <;> rw [hx] at hf <;> cases hf <;> rfl

lemma isEvidence_of_addHistorical {facts : Table Derivation.fact}
    {pods : List (String × String × String)} (hfacts : ∀ d ∈ facts, IsEvidence d) {d : Derivation}
    (h : d ∈ addHistorical facts pods) : IsEvidence d := by
  unfold addHistorical at h
  induction pods generalizing facts with
  | nil => exact hfacts d h
  | cons x pods ih =>
      rw [List.foldl_cons] at h
      refine ih (fun e he => ?_) h
      split_ifs at he
      · exact hfacts e he
      · rcases Table.mem_put.1 he with rfl | ⟨he, -⟩
        · exact ⟨rfl, rfl, rfl, rfl⟩
        · exact hfacts e he

/-- What is recorded where there is nothing but evidence. -/
lemma isEvidence_of_records (hfacts : ∀ d ∈ s.facts, IsEvidence d) (heph : s.eph = ∅)
    (hgoals : s.goalsFinal = ∅) {d : Derivation} (h : s.Records d) : IsEvidence d := by
  rcases h with hd | hd | hd
  · exact hfacts d hd
  · rw [heph] at hd
    cases hd
  · rw [hgoals] at hd
    cases hd

lemma IsEvidence.notMem_premises {d : Derivation} (h : IsEvidence d) (g : Fact) :
    g ∉ d.premises := by
  rw [h.1]
  exact List.not_mem_nil

/-- Where there is nothing but evidence the provenance is causal. -/
lemma causal_of_evidence (hfacts : ∀ d ∈ s.facts, IsEvidence d) (heph : s.eph = ∅)
    (hgoals : s.goalsFinal = ∅) (hi : initialInterval ≤ i) : s.Tabled i ∧ s.Causal := by
  have hall {d : Derivation} (hd : s.Records d) : IsEvidence d :=
    isEvidence_of_records hfacts heph hgoals hd
  have hnone {d : Derivation} {g : Fact} (hd : s.Records d) : g ∉ d.premises :=
    (hall hd).notMem_premises g
  refine ⟨⟨fun d hd g hg => absurd hg (hnone hd), fun d hd _ => (hall hd).2.1,
    fun d hd => (hfacts d hd).2.2.2, fun d hd => ?_, fun d hd => (hall hd).2.2.1.trans_le hi⟩,
    ⟨fun d hd g hg => absurd hg (hnone hd), fun d hd _ => (hall hd).2.1, fun f hf => ?_,
      fun d hd e he hmem => absurd hmem (hnone hd)⟩⟩
  · rw [heph, hgoals] at hd
    rcases hd with hd | hd <;> cases hd
  · obtain ⟨g, ⟨d, hd, -, hg⟩, -⟩ := TransGen.head'_iff.1 hf
    exact hnone hd hg

/-- The first token is taken in time. -/
lemma inTime_of_evidence (hfacts : ∀ d ∈ s.facts, IsEvidence d) (heph : s.eph = ∅)
    (hgoals : s.goalsFinal = ∅) (pod : Pod) (aud : String) : InTime i s pod aud where
  unused d hd hmem :=
    absurd hmem ((isEvidence_of_records hfacts heph hgoals hd).notMem_premises _)
  apart h := by
    obtain ⟨g, ⟨d, hd, -, hg⟩, -⟩ := TransGen.head'_iff.1 h
    exact (isEvidence_of_records hfacts heph hgoals hd).notMem_premises _ hg

lemma Run.tabled (hw : WellFormed inp) {points : List (Phase × ViewState)}
    (h : Run inp view points) : ∀ x ∈ points, x.2.Tabled x.1.index := by
  induction h with
  | history h =>
      exact List.forall_mem_singleton.2 (causal_of_evidence
        (fun d hd => isEvidence_of_addHistorical (fun e he => isEvidence_of_initialFacts he) hd)
        rfl rfl (show initialInterval ≤ historyInterval by decide)).1
  | first h =>
      exact List.forall_mem_singleton.2 (causal_of_evidence
        (fun d hd => isEvidence_of_initialFacts hd) rfl rfl
        (show initialInterval ≤ (0 : ℤ) by decide)).1
  | afterHistory _ ih =>
      have hs := (ih _ List.mem_cons_self).mono (show historyInterval ≤ (0 : ℤ) by decide)
      refine List.forall_mem_cons.2 ⟨hs.congr rfl fun d hd => ?_, ih⟩
      rcases hd with hd | hd <;> cases hd
  | @defend k s past a records _ ha ih =>
      have hs := (ih _ List.mem_cons_self).mono
        (show (k : ℤ) ≤ (Phase.interval (k + 1)).index by simp [Phase.index])
      refine List.forall_mem_cons.2 ⟨hs.congr rfl fun d hd => ?_, ih⟩
      exact hd.elim (fun hd => by cases hd) .inl
  | step h hst ih =>
      have hd := h.during _ List.mem_cons_self
      have hs := ih _ List.mem_cons_self
      exact List.forall_mem_cons.2 ⟨hst.tabled hs (hd.owned hw) (hd.cared hw), ih⟩

/-- At every point of a run the provenance is causal exactly if every token is taken in time. -/
theorem Run.causal_iff (hw : WellFormed inp) {points : List (Phase × ViewState)}
    (h : Run inp view points) :
    (∀ x ∈ points, x.2.Causal) ↔ points.IsChain (InTimeBetween inp view) := by
  induction h with
  | history h =>
      simp only [List.mem_singleton, forall_eq, List.isChain_singleton, iff_true]
      exact (causal_of_evidence (fun d hd => isEvidence_of_addHistorical
        (fun e he => isEvidence_of_initialFacts he) hd) rfl rfl le_rfl).2
  | first h =>
      simp only [List.mem_singleton, forall_eq, List.isChain_singleton, iff_true]
      exact (causal_of_evidence (fun d hd => isEvidence_of_initialFacts hd) rfl rfl le_rfl).2
  | @afterHistory s past h ih =>
      rw [List.forall_mem_cons, ih, List.isChain_cons_cons]
      refine and_congr_left fun hchain => iff_of_true ?_ fun heq => by cases heq
      have hs := ih.2 hchain _ List.mem_cons_self
      refine hs.congr (h.afterHistory.tabled hw _ List.mem_cons_self) rfl fun d hd => ?_
      rcases hd with hd | hd <;> cases hd
  | @defend k s past a records h ha ih =>
      rw [List.forall_mem_cons, ih, List.isChain_cons_cons]
      refine and_congr_left fun hchain => iff_of_true ?_ fun heq => by simp at heq
      have hs := ih.2 hchain _ List.mem_cons_self
      refine hs.congr ((h.defend ha).tabled hw _ List.mem_cons_self) rfl fun d hd => ?_
      exact hd.elim (fun hd => by cases hd) .inl
  | @step φ s t past h hst ih =>
      rw [List.forall_mem_cons, ih, List.isChain_cons_cons]
      refine and_congr_left fun hchain => ?_
      have hs := ih.2 hchain _ List.mem_cons_self
      have hd := h.during _ List.mem_cons_self
      rw [hst.causal_iff (h.tabled hw _ List.mem_cons_self) (hd.owned hw) (hd.cared hw) hs]
      exact ⟨fun htime _ => htime, fun htime => htime rfl⟩

end Engine

end Afterlock
