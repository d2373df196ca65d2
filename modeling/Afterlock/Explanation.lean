import Afterlock.Accepted
import Afterlock.Provenance

/-!
# Witnesses

The witness of a goal lists derivations depth first.  Where the provenance is causal, every derivation
of a witness comes after derivations of its premises, none of which is of a later interval
(`explained_witness`).  So the witnesses of a run explain what they list at every point, and the
provenance is causal there, exactly if every token is taken in time (`provenance_iff_inTime`).  A token
that is refreshed after a wait is not.
-/

namespace Afterlock

open Prog Engine Relation

/-! ### Lists of derivations -/

/-- Every derivation comes after derivations of its premises, none of them of a later interval. -/
def Explained (out : List Derivation) : Prop :=
  ∀ before d after, out = before ++ d :: after →
    ∀ g ∈ d.premises, ∃ e ∈ before, e.fact = g ∧ e.interval ≤ d.interval

lemma explained_nil : Explained [] := by
  intro before d after h
  cases before <;> cases h

lemma Explained.snoc {out : List Derivation} {d : Derivation} (h : Explained out)
    (hd : ∀ g ∈ d.premises, ∃ e ∈ out, e.fact = g ∧ e.interval ≤ d.interval) :
    Explained (out ++ [d]) := by
  intro before d' after heq
  rcases List.eq_nil_or_concat after with rfl | ⟨after', x, rfl⟩
  · obtain ⟨rfl, hd'⟩ := List.append_inj' heq rfl
    obtain rfl := List.singleton_inj.1 hd'
    exact hd
  · rw [List.concat_eq_append, ← List.cons_append, ← List.append_assoc] at heq
    exact h before d' after' (List.append_inj' heq rfl).1

namespace ViewState

/-- The witness for a goal of an outcome with the facts of the state and the final goals `goals`. -/
def witness (s : ViewState) (goals : Table Derivation.fact) (goal : Fact) : List Derivation :=
  (ViewOutcome.visit s.facts (s.facts.rows.length + 1) goals goal ([], [])).2

/-! ### The depth-first search -/

/-- What the search has done while the derivations of the facts `opn` wait for their premises. -/
structure Visited (s : ViewState) (opn : List Fact) (acc : List Fact × List Derivation) : Prop where
  explained : Explained acc.2
  stored : ∀ d ∈ acc.2, d ∈ s.facts
  listed : ∀ g ∈ acc.1, g.persistent = true → (∃ d ∈ acc.2, d.fact = g) ∨ g ∈ opn

/-- A visit of `g` has listed a derivation of it, and has kept what was listed. -/
structure Lists (s : ViewState) (opn : List Fact) (acc acc' : List Fact × List Derivation) (g : Fact) :
    Prop where
  visited : Visited s opn acc'
  kept : ∀ d ∈ acc.2, d ∈ acc'.2
  lists : ∃ d ∈ acc'.2, d.fact = g

variable {s : ViewState} {i : ℤ}

/-- If each premise is listed by its visit, all are listed in the end. -/
lemma visited_foldl {opn ps : List Fact}
    (visit : Fact → List Fact × List Derivation → List Fact × List Derivation)
    (hvisit : ∀ g ∈ ps, ∀ acc, Visited s opn acc → Lists s opn acc (visit g acc) g)
    {acc : List Fact × List Derivation} (h : Visited s opn acc) :
    Visited s opn (ps.foldl (fun acc g => visit g acc) acc) ∧
      (∀ d ∈ acc.2, d ∈ (ps.foldl (fun acc g => visit g acc) acc).2) ∧
      ∀ g ∈ ps, ∃ d ∈ (ps.foldl (fun acc g => visit g acc) acc).2, d.fact = g := by
  induction ps generalizing acc with
  | nil => exact ⟨h, fun _ hd => hd, by simp⟩
  | cons g ps ih =>
      have hg := hvisit g List.mem_cons_self acc h
      obtain ⟨hv, hkept, hlists⟩ := ih (fun x hx => hvisit x (List.mem_cons_of_mem _ hx)) hg.visited
      refine ⟨hv, fun d hd => hkept d (hg.kept d hd), fun x hx => ?_⟩
      rcases List.mem_cons.1 hx with rfl | hx
      · obtain ⟨d, hd, hdx⟩ := hg.lists
        exact ⟨d, hkept d hd, hdx⟩
      · exact hlists x hx

/-- No path of distinct recorded facts is longer than the table. -/
lemma length_le_of_nodup {fs : List Fact} (hn : fs.Nodup) (hf : ∀ f ∈ fs, s.Has f) :
    fs.length ≤ s.facts.rows.length := by
  have hsub : fs ⊆ s.facts.rows.map Derivation.fact := by
    intro f h
    obtain ⟨d, hd, rfl⟩ := hf f h
    exact List.mem_map_of_mem hd
  simpa using (hn.subperm hsub).length_le

/-- A visit of a recorded fact lists a derivation of it, if the facts that wait for it rest on it and
the depth is enough. -/
lemma lists_visit (h : s.Causal) (hs : s.Tabled i) {fuel : ℕ} {opn : List Fact} {f : Fact}
    (hf : s.Has f) (hopn : ∀ g ∈ opn, TransGen s.Premise f g ∧ s.Has g) (hn : opn.Nodup)
    (hfuel : s.facts.rows.length ≤ fuel + opn.length) {acc : List Fact × List Derivation}
    (hv : Visited s opn acc) :
    Lists s opn acc (ViewOutcome.visit s.facts fuel s.facts f acc) f := by
  have hfresh : f ∉ opn := fun hmem => h.acyclic f (hopn f hmem).1
  have hn' : (f :: opn).Nodup := List.nodup_cons.2 ⟨hfresh, hn⟩
  have hhas : ∀ g ∈ f :: opn, s.Has g := List.forall_mem_cons.2 ⟨hf, fun g hg => (hopn g hg).2⟩
  induction fuel generalizing opn f acc with
  | zero =>
      have hlen := length_le_of_nodup hn' hhas
      rw [List.length_cons] at hlen
      omega
  | succ fuel ih =>
      obtain ⟨seen, out⟩ := acc
      unfold ViewOutcome.visit
      by_cases hseen : f ∈ seen
      · rw [if_pos hseen]
        -- a fact that was seen and is not waiting is listed already
        exact ⟨hv, fun _ hd => hd, (hv.listed f hseen (hs.persistent hf)).resolve_right hfresh⟩
      obtain ⟨d, hd, rfl⟩ := hf
      have hget : (s.facts.get? d.fact).or (s.facts.get? d.fact) = some d := by
        rw [Table.get?_key hd]
        rfl
      rw [if_neg hseen, hget]
      have hpremise : ∀ g ∈ d.premises, s.Premise g d.fact := fun g hg =>
        ⟨d, .inl hd, rfl, hg⟩
      have hbegin : Visited s (d.fact :: opn) (d.fact :: seen, out) := by
        refine ⟨hv.explained, hv.stored, fun g hg hp => ?_⟩
        rcases List.mem_cons.1 hg with rfl | hg
        · exact .inr List.mem_cons_self
        · exact (hv.listed g hg hp).imp id (List.mem_cons_of_mem _)
      obtain ⟨hv', hkept, hlists⟩ := visited_foldl
        (fun g acc => ViewOutcome.visit s.facts fuel s.facts g acc)
        (fun g hg acc hacc => by
          have hwait : ∀ x ∈ d.fact :: opn, TransGen s.Premise g x ∧ s.Has x := by
            intro x hx
            refine ⟨?_, hhas x hx⟩
            rcases List.mem_cons.1 hx with rfl | hx
            · exact .single (hpremise g hg)
            · exact .head (hpremise g hg) (hopn x hx).1
          have hg' := h.recorded d (.inl hd) g hg
          have hg'' : g ∉ d.fact :: opn := fun hmem => h.acyclic g (hwait g hmem).1
          exact ih hg' hwait hn' (by rw [List.length_cons]; omega) hacc hg''
            (List.nodup_cons.2 ⟨hg'', hn'⟩) (List.forall_mem_cons.2 ⟨hg', hhas⟩)) hbegin
      refine ⟨⟨hv'.explained.snoc fun g hg => ?_, fun e he => ?_, fun g hg hp => ?_⟩, fun e he => ?_,
        d, by simp, rfl⟩
      · obtain ⟨e, he, rfl⟩ := hlists g hg
        exact ⟨e, he, rfl, h.ordered d (.inl hd) e (hv'.stored e he) hg⟩
      · rcases List.mem_append.1 he with he | he
        · exact hv'.stored e he
        · exact List.mem_singleton.1 he ▸ hd
      · rcases hv'.listed g hg hp with ⟨e, he, rfl⟩ | hmem
        · exact .inl ⟨e, List.mem_append_left _ he, rfl⟩
        · rcases List.mem_cons.1 hmem with rfl | hmem
          · exact .inl ⟨d, by simp, rfl⟩
          · exact .inr hmem
      · exact List.mem_append_left _ (hkept e he)

/-- Where the provenance is causal, the witness of a goal is explained, be it one of the interval in
progress or of the last one that was completed. -/
theorem explained_witness (h : s.Causal) (hs : s.Tabled i) {goals : Table Derivation.fact}
    (hgoals : goals = s.eph ∨ goals = s.goalsFinal) {goal : Fact}
    (hgoal : goals.contains goal = true) : Explained (s.witness goals goal) := by
  obtain ⟨d, hd, rfl⟩ := Table.contains_iff.1 hgoal
  have hin : d ∈ s.eph ∨ d ∈ s.goalsFinal := hgoals.imp (fun he => by rwa [he] at hd) fun he => by rwa [he] at hd
  unfold witness ViewOutcome.visit
  rw [if_neg List.not_mem_nil, Table.get?_key hd]
  show Explained (_ ++ [d])
  have hbegin : Visited s [] ([d.fact], []) := by
    refine ⟨explained_nil, by simp, fun g hg hp => ?_⟩
    rw [List.mem_singleton.1 hg, hs.capability d hin] at hp
    cases hp
  obtain ⟨hv, -, hlists⟩ := visited_foldl
    (fun g acc => ViewOutcome.visit s.facts s.facts.rows.length s.facts g acc)
    (fun g hg acc hacc => lists_visit h hs (h.recorded d (.inr hin) g hg) (by simp)
      List.nodup_nil (by simp) hacc) hbegin
  refine hv.explained.snoc fun g hg => ?_
  obtain ⟨e, he, rfl⟩ := hlists g hg
  exact ⟨e, he, rfl, h.ordered d (.inr hin) e (hv.stored e he) hg⟩

end ViewState

/-! ### The run of the engine -/

variable {inp : AnalysisInput} {view : View}

lemma Engine.Run.steps {φ : Phase} {s t : ViewState} {past : List (Phase × ViewState)}
    (h : Run inp view ((φ, s) :: past)) (hst : Steps (phaseCtx inp view φ) φ.index s t) :
    ∃ past', Run inp view ((φ, t) :: past') := by
  induction hst with
  | refl => exact ⟨past, h⟩
  | tail _ hst ih =>
      obtain ⟨past', h'⟩ := ih
      exact ⟨_, h'.step hst⟩

/-- A state in which the engine begins the closure of a phase is a point of a run. -/
lemma exists_run_of_enters {φ : Phase} {s : ViewState} (h : Enters inp view φ s) :
    ∃ past, Run inp view ((φ, s) :: past) := by
  cases φ with
  | history =>
      obtain ⟨hh, rfl⟩ := h
      exact ⟨[], .history hh⟩
  | interval k =>
      induction k generalizing s with
      | zero =>
          obtain ⟨p, hp, rfl⟩ := h
          rcases returns_possibleHistory hp with ⟨hh, t, ht, rfl⟩ | ⟨hh, rfl⟩
          · -- the possible history leaves the final goals and the interval records alone
            have hrec := @keeps_closure (phaseCtx inp view .history) historyInterval
              (enterHistory (viewCtx inp view) (initialState (viewCtx inp view)))
            rw [show closure (phaseCtx inp view .history) historyInterval
              (enterHistory (viewCtx inp view) (initialState (viewCtx inp view))) = (.ok (), t) from ht,
              records, Prod.mk.injEq] at hrec
            obtain ⟨past, hrun⟩ := (Run.history hh).steps (closure_steps (phaseCtx_mode .history) ht)
            have := hrun.afterHistory
            rw [show (∅ : Table Derivation.fact) = t.goalsFinal from hrec.1.symm,
              show ([] : List IntervalRecord) = t.intervals from hrec.2.symm] at this
            exact ⟨_, this⟩
          · exact ⟨[], .first hh⟩
      | succ k ih =>
          obtain ⟨u, a, hu, ha, rfl⟩ := h
          obtain ⟨s', t', hpass, hclose⟩ := hu.passes
          obtain ⟨past, hrun⟩ := ih hpass.enters
          obtain ⟨past', hrun'⟩ := hrun.steps hpass.steps
          have := @Run.defend _ _ _ _ _ _ u.intervals hrun' ha
          rw [hclose.same]
          exact ⟨_, this⟩

/-- What the engine goes through is made of points of runs. -/
theorem exists_run_of_along {φ : Phase} {s : ViewState} (h : Along inp view φ s) :
    ∃ past, Run inp view ((φ, s) :: past) := by
  obtain ⟨s₀, t, hpass, hs, -⟩ := h
  obtain ⟨past, hrun⟩ := exists_run_of_enters hpass.enters
  exact hrun.steps hs

/-- The witness that the outcome of a completed run gives is one of the last point of a run. -/
lemma exists_run_of_completed (h : (runView inp view .full).boundsExceeded = false) :
    ∃ s past, Run inp view ((.interval inp.remediation.length, s) :: past) ∧
      (runView inp view .full).derivations = s.facts ∧
      (runView inp view .full).goalsFinal = s.eph ∧
      ∀ goal, (runView inp view .full).witness goal = s.witness s.eph goal := by
  obtain ⟨u, hu⟩ := runView_completed.1 h
  obtain ⟨s, t, hpass, hclose⟩ := hu.passes
  obtain ⟨past, hrun⟩ := exists_run_of_enters hpass.enters
  obtain ⟨past', hrun'⟩ := hrun.steps hpass.steps
  rw [runView_of_after hu, hclose.same]
  exact ⟨t, past', hrun', rfl, rfl, fun _ => rfl⟩

/-! ### The main result -/

/-- At a point of a run the provenance is well-founded and causal, and every witness lists a premise
before its use and explains nothing by what is acquired later. -/
structure Provenanced (s : ViewState) : Prop where
  causal : s.Causal
  witnesses : ∀ goals, goals = s.eph ∨ goals = s.goalsFinal → ∀ goal, goals.contains goal = true →
    Explained (s.witness goals goal)

/-- At every point of a run of an accepted input the provenance is sound exactly if every token is
taken in time. -/
theorem provenance_iff_inTime {raw : Json} (hraw : parseAnalysisInput raw = .ok inp)
    {points : List (Phase × ViewState)} (h : Run inp view points) :
    (∀ x ∈ points, Provenanced x.2) ↔ points.IsChain (InTimeBetween inp view) := by
  have hw := wellFormed_of_parse hraw
  rw [← h.causal_iff hw]
  refine forall₂_congr fun x hx => ⟨fun hp => hp.causal, fun hc => ⟨hc, fun goals hgoals goal hg => ?_⟩⟩
  exact ViewState.explained_witness hc (h.tabled hw x hx) hgoals hg

/-! ### Tokens taken too late -/

/-- A document in which a controlled Pod's token reads the Secret of a service, and a wait. -/
def Sample.refreshed : Json :=
  Sample.document
    [("service_accounts", .arr [Sample.account "n" "reader"]),
      ("pods", .arr [Sample.pod "n" "p" "reader" []]),
      ("roles", .arr [Sample.role "n" "read" ["get"] "secrets"]),
      ("bindings", .arr [Sample.binding "n" "read" "reader"]),
      ("secrets", .arr [Sample.secret "n" "x"]),
      ("services", .arr [.obj [("name", .str "svc"), ("source_namespace", .str "n"),
        ("source_secret", .str "x"), ("accepted_version", .int 1)]])]
    [("initial_facts", .arr [Sample.fact "controls_pod" ["p"] "observed"]),
      ("remediation", .arr [Sample.action "wait" [("seconds", .int 5)]]),
      ("objectives", .arr [Sample.noSecretRead "o" "n" "x"])]

/-- A document with a credential under the id of the token of a Pod, which may exec into the Pod. -/
def Sample.circular : Json :=
  Sample.document
    [("service_accounts", .arr [Sample.account "n" "reader", Sample.account "n" "other"]),
      ("pods", .arr [Sample.pod "n" "p" "other" []]),
      ("roles", .arr [Sample.role "n" "exec" ["create"] "pods/exec"]),
      ("bindings", .arr [Sample.binding "n" "exec" "reader"])]
    [("credentials", .arr
        [Sample.credential "projected:p:api" "n" "reader" [("expires_at", .int 105)]]),
      ("initial_facts", .arr
        [Sample.fact "possesses_credential" ["projected:p:api"] "observed"]),
      ("objectives", .arr [Sample.noSecretRead "o" "n" "x"])]

/-- Some derivation of the list has a premise that is only acquired later. -/
def explainsByLater (out : List Derivation) : Bool :=
  out.any fun d => d.premises.any fun g => out.all fun e =>
    !decide (e.fact = g) || decide (d.interval < e.interval)

lemma not_explained_of_explainsByLater {out : List Derivation} (h : explainsByLater out = true) :
    ¬Explained out := by
  intro hexp
  simp only [explainsByLater, List.any_eq_true, List.all_eq_true, Bool.or_eq_true,
    Bool.not_eq_true', decide_eq_false_iff_not, decide_eq_true_eq] at h
  obtain ⟨d, hd, g, hg, hall⟩ := h
  obtain ⟨before, after, rfl⟩ := List.append_of_mem hd
  obtain ⟨e, he, hfact, hle⟩ := hexp before d after rfl g hg
  rcases hall e (List.mem_append_left _ he) with hne | hlt
  · exact hne hfact
  · omega

/-- Some two derivations of the table are premises of one another. -/
def hasLoop (facts : Table Derivation.fact) : Bool :=
  facts.rows.any fun d => facts.rows.any fun e =>
    decide (d.fact ∈ e.premises) && decide (e.fact ∈ d.premises)

lemma Sample.refreshed_late :
    ∃ inp, parseAnalysisInput Sample.refreshed = .ok inp ∧
      ∃ s past, Run inp .evidenceSupported ((.interval 1, s) :: past) ∧ ¬Provenanced s ∧
        ¬Explained ((runView inp .evidenceSupported .full).witness (.canUseDownstream "svc")) := by
  obtain ⟨inp, hinp, hp⟩ := Sample.accepted Sample.refreshed
    (p := fun inp => inp.remediation.length == 1 &&
      !(runView inp .evidenceSupported .full).boundsExceeded &&
      (runView inp .evidenceSupported .full).goalsFinal.contains (.canUseDownstream "svc") &&
      explainsByLater ((runView inp .evidenceSupported .full).witness (.canUseDownstream "svc")))
    (by decide +kernel)
  simp only [Bool.and_eq_true, beq_iff_eq, Bool.not_eq_true'] at hp
  obtain ⟨⟨⟨hlen, hb⟩, hgoal⟩, hlate⟩ := hp
  obtain ⟨s, past, hrun, -, hgoals, hwitness⟩ := exists_run_of_completed hb
  rw [hlen] at hrun
  have hnot := not_explained_of_explainsByLater hlate
  refine ⟨inp, hinp, s, past, hrun, fun hprov => ?_, hnot⟩
  rw [hwitness] at hnot
  exact hnot (hprov.witnesses s.eph (.inl rfl) _ (hgoals ▸ hgoal))

/-- After the wait a goal is explained by a token that was taken after the Secret was read with it;
and a credential under the id of a token explains itself. -/
theorem refreshed_not_provenanced :
    (∃ inp, parseAnalysisInput Sample.refreshed = .ok inp ∧
      ∃ s past, Run inp .evidenceSupported ((.interval 1, s) :: past) ∧ ¬Provenanced s ∧
        ¬Explained ((runView inp .evidenceSupported .full).witness (.canUseDownstream "svc"))) ∧
    ∃ inp, parseAnalysisInput Sample.circular = .ok inp ∧
      ∃ s past, Run inp .evidenceSupported ((.interval 0, s) :: past) ∧ ¬Acyclic s.Premise := by
  refine ⟨Sample.refreshed_late, ?_⟩
  obtain ⟨inp, hinp, hp⟩ := Sample.accepted Sample.circular
    (p := fun inp => inp.remediation.length == 0 &&
      !(runView inp .evidenceSupported .full).boundsExceeded &&
      hasLoop (runView inp .evidenceSupported .full).derivations)
    (by decide +kernel)
  simp only [Bool.and_eq_true, beq_iff_eq, Bool.not_eq_true'] at hp
  obtain ⟨⟨hlen, hb⟩, hloop⟩ := hp
  obtain ⟨s, past, hrun, hfacts, -, -⟩ := exists_run_of_completed hb
  rw [hlen] at hrun
  refine ⟨inp, hinp, s, past, hrun, fun hacyc => ?_⟩
  rw [hfacts] at hloop
  simp only [hasLoop, List.any_eq_true, Bool.and_eq_true, decide_eq_true_eq] at hloop
  obtain ⟨d, hd, e, he, hde, hed⟩ := hloop
  have hstep : s.Premise d.fact e.fact := ⟨e, .inl he, rfl, hde⟩
  exact hacyc d.fact (.head hstep (.single ⟨d, .inl hd, rfl, hed⟩))

/-- The attacker can take a token at the beginning of the run. -/
def Sample.takes (inp : AnalysisInput) (view : View) : Bool :=
  let s := enter (initialState (viewCtx inp view)) (baseEnv inp 0) ∅ []
  s.env.pods.rows.any fun pod => s.env.serviceAccounts.rows.any fun sa =>
    (tokenAudiences inp.profile pod).any fun aud => s.facts.contains (.controlsPod pod.uid) &&
      decide (sa.key = (pod.ns, pod.serviceAccount)) &&
      !holdsUntil s (projectedId pod.uid aud) (tokenExpiry (viewCtx inp view) s.env)

/-- In a run over the document with the wait a token is taken in time, and in another one a token is
taken too late. -/
theorem refreshed_inTime_until_wait :
    ∃ inp, parseAnalysisInput Sample.refreshed = .ok inp ∧
      (∃ s t, Run inp .evidenceSupported [(.interval 0, t), (.interval 0, s)] ∧
        (∃ cred ∈ t.creds, cred ∉ s.creds) ∧ Provenanced t) ∧
      ∃ points, Run inp .evidenceSupported points ∧
        ¬points.IsChain (InTimeBetween inp .evidenceSupported) := by
  obtain ⟨inp, hinp, s, past, hrun, hnot, -⟩ := Sample.refreshed_late
  obtain ⟨inp', hinp', htakes⟩ := Sample.accepted Sample.refreshed
    (p := fun inp => Sample.takes inp .evidenceSupported) (by decide +kernel)
  obtain rfl := Except.ok.inj (hinp.symm.trans hinp')
  refine ⟨inp, hinp, ?_, _, hrun, fun hchain => hnot ?_⟩
  · simp only [Sample.takes, List.any_eq_true, Bool.and_eq_true, decide_eq_true_eq,
      Bool.not_eq_true'] at htakes
    obtain ⟨pod, hp, sa, ha, aud, haud, ⟨hc, hk⟩, hnew⟩ := htakes
    have hfirst : Run inp .evidenceSupported [(.interval 0,
        enter (initialState (viewCtx inp .evidenceSupported)) (baseEnv inp 0) ∅ [])] := .first rfl
    have htoken := hfirst.step (.token (Table.contains_iff.1 hc) hp ha hk haud hnew)
    refine ⟨_, _, htoken, ⟨_, Table.mem_put_self, fun hmem => ?_⟩, ?_⟩
    · have hheld := (holdsUntil_projectedToken hmem _).trans (decide_eq_true le_rfl)
      exact absurd (hnew.symm.trans hheld) (by decide)
    · refine (provenance_iff_inTime hinp htoken).2 ?_ _ List.mem_cons_self
      refine List.isChain_cons_cons.2 ⟨fun _ pod sa aud _ _ => ?_, List.isChain_singleton _⟩
      exact inTime_of_evidence (fun d hd => isEvidence_of_initialFacts hd) rfl rfl pod aud
  · exact (provenance_iff_inTime hinp hrun).2 hchain _ List.mem_cons_self

end Afterlock
