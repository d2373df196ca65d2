import Afterlock.Optimality

/-!
# Executing a plan

The actions of a plan, encoded and put into the document of the case, are accepted as its
remediation exactly if the bound on the intervals allows as many, and the analysis of that document
says what the plan reports (`plan_executes`).
-/

namespace Afterlock

open Parse

namespace Planner

lemma ok_bind {α β : Type} (a : α) (f : α → Parsed β) : (Except.ok a >>= f) = f a := rfl

/-- A document that is accepted with its actions is accepted with others exactly if they are not too
many, and it is the same input but for the actions. -/
lemma parse_withRemediation {m : Json.Fields} {raw : Json} {inp : AnalysisInput}
    {as : List DefenderAction} (h : parseAnalysisInput (.obj m) = .ok inp)
    (has : parseActions raw = .ok as) :
    parseAnalysisInput (.obj (withRemediation m raw)) =
      if (as.length : ℤ) + 1 > inp.bounds.maxIntervals then
        reject "remediation longer than bounds.max_intervals"
      else .ok (inp.withRemediation as) := by
  -- every other field is read as before
  have hget : ∀ k, k ≠ "remediation" → Json.get (withRemediation m raw) k = Json.get m k :=
    fun k => get_withRemediation
  have hraw : Json.get (withRemediation m raw) "remediation" = raw := rfl
  have hstr (k : String) (hk : k ≠ "remediation") :
      reqStr (withRemediation m raw) k "analysis input" = reqStr m k "analysis input" := by
    unfold reqStr optStr
    rw [hget k hk]
  have hopt (k : String) (hk : k ≠ "remediation") :
      optInt (withRemediation m raw) k "analysis input" 0 = optInt m k "analysis input" 0 := by
    unfold optInt
    rw [hget k hk]
  have hint (k : String) (hk : k ≠ "remediation") :
      reqInt (withRemediation m raw) k "analysis input" 0 = reqInt m k "analysis input" 0 := by
    unfold reqInt
    rw [hopt k hk]
  have hschema : schema (withRemediation m raw) = schema m := by
    unfold schema
    rw [hget "schema" (by decide)]
  simp only [parseAnalysisInput, bind_eq_ok, pure_eq_ok] at h
  obtain ⟨_, hm, _, hs, time, htime, start, hstart, _, hafter, profJ, hprofJ, profile, hprofile,
    invJ, hinvJ, inv, hinv, credJ, hcredJ, creds, hcreds, _, hucreds, factJ, hfactJ, facts, hfacts,
    objJ, hobjJ, objs, hobjs, _, hne, _, huobj, legJ, hlegJ, legit, hlegit, _, hulegit, gapJ,
    hgapJ, gaps, hgaps, bounds, hbounds, rem, hrem, _, hlen, caseId, hcase, cluster, hcluster,
    assumptions, hass, rfl⟩ := h
  obtain rfl := Except.ok.inj hm
  have hobj : Parse.obj (.obj (withRemediation m raw)) "analysis input" =
      .ok (withRemediation m raw) := rfl
  simp only [parseAnalysisInput, hobj, ok_bind, hschema, hs,
    hint "analysis_time" (by decide), htime, hopt "history_start" (by decide), hstart, hafter,
    hget "profile" (by decide), hprofJ, hprofile, hget "inventory" (by decide), hinvJ, hinv,
    hget "credentials" (by decide), hcredJ, hcreds, hucreds, hget "initial_facts" (by decide),
    hfactJ, hfacts, hget "objectives" (by decide), hobjJ, hobjs, hne, huobj,
    hget "legitimate_operations" (by decide), hlegJ, hlegit, hulegit,
    hget "coverage_gaps" (by decide), hgapJ, hgaps, hget "bounds" (by decide), hbounds, hraw, has,
    hstr "case_id" (by decide), hcase, hstr "cluster_id" (by decide), hcluster,
    hget "assumptions" (by decide), hass]
  unfold rejectIf
  split_ifs with hlong
  · rfl
  · rfl

/-! ### Candidates can be encoded -/

section

variable {inp : AnalysisInput} {cands : List DefenderAction}

/-- The plan that the search has found is a valid sequence, with what its analysis says. -/
lemma best_eq_summarize {C : Type} [LinearOrder C] [CostArith C] {cfg : Config C} {b : Summary C}
    (hb : (search inp cfg cands).best = some b) :
    ∃ seq, Considered cands cfg.maxLength seq ∧ valid (analysisOf inp seq) = true ∧
      b = summarize seq (analysisOf inp seq) cfg.table := by
  rcases search_cases inp cfg cands with
    hs | ⟨before, e, after, s, horder, hs, hroot, ⟨-, heq⟩ | ⟨-, hvalid, heq⟩⟩
  · exact absurd (hs.best.symm.trans hb) (by simp)
  · rw [heq] at hb
    exact absurd (hs.best.symm.trans hb) (by simp)
  · rw [heq] at hb
    have hmem : e ∈ (sequences cands cfg.table cfg.maxLength).order [root] := by
      rw [horder]
      exact List.mem_append_right _ List.mem_cons_self
    obtain ⟨idxs, hidxs, rfl⟩ := mem_order_iff.1 hmem
    exact ⟨pick cands idxs, ⟨idxs, hroot, hidxs, rfl⟩, hvalid, (Option.some.inj hb).symm⟩

/-- A sequence of candidates is encoded and parsed again to itself. -/
lemma parseActions_of_considered (h : candidateActions inp = .ok cands)
    {maxLength : ℤ} {seq : List DefenderAction} (hseq : Considered cands maxLength seq) :
    ∃ raws, seq.mapM DefenderAction.toJson = some raws ∧ parseActions (.arr raws) = .ok seq := by
  obtain ⟨hencodable, hnodup, hlength⟩ := encodable_candidateActions h
  obtain ⟨idxs, -, hidxs, rfl⟩ := hseq
  obtain ⟨hdistinct, hmem, -⟩ := (exists_positions_iff hnodup).1 ⟨idxs, hidxs, rfl⟩
  obtain ⟨raws, hraws, hlen, hparse⟩ :=
    @actionsFrom_toJson "remediation" 0 (pick cands idxs) fun a ha => hencodable a (hmem a ha)
  have hshort : (pick cands idxs).length ≤ cands.length :=
    (hdistinct.subperm fun a ha => hmem a ha).length_le
  refine ⟨raws, hraws, ?_⟩
  rw [parseActions, actions, list, if_neg (by omega)]
  exact hparse

end

/-- The actions of the best plan, as a document, are accepted exactly if the bound on the intervals
allows as many; what is accepted is the input with these actions, and its analysis is valid and says
what the plan reports. -/
theorem plan_executes {C : Type} [LinearOrder C] [CostArith C] {m : Json.Fields}
    {inp : AnalysisInput} {cfg : Config C} {p : Plan C} {b : Summary C}
    (h : parseAnalysisInput (.obj m) = .ok inp) (hplan : plan inp cfg none = .ok p)
    (hb : p.bestPlan = some b) :
    ∃ raws, b.actions.mapM DefenderAction.toJson = some raws ∧
      ((∃ inp', parseAnalysisInput (.obj (withRemediation m (.arr raws))) = .ok inp') ↔
        (b.actions.length : ℤ) + 1 ≤ inp.bounds.maxIntervals) ∧
      ∀ inp', parseAnalysisInput (.obj (withRemediation m (.arr raws))) = .ok inp' →
        inp' = inp.withRemediation b.actions ∧ valid (analyze inp' .full) = true ∧
          summarize b.actions (analyze inp' .full) cfg.table = b := by
  obtain ⟨cands, naive, hcands, -, -, rfl⟩ := plan_eq_ok_iff.1 hplan
  obtain ⟨seq, hseq, hvalid, rfl⟩ := best_eq_summarize hb
  obtain ⟨raws, hraws, hparse⟩ := parseActions_of_considered hcands hseq
  refine ⟨raws, hraws, ?_, ?_⟩
  all_goals
    rw [parse_withRemediation h hparse]
  · constructor
    · rintro ⟨inp', hinp'⟩
      exact not_lt.1 (ite_reject_eq_ok.1 hinp').1
    · intro hlen
      exact ⟨_, if_neg (not_lt.2 hlen)⟩
  · intro inp' hinp'
    obtain ⟨-, hok⟩ := ite_reject_eq_ok.1 hinp'
    obtain rfl := Except.ok.inj hok
    exact ⟨rfl, hvalid, rfl⟩

/-- The plan of the small document is executed. -/
theorem leaking_plan_executes : ∃ inp p b raws inp',
    parseAnalysisInput (.obj Sample.leaking) = .ok inp ∧ plan inp (Sample.config 1) none = .ok p ∧
      p.bestPlan = some b ∧ b.actions.mapM DefenderAction.toJson = some raws ∧
      parseAnalysisInput (.obj (withRemediation Sample.leaking (.arr raws))) = .ok inp' ∧
      valid (analyze inp' .full) = true := by
  obtain ⟨inp, p, b, hinp, hplan, hb, hlen⟩ := Sample.leaking_plan
  obtain ⟨raws, hraws, haccepted, hexecutes⟩ := plan_executes hinp hplan hb
  obtain ⟨inp', hinp'⟩ := haccepted.2 hlen
  exact ⟨inp, p, b, raws, inp', hinp, hplan, hb, hraws, hinp', (hexecutes inp' hinp').2.1⟩

end Planner

end Afterlock
