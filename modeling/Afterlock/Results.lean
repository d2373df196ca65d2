import Afterlock.Engine

/-!
# Result bundles

`analyze` runs both views, collects everything that keeps the conclusion from being containment
(`missing` and `unknown_reasons`) and gives each objective its status.

The texts that do not depend on the input (the scope, the limitations, the note) and the digests
are left out: no modelled function reads them.
-/

namespace Afterlock

inductive ObjectiveStatus where
  | violated | possiblyViolated | unknown | satisfiedWithinScope
deriving DecidableEq, Repr

def View.text : View → String
  | .evidenceSupported => "evidence_supported"
  | .conservativePossible => "conservative_possible"

/-- What an objective's status rests on. -/
inductive Basis where
  | view (v : View)
  | fixpointExhausted
deriving DecidableEq, Repr

structure ObjectiveEntry where
  id : String
  target : ObjectiveTarget
  description : String
  status : ObjectiveStatus
  basis : Option Basis
  reasons : List String
  witness : Option String
deriving DecidableEq, Repr

structure Witness where
  id : String
  objective : String
  view : View
  goal : Fact
  steps : List Derivation
deriving DecidableEq, Repr

/-- An entry of `missing_coverage`. -/
inductive Missing where
  | gap (g : CoverageGap)
  | unknown (u : Unknown)
  | boundsExceeded (view : View) (detail : String)
deriving DecidableEq, Repr

inductive Conclusion where
  | residualPath | unknown | containedWithinScope
deriving DecidableEq, Repr

/-- The attacker's goals at one interval. -/
structure Exposure where
  interval : ℤ
  afterAction : Option String
  time : ℤ
  goals : List Fact
deriving DecidableEq, Repr

structure ResultBundle where
  caseId : String
  clusterId : String
  mode : Mode
  analysisTime : ℤ
  remediation : List DefenderAction
  conclusion : Conclusion
  objectives : List ObjectiveEntry
  witnesses : List Witness
  exposure : List Exposure
  legitimateOperations : List LegitResult
  timeline : List IntervalRecord
  assumptions : List String
  evidenceReferences : List String
  missingCoverage : List Missing
  derivationsUsed : ℕ × ℕ
  /-- `analysis_bounds.exhausted`: the exploration is complete in both views. -/
  exhausted : Bool
deriving DecidableEq, Repr

namespace Unknown
def detail : Unknown → String
  | unsupportedCredential _ d => d
  | unsupportedAdmission _ _ _ _ d => d

/-- `tuple(sorted((k, str(v)) for k, v in u.items()))`. -/
def key : Unknown → List (String × String)
  | unsupportedCredential c d => [("credential", c), ("detail", d), ("kind", "unsupported_credential")]
  | unsupportedAdmission ns creator sa policies d =>
      [("creator", creator), ("detail", d), ("kind", "unsupported_admission"), ("namespace", ns),
        ("policies", (Json.arr (policies.map .str)).repr), ("service_account", sa)]
end Unknown

namespace Results

/-- The unknowns whose key was not seen before, in order. -/
def distinctFrom : List (List (String × String)) → List Unknown → List Unknown
  | _, [] => []
  | seen, u :: us =>
      if u.key ∈ seen then distinctFrom seen us else u :: distinctFrom (u.key :: seen) us

def gapReason (g : CoverageGap) : String := s!"coverage gap {g.id}: {g.description}"

def boundsReason (v : View) : String :=
  s!"analysis bounds exceeded in {v.text} view; exploration incomplete"

/-- The views whose exploration stopped at the cap. -/
def exceeded (ev pv : ViewOutcome) : List View :=
  ([ev, pv].filter ViewOutcome.boundsExceeded).map ViewOutcome.view

def unknownReasons (inp : AnalysisInput) (ev pv : ViewOutcome) : List String :=
  inp.coverageGaps.map gapReason ++
    (distinctFrom [] (ev.unknowns ++ pv.unknowns)).map Unknown.detail ++
    (exceeded ev pv).map boundsReason

def missing (inp : AnalysisInput) (ev pv : ViewOutcome) : List Missing :=
  inp.coverageGaps.map .gap ++ (distinctFrom [] (ev.unknowns ++ pv.unknowns)).map .unknown ++
    (exceeded ev pv).map fun v =>
      .boundsExceeded v s!"derivation cap {Text.ofInt inp.bounds.maxDerivations} reached"

def witnessOf (o : Objective) (v : ViewOutcome) : Witness where
  id := "w-" ++ o.id
  objective := o.id
  view := v.view
  goal := objectiveGoal o.target
  steps := v.witness (objectiveGoal o.target)

/-- `goal in v.goals_final`. -/
def inFinal (v : ViewOutcome) (o : Objective) : Bool :=
  v.goalsFinal.contains (objectiveGoal o.target)

def objectiveEntry (o : Objective) (ev pv : ViewOutcome) (reasons : List String) :
    ObjectiveEntry × Option Witness :=
  let entry : ObjectiveEntry :=
    { id := o.id, target := o.target, description := o.description, status := .unknown,
      basis := none, reasons := [], witness := none }
  if inFinal ev o then
    let w := witnessOf o ev
    ({ entry with status := .violated, basis := some (.view .evidenceSupported),
                  witness := some w.id }, some w)
  else if inFinal pv o then
    let w := witnessOf o pv
    ({ entry with status := .possiblyViolated, basis := some (.view .conservativePossible),
                  witness := some w.id }, some w)
  else if reasons ≠ [] then ({ entry with reasons := reasons }, none)
  else ({ entry with status := .satisfiedWithinScope, basis := some .fixpointExhausted }, none)

/-- The conclusion from the statuses of the objectives. -/
def conclude (statuses : List ObjectiveStatus) : Conclusion :=
  if .violated ∈ statuses ∨ .possiblyViolated ∈ statuses then .residualPath
  else if .unknown ∈ statuses then .unknown
  else .containedWithinScope

def isCapability : Fact → Bool
  | .canReadSecret .. => true
  | .canUseDownstream _ => true
  | _ => false

/-- The attacker's capabilities before the last interval. -/
def exposure (v : ViewOutcome) : List Exposure :=
  (v.intervals.dropLast.map fun r =>
    { interval := r.index, afterAction := r.action, time := r.time,
      goals := r.goals.filter isCapability }).filter fun e => !e.goals.isEmpty

def timeline (v : ViewOutcome) : List IntervalRecord :=
  v.intervals.map fun r => { r with goals := r.goals.filter isCapability }

end Results

open Results in
/-- The result of an analysis, from the outcomes of its two views. -/
def assemble (inp : AnalysisInput) (mode : Mode) (ev pv : ViewOutcome) : ResultBundle :=
  let reasons := unknownReasons inp ev pv
  let entries := inp.objectives.map fun o => objectiveEntry o ev pv reasons
  let witnesses := entries.filterMap Prod.snd
  { caseId := inp.caseId
    clusterId := inp.clusterId
    mode := mode
    analysisTime := inp.analysisTime
    remediation := inp.remediation
    conclusion := conclude (entries.map fun e => e.1.status)
    objectives := entries.map Prod.fst
    witnesses := witnesses
    exposure := exposure ev
    legitimateOperations := legitStatus inp ev.finalEnv
    timeline := timeline ev
    assumptions := inp.assumptions
    evidenceReferences := Text.sortedBy id
      (witnesses.flatMap fun w => w.steps.flatMap Derivation.evidence).dedup
    missingCoverage := missing inp ev pv
    derivationsUsed := (ev.derivationCount, pv.derivationCount)
    exhausted := !(ev.boundsExceeded || pv.boundsExceeded) }

def analyze (inp : AnalysisInput) (mode : Mode) : ResultBundle :=
  assemble inp mode (runView inp .evidenceSupported mode) (runView inp .conservativePossible mode)

/-! ### What the conclusion and the statuses say -/

namespace Results

lemma conclude_eq_contained_iff {statuses : List ObjectiveStatus} :
    conclude statuses = .containedWithinScope ↔ ∀ s ∈ statuses, s = .satisfiedWithinScope := by
  unfold conclude
  constructor
  · intro h s hs
    split_ifs at h with h1 h2
    cases s with
    | violated => exact absurd (Or.inl hs) h1
    | possiblyViolated => exact absurd (Or.inr hs) h1
    | unknown => exact absurd hs h2
    | satisfiedWithinScope => rfl
  · intro h
    have h1 : ¬(.violated ∈ statuses ∨ .possiblyViolated ∈ statuses) := by
      rintro (hv | hv) <;> cases h _ hv
    have h2 : .unknown ∉ statuses := fun hu => by cases h _ hu
    rw [if_neg h1, if_neg h2]

variable {o : Objective} {ev pv : ViewOutcome} {reasons : List String}

lemma objectiveEntry_target : (objectiveEntry o ev pv reasons).1.target = o.target := by
  unfold objectiveEntry
  split_ifs <;> rfl

lemma status_violated_iff :
    (objectiveEntry o ev pv reasons).1.status = .violated ↔ inFinal ev o = true := by
  unfold objectiveEntry
  split_ifs <;> simp_all

lemma status_possiblyViolated_iff :
    (objectiveEntry o ev pv reasons).1.status = .possiblyViolated ↔
      inFinal ev o = false ∧ inFinal pv o = true := by
  unfold objectiveEntry
  split_ifs <;> simp_all

lemma status_satisfied_iff :
    (objectiveEntry o ev pv reasons).1.status = .satisfiedWithinScope ↔
      inFinal ev o = false ∧ inFinal pv o = false ∧ reasons = [] := by
  unfold objectiveEntry
  split_ifs <;> simp_all

/-- Dropping the repeated unknowns never drops them all. -/
lemma distinctFrom_nil_eq_nil_iff {us : List Unknown} : distinctFrom [] us = [] ↔ us = [] := by
  cases us <;> simp [distinctFrom]

/-- Nothing is missing exactly if there is no coverage gap, no view met an unknown and no view
stopped at the cap. -/
lemma unknownReasons_eq_nil_iff {inp : AnalysisInput} :
    unknownReasons inp ev pv = [] ↔
      inp.coverageGaps = [] ∧ (ev.unknowns = [] ∧ pv.unknowns = []) ∧
        ev.boundsExceeded = false ∧ pv.boundsExceeded = false := by
  simp only [unknownReasons, List.append_eq_nil_iff, List.map_eq_nil_iff,
    distinctFrom_nil_eq_nil_iff, exceeded, List.filter_eq_nil_iff, and_assoc]
  simp

end Results

open Results in
/-- The conclusion is containment exactly if nothing is missing and no objective's goal is among
the final goals of a view. -/
lemma assemble_contained_iff {inp : AnalysisInput} {mode : Mode} {ev pv : ViewOutcome}
    (ho : inp.objectives ≠ []) :
    (assemble inp mode ev pv).conclusion = .containedWithinScope ↔
      unknownReasons inp ev pv = [] ∧
        ∀ o ∈ inp.objectives, inFinal ev o = false ∧ inFinal pv o = false := by
  simp only [assemble, conclude_eq_contained_iff, List.forall_mem_map, status_satisfied_iff]
  constructor
  · intro h
    obtain ⟨o, hmem⟩ := List.exists_mem_of_ne_nil _ ho
    exact ⟨(h o hmem).2.2, fun o ho => ⟨(h o ho).1, (h o ho).2.1⟩⟩
  · rintro ⟨hr, h⟩ o ho
    exact ⟨(h o ho).1, (h o ho).2, hr⟩

end Afterlock
