import Afterlock.Lib.BestFirst
import Afterlock.Lib.Rounding
import Afterlock.Verification

/-!
# The planner

`plan` searches the sequences of distinct candidate actions, cheapest first, and analyses each of
them in full until one is valid.  Costs are floats in the source.  Here they are the elements of an
ordered type with the operations that the source applies to them, in the order in which it does, so
sums may depend on that order.

The candidates that `candidate_actions` generates are a set that is sorted by the labels; of those
with one label the order is left open by the source, and they stand in the order of the inventory
here.
-/

namespace Afterlock

open Parse

namespace Planner

/-! ### Costs -/

/-- The arithmetic of costs.  A float that is not a number has no place in the order, and is no
cost. -/
class CostArith (C : Type) where
  /-- The literals of the source. -/
  ofInt : ℤ → C
  /-- `seconds / 900.0`. -/
  quarterHours : ℤ → C
  add : C → C → C
  /-- The built-in `sum`. -/
  sum : List C → C
  /-- `round`, to six decimals. -/
  round6 : C → C

/-- `round`: to the nearest integer, and to the even one of two. -/
def roundHalfEven (q : ℚ) : ℤ :=
  if q - ⌊q⌋ < 1 / 2 then ⌊q⌋
  else if 1 / 2 < q - ⌊q⌋ then ⌊q⌋ + 1
  else if ⌊q⌋ % 2 = 0 then ⌊q⌋
  else ⌊q⌋ + 1

/-- Rational numbers of which a rounding keeps some, as binary floats are. -/
instance (r : Rounding ℚ) : CostArith r.Value where
  ofInt n := r.value n
  quarterHours n := r.value (r.value n / 900)
  add := r.add
  sum cs := cs.foldl r.add (r.value 0)
  round6 c := r.value (roundHalfEven (c * 10 ^ 6) / 10 ^ 6)

section

variable (C : Type) [CostArith C]

/-- `DEFAULT_COSTS`. -/
def defaultCosts : List (String × C) :=
  [("remove_binding", CostArith.ofInt 1), ("delete_pod", CostArith.ofInt 1),
    ("delete_controller", CostArith.ofInt 1), ("delete_pods_except", CostArith.ofInt 2),
    ("delete_controllers_except", CostArith.ofInt 2),
    ("rotate_downstream_credential", CostArith.ofInt 3),
    ("delete_service_account", CostArith.ofInt 4), ("wait", CostArith.ofInt 0)]

structure Config where
  maxLength : ℤ
  maxEvaluations : ℤ
  /-- `None` is an empty table. -/
  costs : List (String × C)

/-- `PlannerConfig()`. -/
def Config.default : Config C := ⟨4, 5000, []⟩

end

section

variable {C : Type} [CostArith C]

/-- The costs that are given, and the default ones for the other kinds. -/
def Config.table (cfg : Config C) : List (String × C) :=
  (defaultCosts C).map (fun c => (c.1, (cfg.costs.lookup c.1).getD c.2)) ++
    cfg.costs.filter fun c => ((defaultCosts C).lookup c.1).isNone

/-- `costs.get(a.kind, DEFAULT_COSTS[a.kind])`. -/
def baseCost (a : DefenderAction) (costs : List (String × C)) : C :=
  (costs.lookup a.kind).getD (((defaultCosts C).lookup a.kind).getD (CostArith.ofInt 0))

def actionCost (a : DefenderAction) (costs : List (String × C)) : C :=
  match a with
  | .wait seconds => CostArith.add (baseCost a costs) (CostArith.quarterHours seconds)
  | _ => baseCost a costs

/-- What a sequence costs when it is reached in the search: the costs of its actions, added from the
left. -/
def totalCost (seq : List DefenderAction) (costs : List (String × C)) : C :=
  (seq.map fun a => actionCost a costs).foldl CostArith.add (CostArith.ofInt 0)

end

/-! ### Candidates -/

/-- The service accounts of the facts that the attacker starts with. -/
def factServiceAccounts (inp : AnalysisInput) (f : InitialFact) :
    Parsed (List (String × String)) :=
  match f.claim with
  | .possessesCredential id =>
      match inp.credential? id with
      | none => reject s!"unknown credential {Json.quoted id}"
      | some c => .ok (parseSaUsername c.username).toList
  | .controlsPod uid =>
      .ok (((Table.ofList inp.inventory.pods : Table Pod.uid).get? uid).map fun p =>
        (p.ns, p.serviceAccount)).toList
  | .historicalPod _ ns sa => .ok [(ns, sa)]
  | _ => .ok []

/-- `_attacker_service_accounts`, sorted: those of the facts, and the others in their namespaces. -/
def attackerServiceAccounts (inp : AnalysisInput) : Parsed (List (String × String)) := do
  let sas := (← inp.initialFacts.mapM (factServiceAccounts inp)).flatten
  let near := inp.inventory.serviceAccounts.filter fun s => s.ns ∈ sas.map Prod.fst
  pure (Text.sortedBy toLex (sas ++ near.map fun s => (s.ns, s.name)).dedup)

/-- The bindings of the service accounts. -/
def bindingActions (inp : AnalysisInput) (sas : List (String × String)) : List Json :=
  (inp.inventory.bindings.filter fun b => b.subjects.any fun s =>
      decide (s.kind = .serviceAccount) && s.ns.any fun ns => decide ((ns, s.name) ∈ sas)).map fun b =>
    .obj (("kind", .str "remove_binding") :: ("name", .str b.name) ::
      (b.ns.map fun ns => ("namespace", Json.str ns)).toList)

/-- An action that keeps some objects of a service account. -/
def exceptAction (kind : String) (sa : String × String) (keep : List String) : Json :=
  .obj [("kind", .str kind), ("namespace", .str sa.1), ("service_account", .str sa.2),
    ("keep_uids", .arr (keep.map .str))]

def factUids (inp : AnalysisInput) (uid? : FactClaim → Option String) : List String :=
  inp.initialFacts.filterMap fun f => uid? f.claim

def controlledPod? : FactClaim → Option String
  | .controlsPod uid => some uid
  | _ => none

def controlledController? : FactClaim → Option String
  | .controlsController uid => some uid
  | _ => none

/-- The Pods of a service account that legitimate operations use. -/
def legitPods (inp : AnalysisInput) (sa : String × String) : List Pod :=
  inp.inventory.pods.filter fun p =>
    decide (p.uid ∈ inp.legitimateOperations.map LegitimateOperation.podUid ∧
      (p.ns, p.serviceAccount) = sa)

/-- The actions on a service account. -/
def serviceAccountActions (inp : AnalysisInput) (sa : String × String) : List Json :=
  let keep := Text.sortedBy id ((legitPods inp sa).map Pod.uid)
  let keepControllers := Text.sortedBy id
    (((legitPods inp sa).filterMap Pod.controllerUid).filter fun u => u ≠ "").dedup
  [exceptAction "delete_pods_except" sa keep,
    exceptAction "delete_controllers_except" sa keepControllers,
    .obj [("kind", .str "delete_service_account"), ("namespace", .str sa.1), ("name", .str sa.2)]]

/-- A rotation, and a wait if it has to propagate. -/
def rotationActions (s : DownstreamService) : List Json :=
  .obj [("kind", .str "rotate_downstream_credential"), ("service", .str s.name)] ::
    if s.rotationPropagationSeconds > 0 then
      [.obj [("kind", .str "wait"), ("seconds", .int s.rotationPropagationSeconds)]]
    else []

/-- `candidate_actions`. -/
def candidateActions (inp : AnalysisInput) : Parsed (List DefenderAction) := do
  let sas ← attackerServiceAccounts inp
  let pods := inp.inventory.pods.filter fun p => p.uid ∈ factUids inp controlledPod?
  let controllers := inp.inventory.controllers.filter fun c =>
    c.uid ∈ factUids inp controlledController?
  let raw := bindingActions inp sas ++
    pods.map (fun p => .obj [("kind", .str "delete_pod"), ("uid", .str p.uid)]) ++
    controllers.map (fun c => .obj [("kind", .str "delete_controller"), ("uid", .str c.uid)]) ++
    sas.flatMap (serviceAccountActions inp) ++ inp.inventory.services.flatMap rotationActions
  let parsed ← actions (.arr raw) "candidates"
  pure (Text.sortedBy DefenderAction.label parsed.dedup)

/-- `naive_plan`. -/
def naivePlan (inp : AnalysisInput) : Parsed (List DefenderAction) := do
  let sas ← attackerServiceAccounts inp
  actions (.arr (bindingActions inp sas ++ sas.flatMap fun sa =>
    [exceptAction "delete_controllers_except" sa [], exceptAction "delete_pods_except" sa []]))
    "naive"

/-! ### Summaries -/

structure Summary (C : Type) where
  actions : List DefenderAction
  /-- With six decimals. -/
  cost : C
  modelConclusion : Conclusion
  objectives : List (String × ObjectiveStatus)
  legitimateOperations : List (String × Bool)
  exposureIntervals : List ℤ
deriving DecidableEq

/-- `_summarize`. -/
def summarize {C : Type} [CostArith C] (seq : List DefenderAction) (b : ResultBundle)
    (costs : List (String × C)) : Summary C where
  actions := seq
  cost := CostArith.round6 (CostArith.sum (seq.map fun a => actionCost a costs))
  modelConclusion := b.conclusion
  objectives := b.objectives.map fun o => (o.id, o.status)
  legitimateOperations := b.legitimateOperations.map fun op => (op.id, op.preserved)
  exposureIntervals := b.exposure.map Exposure.interval

/-- `_valid`. -/
def valid (b : ResultBundle) : Bool :=
  b.conclusion == .containedWithinScope && b.legitimateOperations.all LegitResult.preserved

/-! ### The search -/

/-- An entry of the heap: the cost of a sequence, its labels and the positions of its actions among
the candidates.  Entries are compared in this order. -/
abbrev Entry (C : Type) : Type := C ×ₗ List String ×ₗ List ℕ

namespace Entry

variable {C : Type} (e : Entry C)

def cost : C := (ofLex e).1
def labels : List String := (ofLex (ofLex e).2).1
def idxs : List ℕ := (ofLex (ofLex e).2).2

end Entry

section

variable {C : Type} [CostArith C] (cands : List DefenderAction) (costs : List (String × C))

/-- `[cands[i] for i in idxs]`. -/
def pick (idxs : List ℕ) : List DefenderAction := idxs.filterMap (cands[·]?)

/-- The entry that has one more candidate. -/
def extend (e : Entry C) (x : DefenderAction × ℕ) : Entry C :=
  toLex (CostArith.add e.cost (actionCost x.1 costs),
    toLex ((pick cands (e.idxs ++ [x.2])).map DefenderAction.label, e.idxs ++ [x.2]))

/-- The entries that are pushed when an entry was popped. -/
def children (maxLength : ℤ) (e : Entry C) : List (Entry C) :=
  if (e.idxs.length : ℤ) < maxLength then
    (cands.zipIdx.filter fun x => x.2 ∉ e.idxs).map (extend cands costs e)
  else []

/-- How many sequences there are at most, at a depth. -/
def weightAt : ℕ → ℕ
  | 0 => 1
  | d + 1 => 1 + cands.length * weightAt d

def weight (maxLength : ℤ) (e : Entry C) : ℕ := weightAt cands (maxLength - e.idxs.length).toNat

lemma weightAt_pos (d : ℕ) : 0 < weightAt cands d := by
  cases d with
  | zero => exact Nat.one_pos
  | succ d => exact Nat.add_pos_left Nat.one_pos _

lemma weight_children (maxLength : ℤ) (e : Entry C) :
    ((children cands costs maxLength e).map (weight cands maxLength)).sum <
      weight cands maxLength e := by
  unfold children
  split_ifs with h
  · obtain ⟨d, hd⟩ : ∃ d : ℕ, maxLength - e.idxs.length = d + 1 :=
      ⟨(maxLength - e.idxs.length - 1).toNat, by omega⟩
    have hchild (x : DefenderAction × ℕ) :
        weight cands maxLength (extend cands costs e x) = weightAt cands d := by
      have hlen : ((extend cands costs e x).idxs.length : ℤ) = e.idxs.length + 1 := by
        simp [extend, Entry.idxs]
      rw [weight, hlen]
      congr 1
      omega
    have hweight : weight cands maxLength e = 1 + cands.length * weightAt cands d := by
      rw [weight, hd]
      rfl
    have hsum (xs : List (DefenderAction × ℕ)) :
        ((xs.map (extend cands costs e)).map (weight cands maxLength)).sum =
          xs.length * weightAt cands d := by
      have hconst : weight cands maxLength ∘ extend cands costs e = fun _ => weightAt cands d :=
        funext hchild
      rw [List.map_map, hconst, List.map_const', List.sum_replicate, smul_eq_mul]
    have hle : (cands.zipIdx.filter fun x => x.2 ∉ e.idxs).length ≤ cands.length :=
      (List.length_filter_le _ _).trans_eq List.length_zipIdx
    rw [hsum, hweight]
    have hmul := Nat.mul_le_mul_right (weightAt cands d) hle
    omega
  · exact weightAt_pos cands _

/-- The sequences of distinct candidates, as a tree of entries. -/
def sequences (maxLength : ℤ) : Tree (Entry C) :=
  ⟨children cands costs maxLength, weight cands maxLength, weight_children cands costs maxLength⟩

end

/-- What the search has found. -/
structure Search (C : Type) where
  evaluations : ℤ
  best : Option (Summary C)
  bestDisruptive : Option (Summary C)
  incomplete : Bool
deriving DecidableEq

def Search.start {C : Type} : Search C := ⟨0, none, none, false⟩

def root {C : Type} [CostArith C] : Entry C := toLex (CostArith.ofInt 0, toLex ([], []))

section

variable {C : Type} [LinearOrder C] [CostArith C]

variable (inp : AnalysisInput) (cfg : Config C) (cands : List DefenderAction)

/-- The result of analysing a sequence. -/
def analysisOf (seq : List DefenderAction) : ResultBundle := analyze (inp.withRemediation seq) .full

/-- The body of the loop; an error is a `break`. -/
def visit (s : Search C) (e : Entry C) : Except (Search C) (Search C) :=
  if e.idxs = [] then .ok s
  else if s.evaluations ≥ cfg.maxEvaluations then .error { s with incomplete := true }
  else
    let s := { s with evaluations := s.evaluations + 1 }
    let seq := pick cands e.idxs
    let bundle := analysisOf inp seq
    if valid bundle then .error { s with best := some (summarize seq bundle cfg.table) }
    else if s.bestDisruptive = none ∧ bundle.conclusion = .containedWithinScope then
      .ok { s with bestDisruptive := some (summarize seq bundle cfg.table) }
    else .ok s

/-- The loop of `plan`. -/
def search : Search C :=
  match (sequences cands cfg.table cfg.maxLength).explore (visit inp cfg cands) .start [root] with
  | .ok s => s
  | .error s => s

inductive Status where
  | optimalWithinBounds | incompleteSearch | noValidPlanWithinBounds
deriving DecidableEq

def Search.status (s : Search C) : Status :=
  if s.best.isSome then .optimalWithinBounds
  else if s.incomplete then .incompleteSearch
  else .noValidPlanWithinBounds

def Search.statement (s : Search C) : String :=
  match s.status with
  | .optimalWithinBounds =>
      s!"Minimum-cost valid sequence among all orderings of up to {Text.ofInt cfg.maxLength} " ++
        s!"distinct candidate actions ({Text.ofInt cands.length} candidates, " ++
          s!"{Text.ofInt s.evaluations} sequences evaluated)."
  | .incompleteSearch =>
      s!"Evaluation cap {Text.ofInt cfg.maxEvaluations} reached before a valid plan was found. " ++
        "This is not evidence that none exists."
  | .noValidPlanWithinBounds =>
      s!"No sequence of up to {Text.ofInt cfg.maxLength} distinct candidate actions satisfied " ++
        "every objective while preserving legitimate operations."

end

structure Plan (C : Type) where
  caseId : String
  status : Status
  statement : String
  maxLength : ℤ
  maxEvaluations : ℤ
  evaluations : ℤ
  candidates : List DefenderAction
  costs : List (String × C)
  bestPlan : Option (Summary C)
  cheapestSecurityOnlyPlan : Option (Summary C)
  proposedRemediation : Summary C
  naiveContainment : Option (Summary C)
deriving DecidableEq

/-- The candidates that are given, or the generated ones. -/
def candidatesOr (inp : AnalysisInput) : Option (List DefenderAction) → Parsed (List DefenderAction)
  | some cands => .ok cands
  | none => candidateActions inp

section

variable {C : Type} [LinearOrder C] [CostArith C]

/-- What `plan` returns, for some candidates and the naive plan. -/
def report (inp : AnalysisInput) (cfg : Config C) (cands naive : List DefenderAction) : Plan C :=
  let s := search inp cfg cands
  { caseId := inp.caseId
    status := s.status
    statement := s.statement cfg cands
    maxLength := cfg.maxLength
    maxEvaluations := cfg.maxEvaluations
    evaluations := s.evaluations
    candidates := cands
    costs := cfg.table
    bestPlan := s.best
    cheapestSecurityOnlyPlan := s.bestDisruptive
    proposedRemediation := summarize inp.remediation (analyze inp .full) cfg.table
    naiveContainment :=
      if naive = [] then none else some (summarize naive (analysisOf inp naive) cfg.table) }

/-- `plan`. -/
def plan (inp : AnalysisInput) (cfg : Config C) (candidates : Option (List DefenderAction)) :
    Parsed (Plan C) := do
  let cands ← candidatesOr inp candidates
  rejectIf (cands = []) "no candidate actions"
  pure (report inp cfg cands (← naivePlan inp))

lemma plan_eq_ok_iff {inp : AnalysisInput} {cfg : Config C}
    {candidates : Option (List DefenderAction)} {p : Plan C} :
    plan inp cfg candidates = .ok p ↔ ∃ cands naive, candidatesOr inp candidates = .ok cands ∧
      cands ≠ [] ∧ naivePlan inp = .ok naive ∧ report inp cfg cands naive = p := by
  simp only [plan, bind_eq_ok, pure_eq_ok, rejectIf_eq_ok]
  constructor
  · rintro ⟨cands, hcands, _, hne, naive, hnaive, rfl⟩
    exact ⟨cands, naive, hcands, hne, hnaive, rfl⟩
  · rintro ⟨cands, naive, hcands, hne, hnaive, rfl⟩
    exact ⟨cands, hcands, (), hne, naive, hnaive, rfl⟩

end

/-! ### What is known of candidates -/

section

variable {inp : AnalysisInput} {cands : List DefenderAction}

/-- The generated candidates come from the parser. -/
lemma encodable_candidateActions (h : candidateActions inp = .ok cands) :
    (∀ a ∈ cands, a.Encodable) ∧ cands.Nodup ∧ cands.length ≤ maxCollection := by
  simp only [candidateActions, actions, bind_eq_ok, pure_eq_ok] at h
  obtain ⟨sas, -, parsed, ⟨xs, hxs, hparsed⟩, rfl⟩ := h
  obtain ⟨hall, hlen⟩ := actionsFrom_encodable hparsed
  have hperm := Text.sortedBy_perm DefenderAction.label parsed.dedup
  refine ⟨fun a ha => hall a (List.mem_dedup.1 (hperm.mem_iff.1 ha)),
    hperm.nodup_iff.2 (List.nodup_dedup parsed), ?_⟩
  rw [hperm.length_eq]
  exact ((List.dedup_sublist parsed).length_le.trans hlen.le).trans (length_of_list hxs)

/-- With the default costs, rounded, no action of the parser makes a sequence cheaper. -/
lemma le_add_actionCost (r : Rounding ℚ) {a : DefenderAction} (ha : a.Encodable) (x : r.Value) :
    x ≤ CostArith.add x (actionCost a (defaultCosts r.Value)) := by
  have hint {n : ℤ} (hn : 0 ≤ n) : (0 : ℚ) ≤ r.value n := r.value_nonneg (Int.cast_nonneg hn)
  refine r.le_add ?_
  cases a with
  | wait seconds =>
      have hone : 1 ≤ seconds := ha
      have hseconds : (0 : ℚ) ≤ r.value seconds := hint (by omega)
      exact r.add_nonneg (hint le_rfl) (r.value_nonneg (div_nonneg hseconds (by norm_num)))
  | removeBinding | deletePod | deleteController => exact hint zero_le_one
  | deletePodsExcept | deleteControllersExcept => exact hint zero_le_two
  | rotateDownstreamCredential => exact hint zero_le_three
  | deleteServiceAccount => exact hint zero_le_four

end

end Planner

end Afterlock
