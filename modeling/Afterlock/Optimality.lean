import Afterlock.Planner

/-!
# Optimality of plans

If no candidate makes a sequence cheaper, the planner goes through all sequences of distinct
candidates from the least one in cost and labels on (`pairwise_order`, `mem_order_iff`), so the first
valid one that it meets is the least valid one (`plan_optimal`).  It does not matter in which order
the candidates are given (`plan_perm`).
-/

namespace Afterlock

open Parse

namespace Planner

/-! ### The order of the search -/

section

variable {C : Type} [CostArith C] (cands : List DefenderAction) (costs : List (String × C))

/-- The entry of the sequence at some positions. -/
def entryOf (idxs : List ℕ) : Entry C :=
  toLex (totalCost (pick cands idxs) costs,
    toLex ((pick cands idxs).map DefenderAction.label, idxs))

/-- Distinct positions of candidates, not too many. -/
structure Positions (maxLength : ℤ) (idxs : List ℕ) : Prop where
  nodup : idxs.Nodup
  lt : ∀ i ∈ idxs, i < cands.length
  length : idxs = [] ∨ (idxs.length : ℤ) ≤ maxLength

end

section

variable {C : Type} [CostArith C] {cands : List DefenderAction} {costs : List (String × C)}
  {maxLength : ℤ} {idxs : List ℕ} {i : ℕ}

lemma pick_append (idxs js : List ℕ) :
    pick cands (idxs ++ js) = pick cands idxs ++ pick cands js :=
  List.filterMap_append

lemma pick_singleton (h : i < cands.length) : pick cands [i] = [cands[i]] := by
  rw [pick, List.filterMap_cons, List.getElem?_eq_getElem h]
  rfl

lemma length_pick (h : ∀ i ∈ idxs, i < cands.length) :
    (pick cands idxs).length = idxs.length := by
  induction idxs with
  | nil => rfl
  | cons i idxs ih =>
      obtain ⟨hi, hidxs⟩ := List.forall_mem_cons.1 h
      rw [← List.singleton_append, pick_append, pick_singleton hi, List.length_append,
        List.length_append, ih hidxs]
      rfl

lemma mem_of_mem_pick {a : DefenderAction} (h : a ∈ pick cands idxs) : a ∈ cands := by
  obtain ⟨i, -, hi⟩ := List.mem_filterMap.1 h
  exact List.mem_of_getElem? hi

lemma totalCost_concat (seq : List DefenderAction) (a : DefenderAction) :
    totalCost (seq ++ [a]) costs = CostArith.add (totalCost seq costs) (actionCost a costs) := by
  rw [totalCost, List.map_append, List.foldl_append]
  rfl

lemma extend_entryOf {a : DefenderAction} (h : cands[i]? = some a) :
    extend cands costs (entryOf cands costs idxs) (a, i) = entryOf cands costs (idxs ++ [i]) := by
  have hpick : pick cands (idxs ++ [i]) = pick cands idxs ++ [a] := by
    rw [pick_append, pick, pick, List.filterMap_cons, h]
    rfl
  have hcost : totalCost (pick cands (idxs ++ [i])) costs =
      CostArith.add (totalCost (pick cands idxs) costs) (actionCost a costs) := by
    rw [hpick, totalCost_concat]
  rw [entryOf, entryOf, hcost]
  rfl

/-- The children of a sequence have one more candidate. -/
lemma mem_children_iff {e : Entry C} :
    e ∈ children cands costs maxLength (entryOf cands costs idxs) ↔
      (idxs.length : ℤ) < maxLength ∧ ∃ j < cands.length, j ∉ idxs ∧
        e = entryOf cands costs (idxs ++ [j]) := by
  have hidxs : (entryOf cands costs idxs).idxs = idxs := rfl
  unfold children
  rw [hidxs]
  split_ifs with hlen
  · simp only [List.mem_map, List.mem_filter, hlen, true_and, decide_eq_true_eq]
    constructor
    · rintro ⟨⟨a, j⟩, ⟨hmem, hj⟩, rfl⟩
      have ha : cands[j]? = some a := List.mem_zipIdx_iff_getElem?.1 hmem
      exact ⟨j, (List.getElem?_eq_some_iff.1 ha).1, hj, extend_entryOf ha⟩
    · rintro ⟨j, hlt, hj, rfl⟩
      have ha : cands[j]? = some cands[j] := List.getElem?_eq_getElem hlt
      exact ⟨(cands[j], j), ⟨List.mem_zipIdx_iff_getElem?.2 ha, hj⟩, extend_entryOf ha⟩
  · exact iff_of_false List.not_mem_nil fun h => hlen h.1

lemma Positions.snoc (h : Positions cands maxLength idxs) (hlen : (idxs.length : ℤ) < maxLength)
    (hlt : i < cands.length) (hi : i ∉ idxs) : Positions cands maxLength (idxs ++ [i]) := by
  refine ⟨?_, ?_, Or.inr ?_⟩
  · rw [← List.concat_eq_append]
    exact h.nodup.concat hi
  · exact List.forall_mem_append.2 ⟨h.lt, List.forall_mem_singleton.2 hlt⟩
  · rw [List.length_append, List.length_singleton]
    exact Int.add_one_le_of_lt hlen

lemma Positions.of_snoc (h : Positions cands maxLength (idxs ++ [i])) :
    Positions cands maxLength idxs ∧ (idxs.length : ℤ) < maxLength ∧ i < cands.length ∧
      i ∉ idxs := by
  have hlen : (idxs.length : ℤ) + 1 ≤ maxLength := by
    rcases h.length with hnil | hlen
    · exact absurd hnil (List.append_ne_nil_of_right_ne_nil _ (List.cons_ne_nil _ _))
    · rwa [List.length_append, List.length_singleton] at hlen
  have hnodup := List.nodup_append.1 h.nodup
  refine ⟨⟨hnodup.1, fun j hj => h.lt j (List.mem_append_left _ hj), Or.inr (by omega)⟩, by omega,
    h.lt i (List.mem_append_right _ (List.mem_singleton_self i)), fun hi => ?_⟩
  exact hnodup.2.2 i hi i (List.mem_singleton_self i) rfl

/-- The sequence of an entry, with the property that the search keeps. -/
def IsEntry (cands : List DefenderAction) (costs : List (String × C)) (maxLength : ℤ)
    (e : Entry C) : Prop := ∃ idxs, Positions cands maxLength idxs ∧ e = entryOf cands costs idxs

lemma isEntry_root : IsEntry cands costs maxLength root :=
  ⟨[], ⟨List.nodup_nil, nofun, Or.inl rfl⟩, rfl⟩

lemma IsEntry.child {e c : Entry C} (he : IsEntry cands costs maxLength e)
    (hc : c ∈ (sequences cands costs maxLength).children e) : IsEntry cands costs maxLength c := by
  obtain ⟨idxs, hidxs, rfl⟩ := he
  obtain ⟨hlen, j, hlt, hj, rfl⟩ := mem_children_iff.1 hc
  exact ⟨idxs ++ [j], hidxs.snoc hlen hlt hj, rfl⟩

lemma le_append {α : Type*} [LinearOrder α] (as bs : List α) : as ≤ as ++ bs :=
  not_lt.1 (List.prefix_append as bs).le

end

section

variable {C : Type} [LinearOrder C] [CostArith C] {cands : List DefenderAction}
  {costs : List (String × C)} {maxLength : ℤ}

/-- A sequence is not greater than one that goes on from it. -/
lemma IsEntry.le_child (hcosts : ∀ a ∈ cands, ∀ x, x ≤ CostArith.add x (actionCost a costs))
    {e c : Entry C} (he : IsEntry cands costs maxLength e)
    (hc : c ∈ (sequences cands costs maxLength).children e) : e ≤ c := by
  obtain ⟨idxs, -, rfl⟩ := he
  obtain ⟨-, j, hlt, -, rfl⟩ := mem_children_iff.1 hc
  have hpick : pick cands (idxs ++ [j]) = pick cands idxs ++ [cands[j]] := by
    rw [pick_append, pick_singleton hlt]
  have hcost : totalCost (pick cands idxs) costs ≤ totalCost (pick cands (idxs ++ [j])) costs := by
    rw [hpick, totalCost_concat]
    exact hcosts _ (List.getElem_mem hlt) _
  have hlabels : (pick cands idxs).map DefenderAction.label ≤
      (pick cands (idxs ++ [j])).map DefenderAction.label := by
    rw [hpick, List.map_append]
    exact le_append _ _
  have hidxs : idxs ≤ idxs ++ [j] := le_append _ _
  refine Prod.Lex.toLex_le_toLex.2 (hcost.lt_or_eq.imp_right fun heq => ⟨heq, ?_⟩)
  exact Prod.Lex.toLex_le_toLex.2 (hlabels.lt_or_eq.imp_right fun heq => ⟨heq, hidxs⟩)

/-- The search meets the sequences of distinct candidates that are not too long. -/
lemma mem_order_iff {e : Entry C} :
    e ∈ (sequences cands costs maxLength).order [root] ↔ IsEntry cands costs maxLength e := by
  have hperm := (sequences cands costs maxLength).order_perm [root]
  rw [List.flatMap_singleton] at hperm
  rw [hperm.mem_iff]
  constructor
  · exact (sequences cands costs maxLength).forall_nodes (fun n c hn hc => hn.child hc)
      isEntry_root e
  · rintro ⟨idxs, hidxs, rfl⟩
    induction idxs using List.reverseRecOn with
    | nil => exact (sequences cands costs maxLength).mem_nodes_self root
    | append_singleton idxs j ih =>
        obtain ⟨hbefore, hlen, hlt, hj⟩ := hidxs.of_snoc
        exact (sequences cands costs maxLength).mem_nodes_of_mem_children (ih hbefore)
          (mem_children_iff.2 ⟨hlen, j, hlt, hj, rfl⟩)

/-- It meets them in their order. -/
lemma pairwise_order (hcosts : ∀ a ∈ cands, ∀ x, x ≤ CostArith.add x (actionCost a costs)) :
    ((sequences cands costs maxLength).order [root]).Pairwise (· ≤ ·) :=
  (sequences cands costs maxLength).order_pairwise (P := IsEntry cands costs maxLength)
    (fun _ _ hn hc => hn.child hc) (fun _ _ hn hc => hn.le_child hcosts hc)
    (List.forall_mem_singleton.2 isEntry_root)

end

/-! ### What the search has seen -/

section

variable {C : Type} [CostArith C]

variable (inp : AnalysisInput) (cfg : Config C) (cands : List DefenderAction)

/-- The analysis of an entry. -/
def bundleOf (e : Entry C) : ResultBundle := analysisOf inp (pick cands e.idxs)

def summaryOf (e : Entry C) : Summary C :=
  summarize (pick cands e.idxs) (bundleOf inp cands e) cfg.table

/-- The conclusion is containment, whatever becomes of the legitimate operations. -/
def contained (b : ResultBundle) : Bool := b.conclusion == .containedWithinScope

/-- An entry that is analysed and found to be contained. -/
def isContained (e : Entry C) : Bool := !e.idxs.isEmpty && contained (bundleOf inp cands e)

/-- What the search knows when it has gone through some entries. -/
structure Passed (before : List (Entry C)) (s : Search C) : Prop where
  best : s.best = none
  incomplete : s.incomplete = false
  evaluations : s.evaluations = (before.filter fun e => !e.idxs.isEmpty).length
  invalid : ∀ e ∈ before, e.idxs ≠ [] → valid (bundleOf inp cands e) = false
  disruptive :
    s.bestDisruptive = (before.find? (isContained inp cands)).map (summaryOf inp cfg cands)

end

section

variable {C : Type} [CostArith C] {inp : AnalysisInput} {cfg : Config C}
  {cands : List DefenderAction} {s s' : Search C} {e : Entry C}

/-- A visit ends the search at the cap, or at a valid sequence. -/
lemma visit_error {r : Search C} (h : visit inp cfg cands s e = .error r) :
    e.idxs ≠ [] ∧ ((cfg.maxEvaluations ≤ s.evaluations ∧ r = { s with incomplete := true }) ∨
      (s.evaluations < cfg.maxEvaluations ∧ valid (bundleOf inp cands e) = true ∧
        r = { s with
          evaluations := s.evaluations + 1, best := some (summaryOf inp cfg cands e) })) := by
  unfold visit at h
  dsimp only at h
  split_ifs at h with hroot hcap hvalid
  · exact ⟨hroot, Or.inl ⟨hcap, (Except.error.inj h).symm⟩⟩
  · exact ⟨hroot, Or.inr ⟨not_le.1 hcap, hvalid, (Except.error.inj h).symm⟩⟩

/-- A visit that does not end the search. -/
lemma visit_ok (h : visit inp cfg cands s e = .ok s') :
    (e.idxs = [] ∧ s' = s) ∨ (e.idxs ≠ [] ∧ valid (bundleOf inp cands e) = false ∧
      s' = { s with
        evaluations := s.evaluations + 1,
        bestDisruptive := s.bestDisruptive.or
          (if contained (bundleOf inp cands e) then some (summaryOf inp cfg cands e)
            else none) }) := by
  unfold visit at h
  dsimp only at h
  split_ifs at h with hroot hcap hvalid hfirst
  · exact Or.inl ⟨hroot, (Except.ok.inj h).symm⟩
  · refine Or.inr ⟨hroot, Bool.eq_false_of_not_eq_true hvalid, ?_⟩
    have hcontained : contained (bundleOf inp cands e) = true := beq_iff_eq.2 hfirst.2
    rw [← Except.ok.inj h, show s.bestDisruptive = none from hfirst.1, if_pos hcontained]
    rfl
  · refine Or.inr ⟨hroot, Bool.eq_false_of_not_eq_true hvalid, ?_⟩
    rw [← Except.ok.inj h]
    cases hd : s.bestDisruptive with
    | some d => rfl
    | none =>
        have hnot : ¬contained (bundleOf inp cands e) = true := fun hc =>
          hfirst ⟨hd, beq_iff_eq.1 hc⟩
        rw [if_neg hnot]
        rfl

lemma passed_nil : Passed inp cfg cands [] .start :=
  ⟨rfl, rfl, rfl, nofun, rfl⟩

lemma Passed.snoc {before : List (Entry C)} (hs : Passed inp cfg cands before s)
    (h : visit inp cfg cands s e = .ok s') : Passed inp cfg cands (before ++ [e]) s' := by
  rcases visit_ok h with ⟨hroot, rfl⟩ | ⟨hroot, hinvalid, rfl⟩
  · have hempty : e.idxs.isEmpty = true := List.isEmpty_iff.2 hroot
    refine ⟨hs.best, hs.incomplete, ?_, ?_, ?_⟩
    · rw [hs.evaluations]
      simp [List.filter_append, hempty]
    · exact List.forall_mem_append.2
        ⟨hs.invalid, List.forall_mem_singleton.2 fun h => absurd hroot h⟩
    · rw [hs.disruptive]
      simp [List.find?_append, isContained, hempty]
  · have hempty : e.idxs.isEmpty = false := Bool.eq_false_of_not_eq_true fun h =>
      hroot (List.isEmpty_iff.1 h)
    refine ⟨hs.best, hs.incomplete, ?_, ?_, ?_⟩
    · simp [hs.evaluations, List.filter_append, hempty]
    · exact List.forall_mem_append.2 ⟨hs.invalid, List.forall_mem_singleton.2 fun _ => hinvalid⟩
    · simp only [hs.disruptive, List.find?_append, List.find?_singleton, isContained, hempty,
        Bool.not_false, Bool.true_and, Option.map_or]
      cases contained (bundleOf inp cands e) <;> rfl

lemma passed_of_foldlM {before : List (Entry C)}
    (h : before.foldlM (visit inp cfg cands) .start = .ok s) : Passed inp cfg cands before s := by
  induction before using List.reverseRecOn generalizing s with
  | nil =>
      rw [← Except.ok.inj h]
      exact passed_nil
  | append_singleton before e ih =>
      rw [List.foldlM_append] at h
      cases hs : before.foldlM (visit inp cfg cands) Search.start with
      | error r =>
          rw [hs] at h
          cases h
      | ok t =>
          rw [hs] at h
          simp only [List.foldlM_cons, List.foldlM_nil] at h
          cases he : visit inp cfg cands t e with
          | error r =>
              have hcontra : (Except.error r : Except (Search C) (Search C)) = .ok s := by
                rw [← h]
                exact congrArg (· >>= pure) he.symm
              cases hcontra
          | ok t' =>
              have heq : t' = s := by
                have hok : (Except.ok t' : Except (Search C) (Search C)) = .ok s := by
                  rw [← h]
                  exact congrArg (· >>= pure) he.symm
                exact Except.ok.inj hok
              exact heq ▸ (ih hs).snoc he

/-- The search goes through all sequences, or up to one where it has used up its evaluations, or to
the first valid one. -/
lemma search_cases [LinearOrder C] (inp : AnalysisInput) (cfg : Config C)
    (cands : List DefenderAction) :
    Passed inp cfg cands ((sequences cands cfg.table cfg.maxLength).order [root])
        (search inp cfg cands) ∨
      ∃ before e after s, (sequences cands cfg.table cfg.maxLength).order [root] =
          before ++ e :: after ∧ Passed inp cfg cands before s ∧ e.idxs ≠ [] ∧
        ((cfg.maxEvaluations ≤ s.evaluations ∧
            search inp cfg cands = { s with incomplete := true }) ∨
          (s.evaluations < cfg.maxEvaluations ∧ valid (bundleOf inp cands e) = true ∧
            search inp cfg cands = { s with
              evaluations := s.evaluations + 1, best := some (summaryOf inp cfg cands e) })) := by
  unfold search
  rw [Tree.explore_eq_foldlM]
  rcases foldlM_except (visit inp cfg cands) .start
    ((sequences cands cfg.table cfg.maxLength).order [root]) with
    ⟨s, hs⟩ | ⟨before, e, after, s, r, heq, hbefore, he, hr⟩
  · rw [hs]
    exact Or.inl (passed_of_foldlM hs)
  · rw [hr]
    exact Or.inr ⟨before, e, after, s, heq, passed_of_foldlM hbefore, visit_error he⟩

end

/-! ### The least sequence -/

section

variable {C : Type} [LinearOrder C] [CostArith C]

/-- A sequence of distinct candidates, not empty and not too long. -/
def Considered (cands : List DefenderAction) (maxLength : ℤ) (seq : List DefenderAction) : Prop :=
  ∃ idxs, idxs ≠ [] ∧ Positions cands maxLength idxs ∧ seq = pick cands idxs

/-- What sequences are compared by: the cost first, then the labels. -/
def rank (costs : List (String × C)) (seq : List DefenderAction) : C ×ₗ List String :=
  toLex (totalCost seq costs, seq.map DefenderAction.label)

/-- The sequence has the property, and none that has it comes before. -/
structure Least (costs : List (String × C)) (P : List DefenderAction → Prop)
    (seq : List DefenderAction) : Prop where
  holds : P seq
  le : ∀ seq', P seq' → rank costs seq ≤ rank costs seq'

variable {inp : AnalysisInput} {cfg : Config C} {cands : List DefenderAction}
  {costs : List (String × C)} {maxLength : ℤ}

lemma rank_le_of_le {idxs js : List ℕ} (h : entryOf cands costs idxs ≤ entryOf cands costs js) :
    rank costs (pick cands idxs) ≤ rank costs (pick cands js) := by
  refine Prod.Lex.toLex_le_toLex.2 ((Prod.Lex.toLex_le_toLex.1 h).imp_right fun h => ⟨h.1, ?_⟩)
  rcases Prod.Lex.toLex_le_toLex.1 h.2 with hlt | ⟨heq, -⟩
  · exact hlt.le
  · exact heq.le

/-- The first of the sequences with a property is the least one. -/
lemma least_of_split (hcosts : ∀ a ∈ cands, ∀ x, x ≤ CostArith.add x (actionCost a costs))
    {P : List DefenderAction → Prop} {before after : List (Entry C)} {e : Entry C}
    (horder : (sequences cands costs maxLength).order [root] = before ++ e :: after)
    (hbefore : ∀ d ∈ before, d.idxs ≠ [] → ¬P (pick cands d.idxs)) (hroot : e.idxs ≠ [])
    (he : P (pick cands e.idxs)) :
    Least costs (fun seq => Considered cands maxLength seq ∧ P seq) (pick cands e.idxs) := by
  have hsorted : ((sequences cands costs maxLength).order [root]).Pairwise (· ≤ ·) :=
    pairwise_order hcosts
  rw [horder] at hsorted
  have hmem : e ∈ (sequences cands costs maxLength).order [root] := by
    rw [horder]
    exact List.mem_append_right _ List.mem_cons_self
  obtain ⟨idxs, hidxs, rfl⟩ := mem_order_iff.1 hmem
  refine ⟨⟨⟨idxs, hroot, hidxs, rfl⟩, he⟩, ?_⟩
  rintro _ ⟨⟨js, hjs, hpositions, rfl⟩, hP⟩
  have hin : entryOf cands costs js ∈ (sequences cands costs maxLength).order [root] :=
    mem_order_iff.2 ⟨js, hpositions, rfl⟩
  rw [horder, List.mem_append, List.mem_cons] at hin
  rcases hin with hin | heq | hin
  · exact absurd hP (hbefore _ hin hjs)
  · exact rank_le_of_le heq.ge
  · exact rank_le_of_le
      (List.rel_of_pairwise_cons (List.pairwise_append.1 hsorted).2.1 hin)

/-- Nothing that was passed is contained unless the search has noted a contained sequence, and the
one that it has noted is the least. -/
lemma Passed.least_disruptive
    (hcosts : ∀ a ∈ cands, ∀ x, x ≤ CostArith.add x (actionCost a cfg.table))
    {before after : List (Entry C)} {s : Search C} (hs : Passed inp cfg cands before s)
    (horder : (sequences cands cfg.table cfg.maxLength).order [root] = before ++ after)
    {d : Summary C} (hd : s.bestDisruptive = some d) :
    ∃ seq, Least cfg.table (fun seq => Considered cands cfg.maxLength seq ∧
        contained (analysisOf inp seq) = true) seq ∧
      d = summarize seq (analysisOf inp seq) cfg.table := by
  rw [hs.disruptive, Option.map_eq_some_iff] at hd
  obtain ⟨e, hfind, rfl⟩ := hd
  obtain ⟨hcontained, first, rest, rfl, hfirst⟩ := List.find?_eq_some_iff_append.1 hfind
  obtain ⟨hroot, hcontained⟩ := Bool.and_eq_true_iff.1 hcontained
  have hsplit : (sequences cands cfg.table cfg.maxLength).order [root] =
      first ++ e :: (rest ++ after) := by
    rw [horder, List.append_assoc]
    rfl
  refine ⟨_, least_of_split hcosts hsplit ?_ ?_ hcontained, rfl⟩
  · intro c hc hne hP
    have hnot := hfirst c hc
    rw [isContained, Bool.not_eq_true', Bool.and_eq_false_iff] at hnot
    rcases hnot with hempty | hnot
    · exact hne (List.isEmpty_iff.1 (by simpa using hempty))
    · exact absurd (hP.symm.trans hnot) (by decide)
  · rintro hnil
    rw [hnil] at hroot
    exact absurd hroot (by decide)

end

/-- A plan that is found is the least valid sequence, and if the search was not cut off and has found
none there is none.  The plan for security only is the least contained sequence. -/
theorem plan_optimal {C : Type} [LinearOrder C] [CostArith C] {inp : AnalysisInput} {cfg : Config C}
    {candidates : Option (List DefenderAction)} {p : Plan C}
    (h : plan inp cfg candidates = .ok p)
    (hcosts : ∀ a ∈ p.candidates, ∀ x, x ≤ CostArith.add x (actionCost a cfg.table)) :
    (∀ b, p.bestPlan = some b → ∃ seq,
      Least cfg.table (fun seq => Considered p.candidates cfg.maxLength seq ∧
        valid (analysisOf inp seq) = true) seq ∧
      b = summarize seq (analysisOf inp seq) cfg.table) ∧
    (p.status = .noValidPlanWithinBounds →
      ∀ seq, Considered p.candidates cfg.maxLength seq → valid (analysisOf inp seq) = false) ∧
    (p.status = .incompleteSearch → cfg.maxEvaluations ≤ p.evaluations) ∧
    ∀ d, p.cheapestSecurityOnlyPlan = some d → ∃ seq,
      Least cfg.table (fun seq => Considered p.candidates cfg.maxLength seq ∧
        contained (analysisOf inp seq) = true) seq ∧
      d = summarize seq (analysisOf inp seq) cfg.table := by
  obtain ⟨cands, naive, -, -, -, rfl⟩ := plan_eq_ok_iff.1 h
  change (∀ b, (search inp cfg cands).best = some b → _) ∧
    ((search inp cfg cands).status = _ → _) ∧
    ((search inp cfg cands).status = _ → cfg.maxEvaluations ≤ (search inp cfg cands).evaluations) ∧
    ∀ d, (search inp cfg cands).bestDisruptive = some d → _
  change ∀ a ∈ cands, _ at hcosts
  rcases search_cases inp cfg cands with
    hs | ⟨before, e, after, s, horder, hs, hroot, ⟨hcap, heq⟩ | ⟨hlt, hvalid, heq⟩⟩
  · -- the search has gone through all sequences
    refine ⟨fun b hb => ?_, fun _ seq hseq => ?_, fun hst => ?_, fun d hd => ?_⟩
    · rw [hs.best] at hb
      cases hb
    · obtain ⟨idxs, hne, hidxs, rfl⟩ := hseq
      have hin : entryOf cands cfg.table idxs ∈
          (sequences cands cfg.table cfg.maxLength).order [root] :=
        mem_order_iff.2 ⟨idxs, hidxs, rfl⟩
      have hinvalid := hs.invalid _ hin hne
      exact hinvalid
    · rw [Search.status, hs.best, hs.incomplete] at hst
      cases hst
    · exact hs.least_disruptive hcosts (List.append_nil _).symm hd
  · -- it was cut off
    rw [heq]
    refine ⟨fun b hb => ?_, fun hst => ?_, fun _ => hcap, fun d hd => ?_⟩
    · exact absurd (hs.best.symm.trans hb) (by simp)
    · rw [Search.status, show s.best = none from hs.best] at hst
      cases hst
    · exact hs.least_disruptive hcosts horder hd
  · -- it has ended at a valid sequence
    rw [heq]
    refine ⟨fun b hb => ?_, fun hst => ?_, fun hst => ?_, fun d hd => ?_⟩
    · have hbefore : ∀ d ∈ before, d.idxs ≠ [] →
          ¬valid (analysisOf inp (pick cands d.idxs)) = true := by
        intro d hd hne hP
        have hinvalid := hs.invalid d hd hne
        exact absurd (hP.symm.trans hinvalid) (by decide)
      have hvalid' : valid (analysisOf inp (pick cands e.idxs)) = true := hvalid
      exact ⟨_, least_of_split hcosts horder hbefore hroot hvalid', (Option.some.inj hb).symm⟩
    · cases hst
    · cases hst
    · exact hs.least_disruptive hcosts horder hd

/-- An attacker controls a Pod that may read a Secret. -/
def Sample.leaking : Json.Fields :=
  [("schema", .str analysisInputSchema), ("case_id", .str "case"), ("cluster_id", .str "cluster"),
    ("analysis_time", .int 100),
    ("profile", .obj [("id", .str "profile"), ("kubernetes_version", .str "1"),
      ("api_audiences", Afterlock.Sample.texts ["api"]), ("projected_token_ttl_seconds", .int 10)]),
    ("inventory", .obj
      [("service_accounts", .arr [Afterlock.Sample.account "n" "reader"]),
        ("pods", .arr [Afterlock.Sample.pod "n" "p" "reader" []]),
        ("roles", .arr [Afterlock.Sample.role "n" "read" ["get"] "secrets"]),
        ("bindings", .arr [Afterlock.Sample.binding "n" "read" "reader"]),
        ("secrets", .arr [Afterlock.Sample.secret "n" "x"])]),
    ("initial_facts", .arr [Afterlock.Sample.fact "controls_pod" ["p"] "observed"]),
    ("objectives", .arr [Afterlock.Sample.noSecretRead "o" "n" "x"])]

/-- Costs that are not rounded. -/
abbrev Sample.Cost : Type := (Rounding.exact ℚ).Value

def Sample.config (maxLength : ℤ) : Config Sample.Cost := ⟨maxLength, 10, []⟩

/-- A plan of one action is found, and the bound on the intervals allows it. -/
lemma Sample.leaking_plan : ∃ inp p b, parseAnalysisInput (.obj Sample.leaking) = .ok inp ∧
    plan inp (Sample.config 1) none = .ok p ∧ p.bestPlan = some b ∧
      (b.actions.length : ℤ) + 1 ≤ inp.bounds.maxIntervals := by
  obtain ⟨inp, hinp, hp⟩ := Afterlock.Sample.accepted (.obj Sample.leaking)
    (p := fun inp => (plan inp (Sample.config 1) none).toOption.any fun p => p.bestPlan.any fun b =>
      decide ((b.actions.length : ℤ) + 1 ≤ inp.bounds.maxIntervals))
    (by decide +kernel)
  obtain ⟨p, hplan, hp⟩ := (Option.any_eq_true _ _).1 hp
  obtain ⟨b, hb, hlen⟩ := (Option.any_eq_true _ _).1 hp
  refine ⟨inp, p, b, hinp, ?_, hb, of_decide_eq_true hlen⟩
  cases hok : plan inp (Sample.config 1) none with
  | error e =>
      rw [hok] at hplan
      cases hplan
  | ok q =>
      rw [hok] at hplan
      exact congrArg Except.ok (Option.some.inj hplan)

/-- The plan of the small document is the least valid one. -/
theorem leaking_plan_optimal : ∃ inp p b seq, parseAnalysisInput (.obj Sample.leaking) = .ok inp ∧
    plan inp (Sample.config 1) none = .ok p ∧ p.bestPlan = some b ∧
      Least (Sample.config 1).table (fun seq => Considered p.candidates 1 seq ∧
        valid (analysisOf inp seq) = true) seq ∧ b.actions = seq := by
  obtain ⟨inp, p, b, hinp, hplan, hb, -⟩ := Sample.leaking_plan
  have hcosts : ∀ a ∈ p.candidates, ∀ x,
      x ≤ CostArith.add x (actionCost a (Sample.config 1).table) := by
    obtain ⟨cands, naive, hcands, -, -, rfl⟩ := plan_eq_ok_iff.1 hplan
    exact fun a ha => le_add_actionCost _ ((encodable_candidateActions hcands).1 a ha)
  obtain ⟨seq, hleast, rfl⟩ := (plan_optimal hplan hcosts).1 b hb
  exact ⟨inp, p, _, seq, hinp, hplan, hb, hleast, rfl⟩

/-! ### The order of the candidates -/

section

variable {C : Type} [CostArith C] {inp : AnalysisInput} {cfg : Config C}
  {cands cands' : List DefenderAction} {costs : List (String × C)} {maxLength : ℤ}

/-- The positions of a sequence of distinct candidates. -/
lemma map_idxOf_pick (hcands : cands.Nodup) {idxs : List ℕ} (h : ∀ i ∈ idxs, i < cands.length) :
    (pick cands idxs).map (cands.idxOf ·) = idxs := by
  induction idxs with
  | nil => rfl
  | cons i idxs ih =>
      obtain ⟨hi, hidxs⟩ := List.forall_mem_cons.1 h
      rw [← List.singleton_append, pick_append, pick_singleton hi, List.map_append, ih hidxs,
        List.map_singleton, hcands.idxOf_getElem]

lemma pick_map_idxOf {seq : List DefenderAction} (h : ∀ a ∈ seq, a ∈ cands) :
    pick cands (seq.map (cands.idxOf ·)) = seq := by
  induction seq with
  | nil => rfl
  | cons a seq ih =>
      obtain ⟨ha, hseq⟩ := List.forall_mem_cons.1 h
      have hlt := List.idxOf_lt_length_of_mem ha
      rw [List.map_cons, ← List.singleton_append, pick_append, pick_singleton hlt, ih hseq,
        List.getElem_idxOf]
      rfl

/-- The sequences that the search meets have distinct candidates, and not too many. -/
lemma exists_positions_iff (hcands : cands.Nodup) {seq : List DefenderAction} :
    (∃ idxs, Positions cands maxLength idxs ∧ seq = pick cands idxs) ↔
      seq.Nodup ∧ (∀ a ∈ seq, a ∈ cands) ∧ (seq = [] ∨ (seq.length : ℤ) ≤ maxLength) := by
  constructor
  · rintro ⟨idxs, hidxs, rfl⟩
    have hmap := map_idxOf_pick hcands hidxs.lt
    refine ⟨List.Nodup.of_map (cands.idxOf ·) (hmap.symm ▸ hidxs.nodup),
      fun a ha => mem_of_mem_pick ha, ?_⟩
    rw [length_pick hidxs.lt]
    refine hidxs.length.imp_left fun (h : idxs = []) => ?_
    rw [h]
    rfl
  · rintro ⟨hnodup, hmem, hlen⟩
    refine ⟨seq.map (cands.idxOf ·), ⟨?_, ?_, ?_⟩, (pick_map_idxOf hmem).symm⟩
    · refine hnodup.map_on fun a ha b hb hab => ?_
      exact (List.idxOf_inj (hmem a ha)).1 hab
    · intro i hi
      obtain ⟨a, ha, rfl⟩ := List.mem_map.1 hi
      exact List.idxOf_lt_length_of_mem (hmem a ha)
    · rw [List.length_map]
      refine hlen.imp_left fun (h : seq = []) => ?_
      rw [h]
      rfl

/-- A visit of a sequence. -/
def visitSequence (inp : AnalysisInput) (cfg : Config C) (s : Search C)
    (seq : List DefenderAction) : Except (Search C) (Search C) :=
  if seq = [] then .ok s
  else if s.evaluations ≥ cfg.maxEvaluations then .error { s with incomplete := true }
  else
    let s := { s with evaluations := s.evaluations + 1 }
    let bundle := analysisOf inp seq
    if valid bundle then .error { s with best := some (summarize seq bundle cfg.table) }
    else if s.bestDisruptive = none ∧ bundle.conclusion = .containedWithinScope then
      .ok { s with bestDisruptive := some (summarize seq bundle cfg.table) }
    else .ok s

lemma visit_entryOf {s : Search C} {idxs : List ℕ} (h : Positions cands maxLength idxs) :
    visit inp cfg cands s (entryOf cands costs idxs) =
      visitSequence inp cfg s (pick cands idxs) := by
  have hroot : (pick cands idxs = []) ↔ idxs = [] := by
    rw [← List.length_eq_zero_iff, length_pick h.lt, List.length_eq_zero_iff]
  have hidxs : (entryOf cands costs idxs).idxs = idxs := rfl
  unfold visit visitSequence
  rw [hidxs]
  simp only [hroot]

variable [LinearOrder C]

/-- The sequences in the order in which the search meets them. -/
def sequenceList (cands : List DefenderAction) (costs : List (String × C)) (maxLength : ℤ) :
    List (List DefenderAction) :=
  ((sequences cands costs maxLength).order [root]).map fun e => pick cands e.idxs

lemma mem_sequenceList_iff {seq : List DefenderAction} :
    seq ∈ sequenceList cands costs maxLength ↔
      ∃ idxs, Positions cands maxLength idxs ∧ seq = pick cands idxs := by
  rw [sequenceList, List.mem_map]
  constructor
  · rintro ⟨e, he, rfl⟩
    obtain ⟨idxs, hidxs, rfl⟩ := mem_order_iff.1 he
    exact ⟨idxs, hidxs, rfl⟩
  · rintro ⟨idxs, hidxs, rfl⟩
    exact ⟨entryOf cands costs idxs, mem_order_iff.2 ⟨idxs, hidxs, rfl⟩, rfl⟩

lemma nodup_idxs_order :
    (((sequences cands costs maxLength).order [root]).map Entry.idxs).Nodup := by
  have hperm := (sequences cands costs maxLength).order_perm [root]
  rw [List.flatMap_singleton] at hperm
  rw [(hperm.map Entry.idxs).nodup_iff]
  refine (sequences cands costs maxLength).nodup_nodes Entry.idxs (fun e c hc => ?_)
    (fun e => ?_) root
  · -- a child extends its parent by one index
    change c ∈ children cands costs maxLength e at hc
    unfold children at hc
    split_ifs at hc with hlen
    · obtain ⟨x, -, rfl⟩ := List.mem_map.1 hc
      exact ⟨x.2, rfl⟩
    · cases hc
  · -- two children differ in the last index
    change ((children cands costs maxLength e).map Entry.idxs).Nodup
    unfold children
    split_ifs with hlen
    · rw [List.map_map]
      have hsnd : (cands.zipIdx.map Prod.snd).Nodup := by
        rw [List.zipIdx_map_snd]
        exact List.nodup_range'
      have hfilter := (List.filter_sublist (p := fun x => decide (x.2 ∉ e.idxs))
        (l := cands.zipIdx)).map Prod.snd
      refine List.Nodup.of_map (fun idxs => idxs.getLast?) ?_
      rw [List.map_map]
      have hlast : (fun idxs : List ℕ => idxs.getLast?) ∘ Entry.idxs ∘ extend cands costs e =
          some ∘ Prod.snd := by
        funext x
        exact List.getLast?_concat
      rw [hlast, ← List.map_map]
      exact (hsnd.sublist hfilter).map (Option.some_injective ℕ)
    · exact List.nodup_nil

lemma nodup_sequenceList (hcands : cands.Nodup) :
    (sequenceList cands costs maxLength).Nodup := by
  refine List.Nodup.of_map (fun seq => seq.map (cands.idxOf ·)) ?_
  have hidxs := @nodup_idxs_order C _ cands costs maxLength _
  rw [sequenceList, List.map_map]
  refine (List.map_congr_left fun e he => ?_) ▸ hidxs
  obtain ⟨idxs, hpositions, rfl⟩ := mem_order_iff.1 he
  exact (map_idxOf_pick hcands hpositions.lt).symm

lemma pairwise_sequenceList
    (hcosts : ∀ a ∈ cands, ∀ x, x ≤ CostArith.add x (actionCost a costs)) :
    (sequenceList cands costs maxLength).Pairwise fun seq seq' =>
      rank costs seq ≤ rank costs seq' := by
  refine List.pairwise_map.2 ((pairwise_order hcosts).imp_of_mem fun {e e'} he he' hle => ?_)
  obtain ⟨idxs, -, rfl⟩ := mem_order_iff.1 he
  obtain ⟨js, -, rfl⟩ := mem_order_iff.1 he'
  exact rank_le_of_le hle

/-- Sequences of candidates with distinct labels are known by their labels. -/
lemma eq_of_labels_eq (hlabels : (cands.map DefenderAction.label).Nodup)
    {seq seq' : List DefenderAction} (hseq : ∀ a ∈ seq, a ∈ cands) (hseq' : ∀ a ∈ seq', a ∈ cands)
    (h : seq.map DefenderAction.label = seq'.map DefenderAction.label) : seq = seq' := by
  induction seq generalizing seq' with
  | nil => exact (List.map_eq_nil_iff.1 h.symm).symm
  | cons a seq ih =>
      cases seq' with
      | nil => cases h
      | cons b seq' =>
          obtain ⟨ha, hseq⟩ := List.forall_mem_cons.1 hseq
          obtain ⟨hb, hseq'⟩ := List.forall_mem_cons.1 hseq'
          obtain ⟨hab, h⟩ := List.cons.inj h
          rw [List.inj_on_of_nodup_map hlabels ha hb hab, ih hseq hseq' h]

/-- Candidates in another order give the same sequences in the same order. -/
lemma sequenceList_perm (hperm : cands.Perm cands')
    (hlabels : (cands.map DefenderAction.label).Nodup)
    (hcosts : ∀ a ∈ cands, ∀ x, x ≤ CostArith.add x (actionCost a costs)) :
    sequenceList cands costs maxLength = sequenceList cands' costs maxLength := by
  have hcands : cands.Nodup := hlabels.of_map _
  have hcands' : cands'.Nodup := hperm.nodup hcands
  have hmem {seq : List DefenderAction} : seq ∈ sequenceList cands costs maxLength ↔
      seq ∈ sequenceList cands' costs maxLength := by
    rw [mem_sequenceList_iff, mem_sequenceList_iff, exists_positions_iff hcands,
      exists_positions_iff hcands']
    simp only [hperm.mem_iff]
  refine ((List.perm_ext_iff_of_nodup (nodup_sequenceList hcands)
    (nodup_sequenceList hcands')).2 fun _ => hmem).eq_of_pairwise ?_
    (pairwise_sequenceList hcosts)
    (pairwise_sequenceList fun a ha => hcosts a (hperm.mem_iff.2 ha))
  intro seq seq' hseq hseq' hle hle'
  have heq : seq.map DefenderAction.label = seq'.map DefenderAction.label :=
    congrArg (fun r => (ofLex r).2) (le_antisymm hle hle')
  have hin {seq : List DefenderAction} (h : seq ∈ sequenceList cands costs maxLength) :
      ∀ a ∈ seq, a ∈ cands := by
    obtain ⟨idxs, -, rfl⟩ := mem_sequenceList_iff.1 h
    exact fun a ha => mem_of_mem_pick ha
  exact eq_of_labels_eq hlabels (hin hseq) (hin (hmem.2 hseq')) heq

/-- The search visits the sequences in their order. -/
lemma search_eq (inp : AnalysisInput) (cfg : Config C) (cands : List DefenderAction) :
    search inp cfg cands =
      match (sequenceList cands cfg.table cfg.maxLength).foldlM (visitSequence inp cfg) .start with
      | .ok s => s
      | .error s => s := by
  have hfold (entries : List (Entry C)) (hentries : ∀ e ∈ entries,
      IsEntry cands cfg.table cfg.maxLength e) (s : Search C) :
      entries.foldlM (visit inp cfg cands) s =
        (entries.map fun e => pick cands e.idxs).foldlM (visitSequence inp cfg) s := by
    induction entries generalizing s with
    | nil => rfl
    | cons e entries ih =>
        obtain ⟨⟨idxs, hidxs, rfl⟩, hrest⟩ := List.forall_mem_cons.1 hentries
        rw [List.foldlM_cons, List.map_cons, List.foldlM_cons, visit_entryOf hidxs]
        exact congrArg _ (funext fun s => ih hrest s)
  unfold search
  rw [Tree.explore_eq_foldlM, hfold _ fun e he => mem_order_iff.1 he]
  rfl

end

/-- If the labels of the candidates are distinct, it does not matter in which order they are given:
the plans differ in the list of candidates only. -/
theorem plan_perm {C : Type} [LinearOrder C] [CostArith C] {inp : AnalysisInput} {cfg : Config C}
    {cands cands' : List DefenderAction} (hperm : cands.Perm cands')
    (hlabels : (cands.map DefenderAction.label).Nodup)
    (hcosts : ∀ a ∈ cands, ∀ x, x ≤ CostArith.add x (actionCost a cfg.table)) {p : Plan C}
    (h : plan inp cfg (some cands) = .ok p) :
    plan inp cfg (some cands') = .ok { p with candidates := cands' } := by
  have hsearch : search inp cfg cands = search inp cfg cands' := by
    rw [search_eq, search_eq, sequenceList_perm hperm hlabels hcosts]
  obtain ⟨_, naive, hcands, hne, hnaive, rfl⟩ := plan_eq_ok_iff.1 h
  obtain rfl := Except.ok.inj hcands
  refine plan_eq_ok_iff.2 ⟨cands', naive, rfl, fun hnil => hne ?_, hnaive, ?_⟩
  · rw [hnil] at hperm
    exact hperm.eq_nil
  · unfold report Search.statement
    rw [hsearch, hperm.length_eq]

/-- Two candidates for the small document, in both orders. -/
theorem leaking_plan_perm : ∃ inp p, parseAnalysisInput (.obj Sample.leaking) = .ok inp ∧
    plan inp (Sample.config 2) (some [.deletePod "p", .deleteServiceAccount "n" "reader"]) = .ok p ∧
      plan inp (Sample.config 2) (some [.deleteServiceAccount "n" "reader", .deletePod "p"]) =
        .ok { p with candidates := [.deleteServiceAccount "n" "reader", .deletePod "p"] } := by
  obtain ⟨inp, hinp, hnaive⟩ := Afterlock.Sample.accepted (.obj Sample.leaking)
    (p := fun inp => (naivePlan inp).toOption.isSome) (by decide +kernel)
  obtain ⟨naive, hnaive⟩ : ∃ naive, naivePlan inp = .ok naive := by
    cases hok : naivePlan inp with
    | error e =>
        rw [hok] at hnaive
        cases hnaive
    | ok naive => exact ⟨naive, rfl⟩
  have hplan : plan inp (Sample.config 2) (some [.deletePod "p", .deleteServiceAccount "n" "reader"]) =
      .ok (report inp (Sample.config 2) [.deletePod "p", .deleteServiceAccount "n" "reader"] naive) :=
    plan_eq_ok_iff.2 ⟨_, naive, rfl, List.cons_ne_nil _ _, hnaive, rfl⟩
  have hcosts : ∀ a ∈ [DefenderAction.deletePod "p", .deleteServiceAccount "n" "reader"],
      ∀ x, x ≤ CostArith.add x (actionCost a (Sample.config 2).table) := by
    simp only [List.forall_mem_cons]
    exact ⟨le_add_actionCost _ ⟨by decide, by decide⟩, le_add_actionCost _ ⟨by decide, by decide⟩,
      nofun⟩
  exact ⟨inp, _, hinp, hplan, plan_perm (List.Perm.swap _ _ _) (by decide) hcosts hplan⟩

end Planner

end Afterlock
