import Afterlock.Outcome
import Afterlock.Results

/-!
# What a verdict says about the run

A violation is reported when the objective's goal is among the final goals of a view.  These are
the capabilities at the end of the last interval that was completed, which is the last interval of
all only if the cap has not stopped the run before.
-/

namespace Afterlock

open Prog Engine Results Sample

/-! ### Violations -/

/-- The goal is in the closure of the last interval, after all defender actions. -/
def GoalAtEnd (inp : AnalysisInput) (view : View) (goal : Fact) : Prop :=
  ∃ s, After inp view inp.remediation.length s ∧ s.eph.contains goal = true

/-- The goal is in the closure of an interval, and the cap stops the run in the next one. -/
def StoppedAfterGoal (inp : AnalysisInput) (view : View) (goal : Fact) : Prop :=
  ∃ k < inp.remediation.length, ∃ s, After inp view k s ∧ s.eph.contains goal = true ∧
    ¬∃ t, After inp view (k + 1) t

/-- Every reported violation is one after the whole remediation, and no run counts the goal of an
objective among its final goals unless the closure of the last interval has it. -/
structure ViolationsFinal (inp : AnalysisInput) : Prop where
  violated : ∀ e ∈ (analyze inp .full).objectives, e.status = .violated →
    GoalAtEnd inp .evidenceSupported (objectiveGoal e.target)
  possiblyViolated : ∀ e ∈ (analyze inp .full).objectives, e.status = .possiblyViolated →
    GoalAtEnd inp .conservativePossible (objectiveGoal e.target)
  goals : ∀ o ∈ inp.objectives, ∀ view,
    (runView inp view .full).goalsFinal.contains (objectiveGoal o.target) = true →
      GoalAtEnd inp view (objectiveGoal o.target)

/-- A goal is among the final goals of a run exactly if it is in the closure of the last interval
or in that of the interval before the one in which the cap has stopped the run. -/
lemma goalsFinal_contains_iff {inp : AnalysisInput} (hw : WellFormed inp) {view : View}
    {goal : Fact} :
    (runView inp view .full).goalsFinal.contains goal = true ↔
      GoalAtEnd inp view goal ∨ StoppedAfterGoal inp view goal := by
  have hlater : ∀ {k j : ℕ} {s}, k < j → After inp view j s → ∃ t, After inp view (k + 1) t :=
    fun hlt hs => hs.of_le hlt
  constructor
  · intro h
    cases hb : (runView inp view .full).boundsExceeded with
    | false =>
        obtain ⟨s, hs⟩ := runView_completed.1 hb
        rw [runView_of_after hs] at h
        exact Or.inl ⟨s, hs, by rwa [← hs.goals hw]⟩
    | true =>
        rcases runView_stopped hb with ⟨-, hnil⟩ | ⟨k, hk, s, hs, hno, hgoals⟩
        · rw [hnil] at h
          cases h
        · rw [hgoals, hs.goals hw] at h
          exact Or.inr ⟨k, hk, s, hs, h, hno⟩
  · rintro (⟨s, hs, hgoal⟩ | ⟨k, hk, s, hs, hgoal, hno⟩)
    · rw [runView_of_after hs]
      exact (hs.goals hw).symm ▸ hgoal
    · have hb : (runView inp view .full).boundsExceeded = true := by
        by_contra hb
        obtain ⟨t, ht⟩ := runView_completed.1 (by simpa using hb)
        exact hno (hlater hk ht)
      rcases runView_stopped hb with ⟨hzero, -⟩ | ⟨j, hj, t, ht, hno', hgoals⟩
      · exact absurd (hs.of_le (Nat.zero_le k)) hzero
      · -- the run has completed no interval after `j` and none after `k`
        obtain rfl : j = k := by
          rcases lt_trichotomy j k with hlt | heq | hlt
          · exact absurd (hlater hlt hs) hno'
          · exact heq
          · exact absurd (hlater hlt ht) hno
        obtain rfl := hs.unique ht
        rw [hgoals, hs.goals hw]
        exact hgoal

/-- Violations are final exactly if in neither view the cap stops the run after an interval in
which an objective's goal is reached. -/
theorem violationsFinal_iff {raw : Json} {inp : AnalysisInput}
    (h : parseAnalysisInput raw = .ok inp) :
    ViolationsFinal inp ↔
      ∀ o ∈ inp.objectives, ∀ view, ¬StoppedAfterGoal inp view (objectiveGoal o.target) := by
  have hw := wellFormed_of_parse h
  constructor
  · intro hf o ho view hstop
    obtain ⟨s, hs, -⟩ := hf.goals o ho view ((goalsFinal_contains_iff hw).2 (Or.inr hstop))
    obtain ⟨k, hk, -, -, -, hno⟩ := hstop
    exact hno (hs.of_le hk)
  · intro hno
    have hgoals : ∀ o ∈ inp.objectives, ∀ view,
        (runView inp view .full).goalsFinal.contains (objectiveGoal o.target) = true →
          GoalAtEnd inp view (objectiveGoal o.target) := fun o ho view hc =>
      ((goalsFinal_contains_iff hw).1 hc).resolve_right (hno o ho view)
    refine ⟨fun e he hs => ?_, fun e he hs => ?_, hgoals⟩
    all_goals
      simp only [analyze, assemble, List.map_map, List.mem_map, Function.comp_apply] at he
      obtain ⟨o, ho, rfl⟩ := he
      rw [objectiveEntry_target]
    · exact hgoals o ho _ (status_violated_iff.1 hs)
    · exact hgoals o ho _ (status_possiblyViolated_iff.1 hs).2

/-- A document in which the attacker can read a Secret until a wait lets the credential expire,
while a controlled Pod gets a new token; the cap is on the given number of derivations. -/
def Sample.waited (cap : ℤ) : Json :=
  document
    [("service_accounts", .arr [account "n" "reader", account "n" "other"]),
      ("pods", .arr [pod "n" "p" "other" []]),
      ("roles", .arr [role "n" "read" ["get"] "secrets"]),
      ("bindings", .arr [binding "n" "read" "reader"]),
      ("secrets", .arr [secret "n" "x"])]
    [("credentials", .arr [credential "c" "n" "reader" [("expires_at", .int 105)]]),
      ("initial_facts", .arr [fact "possesses_credential" ["c"] "observed",
        fact "controls_pod" ["p"] "observed"]),
      ("remediation", .arr [action "wait" [("seconds", .int 10)]]),
      ("objectives", .arr [noSecretRead "o" "n" "x"]),
      ("bounds", .obj [("max_derivations", .int cap)])]

/-- The statuses that an analysis of a document reports. -/
def Sample.statuses (inp : AnalysisInput) : List ObjectiveStatus :=
  (analyze inp .full).objectives.map ObjectiveEntry.status

/-- With a cap of three derivations the run stops after the wait, and the Secret that was read
before it is reported as a violation. -/
theorem waited_not_violationsFinal :
    (∃ inp, parseAnalysisInput (Sample.waited 3) = .ok inp ∧ ¬ViolationsFinal inp) ∧
      ∃ inp, parseAnalysisInput (Sample.waited 100) = .ok inp ∧
        Sample.statuses inp = [.satisfiedWithinScope] := by
  constructor
  · obtain ⟨inp, hinp, hp⟩ := Sample.accepted (Sample.waited 3)
      (p := fun inp => Sample.statuses inp == [.violated] &&
        (runView inp .evidenceSupported .full).boundsExceeded) (by decide +kernel)
    simp only [Bool.and_eq_true, beq_iff_eq] at hp
    refine ⟨inp, hinp, fun hf => ?_⟩
    obtain ⟨e, he, hs⟩ : ∃ e ∈ (analyze inp .full).objectives, e.status = .violated := by
      have hmem : ObjectiveStatus.violated ∈ Sample.statuses inp := by simp [hp.1]
      simpa [Sample.statuses] using hmem
    obtain ⟨s, hend, -⟩ := hf.violated e he hs
    rw [runView_of_after hend] at hp
    exact absurd hp.2 (by simp)
  · obtain ⟨inp, hinp, hp⟩ := Sample.accepted (Sample.waited 100)
      (p := fun inp => Sample.statuses inp == [.satisfiedWithinScope]) (by decide +kernel)
    exact ⟨inp, hinp, by simpa using hp⟩

/-- With a cap that is not reached the violations are final. -/
theorem waited_violationsFinal :
    ∃ inp, parseAnalysisInput (Sample.waited 100) = .ok inp ∧ ViolationsFinal inp := by
  obtain ⟨inp, hinp, hp⟩ := Sample.accepted (Sample.waited 100)
    (p := fun inp => !(runView inp .evidenceSupported .full).boundsExceeded &&
      !(runView inp .conservativePossible .full).boundsExceeded) (by decide +kernel)
  simp only [Bool.and_eq_true, Bool.not_eq_true'] at hp
  refine ⟨inp, hinp, (violationsFinal_iff hinp).2 fun o _ view hstop => ?_⟩
  obtain ⟨k, hk, -, -, -, hno⟩ := hstop
  obtain ⟨t, ht⟩ : ∃ t, After inp view inp.remediation.length t := by
    cases view with
    | evidenceSupported => exact runView_completed.1 hp.1
    | conservativePossible => exact runView_completed.1 hp.2
  exact hno (ht.of_le hk)

end Afterlock
