import Mathlib

/-!
# The first free number

Counting upwards from a number until one is free.  A loop of as many steps as there are names in use
finds the first free one, when different numbers have different names.
-/

namespace Afterlock

/-- The number that the loop `while taken(k): k += 1` ends on, in at most `fuel` steps. -/
def search (taken : ℤ → Bool) : ℕ → ℤ → ℤ
  | 0, k => k
  | fuel + 1, k => if taken k then search taken fuel (k + 1) else k

/-- The loop itself, cut off after `fuel` steps: none if it has not ended by then. -/
def search? (taken : ℤ → Bool) : ℕ → ℤ → Option ℤ
  | 0, _ => none
  | fuel + 1, k => if taken k then search? taken fuel (k + 1) else some k

/-- `r` is the first free number from `k` on. -/
structure FirstFree (taken : ℤ → Bool) (k r : ℤ) : Prop where
  le : k ≤ r
  free : taken r = false
  taken : ∀ j, k ≤ j → j < r → taken j = true

lemma FirstFree.unique {taken : ℤ → Bool} {k r r' : ℤ} (h : FirstFree taken k r)
    (h' : FirstFree taken k r') : r = r' := by
  rcases lt_trichotomy r r' with hlt | heq | hlt
  · exact absurd (h.free.symm.trans (h'.taken r h.le hlt)) (by decide)
  · exact heq
  · exact absurd (h'.free.symm.trans (h.taken r' h'.le hlt)) (by decide)

section

variable {taken : ℤ → Bool}

lemma le_search {fuel : ℕ} {k : ℤ} :
    k ≤ search taken fuel k ∧ ∀ j, k ≤ j → j < search taken fuel k → taken j = true := by
  induction fuel generalizing k with
  | zero => exact ⟨le_rfl, fun j h1 h2 => absurd h2 (not_lt.2 h1)⟩
  | succ fuel ih =>
      unfold search
      split_ifs with h
      · obtain ⟨hle, htaken⟩ := ih (k := k + 1)
        refine ⟨by omega, fun j h1 h2 => ?_⟩
        by_cases hj : j = k
        · exact hj ▸ h
        · exact htaken j (by omega) h2
      · exact ⟨le_rfl, fun j h1 h2 => absurd h2 (not_lt.2 h1)⟩

/-- The loop ends on a free number, or it has used up its fuel. -/
lemma search_free_or (fuel : ℕ) (k : ℤ) :
    taken (search taken fuel k) = false ∨ search taken fuel k = k + fuel := by
  induction fuel generalizing k with
  | zero => exact Or.inr (by simp [search])
  | succ fuel ih =>
      unfold search
      split_ifs with h
      · refine (ih (k + 1)).imp id fun h => ?_
        rw [h]
        push_cast
        omega
      · exact Or.inl (by simpa using h)

/-- There are more candidates than names in use, so the loop finds a free number. -/
theorem search_firstFree {β : Type*} {name : ℤ → β} (hname : Function.Injective name) {xs : List β}
    (h : ∀ j, taken j = true → name j ∈ xs) (k : ℤ) :
    FirstFree taken k (search taken xs.length k) := by
  classical
  refine ⟨le_search.1, ?_, le_search.2⟩
  by_contra htaken
  rw [Bool.not_eq_false] at htaken
  have hend := (@search_free_or taken xs.length k).resolve_left (by simp [htaken])
  -- then one more number than there are names are taken
  have hall : ∀ n ∈ Finset.range (xs.length + 1), name (k + (n : ℤ)) ∈ xs.toFinset := by
    intro n hn
    rw [Finset.mem_range] at hn
    rw [List.mem_toFinset]
    refine h _ ?_
    rcases Nat.lt_succ_iff_lt_or_eq.1 hn with hlt | rfl
    · exact (@le_search taken xs.length k).2 _ (by omega) (by rw [hend]; omega)
    · rw [← hend]
      exact htaken
  have hinj : Set.InjOn (fun n : ℕ => name (k + (n : ℤ))) (Finset.range (xs.length + 1)) := by
    intro a _ b _ hab
    have := hname hab
    omega
  have hcard := Finset.card_le_card_of_injOn _ hall hinj
  have hlen := List.toFinset_card_le xs
  rw [Finset.card_range] at hcard
  omega

/-- A loop that has ended gives the same number however many more steps it may take. -/
lemma search?_eq_some {fuel : ℕ} {k r : ℤ} (h : FirstFree taken k r) (hfuel : r < k + fuel) :
    search? taken fuel k = some r := by
  induction fuel generalizing k with
  | zero =>
      have := h.le
      omega
  | succ fuel ih =>
      unfold search?
      by_cases hk : k = r
      · subst hk
        rw [if_neg (by simp [h.free])]
      · have hlt : k < r := lt_of_le_of_ne h.le hk
        rw [if_pos (h.taken k le_rfl hlt)]
        refine ih ⟨hlt, h.free, fun j hj => h.taken j (by omega)⟩ ?_
        push_cast at hfuel
        omega

lemma search_le (taken : ℤ → Bool) (fuel : ℕ) (k : ℤ) : search taken fuel k ≤ k + fuel := by
  induction fuel generalizing k with
  | zero => simp [search]
  | succ fuel ih =>
      unfold search
      split_ifs
      · have := ih (k + 1)
        push_cast
        omega
      · omega

/-- The loop ends within one step more than there are names in use. -/
theorem search?_of_length_lt {β : Type*} {name : ℤ → β} (hname : Function.Injective name)
    {xs : List β} (h : ∀ j, taken j = true → name j ∈ xs) {fuel : ℕ} (hfuel : xs.length < fuel)
    (k : ℤ) : search? taken fuel k = some (search taken xs.length k) := by
  refine search?_eq_some (search_firstFree hname h k) ?_
  have := search_le taken xs.length k
  omega

end

end Afterlock
