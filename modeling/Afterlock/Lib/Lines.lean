import Mathlib

/-!
# Logs of lines

A log is a sequence of symbols that is written line by line.  A reader splits it at the separators
and reads the lines from the first on until one has no value; what stands after the last separator
is a line that was not written whole.

The rules say what a reader finds in a log that was written line by line (`split_join_append`), and
what it reads up to a line that has no value (`readUntil_append`).
-/

namespace Afterlock

namespace Lines

variable {α β : Type*} {sep : α}

/-- The lines of a log that are complete, and what stands after them. -/
def split [DecidableEq α] (sep : α) : List α → List (List α) × List α
  | [] => ([], [])
  | a :: as =>
      if a = sep then ([] :: (split sep as).1, (split sep as).2)
      else
        match (split sep as).1 with
        | [] => ([], a :: (split sep as).2)
        | l :: ls => ((a :: l) :: ls, (split sep as).2)

/-- The log of complete lines. -/
def join (sep : α) (ls : List (List α)) : List α := ls.flatMap (· ++ [sep])

/-- The values of the lines before the first that has none. -/
def readUntil (read : List α → Option β) : List (List α) → List β
  | [] => []
  | l :: ls =>
      match read l with
      | none => []
      | some b => b :: readUntil read ls

@[simp] lemma join_nil : join sep [] = [] := rfl

@[simp] lemma join_append (ls ls' : List (List α)) :
    join sep (ls ++ ls') = join sep ls ++ join sep ls' := List.flatMap_append

@[simp] lemma join_singleton (l : List α) : join sep [l] = l ++ [sep] := by simp [join]

section

variable [DecidableEq α]

lemma split_of_notMem {t : List α} (h : sep ∉ t) : split sep t = ([], t) := by
  induction t with
  | nil => rfl
  | cons a t ih =>
      rw [List.mem_cons, not_or] at h
      rw [split, if_neg (Ne.symm h.1), ih h.2]

lemma split_append {l : List α} (h : sep ∉ l) (rest : List α) :
    split sep (l ++ sep :: rest) = (l :: (split sep rest).1, (split sep rest).2) := by
  induction l with
  | nil => rw [List.nil_append, split, if_pos rfl]
  | cons a l ih =>
      rw [List.mem_cons, not_or] at h
      rw [List.cons_append, split, if_neg (Ne.symm h.1), ih h.2]

/-- A log that begins with complete lines is split into these and what the rest is split into. -/
theorem split_join_append {ls : List (List α)} (h : ∀ l ∈ ls, sep ∉ l) (rest : List α) :
    split sep (join sep ls ++ rest) = (ls ++ (split sep rest).1, (split sep rest).2) := by
  induction ls with
  | nil => rfl
  | cons l ls ih =>
      have hsplit := split_append (h l List.mem_cons_self) (join sep ls ++ rest)
      rw [ih fun l' hl' => h l' (List.mem_cons_of_mem _ hl')] at hsplit
      simpa [join] using hsplit

/-- A log is its complete lines and what stands after them. -/
lemma join_split (t : List α) : join sep (split sep t).1 ++ (split sep t).2 = t := by
  induction t with
  | nil => rfl
  | cons a t ih =>
      rw [split]
      by_cases ha : a = sep
      · rw [if_pos ha, ha]
        exact congrArg (sep :: ·) ih
      · rw [if_neg ha]
        cases hs : (split sep t).1 with
        | nil =>
            rw [hs] at ih
            exact congrArg (a :: ·) ih
        | cons l ls =>
            rw [hs] at ih
            exact congrArg (a :: ·) ih

lemma notMem_of_mem_split {t l : List α} (h : l ∈ (split sep t).1) : sep ∉ l := by
  induction t generalizing l with
  | nil => simp [split] at h
  | cons a t ih =>
      rw [split] at h
      by_cases ha : a = sep
      · rw [if_pos ha] at h
        rcases List.mem_cons.1 h with rfl | h
        · exact List.not_mem_nil
        · exact ih h
      · rw [if_neg ha] at h
        cases hs : (split sep t).1 with
        | nil => simp [hs] at h
        | cons l' ls =>
            simp only [hs] at h
            rcases List.mem_cons.1 h with rfl | h
            · rw [List.mem_cons, not_or]
              exact ⟨Ne.symm ha, ih (hs ▸ List.mem_cons_self)⟩
            · exact ih (hs ▸ List.mem_cons_of_mem _ h)

lemma notMem_split_snd (t : List α) : sep ∉ (split sep t).2 := by
  induction t with
  | nil => exact List.not_mem_nil
  | cons a t ih =>
      rw [split]
      by_cases ha : a = sep
      · rwa [if_pos ha]
      · rw [if_neg ha]
        cases (split sep t).1 with
        | nil => exact List.not_mem_cons_of_ne_of_not_mem (Ne.symm ha) ih
        | cons l ls => exact ih

/-- What is appended to a log goes on behind what stands after its lines. -/
lemma split_append_right (t u : List α) : split sep (t ++ u) =
    ((split sep t).1 ++ (split sep ((split sep t).2 ++ u)).1,
      (split sep ((split sep t).2 ++ u)).2) := by
  have hlines : ∀ l ∈ (split sep t).1, sep ∉ l := fun l hl => notMem_of_mem_split hl
  have h := split_join_append hlines ((split sep t).2 ++ u)
  rwa [← List.append_assoc, join_split] at h

/-- A log of lines has as many separators as lines. -/
lemma count_join {ls : List (List α)} (h : ∀ l ∈ ls, sep ∉ l) :
    (join sep ls).count sep = ls.length := by
  induction ls with
  | nil => rfl
  | cons l ls ih =>
      have hrest := ih fun l' hl' => h l' (List.mem_cons_of_mem _ hl')
      have hl := List.count_eq_zero.2 (h l List.mem_cons_self)
      have hcons : join sep (l :: ls) = l ++ (sep :: join sep ls) := by simp [join]
      rw [hcons, List.count_append, hl, List.count_cons_self, hrest, List.length_cons, Nat.zero_add]

/-- The complete lines of a log are at most as many as its separators. -/
lemma length_split_le (t : List α) : (split sep t).1.length ≤ t.count sep := by
  conv_rhs => rw [← @join_split _ sep _ t, List.count_append]
  rw [count_join fun l hl => notMem_of_mem_split hl]
  exact Nat.le_add_right _ _

end

@[simp] lemma readUntil_nil (read : List α → Option β) : readUntil read [] = [] := rfl

lemma readUntil_append {read : List α → Option β} {val : List α → β} {ls : List (List α)}
    (h : ∀ l ∈ ls, read l = some (val l)) (ls' : List (List α)) :
    readUntil read (ls ++ ls') = ls.map val ++ readUntil read ls' := by
  induction ls with
  | nil => rfl
  | cons l ls ih =>
      rw [List.cons_append, readUntil, h l List.mem_cons_self,
        ih fun l' hl' => h l' (List.mem_cons_of_mem _ hl')]
      rfl

lemma readUntil_cons_of_none {read : List α → Option β} {l : List α} (h : read l = none)
    (ls : List (List α)) : readUntil read (l :: ls) = [] := by
  rw [readUntil, h]

lemma length_readUntil_le (read : List α → Option β) (ls : List (List α)) :
    (readUntil read ls).length ≤ ls.length := by
  induction ls with
  | nil => exact le_rfl
  | cons l ls ih =>
      rw [readUntil]
      cases read l with
      | none => exact Nat.zero_le _
      | some b => exact Nat.succ_le_succ ih

/-- The lines that are read are the first ones that have values. -/
lemma readUntil_prefix_filterMap (read : List α → Option β) (ls : List (List α)) :
    readUntil read ls <+: ls.filterMap read := by
  induction ls with
  | nil => exact List.prefix_refl _
  | cons l ls ih =>
      rw [readUntil, List.filterMap_cons]
      cases read l with
      | none => exact List.nil_prefix
      | some b => exact List.cons_prefix_cons.2 ⟨rfl, ih⟩

/-- Every line that has a value is read exactly if none stands after one that has none. -/
theorem filterMap_eq_readUntil {read : List α → Option β} {ls : List (List α)} :
    ls.filterMap read = readUntil read ls ↔
      ls.Pairwise fun l l' => read l = none → read l' = none := by
  induction ls with
  | nil => simp
  | cons l ls ih =>
      rw [List.filterMap_cons, readUntil, List.pairwise_cons]
      cases hl : read l with
      | none =>
          rw [List.filterMap_eq_nil_iff]
          refine ⟨fun h => ⟨fun l' hl' _ => h l' hl', ?_⟩, fun h l' hl' => h.1 l' hl' rfl⟩
          exact List.pairwise_of_forall_mem_list fun l₁ _ l₂ hl₂ _ => h l₂ hl₂
      | some b => simp [ih]

/-- Where no line that has a value stands after one that has none, the lines that are read are
those that have values. -/
lemma take_readUntil {read : List α → Option β} {ls : List (List α)}
    (h : ls.Pairwise fun l l' => read l = none → read l' = none) :
    ls.take (readUntil read ls).length = ls.filter fun l => (read l).isSome := by
  induction ls with
  | nil => rfl
  | cons l ls ih =>
      rw [List.pairwise_cons] at h
      rw [readUntil, List.filter_cons]
      cases hl : read l with
      | none =>
          have hnone : ls.filter (fun l => (read l).isSome) = [] :=
            List.filter_eq_nil_iff.2 fun l' hl' => by simp [h.1 l' hl' hl]
          simp [hnone]
      | some b =>
          rw [List.length_cons, List.take_succ_cons, ih h.2]
          simp

end Lines

end Afterlock
