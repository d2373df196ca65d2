import Afterlock.Lib.Table
import Afterlock.Lib.Text

/-!
# Collating reports

A loop over reports that updates one row of a table for each report.  What it leaves under a key
depends on the reports with this key only, in their order (`Local.get?_foldl`), so the loop can be
read one key at a time.  A row that lists what it rests on keeps a sorted list, which is that of the
set of the entries (`insertSorted_sortedSet`).
-/

namespace Afterlock

/-- Reports that can all be read: what is read is what the reports say. -/
lemma mapM_eq_some {α β : Type} {f : α → Option β} {xs : List α} {ys : List β}
    (h : xs.mapM f = some ys) :
    (∀ y ∈ ys, ∃ x ∈ xs, f x = some y) ∧ ∀ x ∈ xs, ∃ y ∈ ys, f x = some y := by
  induction xs generalizing ys with
  | nil =>
      cases h
      simp
  | cons x xs ih =>
      simp only [List.mapM_cons, Option.bind_eq_bind, Option.bind_eq_some_iff] at h
      obtain ⟨y, hy, ys, hys, h⟩ := h
      cases h
      obtain ⟨hread, hall⟩ := ih hys
      refine ⟨fun z hz => ?_, fun z hz => ?_⟩
      · rcases List.mem_cons.1 hz with rfl | hz
        · exact ⟨x, List.mem_cons_self, hy⟩
        · obtain ⟨w, hw, hwz⟩ := hread z hz
          exact ⟨w, List.mem_cons_of_mem _ hw, hwz⟩
      · rcases List.mem_cons.1 hz with rfl | hz
        · exact ⟨y, List.mem_cons_self, hy⟩
        · obtain ⟨w, hw, hwz⟩ := hall z hz
          exact ⟨w, List.mem_cons_of_mem _ hw, hwz⟩

namespace Table

variable {α κ γ : Type*} {key : α → κ} [DecidableEq κ]

/-- A step that changes the row under the key of its report, by `f`, and no other row. -/
def Local (step : Table key → γ → Table key) (keyOf : γ → κ) (f : Option α → γ → Option α) :
    Prop :=
  ∀ t c k, (step t c).get? k = if keyOf c = k then f (t.get? k) c else t.get? k

section

variable {step : Table key → γ → Table key} {keyOf : γ → κ} {f : Option α → γ → Option α}

/-- The row under a key depends on the reports with that key. -/
lemma Local.get?_foldl (h : Local step keyOf f) (cs : List γ) (t : Table key) (k : κ) :
    (cs.foldl step t).get? k = (cs.filter fun c => keyOf c = k).foldl f (t.get? k) := by
  induction cs generalizing t with
  | nil => rfl
  | cons c cs ih =>
      rw [List.foldl_cons, ih, h t c k]
      by_cases hc : keyOf c = k
      · rw [if_pos hc, List.filter_cons_of_pos (by simpa using hc), List.foldl_cons]
      · rw [if_neg hc, List.filter_cons_of_neg (by simpa using hc)]

end

end Table

namespace Text

variable {α : Type*} [LinearOrder α]

/-- A list whose keys are distinct is sorted strictly. -/
lemma pairwise_sortedBy {β : Type*} {key : β → α} {xs : List β} (h : (xs.map key).Nodup) :
    (sortedBy key xs).Pairwise fun a b => key a < key b := by
  have hle : (sortedBy key xs).Pairwise fun a b => key a ≤ key b :=
    List.pairwise_insertionSort (fun a b : β => key a ≤ key b) xs
  have hne : (sortedBy key xs).Pairwise fun a b => key a ≠ key b :=
    List.pairwise_map.1 (((sortedBy_perm key xs).map key).nodup_iff.2 h)
  exact hle.imp₂ (fun _ _ hab hne => lt_of_le_of_ne hab hne) hne

/-- Add an entry to a sorted list, unless it is there. -/
def insertSorted (xs : List α) (x : α) : List α :=
  if x ∈ xs then xs else sortedBy id (xs ++ [x])

/-- `sorted(set(xs))`. -/
def sortedSet (xs : List α) : List α := sortedBy id xs.dedup

@[simp] lemma mem_sortedSet {xs : List α} {x : α} : x ∈ sortedSet xs ↔ x ∈ xs := by
  simp [sortedSet]

lemma nodup_sortedSet (xs : List α) : (sortedSet xs).Nodup :=
  (sortedBy_perm id xs.dedup).nodup_iff.2 (List.nodup_dedup xs)

lemma pairwise_sortedSet (xs : List α) : (sortedSet xs).Pairwise (· < ·) :=
  pairwise_sortedBy (by simpa using List.nodup_dedup xs)

lemma sortedSet_eq_of_mem_iff {xs ys : List α} (h : ∀ x, x ∈ xs ↔ x ∈ ys) :
    sortedSet xs = sortedSet ys := by
  refine sortedBy_eq_of_perm ?_ fun _ _ _ _ hxy => hxy
  refine (List.perm_ext_iff_of_nodup (List.nodup_dedup xs) (List.nodup_dedup ys)).2 fun x => ?_
  rw [List.mem_dedup, List.mem_dedup, h x]

lemma sortedSet_singleton (x : α) : sortedSet [x] = [x] := by
  simp [sortedSet, sortedBy]

lemma insertSorted_sortedSet (xs : List α) (x : α) :
    insertSorted (sortedSet xs) x = sortedSet (xs ++ [x]) := by
  rw [insertSorted]
  split_ifs with h
  · refine sortedSet_eq_of_mem_iff fun y => ?_
    simp only [mem_sortedSet] at h
    simp only [List.mem_append, List.mem_singleton]
    exact ⟨.inl, fun hy => hy.elim id fun hy => hy ▸ h⟩
  · refine sortedBy_eq_of_perm ?_ fun _ _ _ _ hxy => hxy
    simp only [mem_sortedSet] at h
    refine (List.perm_ext_iff_of_nodup ?_ (List.nodup_dedup _)).2 fun y => by simp
    rw [List.nodup_append]
    refine ⟨nodup_sortedSet xs, List.nodup_singleton x, fun y hy z hz => ?_⟩
    rintro rfl
    rw [List.mem_singleton.1 hz] at hy
    exact h (mem_sortedSet.1 hy)

end Text

end Afterlock
