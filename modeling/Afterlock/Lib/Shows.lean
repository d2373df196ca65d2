import Afterlock.Lib.Table

/-!
# Sets of tuples that show a table

A frozen set of tuples shows a table if its elements are the rows, each seen as a tuple.  Filtering,
erasing and storing on the one side match filtering and inserting on the other, when the condition
can be read off the tuple.
-/

namespace Afterlock

variable {α β κ : Type*} {key : α → κ} {f : α → β} {t : Table key} {s : List β}

/-- The elements of `s` are the rows of `t`, seen through `f`. -/
def Shows (f : α → β) (t : Table key) (s : List β) : Prop := ∀ y, y ∈ s ↔ ∃ x ∈ t, f x = y

namespace Shows

lemma mem (h : Shows f t s) {x : α} (hx : x ∈ t) : f x ∈ s := (h _).2 ⟨x, hx, rfl⟩

lemma any (h : Shows f t s) {p : α → Bool} {q : β → Bool} (hpq : ∀ x ∈ t, q (f x) = p x) :
    s.any q = t.rows.any p := by
  rw [Bool.eq_iff_iff, List.any_eq_true, List.any_eq_true]
  constructor
  · rintro ⟨y, hy, hq⟩
    obtain ⟨x, hx, rfl⟩ := (h y).1 hy
    exact ⟨x, hx, (hpq x hx).symm.trans hq⟩
  · rintro ⟨x, hx, hp⟩
    exact ⟨f x, h.mem hx, (hpq x hx).trans hp⟩

lemma filter (h : Shows f t s) {p : α → Bool} {q : β → Bool} (hpq : ∀ x ∈ t, q (f x) = p x) :
    Shows f (t.filter p) (s.filter q) := by
  intro y
  rw [List.mem_filter, h y]
  constructor
  · rintro ⟨⟨x, hx, rfl⟩, hq⟩
    exact ⟨x, Table.mem_filter.2 ⟨hx, (hpq x hx).symm.trans hq⟩, rfl⟩
  · rintro ⟨x, hx, rfl⟩
    obtain ⟨hx, hp⟩ := Table.mem_filter.1 hx
    exact ⟨⟨x, hx, rfl⟩, (hpq x hx).trans hp⟩

variable [DecidableEq κ]

lemma erase (h : Shows f t s) {k : κ} {q : β → Bool}
    (hq : ∀ x ∈ t, q (f x) = !decide (key x = k)) : Shows f (t.erase k) (s.filter q) :=
  h.filter hq

/-- A row is stored: the tuple of the row that was there, if any, goes and the new one comes. -/
lemma put {x : α} {s' : List β}
    (hs : ∀ y, y ∈ s' ↔ y = f x ∨ ∃ z ∈ t, key z ≠ key x ∧ f z = y) : Shows f (t.put x) s' := by
  intro y
  rw [hs y]
  constructor
  · rintro (rfl | ⟨z, hz, hne, rfl⟩)
    · exact ⟨x, Table.mem_put_self, rfl⟩
    · exact ⟨z, Table.mem_put.2 (Or.inr ⟨hz, hne⟩), rfl⟩
  · rintro ⟨z, hz, rfl⟩
    rcases Table.mem_put.1 hz with rfl | ⟨hz, hne⟩
    · exact Or.inl rfl
    · exact Or.inr ⟨z, hz, hne, rfl⟩

/-- A row is stored under a key that is free. -/
lemma put_fresh (h : Shows f t s) {x : α} (hx : ∀ z ∈ t, key z ≠ key x) :
    Shows f (t.put x) (f x :: s) := by
  refine Shows.put fun y => ?_
  rw [List.mem_cons, h y]
  exact or_congr_right ⟨fun ⟨z, hz, he⟩ => ⟨z, hz, hx z hz, he⟩, fun ⟨z, hz, _, he⟩ => ⟨z, hz, he⟩⟩

/-- The row stored under a key is the one whose tuple has it. -/
lemma find? (h : Shows f t s) {k : κ} {q : β → Bool}
    (hq : ∀ x ∈ t, q (f x) = decide (key x = k)) : s.find? q = (t.get? k).map f := by
  cases hf : t.get? k with
  | none =>
      rw [Table.get?_eq_none_iff] at hf
      rw [Option.map_none, List.find?_eq_none]
      intro y hy
      obtain ⟨x, hx, rfl⟩ := (h y).1 hy
      simp [hq x hx, hf x hx]
  | some x =>
      obtain ⟨hx, hk⟩ := Table.get?_eq_some_iff.1 hf
      cases hs : s.find? q with
      | none =>
          rw [List.find?_eq_none] at hs
          exact absurd (by simp [hq x hx, hk]) (hs _ (h.mem hx))
      | some y =>
          obtain ⟨z, hz, rfl⟩ := (h y).1 (List.mem_of_find?_eq_some hs)
          have hzk : key z = k := by simpa [hq z hz] using List.find?_some hs
          rw [Table.eq_of_key_eq hz hx (hzk.trans hk.symm), Option.map_some]

lemma ofList {xs : List α} (hn : (xs.map key).Nodup) (hs : ∀ y, y ∈ s ↔ ∃ x ∈ xs, f x = y) :
    Shows f (Table.ofList xs : Table key) s := by
  intro y
  rw [hs y]
  exact exists_congr fun x => and_congr_left fun _ => (Table.mem_ofList hn).symm

end Shows

end Afterlock
