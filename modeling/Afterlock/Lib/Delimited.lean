import Mathlib

/-!
# Delimited texts

Texts of lists: the pieces stand between commas, and the list ends with a closing character.  If a
piece can be told from what follows it, so can a list of pieces (`enclosed_inj`): two lists with the
same text, each followed by some rest, have related elements and the same rest.
-/

namespace Afterlock

namespace Delimited

/-- What may follow a piece: nothing, a comma or a closing character. -/
def Stop (rest : List Char) : Prop := ∀ c ∈ rest.head?, c = ',' ∨ c = ']' ∨ c = '}'

@[simp] lemma stop_nil : Stop [] := by simp [Stop]

lemma stop_cons {c : Char} {rest : List Char} : Stop (c :: rest) ↔ c = ',' ∨ c = ']' ∨ c = '}' := by
  simp [Stop]

/-- Two pieces with the same text, each followed by some rest, satisfy `P` and have the same
rest. -/
def Determines (u v : List Char) (P : Prop) : Prop :=
  ∀ s t, Stop s → Stop t → u ++ s = v ++ t → P ∧ s = t

/-- The pieces after the first, and the end. -/
def closing (close : Char) : List (List Char) → List Char
  | [] => [close]
  | p :: ps => ',' :: (p ++ closing close ps)

/-- The pieces, and the end. -/
def enclosed (close : Char) : List (List Char) → List Char
  | [] => [close]
  | p :: ps => p ++ closing close ps

section

variable {α β : Type*} {f : α → List Char} {g : β → List Char} {R : α → β → Prop} {close : Char}
  {xs : List α} {ys : List β} {s t : List Char}

lemma stop_closing (h : close = ']' ∨ close = '}') (ps : List (List Char)) (s : List Char) :
    Stop (closing close ps ++ s) := by
  cases ps with
  | nil => exact stop_cons.2 (Or.inr h)
  | cons p ps => exact stop_cons.2 (Or.inl rfl)

lemma closing_inj (hclose : close = ']' ∨ close = '}')
    (h : ∀ p ∈ xs.zip ys, Determines (f p.1) (g p.2) (R p.1 p.2))
    (he : closing close (xs.map f) ++ s = closing close (ys.map g) ++ t) :
    List.Forall₂ R xs ys ∧ s = t := by
  have hcomma : ',' ≠ close := by rcases hclose with rfl | rfl <;> decide
  induction xs generalizing ys with
  | nil =>
      cases ys with
      | nil => exact ⟨.nil, (List.cons.inj he).2⟩
      | cons y ys => exact absurd (List.cons.inj he).1.symm hcomma
  | cons x xs ih =>
      cases ys with
      | nil => exact absurd (List.cons.inj he).1 hcomma
      | cons y ys =>
          have he' : f x ++ (closing close (xs.map f) ++ s) =
              g y ++ (closing close (ys.map g) ++ t) := by
            simpa [closing] using he
          rw [List.zip_cons_cons, List.forall_mem_cons] at h
          obtain ⟨hR, hrest⟩ := h.1 _ _ (stop_closing hclose _ _) (stop_closing hclose _ _) he'
          obtain ⟨hall, hst⟩ := ih h.2 hrest
          exact ⟨.cons hR hall, hst⟩

/-- Two lists with the same text have related elements. Pieces are compared with the piece at the
same position, and do not begin with the closing
character. -/
theorem enclosed_inj (hclose : close = ']' ∨ close = '}')
    (hf : ∀ x ∈ xs, ∃ c cs, f x = c :: cs ∧ c ≠ close)
    (hg : ∀ y ∈ ys, ∃ c cs, g y = c :: cs ∧ c ≠ close)
    (h : ∀ p ∈ xs.zip ys, Determines (f p.1) (g p.2) (R p.1 p.2))
    (he : enclosed close (xs.map f) ++ s = enclosed close (ys.map g) ++ t) :
    List.Forall₂ R xs ys ∧ s = t := by
  cases xs with
  | nil =>
      cases ys with
      | nil => exact ⟨.nil, (List.cons.inj he).2⟩
      | cons y ys =>
          obtain ⟨c, cs, hc, hne⟩ := hg y List.mem_cons_self
          simp only [List.map_cons, enclosed, hc] at he
          exact absurd (List.cons.inj he).1.symm hne
  | cons x xs =>
      cases ys with
      | nil =>
          obtain ⟨c, cs, hc, hne⟩ := hf x List.mem_cons_self
          simp only [List.map_cons, enclosed, hc] at he
          exact absurd (List.cons.inj he).1 hne
      | cons y ys =>
          have he' : f x ++ (closing close (xs.map f) ++ s) =
              g y ++ (closing close (ys.map g) ++ t) := by
            simpa [enclosed] using he
          rw [List.zip_cons_cons, List.forall_mem_cons] at h
          obtain ⟨hR, hrest⟩ := h.1 _ _ (stop_closing hclose _ _) (stop_closing hclose _ _) he'
          obtain ⟨hall, hst⟩ := closing_inj hclose h.2 hrest
          exact ⟨.cons hR hall, hst⟩

/-- A piece of a list and what follows it, after a beginning that depends on the pieces before. -/
lemma enclosed_append (close : Char) (ps qs : List (List Char)) :
    ∃ start, ∀ p, enclosed close (ps ++ p :: qs) = start ++ (p ++ closing close qs) := by
  have hclosing : ∀ ps, ∃ start, ∀ p, closing close (ps ++ p :: qs) =
      start ++ (p ++ closing close qs) := by
    intro ps
    induction ps with
    | nil => exact ⟨[','], fun p => rfl⟩
    | cons q ps ih =>
        obtain ⟨start, hstart⟩ := ih
        refine ⟨',' :: (q ++ start), fun p => ?_⟩
        rw [List.cons_append, closing, hstart]
        simp
  cases ps with
  | nil => exact ⟨[], fun p => rfl⟩
  | cons q ps =>
      obtain ⟨start, hstart⟩ := hclosing ps
      refine ⟨q ++ start, fun p => ?_⟩
      rw [List.cons_append, enclosed, hstart, List.append_assoc]

end

end Delimited

end Afterlock
