import Mathlib

/-!
# Relations without cycles

`R a b` reads "`a` is used to explain `b`".  A relation stays acyclic when explanations are added for
an element that explains nothing (`Acyclic.sink`).  When the explanation of an element is replaced by
another one, it stays acyclic exactly if the element is not used in the new explanation
(`acyclic_redirect_iff`).
-/

namespace Afterlock

open Relation

variable {α : Type*} {R S : α → α → Prop} {P : α → Prop} {x : α}

/-- No element leads back to itself. -/
def Acyclic (R : α → α → Prop) : Prop := ∀ a, ¬TransGen R a a

/-- An element that leads nowhere can get further predecessors. -/
lemma Acyclic.sink (h : Acyclic R) (hsink : ∀ b, ¬S x b) (hS : ∀ a b, S a b → R a b ∨ b = x) :
    Acyclic S := by
  -- a path that does not end in `x` never meets it
  have hpath : ∀ {a b}, TransGen S a b → b ≠ x → TransGen R a b := by
    intro a b hab
    induction hab with
    | single hb => exact fun hne => .single ((hS _ _ hb).resolve_right hne)
    | @tail c d hc hd ih =>
        intro hne
        have hcx : c ≠ x := by
          rintro rfl
          exact hsink d hd
        exact (ih hcx).tail ((hS _ _ hd).resolve_right hne)
  intro a ha
  by_cases hax : a = x
  · subst hax
    obtain ⟨b, hb, -⟩ := TransGen.head'_iff.1 ha
    exact hsink b hb
  · exact h a (hpath ha hax)

/-- `R` with the elements of `P` in the place of what leads to `x`. -/
def Redirect (R : α → α → Prop) (P : α → Prop) (x : α) (a b : α) : Prop :=
  (b = x ∧ P a) ∨ (b ≠ x ∧ R a b)

/-- What leads to another element than `x` is as before. -/
lemma redirect_of_ne {a b : α} (h : b ≠ x) : Redirect R P x a b ↔ R a b := by
  simp [Redirect, h]

/-- What `x` leads to it still leads to after the change. -/
lemma Acyclic.redirect_of_reflTransGen (h : Acyclic R) {a : α} (ha : ReflTransGen R x a) :
    ReflTransGen (Redirect R P x) x a := by
  induction ha with
  | refl => exact .refl
  | @tail b c hb hc ih =>
      have hcx : c ≠ x := by
        rintro rfl
        exact h c (TransGen.tail' hb hc)
      exact ih.tail ((redirect_of_ne hcx).2 hc)

/-- A path after the change is one from before, or it enters `x` through an element of `P`. -/
lemma transGen_redirect_cases {a b : α} (h : TransGen (Redirect R P x) a b) :
    TransGen R a b ∨
      (∃ c, P c ∧ ReflTransGen (Redirect R P x) a c) ∧ ReflTransGen R x b := by
  induction h with
  | @single b hb =>
      rcases hb with ⟨rfl, hp⟩ | ⟨-, hb⟩
      · exact .inr ⟨⟨a, hp, .refl⟩, .refl⟩
      · exact .inl (.single hb)
  | @tail b c hab hc ih =>
      rcases hc with ⟨rfl, hp⟩ | ⟨-, hc⟩
      · exact .inr ⟨⟨b, hp, hab.to_reflTransGen⟩, .refl⟩
      · exact ih.imp (fun h => h.tail hc) fun h => ⟨h.1, h.2.tail hc⟩

/-- The change makes no cycle exactly if `x` leads to none of its new predecessors. -/
theorem acyclic_redirect_iff (h : Acyclic R) :
    Acyclic (Redirect R P x) ↔ ∀ a, P a → ¬ReflTransGen R x a := by
  constructor
  · intro hacyc a ha hxa
    have hedge : Redirect R P x a x := .inl ⟨rfl, ha⟩
    exact hacyc x (TransGen.tail' (h.redirect_of_reflTransGen hxa) hedge)
  · intro hP b hb
    rcases transGen_redirect_cases hb with hb | ⟨⟨c, hc, hbc⟩, hxb⟩
    · exact h b hb
    · -- the cycle goes through `x`: turn it so that it begins there
      refine hP c hc ?_
      rcases reflTransGen_iff_eq_or_transGen.1 hbc with rfl | hbc
      · exact hxb
      · rcases transGen_redirect_cases hbc with hbc | ⟨-, hxc⟩
        · exact hxb.trans hbc.to_reflTransGen
        · exact hxc

end Afterlock
