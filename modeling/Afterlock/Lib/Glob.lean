import Mathlib

/-!
# Patterns of file names

A pattern has stars, which stand for any run of characters.  A pattern with one star selects the
names that begin and end as it does (`fnmatch_between`).

Names are often made of a stem, a separator and a numeral.  If the numeral does not have the
separator the name has one reading (`append_sep_inj`), but the stem may have the separator, so that
one stem and the separator may be the beginning of another stem (`prefix_of_append_sep`).
-/

namespace Afterlock

namespace Glob

/-- A name matches a pattern: a star is any run of characters and a question mark any character. -/
def fnmatch : List Char → List Char → Bool
  | [], s => s.isEmpty
  | c :: p, s =>
      if c = '*' then s.tails.any (fnmatch p)
      else
        match s with
        | [] => false
        | d :: s => (c = '?' || c = d) && fnmatch p s

/-- A pattern that stands for itself. -/
def Literal (p : List Char) : Prop := '*' ∉ p ∧ '?' ∉ p

lemma literal_cons {c : Char} {p : List Char} :
    Literal (c :: p) ↔ c ≠ '*' ∧ c ≠ '?' ∧ Literal p := by
  unfold Literal
  simp only [List.mem_cons, not_or]
  constructor
  · rintro ⟨⟨h1, h2⟩, h3, h4⟩
    exact ⟨Ne.symm h1, Ne.symm h3, h2, h4⟩
  · rintro ⟨h1, h3, h2, h4⟩
    exact ⟨⟨Ne.symm h1, h2⟩, Ne.symm h3, h4⟩

lemma fnmatch_nil {s : List Char} : fnmatch [] s = true ↔ s = [] := by
  simp [fnmatch]

lemma fnmatch_append {p : List Char} (hp : Literal p) {q s : List Char} :
    fnmatch (p ++ q) s = true ↔ ∃ t, s = p ++ t ∧ fnmatch q t = true := by
  induction p generalizing s with
  | nil => simp
  | cons c p ih =>
      obtain ⟨hstar, hmark, hp⟩ := literal_cons.1 hp
      rw [List.cons_append]
      cases s with
      | nil => simp [fnmatch, hstar]
      | cons d s =>
          rw [fnmatch, if_neg hstar]
          simp only [Bool.and_eq_true, Bool.or_eq_true, decide_eq_true_eq, hmark, false_or, ih hp,
            List.cons_append, List.cons.injEq]
          constructor
          · rintro ⟨rfl, t, rfl, ht⟩
            exact ⟨t, ⟨rfl, rfl⟩, ht⟩
          · rintro ⟨t, ⟨rfl, rfl⟩, ht⟩
            exact ⟨rfl, t, rfl, ht⟩

lemma fnmatch_star {p s : List Char} :
    fnmatch ('*' :: p) s = true ↔ ∃ m t, s = m ++ t ∧ fnmatch p t = true := by
  have htails : fnmatch ('*' :: p) s = s.tails.any (fnmatch p) := by
    cases s with
    | nil => rw [fnmatch, if_pos rfl]
    | cons d s => rw [fnmatch, if_pos rfl]
  rw [htails, List.any_eq_true]
  constructor
  · rintro ⟨t, ht, hp⟩
    obtain ⟨m, rfl⟩ := (List.mem_tails _ _).1 ht
    exact ⟨m, t, rfl, hp⟩
  · rintro ⟨m, t, rfl, hp⟩
    exact ⟨t, (List.mem_tails _ _).2 (List.suffix_append m t), hp⟩

/-- A pattern with one star. -/
theorem fnmatch_between {p q : List Char} (hp : Literal p) (hq : Literal q) {s : List Char} :
    fnmatch (p ++ '*' :: q) s = true ↔ ∃ m, s = p ++ m ++ q := by
  have hend (t : List Char) : fnmatch q t = true ↔ t = q := by
    have happ := fnmatch_append hq (q := []) (s := t)
    simp only [List.append_nil, fnmatch_nil] at happ
    rw [happ]
    exact ⟨fun ⟨u, ht, hu⟩ => by simpa [hu] using ht, fun ht => ⟨[], by simpa using ht, rfl⟩⟩
  simp only [fnmatch_append hp, fnmatch_star, hend]
  constructor
  · rintro ⟨t, rfl, m, u, rfl, rfl⟩
    exact ⟨m, (List.append_assoc _ _ _).symm⟩
  · rintro ⟨m, rfl⟩
    exact ⟨m ++ q, List.append_assoc _ _ _, m, q, rfl, rfl⟩

/-! ### Stems and numerals -/

variable {α : Type*} {sep : α}

/-- A stem and the separator are the beginning of a name with another stem. -/
lemma prefix_of_append_sep {c d m ds : List α} (h : c ++ sep :: m = d ++ sep :: ds)
    (hds : sep ∉ ds) : c = d ∨ c ++ [sep] <+: d := by
  rcases List.append_eq_append_iff.1 h with ⟨t, hd, ht⟩ | ⟨t, hc, ht⟩
  · cases t with
    | nil => exact Or.inl (by simpa using hd.symm)
    | cons e t =>
        obtain ⟨rfl, ht⟩ := List.cons.inj ht
        exact Or.inr ⟨t, by simp [hd]⟩
  · cases t with
    | nil => exact Or.inl (by simpa using hc)
    | cons e t =>
        obtain ⟨-, hds'⟩ := List.cons.inj ht
        exact absurd (hds' ▸ List.mem_append_right t List.mem_cons_self) hds

/-- The stem and the numeral of a name. -/
theorem append_sep_inj {c d ds es : List α} (h : c ++ sep :: ds = d ++ sep :: es)
    (hds : sep ∉ ds) (hes : sep ∉ es) : c = d ∧ ds = es := by
  have hcd : c = d := by
    rcases prefix_of_append_sep h hes with hcd | hcd
    · exact hcd
    · rcases prefix_of_append_sep h.symm hds with hdc | hdc
      · exact hdc.symm
      · have h1 := hcd.length_le
        have h2 := hdc.length_le
        simp only [List.length_append, List.length_singleton] at h1 h2
        omega
  subst hcd
  exact ⟨rfl, (List.cons.inj (List.append_cancel_left h)).2⟩

end Glob

end Afterlock
