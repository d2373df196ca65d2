import Afterlock.Lib.Prog

/-!
# Gathering until nothing is new

A loop reads a list of sources over and over and adds what they give to a set, until a whole round
adds nothing.  What a source gives may depend on what was gathered before, and a source may fail.

If a source that is read later gives at least what it gave before, then what is gathered is the
least set that the sources close (`mem_gather_iff`), in whatever order they are listed, and the loop
fails only where a source fails on things that are gathered (`gather_eq_none_iff`).  More rounds
than there are things to be gathered are enough.
-/

namespace Afterlock

namespace Gather

open Prog

variable {α β : Type}

/-- Why the loop stops without a result. -/
inductive Halt where
  /-- A source failed. -/
  | failed
  /-- The rounds are used up. -/
  | spent
deriving DecidableEq

/-- The result of reading a source. -/
def orFail {σ : Type} : Option α → Prog σ Halt α
  | some a => pure a
  | none => stop .failed

section

variable [DecidableEq β]

/-- Add `b`, and tell whether it is new. -/
def add (b : β) : Prog (List β) Halt Bool := do
  if b ∈ (← getState) then pure false
  else
    update (b :: ·)
    pure true

/-- Add all that a source gives. -/
def turn (gives : α → List β → Option (List β)) (x : α) : Prog (List β) Halt Bool := do
  forEach (← orFail (gives x (← getState))) add

/-- Read the sources, for at most `fuel` rounds, until a round adds nothing. -/
def gather (gives : α → List β → Option (List β)) (xs : List α) (fuel : ℕ) : Option (List β) :=
  match untilQuiet .spent (forEach xs (turn gives)) fuel [] with
  | (.ok _, seen) => some seen
  | (.error _, _) => none

end

/-- What the sources give in the end: the least set that contains what a source gives where it is
read with things of the set. -/
inductive Gathered (gives : α → List β → Option (List β)) (xs : List α) : β → Prop where
  | given {x : α} {seen bs : List β} {b : β} (hseen : ∀ c ∈ seen, Gathered gives xs c)
      (hx : x ∈ xs) (h : gives x seen = some bs) (hb : b ∈ bs) : Gathered gives xs b

/-- A source that is read later fails if it failed before, and gives what it gave before. -/
structure Growing (gives : α → List β → Option (List β)) : Prop where
  fails : ∀ {x seen seen'}, seen ⊆ seen' → gives x seen = none → gives x seen' = none
  grows : ∀ {x seen seen' bs bs'}, seen ⊆ seen' → gives x seen = some bs →
    gives x seen' = some bs' → bs ⊆ bs'

variable {gives : α → List β → Option (List β)} {xs xs' : List α}

/-- More sources give more. -/
lemma Gathered.mono (h : xs ⊆ xs') {b : β} (hb : Gathered gives xs b) : Gathered gives xs' b := by
  induction hb with
  | given _ hx hg hb ih => exact .given ih (h hx) hg hb

/-- The set is contained in every set that the sources close. -/
lemma Gathered.mem (hg : Growing gives) {s : List β}
    (hs : ∀ x ∈ xs, ∃ bs, gives x s = some bs ∧ bs ⊆ s) {b : β} (hb : Gathered gives xs b) :
    b ∈ s := by
  induction hb with
  | given _ hx h hb ih =>
      obtain ⟨bs, hbs, hsub⟩ := hs _ hx
      exact hsub (hg.grows ih h hbs hb)

/-! ### One turn -/

/-- A turn keeps what was gathered, and adds only what the set contains. -/
def Grown (gives : α → List β → Option (List β)) (xs : List α) (s t : List β) : Prop :=
  s ⊆ t ∧ ((∀ b ∈ s, Gathered gives xs b) → ∀ b ∈ t, Gathered gives xs b)

lemma grown_refl (s : List β) : Grown gives xs s s := ⟨List.Subset.refl s, id⟩

lemma Grown.trans {s t u : List β} (h : Grown gives xs s t) (h' : Grown gives xs t u) :
    Grown gives xs s u :=
  ⟨fun _ hb => h'.1 (h.1 hb), fun hs => h'.2 (h.2 hs)⟩

section

variable [DecidableEq β]

lemma returns_add {b : β} {s t : List β} {c : Bool} :
    (add b).Returns s c t ↔ (b ∈ s ∧ c = false ∧ t = s) ∨ (b ∉ s ∧ c = true ∧ t = b :: s) := by
  rw [add, returns_getState_bind, returns_ite, returns_update_bind, returns_pure, returns_pure]

/-- Adding a list leaves a state with the list and what was there; it is the same state if nothing
is new. -/
lemma returns_forEach_add {bs s t : List β} {c : Bool} (h : (forEach bs add).Returns s c t) :
    (∀ b, b ∈ t ↔ b ∈ s ∨ b ∈ bs) ∧ (c = false → t = s ∧ bs ⊆ s) ∧
      (c = true → ∃ b ∈ bs, b ∉ s) := by
  induction bs generalizing s c with
  | nil =>
      obtain ⟨rfl, rfl⟩ := returns_pure.1 h
      simp
  | cons b bs ih =>
      obtain ⟨c', u, hb, c'', hrest, rfl⟩ := returns_forEach_cons.1 h
      obtain ⟨hmem, hquiet, hnew⟩ := ih hrest
      obtain ⟨hbs, rfl, rfl⟩ | ⟨hbs, rfl, rfl⟩ := returns_add.1 hb
      · refine ⟨fun d => ?_, fun hc => ?_, fun hc => ?_⟩
        · rw [hmem, List.mem_cons]
          constructor
          · exact Or.imp_right .inr
          · rintro (hd | rfl | hd)
            · exact .inl hd
            · exact .inl hbs
            · exact .inr hd
        · obtain ⟨rfl, hsub⟩ := hquiet hc
          exact ⟨rfl, List.cons_subset.2 ⟨hbs, hsub⟩⟩
        · obtain ⟨d, hd, hds⟩ := hnew hc
          exact ⟨d, List.mem_cons_of_mem _ hd, hds⟩
      · refine ⟨fun d => ?_, by simp, fun _ => ⟨b, List.mem_cons_self, hbs⟩⟩
        rw [hmem, List.mem_cons, List.mem_cons]
        tauto

lemma succeeds_adds (bs s : List β) : (forEach bs add).Succeeds s fun _ => True := by
  refine succeeds_forEach (fun b _ t _ => ?_) trivial
  refine succeeds_getState_bind.2 (succeeds_ite (fun _ => succeeds_pure trivial) fun _ => ?_)
  exact succeeds_update_bind.2 (succeeds_pure trivial)

lemma returns_orFail {σ : Type} {o : Option α} {s t : σ} {a : α} :
    (orFail o).Returns s a t ↔ o = some a ∧ t = s := by
  cases o <;> simp [orFail, eq_comm]

lemma returns_turn {x : α} {s t : List β} {c : Bool} :
    (turn gives x).Returns s c t ↔ ∃ bs, gives x s = some bs ∧ (forEach bs add).Returns s c t := by
  rw [turn, returns_getState_bind, returns_bind]
  constructor
  · rintro ⟨bs, _, hbs, h⟩
    obtain ⟨hbs, rfl⟩ := returns_orFail.1 hbs
    exact ⟨bs, hbs, h⟩
  · rintro ⟨bs, hbs, h⟩
    exact ⟨bs, s, returns_orFail.2 ⟨hbs, rfl⟩, h⟩

lemma grown_turn {x : α} (hx : x ∈ xs) {s t : List β} {c : Bool}
    (h : (turn gives x).Returns s c t) : Grown gives xs s t := by
  obtain ⟨bs, hbs, h⟩ := returns_turn.1 h
  have hmem := (returns_forEach_add h).1
  refine ⟨fun b hb => (hmem b).2 (.inl hb), fun hs b hb => ?_⟩
  rcases (hmem b).1 hb with hb | hb
  · exact hs b hb
  · exact .given hs hx hbs hb

lemma grown_round {s t : List β} {c : Bool} (h : (forEach xs (turn gives)).Returns s c t) :
    Grown gives xs s t :=
  forEach_rel (P := fun _ => True) grown_refl Grown.trans (fun _ _ => trivial)
    (fun _ hx _ _ _ _ h => grown_turn hx h) trivial h

/-- After a quiet round, no source gives anything new. -/
lemma closed_of_quiet {s t : List β} (h : (forEach xs (turn gives)).Returns s false t) :
    s = t ∧ ∀ x ∈ xs, ∃ bs, gives x t = some bs ∧ bs ⊆ t := by
  refine forEach_quiet (R := Eq) (P := fun _ => True)
    (G := fun x s => ∃ bs, gives x s = some bs ∧ bs ⊆ s) (fun _ => rfl) Eq.trans
    (fun _ _ => trivial) (fun hG h => h ▸ hG) (fun x _ s t _ h => ?_) trivial h
  obtain ⟨bs, hbs, h⟩ := returns_turn.1 h
  obtain ⟨rfl, hsub⟩ := (returns_forEach_add h).2.1 rfl
  exact ⟨rfl, bs, hbs, hsub⟩

/-! ### The number of rounds -/

/-- How many of the things that can be gathered have been. -/
def found (all s : List β) : ℕ := (all.filter (· ∈ s)).length

lemma found_le (all s : List β) : found all s ≤ all.length := List.length_filter_le ..

lemma found_mono {all s t : List β} (h : s ⊆ t) : found all s ≤ found all t :=
  (List.monotone_filter_right all fun b hb => by simpa using h (by simpa using hb)).length_le

lemma found_lt {all s t : List β} (h : s ⊆ t) {b : β} (hb : b ∈ all) (hs : b ∉ s) (ht : b ∈ t) :
    found all s < found all t := by
  refine lt_of_le_of_ne (found_mono h) fun heq => ?_
  have hsub : (all.filter (· ∈ s)).Sublist (all.filter (· ∈ t)) :=
    List.monotone_filter_right all fun b hb => by simpa using h (by simpa using hb)
  have hmem : b ∈ all.filter (· ∈ s) := by
    rw [hsub.eq_of_length heq]
    exact List.mem_filter.2 ⟨hb, by simpa using ht⟩
  exact hs (by simpa using (List.mem_filter.1 hmem).2)

lemma found_round {all : List β} (hall : ∀ x ∈ xs, ∀ s bs, gives x s = some bs → bs ⊆ all)
    {s t : List β} {c : Bool} (h : (forEach xs (turn gives)).Returns s c t) :
    found all s ≤ found all t ∧ (c = true → found all s < found all t) := by
  refine forEach_measure (fun x hx s c t h => ?_) h
  obtain ⟨bs, hbs, h⟩ := returns_turn.1 h
  obtain ⟨hmem, -, hnew⟩ := returns_forEach_add h
  have hsub : s ⊆ t := fun b hb => (hmem b).2 (.inl hb)
  refine ⟨found_mono hsub, fun hc => ?_⟩
  obtain ⟨b, hb, hbs'⟩ := hnew hc
  exact found_lt hsub (hall x hx s bs hbs hb) hbs' ((hmem b).2 (.inr hb))

lemma stopsOnly_turn (x : α) : (turn gives x).StopsOnly (· = .failed) := by
  refine stopsOnly_bind stopsOnly_getState fun s => stopsOnly_bind ?_ fun bs => ?_
  · cases gives x s with
    | none => exact stopsOnly_stop rfl
    | some bs => exact stopsOnly_pure bs
  · refine stopsOnly_forEach fun b _ => stopsOnly_bind stopsOnly_getState fun t => ?_
    split_ifs
    · exact stopsOnly_pure false
    · exact stopsOnly_bind (stopsOnly_update _) fun _ => stopsOnly_pure true

/-- The rounds are not used up. -/
lemma not_spent {all : List β} (hall : ∀ x ∈ xs, ∀ s bs, gives x s = some bs → bs ⊆ all)
    {fuel : ℕ} (hfuel : all.length < fuel) (t : List β) :
    untilQuiet .spent (forEach xs (turn gives)) fuel [] ≠ (.error .spent, t) := by
  intro h
  have hfailed : Halt.spent = .failed :=
    untilQuiet_fuel (μ := found all) (N := all.length)
      (stopsOnly_forEach fun x _ => stopsOnly_turn x)
      (fun h => ⟨(found_round hall h).2 rfl, found_le all _⟩) (by omega) h
  cases hfailed

/-! ### The loop -/

lemma gather_eq_some_iff {fuel : ℕ} {seen : List β} :
    gather gives xs fuel = some seen ↔
      (untilQuiet .spent (forEach xs (turn gives)) fuel).Returns [] () seen := by
  unfold gather Returns
  generalize untilQuiet .spent (forEach xs (turn gives)) fuel = loop
  obtain ⟨_ | _, s⟩ := loop []
  · simp
  · simp

/-- When the loop returns, the sources give nothing that was not gathered. -/
lemma closed_of_gather {fuel : ℕ} {seen : List β} (h : gather gives xs fuel = some seen) :
    ∀ x ∈ xs, ∃ bs, gives x seen = some bs ∧ bs ⊆ seen := by
  obtain ⟨_, -, -, hlast⟩ :=
    untilQuiet_last (R := Grown gives xs) (P := fun _ => True) grown_refl Grown.trans
      (fun _ _ => trivial) (fun _ h => grown_round h) trivial (gather_eq_some_iff.1 h)
  exact (closed_of_quiet hlast).2

/-- The loop gathers the least set that the sources close. -/
theorem mem_gather_iff (hg : Growing gives) {fuel : ℕ} {seen : List β}
    (h : gather gives xs fuel = some seen) {b : β} : b ∈ seen ↔ Gathered gives xs b := by
  constructor
  · have hgrown := untilQuiet_rel (R := Grown gives xs) (P := fun _ => True) Grown.trans
      (fun _ _ => trivial) (fun _ h => grown_round h) trivial (gather_eq_some_iff.1 h)
    exact hgrown.2 (by simp) b
  · exact Gathered.mem hg (closed_of_gather h)

/-- Sources that give the same, one by one, gather the same. -/
lemma gather_congr {γ : Type} {view : α → γ} (hview : ∀ x y, view x = view y → gives x = gives y)
    (h : xs.map view = xs'.map view) (fuel : ℕ) : gather gives xs fuel = gather gives xs' fuel := by
  have hround : forEach xs (turn gives) = forEach xs' (turn gives) := by
    induction xs generalizing xs' with
    | nil =>
        rw [List.map_nil, eq_comm, List.map_eq_nil_iff] at h
        rw [h]
    | cons x xs ih =>
        obtain ⟨y, ys, rfl, hy, hys⟩ := List.map_eq_cons_iff.1 h.symm
        have hturn : turn gives x = turn gives y := by
          rw [turn, turn, hview x y hy.symm]
        rw [forEach, forEach, hturn, ih hys.symm]
  rw [gather, gather, hround]

/-- The loop fails exactly if a source fails on things that are gathered. -/
theorem gather_eq_none_iff (hg : Growing gives) {all : List β}
    (hall : ∀ x ∈ xs, ∀ s bs, gives x s = some bs → bs ⊆ all) {fuel : ℕ}
    (hfuel : all.length < fuel) :
    gather gives xs fuel = none ↔
      ∃ x ∈ xs, ∃ seen, (∀ b ∈ seen, Gathered gives xs b) ∧ gives x seen = none := by
  constructor
  · contrapose!
    intro hok
    have hpass : ∀ s, (∀ b ∈ s, Gathered gives xs b) →
        (forEach xs (turn gives)).Succeeds s fun t => ∀ b ∈ t, Gathered gives xs b := by
      refine fun s hs => succeeds_forEach (fun x hx t ht => ?_) hs
      obtain ⟨bs, hbs⟩ := Option.ne_none_iff_exists'.1 (hok x hx t ht)
      obtain ⟨c, u, hu, -⟩ := succeeds_adds bs t
      have hturn : (turn gives x).Returns t c u := returns_turn.2 ⟨bs, hbs, hu⟩
      exact ⟨c, u, hturn, (grown_turn hx hturn).2 ht⟩
    obtain ⟨_, seen, h, -⟩ := succeeds_untilQuiet hpass (by simp) (not_spent hall hfuel)
    exact fun hnone => absurd (gather_eq_some_iff.2 h) (by simp [hnone])
  · rintro ⟨x, hx, seen, hseen, hfail⟩
    by_contra hne
    obtain ⟨s, hs⟩ := Option.ne_none_iff_exists'.1 hne
    obtain ⟨bs, hbs, -⟩ := closed_of_gather hs x hx
    have hsub : seen ⊆ s := fun b hb => (mem_gather_iff hg hs).2 (hseen b hb)
    rw [hg.fails hsub hfail] at hbs
    cases hbs

end

end Gather

end Afterlock
