import Mathlib

/-!
# Programs over a mutable state that may stop

A program of type `Prog σ ε α` runs from a state and either returns a value or stops with an
exception; the state is kept in both cases, as it is for an imperative program whose `try` block
is left by an exception.

The loop `forEach` is the imperative `for x in xs: changed |= body(x)`, and `untilQuiet` is
`while True: if not pass(): break`.  The rules below say what a loop preserves when it returns
(`forEach_rel`, `untilQuiet_rel`) and what its last, quiet round establishes
(`forEach_quiet`, `untilQuiet_last`).  `Succeeds` is the total form: the program does return.
-/

namespace Afterlock

/-- A program over states `σ` that returns an `α` or stops with an `ε`. -/
def Prog (σ ε α : Type) : Type := σ → Except ε α × σ

namespace Prog

variable {σ ε α β : Type}

instance : Monad (Prog σ ε) where
  pure a := fun s => (.ok a, s)
  bind m f := fun s =>
    match m s with
    | (.ok a, s') => f a s'
    | (.error e, s') => (.error e, s')

instance : LawfulMonad (Prog σ ε) := LawfulMonad.mk' (Prog σ ε)
  (fun m => by
    funext s
    simp only [Functor.map]
    rcases m s with ⟨_ | a, t⟩ <;> rfl)
  (fun _ _ => rfl)
  (fun m f g => by
    funext s
    simp only [bind]
    rcases m s with ⟨_ | a, t⟩ <;> rfl)

/-- The current state. -/
def getState : Prog σ ε σ := fun s => (.ok s, s)

/-- Replace the state by its image. -/
def update (f : σ → σ) : Prog σ ε Unit := fun s => (.ok (), f s)

/-- Stop with an exception. -/
def stop (e : ε) : Prog σ ε α := fun s => (.error e, s)

/-- `m` started in `s` returns `a` and leaves `s'`. -/
def Returns (m : Prog σ ε α) (s : σ) (a : α) (s' : σ) : Prop := m s = (.ok a, s')

@[simp] lemma returns_pure {a b : α} {s s' : σ} :
    (pure a : Prog σ ε α).Returns s b s' ↔ b = a ∧ s' = s := by
  simp only [Returns, pure, Prod.mk.injEq, Except.ok.injEq]
  exact ⟨fun h => ⟨h.1.symm, h.2.symm⟩, fun h => ⟨h.1.symm, h.2.symm⟩⟩

@[simp] lemma returns_bind {m : Prog σ ε α} {f : α → Prog σ ε β} {s s' : σ} {b : β} :
    (m >>= f).Returns s b s' ↔ ∃ a t, m.Returns s a t ∧ (f a).Returns t b s' := by
  simp only [Returns, bind]
  rcases m s with ⟨_ | a, t⟩
  · simp
  · constructor
    · exact fun h => ⟨a, t, rfl, h⟩
    · rintro ⟨a', t', h, h'⟩
      cases h
      exact h'

@[simp] lemma returns_getState {s s' t : σ} :
    (getState : Prog σ ε σ).Returns s t s' ↔ t = s ∧ s' = s := by
  simp only [Returns, getState, Prod.mk.injEq, Except.ok.injEq]
  exact ⟨fun h => ⟨h.1.symm, h.2.symm⟩, fun h => ⟨h.1.symm, h.2.symm⟩⟩

@[simp] lemma returns_update {f : σ → σ} {s s' : σ} {u : Unit} :
    (update f : Prog σ ε Unit).Returns s u s' ↔ s' = f s := by
  simp only [Returns, update, Prod.mk.injEq, true_and]
  exact eq_comm

lemma returns_getState_bind {f : σ → Prog σ ε β} {s s' : σ} {b : β} :
    (getState >>= f).Returns s b s' ↔ (f s).Returns s b s' := by
  simp only [returns_bind, returns_getState]
  constructor
  · rintro ⟨_, _, ⟨rfl, rfl⟩, h⟩
    exact h
  · exact fun h => ⟨s, s, ⟨rfl, rfl⟩, h⟩

lemma returns_update_bind {g : σ → σ} {f : Unit → Prog σ ε β} {s s' : σ} {b : β} :
    (update g >>= f).Returns s b s' ↔ (f ()).Returns (g s) b s' := by
  simp only [returns_bind, returns_update]
  constructor
  · rintro ⟨_, _, rfl, h⟩
    exact h
  · exact fun h => ⟨(), g s, rfl, h⟩

@[simp] lemma returns_stop {e : ε} {s s' : σ} {a : α} :
    (stop e : Prog σ ε α).Returns s a s' ↔ False := by
  simp [Returns, stop]

@[simp] lemma returns_ite {c : Prop} [Decidable c] {m n : Prog σ ε α} {s s' : σ} {a : α} :
    (if c then m else n).Returns s a s' ↔
      (c ∧ m.Returns s a s') ∨ (¬c ∧ n.Returns s a s') := by
  by_cases h : c <;> simp [h]

lemma Returns.unique {m : Prog σ ε α} {s t t' : σ} {a a' : α} (h : m.Returns s a t)
    (h' : m.Returns s a' t') : a = a' ∧ t = t' := by
  simp only [Returns] at h h'
  rw [h] at h'
  simpa using h'

/-- A program in sequence with another one stops where one of the two stops. -/
lemma bind_stops_iff {m : Prog σ ε α} {f : α → Prog σ ε β} {s t : σ} {e : ε} :
    (m >>= f) s = (.error e, t) ↔
      m s = (.error e, t) ∨ ∃ a u, m.Returns s a u ∧ f a u = (.error e, t) := by
  simp only [Returns, bind]
  rcases m s with ⟨_ | a, u⟩
  · simp
  · constructor
    · exact fun h => Or.inr ⟨a, u, rfl, h⟩
    · rintro (h | ⟨a', u', h, h'⟩)
      · cases h
      · cases h
        exact h'

/-! ### What a program never changes -/

/-- `m` leaves `f` of the state as it is, also when it stops. -/
def Keeps (f : σ → β) (m : Prog σ ε α) : Prop := ∀ s, f (m s).2 = f s

section

variable {γ : Type} {f : σ → γ}

lemma keeps_pure (a : α) : (pure a : Prog σ ε α).Keeps f := fun _ => rfl

lemma keeps_getState : (getState : Prog σ ε σ).Keeps f := fun _ => rfl

lemma keeps_stop (e : ε) : (stop e : Prog σ ε α).Keeps f := fun _ => rfl

lemma keeps_update {g : σ → σ} (h : ∀ s, f (g s) = f s) : (update g : Prog σ ε Unit).Keeps f := h

lemma keeps_bind {m : Prog σ ε α} {k : α → Prog σ ε β} (hm : m.Keeps f) (hk : ∀ a, (k a).Keeps f) :
    (m >>= k).Keeps f := by
  intro s
  have hs := hm s
  simp only [bind]
  rcases hms : m s with ⟨_ | a, t⟩
  · rw [hms] at hs
    exact hs
  · rw [hms] at hs
    exact (hk a t).trans hs

lemma keeps_ite {c : Prop} [Decidable c] {m n : Prog σ ε α} (hm : m.Keeps f) (hn : n.Keeps f) :
    (if c then m else n).Keeps f := by
  split_ifs
  · exact hm
  · exact hn

end

/-! ### Stopping -/

/-- Whenever `m` stops, it is with an exception that satisfies `E`. -/
def StopsOnly (E : ε → Prop) (m : Prog σ ε α) : Prop :=
  ∀ s e s', m s = (.error e, s') → E e

lemma stopsOnly_pure {E : ε → Prop} (a : α) : (pure a : Prog σ ε α).StopsOnly E := by
  intro s e s' h
  simp [pure] at h

lemma stopsOnly_bind {E : ε → Prop} {m : Prog σ ε α} {f : α → Prog σ ε β} (hm : m.StopsOnly E)
    (hf : ∀ a, (f a).StopsOnly E) : (m >>= f).StopsOnly E := by
  intro s e s' h
  simp only [bind] at h
  rcases hms : m s with ⟨_ | a, t⟩
  · rw [hms] at h
    simp only [Prod.mk.injEq, Except.error.injEq] at h
    exact h.1 ▸ hm s _ t hms
  · rw [hms] at h
    exact hf a t e s' h

lemma stopsOnly_getState {E : ε → Prop} : (getState : Prog σ ε σ).StopsOnly E := by
  intro s e s' h
  simp [getState] at h

lemma stopsOnly_update {E : ε → Prop} (f : σ → σ) : (update f : Prog σ ε Unit).StopsOnly E := by
  intro s e s' h
  simp [update] at h

lemma stopsOnly_stop {E : ε → Prop} {e : ε} (h : E e) : (stop e : Prog σ ε α).StopsOnly E := by
  intro s e' s' h'
  simp only [stop, Prod.mk.injEq, Except.error.injEq] at h'
  exact h'.1 ▸ h

/-! ### Loops -/

/-- `for x in xs: changed |= body(x)`. -/
def forEach : List α → (α → Prog σ ε Bool) → Prog σ ε Bool
  | [], _ => pure false
  | x :: xs, body => do
      let changed ← body x
      let changed' ← forEach xs body
      pure (changed || changed')

@[simp] lemma forEach_nil {body : α → Prog σ ε Bool} : forEach [] body = pure false := rfl

lemma returns_forEach_cons {x : α} {xs : List α} {body : α → Prog σ ε Bool} {s s' : σ} {b : Bool} :
    (forEach (x :: xs) body).Returns s b s' ↔
      ∃ c t, (body x).Returns s c t ∧ ∃ c', (forEach xs body).Returns t c' s' ∧ b = (c || c') := by
  simp only [forEach, returns_bind, returns_pure]
  constructor
  · rintro ⟨c, t, h, c', t', h', rfl, rfl⟩
    exact ⟨c, t, h, c', h', rfl⟩
  · rintro ⟨c, t, h, c', h', rfl⟩
    exact ⟨c, t, h, c', s', h', rfl, rfl⟩

/-- A reflexive and transitive relation that every turn of the loop respects relates the states
before and after the loop.  The condition `P` under which a turn respects it must be kept along
the relation. -/
lemma forEach_rel {R : σ → σ → Prop} (hrefl : ∀ s, R s s)
    (htrans : ∀ {s t u}, R s t → R t u → R s u) {P : σ → Prop}
    (hP : ∀ {s t}, P s → R s t → P t) {xs : List α} {body : α → Prog σ ε Bool}
    (hbody : ∀ x ∈ xs, ∀ {s b t}, P s → (body x).Returns s b t → R s t) {s s' : σ} {b : Bool}
    (hs : P s) (h : (forEach xs body).Returns s b s') : R s s' := by
  induction xs generalizing s b with
  | nil =>
      obtain ⟨-, rfl⟩ := returns_pure.1 h
      exact hrefl s'
  | cons x xs ih =>
      obtain ⟨c, t, hx, c', hrest, -⟩ := returns_forEach_cons.1 h
      have hst := hbody x List.mem_cons_self hs hx
      exact htrans hst (ih (fun y hy => hbody y (List.mem_cons_of_mem _ hy)) (hP hs hst) hrest)

/-- What a loop that changed nothing establishes: if each turn that reports no change keeps the
state up to `R` and establishes `G x`, then after the loop `G x` holds for every `x`. -/
lemma forEach_quiet {R : σ → σ → Prop} (hrefl : ∀ s, R s s)
    (htrans : ∀ {s t u}, R s t → R t u → R s u) {P : σ → Prop}
    (hP : ∀ {s t}, P s → R s t → P t) {G : α → σ → Prop}
    (hG : ∀ {x s t}, G x s → R s t → G x t) {xs : List α} {body : α → Prog σ ε Bool}
    (hbody : ∀ x ∈ xs, ∀ {s t}, P s → (body x).Returns s false t → R s t ∧ G x t) {s s' : σ}
    (hs : P s) (h : (forEach xs body).Returns s false s') : R s s' ∧ ∀ x ∈ xs, G x s' := by
  induction xs generalizing s with
  | nil =>
      obtain ⟨-, rfl⟩ := returns_pure.1 h
      exact ⟨hrefl s', by simp⟩
  | cons x xs ih =>
      obtain ⟨c, t, hx, c', hrest, hc⟩ := returns_forEach_cons.1 h
      obtain ⟨rfl, rfl⟩ : c = false ∧ c' = false := Bool.or_eq_false_iff.1 hc.symm
      obtain ⟨hst, hgx⟩ := hbody x List.mem_cons_self hs hx
      obtain ⟨htu, hrest'⟩ :=
        ih (fun y hy => hbody y (List.mem_cons_of_mem _ hy)) (hP hs hst) hrest
      refine ⟨htrans hst htu, fun y hy => ?_⟩
      rcases List.mem_cons.1 hy with rfl | hy
      · exact hG hgx htu
      · exact hrest' y hy

/-- A measure that no turn lowers, and that every turn reporting a change raises, is raised by a
loop that reports a change. -/
lemma forEach_measure {μ : σ → ℕ} {xs : List α} {body : α → Prog σ ε Bool}
    (hbody : ∀ x ∈ xs, ∀ {s b t}, (body x).Returns s b t →
      μ s ≤ μ t ∧ (b = true → μ s < μ t)) {s s' : σ} {b : Bool}
    (h : (forEach xs body).Returns s b s') : μ s ≤ μ s' ∧ (b = true → μ s < μ s') := by
  induction xs generalizing s b with
  | nil =>
      obtain ⟨rfl, rfl⟩ := returns_pure.1 h
      simp
  | cons x xs ih =>
      obtain ⟨c, t, hx, c', hrest, rfl⟩ := returns_forEach_cons.1 h
      have h1 := hbody x List.mem_cons_self hx
      have h2 := ih (fun y hy => hbody y (List.mem_cons_of_mem _ hy)) hrest
      refine ⟨h1.1.trans h2.1, fun hb => ?_⟩
      rcases Bool.or_eq_true_iff.1 hb with hc | hc
      · exact lt_of_lt_of_le (h1.2 hc) h2.1
      · exact lt_of_le_of_lt h1.1 (h2.2 hc)

lemma stopsOnly_forEach {E : ε → Prop} {xs : List α} {body : α → Prog σ ε Bool}
    (hbody : ∀ x ∈ xs, (body x).StopsOnly E) : (forEach xs body).StopsOnly E := by
  induction xs with
  | nil => exact stopsOnly_pure false
  | cons x xs ih =>
      refine stopsOnly_bind (hbody x List.mem_cons_self) fun c => ?_
      refine stopsOnly_bind (ih fun y hy => hbody y (List.mem_cons_of_mem _ hy)) fun c' => ?_
      exact stopsOnly_pure _

lemma keeps_forEach {γ : Type} {f : σ → γ} {xs : List α} {body : α → Prog σ ε Bool}
    (hbody : ∀ x ∈ xs, (body x).Keeps f) : (forEach xs body).Keeps f := by
  induction xs with
  | nil => exact keeps_pure false
  | cons x xs ih =>
      refine keeps_bind (hbody x List.mem_cons_self) fun c => ?_
      exact keeps_bind (ih fun y hy => hbody y (List.mem_cons_of_mem _ hy)) fun c' => keeps_pure _

/-- `while True: if not pass(): break`, for at most `fuel` rounds; `out` is raised when the rounds
are used up. -/
def untilQuiet (out : ε) (pass : Prog σ ε Bool) : ℕ → Prog σ ε Unit
  | 0 => stop out
  | fuel + 1 => do
      let changed ← pass
      if changed then untilQuiet out pass fuel else pure ()

lemma returns_untilQuiet_succ {out : ε} {pass : Prog σ ε Bool} {fuel : ℕ} {s s' : σ} {u : Unit} :
    (untilQuiet out pass (fuel + 1)).Returns s u s' ↔
      pass.Returns s false s' ∨
        ∃ t, pass.Returns s true t ∧ (untilQuiet out pass fuel).Returns t u s' := by
  simp only [untilQuiet, returns_bind, returns_ite, returns_pure]
  constructor
  · rintro ⟨c, t, hp, ⟨rfl, h⟩ | ⟨hc, -, rfl⟩⟩
    · exact Or.inr ⟨t, hp, h⟩
    · rw [Bool.not_eq_true] at hc
      exact Or.inl (hc ▸ hp)
  · rintro (h | ⟨t, hp, h⟩)
    · exact ⟨false, s', h, Or.inr ⟨by simp, by simp, rfl⟩⟩
    · exact ⟨true, t, hp, Or.inl ⟨rfl, h⟩⟩

lemma keeps_untilQuiet {γ : Type} {f : σ → γ} {out : ε} {pass : Prog σ ε Bool}
    (hpass : pass.Keeps f) (fuel : ℕ) : (untilQuiet out pass fuel).Keeps f := by
  induction fuel with
  | zero => exact keeps_stop out
  | succ fuel ih => exact keeps_bind hpass fun c => keeps_ite ih (keeps_pure ())

/-- The states before and after the loop are related by what every round respects. -/
lemma untilQuiet_rel {R : σ → σ → Prop} (htrans : ∀ {s t u}, R s t → R t u → R s u)
    {P : σ → Prop} (hP : ∀ {s t}, P s → R s t → P t) {out : ε} {pass : Prog σ ε Bool}
    (hpass : ∀ {s b t}, P s → pass.Returns s b t → R s t) {fuel : ℕ} {s s' : σ} {u : Unit}
    (hs : P s) (h : (untilQuiet out pass fuel).Returns s u s') : R s s' := by
  induction fuel generalizing s with
  | zero => exact (returns_stop.1 h).elim
  | succ fuel ih =>
      rcases returns_untilQuiet_succ.1 h with h | ⟨t, hp, h⟩
      · exact hpass hs h
      · exact htrans (hpass hs hp) (ih (hP hs (hpass hs hp)) h)

/-- When the loop returns, its last round was quiet. -/
lemma untilQuiet_last {R : σ → σ → Prop} (hrefl : ∀ s, R s s)
    (htrans : ∀ {s t u}, R s t → R t u → R s u) {P : σ → Prop}
    (hP : ∀ {s t}, P s → R s t → P t) {out : ε} {pass : Prog σ ε Bool}
    (hpass : ∀ {s b t}, P s → pass.Returns s b t → R s t) {fuel : ℕ} {s s' : σ} {u : Unit}
    (hs : P s) (h : (untilQuiet out pass fuel).Returns s u s') :
    ∃ t, R s t ∧ P t ∧ pass.Returns t false s' := by
  induction fuel generalizing s with
  | zero => exact (returns_stop.1 h).elim
  | succ fuel ih =>
      rcases returns_untilQuiet_succ.1 h with h | ⟨t, hp, h⟩
      · exact ⟨s, hrefl s, hs, h⟩
      · obtain ⟨t', ht, hPt, hlast⟩ := ih (hP hs (hpass hs hp)) h
        exact ⟨t', htrans (hpass hs hp) ht, hPt, hlast⟩

/-- If every round that reports a change raises a measure that a round never takes past `N`, then
more than `N - μ s` rounds are enough: the loop stops only where a round stops. -/
lemma untilQuiet_fuel {E : ε → Prop} {out : ε} {pass : Prog σ ε Bool} {μ : σ → ℕ} {N : ℕ}
    (hstop : pass.StopsOnly E) (hμ : ∀ {s t}, pass.Returns s true t → μ s < μ t ∧ μ t ≤ N)
    {fuel : ℕ} {s s' : σ} {e : ε} (hfuel : N - μ s < fuel)
    (h : untilQuiet out pass fuel s = (.error e, s')) : E e := by
  induction fuel generalizing s with
  | zero => omega
  | succ fuel ih =>
      simp only [untilQuiet, bind] at h
      rcases hp : pass s with ⟨_ | c, t⟩
      · rw [hp] at h
        simp only [Prod.mk.injEq, Except.error.injEq] at h
        exact h.1 ▸ hstop s _ t hp
      · rw [hp] at h
        cases c with
        | false => simp [pure] at h
        | true =>
            have hlt := hμ hp
            exact ih (by omega) h

/-! ### Programs that return -/

/-- `m` started in `s` returns, in a state that satisfies `Q`. -/
def Succeeds (m : Prog σ ε α) (s : σ) (Q : σ → Prop) : Prop := ∃ a t, m.Returns s a t ∧ Q t

section

variable {P Q : σ → Prop} {s : σ}

lemma Succeeds.mono {m : Prog σ ε α} (h : m.Succeeds s P) (hPQ : ∀ t, P t → Q t) :
    m.Succeeds s Q := by
  obtain ⟨a, t, hr, ht⟩ := h
  exact ⟨a, t, hr, hPQ t ht⟩

lemma succeeds_pure {a : α} (h : Q s) : (pure a : Prog σ ε α).Succeeds s Q :=
  ⟨a, s, returns_pure.2 ⟨rfl, rfl⟩, h⟩

lemma succeeds_update {g : σ → σ} (h : Q (g s)) : (update g : Prog σ ε Unit).Succeeds s Q :=
  ⟨(), g s, returns_update.2 rfl, h⟩

lemma succeeds_getState_bind {f : σ → Prog σ ε β} :
    (getState >>= f).Succeeds s Q ↔ (f s).Succeeds s Q := by
  simp only [Succeeds, returns_getState_bind]

lemma succeeds_update_bind {g : σ → σ} {f : Unit → Prog σ ε β} :
    (update g >>= f).Succeeds s Q ↔ (f ()).Succeeds (g s) Q := by
  simp only [Succeeds, returns_update_bind]

lemma Succeeds.bind {m : Prog σ ε α} {f : α → Prog σ ε β} (hm : m.Succeeds s P)
    (hf : ∀ a t, P t → (f a).Succeeds t Q) : (m >>= f).Succeeds s Q := by
  obtain ⟨a, t, hr, ht⟩ := hm
  obtain ⟨b, u, hr', hu⟩ := hf a t ht
  exact ⟨b, u, returns_bind.2 ⟨a, t, hr, hr'⟩, hu⟩

lemma succeeds_ite {c : Prop} [Decidable c] {m n : Prog σ ε α} (hm : c → m.Succeeds s Q)
    (hn : ¬c → n.Succeeds s Q) : (if c then m else n).Succeeds s Q := by
  split_ifs with h
  · exact hm h
  · exact hn h

/-- A loop succeeds if every turn does and keeps an invariant. -/
lemma succeeds_forEach {xs : List α} {body : α → Prog σ ε Bool}
    (hbody : ∀ x ∈ xs, ∀ t, P t → (body x).Succeeds t P) (hs : P s) :
    (forEach xs body).Succeeds s P := by
  induction xs generalizing s with
  | nil => exact succeeds_pure hs
  | cons x xs ih =>
      refine (hbody x List.mem_cons_self s hs).bind fun c t ht => ?_
      refine (ih (fun y hy => hbody y (List.mem_cons_of_mem _ hy)) ht).bind fun c' u hu => ?_
      exact succeeds_pure hu

/-- A loop until nothing changes succeeds if every round does and keeps an invariant, and the rounds
are not used up. -/
lemma succeeds_untilQuiet {out : ε} {pass : Prog σ ε Bool}
    (hpass : ∀ t, P t → pass.Succeeds t P) {fuel : ℕ} (hs : P s)
    (hout : ∀ t, untilQuiet out pass fuel s ≠ (.error out, t)) :
    (untilQuiet out pass fuel).Succeeds s P := by
  induction fuel generalizing s with
  | zero => exact absurd rfl (hout s)
  | succ fuel ih =>
      obtain ⟨c, t, hr, ht⟩ := hpass s hs
      refine ⟨(), ?_⟩
      cases c with
      | false => exact ⟨t, returns_untilQuiet_succ.2 (.inl hr), ht⟩
      | true =>
          have hrest : ∀ u, untilQuiet out pass fuel t ≠ (.error out, u) := by
            intro u hu
            refine hout u ?_
            rw [untilQuiet, bind_stops_iff]
            exact .inr ⟨true, t, hr, hu⟩
          obtain ⟨_, u, hu, hP⟩ := ih ht hrest
          exact ⟨u, returns_untilQuiet_succ.2 (.inr ⟨t, hr, hu⟩), hP⟩

end

/-! ### A scratch state -/

/-- Run `m` with `f` applied to the state, and put back with `g` what the caller keeps, also when
`m` stops. -/
def withScratch (enter : σ → σ) (leave : σ → σ → σ) (m : Prog σ ε α) : Prog σ ε α :=
  fun s => ((m (enter s)).1, leave s (m (enter s)).2)

lemma returns_withScratch {enter : σ → σ} {leave : σ → σ → σ} {m : Prog σ ε α} {s s' : σ} {a : α} :
    (withScratch enter leave m).Returns s a s' ↔
      ∃ t, m.Returns (enter s) a t ∧ s' = leave s t := by
  simp only [Returns, withScratch, Prod.mk.injEq]
  constructor
  · rintro ⟨h, rfl⟩
    exact ⟨(m (enter s)).2, by rw [← h], rfl⟩
  · rintro ⟨t, h, rfl⟩
    simp [h]

lemma succeeds_withScratch {enter : σ → σ} {leave : σ → σ → σ} {m : Prog σ ε α} {s : σ}
    {Q : σ → Prop} (h : m.Succeeds (enter s) fun t => Q (leave s t)) :
    (withScratch enter leave m).Succeeds s Q := by
  obtain ⟨a, t, hr, ht⟩ := h
  exact ⟨a, leave s t, returns_withScratch.2 ⟨t, hr, rfl⟩, ht⟩

/-! ### Two runs side by side -/

/-- `m` from `s` and `m'` from `s'` return the same, or stop with the same exception, and leave
states that `R` relates. -/
def Alike (R : σ → σ → Prop) (m m' : Prog σ ε α) (s s' : σ) : Prop :=
  (m s).1 = (m' s').1 ∧ R (m s).2 (m' s').2

section

variable {R : σ → σ → Prop} {s s' : σ}

lemma alike_pure {a : α} (h : R s s') : Alike R (pure a : Prog σ ε α) (pure a) s s' := ⟨rfl, h⟩

lemma alike_stop {e : ε} (h : R s s') : Alike R (stop e : Prog σ ε α) (stop e) s s' := ⟨rfl, h⟩

lemma alike_update {g g' : σ → σ} (h : R (g s) (g' s')) :
    Alike R (update g : Prog σ ε Unit) (update g') s s' := ⟨rfl, h⟩

lemma alike_getState_bind {f f' : σ → Prog σ ε β} (h : Alike R (f s) (f' s') s s') :
    Alike R (getState >>= f) (getState >>= f') s s' := h

lemma alike_update_bind {g g' : σ → σ} {f f' : Unit → Prog σ ε β}
    (h : Alike R (f ()) (f' ()) (g s) (g' s')) :
    Alike R (update g >>= f) (update g' >>= f') s s' := h

lemma Alike.bind {m m' : Prog σ ε α} {f f' : α → Prog σ ε β} (hm : Alike R m m' s s')
    (hf : ∀ a t t', R t t' → Alike R (f a) (f' a) t t') : Alike R (m >>= f) (m' >>= f') s s' := by
  obtain ⟨hr, ht⟩ := hm
  simp only [Alike, Bind.bind]
  rcases hms : m s with ⟨_ | a, t⟩ <;> rcases hms' : m' s' with ⟨_ | a', t'⟩ <;>
    rw [hms, hms'] at hr ht <;> simp only [reduceCtorEq, Except.ok.injEq, Except.error.injEq] at hr
  · exact ⟨congrArg Except.error hr, ht⟩
  · subst hr
    exact hf a t t' ht

lemma alike_ite {c c' : Prop} [Decidable c] [Decidable c'] {m n m' n' : Prog σ ε α} (hc : c ↔ c')
    (hm : c → Alike R m m' s s') (hn : ¬c → Alike R n n' s s') :
    Alike R (if c then m else n) (if c' then m' else n') s s' := by
  by_cases h : c
  · rw [if_pos h, if_pos (hc.1 h)]
    exact hm h
  · rw [if_neg h, if_neg fun h' => h (hc.2 h')]
    exact hn h

/-- A loop runs alike over a list with further entries, if their turns do nothing. -/
lemma alike_forEach {xs xs' : List α} {keep : α → Bool} {body body' : α → Prog σ ε Bool}
    (hxs : xs'.filter keep = xs)
    (hbody : ∀ x ∈ xs, ∀ t t', R t t' → Alike R (body x) (body' x) t t')
    (hskip : ∀ x ∈ xs', keep x = false → ∀ t t', R t t' → Alike R (pure false) (body' x) t t')
    (h : R s s') : Alike R (forEach xs body) (forEach xs' body') s s' := by
  induction xs' generalizing xs s s' with
  | nil =>
      subst hxs
      exact alike_pure h
  | cons x xs' ih =>
      have hrest := fun y hy => hskip y (List.mem_cons_of_mem _ hy)
      cases hk : keep x with
      | true =>
          rw [List.filter_cons_of_pos hk] at hxs
          subst hxs
          refine (hbody x List.mem_cons_self s s' h).bind fun a t t' ht => ?_
          refine (ih rfl (fun y hy => hbody y (List.mem_cons_of_mem _ hy)) hrest ht).bind
            fun b u u' hu => alike_pure hu
      | false =>
          rw [List.filter_cons_of_neg (by simp [hk])] at hxs
          subst hxs
          have hthis : Alike R (pure false >>= fun a => Prog.forEach (xs'.filter keep) body >>=
              fun b => pure (a || b)) (forEach (x :: xs') body') s s' :=
            (hskip x List.mem_cons_self hk s s' h).bind fun a t t' ht =>
              (ih rfl hbody hrest ht).bind fun b u u' hu => alike_pure hu
          rw [pure_bind] at hthis
          simpa using hthis

lemma alike_untilQuiet {out : ε} {pass pass' : Prog σ ε Bool}
    (hpass : ∀ t t', R t t' → Alike R pass pass' t t') (fuel : ℕ) (h : R s s') :
    Alike R (untilQuiet out pass fuel) (untilQuiet out pass' fuel) s s' := by
  induction fuel generalizing s s' with
  | zero => exact alike_stop h
  | succ fuel ih =>
      exact (hpass s s' h).bind fun c t t' ht =>
        alike_ite Iff.rfl (fun _ => ih ht) fun _ => alike_pure ht

lemma alike_withScratch {P : σ → σ → Prop} {enter enter' : σ → σ} {leave leave' : σ → σ → σ}
    {m m' : Prog σ ε α} (hm : Alike P m m' (enter s) (enter' s'))
    (hleave : ∀ t t', P t t' → R (leave s t) (leave' s' t')) :
    Alike R (withScratch enter leave m) (withScratch enter' leave' m') s s' :=
  ⟨hm.1, hleave _ _ hm.2⟩

end

end Prog

end Afterlock
