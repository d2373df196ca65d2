import Afterlock.Results
import Afterlock.Run
import Afterlock.Termination

/-!
# The engine's own run

`After k` is the state in which the engine's run is after interval `k`: a state of the run of the
view in which no step is left, up to the final goals and the interval records (`After.during`).
A run that is complete has come through all intervals (`runView_completed`); one that the cap has
stopped keeps the final goals of the last interval it completed (`runView_stopped`).
-/

namespace Afterlock

open Prog

namespace Engine

variable {inp : AnalysisInput} {view : View} {ctx : Ctx}

/-! ### Closures leave the records alone -/

/-- The final goals and the interval records. -/
def records (s : ViewState) : Table Derivation.fact × List IntervalRecord :=
  (s.goalsFinal, s.intervals)

lemma keeps_tick : (tick ctx).Keeps records := by
  refine keeps_bind (keeps_update fun _ => rfl) fun _ => keeps_bind keeps_getState fun s => ?_
  exact keeps_ite (keeps_stop _) (keeps_pure _)

lemma keeps_recordUnknown (u : UnknownEntry) : (recordUnknown u).Keeps records := by
  refine keeps_update fun s => ?_
  split_ifs <;> rfl

lemma keeps_usable (cred : CredentialSpec) : (usable ctx cred).Keeps records := by
  refine keeps_bind keeps_getState fun s => keeps_ite ?_ (keeps_ite (keeps_pure _) (keeps_pure _))
  exact keeps_bind (keeps_recordUnknown _) fun _ => keeps_pure _

lemma keeps_add (d : Derivation) : (add ctx d).Keeps records := by
  refine keeps_bind keeps_getState fun s => keeps_ite ?_ ?_ <;>
  · refine keeps_ite (keeps_pure _) (keeps_bind keeps_tick fun _ => ?_)
    exact keeps_bind (keeps_update fun _ => rfl) fun _ => keeps_pure _

lemma keeps_controllerPods (i : ℤ) : (controllerPods ctx i).Keeps records := by
  refine keeps_bind keeps_getState fun s => keeps_forEach fun c _ => ?_
  refine keeps_bind keeps_getState fun s => keeps_forEach fun p _ => ?_
  exact keeps_ite (keeps_add _) (keeps_pure _)

lemma keeps_obtainToken (i : ℤ) (pod : Pod) (sa : ServiceAccount) (aud : String) :
    (obtainToken ctx i pod sa aud).Keeps records := by
  refine keeps_bind keeps_getState fun s => keeps_ite (keeps_pure _) ?_
  refine keeps_bind (keeps_update fun _ => rfl) fun _ => keeps_bind keeps_tick fun _ => ?_
  exact keeps_bind (keeps_update fun _ => rfl) fun _ => keeps_pure _

lemma keeps_projectedTokens (i : ℤ) : (projectedTokens ctx i).Keeps records := by
  refine keeps_bind keeps_getState fun s => keeps_forEach fun u _ => ?_
  refine keeps_bind keeps_getState fun s => ?_
  split
  · exact keeps_pure _
  · split
    · exact keeps_pure _
    · exact keeps_forEach fun aud _ => keeps_obtainToken i _ _ aud

lemma keeps_createWorkload (i : ℤ) (cid : String) (ucond : Condition) (user ns : String)
    (via : List String) (kind : WorkloadKind) (sa : String) :
    (createWorkload ctx i cid ucond user ns via kind sa).Keeps records := by
  refine keeps_bind keeps_getState fun s => keeps_ite (keeps_pure _) ?_
  dsimp only
  split
  · exact keeps_bind (keeps_recordUnknown _) fun _ => keeps_pure _
  · exact keeps_pure _
  · cases kind with
    | pod => exact keeps_ite (keeps_pure _) (keeps_bind (keeps_update fun _ => rfl) fun _ => keeps_add _)
    | controller =>
        exact keeps_ite (keeps_pure _) (keeps_bind (keeps_update fun _ => rfl) fun _ => keeps_add _)

lemma keeps_createWorkloads (i : ℤ) (cid : String) (ucond : Condition) (user ns : String)
    (kind : WorkloadKind) : (createWorkloads ctx i cid ucond user ns kind).Keeps records := by
  refine keeps_bind keeps_getState fun s => keeps_ite (keeps_pure _) ?_
  exact keeps_forEach fun sa _ => keeps_createWorkload i cid ucond user ns _ kind sa

lemma keeps_execPod (i : ℤ) (cid : String) (ucond : Condition) (user : String) (p : Pod) :
    (execPod ctx i cid ucond user p).Keeps records := by
  refine keeps_bind keeps_getState fun s => ?_
  exact keeps_ite (keeps_pure _) (keeps_add _)

lemma keeps_readSecret (i : ℤ) (cid : String) (ucond : Condition) (user : String) (sec : Secret) :
    (readSecret ctx i cid ucond user sec).Keeps records := by
  refine keeps_bind keeps_getState fun s => ?_
  split
  · exact keeps_pure _
  · exact keeps_bind (keeps_add _) fun _ => keeps_bind (keeps_add _) fun _ => keeps_pure _

lemma keeps_credentialRequests (i : ℤ) (cid : String) :
    (credentialRequests ctx i cid).Keeps records := by
  refine keeps_bind keeps_getState fun s => ?_
  split
  · exact keeps_pure _
  refine keeps_bind (keeps_usable _) fun r => ?_
  split
  · exact keeps_pure _
  refine keeps_bind (keeps_forEach fun ns _ => ?_) fun _ => keeps_bind keeps_getState fun s => ?_
  · exact keeps_bind (keeps_createWorkloads _ _ _ _ _ _) fun _ =>
      keeps_bind (keeps_createWorkloads _ _ _ _ _ _) fun _ => keeps_pure _
  refine keeps_bind (keeps_forEach fun p _ => keeps_execPod _ _ _ _ p) fun _ =>
    keeps_bind keeps_getState fun s => ?_
  exact keeps_bind (keeps_forEach fun x _ => keeps_readSecret _ _ _ _ x) fun _ => keeps_pure _

lemma keeps_pass (i : ℤ) : (pass ctx i).Keeps records := by
  refine keeps_bind (keeps_controllerPods i) fun _ => keeps_bind (keeps_projectedTokens i) fun _ => ?_
  refine keeps_bind (keeps_bind keeps_getState fun s =>
    keeps_forEach fun c _ => keeps_credentialRequests i c) fun _ => ?_
  refine keeps_bind ?_ fun _ => keeps_bind ?_ fun _ => keeps_pure _
  · refine keeps_bind keeps_getState fun s => keeps_forEach fun k _ => ?_
    exact keeps_bind keeps_getState fun s => keeps_forEach fun svc _ => keeps_add _
  · refine keeps_bind keeps_getState fun s => keeps_forEach fun k _ => ?_
    refine keeps_bind keeps_getState fun s => ?_
    split
    · exact keeps_ite (keeps_add _) (keeps_pure _)
    · exact keeps_pure _

/-- A closure leaves the final goals and the interval records alone, also when it is stopped. -/
lemma keeps_closure (i : ℤ) : (closure ctx i).Keeps records := by
  refine keeps_bind (keeps_update fun _ => rfl) fun _ => keeps_bind keeps_getState fun s => ?_
  exact keeps_untilQuiet (keeps_pass i) _

/-! ### Intervals -/

/-- `t` is the state in which interval `k` is completed from the end `s` of its closure. -/
structure Closes (k : ℤ) (s t : ViewState) : Prop where
  same : t = { s with goalsFinal := s.eph, intervals := t.intervals }
  record : ∃ r : IntervalRecord, t.intervals = s.intervals ++ [r] ∧ r.index = k ∧
    ∀ f, f ∈ r.goals ↔ s.eph.contains f = true

lemma returns_interval {k : ℤ} {label : Option String} {notes reconciled : List String}
    {s t : ViewState} {u : Unit} (h : (interval ctx k label notes reconciled).Returns s u t) :
    ∃ t', (closure ctx k).Returns s () t' ∧ Closes k t' t := by
  simp only [interval, returns_bind, returns_update] at h
  obtain ⟨_, t', hc, rfl⟩ := h
  refine ⟨t', hc, rfl, ⟨_, rfl, rfl, fun f => ?_⟩⟩
  simp [Table.contains_iff, Table.mem_def]

lemma interval_stops_iff {k : ℤ} {label : Option String} {notes reconciled : List String}
    {s t : ViewState} {e : Stop} :
    interval ctx k label notes reconciled s = (.error e, t) ↔ closure ctx k s = (.error e, t) := by
  rw [interval, bind_stops_iff]
  refine ⟨fun h => ?_, Or.inl⟩
  rcases h with h | ⟨_, _, _, h⟩
  · exact h
  · cases h

/-- The interval after a defender action, which is interval `k + 1`. -/
def nextInterval (ctx : Ctx) (k : ℕ) (a : DefenderAction) : EngineM Unit := do
  let (notes, reconciled) ← defenderStep a
  interval ctx ((k : ℤ) + 1) (some a.label) notes reconciled

lemma laterIntervals_cons (k : ℕ) (a : DefenderAction) (rest : List DefenderAction) :
    laterIntervals ctx k (a :: rest) =
      nextInterval ctx k a >>= fun _ => laterIntervals ctx (k + 1) rest := by
  simp only [laterIntervals, nextInterval, bind_assoc]

lemma laterIntervals_append (k : ℕ) (xs ys : List DefenderAction) :
    laterIntervals ctx k (xs ++ ys) =
      laterIntervals ctx k xs >>= fun _ => laterIntervals ctx (k + xs.length) ys := by
  induction xs generalizing k with
  | nil => rfl
  | cons x xs ih =>
      rw [List.cons_append, laterIntervals_cons, laterIntervals_cons, bind_assoc]
      simp only [ih, List.length_cons]
      rw [Nat.add_right_comm, Nat.add_assoc]

lemma runActions_append (xs ys : List DefenderAction) :
    runActions ctx (xs ++ ys) = runActions ctx xs >>= fun _ => laterIntervals ctx xs.length ys := by
  simp only [runActions, laterIntervals_append, bind_assoc, Nat.zero_add]

/-- The state in which the closure of the interval after a defender action begins. -/
def defended (s : ViewState) (a : DefenderAction) : ViewState :=
  { s with env := Afterlock.defend s.env a }

lemma returns_nextInterval {k : ℕ} {a : DefenderAction} {s t : ViewState}
    (h : (nextInterval ctx k a).Returns s () t) :
    ∃ t', (closure ctx ((k : ℤ) + 1)).Returns (defended s a) () t' ∧ Closes ((k : ℤ) + 1) t' t := by
  simp only [nextInterval, defenderStep, bind_assoc, returns_getState_bind, returns_update_bind,
    pure_bind] at h
  exact returns_interval h

lemma nextInterval_stops {k : ℕ} {a : DefenderAction} {s t : ViewState} {e : Stop}
    (h : nextInterval ctx k a s = (.error e, t)) : records t = records s := by
  have hc : closure ctx ((k : ℤ) + 1) (defended s a) = (.error e, t) := interval_stops_iff.1 h
  have hk := @keeps_closure ctx ((k : ℤ) + 1) (defended s a)
  rw [hc] at hk
  exact hk

/-- The state in which the first closure of the main run begins. -/
def reconciled (s : ViewState) : ViewState :=
  { s with env := (reconcileControllers s.env).1 }

lemma returns_firstInterval {s t : ViewState} (h : (firstInterval ctx).Returns s () t) :
    ∃ t', (closure ctx 0).Returns (reconciled s) () t' ∧ Closes 0 t' t := by
  simp only [firstInterval, returns_getState_bind, returns_update_bind] at h
  exact returns_interval h

/-! ### The possible-history phase -/

lemma returns_possibleHistory {s t : ViewState} (h : (possibleHistory ctx).Returns s () t) :
    (hasHistory ctx = true ∧ ∃ t', (closure { ctx with inHistory := true } historyInterval).Returns
        (enterHistory ctx s) () t' ∧ t = { t' with env := s.env }) ∨
      (hasHistory ctx = false ∧ t = s) := by
  rw [possibleHistory] at h
  rcases returns_ite.1 h with ⟨hh, h⟩ | ⟨hh, h⟩
  · exact Or.inl ⟨hh, returns_withScratch.1 h⟩
  · exact Or.inr ⟨by simpa using hh, (returns_pure.1 h).2⟩

lemma keeps_possibleHistory : (possibleHistory ctx).Keeps records := by
  refine keeps_ite (fun s => ?_) (keeps_pure _)
  exact keeps_closure historyInterval (enterHistory ctx s)

/-! ### After an interval -/

/-- The engine's run completes interval `k` in the state `s`. -/
def After (inp : AnalysisInput) (view : View) (k : ℕ) (s : ViewState) : Prop :=
  k ≤ inp.remediation.length ∧
    (runActions (viewCtx inp view) (inp.remediation.take k)).Returns
      (initialState (viewCtx inp view)) () s

lemma After.unique {k : ℕ} {s t : ViewState} (h : After inp view k s) (h' : After inp view k t) :
    s = t := (Returns.unique h.2 h'.2).2

/-- Interval 0 comes after the possible history. -/
lemma After.zero {s : ViewState} (h : After inp view 0 s) :
    ∃ p, (possibleHistory (viewCtx inp view)).Returns (initialState (viewCtx inp view)) () p ∧
      (firstInterval (viewCtx inp view)).Returns p () s := by
  obtain ⟨-, h⟩ := h
  simp only [runActions, List.take_zero, laterIntervals, returns_bind, returns_pure] at h
  obtain ⟨_, p, hp, _, q, hq, -, rfl⟩ := h
  exact ⟨p, hp, hq⟩

/-- A later interval comes after the one before and a defender action. -/
lemma after_succ_iff {k : ℕ} {t : ViewState} :
    After inp view (k + 1) t ↔ ∃ s a, After inp view k s ∧ inp.remediation[k]? = some a ∧
      (nextInterval (viewCtx inp view) k a).Returns s () t := by
  constructor
  · rintro ⟨hk, h⟩
    have hlt : k < inp.remediation.length := hk
    rw [List.take_succ_eq_append_getElem hlt, runActions_append] at h
    obtain ⟨_, s, hs, h⟩ := returns_bind.1 h
    rw [List.length_take_of_le hlt.le, laterIntervals_cons] at h
    simp only [laterIntervals, returns_bind, returns_pure] at h
    obtain ⟨_, u, hu, -, rfl⟩ := h
    exact ⟨s, _, ⟨hlt.le, hs⟩, List.getElem?_eq_getElem hlt, hu⟩
  · rintro ⟨s, a, ⟨hk, hs⟩, ha, h⟩
    obtain ⟨hlt, rfl⟩ := List.getElem?_eq_some_iff.1 ha
    refine ⟨hlt, ?_⟩
    rw [List.take_succ_eq_append_getElem hlt, runActions_append, returns_bind]
    refine ⟨(), s, hs, ?_⟩
    rw [List.length_take_of_le hlt.le, laterIntervals_cons]
    simp only [laterIntervals, returns_bind, returns_pure]
    exact ⟨(), t, h, trivial, rfl⟩

lemma After.of_le {k : ℕ} {t : ViewState} (h : After inp view k t) {j : ℕ} (hj : j ≤ k) :
    ∃ s, After inp view j s := by
  induction k generalizing t with
  | zero => exact ⟨t, by obtain rfl := Nat.le_zero.1 hj; exact h⟩
  | succ k ih =>
      rcases Nat.le_succ_iff.1 hj with hj | rfl
      · obtain ⟨s, -, hs, -, -⟩ := after_succ_iff.1 h
        exact ih hs hj
      · exact ⟨t, h⟩

/-! ### The phases of the engine's run -/

/-- The engine's run begins the closure of a phase in the state `s`. -/
def Enters (inp : AnalysisInput) (view : View) : Phase → ViewState → Prop
  | .history, s => hasHistory (viewCtx inp view) = true ∧
      s = opening (enterHistory (viewCtx inp view) (initialState (viewCtx inp view)))
  | .interval 0, s => ∃ p, (possibleHistory (viewCtx inp view)).Returns
      (initialState (viewCtx inp view)) () p ∧ s = opening (reconciled p)
  | .interval (k + 1), s => ∃ u a, After inp view k u ∧ inp.remediation[k]? = some a ∧
      s = opening (defended u a)

/-- The engine's run goes through the closure of a phase from `s` to `t`. -/
structure Passes (inp : AnalysisInput) (view : View) (φ : Phase) (s t : ViewState) : Prop where
  enters : Enters inp view φ s
  closure : (closure (phaseCtx inp view φ) φ.index).Returns s () t

/-- A state that a phase of the engine's run may go through: the attacker's steps lead to it from
the beginning of the phase, and from it to the end. -/
def Along (inp : AnalysisInput) (view : View) (φ : Phase) (u : ViewState) : Prop :=
  ∃ s t, Passes inp view φ s t ∧ Steps (phaseCtx inp view φ) φ.index s u ∧
    Steps (phaseCtx inp view φ) φ.index u t

/-- A closure forgets the capabilities first. -/
lemma returns_closure_opening {i : ℤ} {s t : ViewState} :
    (closure ctx i).Returns (opening s) () t ↔ (closure ctx i).Returns s () t := by
  rw [closure, returns_update_bind, returns_update_bind]
  rfl

lemma opening_of_enters {φ : Phase} {s : ViewState} (h : Enters inp view φ s) :
    opening s = s := by
  match φ with
  | .history =>
      obtain ⟨-, rfl⟩ := h
      rfl
  | .interval 0 =>
      obtain ⟨p, -, rfl⟩ := h
      rfl
  | .interval (k + 1) =>
      obtain ⟨u, a, -, -, rfl⟩ := h
      rfl

lemma Passes.steps {φ : Phase} {s t : ViewState} (h : Passes inp view φ s t) :
    Steps (phaseCtx inp view φ) φ.index s t := by
  have := closure_steps (phaseCtx_mode φ) h.closure
  rwa [opening_of_enters h.enters] at this

/-- A phase has one beginning and one end. -/
lemma Passes.unique {φ : Phase} {s t s' t' : ViewState} (h : Passes inp view φ s t)
    (h' : Passes inp view φ s' t') : s = s' ∧ t = t' := by
  obtain rfl : s = s' := by
    match φ, h.enters, h'.enters with
    | .history, ⟨_, hs⟩, ⟨_, hs'⟩ => exact hs.trans hs'.symm
    | .interval 0, ⟨p, hp, hs⟩, ⟨p', hp', hs'⟩ =>
        rw [hs, hs', (Returns.unique hp hp').2]
    | .interval (k + 1), ⟨u, a, hu, ha, hs⟩, ⟨u', a', hu', ha', hs'⟩ =>
        obtain rfl := hu.unique hu'
        obtain rfl := Option.some.inj (ha.symm.trans ha')
        rw [hs, hs']
  exact ⟨rfl, (Returns.unique h.closure h'.closure).2⟩

/-- The state after an interval is the one in which its closure ends. -/
lemma After.passes {k : ℕ} {t : ViewState} (h : After inp view k t) :
    ∃ s t', Passes inp view (.interval k) s t' ∧ Closes k t' t := by
  cases k with
  | zero =>
      obtain ⟨p, hp, hs⟩ := h.zero
      obtain ⟨t', ht', hclose⟩ := returns_firstInterval hs
      exact ⟨_, t', ⟨⟨p, hp, rfl⟩, returns_closure_opening.2 ht'⟩, hclose⟩
  | succ k =>
      obtain ⟨u, a, hu, ha, hs⟩ := after_succ_iff.1 h
      obtain ⟨t', ht', hclose⟩ := returns_nextInterval hs
      exact ⟨_, t', ⟨⟨u, a, hu, ha, rfl⟩, returns_closure_opening.2 ht'⟩, hclose⟩

/-- An interval is completed where its closure ends. -/
lemma Passes.after {k : ℕ} {s t : ViewState} (h : Passes inp view (.interval k) s t) :
    ∃ t', After inp view k t' ∧ Closes k t t' := by
  have hint : ∀ label notes names {u : ViewState},
      (Engine.closure (viewCtx inp view) k).Returns u () t →
        ∃ t', (interval (viewCtx inp view) k label notes names).Returns u () t' := by
    intro label notes names u hu
    simp only [interval, returns_bind, returns_update]
    exact ⟨_, (), t, hu, rfl⟩
  obtain ⟨t', ht'⟩ : ∃ t', After inp view k t' := by
    have hc := h.closure
    cases k with
    | zero =>
        obtain ⟨p, hp, rfl⟩ := h.enters
        obtain ⟨t', ht'⟩ := hint none []
          ((reconcileControllers p.env).2.map Pod.uid) (returns_closure_opening.1 hc)
        refine ⟨t', Nat.zero_le _, ?_⟩
        simp only [runActions, List.take_zero, laterIntervals, returns_bind, returns_pure]
        refine ⟨(), p, hp, (), t', ?_, trivial, rfl⟩
        rw [firstInterval, returns_getState_bind]
        exact returns_update_bind.2 ht'
    | succ k =>
        obtain ⟨u, a, hu, ha, rfl⟩ := h.enters
        obtain ⟨t', ht'⟩ := hint (some a.label) (applyDefenderAction u.env a).2
          ((reconcileControllers (applyDefenderAction u.env a).1).2.map Pod.uid)
          (returns_closure_opening.1 hc)
        refine ⟨t', after_succ_iff.2 ⟨u, a, hu, ha, ?_⟩⟩
        simp only [nextInterval, defenderStep, bind_assoc, returns_getState_bind,
          returns_update_bind, pure_bind]
        exact ht'
  obtain ⟨s', u, hpass, hclose⟩ := ht'.passes
  rw [(h.unique hpass).2]
  exact ⟨t', ht', hclose⟩

/-! ### The engine's run among the runs of the view -/

/-- A closure that begins in a state of the run ends in one in which all rules are applied. -/
lemma Passes.during_of_start (hw : WellFormed inp) {φ : Phase} {s t : ViewState}
    (h : Passes inp view φ s t) (hs : During inp view φ s) :
    During inp view φ t ∧ Done (phaseCtx inp view φ) φ.index t := by
  refine ⟨hs.steps h.steps, closure_done (phaseCtx_mode φ) (fun u hu => ?_) h.closure⟩
  rw [opening_of_enters h.enters] at hu
  exact ((hs.steps hu).aged hw).dated

/-- The main run begins in a state of the run of the view. -/
lemma during_of_possibleHistory {p : ViewState}
    (hp : (possibleHistory (viewCtx inp view)).Returns (initialState (viewCtx inp view)) () p) :
    During inp view (.interval 0) (opening (reconciled p)) := by
  rcases returns_possibleHistory hp with ⟨hh, t, ht, rfl⟩ | ⟨hh, rfl⟩
  · -- the possible history leaves the final goals and the interval records alone
    have hrec := @keeps_closure (phaseCtx inp view .history) historyInterval
      (enterHistory (viewCtx inp view) (initialState (viewCtx inp view)))
    rw [show closure (phaseCtx inp view .history) historyInterval
      (enterHistory (viewCtx inp view) (initialState (viewCtx inp view))) = (.ok (), t) from ht,
      records, Prod.mk.injEq] at hrec
    have := ((During.history hh).steps (closure_steps (phaseCtx_mode .history) ht)).afterHistory
    rw [show (∅ : Table Derivation.fact) = t.goalsFinal from hrec.1.symm,
      show ([] : List IntervalRecord) = t.intervals from hrec.2.symm] at this
    exact this
  · exact During.first hh

/-- What the engine's run does is a run of the view in which each closure leaves no step. -/
theorem Passes.during (hw : WellFormed inp) {φ : Phase} {s t : ViewState}
    (h : Passes inp view φ s t) :
    During inp view φ s ∧ During inp view φ t ∧ Done (phaseCtx inp view φ) φ.index t := by
  suffices hs : During inp view φ s from ⟨hs, h.during_of_start hw hs⟩
  cases φ with
  | history =>
      obtain ⟨hh, rfl⟩ := h.enters
      exact During.history hh
  | interval k =>
      induction k generalizing s t with
      | zero =>
          obtain ⟨p, hp, rfl⟩ := h.enters
          exact during_of_possibleHistory hp
      | succ k ih =>
          obtain ⟨u, a, hu, ha, rfl⟩ := h.enters
          obtain ⟨s', t', hpass, hclose⟩ := hu.passes
          have ht' := (hpass.during_of_start hw (ih hpass)).1
          have := @During.defend _ _ _ t' a u.goalsFinal u.intervals ht' ha
          rw [hclose.same] at this ⊢
          exact this

/-- After interval `k` the run is in a state of the interval in which all rules are applied. -/
theorem After.during (hw : WellFormed inp) {k : ℕ} {s : ViewState} (h : After inp view k s) :
    ∃ t, During inp view (.interval k) t ∧ Done (viewCtx inp view) k t ∧ Closes k t s := by
  obtain ⟨s', t, hpass, hclose⟩ := h.passes
  obtain ⟨-, hd, hdone⟩ := hpass.during hw
  exact ⟨t, hd, hdone, hclose⟩

lemma Along.during (hw : WellFormed inp) {φ : Phase} {u : ViewState} (h : Along inp view φ u) :
    During inp view φ u := by
  obtain ⟨s, t, hpass, hsu, -⟩ := h
  exact (hpass.during hw).1.steps hsu

/-! ### Unknowns of the engine's run -/

/-- What is noted after an interval is noted after the later ones. -/
lemma After.unknowns {j k : ℕ} {s t : ViewState} (hs : After inp view j s) (ht : After inp view k t)
    (hjk : j ≤ k) {u : UnknownEntry} (hu : u ∈ s.unknowns) : u ∈ t.unknowns := by
  induction k generalizing t with
  | zero =>
      obtain rfl := Nat.le_zero.1 hjk
      exact hs.unique ht ▸ hu
  | succ k ih =>
      rcases Nat.le_succ_iff.1 hjk with hjk | rfl
      · obtain ⟨s', t', hpass, hclose⟩ := ht.passes
        obtain ⟨v, a, hv, -, rfl⟩ := hpass.enters
        rw [hclose.same]
        exact hpass.steps.unknowns (show u ∈ v.unknowns from ih hv hjk)
      · exact hs.unique ht ▸ hu

/-- What is noted in a phase is noted at the end of the run. -/
lemma Passes.unknowns {φ : Phase} {s t f : ViewState} (h : Passes inp view φ s t)
    (hf : After inp view inp.remediation.length f) {u : UnknownEntry} (hu : u ∈ t.unknowns) :
    u ∈ f.unknowns := by
  cases φ with
  | history =>
      obtain ⟨s₀, hs₀⟩ := hf.of_le (Nat.zero_le _)
      obtain ⟨s', t', hpass, hclose⟩ := hs₀.passes
      obtain ⟨p, hp, rfl⟩ := hpass.enters
      refine hs₀.unknowns hf (Nat.zero_le _) ?_
      rw [hclose.same]
      refine hpass.steps.unknowns (s := opening (reconciled p)) ?_
      rcases returns_possibleHistory hp with ⟨hh, t'', ht'', rfl⟩ | ⟨hh, -⟩
      · obtain ⟨-, rfl⟩ := h.unique ⟨⟨hh, rfl⟩, returns_closure_opening.2 ht''⟩
        exact hu
      · exact absurd h.enters.1 (by simp [hh])
  | interval k =>
      obtain ⟨t', ht', hclose⟩ := h.after
      refine ht'.unknowns hf ht'.1 ?_
      rw [hclose.same]
      exact hu

/-! ### The outcome of a view -/

lemma runBody_viewCtx : runBody (viewCtx inp view) =
    runActions (viewCtx inp view) (inp.remediation.take inp.remediation.length) := by
  rw [List.take_length, runBody, if_neg (by simp [viewCtx])]
  rfl

/-- A run over the first actions that stops has completed some of their intervals, or none, and
leaves the records of the last one. -/
lemma runActions_stops {k : ℕ} (hk : k ≤ inp.remediation.length) {e : Stop} {t : ViewState}
    (h : runActions (viewCtx inp view) (inp.remediation.take k) (initialState (viewCtx inp view)) =
      (.error e, t)) :
    (¬(∃ s, After inp view 0 s) ∧ records t = (∅, [])) ∨
      ∃ j < k, ∃ s, After inp view j s ∧ ¬(∃ s', After inp view (j + 1) s') ∧
        records t = records s := by
  induction k generalizing e t with
  | zero =>
      -- the run stops in the possible history or in the first interval
      refine Or.inl ⟨?_, ?_⟩
      · rintro ⟨s, -, hs⟩
        rw [Returns, h] at hs
        cases hs
      have hkeep : (runActions (viewCtx inp view) (inp.remediation.take 0)
          (initialState (viewCtx inp view))).2 = t := by rw [h]
      simp only [runActions, List.take_zero, laterIntervals] at h
      rcases bind_stops_iff.1 h with h | ⟨_, p, hp, h⟩
      · have := @keeps_possibleHistory (viewCtx inp view) (initialState (viewCtx inp view))
        rw [h] at this
        exact this
      have hpk := @keeps_possibleHistory (viewCtx inp view) (initialState (viewCtx inp view))
      rw [Returns] at hp
      rw [hp] at hpk
      rcases bind_stops_iff.1 h with h | ⟨_, q, -, h⟩
      · have hc : closure (viewCtx inp view) 0 (reconciled p) = (.error e, t) :=
          interval_stops_iff.1 h
        have := @keeps_closure (viewCtx inp view) 0 (reconciled p)
        rw [hc] at this
        exact this.trans hpk
      · exact absurd h (by simp [pure])
  | succ k ih =>
      rw [List.take_succ_eq_append_getElem hk, runActions_append] at h
      rcases bind_stops_iff.1 h with h | ⟨_, s, hs, h⟩
      -- it stops before the last action, or in the interval after it
      · refine (ih (Nat.le_of_succ_le hk) h).imp id ?_
        rintro ⟨j, hj, rest⟩
        exact ⟨j, Nat.lt_succ_of_lt hj, rest⟩
      · refine Or.inr ⟨k, Nat.lt_succ_self k, s, ⟨Nat.le_of_succ_le hk, hs⟩, ?_, ?_⟩
        · rintro ⟨s', -, hs'⟩
          rw [Returns, List.take_succ_eq_append_getElem hk, runActions_append,
            bind_stops_iff.2 (Or.inr ⟨_, s, hs, h⟩)] at hs'
          cases hs'
        · rw [List.length_take_of_le (Nat.le_of_succ_le hk), laterIntervals_cons] at h
          rcases bind_stops_iff.1 h with h | ⟨_, u, -, h⟩
          · exact nextInterval_stops h
          · exact absurd h (by simp [laterIntervals, pure])

/-- The outcome of a run that comes through all intervals is its last state. -/
lemma runView_of_after {s : ViewState} (h : After inp view inp.remediation.length s) :
    runView inp view .full =
      { view := view
        goalsFinal := s.goalsFinal
        derivations := s.facts
        credentials := s.creds
        intervals := s.intervals
        unknowns := (Text.sortedBy UnknownEntry.key s.unknowns.rows).map UnknownEntry.record
        boundsExceeded := false
        finalEnv := s.env
        derivationCount := s.count } := by
  have hbody : runBody (viewCtx inp view) (initialState (viewCtx inp view)) = (.ok (), s) := by
    rw [runBody_viewCtx]
    exact h.2
  rw [viewCtx] at hbody
  simp only [runView, hbody]

/-- A run that is not stopped comes through all intervals. -/
theorem runView_completed :
    (runView inp view .full).boundsExceeded = false ↔
      ∃ s, After inp view inp.remediation.length s := by
  constructor
  · intro h
    rcases hbody : runBody (viewCtx inp view) (initialState (viewCtx inp view)) with ⟨_ | _, s⟩
    · rw [viewCtx] at hbody
      simp only [runView, hbody] at h
      cases h
    · rw [runBody_viewCtx] at hbody
      exact ⟨s, le_rfl, hbody⟩
  · rintro ⟨s, hs⟩
    rw [runView_of_after hs]

/-- A run that is stopped has come through some intervals, or none, and its final goals are those
of the last one it has completed. -/
theorem runView_stopped (h : (runView inp view .full).boundsExceeded = true) :
    (¬(∃ s, After inp view 0 s) ∧ (runView inp view .full).goalsFinal = ∅) ∨
      ∃ k < inp.remediation.length, ∃ s, After inp view k s ∧
        ¬(∃ s', After inp view (k + 1) s') ∧
        (runView inp view .full).goalsFinal = s.goalsFinal := by
  rcases hbody : runBody (viewCtx inp view) (initialState (viewCtx inp view)) with ⟨_ | _, t⟩
  · have hgoals : (runView inp view .full).goalsFinal = t.goalsFinal := by
      rw [viewCtx] at hbody
      simp only [runView, hbody]
    rw [hgoals]
    rw [runBody_viewCtx] at hbody
    refine (runActions_stops le_rfl hbody).imp ?_ ?_
    · exact fun h => ⟨h.1, congrArg Prod.fst h.2⟩
    · rintro ⟨k, hk, s, hs, hno, hrec⟩
      exact ⟨k, hk, s, hs, hno, congrArg Prod.fst hrec⟩
  · rw [viewCtx] at hbody
    simp only [runView, hbody] at h
    cases h

/-- The final goals after an interval are the capabilities at its end. -/
lemma After.goals (hw : WellFormed inp) {k : ℕ} {s : ViewState} (h : After inp view k s) :
    s.goalsFinal = s.eph := by
  obtain ⟨t, -, -, hclose⟩ := h.during hw
  rw [hclose.same]

/-- A complete run passes through every phase that the view has. -/
lemma passes_of_complete (h : (runView inp view .full).boundsExceeded = false) :
    (hasHistory (viewCtx inp view) = true → ∃ s t, Passes inp view .history s t) ∧
      ∀ k ≤ inp.remediation.length, ∃ s t, Passes inp view (.interval k) s t := by
  obtain ⟨f, hf⟩ := runView_completed.1 h
  constructor
  · intro hh
    obtain ⟨s, hs⟩ := hf.of_le (Nat.zero_le _)
    obtain ⟨p, hp, -⟩ := hs.zero
    rcases returns_possibleHistory hp with ⟨-, t, ht, -⟩ | ⟨hh', -⟩
    · exact ⟨_, t, ⟨hh, rfl⟩, returns_closure_opening.2 ht⟩
    · rw [hh] at hh'
      cases hh'
  · intro k hk
    obtain ⟨s, hs⟩ := hf.of_le hk
    obtain ⟨s', t, hpass, -⟩ := hs.passes
    exact ⟨s', t, hpass⟩

end Engine

end Afterlock
