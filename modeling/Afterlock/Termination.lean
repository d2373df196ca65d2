import Afterlock.Transitions

/-!
# The closure terminates

The loop of the source has no bound on its rounds.  A round that changes something uses up a
derivation and the cap is passed when none is left, so the bound that the model's loop has is
never reached: a run stops at the cap on derivations only (`closure_stopsOnly`).
-/

namespace Afterlock

open Prog

namespace Engine

/-- A program that stops only at the cap, uses up a derivation where it reports a change that `e`
does not say has happened before, and none beyond the cap. -/
structure Capped (ctx : Ctx) (e : Bool) (m : EngineM Bool) : Prop where
  stops : m.StopsOnly (· = .boundsExceeded)
  mono : ∀ {s b t}, m.Returns s b t → s.count ≤ t.count
  spends : ∀ {s b t}, m.Returns s b t → b = true → e = true ∨ s.count < t.count
  within : ∀ {s b t}, m.Returns s b t → s.count < t.count →
    (t.count : ℤ) ≤ ctx.inp.bounds.maxDerivations

/-- A program that stops only at the cap and uses up no derivation. -/
structure Free {α : Type} (m : EngineM α) : Prop where
  stops : m.StopsOnly (· = .boundsExceeded)
  count : ∀ {s a t}, m.Returns s a t → t.count = s.count

variable {ctx : Ctx} {i : ℤ} {e : Bool}

/-! ### How the pieces compose -/

lemma capped_pure {b : Bool} (h : b = true → e = true) : Capped ctx e (pure b) where
  stops := stopsOnly_pure _
  mono hr := by rw [(returns_pure.1 hr).2]
  spends hr hb := by
    obtain ⟨rfl, -⟩ := returns_pure.1 hr
    exact Or.inl (h hb)
  within hr hlt := by
    obtain ⟨-, rfl⟩ := returns_pure.1 hr
    exact absurd hlt (lt_irrefl _)

lemma capped_false : Capped ctx e (pure false) := capped_pure fun h => by cases h

lemma free_pure {α : Type} (a : α) : Free (pure a : EngineM α) :=
  ⟨stopsOnly_pure _, fun h => by rw [(returns_pure.1 h).2]⟩

lemma free_getState : Free (getState : EngineM ViewState) :=
  ⟨stopsOnly_getState, fun h => by rw [(returns_getState.1 h).2]⟩

lemma free_update {f : ViewState → ViewState} (h : ∀ s, (f s).count = s.count) :
    Free (update f : EngineM Unit) :=
  ⟨stopsOnly_update _, fun {s _ _} hr => by rw [returns_update.1 hr, h s]⟩

lemma Free.bind {α β : Type} {m : EngineM α} {f : α → EngineM β} (hm : Free m)
    (hf : ∀ a, Free (f a)) : Free (m >>= f) where
  stops := stopsOnly_bind hm.stops fun a => (hf a).stops
  count h := by
    obtain ⟨a, u, h₁, h₂⟩ := returns_bind.1 h
    exact ((hf a).count h₂).trans (hm.count h₁)

lemma Free.capped {α : Type} {m : EngineM α} {f : α → EngineM Bool} (hm : Free m)
    (hf : ∀ a, Capped ctx e (f a)) : Capped ctx e (m >>= f) where
  stops := stopsOnly_bind hm.stops fun a => (hf a).stops
  mono h := by
    obtain ⟨a, u, h₁, h₂⟩ := returns_bind.1 h
    exact hm.count h₁ ▸ (hf a).mono h₂
  spends h := by
    obtain ⟨a, u, h₁, h₂⟩ := returns_bind.1 h
    exact hm.count h₁ ▸ (hf a).spends h₂
  within h := by
    obtain ⟨a, u, h₁, h₂⟩ := returns_bind.1 h
    exact hm.count h₁ ▸ (hf a).within h₂

lemma Capped.ite {c : Prop} [Decidable c] {m n : EngineM Bool} (hm : Capped ctx e m)
    (hn : Capped ctx e n) : Capped ctx e (if c then m else n) := by
  split_ifs
  · exact hm
  · exact hn

/-- What follows a program may report the change that it has reported. -/
lemma Capped.bind {m : EngineM Bool} {f : Bool → EngineM Bool} (hm : Capped ctx false m)
    (hf : ∀ b, Capped ctx (e || b) (f b)) : Capped ctx e (m >>= f) where
  stops := stopsOnly_bind hm.stops fun b => (hf b).stops
  mono h := by
    obtain ⟨b, u, h₁, h₂⟩ := returns_bind.1 h
    exact (hm.mono h₁).trans ((hf b).mono h₂)
  spends h hc := by
    obtain ⟨b, u, h₁, h₂⟩ := returns_bind.1 h
    rcases (hf b).spends h₂ hc with hb | hlt
    · refine (Bool.or_eq_true_iff.1 hb).imp id fun hb => ?_
      have hlt := (hm.spends h₁ hb).resolve_left (by simp)
      exact lt_of_lt_of_le hlt ((hf b).mono h₂)
    · exact Or.inr (lt_of_le_of_lt (hm.mono h₁) hlt)
  within h hlt := by
    obtain ⟨b, u, h₁, h₂⟩ := returns_bind.1 h
    rcases ((hf b).mono h₂).lt_or_eq with hlt' | heq
    · exact (hf b).within h₂ hlt'
    · rw [← heq] at hlt ⊢
      exact hm.within h₁ hlt

lemma capped_or {m n : EngineM Bool} (hm : Capped ctx false m) (hn : Capped ctx false n) :
    Capped ctx e (do let a ← m; let b ← n; pure (a || b)) :=
  hm.bind fun a => hn.bind fun b => capped_pure fun h => by simp_all [Bool.or_assoc]

lemma capped_forEach {α : Type} {xs : List α} {body : α → EngineM Bool}
    (h : ∀ x ∈ xs, Capped ctx false (body x)) : Capped ctx false (forEach xs body) := by
  induction xs with
  | nil => exact capped_false
  | cons x xs ih =>
      exact capped_or (h x List.mem_cons_self) (ih fun y hy => h y (List.mem_cons_of_mem _ hy))

/-! ### The pieces of a round -/

lemma stopsOnly_tick : (tick ctx).StopsOnly (· = .boundsExceeded) := by
  refine stopsOnly_bind (stopsOnly_update _) fun _ => stopsOnly_bind stopsOnly_getState fun s => ?_
  split_ifs
  · exact stopsOnly_stop rfl
  · exact stopsOnly_pure _

/-- What is done at the cost of one derivation. -/
lemma capped_tick {f : ViewState → ViewState} (h : ∀ s, (f s).count = s.count) :
    Capped ctx e (do tick ctx; update f; pure true) := by
  have hret : ∀ {s b t}, Prog.Returns (do tick ctx; update f; pure true : EngineM Bool) s b t →
      t.count = s.count + 1 ∧ (s.count : ℤ) + 1 ≤ ctx.inp.bounds.maxDerivations := by
    intro s b t hr
    simp only [returns_bind, returns_tick, returns_update, returns_pure] at hr
    obtain ⟨_, _, ⟨hle, rfl⟩, _, _, rfl, rfl, rfl⟩ := hr
    exact ⟨h _, hle⟩
  refine ⟨stopsOnly_bind stopsOnly_tick fun _ =>
    stopsOnly_bind (stopsOnly_update _) fun _ => stopsOnly_pure _, fun hr => ?_, fun hr _ => ?_,
    fun hr _ => ?_⟩
  · rw [(hret hr).1]
    exact Nat.le_succ _
  · rw [(hret hr).1]
    exact Or.inr (Nat.lt_succ_self _)
  · rw [(hret hr).1]
    exact_mod_cast (hret hr).2

lemma capped_add (d : Derivation) : Capped ctx e (add ctx d) := by
  refine free_getState.capped fun s => Capped.ite ?_ ?_ <;>
  exact Capped.ite capped_false (capped_tick fun _ => rfl)

lemma free_recordUnknown (u : UnknownEntry) : Free (recordUnknown u) := by
  refine free_update fun s => ?_
  split_ifs <;> rfl

lemma free_usable (cred : CredentialSpec) : Free (usable ctx cred) := by
  refine free_getState.bind fun s => ?_
  dsimp only
  split_ifs
  · exact (free_recordUnknown _).bind fun _ => free_pure _
  · exact free_pure _
  · exact free_pure _

lemma capped_controllerPods : Capped ctx false (controllerPods ctx i) :=
  free_getState.capped fun _ => capped_forEach fun _ _ => free_getState.capped fun _ =>
    capped_forEach fun _ _ => Capped.ite (capped_add _) capped_false

lemma capped_obtainToken (pod : Pod) (sa : ServiceAccount) (aud : String) :
    Capped ctx false (obtainToken ctx i pod sa aud) := by
  refine free_getState.capped fun s => Capped.ite capped_false ?_
  refine (free_update ?_).capped fun _ => capped_tick ?_
  · exact fun _ => rfl
  · exact fun _ => rfl

lemma capped_projectedTokens : Capped ctx false (projectedTokens ctx i) := by
  refine free_getState.capped fun s => capped_forEach fun u _ => free_getState.capped fun s => ?_
  split
  · exact capped_false
  · split
    · exact capped_false
    · exact capped_forEach fun aud _ => capped_obtainToken _ _ aud

lemma capped_createWorkload (cid : String) (ucond : Condition) (user ns : String)
    (via : List String) (kind : WorkloadKind) (sa : String) :
    Capped ctx false (createWorkload ctx i cid ucond user ns via kind sa) := by
  refine free_getState.capped fun s => Capped.ite capped_false ?_
  dsimp only
  split
  · exact (free_recordUnknown _).capped fun _ => capped_false
  · exact capped_false
  · cases kind with
    | pod =>
        refine Capped.ite capped_false ((free_update ?_).capped fun _ => capped_add _)
        exact fun _ => rfl
    | controller =>
        refine Capped.ite capped_false ((free_update ?_).capped fun _ => capped_add _)
        exact fun _ => rfl

lemma capped_createWorkloads (cid : String) (ucond : Condition) (user ns : String)
    (kind : WorkloadKind) : Capped ctx false (createWorkloads ctx i cid ucond user ns kind) :=
  free_getState.capped fun _ => Capped.ite capped_false <|
    capped_forEach fun sa _ => capped_createWorkload cid ucond user ns _ kind sa

lemma capped_execPod (cid : String) (ucond : Condition) (user : String) (p : Pod) :
    Capped ctx false (execPod ctx i cid ucond user p) :=
  free_getState.capped fun _ => Capped.ite capped_false (capped_add _)

lemma capped_readSecret (cid : String) (ucond : Condition) (user : String) (sec : Secret) :
    Capped ctx false (readSecret ctx i cid ucond user sec) := by
  refine free_getState.capped fun s => ?_
  split
  · exact capped_false
  · exact capped_or (capped_add _) (capped_add _)

lemma capped_credentialRequests (cid : String) :
    Capped ctx false (credentialRequests ctx i cid) := by
  refine free_getState.capped fun s => ?_
  split
  · exact capped_false
  refine (free_usable _).capped fun r => ?_
  split
  · exact capped_false
  refine Capped.bind (capped_forEach fun ns _ => capped_or (capped_createWorkloads _ _ _ _ _)
    (capped_createWorkloads _ _ _ _ _)) fun a => free_getState.capped fun s => ?_
  refine Capped.bind (capped_forEach fun p _ => capped_execPod _ _ _ p) fun b =>
    free_getState.capped fun s => ?_
  refine Capped.bind (capped_forEach fun x _ => capped_readSecret _ _ _ x) fun c =>
    capped_pure fun h => ?_
  simpa using h

lemma capped_apiRequests : Capped ctx false (apiRequests ctx i) :=
  free_getState.capped fun _ => capped_forEach fun _ _ => capped_credentialRequests _

lemma capped_downstreamCredentials : Capped ctx false (downstreamCredentials ctx i) :=
  free_getState.capped fun _ => capped_forEach fun _ _ => free_getState.capped fun _ =>
    capped_forEach fun _ _ => capped_add _

lemma capped_downstreamUse : Capped ctx false (downstreamUse ctx i) := by
  refine free_getState.capped fun s => capped_forEach fun k _ => free_getState.capped fun s => ?_
  split
  · exact Capped.ite (capped_add _) capped_false
  · exact capped_false

lemma capped_pass : Capped ctx false (pass ctx i) := by
  refine capped_controllerPods.bind fun a => capped_projectedTokens.bind fun b => ?_
  refine capped_apiRequests.bind fun c => capped_downstreamCredentials.bind fun d => ?_
  refine capped_downstreamUse.bind fun f => capped_pure fun h => ?_
  simpa using h

/-! ### Closures -/

/-- A closure stops at the cap on derivations and for no other reason. -/
theorem closure_stopsOnly : (closure ctx i).StopsOnly (· = .boundsExceeded) := by
  intro s e t h
  rw [closure, bind_stops_iff] at h
  rcases h with h | ⟨_, u, hu, h⟩
  · exact absurd h (by simp [update])
  obtain rfl := returns_update.1 hu
  rw [bind_stops_iff] at h
  rcases h with h | ⟨_, v, hv, h⟩
  · exact absurd h (by simp [getState])
  obtain ⟨rfl, rfl⟩ := returns_getState.1 hv
  have hpass := @capped_pass ctx i
  refine untilQuiet_fuel (μ := ViewState.count) (N := ctx.inp.bounds.maxDerivations.toNat)
    hpass.stops (fun {s t} hr => ?_) (Nat.lt_succ_self _) h
  have hlt : s.count < t.count := (hpass.spends hr rfl).resolve_left (by simp)
  have hle := hpass.within hr hlt
  exact ⟨hlt, by omega⟩

end Engine

end Afterlock
