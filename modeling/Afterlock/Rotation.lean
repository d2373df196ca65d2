import Afterlock.Base

/-!
# Rotation windows

What a service accepts after a sequence of defender actions: its version and those that a rotation
of it has superseded not longer ago than its propagation delay (`rotation_windows`).  Versions only
grow, so that a version which is not accepted any longer is never accepted again.
-/

namespace Afterlock

/-- The environment after some defender actions on the inventory, with reconciliation after each. -/
def configuration (inp : AnalysisInput) (actions : List DefenderAction) : Env :=
  actions.foldl defend (reconcileControllers (inventoryEnv inp)).1

lemma configuration_append_singleton (inp : AnalysisInput) (actions : List DefenderAction)
    (a : DefenderAction) :
    configuration inp (actions ++ [a]) = defend (configuration inp actions) a := by
  rw [configuration, List.foldl_append]
  rfl

/-! ### One action -/

section

variable {env : Env} {svc : DownstreamService} {a : DefenderAction} {name : String}

/-- The version that a rotation gives. -/
def nextVersion (env : Env) (svc : DownstreamService) : ℤ :=
  max svc.acceptedVersion
    (((env.secrets.get? (svc.sourceNs, svc.sourceSecret)).map Secret.version).getD 0) + 1

/-- The service after a rotation. -/
def rotated (env : Env) (svc : DownstreamService) : DownstreamService where
  name := svc.name
  sourceNs := svc.sourceNs
  sourceSecret := svc.sourceSecret
  acceptedVersion := nextVersion env svc
  rotationPropagationSeconds := svc.rotationPropagationSeconds
  grace :=
    if svc.rotationPropagationSeconds > 0 then
      Text.sortedBy (fun g => toLex g)
        ((svc.acceptedVersion, env.time + svc.rotationPropagationSeconds) :: svc.grace).dedup
    else svc.grace

/-- The Secrets after a rotation. -/
def rotatedSecrets (env : Env) (svc : DownstreamService) : Table Secret.key :=
  match env.secrets.get? (svc.sourceNs, svc.sourceSecret) with
  | none => env.secrets
  | some s => env.secrets.put { s with version := nextVersion env svc }

lemma rotate_eq (env : Env) (svc : DownstreamService) : (rotate env svc).1 =
    { env with secrets := rotatedSecrets env svc, services := env.services.put (rotated env svc) } := by
  unfold rotate rotated
  by_cases hd : svc.rotationPropagationSeconds > 0
  · simp only [if_pos hd]
    rfl
  · simp only [if_neg hd]
    rfl

/-- The action rotates the credential of the service. -/
def DefenderAction.Rotates (a : DefenderAction) (name : String) : Prop :=
  a = .rotateDownstreamCredential name

lemma defend_services : (defend env a).services = (applyDefenderAction env a).1.services :=
  (reconcileControllers_grows _).services

lemma defend_secrets : (defend env a).secrets = (applyDefenderAction env a).1.secrets :=
  (reconcileControllers_grows _).secrets

lemma defend_time : (defend env a).time = (applyDefenderAction env a).1.time :=
  (reconcileControllers_grows _).time

lemma time_le_defend (ha : a.Good) : env.time ≤ (defend env a).time := by
  rw [defend_time]
  cases a with
  | wait seconds =>
      have hs : 1 ≤ seconds := ha
      show env.time ≤ env.time + seconds
      omega
  | rotateDownstreamCredential service =>
      simp only [applyDefenderAction]
      split
      · exact le_rfl
      · rw [rotate_eq]
  | _ => exact le_rfl

/-- A rotation of the service. -/
lemma defend_rotate (h : env.services.get? name = some svc) :
    (defend env (.rotateDownstreamCredential name)).services = env.services.put (rotated env svc) ∧
      (defend env (.rotateDownstreamCredential name)).secrets = rotatedSecrets env svc := by
  rw [defend_services, defend_secrets]
  simp only [applyDefenderAction, h, rotate_eq, and_self]

lemma defend_rotate_of_none (h : env.services.get? name = none) :
    (defend env (.rotateDownstreamCredential name)).services = env.services ∧
      (defend env (.rotateDownstreamCredential name)).secrets = env.secrets := by
  rw [defend_services, defend_secrets]
  simp only [applyDefenderAction, h, and_self]

/-- Any other action leaves the services and the Secrets as they are. -/
lemma defend_other (h : ∀ service, ¬a.Rotates service) :
    (defend env a).services = env.services ∧ (defend env a).secrets = env.secrets := by
  rw [defend_services, defend_secrets]
  cases a with
  | rotateDownstreamCredential service => exact absurd rfl (h service)
  | _ => exact ⟨rfl, rfl⟩

/-- A service after an action: it is rotated, or the action does not rotate it and it stays. -/
lemma defend_service_cases (h : env.services.get? name = some svc) :
    (a.Rotates name ∧ (defend env a).services.get? name = some (rotated env svc)) ∨
      (¬a.Rotates name ∧ (defend env a).services.get? name = some svc) := by
  have hname : svc.name = name := (Table.get?_eq_some_iff.1 h).2
  by_cases hr : a.Rotates name
  · obtain rfl : a = .rotateDownstreamCredential name := hr
    refine Or.inl ⟨rfl, ?_⟩
    rw [(defend_rotate h).1]
    exact Table.get?_eq_some_iff.2 ⟨Table.mem_put_self, hname⟩
  · refine Or.inr ⟨hr, ?_⟩
    by_cases hs : ∃ service, a.Rotates service
    · obtain ⟨service, rfl⟩ := hs
      cases hsvc : env.services.get? service with
      | none => rw [(defend_rotate_of_none hsvc).1, h]
      | some svc' =>
          have hne : name ≠ (rotated env svc').name := by
            rintro rfl
            exact hr (congrArg _ (Table.get?_eq_some_iff.1 hsvc).2.symm)
          rw [(defend_rotate hsvc).1, Table.get?_put_of_ne hne, h]
    · rw [(defend_other fun service hr' => hs ⟨service, hr'⟩).1, h]

/-- No action adds a service. -/
lemma defend_service_of_none (h : env.services.get? name = none) :
    (defend env a).services.get? name = none := by
  by_cases hs : ∃ service, a.Rotates service
  · obtain ⟨service, rfl⟩ := hs
    cases hsvc : env.services.get? service with
    | none => rw [(defend_rotate_of_none hsvc).1, h]
    | some svc' =>
        have hne : name ≠ (rotated env svc').name := by
          rintro rfl
          rw [show (rotated env svc').name = service from (Table.get?_eq_some_iff.1 hsvc).2,
            hsvc] at h
          cases h
        rw [(defend_rotate hsvc).1, Table.get?_put_of_ne hne, h]
  · rw [(defend_other fun service hr' => hs ⟨service, hr'⟩).1, h]

variable {key : String × String} {sec : Secret}

/-- The version of a Secret never decreases. -/
lemma defend_secret (h : env.secrets.get? key = some sec) :
    ∃ sec', (defend env a).secrets.get? key = some sec' ∧ sec.version ≤ sec'.version := by
  by_cases hs : ∃ service, a.Rotates service
  · obtain ⟨service, rfl⟩ := hs
    cases hsvc : env.services.get? service with
    | none => exact ⟨sec, by rw [(defend_rotate_of_none hsvc).2, h], le_rfl⟩
    | some svc =>
        rw [(defend_rotate hsvc).2, rotatedSecrets]
        cases hsec : env.secrets.get? (svc.sourceNs, svc.sourceSecret) with
        | none => exact ⟨sec, h, le_rfl⟩
        | some s =>
            by_cases hk : key = (svc.sourceNs, svc.sourceSecret)
            · rw [hk, hsec] at h
              cases h
              refine ⟨{ sec with version := nextVersion env svc },
                Table.get?_eq_some_iff.2 ⟨Table.mem_put_self, ?_⟩, ?_⟩
              · exact (Table.get?_eq_some_iff.1 hsec).2.trans hk.symm
              · show sec.version ≤ nextVersion env svc
                rw [nextVersion, hsec]
                exact (le_max_right svc.acceptedVersion sec.version).trans (by simp)
            · refine ⟨sec, ?_, le_rfl⟩
              rw [Table.get?_put_of_ne, h]
              rw [show Secret.key { s with version := nextVersion env svc } =
                (svc.sourceNs, svc.sourceSecret) from (Table.get?_eq_some_iff.1 hsec).2]
              exact hk
  · exact ⟨sec, by rw [(defend_other fun service hr' => hs ⟨service, hr'⟩).2, h], le_rfl⟩

/-- After a rotation the Secret has the version of the service. -/
lemma rotated_secret (h : (rotatedSecrets env svc).get? (svc.sourceNs, svc.sourceSecret) = some sec) :
    sec.version = nextVersion env svc := by
  unfold rotatedSecrets at h
  cases hsec : env.secrets.get? (svc.sourceNs, svc.sourceSecret) with
  | none =>
      rw [hsec] at h
      simp only at h
      rw [hsec] at h
      cases h
  | some s =>
      rw [hsec] at h
      obtain ⟨hmem, hk⟩ := Table.get?_eq_some_iff.1 h
      rcases Table.mem_put.1 hmem with rfl | ⟨-, hne⟩
      · rfl
      · exact absurd (hk.trans (Table.get?_eq_some_iff.1 hsec).2.symm) hne

lemma acceptedVersion_lt_nextVersion : svc.acceptedVersion < nextVersion env svc := by
  have h := le_max_left svc.acceptedVersion
    (((env.secrets.get? (svc.sourceNs, svc.sourceSecret)).map Secret.version).getD 0)
  unfold nextVersion
  omega

lemma version_lt_nextVersion
    (h : env.secrets.get? (svc.sourceNs, svc.sourceSecret) = some sec) :
    sec.version < nextVersion env svc := by
  unfold nextVersion
  rw [h]
  have := le_max_right svc.acceptedVersion sec.version
  show sec.version < max svc.acceptedVersion sec.version + 1
  omega

end

/-! ### Sequences of actions -/

section

variable {inp : AnalysisInput} {as bs : List DefenderAction} {name : String}
  {svc : DownstreamService}

/-- Two states of a service, one after the other. -/
structure DownstreamService.Later (svc svc' : DownstreamService) : Prop where
  sourceNs : svc'.sourceNs = svc.sourceNs
  sourceSecret : svc'.sourceSecret = svc.sourceSecret
  delay : svc'.rotationPropagationSeconds = svc.rotationPropagationSeconds
  version : svc.acceptedVersion ≤ svc'.acceptedVersion

lemma DownstreamService.Later.trans {a b c : DownstreamService} (h : a.Later b) (h' : b.Later c) :
    a.Later c where
  sourceNs := h'.sourceNs.trans h.sourceNs
  sourceSecret := h'.sourceSecret.trans h.sourceSecret
  delay := h'.delay.trans h.delay
  version := h.version.trans h'.version

/-- A service was there before and had the same Secret and delay and no larger version. -/
lemma earlier_service (h : (configuration inp (as ++ bs)).services.get? name = some svc) :
    ∃ svc₀, (configuration inp as).services.get? name = some svc₀ ∧ svc₀.Later svc := by
  induction bs using List.reverseRecOn generalizing svc with
  | nil =>
      rw [List.append_nil] at h
      exact ⟨svc, h, rfl, rfl, rfl, le_rfl⟩
  | append_singleton bs b ih =>
      rw [← List.append_assoc, configuration_append_singleton] at h
      cases hpre : (configuration inp (as ++ bs)).services.get? name with
      | none =>
          rw [defend_service_of_none hpre] at h
          cases h
      | some svc₁ =>
          obtain ⟨svc₀, h₀, hlater⟩ := ih hpre
          refine ⟨svc₀, h₀, hlater.trans ?_⟩
          rcases @defend_service_cases _ _ b _ hpre with ⟨-, hpost⟩ | ⟨-, hpost⟩
          · rw [hpost] at h
            cases h
            exact ⟨rfl, rfl, rfl, acceptedVersion_lt_nextVersion.le⟩
          · rw [hpost] at h
            cases h
            exact ⟨rfl, rfl, rfl, le_rfl⟩

lemma later_secret {key : String × String} {sec : Secret}
    (h : (configuration inp as).secrets.get? key = some sec) :
    ∃ sec', (configuration inp (as ++ bs)).secrets.get? key = some sec' ∧
      sec.version ≤ sec'.version := by
  induction bs using List.reverseRecOn with
  | nil =>
      rw [List.append_nil]
      exact ⟨sec, h, le_rfl⟩
  | append_singleton bs b ih =>
      rw [← List.append_assoc, configuration_append_singleton]
      obtain ⟨sec₁, h₁, hle⟩ := ih
      obtain ⟨sec', h', hle'⟩ := @defend_secret _ b _ _ h₁
      exact ⟨sec', h', hle.trans hle'⟩

lemma later_service {svc₀ : DownstreamService}
    (h : (configuration inp as).services.get? name = some svc₀) :
    ∃ svc, (configuration inp (as ++ bs)).services.get? name = some svc ∧ svc₀.Later svc := by
  induction bs using List.reverseRecOn with
  | nil =>
      rw [List.append_nil]
      exact ⟨svc₀, h, rfl, rfl, rfl, le_rfl⟩
  | append_singleton bs b ih =>
      rw [← List.append_assoc, configuration_append_singleton]
      obtain ⟨svc₁, h₁, hlater⟩ := ih
      rcases @defend_service_cases _ _ b _ h₁ with ⟨-, hpost⟩ | ⟨-, hpost⟩
      · exact ⟨_, hpost, hlater.trans ⟨rfl, rfl, rfl, acceptedVersion_lt_nextVersion.le⟩⟩
      · exact ⟨_, hpost, hlater⟩

lemma time_le_configuration (h : ∀ b ∈ bs, b.Good) :
    (configuration inp as).time ≤ (configuration inp (as ++ bs)).time := by
  induction bs using List.reverseRecOn with
  | nil => rw [List.append_nil]
  | append_singleton bs b ih =>
      rw [← List.append_assoc, configuration_append_singleton]
      exact (ih fun x hx => h x (List.mem_append_left _ hx)).trans (time_le_defend (h b (by simp)))

/-! ### Rotation windows -/

/-- A rotation of the service at the time `r` has superseded the version `v`. -/
def Superseded (inp : AnalysisInput) (actions : List DefenderAction) (name : String) (v r : ℤ) :
    Prop :=
  ∃ before after svc, actions = before ++ .rotateDownstreamCredential name :: after ∧
    (configuration inp before).services.get? name = some svc ∧ svc.acceptedVersion = v ∧
      (configuration inp before).time = r

lemma superseded_append_singleton {a : DefenderAction} {v r : ℤ} :
    Superseded inp (as ++ [a]) name v r ↔ Superseded inp as name v r ∨
      (a.Rotates name ∧ ∃ svc, (configuration inp as).services.get? name = some svc ∧
        svc.acceptedVersion = v ∧ (configuration inp as).time = r) := by
  constructor
  · rintro ⟨before, after, svc, heq, hsvc⟩
    rcases List.eq_nil_or_concat after with rfl | ⟨after, b, rfl⟩
    · obtain ⟨rfl, hlast⟩ := List.append_inj' heq rfl
      cases hlast
      exact Or.inr ⟨rfl, svc, hsvc⟩
    · rw [List.concat_eq_append, ← List.cons_append, ← List.append_assoc] at heq
      obtain ⟨rfl, -⟩ := List.append_inj' heq rfl
      exact Or.inl ⟨before, after, svc, rfl, hsvc⟩
  · rintro (⟨before, after, svc, rfl, hsvc⟩ | ⟨rfl, svc, hsvc⟩)
    · exact ⟨before, after ++ [a], svc, by simp, hsvc⟩
    · exact ⟨as, [], svc, rfl, hsvc⟩

lemma Superseded.time_le {v r : ℤ} (h : Superseded inp as name v r) (ha : ∀ a ∈ as, a.Good) :
    r ≤ (configuration inp as).time := by
  obtain ⟨before, after, svc, rfl, -, -, rfl⟩ := h
  exact time_le_configuration fun b hb => ha b (List.mem_append_right _ hb)

/-- A version is superseded by a larger one. -/
lemma Superseded.version_lt {v r : ℤ} (h : Superseded inp as name v r)
    (hsvc : (configuration inp as).services.get? name = some svc) : v < svc.acceptedVersion := by
  obtain ⟨before, after, svc₀, rfl, h₀, rfl, -⟩ := h
  have hsplit : before ++ .rotateDownstreamCredential name :: after =
      (before ++ [.rotateDownstreamCredential name]) ++ after := by simp
  rw [hsplit] at hsvc
  obtain ⟨svc₁, h₁, hlater⟩ := earlier_service hsvc
  rw [configuration_append_singleton] at h₁
  rcases @defend_service_cases _ _ (.rotateDownstreamCredential name) _ h₀ with
    ⟨-, hpost⟩ | ⟨hnot, -⟩
  · rw [hpost] at h₁
    cases h₁
    exact acceptedVersion_lt_nextVersion.trans_le hlater.version
  · exact absurd rfl hnot

/-- The versions that a service keeps honouring are those that its rotations have superseded. -/
lemma mem_grace_iff (hw : WellFormed inp)
    (hsvc : (configuration inp as).services.get? name = some svc) {v til : ℤ} :
    (v, til) ∈ svc.grace ↔ 0 < svc.rotationPropagationSeconds ∧
      ∃ r, Superseded inp as name v r ∧ til = r + svc.rotationPropagationSeconds := by
  induction as using List.reverseRecOn generalizing svc with
  | nil =>
      -- a parsed service has no grace versions, and without an action none is superseded
      have hmem : svc ∈ inp.inventory.services := by
        have hinv : (inventoryEnv inp).services.get? name = some svc := by
          rw [← hsvc]
          exact congrArg (fun t : Table DownstreamService.name => t.get? name)
            (reconcileControllers_grows _).services.symm
        exact Table.mem_of_mem_ofList (Table.get?_eq_some_iff.1 hinv).1
      rw [hw.inventory.grace svc hmem]
      constructor
      · intro h
        cases h
      · rintro ⟨-, r, ⟨before, after, _, h, -⟩, -⟩
        cases before <;> cases h
  | append_singleton as a ih =>
      rw [configuration_append_singleton] at hsvc
      cases hpre : (configuration inp as).services.get? name with
      | none =>
          rw [defend_service_of_none hpre] at hsvc
          cases hsvc
      | some svc₀ =>
          have hold := @ih svc₀ hpre
          simp only [superseded_append_singleton]
          rcases @defend_service_cases _ _ a _ hpre with ⟨hrot, hpost⟩ | ⟨hrot, hpost⟩
          · -- the action rotates the service: its version joins the grace versions
            rw [hpost] at hsvc
            cases hsvc
            show (v, til) ∈ (if svc₀.rotationPropagationSeconds > 0 then _ else svc₀.grace) ↔
              0 < svc₀.rotationPropagationSeconds ∧ _
            split_ifs with hd
            · rw [Text.mem_sortedBy, List.mem_dedup, List.mem_cons, hold]
              constructor
              · rintro (h | ⟨-, r, hr, rfl⟩)
                · cases h
                  exact ⟨hd, _, Or.inr ⟨hrot, svc₀, hpre, rfl, rfl⟩, rfl⟩
                · exact ⟨hd, r, Or.inl hr, rfl⟩
              · rintro ⟨-, r, hr | ⟨-, svc₁, h₁, rfl, rfl⟩, rfl⟩
                · exact Or.inr ⟨hd, r, hr, rfl⟩
                · rw [hpre] at h₁
                  cases h₁
                  exact Or.inl rfl
            · rw [hold]
              exact iff_of_false (fun h => hd h.1) fun h => hd h.1
          · -- the action leaves the service alone
            rw [hpost] at hsvc
            cases hsvc
            rw [hold]
            refine and_congr_right fun _ => exists_congr fun r => and_congr_left fun _ => ?_
            exact ⟨Or.inl, fun h => h.resolve_right fun h' => hrot h'.1⟩

lemma accepts_iff {v t : ℤ} : svc.accepts v t = true ↔
    v = svc.acceptedVersion ∨ ∃ til, (v, til) ∈ svc.grace ∧ t < til := by
  simp only [DownstreamService.accepts, Bool.or_eq_true, beq_iff_eq, List.any_eq_true,
    Bool.and_eq_true, decide_eq_true_eq]
  refine or_congr_right ⟨?_, ?_⟩
  · rintro ⟨⟨v', til⟩, hmem, rfl, ht⟩
    exact ⟨til, hmem, ht⟩
  · rintro ⟨til, hmem, ht⟩
    exact ⟨(v, til), hmem, rfl, ht⟩

/-- From the time of a configuration on, a service accepts its version and those superseded not
longer ago than the delay. -/
lemma accepts_configuration (hw : WellFormed inp) (ha : ∀ a ∈ as, a.Good)
    (hsvc : (configuration inp as).services.get? name = some svc) {v t : ℤ}
    (ht : (configuration inp as).time ≤ t) :
    svc.accepts v t = true ↔ v = svc.acceptedVersion ∨
      ∃ r, Superseded inp as name v r ∧ t < r + svc.rotationPropagationSeconds := by
  rw [accepts_iff]
  refine or_congr_right ⟨?_, ?_⟩
  · rintro ⟨til, hmem, htil⟩
    obtain ⟨-, r, hr, rfl⟩ := (mem_grace_iff hw hsvc).1 hmem
    exact ⟨r, hr, htil⟩
  · rintro ⟨r, hr, htr⟩
    have hrt := (hr.time_le ha).trans ht
    exact ⟨_, (mem_grace_iff hw hsvc).2 ⟨by omega, r, hr, rfl⟩, htr⟩

/-- A version that was accepted and then not is not accepted later. -/
lemma not_accepts_later (hw : WellFormed inp) {cs : List DefenderAction}
    (ha : ∀ a ∈ as ++ bs ++ cs, a.Good) {svc₀ svc₁ svc₂ : DownstreamService}
    (h₀ : (configuration inp as).services.get? name = some svc₀)
    (h₁ : (configuration inp (as ++ bs)).services.get? name = some svc₁)
    (h₂ : (configuration inp (as ++ bs ++ cs)).services.get? name = some svc₂) {v t₀ t₁ t₂ : ℤ}
    (ht₀ : (configuration inp as).time ≤ t₀) (ht₁ : (configuration inp (as ++ bs)).time ≤ t₁)
    (ht₂ : (configuration inp (as ++ bs ++ cs)).time ≤ t₂) (hle : t₁ ≤ t₂)
    (hacc : svc₀.accepts v t₀ = true) (hnot : svc₁.accepts v t₁ = false) :
    svc₂.accepts v t₂ = false := by
  have ha₁ : ∀ a ∈ as ++ bs, a.Good := fun a hm => ha a (List.mem_append_left _ hm)
  have ha₀ : ∀ a ∈ as, a.Good := fun a hm => ha₁ a (List.mem_append_left _ hm)
  have hlater₁ : svc₀.Later svc₁ := by
    obtain ⟨s, hs, hl⟩ := earlier_service h₁
    rw [h₀] at hs
    cases hs
    exact hl
  have hlater₂ : svc₁.Later svc₂ := by
    obtain ⟨s, hs, hl⟩ := earlier_service h₂
    rw [h₁] at hs
    cases hs
    exact hl
  -- the version is smaller than the one accepted when it is not accepted any longer
  have hv : v ≤ svc₁.acceptedVersion := by
    rcases (accepts_configuration hw ha₀ h₀ ht₀).1 hacc with rfl | ⟨r, hr, -⟩
    · exact hlater₁.version
    · exact (hr.version_lt h₀).le.trans hlater₁.version
  rw [← Bool.not_eq_true, accepts_configuration hw ha₁ h₁ ht₁, not_or] at hnot
  rw [← Bool.not_eq_true, accepts_configuration hw ha h₂ ht₂]
  have hlt : v < svc₁.acceptedVersion := lt_of_le_of_ne hv hnot.1
  rintro (rfl | ⟨r, ⟨before, after, svc, hsplit, hb, rfl, rfl⟩, htr⟩)
  · exact absurd hlater₂.version (not_le.2 hlt)
  · rcases List.append_eq_append_iff.1 hsplit with ⟨xs, rfl, -⟩ | ⟨xs, hxs, hcs⟩
    · -- a rotation after it has superseded a larger version
      obtain ⟨s, hs, hl⟩ := earlier_service hb
      rw [h₁] at hs
      cases hs
      exact absurd hl.version (not_le.2 hlt)
    · cases xs with
      | nil =>
          rw [List.append_nil] at hxs
          rw [← hxs, h₁] at hb
          cases hb
          exact absurd hlt (lt_irrefl _)
      | cons x xs =>
          cases hcs
          refine hnot.2 ⟨_, ⟨before, xs, svc, hxs, hb, rfl, rfl⟩, ?_⟩
          rw [← hlater₂.delay]
          omega

/-- The law of the rotation windows of a service, for a sequence of actions. -/
structure RotationLaw (inp : AnalysisInput) (actions : List DefenderAction) (name : String) :
    Prop where
  /-- What the service accepts from the time of the last action on. -/
  windows : ∀ svc, (configuration inp actions).services.get? name = some svc →
    ∀ v t, (configuration inp actions).time ≤ t →
      (svc.accepts v t = true ↔ v = svc.acceptedVersion ∨
        ∃ r, Superseded inp actions name v r ∧ t < r + svc.rotationPropagationSeconds)
  /-- Every rotation of the service increases its version. -/
  grows : ∀ before after, actions = before ++ .rotateDownstreamCredential name :: after →
    ∀ svc, (configuration inp before).services.get? name = some svc →
      ∃ svc', (configuration inp (before ++ [.rotateDownstreamCredential name])).services.get? name =
        some svc' ∧ svc.acceptedVersion < svc'.acceptedVersion
  /-- A version that was accepted and then not is never accepted again. -/
  final : ∀ as bs cs, actions = as ++ bs ++ cs → ∀ svc₀ svc₁ svc₂,
    (configuration inp as).services.get? name = some svc₀ →
    (configuration inp (as ++ bs)).services.get? name = some svc₁ →
    (configuration inp (as ++ bs ++ cs)).services.get? name = some svc₂ →
    ∀ v t₀ t₁ t₂, (configuration inp as).time ≤ t₀ → (configuration inp (as ++ bs)).time ≤ t₁ →
      (configuration inp (as ++ bs ++ cs)).time ≤ t₂ → t₁ ≤ t₂ →
      svc₀.accepts v t₀ = true → svc₁.accepts v t₁ = false → svc₂.accepts v t₂ = false
  /-- Right after a rotation the Secret of the service has the version that the service accepts,
  which is larger than all that either had before. -/
  synced : ∀ before after, actions = before ++ .rotateDownstreamCredential name :: after →
    ∀ svc, (configuration inp (before ++ [.rotateDownstreamCredential name])).services.get? name =
      some svc →
    (∀ sec, (configuration inp (before ++ [.rotateDownstreamCredential name])).secrets.get?
      (svc.sourceNs, svc.sourceSecret) = some sec → sec.version = svc.acceptedVersion) ∧
    ∀ as bs, before = as ++ bs →
      (∀ svc₀, (configuration inp as).services.get? name = some svc₀ →
        svc₀.acceptedVersion < svc.acceptedVersion) ∧
      ∀ sec₀, (configuration inp as).secrets.get? (svc.sourceNs, svc.sourceSecret) = some sec₀ →
        sec₀.version < svc.acceptedVersion

/-- A service right after a rotation. -/
lemma configuration_rotate
    (h : (configuration inp (as ++ [.rotateDownstreamCredential name])).services.get? name =
      some svc) :
    ∃ svc₀, (configuration inp as).services.get? name = some svc₀ ∧
      svc = rotated (configuration inp as) svc₀ ∧
      (configuration inp (as ++ [.rotateDownstreamCredential name])).secrets =
        rotatedSecrets (configuration inp as) svc₀ := by
  rw [configuration_append_singleton] at h ⊢
  cases hpre : (configuration inp as).services.get? name with
  | none =>
      rw [defend_service_of_none hpre] at h
      cases h
  | some svc₀ =>
      rcases @defend_service_cases _ _ (.rotateDownstreamCredential name) _ hpre with
        ⟨-, hpost⟩ | ⟨hnot, -⟩
      · rw [hpost] at h
        cases h
        exact ⟨svc₀, rfl, rfl, (defend_rotate hpre).2⟩
      · exact absurd rfl hnot

end

/-- The rotation windows of every service, whatever the defender does. -/
theorem rotation_windows {raw : Json} {inp : AnalysisInput} (h : parseAnalysisInput raw = .ok inp)
    {actions : List DefenderAction} (ha : ∀ a ∈ actions, a.Good) (name : String) :
    RotationLaw inp actions name where
  windows svc hsvc v t ht := accepts_configuration (wellFormed_of_parse h) ha hsvc ht
  grows before after _ svc hsvc := by
    rw [configuration_append_singleton]
    rcases @defend_service_cases _ _ (.rotateDownstreamCredential name) _ hsvc with
      ⟨-, hpost⟩ | ⟨hnot, -⟩
    · exact ⟨_, hpost, acceptedVersion_lt_nextVersion⟩
    · exact absurd rfl hnot
  final as bs cs hsplit svc₀ svc₁ svc₂ h₀ h₁ h₂ v t₀ t₁ t₂ ht₀ ht₁ ht₂ hle hacc hnot :=
    not_accepts_later (wellFormed_of_parse h) (hsplit ▸ ha) h₀ h₁ h₂ ht₀ ht₁ ht₂ hle hacc hnot
  synced before after _ svc hsvc := by
    obtain ⟨svc₁, h₁, rfl, hsecrets⟩ := configuration_rotate hsvc
    rw [hsecrets]
    refine ⟨fun sec hsec => rotated_secret hsec, ?_⟩
    rintro as bs rfl
    refine ⟨fun svc₀ h₀ => ?_, fun sec₀ h₀ => ?_⟩
    · obtain ⟨svc', h', hlater⟩ := @later_service _ _ bs _ _ h₀
      rw [h₁] at h'
      cases h'
      exact hlater.version.trans_lt acceptedVersion_lt_nextVersion
    · obtain ⟨sec', h', hle⟩ := @later_secret _ _ bs _ _ h₀
      exact hle.trans_lt (version_lt_nextVersion h')

namespace Sample

open Json

/-- Two services that share a Secret. -/
def sharing : Json :=
  let service (name : String) (accepted : ℤ) : Json :=
    .obj [("name", .str name), ("source_namespace", .str "n"), ("source_secret", .str "x"),
      ("accepted_version", .int accepted), ("rotation_propagation_seconds", .int 30)]
  document [("secrets", .arr [secret "n" "x"]), ("services", .arr [service "a" 1, service "b" 4])]
    [("objectives", .arr [noSecretRead "o" "n" "x"])]

/-- Both services are rotated. -/
def rotations : List DefenderAction :=
  [.rotateDownstreamCredential "a", .wait 20, .rotateDownstreamCredential "b", .wait 20,
    .rotateDownstreamCredential "a"]

end Sample

/-- After the rotations the first service is at version 6 and still accepts version 2. -/
theorem sharing_windows :
    ∃ inp svc, parseAnalysisInput Sample.sharing = .ok inp ∧
      (configuration inp Sample.rotations).services.get? "a" = some svc ∧
      svc.acceptedVersion = 6 ∧ svc.accepts 2 169 = true ∧ svc.accepts 2 170 = false ∧
      svc.accepts 1 140 = false ∧ RotationLaw inp Sample.rotations "a" := by
  obtain ⟨inp, hinp, hp⟩ := Sample.accepted Sample.sharing
    (p := fun inp => ((configuration inp Sample.rotations).services.get? "a").any fun svc =>
      svc.acceptedVersion == 6 && svc.accepts 2 169 && !svc.accepts 2 170 && !svc.accepts 1 140)
    (by decide +kernel)
  obtain ⟨svc, hsvc, hp⟩ := Option.any_eq_true _ _ |>.1 hp
  simp only [Bool.and_eq_true, beq_iff_eq, Bool.not_eq_true'] at hp
  refine ⟨inp, svc, hinp, hsvc, hp.1.1.1, hp.1.1.2, hp.1.2, hp.2, rotation_windows hinp ?_ "a"⟩
  simp [Sample.rotations, DefenderAction.Good]

end Afterlock
