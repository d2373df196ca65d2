import Afterlock.Objects
import Afterlock.Outcome

/-!
# What the attacker keeps

Facts are only ever added.  Credentials are stored under their ids, and a token replaces whatever
is stored under its id and does not last as long.  So a credential is kept, or renewed, where an id
names one token; it is lost where two credentials of the run share an id.
-/

namespace Afterlock

open Prog Sample

/-- `d` is the same credential as `c`, and lasts at least as long. -/
structure Renews (c d : CredentialSpec) : Prop where
  id : d.id = c.id
  kind : d.kind = c.kind
  username : d.username = c.username
  saUid : d.saUid = c.saUid
  boundPodUid : d.boundPodUid = c.boundPodUid
  audience : d.audience = c.audience
  /-- No expiry counts as the latest. -/
  expires : ∀ e', d.expiresAt = some e' → ∃ e, c.expiresAt = some e ∧ e ≤ e'

lemma Renews.refl (c : CredentialSpec) : Renews c c :=
  ⟨rfl, rfl, rfl, rfl, rfl, rfl, fun e h => ⟨e, h, le_rfl⟩⟩

lemma Renews.trans {c d e : CredentialSpec} (h : Renews c d) (h' : Renews d e) : Renews c e where
  id := h'.id.trans h.id
  kind := h'.kind.trans h.kind
  username := h'.username.trans h.username
  saUid := h'.saUid.trans h.saUid
  boundPodUid := h'.boundPodUid.trans h.boundPodUid
  audience := h'.audience.trans h.audience
  expires e₂ he := by
    obtain ⟨e₁, he₁, hle₁⟩ := h'.expires e₂ he
    obtain ⟨e₀, he₀, hle₀⟩ := h.expires e₁ he₁
    exact ⟨e₀, he₀, hle₀.trans hle₁⟩

namespace Engine

variable {inp : AnalysisInput} {view : View} {ctx : Ctx} {i : ℤ}

/-- Everything kept for ever in `s` is still there in `t`, credentials perhaps renewed. -/
structure Retains (s t : ViewState) : Prop where
  facts : ∀ f, s.Has f → t.Has f
  creds : ∀ c ∈ s.creds, ∃ d ∈ t.creds, Renews c d

lemma Retains.refl (s : ViewState) : Retains s s := ⟨fun _ h => h, fun c hc => ⟨c, hc, Renews.refl c⟩⟩

lemma Retains.trans {s t u : ViewState} (h : Retains s t) (h' : Retains t u) : Retains s u where
  facts f hf := h'.facts f (h.facts f hf)
  creds c hc := by
    obtain ⟨d, hd, hcd⟩ := h.creds c hc
    obtain ⟨e, he, hde⟩ := h'.creds d hd
    exact ⟨e, he, hcd.trans hde⟩

/-! ### Where tokens come from -/

/-- The attacker can take the token of a Pod for an audience. -/
structure Yields (ctx : Ctx) (s : ViewState) (pod : Pod) (sa : ServiceAccount) (aud : String) :
    Prop where
  controlled : s.Has (.controlsPod pod.uid)
  live : pod ∈ s.env.pods
  account : sa ∈ s.env.serviceAccounts
  runsAs : sa.key = (pod.ns, pod.serviceAccount)
  audience : aud ∈ tokenAudiences ctx.inp.profile pod

lemma Step.token_cases {s t : ViewState} (h : Step ctx i s t) :
    t.creds = s.creds ∨ ∃ pod sa aud, Yields ctx s pod sa aud ∧
      holdsUntil s (projectedId pod.uid aud) (tokenExpiry ctx s.env) = false ∧
      t.creds = s.creds.put (projectedToken pod sa aud (tokenExpiry ctx s.env)) := by
  rcases h.creds with h | ⟨pod, sa, aud, hc, hp, ha, hk, haud, hnew, ht⟩
  · exact Or.inl h
  · exact Or.inr ⟨pod, sa, aud, ⟨hc, hp, ha, hk, haud⟩, hnew, ht⟩

/-- In a phase of the engine's run the attacker can take the token of a Pod for an audience. -/
def TokenOfRun (inp : AnalysisInput) (view : View) (pod : Pod) (sa : ServiceAccount)
    (aud : String) : Prop :=
  ∃ φ s, Along inp view φ s ∧ Yields (phaseCtx inp view φ) s pod sa aud

/-- A credential id names one token of the run: no credential that the attacker possesses from the
beginning has the id of a token, and tokens with one id are of the same Pod UID, service account
and audience. -/
structure TokenIdsUnambiguous (inp : AnalysisInput) (view : View) : Prop where
  seeds : ∀ c ∈ initialCreds (viewCtx inp view), ∀ pod sa aud, TokenOfRun inp view pod sa aud →
    c.id ≠ projectedId pod.uid aud
  tokens : ∀ pod sa aud pod' sa' aud', TokenOfRun inp view pod sa aud →
    TokenOfRun inp view pod' sa' aud' → projectedId pod.uid aud = projectedId pod'.uid aud' →
      pod.uid = pod'.uid ∧ sa.key = sa'.key ∧ aud = aud'

/-- The credentials of a run are the ones possessed from the beginning and the tokens taken. -/
def Sourced (inp : AnalysisInput) (view : View) (c : CredentialSpec) : Prop :=
  c ∈ initialCreds (viewCtx inp view) ∨
    ∃ pod sa aud e, TokenOfRun inp view pod sa aud ∧ c = projectedToken pod sa aud e

/-- The accounts of two tokens of the run with one key are one account. -/
lemma TokenOfRun.account_eq (hw : WellFormed inp) {pod pod' : Pod} {sa sa' : ServiceAccount}
    {aud aud' : String} (h : TokenOfRun inp view pod sa aud)
    (h' : TokenOfRun inp view pod' sa' aud') (hk : sa.key = sa'.key) : sa = sa' := by
  obtain ⟨φ, s, hs, hy⟩ := h
  obtain ⟨φ', s', hs', hy'⟩ := h'
  exact Table.eq_of_key_eq ((hs.during hw).account hw hy.account)
    ((hs'.during hw).account hw hy'.account) hk

/-! ### One step -/

/-- Where ids name one token, a step keeps everything. -/
lemma Step.retains (hw : WellFormed inp) (hid : TokenIdsUnambiguous inp view) {φ : Phase}
    {s t : ViewState} (hs : Along inp view φ s) (hsrc : ∀ c ∈ s.creds, Sourced inp view c)
    (h : Step (phaseCtx inp view φ) φ.index s t) :
    Retains s t ∧ ∀ c ∈ t.creds, Sourced inp view c := by
  rcases h.token_cases with hc | ⟨pod, sa, aud, hy, hnew, hc⟩
  · exact ⟨⟨fun f hf => h.has hf, fun c hmem => ⟨c, hc ▸ hmem, Renews.refl c⟩⟩,
      fun c hmem => hsrc c (hc ▸ hmem)⟩
  have hrun : TokenOfRun inp view pod sa aud := ⟨φ, s, hs, hy⟩
  refine ⟨⟨fun f hf => h.has hf, fun c hmem => ?_⟩, fun c hmem => ?_⟩
  · by_cases hk : c.id = projectedId pod.uid aud
    · -- what is stored under the id is the token itself, from before
      refine ⟨_, hc ▸ Table.mem_put_self, ?_⟩
      rcases hsrc c hmem with hseed | ⟨pod', sa', aud', e, hrun', rfl⟩
      · exact absurd hk (hid.seeds c hseed pod sa aud hrun)
      · obtain ⟨hu, hsa, ha⟩ := hid.tokens _ _ _ _ _ _ hrun' hrun hk
        obtain rfl := hrun'.account_eq hw hrun hsa
        subst ha
        refine ⟨hk.symm, rfl, rfl, rfl, congrArg some hu.symm, rfl, ?_⟩
        rintro e' he'
        cases he'
        refine ⟨e, rfl, ?_⟩
        rw [← hu, holdsUntil_projectedToken hmem, decide_eq_false_iff_not] at hnew
        exact (not_le.1 hnew).le
    · exact ⟨c, hc ▸ Table.mem_put.2 (Or.inr ⟨hmem, hk⟩), Renews.refl c⟩
  · rw [hc] at hmem
    rcases Table.mem_put.1 hmem with rfl | ⟨hmem, -⟩
    · exact Or.inr ⟨pod, sa, aud, _, hrun, rfl⟩
    · exact hsrc c hmem

/-! ### The run -/

lemma Steps.retains (hw : WellFormed inp) (hid : TokenIdsUnambiguous inp view) {φ : Phase}
    {b s t e : ViewState} (hpass : Passes inp view φ b e)
    (hbs : Steps (phaseCtx inp view φ) φ.index b s) (hsrc : ∀ c ∈ s.creds, Sourced inp view c)
    (hst : Steps (phaseCtx inp view φ) φ.index s t)
    (hte : Steps (phaseCtx inp view φ) φ.index t e) :
    Retains s t ∧ ∀ c ∈ t.creds, Sourced inp view c := by
  induction hst with
  | refl => exact ⟨Retains.refl s, hsrc⟩
  | @tail u v hsu huv ih =>
      obtain ⟨hk, hsrc'⟩ := ih (hte.head huv)
      obtain ⟨hk', hsrc''⟩ := huv.retains hw hid ⟨b, e, hpass, hbs.trans hsu, hte.head huv⟩ hsrc'
      exact ⟨hk.trans hk', hsrc''⟩

/-- A phase keeps everything. -/
lemma Passes.retains (hw : WellFormed inp) (hid : TokenIdsUnambiguous inp view) {φ : Phase}
    {s t : ViewState} (h : Passes inp view φ s t) (hsrc : ∀ c ∈ s.creds, Sourced inp view c) :
    Retains s t ∧ ∀ c ∈ t.creds, Sourced inp view c :=
  Steps.retains hw hid h .refl hsrc h.steps .refl

/-- The credentials after an interval are the run's. -/
lemma After.sourced (hw : WellFormed inp) (hid : TokenIdsUnambiguous inp view) {k : ℕ}
    {s : ViewState} (h : After inp view k s) : ∀ c ∈ s.creds, Sourced inp view c := by
  induction k generalizing s with
  | zero =>
      obtain ⟨b, t, hpass, hclose⟩ := h.passes
      rw [hclose.same]
      refine (hpass.retains hw hid ?_).2
      obtain ⟨p, hp, rfl⟩ := hpass.enters
      rcases returns_possibleHistory hp with ⟨hh, t', ht', rfl⟩ | ⟨-, rfl⟩
      · have hhist : Passes inp view .history _ t' := ⟨⟨hh, rfl⟩, returns_closure_opening.2 ht'⟩
        exact (hhist.retains hw hid fun c hc => Or.inl hc).2
      · exact fun c hc => Or.inl hc
  | succ k ih =>
      obtain ⟨b, t, hpass, hclose⟩ := h.passes
      rw [hclose.same]
      refine (hpass.retains hw hid ?_).2
      obtain ⟨u, a, hu, -, rfl⟩ := hpass.enters
      exact (ih hu : ∀ c ∈ u.creds, _)

end Engine

open Engine

/-- Everything kept for ever after an interval is still there after every later one, and every
credential is, perhaps renewed. -/
def AcquisitionPermanent (inp : AnalysisInput) (view : View) : Prop :=
  ∀ i j s t, i < j → After inp view i s → After inp view j t → Retains s t

/-- Acquisition is permanent where a credential id names one token of the run. -/
theorem acquisition_permanent {raw : Json} {inp : AnalysisInput} {view : View}
    (h : parseAnalysisInput raw = .ok inp) (hid : TokenIdsUnambiguous inp view) :
    AcquisitionPermanent inp view := by
  have hw := wellFormed_of_parse h
  intro i j s t hij hs ht
  induction j generalizing t with
  | zero => exact absurd hij (Nat.not_lt_zero i)
  | succ j ih =>
      obtain ⟨b, t', hpass, hclose⟩ := ht.passes
      obtain ⟨u, a, hu, -, rfl⟩ := hpass.enters
      have hlast : Retains u t := by
        have hk := (hpass.retains hw hid (hu.sourced hw hid)).1
        rw [hclose.same]
        exact ⟨hk.facts, hk.creds⟩
      rcases Nat.lt_succ_iff_lt_or_eq.1 hij with hlt | rfl
      · exact (ih u hlt hu).trans hlast
      · exact hs.unique hu ▸ hlast

/-- A document with a controlled Pod, a possessed credential of another service account that lasts
a little longer than the Pod's first token, and a wait. -/
def Sample.controlled (credentialId : String) : Json :=
  document
    [("service_accounts", .arr [account "n" "reader", account "n" "other"]),
      ("pods", .arr [pod "n" "p" "other" []])]
    [("credentials", .arr [credential credentialId "n" "reader" [("expires_at", .int 112)]]),
      ("initial_facts", .arr [fact "possesses_credential" [credentialId] "observed",
        fact "controls_pod" ["p"] "observed"]),
      ("remediation", .arr [action "wait" [("seconds", .int 5)]]),
      ("objectives", .arr [noSecretRead "o" "n" "x"])]

/-- The credential that is stored under an id after an interval. -/
def Sample.credentialAfter (inp : AnalysisInput) (view : View) (k : ℕ) (id : String) :
    Option CredentialSpec :=
  match runActions (viewCtx inp view) (inp.remediation.take k) (initialState (viewCtx inp view)) with
  | (.ok _, s) => s.creds.get? id
  | (.error _, _) => none

lemma Sample.exists_after {inp : AnalysisInput} {view : View} {k : ℕ} {id : String}
    {c : CredentialSpec} (hk : k ≤ inp.remediation.length)
    (h : Sample.credentialAfter inp view k id = some c) :
    ∃ s, After inp view k s ∧ c ∈ s.creds ∧ c.id = id := by
  unfold credentialAfter at h
  split at h
  next s hs => exact ⟨s, ⟨hk, hs⟩, Table.get?_eq_some_iff.1 h⟩
  · cases h

/-- Under the id of a token the credential is lost in the wait, though it has not expired. -/
theorem heldToken_not_permanent :
    ∃ inp, parseAnalysisInput (Sample.controlled "projected:p:api") = .ok inp ∧
      ¬AcquisitionPermanent inp .evidenceSupported := by
  obtain ⟨inp, hinp, hp⟩ := Sample.accepted (Sample.controlled "projected:p:api")
    (p := fun inp => inp.remediation.length == 1 &&
      (Sample.credentialAfter inp .evidenceSupported 0 "projected:p:api").any fun c =>
        (Sample.credentialAfter inp .evidenceSupported 1 "projected:p:api").any fun d =>
          d.username != c.username) (by decide +kernel)
  simp only [Bool.and_eq_true, beq_iff_eq, Option.any_eq_true, bne_iff_ne] at hp
  obtain ⟨hlen, c, hc, d, hd, hne⟩ := hp
  obtain ⟨s, hs, hcs, hcid⟩ := Sample.exists_after (Nat.zero_le _) hc
  obtain ⟨t, ht, hdt, hdid⟩ := Sample.exists_after hlen.ge hd
  refine ⟨inp, hinp, fun hperm => ?_⟩
  obtain ⟨e, he, hren⟩ := (hperm 0 1 s t zero_lt_one hs ht).creds c hcs
  obtain rfl := Table.eq_of_key_eq he hdt (hren.id.trans (hcid.trans hdid.symm))
  exact hne hren.username

end Afterlock
