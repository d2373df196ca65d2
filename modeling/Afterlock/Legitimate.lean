import Afterlock.Results
import Afterlock.Outcome

/-!
# Legitimate operations beside an attacker

The attacker's workloads change no account, role, binding, Secret or service, and have UIDs of their
own.  So whether a legitimate operation is preserved is decided by the inventory and the defender's
actions alone: the result is that of the remediation applied with nobody attacking
(`legitimate_alone`), and no difference between two cases in credentials, facts, objectives, gaps or
bounds can change it.
-/

namespace Afterlock

open Engine

namespace Over

variable {i : ℤ} {B E : Env} {uid : String}

/-- A Pod that is not one of the attacker's is the same with and without the attacker. -/
lemma get?_pods (h : Over i B E) (hu : isModelUid uid = false) :
    E.pods.get? uid = B.pods.get? uid := by
  refine Option.ext fun p => ?_
  rw [Table.get?_eq_some_iff, Table.get?_eq_some_iff]
  constructor
  · rintro ⟨hp, rfl⟩
    exact ⟨(h.pods p hu).1 hp, rfl⟩
  · rintro ⟨hp, rfl⟩
    exact ⟨h.mem_pods hp, rfl⟩

/-- The attacker's workloads authorize nobody. -/
lemma authorizingBindings (h : Over i B E) (user verb resource ns : String)
    (name : Option String) : Afterlock.authorizingBindings E user verb resource ns name =
      Afterlock.authorizingBindings B user verb resource ns name := by
  have hgrants : bindingGrants E user verb resource ns name =
      bindingGrants B user verb resource ns name := by
    funext b
    rw [bindingGrants, bindingGrants, h.roles]
  rw [Afterlock.authorizingBindings, Afterlock.authorizingBindings, h.bindings, hgrants]

lemma legitCanRead (h : Over i B E) (hu : isModelUid uid = false) (ns secret : String) :
    Afterlock.legitCanRead E uid ns secret = Afterlock.legitCanRead B uid ns secret := by
  unfold Afterlock.legitCanRead
  simp only [h.get?_pods hu, h.serviceAccounts, h.secrets, h.authorizingBindings]

lemma legitCanUseService (h : Over i B E) (hu : isModelUid uid = false) (service : String) :
    Afterlock.legitCanUseService E uid service = Afterlock.legitCanUseService B uid service := by
  unfold Afterlock.legitCanUseService
  simp only [h.legitCanRead hu, h.secrets, h.services]

lemma legitStatus (h : Over i B E) {inp : AnalysisInput}
    (hu : ∀ op ∈ inp.legitimateOperations, isModelUid op.podUid = false) :
    Afterlock.legitStatus inp E = Afterlock.legitStatus inp B := by
  refine List.map_congr_left fun op hop => ?_
  cases op.target with
  | readSecret ns secret => simp only [h.legitCanRead (hu op hop)]
  | useDownstream service => simp only [h.legitCanUseService (hu op hop)]

end Over

/-- The environment in which a complete run ends is that of the remediation, with workloads of the
attacker. -/
lemma over_finalEnv {inp : AnalysisInput} {view : View} (hw : WellFormed inp)
    (hb : (runView inp view .full).boundsExceeded = false) :
    Over inp.remediation.length (baseEnv inp inp.remediation.length)
      (runView inp view .full).finalEnv := by
  obtain ⟨s, hs⟩ := runView_completed.1 hb
  obtain ⟨t, ht, -, hclose⟩ := hs.during hw
  obtain ⟨B, rfl, hover⟩ := ht.over hw
  rw [runView_of_after hs, hclose.same]
  exact hover

/-- What a legitimate operation is told depends on the inventory, the time and the remediation only:
it is what holds after the remediation with no attacker, whatever the two cases say of attackers. -/
theorem legitimate_alone {raw raw' : Json} {inp inp' : AnalysisInput}
    (h : parseAnalysisInput raw = .ok inp) (h' : parseAnalysisInput raw' = .ok inp')
    (hinventory : inp'.inventory = inp.inventory) (htime : inp'.analysisTime = inp.analysisTime)
    (hremediation : inp'.remediation = inp.remediation)
    (hlegit : inp'.legitimateOperations = inp.legitimateOperations)
    (hu : ∀ op ∈ inp.legitimateOperations, isModelUid op.podUid = false)
    (hb : (runView inp .evidenceSupported .full).boundsExceeded = false)
    (hb' : (runView inp' .evidenceSupported .full).boundsExceeded = false) :
    (analyze inp .full).legitimateOperations =
        legitStatus inp (baseEnv inp inp.remediation.length) ∧
      (analyze inp' .full).legitimateOperations = (analyze inp .full).legitimateOperations := by
  have halone : ∀ {inp : AnalysisInput}, WellFormed inp →
      (∀ op ∈ inp.legitimateOperations, isModelUid op.podUid = false) →
      (runView inp .evidenceSupported .full).boundsExceeded = false →
      (analyze inp .full).legitimateOperations =
        legitStatus inp (baseEnv inp inp.remediation.length) :=
    fun hw hu hb => (over_finalEnv hw hb).legitStatus hu
  refine ⟨halone (wellFormed_of_parse h) hu hb, ?_⟩
  rw [halone (wellFormed_of_parse h) hu hb,
    halone (wellFormed_of_parse h') (by rwa [hlegit]) hb', hremediation]
  have hbase : ∀ k, baseEnv inp' k = baseEnv inp k := by
    intro k
    induction k with
    | zero => rw [baseEnv, baseEnv, inventoryEnv, inventoryEnv, hinventory, htime]
    | succ k ih => rw [baseEnv, baseEnv, ih, hremediation]
  rw [hbase, legitStatus, legitStatus, hlegit]

/-- A Pod that reads a Secret, in a case with the credentials and facts given. -/
def Sample.serving (credentials facts : List Json) : Json :=
  document
    [("service_accounts", .arr [account "n" "reader"]), ("pods", .arr [pod "n" "p" "reader" []]),
      ("roles", .arr [role "n" "read" ["get"] "secrets", role "n" "run" ["create"] "pods"]),
      ("bindings", .arr [binding "n" "read" "reader", binding "n" "run" "reader"]),
      ("secrets", .arr [secret "n" "x"])]
    [("credentials", .arr credentials), ("initial_facts", .arr facts),
      ("remediation", .arr [action "wait" [("seconds", .int 5)]]),
      ("objectives", .arr [noSecretRead "o" "n" "x"]),
      ("legitimate_operations", .arr [.obj [("id", .str "op"), ("kind", .str "read_secret"),
        ("pod_uid", .str "p"), ("namespace", .str "n"), ("secret", .str "x")]])]

/-- The two cases differ in the attacker only, and their runs are complete. -/
def Sample.alike (inp inp' : AnalysisInput) : Bool :=
  decide (inp'.inventory = inp.inventory) && decide (inp'.analysisTime = inp.analysisTime) &&
    decide (inp'.remediation = inp.remediation) &&
    decide (inp'.legitimateOperations = inp.legitimateOperations) &&
    decide (∀ op ∈ inp.legitimateOperations, isModelUid op.podUid = false) &&
    !(runView inp .evidenceSupported .full).boundsExceeded &&
    !(runView inp' .evidenceSupported .full).boundsExceeded

/-- Without and with an attacker who holds a token of the account of the Pod. -/
theorem served_alone : ∃ inp inp',
    parseAnalysisInput (Sample.serving [] []) = .ok inp ∧
      parseAnalysisInput (Sample.serving [Sample.credential "c" "n" "reader" []]
        [Sample.fact "possesses_credential" ["c"] "observed"]) = .ok inp' ∧
      (analyze inp .full).legitimateOperations =
        legitStatus inp (baseEnv inp inp.remediation.length) ∧
      (analyze inp' .full).legitimateOperations = (analyze inp .full).legitimateOperations := by
  obtain ⟨inp', hinp', hp⟩ := Sample.accepted (Sample.serving [Sample.credential "c" "n" "reader" []]
      [Sample.fact "possesses_credential" ["c"] "observed"])
    (p := fun inp' => (parseAnalysisInput (Sample.serving [] [])).toOption.any fun inp =>
      Sample.alike inp inp') (by decide +kernel)
  obtain ⟨inp, hinp, hp⟩ := Sample.accepted _ hp
  simp only [Sample.alike, Bool.and_eq_true, decide_eq_true_eq, Bool.not_eq_true'] at hp
  obtain ⟨⟨⟨⟨⟨⟨hinv, htime⟩, hrem⟩, hlegit⟩, hu⟩, hb⟩, hb'⟩ := hp
  exact ⟨inp, inp', hinp, hinp', legitimate_alone hinp hinp' hinv htime hrem hlegit hu hb hb'⟩

end Afterlock
