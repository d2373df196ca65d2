import Afterlock.Reference.Checks

/-!
# Credentials and admission are judged alike

The reference checker judges a credential as the engine does (`Represents.credOk`), where both look
at the expiry alike.  Admission differs where a policy has `null` in the place of a list of service
accounts: the parser takes it for an empty list, which allows none, the reference checker for no
restriction (`admission_agrees_iff`).
-/

namespace Afterlock.Reference

open Parse

/-! ### Credentials -/

def credTuple (c : CredentialSpec) : CredTuple :=
  { id := c.id, kind := c.kind, user := c.username, saUid := c.saUid, podUid := c.boundPodUid,
    aud := c.audience, exp := c.expiresAt }

/-- The engine's decision on a credential. -/
def verdict (u : Usability) : CredCheck :=
  if u.supported then if u.usable then .ok else .bad else .unsupported

section

variable {env : Env} {r : EnvTuple} {st : Static} {profile : Profile} {c : CredentialSpec}

/-- Each check of a credential is one list of reasons of the engine. -/
def check (reasons : List String) : CredCheck := if reasons = [] then .ok else .bad

lemma Represents.boundOk (h : Represents env r) (sa : String × String) :
    Reference.boundOk r (credTuple c) sa = check (boundPodReasons env c sa) := by
  unfold Reference.boundOk boundPodReasons
  simp only [show (credTuple c).podUid = c.boundPodUid from rfl]
  cases c.boundPodUid with
  | none => rfl
  | some uid =>
      simp only
      rw [h.pods.find? (k := uid) fun p _ => rfl]
      cases env.pods.get? uid with
      | none => rfl
      | some pod =>
          by_cases hp : (pod.ns, pod.serviceAccount) = sa
          · simp [hp, podTuple, check]
          · simp [hp, podTuple, check]

lemma check_append (xs ys : List String) :
    check (xs ++ ys) = if xs = [] then check ys else .bad := by
  by_cases hx : xs = []
  · simp [hx]
  · simp [check, hx]

lemma Represents.accountOk (h : Represents env r) (sa : String × String) :
    Reference.accountOk r (credTuple c) sa =
      check (accountReasons env c sa ++ boundPodReasons env c sa) := by
  unfold Reference.accountOk
  rw [check_append, h.boundOk, h.sas.find? (k := sa) fun s _ => by
    rw [Bool.eq_iff_iff, beq_iff_eq, decide_eq_true_eq]
    rfl]
  unfold accountReasons
  simp only [show (credTuple c).saUid = c.saUid from rfl]
  cases env.serviceAccounts.get? sa with
  | none => simp
  | some acct =>
      cases c.saUid with
      | none => simp
      | some u =>
          by_cases hu : acct.uid = u
          · simp [hu, saTuple]
          · simp [hu, saTuple, Ne.symm hu]

/-- The decision of the engine, one check after the other. -/
lemma verdict_credentialUsable {t : ℤ} : verdict (credentialUsable env c profile (some t)) =
    if c.kind ≠ "sa_token" then .unsupported
    else match parseSaUsername c.username with
      | none => .unsupported
      | some sa => check (expiryReasons c t true ++ (audienceReasons c profile ++
          (accountReasons env c sa ++ boundPodReasons env c sa))) := by
  unfold credentialUsable verdict
  by_cases hk : c.kind = "sa_token"
  swap
  · simp [hk]
  simp only [hk, ne_eq, not_true_eq_false, if_false]
  cases parseSaUsername c.username with
  | none => rfl
  | some sa =>
      simp only [Option.getD_some, Option.isSome_some, List.append_assoc, check]
      by_cases hp : expiryReasons c t true ++ (audienceReasons c profile ++
          (accountReasons env c sa ++ boundPodReasons env c sa)) = []
      · rw [if_pos hp, if_pos hp]
        rfl
      · rw [if_neg hp, if_neg hp]
        rfl

/-- The checks agree on a credential, where its expiry is judged alike. -/
lemma Represents.credOk (h : Represents env r) (haud : st.apiAuds = profile.apiAudiences)
    {w : Option (Option ℤ × ℤ)} {t : ℤ}
    (ht : ∀ e, c.expiresAt = some e → (t < e ↔ ∀ s, earliest r w = some s → s < e)) :
    Reference.credOk st r (credTuple c) w = verdict (credentialUsable env c profile (some t)) := by
  rw [verdict_credentialUsable]
  unfold Reference.credOk
  by_cases hk : c.kind = "sa_token"
  swap
  · simp [credTuple, hk]
  simp only [saOf_eq, h.accountOk, show (credTuple c).kind = c.kind from rfl,
    show (credTuple c).user = c.username from rfl, hk, ne_eq, not_true_eq_false, if_false]
  cases parseSaUsername c.username with
  | none => rfl
  | some sa =>
      have hexp : ((credTuple c).exp.any fun e => (earliest r w).any fun t => !decide (t < e)) =
          !decide (expiryReasons c t true = []) := by
        rw [Bool.eq_iff_iff]
        simp only [Option.any_eq_true, Bool.not_eq_true', decide_eq_false_iff_not,
          expiryReasons_eq_nil_iff]
        constructor
        · rintro ⟨e, he, s, hs, hse⟩ hall
          exact hse ((ht e he).1 (hall e he) s hs)
        · intro hne
          obtain ⟨e, hne⟩ := not_forall.1 hne
          obtain ⟨he, hte⟩ := Classical.not_imp.1 hne
          rw [ht e he] at hte
          obtain ⟨s, hs⟩ := not_forall.1 hte
          obtain ⟨hs, hse⟩ := Classical.not_imp.1 hs
          exact ⟨e, he, s, hs, hse⟩
      have haudience : ((credTuple c).aud ∉ st.apiAuds) ↔ ¬audienceReasons c profile = [] := by
        rw [haud, audienceReasons_eq_nil_iff]
        rfl
      simp only [hexp, haudience, check_append (expiryReasons c t true),
        check_append (audienceReasons c profile), Bool.not_eq_true', decide_eq_false_iff_not,
        ite_not]

end

/-! ### Admission -/

/-- The entry that counts for a creator. -/
def entryKey (allowed : Json.Fields) (creator : String) : String :=
  if Json.has allowed creator then creator else "*"

/-- The policy gives the creator, or else every creator, `null` for the service accounts. -/
def nullEntry (p : Json.Fields) (creator : String) : Bool :=
  match obj? (Json.orElse (Json.get p "allowed_service_accounts") (.obj [])) with
  | none => false
  | some allowed => nullAt allowed (entryKey allowed creator)

section

/-- What a list of parsers returns has the keys of what it reads. -/
lemma map_of_mapM_eq_ok {α β κ : Type} {f : α → Parsed β} {g : α → κ} {g' : β → κ} {xs : List α}
    {ys : List β} (h : xs.mapM f = .ok ys) (hf : ∀ x y, f x = .ok y → g' y = g x) :
    ys.map g' = xs.map g := by
  induction xs generalizing ys with
  | nil =>
      rw [List.mapM_nil, pure_eq_ok] at h
      subst h
      rfl
  | cons x xs ih =>
      rw [List.mapM_cons, bind_eq_ok] at h
      obtain ⟨y, hy, h⟩ := h
      obtain ⟨zs, hzs, h⟩ := bind_eq_ok.1 h
      rw [pure_eq_ok] at h
      subst h
      rw [List.map_cons, List.map_cons, ih hzs, hf x y hy]

/-- Every element of a list is parsed. -/
lemma exists_of_mapM_eq_ok {α β : Type} {f : α → Parsed β} {xs : List α} {ys : List β}
    (h : xs.mapM f = .ok ys) {x : α} (hx : x ∈ xs) : ∃ y ∈ ys, f x = .ok y := by
  induction xs generalizing ys with
  | nil => cases hx
  | cons z xs ih =>
      rw [List.mapM_cons, bind_eq_ok] at h
      obtain ⟨y, hy, h⟩ := h
      obtain ⟨zs, hzs, h⟩ := bind_eq_ok.1 h
      rw [pure_eq_ok] at h
      subst h
      rcases List.mem_cons.1 hx with rfl | hx
      · exact ⟨y, List.mem_cons_self, hy⟩
      · obtain ⟨w, hw, hf⟩ := ih hzs hx
        exact ⟨w, List.mem_cons_of_mem _ hw, hf⟩

variable {allowed : Json.Fields} {es : List (String × List String)}

lemma allowedEntry_eq_ok {kv : String × Json} {e : String × List String}
    (h : allowedEntry kv = .ok e) :
    e.1 = kv.1 ∧ strs kv.2 "inventory.admission_policies.allowed" = .ok e.2 := by
  obtain ⟨names, hnames, h⟩ := bind_eq_ok.1 h
  obtain rfl := pure_eq_ok.1 h
  exact ⟨rfl, hnames⟩

/-- The entry of a creator in a policy, parsed. -/
lemma lookup_allowed (h : (Json.items allowed).mapM allowedEntry = .ok es) (k : String) :
    match allowed.lookup k with
    | none => (Text.sortedBy (fun e => e.1) es).lookup k = none
    | some v => ∃ names, strs v "inventory.admission_policies.allowed" = .ok names ∧
        (Text.sortedBy (fun e => e.1) es).lookup k = some names := by
  have hkeys : es.map Prod.fst = (Json.items allowed).map Prod.fst :=
    map_of_mapM_eq_ok h fun kv e he => (allowedEntry_eq_ok he).1
  cases hl : allowed.lookup k with
  | none =>
      refine lookup_eq_none fun e he hk => ?_
      have hmem : k ∈ (Json.items allowed).map Prod.fst :=
        hkeys ▸ List.mem_map.2 ⟨e, Text.mem_sortedBy.1 he, hk⟩
      obtain ⟨⟨k', v⟩, hkv, rfl⟩ := List.mem_map.1 hmem
      rw [Json.mem_items.1 hkv] at hl
      cases hl
  | some v =>
      obtain ⟨e, he, hparse⟩ := exists_of_mapM_eq_ok h (Json.mem_items.2 hl)
      obtain ⟨hk, hnames⟩ := allowedEntry_eq_ok hparse
      refine ⟨e.2, hnames, lookup_of_mem ?_ (Text.mem_sortedBy.2 ?_)⟩
      · exact nodup_map_sortedBy (hkeys ▸ Json.nodup_items allowed)
      · rwa [← show e.1 = k from hk]

lemma allowedNames_eq {m : Json.Fields}
    (h : obj? (Json.orElse (Json.get m "allowed_service_accounts") (.obj [])) = some allowed)
    (creator : String) :
    allowedNames m creator = some (Json.get allowed (entryKey allowed creator)) := by
  unfold allowedNames entryKey Json.has Json.get
  simp only [Json.get] at h
  rw [h]
  simp only [Option.bind_eq_bind, Option.bind_some]
  cases hl : allowed.lookup creator with
  | none => simp
  | some v => simp [hl]

lemma namesFor_eq {p : AdmissionPolicy} (h : (Json.items allowed).mapM allowedEntry = .ok es)
    (hp : p.allowedServiceAccounts = Text.sortedBy (fun e => e.1) es) (creator : String) :
    p.namesFor creator =
      (Text.sortedBy (fun e => e.1) es).lookup (entryKey allowed creator) := by
  unfold AdmissionPolicy.namesFor entryKey Json.has
  have hc := lookup_allowed h creator
  rw [hp]
  cases hl : allowed.lookup creator with
  | none =>
      rw [hl] at hc
      rw [show (Text.sortedBy (fun e => e.1) es).lookup creator = none from hc]
      rfl
  | some v =>
      rw [hl] at hc
      obtain ⟨names, -, hn⟩ := hc
      rw [hn]
      exact hn.symm

/-- A policy forbids a creator a service account in the engine too, and it does where the entry of
the creator is `null`. -/
lemma forbids_eq {m : Json.Fields} {p : AdmissionPolicy} (h : admissionPolicy (.obj m) = .ok p)
    (creator sa : String) :
    ∃ b, forbids m creator sa = some b ∧ p.denies creator sa = (b || nullEntry m creator) := by
  simp only [admissionPolicy, bind_eq_ok, pure_eq_ok] at h
  obtain ⟨m', hm, allowed, hallowed, es, hes, ns, -, name, -, kind, -, rfl⟩ := h
  obtain rfl := Except.ok.inj hm
  have hobj : obj? (Json.orElse (Json.get m "allowed_service_accounts") (.obj [])) =
      some allowed := by
    rw [obj_eq_ok hallowed]
    rfl
  have hentry := lookup_allowed hes (entryKey allowed creator)
  have hnull : nullEntry m creator = nullAt allowed (entryKey allowed creator) := by
    rw [nullEntry, hobj]
  unfold forbids AdmissionPolicy.denies
  rw [allowedNames_eq hobj, namesFor_eq hes rfl, hnull]
  simp only [Option.bind_eq_bind, Option.bind_some, Json.get, nullAt]
  cases hl : allowed.lookup (entryKey allowed creator) with
  | none =>
      rw [hl] at hentry
      rw [show (Text.sortedBy (fun e => e.1) es).lookup _ = none from hentry]
      exact ⟨false, rfl, rfl⟩
  | some v =>
      rw [hl] at hentry
      obtain ⟨names, hnames, hn⟩ := hentry
      rw [hn]
      cases v with
      | null =>
          -- the engine takes `null` for an empty list, the checker for no entry
          obtain rfl := Except.ok.inj hnames
          exact ⟨false, rfl, rfl⟩
      | arr xs =>
          obtain ⟨ys, hys, hstr⟩ := bind_eq_ok.1 hnames
          have hxs : ys = xs := by
            simp only [list] at hys
            split_ifs at hys
            · simp at hys
            · exact (Except.ok.inj hys).symm
          subst hxs
          refine ⟨!names.contains "*" && !names.contains sa, ?_, ?_⟩
          · simp only [Option.getD_some, mapM_asStr?_of_strEntries hstr, Option.bind_some]
            rfl
          · simp
      | _ =>
          -- anything but a list has been refused
          obtain ⟨ys, hys, -⟩ := bind_eq_ok.1 hnames
          simp [list] at hys

/-- The raw policies, each with what the parser makes of it. -/
lemma pairs_of_mapM {xs : List Json} {ps : List AdmissionPolicy}
    (h : xs.mapM admissionPolicy = .ok ps) :
    ∃ prs : List (Json.Fields × AdmissionPolicy), xs = prs.map (fun e => Json.obj e.1) ∧
      ps = prs.map Prod.snd ∧ ∀ e ∈ prs, admissionPolicy (.obj e.1) = .ok e.2 := by
  induction xs generalizing ps with
  | nil =>
      rw [List.mapM_nil, pure_eq_ok] at h
      subst h
      exact ⟨[], rfl, rfl, by simp⟩
  | cons x xs ih =>
      rw [List.mapM_cons, bind_eq_ok] at h
      obtain ⟨p, hp, h⟩ := h
      obtain ⟨qs, hqs, h⟩ := bind_eq_ok.1 h
      rw [pure_eq_ok] at h
      subst h
      obtain ⟨prs, rfl, rfl, hall⟩ := ih hqs
      obtain ⟨m, hm, -⟩ := bind_eq_ok.1 hp
      obtain rfl := obj_eq_ok hm
      exact ⟨(m, p) :: prs, rfl, rfl, List.forall_mem_cons.2 ⟨hp, hall⟩⟩

lemma policy_fields {m : Json.Fields} {p : AdmissionPolicy}
    (h : admissionPolicy (.obj m) = .ok p) :
    str? m "namespace" = some p.ns ∧ str? m "kind" = some p.kind := by
  simp only [admissionPolicy, bind_eq_ok, pure_eq_ok] at h
  obtain ⟨m', hm, allowed, -, es, -, ns, hns, name, -, kind, hkind, rfl⟩ := h
  obtain rfl := Except.ok.inj hm
  exact ⟨str?_of_reqStr hns, str?_of_reqStr hkind⟩

/-- The outcome of admission among some policies: whether one is unsupported, and whether one
denies. -/
def outcome (unsupported denied : Bool) : AdmissionOutcome :=
  if unsupported then .unsupported else if denied then .deny else .allow

lemma outcome_inj {u d d' : Bool} : outcome u d = outcome u d' ↔ u = true ∨ d = d' := by
  cases u <;> cases d <;> cases d' <;> simp [outcome]

lemma admissionDecision_outcome {env : Env} {creator ns sa : String} :
    (admissionDecision env creator ns sa).outcome =
      outcome ((env.admission.filter fun p => p.ns == ns).any fun p => !p.supported)
        ((env.admission.filter fun p => p.ns == ns).any fun p => p.denies creator sa) := by
  unfold admissionDecision outcome
  generalize env.admission.filter (fun p => p.ns == ns) = relevant
  by_cases hu : (relevant.any fun p => !p.supported) = true
  · have hne : (relevant.filter fun p => !p.supported).map AdmissionPolicy.name ≠ [] := by
      obtain ⟨p, hp, hs⟩ := List.any_eq_true.1 hu
      exact List.map_eq_nil_iff.not.2 (List.ne_nil_of_mem (List.mem_filter.2 ⟨hp, hs⟩))
    rw [if_pos hu]
    simp only
    rw [if_pos hne]
  · have hnil : (relevant.filter fun p => !p.supported) = [] := by
      rw [List.filter_eq_nil_iff]
      exact fun p hp hs => hu (List.any_eq_true.2 ⟨p, hp, hs⟩)
    rw [if_neg hu]
    simp only [hnil, List.map_nil, ne_eq, not_true_eq_false, if_false]
    cases hf : relevant.find? fun p => p.denies creator sa with
    | none =>
        rw [List.find?_eq_none] at hf
        rw [if_neg fun h => by
          obtain ⟨p, hp, hd⟩ := List.any_eq_true.1 h
          exact hf p hp hd]
    | some p =>
        rw [if_pos (List.any_eq_true.2 ⟨p, List.mem_of_find?_eq_some hf, List.find?_some hf⟩)]

section

variable {prs : List (Json.Fields × AdmissionPolicy)} {st : Static} {env : Env}

lemma policiesIn_eq (hall : ∀ e ∈ prs, admissionPolicy (.obj e.1) = .ok e.2)
    (hst : st.admission = prs.map fun e => Json.obj e.1) (ns : String) :
    policiesIn st ns = some ((prs.filter fun e => e.2.ns == ns).map Prod.fst) := by
  have hobjs : (prs.map fun e => Json.obj e.1).mapM obj? = some (prs.map Prod.fst) :=
    mapM_map_eq _ fun e _ => rfl
  have hnamed : ((prs.map Prod.fst).mapM fun p => (str? p "namespace").bind fun n =>
      some (n, p)) = some (prs.map fun e => (e.2.ns, e.1)) :=
    mapM_map_eq _ fun e he => by
      rw [(policy_fields (hall e he)).1]
      rfl
  unfold policiesIn
  rw [hst, hobjs]
  refine (congrArg (Option.bind · _) hnamed).trans (congrArg some ?_)
  rw [List.filter_map, List.map_map]
  rfl

lemma admission_eq (hall : ∀ e ∈ prs, admissionPolicy (.obj e.1) = .ok e.2)
    (hst : st.admission = prs.map fun e => Json.obj e.1) (creator ns sa : String) :
    Reference.admission st creator ns sa =
      some (outcome ((prs.filter fun e => e.2.ns == ns).any fun e => !e.2.supported)
        ((prs.filter fun e => e.2.ns == ns).any fun e => (forbids e.1 creator sa).getD false)) := by
  unfold Reference.admission outcome
  rw [policiesIn_eq hall hst]
  have hhere : ∀ e ∈ prs.filter (fun e => e.2.ns == ns), admissionPolicy (.obj e.1) = .ok e.2 :=
    fun e he => hall e (List.mem_filter.1 he).1
  revert hhere
  generalize prs.filter (fun e => e.2.ns == ns) = here
  intro hhere
  have hkinds : (here.map Prod.fst).mapM (fun p => str? p "kind") =
      some (here.map fun e => e.2.kind) := mapM_map_eq _ fun e he => (policy_fields (hhere e he)).2
  have hforbids : (here.map Prod.fst).mapM (fun p => forbids p creator sa) =
      some (here.map fun e => (forbids e.1 creator sa).getD false) :=
    mapM_map_eq _ fun e he => by
      obtain ⟨b, hb, -⟩ := forbids_eq (hhere e he) creator sa
      rw [hb]
      rfl
  have hsup : ((here.map fun e => e.2.kind).any fun k => k != "service-account-restriction") =
      here.any fun e => !e.2.supported := by
    rw [List.any_map]
    rfl
  have hforb : (here.map fun e => (forbids e.1 creator sa).getD false).any id =
      here.any fun e => (forbids e.1 creator sa).getD false := by
    rw [List.any_map]
    rfl
  simp only [Option.bind_eq_bind, Option.bind_some, hkinds, hforbids, hsup, hforb]
  split_ifs <;> rfl

/-- A `null` entry makes no difference to admission in a namespace: one of its policies is
unsupported, or its other policies forbid the creator every service account. -/
def Moot (xs : List Json) (ns creator : String) : Prop :=
  (∃ q, .obj q ∈ xs ∧ str? q "namespace" = some ns ∧
      str? q "kind" ≠ some "service-account-restriction") ∨
    ∀ sa, ∃ q, .obj q ∈ xs ∧ str? q "namespace" = some ns ∧ forbids q creator sa = some true

lemma any_here_iff {p : Json.Fields × AdmissionPolicy → Bool} {ns : String} :
    ((prs.filter fun e => e.2.ns == ns).any p) = true ↔ ∃ e ∈ prs, e.2.ns = ns ∧ p e = true := by
  rw [List.any_eq_true]
  constructor
  · rintro ⟨e, he, hp⟩
    obtain ⟨he, hns⟩ := List.mem_filter.1 he
    exact ⟨e, he, beq_iff_eq.1 hns, hp⟩
  · rintro ⟨e, he, hns, hp⟩
    exact ⟨e, List.mem_filter.2 ⟨he, beq_iff_eq.2 hns⟩, hp⟩

/-- Admission agrees exactly if every `null` entry makes no difference. -/
lemma admission_agrees_iff (hall : ∀ e ∈ prs, admissionPolicy (.obj e.1) = .ok e.2)
    (hst : st.admission = prs.map fun e => Json.obj e.1)
    (henv : env.admission.Perm (prs.map Prod.snd)) :
    (∀ creator ns sa, Reference.admission st creator ns sa =
        some (admissionDecision env creator ns sa).outcome) ↔
      ∀ p, Json.obj p ∈ prs.map (fun e => Json.obj e.1) → ∀ ns creator,
        str? p "namespace" = some ns → nullEntry p creator = true →
          Moot (prs.map fun e => Json.obj e.1) ns creator := by
  have hmem : ∀ p, Json.obj p ∈ prs.map (fun e => Json.obj e.1) ↔ ∃ e ∈ prs, e.1 = p := fun p => by
    rw [List.mem_map]
    exact exists_congr fun e => and_congr_right fun _ => ⟨Json.obj.inj, congrArg Json.obj⟩
  have hany : ∀ ns (q : AdmissionPolicy → Bool), ((env.admission.filter fun p => p.ns == ns).any q) =
      ((prs.filter fun e => e.2.ns == ns).any fun e => q e.2) := by
    intro ns q
    rw [(henv.filter _).any_eq, List.filter_map, List.any_map]
    rfl
  have hagree : ∀ creator ns sa, Reference.admission st creator ns sa =
      some (admissionDecision env creator ns sa).outcome ↔
        ((prs.filter fun e => e.2.ns == ns).any fun e => !e.2.supported) = true ∨
        ((prs.filter fun e => e.2.ns == ns).any fun e => (forbids e.1 creator sa).getD false) =
          ((prs.filter fun e => e.2.ns == ns).any fun e => e.2.denies creator sa) := by
    intro creator ns sa
    rw [admission_eq hall hst, admissionDecision_outcome, hany, hany, Option.some.injEq,
      outcome_inj]
  simp only [hagree]
  constructor
  · intro h p hp ns creator hns hnull
    obtain ⟨e, he, rfl⟩ := (hmem p).1 hp
    have hens : e.2.ns = ns := Option.some.inj ((policy_fields (hall e he)).1.symm.trans hns)
    -- with an unsupported policy in the namespace both answer that they do not know
    by_cases hu : ∃ f ∈ prs, f.2.ns = ns ∧ (!f.2.supported) = true
    · -- the `null` entry makes no difference, because of the unsupported policy
      obtain ⟨f, hf, hfns, hsup⟩ := hu
      refine Or.inl ⟨f.1, (hmem f.1).2 ⟨f, hf, rfl⟩, ?_, ?_⟩
      · rw [(policy_fields (hall f hf)).1, hfns]
      · rw [(policy_fields (hall f hf)).2]
        simpa [AdmissionPolicy.supported] using hsup
    · -- the engine denies because of the entry, so the checker must deny because of another policy
      refine Or.inr fun sa => ?_
      have hd := (h creator ns sa).resolve_left fun hany => hu (any_here_iff.1 hany)
      obtain ⟨b, -, hden⟩ := forbids_eq (hall e he) creator sa
      have hdenied : ((prs.filter fun e => e.2.ns == ns).any fun e => e.2.denies creator sa) =
          true := any_here_iff.2 ⟨e, he, hens, by rw [hden, hnull, Bool.or_true]⟩
      obtain ⟨f, hf, hfns, hforb⟩ := any_here_iff.1 (hd.trans hdenied)
      refine ⟨f.1, (hmem f.1).2 ⟨f, hf, rfl⟩, ?_, ?_⟩
      · rw [(policy_fields (hall f hf)).1, hfns]
      · obtain ⟨b', hb', -⟩ := forbids_eq (hall f hf) creator sa
        rw [hb', Option.getD_some] at hforb
        rw [hb', hforb]
  · intro h creator ns sa
    by_cases hu : ((prs.filter fun e => e.2.ns == ns).any fun e => !e.2.supported) = true
    · exact Or.inl hu
    refine Or.inr (Bool.eq_iff_iff.2 ?_)
    rw [any_here_iff, any_here_iff]
    constructor
    · -- what the checker forbids the engine denies
      rintro ⟨e, he, hens, hforb⟩
      obtain ⟨b, hb, hden⟩ := forbids_eq (hall e he) creator sa
      rw [hb, Option.getD_some] at hforb
      exact ⟨e, he, hens, by rw [hden, hforb, Bool.true_or]⟩
    · -- what the engine denies the checker forbids, by this policy or by one that makes the entry
      -- moot
      rintro ⟨e, he, hens, hden⟩
      obtain ⟨b, hb, hden'⟩ := forbids_eq (hall e he) creator sa
      rw [hden', Bool.or_eq_true] at hden
      rcases hden with rfl | hnull
      · exact ⟨e, he, hens, by rw [hb, Option.getD_some]⟩
      · rcases h e.1 ((hmem e.1).2 ⟨e, he, rfl⟩) ns creator
          (by rw [(policy_fields (hall e he)).1, hens]) hnull with ⟨q, hq, hqns, hkind⟩ | hall'
        · obtain ⟨f, hf, rfl⟩ := (hmem q).1 hq
          rw [(policy_fields (hall f hf)).1, Option.some.injEq] at hqns
          rw [(policy_fields (hall f hf)).2] at hkind
          refine absurd (any_here_iff.2 ⟨f, hf, hqns, ?_⟩) hu
          simpa [AdmissionPolicy.supported] using hkind
        · obtain ⟨q, hq, hqns, hforb⟩ := hall' sa
          obtain ⟨f, hf, rfl⟩ := (hmem q).1 hq
          rw [(policy_fields (hall f hf)).1, Option.some.injEq] at hqns
          exact ⟨f, hf, hqns, by rw [hforb, Option.getD_some]⟩

end

end

end Afterlock.Reference
