import Afterlock.Reference.Reading

/-!
# Lockstep

The environments of both checkers start from the inventory and are moved by the same defender
actions and reconciliations.  They represent the same objects after every step
(`lockstep_iff`), as long as no action gives the objects to keep as `null`.
-/

namespace Afterlock.Reference

open Parse

/-! ### The inventory -/

section

variable {raw : Json}

lemma obj_eq_ok {loc : String} {m : Json.Fields} (h : obj raw loc = .ok m) : raw = .obj m := by
  cases raw with
  | obj m' => rw [Except.ok.inj h]
  | _ => simp [obj] at h

lemma saTuple?_eq {a : ServiceAccount} (h : serviceAccount raw = .ok a) :
    saTuple? raw = some (saTuple a) := by
  simp only [serviceAccount, bind_eq_ok, pure_eq_ok] at h
  obtain ⟨m, hm, ns, hns, name, hname, uid, huid, rfl⟩ := h
  rw [obj_eq_ok hm]
  simp only [saTuple?, obj?, str?_of_reqStr hns, str?_of_reqStr hname, str?_of_reqStr huid,
    Option.bind_eq_bind, Option.bind_some]
  rfl

/-- A list that is absent is empty. -/
lemma strings?_of_not_has {m : Json.Fields} {key : String} (h : ¬Json.has m key = true) :
    strings? m key = some [] := by
  have hnone : m.lookup key = none := by
    rwa [Json.has, Option.isSome_iff_ne_none, not_not] at h
  rw [strings?, entries?, hnone]
  rfl

lemma podTuple?_eq {p : Pod} (h : pod raw = .ok p)
    (hn : ∀ m, raw = .obj m → nullAt m "token_audiences" = false) :
    podTuple? raw = some (podTuple p) := by
  obtain ⟨m, hm, h⟩ := bind_eq_ok.1 h
  have hraw := obj_eq_ok hm
  rw [hraw]
  by_cases hk : Json.has m "token_audiences" = true
  · rw [if_pos hk] at h
    simp only [bind_eq_ok, pure_eq_ok] at h
    obtain ⟨auds, hauds, ns, hns, name, hname, uid, huid, sa, hsa, ctrl, hctrl, rfl⟩ := h
    simp only [podTuple?, obj?, str?_of_reqStr hns, str?_of_reqStr hname, str?_of_reqStr huid,
      str?_of_reqStr hsa, strings?_of_strs hauds (hn m hraw), optStr?_of_optStr hctrl,
      Option.bind_eq_bind, Option.bind_some]
    rfl
  · rw [if_neg hk] at h
    simp only [bind_eq_ok, pure_eq_ok] at h
    obtain ⟨auds, rfl, ns, hns, name, hname, uid, huid, sa, hsa, ctrl, hctrl, rfl⟩ := h
    simp only [podTuple?, obj?, str?_of_reqStr hns, str?_of_reqStr hname, str?_of_reqStr huid,
      str?_of_reqStr hsa, strings?_of_not_has hk, optStr?_of_optStr hctrl, Option.bind_eq_bind,
      Option.bind_some]
    rfl

lemma ctrlTuple?_eq {c : Controller} (h : controller raw = .ok c)
    (hn : ∀ m, raw = .obj m → nullAt m "token_audiences" = false) :
    ctrlTuple? raw = some (ctrlTuple c) := by
  obtain ⟨m, hm, h⟩ := bind_eq_ok.1 h
  have hraw := obj_eq_ok hm
  rw [hraw]
  by_cases hk : Json.has m "token_audiences" = true
  · rw [if_pos hk] at h
    simp only [bind_eq_ok, pure_eq_ok] at h
    obtain ⟨auds, hauds, ns, hns, name, hname, uid, huid, sa, hsa, rfl⟩ := h
    simp only [ctrlTuple?, obj?, str?_of_reqStr hns, str?_of_reqStr hname, str?_of_reqStr huid,
      str?_of_reqStr hsa, strings?_of_strs hauds (hn m hraw), Option.bind_eq_bind,
      Option.bind_some]
    rfl
  · rw [if_neg hk] at h
    simp only [bind_eq_ok, pure_eq_ok] at h
    obtain ⟨auds, rfl, ns, hns, name, hname, uid, huid, sa, hsa, rfl⟩ := h
    simp only [ctrlTuple?, obj?, str?_of_reqStr hns, str?_of_reqStr hname, str?_of_reqStr huid,
      str?_of_reqStr hsa, strings?_of_not_has hk, Option.bind_eq_bind, Option.bind_some]
    rfl

lemma bindingKey?_eq {b : RoleBinding} (h : binding raw = .ok b) :
    bindingKey? raw = some b.ident := by
  simp only [binding, bind_eq_ok, pure_eq_ok] at h
  obtain ⟨m, hm, _, -, _, -, ns, hns, _, -, _, -, _, -, name, hname, _, -, rfl⟩ := h
  rw [obj_eq_ok hm]
  simp only [bindingKey?, obj?, optStr?_of_optStr hns, str?_of_reqStr hname, Option.bind_eq_bind,
    Option.bind_some]
  rfl

lemma secretTuple?_eq {s : Secret} (h : secret raw = .ok s) :
    secretTuple? raw = some (secretTuple s) := by
  simp only [secret, bind_eq_ok, pure_eq_ok] at h
  obtain ⟨m, hm, _, -, version, hversion, ns, hns, name, hname, _, -, rfl⟩ := h
  rw [obj_eq_ok hm]
  simp only [secretTuple?, obj?, str?_of_reqStr hns, str?_of_reqStr hname, int?_of_reqInt hversion,
    Option.bind_eq_bind, Option.bind_some]
  rfl

lemma serviceTuple?_eq {s : DownstreamService} (h : service raw = .ok s) :
    serviceTuple? raw = some (serviceTuple s) := by
  simp only [service, bind_eq_ok, pure_eq_ok] at h
  obtain ⟨m, hm, version, hversion, delay, hdelay, name, hname, ns, hns, source, hsource, rfl⟩ := h
  rw [obj_eq_ok hm]
  simp only [serviceTuple?, obj?, str?_of_reqStr hns, str?_of_reqStr hname, str?_of_reqStr hsource,
    int?_of_reqInt hversion, intOrZero?_of_optInt hdelay, Option.bind_eq_bind, Option.bind_some]
  rfl

lemma service_range {s : DownstreamService} (h : service raw = .ok s) :
    0 ≤ s.acceptedVersion ∧ 0 ≤ s.rotationPropagationSeconds := by
  simp only [service, bind_eq_ok, pure_eq_ok] at h
  obtain ⟨m, hm, version, hversion, delay, hdelay, _, -, _, -, _, -, rfl⟩ := h
  have hv := le_of_reqInt_eq_ok hversion
  refine ⟨by simpa using (by omega : (0 : ℤ) ≤ version), ?_⟩
  cases delay with
  | none => simp
  | some d => exact le_of_optInt_eq_ok hdelay

end

/-- The lists of the inventory that the environment is made of are absent or lists. -/
structure ListsGiven (m : Json.Fields) : Prop where
  lists : ∀ key ∈ ["service_accounts", "pods", "controllers", "bindings", "secrets", "services"],
    nullAt m key = false
  audiences : ∀ key ∈ ["pods", "controllers"], ∀ xs, entries? m key = some xs →
    ∀ p, Json.obj p ∈ xs → nullAt p "token_audiences" = false

section

variable {m : Json.Fields} {inv : Inventory}

lemma shows_frozenset {α β κ κ' : Type} [DecidableEq β] [DecidableEq κ] [LE κ'] [DecidableLE κ']
    {key : α → κ} {sort : α → κ'} {f : α → β} {ys : List α}
    (hn : ((Text.sortedBy sort ys).map key).Nodup) :
    Shows f (Table.ofList (Text.sortedBy sort ys) : Table key) (frozenset (ys.map f)) := by
  refine Shows.ofList hn fun y => ?_
  simp only [frozenset, List.mem_dedup, List.mem_map, Text.mem_sortedBy]

/-- Both start from the same objects. -/
theorem represents_fromInventory (h : inventory m = .ok inv) (hl : ListsGiven m) (t : ℤ) :
    ∃ r, env0 m t = some r ∧ Represents (Env.fromInventory inv t) r := by
  have hw := inventory_wellFormed h
  simp only [inventory, bind_eq_ok, pure_eq_ok] at h
  obtain ⟨rsas, hrsas, sas, hsas, rpods, hrpods, pods, hpods, rctrls, hrctrls, ctrls, hctrls, _, -,
    roles, -, rbinds, hrbinds, binds, hbinds, rsecs, hrsecs, secs, hsecs, rsvcs, hrsvcs, svcs,
    hsvcs, _, -, policies, -, _, -, _, -, _, -, _, -, _, -, _, -, _, -, _, -, _, -, _, -, _, -, rfl⟩ := h
  have hnull : ∀ key ∈ ["service_accounts", "pods", "controllers", "bindings", "secrets", "services"],
      nullAt m key = false := hl.lists
  have epods := entries?_of_list hrpods (hnull "pods" (by simp))
  have ectrls := entries?_of_list hrctrls (hnull "controllers" (by simp))
  refine ⟨{ time := t
            sas := frozenset (sas.map saTuple)
            pods := frozenset (pods.map podTuple)
            ctrls := frozenset (ctrls.map ctrlTuple)
            bindings := frozenset (binds.map RoleBinding.ident)
            secrets := frozenset (secs.map secretTuple)
            services := frozenset (svcs.map serviceTuple)
            counters := [] }, ?_, ?_⟩
  · -- the checker reads the same objects, list by list
    simp only [env0, entries?_of_list hrsas (hnull "service_accounts" (by simp)), epods, ectrls,
      entries?_of_list hrbinds (hnull "bindings" (by simp)),
      entries?_of_list hrsecs (hnull "secrets" (by simp)),
      entries?_of_list hrsvcs (hnull "services" (by simp)), Option.bind_eq_bind, Option.bind_some,
      mapM_of_mapM hsas fun _ _ _ hy => saTuple?_eq hy,
      mapM_of_mapM hpods fun x hx _ hy => podTuple?_eq hy fun p hp =>
        hl.audiences "pods" (by simp) _ epods p (hp ▸ hx),
      mapM_of_mapM hctrls fun x hx _ hy => ctrlTuple?_eq hy fun c hc =>
        hl.audiences "controllers" (by simp) _ ectrls c (hc ▸ hx),
      mapM_of_mapM hbinds fun _ _ _ hy => bindingKey?_eq hy,
      mapM_of_mapM hsecs fun _ _ _ hy => secretTuple?_eq hy,
      mapM_of_mapM hsvcs fun _ _ _ hy => serviceTuple?_eq hy]
    rfl
  · refine ⟨rfl, shows_frozenset hw.accounts, shows_frozenset hw.pods,
      shows_frozenset hw.controllers, shows_frozenset hw.bindings, shows_frozenset hw.secrets,
      shows_frozenset hw.services, fun cuid => rfl, List.nodup_dedup _, fun s hs => ?_⟩
    obtain ⟨x, -, hx⟩ := mem_of_mapM_eq_ok hsvcs (Text.mem_sortedBy.1 (Table.mem_of_mem_ofList hs))
    exact service_range hx

end

/-! ### Runs -/

/-- A move of both environments: a raw defender action, with what the parser makes of it, or a
reconciliation. -/
inductive Move where
  | act (raw : Json) (a : DefenderAction)
  | reconcile

namespace Move

/-- The parser accepts the raw action of the move. -/
def Accepted : Move → Prop
  | act raw a => ∃ loc, action loc raw = .ok a
  | reconcile => True

def engine (env : Env) : Move → Env
  | act _ a => (applyDefenderAction env a).1
  | reconcile => (reconcileControllers env).1

def reference (r : EnvTuple) : Move → Option EnvTuple
  | act raw _ => defend r raw
  | reconcile => some (Reference.reconcile r)

end Move

/-- The engine's environment after some moves. -/
def engineRun (inv : Inventory) (t : ℤ) (moves : List Move) : Env :=
  moves.foldl Move.engine (Env.fromInventory inv t)

/-- The tuple of the reference checker after some moves, if none raises an exception. -/
def referenceRun (m : Json.Fields) (t : ℤ) (moves : List Move) : Option EnvTuple := do
  moves.foldlM Move.reference (← env0 m t)

/-- An environment and a tuple represent the same objects, and each service accepts the same
versions now and at every later time. -/
structure Same (env : Env) (r : EnvTuple) : Prop where
  objects : Represents env r
  accepts : ∀ svc ∈ env.services, ∀ version t, env.time ≤ t →
    svc.accepts version t = honours { r with time := t } (serviceTuple svc) version

lemma accepts_eq_honours (svc : DownstreamService) (version : ℤ) (r : EnvTuple) :
    svc.accepts version r.time = honours r (serviceTuple svc) version := by
  unfold DownstreamService.accepts honours
  rw [Bool.eq_iff_iff]
  by_cases h : svc.acceptedVersion = version
  · simp [serviceTuple, h]
  · rw [show (serviceTuple svc).accepted = svc.acceptedVersion from rfl, if_neg h]
    simp only [serviceTuple, List.any_eq_true, Bool.or_eq_true, Bool.and_eq_true, beq_iff_eq,
      decide_eq_true_eq, List.mem_toFinset]
    exact or_iff_right fun hv => h hv.symm

lemma Represents.same {env : Env} {r : EnvTuple} (h : Represents env r) : Same env r :=
  ⟨h, fun svc _ version t _ => accepts_eq_honours svc version { r with time := t }⟩

/-- A move is made in both, unless it gives the objects to keep as `null`. -/
lemma Represents.move {env : Env} {r : EnvTuple} (h : Represents env r) {x : Move}
    (hx : x.Accepted) (hn : ∀ raw a, x = .act raw a → keepsNull raw = false) :
    ∃ r', x.reference r = some r' ∧ Represents (x.engine env) r' := by
  cases x with
  | act raw a =>
      obtain ⟨loc, ha⟩ := hx
      exact h.apply ha (hn raw a rfl)
  | reconcile => exact ⟨_, rfl, h.reconcile⟩

lemma Represents.moves {env : Env} {r : EnvTuple} (h : Represents env r) {moves : List Move}
    (hacc : ∀ x ∈ moves, x.Accepted)
    (hn : ∀ raw a, Move.act raw a ∈ moves → keepsNull raw = false) :
    ∃ r', moves.foldlM Move.reference r = some r' ∧ Represents (moves.foldl Move.engine env) r' := by
  induction moves generalizing env r with
  | nil => exact ⟨r, rfl, h⟩
  | cons x moves ih =>
      obtain ⟨r₁, hr₁, hrep⟩ := h.move (hacc x List.mem_cons_self)
        fun raw a hx => hn raw a (hx ▸ List.mem_cons_self)
      obtain ⟨r₂, hr₂, hrep'⟩ := ih hrep (fun y hy => hacc y (List.mem_cons_of_mem _ hy))
        fun raw a hy => hn raw a (List.mem_cons_of_mem _ hy)
      refine ⟨r₂, ?_, hrep'⟩
      rw [List.foldlM_cons, hr₁]
      exact hr₂

/-- The environments of both checkers are the same after every move exactly if no action gives the
objects to keep as `null`. -/
theorem lockstep_iff {m : Json.Fields} {inv : Inventory} (h : inventory m = .ok inv)
    (hl : ListsGiven m) (t : ℤ) {moves : List Move} (hacc : ∀ x ∈ moves, x.Accepted) :
    (∀ done, done <+: moves →
        ∃ r, referenceRun m t done = some r ∧ Same (engineRun inv t done) r) ↔
      ∀ raw a, Move.act raw a ∈ moves → keepsNull raw = false := by
  obtain ⟨r₀, hr₀, hrep⟩ := represents_fromInventory h hl t
  constructor
  · intro hsame raw a hmem
    by_contra hn
    obtain ⟨before, after, rfl⟩ := List.mem_iff_append.1 hmem
    obtain ⟨r, hr, -⟩ := hsame (before ++ [Move.act raw a]) ⟨after, by simp⟩
    rw [referenceRun, hr₀] at hr
    obtain ⟨r₁, -, hr₁⟩ : ∃ r₁, before.foldlM Move.reference r₀ = some r₁ ∧
        Move.reference r₁ (.act raw a) = some r := by
      simpa [List.foldlM_append, Option.bind_eq_some_iff] using hr
    rw [Move.reference, defend_of_keepsNull (by simpa using hn)] at hr₁
    cases hr₁
  · intro hn done hdone
    obtain ⟨r, hr, hrep'⟩ := hrep.moves (fun x hx => hacc x (hdone.subset hx))
      fun raw a hx => hn raw a (hdone.subset hx)
    exact ⟨r, by rw [referenceRun, hr₀]; exact hr, hrep'.same⟩

/-! ### A small inventory -/

/-- A service account with one Pod and one controller. -/
def sampleInventory : Json.Fields :=
  [("service_accounts", .arr [Sample.account "n" "sa"]),
    ("controllers", .arr [Sample.controller "n" "c" "sa"]), ("pods", .arr [Sample.pod "n" "p" "sa" []])]

lemma sampleInventory_listsGiven : ListsGiven sampleInventory where
  lists := by decide
  audiences := by
    intro key hkey xs hxs p hp
    simp only [List.mem_cons, List.not_mem_nil, or_false] at hkey
    rcases hkey with rfl | rfl
    · obtain rfl := Option.some.inj hxs
      obtain rfl := Json.obj.inj (List.mem_singleton.1 hp)
      rfl
    · obtain rfl := Option.some.inj hxs
      obtain rfl := Json.obj.inj (List.mem_singleton.1 hp)
      rfl

lemma sampleInventory_accepted : ∃ inv, inventory sampleInventory = .ok inv := by
  have h : (inventory sampleInventory).toOption.isSome = true := by decide +kernel
  cases hi : inventory sampleInventory with
  | error e =>
      rw [hi] at h
      cases h
  | ok inv => exact ⟨inv, rfl⟩

/-- The Pods of the service account are deleted but for some. -/
def deletePods (keep : Json) : Json :=
  Sample.action "delete_pods_except"
    [("namespace", .str "n"), ("service_account", .str "sa"), ("keep_uids", keep)]

/-- The controller gets a Pod, the other one is deleted. -/
def sampleMoves (keep : Json) (uids : List String) : List Move :=
  [.reconcile, .act (deletePods keep) (.deletePodsExcept "n" "sa" uids), .reconcile]

lemma sampleMoves_accepted {keep : Json} {uids : List String}
    (h : action "" (deletePods keep) = .ok (.deletePodsExcept "n" "sa" uids)) :
    ∀ x ∈ sampleMoves keep uids, x.Accepted := by
  intro x hx
  simp only [sampleMoves, List.mem_cons, List.not_mem_nil, or_false] at hx
  rcases hx with rfl | rfl | rfl
  · trivial
  · exact ⟨"", h⟩
  · trivial

/-- With a list of the Pods to keep, the environments stay the same. -/
theorem lockstep_sample :
    ∃ inv, inventory sampleInventory = .ok inv ∧
      ∀ done, done <+: sampleMoves (.arr [.str "p"]) ["p"] →
        ∃ r, referenceRun sampleInventory 100 done = some r ∧ Same (engineRun inv 100 done) r := by
  obtain ⟨inv, hinv⟩ := sampleInventory_accepted
  refine ⟨inv, hinv, (lockstep_iff hinv sampleInventory_listsGiven 100
    (sampleMoves_accepted (by rfl))).2 ?_⟩
  intro raw a hmem
  simp only [sampleMoves, List.mem_cons, List.not_mem_nil, or_false, reduceCtorEq, false_or] at hmem
  obtain ⟨rfl, rfl⟩ := Move.act.inj hmem
  rfl

/-- With `null` for it, the reference checker raises an exception. -/
theorem not_lockstep_of_null :
    ∃ inv, inventory sampleInventory = .ok inv ∧
      (∀ x ∈ sampleMoves .null [], x.Accepted) ∧
      ¬∀ done, done <+: sampleMoves .null [] →
        ∃ r, referenceRun sampleInventory 100 done = some r ∧ Same (engineRun inv 100 done) r := by
  obtain ⟨inv, hinv⟩ := sampleInventory_accepted
  refine ⟨inv, hinv, sampleMoves_accepted (by rfl), fun h => ?_⟩
  obtain ⟨r, hr, -⟩ := h _ List.prefix_rfl
  have hnone : (referenceRun sampleInventory 100 (sampleMoves .null [])).isNone = true := by
    decide +kernel
  rw [hr] at hnone
  cases hnone

end Afterlock.Reference
