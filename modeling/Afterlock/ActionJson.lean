import Afterlock.Reference.Lockstep

/-!
# Encoding defender actions

An action is flattened to text parameters and encoded from them.  Every accepted list of actions is
encoded and parsed again to the same actions (`parseActions_toJson`).
-/

namespace Afterlock

open Parse Reference

/-! ### The encoder -/

/-- The field that a parameter is encoded as. -/
def paramJson (kv : String × String) : Option (String × Json) :=
  if kv.1 = "seconds" then (Text.toInt? kv.2).map fun n => (kv.1, .int n)
  else if kv.1 = "keep_uids" then
    some (kv.1, .arr (((Text.splitOn ',' kv.2).filter fun x => x != "").map .str))
  else some (kv.1, .str kv.2)

/-- `to_json`; `none` is a number that cannot be read. -/
def DefenderAction.toJson (a : DefenderAction) : Option Json :=
  (a.params.mapM paramJson).map fun fields => .obj (("kind", .str a.kind) :: fields)

/-! ### Actions that the parser returns -/

/-- The UIDs that the parser returns are good, distinct and sorted. -/
structure GoodKeep (keep : List String) : Prop where
  good : ∀ u ∈ keep, goodStr u = true
  comma : ∀ u ∈ keep, ',' ∉ u.toList
  nodup : keep.Nodup
  sorted : keep.Pairwise (· ≤ ·)
  short : keep.length ≤ maxCollection

/-- What the parser ensures of an action. -/
def DefenderAction.Encodable : DefenderAction → Prop
  | .removeBinding ns name => (∀ n, ns = some n → goodStr n = true) ∧ goodStr name = true
  | .deletePod uid => goodStr uid = true ∧ isModelUid uid = false
  | .deleteController uid => goodStr uid = true ∧ isModelUid uid = false
  | .deletePodsExcept ns sa keep => goodStr ns = true ∧ goodStr sa = true ∧ GoodKeep keep
  | .deleteControllersExcept ns sa keep => goodStr ns = true ∧ goodStr sa = true ∧ GoodKeep keep
  | .deleteServiceAccount ns name => goodStr ns = true ∧ goodStr name = true
  | .rotateDownstreamCredential service => goodStr service = true
  | .wait seconds => 1 ≤ seconds

section

variable {loc : String}

lemma length_of_list {value : Json} {xs : List Json} (h : list value loc = .ok xs) :
    xs.length ≤ maxCollection := by
  cases value with
  | null =>
      rw [← Except.ok.inj h]
      simp
  | arr ys =>
      simp only [list] at h
      split_ifs at h with hlen
      · simp at h
      · rw [← Except.ok.inj h]
        exact not_lt.1 hlen
  | _ => simp [list] at h

lemma good_of_strEntries {i : ℕ} {xs : List Json} {ys : List String}
    (h : strEntries loc i xs = .ok ys) :
    (∀ y ∈ ys, goodStr y = true) ∧ ys.length = xs.length := by
  induction xs generalizing i ys with
  | nil =>
      simp only [strEntries, Except.ok.injEq] at h
      subst h
      simp
  | cons x xs ih =>
      simp only [strEntries, bind_eq_ok, pure_eq_ok] at h
      obtain ⟨s, hs, rest, hrest, rfl⟩ := h
      have hgood : goodStr s = true := by
        unfold strEntry at hs
        cases x with
        | str t =>
            simp only at hs
            split_ifs at hs with ht
            · rwa [← Except.ok.inj hs]
            · simp at hs
        | _ => simp at hs
      obtain ⟨hall, hlen⟩ := ih hrest
      exact ⟨by simpa using ⟨hgood, hall⟩, by simp [hlen]⟩

lemma goodKeep_of_keepUids {m : Json.Fields} {keep : List String}
    (h : keepUids m loc = .ok keep) : GoodKeep keep := by
  simp only [keepUids, bind_eq_ok, pure_eq_ok, rejectIf_eq_ok] at h
  obtain ⟨xs, hxs, _, hcomma, rfl⟩ := h
  obtain ⟨ys, hys, hxs⟩ := bind_eq_ok.1 hxs
  obtain ⟨hgood, hlen⟩ := good_of_strEntries hxs
  refine ⟨fun u hu => hgood u (List.mem_dedup.1 (Text.mem_sortedBy.1 hu)), fun u hu hc => ?_,
    (Text.sortedBy_perm id _).nodup_iff.2 (List.nodup_dedup xs), List.pairwise_insertionSort _ _,
    ?_⟩
  · exact hcomma (List.any_eq_true.2 ⟨u, hu, by simpa using hc⟩)
  · rw [(Text.sortedBy_perm id _).length_eq]
    exact ((List.dedup_sublist xs).length_le.trans hlen.le).trans (length_of_list hys)

lemma actionBody_encodable {m : Json.Fields} {kind : String} {a : DefenderAction}
    (h : actionBody m kind loc = .ok a) : a.Encodable := by
  unfold actionBody at h
  split_ifs at h <;> simp only [bind_eq_ok, pure_eq_ok] at h
  · obtain ⟨_, hname, _, hns, rfl⟩ := h
    exact ⟨(optStr_eq_ok hns).2, (reqStr_eq_ok hname).2⟩
  · obtain ⟨_, huid, _, hr, rfl⟩ := h
    exact ⟨(reqStr_eq_ok huid).2, notReserved_eq_ok.1 hr⟩
  · obtain ⟨_, huid, _, hr, rfl⟩ := h
    exact ⟨(reqStr_eq_ok huid).2, notReserved_eq_ok.1 hr⟩
  · obtain ⟨_, hns, _, hsa, _, hkeep, rfl⟩ := h
    exact ⟨(reqStr_eq_ok hns).2, (reqStr_eq_ok hsa).2, goodKeep_of_keepUids hkeep⟩
  · obtain ⟨_, hns, _, hsa, _, hkeep, rfl⟩ := h
    exact ⟨(reqStr_eq_ok hns).2, (reqStr_eq_ok hsa).2, goodKeep_of_keepUids hkeep⟩
  · obtain ⟨_, hns, _, hname, rfl⟩ := h
    exact ⟨(reqStr_eq_ok hns).2, (reqStr_eq_ok hname).2⟩
  · obtain ⟨_, hservice, rfl⟩ := h
    exact (reqStr_eq_ok hservice).2
  · obtain ⟨_, hs, rfl⟩ := h
    exact le_of_reqInt_eq_ok hs

/-- What the parser returns can be encoded. -/
lemma action_encodable {raw : Json} {a : DefenderAction} (h : action loc raw = .ok a) :
    a.Encodable := by
  obtain ⟨m, kind, -, -, -, hbody⟩ := action_eq_ok h
  exact actionBody_encodable hbody

/-! ### The round trip -/

/-- Joined with commas and split at commas, without empty pieces. -/
lemma splitOn_intercalate {keep : List String} (h : GoodKeep keep) :
    (Text.splitOn ',' (String.intercalate "," keep)).filter (fun x => x != "") = keep := by
  have hne : ∀ u ∈ keep, (u != "") = true := fun u hu => by
    have := h.good u hu
    simp only [goodStr, Bool.and_eq_true, decide_eq_true_eq] at this
    simpa using this.1
  by_cases hk : keep = []
  · subst hk
    decide
  · have hpieces : (String.intercalate "," keep).toList.splitOn ',' = keep.map String.toList := by
      rw [String.toList_intercalate]
      refine List.splitOn_intercalate ',' (fun l hl => ?_) (by simpa using hk)
      obtain ⟨u, hu, rfl⟩ := List.mem_map.1 hl
      exact h.comma u hu
    rw [Text.splitOn, hpieces, List.map_map]
    simpa [Function.comp_def] using List.filter_eq_self.2 hne

/-- What `apply_defender_action` splits off the parameter of an accepted action is what the action
keeps. -/
lemma splitOn_keepUids {raw : Json} {a : DefenderAction} (h : action loc raw = .ok a)
    {ns sa : String} {keep : List String}
    (ha : a = .deletePodsExcept ns sa keep ∨ a = .deleteControllersExcept ns sa keep) :
    ∃ v, a.params.lookup "keep_uids" = some v ∧
      (Text.splitOn ',' v).filter (fun x => x != "") = keep := by
  have henc := action_encodable h
  rcases ha with rfl | rfl
  · exact ⟨_, rfl, splitOn_intercalate henc.2.2⟩
  · exact ⟨_, rfl, splitOn_intercalate henc.2.2⟩

lemma strEntries_strs {i : ℕ} {xs : List String} (h : ∀ x ∈ xs, goodStr x = true) :
    strEntries loc i (xs.map .str) = .ok xs := by
  induction xs generalizing i with
  | nil => rfl
  | cons x xs ih =>
      rw [List.map_cons, strEntries, ih fun y hy => h y (List.mem_cons_of_mem _ hy)]
      simp only [strEntry, h x List.mem_cons_self]
      rfl

lemma keepUids_strs {m : Json.Fields} {keep : List String} (h : GoodKeep keep)
    (hm : Json.get m "keep_uids" = .arr (keep.map .str)) : keepUids m loc = .ok keep := by
  have hlist : strs (.arr (keep.map .str)) s!"{loc}.keep_uids" = .ok keep := by
    rw [strs, list, if_neg (by simpa using not_lt.2 h.short)]
    exact strEntries_strs h.good
  have hsort : Text.sortedBy id keep.dedup = keep := by
    rw [h.nodup.dedup]
    exact h.sorted.insertionSort_eq
  have hcomma : (keep.any fun k => k.toList.contains ',') = false := by
    rw [List.any_eq_false]
    exact fun u hu => by simpa using h.comma u hu
  rw [keepUids, hm, hlist]
  show (rejectIf _ _ >>= fun _ => _) = _
  rw [hsort, rejectIf, if_neg (by rw [hcomma]; exact Bool.false_ne_true)]
  rfl

lemma optStr_str {m : Json.Fields} {key s : String} (hm : Json.get m key = .str s)
    (h : goodStr s = true) : optStr m key loc = .ok (some s) := by
  rw [optStr, hm]
  exact if_pos h

lemma reqStr_str {m : Json.Fields} {key s : String} (hm : Json.get m key = .str s)
    (h : goodStr s = true) : reqStr m key loc = .ok s := by
  rw [reqStr, optStr_str hm h]
  rfl

lemma optStr_null {m : Json.Fields} {key : String} (hm : Json.get m key = .null) :
    optStr m key loc = .ok none := by
  rw [optStr, hm]

lemma notReserved_ok {uid : String} (h : isModelUid uid = false) :
    notReserved uid loc = .ok () := notReserved_eq_ok.2 h

lemma mem_of_mem_items {m : Json.Fields} {kv : String × Json} (h : kv ∈ Json.items m) : kv ∈ m := by
  induction m with
  | nil => cases h
  | cons e m ih =>
      rcases List.mem_cons.1 h with rfl | h
      · exact List.mem_cons_self
      · exact List.mem_cons_of_mem _ (ih (List.mem_filter.1 h).1)

/-- An object whose fields are those of its kind is accepted if its body is. -/
lemma action_obj {m : Json.Fields} {kind : String} {required : List String} {a : DefenderAction}
    (hkind : reqStr m "kind" loc = .ok kind) (hreq : requiredFields kind = some required)
    (hbody : actionBody m kind loc = .ok a)
    (hextra : ∀ kv ∈ m, kv.1 ∈ "kind" :: "namespace" :: "seconds" :: "keep_uids" :: required) :
    action loc (.obj m) = .ok a := by
  have hnone : ((Json.items m).filter fun kv =>
      kv.1 ∉ "kind" :: "namespace" :: "seconds" :: "keep_uids" :: required) = [] := by
    rw [List.filter_eq_nil_iff]
    intro kv hkv hne
    exact of_decide_eq_true hne (hextra kv (mem_of_mem_items hkv))
  simp only [action, obj, bind, Except.bind, hkind, hreq, hbody, hnone]
  rfl

lemma reqInt_int {m : Json.Fields} {key : String} {n minimum : ℤ}
    (hm : Json.get m key = .int n) (h : minimum ≤ n) : reqInt m key loc minimum = .ok n := by
  have ho : optInt m key loc minimum = .ok (some n) := by
    rw [optInt, hm]
    exact if_neg (not_lt.2 h)
  rw [reqInt, ho]
  rfl

/-- The encoding of an action that keeps some objects. -/
lemma toJson_of_keep {a : DefenderAction} {keep : List String} {ns sa : String}
    (h : GoodKeep keep) (ha : a.params =
      [("keep_uids", String.intercalate "," keep), ("namespace", ns), ("service_account", sa)]) :
    a.toJson = some (.obj [("kind", .str a.kind), ("keep_uids", .arr (keep.map .str)),
      ("namespace", .str ns), ("service_account", .str sa)]) := by
  rw [DefenderAction.toJson, ha]
  simp [paramJson, splitOn_intercalate h]

/-- An action that can be encoded is encoded and parsed again to itself. -/
theorem action_toJson {a : DefenderAction} (h : a.Encodable) :
    ∃ j, a.toJson = some j ∧ ∀ loc, action loc j = .ok a := by
  cases a with
  | removeBinding ns name =>
      obtain ⟨hns, hname⟩ := h
      cases ns with
      | none =>
          -- a namespace that is not there is left out, and is read as `null`
          refine ⟨.obj [("kind", .str "remove_binding"), ("name", .str name)], rfl, fun loc => ?_⟩
          refine action_obj (reqStr_str rfl (by decide)) rfl ?_ (by simp)
          rw [actionBody, if_pos rfl, reqStr_str rfl hname, optStr_null rfl]
          rfl
      | some n =>
          refine ⟨.obj [("kind", .str "remove_binding"), ("name", .str name),
            ("namespace", .str n)], rfl, fun loc => ?_⟩
          refine action_obj (reqStr_str rfl (by decide)) rfl ?_ (by simp)
          rw [actionBody, if_pos rfl, reqStr_str rfl hname, optStr_str rfl (hns n rfl)]
          rfl
  | deletePod uid =>
      -- the parser checks again that the UID is not reserved
      obtain ⟨huid, hres⟩ := h
      refine ⟨.obj [("kind", .str "delete_pod"), ("uid", .str uid)], rfl, fun loc => ?_⟩
      refine action_obj (reqStr_str rfl (by decide)) rfl ?_ (by simp)
      rw [actionBody, if_neg (by decide), if_pos rfl, reqStr_str rfl huid]
      show (notReserved uid loc >>= fun _ => _) = _
      rw [notReserved_ok hres]
      rfl
  | deleteController uid =>
      obtain ⟨huid, hres⟩ := h
      refine ⟨.obj [("kind", .str "delete_controller"), ("uid", .str uid)], rfl, fun loc => ?_⟩
      refine action_obj (reqStr_str rfl (by decide)) rfl ?_ (by simp)
      rw [actionBody, if_neg (by decide), if_neg (by decide), if_pos rfl, reqStr_str rfl huid]
      show (notReserved uid loc >>= fun _ => _) = _
      rw [notReserved_ok hres]
      rfl
  | deletePodsExcept ns sa keep =>
      -- the UIDs are joined for the parameters, split for the encoding, and sorted by the parser
      obtain ⟨hns, hsa, hkeep⟩ := h
      refine ⟨.obj [("kind", .str "delete_pods_except"), ("keep_uids", .arr (keep.map .str)),
        ("namespace", .str ns), ("service_account", .str sa)], ?_, fun loc => ?_⟩
      · exact toJson_of_keep hkeep rfl
      · refine action_obj (reqStr_str rfl (by decide)) rfl ?_ (by simp)
        rw [actionBody, if_neg (by decide), if_neg (by decide), if_neg (by decide), if_pos rfl,
          reqStr_str rfl hns, reqStr_str rfl hsa, keepUids_strs hkeep rfl]
        rfl
  | deleteControllersExcept ns sa keep =>
      obtain ⟨hns, hsa, hkeep⟩ := h
      refine ⟨.obj [("kind", .str "delete_controllers_except"), ("keep_uids", .arr (keep.map .str)),
        ("namespace", .str ns), ("service_account", .str sa)], ?_, fun loc => ?_⟩
      · exact toJson_of_keep hkeep rfl
      · refine action_obj (reqStr_str rfl (by decide)) rfl ?_ (by simp)
        rw [actionBody, if_neg (by decide), if_neg (by decide), if_neg (by decide),
          if_neg (by decide), if_pos rfl, reqStr_str rfl hns, reqStr_str rfl hsa,
          keepUids_strs hkeep rfl]
        rfl
  | deleteServiceAccount ns name =>
      obtain ⟨hns, hname⟩ := h
      refine ⟨.obj [("kind", .str "delete_service_account"), ("name", .str name),
        ("namespace", .str ns)], rfl, fun loc => ?_⟩
      refine action_obj (reqStr_str rfl (by decide)) rfl ?_ (by simp)
      rw [actionBody, if_neg (by decide), if_neg (by decide), if_neg (by decide),
        if_neg (by decide), if_neg (by decide), if_pos rfl, reqStr_str rfl hns,
        reqStr_str rfl hname]
      rfl
  | rotateDownstreamCredential service =>
      refine ⟨.obj [("kind", .str "rotate_downstream_credential"), ("service", .str service)], rfl,
        fun loc => ?_⟩
      refine action_obj (reqStr_str rfl (by decide)) rfl ?_ (by simp)
      rw [actionBody, if_neg (by decide), if_neg (by decide), if_neg (by decide),
        if_neg (by decide), if_neg (by decide), if_neg (by decide), if_pos rfl, reqStr_str rfl h]
      rfl
  | wait seconds =>
      -- the seconds are printed for the parameters and read as a number again
      refine ⟨.obj [("kind", .str "wait"), ("seconds", .int seconds)], ?_, fun loc => ?_⟩
      · simp [DefenderAction.toJson, DefenderAction.params, DefenderAction.kind, paramJson,
          Text.toInt?_ofInt]
      · refine action_obj (reqStr_str rfl (by decide)) rfl ?_ (by simp)
        rw [actionBody, if_neg (by decide), if_neg (by decide), if_neg (by decide),
          if_neg (by decide), if_neg (by decide), if_neg (by decide), if_neg (by decide),
          reqInt_int rfl h]
        rfl

lemma actionsFrom_encodable {i : ℕ} {xs : List Json} {as : List DefenderAction}
    (h : actionsFrom loc i xs = .ok as) : (∀ a ∈ as, a.Encodable) ∧ as.length = xs.length := by
  induction xs generalizing i as with
  | nil =>
      simp only [actionsFrom, Except.ok.injEq] at h
      subst h
      simp
  | cons x xs ih =>
      simp only [actionsFrom, bind_eq_ok, pure_eq_ok] at h
      obtain ⟨a, ha, rest, hrest, rfl⟩ := h
      obtain ⟨hall, hlen⟩ := ih hrest
      exact ⟨by simpa using ⟨action_encodable ha, hall⟩, by simp [hlen]⟩

lemma actionsFrom_toJson {i : ℕ} {as : List DefenderAction} (h : ∀ a ∈ as, a.Encodable) :
    ∃ raws, as.mapM DefenderAction.toJson = some raws ∧ raws.length = as.length ∧
      actionsFrom loc i raws = .ok as := by
  induction as generalizing i with
  | nil => exact ⟨[], rfl, rfl, rfl⟩
  | cons a as ih =>
      obtain ⟨j, hj, hparse⟩ := action_toJson (h a List.mem_cons_self)
      obtain ⟨raws, hraws, hlen, hrest⟩ := @ih (i + 1) fun b hb => h b (List.mem_cons_of_mem _ hb)
      refine ⟨j :: raws, ?_, by simp [hlen], ?_⟩
      · rw [List.mapM_cons, hj, hraws]
        rfl
      · rw [actionsFrom, hparse, hrest]
        rfl

end

/-- The actions that the parser returns are encoded and parsed again to themselves. -/
lemma parseActions_toJson {raw : Json} {as : List DefenderAction} (h : parseActions raw = .ok as) :
    ∃ raws, as.mapM DefenderAction.toJson = some raws ∧ parseActions (.arr raws) = .ok as := by
  obtain ⟨xs, hxs, h⟩ := bind_eq_ok.1 h
  obtain ⟨hall, hlen⟩ := actionsFrom_encodable h
  obtain ⟨raws, hraws, hlen', hparse⟩ := @actionsFrom_toJson "remediation" 0 as hall
  refine ⟨raws, hraws, ?_⟩
  have hshort : ¬raws.length > maxCollection := by
    have := length_of_list hxs
    omega
  rw [parseActions, actions, list, if_neg hshort]
  exact hparse

/-- Actions with equal kinds and parameters are equal: they are encoded alike. -/
lemma action_eq_of_params {a b : DefenderAction} (ha : a.Encodable) (hb : b.Encodable)
    (hkind : a.kind = b.kind) (hparams : a.params = b.params) : a = b := by
  obtain ⟨j, hj, hparse⟩ := action_toJson ha
  obtain ⟨j', hj', hparse'⟩ := action_toJson hb
  rw [DefenderAction.toJson, hkind, hparams, ← DefenderAction.toJson, hj'] at hj
  have := (hparse "").symm.trans (Option.some.inj hj ▸ hparse' "")
  exact Except.ok.inj this

/-! ### Equal actions, equal effects -/

/-- An action does in the engine what a raw form of it does in the reference checker. -/
def SameEffect (a : DefenderAction) (raw : Json) : Prop :=
  ∀ env r, Represents env r →
    ∃ r', Reference.defend r raw = some r' ∧ Represents (applyDefenderAction env a).1 r'

/-- The environment without objects. -/
def emptyEnv : Env := Env.fromInventory ⟨[], [], [], [], [], [], [], []⟩ 0

lemma represents_emptyEnv : Represents emptyEnv ⟨0, [], [], [], [], [], [], []⟩ where
  time := rfl
  sas y := by simp [emptyEnv, Env.fromInventory, Table.ofList]
  pods y := by simp [emptyEnv, Env.fromInventory, Table.ofList]
  ctrls y := by simp [emptyEnv, Env.fromInventory, Table.ofList]
  bindings y := by simp [emptyEnv, Env.fromInventory, Table.ofList]
  secrets y := by simp [emptyEnv, Env.fromInventory, Table.ofList]
  services y := by simp [emptyEnv, Env.fromInventory, Table.ofList]
  counters _ := rfl
  nodup := List.nodup_nil
  range s hs := by simp [emptyEnv, Env.fromInventory, Table.ofList] at hs

/-- An accepted action has the same effect in both exactly if its raw form does not give the objects
to keep as `null`. -/
lemma sameEffect_iff {loc : String} {raw : Json} {a : DefenderAction}
    (h : action loc raw = .ok a) : SameEffect a raw ↔ keepsNull raw = false := by
  constructor
  · intro heff
    obtain ⟨r', hr', -⟩ := heff _ _ represents_emptyEnv
    by_contra hn
    rw [defend_of_keepsNull (by simpa using hn)] at hr'
    cases hr'
  · exact fun hn env r hrep => hrep.apply h hn

/-- Every accepted list of actions survives encoding and parsing, and two raw actions that parse to
equal actions have the same effect in both checkers exactly if neither gives the objects to keep as
`null`. -/
theorem actions_roundTrip_and_effect (actions : Json) (as : List DefenderAction)
    {loc loc' : String} {raw raw' : Json} {a b : DefenderAction} (ha : action loc raw = .ok a)
    (hb : action loc' raw' = .ok b) (hkind : a.kind = b.kind) (hparams : a.params = b.params) :
    (parseActions actions = .ok as →
      ∃ raws, as.mapM DefenderAction.toJson = some raws ∧ parseActions (.arr raws) = .ok as) ∧
    (SameEffect a raw ∧ SameEffect a raw' ↔ keepsNull raw = false ∧ keepsNull raw' = false) := by
  refine ⟨fun h => parseActions_toJson h, ?_⟩
  obtain rfl := action_eq_of_params (action_encodable ha) (action_encodable hb) hkind hparams
  rw [sameEffect_iff ha, sameEffect_iff hb]

/-- A list of the Pods to keep, with a repetition, survives, and the action has the same effect in
both checkers. -/
theorem deletePods_roundTrip :
    (∃ raws, [DefenderAction.deletePodsExcept "n" "sa" ["p", "q"]].mapM DefenderAction.toJson =
        some raws ∧
      parseActions (.arr raws) = .ok [.deletePodsExcept "n" "sa" ["p", "q"]]) ∧
    SameEffect (.deletePodsExcept "n" "sa" ["p", "q"])
      (deletePods (.arr [.str "q", .str "p", .str "q"])) := by
  have h := actions_roundTrip_and_effect
    (.arr [deletePods (.arr [.str "q", .str "p", .str "q"])]) [.deletePodsExcept "n" "sa" ["p", "q"]]
    (@rfl _ (action "" (deletePods (.arr [.str "q", .str "p", .str "q"]))))
    (@rfl _ (action "" (deletePods (.arr [.str "p", .str "q"])))) rfl rfl
  exact ⟨h.1 (by rfl), (h.2.2 ⟨rfl, rfl⟩).1⟩

/-- An accepted action with `null` for the Pods to keep has no effect in the reference checker. -/
theorem deletePods_null_not_sameEffect :
    action "" (deletePods .null) = .ok (.deletePodsExcept "n" "sa" []) ∧
      ¬SameEffect (.deletePodsExcept "n" "sa" []) (deletePods .null) := by
  refine ⟨by rfl, fun h => ?_⟩
  obtain ⟨r, hr, -⟩ := h _ _ represents_emptyEnv
  rw [defend_of_keepsNull (by decide)] at hr
  cases hr

end Afterlock
