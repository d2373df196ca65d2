import Afterlock.Reference.Represents

/-!
# What both checkers read

What the parser has read from a document, the reference checker reads too, with one exception: the
parser takes `null` for an empty list, on which the reference checker raises an exception.
-/

namespace Afterlock.Reference

open Parse

/-! ### Fields -/

section

variable {m : Json.Fields} {key loc : String}

lemma get_eq_str {s : String} (h : Json.get m key = .str s) : m.lookup key = some (.str s) := by
  unfold Json.get at h
  cases hl : m.lookup key with
  | none =>
      rw [hl] at h
      cases h
  | some v =>
      rw [hl] at h
      exact congrArg some h

lemma optStr_eq_ok {o : Option String} (h : optStr m key loc = .ok o) :
    Json.get m key = o.elim .null .str ∧ ∀ s, o = some s → goodStr s = true := by
  unfold optStr at h
  cases hg : Json.get m key with
  | null =>
      simp only [hg, Except.ok.injEq] at h
      subst h
      exact ⟨rfl, by simp⟩
  | str s =>
      simp only [hg] at h
      split_ifs at h with hs
      · simp only [Except.ok.injEq] at h
        subst h
        exact ⟨rfl, fun t ht => Option.some.inj ht ▸ hs⟩
      · simp at h
  | _ => simp [hg] at h

lemma reqStr_eq_ok {s : String} (h : reqStr m key loc = .ok s) :
    Json.get m key = .str s ∧ goodStr s = true := by
  unfold reqStr at h
  obtain ⟨o, ho, h⟩ := bind_eq_ok.1 h
  cases o with
  | none => simp at h
  | some t =>
      obtain rfl := pure_eq_ok.1 h
      exact ⟨(optStr_eq_ok ho).1, (optStr_eq_ok ho).2 t rfl⟩

lemma str?_of_reqStr {s : String} (h : reqStr m key loc = .ok s) : str? m key = some s := by
  rw [str?, get_eq_str (reqStr_eq_ok h).1]
  rfl

lemma optStr?_of_optStr {o : Option String} (h : optStr m key loc = .ok o) :
    optStr? m key = some o := by
  rw [optStr?, (optStr_eq_ok h).1]
  cases o <;> rfl

lemma optInt_eq_ok {o : Option ℤ} {minimum : ℤ} (h : optInt m key loc minimum = .ok o) :
    Json.get m key = o.elim .null .int := by
  unfold optInt at h
  cases hg : Json.get m key with
  | null =>
      simp only [hg, Except.ok.injEq] at h
      subst h
      rfl
  | int n =>
      simp only [hg] at h
      split_ifs at h with hn
      · simp at h
      · simp only [Except.ok.injEq] at h
        subst h
        rfl
  | _ => simp [hg] at h

lemma intOrZero?_of_optInt {o : Option ℤ} {minimum : ℤ} (h : optInt m key loc minimum = .ok o) :
    intOrZero? m key = some (o.getD 0) := by
  rw [intOrZero?, optInt_eq_ok h]
  cases o <;> rfl

lemma int?_of_reqInt {n minimum : ℤ} (h : reqInt m key loc minimum = .ok n) :
    int? m key = some n := by
  unfold reqInt at h
  obtain ⟨o, ho, h⟩ := bind_eq_ok.1 h
  cases o with
  | none => simp at h
  | some k =>
      obtain rfl := pure_eq_ok.1 h
      have hg := optInt_eq_ok ho
      unfold Json.get at hg
      rw [int?]
      cases hl : m.lookup key with
      | none =>
          rw [hl] at hg
          cases hg
      | some v =>
          rw [hl] at hg
          rw [show v = .int k from hg]

end

/-! ### Lists -/

/-- A field is there and is `null`. -/
def nullAt (m : Json.Fields) (key : String) : Bool :=
  match m.lookup key with
  | some .null => true
  | _ => false

section

variable {m : Json.Fields} {key loc : String}

/-- A list that is absent or a list is iterated over. -/
lemma entries?_of_list {xs : List Json} (h : list (Json.get m key) loc = .ok xs)
    (hn : nullAt m key = false) : entries? m key = some xs := by
  unfold Json.get at h
  unfold nullAt at hn
  unfold entries?
  cases hl : m.lookup key with
  | none =>
      rw [hl] at h
      simp only [Option.getD_none, list, Except.ok.injEq] at h
      rw [h]
  | some v =>
      rw [hl] at h hn
      cases v with
      | null => cases hn
      | arr ys =>
          simp only [Option.getD_some, list] at h
          split_ifs at h
          · simp at h
          · exact congrArg some (Except.ok.inj h)
      | _ => simp [list] at h

lemma entries?_of_null (h : nullAt m key = true) : entries? m key = none := by
  unfold nullAt at h
  unfold entries?
  cases hl : m.lookup key with
  | none => simp [hl] at h
  | some v => cases v <;> simp [hl] at h ⊢

lemma mapM_asStr?_of_strEntries {i : ℕ} {xs : List Json} {ys : List String}
    (h : strEntries loc i xs = .ok ys) : xs.mapM Json.asStr? = some ys := by
  induction xs generalizing i ys with
  | nil =>
      simp only [strEntries, Except.ok.injEq] at h
      subst h
      rfl
  | cons x xs ih =>
      simp only [strEntries, bind_eq_ok, pure_eq_ok] at h
      obtain ⟨s, hs, rest, hrest, rfl⟩ := h
      have hx : x = .str s := by
        unfold strEntry at hs
        cases x with
        | str t =>
            simp only at hs
            split_ifs at hs
            · rw [Except.ok.inj hs]
            · simp at hs
        | _ => simp at hs
      rw [List.mapM_cons, hx, ih hrest]
      rfl

lemma strings?_of_strs {xs : List String} (h : strs (Json.get m key) loc = .ok xs)
    (hn : nullAt m key = false) : strings? m key = some xs := by
  unfold strs at h
  obtain ⟨ys, hys, h⟩ := bind_eq_ok.1 h
  rw [strings?, entries?_of_list hys hn]
  exact mapM_asStr?_of_strEntries h

lemma strings?_of_null (h : nullAt m key = true) : strings? m key = none := by
  rw [strings?, entries?_of_null h]
  rfl

/-- Entries that the parser reads one by one, the reference checker reads one by one. -/
lemma mapM_of_mapM {α β : Type} {parse : Json → Parsed α} {read : Json → Option β} {f : α → β}
    {xs : List Json} {ys : List α} (h : xs.mapM parse = .ok ys)
    (hread : ∀ x ∈ xs, ∀ y, parse x = .ok y → read x = some (f y)) :
    xs.mapM read = some (ys.map f) := by
  induction xs generalizing ys with
  | nil =>
      rw [List.mapM_nil, pure_eq_ok] at h
      subst h
      rfl
  | cons x xs ih =>
      rw [List.mapM_cons, bind_eq_ok] at h
      obtain ⟨y, hy, h⟩ := h
      obtain ⟨zs, hzs, h⟩ := bind_eq_ok.1 h
      rw [pure_eq_ok] at h
      subst h
      rw [List.mapM_cons, hread x List.mem_cons_self y hy,
        ih hzs fun z hz => hread z (List.mem_cons_of_mem _ hz)]
      rfl

end

/-! ### Defender actions -/

/-- The kinds of actions that keep some objects. -/
def keepKinds : List String := ["delete_pods_except", "delete_controllers_except"]

/-- The action gives the objects to keep as `null`. -/
def keepsNull : Json → Bool
  | .obj m => (str? m "kind").any keepKinds.contains && nullAt m "keep_uids"
  | _ => false

section

variable {raw : Json} {loc : String} {a : DefenderAction}

/-- What an accepted action is read from. -/
lemma action_eq_ok (h : action loc raw = .ok a) : ∃ m kind, raw = .obj m ∧
    reqStr m "kind" loc = .ok kind ∧ (requiredFields kind).isSome ∧ actionBody m kind loc = .ok a := by
  unfold action at h
  obtain ⟨m, hm, h⟩ := bind_eq_ok.1 h
  obtain ⟨kind, hk, h⟩ := bind_eq_ok.1 h
  have hraw : raw = .obj m := by
    cases raw with
    | obj m' =>
        simp only [obj, Except.ok.injEq] at hm
        rw [hm]
    | _ => simp [obj] at hm
  cases hr : requiredFields kind with
  | none => simp [hr] at h
  | some required =>
      simp only [hr] at h
      obtain ⟨b, hb, h⟩ := bind_eq_ok.1 h
      rcases ite_eq_iff.1 h with ⟨-, h⟩ | ⟨-, h⟩
      · obtain rfl := pure_eq_ok.1 h
        exact ⟨m, kind, hraw, hk, by rw [hr]; rfl, hb⟩
      · simp at h

/-- The UIDs to keep are read alike, as a set. -/
lemma keep_of_keepUids {m : Json.Fields} {keep : List String} (h : keepUids m loc = .ok keep)
    (hn : nullAt m "keep_uids" = false) :
    ∃ xs, strings? m "keep_uids" = some xs ∧ ∀ u, xs.contains u = keep.contains u := by
  simp only [keepUids, bind_eq_ok, pure_eq_ok] at h
  obtain ⟨xs, hxs, _, -, rfl⟩ := h
  refine ⟨xs, strings?_of_strs hxs hn, fun u => ?_⟩
  rw [Bool.eq_iff_iff, List.contains_iff_mem, List.contains_iff_mem, Text.mem_sortedBy,
    List.mem_dedup]

lemma contains_map_filter {α κ : Type} [DecidableEq κ] {key : α → κ} {t : Table key} {p : α → Bool}
    {x : α} (hx : x ∈ t) : ((t.rows.filter p).map key).contains (key x) = p x := by
  rw [Bool.eq_iff_iff, List.contains_iff_mem, List.mem_map]
  constructor
  · rintro ⟨y, hy, he⟩
    obtain ⟨hy, hp⟩ := List.mem_filter.1 hy
    rwa [← Table.eq_of_key_eq (t := t) hy hx he]
  · exact fun hp => ⟨x, List.mem_filter.2 ⟨hx, hp⟩, rfl⟩

/-- The UIDs of the controllers that a condition selects. -/
lemma Represents.contains_uids {env : Env} {r : EnvTuple} (h : Represents env r)
    {p : Controller → Bool} {q : CtrlTuple → Bool}
    (hpq : ∀ c ∈ env.controllers, q (ctrlTuple c) = p c) (uid : String) :
    ((r.ctrls.filter q).map CtrlTuple.uid).contains uid =
      ((env.controllers.rows.filter p).map Controller.uid).contains uid := by
  have hshow := h.ctrls.filter hpq
  rw [Bool.eq_iff_iff, List.contains_iff_mem, List.contains_iff_mem, List.mem_map, List.mem_map]
  constructor
  · rintro ⟨y, hy, rfl⟩
    obtain ⟨c, hc, rfl⟩ := (hshow y).1 hy
    exact ⟨c, hc, rfl⟩
  · rintro ⟨c, hc, rfl⟩
    exact ⟨ctrlTuple c, hshow.mem hc, rfl⟩

/-- Any accepted action has the same effect in both, unless it gives the objects to keep as
`null`. -/
theorem Represents.apply {env : Env} {r : EnvTuple} (h : Represents env r)
    (ha : action loc raw = .ok a) (hn : keepsNull raw = false) :
    ∃ r', defend r raw = some r' ∧ Represents (applyDefenderAction env a).1 r' := by
  obtain ⟨m, kind, rfl, hkind, hreq, hbody⟩ := action_eq_ok ha
  have hk := str?_of_reqStr hkind
  unfold defend
  simp only [obj?, hk, Option.bind_eq_bind, Option.bind_some]
  unfold actionBody at hbody
  -- one case for each kind, in the order in which both sides ask for them
  split_ifs at hbody with h1 h2 h3 h4 h5 h6 h7 <;> simp only [bind_eq_ok, pure_eq_ok] at hbody
  · obtain ⟨name, hname, ns, hns, rfl⟩ := hbody
    rw [if_pos h1, optStr?_of_optStr hns, str?_of_reqStr hname]
    refine ⟨_, rfl, { h with bindings := h.bindings.erase fun b _ => ?_ }⟩
    simp [RoleBinding.ident]
  · obtain ⟨uid, huid, _, -, rfl⟩ := hbody
    rw [if_neg h1, if_pos h2, str?_of_reqStr huid]
    exact ⟨_, rfl, { h with pods := h.pods.erase fun _ _ => rfl }⟩
  · obtain ⟨uid, huid, _, -, rfl⟩ := hbody
    rw [if_neg h1, if_neg h2, if_pos h3, str?_of_reqStr huid]
    exact ⟨_, rfl, { h with pods := h.pods.filter fun _ _ => rfl
                            ctrls := h.ctrls.erase fun _ _ => rfl
                            nodup := h.nodup.filter _ }⟩
  · obtain ⟨ns, hns, sa, hsa, keep, hkeep, rfl⟩ := hbody
    -- the UIDs to keep are those of the raw list, whatever their order
    obtain ⟨xs, hxs, hmem⟩ := keep_of_keepUids hkeep (by simpa [keepsNull, hk, h4, keepKinds] using hn)
    rw [if_neg h1, if_neg h2, if_neg h3, if_pos h4, hxs, str?_of_reqStr hns, str?_of_reqStr hsa]
    refine ⟨_, rfl, { h with pods := h.pods.filter fun p _ => ?_ }⟩
    simp only [podTuple, hmem]
  · obtain ⟨ns, hns, sa, hsa, keep, hkeep, rfl⟩ := hbody
    obtain ⟨xs, hxs, hmem⟩ := keep_of_keepUids hkeep (by simpa [keepsNull, hk, h5, keepKinds] using hn)
    rw [if_neg h1, if_neg h2, if_neg h3, if_neg h4, if_pos h5, hxs, str?_of_reqStr hns,
      str?_of_reqStr hsa]
    -- the Pods that go are those of the controllers that go
    have hgone := h.contains_uids
      (p := fun c => c.ns == ns && c.serviceAccount == sa && !keep.contains c.uid)
      (q := fun c => c.ns == ns && c.sa == sa && !xs.contains c.uid)
      fun c _ => by simp only [ctrlTuple, hmem]
    refine ⟨_, rfl, { h with pods := h.pods.filter fun p _ => ?_
                             ctrls := h.ctrls.filter fun c hc => ?_
                             nodup := h.nodup.filter _ }⟩
    · simp only [hgone]
      rfl
    · rw [hgone, show (ctrlTuple c).uid = c.uid from rfl, contains_map_filter hc]
  · obtain ⟨ns, hns, name, hname, rfl⟩ := hbody
    rw [if_neg h1, if_neg h2, if_neg h3, if_neg h4, if_neg h5, if_pos h6, str?_of_reqStr hns,
      str?_of_reqStr hname]
    refine ⟨_, rfl, { h with sas := h.sas.erase fun s _ => ?_ }⟩
    simp [saTuple, ServiceAccount.key]
  · obtain ⟨service, hservice, rfl⟩ := hbody
    rw [if_neg h1, if_neg h2, if_neg h3, if_neg h4, if_neg h5, if_neg h6, if_pos h7,
      str?_of_reqStr hservice]
    simp only [Option.bind_some, applyDefenderAction]
    rw [h.services.find? (k := service) fun s _ => rfl]
    cases hs : env.services.get? service with
    -- a service that is not there is left alone by both
    | none => exact ⟨r, rfl, h⟩
    | some svc => exact ⟨_, rfl, h.rotate (Table.get?_eq_some_iff.1 hs).1⟩
  · obtain ⟨seconds, hseconds, rfl⟩ := hbody
    have h8 : kind = "wait" := by
      unfold requiredFields at hreq
      simp only [h1, h2, h3, h4, h5, h6, h7, if_false] at hreq
      by_contra hw
      simp [hw] at hreq
    rw [if_neg h1, if_neg h2, if_neg h3, if_neg h4, if_neg h5, if_neg h6, if_neg h7, if_pos h8,
      int?_of_reqInt hseconds]
    exact ⟨_, rfl, { h with time := congrArg (· + seconds) h.time }⟩

/-- The reference checker raises an exception on a `null` in the place of the objects to keep. -/
lemma defend_of_keepsNull {raw : Json} (h : keepsNull raw = true) (r : EnvTuple) :
    defend r raw = none := by
  cases raw with
  | obj m =>
      simp only [keepsNull, Bool.and_eq_true, Option.any_eq_true, keepKinds,
        List.contains_iff_mem, List.mem_cons, List.not_mem_nil, or_false] at h
      obtain ⟨⟨kind, hk, hmem⟩, hnull⟩ := h
      unfold defend
      rcases hmem with rfl | rfl <;> simp [obj?, hk, strings?_of_null hnull]
  | _ => cases h

end

end Afterlock.Reference
