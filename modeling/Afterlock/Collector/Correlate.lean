import Afterlock.Collector.Encoding
import Afterlock.Collector.Watch

/-!
# Correlating Pods

An audit record of a successful create, or of an exec, does not have the UID of its Pod.  The
collector looks for it among the Pods that the inventory watch has seen in the session; `correlate`
of `bundle.go` fills it in if exactly one of them fits, and else records a gap.

The history of the session is bounded.  It keeps the Pods whose UIDs were delivered first
(`mem_history_iff`), so that a Pod that came too late may be taken for another of its name
(`correlate_right_iff`).
-/

namespace Afterlock

namespace Collector

namespace Correlate

open Collector.Inventory Encoding

/-! ### The history of a session -/

def maxPodHistory : ℕ := 100000

/-- The Pods that were observed, by UID. -/
abbrev History : Type := Table (Prod.fst : String × Inventory.Pod → String)

/-- The inventory store, with the history of its Pods. -/
structure Session where
  store : Store
  history : History

/-- `NewStore`. -/
def Session.new : Session := ⟨Store.new, ∅⟩

/-- `observeLocked`, for a Pod: a new one is kept unless the history is full. -/
def keep (h : History) (x : String × Inventory.Pod) : History :=
  if h.contains x.1 || decide (h.rows.length < maxPodHistory) then h.put x else h

/-- The Pod of a delivered object, with its UID. -/
def pod? : String × Item → Option (String × Inventory.Pod)
  | (uid, .pod p) => some (uid, p)
  | _ => none

/-- `observeLocked`, as far as it is about the history. -/
def observe (h : History) (x : String × Item) : History := (pod? x).elim h (keep h)

/-- An operation of the inventory. -/
inductive Op where
  | upsert (k : Kind) (uid : String) (item : Item)
  | delete (k : Kind) (uid : String)
  /-- `ReplaceIn`, and `Replace` for no namespace.  The rows are in the order in which the program
  goes over the map, which may be any. -/
  | replaceIn (k : Kind) (ns : String) (items : Objects)

/-- The objects that an operation delivers. -/
def Op.items : Op → List (String × Item)
  | upsert _ uid item => [(uid, item)]
  | delete _ _ => []
  | replaceIn _ _ items => items.rows

def Session.apply (s : Session) (op : Op) : Session where
  store :=
    match op with
    | .upsert k uid item => s.store.upsert k uid item
    | .delete k uid => s.store.delete k uid
    | .replaceIn k ns items => s.store.replaceIn k ns items
  history := op.items.foldl observe s.history

/-- The session after its operations. -/
def Session.after (ops : List Op) : Session := ops.foldl Session.apply Session.new

/-- `PodsNamed`. -/
def podsNamed (h : History) (ns name : String) : List Inventory.Pod :=
  Text.sortedBy Inventory.Pod.uid
    ((h.rows.filter fun x => decide (x.2.ns = ns ∧ x.2.name = name)).map Prod.snd)

/-! ### Correlation -/

/-- What the standard library does with values: `time.Parse` of a text in RFC 3339, the conversion
of a fraction to an integer, and the texts of values that are none, for `Sprint` and for `%s`. -/
structure Library where
  parseTime : String → Option ℚ
  truncate : String → ℤ
  sprint : Json → String
  format : Option Json → String

/-- `fmt.Sprint`. -/
def Library.printed (lib : Library) : Option Json → String
  | none => "<nil>"
  | some (.str s) => s
  | some v => lib.sprint v

/-- `%s`. -/
def Library.formatted (lib : Library) : Option Json → String
  | some (.str s) => s
  | v => lib.format v

/-- `num`. -/
def num (lib : Library) : Json → Option ℤ
  | .int n => some (roundFloat n)
  | .float t => some (lib.truncate t)
  | _ => none

/-- `m[key].(string)`; a value that is no text gives the empty one. -/
def textOf (m : Json.Fields) (key : String) : String := (Json.get m key).asStr?.getD ""

/-- `m[key].(map[string]any)`. -/
def mapOf? (m : Json.Fields) (key : String) : Option Json.Fields :=
  match Json.get m key with
  | .obj fields => some fields
  | _ => none

/-- The parts of an event that is about the UID of a Pod. -/
structure Request where
  action : Json.Fields
  target : Json.Fields
  resource : String

def Request.ns (r : Request) : String := textOf r.action "namespace"

def Request.name (r : Request) : String := textOf r.target "name"

def successful (lib : Library) (outcome : Json.Fields) : Bool :=
  (num lib (Json.get outcome "http_status")).any fun code => decide (200 ≤ code ∧ code < 300)

/-- The checks of `correlate`: a successful create of a Pod, or an exec, without a UID. -/
def request? (lib : Library) (ev : Json.Fields) : Option Request := do
  let action ← mapOf? ev "action"
  let target ← mapOf? ev "target"
  let outcome ← mapOf? ev "outcome"
  let resource := textOf action "resource"
  if textOf ev "event_type" = "k8s.api.response" ∧ textOf action "verb" = "create" ∧
      (resource = "pods" ∨ resource = "pods/exec") ∧ successful lib outcome = true ∧
      Json.has target "uid" = false then
    some ⟨action, target, resource⟩
  else none

/-- The times at which a Pod may have been created for a request at a time. -/
def fits (window time : ℚ) (resource : String) (p : Inventory.Pod) : Bool :=
  (decide (resource = "pods" ∧ time - window ≤ p.created ∧ p.created ≤ time + 1)) ||
    decide (resource = "pods/exec" ∧ p.created ≤ time + 1)

/-- The Pods that match a request. -/
def candidates (h : History) (window time : ℚ) (r : Request) : List Inventory.Pod :=
  (podsNamed h r.ns r.name).filter (fits window time r.resource)

/-- The target with the UID of a Pod. -/
def filled (r : Request) (p : Inventory.Pod) : Json.Fields :=
  let target := put "uid" (.str p.uid) r.target
  let target :=
    if r.resource = "pods" then put "service_account" (.str p.serviceAccount) target else target
  put "uid_source" (.str "inventory-correlation") target

def unnamedReason (id resource : String) : String :=
  id ++ ": Pod target of a successful " ++ resource ++ " has no namespace/name to correlate"

def unmatchedReason (id : String) (n : ℕ) (r : Request) : String :=
  id ++ ": " ++ Text.ofInt n ++ " observed Pods match " ++ r.ns ++ "/" ++ r.name ++
    " for a successful " ++ r.resource ++ "; the target Pod UID is unknown"

/-- The time of an event. -/
def timeOf (lib : Library) (ev : Json.Fields) : Option ℚ :=
  lib.parseTime (lib.printed (ev.lookup "observed_at"))

/-- `correlate`: the event after it, and the gap that it records. -/
def correlate (lib : Library) (window : ℚ) (h : History) (ev : Json.Fields) :
    Json.Fields × Option Watch.Gap :=
  match request? lib ev with
  | none => (ev, none)
  | some r =>
      let id := lib.formatted (ev.lookup "event_id")
      match timeOf lib ev with
      | none => (ev, some ⟨"pod-uncorrelated", unnamedReason id r.resource⟩)
      | some time =>
          if r.ns = "" ∨ r.name = "" then
            (ev, some ⟨"pod-uncorrelated", unnamedReason id r.resource⟩)
          else
            match candidates h window time r with
            | [p] => (put "target" (.obj (filled r p)) ev, none)
            | ps => (ev, some ⟨"pod-uncorrelated", unmatchedReason id ps.length r⟩)

/-! ### What the history keeps -/

/-- The entries of a list, each where it comes first. -/
def distinct (xs : List String) : List String := xs.reverse.dedup.reverse

lemma mem_distinct {xs : List String} {u : String} : u ∈ distinct xs ↔ u ∈ xs := by
  simp [distinct]

lemma nodup_distinct (xs : List String) : (distinct xs).Nodup :=
  List.nodup_reverse.2 (List.nodup_dedup _)

lemma distinct_concat (xs : List String) (u : String) :
    distinct (xs ++ [u]) = if u ∈ xs then distinct xs else distinct xs ++ [u] := by
  unfold distinct
  rw [List.reverse_concat]
  split_ifs with h
  · rw [List.dedup_cons_of_mem (List.mem_reverse.2 h)]
  · rw [List.dedup_cons_of_notMem fun hu => h (List.mem_reverse.1 hu), List.reverse_cons]

/-- The Pods among the objects that the operations deliver, by UID. -/
def delivered (ops : List Op) : List (String × Inventory.Pod) :=
  (ops.flatMap Op.items).filterMap pod?

/-- The UIDs that the history keeps: those that were delivered first. -/
def keptUids (ops : List Op) : List String :=
  (distinct ((delivered ops).map Prod.fst)).take maxPodHistory

lemma foldl_observe (items : List (String × Item)) (h : History) :
    items.foldl observe h = (items.filterMap pod?).foldl keep h := by
  induction items generalizing h with
  | nil => rfl
  | cons x items ih =>
      rw [List.foldl_cons, ih, List.filterMap_cons, observe]
      cases pod? x <;> rfl

lemma history_after (ops : List Op) :
    (Session.after ops).history = (delivered ops).foldl keep ∅ := by
  have hrun (s : Session) :
      (ops.foldl Session.apply s).history = (ops.flatMap Op.items).foldl observe s.history := by
    induction ops generalizing s with
    | nil => rfl
    | cons op ops ih =>
        rw [List.foldl_cons, ih, List.flatMap_cons, List.foldl_append]
        rfl
  rw [Session.after, hrun, foldl_observe]
  rfl

/-- The operations deliver the Pods of the cluster, each as it is.  The Pods of a cluster are those
that exist at some time, and what is kept of a Pod does not change while it exists. -/
structure Watched (cluster : Table Inventory.Pod.uid) (ops : List Op) : Prop where
  faithful : ∀ x ∈ delivered ops, x.2 ∈ cluster ∧ x.1 = x.2.uid
  complete : ∀ p ∈ cluster, (p.uid, p) ∈ delivered ops

section

variable {cluster : Table Inventory.Pod.uid} {ops : List Op}

lemma contains_keep {h : History} {x : String × Inventory.Pod} {u : String}
    (hu : h.contains x.1 = true) :
    (keep h x).contains u = h.contains u := by
  rw [keep, hu, Bool.true_or, if_pos rfl, Bool.eq_iff_iff, Table.contains_iff, Table.contains_iff,
    Table.exists_mem_put]
  refine ⟨fun h' => h'.elim (fun he => ?_) id, Or.inr⟩
  exact he ▸ Table.contains_iff.1 hu

/-- The UIDs in the history are the first ones. -/
lemma keys_foldl_keep (xs : List (String × Inventory.Pod)) :
    ∀ u, (xs.foldl keep ∅).contains u = true ↔
      u ∈ (distinct (xs.map Prod.fst)).take maxPodHistory := by
  induction xs using List.reverseRecOn with
  | nil => simp [distinct, Table.contains_iff]
  | append_singleton xs y ih =>
      rw [List.foldl_concat, List.map_append, List.map_singleton, distinct_concat]
      generalize xs.foldl keep ∅ = h at ih ⊢
      generalize xs.map Prod.fst = us at ih ⊢
      have hlen : h.rows.length = ((distinct us).take maxPodHistory).length := by
        rw [Table.length_eq_keys]
        refine (List.Perm.length_eq ((List.perm_ext_iff_of_nodup h.nodup
          ((nodup_distinct us).sublist (List.take_sublist _ _))).2 fun u => ?_))
        rw [← ih u, Table.contains_iff]
        exact Table.mem_keys
      intro u
      by_cases hin : h.contains y.1 = true
      · have hus : y.1 ∈ us := mem_distinct.1 (List.mem_of_mem_take ((ih _).1 hin))
        rw [contains_keep hin, ih, if_pos hus]
      · by_cases hroom : h.rows.length < maxPodHistory
        · -- as long as there is room nothing was turned away
          have hall : (distinct us).length < maxPodHistory := by
            rw [hlen, List.length_take] at hroom
            omega
          have htake : (distinct us).take maxPodHistory = distinct us :=
            List.take_of_length_le hall.le
          have hus : y.1 ∉ us := fun hus => hin ((ih _).2 (by rwa [htake, mem_distinct]))
          rw [if_neg hus, List.take_of_length_le (by simpa using hall), keep,
            if_pos (by simp [hroom]), Table.contains_iff, Table.exists_mem_put,
            ← Table.contains_iff, ih, htake, List.mem_append, List.mem_singleton, or_comm, eq_comm]
        · have hfull : maxPodHistory ≤ (distinct us).length := by
            rw [hlen, List.length_take] at hroom
            omega
          rw [keep, if_neg (by simp [hin, hroom]), ih]
          split_ifs
          · rfl
          · rw [List.take_append_of_le_length hfull]

lemma mem_of_mem_foldl_keep {xs : List (String × Inventory.Pod)} {x : String × Inventory.Pod}
    {h : History} (hx : x ∈ xs.foldl keep h) : x ∈ xs ∨ x ∈ h := by
  induction xs generalizing h with
  | nil => exact Or.inr hx
  | cons y xs ih =>
      rcases ih hx with hx | hx
      · exact Or.inl (List.mem_cons_of_mem _ hx)
      · unfold keep at hx
        split_ifs at hx
        · rcases Table.mem_put.1 hx with rfl | ⟨hx, -⟩
          · exact Or.inl List.mem_cons_self
          · exact Or.inr hx
        · exact Or.inr hx

/-- The history has the Pods whose UIDs were delivered first. -/
theorem mem_history_iff (hw : Watched cluster ops) {x : String × Inventory.Pod} :
    x ∈ (Session.after ops).history ↔ x.1 ∈ keptUids ops ∧ x.2 ∈ cluster ∧ x.1 = x.2.uid := by
  rw [history_after]
  have hmem : ∀ y ∈ (delivered ops).foldl keep ∅, y.2 ∈ cluster ∧ y.1 = y.2.uid := fun y hy =>
    hw.faithful y ((mem_of_mem_foldl_keep hy).resolve_right (Table.not_mem_empty y))
  constructor
  · intro hx
    exact ⟨(keys_foldl_keep _ _).1 (Table.contains_iff.2 ⟨x, hx, rfl⟩), hmem x hx⟩
  · rintro ⟨hkept, hx, hxuid⟩
    obtain ⟨y, hy, hyx⟩ := Table.contains_iff.1 ((keys_foldl_keep _ _).2 hkept)
    obtain ⟨hycluster, hyuid⟩ := hmem y hy
    have hpod : y.2 = x.2 := Table.eq_of_key_eq hycluster hx (by rw [← hyuid, hyx, hxuid])
    rwa [show x = y from Prod.ext hyx.symm hpod.symm]

/-- A cluster with no more Pods than the history keeps has all of them in it. -/
lemma mem_keptUids_of_length_le (hw : Watched cluster ops)
    (hsmall : cluster.rows.length ≤ maxPodHistory) {p : Inventory.Pod} (hp : p ∈ cluster) :
    p.uid ∈ keptUids ops := by
  have hsub : distinct ((delivered ops).map Prod.fst) ⊆ cluster.keys := by
    intro u hu
    obtain ⟨x, hx, rfl⟩ := List.mem_map.1 (mem_distinct.1 hu)
    obtain ⟨hcluster, huid⟩ := hw.faithful x hx
    exact Table.mem_keys.2 ⟨x.2, hcluster, huid.symm⟩
  have hlen := (List.subperm_of_subset (nodup_distinct _) hsub).length_le
  rw [← Table.length_eq_keys] at hlen
  rw [keptUids, List.take_of_length_le (hlen.trans hsmall), mem_distinct]
  exact List.mem_map.2 ⟨_, hw.complete p hp, rfl⟩

/-! ### Candidates -/

variable {window time : ℚ} {r : Request}

/-- The Pods of the name of a request that are kept and fit. -/
def Matches (cluster : Table Inventory.Pod.uid) (ops : List Op) (window time : ℚ) (r : Request)
    (p : Inventory.Pod) : Prop :=
  p ∈ cluster ∧ p.uid ∈ keptUids ops ∧ p.ns = r.ns ∧ p.name = r.name ∧
    fits window time r.resource p = true

lemma mem_candidates_iff (hw : Watched cluster ops) {p : Inventory.Pod} :
    p ∈ candidates (Session.after ops).history window time r ↔
      Matches cluster ops window time r p := by
  unfold candidates podsNamed Matches
  rw [List.mem_filter, Text.mem_sortedBy, List.mem_map]
  constructor
  · rintro ⟨⟨x, hx, rfl⟩, hfits⟩
    obtain ⟨hx, hnamed⟩ := List.mem_filter.1 hx
    obtain ⟨hkept, hcluster, huid⟩ := (mem_history_iff hw).1 hx
    obtain ⟨hns, hname⟩ := of_decide_eq_true hnamed
    exact ⟨hcluster, huid ▸ hkept, hns, hname, hfits⟩
  · rintro ⟨hcluster, hkept, hns, hname, hfits⟩
    refine ⟨⟨(p.uid, p), List.mem_filter.2 ⟨?_, decide_eq_true ⟨hns, hname⟩⟩, rfl⟩, hfits⟩
    exact (mem_history_iff hw).2 ⟨hkept, hcluster, rfl⟩

lemma nodup_candidates (hw : Watched cluster ops) :
    (candidates (Session.after ops).history window time r).Nodup := by
  refine List.Nodup.filter _ ?_
  rw [podsNamed, (Text.sortedBy_perm _ _).nodup_iff]
  refine List.Nodup.map_on (fun x hx y hy hxy => ?_) (((Table.nodup _).of_map).filter _)
  have huid : ∀ z, z ∈ (Session.after ops).history.rows → z.1 = z.2.uid := fun z hz =>
    ((mem_history_iff hw).1 hz).2.2
  refine Prod.ext ?_ hxy
  rw [huid x (List.mem_filter.1 hx).1, huid y (List.mem_filter.1 hy).1, hxy]

/-- There is one candidate if exactly one Pod matches. -/
lemma exists_candidate_iff (hw : Watched cluster ops) (p : Inventory.Pod) :
    candidates (Session.after ops).history window time r = [p] ↔
      ∀ q, Matches cluster ops window time r q ↔ q = p := by
  constructor
  · intro h q
    rw [← mem_candidates_iff hw, h, List.mem_singleton]
  · intro h
    refine List.perm_singleton.1 ((List.perm_ext_iff_of_nodup (nodup_candidates hw)
      (List.nodup_singleton p)).2 fun q => ?_)
    rw [mem_candidates_iff hw, h, List.mem_singleton]

end

/-! ### The right Pod -/

/-- The request of an event was for a Pod: at the time of its stage it created or entered the Pod.
The event has this time, of which it may have the seconds only. -/
structure For (lib : Library) (window stage : ℚ) (ev : Json.Fields) (r : Request)
    (p : Inventory.Pod) : Prop where
  request : request? lib ev = some r
  ns : r.ns = "" ∨ r.ns = p.ns
  name : r.name = "" ∨ r.name = p.name
  observed : ∀ time, timeOf lib ev = some time → ⌊stage⌋ ≤ time ∧ time ≤ stage
  window_le : r.resource = "pods" → stage - window ≤ p.created
  le_stage : p.created ≤ stage + 1

/-- The event has the UID of a Pod. -/
def NamesPod (uid : String) (result : Json.Fields × Option Watch.Gap) : Prop :=
  ∃ target, mapOf? result.1 "target" = some target ∧ Json.get target "uid" = .str uid ∧
    result.2 = none

/-- The event has no UID, and there is a gap. -/
def LeftOpen (result : Json.Fields × Option Watch.Gap) : Prop :=
  ∃ target reason, mapOf? result.1 "target" = some target ∧ Json.has target "uid" = false ∧
    result.2 = some ⟨"pod-uncorrelated", reason⟩

section

variable {lib : Library} {window stage time : ℚ} {ev : Json.Fields} {r : Request}
  {p : Inventory.Pod}

lemma request?_eq_some (h : request? lib ev = some r) : mapOf? ev "target" = some r.target ∧
    Json.has r.target "uid" = false ∧ (r.resource = "pods" ∨ r.resource = "pods/exec") := by
  simp only [request?, Option.bind_eq_bind, Option.bind_eq_some_iff, Option.ite_none_right_eq_some,
    Option.some.injEq] at h
  obtain ⟨action, -, target, htarget, outcome, -, ⟨-, -, hres, -, huid⟩, rfl⟩ := h
  exact ⟨htarget, huid, hres⟩

/-- The Pod of a request fits the time of its event. -/
lemma For.fits (h : For lib window stage ev r p) (ht : timeOf lib ev = some time) :
    Correlate.fits window time r.resource p = true := by
  obtain ⟨hfloor, hle⟩ := h.observed time ht
  -- a Pod has the second in which it was created
  have hcreated : (p.created : ℚ) ≤ time + 1 := by
    have hint : p.created ≤ ⌊stage⌋ + 1 := by
      rw [← Int.floor_add_one]
      exact Int.le_floor.2 h.le_stage
    calc (p.created : ℚ) ≤ ((⌊stage⌋ + 1 : ℤ) : ℚ) := by exact_mod_cast hint
      _ = ⌊stage⌋ + 1 := by push_cast; rfl
      _ ≤ time + 1 := by linarith
  unfold Correlate.fits
  rw [Bool.or_eq_true, decide_eq_true_iff, decide_eq_true_iff]
  rcases (request?_eq_some h.request).2.2 with hres | hres
  · exact Or.inl ⟨hres, (by linarith [h.window_le hres]), hcreated⟩
  · exact Or.inr ⟨hres, hcreated⟩

lemma leftOpen_of_gap (h : request? lib ev = some r) (reason : String) :
    LeftOpen (ev, some ⟨"pod-uncorrelated", reason⟩) := by
  obtain ⟨htarget, huid, -⟩ := request?_eq_some h
  exact ⟨r.target, reason, htarget, huid, rfl⟩

lemma get_uid_filled (r : Request) (q : Inventory.Pod) :
    Json.get (filled r q) "uid" = .str q.uid := by
  refine Json.get_eq_of_lookup ?_
  unfold filled
  rw [lookup_put_of_ne (by decide)]
  split_ifs
  · rw [lookup_put_of_ne (by decide), lookup_put_self]
  · rw [lookup_put_self]

/-- An event that was given the UID of a Pod names this Pod and no other. -/
lemma right_filled_iff {uid : String} {q : Inventory.Pod} :
    (NamesPod uid (put "target" (.obj (filled r q)) ev, none) ∨
      LeftOpen (put "target" (.obj (filled r q)) ev, none)) ↔ q.uid = uid := by
  have htarget : mapOf? (put "target" (.obj (filled r q)) ev) "target" = some (filled r q) := by
    rw [mapOf?, Json.get_eq_of_lookup (lookup_put_self _ _ _)]
  constructor
  · rintro (⟨target, ht, huid, -⟩ | ⟨_, _, -, -, hgap⟩)
    · obtain rfl := Option.some.inj (htarget.symm.trans ht)
      rw [get_uid_filled] at huid
      exact Json.str.inj huid
    · cases hgap
  · rintro rfl
    exact Or.inl ⟨filled r q, htarget, get_uid_filled r q, rfl⟩

variable {cluster : Table Inventory.Pod.uid} {ops : List Op}

/-- For a request with a name and a time: correlation is right unless the only Pod that matches is
another one. -/
lemma right_iff_of_named (hw : Watched cluster ops) (hp : p ∈ cluster)
    (h : For lib window stage ev r p) (ht : timeOf lib ev = some time) (hns : r.ns ≠ "")
    (hname : r.name ≠ "") :
    (NamesPod p.uid (correlate lib window (Session.after ops).history ev) ∨
      LeftOpen (correlate lib window (Session.after ops).history ev)) ↔
    (p.uid ∈ keptUids ops ∨ ¬∃! q, Matches cluster ops window time r q) := by
  have hp_matches : p.uid ∈ keptUids ops → Matches cluster ops window time r p := fun hkept =>
    ⟨hp, hkept, (h.ns.resolve_left hns).symm, (h.name.resolve_left hname).symm, h.fits ht⟩
  rw [correlate, h.request]
  simp only [ht, hns, hname, or_self, if_false]
  by_cases hone : ∃! q, Matches cluster ops window time r q
  · obtain ⟨q, hq, hunique⟩ := hone
    have hcand : candidates (Session.after ops).history window time r = [q] :=
      (exists_candidate_iff hw q).2 fun q' => ⟨hunique q', fun he => he ▸ hq⟩
    rw [hcand]
    refine right_filled_iff.trans ⟨fun he => Or.inl (he ▸ hq.2.1), fun hor => ?_⟩
    rcases hor with hkept | hnone
    · rw [hunique p (hp_matches hkept)]
    · exact absurd ⟨q, hq, hunique⟩ hnone
  · refine iff_of_true (Or.inr ?_) (Or.inr hone)
    cases hcand : candidates (Session.after ops).history window time r with
    | nil => exact leftOpen_of_gap h.request _
    | cons q qs =>
        cases qs with
        | nil =>
            have hq := (exists_candidate_iff hw q).1 hcand
            exact absurd ⟨q, (hq q).2 rfl, fun q' hq' => (hq q').1 hq'⟩ hone
        | cons q' qs => exact leftOpen_of_gap h.request _

/-- Correlation is right exactly if the Pod is in the history, or it is not so that exactly one Pod
in the history has its name and fits. -/
theorem correlate_right_iff (hw : Watched cluster ops) (hp : p ∈ cluster)
    (h : For lib window stage ev r p) :
    (NamesPod p.uid (correlate lib window (Session.after ops).history ev) ∨
      LeftOpen (correlate lib window (Session.after ops).history ev)) ↔
    ∀ time, timeOf lib ev = some time → r.ns ≠ "" → r.name ≠ "" →
      p.uid ∈ keptUids ops ∨ ¬∃! q, Matches cluster ops window time r q := by
  by_cases hnamed : ∃ time, timeOf lib ev = some time ∧ r.ns ≠ "" ∧ r.name ≠ ""
  · obtain ⟨time, ht, hns, hname⟩ := hnamed
    rw [right_iff_of_named hw hp h ht hns hname]
    constructor
    · intro hright time' ht' _ _
      obtain rfl := Option.some.inj (ht.symm.trans ht')
      exact hright
    · exact fun hright => hright time ht hns hname
  · refine iff_of_true (Or.inr ?_) fun time ht hns hname => absurd ⟨time, ht, hns, hname⟩ hnamed
    rw [correlate, h.request]
    cases ht : timeOf lib ev with
    | none => exact leftOpen_of_gap h.request _
    | some time =>
        have hempty : r.ns = "" ∨ r.name = "" := by
          by_contra hnot
          rw [not_or] at hnot
          exact hnamed ⟨time, ht, hnot⟩
        simp only [hempty, if_true]
        exact leftOpen_of_gap h.request _

end

/-! ### A crowded session -/

lemma distinct_of_nodup {xs : List String} (h : xs.Nodup) : distinct xs = xs := by
  rw [distinct, List.dedup_eq_self.2 (List.nodup_reverse.2 h), List.reverse_reverse]

namespace Sample

def pod (name uid : String) (created : ℤ) : Inventory.Pod :=
  ⟨"ns", name, uid, "default", [], created⟩

/-- A Pod that is created at the time 5. -/
def late : Inventory.Pod := pod "web" "p" 5

/-- A Pod that had its name before. -/
def earlier : Inventory.Pod := pod "web" "q" 0

def other (n : ℕ) : Inventory.Pod := pod "other" ("x" ++ Text.ofInt n) 0

/-- As many Pods as a history keeps. -/
def early : List Inventory.Pod := earlier :: (List.range 99999).map other

lemma length_early : early.length = maxPodHistory := by
  simp [early, maxPodHistory]

lemma uid_other_inj {m n : ℕ} (h : (other m).uid = (other n).uid) : m = n := by
  have hnum := Text.ofInt_inj ((String.append_right_inj "x").1 h)
  exact_mod_cast hnum

lemma uid_other_ne {n : ℕ} {u : String} (h : 'x' ∉ u.toList) : (other n).uid ≠ u := by
  rintro rfl
  exact h (by simp [other, pod])

lemma nodup_crowd : ((early ++ [late]).map Inventory.Pod.uid).Nodup := by
  have hothers : (((List.range 99999).map other).map Inventory.Pod.uid).Nodup := by
    rw [List.map_map]
    exact List.nodup_range.map_on fun m _ n _ h => uid_other_inj h
  have hnot : ∀ u, 'x' ∉ u.toList → u ∉ ((List.range 99999).map other).map Inventory.Pod.uid := by
    intro u hu hmem
    rw [List.map_map, List.mem_map] at hmem
    obtain ⟨n, -, hn⟩ := hmem
    exact uid_other_ne hu hn
  rw [List.map_append, List.nodup_append]
  refine ⟨List.nodup_cons.2 ⟨hnot "q" (by decide), hothers⟩, List.nodup_singleton _, ?_⟩
  intro u hu v hv
  obtain rfl := List.mem_singleton.1 hv
  rcases List.mem_cons.1 hu with rfl | hu
  · decide
  · rintro rfl
    exact hnot "p" (by decide) hu

/-- The early Pods and the late one. -/
def crowd : Table Inventory.Pod.uid := ⟨early ++ [late], nodup_crowd⟩

/-- The late Pod, and the one that had its name before. -/
def namesakes : Table Inventory.Pod.uid := ⟨[earlier, late], by decide⟩

/-- The Pods of a cluster come one after the other. -/
def arrivals (cluster : Table Inventory.Pod.uid) : List Op :=
  cluster.rows.map fun p => .upsert .pod p.uid (.pod p)

lemma delivered_arrivals (cluster : Table Inventory.Pod.uid) :
    delivered (arrivals cluster) = cluster.rows.map fun p => (p.uid, p) := by
  unfold delivered arrivals
  generalize cluster.rows = ps
  induction ps with
  | nil => rfl
  | cons p ps ih => exact congrArg ((p.uid, p) :: ·) ih

lemma watched_arrivals (cluster : Table Inventory.Pod.uid) : Watched cluster (arrivals cluster) where
  faithful x hx := by
    rw [delivered_arrivals] at hx
    obtain ⟨p, hp, rfl⟩ := List.mem_map.1 hx
    exact ⟨hp, rfl⟩
  complete p hp := by
    rw [delivered_arrivals]
    exact List.mem_map.2 ⟨p, hp, rfl⟩

lemma keptUids_crowd : keptUids (arrivals crowd) = early.map Inventory.Pod.uid := by
  rw [keptUids, delivered_arrivals, List.map_map]
  have huids : crowd.rows.map (Prod.fst ∘ fun p => (p.uid, p)) =
      early.map Inventory.Pod.uid ++ ["p"] := List.map_append
  have hnodup : (early.map Inventory.Pod.uid ++ ["p"]).Nodup := by
    have h := nodup_crowd
    rwa [List.map_append] at h
  rw [huids, distinct_of_nodup hnodup, List.take_left']
  rw [List.length_map, length_early]

/-- The only early Pod with the name of the late one. -/
lemma eq_earlier {q : Inventory.Pod} (hq : q ∈ early) (hname : q.name = "web") : q = earlier := by
  rcases List.mem_cons.1 hq with rfl | hq
  · rfl
  · obtain ⟨n, -, rfl⟩ := List.mem_map.1 hq
    exact absurd (show "other" = "web" from hname) (by decide)

/-- A parser that reads one time. -/
def lib : Library where
  parseTime text := if text = "1970-01-01T00:00:05Z" then some 5 else none
  truncate _ := 0
  sprint _ := ""
  format _ := ""

/-- The create of a Pod at the time 5. -/
def event : Json.Fields :=
  [("action", .obj [("namespace", .str "ns"), ("resource", .str "pods"), ("verb", .str "create")]),
    ("event_id", .str "audit:1"), ("event_type", .str "k8s.api.response"),
    ("observed_at", .str "1970-01-01T00:00:05Z"),
    ("outcome", .obj [("http_status", .int 201)]), ("target", .obj [("name", .str "web")])]

def request : Request where
  action := [("namespace", .str "ns"), ("resource", .str "pods"), ("verb", .str "create")]
  target := [("name", .str "web")]
  resource := "pods"

lemma timeOf_event : timeOf lib event = some 5 := by
  show (if "1970-01-01T00:00:05Z" = "1970-01-01T00:00:05Z" then some (5 : ℚ) else none) = some 5
  rw [if_pos rfl]

lemma fits_earlier : fits 10 5 "pods" earlier = true := by
  have htime : (5 : ℚ) - 10 ≤ ((0 : ℤ) : ℚ) ∧ ((0 : ℤ) : ℚ) ≤ 5 + 1 := by norm_num
  rw [fits, Bool.or_eq_true, decide_eq_true_iff]
  exact Or.inl ⟨rfl, htime⟩

lemma for_late {window : ℚ} (h : 0 ≤ window) : For lib window 5 event request late where
  request := rfl
  ns := Or.inr rfl
  name := Or.inr rfl
  observed time ht := by
    obtain rfl := Option.some.inj (timeOf_event.symm.trans ht)
    norm_num
  window_le _ := by
    show (5 : ℚ) - window ≤ ((5 : ℤ) : ℚ)
    push_cast
    linarith
  le_stage := by
    show ((5 : ℤ) : ℚ) ≤ 5 + 1
    norm_num

end Sample

open Collector.Correlate.Sample in
/-- A Pod that is delivered when the history is full is taken for one that had its name before. -/
theorem crowd_not_right : Watched crowd (arrivals crowd) ∧ late ∈ crowd ∧
    For lib 10 5 event request late ∧
    ¬(NamesPod late.uid (correlate lib 10 (Session.after (arrivals crowd)).history event) ∨
      LeftOpen (correlate lib 10 (Session.after (arrivals crowd)).history event)) := by
  have hlate : late ∈ crowd := List.mem_append_right _ (List.mem_singleton.2 rfl)
  refine ⟨watched_arrivals crowd, hlate, for_late (by norm_num), fun hright => ?_⟩
  rw [right_iff_of_named (watched_arrivals crowd) hlate (for_late (by norm_num)) timeOf_event
    (by decide) (by decide)] at hright
  have hnodup := nodup_crowd
  rw [List.map_append, List.nodup_append] at hnodup
  rcases hright with hkept | hnone
  · rw [keptUids_crowd] at hkept
    exact hnodup.2.2 _ hkept _ (List.mem_singleton.2 rfl) rfl
  · refine hnone ⟨earlier, ⟨List.mem_append_left _ List.mem_cons_self, ?_, rfl, rfl, ?_⟩, ?_⟩
    · rw [keptUids_crowd]
      exact List.mem_map.2 ⟨earlier, List.mem_cons_self, rfl⟩
    · exact fits_earlier
    · rintro q ⟨hq, hkept, -, hname, -⟩
      refine eq_earlier ((List.mem_append.1 hq).resolve_right fun hq => ?_) hname
      obtain rfl := List.mem_singleton.1 hq
      rw [keptUids_crowd] at hkept
      exact hnodup.2.2 _ hkept _ (List.mem_singleton.2 rfl) rfl

open Collector.Correlate.Sample in
/-- Of two Pods with the name of the event it names the one that was created last, as the other is
too old for the window. -/
theorem namesakes_right :
    NamesPod late.uid (correlate lib 3 (Session.after (arrivals namesakes)).history event) ∨
      LeftOpen (correlate lib 3 (Session.after (arrivals namesakes)).history event) :=
  (correlate_right_iff (watched_arrivals namesakes) (List.mem_pair.2 (.inr rfl))
    (for_late (by norm_num))).2 fun _ _ _ _ =>
      Or.inl (mem_keptUids_of_length_le (watched_arrivals namesakes) (by
        show 2 ≤ maxPodHistory
        decide) (List.mem_pair.2 (.inr rfl)))

end Correlate

end Collector

end Afterlock
