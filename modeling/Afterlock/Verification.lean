import Afterlock.ActionJson
import Afterlock.Canonical
import Afterlock.Reference.Checks
import Afterlock.Results

/-!
# Verifying a result

The digest of an analysis is that of the raw document, and verifying a result puts the encoded
actions of its bundle back into the document.  The digests are equal exactly if the actions were
written as they are encoded (`digestMatches_iff`).
-/

namespace Afterlock

open Parse Reference Delimited

/-- `raw["remediation"] = remediation`, in a copy of the document. -/
def withRemediation (m : Json.Fields) (remediation : Json) : Json.Fields :=
  ("remediation", remediation) :: m.filter fun e => e.1 ≠ "remediation"

/-- The document that `cmd_analyze` analyses: the stored one, with the actions of `--remediation` if
they are given. -/
def analyzed (stored : Json.Fields) : Option Json → Json.Fields
  | none => stored
  | some remediation => withRemediation stored remediation

/-! ### Actions as they are encoded -/

/-- The fields that an action of a kind uses. -/
def usedFields (kind : String) : List String :=
  "kind" :: (requiredFields kind).getD [] ++
    (if kind ∈ keepKinds then ["keep_uids"]
      else if kind = "remove_binding" then ["namespace"]
      else if kind = "wait" then ["seconds"] else [])

/-- The fields of an action are those it uses, its namespace is not `null`, and the UIDs to keep are
a sorted list without repetition. -/
structure PlainFields (m : Json.Fields) (kind : String) : Prop where
  used : ∀ k v, m.lookup k = some v → k ∈ usedFields kind
  notNull : nullAt m "namespace" = false
  keep : kind ∈ keepKinds → ∃ keep : List String,
    m.lookup "keep_uids" = some (.arr (keep.map .str)) ∧ keep.Pairwise (· < ·)

def PlainAction (raw : Json) : Prop :=
  ∃ m kind, raw = .obj m ∧ str? m "kind" = some kind ∧ PlainFields m kind

/-- A list of actions, each of which is plain. -/
def PlainActions (raw : Json) : Prop := ∃ xs, raw = .arr xs ∧ ∀ x ∈ xs, PlainAction x

/-- The fields `f` encode an action that is read from the fields `m`. -/
structure Encodes (loc : String) (m f : Json.Fields) (kind : String) : Prop where
  outside : ∀ k, k ∉ usedFields kind → f.lookup k = none
  inside : ∀ k ∈ usedFields kind, k ≠ "keep_uids" →
    (∃ v, v.Simple ∧ v ≠ .null ∧ m.lookup k = some v ∧ f.lookup k = some v) ∨
      k = "namespace" ∧ Json.get m k = .null ∧ f.lookup k = none
  keep : kind ∈ keepKinds → ∃ ys, strs (Json.get m "keep_uids") loc = .ok ys ∧
    f.lookup "keep_uids" = some (.arr ((Text.sortedBy id ys.dedup).map .str))

section

variable {loc : String} {m f : Json.Fields} {kind : String} {a : DefenderAction}

/-- A field that is a string in both. -/
lemma same_str {k s : String} (hm : reqStr m k loc = .ok s) (hf : f.lookup k = some (.str s)) :
    ∃ v, v.Simple ∧ v ≠ .null ∧ m.lookup k = some v ∧ f.lookup k = some v :=
  ⟨.str s, .str s, by simp, get_eq_str (reqStr_eq_ok hm).1, hf⟩

lemma encodes_of (used : List String) (hu : usedFields kind = used) (hkeys : ∀ e ∈ f, e.1 ∈ used)
    (hin : ∀ k ∈ used, k ≠ "keep_uids" →
      (∃ v, v.Simple ∧ v ≠ .null ∧ m.lookup k = some v ∧ f.lookup k = some v) ∨
        k = "namespace" ∧ Json.get m k = .null ∧ f.lookup k = none)
    (hkeep : kind ∈ keepKinds → ∃ ys, strs (Json.get m "keep_uids") loc = .ok ys ∧
      f.lookup "keep_uids" = some (.arr ((Text.sortedBy id ys.dedup).map .str))) :
    Encodes loc m f kind := by
  subst hu
  exact ⟨fun k hk => lookup_eq_none fun e he hek => hk (hek ▸ hkeys e he), hin, hkeep⟩

lemma keepUids_eq_ok {keep : List String} (h : keepUids m loc = .ok keep) :
    ∃ ys, strs (Json.get m "keep_uids") s!"{loc}.keep_uids" = .ok ys ∧
      keep = Text.sortedBy id ys.dedup := by
  simp only [keepUids, bind_eq_ok, pure_eq_ok] at h
  obtain ⟨ys, hys, _, -, rfl⟩ := h
  exact ⟨ys, hys, rfl⟩

lemma lookup_of_reqInt {k : String} {n minimum : ℤ} (h : reqInt m k loc minimum = .ok n) :
    m.lookup k = some (.int n) := by
  have hi := int?_of_reqInt h
  unfold int? at hi
  cases hl : m.lookup k with
  | none => simp [hl] at hi
  | some v => cases v <;> simp_all

/-- An accepted action and its encoding have the same used fields, but for the UIDs to keep and a
namespace that is not there. -/
lemma exists_encodes (h : action loc (.obj m) = .ok a) :
    ∃ f kind, a.toJson = some (.obj f) ∧ str? m "kind" = some kind ∧
      Encodes s!"{loc}.keep_uids" m f kind := by
  obtain ⟨m', kind, hraw, hkind, hreq, hbody⟩ := action_eq_ok h
  obtain rfl := Json.obj.inj hraw
  have hk := str?_of_reqStr hkind
  have hgood := actionBody_encodable hbody
  unfold actionBody at hbody
  -- one case for each kind, in the order in which the parser asks for them
  split_ifs at hbody with h1 h2 h3 h4 h5 h6 h7 <;> simp only [bind_eq_ok, pure_eq_ok] at hbody
  · obtain ⟨name, hname, ns, hns, rfl⟩ := hbody
    subst h1
    have hu : usedFields "remove_binding" = ["kind", "name", "namespace"] := rfl
    cases ns with
    | none =>
        -- a namespace that is absent or `null` is not encoded
        refine ⟨_, _, rfl, hk, encodes_of _ hu (by simp) ?_ fun hm => absurd hm (by decide)⟩
        simp only [List.forall_mem_cons, List.not_mem_nil, false_imp_iff, implies_true, and_true]
        exact ⟨fun _ => Or.inl (same_str hkind rfl), fun _ => Or.inl (same_str hname rfl),
          fun _ => Or.inr ⟨trivial, (optStr_eq_ok hns).1, rfl⟩⟩
    | some n =>
        refine ⟨_, _, rfl, hk, encodes_of _ hu (by simp) ?_ fun hm => absurd hm (by decide)⟩
        simp only [List.forall_mem_cons, List.not_mem_nil, false_imp_iff, implies_true, and_true]
        exact ⟨fun _ => Or.inl (same_str hkind rfl), fun _ => Or.inl (same_str hname rfl),
          fun _ => Or.inl ⟨.str n, .str n, by simp, get_eq_str (optStr_eq_ok hns).1, rfl⟩⟩
  · obtain ⟨uid, huid, _, -, rfl⟩ := hbody
    subst h2
    refine ⟨_, _, rfl, hk, encodes_of ["kind", "uid"] rfl (by simp) ?_
      fun hm => absurd hm (by decide)⟩
    simp only [List.forall_mem_cons, List.not_mem_nil, false_imp_iff, implies_true, and_true]
    exact ⟨fun _ => Or.inl (same_str hkind rfl), fun _ => Or.inl (same_str huid rfl)⟩
  · obtain ⟨uid, huid, _, -, rfl⟩ := hbody
    subst h3
    refine ⟨_, _, rfl, hk, encodes_of ["kind", "uid"] rfl (by simp) ?_
      fun hm => absurd hm (by decide)⟩
    simp only [List.forall_mem_cons, List.not_mem_nil, false_imp_iff, implies_true, and_true]
    exact ⟨fun _ => Or.inl (same_str hkind rfl), fun _ => Or.inl (same_str huid rfl)⟩
  · -- the UIDs to keep are encoded from the sorted list
    obtain ⟨ns, hns, sa, hsa, keep, hkeep, rfl⟩ := hbody
    subst h4
    obtain ⟨ys, hys, rfl⟩ := keepUids_eq_ok hkeep
    refine ⟨_, _, toJson_of_keep hgood.2.2 rfl, hk, encodes_of
      ["kind", "namespace", "service_account", "keep_uids"] rfl (by simp) ?_
      fun _ => ⟨ys, hys, rfl⟩⟩
    simp only [List.forall_mem_cons, List.not_mem_nil, false_imp_iff, implies_true, and_true]
    exact ⟨fun _ => Or.inl (same_str hkind rfl), fun _ => Or.inl (same_str hns rfl),
      fun _ => Or.inl (same_str hsa rfl), fun hne => absurd rfl hne⟩
  · obtain ⟨ns, hns, sa, hsa, keep, hkeep, rfl⟩ := hbody
    subst h5
    obtain ⟨ys, hys, rfl⟩ := keepUids_eq_ok hkeep
    refine ⟨_, _, toJson_of_keep hgood.2.2 rfl, hk, encodes_of
      ["kind", "namespace", "service_account", "keep_uids"] rfl (by simp) ?_
      fun _ => ⟨ys, hys, rfl⟩⟩
    simp only [List.forall_mem_cons, List.not_mem_nil, false_imp_iff, implies_true, and_true]
    exact ⟨fun _ => Or.inl (same_str hkind rfl), fun _ => Or.inl (same_str hns rfl),
      fun _ => Or.inl (same_str hsa rfl), fun hne => absurd rfl hne⟩
  · obtain ⟨ns, hns, name, hname, rfl⟩ := hbody
    subst h6
    refine ⟨_, _, rfl, hk, encodes_of ["kind", "namespace", "name"] rfl (by simp) ?_
      fun hm => absurd hm (by decide)⟩
    simp only [List.forall_mem_cons, List.not_mem_nil, false_imp_iff, implies_true, and_true]
    exact ⟨fun _ => Or.inl (same_str hkind rfl), fun _ => Or.inl (same_str hns rfl),
      fun _ => Or.inl (same_str hname rfl)⟩
  · obtain ⟨service, hservice, rfl⟩ := hbody
    subst h7
    refine ⟨_, _, rfl, hk, encodes_of ["kind", "service"] rfl (by simp) ?_
      fun hm => absurd hm (by decide)⟩
    simp only [List.forall_mem_cons, List.not_mem_nil, false_imp_iff, implies_true, and_true]
    exact ⟨fun _ => Or.inl (same_str hkind rfl), fun _ => Or.inl (same_str hservice rfl)⟩
  · obtain ⟨seconds, hseconds, rfl⟩ := hbody
    -- any other kind than `wait` has been refused before
    have h8 : kind = "wait" := by
      unfold requiredFields at hreq
      simp only [h1, h2, h3, h4, h5, h6, h7, if_false] at hreq
      by_contra hw
      simp [hw] at hreq
    subst h8
    refine ⟨[("kind", .str "wait"), ("seconds", .int seconds)], _, ?_, hk,
      encodes_of ["kind", "seconds"] rfl (by simp) ?_ fun hm => absurd hm (by decide)⟩
    · simp [DefenderAction.toJson, DefenderAction.params, DefenderAction.kind, paramJson,
        Text.toInt?_ofInt]
    · simp only [List.forall_mem_cons, List.not_mem_nil, false_imp_iff, implies_true, and_true]
      exact ⟨fun _ => Or.inl (same_str hkind rfl),
        fun _ => Or.inl ⟨_, .int seconds, by simp, lookup_of_reqInt hseconds, rfl⟩⟩

lemma keep_mem_used (h : "keep_uids" ∈ usedFields kind) : kind ∈ keepKinds := by
  by_contra hk
  unfold usedFields at h
  rw [if_neg hk] at h
  unfold requiredFields at h
  split_ifs at h <;> simp at h

lemma eq_map_str {xs : List Json} {ys : List String} (h : xs.mapM Json.asStr? = some ys) :
    xs = ys.map .str := by
  induction xs generalizing ys with
  | nil =>
      simp only [List.mapM_nil, Option.pure_def, Option.some.injEq] at h
      subst h
      rfl
  | cons x xs ih =>
      simp only [List.mapM_cons, Option.bind_eq_bind, Option.bind_eq_some_iff, Option.pure_def,
        Option.some.injEq] at h
      obtain ⟨s, hs, rest, hrest, rfl⟩ := h
      rw [List.map_cons, ← ih hrest, ← Json.asStr?_eq_some.1 hs]

/-- What the parser accepts for the UIDs to keep. -/
lemma keep_value {ys : List String} (h : strs (Json.get m "keep_uids") loc = .ok ys) :
    (Json.get m "keep_uids" = .null ∧ ys = []) ∨
      m.lookup "keep_uids" = some (.arr (ys.map .str)) := by
  unfold strs at h
  obtain ⟨xs, hxs, hstr⟩ := bind_eq_ok.1 h
  unfold Json.get at hxs ⊢
  cases hl : m.lookup "keep_uids" with
  | none =>
      rw [hl] at hxs
      obtain rfl := Except.ok.inj hxs
      exact Or.inl ⟨rfl, (Except.ok.inj hstr).symm⟩
  | some v =>
      rw [hl] at hxs
      cases v with
      | null =>
          obtain rfl := Except.ok.inj hxs
          exact Or.inl ⟨rfl, (Except.ok.inj hstr).symm⟩
      | arr zs =>
          refine Or.inr (congrArg (some ∘ Json.arr) ?_)
          have hzs : zs = xs := by
            simp only [Option.getD_some, list] at hxs
            split_ifs at hxs
            · simp at hxs
            · exact Except.ok.inj hxs
          subst hzs
          exact eq_map_str (mapM_asStr?_of_strEntries hstr)
      | _ => simp [list] at hxs

lemma lookup_of_nullAt {key : String} (h : nullAt m key = true) : m.lookup key = some .null := by
  unfold nullAt at h
  cases hl : m.lookup key with
  | none => simp [hl] at h
  | some v => cases v <;> simp [hl] at h ⊢

lemma sortedBy_dedup_of_sorted {ys : List String} (h : ys.Pairwise (· < ·)) :
    Text.sortedBy id ys.dedup = ys := by
  have hnodup : ys.Nodup := h.imp ne_of_lt
  rw [hnodup.dedup]
  exact (h.imp le_of_lt).insertionSort_eq

namespace Encodes

/-- The encoding has the fields of the action exactly if the action is plain. -/
lemma plain_iff (h : Encodes loc m f kind) :
    PlainFields m kind ↔ ∀ k, m.lookup k = f.lookup k := by
  constructor
  · intro hp k
    by_cases hk : k ∈ usedFields kind
    -- a field that the kind does not use is in neither
    swap
    · rw [h.outside k hk]
      cases hl : m.lookup k with
      | none => rfl
      | some v => exact absurd (hp.used k v hl) hk
    by_cases hne : k = "keep_uids"
    · -- the list is encoded sorted and without repetition, as it was written
      subst hne
      obtain ⟨ys, hys, hf⟩ := h.keep (keep_mem_used hk)
      obtain ⟨keep, hl, hsorted⟩ := hp.keep (keep_mem_used hk)
      rcases keep_value hys with ⟨hnull, -⟩ | hl'
      · rw [Json.get_eq_of_lookup hl] at hnull
        cases hnull
      · have hys : ys = keep := by
          rw [hl', Option.some.injEq, Json.arr.injEq] at hl
          exact (List.map_injective_iff.2 fun _ _ => Json.str.inj) hl
        subst hys
        rw [hl', hf, sortedBy_dedup_of_sorted hsorted]
    · -- any other field is encoded as it was written, unless it is a `null` namespace
      rcases h.inside k hk hne with ⟨v, -, -, hm, hf⟩ | ⟨rfl, hnull, hf⟩
      · rw [hm, hf]
      · have hnot := hp.notNull
        unfold Json.get at hnull
        unfold nullAt at hnot
        cases hl : m.lookup "namespace" with
        | none => exact hf.symm
        | some v =>
            rw [hl, Option.getD_some] at hnull
            simp [hl, hnull] at hnot
  · intro heq
    refine ⟨fun k v hv => ?_, ?_, fun hk => ?_⟩
    · -- a field that is not used would be missing in the encoding
      by_contra hk
      rw [heq, h.outside k hk] at hv
      cases hv
    · -- so would a `null` namespace
      by_contra hn
      have hl : f.lookup "namespace" = some .null := by
        rw [← heq]
        exact lookup_of_nullAt (by simpa using hn)
      by_cases hk : "namespace" ∈ usedFields kind
      · rcases h.inside _ hk (by decide) with ⟨v, -, hne, -, hf⟩ | ⟨-, -, hf⟩
        · rw [hf, Option.some.injEq] at hl
          exact hne hl
        · rw [hf] at hl
          cases hl
      · rw [h.outside _ hk] at hl
        cases hl
    · -- the list of the encoding is strictly ascending
      obtain ⟨ys, -, hf⟩ := h.keep hk
      refine ⟨_, (heq _).trans hf, ?_⟩
      have hnodup : (Text.sortedBy id ys.dedup).Nodup :=
        (Text.sortedBy_perm id _).nodup_iff.2 (List.nodup_dedup ys)
      have hsorted : (Text.sortedBy id ys.dedup).Pairwise (· ≤ ·) :=
        List.pairwise_insertionSort _ _
      exact (hsorted.and hnodup).imp fun hab => lt_of_le_of_ne hab.1 hab.2

lemma simple (h : Encodes loc m f kind) {k : String} {v : Json} (hv : f.lookup k = some v) :
    v.Simple := by
  by_cases hk : k ∈ usedFields kind
  · by_cases hne : k = "keep_uids"
    · subst hne
      obtain ⟨ys, -, hf⟩ := h.keep (keep_mem_used hk)
      rw [hf, Option.some.injEq] at hv
      subst hv
      exact .strs _
    · rcases h.inside k hk hne with ⟨w, hw, -, -, hf⟩ | ⟨-, -, hf⟩
      · rw [hf, Option.some.injEq] at hv
        exact hv ▸ hw
      · rw [hf] at hv
        cases hv
  · rw [h.outside k hk] at hv
    cases hv

/-- The values that the parser reads are simple. -/
lemma simple_raw (h : Encodes loc m f kind) {k : String} {v : Json} (hv : m.lookup k = some v)
    (hf : (f.lookup k).isSome) : v.Simple := by
  by_cases hk : k ∈ usedFields kind
  · by_cases hne : k = "keep_uids"
    · subst hne
      obtain ⟨ys, hys, -⟩ := h.keep (keep_mem_used hk)
      rcases keep_value hys with ⟨hnull, -⟩ | hl
      · rw [Json.get_eq_of_lookup hv] at hnull
        exact hnull ▸ .null
      · rw [hl, Option.some.injEq] at hv
        exact hv ▸ .strs _
    · rcases h.inside k hk hne with ⟨w, hw, -, hm, -⟩ | ⟨-, -, hf'⟩
      · rw [hm, Option.some.injEq] at hv
        exact hv ▸ hw
      · rw [hf'] at hf
        cases hf
  · rw [h.outside k hk] at hf
    cases hf

end Encodes

/-- The text of an accepted action is that of its encoding exactly if the action is plain. -/
lemma action_determines {raw : Json} (h : action loc raw = .ok a) :
    ∃ j, a.toJson = some j ∧ (PlainAction raw → raw.chars = j.chars) ∧
      Determines raw.chars j.chars (PlainAction raw) := by
  obtain ⟨m, -, rfl, -⟩ := action_eq_ok h
  obtain ⟨f, kind, hj, hkind, henc⟩ := exists_encodes h
  refine ⟨.obj f, hj, ?_, fun s t hs ht he => ?_⟩
  · rintro ⟨m', kind', hm', hkind', hplain⟩
    obtain rfl := Json.obj.inj hm'
    obtain rfl := Option.some.inj (hkind.symm.trans hkind')
    exact Json.chars_obj_congr (henc.plain_iff.1 hplain)
  · obtain ⟨hsame, hst⟩ := Json.obj_determines (fun k v hv hf => henc.simple_raw hv hf)
      (fun k v hv => henc.simple hv) s t hs ht he
    exact ⟨⟨m, kind, rfl, hkind, henc.plain_iff.2 hsame⟩, hst⟩

/-- The raw actions and the encoded ones, one by one. -/
lemma actionsFrom_determines {i : ℕ} {xs : List Json} {as : List DefenderAction}
    (h : actionsFrom loc i xs = .ok as) : ∃ raws, as.mapM DefenderAction.toJson = some raws ∧
      List.Forall₂ (fun x j => (PlainAction x → x.chars = j.chars) ∧
        Determines x.chars j.chars (PlainAction x)) xs raws := by
  induction xs generalizing i as with
  | nil =>
      obtain rfl := Except.ok.inj h
      exact ⟨[], rfl, .nil⟩
  | cons x xs ih =>
      simp only [actionsFrom, bind_eq_ok, pure_eq_ok] at h
      obtain ⟨a, ha, rest, hrest, rfl⟩ := h
      obtain ⟨j, hj, hplain, hdet⟩ := action_determines ha
      obtain ⟨raws, hraws, hall⟩ := ih hrest
      refine ⟨j :: raws, ?_, .cons ⟨hplain, hdet⟩ hall⟩
      rw [List.mapM_cons, hj, hraws]
      rfl

lemma actionsFrom_objs {i : ℕ} {xs : List Json} {as : List DefenderAction}
    (h : actionsFrom loc i xs = .ok as) : ∀ x ∈ xs, ∃ m, x = .obj m := by
  induction xs generalizing i as with
  | nil => simp
  | cons x xs ih =>
      simp only [actionsFrom, bind_eq_ok, pure_eq_ok] at h
      obtain ⟨a, ha, rest, hrest, rfl⟩ := h
      obtain ⟨m, -, hm, -⟩ := action_eq_ok ha
      exact List.forall_mem_cons.2 ⟨⟨m, hm⟩, ih hrest⟩

lemma obj_begins {x : Json} (h : ∃ m, x = .obj m) : ∃ c cs, x.chars = c :: cs ∧ c ≠ ']' := by
  obtain ⟨m, rfl⟩ := h
  exact ⟨'\x7b', _, rfl, by decide⟩

lemma toJson_obj {as : List DefenderAction} {raws : List Json}
    (h : as.mapM DefenderAction.toJson = some raws) : ∀ j ∈ raws, ∃ m, j = .obj m := by
  induction as generalizing raws with
  | nil =>
      obtain rfl := Option.some.inj h
      simp
  | cons a as ih =>
      simp only [List.mapM_cons, Option.bind_eq_bind, Option.bind_eq_some_iff, Option.pure_def,
        Option.some.injEq] at h
      obtain ⟨j, hj, rest, hrest, rfl⟩ := h
      refine List.forall_mem_cons.2 ⟨?_, ih hrest⟩
      unfold DefenderAction.toJson at hj
      obtain ⟨fields, -, rfl⟩ := Option.map_eq_some_iff.1 hj
      exact ⟨_, rfl⟩

lemma map_chars {xs raws : List Json}
    (hall : List.Forall₂ (fun x j => (PlainAction x → x.chars = j.chars) ∧
      Determines x.chars j.chars (PlainAction x)) xs raws) (hplain : ∀ x ∈ xs, PlainAction x) :
    xs.map Json.chars = raws.map Json.chars := by
  induction hall with
  | nil => rfl
  | cons hx _ ih =>
      rw [List.forall_mem_cons] at hplain
      rw [List.map_cons, List.map_cons, hx.1 hplain.1, ih hplain.2]

/-- The text of the raw actions is that of the encoded ones exactly if the actions are plain. -/
lemma actions_chars {raw : Json} {as : List DefenderAction} (h : parseActions raw = .ok as) :
    ∃ raws, as.mapM DefenderAction.toJson = some raws ∧
      (raw.chars = (Json.arr raws).chars ↔ PlainActions raw) := by
  obtain ⟨xs, hxs, h⟩ := bind_eq_ok.1 h
  obtain ⟨raws, hraws, hall⟩ := actionsFrom_determines h
  refine ⟨raws, hraws, ?_⟩
  cases raw with
  | arr ys =>
      have hys : ys = xs := by
        simp only [list] at hxs
        split_ifs at hxs
        · simp at hxs
        · exact Except.ok.inj hxs
      subst hys
      simp only [Json.chars, Json.elemChars_eq]
      constructor
      · intro he
        obtain ⟨hplain, -⟩ := enclosed_inj (s := []) (t := []) (R := fun x _ => PlainAction x)
          (Or.inl rfl) (fun x hx => obj_begins (actionsFrom_objs h x hx))
          (fun j hj => obj_begins (toJson_obj hraws j hj))
          (fun p hp => ((List.forall₂_iff_zip.1 hall).2 hp).2)
          (by simpa using (List.cons.inj he).2)
        refine ⟨ys, rfl, fun x hx => ?_⟩
        obtain ⟨i, hi, rfl⟩ := List.getElem_of_mem hx
        exact (List.forall₂_iff_get.1 hplain).2 i hi ((List.Forall₂.length_eq hplain) ▸ hi)
      · rintro ⟨zs, hzs, hplain⟩
        obtain rfl := Json.arr.inj hzs
        rw [map_chars hall hplain]
  | null =>
      refine iff_of_false (fun he => ?_) ?_
      · exact absurd (List.cons.inj he).1 (by decide)
      · rintro ⟨zs, hzs, -⟩
        cases hzs
  | _ => simp [list] at hxs

end


/-! ### The document with other actions -/

section

variable {m : Json.Fields} {raw : Json} {k : String}

lemma lookup_without (h : k ≠ "remediation") :
    (m.filter fun e => e.1 ≠ "remediation").lookup k = m.lookup k := by
  induction m with
  | nil => rfl
  | cons e m ih =>
      by_cases he : e.1 = "remediation"
      · have hk : (k == e.1) = false := by simpa [he] using h
        rw [List.filter_cons_of_neg (by simpa using he), ih, List.lookup_cons, hk]
      · rw [List.filter_cons_of_pos (by simpa using he), List.lookup_cons, List.lookup_cons, ih]

lemma lookup_withRemediation (h : k ≠ "remediation") :
    (withRemediation m raw).lookup k = m.lookup k := by
  have hk : (k == "remediation") = false := by simpa using h
  rw [withRemediation, List.lookup_cons, hk, lookup_without h]

lemma get_withRemediation (h : k ≠ "remediation") :
    Json.get (withRemediation m raw) k = Json.get m k := by
  rw [Json.get, Json.get, lookup_withRemediation h]

/-- Two lists of actions that parse to the same, in one document, give the same input. -/
lemma parseAnalysisInput_withRemediation
    (h : parseActions raw = parseActions (Json.get m "remediation")) :
    parseAnalysisInput (.obj (withRemediation m raw)) = parseAnalysisInput (.obj m) := by
  have hobj : ∀ (f : Json.Fields) (g : Json.Fields → Parsed AnalysisInput),
      (Parse.obj (.obj f) "analysis input" >>= g) = g f := fun _ _ => rfl
  have hraw : Json.get (withRemediation m raw) "remediation" = raw := rfl
  have hget : ∀ k, k ≠ "remediation" → Json.get (withRemediation m raw) k = Json.get m k :=
    fun k => get_withRemediation
  unfold parseAnalysisInput
  rw [hobj, hobj, hraw, h]
  unfold schema reqInt optInt reqStr optStr
  simp only [hget, ne_eq, String.reduceEq, not_false_eq_true]

end

/-- The text of the document around the actions does not depend on them. -/
lemma chars_withRemediation (m : Json.Fields) : ∃ start rest, ∀ raw : Json,
    (Json.obj (withRemediation m raw)).chars = start ++ (raw.chars ++ rest) := by
  obtain ⟨A, B, hAB⟩ : ∃ A B, ∀ raw, Json.sortedItems (withRemediation m raw) =
      A ++ ("remediation", raw) :: B := by
    let others := Text.sortedBy Prod.fst
      ((Json.items (m.filter fun e => e.1 ≠ "remediation")).filter fun e => e.1 ≠ "remediation")
    exact ⟨others.takeWhile fun b => ¬"remediation" ≤ b.1,
      others.dropWhile fun b => ¬"remediation" ≤ b.1,
      fun raw => List.insertionSort_cons_eq_take_drop (fun a b : String × Json => a.1 ≤ b.1) _ _⟩
  obtain ⟨start, hstart⟩ := enclosed_append '}' (A.map fun e => Json.field (e.1, e.2.chars))
    (B.map fun e => Json.field (e.1, e.2.chars))
  refine ⟨'\x7b' :: (start ++ (Json.quote "remediation" ++ [':'])),
    closing '}' (B.map fun e => Json.field (e.1, e.2.chars)), fun raw => ?_⟩
  rw [Json.chars_obj, hAB, List.map_append, List.map_cons, hstart]
  simp only [Json.field, List.cons_append, List.append_assoc, List.nil_append]

/-- Putting other actions into a document keeps its text exactly if they have the same text. -/
lemma chars_withRemediation_eq_iff {m : Json.Fields} {old new : Json}
    (h : m.lookup "remediation" = some old) :
    (Json.obj (withRemediation m new)).chars = (Json.obj m).chars ↔ old.chars = new.chars := by
  have hold : (Json.obj m).chars = (Json.obj (withRemediation m old)).chars := by
    refine Json.chars_obj_congr fun k => ?_
    by_cases hk : k = "remediation"
    · subst hk
      exact h
    · exact (lookup_withRemediation hk).symm
  obtain ⟨start, rest, hchars⟩ := chars_withRemediation m
  rw [hold, hchars, hchars, List.append_cancel_left_eq, List.append_cancel_right_eq, eq_comm]

/-! ### Verifying -/

/-- What `cmd_verify` finds when it puts the actions of a bundle back into the stored document:
whether the digests are equal.  There is nothing if an action cannot be encoded or the document is
not accepted. -/
def digestMatches (sha256 : String → String) (stored : Json.Fields) (b : ResultBundle)
    (inputDigest : String) : Option Bool := do
  let raws ← b.remediation.mapM DefenderAction.toJson
  match parseAnalysisInput (.obj (withRemediation stored (.arr raws))) with
  | .error _ => none
  | .ok _ => some (Json.digest sha256 (.obj (withRemediation stored (.arr raws))) == inputDigest)

/-- The hash tells the two values apart if their texts differ. -/
def NoCollision (sha256 : String → String) (v w : Json) : Prop :=
  sha256 v.canonicalJson = sha256 w.canonicalJson → v.canonicalJson = w.canonicalJson

lemma digest_eq_iff {sha256 : String → String} {v w : Json} (h : NoCollision sha256 v w) :
    Json.digest sha256 v = Json.digest sha256 w ↔ v.chars = w.chars := by
  constructor
  · intro he
    have hsha : sha256 v.canonicalJson = sha256 w.canonicalJson :=
      (String.append_right_inj _).1 he
    exact String.ofList_injective (h hsha)
  · intro he
    rw [Json.digest, Json.digest, Json.canonicalJson, Json.canonicalJson, he]

/-- The actions of an accepted document. -/
lemma actions_of_parse {m : Json.Fields} {inp : AnalysisInput}
    (h : parseAnalysisInput (.obj m) = .ok inp) :
    parseActions (Json.get m "remediation") = .ok inp.remediation := by
  simp only [parseAnalysisInput, Parse.bind_eq_ok, Parse.pure_eq_ok, Parse.rejectIf_eq_ok] at h
  obtain ⟨_, hm, _, -, _, -, _, -, _, -, _, -, _, -, _, -, _, -, _, -, _, -, _, -, _, -, _, -, _, -,
    _, -, _, -, _, -, _, -, _, -, _, -, _, -, _, -, _, -, _, hrem, _, -, _, -, _, -, _, -, rfl⟩ := h
  obtain rfl : m = _ := Except.ok.inj hm
  exact hrem

/-- The analysed document is the stored one, but for the actions. -/
lemma withRemediation_analyzed (stored : Json.Fields) (given : Option Json) (raw : Json) :
    withRemediation (analyzed stored given) raw = withRemediation stored raw := by
  cases given with
  | none => rfl
  | some remediation => simp [analyzed, withRemediation]

section

variable {stored : Json.Fields} {given : Option Json} {raw : Json} {inp : AnalysisInput}

/-- The encoded actions of a result are accepted in the stored document, whose text is that of the
analysed one exactly if the actions were written as they are encoded. -/
lemma digestMatches_eq (hraw : (analyzed stored given).lookup "remediation" = some raw)
    (h : parseAnalysisInput (.obj (analyzed stored given)) = .ok inp) (mode : Mode) :
    ∃ raws, inp.remediation.mapM DefenderAction.toJson = some raws ∧
      (∀ sha256 d, digestMatches sha256 stored (analyze inp mode) d =
        some (Json.digest sha256 (.obj (withRemediation stored (.arr raws))) == d)) ∧
      ((Json.obj (withRemediation stored (.arr raws))).chars =
        (Json.obj (analyzed stored given)).chars ↔ PlainActions raw) := by
  have hactions := actions_of_parse h
  rw [Json.get_eq_of_lookup hraw] at hactions
  obtain ⟨raws, hraws, hplain⟩ := actions_chars hactions
  obtain ⟨raws', hraws', hparse⟩ := parseActions_toJson hactions
  obtain rfl := Option.some.inj (hraws.symm.trans hraws')
  have hinput : parseAnalysisInput (.obj (withRemediation stored (.arr raws))) = .ok inp := by
    rw [← withRemediation_analyzed stored given, parseAnalysisInput_withRemediation, h]
    rw [hparse, Json.get_eq_of_lookup hraw, hactions]
  refine ⟨raws, hraws, fun sha256 d => ?_, ?_⟩
  · have hrem : (analyze inp mode).remediation.mapM DefenderAction.toJson = some raws := hraws
    rw [digestMatches, hrem]
    simp only [Option.bind_eq_bind, Option.bind_some, hinput]
  · rw [← withRemediation_analyzed stored given, chars_withRemediation_eq_iff hraw, hplain]

/-- A result is verified against the stored document exactly if the analysed actions were written as
they are encoded. -/
theorem digestMatches_iff {sha256 : String → String}
    (hraw : (analyzed stored given).lookup "remediation" = some raw)
    (h : parseAnalysisInput (.obj (analyzed stored given)) = .ok inp) (mode : Mode)
    (hsha : ∀ raws, inp.remediation.mapM DefenderAction.toJson = some raws →
      NoCollision sha256 (.obj (withRemediation stored (.arr raws)))
        (.obj (analyzed stored given))) :
    digestMatches sha256 stored (analyze inp mode)
        (Json.digest sha256 (.obj (analyzed stored given))) = some true ↔
      PlainActions raw := by
  obtain ⟨raws, hraws, hmatch, hplain⟩ := digestMatches_eq hraw h mode
  rw [hmatch, Option.some.injEq, beq_iff_eq, digest_eq_iff (hsha raws hraws), hplain]

end

/-- The fields of a document that deletes Pods of a service account, except the given ones. -/
def Sample.keeping (keep : List String) : Json.Fields :=
  [("schema", .str analysisInputSchema), ("case_id", .str "case"), ("cluster_id", .str "cluster"),
    ("analysis_time", .int 100),
    ("profile", .obj [("id", .str "profile"), ("kubernetes_version", .str "1"),
      ("api_audiences", Sample.texts ["api"]), ("projected_token_ttl_seconds", .int 10)]),
    ("inventory", .obj []), ("objectives", .arr [Sample.noSecretRead "o" "n" "x"]),
    ("remediation", .arr [deletePods (Sample.texts keep)])]

lemma Sample.keeping_plain : PlainActions (.arr [deletePods (Sample.texts ["p", "q"])]) := by
  refine ⟨_, rfl, fun x hx => ?_⟩
  obtain rfl := List.mem_singleton.1 hx
  refine ⟨_, "delete_pods_except", rfl, rfl, ⟨fun k v hv => ?_, rfl, fun _ => ?_⟩⟩
  · by_contra hk
    have hkeys : ∀ e ∈ [("kind", Json.str "delete_pods_except"), ("namespace", .str "n"),
        ("service_account", .str "sa"), ("keep_uids", Sample.texts ["p", "q"])],
        e.1 ∈ usedFields "delete_pods_except" := by
      simp only [List.forall_mem_cons]
      decide
    have hnone := lookup_eq_none fun e he (hek : e.1 = k) => hk (hek ▸ hkeys e he)
    cases hv.symm.trans hnone
  · exact ⟨["p", "q"], rfl, by decide⟩

/-- A hash that is SHA-256 on the text of `Sample.keeping ["p", "q"]`. -/
def Sample.sha256 (_ : String) : String :=
  "1876fa16946931c4c38350977a8a82516cce15bcfba83e035d0cd71e9f0efa6b"

/-- The result of a document that names the Pods to keep in order is verified. -/
theorem keeping_digestMatches :
    ∃ inp, parseAnalysisInput (.obj (Sample.keeping ["p", "q"])) = .ok inp ∧
      digestMatches Sample.sha256 (Sample.keeping ["p", "q"]) (analyze inp .full)
        (Json.digest Sample.sha256 (.obj (Sample.keeping ["p", "q"]))) = some true := by
  obtain ⟨inp, hinp, -⟩ := Sample.accepted (.obj (Sample.keeping ["p", "q"])) (p := fun _ => true)
    (by decide +kernel)
  refine ⟨inp, hinp, (@digestMatches_iff (Sample.keeping ["p", "q"]) none _ _ _ rfl hinp .full
    fun raws hraws _ => ?_).2 Sample.keeping_plain⟩
  obtain ⟨raws', hraws', -, hplain⟩ :=
    @digestMatches_eq (Sample.keeping ["p", "q"]) none _ _ rfl hinp .full
  obtain rfl := Option.some.inj (hraws.symm.trans hraws')
  exact congrArg String.ofList (hplain.2 Sample.keeping_plain)

/-- The result of a document that names the Pods to keep in another order is not verified. -/
theorem keeping_not_digestMatches :
    ∃ inp, parseAnalysisInput (.obj (Sample.keeping ["q", "p"])) = .ok inp ∧
      ∀ sha256, (∀ raws, inp.remediation.mapM DefenderAction.toJson = some raws →
          NoCollision sha256 (.obj (withRemediation (Sample.keeping ["q", "p"]) (.arr raws)))
            (.obj (Sample.keeping ["q", "p"]))) →
        digestMatches sha256 (Sample.keeping ["q", "p"]) (analyze inp .full)
          (Json.digest sha256 (.obj (Sample.keeping ["q", "p"]))) = some false := by
  obtain ⟨inp, hinp, -⟩ := Sample.accepted (.obj (Sample.keeping ["q", "p"])) (p := fun _ => true)
    (by decide +kernel)
  refine ⟨inp, hinp, fun sha256 hsha => ?_⟩
  obtain ⟨raws, hraws, hmatch, hplain⟩ :=
    @digestMatches_eq (Sample.keeping ["q", "p"]) none _ _ rfl hinp .full
  rw [hmatch, Option.some.injEq, beq_eq_false_iff_ne, ne_eq, digest_eq_iff (hsha raws hraws)]
  refine fun he => absurd (hplain.1 he) ?_
  rintro ⟨xs, hxs, hall⟩
  obtain rfl := Json.arr.inj hxs
  obtain ⟨m, kind, hm, hkind, hfields⟩ := hall _ List.mem_cons_self
  obtain rfl := Json.obj.inj hm
  obtain rfl := Option.some.inj hkind
  obtain ⟨keep, hkeep, hsorted⟩ := hfields.keep (by decide)
  have hkeep' : keep = ["q", "p"] :=
    (List.map_injective_iff.2 fun _ _ => Json.str.inj) (Json.arr.inj (Option.some.inj hkeep)).symm
  subst hkeep'
  exact absurd hsorted (by decide)

end Afterlock
