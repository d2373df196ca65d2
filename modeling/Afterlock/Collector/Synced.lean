import Afterlock.Patterns
import Afterlock.Collector.Watch

/-!
# The watched inventory is that of the API server

What is stored of a scope is what is kept of the objects that the API server had at the last list or
event that was processed (`Tracks`), whatever the other loops do in between, and every interruption
has its gap (`watched_inventory`).
-/

namespace Afterlock

namespace Collector

namespace Watch

open Collector.Inventory Redaction

/-! ### Changes in a scope -/

section

variable {s : Scope} {log : List Change} {a b c j n : ℕ}

@[simp] lemma between_self : between s log n n = [] := by
  simp [between]

lemma between_split (hab : a ≤ b) (hbc : b ≤ c) :
    between s log a c = between s log a b ++ between s log b c := by
  unfold between
  rw [← List.filter_append]
  refine congrArg _ ?_
  have htake : log.take c = log.take b ++ (log.take c).drop b := by
    conv_lhs => rw [← List.take_append_drop b (log.take c), List.take_take, min_eq_left hbc]
  rcases le_or_gt b log.length with hb | hb
  · rw [htake, List.drop_append_of_le_length (by rw [List.length_take]; omega),
      List.drop_append_of_le_length (by rw [List.length_take]; omega)]
    simp
  · rw [List.take_of_length_le (by omega : log.length ≤ c),
      List.take_of_length_le (by omega : log.length ≤ b),
      List.drop_of_length_le (by omega : log.length ≤ b), List.append_nil]

lemma between_succ {ch : Change} (hj : log[j]? = some ch) :
    between s log j (j + 1) = if s.covers ch.object then [ch] else [] := by
  obtain ⟨hlt, rfl⟩ := List.getElem?_eq_some_iff.1 hj
  unfold between
  rw [List.take_succ_eq_append_getElem hlt, List.drop_append_of_le_length (by simp; omega),
    List.drop_of_length_le (by simp), List.nil_append, List.filter_singleton, Bool.cond_eq_ite]

lemma between_append {l : List Change} (hb : b ≤ log.length) :
    between s (log ++ l) a b = between s log a b := by
  unfold between
  rw [List.take_append_of_le_length hb]

end

/-! ### Objects of the API server -/

lemma Change.mem_apply {t : Table Object.uid} {ch : Change} {o : Object} :
    o ∈ ch.apply t ↔ (ch.keeps = true ∧ o = ch.object) ∨ (o ∈ t ∧ o.uid ≠ ch.object.uid) := by
  unfold Change.apply
  cases hk : ch.keeps with
  | true => simp
  | false => simp

lemma objectsAfter_take_succ {log : List Change} {j : ℕ} {ch : Change} (hj : log[j]? = some ch) :
    objectsAfter (log.take (j + 1)) = ch.apply (objectsAfter (log.take j)) := by
  obtain ⟨hlt, rfl⟩ := List.getElem?_eq_some_iff.1 hj
  rw [objectsAfter, objectsAfter, List.take_succ_eq_append_getElem hlt, List.foldl_append]
  rfl

lemma exists_of_mem_objectsAfter {log : List Change} {o : Object} (h : o ∈ objectsAfter log) :
    ∃ ch ∈ log, ch.object = o := by
  induction log using List.reverseRecOn with
  | nil => exact absurd h (Table.not_mem_empty o)
  | append_singleton log ch ih =>
      rw [objectsAfter, List.foldl_append] at h
      rcases Change.mem_apply.1 h with ⟨-, rfl⟩ | ⟨h, -⟩
      · exact ⟨ch, by simp, rfl⟩
      · obtain ⟨d, hd, hdo⟩ := ih h
        exact ⟨d, List.mem_append_left _ hd, hdo⟩

section

variable {pos : String → ℕ} {s : Scope} {log : List Change} {j n m : ℕ} {uid : String}
  {item : Item}

/-- What is kept of an object has its namespace. -/
lemma Sound.ns_eq (hs : Sound pos s.kind log) {ch : Change} (hch : ch ∈ log)
    (h : convert s.kind ch.object = some (uid, item)) : item.ns = ch.object.ns := by
  rw [(convert_eq_some h).2]
  obtain ⟨hlabel, hlen⟩ := hs.namespaces ch hch
  exact redact_label hlabel (hlen.trans (by decide))

lemma Sound.holds_eq_covers (hs : Sound pos s.kind log) {ch : Change} (hch : ch ∈ log)
    (h : convert s.kind ch.object = some (uid, item)) : s.holds item = s.covers ch.object := by
  rw [Scope.holds, Scope.covers, hs.ns_eq hch h]

/-- Objects with one UID are in the same scopes. -/
lemma Sound.covers_congr (hs : Sound pos s.kind log) {ch d : Change} (hch : ch ∈ log)
    (hd : d ∈ log) (h : ch.object.uid = d.object.uid) :
    s.covers ch.object = s.covers d.object := by
  rw [Scope.covers, Scope.covers, (hs.lifetimes ch hch d hd h).1]

lemma Sound.mono {l : List Change} (hs : Sound pos s.kind (log ++ l)) : Sound pos s.kind log where
  namespaces ch hch := hs.namespaces ch (List.mem_append_left _ hch)
  lifetimes ch hch d hd :=
    hs.lifetimes ch (List.mem_append_left _ hch) d (List.mem_append_left _ hd)
  versions j ch hj := hs.versions j ch (by
    rw [List.getElem?_append_left (List.getElem?_eq_some_iff.1 hj).1]
    exact hj)

/-- What is stored comes from a change in the log. -/
lemma Stored.exists_change (h : Stored s log n uid item) :
    ∃ ch ∈ log, s.covers ch.object = true ∧ convert s.kind ch.object = some (uid, item) := by
  obtain ⟨o, ho, hcov, hconv⟩ := h
  obtain ⟨ch, hch, rfl⟩ := exists_of_mem_objectsAfter ho
  exact ⟨ch, List.mem_of_mem_take hch, hcov, hconv⟩

lemma stored_append {l : List Change} (hn : n ≤ log.length) :
    Stored s (log ++ l) n uid item ↔ Stored s log n uid item := by
  unfold Stored
  rw [List.take_append_of_le_length hn]

lemma stored_succ {ch : Change} (hj : log[j]? = some ch) :
    Stored s log (j + 1) uid item ↔
      (ch.keeps = true ∧ s.covers ch.object = true ∧ convert s.kind ch.object = some (uid, item)) ∨
        (Stored s log j uid item ∧ uid ≠ ch.object.uid) := by
  unfold Stored
  rw [objectsAfter_take_succ hj]
  constructor
  · rintro ⟨o, ho, hcov, hconv⟩
    rcases Change.mem_apply.1 ho with ⟨hk, rfl⟩ | ⟨ho, hne⟩
    · exact Or.inl ⟨hk, hcov, hconv⟩
    · exact Or.inr ⟨⟨o, ho, hcov, hconv⟩, (convert_eq_some hconv).1 ▸ hne⟩
  · rintro (⟨hk, hcov, hconv⟩ | ⟨⟨o, ho, hcov, hconv⟩, hne⟩)
    · exact ⟨ch.object, Change.mem_apply.2 (Or.inl ⟨hk, rfl⟩), hcov, hconv⟩
    · rw [(convert_eq_some hconv).1] at hne
      exact ⟨o, Change.mem_apply.2 (Or.inr ⟨ho, hne⟩), hcov, hconv⟩

/-- A change outside the scope leaves what is stored of it as it is. -/
lemma stored_succ_of_not_covers (hs : Sound pos s.kind log) {ch : Change}
    (hj : log[j]? = some ch) (hcov : s.covers ch.object = false) :
    Stored s log (j + 1) uid item ↔ Stored s log j uid item := by
  rw [stored_succ hj]
  constructor
  · rintro (⟨-, h, -⟩ | h)
    · rw [hcov] at h
      cases h
    · exact h.1
  · intro h
    refine Or.inr ⟨h, ?_⟩
    rintro rfl
    obtain ⟨d, hd, hdcov, hconv⟩ := h.exists_change
    rw [hs.covers_congr hd (List.mem_of_getElem? hj) (convert_eq_some hconv).1.symm, hcov] at hdcov
    cases hdcov

/-- Where nothing changes in the scope, what is stored of it stays. -/
lemma stored_of_between_eq_nil (hs : Sound pos s.kind log) (hnm : n ≤ m) (hm : m ≤ log.length)
    (h : between s log n m = []) : Stored s log m uid item ↔ Stored s log n uid item := by
  induction m, hnm using Nat.le_induction with
  | base => rfl
  | succ m hnm ih =>
      rw [between_split hnm (Nat.le_succ m), List.append_eq_nil_iff] at h
      have hj : log[m]? = some log[m] := List.getElem?_eq_getElem hm
      have hcov : s.covers log[m].object = false := by
        have h2 := h.2
        rw [between_succ hj] at h2
        cases hc : s.covers log[m].object with
        | false => rfl
        | true =>
            rw [if_pos hc] at h2
            cases h2
      rw [stored_succ_of_not_covers hs hj hcov]
      exact ih (Nat.le_of_succ_le hm) h.1

end

/-! ### What is stored -/

/-- Every value of the kind is kept of an object of the log. -/
def Known (k : Kind) (log : List Change) (objs : Objects) : Prop :=
  ∀ uid item, (uid, item) ∈ objs → ∃ ch ∈ log, convert k ch.object = some (uid, item)

/-- A value that is stored in the scope. -/
def Held (s : Scope) (objs : Objects) (uid : String) (item : Item) : Prop :=
  (uid, item) ∈ objs ∧ s.holds item = true

section

variable {pos : String → ℕ} {s : Scope} {log : List Change} {objs : Objects} {j n : ℕ}
  {uid rv : String} {item : Item} {store : Store} {ch : Change}

/-- A value with the UID of an object in the scope is in the scope. -/
lemma Known.holds (hk : Known s.kind log objs) (hs : Sound pos s.kind log) (hch : ch ∈ log)
    (hcov : s.covers ch.object = true) (h : (uid, item) ∈ objs) (hu : uid = ch.object.uid) :
    s.holds item = true := by
  obtain ⟨d, hd, hconv⟩ := hk uid item h
  rw [hs.holds_eq_covers hd hconv, hs.covers_congr hd hch ((convert_eq_some hconv).1.symm.trans hu),
    hcov]

/-- The objects of the kind after an event. -/
lemma handle_objs (k : Kind) : (handle s rv store ch.event).2.objs k =
    if k = s.kind then
      if ch.keeps then
        match convert s.kind ch.object with
        | some x => (store.objs s.kind).put x
        | none => store.objs s.kind
      else (store.objs s.kind).erase ch.object.uid
    else store.objs k := by
  have hupsert : ∀ o, (upsertObject s.kind store o).objs k = if k = s.kind then
      match convert s.kind o with
      | some x => (store.objs s.kind).put x
      | none => store.objs s.kind
      else store.objs k := by
    intro o
    unfold upsertObject
    cases hconv : convert s.kind o with
    | none =>
        split_ifs with hk
        · rw [hk]
        · rfl
    | some x => exact (congrFun (Store.upsert_objs ..) k).trans (Function.update_apply ..)
  cases ch with
  | added o => exact hupsert o
  | modified o => exact hupsert o
  | deleted o =>
      show (store.delete s.kind o.uid).objs k = _
      rw [Store.delete_objs, Function.update_apply]
      rfl

/-- The resource version after an event is that of the event. -/
lemma handle_rv (hrv : ch.object.meta.resourceVersion ≠ "") :
    (handle s rv store ch.event).1 = ch.object.meta.resourceVersion := by
  cases ch <;> exact if_pos hrv

/-- What is in the store after an event. -/
lemma mem_handle (h : (uid, item) ∈ (handle s rv store ch.event).2.objs s.kind) :
    (ch.keeps = true ∧ convert s.kind ch.object = some (uid, item)) ∨
      (uid, item) ∈ store.objs s.kind := by
  rw [handle_objs, if_pos rfl] at h
  split_ifs at h with hk
  · cases hconv : convert s.kind ch.object with
    | none =>
        rw [hconv] at h
        exact Or.inr h
    | some x =>
        rw [hconv] at h
        rcases Table.mem_put.1 h with rfl | ⟨h, -⟩
        · exact Or.inl ⟨hk, rfl⟩
        · exact Or.inr h
  · exact Or.inr (Table.mem_erase.1 h).1

/-- An event of an object in the scope leaves the values outside of the scope. -/
lemma mem_handle_of_not_holds (hk : Known s.kind log (store.objs s.kind))
    (hs : Sound pos s.kind log) (hch : ch ∈ log) (hcov : s.covers ch.object = true)
    (h : s.holds item = false) :
    (uid, item) ∈ (handle s rv store ch.event).2.objs s.kind ↔
      (uid, item) ∈ store.objs s.kind := by
  -- another object has another UID
  have hne : (uid, item) ∈ store.objs s.kind → uid ≠ ch.object.uid := by
    intro hmem hu
    rw [hk.holds hs hch hcov hmem hu] at h
    cases h
  constructor
  · intro hmem
    rcases mem_handle hmem with ⟨-, hconv⟩ | hmem
    · rw [hs.holds_eq_covers hch hconv, hcov] at h
      cases h
    · exact hmem
  · intro hmem
    rw [handle_objs, if_pos rfl]
    split_ifs
    · cases hconv : convert s.kind ch.object with
      | none => exact hmem
      | some x =>
          refine Table.mem_put.2 (Or.inr ⟨hmem, ?_⟩)
          rw [(convert_eq_some hconv).1]
          exact hne hmem
    · exact Table.mem_erase.2 ⟨hmem, hne hmem⟩

/-- An event brings the values of its scope from before the change to after it. -/
lemma held_handle (hs : Sound pos s.kind log) (hj : log[j]? = some ch)
    (hcov : s.covers ch.object = true)
    (hcur : ∀ uid item, Held s (store.objs s.kind) uid item ↔ Stored s log j uid item) :
    Held s ((handle s rv store ch.event).2.objs s.kind) uid item ↔
      Stored s log (j + 1) uid item := by
  have hch := List.mem_of_getElem? hj
  rw [stored_succ hj]
  constructor
  · rintro ⟨hmem, hh⟩
    rw [handle_objs, if_pos rfl] at hmem
    split_ifs at hmem with hk
    · cases hconv : convert s.kind ch.object with
      | none =>
          rw [hconv] at hmem
          have hst := (hcur uid item).1 ⟨hmem, hh⟩
          refine Or.inr ⟨hst, ?_⟩
          -- an object that is converted once is converted always
          rintro rfl
          obtain ⟨d, hd, -, hd'⟩ := hst.exists_change
          have hsome := (hs.lifetimes d hd ch hch (convert_eq_some hd').1.symm).2
          rw [hd', hconv] at hsome
          cases hsome
      | some x =>
          rw [hconv] at hmem
          rcases Table.mem_put.1 hmem with rfl | ⟨hmem, hne⟩
          · exact Or.inl ⟨hk, hcov, rfl⟩
          · rw [(convert_eq_some hconv).1] at hne
            exact Or.inr ⟨(hcur uid item).1 ⟨hmem, hh⟩, hne⟩
    · obtain ⟨hmem, hne⟩ := Table.mem_erase.1 hmem
      exact Or.inr ⟨(hcur uid item).1 ⟨hmem, hh⟩, hne⟩
  · rintro (⟨hk, -, hconv⟩ | ⟨hst, hne⟩)
    · refine ⟨?_, (hs.holds_eq_covers hch hconv).trans hcov⟩
      rw [handle_objs, if_pos rfl, if_pos hk, hconv]
      exact Table.mem_put_self
    · obtain ⟨hmem, hh⟩ := (hcur uid item).2 hst
      refine ⟨?_, hh⟩
      rw [handle_objs, if_pos rfl]
      split_ifs
      · cases hconv : convert s.kind ch.object with
        | none => exact hmem
        | some x =>
            refine Table.mem_put.2 (Or.inr ⟨hmem, ?_⟩)
            rw [(convert_eq_some hconv).1]
            exact hne
      · exact Table.mem_erase.2 ⟨hmem, hne⟩

/-- The objects of a list, as the loop gets them. -/
abbrev listedObjects (s : Scope) (log : List Change) (n : ℕ) : List Object :=
  (objectsAfter (log.take n)).rows.filter s.covers

/-- The map of the objects of a list. -/
lemma mem_converted :
    (uid, item) ∈ converted s.kind (listedObjects s log n) ↔ Stored s log n uid item := by
  have hfst : ((listedObjects s log n).filterMap (convert s.kind)).map Prod.fst =
      (listedObjects s log n).filterMap fun o =>
        if (convert s.kind o).isSome then some o.uid else none := by
    rw [List.map_filterMap]
    refine List.filterMap_congr fun o _ => ?_
    cases hconv : convert s.kind o with
    | none => rfl
    | some x => simp [(convert_eq_some hconv).1]
  have hnodup : (((listedObjects s log n).filterMap (convert s.kind)).map Prod.fst).Nodup := by
    have huid : ((listedObjects s log n).map Object.uid).Nodup :=
      (objectsAfter (log.take n)).nodup.sublist (List.filter_sublist.map _)
    have hsub : (((listedObjects s log n).filterMap (convert s.kind)).map Prod.fst).Sublist
        ((listedObjects s log n).map Object.uid) := by
      rw [hfst]
      generalize listedObjects s log n = xs
      induction xs with
      | nil => exact .slnil
      | cons o xs ih =>
          rw [List.filterMap_cons, List.map_cons]
          split
          next heq => exact ih.cons _
          next u heq =>
              split_ifs at heq
              cases heq
              exact ih.cons_cons _
    exact huid.sublist hsub
  rw [converted, Table.mem_ofList hnodup, List.mem_filterMap]
  simp only [listedObjects, List.mem_filter, Stored, Table.mem_def]
  constructor
  · rintro ⟨o, ⟨ho, hcov⟩, hconv⟩
    exact ⟨o, ho, hcov, hconv⟩
  · rintro ⟨o, ho, hcov, hconv⟩
    exact ⟨o, ⟨ho, hcov⟩, hconv⟩

/-- What is in the store after a list. -/
lemma mem_replaceIn (hk : Known s.kind log (store.objs s.kind)) (hs : Sound pos s.kind log) :
    (uid, item) ∈ (store.replaceIn s.kind s.ns
        (converted s.kind (listedObjects s log n))).objs s.kind ↔
      Stored s log n uid item ∨ ((uid, item) ∈ store.objs s.kind ∧ s.holds item = false) := by
  rw [Store.replaceIn_objs, Function.update_self]
  split_ifs with hns
  · rw [mem_converted]
    simp [Scope.holds, hns]
  · have hfilter : ∀ z : String × Item, z ∈ (store.objs s.kind).filter (fun x => x.2.ns != s.ns) ↔
        z ∈ store.objs s.kind ∧ s.holds z.2 = false := by
      intro z
      rw [Table.mem_filter]
      simp [Scope.holds, hns]
    rw [Table.mem_foldl_put_of_nodup (converted s.kind (listedObjects s log n)).nodup, hfilter]
    · exact or_congr_left mem_converted
    · -- the objects of the list have other UIDs than those of other namespaces
      rintro ⟨u, x⟩ hx ⟨u', x'⟩ hx' hu
      obtain ⟨hmem, hnot⟩ := (hfilter _).1 hx'
      obtain ⟨ch, hch, hcov, hconv⟩ := (mem_converted.1 hx).exists_change
      have heq : u' = ch.object.uid := Eq.trans hu (convert_eq_some hconv).1
      rw [hk.holds hs hch hcov hmem heq] at hnot
      cases hnot

end

/-! ### A loop and its answer -/

section

variable {pos : String → ℕ} {s : Scope} {d : Bool} {log : List Change} {l : Loop} {p : Progress}
  {store : Store} {rv : String} {r : Reply} {j n : ℕ}

lemma next_done : l.next s d store .done = ({ l with pc := .stopped }, store, []) := by
  obtain ⟨first, pc⟩ := l
  cases pc <;> rfl

lemma next_listFailed (h : l.pc = .listing) (e : ApiError) :
    l.next s d store (.listFailed e) = if d then ({ l with pc := .stopped }, store, [])
      else (l, store, [Interruption.gap s (.listFailed e)]) := by
  obtain ⟨first, pc⟩ := l
  cases h
  rfl

lemma next_listed (h : l.pc = .listing) (objs : List Object) (rv : String) :
    l.next s d store (.listed objs rv) =
      ({ first := false, pc := if d then .stopped else .watching rv },
        store.replaceIn s.kind s.ns (converted s.kind objs),
        if l.first then [] else [Interruption.gap s .relisted]) := by
  obtain ⟨first, pc⟩ := l
  cases h
  rfl

lemma next_watching (h : l.pc = .watching rv) :
    l.next s d store .watching = ({ l with pc := .consuming rv }, store, []) := by
  obtain ⟨first, pc⟩ := l
  cases h
  rfl

lemma next_watchFailed (h : l.pc = .watching rv) (e : ApiError) :
    l.next s d store (.watchFailed e) = if d then ({ l with pc := .stopped }, store, [])
      else ({ l with pc := .listing }, store, [Interruption.gap s (.watchFailed e)]) := by
  obtain ⟨first, pc⟩ := l
  cases h
  rfl

lemma next_closed (h : l.pc = .consuming rv) :
    l.next s d store .closed = if d then ({ l with pc := .stopped }, store, [])
      else ({ l with pc := .watching rv }, store, [Interruption.gap s .watchEnded]) := by
  obtain ⟨first, pc⟩ := l
  cases h
  rfl

lemma next_error (h : l.pc = .consuming rv) (e : ApiError) :
    l.next s d store (.event (.error e)) =
      ({ l with pc := if d then .stopped else .listing }, store,
        [Interruption.gap s (.watchError e)]) := by
  obtain ⟨first, pc⟩ := l
  cases h
  rfl

lemma next_bookmark (h : l.pc = .consuming rv) (rv' : String) :
    l.next s d store (.event (.bookmark rv')) = ({ l with pc := .consuming rv' }, store, []) := by
  obtain ⟨first, pc⟩ := l
  cases h
  rfl

lemma next_change (h : l.pc = .consuming rv) (ch : Change) :
    l.next s d store (.event ch.event) =
      ({ l with pc := .consuming (handle s rv store ch.event).1 },
        (handle s rv store ch.event).2, []) := by
  obtain ⟨first, pc⟩ := l
  cases h
  cases ch <;> rfl

/-- The store after an answer: only lists and events of changes have an effect. -/
lemma Serves.store_cases (h : Serves pos d s log l p r) (store : Store) :
    (l.next s d store (r.answer s log)).2.1 = store ∨
      (∃ n rv, r = .listed n rv ∧ (l.next s d store (r.answer s log)).2.1 =
        store.replaceIn s.kind s.ns (converted s.kind (listedObjects s log n))) ∨
      ∃ j rv ch, r = .change j ∧ log[j]? = some ch ∧ s.covers ch.object = true ∧
        (l.next s d store (r.answer s log)).2.1 = (handle s rv store ch.event).2 := by
  cases r with
  | listed n rv => exact Or.inr (Or.inl ⟨n, rv, rfl, by rw [Reply.answer, next_listed h.1]⟩)
  | listFailed e =>
      left
      rw [Reply.answer, next_listFailed h]
      split_ifs <;> rfl
  | watching =>
      obtain ⟨rv, hpc⟩ := h
      exact Or.inl (by rw [Reply.answer, next_watching hpc])
  | watchFailed e =>
      obtain ⟨rv, hpc⟩ := h
      left
      rw [Reply.answer, next_watchFailed hpc]
      split_ifs <;> rfl
  | change j =>
      obtain ⟨⟨rv, hpc⟩, -, -, ch, hj, hcov⟩ := h
      refine Or.inr (Or.inr ⟨j, rv, ch, rfl, hj, hcov, ?_⟩)
      simp only [Reply.answer, hj]
      rw [next_change hpc]
  | bookmark rv =>
      obtain ⟨⟨rv', hpc⟩, -⟩ := h
      exact Or.inl (by rw [Reply.answer, next_bookmark hpc])
  | error e =>
      obtain ⟨rv, hpc⟩ := h
      exact Or.inl (by rw [Reply.answer, next_error hpc])
  | closed =>
      obtain ⟨rv, hpc⟩ := h
      left
      rw [Reply.answer, next_closed hpc]
      split_ifs <;> rfl
  | done => exact Or.inl (by rw [Reply.answer, next_done])

/-- Objects of other kinds stay as they are. -/
lemma Serves.objs_of_ne (h : Serves pos d s log l p r) {k : Kind} (hk : k ≠ s.kind) :
    (l.next s d store (r.answer s log)).2.1.objs k = store.objs k := by
  rcases h.store_cases store with heq | ⟨n, rv, -, heq⟩ | ⟨j, rv, ch, -, -, -, heq⟩
  · rw [heq]
  · rw [heq, Store.replaceIn_objs, Function.update_of_ne hk]
  · rw [heq, handle_objs, if_neg hk]

/-- What is stored stays known. -/
lemma Serves.known (h : Serves pos d s log l p r) (hs : Sound pos s.kind log)
    (hk : Known s.kind log (store.objs s.kind)) :
    Known s.kind log ((l.next s d store (r.answer s log)).2.1.objs s.kind) := by
  intro uid item hmem
  rcases h.store_cases store with heq | ⟨n, rv, -, heq⟩ | ⟨j, rv, ch, -, hj, -, heq⟩
  · rw [heq] at hmem
    exact hk uid item hmem
  · rw [heq] at hmem
    rcases (mem_replaceIn hk hs).1 hmem with hst | ⟨hmem, -⟩
    · obtain ⟨ch, hch, -, hconv⟩ := hst.exists_change
      exact ⟨ch, hch, hconv⟩
    · exact hk uid item hmem
  · rw [heq] at hmem
    rcases mem_handle hmem with ⟨-, hconv⟩ | hmem
    · exact ⟨ch, List.mem_of_getElem? hj, hconv⟩
    · exact hk uid item hmem

/-- A loop leaves the values outside of its scope as they are. -/
lemma Serves.mem_of_not_holds (h : Serves pos d s log l p r) (hs : Sound pos s.kind log)
    (hk : Known s.kind log (store.objs s.kind)) {uid : String} {item : Item}
    (hn : s.holds item = false) :
    (uid, item) ∈ (l.next s d store (r.answer s log)).2.1.objs s.kind ↔
      (uid, item) ∈ store.objs s.kind := by
  rcases h.store_cases store with heq | ⟨n, rv, -, heq⟩ | ⟨j, rv, ch, -, hj, hcov, heq⟩
  · rw [heq]
  · rw [heq, mem_replaceIn hk hs]
    constructor
    · rintro (hst | ⟨hmem, -⟩)
      · obtain ⟨ch, hch, hcov, hconv⟩ := hst.exists_change
        rw [hs.holds_eq_covers hch hconv, hcov] at hn
        cases hn
      · exact hmem
    · exact fun hmem => Or.inr ⟨hmem, hn⟩
  · rw [heq]
    exact mem_handle_of_not_holds hk hs (List.mem_of_getElem? hj) hcov hn

end

/-! ### What an observer may rely on -/

/-- The values of a scope are up to date: there are none before the first list; after `n` changes,
when the last list or event was processed, they are what is kept of the objects at that time, and
the events since the last list are those of all changes in the scope; and a watch that is open, or
opened next, starts where no change in the scope is left out. -/
structure Tracks (pos : String → ℕ) (s : Scope) (log : List Change) (objs : Objects) (l : Loop)
    (p : Progress) : Prop where
  fresh : p.seen = none →
    l.first = true ∧ (l.pc = .listing ∨ l.pc = .stopped) ∧ ∀ uid item, ¬Held s objs uid item
  current : ∀ n, p.seen = some n →
    l.first = false ∧ p.base ≤ n ∧ n ≤ log.length ∧ p.applied = between s log p.base n ∧
      ∀ uid item, Held s objs uid item ↔ Stored s log n uid item
  resume : ∀ rv, l.pc = .watching rv ∨ l.pc = .consuming rv →
    ∃ n, p.seen = some n ∧ n ≤ pos rv ∧ pos rv ≤ log.length ∧ between s log n (pos rv) = []
  stream : ∀ rv, l.pc = .consuming rv → p.stream = pos rv

section

variable {pos : String → ℕ} {s : Scope} {d : Bool} {log : List Change} {objs objs' : Objects}
  {l : Loop} {p : Progress} {store : Store} {rv : String} {r : Reply} {j n : ℕ}

lemma tracks_initial : Tracks pos s [] ∅ Loop.initial Progress.initial where
  fresh _ := ⟨rfl, Or.inl rfl, fun uid item h => Table.not_mem_empty _ h.1⟩
  current n h := by cases h
  resume rv h := by rcases h with h | h <;> cases h
  stream rv h := by cases h

/-- What holds of the values in the scope alone is kept where they are. -/
lemma Tracks.congr (h : Tracks pos s log objs l p)
    (hobjs : ∀ uid item, Held s objs' uid item ↔ Held s objs uid item) :
    Tracks pos s log objs' l p where
  fresh hp := by
    obtain ⟨h1, h2, h3⟩ := h.fresh hp
    exact ⟨h1, h2, fun uid item hh => h3 uid item ((hobjs uid item).1 hh)⟩
  current n hp := by
    obtain ⟨h1, h2, h3, h4, h5⟩ := h.current n hp
    exact ⟨h1, h2, h3, h4, fun uid item => (hobjs uid item).trans (h5 uid item)⟩
  resume := h.resume
  stream := h.stream

/-- A change of the API server alone changes nothing in the past. -/
lemma Tracks.change (h : Tracks pos s log objs l p) (ch : Change) :
    Tracks pos s (log ++ [ch]) objs l p where
  fresh := h.fresh
  current n hp := by
    obtain ⟨h1, h2, h3, h4, h5⟩ := h.current n hp
    refine ⟨h1, h2, by rw [List.length_append]; omega, by rw [between_append h3]; exact h4, ?_⟩
    exact fun uid item => (h5 uid item).trans (stored_append h3).symm
  resume rv hpc := by
    obtain ⟨n, h1, h2, h3, h4⟩ := h.resume rv hpc
    exact ⟨n, h1, h2, by rw [List.length_append]; omega, by rw [between_append h3]; exact h4⟩
  stream := h.stream

/-- The loop goes on where no change is left out, or waits for a list, or ends. -/
lemma Tracks.goto (h : Tracks pos s log objs l p) {pc : Pc} (hseen : p.seen ≠ none)
    (hpc : pc = .listing ∨ pc = .stopped ∨ ∃ rv, pc = .watching rv ∧ l.pc = .consuming rv) :
    Tracks pos s log objs { l with pc := pc } p where
  fresh hp := absurd hp hseen
  current := h.current
  resume rv hrv := by
    rcases hpc with rfl | rfl | ⟨rv', rfl, hl⟩
    · rcases hrv with hrv | hrv <;> cases hrv
    · rcases hrv with hrv | hrv <;> cases hrv
    · rcases hrv with hrv | hrv
      · cases hrv
        exact h.resume rv (Or.inr hl)
      · cases hrv
  stream rv hrv := by
    rcases hpc with rfl | rfl | ⟨rv', rfl, hl⟩ <;> cases hrv

lemma Tracks.stop (h : Tracks pos s log objs l p) :
    Tracks pos s log objs { l with pc := .stopped } p where
  fresh hp := ⟨(h.fresh hp).1, Or.inr rfl, (h.fresh hp).2.2⟩
  current := h.current
  resume rv hrv := by rcases hrv with hrv | hrv <;> cases hrv
  stream rv hrv := by cases hrv

lemma Tracks.seen_of_watching (h : Tracks pos s log objs l p)
    (hpc : l.pc = .watching rv ∨ l.pc = .consuming rv) : p.seen ≠ none := by
  obtain ⟨n, hn, -⟩ := h.resume rv hpc
  rw [hn]
  exact Option.some_ne_none n

/-- A list. -/
lemma Tracks.listed (hs : Sound pos s.kind log) (hk : Known s.kind log (store.objs s.kind))
    (hn : n ≤ log.length) (hrv : pos rv = n) :
    Tracks pos s log ((store.replaceIn s.kind s.ns
        (converted s.kind (listedObjects s log n))).objs s.kind)
      { first := false, pc := if d then .stopped else .watching rv }
      { p with base := n, seen := some n, applied := [] } where
  fresh hp := by cases hp
  current m hm := by
    cases hm
    refine ⟨rfl, le_rfl, hn, between_self.symm, fun uid item => ?_⟩
    unfold Held
    rw [mem_replaceIn hk hs]
    constructor
    · rintro ⟨hst | ⟨-, hnot⟩, hh⟩
      · exact hst
      · rw [hh] at hnot
        cases hnot
    · intro hst
      obtain ⟨ch, hch, hcov, hconv⟩ := hst.exists_change
      exact ⟨Or.inl hst, (hs.holds_eq_covers hch hconv).trans hcov⟩
  resume rv' hpc := by
    cases d with
    | true => rcases hpc with hpc | hpc <;> cases hpc
    | false =>
        rcases hpc with hpc | hpc
        · cases hpc
          exact ⟨n, rfl, hrv.ge, hrv.trans_le hn, by rw [hrv, between_self]⟩
        · cases hpc
  stream rv' hpc := by
    cases d <;> cases hpc

/-- A watch is opened at the resource version of the request. -/
lemma Tracks.watching (h : Tracks pos s log objs l p) (hpc : l.pc = .watching rv) :
    Tracks pos s log objs { l with pc := .consuming rv } { p with stream := pos rv } where
  fresh hp := absurd hp (h.seen_of_watching (Or.inl hpc))
  current := h.current
  resume rv' hrv := by
    rcases hrv with hrv | hrv
    · cases hrv
    · cases hrv
      exact h.resume rv (Or.inl hpc)
  stream rv' hrv := by
    cases hrv
    rfl

/-- The event of the next change in the scope. -/
lemma Tracks.event (h : Tracks pos s log (store.objs s.kind) l p) (hs : Sound pos s.kind log)
    (hpc : l.pc = .consuming rv) (hle : p.stream ≤ j) (hquiet : between s log p.stream j = [])
    {ch : Change} (hj : log[j]? = some ch) (hcov : s.covers ch.object = true) :
    Tracks pos s log ((handle s rv store ch.event).2.objs s.kind)
      { l with pc := .consuming (handle s rv store ch.event).1 }
      { p with seen := some (j + 1), applied := p.applied ++ log[j]?.toList, stream := j + 1 } := by
  obtain ⟨n, hseen, hle', -, hquiet'⟩ := h.resume rv (Or.inr hpc)
  obtain ⟨hfirst, hbase, hn, happ, hcur⟩ := h.current n hseen
  have hstream := h.stream rv hpc
  have hlt := (List.getElem?_eq_some_iff.1 hj).1
  -- nothing happened in the scope since the last event
  have hnj : between s log n j = [] := by
    rw [between_split (b := pos rv) hle' (hstream ▸ hle), hquiet', ← hstream, hquiet,
      List.append_nil]
  have hnle : n ≤ j := hle'.trans (hstream ▸ hle)
  obtain ⟨hrv, hpos⟩ := hs.versions j ch hj
  refine ⟨fun hp => (by cases hp), fun m hm => ?_, fun rv' hrv' => ?_, fun rv' hrv' => ?_⟩
  · cases hm
    refine ⟨hfirst, by show p.base ≤ j + 1; omega, hlt, ?_, fun uid item => ?_⟩
    · show p.applied ++ log[j]?.toList = between s log p.base (j + 1)
      rw [between_split hbase (by omega : n ≤ j + 1), between_split hnle (Nat.le_succ j), hnj,
        between_succ hj, if_pos hcov, hj, happ]
      rfl
    · refine held_handle hs hj hcov fun uid item => ?_
      rw [hcur, stored_of_between_eq_nil hs hnle hlt.le hnj]
  · rcases hrv' with hrv' | hrv'
    · cases hrv'
    · cases hrv'
      rw [handle_rv hrv, hpos]
      exact ⟨j + 1, rfl, le_rfl, hlt, between_self⟩
  · cases hrv'
    rw [handle_rv hrv, hpos]

/-- A bookmark goes past changes outside of the scope. -/
lemma Tracks.bookmark (h : Tracks pos s log objs l p) {rv' : String} (hpc : l.pc = .consuming rv')
    (hle : p.stream ≤ pos rv) (hlen : pos rv ≤ log.length)
    (hquiet : between s log p.stream (pos rv) = []) :
    Tracks pos s log objs { l with pc := .consuming rv } { p with stream := pos rv } where
  fresh hp := absurd hp (h.seen_of_watching (Or.inr hpc))
  current := h.current
  resume rv'' hrv := by
    rcases hrv with hrv | hrv
    · cases hrv
    · cases hrv
      obtain ⟨n, hseen, hn, -, hquiet'⟩ := h.resume rv' (Or.inr hpc)
      have hstream := h.stream rv' hpc
      rw [hstream] at hle hquiet
      refine ⟨n, hseen, hn.trans hle, hlen, ?_⟩
      rw [between_split hn hle, hquiet', hquiet, List.append_nil]
  stream rv'' hrv := by
    cases hrv
    rfl

/-- Every answer keeps the values of the scope up to date. -/
theorem Tracks.next (h : Tracks pos s log (store.objs s.kind) l p) (hs : Sound pos s.kind log)
    (hk : Known s.kind log (store.objs s.kind)) (hserve : Serves pos d s log l p r) :
    Tracks pos s log ((l.next s d store (r.answer s log)).2.1.objs s.kind)
      (l.next s d store (r.answer s log)).1 (p.next pos log l r) := by
  cases r with
  | listed n rv =>
      obtain ⟨hpc, hn, hrv⟩ := hserve
      rw [Reply.answer, next_listed hpc]
      exact Tracks.listed hs hk hn hrv
  | listFailed e =>
      -- the loop lists again, unless it is done
      rw [Reply.answer, next_listFailed hserve]
      split_ifs
      · exact h.stop
      · exact h
  | watching =>
      obtain ⟨rv, hpc⟩ := hserve
      rw [Reply.answer, next_watching hpc]
      simp only [Progress.next, hpc]
      exact h.watching hpc
  | watchFailed e =>
      obtain ⟨rv, hpc⟩ := hserve
      rw [Reply.answer, next_watchFailed hpc]
      split_ifs
      · exact h.stop
      · exact h.goto (h.seen_of_watching (Or.inl hpc)) (Or.inl rfl)
  | change j =>
      -- the next change in the scope
      obtain ⟨⟨rv, hpc⟩, hle, hquiet, ch, hj, hcov⟩ := hserve
      have hanswer : (Reply.change j).answer s log = .event ch.event := by
        simp only [Reply.answer, hj]
      rw [hanswer, next_change hpc]
      exact h.event hs hpc hle hquiet hj hcov
  | bookmark rv =>
      obtain ⟨⟨rv', hpc⟩, hle, hlen, hquiet⟩ := hserve
      rw [Reply.answer, next_bookmark hpc]
      exact h.bookmark hpc hle hlen hquiet
  | error e =>
      -- after an error of the watch the loop lists again
      obtain ⟨rv, hpc⟩ := hserve
      rw [Reply.answer, next_error hpc]
      cases d with
      | true => exact h.stop
      | false => exact h.goto (h.seen_of_watching (Or.inr hpc)) (Or.inl rfl)
  | closed =>
      -- a watch that ends is taken up where it ended
      obtain ⟨rv, hpc⟩ := hserve
      rw [Reply.answer, next_closed hpc]
      split_ifs
      · exact h.stop
      · exact h.goto (h.seen_of_watching (Or.inr hpc)) (Or.inr (Or.inr ⟨rv, rfl, hpc⟩))
  | done =>
      rw [Reply.answer, next_done]
      exact h.stop

/-- The gaps that an answer makes the loop record are those of the interruptions. -/
lemma Tracks.gaps (h : Tracks pos s log (store.objs s.kind) l p)
    (hserve : Serves pos d s log l p r) : (l.next s d store (r.answer s log)).2.2 =
      (p.interruption? d r).toList.map (Interruption.gap s) := by
  cases r with
  | listed n rv =>
      rw [Reply.answer, next_listed hserve.1]
      -- a list is an interruption unless it is the first
      cases hseen : p.seen with
      | none => simp [Progress.interruption?, hseen, (h.fresh hseen).1]
      | some m => simp [Progress.interruption?, hseen, (h.current m hseen).1]
  | listFailed e =>
      rw [Reply.answer, next_listFailed hserve]
      cases d <;> rfl
  | watching =>
      obtain ⟨rv, hpc⟩ := hserve
      rw [Reply.answer, next_watching hpc]
      rfl
  | watchFailed e =>
      obtain ⟨rv, hpc⟩ := hserve
      rw [Reply.answer, next_watchFailed hpc]
      cases d <;> rfl
  | change j =>
      obtain ⟨⟨rv, hpc⟩, -, -, ch, hj, -⟩ := hserve
      simp only [Reply.answer, hj]
      rw [next_change hpc]
      rfl
  | bookmark rv =>
      obtain ⟨⟨rv', hpc⟩, -⟩ := hserve
      rw [Reply.answer, next_bookmark hpc]
      rfl
  | error e =>
      obtain ⟨rv, hpc⟩ := hserve
      rw [Reply.answer, next_error hpc]
      rfl
  | closed =>
      obtain ⟨rv, hpc⟩ := hserve
      rw [Reply.answer, next_closed hpc]
      cases d <;> rfl
  | done =>
      rw [Reply.answer, next_done]
      rfl

end

/-! ### All loops -/

/-- Different scopes of one kind are different namespaces. -/
def Separate (specs : List Scope) : Prop :=
  ∀ s ∈ specs, ∀ t ∈ specs, s.kind = t.kind → s ≠ t → s.ns ≠ "" ∧ t.ns ≠ ""

lemma Separate.not_holds {specs : List Scope} (h : Separate specs) {s t : Scope} (hs : s ∈ specs)
    (ht : t ∈ specs) (hk : s.kind = t.kind) (hne : s ≠ t) {item : Item}
    (hh : t.holds item = true) : s.holds item = false := by
  obtain ⟨h1, h2⟩ := h s hs t ht hk hne
  have hns : s.ns ≠ t.ns := fun he => hne (by cases s; cases t; cases hk; cases he; rfl)
  simp only [Scope.holds, Bool.or_eq_true, beq_iff_eq, h2, false_or] at hh
  simp [Scope.holds, h1, hh, Ne.symm hns]

lemma ne_empty_of_mem_splitList {arg ns : String} (h : ns ∈ splitList arg) : ns ≠ "" := by
  simpa using (List.mem_filter.1 h).2

/-- The scopes of a collector that is started with a list of namespaces, or without. -/
lemma separate_newSpecs (metadata : Bool) (arg : String) :
    Separate (newSpecs metadata (splitList arg)) := by
  have hcases : ∀ s ∈ newSpecs metadata (splitList arg), (s.kind ≠ .secret ∧ s.ns = "") ∨
      (s.kind = .secret ∧ (splitList arg ≠ [] → s.ns ≠ "") ∧ (splitList arg = [] → s.ns = "")) := by
    intro s hs
    rcases List.mem_append.1 hs with hs | hs
    · obtain ⟨k, hk, rfl⟩ := List.mem_map.1 hs
      refine Or.inl ⟨?_, rfl⟩
      rintro rfl
      revert hk
      decide
    · cases metadata with
      | false => cases hs
      | true =>
          obtain ⟨ns, hns, rfl⟩ := List.mem_map.1 hs
          refine Or.inr ⟨rfl, fun hne => ?_, fun he => ?_⟩
          · rw [if_neg hne, List.mem_dedup] at hns
            exact ne_empty_of_mem_splitList hns
          · rw [if_pos he, List.mem_dedup, List.mem_singleton] at hns
            exact hns
  intro s hs t ht hk hne
  have heq : s.ns ≠ t.ns := fun he => hne (by cases s; cases t; cases hk; cases he; rfl)
  rcases hcases s hs with ⟨h1, h2⟩ | ⟨h1, h2, h3⟩ <;>
    rcases hcases t ht with ⟨h4, h5⟩ | ⟨h4, h5, h6⟩
  · exact absurd (h2.trans h5.symm) heq
  · exact absurd (hk.trans h4) h1
  · exact absurd (hk.symm.trans h1) h4
  · by_cases he : splitList arg = []
    · exact absurd ((h3 he).trans (h6 he).symm) heq
    · exact ⟨h2 he, h5 he⟩

/-- The invariant of the collector and the API server. -/
structure Invariant (pos : Kind → String → ℕ) (specs : List Scope) (w : World) : Prop where
  sound : ∀ k, Sound (pos k) k (w.log k)
  known : ∀ k, Known k (w.log k) (w.store.objs k)
  tracks : ∀ s ∈ specs, Tracks (pos s.kind) s (w.log s.kind) (w.store.objs s.kind) (w.loop s)
    (w.progress s)
  gaps : w.gaps = w.interruptions.map fun i => i.2.gap i.1

section

variable {pos : Kind → String → ℕ} {specs : List Scope} {w : World}

lemma invariant_initial : Invariant pos specs World.initial where
  sound _ := ⟨fun _ h => absurd h List.not_mem_nil, fun _ h => absurd h List.not_mem_nil,
    fun _ _ h => (by cases h)⟩
  known _ _ _ h := absurd h (Table.not_mem_empty _)
  tracks _ _ := tracks_initial
  gaps := rfl

lemma Invariant.change (h : Invariant pos specs w) {k : Kind} {ch : Change}
    (hch : Sound (pos k) k (w.log k ++ [ch])) :
    Invariant pos specs (w.next pos (.change k ch)) where
  sound k' := by
    show Sound (pos k') k' (Function.update w.log k (w.log k ++ [ch]) k')
    by_cases hk : k' = k
    · subst hk
      rw [Function.update_self]
      exact hch
    · rw [Function.update_of_ne hk]
      exact h.sound k'
  known k' uid item hmem := by
    obtain ⟨d, hd, hconv⟩ := h.known k' uid item hmem
    show ∃ d ∈ Function.update w.log k (w.log k ++ [ch]) k', _
    by_cases hk : k' = k
    · subst hk
      rw [Function.update_self]
      exact ⟨d, List.mem_append_left _ hd, hconv⟩
    · rw [Function.update_of_ne hk]
      exact ⟨d, hd, hconv⟩
  tracks s hs := by
    show Tracks _ s (Function.update w.log k (w.log k ++ [ch]) s.kind) (w.store.objs s.kind)
      (w.loop s) (w.progress s)
    by_cases hk : s.kind = k
    · rw [hk, Function.update_self, ← hk]
      exact (h.tracks s hs).change ch
    · rw [Function.update_of_ne hk]
      exact h.tracks s hs
  gaps := h.gaps

lemma Invariant.reply (h : Invariant pos specs w) (hsep : Separate specs) {s : Scope} {r : Reply}
    (hs : s ∈ specs) (hserve : Serves (pos s.kind) w.ctxDone s (w.log s.kind) (w.loop s)
      (w.progress s) r) : Invariant pos specs (w.next pos (.reply s r)) where
  sound := h.sound
  known k := by
    show Known k (w.log k) (((w.loop s).next s w.ctxDone w.store (r.answer s _)).2.1.objs k)
    by_cases hk : k = s.kind
    · subst hk
      exact hserve.known (h.sound s.kind) (h.known s.kind)
    · rw [hserve.objs_of_ne hk]
      exact h.known k
  tracks t ht := by
    show Tracks _ t (w.log t.kind)
      (((w.loop s).next s w.ctxDone w.store (r.answer s _)).2.1.objs t.kind)
      (Function.update w.loop s _ t) (Function.update w.progress s _ t)
    by_cases hst : t = s
    · subst hst
      rw [Function.update_self, Function.update_self]
      exact (h.tracks t ht).next (h.sound t.kind) (h.known t.kind) hserve
    · rw [Function.update_of_ne hst, Function.update_of_ne hst]
      refine (h.tracks t ht).congr fun uid item => and_congr_left fun hh => ?_
      by_cases hk : t.kind = s.kind
      · have hnot := hsep.not_holds hs ht hk.symm (Ne.symm hst) hh
        rw [hk]
        exact hserve.mem_of_not_holds (h.sound s.kind) (h.known s.kind) hnot
      · rw [hserve.objs_of_ne hk]
  gaps := by
    show w.gaps ++ ((w.loop s).next s w.ctxDone w.store (r.answer s _)).2.2 = _
    rw [(h.tracks s hs).gaps hserve, h.gaps, World.next, List.map_append]
    cases (w.progress s).interruption? w.ctxDone r <;> rfl

lemma Invariant.next (h : Invariant pos specs w) (hsep : Separate specs) {i : Input}
    (hi : May pos specs w i) : Invariant pos specs (w.next pos i) := by
  cases i with
  | change k ch => exact h.change hi
  | reply s r => exact h.reply hsep hi.1 hi.2
  | cancel => exact ⟨h.sound, h.known, h.tracks, h.gaps⟩

end

/-- In every run of a collector the values of each scope are up to date, the gaps are those of the
interruptions, and a list in a namespace leaves the values of the other namespaces. -/
theorem watched_inventory {pos : Kind → String → ℕ} {metadata : Bool} {arg : String}
    {inputs : List Input}
    (h : (machine pos).Admits (May pos (newSpecs metadata (splitList arg))) World.initial inputs) :
    let w := (machine pos).final World.initial inputs
    (∀ s ∈ newSpecs metadata (splitList arg), Tracks (pos s.kind) s (w.log s.kind)
      (w.store.objs s.kind) (w.loop s) (w.progress s)) ∧
    (w.gaps = w.interruptions.map fun i => i.2.gap i.1) ∧
    ∀ s n rv, May pos (newSpecs metadata (splitList arg)) w (.reply s (.listed n rv)) →
      ∀ uid item, s.holds item = false →
        ((uid, item) ∈ (w.next pos (.reply s (.listed n rv))).store.objs s.kind ↔
          (uid, item) ∈ w.store.objs s.kind) := by
  intro w
  have hinv : Invariant pos (newSpecs metadata (splitList arg)) w :=
    h.invariant (fun _ _ hw hi => hw.next (separate_newSpecs metadata arg) hi) invariant_initial
  refine ⟨hinv.tracks, hinv.gaps, ?_⟩
  rintro s n rv ⟨-, hserve⟩ uid item hh
  exact hserve.mem_of_not_holds (hinv.sound s.kind) (hinv.known s.kind) hh

namespace Sample

/-- A Secret of the namespace `a` with a resource version. -/
def secret (rv : String) : Object := .partialMetadata ⟨"a", "s", "u", rv⟩

/-- The lengths of the resource versions are their positions. -/
def pos (_ : Kind) (rv : String) : ℕ := rv.toList.length

/-- A Secret is listed and modified, the watch ends, is opened again and fails, and the Secret is
listed again. -/
def inputs : List Input :=
  let scope : Scope := ⟨.secret, "a"⟩
  [.change .secret (.added (secret "1")), .reply scope (.listed 1 "1"), .reply scope .watching,
    .change .secret (.modified (secret "11")), .reply scope (.change 1), .reply scope .closed,
    .reply scope .watching, .reply scope (.error ⟨none, true⟩), .reply scope (.listed 2 "11")]

lemma label_secret (rv : String) : (∀ x ∈ (secret rv).ns.toList, labelChar x = true) ∧
    (secret rv).ns.toList.length ≤ 63 := by
  have hns : (secret rv).ns.toList = ['a'] := by
    show "a".toList = ['a']
    decide
  rw [hns]
  exact ⟨List.forall_mem_singleton.2 (by decide), by decide⟩

lemma sound_one : Sound (pos .secret) .secret [.added (secret "1")] where
  namespaces := List.forall_mem_singleton.2 (label_secret "1")
  lifetimes := by decide +kernel
  versions j c hj := by
    cases j with
    | zero =>
        cases hj
        decide
    | succ j => cases hj

lemma sound_two :
    Sound (pos .secret) .secret [.added (secret "1"), .modified (secret "11")] where
  namespaces := List.forall_mem_cons.2
    ⟨label_secret "1", List.forall_mem_singleton.2 (label_secret "11")⟩
  lifetimes := by decide +kernel
  versions j c hj := by
    rcases j with _ | _ | j <;> cases hj
    · decide
    · decide

lemma admits : (machine pos).Admits (May pos (newSpecs true (splitList "a, b"))) World.initial
    inputs := by
  have hscope : (⟨.secret, "a"⟩ : Scope) ∈ newSpecs true (splitList "a, b") := by decide +kernel
  refine ⟨sound_one, ⟨hscope, ?_⟩, ⟨hscope, ?_⟩, sound_two, ⟨hscope, ?_⟩, ⟨hscope, ?_⟩,
    ⟨hscope, ?_⟩, ⟨hscope, ?_⟩, ⟨hscope, ?_⟩, trivial⟩
  · exact ⟨rfl, by decide, rfl⟩
  · exact ⟨"1", rfl⟩
  · exact ⟨⟨"1", rfl⟩, by decide, by decide, .modified (secret "11"), rfl, rfl⟩
  · exact ⟨"11", rfl⟩
  · exact ⟨"11", rfl⟩
  · exact ⟨"11", rfl⟩
  · exact ⟨rfl, by decide, rfl⟩

end Sample

/-- In the sample run three interruptions have their gaps and the Secret is up to date. -/
theorem sample_watched :
    let w := (machine Sample.pos).final World.initial Sample.inputs
    w.gaps.map Gap.kind = ["watch-restarted", "resource-version-expired", "relist"] ∧
      (w.store.objs .secret).rows =
        [("u", .secret { ns := "a", name := "s", uid := "u", resourceVersion := "11" })] ∧
      ∀ s ∈ newSpecs true (splitList "a, b"), Tracks (Sample.pos s.kind) s (w.log s.kind)
        (w.store.objs s.kind) (w.loop s) (w.progress s) := by
  refine ⟨?_, ?_, (watched_inventory Sample.admits).1⟩
  · rfl
  · rfl

end Watch

end Collector

end Afterlock
