import Mathlib

/-!
# Finite tables keyed by their rows

A table is a finite set of rows with at most one row for each key, where the key of a row is
computed from the row itself.  It is the shape of a dictionary `{key(x): x for x in xs}`: the
invariant that the row stored under a key has that key holds by construction, and that keys do
not repeat is a field of the structure.
-/

namespace Afterlock

/-- A finite table of rows of type `α`, at most one for each value of `key`. -/
structure Table {α κ : Type*} (key : α → κ) where
  /-- The rows, in no particular order. -/
  rows : List α
  /-- No two rows share a key. -/
  nodup : (rows.map key).Nodup

namespace Table

variable {α κ : Type*} {key : α → κ}

instance : Membership α (Table key) := ⟨fun t x => x ∈ t.rows⟩

lemma mem_def {t : Table key} {x : α} : x ∈ t ↔ x ∈ t.rows := Iff.rfl

instance [DecidableEq α] (t : Table key) (x : α) : Decidable (x ∈ t) :=
  inferInstanceAs (Decidable (x ∈ t.rows))

/-- The table without rows. -/
def empty : Table key := ⟨[], by simp⟩

instance : EmptyCollection (Table key) := ⟨empty⟩

@[simp] lemma not_mem_empty (x : α) : x ∉ (∅ : Table key) := List.not_mem_nil

/-- The keys in use. -/
def keys (t : Table key) : List κ := t.rows.map key

lemma mem_keys {t : Table key} {k : κ} : k ∈ t.keys ↔ ∃ x ∈ t, key x = k := List.mem_map

/-- The rows that satisfy `p`. -/
def filter (p : α → Bool) (t : Table key) : Table key :=
  ⟨t.rows.filter p, t.nodup.sublist (List.filter_sublist.map key)⟩

@[simp] lemma mem_filter {p : α → Bool} {t : Table key} {x : α} :
    x ∈ t.filter p ↔ x ∈ t ∧ p x = true := List.mem_filter

/-- Two rows of a table with the same key are the same row. -/
lemma eq_of_key_eq {t : Table key} {x y : α} (hx : x ∈ t) (hy : y ∈ t) (h : key x = key y) :
    x = y :=
  List.inj_on_of_nodup_map t.nodup hx hy h

lemma ext_rows {s t : Table key} (h : s.rows = t.rows) : s = t := by
  cases s
  cases t
  cases h
  rfl

lemma filter_filter_comm {t : Table key} {p q : α → Bool} :
    (t.filter q).filter p = (t.filter p).filter q :=
  ext_rows (by simp only [filter, List.filter_filter, Bool.and_comm])

/-! ### How many rows there are -/

lemma length_eq_keys {t : Table key} : t.rows.length = t.keys.length := List.length_map .. |>.symm

/-- A table whose keys are among those of a list has no more rows than the list has entries. -/
lemma length_le_of_keys {t : Table key} {ks : List κ} (h : ∀ x ∈ t, key x ∈ ks) :
    t.rows.length ≤ ks.length := by
  have hsub : t.keys ⊆ ks := fun k hk => by
    obtain ⟨x, hx, rfl⟩ := mem_keys.1 hk
    exact h x hx
  rw [length_eq_keys]
  exact (List.subperm_of_subset t.nodup hsub).length_le

lemma length_filter_le {t : Table key} {p : α → Bool} : (t.filter p).rows.length ≤ t.rows.length :=
  List.length_filter_le _ _

variable [DecidableEq κ]

/-- The row stored under a key. -/
def get? (t : Table key) (k : κ) : Option α := t.rows.find? fun x => decide (key x = k)

/-- Whether a key is in use. -/
def contains (t : Table key) (k : κ) : Bool := (t.get? k).isSome

/-- The table without the row stored under `k`. -/
def erase (t : Table key) (k : κ) : Table key := t.filter fun x => !decide (key x = k)

/-- Store a row under its key, in place of the row that was there. -/
def put (t : Table key) (x : α) : Table key :=
  ⟨x :: (t.erase (key x)).rows, by
    refine List.nodup_cons.2 ⟨?_, (t.erase (key x)).nodup⟩
    simp [erase, filter]⟩

/-- The table of the rows of a list; of two rows with one key the later is kept. -/
def ofList (xs : List α) : Table key := xs.foldl put ∅

lemma get?_eq_some_iff {t : Table key} {k : κ} {x : α} :
    t.get? k = some x ↔ x ∈ t ∧ key x = k := by
  constructor
  · intro h
    exact ⟨List.mem_of_find?_eq_some h, by simpa using List.find?_some h⟩
  · rintro ⟨hx, rfl⟩
    cases hf : t.get? (key x) with
    | none =>
        rw [get?, List.find?_eq_none] at hf
        exact absurd (hf x hx) (by simp)
    | some y =>
        have hy : key y = key x := by simpa using List.find?_some hf
        rw [eq_of_key_eq (List.mem_of_find?_eq_some hf) hx hy]

lemma get?_eq_none_iff {t : Table key} {k : κ} : t.get? k = none ↔ ∀ x ∈ t, key x ≠ k := by
  simp [get?, mem_def]

lemma get?_key {t : Table key} {x : α} (hx : x ∈ t) : t.get? (key x) = some x :=
  get?_eq_some_iff.2 ⟨hx, rfl⟩

lemma contains_iff {t : Table key} {k : κ} : t.contains k = true ↔ ∃ x ∈ t, key x = k := by
  simp only [contains, Option.isSome_iff_exists, get?_eq_some_iff]

lemma contains_eq_false_iff {t : Table key} {k : κ} :
    t.contains k = false ↔ ∀ x ∈ t, key x ≠ k := by
  simp only [contains, Option.isSome_eq_false_iff, Option.isNone_iff_eq_none, get?_eq_none_iff]

@[simp] lemma mem_erase {t : Table key} {k : κ} {x : α} :
    x ∈ t.erase k ↔ x ∈ t ∧ key x ≠ k := by
  simp [erase]

@[simp] lemma mem_put {t : Table key} {x y : α} :
    y ∈ t.put x ↔ y = x ∨ (y ∈ t ∧ key y ≠ key x) := by
  rw [mem_def, put, List.mem_cons, ← mem_def (t := t.erase (key x)), mem_erase]

lemma mem_put_self {t : Table key} {x : α} : x ∈ t.put x := mem_put.2 (Or.inl rfl)

@[simp] lemma get?_put_self {t : Table key} {x : α} : (t.put x).get? (key x) = some x :=
  get?_key mem_put_self

lemma get?_put_of_ne {t : Table key} {x : α} {k : κ} (h : k ≠ key x) :
    (t.put x).get? k = t.get? k := by
  refine Option.ext fun y => ?_
  simp only [get?_eq_some_iff, mem_put]
  constructor
  · rintro ⟨rfl | hy, hk⟩
    · exact absurd hk.symm h
    · exact ⟨hy.1, hk⟩
  · rintro ⟨hy, rfl⟩
    exact ⟨Or.inr ⟨hy, h⟩, rfl⟩

/-- Storing a row under a key that is not in use only adds the row. -/
lemma mem_put_of_fresh {t : Table key} {x y : α} (h : ∀ z ∈ t, key z ≠ key x) :
    y ∈ t.put x ↔ y = x ∨ y ∈ t := by
  rw [mem_put]
  exact or_congr_right ⟨fun hy => hy.1, fun hy => ⟨hy, h y hy⟩⟩

lemma mem_foldl_put_of_nodup {xs : List α} {t : Table key} {y : α} (hn : (xs.map key).Nodup)
    (hd : ∀ x ∈ xs, ∀ z ∈ t, key z ≠ key x) :
    y ∈ xs.foldl put t ↔ y ∈ xs ∨ y ∈ t := by
  induction xs generalizing t with
  | nil => simp
  | cons x xs ih =>
      rw [List.map_cons, List.nodup_cons] at hn
      rw [List.foldl_cons, ih hn.2, mem_put_of_fresh (hd x List.mem_cons_self), List.mem_cons]
      · tauto
      · intro w hw z hz
        rcases mem_put.1 hz with rfl | ⟨hz, -⟩
        · exact fun h => hn.1 (List.mem_map.2 ⟨w, hw, h.symm⟩)
        · exact hd w (List.mem_cons_of_mem _ hw) z hz

/-- The rows of the table of a list without repeated keys are the elements of the list. -/
lemma mem_ofList {xs : List α} (hn : (xs.map key).Nodup) {y : α} :
    y ∈ (ofList xs : Table key) ↔ y ∈ xs := by
  rw [ofList, mem_foldl_put_of_nodup hn (by simp)]
  simp

lemma exists_mem_put {t : Table key} {x : α} {k : κ} :
    (∃ y ∈ t.put x, key y = k) ↔ key x = k ∨ ∃ y ∈ t, key y = k := by
  constructor
  · rintro ⟨y, hy, rfl⟩
    rcases mem_put.1 hy with rfl | ⟨hy, -⟩
    · exact Or.inl rfl
    · exact Or.inr ⟨y, hy, rfl⟩
  · rintro (rfl | ⟨y, hy, rfl⟩)
    · exact ⟨x, mem_put_self, rfl⟩
    · by_cases h : key y = key x
      · exact ⟨x, mem_put_self, h.symm⟩
      · exact ⟨y, mem_put.2 (Or.inr ⟨hy, h⟩), rfl⟩

/-- The keys in use in the table of a list are the keys of its elements. -/
lemma exists_mem_ofList {xs : List α} {k : κ} :
    (∃ y ∈ (ofList xs : Table key), key y = k) ↔ ∃ x ∈ xs, key x = k := by
  suffices ∀ t : Table key, (∃ y ∈ xs.foldl put t, key y = k) ↔
      (∃ x ∈ xs, key x = k) ∨ ∃ y ∈ t, key y = k by
    simpa [ofList] using this ∅
  induction xs with
  | nil => simp
  | cons x xs ih =>
      intro t
      rw [List.foldl_cons, ih, exists_mem_put]
      simp only [List.mem_cons, exists_eq_or_imp]
      exact ⟨fun h => h.elim (fun h => Or.inl (Or.inr h))
          fun h => h.elim (fun h => Or.inl (Or.inl h)) Or.inr,
        fun h => h.elim (fun h => h.elim (fun h => Or.inr (Or.inl h)) Or.inl)
          fun h => Or.inr (Or.inr h)⟩

lemma mem_of_mem_ofList {xs : List α} {y : α} (h : y ∈ (ofList xs : Table key)) : y ∈ xs := by
  suffices ∀ (t : Table key), y ∈ xs.foldl put t → y ∈ xs ∨ y ∈ t by
    simpa using this ∅ h
  clear h
  induction xs with
  | nil => exact fun t ht => Or.inr ht
  | cons x xs ih =>
      intro t ht
      rcases ih _ ht with h | h
      · exact Or.inl (List.mem_cons_of_mem _ h)
      · rcases mem_put.1 h with rfl | ⟨h, -⟩
        · exact Or.inl List.mem_cons_self
        · exact Or.inr h

/-! ### Tables that agree on some rows -/

/-- The row under a key, where it satisfies `p`, is determined by the rows that do. -/
lemma filter_get?_congr {s t : Table key} {p : α → Bool}
    (h : ∀ x, p x = true → (x ∈ s ↔ x ∈ t)) (k : κ) :
    (s.get? k).filter p = (t.get? k).filter p := by
  refine Option.ext fun x => ?_
  simp only [Option.filter_eq_some_iff, get?_eq_some_iff]
  constructor
  · rintro ⟨⟨hx, hk⟩, hp⟩
    exact ⟨⟨(h x hp).1 hx, hk⟩, hp⟩
  · rintro ⟨⟨hx, hk⟩, hp⟩
    exact ⟨⟨(h x hp).2 hx, hk⟩, hp⟩

omit [DecidableEq κ] in
/-- The rows that satisfy `p`, in two tables that agree on them. -/
lemma perm_filter_rows {s t : Table key} {p : α → Bool}
    (h : ∀ x, p x = true → (x ∈ s ↔ x ∈ t)) : (s.rows.filter p).Perm (t.rows.filter p) := by
  have hnodup (u : Table key) : (u.rows.filter p).Nodup := (u.nodup.of_map key).filter p
  refine (List.perm_ext_iff_of_nodup (hnodup s) (hnodup t)).2 fun x => ?_
  simp only [List.mem_filter, ← mem_def]
  exact and_congr_left fun hp => h x hp

/-! ### How many rows are stored -/

lemma length_erase_le {t : Table key} {k : κ} : (t.erase k).rows.length ≤ t.rows.length :=
  length_filter_le

lemma length_put_le {t : Table key} {x : α} : (t.put x).rows.length ≤ t.rows.length + 1 :=
  Nat.succ_le_succ length_erase_le

/-- A row stored in the place of another makes the table no longer. -/
lemma length_put_le_of_mem {t : Table key} {x y : α} (hy : y ∈ t) (h : key y = key x) :
    (t.put x).rows.length ≤ t.rows.length := by
  rw [length_eq_keys (t := t)]
  refine length_le_of_keys fun z hz => ?_
  rcases mem_put.1 hz with rfl | ⟨hz, -⟩
  · exact mem_keys.2 ⟨y, hy, h⟩
  · exact mem_keys.2 ⟨z, hz, rfl⟩

lemma length_ofList_le {xs : List α} : (ofList xs : Table key).rows.length ≤ xs.length := by
  have h : (ofList xs : Table key).rows.length ≤ (xs.map key).length :=
    length_le_of_keys fun x hx => List.mem_map.2 ⟨x, mem_of_mem_ofList hx, rfl⟩
  rwa [List.length_map] at h

/-! ### Keys that are free -/

/-- The keys of a list under which no row is stored. -/
def free (t : Table key) (ks : List κ) : List κ := ks.dedup.filter fun k => !t.contains k

lemma mem_free {t : Table key} {ks : List κ} {k : κ} :
    k ∈ t.free ks ↔ k ∈ ks ∧ t.contains k = false := by
  simp [free]

lemma nodup_free {t : Table key} {ks : List κ} : (t.free ks).Nodup :=
  (List.nodup_dedup ks).filter _

lemma length_free_le {t : Table key} {ks : List κ} : (t.free ks).length ≤ ks.length :=
  (List.subperm_of_subset nodup_free fun _ h => (mem_free.1 h).1).length_le

/-- A table that keeps all rows leaves no more keys free. -/
lemma length_free_mono {s t : Table key} {ks : List κ} (h : ∀ x ∈ s, x ∈ t) :
    (t.free ks).length ≤ (s.free ks).length := by
  refine (List.subperm_of_subset nodup_free fun k hk => ?_).length_le
  obtain ⟨hmem, hfree⟩ := mem_free.1 hk
  exact mem_free.2 ⟨hmem, contains_eq_false_iff.2 fun x hx =>
    contains_eq_false_iff.1 hfree x (h x hx)⟩

/-- A row stored under a free key uses it up. -/
lemma length_free_put {t : Table key} {ks : List κ} {x : α} (hx : key x ∈ ks)
    (hfree : t.contains (key x) = false) : ((t.put x).free ks).length + 1 ≤ (t.free ks).length := by
  have hnot : key x ∉ (t.put x).free ks := by
    intro h
    exact contains_eq_false_iff.1 (mem_free.1 h).2 x mem_put_self rfl
  have hsub : key x :: (t.put x).free ks ⊆ t.free ks := by
    intro k hk
    rcases List.mem_cons.1 hk with rfl | hk
    · exact mem_free.2 ⟨hx, hfree⟩
    · obtain ⟨hmem, hk⟩ := mem_free.1 hk
      refine mem_free.2 ⟨hmem, contains_eq_false_iff.2 fun y hy => ?_⟩
      refine contains_eq_false_iff.1 hk y (mem_put.2 (.inr ⟨hy, ?_⟩))
      exact contains_eq_false_iff.1 hfree y hy
  exact (List.subperm_of_subset (List.nodup_cons.2 ⟨hnot, nodup_free⟩) hsub).length_le

/-! ### Parts of a table -/

/-- A part of the table has the rows under a key if it has all rows with that key. -/
lemma get?_filter {t : Table key} {p : α → Bool} {k : κ} (h : ∀ x ∈ t, key x = k → p x = true) :
    (t.filter p).get? k = t.get? k := by
  cases hget : t.get? k with
  | none =>
      rw [get?_eq_none_iff] at hget ⊢
      exact fun x hx => hget x (mem_filter.1 hx).1
  | some x =>
      rw [get?_eq_some_iff] at hget ⊢
      exact ⟨mem_filter.2 ⟨hget.1, h x hget.1 hget.2⟩, hget.2⟩

lemma filter_erase {t : Table key} {p : α → Bool} {k : κ} :
    (t.erase k).filter p = (t.filter p).erase k := filter_filter_comm

lemma filter_put {t : Table key} {p : α → Bool} {x : α} (h : p x = true) :
    (t.put x).filter p = (t.filter p).put x := by
  refine ext_rows ?_
  show (x :: (t.erase (key x)).rows).filter p = x :: ((t.filter p).erase (key x)).rows
  rw [List.filter_cons_of_pos h, ← filter_erase]
  rfl

/-- A row outside the part is stored under a key that the table does not use. -/
lemma filter_put_of_neg {t : Table key} {p : α → Bool} {x : α} (h : p x = false)
    (hfresh : ∀ y ∈ t, key y ≠ key x) : (t.put x).filter p = t.filter p := by
  refine ext_rows ?_
  show (x :: (t.erase (key x)).rows).filter p = t.rows.filter p
  have herase : (t.erase (key x)).rows = t.rows :=
    List.filter_eq_self.2 fun y hy => by simpa using hfresh y hy
  rw [List.filter_cons_of_neg (by simp [h]), herase]

/-- The part of the table of a list is the table of the part of the list. -/
lemma filter_ofList {xs : List α} {p : α → Bool} (hn : (xs.map key).Nodup) :
    (ofList xs : Table key).filter p = ofList (xs.filter p) := by
  have hgen : ∀ (t : Table key), (∀ x ∈ xs, ∀ y ∈ t, key y ≠ key x) →
      (xs.foldl put t).filter p = (xs.filter p).foldl put (t.filter p) := by
    induction xs with
    | nil => exact fun t _ => rfl
    | cons x xs ih =>
        intro t ht
        rw [List.map_cons, List.nodup_cons] at hn
        rw [List.foldl_cons, ih hn.2]
        · cases hp : p x with
          | true => rw [List.filter_cons_of_pos hp, List.foldl_cons, filter_put hp]
          | false =>
              rw [List.filter_cons_of_neg (by simp [hp]),
                filter_put_of_neg hp (ht x List.mem_cons_self)]
        · intro y hy z hz he
          rcases mem_put.1 hz with rfl | ⟨hz, -⟩
          · exact hn.1 (List.mem_map.2 ⟨y, hy, he.symm⟩)
          · exact ht y (List.mem_cons_of_mem _ hy) z hz he
  exact hgen ∅ fun x _ y hy => absurd hy (not_mem_empty y)

end Table

end Afterlock
