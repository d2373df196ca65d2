import Mathlib

/-!
# Best-first search

A queue gives its least entry first, and when an entry is taken its children are put into the queue.
On a tree in which no entry is greater than its children, the entries are taken in their order: the
search is a fold over the sorted list of all entries (`Tree.explore_eq_foldlM`,
`Tree.order_pairwise`).
-/

namespace Afterlock

/-- A tree of entries.  An entry weighs more than its children together, so it has finitely many
descendants. -/
structure Tree (ν : Type*) where
  children : ν → List ν
  weight : ν → ℕ
  weight_children : ∀ n, ((children n).map weight).sum < weight n

namespace Tree

section

variable {ν : Type*} (t : Tree ν)

lemma weight_lt_of_mem {n c : ν} (hc : c ∈ t.children n) : t.weight c < t.weight n :=
  (List.le_sum_of_mem (List.mem_map_of_mem hc)).trans_lt (t.weight_children n)

/-- An entry and all its descendants. -/
def nodes (n : ν) : List ν :=
  n :: (t.children n).attach.flatMap fun c =>
    have := t.weight_lt_of_mem c.property
    nodes c.val
termination_by t.weight n

lemma nodes_eq (n : ν) : t.nodes n = n :: (t.children n).flatMap t.nodes := by
  rw [nodes]
  simp only [List.flatMap_subtype, List.unattach_attach]

/-- What holds of an entry and is passed on to children holds of all its descendants. -/
lemma forall_nodes {P : ν → Prop} (hchild : ∀ n c, P n → c ∈ t.children n → P c) {n : ν}
    (hn : P n) : ∀ m ∈ t.nodes n, P m := by
  intro m hm
  induction hw : t.weight n using Nat.strong_induction_on generalizing n with
  | _ w ih =>
      subst hw
      rw [nodes_eq, List.mem_cons, List.mem_flatMap] at hm
      rcases hm with rfl | ⟨c, hc, hm⟩
      · exact hn
      · exact ih _ (t.weight_lt_of_mem hc) (hchild n c hn hc) hm rfl

/-- If each child is reached by a step of its own, no entry has two ways to a descendant. -/
lemma nodup_nodes {ι : Type*} (path : ν → List ι)
    (hstep : ∀ n, ∀ c ∈ t.children n, ∃ i, path c = path n ++ [i])
    (hnodup : ∀ n, ((t.children n).map path).Nodup) (n : ν) : ((t.nodes n).map path).Nodup := by
  have hbelow (n : ν) : ∀ m ∈ t.nodes n, path n <+: path m := by
    refine t.forall_nodes (P := fun m => path n <+: path m) (fun m c hm hc => ?_)
      (List.prefix_refl _)
    obtain ⟨i, hi⟩ := hstep m c hc
    rw [hi]
    exact hm.trans (List.prefix_append _ _)
  induction hw : t.weight n using Nat.strong_induction_on generalizing n with
  | _ w ih =>
      subst hw
      rw [nodes_eq, List.map_cons, List.nodup_cons, List.map_flatMap, List.nodup_flatMap]
      refine ⟨fun hmem => ?_, fun c hc => ih _ (t.weight_lt_of_mem hc) c rfl, ?_⟩
      · obtain ⟨c, hc, hmem⟩ := List.mem_flatMap.1 hmem
        obtain ⟨m, hm, heq⟩ := List.mem_map.1 hmem
        obtain ⟨i, hi⟩ := hstep n c hc
        have hlen := (hbelow c m hm).length_le
        rw [heq, hi, List.length_append, List.length_singleton] at hlen
        omega
      · refine (List.pairwise_map.1 (hnodup n)).imp_of_mem fun {c d} hc hd hne => ?_
        intro q hqc hqd
        obtain ⟨m, hm, rfl⟩ := List.mem_map.1 hqc
        obtain ⟨k, hk, heq⟩ := List.mem_map.1 hqd
        obtain ⟨i, hi⟩ := hstep n c hc
        obtain ⟨j, hj⟩ := hstep n d hd
        have hlen : (path c).length = (path d).length := by
          rw [hi, hj, List.length_append, List.length_append]
          rfl
        have hpath : path c <+: path d := by
          refine List.prefix_of_prefix_length_le (hbelow c m hm) ?_ hlen.le
          rw [← heq]
          exact hbelow d k hk
        exact hne (hpath.eq_of_length hlen)

lemma mem_nodes_self (n : ν) : n ∈ t.nodes n := by
  rw [nodes_eq]
  exact List.mem_cons_self

lemma mem_nodes_of_mem_children {n m c : ν} (hm : m ∈ t.nodes n) (hc : c ∈ t.children m) :
    c ∈ t.nodes n := by
  induction hw : t.weight n using Nat.strong_induction_on generalizing n with
  | _ w ih =>
      subst hw
      rw [nodes_eq, List.mem_cons, List.mem_flatMap] at hm
      rw [nodes_eq, List.mem_cons, List.mem_flatMap]
      rcases hm with rfl | ⟨d, hd, hm⟩
      · exact Or.inr ⟨c, hc, t.mem_nodes_self c⟩
      · exact Or.inr ⟨d, hd, ih _ (t.weight_lt_of_mem hd) hm rfl⟩

end

section

variable {ν σ ρ : Type*} [LinearOrder ν] (t : Tree ν)

/-- The queue after its least entry was taken and the children of that were put in. -/
def advance (n : ν) (queue : List ν) : List ν := queue.erase n ++ t.children n

lemma weight_advance_lt {n : ν} {queue : List ν} (hn : n ∈ queue) :
    ((t.advance n queue).map t.weight).sum < (queue.map t.weight).sum := by
  have hsum := ((List.perm_cons_erase hn).map t.weight).sum_eq
  rw [List.map_cons, List.sum_cons] at hsum
  rw [advance, List.map_append, List.sum_append, hsum]
  have hchildren := t.weight_children n
  omega

/-- The entries in the order in which they are taken. -/
def order (queue : List ν) : List ν :=
  match h : queue.min? with
  | none => []
  | some n =>
      have := t.weight_advance_lt (List.min?_mem h)
      n :: order (t.advance n queue)
termination_by (queue.map t.weight).sum

/-- Take entries and visit them until a visit ends the search or nothing is left. -/
def explore (visit : σ → ν → Except ρ σ) (s : σ) (queue : List ν) : Except ρ σ :=
  match h : queue.min? with
  | none => .ok s
  | some n =>
      have := t.weight_advance_lt (List.min?_mem h)
      match visit s n with
      | .error r => .error r
      | .ok s => explore visit s (t.advance n queue)
termination_by (queue.map t.weight).sum

lemma order_of_min_eq_none {queue : List ν} (h : queue.min? = none) : t.order queue = [] := by
  rw [order]
  split
  · rfl
  · simp_all

lemma order_of_min_eq_some {n : ν} {queue : List ν} (h : queue.min? = some n) :
    t.order queue = n :: t.order (t.advance n queue) := by
  rw [order]
  split
  · simp_all
  · simp_all

/-- The induction over the entries that are taken. -/
lemma queue_induction {P : List ν → Prop} (hnil : P [])
    (hstep : ∀ n queue, queue.min? = some n → P (t.advance n queue) → P queue) (queue : List ν) :
    P queue := by
  induction hw : (queue.map t.weight).sum using Nat.strong_induction_on generalizing queue with
  | _ w ih =>
      subst hw
      cases h : queue.min? with
      | none => exact (List.min?_eq_none_iff.1 h) ▸ hnil
      | some n => exact hstep n queue h (ih _ (t.weight_advance_lt (List.min?_mem h)) _ rfl)

/-- Every descendant of the queue is taken once. -/
lemma order_perm (queue : List ν) : (t.order queue).Perm (queue.flatMap t.nodes) := by
  induction queue using t.queue_induction with
  | hnil =>
      rw [t.order_of_min_eq_none rfl]
      exact List.Perm.refl []
  | hstep n queue h ih =>
      rw [t.order_of_min_eq_some h]
      have hqueue := (List.perm_cons_erase (List.min?_mem h)).flatMap_right t.nodes
      refine List.Perm.trans ?_ hqueue.symm
      rw [List.flatMap_cons, nodes_eq, List.cons_append]
      refine List.Perm.cons n (ih.trans ?_)
      rw [advance, List.flatMap_append]
      exact List.perm_append_comm

/-- If the entries have a property that passes on to children, and with it no entry is greater than
its children, the entries are taken in their order. -/
lemma order_pairwise {P : ν → Prop} (hchild : ∀ n c, P n → c ∈ t.children n → P c)
    (hle : ∀ n c, P n → c ∈ t.children n → n ≤ c) {queue : List ν} (hqueue : ∀ n ∈ queue, P n) :
    (t.order queue).Pairwise (· ≤ ·) := by
  induction queue using t.queue_induction with
  | hnil =>
      rw [t.order_of_min_eq_none rfl]
      exact List.Pairwise.nil
  | hstep n queue h ih =>
      have hn := hqueue n (List.min?_mem h)
      have hadvance : ∀ k ∈ t.advance n queue, P k ∧ n ≤ k := by
        intro k hk
        rcases List.mem_append.1 hk with hk | hk
        · exact ⟨hqueue k (List.mem_of_mem_erase hk),
            (List.min?_eq_some_iff.1 h).2 k (List.mem_of_mem_erase hk)⟩
        · exact ⟨hchild n k hn hk, hle n k hn hk⟩
      rw [t.order_of_min_eq_some h]
      refine List.Pairwise.cons (fun m hm => ?_) (ih fun k hk => (hadvance k hk).1)
      obtain ⟨k, hk, hm⟩ := List.mem_flatMap.1 ((t.order_perm _).mem_iff.1 hm)
      have hpass : ∀ a c, P a ∧ n ≤ a → c ∈ t.children a → P c ∧ n ≤ c := fun a c ha hc =>
        ⟨hchild a c ha.1 hc, ha.2.trans (hle a c ha.1 hc)⟩
      exact (t.forall_nodes hpass (hadvance k hk) m hm).2

/-- The search is a fold over the entries in the order in which they are taken. -/
theorem explore_eq_foldlM (visit : σ → ν → Except ρ σ) (s : σ) (queue : List ν) :
    t.explore visit s queue = (t.order queue).foldlM visit s := by
  induction queue using t.queue_induction generalizing s with
  | hnil =>
      rw [t.order_of_min_eq_none rfl, explore]
      rfl
  | hstep n queue h ih =>
      rw [t.order_of_min_eq_some h, explore, List.foldlM_cons]
      split
      · simp_all
      · rename_i m hm
        obtain rfl := Option.some.inj (h.symm.trans hm)
        cases visit s n with
        | error r => rfl
        | ok s => exact ih s

end

end Tree

/-- A fold that may end early goes through the whole list, or ends at an element behind a part that
it went through. -/
lemma foldlM_except {α σ ρ : Type*} (f : σ → α → Except ρ σ) (s : σ) (xs : List α) :
    (∃ s', xs.foldlM f s = .ok s') ∨ ∃ before x after s' r, xs = before ++ x :: after ∧
      before.foldlM f s = .ok s' ∧ f s' x = .error r ∧ xs.foldlM f s = .error r := by
  induction xs generalizing s with
  | nil => exact Or.inl ⟨s, rfl⟩
  | cons x xs ih =>
      rw [List.foldlM_cons]
      cases hx : f s x with
      | error r => exact Or.inr ⟨[], x, xs, s, r, rfl, rfl, hx, rfl⟩
      | ok t =>
          rcases ih t with ⟨s', hs'⟩ | ⟨before, y, after, s', r, rfl, hbefore, hy, hr⟩
          · exact Or.inl ⟨s', hs'⟩
          · refine Or.inr ⟨x :: before, y, after, s', r, rfl, ?_, hy, hr⟩
            rw [List.foldlM_cons, hx]
            exact hbefore

end Afterlock
