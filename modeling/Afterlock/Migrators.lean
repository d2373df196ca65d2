import Afterlock.Migrations

/-!
# Migrators that run at once

A session that is past the lock holds it, so that the versions that it has read, together with those
that it has applied itself, are the versions of the database: 1, 2 and so on.  The invariant says so
for the migration that a session is about to run, and that what its transaction has written is the
script of that migration and its row (`State.Fits`).  From it follow the three results: what the
database holds after any run (`inv_final`), that a migration which is not committed leaves it as it
was, and that a call that does not know what was applied writes nothing.
-/

namespace Afterlock

namespace Migrations

variable {sha256 : String → String} {ι S : Type*}

/-! ### What a database holds -/

/-- The database is what the migrations make of a schema: each has run once, in the order of the
versions 1, 2 and so on, and is recorded with the checksum of its script. -/
structure Applied (sha256 : String → String) (exec : String → S → S) (schema : S) (db : Database S)
    (ran : List Migration) : Prop where
  rows : db.rows.map (fun r => (r.version, r.name, r.checksum)) =
    ran.map fun m => (m.version, m.name, m.checksum)
  versions : ran.map Migration.version = List.range' 1 ran.length
  schema_eq : db.schema = ran.foldl (fun s m => exec m.sql s) schema
  checksum_eq : ∀ m ∈ ran, m.checksum = checksum sha256 m.sql

/-- The release has every applied migration, with the checksum that was recorded. -/
def Release.Knows (r : Release sha256) (rows : List Row) : Prop :=
  ∀ row ∈ rows, ∃ m ∈ r.migrations, m.version = row.version ∧ m.checksum = row.checksum

lemma Release.Knows.mono {r : Release sha256} {rows rows' : List Row} (h : r.Knows rows')
    (hsub : rows ⊆ rows') : r.Knows rows := fun row hrow => h row (hsub hrow)

section

variable {exec : String → S → S} {schema : S} {db : Database S} {ran : List Migration}

lemma Applied.length (h : Applied sha256 exec schema db ran) : db.rows.length = ran.length := by
  have hlen := congrArg List.length h.rows
  rwa [List.length_map, List.length_map] at hlen

lemma Applied.mem_versions (h : Applied sha256 exec schema db ran) (v : ℕ) :
    v ∈ db.rows.map Row.version ↔ 1 ≤ v ∧ v ≤ db.rows.length := by
  have hversions : db.rows.map Row.version = List.range' 1 db.rows.length := by
    have hfst := congrArg (List.map Prod.fst) h.rows
    rw [List.map_map, List.map_map] at hfst
    rw [h.length, ← h.versions]
    exact hfst
  rw [hversions, List.mem_range'_1]
  omega

lemma applied_nil (sha256 : String → String) (exec : String → S → S) (schema : S) (table : Bool) :
    Applied sha256 exec schema ⟨table, [], schema⟩ [] :=
  ⟨rfl, rfl, rfl, fun _ hm => absurd hm List.not_mem_nil⟩

/-- The commit of the next migration. -/
lemma Applied.commit (h : Applied sha256 exec schema db ran) {m : Migration}
    (hversion : m.version = db.rows.length + 1) (hsum : m.checksum = checksum sha256 m.sql)
    (now : String) :
    Applied sha256 exec schema (db.commit exec [.script m.sql, .row (m.row now)]) (ran ++ [m]) := by
  refine ⟨?_, ?_, ?_, ?_⟩
  · show (db.rows ++ [m.row now]).map _ = _
    rw [List.map_append, List.map_append, h.rows]
    rfl
  · rw [List.map_append, List.length_append, h.versions, List.length_singleton,
      List.range'_1_concat, List.map_cons, List.map_nil, hversion, h.length, Nat.add_comm 1]
  · show exec m.sql db.schema = _
    rw [List.foldl_append, ← h.schema_eq]
    rfl
  · intro m' hm'
    rcases List.mem_append.1 hm' with hm' | hm'
    · exact h.checksum_eq m' hm'
    · exact List.mem_singleton.1 hm' ▸ hsum

end

/-! ### Checking and looping -/

lemma known?_some {migs : List Migration} {v : ℕ} {m : Migration} (h : known? migs v = some m) :
    m ∈ migs ∧ m.version = v := by
  unfold known? at h
  exact ⟨List.mem_reverse.1 (List.mem_of_find?_eq_some h), by simpa using List.find?_some h⟩

/-- `check` passes exactly if the release knows the rows. -/
lemma check_eq_none_iff (r : Release sha256) (done : List Row) :
    check r.migrations done = none ↔ r.Knows done := by
  -- versions are contiguous, so that they are unique
  have hunique : ∀ m ∈ r.migrations, ∀ m' ∈ r.migrations, m.version = m'.version → m = m' := by
    have hnodup : (r.migrations.map Migration.version).Nodup := by
      rw [r.contiguous]
      exact List.nodup_range'
    intro m hm m' hm' he
    exact List.inj_on_of_nodup_map hnodup hm hm' he
  have hknown (v : ℕ) (m : Migration) :
      known? r.migrations v = some m ↔ m ∈ r.migrations ∧ m.version = v := by
    refine ⟨known?_some, ?_⟩
    rintro ⟨hm, rfl⟩
    cases hfind : known? r.migrations m.version with
    | none =>
        have hno := List.find?_eq_none.1 hfind m (List.mem_reverse.2 hm)
        simp at hno
    | some m' =>
        obtain ⟨hm', he⟩ := known?_some hfind
        rw [hunique m' hm' m hm he]
  induction done with
  | nil => exact iff_of_true rfl fun row hrow => absurd hrow List.not_mem_nil
  | cons row done ih =>
      rw [check, Release.Knows, List.forall_mem_cons]
      cases hk : known? r.migrations row.version with
      | none =>
          -- the database has a version that the release does not know
          refine iff_of_false (by simp) fun h => ?_
          obtain ⟨m, hm, hv, -⟩ := h.1
          simp [(hknown row.version m).2 ⟨hm, hv⟩] at hk
      | some m =>
          obtain ⟨hm, hv⟩ := (hknown row.version m).1 hk
          dsimp only
          -- the release knows the version, but perhaps with another script
          by_cases hsum : m.checksum = row.checksum
          · rw [if_neg (not_not.2 hsum)]
            exact ih.trans (and_iff_right ⟨m, hm, hv, hsum⟩).symm
          · rw [if_pos hsum]
            refine iff_of_false (by simp) fun h => ?_
            obtain ⟨m', hm', hv', hsum'⟩ := h.1
            exact hsum (hunique m hm m' hm' (hv.trans hv'.symm) ▸ hsum')

lemma knows_applied {r : Release sha256} {db : Database S} :
    r.Knows (applied db) ↔ r.Knows db.rows :=
  ⟨fun h row hrow => h row (Text.mem_sortedBy.2 hrow),
    fun h row hrow => h row (Text.mem_sortedBy.1 hrow)⟩

/-- The version of a migration is its place in the list. -/
lemma version_of_split {before rest : List Migration} {m : Migration}
    (h : (before ++ m :: rest).map Migration.version =
      List.range' 1 (before ++ m :: rest).length) : m.version = before.length + 1 := by
  have hget := congrArg (fun l => l[before.length]?) h
  simp only [List.map_append, List.map_cons, List.getElem?_append_right (List.length_map ..).le,
    List.length_map, Nat.sub_self, List.getElem?_cons_zero, List.length_append,
    List.length_cons] at hget
  rw [List.getElem?_range' (by omega)] at hget
  have := Option.some.inj hget
  omega

/-- The loop goes on with the migration after those that are done, where those are the first `k`. -/
lemma pending?_spec {target : Option ℤ} {done : List Row} {k : ℕ}
    (hdone : ∀ v, 1 ≤ v → (v ∈ done.map Row.version ↔ v ≤ k)) (before : List Migration)
    {migs rest : List Migration} {m : Migration}
    (hversions : (before ++ migs).map Migration.version = List.range' 1 (before ++ migs).length)
    (h : pending? target done migs = some (m, rest)) :
    ∃ before', before ++ migs = before' ++ m :: rest ∧ before'.length = max k before.length := by
  induction migs generalizing before with
  | nil => cases h
  | cons m' migs ih =>
      have hm' := version_of_split hversions
      have hiff := hdone m'.version (by omega)
      rw [pending?] at h
      by_cases hmem : m'.version ∈ done.map Row.version
      · rw [if_pos hmem] at h
        have hle := hiff.1 hmem
        obtain ⟨before', hsplit, hlen⟩ := ih (before ++ [m'])
          (by rwa [List.append_assoc, List.singleton_append]) h
        rw [List.append_assoc, List.singleton_append] at hsplit
        rw [List.length_append, List.length_singleton] at hlen
        exact ⟨before', hsplit, by omega⟩
      · rw [if_neg hmem] at h
        have hlt := hiff.not.1 hmem
        split_ifs at h
        obtain ⟨rfl, rfl⟩ := Prod.mk.inj (Option.some.inj h)
        exact ⟨before, rfl, by omega⟩

/-! ### The invariant -/

/-- The call that a session is in. -/
def Phase.call? : Phase sha256 → Option (Call sha256)
  | .idle => none
  | .waiting c | .locked c | .created c | .reading c => some c
  | .running a | .recording a | .committing a => some a.call

/-- The migration that a session runs. -/
def Phase.attempt? : Phase sha256 → Option (Attempt sha256)
  | .running a | .recording a | .committing a => some a
  | _ => none

/-- The session is past the lock. -/
def Phase.inside : Phase sha256 → Bool
  | .idle | .waiting _ => false
  | _ => true

lemma Phase.inside_of_attempt? {p : Phase sha256} {a : Attempt sha256} (h : p.attempt? = some a) :
    p.inside = true := by
  cases p <;> first | rfl | cases h

/-- What the transaction of a session has written. -/
def Session.Written (x : Session sha256) : Prop :=
  match x.phase with
  | .created _ => x.work = [.table]
  | .recording a => x.work = [.script a.migration.sql]
  | .committing a => ∃ now, x.work = [.script a.migration.sql, .row (a.migration.row now)]
  | _ => x.work = []

/-- The migration is the next one of a release that knows the rows. -/
structure Attempt.Fits (a : Attempt sha256) (rows : List Row) : Prop where
  next : ∃ before, a.call.release.migrations = before ++ a.migration :: a.rest ∧
    before.length = rows.length
  done : ∃ k ≤ rows.length, ∀ v, 1 ≤ v → (v ∈ a.done.map Row.version ↔ v ≤ k)
  knows : a.call.release.Knows rows

lemma Attempt.Fits.version {a : Attempt sha256} {rows : List Row} (h : a.Fits rows) :
    a.migration.version = rows.length + 1 := by
  obtain ⟨before, hsplit, hlen⟩ := h.next
  rw [← hlen]
  exact version_of_split (hsplit ▸ a.call.release.contiguous)

lemma Attempt.Fits.mem {a : Attempt sha256} {rows : List Row} (h : a.Fits rows) :
    a.migration ∈ a.call.release.migrations := by
  obtain ⟨before, hsplit, -⟩ := h.next
  rw [hsplit]
  exact List.mem_append_right _ List.mem_cons_self

/-- A session fits the state. -/
structure State.Fits (σ : State sha256 ι S) (i : ι) : Prop where
  lock : (σ.session i).phase.inside = true → σ.holder = some i
  work : (σ.session i).Written
  attempt : ∀ a, (σ.session i).phase.attempt? = some a → a.Fits σ.db.rows

/-- What holds of every state of a run. -/
structure Inv (exec : String → S → S) (schema : S) (σ : State sha256 ι S) : Prop where
  applied : ∃ ran, Applied sha256 exec schema σ.db ran
  fits : ∀ i, σ.Fits i

/-- What the loop comes to. -/
lemma loop_spec {c : Call sha256} {done : List Row} (ran : List ℕ) (before : List Migration)
    {migs : List Migration} {rows : List Row} {k : ℕ} (hsplit : c.release.migrations = before ++ migs)
    (hdone : ∀ v, 1 ≤ v → (v ∈ done.map Row.version ↔ v ≤ k))
    (hlen : rows.length = max k before.length) (hknows : c.release.Knows rows) :
    (loop c done ran migs).2 = .idle ∨
      ∃ a : Attempt sha256, (loop c done ran migs).2 = .running a ∧ a.ran = ran ∧ a.Fits rows := by
  unfold loop
  cases hp : pending? c.target done migs with
  | none => exact .inl rfl
  | some p =>
      obtain ⟨m, rest⟩ := p
      obtain ⟨before', hsplit', hlen'⟩ := pending?_spec hdone before (hsplit ▸ c.release.contiguous) hp
      refine .inr ⟨_, rfl, rfl, ⟨before', hsplit.trans hsplit', hlen'.trans hlen.symm⟩, ⟨k, ?_, hdone⟩,
        hknows⟩
      omega

section

variable [DecidableEq ι] {exec : String → S → S} {schema : S} {σ : State sha256 ι S} {i : ι}

/-- The invariant is kept if the other sessions keep the lock, and the rows change only under the
lock of the session that changes. -/
lemma Inv.put (h : Inv exec schema σ) {db : Database S} {holder : Option ι} {x : Session sha256}
    (hdb : ∃ ran, Applied sha256 exec schema db ran)
    (hholder : ∀ j, j ≠ i → σ.holder = some j → holder = some j)
    (hrows : db.rows = σ.db.rows ∨ σ.holder = some i)
    (hlock : x.phase.inside = true → holder = some i) (hwork : x.Written)
    (hattempt : ∀ a, x.phase.attempt? = some a → a.Fits db.rows) :
    Inv exec schema ⟨db, holder, Function.update σ.session i x⟩ := by
  refine ⟨hdb, fun j => ?_⟩
  by_cases hj : j = i
  · subst hj
    refine ⟨?_, ?_, ?_⟩ <;> simp only [Function.update_self] <;> assumption
  · obtain ⟨hlock', hwork', hattempt'⟩ := h.fits j
    refine ⟨?_, ?_, ?_⟩ <;> simp only [Function.update_of_ne hj]
    · exact fun hin => hholder j hj (hlock' hin)
    · exact hwork'
    · intro a ha
      rcases hrows with hrows | hrows
      · rw [hrows]
        exact hattempt' a ha
      · have hheld := hlock' (Phase.inside_of_attempt? ha)
        exact absurd (Option.some.inj (hheld.symm.trans hrows)) hj

/-- The invariant is kept if nothing but the session changes. -/
lemma Inv.put_session (h : Inv exec schema σ) {phase : Phase sha256} {work : List Effect}
    (hlock : phase.inside = true → σ.holder = some i)
    (hwork : (⟨phase, work⟩ : Session sha256).Written)
    (hattempt : ∀ a, phase.attempt? = some a → a.Fits σ.db.rows) :
    Inv exec schema (σ.put i phase work) :=
  h.put (x := ⟨phase, work⟩) h.applied (fun _ _ hj => hj) (.inl rfl) hlock hwork hattempt

/-- A session that gives up. -/
lemma Inv.put_idle (h : Inv exec schema σ) : Inv exec schema (σ.put i .idle []) :=
  h.put_session (fun hin => absurd hin Bool.false_ne_true) rfl fun a ha => by cases ha

/-- A statement keeps the invariant. -/
lemma inv_go (h : Inv exec schema σ) (i : ι) (now : String) :
    Inv exec schema (σ.go exec i now).2 := by
  obtain ⟨hlock, hwork, hattempt⟩ := h.fits i
  obtain ⟨ran, hran⟩ := h.applied
  unfold State.go
  generalize hx : σ.session i = x at *
  obtain ⟨phase, work⟩ := x
  cases phase with
  | idle => exact h
  | waiting c =>
      -- the lock is taken only where no other session holds it
      obtain rfl : work = [] := hwork
      simp only
      split_ifs with hfree
      · refine h.put (x := ⟨.locked c, []⟩) ⟨ran, hran⟩ (fun j hj hheld => ?_) (.inl rfl)
          (fun _ => rfl) rfl fun a ha => by cases ha
        rcases hfree with hfree | hfree
        · cases hfree.symm.trans hheld
        · exact absurd (Option.some.inj (hheld.symm.trans hfree)) hj
      · exact h
  | locked c =>
      obtain rfl : work = [] := hwork
      exact h.put_session (fun _ => hlock rfl) rfl fun a ha => by cases ha
  | created c =>
      -- the commit of the bookkeeping table
      obtain rfl : work = [.table] := hwork
      exact h.put (x := ⟨.reading c, []⟩) ⟨ran, hran.rows, hran.versions, hran.schema_eq,
        hran.checksum_eq⟩ (fun _ _ hj => hj) (.inl rfl) (fun _ => hlock rfl) rfl
        fun a ha => by cases ha
  | reading c =>
      obtain rfl : work = [] := hwork
      simp only
      cases hcheck : check c.release.migrations (applied σ.db) with
      | some text => exact h.put_idle
      | none =>
          -- the check has passed, so that what is applied is a beginning of the migrations
          have hknows := knows_applied.1 ((check_eq_none_iff c.release _).1 hcheck)
          have hdone : ∀ v, 1 ≤ v →
              (v ∈ (applied σ.db).map Row.version ↔ v ≤ σ.db.rows.length) := by
            intro v hv
            have hmem : v ∈ (applied σ.db).map Row.version ↔ v ∈ σ.db.rows.map Row.version :=
              ((Text.sortedBy_perm _ _).map _).mem_iff
            rw [hmem, hran.mem_versions, and_iff_right hv]
          rcases loop_spec [] [] rfl hdone (by simp) hknows with
            hl | ⟨a, hl, -, ha⟩ <;> simp only [hl]
          · exact h.put_idle
          · exact h.put_session (fun _ => hlock rfl) rfl fun a' ha' => Option.some.inj ha' ▸ ha
  | running a =>
      obtain rfl : work = [] := hwork
      exact h.put_session (fun _ => hlock rfl) rfl hattempt
  | recording a =>
      -- the row is written, unless the script of the migration has failed
      obtain rfl : work = [.script a.migration.sql] := hwork
      simp only
      split_ifs
      · exact h.put_idle
      · exact h.put_session (fun _ => hlock rfl) ⟨now, rfl⟩ hattempt
  | committing a =>
      -- the script and its row reach the database together, and the next migration is looked up
      obtain ⟨now', rfl⟩ : ∃ now, work = [.script a.migration.sql, .row (a.migration.row now)] :=
        hwork
      have hfits : a.Fits σ.db.rows := hattempt a rfl
      have hran' := hran.commit hfits.version (a.call.release.checksum_eq _ hfits.mem) now'
      have hheld : σ.holder = some i := hlock rfl
      obtain ⟨before, hsplit, hlen⟩ := hfits.next
      obtain ⟨k, hk, hdone⟩ := hfits.done
      have hknows : a.call.release.Knows
          (σ.db.commit exec [.script a.migration.sql, .row (a.migration.row now')]).rows := by
        intro row hrow
        rcases List.mem_append.1 hrow with hrow | hrow
        · exact hfits.knows row hrow
        · rw [List.mem_singleton.1 hrow]
          exact ⟨a.migration, hfits.mem, rfl, rfl⟩
      have hrows : (σ.db.commit exec [.script a.migration.sql,
          .row (a.migration.row now')]).rows.length = max k (before ++ [a.migration]).length := by
        show (σ.db.rows ++ [_]).length = _
        simp only [List.length_append, List.length_singleton]
        omega
      rcases loop_spec (a.ran ++ [a.migration.version]) (before ++ [a.migration])
        (hsplit.trans (List.append_cons _ _ _)) hdone hrows hknows with
        hl | ⟨a', hl, -, ha'⟩ <;> simp only [hl]
      · exact h.put (x := ⟨.idle, []⟩) ⟨_, hran'⟩ (fun _ _ hj => hj) (.inr hheld)
          (fun hin => absurd hin Bool.false_ne_true) rfl fun b hb => by cases hb
      · exact h.put (x := ⟨.running a', []⟩) ⟨_, hran'⟩ (fun _ _ hj => hj) (.inr hheld)
          (fun _ => hheld) rfl fun b hb => Option.some.inj hb ▸ ha'

/-- What happens to a session keeps the invariant. -/
lemma inv_step (h : Inv exec schema σ) (e : ι × Event sha256) :
    Inv exec schema (σ.step exec e).2 := by
  obtain ⟨i, e⟩ := e
  cases e with
  | start c =>
      simp only [State.step]
      cases hp : (σ.session i).phase with
      | idle =>
          have hwork := (h.fits i).work
          simp only [Session.Written, hp] at hwork
          exact h.put_session (fun hin => absurd hin Bool.false_ne_true) hwork
            fun a ha => by cases ha
      | _ => exact h
  | go now => exact inv_go h i now
  | fail exc =>
      simp only [State.step, State.fail]
      cases (σ.session i).phase with
      | idle => exact h
      | _ => exact h.put_idle
  | close =>
      refine h.put (x := ⟨.idle, []⟩) h.applied (fun j hj hheld => ?_) (.inl rfl)
        (fun hin => absurd hin Bool.false_ne_true) rfl fun a ha => by cases ha
      have hne : σ.holder ≠ some i := fun hi => hj (Option.some.inj (hheld.symm.trans hi))
      rw [if_neg hne, hheld]

/-- The invariant holds in every state of a run. -/
theorem inv_final (h : Inv exec schema σ) (is : List (ι × Event sha256)) :
    Inv exec schema ((migrators exec).final σ is) := by
  induction is generalizing σ with
  | nil => exact h
  | cons e is ih => exact ih (inv_step h e)

omit [DecidableEq ι] in
lemma inv_initial (exec : String → S → S) (schema : S) :
    Inv exec schema (State.initial sha256 ι schema) :=
  ⟨⟨[], applied_nil _ _ _ _⟩, fun _ =>
    ⟨fun hin => absurd hin Bool.false_ne_true, rfl, fun a ha => by cases ha⟩⟩

/-! ### Steps that write -/

lemma ran_of_loop {c : Call sha256} {done : List Row} {ran : List ℕ} {migs : List Migration}
    {b : Attempt sha256} (h : (loop c done ran migs).2.attempt? = some b) : b.ran = ran := by
  unfold loop at h
  cases hp : pending? c.target done migs with
  | none => simp [hp, Phase.attempt?] at h
  | some p =>
      rw [hp] at h
      rw [← Option.some.inj h]

/-- Only a commit changes the database: that of the bookkeeping table, or that of a migration, which
the session then has behind it. -/
lemma db_step (h : Inv exec schema σ) (i : ι) (e : Event sha256) :
    (σ.step exec (i, e)).2.db = σ.db ∨
      (∃ c, (σ.session i).phase = .created c ∧
        (σ.step exec (i, e)).2.db = { σ.db with table := true }) ∨
      ∃ a now, (σ.session i).phase = .committing a ∧ e = .go now ∧
        σ.db.rows <+: (σ.step exec (i, e)).2.db.rows ∧
        ((σ.step exec (i, e)).2.session i).phase.attempt? ≠ some a := by
  have hwork := (h.fits i).work
  cases e with
  | start c =>
      refine .inl ?_
      simp only [State.step]
      cases (σ.session i).phase <;> rfl
  | fail exc =>
      refine .inl ?_
      simp only [State.step, State.fail]
      cases (σ.session i).phase <;> rfl
  | close => exact .inl rfl
  | go now =>
      simp only [State.step, State.go]
      generalize hx : σ.session i = x at *
      obtain ⟨phase, work⟩ := x
      cases phase with
      | idle => exact .inl rfl
      | waiting c =>
          refine .inl ?_
          simp only
          split_ifs <;> rfl
      | locked c => exact .inl rfl
      | created c =>
          obtain rfl : work = [.table] := hwork
          exact .inr (.inl ⟨c, rfl, rfl⟩)
      | reading c =>
          refine .inl ?_
          simp only
          cases check c.release.migrations (applied σ.db) <;> rfl
      | running a => exact .inl rfl
      | recording a =>
          refine .inl ?_
          simp only
          split_ifs <;> rfl
      | committing a =>
          obtain ⟨now', rfl⟩ : ∃ now, work = [.script a.migration.sql, .row (a.migration.row now)] :=
            hwork
          refine .inr (.inr ⟨a, now, rfl, rfl, List.prefix_append _ _, fun hb => ?_⟩)
          -- the migrations that the session has run have grown by this one
          simp only [State.put, Function.update_self] at hb
          have hran := ran_of_loop hb
          have hlen := congrArg List.length hran
          simp at hlen

/-- The rows are only ever added to. -/
lemma rows_prefix_final (h : Inv exec schema σ) (is : List (ι × Event sha256)) :
    σ.db.rows <+: ((migrators exec).final σ is).db.rows := by
  induction is generalizing σ with
  | nil => exact List.prefix_refl _
  | cons e is ih =>
      refine List.IsPrefix.trans ?_ (ih (inv_step h e))
      obtain ⟨i, e⟩ := e
      rcases db_step h i e with hdb | ⟨c, -, hdb⟩ | ⟨a, now, -, -, hrows, -⟩
      · exact (congrArg Database.rows hdb).symm ▸ List.prefix_refl _
      · exact (congrArg Database.rows hdb).symm ▸ List.prefix_refl _
      · exact hrows

/-- While a session is at a migration, the database stays as it is. -/
lemma db_final_of_attempt (h : Inv exec schema σ) {a : Attempt sha256}
    {is : List (ι × Event sha256)}
    (ha : ∀ js, js <+: is → (((migrators exec).final σ js).session i).phase.attempt? = some a) :
    ((migrators exec).final σ is).db = σ.db := by
  induction is generalizing σ with
  | nil => rfl
  | cons e is ih =>
      have hnow : (σ.session i).phase.attempt? = some a := ha [] List.nil_prefix
      have hnext : ((σ.step exec e).2.session i).phase.attempt? = some a :=
        ha [e] (List.cons_prefix_cons.2 ⟨rfl, List.nil_prefix⟩)
      have hheld := (h.fits i).lock (Phase.inside_of_attempt? hnow)
      have hstep : (σ.step exec e).2.db = σ.db := by
        obtain ⟨j, e⟩ := e
        -- another session that commits would hold the lock
        have hother (hin : (σ.session j).phase.inside = true) : j = i :=
          Option.some.inj (((h.fits j).lock hin).symm.trans hheld)
        rcases db_step h j e with hdb | ⟨c, hp, -⟩ | ⟨b, now, hp, -, -, hne⟩
        · exact hdb
        · obtain rfl := hother (hp ▸ rfl)
          rw [hp] at hnow
          cases hnow
        · obtain rfl := hother (hp ▸ rfl)
          rw [hp] at hnow
          exact absurd (hnext.trans hnow.symm) hne
      refine (ih (inv_step h e) fun js hjs => ?_).trans hstep
      exact ha (e :: js) (List.cons_prefix_cons.2 ⟨rfl, hjs⟩)

/-! ### The results -/

/-- A migration that a session has begun in this state leaves the database as it was, whatever
happens to the session and to the others, unless it is committed. -/
def State.Atomic (exec : String → S → S) (σ : State sha256 ι S) : Prop :=
  ∀ (i : ι) (a : Attempt sha256) (is : List (ι × Event sha256)) (e : Event sha256),
    (∀ js, js <+: is → (((migrators exec).final σ js).session i).phase.attempt? = some a) →
      ¬((∃ now, e = .go now) ∧
          (((migrators exec).final σ is).session i).phase = .committing a) →
        ((migrators exec).step ((migrators exec).final σ is) (i, e)).2.db = σ.db

/-- A call whose release lacks a version that is applied in this state, or has another checksum for
one, from then on writes at most the bookkeeping table. -/
def State.Refuses (exec : String → S → S) (σ : State sha256 ι S) : Prop :=
  ∀ (i : ι) (c : Call sha256) (is : List (ι × Event sha256)) (e : Event sha256),
    ¬c.release.Knows σ.db.rows →
      (((migrators exec).final σ is).session i).phase.call? = some c →
        ∃ table, ((migrators exec).step ((migrators exec).final σ is) (i, e)).2.db =
          { ((migrators exec).final σ is).db with table := table }

lemma Inv.atomic (h : Inv exec schema σ) : σ.Atomic exec := by
  intro i a is e ha hne
  have hnow := ha is (List.prefix_refl _)
  have hdb := db_final_of_attempt h ha
  rcases db_step (inv_final h is) i e with hsame | ⟨c, hp, -⟩ | ⟨b, now, hp, rfl, -⟩
  · exact hsame.trans hdb
  · rw [hp] at hnow
    cases hnow
  · rw [hp] at hnow
    obtain rfl : b = a := Option.some.inj hnow
    exact absurd ⟨⟨now, rfl⟩, hp⟩ hne

lemma Inv.refuses (h : Inv exec schema σ) : σ.Refuses exec := by
  intro i c is e hno hcall
  have hinv := inv_final h is
  rcases db_step hinv i e with hsame | ⟨c', -, htable⟩ | ⟨a, now, hp, -⟩
  · exact ⟨_, hsame⟩
  · exact ⟨_, htable⟩
  · -- a call that commits a migration knows the rows
    rw [hp] at hcall
    obtain rfl : a.call = c := Option.some.inj hcall
    have hknows := ((hinv.fits i).attempt a (hp ▸ rfl)).knows
    exact absurd (hknows.mono (rows_prefix_final h is).subset) hno

/-- In every run of migrators, the database holds the first migrations, each applied once and in
order; a migration that is not committed leaves it as it was; and a call that does not know what is
applied writes nothing but the bookkeeping table. -/
theorem migrators_sound (exec : String → S → S) (schema : S) (is : List (ι × Event sha256)) :
    (∃ ran, Applied sha256 exec schema
        ((migrators exec).final (State.initial sha256 ι schema) is).db ran) ∧
      ((migrators exec).final (State.initial sha256 ι schema) is).Atomic exec ∧
      ((migrators exec).final (State.initial sha256 ι schema) is).Refuses exec :=
  have hinv := inv_final (inv_initial exec schema) is
  ⟨hinv.applied, hinv.atomic, hinv.refuses⟩

end

/-! ### A sample -/

/-- A release of two migrations. -/
def sampleRelease : Release fun sql => sql where
  migrations := [⟨1, "cases", "create cases", "sha256:create cases"⟩,
    ⟨2, "jobs", "create jobs", "sha256:create jobs"⟩]
  contiguous := rfl
  checksum_eq := by decide

/-- Two sessions call; the script of the second migration fails in the first session, which ends,
and the second session runs it. -/
def sampleRun : List (Bool × Event fun sql => sql) :=
  [(false, .start ⟨sampleRelease, none⟩), (true, .start ⟨sampleRelease, none⟩)] ++
    List.replicate 7 (false, .go "t") ++ [(true, .go "t"), (false, .fail "timeout"), (false, .close)] ++
    List.replicate 7 (true, .go "t")

example :
    ((migrators fun sql s => s ++ [sql]).final
      (State.initial (fun sql => sql) Bool ([] : List String)) sampleRun).db =
      ⟨true, [⟨1, "cases", "sha256:create cases", "t"⟩, ⟨2, "jobs", "sha256:create jobs", "t"⟩],
        ["create cases", "create jobs"]⟩ := by
  rfl

end Migrations

end Afterlock
