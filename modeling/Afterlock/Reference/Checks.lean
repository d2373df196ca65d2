import Afterlock.Reference.Lockstep
import Afterlock.Reference.Static

/-!
# Requests are decided alike

The engine decides a request on the parsed roles and bindings, the reference checker on dictionaries
of the raw ones.  The same bindings grant it (`Knows.granting`), unless a binding has `null` for its
subjects.
-/

namespace Afterlock.Reference

open Parse

/-! ### Dictionaries -/

section

variable {κ V : Type} [BEq κ] [LawfulBEq κ]

lemma lookup_of_mem {es : List (κ × V)} (hn : (es.map Prod.fst).Nodup) {k : κ} {v : V}
    (h : (k, v) ∈ es) : es.lookup k = some v := by
  induction es with
  | nil => cases h
  | cons e es ih =>
      rw [List.map_cons, List.nodup_cons] at hn
      rcases List.mem_cons.1 h with rfl | h
      · simp
      · have hne : k ≠ e.1 := fun he => hn.1 (List.mem_map.2 ⟨(k, v), h, he⟩)
        rw [List.lookup_cons, show (k == e.1) = false by simpa using hne]
        exact ih hn.2 h

lemma lookup_eq_none {es : List (κ × V)} {k : κ} (h : ∀ e ∈ es, e.1 ≠ k) : es.lookup k = none := by
  induction es with
  | nil => rfl
  | cons e es ih =>
      rw [List.lookup_cons, show (k == e.1) = false by
        simpa using (h e List.mem_cons_self).symm]
      exact ih fun f hf => h f (List.mem_cons_of_mem _ hf)

/-- A dictionary read from entries that the parser accepts, under keys that are distinct. -/
lemma dict_of_mapM {α : Type} {parse : Json → Parsed α} (read : Json → Option (κ × V))
    {key : α → κ} {xs : List Json} {ys : List α} (h : xs.mapM parse = .ok ys)
    (hn : (ys.map key).Nodup)
    (hread : ∀ x ∈ xs, ∀ y, parse x = .ok y → ∃ v, read x = some (key y, v)) :
    ∃ es, xs.mapM read = some es ∧
      (∀ x ∈ xs, ∀ k v, read x = some (k, v) → es.reverse.lookup k = some v) ∧
      ∀ k, (∀ y ∈ ys, key y ≠ k) → es.reverse.lookup k = none := by
  -- the entries are read one by one; that their keys are unique matters only for the lookup
  have hes : ∃ es, xs.mapM read = some es ∧ es.map Prod.fst = ys.map key ∧
      ∀ x ∈ xs, ∀ e, read x = some e → e ∈ es := by
    clear hn
    induction xs generalizing ys with
    | nil =>
        rw [List.mapM_nil, pure_eq_ok] at h
        subst h
        exact ⟨[], rfl, rfl, by simp⟩
    | cons x xs ih =>
        rw [List.mapM_cons, bind_eq_ok] at h
        obtain ⟨y, hy, h⟩ := h
        obtain ⟨zs, hzs, h⟩ := bind_eq_ok.1 h
        rw [pure_eq_ok] at h
        subst h
        obtain ⟨v, hv⟩ := hread x List.mem_cons_self y hy
        obtain ⟨es, hes, hkeys, hmem⟩ := ih hzs fun z hz => hread z (List.mem_cons_of_mem _ hz)
        refine ⟨(key y, v) :: es, ?_, by simp [hkeys], fun z hz e he => ?_⟩
        · rw [List.mapM_cons, hv, hes]
          rfl
        · rcases List.mem_cons.1 hz with rfl | hz
          · rw [Option.some.inj (he.symm.trans hv)]
            exact List.mem_cons_self
          · exact List.mem_cons_of_mem _ (hmem z hz e he)
  obtain ⟨es, hes, hkeys, hmem⟩ := hes
  refine ⟨es, hes, fun x hx k v hread => ?_, fun k hk => ?_⟩
  · refine lookup_of_mem ?_ (List.mem_reverse.2 (hmem x hx _ hread))
    rw [List.map_reverse, List.nodup_reverse, hkeys]
    exact hn
  · refine lookup_eq_none fun e he hek => ?_
    have hmem : e.1 ∈ ys.map key := hkeys ▸ List.mem_map.2 ⟨e, List.mem_reverse.1 he, rfl⟩
    obtain ⟨y, hy, he'⟩ := List.mem_map.1 hmem
    exact hk y hy (he'.trans hek)

end

/-! ### Rules and subjects -/

section

variable {raw : Json} {loc : String}

lemma saOf_eq (username : String) : saOf username = parseSaUsername username := rfl

lemma nullAt_of_strs {m : Json.Fields} {key : String} {xs : List String}
    (h : strs (Json.get m key) loc = .ok xs) (hne : xs ≠ []) : nullAt m key = false := by
  by_contra hn
  rw [Bool.not_eq_false, nullAt] at hn
  refine hne ?_
  cases hl : m.lookup key with
  | none => simp [hl] at hn
  | some v =>
      cases v <;> simp only [hl, Bool.false_eq_true] at hn
      rw [Json.get, hl] at h
      exact (Except.ok.inj h).symm

lemma nullAt_of_get {m : Json.Fields} {key : String} (h : Json.get m key ≠ .null) :
    nullAt m key = false := by
  by_contra hn
  rw [Bool.not_eq_false, nullAt] at hn
  cases hl : m.lookup key with
  | none => simp [hl] at hn
  | some v =>
      cases v <;> simp only [hl, Bool.false_eq_true] at hn
      exact h (Json.get_eq_of_lookup hl)

/-- The names of a rule; both take `null` for no restriction. -/
lemma ruleAllows_eq {r : PolicyRule} (h : rule loc raw = .ok r) (verb resource : String)
    (name : Option String) :
    ruleAllows raw verb resource name = some (r.allows verb resource name) := by
  unfold rule at h
  obtain ⟨m, hm, h⟩ := bind_eq_ok.1 h
  obtain ⟨verbs, hverbs, h⟩ := bind_eq_ok.1 h
  obtain ⟨resources, hres, h⟩ := bind_eq_ok.1 h
  obtain ⟨_, hne, h⟩ := bind_eq_ok.1 h
  rw [rejectIf_eq_ok] at hne
  have hv : verbs ≠ [] := fun he => hne (by simp [he])
  have hr : resources ≠ [] := fun he => hne (by simp [he])
  rw [obj_eq_ok hm]
  unfold ruleAllows
  simp only [obj?, strings?_of_strs hverbs (nullAt_of_strs hverbs hv),
    strings?_of_strs hres (nullAt_of_strs hres hr), Option.bind_eq_bind, Option.bind_some,
    Bool.not_or]
  -- without resource names a rule is about every name
  have hnames : Json.get m "resource_names" = .null ∧ r = ⟨verbs, resources, none⟩ ∨
      Json.get m "resource_names" ≠ .null ∧ ∃ names,
        strings? m "resource_names" = some names ∧ r = ⟨verbs, resources, some names⟩ := by
    cases hg : Json.get m "resource_names" with
    | null =>
        rw [hg] at h
        exact Or.inl ⟨rfl, (pure_eq_ok.1 h).symm⟩
    | _ =>
        rw [hg] at h
        obtain ⟨names, hnames, h⟩ := bind_eq_ok.1 h
        rw [← hg] at hnames
        refine Or.inr ⟨by simp, names, ?_, (pure_eq_ok.1 h).symm⟩
        exact strings?_of_strs hnames (nullAt_of_get (by simp [hg]))
  have hverbs' : r.verbs = verbs := by rcases hnames with ⟨-, rfl⟩ | ⟨-, names, -, rfl⟩ <;> rfl
  have hres' : r.resources = resources := by
    rcases hnames with ⟨-, rfl⟩ | ⟨-, names, -, rfl⟩ <;> rfl
  unfold PolicyRule.allows
  rw [hverbs', hres']
  by_cases h1 : (!verbs.contains "*" && !verbs.contains verb) = true
  · rw [if_pos h1, if_pos h1]
    rfl
  · rw [if_neg h1, if_neg h1]
    by_cases h2 : (!resources.contains "*" && !resources.contains resource) = true
    · rw [if_pos h2, if_pos h2]
      rfl
    · rw [if_neg h2, if_neg h2]
      rcases hnames with ⟨hg, rfl⟩ | ⟨hg, names, hstr, rfl⟩
      · rw [hg]
        rfl
      · rw [hstr]
        cases hj : Json.get m "resource_names" with
        | null => exact absurd hj hg
        | _ => cases name <;> rfl

lemma subjectKind_eq_ok {text : String} {k : SubjectKind} (h : subjectKind text = .ok k) :
    text = match k with
      | .serviceAccount => "ServiceAccount"
      | .user => "User"
      | .group => "Group" := by
  unfold subjectKind at h
  split_ifs at h with h1 h2 h3
  · obtain rfl := Except.ok.inj h
    exact h1
  · obtain rfl := Except.ok.inj h
    exact h2
  · obtain rfl := Except.ok.inj h
    exact h3
  · simp at h

lemma subjectOk_eq {s : Subject} (h : subject raw = .ok s) (user : String) :
    subjectOk user (saOf user) raw = some (subjectMatches s user) := by
  simp only [subject, bind_eq_ok, pure_eq_ok] at h
  obtain ⟨m, hm, text, htext, k, hk, ns, hns, _, -, name, hname, rfl⟩ := h
  rw [obj_eq_ok hm, saOf_eq]
  simp only [subjectOk, obj?, str?_of_reqStr htext, str?_of_reqStr hname, optStr?_of_optStr hns,
    Option.bind_eq_bind, Option.bind_some, subjectKind_eq_ok hk, subjectMatches]
  refine congrArg some ?_
  cases k <;> simp

/-! ### Roles and bindings -/

/-- What the static part keeps of a role. -/
def RulesOf (r : Role) : Option (List Json) → Prop
  | none => r.rules = []
  | some xs => xs.mapM (rule "inventory.roles.rules") = .ok r.rules

lemma roleItem?_eq {r : Role} (h : role raw = .ok r) :
    ∃ rules, roleItem? raw = some (r.key, rules) ∧ RulesOf r rules := by
  simp only [role, bind_eq_ok, pure_eq_ok] at h
  obtain ⟨m, hm, xs, hxs, rs, hrs, ns, hns, name, hname, rfl⟩ := h
  rw [obj_eq_ok hm]
  simp only [roleItem?, obj?, optStr?_of_optStr hns, str?_of_reqStr hname, Option.bind_eq_bind,
    Option.bind_some]
  suffices hr : ∃ rules, rules? m = some rules ∧ RulesOf ⟨ns, name, rs⟩ rules by
    obtain ⟨rules, hr, hof⟩ := hr
    rw [hr]
    exact ⟨rules, rfl, hof⟩
  unfold Json.get at hxs
  unfold rules?
  cases hl : m.lookup "rules" with
  | none =>
      rw [hl] at hxs
      obtain rfl := Except.ok.inj hxs
      exact ⟨some [], rfl, hrs⟩
  | some v =>
      rw [hl] at hxs
      cases v with
      | null =>
          obtain rfl := Except.ok.inj hxs
          exact ⟨none, rfl, (pure_eq_ok.1 hrs).symm⟩
      | arr ys =>
          simp only [Option.getD_some, list] at hxs
          split_ifs at hxs
          · simp at hxs
          · obtain rfl := Except.ok.inj hxs
            exact ⟨some ys, rfl, hrs⟩
      | _ => simp [list] at hxs

lemma bindingItem?_eq {b : RoleBinding} (h : binding raw = .ok b) :
    ∃ v, raw = .obj v ∧ bindingItem? raw = some (b.ident, v) := by
  simp only [binding, bind_eq_ok, pure_eq_ok] at h
  obtain ⟨m, hm, _, -, _, -, ns, hns, _, -, _, -, _, -, name, hname, _, -, rfl⟩ := h
  rw [obj_eq_ok hm]
  refine ⟨m, rfl, ?_⟩
  simp only [bindingItem?, obj?, optStr?_of_optStr hns, str?_of_reqStr hname, Option.bind_eq_bind,
    Option.bind_some]
  rfl

/-- Entries that the parser reads one by one are tested one by one. -/
lemma anyM_of_mapM {α : Type} {parse : Json → Parsed α} {q : Json → Option Bool} {p : α → Bool}
    {xs : List Json} {ys : List α} (h : xs.mapM parse = .ok ys)
    (hq : ∀ x ∈ xs, ∀ y, parse x = .ok y → q x = some (p y)) : xs.anyM q = some (ys.any p) := by
  induction xs generalizing ys with
  | nil =>
      rw [List.mapM_nil, pure_eq_ok] at h
      subst h
      rfl
  | cons x xs ih =>
      rw [List.mapM_cons, bind_eq_ok] at h
      obtain ⟨y, hy, h⟩ := h
      obtain ⟨zs, hzs, h⟩ := bind_eq_ok.1 h
      rw [pure_eq_ok] at h
      subst h
      have ih' := ih hzs fun z hz => hq z (List.mem_cons_of_mem _ hz)
      rw [List.anyM, hq x List.mem_cons_self y hy, List.any_cons]
      cases p y with
      | true => rfl
      | false => exact ih'

/-- The key of the role that a binding of the kind refers to. -/
def roleKey (kind : RoleKind) (ns : Option String) (name : String) : Option String × String :=
  (match kind with | .role => ns | .clusterRole => none, name)

lemma roleKey_eq {text : String} {kind : RoleKind} (h : roleKind text = .ok kind)
    (ns : Option String) (name : String) :
    (if text = "Role" then ns else none, name) = roleKey kind ns name := by
  unfold roleKind at h
  split_ifs at h with h1 h2
  · obtain rfl := Except.ok.inj h
    rw [if_pos h1]
    rfl
  · obtain rfl := Except.ok.inj h
    rw [if_neg h1]
    rfl
  · simp at h

end

/-- The roles and bindings of an inventory, in the static part; `xs` are the raw bindings. -/
structure Knows (st : Static) (xs : List Json) (inv : Inventory) : Prop where
  role : ∀ r ∈ inv.roles, ∃ rules, st.roles.lookup r.key = some rules ∧ RulesOf r rules
  noRole : ∀ k, (∀ r ∈ inv.roles, r.key ≠ k) → st.roles.lookup k = none
  body : ∀ v, .obj v ∈ xs → ∀ b, binding (.obj v) = .ok b →
    st.bindingBody.lookup b.ident = some v
  bound : ∀ b ∈ inv.bindings, ∃ v, .obj v ∈ xs ∧ binding (.obj v) = .ok b
  parsed : ∀ x ∈ xs, ∃ b ∈ inv.bindings, binding x = .ok b

section

variable {st : Static} {env : Env} {r : EnvTuple} {xs : List Json} {inv : Inventory}

/-- Whether the role under a key has a rule for the request. -/
def roleAllows (env : Env) (key : Option String × String) (verb resource : String)
    (name : Option String) : Bool :=
  match env.roles.get? key with
  | none => false
  | some role => role.rules.any fun rule => rule.allows verb resource name

lemma bindingGrants_eq (user verb resource ns : String) (name : Option String) (b : RoleBinding) :
    bindingGrants env user verb resource ns name b =
      ((b.ns.all fun n => n == ns) && (b.subjects.any fun s => subjectMatches s user) &&
        roleAllows env (roleKey b.roleKind b.ns b.roleName) verb resource name) := rfl

lemma Knows.roleAllows (h : Knows st xs inv) (hn : (inv.roles.map Role.key).Nodup)
    (hroles : env.roles = Table.ofList inv.roles) (key : Option String × String)
    (verb resource : String) (name : Option String) :
    ((st.roles.lookup key).join = none ∧
        Reference.roleAllows env key verb resource name = false) ∨
      ∃ rules, (st.roles.lookup key).join = some rules ∧
        (rules.anyM fun r => ruleAllows r verb resource name) =
          some (Reference.roleAllows env key verb resource name) := by
  unfold Reference.roleAllows
  rw [hroles]
  cases hg : (Table.ofList inv.roles : Table Role.key).get? key with
  | none =>
      rw [Table.get?_eq_none_iff] at hg
      rw [h.noRole key fun r hr => hg r ((Table.mem_ofList hn).2 hr)]
      exact Or.inl ⟨rfl, rfl⟩
  | some role =>
      obtain ⟨hr, rfl⟩ := Table.get?_eq_some_iff.1 hg
      obtain ⟨rules, hrules, hof⟩ := h.role role ((Table.mem_ofList hn).1 hr)
      rw [hrules]
      cases rules with
      | none => exact Or.inl ⟨rfl, by simp [show role.rules = [] from hof]⟩
      | some xs =>
          exact Or.inr ⟨xs, rfl, anyM_of_mapM hof fun x _ y hy => ruleAllows_eq hy verb resource name⟩

/-- A binding grants a request in both, unless its subjects are `null`. -/
lemma Knows.grant (h : Knows st xs inv) (hn : (inv.roles.map Role.key).Nodup)
    (hroles : env.roles = Table.ofList inv.roles) {b : RoleBinding} {v : Json.Fields}
    (hv : st.bindingBody.lookup b.ident = some v) (hb : binding (.obj v) = .ok b)
    (hs : nullAt v "subjects" = false) (user verb resource ns : String) (name : Option String) :
    Reference.grant st user verb resource ns name b.ident =
      some (if bindingGrants env user verb resource ns name b then some b.key else none) := by
  simp only [binding, bind_eq_ok, pure_eq_ok] at hb
  obtain ⟨m, hm, text, htext, kind, hkind, bns, hbns, _, -, xs, hxs, subjects, hsubjects, bname,
    hbname, rname, hrname, rfl⟩ := hb
  obtain rfl := Except.ok.inj hm
  unfold Reference.grant
  rw [bindingGrants_eq]
  simp only [hv, optStr?_of_optStr hbns, entries?_of_list hxs hs,
    mapM_of_mapM hsubjects fun _ _ _ hy => subjectOk_eq hy user, str?_of_reqStr htext,
    str?_of_reqStr hrname, str?_of_reqStr hbname, Option.bind_eq_bind, Option.bind_some,
    roleKey_eq hkind, RoleBinding.key, List.any_map, Function.comp_def, id]
  -- a binding of another namespace grants nothing
  by_cases h1 : (bns.any fun n => decide (n ≠ ns)) = true
  · have hall : (bns.all fun n => n == ns) = false := by
      cases bns with
      | none => simp at h1
      | some n => simpa using h1
    rw [if_pos h1, hall]
    rfl
  have hall : (bns.all fun n => n == ns) = true := by
    cases bns with
    | none => rfl
    | some n => simpa using h1
  rw [if_neg h1, hall, Bool.true_and]
  cases subjects.any fun s => subjectMatches s user with
  | false => rfl
  | true =>
      rw [Bool.true_and]
      rcases h.roleAllows hn hroles (roleKey kind bns rname) verb resource name with
        ⟨ho, hr⟩ | ⟨rules, ho, hr⟩
      · rw [ho, hr]
        rfl
      · simp only [ho, hr]
        cases Reference.roleAllows env (roleKey kind bns rname) verb resource name <;> rfl

lemma mapM_map_eq {α β γ : Type} {f : α → Option β} (φ : γ → α) {g : γ → β} {xs : List γ}
    (h : ∀ x ∈ xs, f (φ x) = some (g x)) : (xs.map φ).mapM f = some (xs.map g) := by
  induction xs with
  | nil => rfl
  | cons x xs ih =>
      rw [List.map_cons, List.mapM_cons, h x List.mem_cons_self,
        ih fun y hy => h y (List.mem_cons_of_mem _ hy)]
      rfl

lemma mapM_eq_some_map {α β : Type} {f : α → Option β} {g : α → β} {xs : List α}
    (h : ∀ x ∈ xs, f x = some (g x)) : xs.mapM f = some (xs.map g) := by
  simpa using mapM_map_eq id h

/-- Every element of a list that is read as a whole is read. -/
lemma exists_of_mapM {α β : Type} {f : α → Option β} {xs : List α} {ys : List β}
    (h : xs.mapM f = some ys) {x : α} (hx : x ∈ xs) : ∃ y, f x = some y := by
  induction xs generalizing ys with
  | nil => cases hx
  | cons z xs ih =>
      simp only [List.mapM_cons, Option.bind_eq_bind, Option.bind_eq_some_iff] at h
      obtain ⟨y, hy, zs, hzs, -⟩ := h
      rcases List.mem_cons.1 hx with rfl | hx
      · exact ⟨y, hy⟩
      · exact ih hzs hx

/-- The same bindings grant a request. -/
lemma Knows.granting (h : Knows st xs inv) (hn : (inv.roles.map Role.key).Nodup)
    (hroles : env.roles = Table.ofList inv.roles) (hsub : ∀ b ∈ env.bindings, b ∈ inv.bindings)
    (hs : ∀ v, .obj v ∈ xs → nullAt v "subjects" = false) (hr : Represents env r)
    (user verb resource ns : String) (name : Option String) :
    ∃ ks, Reference.granting st r user verb resource ns name = some ks ∧
      ∀ k, k ∈ ks ↔ k ∈ authorizingBindings env user verb resource ns name := by
  have hgrant : ∀ b ∈ env.bindings, Reference.grant st user verb resource ns name b.ident =
      some (if bindingGrants env user verb resource ns name b then some b.key else none) := by
    intro b hb
    obtain ⟨v, hv, hbind⟩ := h.bound b (hsub b hb)
    exact h.grant hn hroles (h.body v hv b hbind) hbind (hs v hv) user verb resource ns name
  have hall : ∀ key ∈ r.bindings, Reference.grant st user verb resource ns name key =
      some ((Reference.grant st user verb resource ns name key).getD none) := by
    intro key hkey
    obtain ⟨b, hb, rfl⟩ := (hr.bindings key).1 hkey
    rw [hgrant b hb]
    rfl
  unfold Reference.granting
  rw [mapM_eq_some_map hall]
  refine ⟨_, rfl, fun k => ?_⟩
  simp only [List.mem_filterMap, List.mem_map, id, authorizingBindings, List.mem_filter,
    Text.mem_sortedBy]
  constructor
  · rintro ⟨_, ⟨key, hkey, rfl⟩, he⟩
    obtain ⟨b, hb, rfl⟩ := (hr.bindings key).1 hkey
    rw [hgrant b hb, Option.getD_some] at he
    split_ifs at he with hg
    exact ⟨b, ⟨hb, hg⟩, Option.some.inj he⟩
  · rintro ⟨b, ⟨hb, hg⟩, rfl⟩
    refine ⟨_, ⟨b.ident, hr.bindings.mem hb, rfl⟩, ?_⟩
    rw [hgrant b hb, if_pos hg]
    rfl

/-- A binding whose subjects are `null` raises an exception on a request in its namespace. -/
lemma Knows.grant_of_null (h : Knows st xs inv) {v : Json.Fields} (hv : .obj v ∈ xs)
    {b : RoleBinding} (hb : binding (.obj v) = .ok b) (hs : nullAt v "subjects" = true)
    (user verb resource : String) (name : Option String) :
    Reference.grant st user verb resource (b.ns.getD "") name b.ident = none := by
  unfold Reference.grant
  rw [h.body v hv b hb]
  simp only [binding, bind_eq_ok, pure_eq_ok] at hb
  obtain ⟨m, hm, text, htext, kind, hkind, bns, hbns, _, -, _, -, _, -, _, -, _, -, rfl⟩ := hb
  obtain rfl := Except.ok.inj hm
  have hns : ¬(bns.any fun n => decide (n ≠ bns.getD "")) = true := by
    cases bns with
    | none => simp
    | some n => simp
  simp only [optStr?_of_optStr hbns, Option.bind_eq_bind, Option.bind_some]
  rw [if_neg hns, entries?_of_null hs]
  rfl

end

end Afterlock.Reference
