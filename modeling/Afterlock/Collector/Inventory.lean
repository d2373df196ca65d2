import Afterlock.Redaction
import Afterlock.Lib.Table

/-!
# The inventory of the collector

`store.go` and the converters of `watch.go`: what is kept of an object of the API server, and the
store of what is kept, by kind and UID.

The history of Pods seen in a session is in `Correlate`.
-/

namespace Afterlock

namespace Collector

namespace Inventory

open Redaction

/-! ### Objects of the API server -/

/-- The kinds that are watched. -/
inductive Kind where
  | pod | serviceAccount | role | clusterRole | roleBinding | clusterRoleBinding | secret
  | admissionPolicy
deriving DecidableEq, Repr

def Kind.text : Kind → String
  | pod => "pods"
  | serviceAccount => "serviceaccounts"
  | role => "roles"
  | clusterRole => "clusterroles"
  | roleBinding => "rolebindings"
  | clusterRoleBinding => "clusterrolebindings"
  | secret => "secrets"
  | admissionPolicy => "validatingadmissionpolicies"

/-- What is read of the metadata of an object. -/
structure ObjectMeta where
  ns : String
  name : String
  uid : String
  resourceVersion : String
deriving DecidableEq, Repr

/-- `rbacv1.PolicyRule`; a missing list is empty. -/
structure ApiRule where
  verbs : List String
  resources : List String
  resourceNames : List String
deriving DecidableEq, Repr

/-- `rbacv1.RoleRef`. -/
structure RoleRef where
  kind : String
  name : String
deriving DecidableEq, Repr

/-- `rbacv1.Subject`. -/
structure ApiSubject where
  kind : String
  name : String
  ns : String
deriving DecidableEq, Repr

/-- An object as the client decodes it. -/
inductive Object where
  /-- `volumes` has the sources of each volume that is projected, and the audience of each source
  that is a service account token. -/
  | pod (m : ObjectMeta) (created : ℤ) (serviceAccountName : String)
      (volumes : List (Option (List (Option String))))
  /-- An object of which only the metadata is read. -/
  | plain (m : ObjectMeta)
  | role (m : ObjectMeta) (rules : List ApiRule)
  | clusterRole (m : ObjectMeta) (rules : List ApiRule)
  | roleBinding (m : ObjectMeta) (ref : RoleRef) (subjects : List ApiSubject)
  | clusterRoleBinding (m : ObjectMeta) (ref : RoleRef) (subjects : List ApiSubject)
  /-- `metav1.PartialObjectMetadata`. -/
  | partialMetadata (m : ObjectMeta)
deriving DecidableEq, Repr

/-- `meta.Accessor`. -/
def Object.meta : Object → ObjectMeta
  | pod m _ _ _ => m
  | plain m => m
  | role m _ => m
  | clusterRole m _ => m
  | roleBinding m _ _ => m
  | clusterRoleBinding m _ _ => m
  | partialMetadata m => m

def Object.uid (o : Object) : String := o.meta.uid

/-- The namespace; a cluster-scoped object has none. -/
def Object.ns : Object → String
  | clusterRole _ _ => ""
  | clusterRoleBinding _ _ _ => ""
  | o => o.meta.ns

/-! ### What is kept -/

structure Pod where
  ns : String
  name : String
  uid : String
  serviceAccount : String
  audiences : List String
  created : ℤ
deriving DecidableEq, Repr

/-- A namespaced object, or a cluster-scoped one with an empty namespace. -/
structure Named where
  ns : String
  name : String
  uid : String
deriving DecidableEq, Repr

structure Rule where
  verbs : List String
  resources : List String
  resourceNames : List String
deriving DecidableEq, Repr

structure Role extends Named where
  rules : List Rule
  /-- The number of rules without resources, which are not modelled. -/
  skipped : ℕ
deriving DecidableEq, Repr

structure Subject where
  kind : String
  name : String
  ns : String
deriving DecidableEq, Repr

structure Binding extends Named where
  roleKind : String
  roleName : String
  subjects : List Subject
deriving DecidableEq, Repr

structure Secret extends Named where
  resourceVersion : String
deriving DecidableEq, Repr

/-- A value of the store. -/
inductive Item where
  | pod (p : Pod)
  | named (n : Named)
  | role (r : Role)
  | binding (b : Binding)
  | secret (s : Secret)
deriving DecidableEq, Repr

/-- `namespaceOf`. -/
def Item.ns : Item → String
  | pod p => p.ns
  | named n => n.ns
  | role r => r.ns
  | binding b => b.ns
  | secret s => s.ns

/-! ### Converters -/

/-- The audiences of the service account tokens that the volumes project, without repetition. -/
def projectedAudiences (volumes : List (Option (List (Option String)))) : List String :=
  ((volumes.flatMap fun v => v.getD []).filterMap fun src => src.filter (· ≠ "")).dedup

def convertPod : Object → Option (String × Item)
  | .pod m created sa volumes =>
      if m.uid = "" then none
      else some (m.uid, .pod
        { ns := redact m.ns, name := redact m.name, uid := redact m.uid
          serviceAccount := redact (if sa = "" then "default" else sa)
          audiences := Text.sortedBy id ((projectedAudiences volumes).map redact)
          created := created })
  | _ => none

def convertNamed (o : Object) : Option (String × Item) :=
  if o.uid = "" then none
  else some (o.uid, .named ⟨redact o.ns, redact o.meta.name, redact o.uid⟩)

/-- Only metadata is accepted. -/
def convertSecret : Object → Option (String × Item)
  | .partialMetadata m =>
      if m.uid = "" then none
      else some (m.uid, .secret
        { ns := redact m.ns, name := redact m.name, uid := redact m.uid
          resourceVersion := m.resourceVersion })
  | _ => none

def clean (xs : List String) : List String := (xs.filter (· ≠ "")).map redact

/-- A rule without verbs or without resources is not kept. -/
def ApiRule.skipped (r : ApiRule) : Bool := r.verbs.isEmpty || r.resources.isEmpty

def convertRule (r : ApiRule) : Rule where
  verbs := clean r.verbs
  resources := clean r.resources
  resourceNames := clean r.resourceNames

/-- The rules that are kept and the number of the others. -/
def convertRules (rules : List ApiRule) : List Rule × ℕ :=
  ((rules.filter fun r => !r.skipped).map convertRule, (rules.filter ApiRule.skipped).length)

def convertRole (o : Object) : Option (String × Item) :=
  let kept (m : ObjectMeta) (rules : List ApiRule) : Option (String × Item) :=
    if m.uid = "" then none
    else some (m.uid, .role
      { ns := redact o.ns, name := redact m.name, uid := m.uid
        rules := (convertRules rules).1, skipped := (convertRules rules).2 })
  match o with
  | .role m rules => kept m rules
  | .clusterRole m rules => kept m rules
  | _ => none

/-- The subject of a binding of the namespace `ns`; others are not kept. -/
def convertSubject (ns : String) (s : ApiSubject) : Option Subject :=
  if s.kind = "ServiceAccount" then
    let subjectNs := if s.ns = "" then ns else s.ns
    if subjectNs = "" then none else some ⟨"ServiceAccount", redact s.name, redact subjectNs⟩
  else if s.kind = "User" ∨ s.kind = "Group" then some ⟨s.kind, redact s.name, ""⟩
  else none

def convertBinding (o : Object) : Option (String × Item) :=
  let kept (m : ObjectMeta) (ref : RoleRef) (subjects : List ApiSubject) : Option (String × Item) :=
    if m.uid = "" ∨ (ref.kind ≠ "Role" ∧ ref.kind ≠ "ClusterRole") ∨ (o.ns = "" ∧ ref.kind = "Role")
    then none
    else some (m.uid, .binding
      { ns := redact o.ns, name := redact m.name, uid := m.uid, roleKind := ref.kind
        roleName := redact ref.name, subjects := subjects.filterMap (convertSubject o.ns) })
  match o with
  | .roleBinding m ref subjects => kept m ref subjects
  | .clusterRoleBinding m ref subjects => kept m ref subjects
  | _ => none

/-- The converter of a kind. -/
def convert : Kind → Object → Option (String × Item)
  | .pod => convertPod
  | .serviceAccount => convertNamed
  | .role => convertRole
  | .clusterRole => convertRole
  | .roleBinding => convertBinding
  | .clusterRoleBinding => convertBinding
  | .secret => convertSecret
  | .admissionPolicy => convertNamed

/-- What is kept of an object is stored under its UID and has its namespace, as far as that is no
credential material. -/
lemma convert_eq_some {k : Kind} {o : Object} {uid : String} {item : Item}
    (h : convert k o = some (uid, item)) : uid = o.uid ∧ item.ns = redact o.ns := by
  cases k <;> cases o <;>
    simp only [convert, convertPod, convertNamed, convertRole, convertBinding, convertSecret,
      Option.ite_none_left_eq_some, Option.some.injEq, reduceCtorEq] at h <;>
    obtain ⟨-, h⟩ := h <;> cases h <;> exact ⟨rfl, rfl⟩

/-! ### The store -/

/-- The objects of one kind, by UID. -/
abbrev Objects : Type := Table (Prod.fst : String × Item → String)

/-- `secretVersion`, with the UID that it is stored under. -/
structure SecretVersion where
  uid : String
  rv : String
  version : ℕ
deriving DecidableEq, Repr

structure Store where
  objs : Kind → Objects
  versions : Table SecretVersion.uid
  synced : List String

namespace Store

/-- `NewStore`. -/
def new : Store := ⟨fun _ => ∅, ∅, []⟩

/-- `observeLocked`: a Secret gets another version when its resource version is another. -/
def observe (s : Store) (uid : String) : Item → Store
  | .secret v =>
      match s.versions.get? uid with
      | none => { s with versions := s.versions.put ⟨uid, v.resourceVersion, 1⟩ }
      | some prev =>
          if prev.rv ≠ v.resourceVersion then
            { s with versions := s.versions.put ⟨uid, v.resourceVersion, prev.version + 1⟩ }
          else s
  | _ => s

def observeAll (s : Store) (items : List (String × Item)) : Store :=
  items.foldl (fun s x => s.observe x.1 x.2) s

def withObjs (s : Store) (k : Kind) (objs : Objects) : Store :=
  { s with objs := Function.update s.objs k objs }

def upsert (s : Store) (k : Kind) (uid : String) (item : Item) : Store :=
  (s.withObjs k ((s.objs k).put (uid, item))).observe uid item

def delete (s : Store) (k : Kind) (uid : String) : Store := s.withObjs k ((s.objs k).erase uid)

/-- `SyncKey`. -/
def syncKey (k : Kind) (ns : String) : String := if ns = "" then k.text else k.text ++ "/" ++ ns

def replace (s : Store) (k : Kind) (items : Objects) : Store :=
  let s := (s.withObjs k items).observeAll items.rows
  { s with synced := k.text :: s.synced }

def replaceIn (s : Store) (k : Kind) (ns : String) (items : Objects) : Store :=
  if ns = "" then s.replace k items
  else
    let kept := (s.objs k).filter fun x => x.2.ns != ns
    let s := (s.withObjs k (items.rows.foldl Table.put kept)).observeAll items.rows
    { s with synced := syncKey k ns :: s.synced }

@[simp] lemma observe_objs (s : Store) (uid : String) (item : Item) :
    (s.observe uid item).objs = s.objs := by
  cases item with
  | secret v =>
      simp only [observe]
      split
      · rfl
      · split_ifs <;> rfl
  | _ => rfl

@[simp] lemma observeAll_objs (s : Store) (items : List (String × Item)) :
    (s.observeAll items).objs = s.objs := by
  unfold observeAll
  induction items generalizing s with
  | nil => rfl
  | cons x items ih => rw [List.foldl_cons, ih, observe_objs]

@[simp] lemma withObjs_objs (s : Store) (k : Kind) (objs : Objects) :
    (s.withObjs k objs).objs = Function.update s.objs k objs := rfl

lemma upsert_objs (s : Store) (k : Kind) (uid : String) (item : Item) :
    (s.upsert k uid item).objs = Function.update s.objs k ((s.objs k).put (uid, item)) := by
  rw [upsert, observe_objs, withObjs_objs]

lemma delete_objs (s : Store) (k : Kind) (uid : String) :
    (s.delete k uid).objs = Function.update s.objs k ((s.objs k).erase uid) := rfl

/-- A list replaces the objects of its kind and namespace. -/
lemma replaceIn_objs (s : Store) (k : Kind) (ns : String) (items : Objects) :
    (s.replaceIn k ns items).objs = Function.update s.objs k
      (if ns = "" then items
        else items.rows.foldl Table.put ((s.objs k).filter fun x => x.2.ns != ns)) := by
  unfold replaceIn replace
  split_ifs <;> simp

end Store

end Inventory

end Collector

end Afterlock
