import Afterlock.Json
import Afterlock.Lib.Search

/-!
# The environment of the reference checker

The reference checker reads the raw document itself and keeps the environment as a tuple of frozen
sets of tuples.  A frozen set is a list without repetition, whose order nothing depends on.  A
computation that raises an exception is `none`; a field of a type that no accepted document has is
read as one that raises.
-/

namespace Afterlock.Reference

/-- `frozenset(xs)`. -/
def frozenset {α : Type} [DecidableEq α] (xs : List α) : List α := xs.dedup

/-! ### Reading fields -/

/-- `m[key]`, a string. -/
def str? (m : Json.Fields) (key : String) : Option String := (m.lookup key).bind Json.asStr?

/-- `m[key]`, an integer. -/
def int? (m : Json.Fields) (key : String) : Option ℤ :=
  match m.lookup key with
  | some (.int n) => some n
  | _ => none

/-- `m.get(key)`, a string or nothing. -/
def optStr? (m : Json.Fields) (key : String) : Option (Option String) :=
  match Json.get m key with
  | .null => some none
  | .str s => some (some s)
  | _ => none

/-- `int(m.get(key) or 0)`. -/
def intOrZero? (m : Json.Fields) (key : String) : Option ℤ :=
  match Json.get m key with
  | .null => some 0
  | .int n => some n
  | _ => none

/-- `m.get(key, [])`, to be iterated over. A `null` in the place of a list raises. -/
def entries? (m : Json.Fields) (key : String) : Option (List Json) :=
  match m.lookup key with
  | none => some []
  | some (.arr xs) => some xs
  | some _ => none

def strings? (m : Json.Fields) (key : String) : Option (List String) := do
  (← entries? m key).mapM Json.asStr?

def obj? : Json → Option Json.Fields
  | .obj m => some m
  | _ => none

/-! ### The environment -/

structure PodTuple where
  uid : String
  ns : String
  name : String
  sa : String
  auds : List String
  ctrl : Option String
deriving DecidableEq, Repr

structure CtrlTuple where
  uid : String
  ns : String
  name : String
  sa : String
  auds : List String
deriving DecidableEq, Repr

/-- `old` are the superseded versions that the service honours until a deadline. -/
structure ServiceTuple where
  name : String
  srcNs : String
  srcName : String
  accepted : ℤ
  delay : ℤ
  old : Finset (ℤ × ℤ)
deriving DecidableEq

/-- `env`. Service accounts are (namespace, name, uid), Secrets (namespace, name, version), and the
bodies of the bindings are kept apart. -/
structure EnvTuple where
  time : ℤ
  sas : List (String × String × String)
  pods : List PodTuple
  ctrls : List CtrlTuple
  bindings : List (Option String × String)
  secrets : List (String × String × ℤ)
  services : List ServiceTuple
  counters : List (String × ℤ)

def saTuple? (raw : Json) : Option (String × String × String) := do
  let s ← obj? raw
  pure (← str? s "namespace", ← str? s "name", ← str? s "uid")

def podTuple? (raw : Json) : Option PodTuple := do
  let p ← obj? raw
  pure { uid := ← str? p "uid", ns := ← str? p "namespace", name := ← str? p "name",
         sa := ← str? p "service_account", auds := ← strings? p "token_audiences",
         ctrl := ← optStr? p "controller_uid" }

def ctrlTuple? (raw : Json) : Option CtrlTuple := do
  let c ← obj? raw
  pure { uid := ← str? c "uid", ns := ← str? c "namespace", name := ← str? c "name",
         sa := ← str? c "service_account", auds := ← strings? c "token_audiences" }

def bindingKey? (raw : Json) : Option (Option String × String) := do
  let b ← obj? raw
  pure (← optStr? b "namespace", ← str? b "name")

def secretTuple? (raw : Json) : Option (String × String × ℤ) := do
  let s ← obj? raw
  pure (← str? s "namespace", ← str? s "name", ← int? s "version")

def serviceTuple? (raw : Json) : Option ServiceTuple := do
  let s ← obj? raw
  pure { name := ← str? s "name", srcNs := ← str? s "source_namespace",
         srcName := ← str? s "source_secret", accepted := ← int? s "accepted_version",
         delay := ← intOrZero? s "rotation_propagation_seconds", old := ∅ }

/-- `_env0`. -/
def env0 (inv : Json.Fields) (t : ℤ) : Option EnvTuple := do
  pure { time := t
         sas := frozenset (← (← entries? inv "service_accounts").mapM saTuple?)
         pods := frozenset (← (← entries? inv "pods").mapM podTuple?)
         ctrls := frozenset (← (← entries? inv "controllers").mapM ctrlTuple?)
         bindings := frozenset (← (← entries? inv "bindings").mapM bindingKey?)
         secrets := frozenset (← (← entries? inv "secrets").mapM secretTuple?)
         services := frozenset (← (← entries? inv "services").mapM serviceTuple?)
         counters := [] }

/-! ### Reconciliation and defender actions -/

/-- The order of the controllers: that of the tuples. -/
def CtrlTuple.key (c : CtrlTuple) : List (List String) := [[c.uid], [c.ns], [c.name], [c.sa], c.auds]

/-- The number a controller is at. -/
def count (counters : List (String × ℤ)) (cuid : String) : ℤ := (counters.lookup cuid).getD 0

/-- `cnt[cuid] = k`. -/
def setCount (counters : List (String × ℤ)) (cuid : String) (k : ℤ) : List (String × ℤ) :=
  (cuid, k) :: counters.filter fun e => e.1 != cuid

/-- `f"{prefix}-p{k}"`. -/
def numbered (text : String) (k : ℤ) : String := text ++ "-p" ++ Text.ofInt k

/-- One round of the loop of `_reconcile`. -/
def reconcileOne (env : EnvTuple) (c : CtrlTuple) : EnvTuple :=
  if env.pods.any fun p => p.ctrl == some c.uid then env
  else
    let taken := env.pods.map PodTuple.uid
    let k := search (fun j => taken.contains (numbered c.uid j)) taken.length
      (count env.counters c.uid + 1)
    let pod : PodTuple :=
      { uid := numbered c.uid k, ns := c.ns, name := numbered c.name k, sa := c.sa, auds := c.auds,
        ctrl := some c.uid }
    { env with counters := setCount env.counters c.uid k, pods := pod :: env.pods }

/-- `_reconcile`. -/
def reconcile (env : EnvTuple) : EnvTuple :=
  (Text.sortedBy CtrlTuple.key env.ctrls).foldl reconcileOne env

/-- The rotation of a service, in `_defend`. -/
def rotate (env : EnvTuple) (svc : ServiceTuple) : EnvTuple :=
  let cur := env.secrets.filter fun s => s.1 == svc.srcNs && s.2.1 == svc.srcName
  let new := cur.foldl (fun n s => max n s.2.2) svc.accepted + 1
  let rest := env.secrets.filter fun s => !(s.1 == svc.srcNs && s.2.1 == svc.srcName)
  let old :=
    if svc.delay ≠ 0 then insert (svc.accepted, env.time + svc.delay) svc.old else svc.old
  { env with
    secrets := if cur = [] then rest else (svc.srcNs, svc.srcName, new) :: rest
    services := { svc with accepted := new, old := old } :: env.services.filter fun s => s ≠ svc }

/-- `_defend`. -/
def defend (env : EnvTuple) (raw : Json) : Option EnvTuple := do
  let a ← obj? raw
  let k ← str? a "kind"
  if k = "remove_binding" then
    let key := (← optStr? a "namespace", ← str? a "name")
    pure { env with bindings := env.bindings.filter fun b => b ≠ key }
  else if k = "delete_pod" then
    let uid ← str? a "uid"
    pure { env with pods := env.pods.filter fun p => p.uid != uid }
  else if k = "delete_controller" then
    let uid ← str? a "uid"
    pure { env with ctrls := env.ctrls.filter fun c => c.uid != uid
                    pods := env.pods.filter fun p => p.ctrl != some uid }
  else if k = "delete_pods_except" then
    let keep ← strings? a "keep_uids"
    let ns ← str? a "namespace"
    let sa ← str? a "service_account"
    pure { env with pods := env.pods.filter fun p =>
      !(p.ns == ns && p.sa == sa && !keep.contains p.uid) }
  else if k = "delete_controllers_except" then
    let keep ← strings? a "keep_uids"
    let ns ← str? a "namespace"
    let sa ← str? a "service_account"
    let gone := (env.ctrls.filter fun c =>
      c.ns == ns && c.sa == sa && !keep.contains c.uid).map CtrlTuple.uid
    pure { env with ctrls := env.ctrls.filter fun c => !gone.contains c.uid
                    pods := env.pods.filter fun p => !(p.ctrl.any fun c => gone.contains c) }
  else if k = "delete_service_account" then
    let ns ← str? a "namespace"
    let name ← str? a "name"
    pure { env with sas := env.sas.filter fun s => (s.1, s.2.1) ≠ (ns, name) }
  else if k = "rotate_downstream_credential" then
    let name ← str? a "service"
    match env.services.find? fun s => s.name == name with
    | none => pure env
    | some svc => pure (rotate env svc)
  else if k = "wait" then
    pure { env with time := env.time + (← int? a "seconds") }
  else none

/-- `_honours`. -/
def honours (env : EnvTuple) (svc : ServiceTuple) (version : ℤ) : Bool :=
  if svc.accepted = version then true
  else decide (∃ g ∈ svc.old, g.1 = version ∧ env.time < g.2)

end Afterlock.Reference
