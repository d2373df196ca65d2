import Afterlock.Collector.Inventory
import Afterlock.Lib.Machine

/-!
# Lists and watches

`watch.go`: a loop for each kind, or for each kind and namespace, lists the objects of the API
server, watches for changes and records a gap wherever a change may have gone by.

The model has the loops and the API server in one world.  A loop stops at the points where it waits
for an answer, and the answers to the loops come in any order.  `Progress` is not part of the
program: it is what an observer writes down about a loop.
-/

namespace Afterlock

namespace Collector

namespace Watch

open Collector.Inventory Redaction

/-! ### The loops -/

/-- `kindSpec`: a kind, and a namespace or none. -/
structure Scope where
  kind : Kind
  ns : String
deriving DecidableEq, Repr

def Scope.key (s : Scope) : String := Store.syncKey s.kind s.ns

/-- The scopes of the Secrets, one for each namespace. -/
def secretSpecs (namespaces : List String) : List Scope :=
  (if namespaces = [] then [""] else namespaces).dedup.map fun ns => ⟨.secret, ns⟩

/-- `New`, with or without the client for metadata. -/
def newSpecs (metadata : Bool) (secretNamespaces : List String) : List Scope :=
  ([.pod, .serviceAccount, .role, .clusterRole, .roleBinding, .clusterRoleBinding,
    .admissionPolicy].map fun k => ⟨k, ""⟩) ++
      if metadata then secretSpecs secretNamespaces else []

/-- `unicode.IsSpace`. -/
def isSpace (c : Char) : Bool :=
  (9 ≤ c.toNat && c.toNat ≤ 13) || (0x2000 ≤ c.toNat && c.toNat ≤ 0x200a) ||
    [0x20, 0x85, 0xa0, 0x1680, 0x2028, 0x2029, 0x202f, 0x205f, 0x3000].contains c.toNat

/-- `strings.TrimSpace`. -/
def trimSpace (s : String) : String :=
  String.ofList ((s.toList.dropWhile isSpace).reverse.dropWhile isSpace).reverse

/-- `splitList`: the values of a flag. -/
def splitList (s : String) : List String :=
  ((Text.splitOn ',' s).map trimSpace).filter (· ≠ "")

/-- An error of the API server or of the connection to it. -/
structure ApiError where
  /-- The reason and the HTTP code of an error with a status. -/
  status : Option (String × ℤ)
  /-- The resource version has expired or is gone. -/
  expired : Bool
deriving DecidableEq, Repr

/-- `reasonOf`. -/
def ApiError.reason (e : ApiError) : String :=
  match e.status with
  | some (reason, code) => reason ++ ", HTTP " ++ Text.ofInt code
  | none => "transport error"

/-- An observation gap. -/
structure Gap where
  kind : String
  reason : String
deriving DecidableEq, Repr

/-- What may interrupt the observation of a scope. -/
inductive Interruption where
  | listFailed (e : ApiError)
  | relisted
  | watchFailed (e : ApiError)
  | watchError (e : ApiError)
  | watchEnded
deriving DecidableEq, Repr

/-- The gap that is recorded of an interruption. -/
def Interruption.gap (s : Scope) : Interruption → Gap
  | listFailed e => ⟨"list-failed", redact ("list of " ++ s.key ++ " failed (" ++ e.reason ++
      "); inventory for this kind is incomplete until a list succeeds")⟩
  | relisted => ⟨"relist", redact (s.kind.text ++ " was relisted; object states between the " ++
      "previous and the new snapshot were not observed")⟩
  | watchFailed e =>
      if e.expired then ⟨"resource-version-expired", redact ("watch of " ++ s.kind.text ++
        " could not resume: resourceVersion expired")⟩
      else ⟨"watch-failed", redact ("watch of " ++ s.kind.text ++
        " could not be established (" ++ e.reason ++ ")")⟩
  | watchError e =>
      if e.expired then ⟨"resource-version-expired", redact ("watch of " ++ s.kind.text ++
        ": resourceVersion expired (410); relisting")⟩
      else ⟨"watch-error", redact ("watch of " ++ s.kind.text ++ " reported an error (" ++
        e.reason ++ "); relisting")⟩
  | watchEnded => ⟨"watch-restarted", redact ("watch of " ++ s.kind.text ++
      " ended and was restarted from the last observed resourceVersion; " ++
      "events during the reconnect may be missing")⟩

/-- An event of a watch. -/
inductive Event where
  | added (o : Object)
  | modified (o : Object)
  | deleted (o : Object)
  | bookmark (rv : String)
  | error (e : ApiError)
deriving DecidableEq, Repr

/-- What a loop waits for. -/
inductive Answer where
  | listed (objs : List Object) (rv : String)
  | listFailed (e : ApiError)
  | watching
  | watchFailed (e : ApiError)
  | event (ev : Event)
  /-- The channel of the watch is closed. -/
  | closed
  /-- The context is done. -/
  | done
deriving DecidableEq, Repr

/-- Where a loop stands: before a list, before a watch, in `consume`, or behind its end. -/
inductive Pc where
  | listing
  | watching (rv : String)
  | consuming (rv : String)
  | stopped
deriving DecidableEq, Repr

/-- The local state of `loop`. -/
structure Loop where
  first : Bool
  pc : Pc
deriving DecidableEq, Repr

def Loop.initial : Loop := ⟨true, .listing⟩

/-- `rvOf`. -/
def rvOf (o : Object) (fallback : String) : String :=
  if o.meta.resourceVersion ≠ "" then o.meta.resourceVersion else fallback

/-- An object that was added or modified is stored if it is converted. -/
def upsertObject (k : Kind) (store : Store) (o : Object) : Store :=
  match convert k o with
  | some (uid, item) => store.upsert k uid item
  | none => store

/-- The body of `consume` for an event that is no error. -/
def handle (s : Scope) (rv : String) (store : Store) : Event → String × Store
  | .bookmark rv' => (rv', store)
  | .added o => (rvOf o rv, upsertObject s.kind store o)
  | .modified o => (rvOf o rv, upsertObject s.kind store o)
  | .deleted o => (rvOf o rv, store.delete s.kind o.uid)
  | .error _ => (rv, store)

/-- The map of the objects of a list. -/
def converted (k : Kind) (objs : List Object) : Objects := Table.ofList (objs.filterMap (convert k))

/-- `loop`, `watchUntilExpired` and `consume` from one answer to the next.  `ctxDone` is whether the
context is done by then. -/
def Loop.next (s : Scope) (ctxDone : Bool) (l : Loop) (store : Store) (a : Answer) :
    Loop × Store × List Gap :=
  match l.pc, a with
  | _, .done => ({ l with pc := .stopped }, store, [])
  | .listing, .listFailed e =>
      if ctxDone then ({ l with pc := .stopped }, store, [])
      else (l, store, [Interruption.gap s (.listFailed e)])
  | .listing, .listed objs rv =>
      ({ first := false, pc := if ctxDone then .stopped else .watching rv },
        store.replaceIn s.kind s.ns (converted s.kind objs),
        if l.first then [] else [Interruption.gap s .relisted])
  | .watching rv, .watching => ({ l with pc := .consuming rv }, store, [])
  | .watching _, .watchFailed e =>
      if ctxDone then ({ l with pc := .stopped }, store, [])
      else ({ l with pc := .listing }, store, [Interruption.gap s (.watchFailed e)])
  | .consuming rv, .closed =>
      if ctxDone then ({ l with pc := .stopped }, store, [])
      else ({ l with pc := .watching rv }, store, [Interruption.gap s .watchEnded])
  | .consuming _, .event (.error e) =>
      ({ l with pc := if ctxDone then .stopped else .listing }, store,
        [Interruption.gap s (.watchError e)])
  | .consuming rv, .event ev =>
      ({ l with pc := .consuming (handle s rv store ev).1 }, (handle s rv store ev).2, [])
  | _, _ => (l, store, [])

/-! ### The API server -/

/-- A change of an object of the API server. -/
inductive Change where
  | added (o : Object)
  | modified (o : Object)
  | deleted (o : Object)
deriving DecidableEq, Repr

namespace Change

def object : Change → Object
  | added o => o
  | modified o => o
  | deleted o => o

def event : Change → Event
  | added o => .added o
  | modified o => .modified o
  | deleted o => .deleted o

/-- Whether the object is there after the change. -/
def keeps : Change → Bool
  | deleted _ => false
  | _ => true

def apply (t : Table Object.uid) (c : Change) : Table Object.uid :=
  if c.keeps then t.put c.object else t.erase c.object.uid

end Change

/-- The objects after some changes. -/
def objectsAfter (log : List Change) : Table Object.uid := log.foldl Change.apply ∅

/-- The object is in the scope. -/
def Scope.covers (s : Scope) (o : Object) : Bool := s.ns == "" || o.ns == s.ns

/-- The value is in the scope. -/
def Scope.holds (s : Scope) (item : Item) : Bool := s.ns == "" || item.ns == s.ns

/-- The changes in the scope from the `a`-th to the `b`-th. -/
def between (s : Scope) (log : List Change) (a b : ℕ) : List Change :=
  ((log.take b).drop a).filter fun c => s.covers c.object

/-- What is kept of the objects in the scope after `n` changes. -/
def Stored (s : Scope) (log : List Change) (n : ℕ) (uid : String) (item : Item) : Prop :=
  ∃ o ∈ objectsAfter (log.take n), s.covers o = true ∧ convert s.kind o = some (uid, item)

/-- What the API server keeps to: namespaces are DNS labels, or empty; objects with one UID are one
object, which does not move, and is converted at all times or never; and `pos` tells from the
resource version of a change which one it is. -/
structure Sound (pos : String → ℕ) (k : Kind) (log : List Change) : Prop where
  namespaces : ∀ c ∈ log, (∀ x ∈ c.object.ns.toList, labelChar x = true) ∧
    c.object.ns.toList.length ≤ 63
  lifetimes : ∀ c ∈ log, ∀ d ∈ log, c.object.uid = d.object.uid →
    c.object.ns = d.object.ns ∧ (convert k c.object).isSome = (convert k d.object).isSome
  versions : ∀ (j : ℕ) (c : Change), log[j]? = some c →
    c.object.meta.resourceVersion ≠ "" ∧ pos c.object.meta.resourceVersion = j + 1

/-- What the API server may do for a scope. -/
inductive Reply where
  /-- The objects after `n` changes. -/
  | listed (n : ℕ) (rv : String)
  | listFailed (e : ApiError)
  | watching
  | watchFailed (e : ApiError)
  /-- The event of the change `j`. -/
  | change (j : ℕ)
  | bookmark (rv : String)
  | error (e : ApiError)
  | closed
  | done
deriving DecidableEq, Repr

/-- What a loop sees of a reply. -/
def Reply.answer (s : Scope) (log : List Change) : Reply → Answer
  | listed n rv => .listed ((objectsAfter (log.take n)).rows.filter s.covers) rv
  | listFailed e => .listFailed e
  | watching => .watching
  | watchFailed e => .watchFailed e
  | change j =>
      match log[j]? with
      | some c => .event c.event
      | none => .closed
  | bookmark rv => .event (.bookmark rv)
  | error e => .event (.error e)
  | closed => .closed
  | done => .done

/-! ### What an observer writes down -/

/-- Of a scope: the number of changes before its last list, the number before the last list or event
that was processed, the changes whose events were processed since the last list, and the number of
changes that the present watch has gone past. -/
structure Progress where
  base : ℕ
  seen : Option ℕ
  applied : List Change
  stream : ℕ
deriving DecidableEq, Repr

def Progress.initial : Progress := ⟨0, none, [], 0⟩

def Progress.next (pos : String → ℕ) (log : List Change) (l : Loop) (p : Progress) :
    Reply → Progress
  | .listed n _ => { p with base := n, seen := some n, applied := [] }
  | .watching =>
      match l.pc with
      | .watching rv => { p with stream := pos rv }
      | _ => p
  | .change j =>
      { p with seen := some (j + 1), applied := p.applied ++ log[j]?.toList, stream := j + 1 }
  | .bookmark rv => { p with stream := pos rv }
  | _ => p

/-- The reply interrupts the observation: a list or a watch fails, a watch ends, or there is a list
after the first one.  While the context is done, failures and ends are the collector's own. -/
def Progress.interruption? (ctxDone : Bool) (p : Progress) : Reply → Option Interruption
  | .listFailed e => if ctxDone then none else some (.listFailed e)
  | .listed _ _ => if p.seen.isSome then some .relisted else none
  | .watchFailed e => if ctxDone then none else some (.watchFailed e)
  | .error e => some (.watchError e)
  | .closed => if ctxDone then none else some .watchEnded
  | _ => none

/-- The API server gives the reply to a loop: a list has the objects at its resource version, and a
watch delivers every later change in the scope, in order. -/
def Serves (pos : String → ℕ) (ctxDone : Bool) (s : Scope) (log : List Change) (l : Loop)
    (p : Progress) : Reply → Prop
  | .listed n rv => l.pc = .listing ∧ n ≤ log.length ∧ pos rv = n
  | .listFailed _ => l.pc = .listing
  | .watching => ∃ rv, l.pc = .watching rv
  | .watchFailed _ => ∃ rv, l.pc = .watching rv
  | .change j => (∃ rv, l.pc = .consuming rv) ∧ p.stream ≤ j ∧
      between s log p.stream j = [] ∧ ∃ c, log[j]? = some c ∧ s.covers c.object = true
  | .bookmark rv => (∃ rv', l.pc = .consuming rv') ∧ p.stream ≤ pos rv ∧ pos rv ≤ log.length ∧
      between s log p.stream (pos rv) = []
  | .error _ => ∃ rv, l.pc = .consuming rv
  | .closed => ∃ rv, l.pc = .consuming rv
  | .done => ctxDone = true

/-! ### The world -/

structure World where
  /-- The changes of the objects of a kind so far. -/
  log : Kind → List Change
  store : Store
  gaps : List Gap
  loop : Scope → Loop
  ctxDone : Bool
  progress : Scope → Progress
  interruptions : List (Scope × Interruption)

def World.initial : World where
  log := fun _ => []
  store := Store.new
  gaps := []
  loop := fun _ => Loop.initial
  ctxDone := false
  progress := fun _ => Progress.initial
  interruptions := []

inductive Input where
  | change (k : Kind) (c : Change)
  | reply (s : Scope) (r : Reply)
  | cancel
deriving DecidableEq, Repr

/-- What happens at an input. -/
def World.next (pos : Kind → String → ℕ) (w : World) : Input → World
  | .change k c => { w with log := Function.update w.log k (w.log k ++ [c]) }
  | .cancel => { w with ctxDone := true }
  | .reply s r =>
      let log := w.log s.kind
      let (l, store, gaps) := (w.loop s).next s w.ctxDone w.store (r.answer s log)
      { w with
        store := store
        gaps := w.gaps ++ gaps
        loop := Function.update w.loop s l
        progress := Function.update w.progress s
          ((w.progress s).next (pos s.kind) log (w.loop s) r)
        interruptions := w.interruptions ++
          (((w.progress s).interruption? w.ctxDone r).map fun i => (s, i)).toList }

/-- The collector and the API server. -/
def machine (pos : Kind → String → ℕ) : Machine World Input Unit := ⟨fun w i => ((), w.next pos i)⟩

/-- The API server keeps to what it promises. -/
def May (pos : Kind → String → ℕ) (specs : List Scope) (w : World) : Input → Prop
  | .change k c => Sound (pos k) k (w.log k ++ [c])
  | .reply s r => s ∈ specs ∧
      Serves (pos s.kind) w.ctxDone s (w.log s.kind) (w.loop s) (w.progress s) r
  | .cancel => True

end Watch

end Collector

end Afterlock
