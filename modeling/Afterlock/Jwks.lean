import Afterlock.Json
import Afterlock.Lib.Machine

/-!
# The cache of signing keys

`OIDCValidator._key` looks a key up in the set that `_refresh` fetched.  A lookup reads the clock,
may fetch the document once, and reads the clock again when the fetch succeeds.  The cache is a
machine whose inputs are lookups and whose answers say what is returned and what was fetched.

Times are elements of an ordered group, and `PyJWK.from_dict` is a parameter.  A setting may be
infinite besides, since `float` reads `inf`; that it reads `nan` is left out.
-/

namespace Afterlock

namespace Jwks

open Json

/-- A setting in seconds, which may be infinite. -/
abbrev Seconds (T : Type*) : Type _ := WithBot (WithTop T)

/-- The settings that the cache reads. -/
structure OIDCConfig (T : Type*) where
  jwksTtl : Seconds T
  jwksMinRefresh : Seconds T

/-- The part of an `OIDCValidator` that lookups change. -/
structure OIDCValidator (T K : Type*) where
  keys : List (String × K)
  fetchedAt : Option T
  attemptedAt : Option T

/-- A lookup: the key id, the clock when it begins, what a fetch gives (the name of an exception or
a document) and the clock after a fetch. -/
structure Lookup (T : Type*) where
  kid : String
  now : T
  fetch : Except String Json
  later : T

/-- A fetch: when it was made, and the document and the time of a success. -/
structure Attempt (T : Type*) where
  madeAt : T
  fetched : Option (Fields × T)

/-- What a lookup gives: a key or the text of an `OIDCError`, and the fetch that it made. -/
structure Answer (T K : Type*) where
  result : Except String K
  attempt : Option (Attempt T)

variable {T K : Type*}

/-- A length of time, to compare settings with. -/
def seconds (t : T) : Seconds T := ((t : WithTop T) : Seconds T)

lemma seconds_le_iff [LE T] {a b : T} : seconds a ≤ seconds b ↔ a ≤ b := by
  rw [seconds, seconds, WithBot.coe_le_coe, WithTop.coe_le_coe]

/-! ### The document -/

/-- The key id of an entry that is used for signatures and has an allowed key type. -/
def kid? : Json → Option (String × Fields)
  | .obj jwk =>
      if ((get jwk "kty").asStr? = some "RSA" ∨ (get jwk "kty").asStr? = some "EC") ∧
          (has jwk "use" → (get jwk "use").asStr? = some "sig") then
        match get jwk "kid" with
        | .str kid => if kid = "" then none else some (kid, jwk)
        | _ => none
      else none
  | _ => none

/-- The turn of the loop of `_refresh` for an entry; the first entry of the list is the last one
that was put. -/
def addKey (fromDict : Fields → Option K) (keys : List (String × K)) (jwk : Json) :
    List (String × K) :=
  match kid? jwk with
  | none => keys
  | some (kid, m) =>
      match fromDict m with
      | none => keys
      | some key => (kid, key) :: keys

/-- The keys of a document. -/
def keysOf (fromDict : Fields → Option K) (doc : Fields) : List (String × K) :=
  match get doc "keys" with
  | .arr jwks => jwks.foldl (addKey fromDict) []
  | _ => []

/-! ### Lookups -/

/-- The document that a fetch gives; reading the keys of anything else raises an exception. -/
def fetched? : Except String Json → Except String Fields
  | .ok (.obj doc) => .ok doc
  | .ok _ => .error "AttributeError"
  | .error name => .error name

def found (keys : List (String × K)) (kid : String) : Except String K :=
  match keys.lookup kid with
  | some key => .ok key
  | none => .error "unknown signing key"

section

variable [AddCommGroup T] [LinearOrder T]

def stale (cfg : OIDCConfig T) (s : OIDCValidator T K) (now : T) : Bool :=
  match s.fetchedAt with
  | none => true
  | some t => decide (cfg.jwksTtl ≤ seconds (now - t))

def recentlyTried (cfg : OIDCConfig T) (s : OIDCValidator T K) (now : T) : Bool :=
  match s.attemptedAt with
  | none => false
  | some t => decide (seconds (now - t) < cfg.jwksMinRefresh)

/-- Whether a lookup fetches. -/
def tries (cfg : OIDCConfig T) (s : OIDCValidator T K) (l : Lookup T) : Bool :=
  !recentlyTried cfg s l.now && (stale cfg s l.now || (s.keys.lookup l.kid).isNone)

/-- `_key`. -/
def key (cfg : OIDCConfig T) (fromDict : Fields → Option K) (s : OIDCValidator T K)
    (l : Lookup T) : Answer T K × OIDCValidator T K :=
  if tries cfg s l then
    match fetched? l.fetch with
    | .ok doc =>
        (⟨found (keysOf fromDict doc) l.kid, some ⟨l.now, some (doc, l.later)⟩⟩,
          ⟨keysOf fromDict doc, some l.later, some l.now⟩)
    | .error name =>
        -- the previous keys are served, if there are any
        (⟨if s.fetchedAt.isNone then .error ("JWKS unavailable: " ++ name)
            else found s.keys l.kid, some ⟨l.now, none⟩⟩,
          { s with attemptedAt := some l.now })
  else (⟨found s.keys l.kid, none⟩, s)

/-- The cache. -/
def cache (cfg : OIDCConfig T) (fromDict : Fields → Option K) :
    Machine (OIDCValidator T K) (Lookup T) (Answer T K) := ⟨key cfg fromDict⟩

end

/-- The cache before the first lookup. -/
def initial : OIDCValidator T K := ⟨[], none, none⟩

/-! ### What a document offers -/

/-- A document contains a key under an id, with an allowed key type. -/
def Offers (fromDict : Fields → Option K) (doc : Fields) (kid : String) (key : K) : Prop :=
  ∃ jwks jwk, get doc "keys" = .arr jwks ∧ .obj jwk ∈ jwks ∧ get jwk "kid" = .str kid ∧
    (get jwk "kty" = .str "RSA" ∨ get jwk "kty" = .str "EC") ∧ fromDict jwk = some key

lemma kid?_eq_some {jwk : Json} {kid : String} {m : Fields} (h : kid? jwk = some (kid, m)) :
    jwk = .obj m ∧ get m "kid" = .str kid ∧
      (get m "kty" = .str "RSA" ∨ get m "kty" = .str "EC") := by
  cases jwk with
  | obj m' =>
      simp only [kid?] at h
      split_ifs at h with hkty
      split at h
      · next k hk =>
          split_ifs at h
          obtain ⟨rfl, rfl⟩ := Prod.mk.inj (Option.some.inj h)
          simp only [asStr?_eq_some] at hkty
          exact ⟨rfl, hk, hkty.1⟩
      · cases h
  | _ => cases h

lemma mem_foldl_addKey {fromDict : Fields → Option K} {jwks : List Json} {keys : List (String × K)}
    {e : String × K} (h : e ∈ jwks.foldl (addKey fromDict) keys) :
    e ∈ keys ∨ ∃ jwk ∈ jwks, ∃ m, kid? jwk = some (e.1, m) ∧ fromDict m = some e.2 := by
  induction jwks generalizing keys with
  | nil => exact Or.inl h
  | cons jwk jwks ih =>
      rcases ih h with hin | ⟨jwk', hjwk, hm⟩
      · unfold addKey at hin
        split at hin
        · exact Or.inl hin
        · next kid m hk =>
            split at hin
            · exact Or.inl hin
            · next key hkey =>
                rcases List.mem_cons.1 hin with rfl | hin
                · exact Or.inr ⟨jwk, List.mem_cons_self, m, hk, hkey⟩
                · exact Or.inl hin
      · exact Or.inr ⟨jwk', List.mem_cons_of_mem _ hjwk, hm⟩

lemma mem_of_lookup {β : Type*} {es : List (String × β)} {k : String} {v : β}
    (h : es.lookup k = some v) : (k, v) ∈ es := by
  induction es with
  | nil => cases h
  | cons e es ih =>
      rw [List.lookup_cons] at h
      split at h
      · next hk =>
          obtain rfl := Option.some.inj h
          rw [beq_iff_eq] at hk
          exact hk ▸ List.mem_cons_self
      · exact List.mem_cons_of_mem _ (ih h)

/-- A key that is found in the keys of a document is offered by it. -/
lemma offers_of_found {fromDict : Fields → Option K} {doc : Fields} {kid : String} {key : K}
    (h : found (keysOf fromDict doc) kid = .ok key) : Offers fromDict doc kid key := by
  have hmem : (kid, key) ∈ keysOf fromDict doc := by
    unfold found at h
    split at h
    · next k hk =>
        obtain rfl := Except.ok.inj h
        exact mem_of_lookup hk
    · cases h
  unfold keysOf at hmem
  split at hmem
  · next jwks hjwks =>
      rcases mem_foldl_addKey hmem with hin | ⟨jwk, hjwk, m, hk, hkey⟩
      · cases hin
      · obtain ⟨rfl, hkid, hkty⟩ := kid?_eq_some hk
        exact ⟨jwks, m, hjwks, hjwk, hkid, hkty, hkey⟩
  · cases hmem

/-! ### Runs -/

/-- The readings of the clock, in the order in which they are made. -/
def readings (ls : List (Lookup T)) : List T := ls.flatMap fun l => [l.now, l.later]

/-- The successful fetches, with the time at which each ended. -/
def successes (as : List (Attempt T)) : List (Fields × T) := as.filterMap Attempt.fetched

section

variable [AddCommGroup T] [LinearOrder T] (cfg : OIDCConfig T) (fromDict : Fields → Option K)

/-- The cache after some lookups. -/
def after (ls : List (Lookup T)) : OIDCValidator T K := (cache cfg fromDict).final initial ls

/-- The fetches that some lookups make. -/
def attempts (ls : List (Lookup T)) : List (Attempt T) :=
  ((cache cfg fromDict).answers initial ls).filterMap Answer.attempt

variable {cfg fromDict}

lemma after_append (ls : List (Lookup T)) (l : Lookup T) :
    after cfg fromDict (ls ++ [l]) = (key cfg fromDict (after cfg fromDict ls) l).2 :=
  Machine.final_append _ _ _

lemma attempts_append (ls : List (Lookup T)) (l : Lookup T) :
    attempts cfg fromDict (ls ++ [l]) = attempts cfg fromDict ls ++
      (key cfg fromDict (after cfg fromDict ls) l).1.attempt.toList := by
  rw [attempts, Machine.answers_append, List.filterMap_append]
  have hlast : List.filterMap Answer.attempt [(key cfg fromDict (after cfg fromDict ls) l).1] =
      (key cfg fromDict (after cfg fromDict ls) l).1.attempt.toList := by
    cases h : (key cfg fromDict (after cfg fromDict ls) l).1.attempt <;> simp [h]
  exact congrArg _ hlast

/-- What a lookup does: it makes no fetch, or one that succeeds, or one that fails. -/
lemma key_cases (cfg : OIDCConfig T) (fromDict : Fields → Option K) (s : OIDCValidator T K)
    (l : Lookup T) :
    (tries cfg s l = false ∧ key cfg fromDict s l = (⟨found s.keys l.kid, none⟩, s)) ∨
    (tries cfg s l = true ∧ ∃ doc, key cfg fromDict s l =
      (⟨found (keysOf fromDict doc) l.kid, some ⟨l.now, some (doc, l.later)⟩⟩,
        ⟨keysOf fromDict doc, some l.later, some l.now⟩)) ∨
    (tries cfg s l = true ∧ ∃ result, key cfg fromDict s l =
      (⟨result, some ⟨l.now, none⟩⟩, { s with attemptedAt := some l.now }) ∧
      (∀ k, result = .ok k → found s.keys l.kid = .ok k)) := by
  unfold key
  cases htries : tries cfg s l with
  | false => exact Or.inl ⟨rfl, rfl⟩
  | true =>
      refine Or.inr ?_
      rw [if_pos rfl]
      cases fetched? l.fetch with
      | ok doc => exact Or.inl ⟨rfl, doc, rfl⟩
      | error name =>
          refine Or.inr ⟨rfl, _, rfl, fun k hk => ?_⟩
          split_ifs at hk with hn
          · exact hk

/-- The fetch that a lookup makes, if it makes one, is at the time of the lookup. -/
lemma mem_attempts {ls : List (Lookup T)} {a : Attempt T} (h : a ∈ attempts cfg fromDict ls) :
    ∃ l ∈ ls, a.madeAt = l.now ∧ ∀ d ∈ a.fetched, d.2 = l.later := by
  induction ls using List.reverseRecOn with
  | nil => cases h
  | append_singleton ls l ih =>
      rw [attempts_append, List.mem_append] at h
      rcases h with h | h
      · obtain ⟨l', hl', ha⟩ := ih h
        exact ⟨l', List.mem_append_left _ hl', ha⟩
      · refine ⟨l, by simp, ?_⟩
        rcases key_cases cfg fromDict (after cfg fromDict ls) l with ⟨-, hk⟩ | ⟨-, doc, hk⟩ | ⟨-, r, hk, -⟩
        · simp [hk] at h
        · obtain rfl : a = _ := by simpa [hk] using h
          exact ⟨rfl, by simp⟩
        · obtain rfl : a = _ := by simpa [hk] using h
          exact ⟨rfl, by simp⟩

/-- The cache holds the times of the latest fetch and of the latest successful one, and the keys of
the document that the latter gave. -/
structure Records (fromDict : Fields → Option K) (as : List (Attempt T))
    (s : OIDCValidator T K) : Prop where
  attemptedAt : s.attemptedAt = as.getLast?.map Attempt.madeAt
  fetchedAt : s.fetchedAt = (successes as).getLast?.map Prod.snd
  keys : s.keys = ((successes as).getLast?.map fun d => keysOf fromDict d.1).getD []

lemma records_after (cfg : OIDCConfig T) (fromDict : Fields → Option K) (ls : List (Lookup T)) :
    Records fromDict (attempts cfg fromDict ls) (after cfg fromDict ls) := by
  induction ls using List.reverseRecOn with
  | nil => exact ⟨rfl, rfl, rfl⟩
  | append_singleton ls l ih =>
      rw [attempts_append, after_append]
      rcases key_cases cfg fromDict (after cfg fromDict ls) l with ⟨-, hk⟩ | ⟨-, doc, hk⟩ | ⟨-, r, hk, -⟩
      · rw [hk]
        simpa using ih
      · rw [hk]
        constructor <;> simp [successes]
      · rw [hk]
        constructor
        · simp
        · simpa [successes] using ih.fetchedAt
        · simpa [successes] using ih.keys

end

/-! ### The discipline -/

section

/-- With a clock that never goes back, what was read before a lookup is not after it. -/
lemma clock_of_sorted [LinearOrder T] {ls : List (Lookup T)} {l : Lookup T}
    (h : (readings (ls ++ [l])).Pairwise (· ≤ ·)) :
    (readings ls).Pairwise (· ≤ ·) ∧ l.now ≤ l.later ∧
      ∀ l' ∈ ls, l'.now ≤ l'.later ∧ l'.later ≤ l.now := by
  have hsplit : readings (ls ++ [l]) = readings ls ++ [l.now, l.later] := by
    simp [readings]
  rw [hsplit, List.pairwise_append] at h
  obtain ⟨hls, hl, hbefore⟩ := h
  refine ⟨hls, by simpa using hl, fun l' hl' => ?_⟩
  have hmem : l'.later ∈ readings ls := List.mem_flatMap.2 ⟨l', hl', by simp⟩
  refine ⟨?_, hbefore _ hmem _ (by simp)⟩
  have hsub : [l'.now, l'.later].Sublist (readings ls) :=
    List.sublist_flatten_of_mem (List.mem_map.2 ⟨l', hl', rfl⟩)
  simpa using hls.sublist hsub

lemma le_last [LinearOrder T] {as : List (Attempt T)} (h : as.Pairwise fun a b => a.madeAt ≤ b.madeAt)
    {a last : Attempt T} (ha : a ∈ as) (hlast : as.getLast? = some last) :
    a.madeAt ≤ last.madeAt := by
  rw [← List.dropLast_append_getLast? last hlast] at h ha
  rcases List.mem_append.1 ha with ha | ha
  · exact (List.pairwise_append.1 h).2.2 a ha last List.mem_cons_self
  · exact (List.mem_singleton.1 ha) ▸ le_rfl

variable [AddCommGroup T] [LinearOrder T] {cfg : OIDCConfig T} {fromDict : Fields → Option K}

/-- The keys fetched at `t` are served in time, or the latest fetch failed a short time ago. -/
def ServedInTime (cfg : OIDCConfig T) (as : List (Attempt T)) (now t : T) : Prop :=
  seconds (now - t) < max cfg.jwksTtl cfg.jwksMinRefresh ∨
    ∃ a, as.getLast? = some a ∧ a.fetched = none ∧ seconds (now - a.madeAt) < cfg.jwksMinRefresh

/-- The keys of `d` are served in time, as far as the settings are positive: or the lookup has just
tried to fetch others itself, or it has just fetched these. -/
def Served (cfg : OIDCConfig T) (own : Option (Attempt T)) (as : List (Attempt T)) (now : T)
    (d : Fields × T) : Prop :=
  ServedInTime cfg as now d.2 ∨ (∃ a, own = some a ∧ a.fetched = none) ∨
    own = some ⟨now, some d⟩ ∧ max cfg.jwksTtl cfg.jwksMinRefresh ≤ seconds 0

lemma attempt_before {ls : List (Lookup T)} {l : Lookup T}
    (h : (readings (ls ++ [l])).Pairwise (· ≤ ·)) {a : Attempt T}
    (ha : a ∈ attempts cfg fromDict ls) :
    a.madeAt ≤ l.now ∧ ∀ d ∈ a.fetched, a.madeAt ≤ d.2 := by
  obtain ⟨-, -, hbefore⟩ := clock_of_sorted h
  obtain ⟨l', hl', hmade, hd⟩ := mem_attempts ha
  obtain ⟨h1, h2⟩ := hbefore l' hl'
  refine ⟨hmade ▸ h1.trans h2, fun d hdm => ?_⟩
  rw [hmade, hd d hdm]
  exact h1

/-- The fetches are made in the order of time. -/
lemma attempts_sorted {ls : List (Lookup T)} (h : (readings ls).Pairwise (· ≤ ·)) :
    (attempts cfg fromDict ls).Pairwise fun a b => a.madeAt ≤ b.madeAt := by
  induction ls using List.reverseRecOn with
  | nil => exact List.Pairwise.nil
  | append_singleton ls l ih =>
      rw [attempts_append, List.pairwise_append]
      refine ⟨ih (clock_of_sorted h).1, by cases Answer.attempt _ <;> simp, fun a ha b hb => ?_⟩
      have hnow : b.madeAt = l.now := by
        rcases key_cases cfg fromDict (after cfg fromDict ls) l with ⟨-, hk⟩ | ⟨-, doc, hk⟩ | ⟨-, r, hk, -⟩
        · simp [hk] at hb
        · simp [hk] at hb
          rw [hb]
        · simp [hk] at hb
          rw [hb]
      exact hnow ▸ (attempt_before h ha).1

/-- A lookup that fetches comes long enough after the latest fetch. -/
lemma tries_spaced {s : OIDCValidator T K} {l : Lookup T} (h : tries cfg s l = true) {t : T}
    (ht : s.attemptedAt = some t) : cfg.jwksMinRefresh ≤ seconds (l.now - t) := by
  unfold tries at h
  rw [Bool.and_eq_true, Bool.not_eq_true'] at h
  simpa [recentlyTried, ht] using h.1

/-- Two fetches are never less than the least time apart. -/
lemma attempts_spaced [IsOrderedAddMonoid T] {ls : List (Lookup T)}
    (h : (readings ls).Pairwise (· ≤ ·)) :
    (attempts cfg fromDict ls).Pairwise
      fun a b => cfg.jwksMinRefresh ≤ seconds (b.madeAt - a.madeAt) := by
  induction ls using List.reverseRecOn with
  | nil => exact List.Pairwise.nil
  | append_singleton ls l ih =>
      have hls := (clock_of_sorted h).1
      have hspaced : tries cfg (after cfg fromDict ls) l = true →
          ∀ a ∈ attempts cfg fromDict ls, cfg.jwksMinRefresh ≤ seconds (l.now - a.madeAt) := by
        intro htries a ha
        obtain ⟨last, hlast⟩ := Option.ne_none_iff_exists'.1
          (mt List.getLast?_eq_none_iff.1 (List.ne_nil_of_mem ha))
        have hrec := (records_after cfg fromDict ls).attemptedAt
        rw [hlast] at hrec
        have hle : a.madeAt ≤ last.madeAt := le_last (attempts_sorted hls) ha hlast
        exact (tries_spaced htries hrec).trans (seconds_le_iff.2 (sub_le_sub_left hle _))
      rw [attempts_append, List.pairwise_append]
      refine ⟨ih hls, by cases Answer.attempt _ <;> simp, fun a ha b hb => ?_⟩
      rcases key_cases cfg fromDict (after cfg fromDict ls) l with ⟨-, hk⟩ | ⟨ht, doc, hk⟩ |
        ⟨ht, r, hk, -⟩
      · simp [hk] at hb
      · simp only [hk, Option.toList_some, List.mem_singleton] at hb
        exact hb ▸ hspaced ht a ha
      · simp only [hk, Option.toList_some, List.mem_singleton] at hb
        exact hb ▸ hspaced ht a ha

/-- A lookup that makes no fetch is served in time. -/
lemma servedInTime_of_not_tries [IsOrderedAddMonoid T] {ls : List (Lookup T)} {l : Lookup T}
    (h : (readings (ls ++ [l])).Pairwise (· ≤ ·)) (htries : tries cfg (after cfg fromDict ls) l = false)
    {d : Fields × T} (hd : (successes (attempts cfg fromDict ls)).getLast? = some d) :
    ServedInTime cfg (attempts cfg fromDict ls) l.now d.2 := by
  obtain ⟨hattempted, hfetched, -⟩ := records_after cfg fromDict ls
  rw [hd] at hfetched
  unfold tries at htries
  rw [Bool.and_eq_false_iff, Bool.not_eq_false', Bool.or_eq_false_iff] at htries
  rcases htries with hrecent | ⟨hstale, -⟩
  · -- the latest fetch was made a short time ago
    unfold recentlyTried at hrecent
    split at hrecent
    · cases hrecent
    · next t ht =>
        rw [decide_eq_true_eq] at hrecent
        rw [ht] at hattempted
        obtain ⟨a, ha, rfl⟩ := Option.map_eq_some_iff.1 hattempted.symm
        cases hf : a.fetched with
        | none => exact Or.inr ⟨a, ha, hf, hrecent⟩
        | some e =>
            -- it succeeded, so it is the one whose keys are served
            have he : e = d := by
              have has := List.dropLast_append_getLast? a ha
              rw [← has] at hd
              simpa [successes, hf] using hd
            subst he
            have hle := (attempt_before h (List.mem_of_getLast? ha)).2 e hf
            exact Or.inl (lt_max_of_lt_right
              ((seconds_le_iff.2 (sub_le_sub_left hle _)).trans_lt hrecent))
  · unfold stale at hstale
    rw [hfetched] at hstale
    exact Or.inl (lt_max_of_lt_left (by simpa using hstale))

/-- The cache keeps to its discipline.  Fetches are spaced; a key that a lookup returns is offered
by the document of the latest successful fetch; the keys of this document are the ones that are
used, in time unless no setting is positive or the lookup has just tried to fetch others; and a
failed fetch does not change the keys. -/
theorem discipline [IsOrderedAddMonoid T] {ls : List (Lookup T)} {l : Lookup T}
    (h : (readings (ls ++ [l])).Pairwise (· ≤ ·)) :
    ((attempts cfg fromDict (ls ++ [l])).Pairwise
        fun a b => cfg.jwksMinRefresh ≤ seconds (b.madeAt - a.madeAt)) ∧
      (∀ k, (key cfg fromDict (after cfg fromDict ls) l).1.result = .ok k →
        ∃ d, (successes (attempts cfg fromDict (ls ++ [l]))).getLast? = some d ∧
          Offers fromDict d.1 l.kid k) ∧
      (∀ d, (successes (attempts cfg fromDict (ls ++ [l]))).getLast? = some d →
        (after cfg fromDict (ls ++ [l])).keys = keysOf fromDict d.1 ∧
          Served cfg (key cfg fromDict (after cfg fromDict ls) l).1.attempt
            (attempts cfg fromDict (ls ++ [l])) l.now d) ∧
      ∀ a, (key cfg fromDict (after cfg fromDict ls) l).1.attempt = some a → a.fetched = none →
        (after cfg fromDict (ls ++ [l])).keys = (after cfg fromDict ls).keys := by
  have hrec := records_after cfg fromDict (ls ++ [l])
  refine ⟨attempts_spaced h, fun k hk => ?_, fun d hd => ⟨?_, ?_⟩, fun a ha hf => ?_⟩
  · have hfound : found (after cfg fromDict (ls ++ [l])).keys l.kid = .ok k := by
      rw [after_append]
      rcases key_cases cfg fromDict (after cfg fromDict ls) l with ⟨-, he⟩ | ⟨-, doc, he⟩ |
        ⟨-, r, he, hr⟩
      · rw [he] at hk ⊢
        exact hk
      · rw [he] at hk ⊢
        exact hk
      · rw [he] at hk ⊢
        exact hr k hk
    rw [hrec.keys] at hfound
    cases hd : (successes (attempts cfg fromDict (ls ++ [l]))).getLast? with
    | none =>
        rw [hd] at hfound
        cases hfound
    | some d =>
        rw [hd] at hfound
        exact ⟨d, rfl, offers_of_found hfound⟩
  · rw [hrec.keys, hd]
    rfl
  · rw [attempts_append] at hd ⊢
    rcases key_cases cfg fromDict (after cfg fromDict ls) l with ⟨ht, he⟩ | ⟨-, doc, he⟩ |
      ⟨-, r, he, -⟩
    · rw [he] at hd ⊢
      simp only [Option.toList_none, List.append_nil] at hd ⊢
      exact Or.inl (servedInTime_of_not_tries h ht hd)
    · -- the keys that are used were fetched by the lookup itself
      rw [he] at hd ⊢
      obtain rfl : (doc, l.later) = d := by simpa [successes] using hd
      rcases le_or_gt (max cfg.jwksTtl cfg.jwksMinRefresh) (seconds 0) with hle | hlt
      · exact Or.inr (Or.inr ⟨rfl, hle⟩)
      · exact Or.inl (Or.inl ((seconds_le_iff.2
          (sub_nonpos.2 (clock_of_sorted h).2.1)).trans_lt hlt))
    · rw [he]
      exact Or.inr (Or.inl ⟨_, rfl, rfl⟩)
  · rw [after_append]
    rcases key_cases cfg fromDict (after cfg fromDict ls) l with ⟨-, he⟩ | ⟨-, doc, he⟩ |
      ⟨-, r, he, -⟩
    · rw [he]
    · rw [he] at ha
      obtain rfl := Option.some.inj ha
      cases hf
    · rw [he]

end

/-! ### An example -/

/-- A document with one key. -/
def sampleDoc : Json :=
  .obj [("keys", .arr [.obj [("kty", .str "RSA"), ("kid", .str "rsa1")]])]

/-- The key of an entry, for which its id stands. -/
def sampleKey (jwk : Fields) : Option String := (get jwk "kid").asStr?

/-- A lookup of the key, at some time. -/
def sampleLookup (now : ℤ) : Lookup ℤ := ⟨"rsa1", now, .ok sampleDoc, now⟩

/-- The default settings. -/
def defaultConfig : OIDCConfig ℤ := ⟨seconds 300, seconds 30⟩

/-- A lookup a short time after another one returns the key, in time and without a fetch. -/
theorem sampleLookups_discipline :
    (key defaultConfig sampleKey (after defaultConfig sampleKey [sampleLookup 0])
        (sampleLookup 5)).1.result = .ok "rsa1" ∧
      ∃ d, (successes (attempts defaultConfig sampleKey [sampleLookup 0, sampleLookup 5])).getLast? =
          some d ∧
        Offers sampleKey d.1 "rsa1" "rsa1" ∧
        Served defaultConfig none
          (attempts defaultConfig sampleKey [sampleLookup 0, sampleLookup 5]) 5 d := by
  have hanswer : (key defaultConfig sampleKey (after defaultConfig sampleKey [sampleLookup 0])
      (sampleLookup 5)).1 = ⟨.ok "rsa1", none⟩ := by rfl
  obtain ⟨-, hoffers, hserved, -⟩ := @discipline ℤ String _ _ defaultConfig sampleKey _
    [sampleLookup 0] (sampleLookup 5) (by decide)
  rw [hanswer] at hoffers hserved
  obtain ⟨d, hd, ho⟩ := hoffers _ rfl
  exact ⟨by rw [hanswer], d, hd, ho, (hserved d hd).2⟩

/-- Without a time that keys last and a time between fetches, the keys that a lookup has just
fetched are not served in time. -/
theorem sampleLookup_not_servedInTime :
    (key ⟨seconds 0, seconds 0⟩ sampleKey initial (sampleLookup 0)).1.result = .ok "rsa1" ∧
      ∃ d, (successes (attempts ⟨seconds 0, seconds 0⟩ sampleKey [sampleLookup 0])).getLast? =
          some d ∧
        ¬ServedInTime ⟨seconds 0, seconds 0⟩
          (attempts ⟨seconds 0, seconds 0⟩ sampleKey [sampleLookup 0]) 0 d.2 := by
  refine ⟨by rfl, _, rfl, ?_⟩
  rintro (hlt | ⟨a, ha, hf, -⟩)
  · exact absurd hlt (by decide)
  · obtain rfl := Option.some.inj ha
    cases hf

end Jwks

end Afterlock
