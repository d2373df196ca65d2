import Mathlib.Computability.Language
import Afterlock.Redaction

/-!
# What the patterns find

The words that the patterns of credential material stand for, as a language.  A string resembles
credential material exactly if it has the bytes of one of them in it, or has them when its percent
escapes are decoded (`clean_iff`).  A word is longer than two characters, begins with ASCII and is
of characters of a few kinds (`wordChar`).  From this it follows what becomes of a string that is
cut (`Clean.of_append`), joined (`clean_append_cons_iff`) or written with other bytes where it is not
UTF-8 (`Clean.of_replaced`).
-/

namespace Afterlock

namespace Redaction

open Encoding

/-! ### Words in a text -/

section

variable {α : Type*} {u xs ys : List α} {c : α}

/-- A word without a character is on one side of it. -/
lemma infix_append_cons_iff (hc : c ∉ u) : u <:+: xs ++ c :: ys ↔ u <:+: xs ∨ u <:+: ys := by
  constructor
  · rintro ⟨s, t, h⟩
    rcases List.append_eq_append_iff.1 h with ⟨v, rfl, -⟩ | ⟨v, hv, hcy⟩
    · exact Or.inl ⟨s, v, rfl⟩
    · cases v with
      | nil => exact Or.inl ⟨s, [], by rw [hv, List.append_nil, List.append_nil]⟩
      | cons d v =>
          obtain ⟨rfl, rfl⟩ := List.cons.inj hcy
          rcases List.append_eq_append_iff.1 hv with ⟨w, -, rfl⟩ | ⟨w, -, hw⟩
          · exact absurd (List.mem_append_right _ List.mem_cons_self) hc
          · cases w with
            | nil => exact absurd (show c ∈ [] ++ u from hw ▸ List.mem_cons_self) hc
            | cons e w =>
                obtain ⟨-, rfl⟩ := List.cons.inj hw
                exact Or.inr ⟨w, t, rfl⟩
  · rintro (h | h)
    · exact h.trans (List.prefix_append _ _).isInfix
    · exact h.trans ⟨xs ++ [c], [], by simp⟩

end

/-- The pattern matches at the head of a text exactly if a word of the language stands there. -/
def Finds (m : List Char → Bool) (L : Language Char) : Prop :=
  ∀ cs, m cs = true ↔ ∃ u ∈ L, u <+: cs

section

variable {m : List Char → Bool} {L : Language Char} {p : Char → Bool} {w cs : List Char}

lemma search_iff (h : Finds m L) : search m cs = true ↔ ∃ u ∈ L, u <:+: cs := by
  induction cs with
  | nil =>
      rw [search, h]
      simp only [List.prefix_nil, List.infix_nil]
  | cons c cs ih =>
      rw [search, Bool.or_eq_true, h, ih]
      simp only [List.infix_cons_iff]
      constructor
      · rintro (⟨u, hu, hc⟩ | ⟨u, hu, hc⟩)
        · exact ⟨u, hu, Or.inl hc⟩
        · exact ⟨u, hu, Or.inr hc⟩
      · rintro ⟨u, hu, hc | hc⟩
        · exact Or.inl ⟨u, hu, hc⟩
        · exact Or.inr ⟨u, hu, hc⟩

/-- The words of `n` characters of a class. -/
def run (p : Char → Bool) (n : ℕ) : Language Char := {u | u.length = n ∧ ∀ c ∈ u, p c = true}

/-- The words of `n` or more characters of a class. -/
def runs (p : Char → Bool) (n : ℕ) : Language Char := {u | n ≤ u.length ∧ ∀ c ∈ u, p c = true}

/-- The words that are a given one in lower case. -/
def folded (w : List Char) : Language Char := {u | u.map Char.toLower = w}

lemma finds_isPrefixOf : Finds (fun cs => w.isPrefixOf cs) {w} := by
  intro cs
  rw [List.isPrefixOf_iff_prefix]
  constructor
  · exact fun h => ⟨w, rfl, h⟩
  · rintro ⟨u, rfl, h⟩
    exact h

lemma finds_atLeast (n : ℕ) : Finds (atLeast p n) (run p n) := by
  intro cs
  rw [atLeast, decide_eq_true_iff]
  constructor
  · intro h
    refine ⟨(cs.takeWhile p).take n, ⟨by simp [h], fun c hc => ?_⟩,
      (List.take_prefix _ _).trans (List.takeWhile_prefix _)⟩
    exact List.mem_takeWhile_imp (List.mem_of_mem_take hc)
  · rintro ⟨u, ⟨rfl, hp⟩, v, rfl⟩
    rw [List.takeWhile_append_of_pos hp, List.length_append]
    exact Nat.le_add_right _ _

/-- A pattern behind a word. -/
lemma finds_dropPrefix? (h : Finds m L) :
    Finds (fun cs => (cs.dropPrefix? w).any m) ({w} * L) := by
  intro cs
  simp only [Option.any_eq_true, List.dropPrefix?_eq_some_iff, beq_iff_eq]
  constructor
  · rintro ⟨r, ⟨w', rfl, rfl⟩, hr⟩
    obtain ⟨u, hu, v, rfl⟩ := (h r).1 hr
    exact ⟨w' ++ u, Language.append_mem_mul rfl hu, v, List.append_assoc _ _ _⟩
  · rintro ⟨_, hx, v, rfl⟩
    obtain ⟨w', rfl, u, hu, rfl⟩ := Language.mem_mul.1 hx
    exact ⟨u ++ v, ⟨w', List.append_assoc _ _ _, rfl⟩, (h _).2 ⟨u, hu, v, rfl⟩⟩

/-- A pattern behind `n` or more characters of a class that none of its words begins with. -/
lemma finds_atLeast_and {n : ℕ} (h : Finds m L)
    (hL : ∀ u ∈ L, ∃ c v, u = c :: v ∧ p c = false) :
    Finds (fun cs => atLeast p n cs && m (cs.dropWhile p)) (runs p n * L) := by
  intro cs
  rw [Bool.and_eq_true, atLeast, decide_eq_true_iff, h]
  constructor
  · rintro ⟨hn, u, hu, v, hv⟩
    refine ⟨cs.takeWhile p ++ u, Language.append_mem_mul ⟨hn, fun c hc =>
      List.mem_takeWhile_imp hc⟩ hu, v, ?_⟩
    rw [List.append_assoc, hv, List.takeWhile_append_dropWhile]
  · rintro ⟨_, hx, v, rfl⟩
    obtain ⟨x, ⟨hn, hp⟩, u, hu, rfl⟩ := Language.mem_mul.1 hx
    obtain ⟨c, u', rfl, hc⟩ := hL u hu
    have htake : (x ++ c :: u' ++ v).takeWhile p = x := by
      rw [List.append_assoc, List.takeWhile_append_of_pos hp, List.cons_append,
        List.takeWhile_cons_of_neg (by simp [hc]), List.append_nil]
    have hdrop : (x ++ c :: u' ++ v).dropWhile p = c :: u' ++ v := by
      rw [List.append_assoc, List.dropWhile_append_of_pos hp, List.cons_append,
        List.dropWhile_cons_of_neg (by simp [hc])]
    rw [htake, hdrop]
    exact ⟨hn, c :: u', hu, v, rfl⟩

/-- A pattern behind any characters of a class. -/
lemma finds_past (h : Finds m L) : Finds (past p m) (runs p 0 * L) := by
  have hnil : [] ∈ runs p 0 := ⟨Nat.zero_le _, List.forall_mem_nil _⟩
  intro cs
  induction cs with
  | nil =>
      rw [past, h]
      constructor
      · rintro ⟨u, hu, hpre⟩
        exact ⟨u, Language.mem_mul.2 ⟨[], hnil, u, hu, rfl⟩, hpre⟩
      · rintro ⟨_, hx, hpre⟩
        obtain ⟨x, -, u, hu, rfl⟩ := Language.mem_mul.1 hx
        rw [List.prefix_nil, List.append_eq_nil_iff] at hpre
        exact ⟨u, hu, List.prefix_nil.2 hpre.2⟩
  | cons c cs ih =>
      rw [past, Bool.or_eq_true, Bool.and_eq_true, h, ih]
      constructor
      · rintro (⟨u, hu, hpre⟩ | ⟨hc, _, hmul, hpre⟩)
        · exact ⟨u, Language.mem_mul.2 ⟨[], hnil, u, hu, rfl⟩, hpre⟩
        · obtain ⟨x, hx, u, hu, rfl⟩ := Language.mem_mul.1 hmul
          refine ⟨c :: (x ++ u), Language.mem_mul.2 ⟨c :: x, ?_, u, hu, rfl⟩,
            (List.prefix_cons_inj c).2 hpre⟩
          exact ⟨Nat.zero_le _, List.forall_mem_cons.2 ⟨hc, hx.2⟩⟩
      · rintro ⟨_, hmul, hpre⟩
        obtain ⟨x, hx, u, hu, rfl⟩ := Language.mem_mul.1 hmul
        cases x with
        | nil => exact Or.inl ⟨u, hu, hpre⟩
        | cons d x =>
            obtain ⟨rfl, htail⟩ := List.cons_prefix_cons.1 hpre
            obtain ⟨hd, hx⟩ := List.forall_mem_cons.1 hx.2
            exact Or.inr ⟨hd, x ++ u, Language.append_mem_mul ⟨Nat.zero_le _, hx⟩ hu, htail⟩

/-- A pattern behind a word in upper or lower case. -/
lemma finds_toLower (h : Finds m L) :
    Finds (fun cs => decide ((cs.take w.length).map Char.toLower = w) && m (cs.drop w.length))
      (folded w * L) := by
  intro cs
  rw [Bool.and_eq_true, decide_eq_true_iff, h]
  constructor
  · rintro ⟨hw, u, hu, v, hv⟩
    refine ⟨cs.take w.length ++ u, Language.append_mem_mul hw hu, v, ?_⟩
    rw [List.append_assoc, hv, List.take_append_drop]
  · rintro ⟨_, hx, v, rfl⟩
    obtain ⟨x, hxw, u, hu, rfl⟩ := Language.mem_mul.1 hx
    have hlen : w.length = x.length := by
      rw [← (show x.map Char.toLower = w from hxw), List.length_map]
    rw [List.append_assoc, hlen, List.take_left', List.drop_left']
    · exact ⟨hxw, u, hu, v, rfl⟩
    · rfl
    · rfl

end

/-! ### The words of the patterns -/

def jwtWords : Language Char :=
  {"eyJ".toList} * (runs tokenChar 8 * ({['.']} * run tokenChar 8))

def base64JwtWords : Language Char :=
  {"ZXlK".toList} * run (fun c => tokenChar c || c = '+' || c = '/') 16

def privateKeyWords : Language Char :=
  {"-----BEGIN ".toList} *
    (runs (fun c => c.isUpper || c = ' ') 0 * {"PRIVATE KEY-----".toList})

def base64BeginWords : Language Char := {"LS0tLS1CRUdJTi".toList}

def canaryWords : Language Char := {"AFTERLOCK-CANARY-".toList} * run Char.isAlphanum 1

def bearerWords : Language Char :=
  folded "bearer".toList * (runs blank 1 * run authChar 8)

/-- The words that resemble credential material. -/
def credentialWords : Language Char :=
  jwtWords + base64JwtWords + privateKeyWords + base64BeginWords + canaryWords + bearerWords

lemma not_of_run {p q : Char → Bool} {n : ℕ} (hpq : ∀ c, p c = true → q c = false) (hn : n ≠ 0) :
    ∀ u ∈ run p n, ∃ c v, u = c :: v ∧ q c = false := by
  rintro u ⟨rfl, hp⟩
  cases u with
  | nil => exact absurd rfl hn
  | cons c v => exact ⟨c, v, rfl, hpq c (hp c List.mem_cons_self)⟩

lemma finds_jwt : Finds jwt jwtWords := by
  refine finds_dropPrefix? (finds_atLeast_and (finds_dropPrefix? (finds_atLeast 8)) ?_)
  intro u hu
  obtain ⟨_, rfl, v, -, rfl⟩ := Language.mem_mul.1 hu
  exact ⟨'.', v, rfl, by decide⟩

lemma finds_base64Jwt : Finds base64Jwt base64JwtWords := finds_dropPrefix? (finds_atLeast 16)

lemma finds_privateKey : Finds privateKey privateKeyWords :=
  finds_dropPrefix? (finds_past finds_isPrefixOf)

lemma finds_base64Begin : Finds base64Begin base64BeginWords := finds_isPrefixOf

lemma finds_canary : Finds canary canaryWords := finds_dropPrefix? (finds_atLeast 1)

lemma blank_of_authChar {c : Char} (h : authChar c = true) : blank c = false := by
  rw [← Bool.not_eq_true]
  intro hb
  simp only [blank, Bool.or_eq_true, decide_eq_true_eq] at hb
  rcases hb with (((rfl | rfl) | rfl) | rfl) | hb
  · exact absurd h (by decide)
  · exact absurd h (by decide)
  · exact absurd h (by decide)
  · exact absurd h (by decide)
  · rw [show c = Char.ofNat 12 by rw [← hb, Char.ofNat_toNat]] at h
    exact absurd h (by decide)

lemma finds_bearer : Finds bearer bearerWords := by
  intro cs
  have h := finds_toLower (w := "bearer".toList) (finds_atLeast_and (p := blank) (n := 1)
    (finds_atLeast (p := authChar) 8) (not_of_run (fun _ => blank_of_authChar) (by decide))) cs
  rw [bearer, Bool.and_assoc]
  exact h

/-- A character of a word. -/
def wordChar (c : Char) : Bool := authChar c || blank c

/-- The words of a language are of word characters. -/
def Within (L : Language Char) : Prop := ∀ u ∈ L, ∀ c ∈ u, wordChar c = true

lemma Within.mul {L M : Language Char} (hL : Within L) (hM : Within M) : Within (L * M) := by
  intro w hw c hc
  obtain ⟨u, hu, v, hv, rfl⟩ := Language.mem_mul.1 hw
  exact (List.mem_append.1 hc).elim (hL u hu c) (hM v hv c)

lemma within_singleton {w : List Char} (h : w.all wordChar = true) :
    Within ({w} : Language Char) := by
  rintro _ rfl
  exact List.all_eq_true.1 h

lemma within_run {p : Char → Bool} {n : ℕ} (h : ∀ c, p c = true → wordChar c = true) :
    Within (run p n) := fun _ hu c hc => h c (hu.2 c hc)

lemma within_runs {p : Char → Bool} {n : ℕ} (h : ∀ c, p c = true → wordChar c = true) :
    Within (runs p n) := fun _ hu c hc => h c (hu.2 c hc)

lemma wordChar_of_authChar {c : Char} (h : authChar c = true) : wordChar c = true := by
  rw [wordChar, h, Bool.true_or]

lemma wordChar_of_tokenChar {c : Char} (h : tokenChar c = true) : wordChar c = true :=
  wordChar_of_authChar (by simp [authChar, h])

lemma wordChar_of_isAlphanum {c : Char} (h : c.isAlphanum = true) : wordChar c = true :=
  wordChar_of_tokenChar (by simp [tokenChar, h])

lemma within_folded {w : List Char} (h : w.all wordChar = true) : Within (folded w) := by
  rintro u rfl c hc
  by_cases hup : c.isUpper = true
  · exact wordChar_of_isAlphanum (by simp [Char.isAlphanum, Char.isAlpha, hup])
  · have hlower : c.toLower = c := by
      rw [Char.toLower, dif_neg]
      simpa [Char.isUpper] using hup
    have hmem := List.all_eq_true.1 h _ (List.mem_map_of_mem hc)
    rwa [hlower] at hmem

lemma within_credentialWords : Within credentialWords := by
  have hjwt : Within jwtWords :=
    (within_singleton (by decide)).mul ((within_runs fun _ => wordChar_of_tokenChar).mul
      ((within_singleton (by decide)).mul (within_run fun _ => wordChar_of_tokenChar)))
  have hbase64 : Within base64JwtWords := (within_singleton (by decide)).mul (within_run fun c hc =>
    wordChar_of_authChar (by simp only [authChar, Bool.or_eq_true] at hc ⊢; tauto))
  have hkey : Within privateKeyWords := by
    refine (within_singleton (by decide)).mul ((within_runs fun c hc => ?_).mul
      (within_singleton (by decide)))
    rw [Bool.or_eq_true, decide_eq_true_iff] at hc
    rcases hc with hc | rfl
    · exact wordChar_of_isAlphanum (by simp [Char.isAlphanum, Char.isAlpha, hc])
    · decide
  have hbegin : Within base64BeginWords := within_singleton (by decide)
  have hcanary : Within canaryWords :=
    (within_singleton (by decide)).mul (within_run fun _ => wordChar_of_isAlphanum)
  have hbearer : Within bearerWords :=
    (within_folded (by decide)).mul ((within_runs fun c hc => by simp [wordChar, hc]).mul
      (within_run fun _ => wordChar_of_authChar))
  intro u hu
  simp only [credentialWords, Language.mem_add] at hu
  rcases hu with ((((hu | hu) | hu) | hu) | hu) | hu
  exacts [hjwt u hu, hbase64 u hu, hkey u hu, hbegin u hu, hcanary u hu, hbearer u hu]

/-- The words of a language have more than two characters. -/
def Long (L : Language Char) : Prop := ∀ u ∈ L, 2 < u.length

lemma long_singleton_mul {w : List Char} (h : 2 < w.length) (L : Language Char) :
    Long ({w} * L) := by
  intro u hu
  obtain ⟨_, rfl, v, -, rfl⟩ := Language.mem_mul.1 hu
  rw [List.length_append]
  omega

lemma long_credentialWords : Long credentialWords := by
  intro u hu
  simp only [credentialWords, Language.mem_add] at hu
  rcases hu with ((((hu | hu) | hu) | hu) | hu) | hu
  · exact long_singleton_mul (by decide) _ u hu
  · exact long_singleton_mul (by decide) _ u hu
  · exact long_singleton_mul (by decide) _ u hu
  · rw [show u = "LS0tLS1CRUdJTi".toList from hu]
    decide
  · exact long_singleton_mul (by decide) _ u hu
  · obtain ⟨x, hx, v, -, rfl⟩ := Language.mem_mul.1 hu
    have hlen := congrArg List.length (show x.map Char.toLower = "bearer".toList from hx)
    rw [List.length_map] at hlen
    rw [List.length_append, hlen]
    exact Nat.lt_add_right _ (by decide)

/-- The characters of a class make no word if the letters of the others and some character of
`bearer` and what follows it are not in the class. -/
lemma exists_of_word {p : Char → Bool} (h : ['J', 'X', 'B', 'L', 'F'].all fun c => !p c)
    (hbearer : ∀ u ∈ bearerWords, ∃ c ∈ u, p c = false) {u : List Char}
    (hu : u ∈ credentialWords) : ∃ c ∈ u, p c = false := by
  have hp {c : Char} (hc : c ∈ ['J', 'X', 'B', 'L', 'F']) : p c = false := by
    simpa using List.all_eq_true.1 h c hc
  have hmul {w : List Char} {c : Char} {L : Language Char} (hc : c ∈ w) (hpc : p c = false)
      (hu : u ∈ {w} * L) : ∃ c ∈ u, p c = false := by
    obtain ⟨_, rfl, v, -, rfl⟩ := Language.mem_mul.1 hu
    exact ⟨c, List.mem_append_left _ hc, hpc⟩
  simp only [credentialWords, Language.mem_add] at hu
  rcases hu with ((((hu | hu) | hu) | hu) | hu) | hu
  · exact hmul (c := 'J') (by decide) (hp (by decide)) hu
  · exact hmul (c := 'X') (by decide) (hp (by decide)) hu
  · exact hmul (c := 'B') (by decide) (hp (by decide)) hu
  · rw [show u = "LS0tLS1CRUdJTi".toList from hu]
    exact ⟨'L', by decide, hp (by decide)⟩
  · exact hmul (c := 'F') (by decide) (hp (by decide)) hu
  · exact hbearer u hu

/-- The word `bearer` has the letter r. -/
lemma exists_r_of_bearer {p : Char → Bool} (h : ['r', 'R'].all fun c => !p c) {u : List Char}
    (hu : u ∈ bearerWords) : ∃ c ∈ u, p c = false := by
  have hp {c : Char} (hc : c ∈ ['r', 'R']) : p c = false := by
    simpa using List.all_eq_true.1 h c hc
  obtain ⟨x, hx, v, -, rfl⟩ := Language.mem_mul.1 hu
  have hr : 'r' ∈ x.map Char.toLower := by
    rw [show x.map Char.toLower = "bearer".toList from hx]
    decide
  obtain ⟨c, hc, hcr⟩ := List.mem_map.1 hr
  refine ⟨c, List.mem_append_left _ hc, ?_⟩
  by_cases hup : 'A'.val ≤ c.val ∧ c.val ≤ 'Z'.val
  · have hR : c = 'R' := by
      rw [Char.toLower, dif_pos hup] at hcr
      have hval : c.val + ('a'.val - 'A'.val) = 'R'.val + ('a'.val - 'A'.val) :=
        congrArg Char.val hcr
      exact Char.ext (add_right_cancel hval)
    exact hR ▸ hp (by decide)
  · rw [Char.toLower, dif_neg hup] at hcr
    exact hcr ▸ hp (by decide)

/-- A blank follows the word `bearer`. -/
lemma exists_blank_of_bearer {p : Char → Bool} (h : ∀ c, blank c = true → p c = false)
    {u : List Char} (hu : u ∈ bearerWords) : ∃ c ∈ u, p c = false := by
  obtain ⟨x, -, _, hmul, rfl⟩ := Language.mem_mul.1 hu
  obtain ⟨y, ⟨hlen, hblank⟩, z, -, rfl⟩ := Language.mem_mul.1 hmul
  obtain ⟨c, hc⟩ := List.exists_mem_of_length_pos hlen
  exact ⟨c, List.mem_append_right _ (List.mem_append_left _ hc), h c (hblank c hc)⟩

/-- A word begins with ASCII. -/
lemma exists_head_of_word {u : List Char} (hu : u ∈ credentialWords) :
    ∃ c v, u = c :: v ∧ ascii c = true := by
  have hmul {w : List Char} {c : Char} {L : Language Char} (hw : w.head? = some c)
      (hc : ascii c = true) (hu : u ∈ {w} * L) : ∃ c v, u = c :: v ∧ ascii c = true := by
    obtain ⟨_, rfl, v, -, rfl⟩ := Language.mem_mul.1 hu
    obtain ⟨v', rfl⟩ := List.head?_eq_some_iff.1 hw
    exact ⟨c, v' ++ v, rfl, hc⟩
  simp only [credentialWords, Language.mem_add] at hu
  rcases hu with ((((hu | hu) | hu) | hu) | hu) | hu
  · exact hmul (c := 'e') rfl (by decide) hu
  · exact hmul (c := 'Z') rfl (by decide) hu
  · exact hmul (c := '-') rfl (by decide) hu
  · rw [show u = "LS0tLS1CRUdJTi".toList from hu]
    exact ⟨'L', _, rfl, by decide⟩
  · exact hmul (c := 'A') rfl (by decide) hu
  · obtain ⟨x, hx, v, -, rfl⟩ := Language.mem_mul.1 hu
    cases x with
    | nil => exact absurd (show ([] : List Char).map Char.toLower = "bearer".toList from hx) (by decide)
    | cons c x =>
        refine ⟨c, x ++ v, rfl, ?_⟩
        have hb : c.toLower = 'b' := (List.cons.inj hx).1
        by_cases hup : 'A'.val ≤ c.val ∧ c.val ≤ 'Z'.val
        · have hupper : c.isUpper = true := by simpa [Char.isUpper] using hup
          exact ascii_of_isAlphanum (by simp [Char.isAlphanum, Char.isAlpha, hupper])
        · rw [Char.toLower, dif_neg hup] at hb
          exact hb ▸ by decide

/-- The characters of a word are ASCII but for two. -/
lemma wordChar_cases {c : Char} (h : wordChar c = true) :
    ascii c = true ∨ c = '\u212A' ∨ c = '\u017F' := by
  simp only [wordChar, authChar, tokenChar, blank, Bool.or_eq_true, decide_eq_true_eq] at h
  rcases h with ((((((((((h | h) | h) | h) | h) | h) | h) | h) | h) | h)) |
    ((((h | h) | h) | h) | h)
  · exact .inl (ascii_of_isAlphanum h)
  case inr.inr => exact .inl (by rw [ascii, h]; rfl)
  case inl.inl.inr => exact .inr (.inl h)
  case inl.inr => exact .inr (.inr h)
  all_goals exact .inl (by rw [h]; rfl)

lemma not_mem_word {u : List Char} (hu : u ∈ credentialWords) {c : Char}
    (hc : wordChar c = false) : c ∉ u := by
  intro h
  rw [within_credentialWords u hu c h] at hc
  cases hc

/-- The bytes of a word that are not ASCII are those of the two characters. -/
lemma byte_of_word {u : List Char} (hu : u ∈ credentialWords) {b : UInt8} (hb : b ∈ utf8 u) :
    b.toNat < 128 ∨ b ∈ ([0xE2, 0x84, 0xAA, 0xC5, 0xBF] : Bytes) := by
  obtain ⟨c, hc, hbc⟩ := List.mem_flatMap.1 hb
  obtain hascii | rfl | rfl := wordChar_cases (within_credentialWords u hu c hc)
  · have hlt : c.toNat < 128 := of_decide_eq_true hascii
    rw [encode_of_ascii hascii, List.mem_singleton] at hbc
    rw [hbc, UInt8.toNat_ofNat', Nat.mod_eq_of_lt (by omega)]
    exact .inl hlt
  · have hbytes : String.utf8EncodeChar '\u212A' = [0xE2, 0x84, 0xAA] := by decide
    rw [hbytes] at hbc
    exact .inr (List.mem_append_left [0xC5, 0xBF] hbc)
  · have hbytes : String.utf8EncodeChar '\u017F' = [0xC5, 0xBF] := by decide
    rw [hbytes] at hbc
    exact .inr (List.mem_append_right [0xE2, 0x84, 0xAA] hbc)

/-- A character that is seen in a word is one of it. -/
lemma infix_word_iff {u : List Char} (hu : u ∈ credentialWords) {s : Bytes} :
    u <:+: asChars s ↔ utf8 u <:+: s := by
  obtain ⟨c, v, rfl, hc⟩ := exists_head_of_word hu
  exact infix_asChars_iff hc (not_mem_word hu (by decide))

/-! ### Percent escapes -/

/-- The byte of the escape at the head of a string behind its percent sign, and what follows. -/
def escape? : Bytes → Option (UInt8 × Bytes)
  | a :: b :: cs => (escapedByte? a b).map fun d => (d, cs)
  | _ => none

lemma escape?_eq_some {cs rest : Bytes} {d : UInt8} :
    escape? cs = some (d, rest) ↔ ∃ a b, cs = a :: b :: rest ∧ escapedByte? a b = some d := by
  rcases cs with _ | ⟨a, _ | ⟨b, cs⟩⟩
  · simp [escape?]
  · simp [escape?]
  · simp only [escape?, Option.map_eq_some_iff, Prod.mk.injEq, List.cons.injEq]
    constructor
    · rintro ⟨d, hd, rfl, rfl⟩
      exact ⟨a, b, ⟨rfl, rfl, rfl⟩, hd⟩
    · rintro ⟨_, _, ⟨rfl, rfl, rfl⟩, hd⟩
      exact ⟨d, hd, rfl, rfl⟩

lemma percentDecode_percent (cs : Bytes) : percentDecode (37 :: cs) =
    (escape? cs).elim (37 :: percentDecode cs) fun r => r.1 :: percentDecode r.2 := by
  rcases cs with _ | ⟨a, _ | ⟨b, cs⟩⟩
  · rfl
  · rfl
  · rw [percentDecode, if_pos rfl, escape?]
    cases escapedByte? a b <;> rfl

lemma percentDecode_cons {c : UInt8} (hc : c ≠ 37) (cs : Bytes) :
    percentDecode (c :: cs) = c :: percentDecode cs := by
  rcases cs with _ | ⟨a, _ | ⟨b, cs⟩⟩ <;> simp only [percentDecode, if_neg hc]

lemma percentDecode_singleton (c : UInt8) : percentDecode [c] = [c] := by
  by_cases hc : c = 37
  · rw [hc]
    rfl
  · exact percentDecode_cons hc []

lemma percentDecode_eq_self {cs : Bytes} (h : 37 ∉ cs) : percentDecode cs = cs := by
  induction cs with
  | nil => rfl
  | cons c cs ih =>
      rw [List.mem_cons, not_or] at h
      rw [percentDecode_cons (Ne.symm h.1), ih h.2]

lemma length_of_escape? {cs : Bytes} {r : UInt8 × Bytes} (h : escape? cs = some r) :
    r.2.length < cs.length := by
  obtain ⟨a, b, rfl, -⟩ := escape?_eq_some.1 h
  simp only [List.length_cons]
  omega

/-- A byte that is no part of an escape. -/
lemma escape?_append_cons {c : UInt8} (hc : hexByte? c = none) (cs ds : Bytes) :
    escape? (cs ++ c :: ds) = (escape? cs).map fun r => (r.1, r.2 ++ c :: ds) := by
  rcases cs with _ | ⟨a, _ | ⟨b, cs⟩⟩
  · cases ds with
    | nil => rfl
    | cons d ds => simp [escape?, escapedByte?, hc]
  · simp [escape?, escapedByte?, hc]
  · simp only [List.cons_append, escape?, Option.map_map]
    rfl

lemma percentDecode_append_cons {c : UInt8} (hc : hexByte? c = none) (hpercent : c ≠ 37)
    (cs ds : Bytes) :
    percentDecode (cs ++ c :: ds) = percentDecode cs ++ c :: percentDecode ds := by
  induction hn : cs.length using Nat.strong_induction_on generalizing cs with
  | _ n ih =>
      subst hn
      cases cs with
      | nil => exact percentDecode_cons hpercent ds
      | cons a cs =>
          by_cases ha : a = 37
          · subst ha
            rw [List.cons_append, percentDecode_percent, percentDecode_percent,
              escape?_append_cons hc]
            cases hescape : escape? cs with
            | none => exact congrArg (37 :: ·) (ih _ (Nat.lt_succ_self _) _ rfl)
            | some r =>
                exact congrArg (r.1 :: ·)
                  (ih _ (Nat.lt_succ_of_lt (length_of_escape? hescape)) _ rfl)
          · rw [List.cons_append, percentDecode_cons ha, percentDecode_cons ha,
              ih _ (Nat.lt_succ_self _) _ rfl]
            rfl

/-- What a string decodes to that is cut off: the beginning of what the whole string decodes to, and
the beginning of an escape. -/
lemma percentDecode_take (cs ds : Bytes) : ∃ x t, percentDecode cs = x ++ t ∧
    x <+: percentDecode (cs ++ ds) ∧ (t = [] ∨ ∃ w, t = 37 :: w ∧ w.length ≤ 1) := by
  induction hn : cs.length using Nat.strong_induction_on generalizing cs with
  | _ n ih =>
      subst hn
      cases cs with
      | nil => exact ⟨[], [], rfl, List.nil_prefix, Or.inl rfl⟩
      | cons a cs =>
          by_cases ha : a = 37
          · subst ha
            rw [List.cons_append, percentDecode_percent, percentDecode_percent]
            cases hescape : escape? cs with
            | some r =>
                obtain ⟨d, rest⟩ := r
                obtain ⟨a, b, rfl, hd⟩ := escape?_eq_some.1 hescape
                obtain ⟨x, t, hx, hpre, ht⟩ := ih rest.length (by simp; omega) rest rfl
                refine ⟨d :: x, t, congrArg (d :: ·) hx, ?_, ht⟩
                rw [List.cons_append, List.cons_append, escape?, hd]
                exact List.cons_prefix_cons.2 ⟨rfl, hpre⟩
            | none =>
                cases hwhole : escape? (cs ++ ds) with
                | none =>
                    obtain ⟨x, t, hx, hpre, ht⟩ := ih _ (Nat.lt_succ_self _) cs rfl
                    exact ⟨37 :: x, t, congrArg (37 :: ·) hx,
                      List.cons_prefix_cons.2 ⟨rfl, hpre⟩, ht⟩
                | some r =>
                    -- the string is cut inside the escape
                    refine ⟨[], 37 :: percentDecode cs, rfl, List.nil_prefix,
                      Or.inr ⟨_, rfl, ?_⟩⟩
                    rcases cs with _ | ⟨a, _ | ⟨b, cs⟩⟩
                    · exact Nat.zero_le _
                    · rw [percentDecode_singleton]
                      exact Nat.le_refl _
                    · rw [escape?, Option.map_eq_none_iff] at hescape
                      rw [List.cons_append, List.cons_append, escape?, hescape] at hwhole
                      cases hwhole
          · obtain ⟨x, t, hx, hpre, ht⟩ := ih _ (Nat.lt_succ_self _) cs rfl
            rw [List.cons_append, percentDecode_cons ha, percentDecode_cons ha, hx]
            exact ⟨a :: x, t, rfl, List.cons_prefix_cons.2 ⟨rfl, hpre⟩, ht⟩

/-- A hexadecimal digit is ASCII. -/
lemma lt_of_hexByte? {b : UInt8} {n : ℕ} (h : hexByte? b = some n) : b.toNat < 128 := by
  have hb := b.toNat_lt
  have hc : (Char.ofNat b.toNat).val.toNat = b.toNat := by
    have hof := Char.toNat_ofNat b.toNat
    rwa [if_pos (Or.inl (by omega))] at hof
  rw [hexByte?, hexValue?] at h
  split_ifs at h with hdigit hlower hupper
  · have hlt : (Char.ofNat b.toNat).toNat < 128 :=
      of_decide_eq_true (ascii_of_isAlphanum (by simp [Char.isAlphanum, hdigit]))
    exact hc ▸ hlt
  · have hle : (Char.ofNat b.toNat).val.toNat ≤ 'f'.val.toNat := UInt32.le_iff_toNat_le.1 hlower.2
    have hf : 'f'.val.toNat = 102 := rfl
    omega
  · have hle : (Char.ofNat b.toNat).val.toNat ≤ 'F'.val.toNat := UInt32.le_iff_toNat_le.1 hupper.2
    have hf : 'F'.val.toNat = 70 := rfl
    omega

lemma lt_of_escapedByte? {a b d : UInt8} (h : escapedByte? a b = some d) :
    a.toNat < 128 ∧ b.toNat < 128 := by
  simp only [escapedByte?, Option.bind_eq_bind, Option.bind_eq_some_iff] at h
  obtain ⟨m, hm, n, hn, -⟩ := h
  exact ⟨lt_of_hexByte? hm, lt_of_hexByte? hn⟩

lemma replaced_of_cons {b : UInt8} {s t : Bytes} (hb : b.toNat < 128)
    (h : Replaced (b :: s) t) : ∃ t', t = b :: t' ∧ Replaced s t' := by
  generalize hn : b :: s = n at h
  cases h with
  | nil => cases hn
  | cons d h =>
      obtain ⟨rfl, rfl⟩ := List.cons.inj hn
      exact ⟨_, rfl, h⟩
  | mark hd h =>
      obtain ⟨rfl, -⟩ := List.cons.inj hn
      omega

/-- An ASCII byte is not of a mark. -/
lemma cons_of_replaced {b : UInt8} {s t : Bytes} (hb : b.toNat < 128)
    (h : Replaced s (b :: t)) : ∃ s', s = b :: s' ∧ Replaced s' t := by
  generalize hn : b :: t = n at h
  cases h with
  | nil => cases hn
  | cons d h =>
      obtain ⟨rfl, rfl⟩ := List.cons.inj hn
      exact ⟨_, rfl, h⟩
  | mark hd h =>
      obtain ⟨rfl, -⟩ := List.cons.inj hn
      exact absurd hb (by decide)

lemma replaced_escape? {s t : Bytes} (h : Replaced s t) :
    (escape? s = none ∧ escape? t = none) ∨ ∃ d s' t', escape? s = some (d, s') ∧
      escape? t = some (d, t') ∧ Replaced s' t' := by
  cases hs : escape? s with
  | some r =>
      obtain ⟨a, b, rfl, hd⟩ := escape?_eq_some.1 (show escape? s = some (r.1, r.2) from hs)
      obtain ⟨ha, hb⟩ := lt_of_escapedByte? hd
      obtain ⟨t, rfl, htail⟩ := replaced_of_cons ha h
      obtain ⟨t, rfl, hrest⟩ := replaced_of_cons hb htail
      exact .inr ⟨r.1, r.2, t, rfl, escape?_eq_some.2 ⟨a, b, rfl, hd⟩, hrest⟩
  | none =>
      refine .inl ⟨rfl, ?_⟩
      cases ht : escape? t with
      | none => rfl
      | some r =>
          obtain ⟨a, b, hab, hd⟩ := escape?_eq_some.1 (show escape? t = some (r.1, r.2) from ht)
          obtain ⟨ha, hb⟩ := lt_of_escapedByte? hd
          obtain ⟨s, rfl, htail⟩ := cons_of_replaced ha (hab ▸ h)
          obtain ⟨s, rfl, -⟩ := cons_of_replaced hb htail
          rw [escape?, hd] at hs
          cases hs

/-- Bytes that are not ASCII may be replaced before or after the escapes are decoded. -/
lemma replaced_percentDecode {s t : Bytes} (h : Replaced s t) :
    Replaced (percentDecode s) (percentDecode t) := by
  induction hn : s.length using Nat.strong_induction_on generalizing s t with
  | _ n ih =>
      subst hn
      cases h with
      | nil => exact .nil
      | @mark b s t hb h =>
          have hne : b ≠ 37 := by
            rintro rfl
            exact absurd hb (by decide)
          rw [percentDecode_cons hne, percentDecode_cons (by decide), percentDecode_cons (by decide),
            percentDecode_cons (by decide)]
          exact .mark hb (ih _ (Nat.lt_succ_self _) h rfl)
      | @cons b s t h =>
          by_cases hb : b = 37
          · subst hb
            rw [percentDecode_percent, percentDecode_percent]
            obtain ⟨hs, ht⟩ | ⟨d, s', t', hs, ht, hrest⟩ := replaced_escape? h
            · rw [hs, ht]
              exact .cons 37 (ih _ (Nat.lt_succ_self _) h rfl)
            · rw [hs, ht]
              exact .cons d (ih _ (Nat.lt_succ_of_lt (length_of_escape? hs)) hrest rfl)
          · rw [percentDecode_cons hb, percentDecode_cons hb]
            exact .cons b (ih _ (Nat.lt_succ_self _) h rfl)

/-! ### Clean strings -/

/-- No word stands in the string, nor in the string that its percent escapes give. -/
def Clean (s : Bytes) : Prop :=
  ∀ u ∈ credentialWords, ¬utf8 u <:+: s ∧ ¬utf8 u <:+: percentDecode s

lemma matchesAny_iff {cs : List Char} :
    matchesAny cs = true ↔ ∃ u ∈ credentialWords, u <:+: cs := by
  rw [matchesAny, List.any_eq_true, sensitivePatterns]
  simp only [List.cons_append, List.nil_append, List.exists_mem_cons_iff, List.not_mem_nil,
    false_and, exists_false, or_false]
  rw [search_iff finds_jwt, search_iff finds_base64Jwt, search_iff finds_privateKey,
    search_iff finds_base64Begin, search_iff finds_canary, search_iff finds_bearer]
  simp only [credentialWords, Language.mem_add, or_and_right, exists_or, or_assoc]

/-- A string is clean exactly if it does not resemble credential material. -/
lemma clean_iff {s : Bytes} : Clean s ↔
    (matchesAny (asChars s) || s.contains 37 && matchesAny (asChars (percentDecode s))) = false := by
  have hdecoded : (matchesAny (asChars s) || s.contains 37 && matchesAny (asChars (percentDecode s)))
      = (matchesAny (asChars s) || matchesAny (asChars (percentDecode s))) := by
    by_cases hpercent : 37 ∈ s
    · simp [hpercent]
    · simp [hpercent, percentDecode_eq_self hpercent]
  rw [hdecoded, ← Bool.not_eq_true, Bool.or_eq_true, matchesAny_iff, matchesAny_iff, not_or]
  simp only [not_exists, not_and, ← forall_and]
  exact forall₂_congr fun u hu => by rw [infix_word_iff hu, infix_word_iff hu]

/-- A text is clean exactly if it is not sensitive. -/
lemma clean_utf8_iff {t : String} : Clean (utf8 t.toList) ↔ sensitive t = false := by
  have hpercent : (utf8 t.toList).contains 37 = t.toList.contains '%' := by
    rw [Bool.eq_iff_iff, List.contains_iff_mem, List.contains_iff_mem]
    exact mem_utf8_iff (c := '%') (by decide)
  rw [clean_iff, asChars_utf8, hpercent, sensitive]

/-- A text without a percent sign is looked at as it is. -/
lemma sensitive_of_plain {t : String}
    (h : (t.toList.all fun c => c ≠ '%') && !matchesAny t.toList) : sensitive t = false := by
  rw [Bool.and_eq_true, List.all_eq_true, Bool.not_eq_true'] at h
  have hpercent : t.toList.contains '%' = false := by
    rw [← Bool.not_eq_true, List.contains_iff_mem]
    exact fun hmem => absurd (h.1 _ hmem) (by decide)
  rw [sensitive, h.2, hpercent, Bool.false_and, Bool.or_false]

/-- A text of a class that no word is of is clean. -/
lemma clean_of_forall {p : Char → Bool} (hpercent : p '%' = false)
    (hwords : ∀ u ∈ credentialWords, ∃ c ∈ u, p c = false) {cs : List Char}
    (hcs : ∀ c ∈ cs, p c = true) : Clean (utf8 cs) := by
  have hnot : 37 ∉ utf8 cs := by
    intro hmem
    rw [hcs _ ((mem_utf8_iff (c := '%') (by decide)).1 hmem)] at hpercent
    cases hpercent
  intro u hu
  rw [percentDecode_eq_self hnot, and_self, ← infix_word_iff hu, asChars_utf8]
  intro hin
  obtain ⟨c, hc, hp⟩ := hwords u hu
  rw [hcs c (hin.subset hc)] at hp
  cases hp

/-- The beginning of a clean string is clean. -/
lemma Clean.of_append {cs ds : Bytes} (h : Clean (cs ++ ds)) : Clean cs := by
  intro u hu
  obtain ⟨hraw, hdecoded⟩ := h u hu
  refine ⟨fun hin => hraw (hin.trans (List.prefix_append _ _).isInfix), fun hin => ?_⟩
  obtain ⟨x, t, hx, hpre, ht⟩ := percentDecode_take cs ds
  have hpercent : 37 ∉ utf8 u :=
    mt (mem_utf8_iff (c := '%') (by decide)).1 (not_mem_word hu (by decide))
  rw [hx] at hin
  rcases ht with rfl | ⟨w, rfl, hw⟩
  · rw [List.append_nil] at hin
    exact hdecoded (hin.trans hpre.isInfix)
  · rcases (infix_append_cons_iff hpercent).1 hin with hin | hin
    · exact hdecoded (hin.trans hpre.isInfix)
    · have hlong := long_credentialWords u hu
      have hbytes := length_le_length_utf8 u
      have hlen := hin.length_le
      omega

/-- Strings that are joined by a character that is in no word and in no escape. -/
lemma clean_append_cons_iff {c : Char} (hascii : ascii c = true) (hword : wordChar c = false)
    (hhex : hexByte? (UInt8.ofNat c.toNat) = none) (hpercent : UInt8.ofNat c.toNat ≠ 37)
    {cs ds : Bytes} : Clean (cs ++ UInt8.ofNat c.toNat :: ds) ↔ Clean cs ∧ Clean ds := by
  have hiff : ∀ u ∈ credentialWords, ((¬utf8 u <:+: cs ++ UInt8.ofNat c.toNat :: ds) ∧
      ¬utf8 u <:+: percentDecode (cs ++ UInt8.ofNat c.toNat :: ds)) ↔
        ((¬utf8 u <:+: cs ∧ ¬utf8 u <:+: percentDecode cs) ∧
          ¬utf8 u <:+: ds ∧ ¬utf8 u <:+: percentDecode ds) := by
    intro u hu
    have hbyte : UInt8.ofNat c.toNat ∉ utf8 u :=
      mt (mem_utf8_iff hascii).1 (not_mem_word hu hword)
    rw [percentDecode_append_cons hhex hpercent, infix_append_cons_iff hbyte,
      infix_append_cons_iff hbyte]
    tauto
  constructor
  · intro h
    exact ⟨fun u hu => ((hiff u hu).1 (h u hu)).1, fun u hu => ((hiff u hu).1 (h u hu)).2⟩
  · rintro ⟨hcs, hds⟩ u hu
    exact (hiff u hu).2 ⟨hcs u hu, hds u hu⟩

/-- A clean string stays clean if bytes of it are replaced. -/
theorem Clean.of_replaced {s t : Bytes} (h : Clean s) (hst : Replaced s t) : Clean t := by
  intro u hu
  have hmark {b : UInt8} (hb : b ∈ ([0xEF, 0xBD] : Bytes)) : b ∉ utf8 u := by
    intro hmem
    rcases List.mem_pair.1 hb with rfl | rfl <;>
      exact (byte_of_word hu hmem).elim (absurd · (by decide)) (absurd · (by decide))
  have hlen : 1 < (utf8 u).length :=
    (Nat.lt_of_succ_lt (long_credentialWords u hu)).trans_le (length_le_length_utf8 u)
  obtain ⟨hraw, hdecoded⟩ := h u hu
  exact ⟨fun hin => hraw (hst.isInfix (hmark (by decide)) (hmark (by decide)) hlen hin),
    fun hin => hdecoded ((replaced_percentDecode hst).isInfix (hmark (by decide))
      (hmark (by decide)) hlen hin)⟩

/-! ### Namespaces -/

lemma labelChar_of_blank {c : Char} (h : blank c = true) : labelChar c = false := by
  simp only [blank, Bool.or_eq_true, decide_eq_true_eq] at h
  rcases h with (((rfl | rfl) | rfl) | rfl) | h
  · decide
  · decide
  · decide
  · decide
  · rw [show c = Char.ofNat 12 by rw [← h, Char.ofNat_toNat]]
    decide

/-- A DNS label is no credential material. -/
lemma sensitive_label {s : String} (h : ∀ c ∈ s.toList, labelChar c = true) :
    sensitive s = false :=
  clean_utf8_iff.1 (clean_of_forall (by decide) (fun _ => exists_of_word (by decide) fun _ =>
    exists_blank_of_bearer fun _ => labelChar_of_blank) h)

/-- Redaction leaves a DNS label as it is. -/
lemma redact_label {s : String} (h : ∀ c ∈ s.toList, labelChar c = true)
    (hlen : s.toList.length ≤ maxString) : redact s = s := by
  have hsize : (s.toList.map Char.utf8Size).sum = s.toList.length := by
    rw [List.map_congr_left fun c hc => utf8Size_of_labelChar (h c hc)]
    simp
  rw [redact, if_neg (by simp [sensitive_label h]), takeBytes_eq_self (by rw [hsize]; exact hlen),
    String.ofList_toList]

end Redaction

end Afterlock
