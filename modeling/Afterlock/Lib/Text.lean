import Mathlib

/-!
# Text: splitting, prefixes, decimal numerals

String operations of a scripting language on Lean strings, with the facts about them that the
identifiers built by concatenation need: a piece without the separator can be split off at the
end (`append_sep_inj`), a prefix that ends with the separator does not reach into a piece without
it (`hasPrefix_of_hasPrefix_append`), and decimal numerals are injective and have no separator.
-/

namespace Afterlock

namespace Text

/-! ### Sorting by a key -/

/-- `sorted(xs, key=key)`: stable, ascending. -/
def sortedBy {α κ : Type*} [LE κ] [DecidableLE κ] (key : α → κ) (xs : List α) : List α :=
  xs.insertionSort fun a b => key a ≤ key b

@[simp] lemma mem_sortedBy {α κ : Type*} [LE κ] [DecidableLE κ] {key : α → κ} {xs : List α}
    {x : α} : x ∈ sortedBy key xs ↔ x ∈ xs := List.mem_insertionSort _

lemma sortedBy_perm {α κ : Type*} [LE κ] [DecidableLE κ] (key : α → κ) (xs : List α) :
    (sortedBy key xs).Perm xs := List.perm_insertionSort _ _

/-- The order in which the elements are given does not matter, if no two have one key. -/
lemma sortedBy_eq_of_perm {α κ : Type*} [LinearOrder κ] {key : α → κ} {xs ys : List α}
    (h : xs.Perm ys) (hinj : ∀ x ∈ xs, ∀ y ∈ xs, key x = key y → x = y) :
    sortedBy key xs = sortedBy key ys := by
  have hxs : (sortedBy key xs).Pairwise fun a b => key a ≤ key b :=
    List.pairwise_insertionSort (fun a b : α => key a ≤ key b) xs
  have hys : (sortedBy key ys).Pairwise fun a b => key a ≤ key b :=
    List.pairwise_insertionSort (fun a b : α => key a ≤ key b) ys
  refine ((sortedBy_perm key xs).trans (h.trans (sortedBy_perm key ys).symm)).eq_of_pairwise
    (fun a b ha hb hab hba => ?_) hxs hys
  exact hinj a (mem_sortedBy.1 ha) b (h.mem_iff.2 (mem_sortedBy.1 hb)) (le_antisymm hab hba)

/-- Filtering a sorted list commutes with inserting. -/
lemma filter_orderedInsert {α : Type*} {r : α → α → Prop} [DecidableRel r] [IsTrans α r]
    {p : α → Bool} {a : α} {l : List α} (hl : l.Pairwise r) :
    (l.orderedInsert r a).filter p =
      if p a then (l.filter p).orderedInsert r a else l.filter p := by
  induction l with
  | nil => cases hp : p a <;> simp [hp]
  | cons b l ih =>
      obtain ⟨hb, hl⟩ := List.pairwise_cons.1 hl
      have ih := ih hl
      by_cases hab : r a b
      · rw [List.orderedInsert_cons_of_le _ _ hab]
        have hall : ∀ c ∈ (b :: l).filter p, r a c := by
          intro c hc
          rcases List.mem_cons.1 (List.mem_filter.1 hc).1 with rfl | hc
          · exact hab
          · exact trans_of r hab (hb c hc)
        cases hp : p a with
        | false => simp [List.filter_cons, hp]
        | true =>
            rw [List.filter_cons_of_pos hp, if_pos rfl]
            cases hf : (b :: l).filter p with
            | nil => rfl
            | cons c cs =>
                rw [List.orderedInsert_cons_of_le _ _ (hall c (hf ▸ List.mem_cons_self))]
      · rw [List.orderedInsert_of_not_le _ _ hab]
        cases hp : p b with
        | false => rw [List.filter_cons_of_neg (by simp [hp]), List.filter_cons_of_neg (by simp [hp]), ih]
        | true =>
            rw [List.filter_cons_of_pos hp, List.filter_cons_of_pos hp, ih]
            split_ifs
            · rw [List.orderedInsert_of_not_le _ _ hab]
            · rfl

/-- The sorted list of a part is the part of the sorted list. -/
lemma filter_sortedBy {α κ : Type*} [LE κ] [DecidableLE κ] [IsTrans κ (· ≤ ·)]
    [Std.Total fun a b : κ => a ≤ b] {key : α → κ} {xs : List α} {p : α → Bool} :
    (sortedBy key xs).filter p = sortedBy key (xs.filter p) := by
  have : IsTrans α fun a b => key a ≤ key b := ⟨fun _ _ _ h h' => IsTrans.trans _ _ _ h h'⟩
  have : Std.Total fun a b : α => key a ≤ key b := ⟨fun a b => Std.Total.total (key a) (key b)⟩
  unfold sortedBy
  induction xs with
  | nil => rfl
  | cons x xs ih =>
      rw [List.insertionSort_cons, filter_orderedInsert (List.pairwise_insertionSort _ _), ih]
      cases hp : p x <;> simp [hp]

/-- The distinct entries of a part are the part of the distinct entries. -/
lemma filter_dedup {α : Type*} [DecidableEq α] {xs : List α} {p : α → Bool} :
    xs.dedup.filter p = (xs.filter p).dedup := by
  induction xs with
  | nil => rfl
  | cons x xs ih =>
      by_cases hmem : x ∈ xs <;> cases hp : p x
      · rw [List.dedup_cons_of_mem hmem, List.filter_cons_of_neg (by simp [hp]), ih]
      · rw [List.dedup_cons_of_mem hmem, List.filter_cons_of_pos hp,
          List.dedup_cons_of_mem (List.mem_filter.2 ⟨hmem, hp⟩), ih]
      · rw [List.dedup_cons_of_notMem hmem, List.filter_cons_of_neg (by simp [hp]),
          List.filter_cons_of_neg (by simp [hp]), ih]
      · rw [List.dedup_cons_of_notMem hmem, List.filter_cons_of_pos hp, List.filter_cons_of_pos hp,
          List.dedup_cons_of_notMem fun h => hmem (List.mem_filter.1 h).1, ih]

/-! ### Prefixes and splitting -/

/-- `s.startswith(p)`. -/
def hasPrefix (p s : String) : Bool := p.toList.isPrefixOf s.toList

lemma hasPrefix_iff {p s : String} : hasPrefix p s = true ↔ ∃ t, s = p ++ t := by
  rw [hasPrefix, List.isPrefixOf_iff_prefix]
  constructor
  · rintro ⟨t, ht⟩
    exact ⟨String.ofList t, String.toList_inj.1 (by simp [← ht])⟩
  · rintro ⟨t, rfl⟩
    exact ⟨t.toList, by simp⟩

@[simp] lemma hasPrefix_append (p t : String) : hasPrefix p (p ++ t) = true :=
  hasPrefix_iff.2 ⟨t, rfl⟩

/-- `s[len(p):]`. -/
def dropLen (p s : String) : String := String.ofList (s.toList.drop p.toList.length)

@[simp] lemma dropLen_append (p t : String) : dropLen p (p ++ t) = t := by
  simp [dropLen]

/-- `s.split(c)`. -/
def splitOn (c : Char) (s : String) : List String := (s.toList.splitOn c).map String.ofList

/-- Whether a character occurs in a string. -/
def HasChar (c : Char) (s : String) : Prop := c ∈ s.toList

instance (c : Char) (s : String) : Decidable (HasChar c s) :=
  inferInstanceAs (Decidable (c ∈ s.toList))

@[simp] lemma hasChar_append {c : Char} {s t : String} :
    HasChar c (s ++ t) ↔ HasChar c s ∨ HasChar c t := by
  simp [HasChar]

lemma not_mem_of_mem_splitOn {c : Char} {cs l : List Char} (hl : l ∈ cs.splitOn c) : c ∉ l := by
  induction cs generalizing l with
  | nil =>
      simp only [List.splitOn_eq_splitOnP, List.splitOnP_nil, List.mem_singleton] at hl
      simp [hl]
  | cons d cs ih =>
      rw [List.splitOn_eq_splitOnP, List.splitOnP_cons_eq_if_modifyHead] at hl
      simp only [List.splitOn_eq_splitOnP] at ih
      split at hl
      · rcases List.mem_cons.1 hl with rfl | hl
        · simp
        · exact ih hl
      · next hd =>
          rcases hsplit : cs.splitOnP (· == c) with _ | ⟨x, xs⟩
          · simp [hsplit] at hl
          · rw [hsplit, List.modifyHead_cons, List.mem_cons] at hl
            rcases hl with rfl | hl
            · have hx := ih (l := x) (by simp [hsplit])
              have hdc : d ≠ c := by simpa using hd
              simpa [hx] using hdc.symm
            · exact ih (by simp [hsplit, hl])

/-- Splitting at a separator gives `a` and `b` exactly for `a`, the separator and `b`, where
neither piece contains the separator. -/
lemma splitOn_eq_pair_iff {c : Char} {s a b : String} :
    splitOn c s = [a, b] ↔
      s.toList = a.toList ++ c :: b.toList ∧ ¬ HasChar c a ∧ ¬ HasChar c b := by
  constructor
  · intro h
    have hpieces : s.toList.splitOn c = [a.toList, b.toList] := by
      have := congrArg (List.map String.toList) h
      simpa [splitOn, Function.comp_def] using this
    have hjoin : [c].intercalate (s.toList.splitOn c) = s.toList := List.intercalate_splitOn c
    rw [hpieces] at hjoin
    have hfree : ∀ l ∈ s.toList.splitOn c, c ∉ l := fun l hl hc =>
      not_mem_of_mem_splitOn hl hc
    rw [hpieces] at hfree
    refine ⟨by simpa [List.intercalate] using hjoin.symm, ?_, ?_⟩
    · exact hfree _ (by simp)
    · exact hfree _ (by simp)
  · rintro ⟨hs, ha, hb⟩
    have hpieces : s.toList.splitOn c = [a.toList, b.toList] := by
      rw [hs, show a.toList ++ c :: b.toList = [c].intercalate [a.toList, b.toList] by
        simp [List.intercalate]]
      exact List.splitOn_intercalate c (by simpa [HasChar] using ⟨ha, hb⟩) (by simp)
    simp [splitOn, hpieces]

/-- The last separator of a string determines how the string is cut there. -/
lemma append_sep_inj {c : Char} {a a' b b' : List Char} (h : a ++ c :: b = a' ++ c :: b')
    (hb : c ∉ b) (hb' : c ∉ b') : a = a' ∧ b = b' := by
  rcases List.append_eq_append_iff.1 h with ⟨d, hd, hd'⟩ | ⟨d, hd, hd'⟩
  · cases d with
    | nil => exact ⟨by simpa using hd.symm, by simpa using hd'⟩
    | cons x d =>
        simp only [List.cons_append, List.cons.injEq] at hd'
        exact absurd (by simp [hd'.2]) hb
  · cases d with
    | nil => exact ⟨by simpa using hd, by simpa using hd'.symm⟩
    | cons x d =>
        simp only [List.cons_append, List.cons.injEq] at hd'
        exact absurd (by simp [hd'.2]) hb'

/-- A prefix ending in a character that does not occur in the appended piece is already a prefix
of what stands before that piece. -/
lemma hasPrefix_of_hasPrefix_append {p s t : String} {c : Char}
    (hp : hasPrefix (p.push c) (s ++ t) = true) (ht : ¬ HasChar c t) :
    hasPrefix (p.push c) s = true := by
  simp only [hasPrefix, List.isPrefixOf_iff_prefix, String.toList_push, String.toList_append]
    at hp ⊢
  obtain ⟨r, hr⟩ := hp
  rcases List.append_eq_append_iff.1 hr with ⟨d, hd, -⟩ | ⟨d, hd, hd'⟩
  · exact ⟨d, hd.symm⟩
  · rcases List.eq_nil_or_concat d with rfl | ⟨d, x, rfl⟩
    · exact ⟨[], by simpa using hd⟩
    · exfalso
      have hx : x = c := by
        have := congrArg List.getLast? hd
        simpa using this.symm
      subst hx
      exact ht (by simp [HasChar, hd'])

/-! ### Decimal numerals -/

/-- The code points of the decimal digits zero; each is followed by its digits one to nine. -/
def zeroDigits : List ℕ :=
  [0x30, 0x660, 0x6f0, 0x7c0, 0x966, 0x9e6, 0xa66, 0xae6, 0xb66, 0xbe6, 0xc66, 0xce6, 0xd66, 0xde6,
    0xe50, 0xed0, 0xf20, 0x1040, 0x1090, 0x17e0, 0x1810, 0x1946, 0x19d0, 0x1a80, 0x1a90, 0x1b50,
    0x1bb0, 0x1c40, 0x1c50, 0xa620, 0xa8d0, 0xa900, 0xa9d0, 0xa9f0, 0xaa50, 0xabf0, 0xff10, 0x104a0,
    0x10d30, 0x11066, 0x110f0, 0x11136, 0x111d0, 0x112f0, 0x11450, 0x114d0, 0x11650, 0x116c0,
    0x11730, 0x118e0, 0x11950, 0x11c50, 0x11d50, 0x11da0, 0x16a60, 0x16ac0, 0x16b50, 0x1d7ce,
    0x1d7d8, 0x1d7e2, 0x1d7ec, 0x1d7f6, 0x1e140, 0x1e2f0, 0x1e950, 0x1fbf0]

/-- The value of a decimal digit of any script. -/
def digitValue? (c : Char) : Option ℕ :=
  (zeroDigits.find? fun z => decide (z ≤ c.toNat ∧ c.toNat < z + 10)).map fun z => c.toNat - z

/-- White space, as `str.isspace` has it. -/
def isSpace (c : Char) : Bool :=
  let n := c.toNat
  (0x9 ≤ n && n ≤ 0xd) || (0x1c ≤ n && n ≤ 0x20) || n == 0x85 || n == 0xa0 || n == 0x1680 ||
    (0x2000 ≤ n && n ≤ 0x200a) || n == 0x2028 || n == 0x2029 || n == 0x202f || n == 0x205f ||
    n == 0x3000

/-- The text without some characters at both ends. -/
def stripOf (p : Char → Bool) (cs : List Char) : List Char :=
  ((cs.dropWhile p).reverse.dropWhile p).reverse

/-- The text without white space at both ends, `s.strip()`. -/
def strip (cs : List Char) : List Char := stripOf isSpace cs

/-- White space around a numeral.  The separators U+001C to U+001F are white space for `strip` but not
for `int`. -/
def isIntSpace (c : Char) : Bool := isSpace c && !(0x1c ≤ c.toNat && c.toNat ≤ 0x1f)

/-- The value of a numeral: digits with single underscores between them. `acc` is the value read
so far and `sep` says that the last character was a digit. -/
def readDigits : List Char → ℕ → Bool → Option ℕ
  | [], acc, sep => if sep then some acc else none
  | c :: cs, acc, sep =>
      if c = '_' then if sep then readDigits cs acc false else none
      else (digitValue? c).bind fun d => readDigits cs (10 * acc + d) true

/-- `int(s)`, without a limit on the digits; `none` is a `ValueError`. -/
def toInt? (s : String) : Option ℤ :=
  match stripOf isIntSpace s.toList with
  | '-' :: cs => (readDigits cs 0 false).map fun n => -(n : ℤ)
  | '+' :: cs => (readDigits cs 0 false).map fun n => (n : ℤ)
  | cs => (readDigits cs 0 false).map fun n => (n : ℤ)

/-- The decimal numeral of an integer, `str(n)`. -/
def ofInt (n : ℤ) : String := toString n

lemma ofInt_natCast (n : ℕ) : (ofInt n).toList = Nat.toDigits 10 n := by
  simp [ofInt, Int.repr_eq_if]

lemma ofInt_negSucc (n : ℕ) : (ofInt (Int.negSucc n)).toList = '-' :: Nat.toDigits 10 (n + 1) := by
  simp [ofInt, Int.repr_eq_if]

lemma isDigit_of_mem_toDigits {n : ℕ} {c : Char} (hc : c ∈ Nat.toDigits 10 n) :
    c.isDigit = true := Nat.isDigit_of_mem_toDigits (by decide) (by decide) hc

lemma toNat_of_isDigit {c : Char} (h : c.isDigit = true) : 0x30 ≤ c.toNat ∧ c.toNat < 0x30 + 10 := by
  simp only [Char.isDigit, Bool.and_eq_true, decide_eq_true_eq] at h
  have h1 := UInt32.le_iff_toNat_le.1 h.1
  have h2 := UInt32.le_iff_toNat_le.1 h.2
  simp only [Char.toNat]
  constructor
  · simpa using h1
  · have : c.val.toNat ≤ 57 := by simpa using h2
    omega

lemma digitValue?_of_isDigit {c : Char} (h : c.isDigit = true) :
    digitValue? c = some (c.toNat - 0x30) := by
  simp [digitValue?, zeroDigits, toNat_of_isDigit h]

lemma isIntSpace_of_isDigit {c : Char} (h : c.isDigit = true) : isIntSpace c = false := by
  have := toNat_of_isDigit h
  refine Bool.and_eq_false_iff.2 (Or.inl ?_)
  simp only [isSpace, Bool.or_eq_false_iff, Bool.and_eq_false_iff, beq_eq_false_iff_ne,
    decide_eq_false_iff_not]
  omega

lemma readDigits_of_isDigit {cs : List Char} (h : ∀ c ∈ cs, c.isDigit = true) (acc : ℕ) :
    readDigits cs acc true = some (Nat.ofDigitChars 10 cs acc) := by
  induction cs generalizing acc with
  | nil => simp [readDigits]
  | cons c cs ih =>
      have hc := h c List.mem_cons_self
      have hne : c ≠ '_' := by
        rintro rfl
        exact absurd hc (by decide)
      rw [readDigits, if_neg hne, digitValue?_of_isDigit hc, Option.bind_some,
        ih fun d hd => h d (List.mem_cons_of_mem _ hd), Nat.ofDigitChars_cons]
      simp

lemma stripOf_eq_self {p : Char → Bool} {cs : List Char} (h : ∀ c ∈ cs, p c = false) :
    stripOf p cs = cs := by
  have hdrop : ∀ ds : List Char, (∀ c ∈ ds, p c = false) → ds.dropWhile p = ds := by
    intro ds hds
    cases ds with
    | nil => rfl
    | cons d ds =>
        rw [List.dropWhile_cons_of_neg]
        simp [hds d List.mem_cons_self]
  rw [stripOf, hdrop cs h, hdrop _ (by simpa using h), List.reverse_reverse]

lemma readDigits_toDigits (n : ℕ) : readDigits (Nat.toDigits 10 n) 0 false = some n := by
  have hdig : ∀ c ∈ Nat.toDigits 10 n, c.isDigit = true := fun c => isDigit_of_mem_toDigits
  have hval : ∀ {cs : List Char}, cs ≠ [] → (∀ c ∈ cs, c.isDigit = true) →
      readDigits cs 0 false = readDigits cs 0 true := by
    intro cs hne hcs
    cases cs with
    | nil => exact absurd rfl hne
    | cons c cs =>
        have hc : c ≠ '_' := by
          rintro rfl
          exact absurd (hcs _ List.mem_cons_self) (by decide)
        simp [readDigits, hc]
  rw [hval Nat.toDigits_ne_nil hdig, readDigits_of_isDigit hdig, Nat.ofDigitChars_ten_toDigits]

/-- Reading the numeral of an integer gives the integer back. -/
lemma toInt?_ofInt (n : ℤ) : toInt? (ofInt n) = some n := by
  cases n with
  | ofNat n =>
      have hdig : ∀ c ∈ Nat.toDigits 10 n, c.isDigit = true := fun c => isDigit_of_mem_toDigits
      rw [toInt?, Int.ofNat_eq_natCast, ofInt_natCast,
        stripOf_eq_self fun c hc => isIntSpace_of_isDigit (hdig c hc)]
      split
      · next cs heq => exact absurd (hdig '-' (by simp [heq])) (by decide)
      · next cs heq => exact absurd (hdig '+' (by simp [heq])) (by decide)
      · simp [readDigits_toDigits]
  | negSucc n =>
      have hspace : ∀ c ∈ '-' :: Nat.toDigits 10 (n + 1), isIntSpace c = false := by
        intro c hc
        rcases List.mem_cons.1 hc with rfl | hc
        · decide
        · exact isIntSpace_of_isDigit (isDigit_of_mem_toDigits hc)
      rw [toInt?, ofInt_negSucc, stripOf_eq_self hspace]
      simp [readDigits_toDigits, Int.negSucc_eq]

lemma ofInt_inj {m n : ℤ} (h : ofInt m = ofInt n) : m = n := by
  have := congrArg toInt? h
  simpa [toInt?_ofInt] using this

/-- A numeral has only digits, after a sign. -/
lemma not_hasChar_ofInt {n : ℤ} {c : Char} (hc : c.isDigit = false) (hs : c ≠ '-') :
    ¬ HasChar c (ofInt n) := by
  intro h
  cases n with
  | ofNat n =>
      rw [HasChar, Int.ofNat_eq_natCast, ofInt_natCast] at h
      exact absurd (isDigit_of_mem_toDigits h) (by simp [hc])
  | negSucc n =>
      rw [HasChar, ofInt_negSucc] at h
      rcases List.mem_cons.1 h with h | h
      · exact hs h
      · exact absurd (isDigit_of_mem_toDigits h) (by simp [hc])

end Text

end Afterlock
