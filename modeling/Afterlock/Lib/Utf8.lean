import Mathlib

/-!
# Text as bytes

The bytes of a text in UTF-8, and the characters that a reader sees in any bytes: one that begins no
character counts as a character of its own, the replacement character.  A character that is ASCII
is one byte, and every byte of another one is beyond ASCII, so that a reader finds its way again at
every ASCII byte (`asChars_append`).  A word that begins with ASCII stands among the characters of a
string exactly if its bytes stand in the string (`infix_asChars_iff`).
-/

namespace Afterlock

namespace Encoding

/-- The bytes of a file. -/
abbrev Bytes : Type := List UInt8

/-- The bytes of a text in UTF-8. -/
def utf8 (cs : List Char) : Bytes := cs.flatMap String.utf8EncodeChar

/-- The character of UTF-8 at the head of a string. -/
def rune? (s : Bytes) : Option Char := s.toByteArray.utf8DecodeChar? 0

/-- The characters that a reader sees: a byte that begins no character is replaced. -/
def asChars : Bytes → List Char
  | [] => []
  | b :: bs =>
      match rune? (b :: bs) with
      | some c => c :: asChars (bs.drop (c.utf8Size - 1))
      | none => '\uFFFD' :: asChars bs
termination_by s => s.length
decreasing_by
  · simp only [List.length_drop, List.length_cons]
    omega
  · exact Nat.lt_succ_self _

/-! ### The bytes of a text -/

@[simp] lemma utf8_nil : utf8 [] = [] := rfl

lemma utf8_cons (c : Char) (cs : List Char) :
    utf8 (c :: cs) = String.utf8EncodeChar c ++ utf8 cs := List.flatMap_cons

lemma utf8_append (cs ds : List Char) : utf8 (cs ++ ds) = utf8 cs ++ utf8 ds :=
  List.flatMap_append

lemma length_utf8 (cs : List Char) : (utf8 cs).length = (cs.map Char.utf8Size).sum := by
  induction cs with
  | nil => rfl
  | cons c cs ih =>
      rw [utf8_cons, List.length_append, String.length_utf8EncodeChar, List.map_cons,
        List.sum_cons, ← ih]

lemma length_le_length_utf8 (cs : List Char) : cs.length ≤ (utf8 cs).length := by
  induction cs with
  | nil => exact Nat.le_refl _
  | cons c cs ih =>
      have hpos := c.utf8Size_pos
      rw [utf8_cons, List.length_append, String.length_utf8EncodeChar, List.length_cons]
      omega

/-- A character is ASCII. -/
def ascii (c : Char) : Bool := decide (c.toNat < 128)

lemma ascii_of_isAlphanum {c : Char} (h : c.isAlphanum = true) : ascii c = true := by
  simp only [Char.isAlphanum, Char.isAlpha, Char.isUpper, Char.isLower, Char.isDigit,
    Bool.or_eq_true, Bool.and_eq_true, decide_eq_true_eq, ge_iff_le, UInt32.le_iff_toNat_le] at h
  rw [ascii, decide_eq_true_iff]
  have hbounds : 'Z'.val.toNat = 90 ∧ 'z'.val.toNat = 122 ∧ '9'.val.toNat = 57 := by decide
  have hval : c.toNat = c.val.toNat := rfl
  omega

/-- The bytes of a character that is ASCII. -/
lemma encode_of_ascii {c : Char} (h : ascii c = true) :
    String.utf8EncodeChar c = [UInt8.ofNat c.toNat] := by
  have hc : c.val.toNat < 128 := of_decide_eq_true h
  simp only [String.utf8EncodeChar]
  rw [if_pos (by omega)]
  rfl

/-- The bytes of a character that is not ASCII are not, and the first of them only begins one. -/
lemma encode_of_not_ascii {c : Char} (h : ascii c = false) :
    ∃ b bs, String.utf8EncodeChar c = b :: bs ∧ bs ≠ [] ∧ 192 ≤ b.toNat ∧
      ∀ b ∈ bs, 128 ≤ b.toNat ∧ b.toNat < 192 := by
  have hc : ¬c.val.toNat < 128 := of_decide_eq_false h
  have hlt : c.val.toNat < 0x110000 := by
    have hv : c.val.toNat < 0xd800 ∨ 0xdfff < c.val.toNat ∧ c.val.toNat < 0x110000 := c.valid
    omega
  have hfirst {n : ℕ} (hle : 192 ≤ n) (hn : n < 256) : 192 ≤ (UInt8.ofNat n).toNat := by
    rw [UInt8.toNat_ofNat', Nat.mod_eq_of_lt hn]
    exact hle
  have hnext {n : ℕ} (hle : 128 ≤ n) (hn : n < 192) :
      128 ≤ (UInt8.ofNat n).toNat ∧ (UInt8.ofNat n).toNat < 192 := by
    rw [UInt8.toNat_ofNat', Nat.mod_eq_of_lt (by omega)]
    exact ⟨hle, hn⟩
  simp only [String.utf8EncodeChar]
  rw [if_neg (by omega)]
  split_ifs
  all_goals
    refine ⟨_, _, rfl, List.cons_ne_nil _ _, hfirst (by omega) (by omega), fun b hb => ?_⟩
    simp only [List.mem_cons, List.not_mem_nil, or_false] at hb
  · rcases hb with rfl
    exact hnext (by omega) (by omega)
  · rcases hb with rfl | rfl <;> exact hnext (by omega) (by omega)
  · rcases hb with rfl | rfl | rfl <;> exact hnext (by omega) (by omega)

lemma le_of_mem_encode {c : Char} (h : ascii c = false) {b : UInt8}
    (hb : b ∈ String.utf8EncodeChar c) : 128 ≤ b.toNat := by
  obtain ⟨b', bs, hbytes, -, hb', hbs⟩ := encode_of_not_ascii h
  rw [hbytes] at hb
  rcases List.mem_cons.1 hb with rfl | hb
  · omega
  · exact (hbs b hb).1

/-- An ASCII byte of a text is a character of it. -/
lemma mem_utf8_iff {c : Char} (hc : ascii c = true) {cs : List Char} :
    UInt8.ofNat c.toNat ∈ utf8 cs ↔ c ∈ cs := by
  have hlt : c.toNat < 128 := of_decide_eq_true hc
  have hbyte : (UInt8.ofNat c.toNat).toNat = c.toNat := by
    rw [UInt8.toNat_ofNat', Nat.mod_eq_of_lt (by omega)]
  constructor
  · intro h
    obtain ⟨d, hd, hmem⟩ := List.mem_flatMap.1 h
    by_cases hascii : ascii d = true
    · have hdlt : d.toNat < 128 := of_decide_eq_true hascii
      rw [encode_of_ascii hascii, List.mem_singleton] at hmem
      have heq := congrArg UInt8.toNat hmem
      rw [hbyte, UInt8.toNat_ofNat', Nat.mod_eq_of_lt (by omega)] at heq
      rwa [← Char.toNat_inj.1 heq] at hd
    · have hle := le_of_mem_encode (by simpa using hascii) hmem
      omega
  · intro h
    exact List.mem_flatMap.2 ⟨c, h, by rw [encode_of_ascii hc]; exact List.mem_singleton_self _⟩

lemma head?_utf8 {c : Char} (h : ascii c = true) (cs : List Char) :
    (utf8 (c :: cs)).head? = some (UInt8.ofNat c.toNat) := by
  rw [utf8_cons, encode_of_ascii h]
  rfl

/-! ### The characters of a string -/

@[simp] lemma asChars_nil : asChars [] = [] := by rw [asChars]

lemma rune?_append (c : Char) (s : Bytes) : rune? (String.utf8EncodeChar c ++ s) = some c := by
  rw [rune?, List.toByteArray_append]
  exact ByteArray.utf8DecodeChar?_utf8EncodeChar_append

lemma exists_of_rune? {s : Bytes} {c : Char} (h : rune? s = some c) :
    ∃ t, s = String.utf8EncodeChar c ++ t := by
  obtain ⟨t, ht⟩ := ByteArray.exists_of_utf8DecodeChar?_eq_some h
  refine ⟨t.data.toList, List.toByteArray_inj.1 ?_⟩
  rw [ht, List.toByteArray_append]
  congr 1
  exact ByteArray.ext (by rw [List.data_toByteArray, Array.toArray_toList])

lemma asChars_encode (c : Char) (s : Bytes) :
    asChars (String.utf8EncodeChar c ++ s) = c :: asChars s := by
  have hrune := rune?_append c s
  have hsize := String.length_utf8EncodeChar c
  cases hbytes : String.utf8EncodeChar c with
  | nil =>
      rw [hbytes] at hsize
      exact absurd hsize.symm c.utf8Size_pos.ne'
  | cons b bs =>
      rw [hbytes] at hrune hsize
      rw [List.cons_append] at hrune ⊢
      rw [asChars, hrune]
      have hdrop : (bs ++ s).drop (c.utf8Size - 1) = s := by
        rw [← hsize, List.length_cons, Nat.add_sub_cancel, List.drop_left]
      simp only [hdrop]

lemma asChars_of_none {b : UInt8} {bs : Bytes} (h : rune? (b :: bs) = none) :
    asChars (b :: bs) = '\uFFFD' :: asChars bs := by
  rw [asChars, h]

lemma asChars_utf8_append (cs : List Char) (s : Bytes) :
    asChars (utf8 cs ++ s) = cs ++ asChars s := by
  induction cs with
  | nil => rfl
  | cons c cs ih =>
      rw [utf8_cons, List.append_assoc, asChars_encode, ih]
      rfl

/-- A text in UTF-8 is seen as it is. -/
lemma asChars_utf8 (cs : List Char) : asChars (utf8 cs) = cs := by
  have h := asChars_utf8_append cs []
  rwa [List.append_nil, asChars_nil, List.append_nil] at h

/-- How a string begins: with a character, or with a byte that begins none. -/
lemma asChars_cases (s : Bytes) : s = [] ∨
    (∃ c t, s = String.utf8EncodeChar c ++ t ∧ t.length < s.length ∧
      asChars s = c :: asChars t) ∨
    ∃ b t, s = b :: t ∧ rune? s = none ∧ asChars s = '\uFFFD' :: asChars t := by
  cases s with
  | nil => exact .inl rfl
  | cons b bs =>
      refine .inr ?_
      cases hrune : rune? (b :: bs) with
      | some c =>
          obtain ⟨t, ht⟩ := exists_of_rune? hrune
          refine .inl ⟨c, t, ht, ?_, by rw [ht, asChars_encode]⟩
          rw [ht, List.length_append, String.length_utf8EncodeChar]
          exact Nat.lt_add_of_pos_left c.utf8Size_pos
      | none => exact .inr ⟨b, bs, rfl, rfl, asChars_of_none hrune⟩

/-- A byte that begins no character is not ASCII. -/
lemma le_of_rune?_eq_none {b : UInt8} {bs : Bytes} (h : rune? (b :: bs) = none) :
    128 ≤ b.toNat := by
  by_contra hlt
  have hb := b.toNat_lt
  have hc : (Char.ofNat b.toNat).toNat = b.toNat := by
    rw [Char.toNat_ofNat, if_pos (Or.inl (by omega))]
  have hencode : String.utf8EncodeChar (Char.ofNat b.toNat) = [b] := by
    rw [encode_of_ascii (by rw [ascii, hc]; simpa using hlt), hc, UInt8.ofNat_toNat]
  have hsome := rune?_append (Char.ofNat b.toNat) bs
  rw [hencode, List.singleton_append, h] at hsome
  cases hsome

/-- No character begins in a string and ends in what follows it from an ASCII byte on. -/
lemma rune?_ne_none_of_append {s t r : Bytes} {c : Char} (hr : ∀ b ∈ r.head?, b.toNat < 128)
    (hs : s ≠ []) (h : s ++ r = String.utf8EncodeChar c ++ t) : rune? s ≠ none := by
  rcases List.append_eq_append_iff.1 h with ⟨x, hx, hrx⟩ | ⟨x, rfl, -⟩
  · cases x with
    | nil =>
        rw [List.append_nil] at hx
        have hrune := rune?_append c []
        rw [List.append_nil, hx] at hrune
        rw [hrune]
        exact Option.some_ne_none c
    | cons b x =>
        -- the character has an ASCII byte behind its first one
        exfalso
        have hb : b.toNat < 128 := hr b (by rw [hrx]; rfl)
        by_cases hc : ascii c = true
        · rw [encode_of_ascii hc] at hx
          have hlen := congrArg List.length hx
          have hpos := List.length_pos_iff.2 hs
          simp only [List.length_append, List.length_cons, List.length_nil] at hlen
          omega
        · have hle := le_of_mem_encode (by simpa using hc)
            (hx ▸ List.mem_append_right _ List.mem_cons_self : b ∈ String.utf8EncodeChar c)
          omega
  · rw [rune?_append]
    exact Option.some_ne_none c

/-- What follows from an ASCII byte on is seen as it is seen alone. -/
lemma asChars_append (s : Bytes) {r : Bytes} (hr : ∀ b ∈ r.head?, b.toNat < 128) :
    asChars (s ++ r) = asChars s ++ asChars r := by
  induction hn : s.length using Nat.strong_induction_on generalizing s with
  | _ n ih =>
      subst hn
      obtain rfl | ⟨c, t, ht, hlen, hc⟩ | ⟨b, t, rfl, hnone, hb⟩ := asChars_cases s
      · rw [List.nil_append, asChars_nil, List.nil_append]
      · rw [hc, ht, List.append_assoc, asChars_encode, ih _ hlen t rfl, List.cons_append]
      · have hnone' : rune? (b :: (t ++ r)) = none := by
          cases hsome : rune? (b :: (t ++ r)) with
          | none => rfl
          | some c =>
              obtain ⟨x, hx⟩ := exists_of_rune? hsome
              rw [← List.cons_append] at hx
              exact absurd hnone (rune?_ne_none_of_append hr (List.cons_ne_nil _ _) hx)
        rw [hb, List.cons_append, asChars_of_none hnone', ih _ (Nat.lt_succ_self _) t rfl,
          List.cons_append]

/-! ### Words -/

/-- A word that a reader sees at the head of a string stands there. -/
lemma prefix_of_prefix_asChars {u : List Char} (hu : '\uFFFD' ∉ u) {s : Bytes}
    (h : u <+: asChars s) : utf8 u <+: s := by
  induction u generalizing s with
  | nil => exact List.nil_prefix
  | cons c u ih =>
      rw [List.mem_cons, not_or] at hu
      obtain rfl | ⟨d, t, rfl, -, hd⟩ | ⟨b, t, -, -, hb⟩ := asChars_cases s
      · rw [asChars_nil, List.prefix_nil] at h
        cases h
      · rw [hd] at h
        obtain ⟨rfl, htail⟩ := List.cons_prefix_cons.1 h
        rw [utf8_cons]
        exact (List.prefix_append_right_inj _).2 (ih hu.2 htail)
      · rw [hb] at h
        exact absurd (List.cons_prefix_cons.1 h).1.symm hu.1

/-- A word that begins with ASCII is seen in a string exactly if its bytes stand there. -/
lemma infix_asChars_iff {c : Char} {u : List Char} (hc : ascii c = true) (hu : '\uFFFD' ∉ c :: u)
    {s : Bytes} : c :: u <:+: asChars s ↔ utf8 (c :: u) <:+: s := by
  constructor
  · intro h
    -- by induction on the length: the word begins at the head, or later
    induction hn : s.length using Nat.strong_induction_on generalizing s with
    | _ n ih =>
        subst hn
        obtain rfl | ⟨d, t, ht, hlen, hd⟩ | ⟨b, t, ht, -, hb⟩ := asChars_cases s
        · rw [asChars_nil, List.infix_nil] at h
          cases h
        · rw [hd, List.infix_cons_iff, ← hd] at h
          rcases h with h | h
          · exact (prefix_of_prefix_asChars hu h).isInfix
          · exact (ih _ hlen h rfl).trans (ht ▸ (List.suffix_append _ _).isInfix)
        · rw [hb, List.infix_cons_iff, ← hb] at h
          rcases h with h | h
          · exact (prefix_of_prefix_asChars hu h).isInfix
          · have hlen : t.length < s.length := by
              rw [ht, List.length_cons]
              exact Nat.lt_succ_self _
            exact (ih _ hlen h rfl).trans (ht ▸ (List.suffix_cons _ _).isInfix)
  · -- the reader finds its way again at the first character of the word, which is ASCII
    rintro ⟨x, y, rfl⟩
    have hlt : c.toNat < 128 := of_decide_eq_true hc
    have hhead : ∀ b ∈ (utf8 (c :: u) ++ y).head?, b.toNat < 128 := by
      rw [utf8_cons, encode_of_ascii hc]
      rintro b hb
      obtain rfl := Option.some.inj hb
      rw [UInt8.toNat_ofNat', Nat.mod_eq_of_lt (by omega)]
      exact hlt
    rw [List.append_assoc, asChars_append x hhead, asChars_utf8_append]
    exact ⟨asChars x, asChars y, List.append_assoc _ _ _⟩

/-! ### What is written in the place of other bytes -/

/-- A string is another one in which bytes that are not ASCII may be replaced. -/
inductive Replaced : Bytes → Bytes → Prop
  | nil : Replaced [] []
  | cons (b : UInt8) {s t : Bytes} : Replaced s t → Replaced (b :: s) (b :: t)
  | mark {b : UInt8} {s t : Bytes} : 128 ≤ b.toNat → Replaced s t →
      Replaced (b :: s) (0xEF :: 0xBF :: 0xBD :: t)

namespace Replaced

variable {s t u : Bytes}

lemma append_left (x : Bytes) (h : Replaced s t) : Replaced (x ++ s) (x ++ t) := by
  induction x with
  | nil => exact h
  | cons b x ih => exact cons b ih

/-- Writing what a reader sees replaces the bytes that begin no character. -/
lemma asChars (s : Bytes) : Replaced s (utf8 (asChars s)) := by
  induction hn : s.length using Nat.strong_induction_on generalizing s with
  | _ n ih =>
      subst hn
      obtain rfl | ⟨c, t, ht, hlen, hc⟩ | ⟨b, t, rfl, hnone, hb⟩ := asChars_cases s
      · rw [asChars_nil]
        exact nil
      · rw [hc, utf8_cons]
        nth_rewrite 1 [ht]
        exact (ih _ hlen t rfl).append_left _
      · have hmark : utf8 ('\uFFFD' :: Encoding.asChars t) =
            0xEF :: 0xBF :: 0xBD :: utf8 (Encoding.asChars t) := by
          rw [utf8_cons, show String.utf8EncodeChar '\uFFFD' = [0xEF, 0xBF, 0xBD] by decide]
          rfl
        rw [hb, hmark]
        exact mark (le_of_rune?_eq_none hnone) (ih _ (Nat.lt_succ_self _) t rfl)

/-- A word without the first byte of a mark stands at the head of the string as it did before. -/
lemma isPrefix (h : Replaced s t) (hu : (0xEF : UInt8) ∉ u) (hpre : u <+: t) : u <+: s := by
  induction u generalizing s t with
  | nil => exact List.nil_prefix
  | cons b u ih =>
      rw [List.mem_cons, not_or] at hu
      cases h with
      | nil => exact hpre
      | cons d h =>
          obtain ⟨rfl, htail⟩ := List.cons_prefix_cons.1 hpre
          exact List.cons_prefix_cons.2 ⟨rfl, ih h hu.2 htail⟩
      | mark _ h => exact absurd (List.cons_prefix_cons.1 hpre).1.symm hu.1

/-- A word without the first and the last byte of a mark stood in the string before. -/
lemma isInfix (h : Replaced s t) (hfirst : (0xEF : UInt8) ∉ u) (hlast : (0xBD : UInt8) ∉ u)
    (hlen : 1 < u.length) (hin : u <:+: t) : u <:+: s := by
  induction h with
  | nil => exact hin
  | @cons b s t h ih =>
      rcases List.infix_cons_iff.1 hin with hpre | hin
      · exact ((cons b h).isPrefix hfirst hpre).isInfix
      · exact List.infix_cons_iff.2 (.inr (ih hin))
  | @mark b s t hb h ih =>
      rcases List.infix_cons_iff.1 hin with hpre | hin
      · exact ((mark hb h).isPrefix hfirst hpre).isInfix
      rcases List.infix_cons_iff.1 hin with hpre | hin
      · -- the word would go on with the last byte of the mark
        obtain ⟨v, hv⟩ := hpre
        rcases u with _ | ⟨b₁, _ | ⟨b₂, u⟩⟩
        · exact absurd hlen (by decide)
        · exact absurd hlen (Nat.lt_irrefl 1)
        · obtain ⟨-, hv⟩ := List.cons.inj hv
          obtain ⟨rfl, -⟩ := List.cons.inj hv
          exact absurd (List.mem_cons_of_mem _ List.mem_cons_self) hlast
      rcases List.infix_cons_iff.1 hin with hpre | hin
      · cases u with
        | nil => exact absurd hlen (by decide)
        | cons b₁ u =>
            obtain ⟨rfl, -⟩ := List.cons_prefix_cons.1 hpre
            exact absurd List.mem_cons_self hlast
      · exact List.infix_cons_iff.2 (.inr (ih hin))

end Replaced

end Encoding

end Afterlock
