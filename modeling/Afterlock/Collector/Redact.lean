import Afterlock.Collector.Encoding
import Afterlock.Patterns

/-!
# Redaction of byte strings

`Sensitive` and `String` of the package `redact`, for the strings of the collector, which may have
any bytes.  What `String` gives is never sensitive (`sensitive_string`), and for text in UTF-8 it is
`redact` (`string_utf8`).

`Marshal` replaces the bytes that are not UTF-8 (`asText`); that makes no text sensitive
(`sensitive_asText`).
-/

namespace Afterlock

namespace Collector

namespace Redact

open Encoding Redaction

/-! ### Strings -/

/-- `Sensitive`.  A pattern sees the bytes that begin no character as the replacement character. -/
def sensitive (s : Bytes) : Bool :=
  matchesAny (asChars s) || s.contains 37 && matchesAny (asChars (percentDecode s))

/-- `utf8.RuneStart`: the byte is none of those that follow the first byte of a character. -/
def runeStart (b : UInt8) : Bool := !(0x80 ≤ b.toNat && b.toNat < 0xc0)

/-- Where `String` cuts a text that is longer than `n` bytes. -/
def cutAt (s : Bytes) : ℕ → ℕ
  | 0 => 0
  | n + 1 => if s[n + 1]?.any runeStart then n + 1 else cutAt s n

/-- `String`. -/
def string (s : Bytes) : Bytes :=
  if sensitive s then utf8 placeholder.toList
  else if s.length ≤ Redaction.maxString then s
  else s.take (cutAt s Redaction.maxString)

lemma sensitive_eq_false_iff {s : Bytes} : sensitive s = false ↔ Clean s := clean_iff.symm

lemma cutAt_le (s : Bytes) (n : ℕ) : cutAt s n ≤ n := by
  induction n with
  | zero => exact Nat.le_refl _
  | succ n ih =>
      rw [cutAt]
      split_ifs
      · exact Nat.le_refl _
      · exact Nat.le_succ_of_le ih

lemma sensitive_utf8 (cs : List Char) :
    sensitive (utf8 cs) = Redaction.sensitive (String.ofList cs) := by
  have hiff := clean_utf8_iff (t := String.ofList cs)
  rw [String.toList_ofList, ← sensitive_eq_false_iff, ← Bool.not_eq_true,
    ← Bool.not_eq_true] at hiff
  exact Bool.eq_iff_iff.2 (not_iff_not.1 hiff)

lemma sensitive_placeholder : sensitive (utf8 placeholder.toList) = false := by
  rw [sensitive_utf8, String.ofList_toList]
  exact sensitive_of_plain (by decide)

/-- What is taken from a string that is not sensitive is not sensitive. -/
lemma sensitive_take {s : Bytes} (h : sensitive s = false) (n : ℕ) :
    sensitive (s.take n) = false := by
  rw [sensitive_eq_false_iff] at h ⊢
  rw [← List.take_append_drop n s] at h
  exact h.of_append

lemma sensitive_string (s : Bytes) : sensitive (string s) = false := by
  rw [string]
  split_ifs with hs hlen
  · exact sensitive_placeholder
  · simpa using hs
  · exact sensitive_take (by simpa using hs) _

lemma length_string_le (s : Bytes) : (string s).length ≤ Redaction.maxString := by
  rw [string]
  split_ifs with hs hlen
  · decide
  · exact hlen
  · rw [List.length_take]
    exact (Nat.min_le_left _ _).trans (cutAt_le s _)

lemma string_eq_self {s : Bytes} (hlen : s.length ≤ Redaction.maxString) (hs : sensitive s = false) :
    string s = s := by
  rw [string, hs, if_neg (by decide), if_pos hlen]

lemma string_string (s : Bytes) : string (string s) = string s :=
  string_eq_self (length_string_le s) (sensitive_string s)

/-! ### What `Marshal` writes -/

/-- The text that `Marshal` writes for a string: a byte that begins no character is replaced. -/
def asText (s : Bytes) : String := String.ofList (asChars s)

/-- `Marshal` makes no string sensitive. -/
lemma sensitive_asText {s : Bytes} (h : sensitive s = false) :
    Redaction.sensitive (asText s) = false := by
  refine clean_utf8_iff.1 ?_
  rw [asText, String.toList_ofList]
  exact (sensitive_eq_false_iff.1 h).of_replaced (Replaced.asChars s)

/-! ### Redaction of text -/

/-- The first byte of a character begins one, and the others do not. -/
lemma runeStart_encode (c : Char) : ∃ b bs, String.utf8EncodeChar c = b :: bs ∧
    runeStart b = true ∧ ∀ b ∈ bs, runeStart b = false := by
  by_cases h : ascii c = true
  · refine ⟨_, [], encode_of_ascii h, ?_, nofun⟩
    have hc : c.toNat < 128 := of_decide_eq_true h
    rw [runeStart, UInt8.toNat_ofNat', Nat.mod_eq_of_lt (by omega)]
    simp
    omega
  · rw [Bool.not_eq_true] at h
    obtain ⟨b, bs, hbytes, -, hb, hbs⟩ := encode_of_not_ascii h
    refine ⟨b, bs, hbytes, ?_, fun b' hb' => ?_⟩
    · simp only [runeStart, Bool.not_eq_true', Bool.and_eq_false_iff, decide_eq_false_iff_not]
      omega
    · have hle := hbs b' hb'
      simp only [runeStart, Bool.not_eq_false', Bool.and_eq_true, decide_eq_true_eq]
      exact hle

lemma cutAt_eq_zero {s : Bytes} {n : ℕ} (h : ∀ i, i < n → s[i + 1]?.any runeStart = false) :
    cutAt s n = 0 := by
  induction n with
  | zero => rfl
  | succ n ih =>
      rw [cutAt, h n (Nat.lt_succ_self _), if_neg (by decide)]
      exact ih fun i hi => h i (Nat.lt_succ_of_lt hi)

/-- A text is cut behind a piece of it as the rest of it is cut. -/
lemma cutAt_append {s t : Bytes} (hs : s ≠ []) (ht : t.head?.any runeStart = true) (n : ℕ) :
    cutAt (s ++ t) (s.length + n) = s.length + cutAt t n := by
  induction n with
  | zero =>
      obtain ⟨m, hm⟩ := Nat.exists_eq_succ_of_ne_zero (List.length_pos_iff.2 hs).ne'
      rw [Nat.add_zero, cutAt, Nat.add_zero, hm, cutAt, ← Nat.succ_eq_add_one, ← hm,
        List.getElem?_append_right (Nat.le_refl _), Nat.sub_self, ← List.head?_eq_getElem?, ht,
        if_pos rfl]
  | succ n ih =>
      rw [← Nat.add_assoc, cutAt, cutAt, Nat.add_assoc,
        List.getElem?_append_right (Nat.le_add_right _ _), Nat.add_sub_cancel_left]
      split_ifs
      · rfl
      · exact ih

lemma take_cutAt_utf8 (cs : List Char) {n : ℕ} (hn : n < (utf8 cs).length) :
    (utf8 cs).take (cutAt (utf8 cs) n) = utf8 (takeBytes n cs) := by
  induction cs generalizing n with
  | nil => exact absurd hn (Nat.not_lt_zero n)
  | cons c cs ih =>
      have hcons : utf8 (c :: cs) = String.utf8EncodeChar c ++ utf8 cs := List.flatMap_cons
      have hsize := String.length_utf8EncodeChar c
      rw [hcons] at hn ⊢
      by_cases hle : c.utf8Size ≤ n
      · obtain ⟨j, rfl⟩ := Nat.exists_eq_add_of_le hle
        rw [List.length_append, hsize] at hn
        have hne : String.utf8EncodeChar c ≠ [] := by
          intro hnil
          rw [hnil] at hsize
          exact absurd hsize.symm c.utf8Size_pos.ne'
        have hhead : (utf8 cs).head?.any runeStart = true := by
          cases cs with
          | nil => exact absurd hn (by simp [utf8])
          | cons d cs =>
              obtain ⟨b, bs, hbytes, hb, -⟩ := runeStart_encode d
              rw [utf8, List.flatMap_cons, hbytes]
              exact hb
        rw [takeBytes, if_pos hle, Nat.add_sub_cancel_left, ← hsize, cutAt_append hne hhead,
          List.take_length_add_append, ih (by omega)]
        rfl
      · rw [takeBytes, if_neg hle, cutAt_eq_zero]
        · rfl
        intro i hi
        obtain ⟨b, bs, hbytes, -, hbs⟩ := runeStart_encode c
        rw [hbytes, List.length_cons] at hsize
        rw [hbytes, List.cons_append, List.getElem?_cons_succ,
          List.getElem?_append_left (by omega), List.getElem?_eq_getElem (by omega)]
        exact hbs _ (List.getElem_mem _)

/-- For text in UTF-8, `String` is `redact`. -/
theorem string_utf8 (t : String) : string (utf8 t.toList) = utf8 (redact t).toList := by
  rw [string, redact, sensitive_utf8, String.ofList_toList]
  split_ifs with hs hlen
  · rfl
  · rw [String.toList_ofList, takeBytes_eq_self]
    rwa [length_utf8] at hlen
  · rw [String.toList_ofList]
    exact take_cutAt_utf8 _ (by omega)

-- the Kelvin sign ends the token, and is a letter of it
example : redact "Bearer abcdefg\u212A" = placeholder := by decide +kernel

end Redact

end Collector

end Afterlock
