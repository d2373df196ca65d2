import Mathlib
import Afterlock.Json
import Afterlock.Lib.Utf8

/-!
# JSON texts

`Marshal` and `Unmarshal` of `encoding/json`, for the values that the collector keeps: a Go map is
the list of its fields in the order of the keys, which is the order in which `Marshal` writes them.
Reading back what was written gives the value (`unmarshal_marshal`), and a written text has no line
break (`newline_not_mem`), so that one record is one line.

A number is kept as it is written; `float64?` is the value that a type assertion to `float64`
gives for it.
-/

namespace Afterlock

namespace Encoding

/-! ### Maps -/

/-- `m[k] = v`. -/
def put (k : String) (v : Json) : Json.Fields → Json.Fields
  | [] => [(k, v)]
  | (k', v') :: m =>
      if k = k' then (k, v) :: m
      else if k < k' then (k, v) :: (k', v') :: m
      else (k', v') :: put k v m

/-- `delete(m, k)`. -/
def delete (k : String) (m : Json.Fields) : Json.Fields := m.filter fun kv => decide (kv.1 ≠ k)

/-- The map of a list of pairs; of two pairs with one key the later counts. -/
def fromPairs (kvs : Json.Fields) : Json.Fields := kvs.foldl (fun m kv => put kv.1 kv.2 m) []

mutual
/-- The value is the listing of a Go value: the fields of every map stand in the order of their
keys. -/
def canonical : Json → Bool
  | .arr xs => canonicalElems xs
  | .obj m => canonicalFields m
  | _ => true

/-- The elements of a list. -/
def canonicalElems : List Json → Bool
  | [] => true
  | x :: xs => canonical x && canonicalElems xs

/-- The fields of a map. -/
def canonicalFields : List (String × Json) → Bool
  | [] => true
  | (k, v) :: m => canonical v && m.all (fun kv => decide (k < kv.1)) && canonicalFields m
end

/-! ### Maps, field by field -/

@[simp] lemma lookup_put_self (k : String) (v : Json) (m : Json.Fields) :
    (put k v m).lookup k = some v := by
  induction m with
  | nil => simp [put]
  | cons kv m ih =>
      rw [put]
      split_ifs with h1 h2
      · exact List.lookup_cons_self
      · exact List.lookup_cons_self
      · rw [List.lookup_cons, ih, beq_eq_false_iff_ne.2 h1]

lemma lookup_put_of_ne {k k' : String} (h : k' ≠ k) (v : Json) (m : Json.Fields) :
    (put k v m).lookup k' = m.lookup k' := by
  induction m with
  | nil => simp [put, h]
  | cons kv m ih =>
      rw [put]
      split_ifs with h1 h2
      · obtain ⟨k₀, v₀⟩ := kv
        obtain rfl : k = k₀ := h1
        rw [List.lookup_cons, List.lookup_cons, beq_eq_false_iff_ne.2 h]
      · rw [List.lookup_cons, beq_eq_false_iff_ne.2 h]
      · rw [List.lookup_cons, List.lookup_cons, ih]

lemma lookup_delete_of_ne {k k' : String} (h : k' ≠ k) (m : Json.Fields) :
    (delete k m).lookup k' = m.lookup k' := by
  induction m with
  | nil => rfl
  | cons kv m ih =>
      rw [delete, List.filter_cons]
      by_cases hk : kv.1 = k
      · rw [if_neg (by simpa using hk), List.lookup_cons, beq_eq_false_iff_ne.2 (hk ▸ h)]
        exact ih
      · rw [if_pos (by simpa using hk), List.lookup_cons, List.lookup_cons]
        rw [delete] at ih
        rw [ih]

lemma mem_put {k : String} {v : Json} {m : Json.Fields} {kv : String × Json}
    (h : kv ∈ put k v m) : kv = (k, v) ∨ kv ∈ m := by
  induction m with
  | nil => exact .inl (List.mem_singleton.1 h)
  | cons kv' m ih =>
      rw [put] at h
      split_ifs at h with h1 h2
      · exact (List.mem_cons.1 h).imp_right (List.mem_cons_of_mem _)
      · exact List.mem_cons.1 h
      · rcases List.mem_cons.1 h with rfl | h
        · exact .inr List.mem_cons_self
        · exact (ih h).imp_right (List.mem_cons_of_mem _)

lemma canonicalFields_cons {k : String} {v : Json} {m : Json.Fields} :
    canonicalFields ((k, v) :: m) = true ↔
      canonical v = true ∧ (∀ kv ∈ m, k < kv.1) ∧ canonicalFields m = true := by
  simp [canonicalFields, and_assoc]

lemma canonicalFields_put {k : String} {v : Json} {m : Json.Fields} (hv : canonical v = true)
    (hm : canonicalFields m = true) : canonicalFields (put k v m) = true := by
  induction m with
  | nil => simp [put, canonicalFields, hv]
  | cons kv m ih =>
      obtain ⟨hkv, hlt, hrest⟩ := canonicalFields_cons.1 hm
      rw [put]
      split_ifs with h1 h2
      · exact canonicalFields_cons.2 ⟨hv, h1 ▸ hlt, hrest⟩
      · refine canonicalFields_cons.2 ⟨hv, fun a ha => ?_, hm⟩
        rcases List.mem_cons.1 ha with rfl | ha
        · exact h2
        · exact h2.trans (hlt a ha)
      · refine canonicalFields_cons.2 ⟨hkv, fun a ha => ?_, ih hrest⟩
        rcases mem_put ha with rfl | ha
        · exact lt_of_le_of_ne (not_lt.1 h2) (Ne.symm h1)
        · exact hlt a ha

lemma canonicalFields_fromPairs {kvs : Json.Fields} (h : ∀ kv ∈ kvs, canonical kv.2 = true) :
    canonicalFields (fromPairs kvs) = true := by
  have key (m : Json.Fields) (hm : canonicalFields m = true) :
      canonicalFields (kvs.foldl (fun m kv => put kv.1 kv.2 m) m) = true := by
    induction kvs generalizing m with
    | nil => exact hm
    | cons kv kvs ih =>
        exact ih (fun a ha => h a (List.mem_cons_of_mem _ ha)) _
          (canonicalFields_put (h kv List.mem_cons_self) hm)
  exact key [] rfl

/-! ### Numbers -/

/-- A character of a number. -/
def numChar (c : Char) : Bool :=
  c.isDigit || c = '-' || c = '+' || c = '.' || c = 'e' || c = 'E'

/-- A run of digits that is not empty. -/
def digits? : List Char → Option (List Char)
  | c :: cs => if c.isDigit then some (cs.dropWhile Char.isDigit) else none
  | [] => none

/-- The integer part of a number: no leading zero. -/
def intPart? : List Char → Option (List Char)
  | '0' :: cs => some cs
  | cs => digits? cs

/-- The fraction and the exponent of a number, at least one of which is there. -/
def fraction? (cs : List Char) : Bool :=
  let rest :=
    match cs with
    | '.' :: cs => digits? cs
    | cs => some cs
  match rest with
  | some (c :: cs) =>
      (c = 'e' || c = 'E') &&
        (match cs with
          | '+' :: cs | '-' :: cs => digits? cs
          | cs => digits? cs) == some []
  | some [] => cs != []
  | none => false

/-- The text of a number with a fraction or an exponent, or of the negative zero. -/
def floatText (cs : List Char) : Bool :=
  cs = ['-', '0'] || (cs.all numChar && cs.any (fun c => c = '.' || c = 'e' || c = 'E') &&
    (intPart? (match cs with | '-' :: cs => cs | cs => cs)).any fraction?)

/-- The value of a number; an integer has no leading zero. -/
def number? (cs : List Char) : Option Json :=
  if floatText cs then some (.float (String.ofList cs))
  else
    match Text.toInt? (String.ofList cs) with
    | some n => if (Text.ofInt n).toList = cs then some (.int n) else none
    | none => none

/-- The integer as a `float64`: 53 bits, rounded to the nearest and to even. -/
def roundFloat (n : ℤ) : ℤ :=
  let e := n.natAbs.log2 - 52
  let q := n.natAbs / 2 ^ e
  let r := n.natAbs % 2 ^ e
  let q' := if 2 * r < 2 ^ e ∨ 2 * r = 2 ^ e ∧ q % 2 = 0 then q else q + 1
  n.sign * (q' * 2 ^ e : ℕ)

/-- `v.(float64)`, converted to an integer; a fraction is not read. -/
def float64? : Json → Option ℤ
  | .int n => some (roundFloat n)
  | _ => none

lemma roundFloat_of_lt {n : ℤ} (h : n.natAbs < 2 ^ 53) : roundFloat n = n := by
  have he : n.natAbs.log2 - 52 = 0 := by
    by_cases h0 : n.natAbs = 0
    · rw [h0]
      rfl
    · have := (Nat.log2_lt h0).2 h
      omega
  unfold roundFloat
  rw [he]
  simp [Nat.mod_one, Int.sign_mul_abs]

/-! ### Texts -/

/-- The digit of a hexadecimal numeral, in lower case. -/
def hexDigit (n : ℕ) : Char := Nat.digitChar n

/-- The escape `\uXXXX` of a character below `0x10000`. -/
def escapeHex (n : ℕ) : List Char :=
  ['\\', 'u', hexDigit (n / 4096), hexDigit (n / 256 % 16), hexDigit (n / 16 % 16), hexDigit (n % 16)]

/-- How `Marshal` writes a character; `html` is `SetEscapeHTML`. -/
def escapeChar (html : Bool) (c : Char) : List Char :=
  if c = '"' then ['\\', '"']
  else if c = '\\' then ['\\', '\\']
  else if c = '\n' then ['\\', 'n']
  else if c = '\r' then ['\\', 'r']
  else if c = '\t' then ['\\', 't']
  else if c.toNat = 8 then ['\\', 'b']
  else if c.toNat = 12 then ['\\', 'f']
  else if c.toNat < 0x20 || (html && (c = '<' || c = '>' || c = '&')) || c.toNat = 0x2028 ||
      c.toNat = 0x2029 then escapeHex c.toNat
  else [c]

/-- How `Marshal` writes a text. -/
def quote (html : Bool) (s : String) : List Char :=
  '"' :: s.toList.flatMap (escapeChar html) ++ ['"']

/-- The value of a hexadecimal digit. -/
def hexValue? (c : Char) : Option ℕ :=
  if c.isDigit then some (c.toNat - 0x30)
  else if 'a' ≤ c ∧ c ≤ 'f' then some (c.toNat - 0x61 + 10)
  else if 'A' ≤ c ∧ c ≤ 'F' then some (c.toNat - 0x41 + 10)
  else none

/-- The code unit of an escape `\uXXXX`. -/
def hex4? (a b c d : Char) : Option ℕ := do
  let a ← hexValue? a
  let b ← hexValue? b
  let c ← hexValue? c
  let d ← hexValue? d
  some (((a * 16 + b) * 16 + c) * 16 + d)

/-- The character of a short escape. -/
def shortEscape? (c : Char) : Option ℕ :=
  if c = '"' || c = '\\' || c = '/' then some c.toNat
  else if c = 'b' then some 8
  else if c = 'f' then some 12
  else if c = 'n' then some 10
  else if c = 'r' then some 13
  else if c = 't' then some 9
  else none

/-- The code points and code units of a text up to its closing quote, and what follows. -/
def units : List Char → Option (List ℕ × List Char)
  | [] => none
  | c :: cs =>
      if c = '"' then some ([], cs)
      else if c = '\\' then
        match cs with
        | [] => none
        | e :: cs =>
            if e = 'u' then
              match cs with
              | a :: b :: c :: d :: cs =>
                  (hex4? a b c d).bind fun n => (units cs).map fun (ns, r) => (n :: ns, r)
              | _ => none
            else (shortEscape? e).bind fun n => (units cs).map fun (ns, r) => (n :: ns, r)
      else if c.toNat < 0x20 then none
      else (units cs).map fun (ns, r) => (c.toNat :: ns, r)

/-- A surrogate that stands first in a pair. -/
def highSurrogate (n : ℕ) : Bool := 0xd800 ≤ n && n < 0xdc00

/-- A surrogate that stands second in a pair. -/
def lowSurrogate (n : ℕ) : Bool := 0xdc00 ≤ n && n < 0xe000

/-- The characters of code units: pairs of surrogates are joined, and a surrogate on its own is
replaced. -/
def fromUnits : List ℕ → List Char
  | [] => []
  | [n] => [if highSurrogate n || lowSurrogate n then '\uFFFD' else Char.ofNat n]
  | n :: m :: ns =>
      if highSurrogate n && lowSurrogate m then
        Char.ofNat ((n - 0xd800) * 0x400 + (m - 0xdc00) + 0x10000) :: fromUnits ns
      else (if highSurrogate n || lowSurrogate n then '\uFFFD' else Char.ofNat n) ::
        fromUnits (m :: ns)

/-! ### Marshal -/

mutual
/-- The text that `Marshal` writes; a `float64` that is not finite has none. -/
def marshal (html : Bool) : Json → Option (List Char)
  | .null => some "null".toList
  | .bool b => some (if b then "true".toList else "false".toList)
  | .int n => some (Text.ofInt n).toList
  | .float t => if floatText t.toList then some t.toList else none
  | .str s => some (quote html s)
  | .arr xs => (marshalElems html xs).map fun cs => '[' :: cs ++ [']']
  | .obj m => (marshalFields html m).map fun cs => '\x7b' :: cs ++ ['\x7d']

/-- The elements of a list, with commas between them. -/
def marshalElems (html : Bool) : List Json → Option (List Char)
  | [] => some []
  | x :: xs =>
      (marshal html x).bind fun cs =>
        (marshalElems html xs).map fun ds => if xs.isEmpty then cs else cs ++ ',' :: ds

/-- The fields of a map, with commas between them. -/
def marshalFields (html : Bool) : List (String × Json) → Option (List Char)
  | [] => some []
  | (k, v) :: m =>
      (marshal html v).bind fun cs =>
        (marshalFields html m).map fun ds =>
          quote html k ++ ':' :: (if m.isEmpty then cs else cs ++ ',' :: ds)
end

/-! ### Unmarshal -/

/-- The text without white space in front. -/
def skip (cs : List Char) : List Char :=
  cs.dropWhile fun c => c = ' ' || c = '\t' || c = '\n' || c = '\r'

/-- What follows a word. -/
def word? : List Char → List Char → Option (List Char)
  | [], cs => some cs
  | w :: ws, c :: cs => if w = c then word? ws cs else none
  | _ :: _, [] => none

/-- The elements of a list, each read by `p`, up to the closing bracket. -/
def elems (p : List Char → Option (Json × List Char)) :
    ℕ → List Char → Option (List Json × List Char)
  | 0, _ => none
  | n + 1, cs =>
      (p cs).bind fun (x, cs) =>
        match skip cs with
        | [] => none
        | c :: cs =>
            if c = ',' then (elems p n (skip cs)).map fun (xs, r) => (x :: xs, r)
            else if c = ']' then some ([x], cs)
            else none

/-- The fields of a map, each value read by `p`, up to the closing brace. -/
def members (p : List Char → Option (Json × List Char)) :
    ℕ → List Char → Option (List (String × Json) × List Char)
  | 0, _ => none
  | n + 1, cs =>
      match cs with
      | [] => none
      | q :: cs =>
          if q = '"' then
            (units cs).bind fun (k, cs) =>
              (word? [':'] (skip cs)).bind fun cs =>
                (p (skip cs)).bind fun (v, cs) =>
                  match skip cs with
                  | [] => none
                  | c :: cs =>
                      if c = ',' then
                        (members p n (skip cs)).map fun (m, r) =>
                          ((String.ofList (fromUnits k), v) :: m, r)
                      else if c = '\x7d' then some ([(String.ofList (fromUnits k), v)], cs)
                      else none
          else none

/-- The value at the head of a text and what follows it, for values nested less than `d` deep. -/
def value : ℕ → List Char → Option (Json × List Char)
  | 0, _ => none
  | d + 1, cs =>
      match cs with
      | [] => none
      | c :: cs =>
          if c = '\x7b' then
            if d = 0 then none
            else if (skip cs).head? = some '\x7d' then some (.obj [], (skip cs).tail)
            else (members (value d) cs.length (skip cs)).map fun (m, r) => (.obj (fromPairs m), r)
          else if c = '[' then
            if d = 0 then none
            else if (skip cs).head? = some ']' then some (.arr [], (skip cs).tail)
            else (elems (value d) cs.length (skip cs)).map fun (xs, r) => (.arr xs, r)
          else if c = '"' then
            (units cs).map fun (ns, r) => (.str (String.ofList (fromUnits ns)), r)
          else if c = 'n' then (word? "ull".toList cs).map fun r => (.null, r)
          else if c = 't' then (word? "rue".toList cs).map fun r => (.bool true, r)
          else if c = 'f' then (word? "alse".toList cs).map fun r => (.bool false, r)
          else
            (number? ((c :: cs).takeWhile numChar)).map fun x => (x, (c :: cs).dropWhile numChar)

/-- How deep `Unmarshal` reads. -/
def maxNestingDepth : ℕ := 10000

/-- The value of a text. -/
def parse (cs : List Char) : Option Json :=
  (value (maxNestingDepth + 1) (skip cs)).bind fun (x, r) => if skip r = [] then some x else none

/-- `Unmarshal`.  A line that is not UTF-8 has no value here; `encoding/json` replaces the bytes it
cannot read inside a text, but the writer cuts a character only where it cuts the text, which then
has no value either. -/
def unmarshal (bs : Bytes) : Option Json :=
  bs.toByteArray.utf8Decode?.bind fun cs => parse cs.toList

/-! ### Reading back -/

section

variable {html : Bool}

lemma numChar_of_mem_ofInt {n : ℤ} {c : Char} (h : c ∈ (Text.ofInt n).toList) :
    c.isDigit = true ∨ c = '-' := by
  by_contra hc
  rw [not_or, Bool.not_eq_true] at hc
  exact Text.not_hasChar_ofInt hc.1 hc.2 h

lemma floatText_ofInt (n : ℤ) : floatText (Text.ofInt n).toList = false := by
  unfold floatText
  rw [Bool.or_eq_false_iff]
  constructor
  · rw [decide_eq_false_iff_not]
    intro h
    have hn : n = 0 := by
      have hread := Text.toInt?_ofInt n
      rw [← String.ofList_toList (s := Text.ofInt n), h] at hread
      have hzero : Text.toInt? (String.ofList ['-', '0']) = some 0 := by decide +kernel
      exact (Option.some.inj (hread.symm.trans hzero))
    subst hn
    exact absurd h (by decide +kernel)
  · have hany : ((Text.ofInt n).toList.any fun c => c = '.' || c = 'e' || c = 'E') = false := by
      rw [List.any_eq_false]
      intro c hc
      rcases numChar_of_mem_ofInt hc with h | rfl
      · rw [Bool.not_eq_true]
        by_contra hne
        rw [Bool.not_eq_false, Bool.or_eq_true, Bool.or_eq_true] at hne
        rcases hne with (hne | hne) | hne <;>
          exact absurd (of_decide_eq_true hne ▸ h) (by decide)
      · decide
    rw [hany, Bool.and_false, Bool.false_and]

lemma number?_ofInt (n : ℤ) : number? (Text.ofInt n).toList = some (.int n) := by
  rw [number?, floatText_ofInt, String.ofList_toList, Text.toInt?_ofInt]
  simp

lemma number?_float {t : String} (h : floatText t.toList = true) :
    number? t.toList = some (.float t) := by
  rw [number?, if_pos h, String.ofList_toList]

lemma numChar_of_floatText {cs : List Char} (h : floatText cs = true) :
    cs ≠ [] ∧ ∀ c ∈ cs, numChar c = true := by
  unfold floatText at h
  rw [Bool.or_eq_true, decide_eq_true_eq, Bool.and_eq_true, Bool.and_eq_true,
    List.all_eq_true] at h
  rcases h with rfl | ⟨⟨h, hany⟩, -⟩
  · refine ⟨by simp, fun c hc => ?_⟩
    rcases List.mem_pair.1 hc with rfl | rfl <;> decide
  · refine ⟨?_, h⟩
    rintro rfl
    simp at hany

lemma numChar_ofInt (n : ℤ) : (Text.ofInt n).toList ≠ [] ∧ ∀ c ∈ (Text.ofInt n).toList, numChar c = true := by
  constructor
  · intro h
    have hread := Text.toInt?_ofInt n
    rw [← String.ofList_toList (s := Text.ofInt n), h] at hread
    have hnone : Text.toInt? (String.ofList []) = none := by decide
    exact absurd (hnone.symm.trans hread) (by simp)
  · intro c hc
    rcases numChar_of_mem_ofInt hc with h | rfl
    · simp [numChar, h]
    · decide

/-- What follows a value does not go on a number. -/
def Stop (rest : List Char) : Prop := ∀ c ∈ rest.head?, numChar c = false

lemma takeWhile_number {cs rest : List Char} (h : ∀ c ∈ cs, numChar c = true) (hr : Stop rest) :
    (cs ++ rest).takeWhile numChar = cs ∧ (cs ++ rest).dropWhile numChar = rest := by
  have hrest : rest.takeWhile numChar = [] ∧ rest.dropWhile numChar = rest := by
    cases rest with
    | nil => exact ⟨rfl, rfl⟩
    | cons c rest =>
        have hc := hr c rfl
        simp [hc]
  rw [List.takeWhile_append_of_pos h, List.dropWhile_append_of_pos h, hrest.1, hrest.2,
    List.append_nil]
  exact ⟨rfl, rfl⟩

/-- A number is read back. -/
lemma value_number {cs rest : List Char} {x : Json} {d : ℕ} (hne : cs ≠ [])
    (h : ∀ c ∈ cs, numChar c = true) (hx : number? cs = some x) (hr : Stop rest) :
    value (d + 1) (cs ++ rest) = some (x, rest) := by
  obtain ⟨htake, hdrop⟩ := takeWhile_number h hr
  cases cs with
  | nil => exact absurd rfl hne
  | cons c cs =>
      have hc := h c List.mem_cons_self
      have hnot (e : Char) (he : numChar e = false) : c ≠ e := by
        rintro rfl
        rw [hc] at he
        exact absurd he (by simp)
      rw [List.cons_append] at htake hdrop ⊢
      simp only [value]
      rw [if_neg (hnot _ (by decide)), if_neg (hnot _ (by decide)), if_neg (hnot _ (by decide)),
        if_neg (hnot _ (by decide)), if_neg (hnot _ (by decide)), if_neg (hnot _ (by decide)),
        htake, hdrop, hx, Option.map_some]

lemma hexValue?_hexDigit {n : ℕ} (h : n < 16) : hexValue? (hexDigit n) = some n := by
  have hall : ∀ m < 16, hexValue? (hexDigit m) = some m := by decide
  exact hall n h

/-- An escape is read back. -/
lemma units_escapeHex {n : ℕ} (h : n < 0x10000) (cs : List Char) :
    units (escapeHex n ++ cs) = (units cs).map fun (ns, r) => (n :: ns, r) := by
  have hread : hex4? (hexDigit (n / 4096)) (hexDigit (n / 256 % 16)) (hexDigit (n / 16 % 16))
      (hexDigit (n % 16)) = some n := by
    simp only [hex4?, hexValue?_hexDigit (show n / 4096 < 16 by omega),
      hexValue?_hexDigit (show n / 256 % 16 < 16 by omega),
      hexValue?_hexDigit (show n / 16 % 16 < 16 by omega),
      hexValue?_hexDigit (show n % 16 < 16 by omega), Option.bind_eq_bind, Option.bind_some]
    congr 1
    omega
  simp only [escapeHex, List.cons_append, List.nil_append]
  rw [units.eq_def]
  simp only
  rw [if_neg (by decide), if_pos trivial, if_pos trivial, hread, Option.bind_some]

lemma units_escapeChar (c : Char) (cs : List Char) :
    units (escapeChar html c ++ cs) = (units cs).map fun (ns, r) => (c.toNat :: ns, r) := by
  have hshort {e : Char} {n : ℕ} (he : e ≠ 'u') (hn : shortEscape? e = some n) :
      units ('\\' :: e :: cs) = (units cs).map fun (ns, r) => (n :: ns, r) := by
    rw [units.eq_def]
    simp only
    rw [if_neg (by decide), if_pos trivial, if_neg he, hn, Option.bind_some]
  unfold escapeChar
  split_ifs with h1 h2 h3 h4 h5 h6 h7 h8
  · subst h1
    exact hshort (by decide) rfl
  · subst h2
    exact hshort (by decide) rfl
  · subst h3
    exact hshort (by decide) rfl
  · subst h4
    exact hshort (by decide) rfl
  · subst h5
    exact hshort (by decide) rfl
  · rw [h6]
    exact hshort (by decide) rfl
  · rw [h7]
    exact hshort (by decide) rfl
  · -- the characters that are written as four hexadecimal digits are below U+10000
    refine units_escapeHex ?_ cs
    simp only [Bool.or_eq_true, decide_eq_true_eq, Bool.and_eq_true] at h8
    rcases h8 with ((h | ⟨-, (rfl | rfl) | rfl⟩) | h) | h
    · omega
    · decide
    · decide
    · decide
    · omega
    · omega
  · -- any other character stands for itself
    have hlow : ¬c.toNat < 0x20 := fun h => h8 (by simp [h])
    rw [List.singleton_append, units.eq_def]
    simp only
    rw [if_neg h1, if_neg h2, if_neg hlow]

lemma units_quote (s rest : List Char) :
    units (s.flatMap (escapeChar html) ++ '"' :: rest) = some (s.map Char.toNat, rest) := by
  induction s with
  | nil =>
      rw [List.flatMap_nil, List.nil_append, units.eq_def]
      simp only
      rw [if_pos trivial]
      rfl
  | cons c s ih =>
      rw [List.flatMap_cons, List.append_assoc, units_escapeChar, ih, Option.map_some]
      rfl

/-- No character is a surrogate. -/
lemma surrogate_toNat (c : Char) : (highSurrogate c.toNat || lowSurrogate c.toNat) = false := by
  have hc : c.toNat < 0xd800 ∨ 0xdfff < c.toNat ∧ c.toNat < 0x110000 := c.valid
  simp only [highSurrogate, lowSurrogate, Bool.or_eq_false_iff, Bool.and_eq_false_iff,
    decide_eq_false_iff_not]
  omega

lemma fromUnits_toNat (s : List Char) : fromUnits (s.map Char.toNat) = s := by
  induction s with
  | nil => rfl
  | cons c s ih =>
      have hc := surrogate_toNat c
      obtain ⟨hhigh, hlow⟩ := Bool.or_eq_false_iff.1 hc
      cases s with
      | nil =>
          simp only [List.map_cons, List.map_nil, fromUnits, hc, Bool.false_eq_true, if_false,
            Char.ofNat_toNat]
      | cons d s =>
          simp only [List.map_cons, fromUnits, hhigh, hlow, Bool.false_and, Bool.or_self,
            Bool.false_eq_true, if_false, Char.ofNat_toNat]
          rw [← List.map_cons, ih]

/-- A text is read back. -/
lemma value_string (s : String) (rest : List Char) (d : ℕ) :
    value (d + 1) (quote html s ++ rest) = some (.str s, rest) := by
  simp only [quote, List.cons_append, List.append_assoc, List.nil_append, value]
  rw [if_neg (by decide), if_neg (by decide), if_pos trivial, units_quote, Option.map_some,
    fromUnits_toNat, String.ofList_toList]

mutual
/-- How deep a value is nested. -/
def levels : Json → ℕ
  | .arr xs => 1 + max 1 (levelsElems xs)
  | .obj m => 1 + max 1 (levelsFields m)
  | _ => 1

/-- How deep the elements of a list are nested. -/
def levelsElems : List Json → ℕ
  | [] => 0
  | x :: xs => max (levels x) (levelsElems xs)

/-- How deep the values of a map are nested. -/
def levelsFields : List (String × Json) → ℕ
  | [] => 0
  | (_, v) :: m => max (levels v) (levelsFields m)
end

lemma one_le_levels (x : Json) : 1 ≤ levels x := by
  cases x <;> simp [levels]

/-- A character that neither is white space nor ends a list or a map. -/
def leads (c : Char) : Bool :=
  c != ' ' && c != '\t' && c != '\n' && c != '\r' && c != ']' && c != '\x7d'

/-- The text of a value starts with a character that leads. -/
lemma exists_cons_of_marshal {x : Json} {cs : List Char} (h : marshal html x = some cs) :
    ∃ c cs', cs = c :: cs' ∧ leads c = true := by
  -- no character of a number is white space or closes anything
  have hnum {ds : List Char} (hds : ds ≠ [] ∧ ∀ c ∈ ds, numChar c = true) :
      ∃ c cs', ds = c :: cs' ∧ leads c = true := by
    obtain ⟨hne, hall⟩ := hds
    cases ds with
    | nil => exact absurd rfl hne
    | cons c ds =>
        have hc := hall c List.mem_cons_self
        refine ⟨c, ds, rfl, ?_⟩
        by_contra hlead
        simp only [leads, Bool.and_eq_true, bne_iff_ne, ne_eq, not_and_or, not_not] at hlead
        rcases hlead with ((((rfl | rfl) | rfl) | rfl) | rfl) | rfl <;>
          exact absurd hc (by decide)
  cases x with
  | null =>
      obtain rfl := Option.some.inj h
      exact ⟨_, _, rfl, by decide⟩
  | bool b =>
      obtain rfl := Option.some.inj h
      cases b <;> exact ⟨_, _, rfl, by decide⟩
  | int n =>
      obtain rfl := Option.some.inj h
      exact hnum (numChar_ofInt n)
  | float t =>
      simp only [marshal] at h
      split_ifs at h with ht
      obtain rfl := Option.some.inj h
      exact hnum (numChar_of_floatText ht)
  | str s =>
      obtain rfl := Option.some.inj h
      exact ⟨_, _, rfl, by decide⟩
  | arr xs =>
      simp only [marshal, Option.map_eq_some_iff] at h
      obtain ⟨ds, -, rfl⟩ := h
      exact ⟨_, _, rfl, by decide⟩
  | obj m =>
      simp only [marshal, Option.map_eq_some_iff] at h
      obtain ⟨ds, -, rfl⟩ := h
      exact ⟨_, _, rfl, by decide⟩

lemma skip_cons {c : Char} {cs : List Char}
    (h : c ≠ ' ' ∧ c ≠ '\t' ∧ c ≠ '\n' ∧ c ≠ '\r') : skip (c :: cs) = c :: cs := by
  rw [skip, List.dropWhile_cons_of_neg]
  simp [h]

lemma skip_of_leads {c : Char} {cs : List Char} (h : leads c = true) :
    skip (c :: cs) = c :: cs := by
  simp only [leads, Bool.and_eq_true, bne_iff_ne, ne_eq] at h
  exact skip_cons ⟨h.1.1.1.1.1, h.1.1.1.1.2, h.1.1.1.2, h.1.1.2⟩

lemma exists_cons_of_marshalElems {x : Json} {xs : List Json} {cs : List Char}
    (h : marshalElems html (x :: xs) = some cs) : ∃ c cs', cs = c :: cs' ∧ leads c = true := by
  simp only [marshalElems, Option.bind_eq_some_iff, Option.map_eq_some_iff] at h
  obtain ⟨ds, hds, es, -, rfl⟩ := h
  obtain ⟨c, ds', rfl, hc⟩ := exists_cons_of_marshal hds
  split_ifs
  · exact ⟨c, _, rfl, hc⟩
  · exact ⟨c, _, rfl, hc⟩

lemma length_marshalElems {xs : List Json} {cs : List Char}
    (h : marshalElems html xs = some cs) : xs.length ≤ cs.length + 1 := by
  induction xs generalizing cs with
  | nil => exact Nat.zero_le _
  | cons x xs ih =>
      simp only [marshalElems, Option.bind_eq_some_iff, Option.map_eq_some_iff] at h
      obtain ⟨ds, hds, es, hes, rfl⟩ := h
      have := ih hes
      cases xs with
      | nil => simp
      | cons y xs => simp at this ⊢; omega

lemma length_marshalFields {m : Json.Fields} {cs : List Char}
    (h : marshalFields html m = some cs) : m.length ≤ cs.length + 1 := by
  induction m generalizing cs with
  | nil => exact Nat.zero_le _
  | cons kv m ih =>
      obtain ⟨k, v⟩ := kv
      simp only [marshalFields, Option.bind_eq_some_iff, Option.map_eq_some_iff] at h
      obtain ⟨ds, hds, es, hes, rfl⟩ := h
      have := ih hes
      cases m with
      | nil => simp
      | cons y m => simp at this ⊢; omega

/-- A map whose fields stand in order is its list of pairs. -/
lemma fromPairs_of_canonical {m : Json.Fields} (h : canonicalFields m = true) :
    fromPairs m = m := by
  have key (l m : Json.Fields) (hlm : ∀ a ∈ l, ∀ b ∈ m, a.1 < b.1)
      (hm : canonicalFields m = true) : m.foldl (fun m kv => put kv.1 kv.2 m) l = l ++ m := by
    induction m generalizing l with
    | nil => simp
    | cons kv m ih =>
        have hput (l : Json.Fields) (hl : ∀ a ∈ l, a.1 < kv.1) : put kv.1 kv.2 l = l ++ [kv] := by
          induction l with
          | nil => rfl
          | cons a l ihl =>
              have ha := hl a List.mem_cons_self
              rw [put, if_neg ha.ne', if_neg ha.asymm, ihl fun b hb => hl b (List.mem_cons_of_mem _ hb)]
              rfl
        simp only [canonicalFields, Bool.and_eq_true, List.all_eq_true, decide_eq_true_eq] at hm
        rw [List.foldl_cons, hput l fun a ha => hlm a ha kv List.mem_cons_self, ih _ ?_ hm.2]
        · simp
        · intro a ha b hb
          rcases List.mem_append.1 ha with ha | ha
          · exact hlm a ha b (List.mem_cons_of_mem _ hb)
          · rw [List.mem_singleton.1 ha]
            exact hm.1.2 b hb
  exact key [] m (by simp) h

lemma stop_cons {c : Char} (h : numChar c = false) (rest : List Char) : Stop (c :: rest) := by
  intro d hd
  obtain rfl := Option.some.inj hd
  exact h

/-- The text of a value is read back, unless the value is nested too deep. -/
def ReadBack (html : Bool) (d : ℕ) (x : Json) : Prop :=
  ∀ cs rest, marshal html x = some cs → Stop rest →
    value d (cs ++ rest) = if levels x ≤ d then some (x, rest) else none

/-- The elements of a list are read back. -/
lemma elems_marshal {x : Json} {xs : List Json} {cs rest : List Char} {d n : ℕ}
    (hread : ∀ y ∈ x :: xs, ReadBack html d y) (h : marshalElems html (x :: xs) = some cs)
    (hn : xs.length < n) :
    elems (value d) n (cs ++ ']' :: rest) =
      if levelsElems (x :: xs) ≤ d then some (x :: xs, rest) else none := by
  induction xs generalizing x cs n with
  | nil =>
      obtain ⟨n, rfl⟩ := Nat.exists_eq_succ_of_ne_zero hn.ne'
      simp only [marshalElems, Option.bind_eq_some_iff, Option.map_some, Option.some.injEq,
        List.isEmpty_nil, if_true] at h
      obtain ⟨ds, hds, rfl⟩ := h
      simp only [levelsElems, max_le_iff, Nat.zero_le, and_true]
      rw [elems, hread x List.mem_cons_self _ _ hds (stop_cons (by decide) _)]
      by_cases hl : levels x ≤ d
      · rw [if_pos hl, if_pos hl, Option.bind_some]
        rfl
      · rw [if_neg hl, if_neg hl, Option.bind_none]
  | cons y ys ih =>
      obtain ⟨n, rfl⟩ := Nat.exists_eq_succ_of_ne_zero (Nat.ne_of_gt (Nat.zero_lt_of_lt hn))
      rw [marshalElems, Option.bind_eq_some_iff] at h
      obtain ⟨ds, hds, h⟩ := h
      obtain ⟨es, hes, rfl⟩ := Option.map_eq_some_iff.1 h
      have hlevels : levelsElems (x :: y :: ys) ≤ d ↔ levels x ≤ d ∧ levelsElems (y :: ys) ≤ d :=
        max_le_iff
      simp only [List.isEmpty_cons, Bool.false_eq_true, if_false, List.append_assoc, List.cons_append]
      rw [elems, hread x List.mem_cons_self _ _ hds (stop_cons (by decide) _)]
      by_cases hl : levels x ≤ d
      · have hnext : skip (',' :: (es ++ ']' :: rest)) = ',' :: (es ++ ']' :: rest) :=
          skip_cons (by decide)
        have hrest := ih (fun z hz => hread z (List.mem_cons_of_mem _ hz)) hes
          (Nat.lt_of_succ_lt_succ hn)
        obtain ⟨c, es', rfl, hlead⟩ := exists_cons_of_marshalElems hes
        rw [if_pos hl, Option.bind_some]
        simp only [hnext]
        rw [if_pos trivial, List.cons_append, skip_of_leads hlead, ← List.cons_append, hrest]
        by_cases hls : levelsElems (y :: ys) ≤ d
        · rw [if_pos hls, if_pos (hlevels.2 ⟨hl, hls⟩), Option.map_some]
        · rw [if_neg hls, if_neg fun h => hls (hlevels.1 h).2, Option.map_none]
      · rw [if_neg hl, if_neg fun h => hl (hlevels.1 h).1, Option.bind_none]

/-- The first field of a map is read back. -/
lemma members_field {k : String} {v : Json} {ds tail : List Char} {d n : ℕ}
    (hread : ReadBack html d v) (hds : marshal html v = some ds) (ht : Stop tail) :
    members (value d) (n + 1) (quote html k ++ ':' :: (ds ++ tail)) =
      if levels v ≤ d then
        match skip tail with
        | [] => none
        | c :: cs =>
            if c = ',' then (members (value d) n (skip cs)).map fun (m, r) => ((k, v) :: m, r)
            else if c = '\x7d' then some ([(k, v)], cs)
            else none
      else none := by
  obtain ⟨c, ds', hcons, hlead⟩ := exists_cons_of_marshal hds
  have hcolon : word? [':'] (skip (':' :: (ds ++ tail))) = some (ds ++ tail) := by
    rw [skip_cons (by decide)]
    rfl
  have hskip : skip (ds ++ tail) = ds ++ tail := by
    rw [hcons, List.cons_append, skip_of_leads hlead]
  simp only [quote, List.cons_append, List.append_assoc, List.nil_append, members]
  rw [if_pos trivial, units_quote, Option.bind_some, hcolon, Option.bind_some, hskip,
    hread _ _ hds ht, fromUnits_toNat, String.ofList_toList]
  by_cases hl : levels v ≤ d
  · rw [if_pos hl, if_pos hl, Option.bind_some]
  · rw [if_neg hl, if_neg hl, Option.bind_none]

lemma exists_cons_of_marshalFields {kv : String × Json} {m : Json.Fields} {cs : List Char}
    (h : marshalFields html (kv :: m) = some cs) : ∃ cs', cs = '"' :: cs' := by
  simp only [marshalFields, Option.bind_eq_some_iff, Option.map_eq_some_iff] at h
  obtain ⟨_, -, _, -, rfl⟩ := h
  exact ⟨_, rfl⟩

/-- The fields of a map are read back. -/
lemma members_marshal {kv : String × Json} {m : Json.Fields} {cs rest : List Char} {d n : ℕ}
    (hread : ∀ f ∈ kv :: m, ReadBack html d f.2) (h : marshalFields html (kv :: m) = some cs)
    (hn : m.length < n) :
    members (value d) n (cs ++ '\x7d' :: rest) =
      if levelsFields (kv :: m) ≤ d then some (kv :: m, rest) else none := by
  induction m generalizing kv cs n with
  | nil =>
      obtain ⟨n, rfl⟩ := Nat.exists_eq_succ_of_ne_zero hn.ne'
      simp only [marshalFields, Option.bind_eq_some_iff, Option.map_some, Option.some.injEq,
        List.isEmpty_nil, if_true] at h
      obtain ⟨ds, hds, rfl⟩ := h
      simp only [levelsFields, max_le_iff, Nat.zero_le, and_true, List.append_assoc,
        List.cons_append]
      rw [members_field (hread kv List.mem_cons_self) hds (stop_cons (by decide) _),
        skip_cons (by decide)]
      rfl
  | cons kv' m ih =>
      obtain ⟨n, rfl⟩ := Nat.exists_eq_succ_of_ne_zero (Nat.ne_of_gt (Nat.zero_lt_of_lt hn))
      rw [marshalFields, Option.bind_eq_some_iff] at h
      obtain ⟨ds, hds, h⟩ := h
      obtain ⟨es, hes, rfl⟩ := Option.map_eq_some_iff.1 h
      have hlevels : levelsFields (kv :: kv' :: m) ≤ d ↔
          levels kv.2 ≤ d ∧ levelsFields (kv' :: m) ≤ d := max_le_iff
      simp only [List.isEmpty_cons, Bool.false_eq_true, if_false, List.append_assoc, List.cons_append]
      rw [members_field (hread kv List.mem_cons_self) hds (stop_cons (by decide) _),
        skip_cons (by decide)]
      by_cases hl : levels kv.2 ≤ d
      · have hrest := ih (fun f hf => hread f (List.mem_cons_of_mem _ hf)) hes
          (Nat.lt_of_succ_lt_succ hn)
        obtain ⟨es', rfl⟩ := exists_cons_of_marshalFields hes
        rw [if_pos hl]
        simp only [if_true]
        rw [List.cons_append, skip_of_leads (by decide), ← List.cons_append, hrest]
        by_cases hls : levelsFields (kv' :: m) ≤ d
        · rw [if_pos hls, if_pos (hlevels.2 ⟨hl, hls⟩), Option.map_some]
        · rw [if_neg hls, if_neg fun h => hls (hlevels.1 h).2, Option.map_none]
      · rw [if_neg hl, if_neg fun h => hl (hlevels.1 h).1]

lemma canonical_of_mem {xs : List Json} (h : canonicalElems xs = true) {x : Json} (hx : x ∈ xs) :
    canonical x = true := by
  induction xs with
  | nil => cases hx
  | cons y ys ih =>
      rw [canonicalElems, Bool.and_eq_true] at h
      rcases List.mem_cons.1 hx with rfl | hx
      · exact h.1
      · exact ih h.2 hx

lemma canonical_of_mem_fields {m : Json.Fields} (h : canonicalFields m = true)
    {kv : String × Json} (hkv : kv ∈ m) : canonical kv.2 = true := by
  induction m with
  | nil => cases hkv
  | cons f m ih =>
      rw [canonicalFields, Bool.and_eq_true, Bool.and_eq_true] at h
      rcases List.mem_cons.1 hkv with rfl | hkv
      · exact h.1.1
      · exact ih h.2 hkv

/-- A value is read back, unless it is nested too deep. -/
theorem value_marshal (x : Json) (d : ℕ) (hc : canonical x = true) : ReadBack html d x := by
  intro cs rest h hr
  cases d with
  | zero =>
      have := one_le_levels x
      rw [value, if_neg (by omega)]
  | succ d =>
      match x, hc, h with
      | .null, _, h =>
          obtain rfl := Option.some.inj h
          rfl
      | .bool b, _, h =>
          obtain rfl := Option.some.inj h
          cases b <;> rfl
      | .int n, _, h =>
          obtain rfl := Option.some.inj h
          obtain ⟨hne, hall⟩ := numChar_ofInt n
          rw [value_number hne hall (number?_ofInt n) hr, if_pos (by simp [levels])]
      | .float t, _, h =>
          simp only [marshal] at h
          split_ifs at h with ht
          obtain rfl := Option.some.inj h
          obtain ⟨hne, hall⟩ := numChar_of_floatText ht
          rw [value_number hne hall (number?_float ht) hr, if_pos (by simp [levels])]
      | .str s, _, h =>
          obtain rfl := Option.some.inj h
          rw [value_string, if_pos (by simp [levels])]
      | .arr xs, hc, h =>
          -- an array: its elements are read one level further down
          simp only [marshal, Option.map_eq_some_iff] at h
          obtain ⟨ds, hds, rfl⟩ := h
          have hread : ∀ y ∈ xs, ReadBack html d y := fun y hy =>
            value_marshal y d (canonical_of_mem hc hy)
          have hlevels : levels (.arr xs) ≤ d + 1 ↔ d ≠ 0 ∧ levelsElems xs ≤ d := by
            simp only [levels]
            omega
          simp only [List.cons_append, List.append_assoc, List.nil_append, value]
          rw [if_neg (by decide), if_pos trivial]
          -- at the deepest level the reader takes no array
          by_cases hd : d = 0
          · rw [if_pos hd, if_neg (by rw [hlevels]; simp [hd])]
          rw [if_neg hd]
          cases xs with
          | nil =>
              -- `[]` ends where it begins
              obtain rfl := Option.some.inj hds
              have hskip : skip (']' :: rest) = ']' :: rest := skip_cons (by decide)
              rw [List.nil_append, hskip, List.head?_cons, if_pos rfl,
                if_pos (hlevels.2 ⟨hd, Nat.zero_le d⟩)]
              rfl
          | cons y ys =>
              have hlen := length_marshalElems hds
              have helems := @elems_marshal html y ys ds rest d (ds ++ ']' :: rest).length hread hds
                (by simp at hlen ⊢; omega)
              -- the first element does not begin with `]`, so that the reader takes it for an
              -- element
              obtain ⟨c, ds', rfl, hlead⟩ := exists_cons_of_marshalElems hds
              have hne : c ≠ ']' := by
                rintro rfl
                exact absurd hlead (by decide)
              rw [List.cons_append, skip_of_leads hlead, List.head?_cons,
                if_neg (by simpa using hne), ← List.cons_append, helems]
              by_cases hl : levelsElems (y :: ys) ≤ d
              · rw [if_pos hl, if_pos (hlevels.2 ⟨hd, hl⟩), Option.map_some]
              · rw [if_neg hl, if_neg fun h => hl (hlevels.1 h).2, Option.map_none]
      | .obj m, hc, h =>
          -- an object: as an array, but the reader also puts the fields into the order of their
          -- keys
          simp only [marshal, Option.map_eq_some_iff] at h
          obtain ⟨ds, hds, rfl⟩ := h
          have hread : ∀ f ∈ m, ReadBack html d f.2 := fun f hf =>
            value_marshal f.2 d (canonical_of_mem_fields hc hf)
          have hlevels : levels (.obj m) ≤ d + 1 ↔ d ≠ 0 ∧ levelsFields m ≤ d := by
            simp only [levels]
            omega
          simp only [List.cons_append, List.append_assoc, List.nil_append, value]
          rw [if_pos trivial]
          by_cases hd : d = 0
          · rw [if_pos hd, if_neg (by rw [hlevels]; simp [hd])]
          rw [if_neg hd]
          cases m with
          | nil =>
              obtain rfl := Option.some.inj hds
              have hskip : skip ('\x7d' :: rest) = '\x7d' :: rest := skip_cons (by decide)
              rw [List.nil_append, hskip, List.head?_cons, if_pos rfl,
                if_pos (hlevels.2 ⟨hd, Nat.zero_le d⟩)]
              rfl
          | cons f m =>
              have hlen := length_marshalFields hds
              have hmembers := @members_marshal html f m ds rest d (ds ++ '\x7d' :: rest).length
                hread hds (by simp at hlen ⊢; omega)
              obtain ⟨ds', rfl⟩ := exists_cons_of_marshalFields hds
              rw [List.cons_append, skip_of_leads (by decide), List.head?_cons, if_neg (by simp),
                ← List.cons_append, hmembers]
              by_cases hl : levelsFields (f :: m) ≤ d
              · rw [if_pos hl, if_pos (hlevels.2 ⟨hd, hl⟩), Option.map_some,
                  fromPairs_of_canonical hc]
              · rw [if_neg hl, if_neg fun h => hl (hlevels.1 h).2, Option.map_none]
termination_by sizeOf x
decreasing_by
  · have := List.sizeOf_lt_of_mem hy
    simp
    omega
  · have := List.sizeOf_lt_of_mem hf
    have : sizeOf f.2 < sizeOf f := by cases f; simp
    simp
    omega

/-- A text that a value was written as is read back, with white space after it. -/
theorem parse_marshal {x : Json} {cs ws : List Char} (hc : canonical x = true)
    (h : marshal html x = some cs) (hws : skip ws = []) (hstop : Stop ws) :
    parse (cs ++ ws) = if levels x ≤ maxNestingDepth + 1 then some x else none := by
  have hread := value_marshal x (maxNestingDepth + 1) hc cs ws h hstop
  obtain ⟨c, cs', hcons, hlead⟩ := exists_cons_of_marshal h
  have hskip : skip (cs ++ ws) = cs ++ ws := by
    rw [hcons, List.cons_append, skip_of_leads hlead]
  rw [parse, hskip, hread]
  by_cases hl : levels x ≤ maxNestingDepth + 1
  · rw [if_pos hl, if_pos hl, Option.bind_some]
    simp only
    rw [if_pos hws]
  · rw [if_neg hl, if_neg hl, Option.bind_none]

lemma unmarshal_utf8 (cs : List Char) : unmarshal (utf8 cs) = parse cs := by
  have hdecode : (utf8 cs).toByteArray.utf8Decode? = some cs.toArray :=
    List.utf8Decode?_utf8Encode
  rw [unmarshal, hdecode, Option.bind_some]

/-- What was written is read back, with the line break after it or without. -/
theorem unmarshal_marshal {x : Json} {cs : List Char} (hc : canonical x = true)
    (h : marshal html x = some cs) :
    unmarshal (utf8 cs) = (if levels x ≤ maxNestingDepth + 1 then some x else none) ∧
      unmarshal (utf8 cs ++ [10]) = unmarshal (utf8 cs) := by
  have hplain := @parse_marshal _ _ _ [] hc h rfl (by simp [Stop])
  have hline := @parse_marshal _ _ _ ['\n'] hc h (by decide) (stop_cons (by decide) _)
  rw [List.append_nil] at hplain
  refine ⟨(unmarshal_utf8 cs).trans hplain, ?_⟩
  have hbytes : utf8 cs ++ [10] = utf8 (cs ++ ['\n']) := by
    rw [utf8, utf8, List.flatMap_append]
    rfl
  rw [hbytes, unmarshal_utf8, unmarshal_utf8, hline, hplain]

/-! ### One record, one line -/

lemma newline_escapeChar (c : Char) : '\n' ∉ escapeChar html c := by
  have hhex (n : ℕ) (h : n < 16) : hexDigit n ≠ '\n' := by
    have hall : ∀ m < 16, hexDigit m ≠ '\n' := by decide
    exact hall n h
  unfold escapeChar
  split_ifs with h1 h2 h3 h4 h5 h6 h7 h8
  all_goals try decide
  · simp only [Bool.or_eq_true, decide_eq_true_eq, Bool.and_eq_true] at h8
    have hlow : c.toNat < 0x10000 := by
      rcases h8 with ((h | ⟨-, (rfl | rfl) | rfl⟩) | h) | h
      · omega
      · decide
      · decide
      · decide
      · omega
      · omega
    simp only [escapeHex, List.mem_cons, List.not_mem_nil, or_false, not_or]
    exact ⟨by decide, by decide, (hhex _ (by omega)).symm, (hhex _ (by omega)).symm,
      (hhex _ (by omega)).symm, (hhex _ (by omega)).symm⟩
  · rw [List.mem_singleton]
    exact fun h => h3 h.symm

lemma newline_quote (s : String) : '\n' ∉ quote html s := by
  simp only [quote, List.mem_append, List.mem_cons, List.mem_flatMap, List.not_mem_nil, or_false,
    not_or, not_exists, not_and]
  exact ⟨⟨by decide, fun c _ => newline_escapeChar c⟩, by decide⟩

/-- A character that is written outside of quotes. -/
def partChar (c : Char) : Bool :=
  numChar c || ['n', 'u', 'l', 't', 'r', 'e', 'f', 'a', 's', '[', ']', '\x7b', '\x7d', ',', ':'].contains c

/-- What holds of the quoted texts and of the characters between them, and of two texts together,
holds of every text that is written. -/
theorem marshal_parts {P : List Char → Prop} (happend : ∀ cs ds, P cs → P ds → P (cs ++ ds))
    (hquote : ∀ s, P (quote html s)) (hpart : ∀ cs, (∀ c ∈ cs, partChar c = true) → P cs) (x : Json)
    {cs : List Char} (h : marshal html x = some cs) : P cs := by
  have hnum {ds : List Char} (hds : ∀ c ∈ ds, numChar c = true) : P ds :=
    hpart ds fun c hc => by rw [partChar, hds c hc, Bool.true_or]
  have hlit (ds : List Char) (hds : ds.all partChar = true) : P ds :=
    hpart ds (List.all_eq_true.1 hds)
  have hone (c : Char) (hc : partChar c = true) {ds : List Char} (hds : P ds) : P (c :: ds) :=
    happend [c] ds (hpart [c] fun a ha => List.mem_singleton.1 ha ▸ hc) hds
  match x, h with
  | .null, h =>
      obtain rfl := Option.some.inj h
      exact hlit _ (by decide)
  | .bool b, h =>
      obtain rfl := Option.some.inj h
      cases b <;> exact hlit _ (by decide)
  | .int n, h =>
      obtain rfl := Option.some.inj h
      exact hnum (numChar_ofInt n).2
  | .float t, h =>
      simp only [marshal] at h
      split_ifs at h with ht
      obtain rfl := Option.some.inj h
      exact hnum (numChar_of_floatText ht).2
  | .str s, h =>
      obtain rfl := Option.some.inj h
      exact hquote s
  | .arr xs, h =>
      -- `all` is the induction on the value, `helems` that on the elements
      simp only [marshal, Option.map_eq_some_iff] at h
      obtain ⟨ds, hds, rfl⟩ := h
      have hall : ∀ y ∈ xs, ∀ es, marshal html y = some es → P es := fun y hy es hes =>
        marshal_parts happend hquote hpart y hes
      have helems : ∀ ys, (∀ y ∈ ys, y ∈ xs) → ∀ es, marshalElems html ys = some es → P es := by
        intro ys hys
        induction ys with
        | nil =>
            intro es hes
            obtain rfl := Option.some.inj hes
            exact hpart [] (by simp)
        | cons y ys ih =>
            intro es hes
            rw [marshalElems, Option.bind_eq_some_iff] at hes
            obtain ⟨fs, hfs, hes⟩ := hes
            obtain ⟨gs, hgs, rfl⟩ := Option.map_eq_some_iff.1 hes
            have hy := hall y (hys y List.mem_cons_self) fs hfs
            have hrest := ih (fun z hz => hys z (List.mem_cons_of_mem _ hz)) gs hgs
            split_ifs
            · exact hy
            · exact happend _ _ hy (hone ',' (by decide) hrest)
      exact hone '[' (by decide) (happend _ _ (helems xs (fun _ h => h) ds hds) (hlit _ (by decide)))
  | .obj m, h =>
      -- a field is a quoted key, a colon and a value
      simp only [marshal, Option.map_eq_some_iff] at h
      obtain ⟨ds, hds, rfl⟩ := h
      have hall : ∀ f ∈ m, ∀ es, marshal html f.2 = some es → P es := fun f hf es hes =>
        marshal_parts happend hquote hpart f.2 hes
      have hfields : ∀ l : Json.Fields, (∀ f ∈ l, f ∈ m) → ∀ es, marshalFields html l = some es →
          P es := by
        intro l hl
        induction l with
        | nil =>
            intro es hes
            obtain rfl := Option.some.inj hes
            exact hpart [] (by simp)
        | cons f l ih =>
            intro es hes
            rw [marshalFields, Option.bind_eq_some_iff] at hes
            obtain ⟨fs, hfs, hes⟩ := hes
            obtain ⟨gs, hgs, rfl⟩ := Option.map_eq_some_iff.1 hes
            have hf := hall f (hl f List.mem_cons_self) fs hfs
            have hrest := ih (fun z hz => hl z (List.mem_cons_of_mem _ hz)) gs hgs
            refine happend _ _ (hquote f.1) (hone ':' (by decide) ?_)
            split_ifs
            · exact hf
            · exact happend _ _ hf (hone ',' (by decide) hrest)
      exact hone '\x7b' (by decide)
        (happend _ _ (hfields m (fun _ h => h) ds hds) (hlit _ (by decide)))
termination_by sizeOf x
decreasing_by
  · have := List.sizeOf_lt_of_mem hy
    simp
    omega
  · have := List.sizeOf_lt_of_mem hf
    have : sizeOf f.2 < sizeOf f := by cases f; simp
    simp
    omega

/-- What is written has no line break. -/
theorem newline_not_mem (x : Json) {cs : List Char} (h : marshal html x = some cs) : '\n' ∉ cs := by
  refine marshal_parts (P := fun cs => '\n' ∉ cs) (fun cs ds hcs hds hmem => ?_) newline_quote
    (fun cs hcs hmem => absurd (hcs _ hmem) (by decide)) x h
  exact (List.mem_append.1 hmem).elim hcs hds

/-- Only a line break is encoded with the byte of the line break. -/
lemma mem_utf8 {cs : List Char} (h : 10 ∈ utf8 cs) : '\n' ∈ cs := by
  rw [utf8, List.mem_flatMap] at h
  obtain ⟨c, hc, h⟩ := h
  have hval : c.val.toNat < 0x110000 := by
    have hv : c.toNat < 0xd800 ∨ 0xdfff < c.toNat ∧ c.toNat < 0x110000 := c.valid
    have : c.toNat = c.val.toNat := rfl
    omega
  have hbyte {n : ℕ} (hn : n < 256) (h : (10 : UInt8) = UInt8.ofNat n) : n = 10 := by
    have hnat := congrArg UInt8.toNat h
    simp only [UInt8.toNat_ofNat'] at hnat
    have : (10 : UInt8).toNat = 10 := rfl
    omega
  simp only [String.utf8EncodeChar] at h
  split_ifs at h with h1 h2 h3
  · rw [List.mem_singleton] at h
    have hten := hbyte (by omega) h
    have heq : c = '\n' := Char.toNat_inj.1 hten
    exact heq ▸ hc
  all_goals simp only [List.mem_cons, List.not_mem_nil, or_false] at h
  · rcases h with h | h <;> exact absurd (hbyte (by omega) h) (by omega)
  · rcases h with h | h | h <;> exact absurd (hbyte (by omega) h) (by omega)
  · rcases h with h | h | h | h <;> exact absurd (hbyte (by omega) h) (by omega)

end

end Encoding

end Afterlock
