import Afterlock.Json
import Afterlock.Lib.Delimited

/-!
# Canonical JSON

`canonical_json` writes a value with its fields in the order of their keys and no space.  Two
dictionaries with the same fields have one text (`chars_obj_congr`), and the texts of simple values
tell them apart (`Simple.determines`, `obj_determines`).
-/

namespace Afterlock

namespace Json

open Delimited

/-! ### The text -/

/-- The escape of a character inside a string. -/
def escape (c : Char) : List Char :=
  if c = '"' then ['\\', '"']
  else if c = '\\' then ['\\', '\\']
  else if c = '\n' then ['\\', 'n']
  else if c = '\r' then ['\\', 'r']
  else if c = '\t' then ['\\', 't']
  else if c.toNat = 8 then ['\\', 'b']
  else if c.toNat = 12 then ['\\', 'f']
  else if c.toNat < 0x20 then
    ['\\', 'u', '0', '0', Nat.digitChar (c.toNat / 16), Nat.digitChar (c.toNat % 16)]
  else [c]

def quote (s : String) : List Char := '"' :: (s.toList.flatMap escape ++ ['"'])

/-- The text of a float, from the one that `repr` gives. -/
def floatText (t : String) : String :=
  if t = "nan" then "NaN" else if t = "inf" then "Infinity" else if t = "-inf" then "-Infinity" else t

/-- The fields whose key does not come earlier. -/
def firsts {β : Type} : List (String × β) → List (String × β)
  | [] => []
  | e :: es => e :: (firsts es).filter fun f => f.1 ≠ e.1

/-- A field of a dictionary, given the text of its value. -/
def field (e : String × List Char) : List Char := quote e.1 ++ ':' :: e.2

mutual
/-- The characters of `canonical_json`. -/
def chars : Json → List Char
  | .null => "null".toList
  | .bool b => (if b then "true" else "false").toList
  | .int n => (Text.ofInt n).toList
  | .float t => (floatText t).toList
  | .str s => quote s
  | .arr xs => '[' :: enclosed ']' (elemChars xs)
  | .obj m => '{' :: enclosed '}' ((Text.sortedBy Prod.fst (firsts (fieldChars m))).map field)

/-- The texts of the elements of a list. -/
def elemChars : List Json → List (List Char)
  | [] => []
  | x :: xs => chars x :: elemChars xs

/-- The keys of a dictionary, each with the text of its value. -/
def fieldChars : List (String × Json) → List (String × List Char)
  | [] => []
  | (k, v) :: m => (k, chars v) :: fieldChars m
end

def canonicalJson (value : Json) : String := String.ofList (chars value)

/-- `digest`, given the hexadecimal text of a hash. -/
def digest (sha256 : String → String) (value : Json) : String :=
  "sha256:" ++ sha256 (canonicalJson value)

/-- The fields in the order of their keys. -/
def sortedItems (m : Fields) : Fields := Text.sortedBy Prod.fst (items m)

/-! ### Dictionaries -/

lemma elemChars_eq (xs : List Json) : elemChars xs = xs.map chars := by
  induction xs with
  | nil => rfl
  | cons x xs ih => rw [elemChars, ih, List.map_cons]

lemma fieldChars_eq (m : Fields) : fieldChars m = m.map fun e => (e.1, chars e.2) := by
  induction m with
  | nil => rfl
  | cons e m ih => rw [fieldChars, ih, List.map_cons]

lemma firsts_map (m : Fields) :
    firsts (m.map fun e => (e.1, chars e.2)) = (items m).map fun e => (e.1, chars e.2) := by
  induction m with
  | nil => rfl
  | cons e m ih =>
      rw [List.map_cons, firsts, ih, items, List.map_cons, List.filter_map]
      rfl

lemma chars_obj (m : Fields) : chars (.obj m) =
    '{' :: enclosed '}' ((sortedItems m).map fun e => field (e.1, chars e.2)) := by
  have hsort : Text.sortedBy Prod.fst ((items m).map fun e => (e.1, chars e.2)) =
      (sortedItems m).map fun e => (e.1, chars e.2) := by
    unfold sortedItems Text.sortedBy
    exact (List.map_insertionSort (fun a b : String × Json => a.1 ≤ b.1)
      (fun a b : String × List Char => a.1 ≤ b.1) _ _ fun _ _ _ _ => Iff.rfl).symm
  rw [chars, fieldChars_eq, firsts_map, hsort, List.map_map]
  rfl

lemma mem_sortedItems {m : Fields} {k : String} {v : Json} :
    (k, v) ∈ sortedItems m ↔ m.lookup k = some v := by
  rw [sortedItems, Text.mem_sortedBy, mem_items]

/-- Dictionaries with the same fields have the same sorted fields. -/
lemma sortedItems_eq_iff {m m' : Fields} :
    sortedItems m = sortedItems m' ↔ ∀ k, m.lookup k = m'.lookup k := by
  constructor
  · intro h k
    refine Option.ext fun v => ?_
    rw [← mem_sortedItems, ← mem_sortedItems, h]
  · intro h
    have hperm : (items m).Perm (items m') := by
      refine (List.perm_ext_iff_of_nodup (nodup_items m).of_map (nodup_items m').of_map).2 ?_
      rintro ⟨k, v⟩
      rw [mem_items, mem_items, h]
    exact Text.sortedBy_eq_of_perm hperm fun x hx y hy =>
      List.inj_on_of_nodup_map (nodup_items m) hx hy

/-- Dictionaries with the same fields have the same text. -/
lemma chars_obj_congr {m m' : Fields} (h : ∀ k, m.lookup k = m'.lookup k) :
    chars (.obj m) = chars (.obj m') := by
  rw [chars_obj, chars_obj, sortedItems_eq_iff.2 h]

/-! ### Strings -/

/-- The value of a hexadecimal digit. -/
def hexValue (c : Char) : ℕ := if c.isDigit then c.toNat - 0x30 else c.toNat - 0x57

/-- The character of a short escape. -/
def shortEscape (c : Char) : Char :=
  if c = 'n' then '\n'
  else if c = 'r' then '\r'
  else if c = 't' then '\t'
  else if c = 'b' then Char.ofNat 8
  else if c = 'f' then Char.ofNat 12
  else c

/-- The first character of an escaped text. -/
def unescape : List Char → Option (Char × List Char)
  | '\\' :: 'u' :: _ :: _ :: a :: b :: rest =>
      some (Char.ofNat (hexValue a * 16 + hexValue b), rest)
  | '\\' :: c :: rest => some (shortEscape c, rest)
  | c :: rest => some (c, rest)
  | [] => none

lemma unescape_escape (c : Char) (rest : List Char) :
    unescape (escape c ++ rest) = some (c, rest) := by
  have hnat : Char.ofNat c.toNat = c := Char.ofNat_toNat c
  unfold escape
  split_ifs with h1 h2 h3 h4 h5 h6 h7 h8
  · subst h1
    rfl
  · subst h2
    rfl
  · subst h3
    rfl
  · subst h4
    rfl
  · subst h5
    rfl
  · rw [← hnat, h6]
    rfl
  · rw [← hnat, h7]
    rfl
  · have hhex : ∀ n < 32, Char.ofNat (hexValue (Nat.digitChar (n / 16)) * 16 +
        hexValue (Nat.digitChar (n % 16))) = Char.ofNat n := by decide
    show some (Char.ofNat _, rest) = _
    rw [hhex _ h8, hnat]
  · show unescape (c :: rest) = _
    unfold unescape
    split
    · next h => exact absurd (List.cons.inj h).1 h2
    · next h => exact absurd (List.cons.inj h).1 h2
    · next h =>
        obtain ⟨rfl, rfl⟩ := List.cons.inj h
        rfl
    · next h => cases h

lemma escape_inj {c d : Char} {s t : List Char} (h : escape c ++ s = escape d ++ t) :
    c = d ∧ s = t := by
  have hu := unescape_escape c s
  rw [h, unescape_escape] at hu
  exact ⟨congrArg Prod.fst (Option.some.inj hu).symm, congrArg Prod.snd (Option.some.inj hu).symm⟩

/-- An escaped character does not begin with the quotation mark. -/
lemma escape_head (c : Char) (s t : List Char) : escape c ++ s ≠ '"' :: t := by
  intro h
  by_cases hc : c = '"'
  · subst hc
    exact absurd (List.cons.inj h).1 (by decide)
  · have hu := unescape_escape c s
    rw [h] at hu
    exact hc (congrArg Prod.fst (Option.some.inj hu)).symm

/-- A quoted string ends at its quotation mark. -/
lemma quote_inj {s s' : String} {rest rest' : List Char}
    (h : quote s ++ rest = quote s' ++ rest') : s = s' ∧ rest = rest' := by
  have key : ∀ cs cs' : List Char, cs.flatMap escape ++ ['"'] ++ rest =
      cs'.flatMap escape ++ ['"'] ++ rest' → cs = cs' ∧ rest = rest' := by
    intro cs
    induction cs with
    | nil =>
        intro cs' he
        cases cs' with
        | nil => exact ⟨rfl, (List.cons.inj he).2⟩
        | cons c cs' =>
            simp only [List.flatMap_cons, List.append_assoc] at he
            exact absurd he.symm (escape_head c _ _)
    | cons c cs ih =>
        intro cs' he
        cases cs' with
        | nil =>
            simp only [List.flatMap_cons, List.append_assoc] at he
            exact absurd he (escape_head c _ _)
        | cons d cs' =>
            simp only [List.flatMap_cons, List.append_assoc] at he
            obtain ⟨hcd, hcs⟩ := escape_inj he
            obtain ⟨hcs, hrest⟩ := ih cs' (by simpa only [List.append_assoc] using hcs)
            exact ⟨by rw [hcd, hcs], hrest⟩
  obtain ⟨hs, hrest⟩ := key _ _ (List.cons.inj h).2
  exact ⟨String.toList_inj.1 hs, hrest⟩

/-! ### Simple values -/

/-- The values of the fields of an encoded action, and `null`. -/
inductive Simple : Json → Prop
  | null : Simple .null
  | str (s : String) : Simple (.str s)
  | int (n : ℤ) : Simple (.int n)
  | strs (xs : List String) : Simple (.arr (xs.map .str))

/-- The sorts of simple values. -/
def sortOf : Json → ℕ
  | .null => 0
  | .str _ => 1
  | .int _ => 2
  | _ => 3

/-- The sort of the simple values whose text begins with the character. -/
def sort (c : Char) : ℕ := if c = 'n' then 0 else if c = '"' then 1 else if c = '[' then 3 else 2

/-- The characters of a numeral. -/
lemma numeral_chars {n : ℤ} {c : Char} (h : c ∈ (Text.ofInt n).toList) :
    c.isDigit = true ∨ c = '-' := by
  by_contra hc
  rw [not_or, Bool.not_eq_true] at hc
  exact Text.not_hasChar_ofInt hc.1 hc.2 h

lemma numeral_ne_nil (n : ℤ) : (Text.ofInt n).toList ≠ [] := by
  intro h
  have hs : Text.ofInt n = "" := String.toList_inj.1 h
  have hr := Text.toInt?_ofInt n
  rw [hs] at hr
  cases hr

/-- Without the characters that may follow it, a text can be told from what follows. -/
lemma append_stop_inj {a b s t : List Char} (ha : ∀ c ∈ a, ¬(c = ',' ∨ c = ']' ∨ c = '}'))
    (hb : ∀ c ∈ b, ¬(c = ',' ∨ c = ']' ∨ c = '}')) (hs : Stop s) (ht : Stop t)
    (h : a ++ s = b ++ t) : a = b ∧ s = t := by
  induction a generalizing b with
  | nil =>
      cases b with
      | nil => exact ⟨rfl, h⟩
      | cons d b =>
          rw [List.nil_append, List.cons_append] at h
          rw [h] at hs
          exact absurd (stop_cons.1 hs) (hb d List.mem_cons_self)
  | cons c a ih =>
      cases b with
      | nil =>
          rw [List.nil_append, List.cons_append] at h
          rw [← h] at ht
          exact absurd (stop_cons.1 ht) (ha c List.mem_cons_self)
      | cons d b =>
          obtain ⟨hcd, hrest⟩ := List.cons.inj h
          obtain ⟨hab, hst⟩ := ih (fun c hc => ha c (List.mem_cons_of_mem _ hc))
            (fun c hc => hb c (List.mem_cons_of_mem _ hc)) hrest
          exact ⟨by rw [hcd, hab], hst⟩

lemma numeral_determines (m n : ℤ) :
    Determines (Text.ofInt m).toList (Text.ofInt n).toList (m = n) := by
  have hstop : ∀ (k : ℤ), ∀ c ∈ (Text.ofInt k).toList, ¬(c = ',' ∨ c = ']' ∨ c = '}') := by
    rintro k c hc (rfl | rfl | rfl)
    · exact absurd (numeral_chars hc) (by decide)
    · exact absurd (numeral_chars hc) (by decide)
    · exact absurd (numeral_chars hc) (by decide)
  intro s t hs ht h
  obtain ⟨he, hst⟩ := append_stop_inj (hstop m) (hstop n) hs ht h
  exact ⟨Text.ofInt_inj (String.toList_inj.1 he), hst⟩

lemma sort_numeral {c : Char} (h : c.isDigit = true ∨ c = '-') : sort c = 2 := by
  unfold sort
  rcases h with h | rfl
  · rw [if_neg, if_neg, if_neg]
    all_goals
      rintro rfl
      exact absurd h (by decide)
  · rfl

/-- The text of a simple value begins with a character of its sort. -/
lemma Simple.chars_cons {x : Json} (h : Simple x) :
    ∃ c cs, chars x = c :: cs ∧ sort c = sortOf x := by
  cases h with
  | null => exact ⟨_, _, rfl, rfl⟩
  | str s => exact ⟨_, _, rfl, rfl⟩
  | int n =>
      cases hn : (Text.ofInt n).toList with
      | nil => exact absurd hn (numeral_ne_nil n)
      | cons c cs =>
          refine ⟨c, cs, hn, sort_numeral (numeral_chars (n := n) ?_)⟩
          rw [hn]
          exact List.mem_cons_self
  | strs xs => exact ⟨_, _, rfl, rfl⟩

/-- The texts of simple values tell them apart. -/
theorem Simple.determines {x y : Json} (hx : Simple x) (hy : Simple y) :
    Determines (chars x) (chars y) (x = y) := by
  intro s t hs ht h
  obtain ⟨c, cs, hc, hsort⟩ := hx.chars_cons
  obtain ⟨d, ds, hd, hsort'⟩ := hy.chars_cons
  -- the first character tells the sort of the value
  have hcd : c = d := by
    rw [hc, hd] at h
    exact (List.cons.inj h).1
  rw [hcd, hsort'] at hsort
  cases hx with
  | null =>
      cases hy with
      | null => exact ⟨rfl, List.append_cancel_left h⟩
      | _ => simp [sortOf] at hsort
  | str s₁ =>
      cases hy with
      | str s₂ =>
          obtain ⟨rfl, hst⟩ := quote_inj h
          exact ⟨rfl, hst⟩
      | _ => simp [sortOf] at hsort
  | int n =>
      cases hy with
      | int n' =>
          obtain ⟨rfl, hst⟩ := numeral_determines _ _ s t hs ht h
          exact ⟨rfl, hst⟩
      | _ => simp [sortOf] at hsort
  | strs xs =>
      cases hy with
      | strs ys =>
          rw [chars, chars, elemChars_eq, elemChars_eq, List.map_map, List.map_map] at h
          have hhead : ∀ x : String, ∃ c cs, (chars ∘ Json.str) x = c :: cs ∧ c ≠ ']' :=
            fun x => ⟨'"', _, rfl, by decide⟩
          obtain ⟨hall, hst⟩ := enclosed_inj (R := Eq) (Or.inl rfl) (fun x _ => hhead x)
            (fun y _ => hhead y) (fun p _ s t _ _ he => quote_inj he) (List.cons.inj h).2
          rw [List.forall₂_eq_eq_eq] at hall
          exact ⟨by rw [hall], hst⟩
      | _ => simp [sortOf] at hsort

/-- The texts of two dictionaries tell them apart, if the values of the one are simple, and those of
the other at the same keys. -/
theorem obj_determines {m m' : Fields} (hm : ∀ k v, m.lookup k = some v →
      (m'.lookup k).isSome → Simple v) (hm' : ∀ k v, m'.lookup k = some v → Simple v) :
    Determines (chars (.obj m)) (chars (.obj m')) (∀ k, m.lookup k = m'.lookup k) := by
  intro s t _ _ h
  rw [chars_obj, chars_obj] at h
  have hhead : ∀ e : String × Json, ∃ c cs, field (e.1, chars e.2) = c :: cs ∧ c ≠ '}' :=
    fun e => ⟨'"', _, rfl, by decide⟩
  have hpieces : ∀ x ∈ sortedItems m, ∀ y ∈ sortedItems m',
      Determines (field (x.1, chars x.2)) (field (y.1, chars y.2)) (x = y) := by
    rintro ⟨k, v⟩ hx ⟨k', v'⟩ hy s t hs ht he
    simp only [field, List.append_assoc] at he
    obtain ⟨rfl, hval⟩ := quote_inj he
    have hlookup := mem_sortedItems.1 hy
    obtain ⟨rfl, hst⟩ := (hm k v (mem_sortedItems.1 hx) (by rw [hlookup]; rfl)).determines
      (hm' k v' hlookup) s t hs ht (List.cons.inj hval).2
    exact ⟨rfl, hst⟩
  obtain ⟨hall, hst⟩ := enclosed_inj (Or.inr rfl) (fun x _ => hhead x) (fun y _ => hhead y)
    (fun p hp => hpieces _ (List.of_mem_zip hp).1 _ (List.of_mem_zip hp).2) (List.cons.inj h).2
  rw [List.forall₂_eq_eq_eq] at hall
  exact ⟨sortedItems_eq_iff.1 hall, hst⟩

end Json

end Afterlock
