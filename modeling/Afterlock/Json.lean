import Afterlock.Lib.Text

/-!
# JSON documents

Documents as `json.loads` returns them: dictionaries are lists of fields, integers are unbounded
and a number with a fraction or an exponent is kept as the text Python prints for it, since no
modelled function computes with it.  An absent field and a field that is `null` both read as
`Json.null`, as `m.get(key)` has them.
-/

namespace Afterlock

/-- A JSON value. -/
inductive Json where
  | null
  | bool (b : Bool)
  | int (n : ℤ)
  /-- A float, as `repr` prints it. -/
  | float (text : String)
  | str (s : String)
  | arr (xs : List Json)
  | obj (fields : List (String × Json))
deriving Repr, Inhabited

namespace Json

/-- The fields of a dictionary. -/
abbrev Fields : Type := List (String × Json)

/-- `m.get(key)`. -/
def get (m : Fields) (key : String) : Json := (m.lookup key).getD .null

/-- `key in m`. -/
def has (m : Fields) (key : String) : Bool := (m.lookup key).isSome

/-- `m.items()`: the fields, each key once. -/
def items : Fields → Fields
  | [] => []
  | (k, v) :: m => (k, v) :: (items m).filter fun kv => kv.1 ≠ k

/-- The truth value of a JSON value. -/
def truthy : Json → Bool
  | .null => false
  | .bool b => b
  | .int n => n != 0
  | .float t => t != "0.0" && t != "-0.0"
  | .str s => s != ""
  | .arr xs => !xs.isEmpty
  | .obj m => !m.isEmpty

/-- `x or d`. -/
def orElse (x d : Json) : Json := if x.truthy then x else d

/-- The ranges of separators, controls, formats and private characters. -/
def unprintable : List (ℕ × ℕ) :=
  [(0x0, 0x1f), (0x7f, 0xa0), (0xad, 0xad), (0x600, 0x605), (0x61c, 0x61c), (0x6dd, 0x6dd),
    (0x70f, 0x70f), (0x890, 0x891), (0x8e2, 0x8e2), (0x1680, 0x1680), (0x180e, 0x180e),
    (0x2000, 0x200f), (0x2028, 0x202f), (0x205f, 0x2064), (0x2066, 0x206f), (0x3000, 0x3000),
    (0xe000, 0xf8ff), (0xfeff, 0xfeff), (0xfff9, 0xfffb), (0x110bd, 0x110bd), (0x110cd, 0x110cd),
    (0x13430, 0x13438), (0x1bca0, 0x1bca3), (0x1d173, 0x1d17a), (0xe0001, 0xe0001),
    (0xe0020, 0xe007f), (0xf0000, 0xffffd), (0x100000, 0x10fffd)]

/-- `c.isprintable()`, of the characters that are assigned. -/
def isPrintable (c : Char) : Bool := !unprintable.any fun r => r.1 ≤ c.toNat && c.toNat ≤ r.2

/-- The last digits of a number to the base of 16. -/
def hex (width n : ℕ) : String :=
  String.ofList ((List.range width).reverse.map fun i => Nat.digitChar (n / 16 ^ i % 16))

/-- The escape of a character inside a quoted `repr`.  Code points that are not assigned are not
escaped here. -/
def reprChar (quote c : Char) : String :=
  if c = '\\' || c = quote then "\\" ++ c.toString
  else if c = '\n' then "\\n"
  else if c = '\r' then "\\r"
  else if c = '\t' then "\\t"
  else if isPrintable c then c.toString
  else if c.toNat < 0x100 then "\\x" ++ hex 2 c.toNat
  else if c.toNat < 0x10000 then "\\u" ++ hex 4 c.toNat
  else "\\U" ++ hex 8 c.toNat

/-- `repr(s)`: in single quotes, unless the text has a single and no double quote. -/
def quoted (s : String) : String :=
  let quote := if s.toList.contains '\'' && !s.toList.contains '"' then '"' else '\''
  quote.toString ++ String.join (s.toList.map (reprChar quote)) ++ quote.toString

mutual
/-- `repr(x)`. -/
def repr : Json → String
  | .null => "None"
  | .bool b => if b then "True" else "False"
  | .int n => Text.ofInt n
  | .float t => t
  | .str s => quoted s
  | .arr xs => "[" ++ reprElems xs ++ "]"
  | .obj m => "\x7b" ++ reprFields m ++ "\x7d"

/-- The elements of a list, each followed by a comma where another one comes. -/
def reprElems : List Json → String
  | [] => ""
  | [x] => repr x
  | x :: xs => repr x ++ ", " ++ reprElems xs

/-- The fields of a dictionary, each followed by a comma where another one comes. -/
def reprFields : List (String × Json) → String
  | [] => ""
  | [(k, v)] => quoted k ++ ": " ++ repr v
  | (k, v) :: m => quoted k ++ ": " ++ repr v ++ ", " ++ reprFields m
end

/-- `str(x)`. -/
def text : Json → String
  | .str s => s
  | x => repr x

/-- `isinstance(x, int)`, with the value; a boolean is an integer. -/
def asInt? : Json → Option ℤ
  | .int n => some n
  | .bool b => some (if b then 1 else 0)
  | _ => none

/-- `isinstance(x, str)`, with the value. -/
def asStr? : Json → Option String
  | .str s => some s
  | _ => none

lemma asStr?_eq_some {x : Json} {s : String} : x.asStr? = some s ↔ x = .str s := by
  cases x <;> simp [asStr?]

lemma get_eq_of_lookup {m : Fields} {k : String} {v : Json} (h : m.lookup k = some v) :
    get m k = v := by
  simp [get, h]

lemma mem_items {m : Fields} {k : String} {v : Json} : (k, v) ∈ items m ↔ m.lookup k = some v := by
  induction m with
  | nil => simp [items]
  | cons e m ih =>
      obtain ⟨k', v'⟩ := e
      rw [items, List.mem_cons, List.mem_filter, ih, List.lookup_cons]
      by_cases hk : k = k'
      · simp [hk, eq_comm]
      · rw [show (k == k') = false by simpa using hk]
        simp [hk]

lemma nodup_items (m : Fields) : ((items m).map Prod.fst).Nodup := by
  induction m with
  | nil => exact List.nodup_nil
  | cons e m ih =>
      obtain ⟨k', v'⟩ := e
      rw [items, List.map_cons, List.nodup_cons]
      refine ⟨fun hk => ?_, ih.sublist (List.filter_sublist.map _)⟩
      obtain ⟨f, hf, he⟩ := List.mem_map.1 hk
      exact of_decide_eq_true (List.mem_filter.1 hf).2 he

end Json

end Afterlock
