import Afterlock.Collector.Encoding

/-!
# Lines that were not written whole

A write that fails leaves the head of a line, and the next line that is written is appended to it.
`Scan` follows brackets and quotes: a text that the parser accepts is scanned to `fin`, and a map
that is appended to a part of a map is not (`unmarshal_torn`).

In a text that is scanned from inside a quoted part, quotes open where they should close, so that it
ends inside a quoted part again (`Stuck`).
-/

namespace Afterlock

namespace Encoding

/-! ### The scan -/

/-- Where a scan of a map is: before it, between the parts of it with `k` more brackets open than
its own, in a quoted part, after a backslash, after the map, or at a fault. -/
inductive Scan where
  | start
  | out (k : ℕ)
  | str (k : ℕ)
  | esc (k : ℕ)
  | fin
  | dead
deriving DecidableEq, Repr

/-- One code point or one byte. -/
def Scan.step : Scan → ℕ → Scan
  | .start, c => if c = 123 then .out 0 else .dead
  | .out k, c =>
      if c = 34 then .str k
      else if c = 92 then .dead
      else if c = 123 ∨ c = 91 then .out (k + 1)
      else if c = 125 ∨ c = 93 then
        match k with
        | 0 => .fin
        | k + 1 => .out k
      else .out k
  | .str k, c => if c = 34 then .out k else if c = 92 then .esc k else .str k
  | .esc k, _ => .str k
  | .fin, c => if c = 32 ∨ c = 9 ∨ c = 10 ∨ c = 13 then .fin else .dead
  | .dead, _ => .dead

/-- The scan of a text. -/
def scan (q : Scan) (cs : List ℕ) : Scan := cs.foldl Scan.step q

/-- The code points of a text. -/
def codes (cs : List Char) : List ℕ := cs.map Char.toNat

@[simp] lemma scan_nil (q : Scan) : scan q [] = q := rfl

@[simp] lemma scan_cons (q : Scan) (c : ℕ) (cs : List ℕ) : scan q (c :: cs) = scan (q.step c) cs :=
  rfl

@[simp] lemma scan_append (q : Scan) (cs ds : List ℕ) :
    scan q (cs ++ ds) = scan (scan q cs) ds := List.foldl_append

@[simp] lemma codes_nil : codes [] = [] := rfl

@[simp] lemma codes_cons (c : Char) (cs : List Char) : codes (c :: cs) = c.toNat :: codes cs := rfl

@[simp] lemma codes_append (cs ds : List Char) : codes (cs ++ ds) = codes cs ++ codes ds :=
  List.map_append

@[simp] lemma scan_dead (cs : List ℕ) : scan .dead cs = .dead := by
  induction cs with
  | nil => rfl
  | cons c cs ih => exact ih

/-- What is scanned never comes back to the start. -/
lemma scan_ne_start {q : Scan} (h : q ≠ .start) (cs : List ℕ) : scan q cs ≠ .start := by
  induction cs generalizing q with
  | nil => exact h
  | cons c cs ih =>
      refine ih ?_
      cases q with
      | start => exact absurd rfl h
      | out k =>
          simp only [Scan.step]
          split_ifs <;> try simp
          cases k <;> simp
      | str k =>
          simp only [Scan.step]
          split_ifs <;> simp
      | esc k => simp [Scan.step]
      | fin =>
          simp only [Scan.step]
          split_ifs <;> simp
      | dead => simp [Scan.step]

/-- A code that is neither a quote, a backslash nor a bracket. -/
def Plain (c : ℕ) : Prop := c ≠ 34 ∧ c ≠ 92 ∧ c ≠ 123 ∧ c ≠ 91 ∧ c ≠ 125 ∧ c ≠ 93

lemma scan_out_of_plain {cs : List ℕ} (h : ∀ c ∈ cs, Plain c) (k : ℕ) :
    scan (.out k) cs = .out k := by
  induction cs with
  | nil => rfl
  | cons c cs ih =>
      obtain ⟨h1, h2, h3, h4, h5, h6⟩ := h c List.mem_cons_self
      have hstep : (Scan.out k).step c = .out k := by simp [Scan.step, h1, h2, h3, h4, h5, h6]
      rw [scan_cons, hstep, ih fun d hd => h d (List.mem_cons_of_mem _ hd)]

/-- A step over a code that is not of ASCII. -/
def Scan.pass : Scan → Scan
  | .out k => .out k
  | .str k | .esc k => .str k
  | .start | .fin | .dead => .dead

lemma step_of_le {c : ℕ} (hc : 128 ≤ c) (q : Scan) : q.step c = q.pass := by
  cases q <;> simp only [Scan.step, Scan.pass] <;> split_ifs <;> first | rfl | omega

/-- The scan of the bytes of a text is the scan of its code points. -/
lemma scan_utf8 (q : Scan) (cs : List Char) :
    scan q ((utf8 cs).map UInt8.toNat) = scan q (codes cs) := by
  have hbyte {n : ℕ} (h1 : 128 ≤ n) (h2 : n < 256) : 128 ≤ (UInt8.ofNat n).toNat := by
    rw [UInt8.toNat_ofNat', Nat.mod_eq_of_lt (by omega)]
    exact h1
  -- beyond ASCII one byte after another does to the scan what the character does
  have hbytes {c : ℕ} (hc : 128 ≤ c) {bs : List ℕ} (hne : bs ≠ []) (hbs : ∀ b ∈ bs, 128 ≤ b)
      (q : Scan) : scan q bs = q.step c := by
    induction bs generalizing q with
    | nil => exact absurd rfl hne
    | cons b bs ih =>
        rw [scan_cons, step_of_le (hbs b List.mem_cons_self), step_of_le hc]
        cases bs with
        | nil => rfl
        | cons b' bs =>
            rw [ih (by simp) fun d hd => hbs d (List.mem_cons_of_mem _ hd), step_of_le hc]
            cases q <;> rfl
  have hchar (c : Char) (q : Scan) :
      scan q ((String.utf8EncodeChar c).map UInt8.toNat) = q.step c.toNat := by
    have hval : c.val.toNat = c.toNat := rfl
    have hlt : c.toNat < 0x110000 := by
      have hv : c.toNat < 0xd800 ∨ 0xdfff < c.toNat ∧ c.toNat < 0x110000 := c.valid
      omega
    simp only [String.utf8EncodeChar, hval]
    split_ifs with h1 h2 h3
    · simp only [List.map_cons, List.map_nil, scan_cons, scan_nil, UInt8.toNat_ofNat']
      rw [Nat.mod_eq_of_lt (by omega)]
    all_goals
      refine hbytes (by omega) (by simp) (fun b hb => ?_) q
      simp only [List.map_cons, List.map_nil, List.mem_cons, List.not_mem_nil, or_false] at hb
    · rcases hb with rfl | rfl <;> exact hbyte (by omega) (by omega)
    · rcases hb with rfl | rfl | rfl <;> exact hbyte (by omega) (by omega)
    · rcases hb with rfl | rfl | rfl | rfl <;> exact hbyte (by omega) (by omega)
  induction cs generalizing q with
  | nil => rfl
  | cons c cs ih =>
      have hcons : utf8 (c :: cs) = String.utf8EncodeChar c ++ utf8 cs := by
        rw [utf8, utf8, List.flatMap_cons]
      rw [hcons, List.map_append, scan_append, hchar, codes_cons, scan_cons, ih]

/-! ### What the parser accepts -/

/-- The text is scanned back to where it begins. -/
def Even (cs : List Char) : Prop := ∀ k, scan (.out k) (codes cs) = .out k

lemma Even.append {cs ds : List Char} (h : Even cs) (h' : Even ds) : Even (cs ++ ds) := fun k => by
  rw [codes_append, scan_append, h k, h' k]

lemma even_of_plain {cs : List Char} (h : ∀ c ∈ cs, Plain c.toNat) : Even cs := fun k => by
  refine scan_out_of_plain (fun n hn => ?_) k
  obtain ⟨c, hc, rfl⟩ := List.mem_map.1 hn
  exact h c hc

lemma skip_spec (cs : List Char) : ∃ ws, cs = ws ++ skip cs ∧ Even ws := by
  refine ⟨cs.takeWhile fun c => c = ' ' || c = '\t' || c = '\n' || c = '\r',
    (List.takeWhile_append_dropWhile).symm, even_of_plain fun c hc => ?_⟩
  have hspace := List.mem_takeWhile_imp hc
  simp only [Bool.or_eq_true, decide_eq_true_eq] at hspace
  rcases hspace with ((rfl | rfl) | rfl) | rfl <;> simp [Plain]

lemma word?_spec {w cs r : List Char} (h : word? w cs = some r) : cs = w ++ r := by
  induction w generalizing cs with
  | nil =>
      simp only [word?, Option.some.injEq] at h
      exact h
  | cons a w ih =>
      cases cs with
      | nil => simp [word?] at h
      | cons c cs =>
          rw [word?] at h
          split_ifs at h with hac
          rw [hac, ih h, List.cons_append]

lemma step_str_of_hex {c : Char} {n k : ℕ} (h : hexValue? c = some n) :
    (Scan.str k).step c.toNat = .str k := by
  have hc : c.toNat ≠ 34 ∧ c.toNat ≠ 92 := by
    constructor <;> intro hcode
    · have hchar : c = '"' := Char.toNat_inj.1 hcode
      have hnone : hexValue? '"' = none := by decide
      exact absurd (hnone.symm.trans (hchar ▸ h)) (by simp)
    · have hchar : c = '\\' := Char.toNat_inj.1 hcode
      have hnone : hexValue? '\\' = none := by decide
      exact absurd (hnone.symm.trans (hchar ▸ h)) (by simp)
  simp [Scan.step, hc.1, hc.2]

/-- A text in quotes is scanned to its closing quote. -/
lemma units_spec {cs : List Char} {ns : List ℕ} {r : List Char} (h : units cs = some (ns, r)) :
    ∃ body, cs = body ++ '"' :: r ∧ ∀ k, scan (.str k) (codes body) = .str k := by
  induction cs using units.induct generalizing ns with
  | case1 => simp [units] at h
  | case2 cs =>
      -- the closing quotation mark
      rw [units.eq_def] at h
      simp only [if_true, Option.some.injEq, Prod.mk.injEq] at h
      exact ⟨[], by rw [h.2, List.nil_append], fun k => rfl⟩
  | case3 => simp [units] at h
  | case4 a b c d cs _ ih =>
      -- an escape of four hexadecimal digits, none of which ends the string
      rw [units.eq_def] at h
      simp only [Char.reduceEq, if_false, if_true, Option.bind_eq_some_iff,
        Option.map_eq_some_iff] at h
      obtain ⟨n, hhex, ⟨ns', r'⟩, hrest, heq⟩ := h
      obtain ⟨rfl, rfl⟩ := Prod.mk.inj heq
      obtain ⟨body, rfl, hscan⟩ := ih hrest
      refine ⟨'\\' :: 'u' :: a :: b :: c :: d :: body, rfl, fun k => ?_⟩
      simp only [hex4?, Option.bind_eq_bind, Option.bind_eq_some_iff] at hhex
      obtain ⟨na, ha, nb, hb, nc, hc, nd, hd, -⟩ := hhex
      have hesc : ((Scan.str k).step '\\'.toNat).step 'u'.toNat = .str k := rfl
      simp only [codes_cons, scan_cons, hesc, step_str_of_hex ha, step_str_of_hex hb,
        step_str_of_hex hc, step_str_of_hex hd, hscan k]
  | case5 cs hcs _ =>
      rw [units.eq_def] at h
      simp at h
  | case6 e cs he _ ih =>
      -- an escape of one character
      rw [units.eq_def] at h
      simp only [Char.reduceEq, if_false, if_true, he, Option.bind_eq_some_iff,
        Option.map_eq_some_iff] at h
      obtain ⟨n, -, ⟨ns', r'⟩, hrest, heq⟩ := h
      obtain ⟨rfl, rfl⟩ := Prod.mk.inj heq
      obtain ⟨body, rfl, hscan⟩ := ih hrest
      refine ⟨'\\' :: e :: body, rfl, fun k => ?_⟩
      have hesc : ((Scan.str k).step '\\'.toNat).step e.toNat = .str k := rfl
      simp only [codes_cons, scan_cons, hesc, hscan k]
  | case7 e cs h1 h2 h3 =>
      rw [units.eq_def] at h
      simp [h1, h2, h3] at h
  | case8 e cs h1 h2 h3 ih =>
      -- a character that stands for itself, and is neither a quotation mark nor a backslash
      rw [units.eq_def] at h
      simp only [h1, h2, h3, if_false, Option.map_eq_some_iff] at h
      obtain ⟨⟨ns', r'⟩, hrest, heq⟩ := h
      obtain ⟨rfl, rfl⟩ := Prod.mk.inj heq
      obtain ⟨body, rfl, hscan⟩ := ih hrest
      refine ⟨e :: body, rfl, fun k => ?_⟩
      have hstep : (Scan.str k).step e.toNat = .str k := by
        have hq : e.toNat ≠ 34 := fun hcode => h1 (Char.toNat_inj.1 hcode)
        have hb : e.toNat ≠ 92 := fun hcode => h2 (Char.toNat_inj.1 hcode)
        simp [Scan.step, hq, hb]
      rw [codes_cons, scan_cons, hstep, hscan k]

/-- What the parser of the parts of a value reads is even. -/
def ReadsEven (p : List Char → Option (Json × List Char)) : Prop :=
  ∀ cs x r, p cs = some (x, r) → ∃ t, cs = t ++ r ∧ Even t

lemma even_quoted {body : List Char} (h : ∀ k, scan (.str k) (codes body) = .str k) :
    Even ('"' :: body ++ ['"']) := fun k => by
  have hopen : (Scan.out k).step '"'.toNat = .str k := rfl
  have hclose : (Scan.str k).step '"'.toNat = .out k := rfl
  rw [List.cons_append, codes_cons, scan_cons, hopen, codes_append, scan_append, h k, codes_cons,
    scan_cons, hclose, codes_nil, scan_nil]

/-- The parts of a list, up to its closing bracket. -/
lemma elems_spec {p : List Char → Option (Json × List Char)} (hp : ReadsEven p) {n : ℕ}
    {cs : List Char} {xs : List Json} {r : List Char} (h : elems p n cs = some (xs, r)) :
    ∃ t, cs = t ++ ']' :: r ∧ Even t := by
  induction n generalizing cs xs with
  | zero => simp [elems] at h
  | succ n ih =>
      rw [elems, Option.bind_eq_some_iff] at h
      obtain ⟨⟨x, ds⟩, hx, h⟩ := h
      obtain ⟨t, rfl, ht⟩ := hp _ _ _ hx
      obtain ⟨ws, hws, heven⟩ := skip_spec ds
      simp only at h
      cases hs : skip ds with
      | nil => simp [hs] at h
      | cons c es =>
          rw [hs] at h hws
          simp only at h
          split_ifs at h with h1 h2
          · obtain ⟨⟨ys, r'⟩, hrest, heq⟩ := Option.map_eq_some_iff.1 h
            obtain ⟨-, rfl⟩ := Prod.mk.inj heq
            obtain ⟨t', ht', heven'⟩ := ih hrest
            obtain ⟨ws', hws', heven''⟩ := skip_spec es
            refine ⟨t ++ (ws ++ ([c] ++ (ws' ++ t'))), ?_, ?_⟩
            · rw [hws, hws', ht']
              simp
            · have hcomma : Even [c] := even_of_plain (by simp [h1, Plain])
              exact ht.append (heven.append (hcomma.append (heven''.append heven')))
          · simp only [Option.some.injEq, Prod.mk.injEq] at h
            exact ⟨t ++ ws, by rw [hws, h2, h.2, List.append_assoc], ht.append heven⟩

/-- The parts of a map, up to its closing brace. -/
lemma members_spec {p : List Char → Option (Json × List Char)} (hp : ReadsEven p) {n : ℕ}
    {cs : List Char} {m : Json.Fields} {r : List Char} (h : members p n cs = some (m, r)) :
    ∃ t, cs = t ++ '\x7d' :: r ∧ Even t := by
  induction n generalizing cs m with
  | zero => simp [members] at h
  | succ n ih =>
      rw [members.eq_def] at h
      cases cs with
      | nil => simp at h
      | cons q cs =>
          simp only at h
          split_ifs at h with hq
          simp only [Option.bind_eq_some_iff] at h
          obtain ⟨⟨k, ds⟩, hk, es, hcolon, ⟨v, fs⟩, hv, h⟩ := h
          obtain ⟨body, rfl, hbody⟩ := units_spec hk
          obtain ⟨ws₁, hws₁, heven₁⟩ := skip_spec ds
          obtain ⟨ws₂, hws₂, heven₂⟩ := skip_spec es
          obtain ⟨t, ht, heven⟩ := hp _ _ _ hv
          obtain ⟨ws₃, hws₃, heven₃⟩ := skip_spec fs
          rw [word?_spec hcolon] at hws₁
          -- a key, a colon and a value, with white space after each
          have hkey := even_quoted hbody
          have hmark : Even [':'] := even_of_plain (by simp [Plain])
          have hhead := hkey.append (heven₁.append (hmark.append (heven₂.append
            (heven.append heven₃))))
          simp only at h
          cases hs : skip fs with
          | nil => simp [hs] at h
          | cons c gs =>
              rw [hs] at h hws₃
              simp only at h
              split_ifs at h with h1 h2
              · -- after a comma come further members
                obtain ⟨⟨m', r'⟩, hrest, heq⟩ := Option.map_eq_some_iff.1 h
                obtain ⟨-, rfl⟩ := Prod.mk.inj heq
                obtain ⟨t', ht', heven'⟩ := ih hrest
                obtain ⟨ws₄, hws₄, heven₄⟩ := skip_spec gs
                have hcomma : Even [c] := even_of_plain (by simp [h1, Plain])
                refine ⟨_, ?_, hhead.append (hcomma.append (heven₄.append heven'))⟩
                rw [hq, hws₁, hws₂, ht, hws₃, hws₄, ht']
                simp
              · -- after a brace there are none
                simp only [Option.some.injEq, Prod.mk.injEq] at h
                refine ⟨_, ?_, hhead⟩
                rw [hq, hws₁, hws₂, ht, hws₃, h2, h.2]
                simp

lemma skip_of_head? {cs : List Char} {b : Char} (h : (skip cs).head? = some b) :
    ∃ ws, cs = ws ++ b :: (skip cs).tail ∧ Even ws := by
  obtain ⟨ws, hws, heven⟩ := skip_spec cs
  cases hs : skip cs with
  | nil => simp [hs] at h
  | cons b' rest =>
      rw [hs, List.head?_cons, Option.some.injEq] at h
      rw [hs, h] at hws
      exact ⟨ws, hws, heven⟩

/-- What the parser reads of a map. -/
lemma value_map_spec {d : ℕ} {cs : List Char} {x : Json} {r : List Char} (hp : ReadsEven (value d))
    (h : value (d + 1) ('\x7b' :: cs) = some (x, r)) : ∃ t, cs = t ++ '\x7d' :: r ∧ Even t := by
  rw [value.eq_def] at h
  simp only [if_true] at h
  split_ifs at h with h1 h2
  · simp only [Option.some.injEq, Prod.mk.injEq] at h
    obtain ⟨ws, hws, heven⟩ := skip_of_head? h2
    exact ⟨ws, h.2 ▸ hws, heven⟩
  · obtain ⟨⟨m, r'⟩, hm, heq⟩ := Option.map_eq_some_iff.1 h
    obtain ⟨-, rfl⟩ := Prod.mk.inj heq
    obtain ⟨t, ht, heven⟩ := members_spec hp hm
    obtain ⟨ws, hws, heven'⟩ := skip_spec cs
    exact ⟨ws ++ t, by rw [hws, ht, List.append_assoc], heven'.append heven⟩

/-- What the parser reads of a list. -/
lemma value_list_spec {d : ℕ} {cs : List Char} {x : Json} {r : List Char} (hp : ReadsEven (value d))
    (h : value (d + 1) ('[' :: cs) = some (x, r)) : ∃ t, cs = t ++ ']' :: r ∧ Even t := by
  rw [value.eq_def] at h
  simp only [Char.reduceEq, if_false, if_true] at h
  split_ifs at h with h1 h2
  · simp only [Option.some.injEq, Prod.mk.injEq] at h
    obtain ⟨ws, hws, heven⟩ := skip_of_head? h2
    exact ⟨ws, h.2 ▸ hws, heven⟩
  · obtain ⟨⟨xs, r'⟩, hxs, heq⟩ := Option.map_eq_some_iff.1 h
    obtain ⟨-, rfl⟩ := Prod.mk.inj heq
    obtain ⟨t, ht, heven⟩ := elems_spec hp hxs
    obtain ⟨ws, hws, heven'⟩ := skip_spec cs
    exact ⟨ws ++ t, by rw [hws, ht, List.append_assoc], heven'.append heven⟩

/-- A text between brackets that open and close is even. -/
lemma even_bracketed {b b' : Char} {t : List Char} (hopen : ∀ k, (Scan.out k).step b.toNat = .out (k + 1))
    (hclose : ∀ k, (Scan.out (k + 1)).step b'.toNat = .out k) (h : Even t) :
    Even (b :: t ++ [b']) := fun k => by
  rw [List.cons_append, codes_cons, scan_cons, hopen, codes_append, scan_append, h (k + 1),
    codes_cons, scan_cons, hclose, codes_nil, scan_nil]

lemma plain_of_numChar {c : Char} (h : numChar c = true) : Plain c.toNat := by
  have hne {a : Char} (ha : numChar a = false) : c ≠ a := by
    rintro rfl
    exact absurd (h.symm.trans ha) (by decide)
  have hcode {a : Char} (ha : numChar a = false) : c.toNat ≠ a.toNat := fun heq =>
    hne ha (Char.toNat_inj.1 heq)
  exact ⟨hcode (a := '"') (by decide), hcode (a := '\\') (by decide),
    hcode (a := '\x7b') (by decide), hcode (a := '[') (by decide), hcode (a := '\x7d') (by decide),
    hcode (a := ']') (by decide)⟩

/-- The parser reads a text that is even. -/
theorem readsEven_value (d : ℕ) : ReadsEven (value d) := by
  induction d with
  | zero =>
      intro cs x r h
      simp [value] at h
  | succ d ih =>
      intro cs x r h
      cases cs with
      | nil => simp [value] at h
      | cons c cs =>
          -- a literal has neither quotation marks nor brackets
          have hword {w : List Char} {y : Json} (hw : ∀ a ∈ c :: w, Plain a.toNat)
              (h : (word? w cs).map (fun r => (y, r)) = some (x, r)) :
              ∃ t, c :: cs = t ++ r ∧ Even t := by
            obtain ⟨r', hr, heq⟩ := Option.map_eq_some_iff.1 h
            obtain ⟨-, rfl⟩ := Prod.mk.inj heq
            exact ⟨c :: w, by rw [word?_spec hr]; rfl, even_of_plain hw⟩
          by_cases hmap : c = '\x7b'
          · obtain rfl := hmap
            obtain ⟨t, rfl, heven⟩ := value_map_spec ih h
            exact ⟨'\x7b' :: t ++ ['\x7d'], by simp,
              even_bracketed (fun k => rfl) (fun k => rfl) heven⟩
          by_cases hlist : c = '['
          · obtain rfl := hlist
            obtain ⟨t, rfl, heven⟩ := value_list_spec ih h
            exact ⟨'[' :: t ++ [']'], by simp,
              even_bracketed (fun k => rfl) (fun k => rfl) heven⟩
          rw [value.eq_def] at h
          simp only [if_neg hmap, if_neg hlist] at h
          split_ifs at h with hquote hnull htrue hfalse
          · obtain ⟨⟨ns, r'⟩, hunits, heq⟩ := Option.map_eq_some_iff.1 h
            obtain ⟨-, rfl⟩ := Prod.mk.inj heq
            obtain ⟨body, rfl, hbody⟩ := units_spec hunits
            exact ⟨'"' :: body ++ ['"'], by simp [hquote], even_quoted hbody⟩
          · exact hword (by rw [hnull]; simp [Plain]) h
          · exact hword (by rw [htrue]; simp [Plain]) h
          · exact hword (by rw [hfalse]; simp [Plain]) h
          · -- nor has a number
            obtain ⟨y, -, heq⟩ := Option.map_eq_some_iff.1 h
            obtain ⟨-, rfl⟩ := Prod.mk.inj heq
            exact ⟨_, (List.takeWhile_append_dropWhile).symm,
              even_of_plain fun a ha => plain_of_numChar (List.mem_takeWhile_imp ha)⟩

/-- A text that opens a map and has a value is scanned to the end of the map. -/
lemma scan_of_parse {cs : List Char} {x : Json} (h : parse ('\x7b' :: cs) = some x) :
    scan .start (codes ('\x7b' :: cs)) = .fin := by
  have hskip : skip ('\x7b' :: cs) = '\x7b' :: cs := skip_cons (by decide)
  rw [parse, hskip, Option.bind_eq_some_iff] at h
  obtain ⟨⟨y, r⟩, hy, h⟩ := h
  obtain ⟨t, rfl, heven⟩ := value_map_spec (readsEven_value _) hy
  simp only at h
  split_ifs at h with hr
  have hspace : ∀ c ∈ r, (c = ' ' || c = '\t' || c = '\n' || c = '\r') = true :=
    List.dropWhile_eq_nil_iff.1 hr
  have hfin : ∀ r : List Char, (∀ c ∈ r, (c = ' ' || c = '\t' || c = '\n' || c = '\r') = true) →
      scan .fin (codes r) = .fin := by
    intro r hr
    induction r with
    | nil => rfl
    | cons c r ihr =>
        have hc := hr c List.mem_cons_self
        have hstep : Scan.fin.step c.toNat = .fin := by
          simp only [Bool.or_eq_true, decide_eq_true_eq] at hc
          rcases hc with ((rfl | rfl) | rfl) | rfl <;> rfl
        rw [codes_cons, scan_cons, hstep, ihr fun a ha => hr a (List.mem_cons_of_mem _ ha)]
  have hopen : Scan.start.step '\x7b'.toNat = .out 0 := rfl
  have hclose : (Scan.out 0).step '\x7d'.toNat = .fin := rfl
  rw [codes_cons, scan_cons, hopen, codes_append, scan_append, heven 0, codes_cons, scan_cons,
    hclose, hfin r hspace]

/-! ### A map after a part of a map -/

/-- The scan is in a quoted part or at a fault. -/
def Stuck (q : Scan) : Prop := q = .dead ∨ ∃ k, q = .str k

/-- The scan is not in a quoted part. -/
def Loose (q : Scan) : Prop := q = .dead ∨ q = .fin ∨ ∃ k, q = .out k

/-- A scan that begins in a quoted part or at a fault ends so. -/
def KeepsStuck (cs : List Char) : Prop := ∀ q, Stuck q → Stuck (scan q (codes cs))

lemma loose_step {q : Scan} {c : ℕ} (hq : Loose q) (hc : c ≠ 34) : Loose (q.step c) := by
  rcases hq with rfl | rfl | ⟨k, rfl⟩
  · exact .inl rfl
  · simp only [Scan.step]
    split_ifs
    · exact .inr (.inl rfl)
    · exact .inl rfl
  · simp only [Scan.step, if_neg hc]
    split_ifs
    · exact .inl rfl
    · exact .inr (.inr ⟨_, rfl⟩)
    · cases k with
      | zero => exact .inr (.inl rfl)
      | succ k => exact .inr (.inr ⟨_, rfl⟩)
    · exact .inr (.inr ⟨_, rfl⟩)

lemma step_backslash {q : Scan} (hq : Loose q) : q.step 92 = .dead := by
  rcases hq with rfl | rfl | ⟨k, rfl⟩ <;> rfl

/-- An escape that is met outside of quotes is a fault. -/
lemma loose_escapeChar {html : Bool} {q : Scan} (hq : Loose q) (c : Char) :
    Loose (scan q (codes (escapeChar html c))) := by
  have hfault {cs : List Char} : Loose (scan q (codes ('\\' :: cs))) := by
    have hcode : '\\'.toNat = 92 := rfl
    rw [codes_cons, scan_cons, hcode, step_backslash hq, scan_dead]
    exact .inl rfl
  unfold escapeChar
  split_ifs with h1
  all_goals first
    | exact hfault
    | exact loose_step hq fun hcode => h1 (Char.toNat_inj.1 hcode)

lemma keepsStuck_quote (html : Bool) (s : String) : KeepsStuck (quote html s) := by
  have hbody : ∀ (cs : List Char) (q : Scan), Loose q →
      Loose (scan q (codes (cs.flatMap (escapeChar html)))) := by
    intro cs
    induction cs with
    | nil => exact fun q hq => hq
    | cons c cs ih =>
        intro q hq
        rw [List.flatMap_cons, codes_append, scan_append]
        exact ih _ (loose_escapeChar hq c)
  intro q hq
  have hopen : Loose (q.step '"'.toNat) := by
    rcases hq with rfl | ⟨k, rfl⟩
    · exact .inl rfl
    · exact .inr (.inr ⟨k, rfl⟩)
  rw [quote, List.cons_append, codes_cons, scan_cons, codes_append, scan_append]
  rcases hbody s.toList _ hopen with h | h | ⟨k, h⟩ <;> rw [h]
  · exact .inl rfl
  · exact .inl rfl
  · exact .inr ⟨k, rfl⟩

lemma keepsStuck_part {cs : List Char} (h : ∀ c ∈ cs, partChar c = true) : KeepsStuck cs := by
  induction cs with
  | nil => exact fun q hq => hq
  | cons c cs ih =>
      have hne {a : Char} (ha : partChar a = false) : c.toNat ≠ a.toNat := fun hcode => by
        obtain rfl : c = a := Char.toNat_inj.1 hcode
        exact absurd ((h c List.mem_cons_self).symm.trans ha) (by decide)
      have hquote : c.toNat ≠ 34 := hne (a := '"') (by decide)
      have hback : c.toNat ≠ 92 := hne (a := '\\') (by decide)
      intro q hq
      refine ih (fun a ha => h a (List.mem_cons_of_mem _ ha)) _ ?_
      rcases hq with rfl | ⟨k, rfl⟩
      · exact .inl rfl
      · exact .inr ⟨k, by simp [Scan.step, hquote, hback]⟩

lemma keepsStuck_marshal {html : Bool} (x : Json) {cs : List Char} (h : marshal html x = some cs) :
    KeepsStuck cs := by
  refine marshal_parts (P := KeepsStuck) (fun cs ds hcs hds q hq => ?_) (keepsStuck_quote html)
    (fun cs hcs => keepsStuck_part hcs) x h
  rw [codes_append, scan_append]
  exact hds _ (hcs q hq)

/-- A map that is appended to a part of a map does not end it. -/
lemma scan_map_ne_fin {html : Bool} {m : Json.Fields} {cs : List Char} {q : Scan}
    (hc : canonicalFields m = true) (h : marshal html (.obj m) = some cs) (hq : q ≠ .start) :
    scan q (codes cs) ≠ .fin := by
  have hstuck : ∀ q, Stuck q → q ≠ .fin := by
    rintro q (rfl | ⟨k, rfl⟩) <;> simp
  obtain ⟨ds, hds, hcs⟩ := Option.map_eq_some_iff.1 h
  cases q with
  | start => exact absurd rfl hq
  | out k =>
      have hread := value_marshal (.obj m) (levels (.obj m)) hc cs [] h (by simp [Stop])
      rw [if_pos le_rfl, List.append_nil] at hread
      obtain ⟨t, ht, heven⟩ := readsEven_value _ _ _ _ hread
      rw [List.append_nil] at ht
      rw [ht, heven k]
      simp
  | str k => exact hstuck _ (keepsStuck_marshal _ h _ (.inr ⟨k, rfl⟩))
  | esc k =>
      have hkeep := keepsStuck_marshal _ h (.str k) (.inr ⟨k, rfl⟩)
      rw [← hcs] at hkeep ⊢
      exact hstuck _ hkeep
  | fin =>
      rw [← hcs, List.cons_append, codes_cons, scan_cons]
      have hfault : Scan.fin.step '\x7b'.toNat = .dead := rfl
      rw [hfault, scan_dead]
      simp
  | dead =>
      rw [scan_dead]
      simp

/-- The bytes that have characters are the encoding of these. -/
lemma utf8_of_decode {bs : Bytes} {cs : Array Char} (h : bs.toByteArray.utf8Decode? = some cs) :
    utf8 cs.toList = bs := by
  have hsome : bs.toByteArray.utf8Decode?.isSome = true := by rw [h]; rfl
  have hget : bs.toByteArray.utf8Decode?.get hsome = cs := by simp [h]
  have hencode := ByteArray.utf8Encode_get_utf8Decode? (h := hsome)
  rw [hget] at hencode
  exact List.toByteArray_inj.1 hencode

/-- Only an opening brace is encoded with the byte of an opening brace in front. -/
lemma head_of_utf8 {cs : List Char} {bs : Bytes} (h : utf8 cs = 123 :: bs) :
    ∃ cs', cs = '\x7b' :: cs' := by
  cases cs with
  | nil => simp [utf8] at h
  | cons c cs =>
      have hval : c.val.toNat = c.toNat := rfl
      have hlt : c.toNat < 0x110000 := by
        have hv : c.toNat < 0xd800 ∨ 0xdfff < c.toNat ∧ c.toNat < 0x110000 := c.valid
        omega
      have hbyte {n : ℕ} (hn : n < 256) (hb : UInt8.ofNat n = 123) : n = 123 := by
        have hnat := congrArg UInt8.toNat hb
        rw [UInt8.toNat_ofNat', Nat.mod_eq_of_lt hn] at hnat
        exact hnat
      simp only [utf8, List.flatMap_cons, String.utf8EncodeChar, hval] at h
      split_ifs at h with h1 h2 h3
      · obtain ⟨hb, -⟩ := List.cons.inj h
        exact ⟨cs, by rw [Char.toNat_inj.1 ((hbyte (by omega) hb).trans (by rfl : 123 = '\x7b'.toNat))]⟩
      all_goals
        obtain ⟨hb, -⟩ := List.cons.inj h
        exact absurd (hbyte (by omega) hb) (by omega)

/-- A line that begins with a part of a map and ends with a map has no value. -/
theorem unmarshal_torn {html : Bool} {m : Json.Fields} {cs : List Char} (torn : Bytes)
    (hc : canonicalFields m = true) (h : marshal html (.obj m) = some cs) :
    unmarshal (123 :: torn ++ utf8 cs) = none := by
  cases hd : unmarshal (123 :: torn ++ utf8 cs) with
  | none => rfl
  | some x =>
      exfalso
      obtain ⟨ds, hdecode, hparse⟩ := Option.bind_eq_some_iff.1 hd
      have hbytes := utf8_of_decode hdecode
      obtain ⟨ds', hds⟩ := head_of_utf8 (hbytes.trans (List.cons_append ..))
      have hfin := scan_of_parse (hds ▸ hparse)
      rw [← hds, ← scan_utf8, hbytes, List.map_append, scan_append, scan_utf8] at hfin
      refine scan_map_ne_fin hc h ?_ hfin
      have hopen : Scan.start.step (123 : UInt8).toNat = .out 0 := rfl
      rw [List.map_cons, scan_cons, hopen]
      exact scan_ne_start (by simp) _

end Encoding

end Afterlock
