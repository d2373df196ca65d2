import Afterlock.Lib.Text
import Afterlock.Lib.Utf8

/-!
# Credential material

The patterns of values that resemble credential material and the keys that name it, as
`packages/afterlock/evidence.py` and the collector's package `redact` have them.

The patterns of `evidence.py` are of ASCII characters only, so that a percent escape of another byte
is decoded to a character that no pattern matches, however the bytes around it are read (`unquote`).
A pattern of the collector has two characters more, so that its escapes are decoded to bytes
(`percentDecode`), which are read as UTF-8.
-/

namespace Afterlock

namespace Redaction

open Encoding

/-! ### Patterns -/

/-- Whether the pattern matches somewhere in the text. -/
def search (m : List Char → Bool) : List Char → Bool
  | [] => m []
  | c :: cs => m (c :: cs) || search m cs

/-- `[…]\x7bn,\x7d` at the head of a text. -/
def atLeast (p : Char → Bool) (n : ℕ) (cs : List Char) : Bool := decide (n ≤ (cs.takeWhile p).length)

/-- `[A-Za-z0-9_-]`. -/
def tokenChar (c : Char) : Bool := c.isAlphanum || c = '_' || c = '-'

/-- A JWT: `eyJ[A-Za-z0-9_-]\x7b8,\x7d\.[A-Za-z0-9_-]\x7b8,\x7d`. -/
def jwt (cs : List Char) : Bool :=
  (cs.dropPrefix? "eyJ".toList).any fun r =>
    atLeast tokenChar 8 r &&
      ((r.dropWhile tokenChar).dropPrefix? ['.']).any (atLeast tokenChar 8)

/-- Base64 of a JWT: `ZXlK[A-Za-z0-9+/_-]\x7b16,\x7d`. -/
def base64Jwt (cs : List Char) : Bool :=
  (cs.dropPrefix? "ZXlK".toList).any (atLeast (fun c => tokenChar c || c = '+' || c = '/') 16)

/-- `m` matches after some characters of the class `p`. -/
def past (p : Char → Bool) (m : List Char → Bool) : List Char → Bool
  | [] => m []
  | c :: cs => m (c :: cs) || p c && past p m cs

/-- `-----BEGIN [A-Z ]*PRIVATE KEY-----`. -/
def privateKey (cs : List Char) : Bool :=
  (cs.dropPrefix? "-----BEGIN ".toList).any
    (past (fun c => c.isUpper || c = ' ') fun cs => "PRIVATE KEY-----".toList.isPrefixOf cs)

/-- Base64 of `-----BEGIN`. -/
def base64Begin (cs : List Char) : Bool := "LS0tLS1CRUdJTi".toList.isPrefixOf cs

/-- A seeded redaction canary: `AFTERLOCK-CANARY-[A-Za-z0-9]+`. -/
def canary (cs : List Char) : Bool :=
  (cs.dropPrefix? "AFTERLOCK-CANARY-".toList).any (atLeast Char.isAlphanum 1)

/-- A blank of a pattern: `\s`. -/
def blank (c : Char) : Bool := c = ' ' || c = '\t' || c = '\n' || c = '\r' || c.toNat = 12

/-- `[A-Za-z0-9._~+/=-]` with upper and lower case alike: the Kelvin sign goes with the letter k,
and the long s with the letter s. -/
def authChar (c : Char) : Bool :=
  tokenChar c || c = '.' || c = '~' || c = '+' || c = '/' || c = '=' || c = '\u212A' || c = '\u017F'

/-- `(?i)bearer\s+[A-Za-z0-9._~+/=-]\x7b8,\x7d`. -/
def bearer (cs : List Char) : Bool :=
  decide ((cs.take 6).map Char.toLower = "bearer".toList) &&
    atLeast blank 1 (cs.drop 6) && atLeast authChar 8 ((cs.drop 6).dropWhile blank)

/-- `SENSITIVE_PATTERNS`. -/
def sensitivePatterns : List (List Char → Bool) := [jwt, base64Jwt, privateKey, base64Begin, canary]

/-! ### Percent escapes -/

/-- The value of a hexadecimal digit. -/
def hexValue? (c : Char) : Option ℕ :=
  if c.isDigit then some (c.toNat - 0x30)
  else if 'a' ≤ c ∧ c ≤ 'f' then some (c.toNat - 0x61 + 10)
  else if 'A' ≤ c ∧ c ≤ 'F' then some (c.toNat - 0x41 + 10)
  else none

/-- The character of a percent escape. -/
def escaped? (a b : Char) : Option Char := do
  let a ← hexValue? a
  let b ← hexValue? b
  some (Char.ofNat (16 * a + b))

/-- `unquote`: decode every valid percent escape and leave the others as they are. -/
def unquote : List Char → List Char
  | [] => []
  | c :: cs =>
      if c = '%' then
        match cs with
        | a :: b :: cs' =>
            match escaped? a b with
            | some d => d :: unquote cs'
            | none => c :: unquote (a :: b :: cs')
        | cs => c :: unquote cs
      else c :: unquote cs

/-- The text, or its percent-decoded form, matches one of the patterns. -/
def resembles (patterns : List (List Char → Bool)) (cs : List Char) : Bool :=
  patterns.any fun m => search m cs || cs.contains '%' && search m (unquote cs)

/-- `_credential_like`. -/
def credentialLike (value : String) : Bool := resembles sensitivePatterns value.toList

/-- The value of a hexadecimal digit that is a byte. -/
def hexByte? (b : UInt8) : Option ℕ := hexValue? (Char.ofNat b.toNat)

/-- The byte of a percent escape. -/
def escapedByte? (a b : UInt8) : Option UInt8 := do
  let a ← hexByte? a
  let b ← hexByte? b
  some (UInt8.ofNat (16 * a + b))

/-- `percentDecode`: decode every valid percent escape and leave the others as they are. -/
def percentDecode : Bytes → Bytes
  | [] => []
  | c :: cs =>
      if c = 37 then
        match cs with
        | a :: b :: cs' =>
            match escapedByte? a b with
            | some d => d :: percentDecode cs'
            | none => c :: percentDecode (a :: b :: cs')
        | cs => c :: percentDecode cs
      else c :: percentDecode cs

/-- One of the patterns of the collector matches. -/
def matchesAny (cs : List Char) : Bool := (sensitivePatterns ++ [bearer]).any fun m => search m cs

/-- `Sensitive`, for a text in UTF-8. -/
def sensitive (s : String) : Bool :=
  matchesAny s.toList ||
    s.toList.contains '%' && matchesAny (asChars (percentDecode (utf8 s.toList)))

/-! ### Keys -/

/-- `FORBIDDEN_KEYS`. -/
def forbiddenKeys : List String :=
  ["token", "bearer", "authorization", "data", "stringdata", "string_data", "password",
    "secret_value", "response_body", "responseobject", "request_body", "requestobject",
    "credential_value"]

/-- `FORBIDDEN_KEY_SUFFIXES`. -/
def forbiddenKeySuffixes : List String :=
  ["token", "password", "secretvalue", "clientsecret", "secretkey", "apikey", "privatekey",
    "accesskey", "authorization"]

/-- The lower-case form of a character, as far as it is told apart here: the letters of ASCII and
the two other characters whose lower-case form has an ASCII letter.  `dotted` is the form of the
capital letter i with a dot above. -/
def lowerChar (dotted : List Char) (c : Char) : List Char :=
  if c.toNat = 0x212a then ['k']
  else if c.toNat = 0x130 then dotted
  else [c.toLower]

/-- A key in lower case, and with its letters and digits only. -/
def forbidden (lower : List Char) : Bool :=
  let norm := lower.filter fun c => ('a' ≤ c && c ≤ 'z') || c.isDigit
  forbiddenKeys.any (fun k => k.toList = lower || k.toList = norm) ||
    forbiddenKeySuffixes.any fun k => k.toList.isSuffixOf norm

/-- `_forbidden_key`: Python writes the dot of the capital letter as a character of its own. -/
def forbiddenKey (key : String) : Bool :=
  forbidden (key.toList.flatMap (lowerChar ['i', Char.ofNat 0x307]))

/-- `ForbiddenKey` of the collector. -/
def forbiddenKeyGo (key : String) : Bool := forbidden (key.toList.flatMap (lowerChar ['i']))

/-! ### Redaction -/

/-- `MaxString`. -/
def maxString : ℕ := 512

/-- `Placeholder`. -/
def placeholder : String := "[redacted]"

/-- The longest head of a text that has at most `n` bytes. -/
def takeBytes : ℕ → List Char → List Char
  | _, [] => []
  | n, c :: cs => if c.utf8Size ≤ n then c :: takeBytes (n - c.utf8Size) cs else []

/-- `String`: the text, cut to `MaxString` bytes, or the placeholder. -/
def redact (s : String) : String :=
  if sensitive s then placeholder else String.ofList (takeBytes maxString s.toList)

/-! ### Namespaces -/

/-- A character of a DNS label. -/
def labelChar (c : Char) : Bool := c.isLower || c.isDigit || c = '-'

lemma takeBytes_eq_self {n : ℕ} {cs : List Char} (h : (cs.map Char.utf8Size).sum ≤ n) :
    takeBytes n cs = cs := by
  induction cs generalizing n with
  | nil => rfl
  | cons c cs ih =>
      rw [List.map_cons, List.sum_cons] at h
      rw [takeBytes, if_pos (by omega), ih (by omega)]

lemma utf8Size_of_labelChar {c : Char} (h : labelChar c = true) : c.utf8Size = 1 := by
  rw [Char.utf8Size_eq_one_iff]
  simp only [labelChar, Bool.or_eq_true, Char.isLower, Char.isDigit, Bool.and_eq_true,
    decide_eq_true_eq, ge_iff_le] at h
  rcases h with (⟨-, h⟩ | ⟨-, h⟩) | rfl
  · exact UInt32.le_trans h (by decide)
  · exact UInt32.le_trans h (by decide)
  · decide

end Redaction

end Afterlock
