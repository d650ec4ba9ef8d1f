import Mathlib.Algebra.Order.Ring.Nat
import Mathlib.Data.List.TakeWhile
import Mathlib.Tactic.Common

/-!
# JSON texts and the values they stand for

`render` writes a value the way `encoding/json` marshals it: without spaces, with the characters that HTML gives a
meaning escaped. `parse` reads a text the way its scanner does, with the scanner's errors and its limit on nesting. A
number is kept as it is written.

`parse_render`: a text that was written from a value is read as that value, or is refused because the value is nested
too deeply.
-/

namespace Json

/-! ## Values -/

/-- One or more decimal digits. -/
def Digits : Type := { l : List Char // l ≠ [] ∧ ∀ c ∈ l, c.isDigit = true }
deriving DecidableEq

/-- `e`, `E`, a sign if there is one, and digits. -/
structure Exponent where
  upper : Bool
  sign : Option Bool
  digits : Digits
deriving DecidableEq

/-- A number as it is written. -/
structure Number where
  negative : Bool
  whole : Nat
  fraction : Option Digits
  exponent : Option Exponent
deriving DecidableEq

/-- A natural number. -/
def Number.ofNat (n : Nat) : Number := { negative := false, whole := n, fraction := none, exponent := none }

namespace Number

variable (n : Number)

/-- The digits before and after the point, as one number. -/
def digits : Nat := Nat.ofDigitChars 10 (n.fraction.elim [] Subtype.val) n.whole

/-- The power of ten that the digits are multiplied with. -/
def scale : Int :=
  let exponent : Int := n.exponent.elim 0 fun e =>
    if e.sign = some true then -(Nat.ofDigitChars 10 e.digits.1 0 : Int) else Nat.ofDigitChars 10 e.digits.1 0
  exponent - (n.fraction.elim [] Subtype.val).length

end Number

end Json

inductive Json where
  | null
  | bool (b : Bool)
  | number (n : Json.Number)
  | string (s : String)
  | array (elems : List Json)
  | object (fields : List (String × Json))

namespace Json

mutual

/-- How deeply arrays and objects are nested. -/
def depth : Json → Nat
  | .array elems => depthElems elems + 1
  | .object fields => depthFields fields + 1
  | .null | .bool _ | .number _ | .string _ => 0

def depthElems : List Json → Nat
  | [] => 0
  | x :: xs => max x.depth (depthElems xs)

def depthFields : List (String × Json) → Nat
  | [] => 0
  | (_, x) :: xs => max x.depth (depthFields xs)

end

/-! ## Writing -/

def hexDigit (n : Nat) : Char := if n < 10 then Char.ofNat ('0'.toNat + n) else Char.ofNat ('a'.toNat + n - 10)

/-- `\u` and four digits. -/
def escapeCode (n : Nat) : List Char :=
  ['\\', 'u', hexDigit (n / 4096 % 16), hexDigit (n / 256 % 16), hexDigit (n / 16 % 16), hexDigit (n % 16)]

/-- The control characters, and what `SetEscapeHTML` and JavaScript want escaped. -/
def needsCode (c : Char) : Bool :=
  c < ' ' || c = '<' || c = '>' || c = '&' || c.toNat = 0x2028 || c.toNat = 0x2029

/-- A character inside of a string. -/
def escape (c : Char) : List Char :=
  if c = '"' then ['\\', '"']
  else if c = '\\' then ['\\', '\\']
  else if c = '\x08' then ['\\', 'b']
  else if c = '\x0c' then ['\\', 'f']
  else if c = '\n' then ['\\', 'n']
  else if c = '\r' then ['\\', 'r']
  else if c = '\t' then ['\\', 't']
  else if needsCode c then escapeCode c.toNat
  else [c]

def renderString (s : String) : List Char := '"' :: s.toList.flatMap escape ++ ['"']

def renderExponent (e : Exponent) : List Char :=
  (if e.upper then 'E' else 'e') ::
    ((match e.sign with
      | some true => ['-']
      | some false => ['+']
      | none => []) ++ e.digits.1)

def renderNumber (n : Number) : List Char :=
  (if n.negative then ['-'] else []) ++ Nat.toDigits 10 n.whole ++
    (n.fraction.elim [] fun d => '.' :: d.1) ++ n.exponent.elim [] renderExponent

mutual

/-- Without blanks. -/
def render : Json → List Char
  | .null => "null".toList
  | .bool true => "true".toList
  | .bool false => "false".toList
  | .number n => renderNumber n
  | .string s => renderString s
  | .array [] => ['[', ']']
  | .array (x :: xs) => '[' :: (render x ++ renderElems xs)
  | .object [] => ['{', '}']
  | .object ((k, x) :: xs) => '{' :: (renderString k ++ ':' :: (render x ++ renderFields xs))

/-- What follows an element of an array. -/
def renderElems : List Json → List Char
  | [] => [']']
  | x :: xs => ',' :: (render x ++ renderElems xs)

/-- What follows a member of an object. -/
def renderFields : List (String × Json) → List Char
  | [] => ['}']
  | (k, x) :: xs => ',' :: (renderString k ++ ':' :: (render x ++ renderFields xs))

end

/-! ## Reading -/

/-- `SyntaxError`: the text ends too early, or a character cannot stand where it stands. -/
inductive SyntaxError where
  | unexpectedEnd
  | invalid (c : Char) (context : String)
deriving DecidableEq

/-- `quoteChar`, which is given the first byte of `c`. -/
def quoteChar (c : Char) : String :=
  if c = '\'' then "'\\''"
  else if c = '"' then "'\"'"
  else if c = '\\' then "'\\\\'"
  else if c = '\x07' then "'\\a'"
  else if c = '\x08' then "'\\b'"
  else if c = '\x0c' then "'\\f'"
  else if c = '\n' then "'\\n'"
  else if c = '\r' then "'\\r'"
  else if c = '\t' then "'\\t'"
  else if c = '\x0b' then "'\\v'"
  else if c < ' ' ∨ c = '\x7f' then String.ofList ['\'', '\\', 'x', hexDigit (c.toNat / 16),
    hexDigit (c.toNat % 16), '\'']
  else String.ofList ['\'', Char.ofNat ((String.utf8EncodeChar c).headD 0).toNat, '\'']

def SyntaxError.text : SyntaxError → String
  | .unexpectedEnd => "unexpected end of JSON input"
  | .invalid c context => "invalid character " ++ quoteChar c ++ " " ++ context

def isSpace (c : Char) : Bool := c = ' ' || c = '\t' || c = '\r' || c = '\n'

def skipSpace (s : List Char) : List Char := s.dropWhile isSpace

/-- What a string is made of: characters, and the codes behind `\u`. -/
inductive Item where
  | char (c : Char)
  | code (n : Nat)

def hexVal (c : Char) : Option Nat :=
  if '0' ≤ c ∧ c ≤ '9' then some (c.toNat - '0'.toNat)
  else if 'a' ≤ c ∧ c ≤ 'f' then some (c.toNat - 'a'.toNat + 10)
  else if 'A' ≤ c ∧ c ≤ 'F' then some (c.toNat - 'A'.toNat + 10)
  else none

def hexCode : List Char → Nat → Except SyntaxError Nat
  | [], n => .ok n
  | c :: cs, n =>
    match hexVal c with
    | some d => hexCode cs (16 * n + d)
    | none => .error (.invalid c "in \\u hexadecimal character escape")

def unescape : Char → Option Char
  | '"' => some '"'
  | '\\' => some '\\'
  | '/' => some '/'
  | 'b' => some '\x08'
  | 'f' => some '\x0c'
  | 'n' => some '\n'
  | 'r' => some '\r'
  | 't' => some '\t'
  | _ => none

/-- The inside of a string, up to the closing quote. -/
def scanString : List Char → Except SyntaxError (List Item × List Char)
  | [] => .error .unexpectedEnd
  | '"' :: s => .ok ([], s)
  | '\\' :: 'u' :: a :: b :: c :: d :: s => do
    let n ← hexCode [a, b, c, d] 0
    let (items, rest) ← scanString s
    .ok (.code n :: items, rest)
  | ['\\'] => .error .unexpectedEnd
  | '\\' :: 'u' :: s => do
    let _ ← hexCode s 0
    .error .unexpectedEnd
  | '\\' :: c :: s =>
    match unescape c with
    | some d => do
      let (items, rest) ← scanString s
      .ok (.char d :: items, rest)
    | none => .error (.invalid c "in string escape code")
  | c :: s =>
    if c < ' ' then .error (.invalid c "in string literal")
    else do
      let (items, rest) ← scanString s
      .ok (.char c :: items, rest)

def isHighSurrogate (n : Nat) : Bool := 0xD800 ≤ n && n < 0xDC00
def isLowSurrogate (n : Nat) : Bool := 0xDC00 ≤ n && n < 0xE000

/-- A surrogate that stands alone becomes U+FFFD. -/
def codeChar (n : Nat) : Char := if isHighSurrogate n || isLowSurrogate n then Char.ofNat 0xFFFD else Char.ofNat n

/-- `unquote`: two surrogates make one character. -/
def unquote : List Item → List Char
  | [] => []
  | .char c :: items => c :: unquote items
  | .code n :: .code m :: items =>
    if isHighSurrogate n && isLowSurrogate m then
      Char.ofNat (0x10000 + (n - 0xD800) * 0x400 + (m - 0xDC00)) :: unquote items
    else codeChar n :: unquote (.code m :: items)
  | .code n :: items => codeChar n :: unquote items

/-- A string behind its quote. -/
def parseString (s : List Char) : Except SyntaxError (String × List Char) := do
  let (items, rest) ← scanString s
  .ok (String.ofList (unquote items), rest)

def parseDigits (context : String) (s : List Char) : Except SyntaxError (Digits × List Char) :=
  if h : s.takeWhile Char.isDigit ≠ [] then
    .ok (⟨s.takeWhile Char.isDigit, h, fun _ hc => List.mem_takeWhile_imp hc⟩, s.dropWhile Char.isDigit)
  else
    match s with
    | [] => .error .unexpectedEnd
    | c :: _ => .error (.invalid c context)

def parseWhole : List Char → Except SyntaxError (Nat × List Char)
  | [] => .error .unexpectedEnd
  | c :: s =>
    if c = '0' then .ok (0, s)
    else if c.isDigit then
      .ok (Nat.ofDigitChars 10 ((c :: s).takeWhile Char.isDigit) 0, (c :: s).dropWhile Char.isDigit)
    else .error (.invalid c "in numeric literal")

def parseFraction : List Char → Except SyntaxError (Option Digits × List Char)
  | '.' :: s => do
    let (d, s) ← parseDigits "after decimal point in numeric literal" s
    .ok (some d, s)
  | s => .ok (none, s)

def parseSign : List Char → Option Bool × List Char
  | '-' :: s => (some true, s)
  | '+' :: s => (some false, s)
  | s => (none, s)

def parseExponent : List Char → Except SyntaxError (Option Exponent × List Char)
  | [] => .ok (none, [])
  | c :: s =>
    if c = 'e' ∨ c = 'E' then do
      let (sign, s) := parseSign s
      let (d, s) ← parseDigits "in exponent of numeric literal" s
      .ok (some { upper := c = 'E', sign := sign, digits := d }, s)
    else .ok (none, c :: s)

def parseMinus : List Char → Bool × List Char
  | '-' :: s => (true, s)
  | s => (false, s)

/-- The grammar of numbers: no zeros in front, digits behind the point. -/
def parseNumber (s : List Char) : Except SyntaxError (Number × List Char) := do
  let (negative, s) := parseMinus s
  let (whole, s) ← parseWhole s
  let (fraction, s) ← parseFraction s
  let (exponent, s) ← parseExponent s
  .ok ({ negative := negative, whole := whole, fraction := fraction, exponent := exponent }, s)

/-- The rest of `true`, `false` or `null`. -/
def parseLiteral (name : String) (v : Json) : List Char → List Char → Except SyntaxError (Json × List Char)
  | [], s => .ok (v, s)
  | _ :: _, [] => .error .unexpectedEnd
  | c :: cs, d :: s =>
    if d = c then parseLiteral name v cs s
    else .error (.invalid d ("in literal " ++ name ++ " (expecting " ++ quoteChar c ++ ")"))

/-- A key and the colon behind it. -/
def parseKey (s : List Char) : Except SyntaxError (String × List Char) :=
  match skipSpace s with
  | [] => .error .unexpectedEnd
  | c :: s =>
    if c = '"' then do
      let (k, s) ← parseString s
      match skipSpace s with
      | [] => .error .unexpectedEnd
      | c :: s => if c = ':' then .ok (k, s) else .error (.invalid c "after object key")
    else .error (.invalid c "looking for beginning of object key string")

mutual

/-- Every call reads a character, so the length of the text bounds the number of calls, `fuel`. What is
left of the limit on nesting is `limit`. -/
def parseValue (fuel limit : Nat) (s : List Char) : Except SyntaxError (Json × List Char) :=
  match fuel with
  | 0 => .error .unexpectedEnd
  | fuel + 1 =>
    match skipSpace s with
    | [] => .error .unexpectedEnd
    | c :: s =>
      if c = '"' then do
        let (t, s) ← parseString s
        .ok (.string t, s)
      else if c = '[' then
        match limit with
        | 0 => .error (.invalid c "exceeded max depth")
        | limit + 1 =>
          if (skipSpace s).head? = some ']' then .ok (.array [], (skipSpace s).tail)
          else do
            let (x, s) ← parseValue fuel limit s
            let (xs, s) ← parseElems fuel limit s
            .ok (.array (x :: xs), s)
      else if c = '{' then
        match limit with
        | 0 => .error (.invalid c "exceeded max depth")
        | limit + 1 =>
          if (skipSpace s).head? = some '}' then .ok (.object [], (skipSpace s).tail)
          else do
            let (k, s) ← parseKey s
            let (x, s) ← parseValue fuel limit s
            let (xs, s) ← parseFields fuel limit s
            .ok (.object ((k, x) :: xs), s)
      else if c = 't' then parseLiteral "true" (.bool true) "rue".toList s
      else if c = 'f' then parseLiteral "false" (.bool false) "alse".toList s
      else if c = 'n' then parseLiteral "null" .null "ull".toList s
      else if c = '-' ∨ c.isDigit then do
        let (n, s) ← parseNumber (c :: s)
        .ok (.number n, s)
      else .error (.invalid c "looking for beginning of value")

/-- What follows an element of an array. -/
def parseElems (fuel limit : Nat) (s : List Char) : Except SyntaxError (List Json × List Char) :=
  match fuel with
  | 0 => .error .unexpectedEnd
  | fuel + 1 =>
    match skipSpace s with
    | [] => .error .unexpectedEnd
    | c :: s =>
      if c = ']' then .ok ([], s)
      else if c = ',' then do
        let (x, s) ← parseValue fuel limit s
        let (xs, s) ← parseElems fuel limit s
        .ok (x :: xs, s)
      else .error (.invalid c "after array element")

/-- What follows a member of an object. -/
def parseFields (fuel limit : Nat) (s : List Char) : Except SyntaxError (List (String × Json) × List Char) :=
  match fuel with
  | 0 => .error .unexpectedEnd
  | fuel + 1 =>
    match skipSpace s with
    | [] => .error .unexpectedEnd
    | c :: s =>
      if c = '}' then .ok ([], s)
      else if c = ',' then do
        let (k, s) ← parseKey s
        let (x, s) ← parseValue fuel limit s
        let (xs, s) ← parseFields fuel limit s
        .ok ((k, x) :: xs, s)
      else .error (.invalid c "after object key:value pair")

end

def maxNestingDepth : Nat := 10000

/-- The whole text is one value. -/
def parse (text : List Char) : Except SyntaxError Json := do
  let (v, rest) ← parseValue (text.length + 1) maxNestingDepth text
  match skipSpace rest with
  | [] => .ok v
  | c :: _ => .error (.invalid c "after top-level value")

/-! ## What is written is read back -/

theorem hexVal_hexDigit : ∀ {n : Nat}, n < 16 → hexVal (hexDigit n) = some n := by decide

variable {c : Char} {n : Nat}

theorem hexCode_escapeCode (h : n < 65536) :
    hexCode [hexDigit (n / 4096 % 16), hexDigit (n / 256 % 16), hexDigit (n / 16 % 16),
      hexDigit (n % 16)] 0 = .ok n := by
  simp only [hexCode, hexVal_hexDigit (Nat.mod_lt _ (by decide : 0 < 16))]
  congr 1
  omega

/-- How a character comes back. -/
def itemOf (c : Char) : Item :=
  if (escape c).length = 6 then .code c.toNat else .char c

theorem toNat_of_needsCode (h : needsCode c = true) : c.toNat < 65536 := by
  simp only [needsCode, Bool.or_eq_true, decide_eq_true_eq] at h
  rcases h with ((((h | rfl) | rfl) | rfl) | h) | h
  · have : c.toNat < ' '.toNat := h
    exact Nat.lt_trans this (by decide)
  · decide
  · decide
  · decide
  · omega
  · omega

theorem scanString_code (h : n < 65536) (s : List Char) :
    scanString (escapeCode n ++ s) = (scanString s).map fun r => (.code n :: r.1, r.2) := by
  simp only [escapeCode, List.cons_append, List.nil_append]
  rw [scanString, hexCode_escapeCode h]
  rfl

theorem scanString_plain (h1 : c ≠ '"') (h2 : c ≠ '\\') (h3 : ¬ c < ' ') (s : List Char) :
    scanString (c :: s) = (scanString s).map fun r => (.char c :: r.1, r.2) := by
  rw [scanString]
  · rw [if_neg h3]
    rfl
  · exact h1
  · exact fun _ _ _ _ _ h => absurd h h2
  · exact fun h => absurd h h2
  · exact fun _ h => absurd h h2
  · exact fun _ _ h => absurd h h2

theorem scanString_escape (c : Char) (s : List Char) :
    scanString (escape c ++ s) = (scanString s).map fun r => (itemOf c :: r.1, r.2) := by
  unfold itemOf
  by_cases h1 : c = '"'
  · subst h1; rfl
  by_cases h2 : c = '\\'
  · subst h2; rfl
  by_cases h3 : c = '\x08'
  · subst h3; rfl
  by_cases h4 : c = '\x0c'
  · subst h4; rfl
  by_cases h5 : c = '\n'
  · subst h5; rfl
  by_cases h6 : c = '\r'
  · subst h6; rfl
  by_cases h7 : c = '\t'
  · subst h7; rfl
  by_cases h8 : needsCode c = true
  · simp only [escape, h1, h2, h3, h4, h5, h6, h7, h8, if_false, if_true]
    exact scanString_code (toNat_of_needsCode h8) s
  · have hc : ¬ c < ' ' := by
      simp only [needsCode, Bool.or_eq_true, decide_eq_true_eq, not_or] at h8
      exact h8.1.1.1.1.1
    simp only [escape, h1, h2, h3, h4, h5, h6, h7, h8, if_false, Bool.false_eq_true]
    exact scanString_plain h1 h2 hc s

theorem scanString_flatMap (s rest : List Char) :
    scanString (s.flatMap escape ++ '"' :: rest) = .ok (s.map itemOf, rest) := by
  induction s with
  | nil => rfl
  | cons c s ih =>
    rw [List.flatMap_cons, List.append_assoc, scanString_escape, ih]
    rfl

/-- A character is no surrogate. -/
theorem codeChar_toNat (c : Char) : isHighSurrogate c.toNat = false ∧ codeChar c.toNat = c := by
  have hhigh : isHighSurrogate c.toNat = false := by
    simp only [isHighSurrogate, Bool.and_eq_false_iff, decide_eq_false_iff_not]
    have := c.valid
    simp only [UInt32.isValidChar, Nat.isValidChar, Char.toNat_val] at this
    omega
  have hlow : isLowSurrogate c.toNat = false := by
    simp only [isLowSurrogate, Bool.and_eq_false_iff, decide_eq_false_iff_not]
    have := c.valid
    simp only [UInt32.isValidChar, Nat.isValidChar, Char.toNat_val] at this
    omega
  refine ⟨hhigh, ?_⟩
  simp only [codeChar, hhigh, hlow, Bool.or_self, Bool.false_eq_true, if_false, Char.ofNat_toNat]

theorem unquote_itemOf (c : Char) (items : List Item) : unquote (itemOf c :: items) = c :: unquote items := by
  obtain ⟨hhigh, hcode⟩ := codeChar_toNat c
  unfold itemOf
  split
  · cases items with
    | nil => simp only [unquote, hcode]
    | cons x items =>
      cases x with
      | char d => simp only [unquote, hcode]
      | code m => rw [unquote, hhigh, Bool.false_and, if_neg Bool.false_ne_true, hcode]
  · rw [unquote]

theorem parseString_render (s : String) (rest : List Char) :
    parseString (s.toList.flatMap escape ++ '"' :: rest) = .ok (s, rest) := by
  have hunq : ∀ l : List Char, unquote (l.map itemOf) = l := by
    intro l
    induction l with
    | nil => rfl
    | cons c l ih => rw [List.map_cons, unquote_itemOf, ih]
  unfold parseString
  rw [scanString_flatMap]
  show Except.ok (String.ofList (unquote _), rest) = _
  rw [hunq, String.ofList_toList]

/-! ### Numbers -/

/-- `rest` does not go on with a number. -/
def EndsNumber (rest : List Char) : Prop :=
  ∀ c ∈ rest.head?, c.isDigit = false ∧ c ≠ '.' ∧ c ≠ 'e' ∧ c ≠ 'E'

theorem takeWhile_digits {ds rest : List Char} (hds : ∀ c ∈ ds, c.isDigit = true)
    (hrest : ∀ c ∈ rest.head?, c.isDigit = false) :
    (ds ++ rest).takeWhile Char.isDigit = ds ∧ (ds ++ rest).dropWhile Char.isDigit = rest := by
  rw [List.takeWhile_append_of_pos hds, List.dropWhile_append_of_pos hds]
  cases rest with
  | nil => simp
  | cons c rest =>
    have hc : c.isDigit = false := hrest c rfl
    simp [hc]

theorem parseDigits_append (context : String) (d : Digits) {rest : List Char}
    (hrest : ∀ c ∈ rest.head?, c.isDigit = false) : parseDigits context (d.1 ++ rest) = .ok (d, rest) := by
  obtain ⟨htake, hdrop⟩ := takeWhile_digits d.2.2 hrest
  unfold parseDigits
  rw [dif_pos (by rw [htake]; exact d.2.1)]
  congr 2
  exact Subtype.ext htake

theorem isDigit_toDigits (h : c ∈ Nat.toDigits 10 n) : c.isDigit = true :=
  Nat.isDigit_of_mem_toDigits (by decide) (by decide) h

/-- Only zero is written with a leading zero. -/
theorem head_toDigits (h : 0 < n) : ∃ c cs, Nat.toDigits 10 n = c :: cs ∧ c ≠ '0' := by
  induction n using Nat.strong_induction_on with
  | _ n ih =>
    rw [Nat.toDigits_eq_if (by decide)]
    split
    · rename_i hn
      have hdigit : ∀ m, m < 10 → 0 < m → m.digitChar ≠ '0' := by decide
      exact ⟨_, _, rfl, hdigit n hn h⟩
    · obtain ⟨c, cs, hcs, hc⟩ := ih (n / 10) (by omega) (by omega)
      exact ⟨c, cs ++ [(n % 10).digitChar], by rw [hcs]; rfl, hc⟩

theorem parseWhole_append (n : Nat) {rest : List Char} (hrest : ∀ c ∈ rest.head?, c.isDigit = false) :
    parseWhole (Nat.toDigits 10 n ++ rest) = .ok (n, rest) := by
  rcases Nat.eq_zero_or_pos n with rfl | hpos
  · rfl
  · obtain ⟨c, cs, hcs, hc⟩ := head_toDigits hpos
    obtain ⟨htake, hdrop⟩ := takeWhile_digits (fun c => isDigit_toDigits (n := n)) hrest
    have hdig : c.isDigit = true := isDigit_toDigits (by rw [hcs]; exact List.mem_cons_self)
    rw [hcs, List.cons_append] at htake hdrop ⊢
    dsimp only [parseWhole]
    rw [if_neg hc, if_pos hdig, htake, hdrop, ← hcs, Nat.ofDigitChars_ten_toDigits]

theorem EndsNumber.digit {rest : List Char} (h : EndsNumber rest) : ∀ c ∈ rest.head?, c.isDigit = false :=
  fun c hc => (h c hc).1

theorem parseExponent_render (e : Exponent) {rest : List Char} (h : EndsNumber rest) :
    parseExponent (renderExponent e ++ rest) = .ok (some e, rest) := by
  obtain ⟨upper, sign, d⟩ := e
  have hdigits := parseDigits_append "in exponent of numeric literal" d h.digit
  obtain ⟨c, cs, hd⟩ := List.exists_cons_of_ne_nil d.2.1
  have hdig : c.isDigit = true := d.2.2 c (by rw [hd]; exact List.mem_cons_self)
  have hsign : ∀ s, parseSign ((match sign with | some true => ['-'] | some false => ['+'] | none => []) ++
    (d.1 ++ s)) =
      (sign, d.1 ++ s) := by
    intro s
    rcases sign with _ | _ | _
    · rw [hd]
      simp only [List.nil_append, List.cons_append]
      rw [parseSign]
      · rintro t ht
        rw [(List.cons.inj ht).1] at hdig
        exact absurd hdig (by decide)
      · rintro t ht
        rw [(List.cons.inj ht).1] at hdig
        exact absurd hdig (by decide)
    · rfl
    · rfl
  cases upper
  · simp only [renderExponent, Bool.false_eq_true, if_false, List.cons_append, List.append_assoc,
      parseExponent, true_or, if_true,
      hsign, hdigits]
    rfl
  · simp only [renderExponent, if_true, List.cons_append, List.append_assoc, parseExponent, or_true,
      hsign, hdigits]
    rfl

theorem parseExponent_append (e : Option Exponent) {rest : List Char} (h : EndsNumber rest) :
    parseExponent (e.elim [] renderExponent ++ rest) = .ok (e, rest) := by
  cases e with
  | some e => exact parseExponent_render e h
  | none =>
    cases rest with
    | nil => rfl
    | cons c rest =>
      obtain ⟨-, -, h1, h2⟩ := h c rfl
      simp only [Option.elim_none, List.nil_append, parseExponent, h1, h2, or_self, if_false]

/-- What follows the digits behind the point is no digit. -/
theorem head_exponent (e : Option Exponent) {rest : List Char} (h : EndsNumber rest) :
    ∀ c ∈ (e.elim [] renderExponent ++ rest).head?, c.isDigit = false ∧ c ≠ '.' := by
  intro c hc
  cases e with
  | none => exact ⟨(h c hc).1, (h c hc).2.1⟩
  | some e =>
    simp only [Option.elim_some, renderExponent, List.cons_append, List.head?_cons, Option.mem_some_iff] at hc
    subst hc
    split <;> exact ⟨by decide, by decide⟩

theorem parseFraction_append (d : Option Digits) (e : Option Exponent) {rest : List Char} (h : EndsNumber rest) :
    parseFraction (d.elim [] (fun d => '.' :: d.1) ++ (e.elim [] renderExponent ++ rest)) =
      .ok (d, e.elim [] renderExponent ++ rest) := by
  have hhead := head_exponent e h
  cases d with
  | some d =>
    simp only [Option.elim_some, List.cons_append, parseFraction,
      parseDigits_append _ d fun c hc => (hhead c hc).1]
    rfl
  | none =>
    rw [Option.elim_none, List.nil_append, parseFraction]
    intro s hs
    exact (hhead '.' (by rw [hs]; rfl)).2 rfl

theorem head_fraction (d : Option Digits) (e : Option Exponent) {rest : List Char} (h : EndsNumber rest) :
    ∀ c ∈ (d.elim [] (fun d => '.' :: d.1) ++ (e.elim [] renderExponent ++ rest)).head?, c.isDigit = false := by
  intro c hc
  cases d with
  | none => exact (head_exponent e h c hc).1
  | some d =>
    cases hc
    decide

theorem parseNumber_render (n : Number) {rest : List Char} (h : EndsNumber rest) :
    parseNumber (renderNumber n ++ rest) = .ok (n, rest) := by
  obtain ⟨negative, whole, d, e⟩ := n
  have hwhole := parseWhole_append whole (head_fraction d e h)
  have hminus : ∀ s, parseMinus ((if negative then ['-'] else []) ++ (Nat.toDigits 10 whole ++ s)) =
      (negative, Nat.toDigits 10 whole ++ s) := by
    intro s
    cases negative with
    | true => rfl
    | false =>
      obtain ⟨c, cs, hd⟩ := List.exists_cons_of_ne_nil (Nat.toDigits_ne_nil : Nat.toDigits 10 whole ≠ [])
      have hdig : c.isDigit = true := isDigit_toDigits (by rw [hd]; exact List.mem_cons_self)
      simp only [Bool.false_eq_true, if_false, List.nil_append, hd, List.cons_append]
      rw [parseMinus]
      rintro t ht
      rw [(List.cons.inj ht).1] at hdig
      exact absurd hdig (by decide)
  unfold parseNumber
  simp only [renderNumber, List.append_assoc, hminus, hwhole, parseFraction_append d e h, parseExponent_append e h,
    bind, Except.bind]

/-! ### Values -/

/-- What can stand behind a value. -/
def EndsValue (rest : List Char) : Prop := ∀ c ∈ rest.head?, c = ',' ∨ c = ']' ∨ c = '}'

theorem EndsValue.number {rest : List Char} (h : EndsValue rest) : EndsNumber rest := by
  intro c hc
  rcases h c hc with rfl | rfl | rfl <;> decide

theorem endsValue_elems (xs : List Json) (rest : List Char) : EndsValue (renderElems xs ++ rest) := by
  intro c hc
  cases xs <;> cases hc
  · exact Or.inr (Or.inl rfl)
  · exact Or.inl rfl

theorem endsValue_fields (xs : List (String × Json)) (rest : List Char) : EndsValue (renderFields xs ++ rest) := by
  intro c hc
  cases xs <;> cases hc
  · exact Or.inr (Or.inr rfl)
  · exact Or.inl rfl

/-- How a text starts that was written from a value. -/
theorem head_render (j : Json) : ∃ c cs, render j = c :: cs ∧ isSpace c = false ∧ c ≠ ']' := by
  cases j with
  | null => exact ⟨_, _, rfl, by decide, by decide⟩
  | bool b => cases b <;> exact ⟨_, _, rfl, by decide, by decide⟩
  | number n =>
    have hdig : ∀ c : Char, c.isDigit = true → isSpace c = false ∧ c ≠ ']' := by
      intro c hc
      constructor
      · simp only [isSpace, Bool.or_eq_false_iff, decide_eq_false_iff_not]
        refine ⟨⟨⟨?_, ?_⟩, ?_⟩, ?_⟩ <;> rintro rfl <;> exact absurd hc (by decide)
      · rintro rfl
        exact absurd hc (by decide)
    obtain ⟨c, cs, hd⟩ := List.exists_cons_of_ne_nil (Nat.toDigits_ne_nil : Nat.toDigits 10 n.whole ≠ [])
    rw [render, renderNumber]
    cases n.negative with
    | true => exact ⟨_, _, rfl, by decide, by decide⟩
    | false =>
      simp only [hd, Bool.false_eq_true, if_false, List.nil_append, List.cons_append]
      exact ⟨_, _, rfl, hdig c (isDigit_toDigits (by rw [hd]; exact List.mem_cons_self))⟩
  | string s => exact ⟨_, _, rfl, by decide, by decide⟩
  | array elems => cases elems <;> exact ⟨_, _, by rw [render], by decide, by decide⟩
  | object fields =>
    rcases fields with _ | ⟨⟨k, x⟩, xs⟩
    · exact ⟨_, _, by rw [render], by decide, by decide⟩
    · exact ⟨_, _, by rw [render], by decide, by decide⟩

theorem skipSpace_cons {s : List Char} (h : isSpace c = false) : skipSpace (c :: s) = c :: s := by
  simp [skipSpace, h]

theorem parseKey_render (k : String) (s : List Char) : parseKey (renderString k ++ ':' :: s) = .ok (k, s) := by
  simp only [parseKey, renderString, List.cons_append, List.append_assoc, List.nil_append]
  rw [skipSpace_cons (by decide)]
  simp only [if_true, parseString_render, bind, Except.bind]
  rw [skipSpace_cons (by decide)]
  simp only [if_true]

/-- A reader that may go `limit` levels deep reads `v` of depth `d`, or refuses it. -/
def Reads {α : Type} (limit d : Nat) (r : Except SyntaxError (α × List Char)) (v : α) (rest : List Char) : Prop :=
  if d ≤ limit then r = .ok (v, rest) else ∃ c, r = .error (.invalid c "exceeded max depth")

section Reads
variable {α β : Type} {limit d e : Nat} {r : Except SyntaxError (α × List Char)} {v : α} {w : β} {s rest : List Char}

theorem Reads.ok (h : r = .ok (v, rest)) : Reads limit 0 r v rest := by
  rw [Reads, if_pos (Nat.zero_le _)]
  exact h

/-- Reading one thing behind another. -/
theorem Reads.bind (h : Reads limit d r v s) {f : α × List Char → Except SyntaxError (β × List Char)}
    (hf : Reads limit e (f (v, s)) w rest) : Reads limit (max d e) (r >>= f) w rest := by
  unfold Reads at h hf ⊢
  by_cases hd : d ≤ limit
  · rw [if_pos hd] at h
    rw [h]
    by_cases he : e ≤ limit
    · rw [if_pos he] at hf
      rw [if_pos (Nat.max_le.2 ⟨hd, he⟩)]
      exact hf
    · rw [if_neg he] at hf
      rw [if_neg (by omega)]
      exact hf
  · rw [if_neg hd] at h
    rw [if_neg (by omega)]
    obtain ⟨c, hc⟩ := h
    exact ⟨c, by rw [hc]; rfl⟩

theorem Reads.map (h : Reads limit d r v rest) (g : α → β) :
    Reads limit d (r >>= fun p => .ok (g p.1, p.2)) (g v) rest := by
  have hok : Reads limit 0 (.ok (g v, rest) : Except SyntaxError (β × List Char)) (g v) rest := Reads.ok rfl
  have hbind : Reads limit (max d 0) (r >>= fun p => .ok (g p.1, p.2)) (g v) rest := h.bind hok
  rwa [Nat.max_zero] at hbind

/-- One level deeper. -/
theorem Reads.nest (h : Reads limit d r v rest) : Reads (limit + 1) (d + 1) r v rest := by
  simpa only [Reads, Nat.add_le_add_iff_right] using h

theorem Reads.refused (c : Char) (h : r = .error (.invalid c "exceeded max depth")) : Reads 0 (d + 1) r v rest := by
  rw [Reads, if_neg (by omega)]
  exact ⟨c, h⟩

end Reads

/-! One step of the reader on a text that was written. -/

theorem skipSpace_render (j : Json) (s : List Char) :
    skipSpace (render j ++ s) = render j ++ s ∧ (render j ++ s).head? ≠ some ']' := by
  obtain ⟨c, cs, hj, hsp, hne⟩ := head_render j
  rw [hj, List.cons_append]
  exact ⟨skipSpace_cons hsp, fun h => hne (Option.some.inj h)⟩

theorem parseValue_number (n : Number) (fuel limit : Nat) {rest : List Char} (h : EndsNumber rest) :
    parseValue (fuel + 1) limit (renderNumber n ++ rest) = .ok (.number n, rest) := by
  obtain ⟨c, cs, hj, hsp, -⟩ := head_render (.number n)
  rw [render] at hj
  have hnum := parseNumber_render n h
  have hhead : c = '-' ∨ c.isDigit = true := by
    obtain ⟨d, ds, hd⟩ := List.exists_cons_of_ne_nil (Nat.toDigits_ne_nil : Nat.toDigits 10 n.whole ≠ [])
    rw [renderNumber, hd] at hj
    cases hneg : n.negative with
    | true =>
      rw [hneg] at hj
      exact Or.inl (List.cons.inj hj).1.symm
    | false =>
      rw [hneg] at hj
      rw [← (List.cons.inj hj).1]
      exact Or.inr (isDigit_toDigits (n := n.whole) (by rw [hd]; exact List.mem_cons_self))
  have hother : c ≠ '"' ∧ c ≠ '[' ∧ c ≠ '{' ∧ c ≠ 't' ∧ c ≠ 'f' ∧ c ≠ 'n' := by
    refine ⟨?_, ?_, ?_, ?_, ?_, ?_⟩ <;> rintro rfl <;> exact absurd hhead (by decide)
  obtain ⟨h1, h2, h3, h4, h5, h6⟩ := hother
  rw [hj, List.cons_append] at hnum ⊢
  rw [parseValue, skipSpace_cons hsp]
  simp only [h1, h2, h3, h4, h5, h6, hhead, if_false, if_true, hnum]
  rfl

theorem parseValue_string (t : String) (fuel limit : Nat) (rest : List Char) :
    parseValue (fuel + 1) limit (renderString t ++ rest) = .ok (.string t, rest) := by
  simp only [renderString, List.cons_append, List.append_assoc, List.nil_append]
  rw [parseValue, skipSpace_cons (by decide)]
  simp only [if_true, parseString_render]
  rfl

theorem parseValue_array (x : Json) (xs : List Json) (fuel limit : Nat) (rest : List Char) :
    parseValue (fuel + 1) (limit + 1) (render (.array (x :: xs)) ++ rest) =
      (parseValue fuel limit (render x ++ (renderElems xs ++ rest)) >>= fun p =>
        parseElems fuel limit p.2 >>= fun q => .ok (.array (p.1 :: q.1), q.2)) := by
  obtain ⟨hsp, hne⟩ := skipSpace_render x (renderElems xs ++ rest)
  rw [render, List.cons_append, List.append_assoc, parseValue, skipSpace_cons (by decide)]
  simp only [hsp, hne, if_false, if_true, (by decide : '[' ≠ '"')]

theorem parseValue_object (k : String) (x : Json) (xs : List (String × Json)) (fuel limit : Nat) (rest : List Char) :
    parseValue (fuel + 1) (limit + 1) (render (.object ((k, x) :: xs)) ++ rest) =
      (parseValue fuel limit (render x ++ (renderFields xs ++ rest)) >>= fun p =>
        parseFields fuel limit p.2 >>= fun q => .ok (.object ((k, p.1) :: q.1), q.2)) := by
  have hkey := parseKey_render k (render x ++ (renderFields xs ++ rest))
  have hsp : skipSpace (renderString k ++ ':' :: (render x ++ (renderFields xs ++ rest))) =
      renderString k ++ ':' :: (render x ++ (renderFields xs ++ rest)) := skipSpace_cons (by decide)
  rw [render, List.cons_append, List.append_assoc, List.cons_append, List.append_assoc, parseValue,
    skipSpace_cons (by decide)]
  simp only [hsp, hkey]
  rfl

theorem parseElems_cons (x : Json) (xs : List Json) (fuel limit : Nat) (rest : List Char) :
    parseElems (fuel + 1) limit (renderElems (x :: xs) ++ rest) =
      (parseValue fuel limit (render x ++ (renderElems xs ++ rest)) >>= fun p =>
        parseElems fuel limit p.2 >>= fun q => .ok (p.1 :: q.1, q.2)) := by
  rw [renderElems, List.cons_append, List.append_assoc, parseElems, skipSpace_cons (by decide)]
  rfl

theorem parseFields_cons (k : String) (x : Json) (xs : List (String × Json)) (fuel limit : Nat) (rest : List Char) :
    parseFields (fuel + 1) limit (renderFields ((k, x) :: xs) ++ rest) =
      (parseValue fuel limit (render x ++ (renderFields xs ++ rest)) >>= fun p =>
        parseFields fuel limit p.2 >>= fun q => .ok ((k, p.1) :: q.1, q.2)) := by
  rw [renderFields, List.cons_append, List.append_assoc, List.cons_append, List.append_assoc, parseFields,
    skipSpace_cons (by decide)]
  have hkey := parseKey_render k (render x ++ (renderFields xs ++ rest))
  simp only [hkey]
  rfl

/-- An element and the rest of the array, or a member and the rest of the object. -/
theorem Reads.cons {α β γ : Type} {limit d e : Nat} {r : Except SyntaxError (α × List Char)} {v : α} {w : β}
    {s rest : List Char} {f : List Char → Except SyntaxError (β × List Char)} (h : Reads limit d r v s)
    (hf : Reads limit e (f s) w rest) (g : α → β → γ) :
    Reads limit (max d e) (r >>= fun p => f p.2 >>= fun q => .ok (g p.1 q.1, q.2)) (g v w) rest :=
  h.bind (hf.map (g v))

mutual

/-- By induction on the fuel: what is written is read, or nests too deep. -/
theorem parseValue_render : ∀ (j : Json) (fuel limit : Nat) (rest : List Char), (render j).length ≤ fuel →
    EndsValue rest → Reads limit j.depth (parseValue fuel limit (render j ++ rest)) j rest
  | j, 0, limit, rest, hfuel, _ => by
    obtain ⟨c, cs, hj, -⟩ := head_render j
    rw [hj] at hfuel
    cases hfuel
  | .null, fuel + 1, limit, rest, _, _ => Reads.ok rfl
  | .bool true, fuel + 1, limit, rest, _, _ => Reads.ok rfl
  | .bool false, fuel + 1, limit, rest, _, _ => Reads.ok rfl
  | .number n, fuel + 1, limit, rest, _, hrest =>
    Reads.ok (by rw [render]; exact parseValue_number n fuel limit hrest.number)
  | .string t, fuel + 1, limit, rest, _, _ => Reads.ok (by rw [render]; exact parseValue_string t fuel limit rest)
  | .array elems, fuel + 1, 0, rest, _, _ => by
    rw [depth]
    exact Reads.refused '[' (by cases elems <;> rw [render] <;> rfl)
  | .array [], fuel + 1, limit + 1, rest, _, _ => by
    rw [render, depth, depthElems]
    exact Reads.nest (Reads.ok rfl)
  | .array (x :: xs), fuel + 1, limit + 1, rest, hfuel, _ => by
    simp only [render, List.length_cons, List.length_append] at hfuel
    have hx := parseValue_render x fuel limit (renderElems xs ++ rest) (by omega) (endsValue_elems xs rest)
    have hxs := parseElems_render xs fuel limit rest (by omega)
    rw [parseValue_array, depth, depthElems]
    exact (hx.cons hxs fun v w => Json.array (v :: w)).nest
  | .object fields, fuel + 1, 0, rest, _, _ => by
    rw [depth]
    exact Reads.refused '{' (by rcases fields with _ | ⟨⟨k, x⟩, xs⟩ <;> rw [render] <;> rfl)
  | .object [], fuel + 1, limit + 1, rest, _, _ => by
    rw [render, depth, depthFields]
    exact Reads.nest (Reads.ok rfl)
  | .object ((k, x) :: xs), fuel + 1, limit + 1, rest, hfuel, _ => by
    simp only [render, List.length_cons, List.length_append] at hfuel
    have hx := parseValue_render x fuel limit (renderFields xs ++ rest) (by omega) (endsValue_fields xs rest)
    have hxs := parseFields_render xs fuel limit rest (by omega)
    rw [parseValue_object, depth, depthFields]
    exact (hx.cons hxs fun v w => Json.object ((k, v) :: w)).nest

theorem parseElems_render : ∀ (xs : List Json) (fuel limit : Nat) (rest : List Char), (renderElems xs).length ≤ fuel →
    Reads limit (depthElems xs) (parseElems fuel limit (renderElems xs ++ rest)) xs rest
  | [], 0, _, _, hfuel => by cases hfuel
  | _ :: _, 0, _, _, hfuel => by cases hfuel
  | [], fuel + 1, limit, rest, _ => Reads.ok rfl
  | x :: xs, fuel + 1, limit, rest, hfuel => by
    simp only [renderElems, List.length_cons, List.length_append] at hfuel
    have hx := parseValue_render x fuel limit (renderElems xs ++ rest) (by omega) (endsValue_elems xs rest)
    have hxs := parseElems_render xs fuel limit rest (by omega)
    rw [parseElems_cons, depthElems]
    exact hx.cons hxs fun v w => v :: w

theorem parseFields_render : ∀ (xs : List (String × Json)) (fuel limit : Nat) (rest : List Char),
    (renderFields xs).length ≤ fuel →
    Reads limit (depthFields xs) (parseFields fuel limit (renderFields xs ++ rest)) xs rest
  | [], 0, _, _, hfuel => by cases hfuel
  | _ :: _, 0, _, _, hfuel => by cases hfuel
  | [], fuel + 1, limit, rest, _ => Reads.ok rfl
  | (k, x) :: xs, fuel + 1, limit, rest, hfuel => by
    simp only [renderFields, List.length_cons, List.length_append] at hfuel
    have hx := parseValue_render x fuel limit (renderFields xs ++ rest) (by omega) (endsValue_fields xs rest)
    have hxs := parseFields_render xs fuel limit rest (by omega)
    rw [parseFields_cons, depthFields]
    exact hx.cons hxs fun v w => (k, v) :: w

end

/-- **Round trip**: a text that was written from a value is read as that value, unless the value is
nested too deeply. -/
theorem parse_render (j : Json) :
    if j.depth ≤ maxNestingDepth then parse (render j) = .ok j
    else ∃ c, parse (render j) = .error (.invalid c "exceeded max depth") := by
  have h := parseValue_render j ((render j).length + 1) maxNestingDepth [] (by omega) (fun c hc => by cases hc)
  unfold parse
  rw [List.append_nil] at h
  unfold Reads at h
  split
  · rename_i hd
    rw [if_pos hd] at h
    rw [h]
    rfl
  · rename_i hd
    rw [if_neg hd] at h
    obtain ⟨c, hc⟩ := h
    exact ⟨c, by rw [hc]; rfl⟩

/-- Different values are written differently, however deep they are. -/
theorem render_injective : Function.Injective render := by
  intro j j' heq
  have h := parseValue_render j (render j).length (max j.depth j'.depth) [] le_rfl (fun c hc => by cases hc)
  have h' := parseValue_render j' (render j').length (max j.depth j'.depth) [] le_rfl (fun c hc => by cases hc)
  rw [Reads, if_pos (le_max_left ..)] at h
  rw [Reads, if_pos (le_max_right ..), ← heq, h] at h'
  cases h'
  rfl

end Json
