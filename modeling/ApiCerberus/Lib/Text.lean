import Mathlib.Data.List.Basic
import Mathlib.Data.Char

/-!
# Texts

A text is the list of its code points. The functions are those of Go's `strings` on valid UTF-8:
`TrimSpace`, `Trim`, `TrimPrefix`, `Split` and `Join` at one character, `ToUpper` and `ToLower`, `len`.
-/

abbrev Text := List Char

instance : LawfulBEq Text := inferInstance

namespace Text

/-- `unicode.IsSpace`. -/
def isSpace (c : Char) : Bool :=
  c ∈ ['\t', '\n', '\x0b', '\x0c', '\r', ' ', '\u0085', '\u00a0', '\u1680', '\u2028', '\u2029', '\u202f',
    '\u205f', '\u3000'] || ('\u2000' ≤ c && c ≤ '\u200a')

/-- `strings.TrimFunc`. -/
def trim (p : Char → Bool) (t : Text) : Text := ((t.dropWhile p).reverse.dropWhile p).reverse

def trimSpace (t : Text) : Text := trim isSpace t

/-- `unicode.ToUpper` on ASCII and on the two other code points that it maps into ASCII. -/
def upperChar (c : Char) : Char := if c = '\u0131' then 'I' else if c = '\u017f' then 'S' else c.toUpper

/-- `unicode.ToLower` on ASCII and on the two other code points that it maps into ASCII. -/
def lowerChar (c : Char) : Char := if c = '\u0130' then 'i' else if c = '\u212a' then 'k' else c.toLower

def toUpper (t : Text) : Text := t.map upperChar

def toLower (t : Text) : Text := t.map lowerChar

/-- `unicode.SimpleFold` of the ASCII letters, and of the two others that fold to them. -/
def foldChar (c : Char) : Char := if c = '\u017f' then 's' else if c = '\u212a' then 'k' else c.toLower

/-- `strings.EqualFold` with a text in ASCII. -/
def equalFold (t u : Text) : Bool := t.map foldChar = u.map foldChar

def hasPrefix (t p : Text) : Bool := p.isPrefixOf t

/-- `strings.TrimPrefix`. -/
def trimPrefix (t p : Text) : Text := if hasPrefix t p then t.drop p.length else t

/-- `strings.Contains`. -/
def hasInfix (t u : Text) : Bool :=
  match t with
  | [] => u.isEmpty
  | c :: t => u.isPrefixOf (c :: t) || hasInfix t u

def split (sep : Char) (t : Text) : List Text := t.splitOn sep

def join (sep : Char) (ts : List Text) : Text := [sep].intercalate ts

/-- `len`: the number of bytes. -/
def byteLen : Text → Nat
  | [] => 0
  | c :: t => c.utf8Size + byteLen t

/-- The decimal numeral `%d`. -/
def decimal (n : Nat) : Text := Nat.toDigits 10 n

/-- `strconv.FormatInt` with base 10. -/
def ofInt (n : Int) : Text := if n < 0 then '-' :: decimal n.natAbs else decimal n.natAbs

/-- `strconv.ParseInt` with base 10 and 64 bits, and `strconv.Atoi`. -/
def parseInt (t : Text) : Option Int :=
  let digits := if t.head? = some '-' || t.head? = some '+' then t.drop 1 else t
  if digits = [] || !digits.all Char.isDigit then none
  else
    let n : Int := Nat.ofDigitChars 10 digits 0
    let v := if t.head? = some '-' then -n else n
    if -9223372036854775808 ≤ v ∧ v ≤ 9223372036854775807 then some v else none

/-- One character in `%q`; characters outside ASCII are taken to be printable. -/
def quoteChar (c : Char) : Text :=
  if c = '"' || c = '\\' then ['\\', c]
  else if c = '\x07' then ['\\', 'a']
  else if c = '\x08' then ['\\', 'b']
  else if c = '\x0c' then ['\\', 'f']
  else if c = '\n' then ['\\', 'n']
  else if c = '\r' then ['\\', 'r']
  else if c = '\t' then ['\\', 't']
  else if c = '\x0b' then ['\\', 'v']
  else if c < ' ' || c = '\x7f' then ['\\', 'x', Nat.digitChar (c.toNat / 16), Nat.digitChar (c.toNat % 16)]
  else [c]

/-- `%q`. -/
def quote (t : Text) : Text := '"' :: t.flatMap quoteChar ++ ['"']

variable {p : Char → Bool} {sep : Char} {t u : Text} {ts us : List Text}

/-! ## Lengths -/

theorem byteLen_append (t u : Text) : byteLen (t ++ u) = byteLen t + byteLen u := by
  induction t with
  | nil => exact (Nat.zero_add _).symm
  | cons c t ih => rw [List.cons_append, byteLen, byteLen, ih, Nat.add_assoc]

/-! ## Trimming -/

theorem trim_self (h : ∀ c ∈ t.head?, p c = false) (h' : ∀ c ∈ t.getLast?, p c = false) : trim p t = t := by
  have drop_self : ∀ l : Text, (∀ c ∈ l.head?, p c = false) → l.dropWhile p = l := by
    intro l hl
    cases l with
    | nil => rfl
    | cons c l => rw [List.dropWhile_cons_of_neg (by simp [hl c rfl])]
  rw [trim, drop_self t h, drop_self _ (by rwa [List.head?_reverse]), List.reverse_reverse]

theorem trim_cons (c : Char) (h : p c = true) : trim p (c :: t) = trim p t := by
  rw [trim, List.dropWhile_cons_of_pos h, trim]

theorem trim_trim : trim p (trim p t) = trim p t := by
  have head_dropWhile : ∀ (l : Text), ∀ c ∈ (l.dropWhile p).head?, p c = false := by
    intro l c hc
    have hhead := List.head?_dropWhile_not p l
    rw [Option.mem_def.1 hc] at hhead
    exact hhead
  apply trim_self
  · intro c hc
    have hpre : trim p t <+: t.dropWhile p := by
      have hsuf := List.dropWhile_suffix (l := (t.dropWhile p).reverse) p
      rw [← List.reverse_prefix, List.reverse_reverse] at hsuf
      exact hsuf
    obtain ⟨r, hr⟩ := hpre
    apply head_dropWhile t c
    rw [← hr, List.head?_append, Option.mem_def.1 hc]
    rfl
  · intro c hc
    rw [trim, List.getLast?_reverse] at hc
    exact head_dropWhile _ c hc

theorem trim_ne_nil {c : Char} (hc : c ∈ t) (h : p c = false) : trim p t ≠ [] := by
  have keeps : ∀ l : Text, c ∈ l → c ∈ l.dropWhile p := by
    intro l hl
    induction l with
    | nil => exact hl
    | cons d l ih =>
      by_cases hd : p d = true
      · rw [List.dropWhile_cons_of_pos hd]
        rcases List.mem_cons.1 hl with rfl | hl
        · rw [h] at hd
          cases hd
        · exact ih hl
      · rwa [List.dropWhile_cons_of_neg hd]
  exact List.ne_nil_of_mem (List.mem_reverse.2 (keeps _ (List.mem_reverse.2 (keeps t hc))))

/-! ## Splitting and joining -/

@[simp] theorem join_nil : join sep [] = [] := rfl

@[simp] theorem join_singleton : join sep [t] = t := by simp [join, List.intercalate]

@[simp] theorem join_cons_cons : join sep (t :: u :: ts) = t ++ sep :: join sep (u :: ts) := by
  simp [join, List.intercalate]

theorem join_append (hts : ts ≠ []) (hus : us ≠ []) : join sep (ts ++ us) = join sep ts ++ sep :: join sep us := by
  induction ts with
  | nil => exact absurd rfl hts
  | cons t ts ih =>
    cases ts with
    | nil =>
      obtain ⟨u, us, rfl⟩ := List.exists_cons_of_ne_nil hus
      simp
    | cons t' ts => simpa using ih (List.cons_ne_nil _ _)

theorem split_join (h : ∀ t ∈ ts, sep ∉ t) (hts : ts ≠ []) : split sep (join sep ts) = ts :=
  List.splitOn_intercalate sep h hts

theorem not_mem_of_mem_split (h : u ∈ split sep t) : sep ∉ u := by
  unfold split List.splitOn at h
  induction t generalizing u with
  | nil =>
    rw [List.splitOnP_nil, List.mem_singleton] at h
    simp [h]
  | cons c t ih =>
    rw [List.splitOnP_cons_eq_if_modifyHead] at h
    split at h
    · rcases List.mem_cons.1 h with rfl | h
      · exact List.not_mem_nil
      · exact ih h
    · rename_i hc
      cases hs : t.splitOnP (· == sep) with
      | nil => rw [hs] at h; cases h
      | cons v vs =>
        rw [hs] at h ih
        rcases List.mem_cons.1 h with rfl | h
        · exact List.not_mem_cons_of_ne_of_not_mem (fun heq => hc (heq ▸ beq_self_eq_true _)) (ih List.mem_cons_self)
        · exact ih (List.mem_cons_of_mem _ h)

theorem split_cons_self : split sep (sep :: t) = [] :: split sep t := by
  unfold split List.splitOn
  rw [List.splitOnP_cons_eq_if_modifyHead, if_pos (beq_self_eq_true sep)]

/-! ## Prefixes -/

theorem hasPrefix_append (t u : Text) : hasPrefix (t ++ u) t = true :=
  List.isPrefixOf_iff_prefix.2 (List.prefix_append t u)

theorem trimPrefix_append (t u : Text) : trimPrefix (t ++ u) t = u := by
  rw [trimPrefix, if_pos (hasPrefix_append t u), List.drop_left]

end Text
