import Mathlib.Data.List.TakeWhile
import Mathlib.Tactic.Common

/-!
# Times in the format of RFC 3339

A `Time` is `time.Time` as it is read and written: the calendar fields in the zone of the time, and the
offset of that zone. `parse` is `time.Parse(time.RFC3339, _)` with the errors of that function, `format`
is what `MarshalJSON` writes.

`parse_format`: what is written is read back, if the offset is below 24 hours. `MarshalJSON` refuses
larger offsets, `time.Parse` does not.
-/

def daysIn (month year : Nat) : Nat :=
  if month = 2 then if year % 4 = 0 ∧ (year % 100 ≠ 0 ∨ year % 400 = 0) then 29 else 28
  else if month = 4 ∨ month = 6 ∨ month = 9 ∨ month = 11 then 30
  else 31

/-- `offset` is in minutes east of UTC. -/
structure Time where
  year : Nat
  month : Nat
  day : Nat
  hour : Nat
  minute : Nat
  second : Nat
  nanos : Nat
  offset : Int
  year_lt : year < 10000
  month_in : 1 ≤ month ∧ month ≤ 12
  day_in : 1 ≤ day ∧ day ≤ daysIn month year
  hour_lt : hour < 24
  minute_lt : minute < 60
  second_lt : second < 60
  nanos_lt : nanos < 1000000000
deriving DecidableEq

namespace Time

/-- The zero value of `time.Time`. -/
def zero : Time where
  year := 1
  month := 1
  day := 1
  hour := 0
  minute := 0
  second := 0
  nanos := 0
  offset := 0
  year_lt := by decide
  month_in := by decide
  day_in := by decide
  hour_lt := by decide
  minute_lt := by decide
  second_lt := by decide
  nanos_lt := by decide

/-- `zero`, in nanoseconds since the Unix epoch. -/
def zeroNanos : Int := -62135596800000000000

/-! ## Writing -/

/-- `w` digits of `n`. -/
def pad : Nat → Nat → List Char
  | 0, _ => []
  | w + 1, n => pad w (n / 10) ++ [Nat.digitChar (n % 10)]

/-- The fraction of a second, without trailing zeros. -/
def formatFraction (nanos : Nat) : List Char :=
  if nanos = 0 then [] else '.' :: ((pad 9 nanos).reverse.dropWhile (· = '0')).reverse

def formatZone (offset : Int) : List Char :=
  if offset = 0 then ['Z']
  else (if offset < 0 then '-' else '+') :: (pad 2 (offset.natAbs / 60) ++ ':' :: pad 2 (offset.natAbs % 60))

/-- `MarshalJSON`, without the quotes. -/
def format (t : Time) : List Char :=
  pad 4 t.year ++ '-' :: (pad 2 t.month ++ '-' :: (pad 2 t.day ++ 'T' :: (pad 2 t.hour ++ ':' :: (pad 2 t.minute ++
    ':' :: (pad 2 t.second ++ (formatFraction t.nanos ++ formatZone t.offset))))))

/-- `MarshalJSON` refuses an offset of 24 hours. -/
def Encodable (t : Time) : Prop := t.offset.natAbs < 24 * 60

instance (t : Time) : Decidable t.Encodable := inferInstanceAs (Decidable (_ < _))

/-! ## Reading -/

/-- `time.ParseError`: an element of the layout that was not found, or a message. -/
inductive ParseError where
  | bad (elem : String) (rest : List Char)
  | range (what : String)
  | extra (rest : List Char)
deriving DecidableEq

/-- `quote` of package `time`. -/
def quote (s : List Char) : String :=
  String.ofList ('"' :: s.flatMap (fun c =>
    if 0x80 ≤ c.toNat ∨ c < ' ' then
      (String.utf8EncodeChar c).flatMap fun b => ['\\', 'x', (b.toNat / 16).digitChar, (b.toNat % 16).digitChar]
    else if c = '"' ∨ c = '\\' then ['\\', c]
    else [c]) ++ ['"'])

def ParseError.text (value : List Char) : ParseError → String
  | .bad elem rest =>
    "parsing time " ++ quote value ++ " as \"2006-01-02T15:04:05Z07:00\": cannot parse " ++ quote rest ++
      " as " ++ quote elem.toList
  | .range what => "parsing time " ++ quote value ++ ": " ++ what ++ " out of range"
  | .extra rest => "parsing time " ++ quote value ++ ": extra text: " ++ quote rest

abbrev Reader := Except ParseError

def skip (c : Char) : List Char → Reader (List Char)
  | [] => .error (.bad (String.ofList [c]) [])
  | d :: s => if d = c then .ok s else .error (.bad (String.ofList [c]) (d :: s))

/-- The first `w` characters as a number, if they are digits. -/
def digits (w : Nat) (s : List Char) : Option (Nat × List Char) :=
  if (s.take w).length = w ∧ (s.take w).all Char.isDigit = true then
    some (Nat.ofDigitChars 10 (s.take w) 0, s.drop w)
  else none

/-- `w` digits for the element `elem` of the layout. -/
def fixed (elem : String) (w : Nat) (s : List Char) : Reader (Nat × List Char) :=
  match digits w s with
  | some r => .ok r
  | none => .error (.bad elem s)

/-- The hour may be one digit. -/
def readHour (s : List Char) : Reader (Nat × List Char) :=
  match digits 2 s with
  | some r => .ok r
  | none => fixed "15" 1 s

def inRange (what : String) (ok : Bool) : Reader Unit := if ok then .ok () else .error (.range what)

/-- A fraction that the layout does not have is read all the same; digits beyond the ninth are dropped. -/
def readFraction : List Char → Nat × List Char
  | p :: s =>
    let ds := s.takeWhile Char.isDigit
    if (p = '.' ∨ p = ',') ∧ ds ≠ [] then
      (Nat.ofDigitChars 10 (ds.take 9) 0 * Nat.pow 10 (9 - ds.length), s.dropWhile Char.isDigit)
    else (0, p :: s)
  | [] => (0, [])

def readSign : Char → Option Bool
  | '+' => some false
  | '-' => some true
  | _ => none

/-- `Z`, or a sign, two digits, a colon and two digits. Offsets of 24 hours and of 60 minutes pass. -/
def readZone (s : List Char) : Reader (Int × List Char) :=
  match s with
  | sign :: h1 :: h2 :: colon :: m1 :: m2 :: rest =>
    if sign = 'Z' then .ok (0, h1 :: h2 :: colon :: m1 :: m2 :: rest)
    else if colon ≠ ':' then .error (.bad "Z07:00" s)
    else match digits 2 [h1, h2], digits 2 [m1, m2] with
      | some (hr, _), some (mm, _) => do
        inRange "time zone offset minute" (mm ≤ 60)
        inRange "time zone offset hour" (hr ≤ 24)
        match readSign sign with
        | some neg => .ok (if neg then -((hr * 60 + mm : Nat) : Int) else ((hr * 60 + mm : Nat) : Int), rest)
        | none => .error (.bad "Z07:00" s)
      | some (hr, _), none => do
        inRange "time zone offset hour" (hr ≤ 24)
        .error (.bad "Z07:00" s)
      | none, _ => .error (.bad "Z07:00" s)
  | sign :: rest => if sign = 'Z' then .ok (0, rest) else .error (.bad "Z07:00" s)
  | [] => .error (.bad "Z07:00" s)

/-- The fields of a time, in the order in which they are read. Of the bounds at the end, only that on the
day is open. -/
def read (s : List Char) : Reader Time := do
  let (year, s) ← fixed "2006" 4 s
  let s ← skip '-' s
  let (month, s) ← fixed "01" 2 s
  inRange "month" (1 ≤ month && month ≤ 12)
  let s ← skip '-' s
  let (day, s) ← fixed "02" 2 s
  let s ← skip 'T' s
  let (hour, s) ← readHour s
  inRange "hour" (hour < 24)
  let s ← skip ':' s
  let (minute, s) ← fixed "04" 2 s
  inRange "minute" (minute < 60)
  let s ← skip ':' s
  let (second, s) ← fixed "05" 2 s
  inRange "second" (second < 60)
  let (nanos, s) := readFraction s
  let (offset, s) ← readZone s
  if s ≠ [] then .error (.extra s)
  else if h : (year < 10000 ∧ hour < 24 ∧ minute < 60 ∧ second < 60 ∧ nanos < 1000000000) ∧ (1 ≤ month ∧ month ≤ 12) ∧
      1 ≤ day ∧ day ≤ daysIn month year then
    .ok ⟨year, month, day, hour, minute, second, nanos, offset, h.1.1, h.2.1, h.2.2, h.1.2.1, h.1.2.2.1, h.1.2.2.2.1,
      h.1.2.2.2.2⟩
  else .error (.range "day")

def parse (s : List Char) : Except String Time :=
  match read s with
  | .ok t => .ok t
  | .error err => .error (err.text s)

/-! ## What is written is read back -/

theorem length_pad (w n : Nat) : (pad w n).length = w := by
  induction w generalizing n with
  | zero => rfl
  | succ w ih => rw [pad, List.length_append, ih]; rfl

variable {w n : Nat}

theorem isDigit_pad {c : Char} (h : c ∈ pad w n) : c.isDigit = true := by
  induction w generalizing n with
  | zero => cases h
  | succ w ih =>
    rw [pad, List.mem_append, List.mem_singleton] at h
    rcases h with h | rfl
    · exact ih h
    · rw [Nat.isDigit_digitChar]
      exact decide_eq_true (Nat.mod_lt _ (by decide))

theorem ofDigitChars_pad (h : n < Nat.pow 10 w) :
    Nat.ofDigitChars 10 (pad w n) 0 = n := by
  induction w generalizing n with
  | zero =>
    obtain rfl : n = 0 := Nat.lt_one_iff.1 h
    rfl
  | succ w ih =>
    have hlt : n < Nat.pow 10 w * 10 := h
    rw [pad, Nat.ofDigitChars_append, ih (by omega),
      Nat.ofDigitChars_cons_digitChar_of_lt_ten (Nat.mod_lt _ (by decide)), Nat.ofDigitChars_nil]
    omega

theorem digits_pad (h : n < Nat.pow 10 w) (rest : List Char) :
    digits w (pad w n ++ rest) = some (n, rest) := by
  have htake : (pad w n ++ rest).take w = pad w n := List.take_left' (length_pad w n)
  have hdrop : (pad w n ++ rest).drop w = rest := List.drop_left' (length_pad w n)
  unfold digits
  rw [htake, hdrop, if_pos ⟨length_pad w n, List.all_eq_true.2 fun c => isDigit_pad⟩, ofDigitChars_pad h]

theorem ok_bind {α β : Type} (a : α) (f : α → Reader β) : (Bind.bind (Except.ok a : Reader α) f) = f a := rfl

theorem skip_cons (c : Char) (s : List Char) : skip c (c :: s) = .ok s := by
  rw [skip, if_pos rfl]

theorem fixed_pad (h : n < Nat.pow 10 w) (elem : String) (rest : List Char) :
    fixed elem w (pad w n ++ rest) = .ok (n, rest) := by
  rw [fixed, digits_pad h]

theorem readHour_pad {n : Nat} (h : n < 100) (rest : List Char) : readHour (pad 2 n ++ rest) = .ok (n, rest) := by
  rw [readHour, digits_pad h]

theorem inRange_true {what : String} {ok : Bool} (h : ok = true) : inRange what ok = .ok () := by
  rw [inRange, if_pos h]

/-- What follows the seconds is no fraction. -/
theorem formatZone_cons (offset : Int) : ∃ c s, formatZone offset = c :: s ∧ c.isDigit = false ∧ c ≠ '.' ∧ c ≠ ',' := by
  unfold formatZone
  split
  · exact ⟨_, _, rfl, by decide, by decide, by decide⟩
  · split <;> exact ⟨_, _, rfl, by decide, by decide, by decide⟩

/-- Dropping the zeros at the end divides by a power of ten. -/
theorem trimmed_zeros (l : List Char) : ∃ z, l = (l.reverse.dropWhile (· = '0')).reverse ++ List.replicate z '0' := by
  refine ⟨(l.reverse.takeWhile (· = '0')).length, ?_⟩
  have hrep : l.reverse.takeWhile (· = '0') = List.replicate (l.reverse.takeWhile (· = '0')).length '0' :=
    List.eq_replicate_iff.2 ⟨rfl, fun c hc => by simpa using List.mem_takeWhile_imp hc⟩
  rw [← List.reverse_replicate, ← hrep, ← List.reverse_append, List.takeWhile_append_dropWhile, List.reverse_reverse]

theorem readFraction_format {nanos : Nat} (h : nanos < 1000000000) (offset : Int) :
    readFraction (formatFraction nanos ++ formatZone offset) = (nanos, formatZone offset) := by
  obtain ⟨c, s, hz, hdig, hdot, hcomma⟩ := formatZone_cons offset
  unfold formatFraction
  split
  · rename_i h0
    rw [List.nil_append, hz, readFraction, if_neg (by rintro ⟨rfl | rfl, -⟩ <;> contradiction), h0]
  · rename_i h0
    obtain ⟨z, hpad⟩ := trimmed_zeros (pad 9 nanos)
    generalize ht : ((pad 9 nanos).reverse.dropWhile (· = '0')).reverse = t at hpad
    have hvalue : Nat.pow 10 z * Nat.ofDigitChars 10 t 0 = nanos := by
      have hdigits : Nat.ofDigitChars 10 (pad 9 nanos) 0 = nanos := ofDigitChars_pad (w := 9) h
      rw [hpad, Nat.ofDigitChars_append, Nat.ofDigitChars_replicate_zero] at hdigits
      exact hdigits
    have hlen : t.length + z = 9 := by
      have := length_pad 9 nanos
      rwa [hpad, List.length_append, List.length_replicate] at this
    have hall : ∀ d ∈ t, d.isDigit = true := fun d hd => isDigit_pad (w := 9) (n := nanos) (by rw [hpad]; simp [hd])
    have hne : t ≠ [] := by
      rintro rfl
      rw [Nat.ofDigitChars_nil, Nat.mul_zero] at hvalue
      exact h0 hvalue.symm
    have htake : (t ++ c :: s).takeWhile Char.isDigit = t := by
      rw [List.takeWhile_append_of_pos hall]
      simp [hdig]
    have hdrop : (t ++ c :: s).dropWhile Char.isDigit = c :: s := by
      rw [List.dropWhile_append_of_pos hall]
      simp [hdig]
    rw [List.cons_append, hz, readFraction, htake, hdrop, if_pos ⟨Or.inl rfl, hne⟩,
      List.take_of_length_le (by omega), show 9 - t.length = z by omega, Nat.mul_comm, hvalue]

theorem readZone_signed {sign : Char} {b : Bool} (hs : readSign sign = some b) (hZ : sign ≠ 'Z') {n : Nat}
    (h : n < 24 * 60) :
    readZone (sign :: (pad 2 (n / 60) ++ ':' :: pad 2 (n % 60))) = .ok (if b then -(n : Int) else n, []) := by
  have hpad : ∀ {m : Nat}, m < 100 → digits 2 [(m / 10 % 10).digitChar, (m % 10).digitChar] = some (m, []) := by
    intro m hm
    have := digits_pad (w := 2) hm []
    rwa [List.append_nil] at this
  have hr1 : inRange "time zone offset minute" (decide (n % 60 ≤ 60)) = .ok () :=
    inRange_true (decide_eq_true (by omega))
  have hr2 : inRange "time zone offset hour" (decide (n / 60 ≤ 24)) = .ok () := inRange_true (decide_eq_true (by omega))
  show readZone (sign :: (n / 60 / 10 % 10).digitChar :: (n / 60 % 10).digitChar :: ':' ::
    (n % 60 / 10 % 10).digitChar ::
    (n % 60 % 10).digitChar :: []) = _
  rw [readZone, if_neg hZ, if_neg (not_not.2 rfl), hpad (by omega), hpad (by omega)]
  dsimp only
  rw [hr1, hr2, hs]
  show Except.ok (_, _) = _
  rw [show n / 60 * 60 + n % 60 = n by omega]

theorem readZone_format {offset : Int} (h : offset.natAbs < 24 * 60) :
    readZone (formatZone offset) = .ok (offset, []) := by
  unfold formatZone
  split
  · rename_i h0
    rw [h0]
    rfl
  · split
    · rename_i hneg
      rw [readZone_signed (b := true) rfl (by decide) h]
      congr 2
      simp only [if_true]
      omega
    · rename_i hpos
      rw [readZone_signed (b := false) rfl (by decide) h]
      congr 2
      simp only [Bool.false_eq_true, if_false]
      omega

/-- **Round trip**: a time that can be written is read back. -/
theorem parse_format {t : Time} (h : t.Encodable) : parse (format t) = .ok t := by
  have hm := t.month_in
  have hdays : daysIn t.month t.year ≤ 31 := by
    unfold daysIn
    split
    · split <;> decide
    · split <;> decide
  have hd := t.day_in
  have hmonth : inRange "month" (decide (1 ≤ t.month) && decide (t.month ≤ 12)) = .ok () := inRange_true (by simp [hm])
  have hhour : inRange "hour" (decide (t.hour < 24)) = .ok () := inRange_true (decide_eq_true t.hour_lt)
  have hminute : inRange "minute" (decide (t.minute < 60)) = .ok () := inRange_true (decide_eq_true t.minute_lt)
  have hsecond : inRange "second" (decide (t.second < 60)) = .ok () := inRange_true (decide_eq_true t.second_lt)
  have hread : read (format t) = .ok t := by
    unfold read format
    rw [fixed_pad (w := 4) t.year_lt, ok_bind]
    dsimp only
    rw [skip_cons, ok_bind, fixed_pad (w := 2) (show t.month < 100 by omega), ok_bind]
    dsimp only
    rw [hmonth, ok_bind, skip_cons, ok_bind, fixed_pad (w := 2) (show t.day < 100 by omega), ok_bind]
    dsimp only
    rw [skip_cons, ok_bind, readHour_pad (t.hour_lt.trans (by decide)), ok_bind]
    dsimp only
    rw [hhour, ok_bind, skip_cons, ok_bind, fixed_pad (w := 2) (t.minute_lt.trans (by decide)), ok_bind]
    dsimp only
    rw [hminute, ok_bind, skip_cons, ok_bind, fixed_pad (w := 2) (t.second_lt.trans (by decide)), ok_bind]
    dsimp only
    rw [hsecond, ok_bind, readFraction_format t.nanos_lt]
    dsimp only
    rw [readZone_format h, ok_bind]
    dsimp only
    rw [if_neg (not_not.2 rfl), dif_pos ⟨⟨t.year_lt, t.hour_lt, t.minute_lt, t.second_lt, t.nanos_lt⟩, hm, hd⟩]
  rw [parse, hread]

end Time
