import ApiCerberus.GraphQL.Guard

/-!
# The depth of a JSON text

`checkJSONDepth` (`internal/graphql/request.go:137-167`) counts brackets and passes over strings, without reading the
text. `JsonText d s` is the grammar of RFC 8259: `s` is a JSON text in which arrays and objects are nested `d` deep. On
these the count is exact (`checkJSONDepth_exact`). The source goes over the bytes; in UTF-8 no byte of a longer
character is one that it looks for.
-/

namespace GraphQL

/-! ## JSON texts -/

/-- The inside of a string. -/
inductive IsChars : Text → Prop
  | nil : IsChars []
  | plain {c : Char} {t : Text} : c ≠ '"' → c ≠ '\\' → ' ' ≤ c → IsChars t → IsChars (c :: t)
  /-- `\"`, `\\`, `\/`, `\b`, `\f`, `\n`, `\r` and `\t`. -/
  | escape {c : Char} {t : Text} : (Json.unescape c).isSome → IsChars t → IsChars ('\\' :: c :: t)
  | code {a b c d : Char} {t : Text} : (∀ x ∈ [a, b, c, d], (Json.hexVal x).isSome) → IsChars t →
    IsChars ('\\' :: 'u' :: a :: b :: c :: d :: t)

def IsString (t : Text) : Prop := ∃ cs, IsChars cs ∧ t = '"' :: (cs ++ ['"'])

def IsBlank (t : Text) : Prop := ∀ c ∈ t, Json.isSpace c

/-- What stands in a text: a value, a value between blanks, or what stands between the brackets of an array or an object
that is not empty. -/
inductive Part
  | value
  | element
  | elements
  | members

/-- A text of a value, and how deep it nests. -/
inductive Nested : Part → Nat → Text → Prop
  | literal {t : Text} : t ∈ ["null", "true", "false"].map String.toList → Nested .value 0 t
  | number (n : Json.Number) : Nested .value 0 (Json.renderNumber n)
  | string {t : Text} : IsString t → Nested .value 0 t
  | emptyArray {w : Text} : IsBlank w → Nested .value 1 ('[' :: (w ++ [']']))
  | array {d : Nat} {t : Text} : Nested .elements d t → Nested .value (d + 1) ('[' :: (t ++ [']']))
  | emptyObject {w : Text} : IsBlank w → Nested .value 1 ('{' :: (w ++ ['}']))
  | object {d : Nat} {t : Text} : Nested .members d t → Nested .value (d + 1) ('{' :: (t ++ ['}']))
  | element {d : Nat} {w v w' : Text} : IsBlank w → Nested .value d v → IsBlank w' → Nested .element d (w ++ v ++ w')
  | lastElement {d : Nat} {t : Text} : Nested .element d t → Nested .elements d t
  | nextElement {d e : Nat} {t u : Text} : Nested .element d t → Nested .elements e u →
    Nested .elements (max d e) (t ++ ',' :: u)
  | lastMember {d : Nat} {w k w' t : Text} : IsBlank w → IsString k → IsBlank w' → Nested .element d t →
    Nested .members d (w ++ k ++ w' ++ ':' :: t)
  | nextMember {d e : Nat} {w k w' t u : Text} : IsBlank w → IsString k → IsBlank w' → Nested .element d t →
    Nested .members e u →
    Nested .members (max d e) (w ++ k ++ w' ++ ':' :: t ++ ',' :: u)

/-- A JSON text whose arrays and objects are nested `d` deep. -/
def JsonText (d : Nat) (s : Text) : Prop := Nested .element d s

/-! ## What the check sees -/

variable {m k d : Nat} {t rest : Text}

/-- No bracket and no quote. -/
def Quiet (t : Text) : Prop := ∀ c ∈ t, c ∉ ['\x7b', '[', '\x7d', ']', '"']

theorem check_quiet (h : Quiet t) (k : Nat) (rest : Text) :
    checkJSONDepth m k false (t ++ rest) = checkJSONDepth m k false rest := by
  induction t with
  | nil => rfl
  | cons c t ih =>
    have hc := h c List.mem_cons_self
    simp only [List.mem_cons, List.not_mem_nil, or_false, not_or] at hc
    simp only [List.cons_append, checkJSONDepth, hc, or_self, if_false, decide_false]
    exact ih fun x hx => h x (List.mem_cons_of_mem _ hx)

theorem IsBlank.quiet (h : IsBlank t) : Quiet t := by
  intro c hc
  have hspace := h c hc
  simp only [Json.isSpace, Bool.or_eq_true, decide_eq_true_eq] at hspace
  rcases hspace with ((rfl | rfl) | rfl) | rfl <;> decide

theorem quiet_of_digit {c : Char} (h : c.isDigit = true) : c ∉ ['\x7b', '[', '\x7d', ']', '"'] := by
  intro hmem
  simp only [List.mem_cons, List.not_mem_nil, or_false] at hmem
  rcases hmem with rfl | rfl | rfl | rfl | rfl <;> exact absurd h (by decide)

theorem quiet_number (n : Json.Number) : Quiet (Json.renderNumber n) := by
  obtain ⟨negative, whole, fraction, exponent⟩ := n
  have hdigits : ∀ (d : Json.Digits), ∀ c ∈ d.1, c ∉ ['\x7b', '[', '\x7d', ']', '"'] :=
    fun d c hc => quiet_of_digit (d.2.2 c hc)
  intro c hc
  simp only [Json.renderNumber, List.mem_append] at hc
  rcases hc with ((hc | hc) | hc) | hc
  · cases negative <;> simp_all
  · exact quiet_of_digit (Json.isDigit_toDigits hc)
  · cases fraction with
    | none => cases hc
    | some d =>
      rcases List.mem_cons.1 hc with rfl | hc
      · decide
      · exact hdigits d c hc
  · cases exponent with
    | none => cases hc
    | some e =>
      obtain ⟨upper, sign, digits⟩ := e
      simp only [Option.elim_some, Json.renderExponent, List.mem_cons, List.mem_append] at hc
      rcases hc with rfl | hc | hc
      · cases upper <;> simp
      · rcases sign with _ | _ | _ <;> simp_all
      · exact hdigits digits c hc

/-- A string goes on up to its closing quote. -/
theorem check_chars (h : IsChars t) (k : Nat) (rest : Text) :
    checkJSONDepth m k true (t ++ '"' :: rest) = checkJSONDepth m k false rest := by
  induction h with
  | nil => simp [checkJSONDepth]
  | plain hquote hslash _ _ ih => simp [checkJSONDepth, hquote, hslash, ih]
  | escape _ _ ih => simp [checkJSONDepth, ih]
  | @code a b c d t hhex _ ih =>
    have hplain : ∀ x ∈ [a, b, c, d], x ≠ '"' ∧ x ≠ '\\' := by
      intro x hx
      refine ⟨?_, ?_⟩ <;> rintro rfl <;> exact absurd (hhex _ hx) (by decide)
    simp only [List.mem_cons, List.not_mem_nil, or_false, forall_eq_or_imp, forall_eq] at hplain
    simp [checkJSONDepth, hplain, ih]

theorem check_string (h : IsString t) (k : Nat) (rest : Text) :
    checkJSONDepth m k false (t ++ rest) = checkJSONDepth m k false rest := by
  obtain ⟨cs, hcs, rfl⟩ := h
  simp [checkJSONDepth, check_chars hcs]

/-- The check passes over `t`, or `t` is nested too deeply for it. -/
def Passes (m d : Nat) (t : Text) : Prop :=
  ∀ k ≤ m, ∀ rest, (k + d ≤ m → checkJSONDepth m k false (t ++ rest) = checkJSONDepth m k false rest) ∧
    (m < k + d → checkJSONDepth m k false (t ++ rest) ≠ .ok ())

theorem passes_of_eq (h : ∀ k rest, checkJSONDepth m k false (t ++ rest) = checkJSONDepth m k false rest) :
    Passes m 0 t :=
  fun k hk rest => ⟨fun _ => h k rest, fun hlt => absurd hk (by omega)⟩

theorem Passes.append {e : Nat} {u : Text} (h : Passes m d t) (h' : Passes m e u) : Passes m (max d e) (t ++ u) := by
  intro k hk rest
  rw [List.append_assoc]
  obtain ⟨hpass, hstop⟩ := h k hk (u ++ rest)
  obtain ⟨hpass', hstop'⟩ := h' k hk rest
  refine ⟨fun hle => by rw [hpass (by omega), hpass' (by omega)], fun hlt => ?_⟩
  by_cases hd : k + d ≤ m
  · rw [hpass hd]
    exact hstop' (by omega)
  · exact hstop (by omega)

theorem Passes.quiet {w : Text} (h : Passes m d t) (hw : Quiet w) : Passes m d (w ++ t) := by
  have hw : Passes m 0 w := passes_of_eq fun k rest => check_quiet hw k rest
  simpa using hw.append h

theorem Passes.brackets {b : Char × Char} (hb : b ∈ [('[', ']'), ('\x7b', '\x7d')]) (h : Passes m d t) :
    Passes m (d + 1) (b.1 :: (t ++ [b.2])) := by
  intro k hk rest
  have hopen : ∀ u, checkJSONDepth m k false (b.1 :: u) = if m < k + 1 then
    .error s!"nesting depth {k + 1} exceeds maximum {m}"
      else checkJSONDepth m (k + 1) false u := by
    simp only [List.mem_cons, List.not_mem_nil, or_false] at hb
    rcases hb with rfl | rfl <;> simp [checkJSONDepth]
  have hclose : ∀ u, checkJSONDepth m (k + 1) false (b.2 :: u) = checkJSONDepth m k false u := by
    simp only [List.mem_cons, List.not_mem_nil, or_false] at hb
    rcases hb with rfl | rfl <;> simp [checkJSONDepth]
  rw [List.cons_append, List.append_assoc, List.singleton_append, hopen]
  by_cases hfull : m < k + 1
  · rw [if_pos hfull]
    exact ⟨fun hle => absurd hle (by omega), fun _ => nofun⟩
  · rw [if_neg hfull]
    obtain ⟨hpass, hstop⟩ := h (k + 1) (by omega) (b.2 :: rest)
    exact ⟨fun hle => by rw [hpass (by omega), hclose], fun hlt => hstop (by omega)⟩

/-- The counter goes up to the depth, and comes back. -/
theorem Nested.passes {part : Part} (h : Nested part d t) (m : Nat) : Passes m d t := by
  have hcomma : Quiet [','] := by simp [Quiet]
  have hcolon : Quiet [':'] := by simp [Quiet]
  have hblank : ∀ {w : Text}, IsBlank w → Passes m 0 w :=
    fun hw => passes_of_eq fun k rest => check_quiet hw.quiet k rest
  have hmember : ∀ {d : Nat} {w k w' t : Text}, IsBlank w → IsString k → IsBlank w' → Passes m d t →
      Passes m d (w ++ k ++ w' ++ ':' :: t) := by
    intro d w k w' t hw hk hw' ht
    have hkey : Passes m 0 k := passes_of_eq fun n rest => check_string hk n rest
    simpa using ((hkey.quiet hw.quiet).append (hblank hw')).append (ht.quiet hcolon)
  induction h with
  | literal ht =>
    refine passes_of_eq fun k rest => check_quiet ?_ k rest
    simp only [List.map_cons, List.map_nil, List.mem_cons, List.not_mem_nil, or_false] at ht
    rcases ht with rfl | rfl | rfl <;> simp [Quiet]
  | number n => exact passes_of_eq fun k rest => check_quiet (quiet_number n) k rest
  | string ht => exact passes_of_eq fun k rest => check_string ht k rest
  | emptyArray hw => exact (hblank hw).brackets (b := ('[', ']')) (by simp)
  | array _ ih => exact ih.brackets (b := ('[', ']')) (by simp)
  | emptyObject hw => exact (hblank hw).brackets (b := ('\x7b', '\x7d')) (by simp)
  | object _ ih => exact ih.brackets (b := ('\x7b', '\x7d')) (by simp)
  | element hw _ hw' ih => simpa using (ih.quiet hw.quiet).append (hblank hw')
  | lastElement _ ih => exact ih
  | nextElement _ _ ih ih' => exact ih.append (ih'.quiet hcomma)
  | lastMember hw hk hw' _ ih => exact hmember hw hk hw' ih
  | nextMember hw hk hw' _ _ ih ih' => exact (hmember hw hk hw' ih).append (ih'.quiet hcomma)

/-- **The depth check is exact.** -/
theorem checkJSONDepth_exact {s : Text} (h : JsonText d s) (m : Nat) : checkJSONDepth m 0 false s = .ok () ↔ d ≤ m := by
  obtain ⟨hpass, hstop⟩ := h.passes m 0 (Nat.zero_le m) []
  rw [List.append_nil] at hpass hstop
  constructor
  · intro hok
    by_contra hlt
    exact hstop (by omega) hok
  · intro hle
    exact hpass (by omega)

/-- `[{"]": "\\"}]` -/
def oneInside : Text := "[\x7b\"]\": \"\\\\\"\x7d]".toList

theorem checkJSONDepth_exact_oneInside : JsonText 2 oneInside ∧
    checkJSONDepth 2 0 false oneInside = .ok () ∧ checkJSONDepth 1 0 false oneInside ≠ .ok () := by
  have hblank : IsBlank [] := nofun
  have hkey : IsString "\"]\"".toList := ⟨[']'], .plain (by decide) (by decide) (by decide) .nil, rfl⟩
  have hval : IsString "\"\\\\\"".toList := ⟨['\\', '\\'], .escape (by decide) .nil, rfl⟩
  have hmember := Nested.lastMember hblank hkey hblank
    (.element (w := [' ']) (by simp [IsBlank, Json.isSpace]) (.string hval) hblank)
  have hvalue := Nested.element hblank (.array (.lastElement (.element hblank (.object hmember) hblank))) hblank
  have h : JsonText 2 oneInside := hvalue
  exact ⟨h, (checkJSONDepth_exact h 2).2 (by decide), fun hok => absurd ((checkJSONDepth_exact h 1).1 hok) (by decide)⟩

end GraphQL
