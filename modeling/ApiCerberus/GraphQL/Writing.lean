import ApiCerberus.GraphQL.Parser

/-!
# The texts of a query

`Written doc t`: the text `t` has the definitions of `doc`, with white space and commas between the tokens as one likes,
and with directives and variable definitions where the parser passes over them, by a search for the next opening brace.
So a field with a directive has a selection set (a leaf would swallow what follows), neither directives nor variable
definitions have a brace in them, and an operation has directives only behind its variable definitions.

There are no comments, nor directives on spreads. An inline fragment has a type condition and a blank behind its dots;
else it is taken for a spread, as a spread with a blank before a name such as `on_sale` is taken for an inline fragment.

`parseQuery_written`: the parser reads `doc` from every such text. So two of them are the same to it
(`parseQuery_ignores`), and with the other texts of that document they are not (`ignorable_matters`).
-/

namespace GraphQL.Writing

open Parsing

/-! ## Tokens -/

/-- White space, as GraphQL and the parser see it. -/
def Blank (w : Text) : Prop := ∀ c ∈ w, isWhitespace c = true

def IsName (name : Text) : Prop := name ≠ [] ∧ ∀ c ∈ name, isNameChar c = true

/-- A scalar without quotes. -/
def Bare (v : Text) : Prop := v ≠ [] ∧ (∀ c ∈ v, endsScalar c = false) ∧ ∀ c ∈ v.head?, c ≠ '"' ∧ c ≠ '[' ∧ c ≠ '{'

/-- Nothing, or what `skipUntil '{'` passes over once it has seen `char`. -/
def Skipped (char : Char) (d : Text) : Prop := d = [] ∨ ∃ d', d = char :: d' ∧ '{' ∉ d'

/-! ## Texts

In all rules `t` is the text, and `r` what is left of it. -/

inductive ValueNode
  | value (v : Value)
  | items (values : List Value)
  /-- Arguments, or the fields of an object, up to `close`. -/
  | pairs (close : Char) (pairs : List (Text × Value))

def setFields (fields pairs : List (Text × Value)) : List (Text × Value) :=
  pairs.foldl (fun fields p => setField fields p.1 p.2) fields

/-- `t` begins with the node, and `r` is left. -/
inductive ValueAt : ValueNode → (t r : Text) → Prop
  | bare {v r : Text} : Bare v → Ends (fun c => !endsScalar c) r → ValueAt (.value (.scalar v)) (v ++ r) r
  | quoted {v r : Text} : stringLength (v ++ '"' :: r) = v.length →
    ValueAt (.value (.scalar v)) ('"' :: (v ++ '"' :: r)) r
  | list {values : List Value} {w t r : Text} : Blank w → ValueAt (.items values) t (']' :: r) →
    ValueAt (.value (.list values)) ('[' :: (w ++ t)) r
  | object {pairs : List (Text × Value)} {w t r : Text} : Blank w → ValueAt (.pairs '}' pairs) t ('}' :: r) →
    ValueAt (.value (.object (setFields [] pairs))) ('{' :: (w ++ t)) r
  | noItems {r : Text} : ValueAt (.items []) (']' :: r) (']' :: r)
  | item {v : Value} {values : List Value} {w t t' r : Text} : ValueAt (.value v) t (w ++ t') → Blank w →
    ValueAt (.items values) t' r →
    ValueAt (.items (v :: values)) t r
  | noPairs {close : Char} {r : Text} : ValueAt (.pairs close []) (close :: r) (close :: r)
  | pair {close : Char} {name : Text} {v : Value} {pairs : List (Text × Value)} {w w' w'' t t' r : Text} : IsName name →
    Blank w → Blank w' →
    ValueAt (.value v) t (w'' ++ t') → Blank w'' → ValueAt (.pairs close pairs) t' r →
    ValueAt (.pairs close ((name, v) :: pairs)) (name ++ (w ++ ':' :: (w' ++ t))) r

/-- The alias, if there is one, the name, and the white space behind it. -/
inductive NameAt : (name fieldAlias t r : Text) → Prop
  | plain {name w r : Text} : IsName name → Blank w → Ends isNameChar (w ++ r) → Ends isWhitespace r →
    r.head? ≠ some ':' →
    NameAt name [] (name ++ (w ++ r)) r
  | aliased {name fieldAlias w w' w'' r : Text} : IsName fieldAlias → Blank w → Blank w' → IsName name → Blank w'' →
    Ends isNameChar (w'' ++ r) → Ends isWhitespace r →
      NameAt name fieldAlias (fieldAlias ++ (w ++ ':' :: (w' ++ (name ++ (w'' ++ r))))) r

def toArgument (pair : Text × Value) : Argument := ⟨pair.1, pair.2⟩

inductive ArgumentsAt : List Argument → (t r : Text) → Prop
  | none {r : Text} : r.head? ≠ some '(' → ArgumentsAt [] r r
  | some {pairs : List (Text × Value)} {w w' t r : Text} : Blank w →
    ValueAt (.pairs ')' pairs) t (')' :: (w' ++ r)) → Blank w' →
    Ends isWhitespace r → ArgumentsAt (pairs.map toArgument) ('(' :: (w ++ t)) r

inductive SelectionNode
  | selection (s : Selection)
  | selections (selections : List Selection)
  /-- With its braces. -/
  | set (selections : List Selection)

/-- Inside `depth` selection sets. -/
inductive SelectionAt : (depth : Nat) → SelectionNode → (t r : Text) → Prop
  | leaf {depth : Nat} {name fieldAlias t t' r : Text} {args : List Argument} : NameAt name fieldAlias t t' →
    ArgumentsAt args t' r →
    r.head? ≠ some '@' → r.head? ≠ some '{' → SelectionAt depth (.selection (.field name fieldAlias args [])) t r
  | node {depth : Nat} {name fieldAlias d t t' t'' r : Text} {args : List Argument} {selections : List Selection} :
    NameAt name fieldAlias t t' → ArgumentsAt args t' (d ++ t'') → Skipped '@' d →
      SelectionAt depth (.set selections) t'' r →
    SelectionAt depth (.selection (.field name fieldAlias args selections)) t r
  | spread {depth : Nat} {name w r : Text} : Blank w → IsName name → Ends isNameChar r →
    (w.head? = some ' ' → (name ++ r).takeWhile isLetter ≠ "on".toList) →
    SelectionAt depth (.selection (.fragmentSpread name)) ('.' :: '.' :: '.' :: (w ++ (name ++ r))) r
  | inline {depth : Nat} {type w w' w'' d t r : Text} {selections : List Selection} : Blank w → Blank w' → w' ≠ [] →
    IsName type → Blank w'' →
    Skipped '@' d → SelectionAt depth (.set selections) t r →
      SelectionAt depth (.selection (.inlineFragment type selections))
      ('.' :: '.' :: '.' :: ' ' :: (w ++ 'o' :: 'n' :: (w' ++ (type ++ (w'' ++ (d ++ t)))))) r
  | done {depth : Nat} {r : Text} : SelectionAt depth (.selections []) ('}' :: r) ('}' :: r)
  | next {depth : Nat} {s : Selection} {selections : List Selection}
    {w t t' r : Text} : SelectionAt depth (.selection s) t (w ++ t') →
    Blank w → SelectionAt depth (.selections selections) t' r → SelectionAt depth (.selections (s :: selections)) t r
  | set {depth : Nat} {selections : List Selection} {w t r : Text} : depth < defaultMaxDepth → Blank w →
    SelectionAt (depth + 1) (.selections selections) t ('}' :: r) →
      SelectionAt depth (.set selections) ('{' :: (w ++ t)) r

def keyword : OperationType → Text
  | .query => ['q', 'u', 'e', 'r', 'y']
  | .mutation => ['m', 'u', 't', 'a', 't', 'i', 'o', 'n']
  | .subscription => ['s', 'u', 'b', 's', 'c', 'r', 'i', 'p', 't', 'i', 'o', 'n']

def fragment : Text := ['f', 'r', 'a', 'g', 'm', 'e', 'n', 't']

/-- A definition at the beginning of `t`, before `r`. -/
inductive DefinitionAt : Definition → (t r : Text) → Prop
  | shorthand {selections : List Selection} {t r : Text} : SelectionAt 0 (.set selections) t r →
    DefinitionAt (.operation .query [] selections) t r
  | anonymous {type : OperationType} {selections : List Selection} {w v t r : Text} : Blank w → Skipped '(' v →
    SelectionAt 0 (.set selections) t r → DefinitionAt (.operation type [] selections)
      (keyword type ++ (w ++ (v ++ t))) r
  | operation {type : OperationType} {name : Text} {selections : List Selection}
    {w w' v t r : Text} : Blank w → w ≠ [] → IsName name →
    Blank w' → Skipped '(' v → SelectionAt 0 (.set selections) t r →
    DefinitionAt (.operation type name selections) (keyword type ++ (w ++ (name ++ (w' ++ (v ++ t))))) r
  | fragment {name type : Text} {selections : List Selection} {w₁ w₂ w₃ w₄ d t r : Text} : Blank w₁ → w₁ ≠ [] →
    IsName name → Blank w₂ →
    w₂ ≠ [] → Blank w₃ → w₃ ≠ [] → IsName type → Blank w₄ → Skipped '@' d → SelectionAt 0 (.set selections) t r →
    DefinitionAt (.fragmentDefinition name type selections)
      (fragment ++ (w₁ ++ (name ++ (w₂ ++ 'o' :: 'n' :: (w₃ ++ (type ++ (w₄ ++ (d ++ t)))))))) r

/-- Definitions one after the other, up to the end. -/
inductive DefinitionsAt : List Definition → (t : Text) → Prop
  | last {d : Definition} {t : Text} : DefinitionAt d t [] → DefinitionsAt [d] t
  | next {d : Definition} {definitions : List Definition} {w t t' : Text} : DefinitionAt d t (w ++ t') → Blank w →
    DefinitionsAt definitions t' → DefinitionsAt (d :: definitions) t

/-- With white space before and after it. -/
def Written (doc : Document) (t : Text) : Prop :=
  ∃ gap t', Text.trimSpace t = gap ++ t' ∧ Blank gap ∧ DefinitionsAt doc.definitions t'

/-! ## Reading tokens -/

variable {w name d r t t' : Text} {c char : Char}

theorem isWhitespace_of_not_endsScalar (h : endsScalar c = false) : isWhitespace c = false := by
  simp only [endsScalar, Bool.or_eq_false_iff] at h
  exact h.1.1.1.1

theorem isWhitespace_of_isNameChar (h : isNameChar c = true) : isWhitespace c = false := by
  by_contra hw
  simp only [isWhitespace, Bool.not_eq_false, Bool.or_eq_true, decide_eq_true_eq] at hw
  rcases hw with (((rfl | rfl) | rfl) | rfl) | rfl <;> exact absurd h (by decide)

theorem ends_cons {p : Char → Bool} (h : p c = false) (t : Text) : Ends p (c :: t) := ends_of_head? rfl h

theorem Blank.ends_isNameChar (h : Blank w) (hr : Ends isNameChar r) : Ends isNameChar (w ++ r) := by
  cases w with
  | nil => exact hr
  | cons c w =>
    refine ends_cons (Bool.eq_false_iff.2 fun hc => ?_) _
    have hw := h c List.mem_cons_self
    rw [isWhitespace_of_isNameChar hc] at hw
    cases hw

theorem blank_nil : Blank [] := List.forall_mem_nil _

theorem blank_singleton (h : isWhitespace c = true) : Blank [c] := by simpa [Blank] using h

theorem Blank.ends_of_ne_nil (hw : Blank w) (hne : w ≠ []) (r : Text) : Ends isNameChar (w ++ r) := by
  obtain ⟨c, w, rfl⟩ := List.exists_cons_of_ne_nil hne
  exact ends_cons (hw.ends_isNameChar (r := []) (fun c hc => (nomatch hc)) c rfl) _

theorem IsName.ends_isWhitespace (h : IsName name) (r : Text) : Ends isWhitespace (name ++ r) := by
  obtain ⟨c, name, rfl⟩ := List.exists_cons_of_ne_nil h.1
  exact ends_cons (isWhitespace_of_isNameChar (h.2 c List.mem_cons_self)) _

theorem IsName.head (h : IsName name) (r : Text) : ∃ c, (name ++ r).head? = some c ∧ isNameChar c = true := by
  obtain ⟨c, name, rfl⟩ := List.exists_cons_of_ne_nil h.1
  exact ⟨c, rfl, h.2 c List.mem_cons_self⟩

theorem Ends.isLetter (h : Ends isNameChar r) : Ends isLetter r := fun c hc => by
  have hc := h c hc
  simp only [isNameChar, Bool.or_eq_false_iff] at hc
  exact hc.1.1

theorem reads_peek (t : Text) : peek.Reads t t.head? t := (reads_rest t).bind (reads_pure _ t)

theorem reads_peekWord (t : Text) : peekWord.Reads t (t.takeWhile isLetter) t :=
  (reads_rest t).bind ((reads_tick _ t).bind (reads_pure _ t))

theorem reads_skipWhitespace (hw : Blank w) (hr : Ends isWhitespace r) : skipWhitespace.Reads (w ++ r) () r :=
  (reads_scan hw hr).bind (reads_pure _ r)

theorem reads_noWhitespace (hr : Ends isWhitespace r) : skipWhitespace.Reads r () r := reads_skipWhitespace blank_nil hr

theorem reads_parseName (hname : ∀ c ∈ name, isNameChar c = true)
    (hr : Ends isNameChar r) : parseName.Reads (name ++ r) name r :=
  reads_scan hname hr

theorem reads_skipUntil (h : char ∉ d) : (skipUntil char).Reads (d ++ char :: r) () (char :: r) := by
  refine (reads_scan (fun c hc => ?_) (ends_cons (by simp) r)).bind (reads_pure _ _)
  simpa using fun heq : c = char => h (heq ▸ hc)

theorem reads_skipComma (hw : Blank w) (hr : Ends isWhitespace r) : skipComma.Reads (w ++ r) () r := by
  have hcomma : r.head? ≠ some ',' := fun h => absurd (hr ',' h) (by decide)
  exact (reads_skipWhitespace hw hr).bind ((reads_peek r).bind (reads_when_false (by simpa using hcomma)))

/-! ## Reading values -/

/-- What the parser does with a text of the node. -/
def ValueNode.Read (t r : Text) : ValueNode → Prop
  | .value v => Enough fun gas stack => (parseValue gas stack).Reads t v r
  | .items values => Enough fun gas stack => ∀ rounds, values.length < rounds → ∀ before,
    (loop (endsAt ']') (parseItem (pure ()) (fun values _ value => values ++ [value])
      (parseValue gas stack)) rounds before).Reads t
      (before ++ values) r
  | .pairs close ps => Enough fun gas stack => ∀ rounds, ps.length < rounds →
    (close = '}' → ∀ before,
      (loop (endsAt '}') (parseItem parseFieldKey setField (parseValue gas stack)) rounds before).Reads t
        (setFields before ps) r) ∧
    (close = ')' → ∀ before,
      (loop (endsAt ')') (parseArgument (parseValue gas stack)) rounds before).Reads t (before ++ ps.map toArgument) r)

section

variable {v : Value} {values : List Value} {pairs : List (Text × Value)} {close : Char}

theorem ValueAt.head (h : ValueAt (.value v) t r) : ∃ c, t.head? = some c ∧ endsScalar c = false := by
  cases h with
  | bare hv _ =>
    obtain ⟨c, v, rfl⟩ := List.exists_cons_of_ne_nil hv.1
    exact ⟨c, rfl, hv.2.1 c List.mem_cons_self⟩
  | quoted _ => exact ⟨'"', rfl, by decide⟩
  | list _ _ => exact ⟨'[', rfl, by decide⟩
  | object _ _ => exact ⟨'{', rfl, by decide⟩

theorem ValueAt.ends_isWhitespace (h : ValueAt (.value v) t r) : Ends isWhitespace t := by
  obtain ⟨c, hc, hends⟩ := h.head
  exact ends_of_head? hc (isWhitespace_of_not_endsScalar hends)

theorem ValueAt.items_ends (h : ValueAt (.items values) t r) : Ends isWhitespace t := by
  cases h with
  | noItems => exact ends_cons (by decide) _
  | item hv _ _ => exact hv.ends_isWhitespace

theorem ValueAt.pairs_ends (h : ValueAt (.pairs close pairs) t r)
    (hclose : isWhitespace close = false) : Ends isWhitespace t := by
  cases h with
  | noPairs => exact ends_cons hclose _
  | pair hname _ _ _ _ _ => exact hname.ends_isWhitespace _

theorem not_endsAt (h : t.head? = some c) (hne : c ≠ close) : endsAt close t = false := by
  cases t with
  | nil => cases h
  | cons c' t =>
    cases h
    simpa [endsAt] using hne

variable {l o : QueryParser Value}

theorem reads_parseValueWith_scalar (ht : Ends isWhitespace t) (hlist : t.head? ≠ some '[')
    (hobject : t.head? ≠ some '{') (h : parseScalarValue.Reads t v r) : (parseValueWith l o).Reads t v r := by
  refine (reads_noWhitespace ht).bind ((reads_peek t).bind ?_)
  rw [if_neg hlist, if_neg hobject]
  exact h

theorem reads_bare {v : Text} (hv : Bare v) (hr : Ends (fun c => !endsScalar c) r) :
    (parseValueWith l o).Reads (v ++ r) (.scalar v) r := by
  obtain ⟨c, v, rfl⟩ := List.exists_cons_of_ne_nil hv.1
  obtain ⟨hquote, hlist, hobject⟩ := hv.2.2 c rfl
  have hall : ∀ c' ∈ c :: v, (!endsScalar c') = true := fun c' hc' => by simp [hv.2.1 c' hc']
  refine reads_parseValueWith_scalar (ends_cons (isWhitespace_of_not_endsScalar (hv.2.1 c List.mem_cons_self)) _)
    (by simpa using hlist)
    (by simpa using hobject) ((reads_peek _).bind ?_)
  rw [if_neg (by simpa using hquote)]
  exact (reads_scan hall hr).bind (reads_pure _ r)

theorem reads_quoted {v : Text} (h : stringLength (v ++ '"' :: r) = v.length) :
    (parseValueWith l o).Reads ('"' :: (v ++ '"' :: r)) (.scalar v) r := by
  refine reads_parseValueWith_scalar (ends_cons (by decide) _) (by simp) (by simp) ((reads_peek _).bind ?_)
  rw [List.head?_cons, if_pos rfl]
  refine (reads_advance 1 _).bind ((reads_take h).bind ((reads_peek _).bind ?_))
  exact (reads_when_true (by simp) (reads_advance 1 _)).bind (reads_pure _ r)

theorem reads_parseItems {κ ι : Type} {key : QueryParser κ} {put : ι → κ → Value → ι} {p : QueryParser Value}
    {gas : Nat} {before after : ι}
    {bracket : Char} (hw : Blank w) (ht : Ends isWhitespace t)
    (hloop : (loop (endsAt close) (parseItem key put p) gas before).Reads t after (close :: r)) :
    (parseItems close key put gas p before).Reads (bracket :: (w ++ t)) after r := by
  refine (reads_advance 1 _).bind ((reads_skipWhitespace hw ht).bind (hloop.bind ((reads_peek _).bind ?_)))
  exact (reads_when_true (by simp) (reads_advance 1 _)).bind (reads_pure _ r)

/-- The name of a field of an object, or of an argument, and its colon. -/
theorem reads_parseFieldKey {w' : Text} (hname : IsName name) (hw : Blank w) (hw' : Blank w')
    (ht : Ends isWhitespace t) :
    parseFieldKey.Reads (name ++ (w ++ ':' :: (w' ++ t))) name t := by
  refine (reads_parseName hname.2 (hw.ends_isNameChar (ends_cons (by decide) _))).bind ?_
  refine (reads_skipWhitespace hw (ends_cons (by decide) _)).bind ((reads_peek _).bind ?_)
  exact (reads_when_true (by simp) ((reads_advance 1 _).bind (reads_skipWhitespace hw' ht))).bind (reads_pure _ t)

theorem reads_parseArgument {w' w'' : Text} {p : QueryParser Value} (hname : IsName name) (hw : Blank w)
    (hw' : Blank w') (ht : Ends isWhitespace t)
    (hp : p.Reads t v (w'' ++ t')) (hw'' : Blank w'') (ht' : Ends isWhitespace t') (before : List Argument) :
    (parseArgument p before).Reads (name ++ (w ++ ':' :: (w' ++ t))) (before ++ [toArgument (name, v)]) t' := by
  refine (reads_parseName hname.2 (hw.ends_isNameChar (ends_cons (by decide) _))).bind ?_
  rw [if_neg hname.1]
  refine (reads_skipWhitespace hw (ends_cons (by decide) _)).bind ((reads_peek _).bind ?_)
  rw [if_neg (by simp)]
  refine (reads_advance 1 _).bind ((reads_skipWhitespace hw' ht).bind (hp.bind ?_))
  exact (reads_skipComma hw'' ht').bind (reads_pure _ t')

/-- Values, by induction on the grammar. -/
theorem ValueAt.read {node : ValueNode} (h : ValueAt node t r) : node.Read t r := by
  induction h with
  | bare hv hr => exact Enough.call 0 (.of_forall fun _ _ => trivial) fun gas stack _ (_ : True) => reads_bare hv hr
  | quoted hv => exact Enough.call 0 (.of_forall fun _ _ => trivial) fun gas stack _ (_ : True) => reads_quoted hv
  | @list values w t r hw hitems ih =>
    refine Enough.call (values.length + 1) ih fun gas stack hgas hread => ?_
    refine (reads_noWhitespace (ends_cons (by decide) _)).bind ((reads_peek _).bind ?_)
    rw [List.head?_cons, if_pos rfl]
    exact (reads_parseItems hw hitems.items_ends (hread gas hgas [])).bind (reads_pure _ r)
  | @object pairs w t r hw hpairs ih =>
    refine Enough.call (pairs.length + 1) ih fun gas stack hgas hread => ?_
    refine (reads_noWhitespace (ends_cons (by decide) _)).bind ((reads_peek _).bind ?_)
    rw [List.head?_cons, if_neg (by simp), if_pos rfl]
    exact (reads_parseItems hw (hpairs.pairs_ends (by decide)) ((hread gas hgas).1 rfl [])).bind (reads_pure _ r)
  | noItems =>
    refine .of_forall fun gas stack rounds hrounds before => ?_
    obtain ⟨rounds, rfl⟩ : ∃ k, rounds = k + 1 := ⟨rounds - 1, by omega⟩
    rw [List.append_nil]
    exact reads_loop_stop (by simp [endsAt]) rounds before
  | @item v values w t t' r hv hw hvalues ihv ihvalues =>
    refine (ihv.and ihvalues).mono fun gas stack hread rounds hrounds before => ?_
    obtain ⟨rounds, rfl⟩ : ∃ k, rounds = k + 1 := ⟨rounds - 1, by omega⟩
    obtain ⟨c, hc, hends⟩ := hv.head
    have hrest := hread.2 rounds (by simpa using hrounds) (before ++ [v])
    rw [List.append_assoc] at hrest
    refine reads_loop_round (not_endsAt hc fun h => ?_) ((reads_pure () t).bind (hread.1.bind ?_)) hrest
    · exact absurd (h ▸ hends) (by decide)
    · exact (reads_skipComma hw hvalues.items_ends).bind (reads_pure _ t')
  | @noPairs close r =>
    refine .of_forall fun gas stack rounds hrounds => ?_
    obtain ⟨rounds, rfl⟩ : ∃ k, rounds = k + 1 := ⟨rounds - 1, by omega⟩
    refine ⟨fun hclose before => reads_loop_stop (by simp [endsAt, hclose]) rounds before, fun hclose before => ?_⟩
    rw [List.map_nil, List.append_nil]
    exact reads_loop_stop (by simp [endsAt, hclose]) rounds before
  | @pair close name v pairs w w' w'' t t' r hname hw hw' hv hw'' hpairs ihv ihpairs =>
    refine (ihv.and ihpairs).mono fun gas stack hread rounds hrounds => ?_
    obtain ⟨rounds, rfl⟩ : ∃ k, rounds = k + 1 := ⟨rounds - 1, by omega⟩
    obtain ⟨hfields, harguments⟩ := hread.2 rounds (by simpa using hrounds)
    obtain ⟨c, hc, hnameChar⟩ := hname.head (w ++ ':' :: (w' ++ t))
    refine ⟨fun hclose before => ?_, fun hclose before => ?_⟩
    · subst hclose
      refine reads_loop_round (not_endsAt hc fun h => absurd (h ▸ hnameChar) (by decide))
        ((reads_parseFieldKey hname hw hw' hv.ends_isWhitespace).bind (hread.1.bind ?_))
          (hfields rfl (setField before name v))
      exact (reads_skipComma hw'' (hpairs.pairs_ends (by decide))).bind (reads_pure _ t')
    · subst hclose
      have hrest := harguments rfl (before ++ [toArgument (name, v)])
      rw [List.append_assoc] at hrest
      exact reads_loop_round (not_endsAt hc fun h => absurd (h ▸ hnameChar) (by decide))
        (reads_parseArgument hname hw hw' hv.ends_isWhitespace hread.1 hw''
          (hpairs.pairs_ends (by decide)) before) hrest

end

/-! ## Reading selections -/

def SelectionNode.Read (depth : Nat) (t r : Text) : SelectionNode → Prop
  | .selection s => Enough fun gas stack =>
    (parseSelection gas (parseValue gas stack) (parseSelections gas (parseValue gas) stack depth)).Reads t s r
  | .selections ss => Enough fun gas stack => ∀ rounds, ss.length < rounds → ∀ before,
    (loop (endsAt '}') (parseSelectionItem gas (parseValue gas stack)
      (parseSelections gas (parseValue gas) stack depth)) rounds before).Reads t
      (before ++ ss) r
  | .set ss => Enough fun gas stack => (parseSelections gas (parseValue gas) stack depth).Reads t ss r

section

variable {fieldAlias type : Text} {args : List Argument} {depth gas : Nat} {s : Selection} {selections : List Selection}

theorem NameAt.head (h : NameAt name fieldAlias t r) : ∃ c, t.head? = some c ∧ isNameChar c = true := by
  cases h with
  | plain hname _ _ _ _ => exact hname.head _
  | aliased halias _ _ _ _ _ _ => exact halias.head _

theorem SelectionAt.head (h : SelectionAt depth (.selection s) t r) : ∃ c, t.head? = some c ∧
    (isNameChar c = true ∨ c = '.') := by
  cases h with
  | leaf hname _ _ _ =>
    obtain ⟨c, hc, hnameChar⟩ := hname.head
    exact ⟨c, hc, .inl hnameChar⟩
  | node hname _ _ _ =>
    obtain ⟨c, hc, hnameChar⟩ := hname.head
    exact ⟨c, hc, .inl hnameChar⟩
  | spread _ _ _ _ => exact ⟨'.', rfl, .inr rfl⟩
  | inline _ _ _ _ _ _ _ => exact ⟨'.', rfl, .inr rfl⟩

theorem SelectionAt.ends_isWhitespace (h : SelectionAt depth (.selection s) t r) : Ends isWhitespace t := by
  obtain ⟨c, hc, hstart⟩ := h.head
  refine ends_of_head? hc ?_
  rcases hstart with hname | rfl
  · exact isWhitespace_of_isNameChar hname
  · decide

theorem SelectionAt.selections_ends (h : SelectionAt depth (.selections selections) t r) : Ends isWhitespace t := by
  cases h with
  | done => exact ends_cons (by decide) _
  | next hs _ _ => exact hs.ends_isWhitespace

theorem SelectionAt.set_head (h : SelectionAt depth (.set selections) t r) : ∃ t', t = '{' :: t' := by
  cases h with
  | set _ _ _ => exact ⟨_, rfl⟩

theorem NameAt.read (h : NameAt name fieldAlias t r) : parseFieldName.Reads t (fieldAlias, name) r := by
  cases h with
  | plain hname hw hends hr hcolon =>
    refine (reads_parseName hname.2 hends).bind ((reads_skipWhitespace hw hr).bind ?_)
    rw [if_neg hname.1]
    refine (reads_peek r).bind ?_
    rw [if_neg hcolon]
    exact reads_pure _ r
  | aliased halias hw hw' hname hw'' hends hr =>
    refine (reads_parseName halias.2 (hw.ends_isNameChar (ends_cons (by decide) _))).bind ?_
    refine (reads_skipWhitespace hw (ends_cons (by decide) _)).bind ?_
    rw [if_neg halias.1]
    refine (reads_peek _).bind ?_
    rw [List.head?_cons, if_pos rfl]
    refine (reads_advance 1 _).bind ((reads_skipWhitespace hw' (hname.ends_isWhitespace _)).bind ?_)
    refine (reads_parseName hname.2 hends).bind ((reads_skipWhitespace hw'' hr).bind ?_)
    rw [if_neg hname.1]
    exact reads_pure _ r

theorem ArgumentsAt.read (h : ArgumentsAt args t r) : Enough fun gas stack =>
    (parseFieldArguments gas (parseValue gas stack)).Reads t args r := by
  cases h with
  | none hopen =>
    refine .of_forall fun gas stack => (reads_peek _).bind ?_
    rw [if_neg hopen]
    exact reads_pure _ _
  | @some pairs w w' t r hw hpairs hw' hr =>
    refine (hpairs.read.and (.gas (pairs.length + 1))).mono fun gas stack hread => (reads_peek _).bind ?_
    rw [List.head?_cons, if_pos rfl]
    refine Parser.Reads.bind ((reads_peek _).bind ?_) ((reads_skipWhitespace hw' hr).bind (reads_pure _ r))
    rw [List.head?_cons, if_neg (by simp)]
    refine (reads_advance 1 _).bind ((reads_skipWhitespace hw (hpairs.pairs_ends (by decide))).bind ?_)
    refine ((hread.1 gas hread.2).2 rfl []).bind ((reads_rest _).bind ?_)
    rw [if_neg (by simp)]
    exact (reads_peek _).bind ((reads_when_true (by simp) (reads_advance 1 _)).bind (reads_pure _ _))

theorem reads_skipped (hd : Skipped char d) (hchar : char ≠ '{') :
    (when ((d ++ '{' :: r).head? = some char) (skipUntil '{')).Reads (d ++ '{' :: r) () ('{' :: r) := by
  rcases hd with rfl | ⟨d, rfl, hd⟩
  · exact reads_when_false (by simpa using Ne.symm hchar)
  · refine reads_when_true (by simp) (reads_skipUntil (d := char :: d) ?_)
    simp [hd, Ne.symm hchar]

theorem Skipped.ends {p : Char → Bool} (hd : Skipped char d) (hchar : p char = false)
    (hbrace : p '{' = false) (r : Text) :
    Ends p (d ++ '{' :: r) := by
  rcases hd with rfl | ⟨d, rfl, -⟩
  · exact ends_cons hbrace _
  · exact ends_cons hchar _

theorem takeWhile_on (hw : Blank w) (hne : w ≠ []) (r : Text) :
    ('o' :: 'n' :: (w ++ r)).takeWhile isLetter = "on".toList := by
  exact takeWhile_of_ends (s := ['o', 'n']) (List.all_eq_true.1 (by decide)) (Ends.isLetter (hw.ends_of_ne_nil hne r))

theorem reads_typeCondition {w' w'' : Text} (hw' : Blank w') (hne : w' ≠ []) (htype : IsName type) (hw'' : Blank w'')
    (hname : Ends isNameChar r) (hr : Ends isWhitespace r) :
      typeCondition.Reads ('o' :: 'n' :: (w' ++ (type ++ (w'' ++ r)))) type r := by
  refine (reads_peekWord _).bind ?_
  rw [if_pos (takeWhile_on hw' hne _)]
  refine (reads_advance 2 _).bind ((reads_skipWhitespace hw' (htype.ends_isWhitespace _)).bind ?_)
  refine (reads_parseName htype.2 (hw''.ends_isNameChar hname)).bind ?_
  rw [if_neg htype.1]
  exact (reads_skipWhitespace hw'' hr).bind (reads_pure _ r)

theorem reads_field {parseValue : QueryParser Value} {parseSelections : QueryParser (List Selection)}
    (hname : NameAt name fieldAlias t t') (h : (parseField gas parseValue parseSelections).Reads t s r) :
    (parseSelection gas parseValue parseSelections).Reads t s r := by
  obtain ⟨c, hc, hnameChar⟩ := hname.head
  have hdots : dots t = false := by
    cases t with
    | nil => cases hc
    | cons c' t =>
      cases hc
      simp only [dots, List.take_succ_cons, decide_eq_false_iff_not, List.cons.injEq, not_and]
      rintro rfl
      exact absurd hnameChar (by decide)
  have hends : Ends isWhitespace t := ends_of_head? hc (isWhitespace_of_isNameChar hnameChar)
  refine (reads_noWhitespace hends).bind ((reads_rest t).bind ?_)
  rw [if_neg (by simp [hdots])]
  exact h

theorem reads_spread {parseValue : QueryParser Value} {parseSelections : QueryParser (List Selection)} (hw : Blank w)
    (hname : IsName name)
    (hr : Ends isNameChar r) (hon : w.head? = some ' ' → (name ++ r).takeWhile isLetter ≠ "on".toList) :
    (parseSelection gas parseValue parseSelections).Reads ('.' :: '.' :: '.' :: (w ++ (name ++ r)))
      (.fragmentSpread name) r := by
  have hspread : parseSpread.Reads (name ++ r) (.fragmentSpread name) r :=
    (reads_parseName hname.2 hr).bind (reads_pure _ r)
  refine (reads_noWhitespace (ends_cons (by decide) _)).bind ((reads_rest _).bind ?_)
  rw [if_pos (by simp [dots])]
  refine (reads_advance 3 _).bind ((reads_skipWhitespace hw (hname.ends_isWhitespace r)).bind ?_)
  split
  · rename_i hblank
    -- The blank is the first character of `w`, since no name begins with one.
    have hhead : w.head? = some ' ' := by
      cases w with
      | nil =>
        obtain ⟨c, hc, hnameChar⟩ := hname.head r
        have hblank' : (name ++ r).head? = some ' ' := by simpa [List.head?_eq_getElem?] using hblank
        rw [hc, Option.some.injEq] at hblank'
        exact absurd (hblank' ▸ hnameChar) (by decide)
      | cons c w => simpa using hblank
    refine (reads_peekWord _).bind ?_
    rw [if_neg (hon hhead)]
    exact hspread
  · exact hspread

/-- By induction on the grammar: the parser reads what stands there. -/
theorem SelectionAt.read {node : SelectionNode} (h : SelectionAt depth node t r) : node.Read depth t r := by
  induction h with
  | leaf hname hargs hdirective hset =>
    refine hargs.read.mono fun gas stack hread =>
      reads_field hname (hname.read.bind (hread.bind ((reads_peek _).bind ?_)))
    refine (reads_when_false (by simpa using hdirective)).bind ((reads_peek _).bind ?_)
    rw [if_neg hset]
    exact reads_pure _ _
  | @node depth name fieldAlias d t t' t'' r args selections hname hargs hd hset ih =>
    obtain ⟨_, rfl⟩ := hset.set_head
    refine (hargs.read.and ih).mono fun gas stack hread =>
      reads_field hname (hname.read.bind (hread.1.bind ((reads_peek _).bind ?_)))
    refine (reads_skipped hd (by decide)).bind ((reads_peek _).bind ?_)
    rw [List.head?_cons, if_pos rfl]
    exact hread.2.bind (reads_pure _ r)
  | spread hw hname hr hon => exact .of_forall fun gas stack => reads_spread hw hname hr hon
  | @inline depth type w w' w'' d t r selections hw hw' hne htype hw'' hd hset ih =>
    obtain ⟨_, rfl⟩ := hset.set_head
    refine Enough.mono ih fun gas stack hread => (reads_noWhitespace (ends_cons (by decide) _)).bind
      ((reads_rest _).bind ?_)
    rw [if_pos (by simp [dots])]
    have hblank : Blank (' ' :: w) := List.forall_mem_cons.2 ⟨by decide, hw⟩
    refine (reads_advance 3 _).bind ((reads_skipWhitespace hblank (ends_cons (by decide) _)).bind ?_)
    rw [if_pos (by simp)]
    refine (reads_peekWord _).bind ?_
    rw [if_pos (takeWhile_on hw' hne _)]
    refine (reads_rest _).bind ((reads_when_false (by simp [dots])).bind ?_)
    refine (reads_typeCondition hw' hne htype hw'' (hd.ends (by decide) (by decide) _)
      (hd.ends (by decide) (by decide) _)).bind ?_
    refine (reads_peek _).bind ((reads_skipped hd (by decide)).bind
      ((reads_noWhitespace (ends_cons (by decide) _)).bind ?_))
    refine (reads_peek _).bind ?_
    rw [List.head?_cons, if_neg (by simp)]
    exact hread.bind (reads_pure _ r)
  | done =>
    refine .of_forall fun gas stack rounds hrounds before => ?_
    obtain ⟨rounds, rfl⟩ : ∃ k, rounds = k + 1 := ⟨rounds - 1, by omega⟩
    rw [List.append_nil]
    exact reads_loop_stop (by simp [endsAt]) rounds before
  | @next depth s selections w t t' r hs hw hselections ihs ihselections =>
    refine (ihs.and ihselections).mono fun gas stack hread rounds hrounds before => ?_
    obtain ⟨rounds, rfl⟩ : ∃ k, rounds = k + 1 := ⟨rounds - 1, by omega⟩
    obtain ⟨c, hc, hstart⟩ := hs.head
    have hrest := hread.2 rounds (by simpa using hrounds) (before ++ [s])
    rw [List.append_assoc] at hrest
    refine reads_loop_round (not_endsAt hc fun h => ?_) (hread.1.bind ?_) hrest
    · subst h
      exact absurd hstart (by decide)
    · exact (reads_skipWhitespace hw hselections.selections_ends).bind (reads_pure _ t')
  | @set depth selections w t r hdepth hw hselections ih =>
    refine Enough.call (selections.length + 1) ih fun gas stack hgas hread => (reads_peek _).bind ?_
    rw [List.head?_cons, if_neg (by simp)]
    refine (reads_advance 1 _).bind ((reads_skipWhitespace hw hselections.selections_ends).bind ?_)
    rw [if_neg (Nat.not_lt.2 hdepth)]
    refine (hread gas hgas []).bind ((reads_rest _).bind ?_)
    rw [if_neg (by simp)]
    exact (reads_peek _).bind ((reads_when_true (by simp) (reads_advance 1 _)).bind (reads_pure _ r))

end

/-! ## Reading documents -/

section

variable {type : OperationType} {definition : Definition} {definitions : List Definition} {selections : List Selection}
  {parseSelections : QueryParser (List Selection)} {v w' : Text} {gas stack : Nat}

theorem reads_parseOperationType (type : OperationType) (hr : Ends isLetter r) :
    parseOperationType.Reads (keyword type ++ r) type r := by
  refine (reads_peekWord _).bind ?_
  cases type with
  | query =>
    rw [takeWhile_of_ends (List.all_eq_true.1 (by decide)) hr, if_pos (by rfl)]
    exact (reads_advance 5 _).bind (reads_pure _ r)
  | mutation =>
    rw [takeWhile_of_ends (List.all_eq_true.1 (by decide)) hr, if_neg (by decide), if_pos (by rfl)]
    exact (reads_advance 8 _).bind (reads_pure _ r)
  | subscription =>
    rw [takeWhile_of_ends (List.all_eq_true.1 (by decide)) hr, if_neg (by decide), if_neg (by decide), if_pos (by rfl)]
    exact (reads_advance 12 _).bind (reads_pure _ r)

theorem reads_noName (hv : Skipped '(' v) : parseOperationName.Reads (v ++ '{' :: r) [] (v ++ '{' :: r) := by
  refine (reads_rest _).bind ?_
  split
  · exact reads_parseName (List.forall_mem_nil _) (hv.ends (by decide) (by decide) r)
  · exact reads_pure _ _

theorem reads_parseOperation {t₁ t₂ : Text} (ht : Ends isWhitespace t)
    (htype : parseOperationType.Reads t type (w ++ t₁)) (hw : Blank w)
    (ht₁ : Ends isWhitespace t₁) (hname : parseOperationName.Reads t₁ name (w' ++ (v ++ '{' :: t₂))) (hw' : Blank w')
    (hv : Skipped '(' v)
    (hset : parseSelections.Reads ('{' :: t₂) selections r) :
      (parseOperation parseSelections).Reads t (.operation type name selections) r := by
  refine (reads_noWhitespace ht).bind (htype.bind ((reads_skipWhitespace hw ht₁).bind (hname.bind ?_)))
  refine (reads_skipWhitespace hw' (hv.ends (by decide) (by decide) t₂)).bind ((reads_peek _).bind ?_)
  refine (reads_skipped hv (by decide)).bind
    ((reads_noWhitespace (ends_cons (by decide) _)).bind ((reads_peek _).bind ?_))
  rw [List.head?_cons, if_neg (by simp)]
  exact hset.bind (reads_pure _ r)

theorem reads_operation (hw : Blank w) (hc : t.head? = some c) (hspace : isWhitespace c = false) (hf : c ≠ 'f')
    (h : (parseOperation parseSelections).Reads t definition r) (before : List Definition) :
    (parseDefinition parseSelections before).Reads (w ++ t) (before ++ [definition]) r := by
  obtain ⟨t, rfl⟩ : ∃ t', t = c :: t' := by
    cases t with
    | nil => cases hc
    | cons c' t =>
      cases hc
      exact ⟨t, rfl⟩
  have hfragment : isFragment.Reads (c :: t) false (c :: t) := by
    refine (reads_peek _).bind ?_
    rw [if_neg (by simpa using hf)]
    exact reads_pure _ _
  refine (reads_skipWhitespace hw (ends_cons hspace t)).bind ((reads_rest _).bind ?_)
  rw [if_neg (by simp)]
  refine hfragment.bind ?_
  rw [if_neg (by simp)]
  exact h.bind (reads_pure _ r)

theorem head_keyword (type : OperationType) (r : Text) :
    ∃ c, (keyword type ++ r).head? = some c ∧ isWhitespace c = false ∧ c ≠ 'f' := by
  cases type with
  | query => exact ⟨'q', rfl, by decide⟩
  | mutation => exact ⟨'m', rfl, by decide⟩
  | subscription => exact ⟨'s', rfl, by decide⟩

theorem keyword_ne_nil (type : OperationType) (r : Text) : keyword type ++ r ≠ [] := fun h => by
  obtain ⟨c, hc, -⟩ := head_keyword type r
  rw [h] at hc
  cases hc

theorem reads_keyword {t₁ t₂ : Text} (hw : Blank w) (hends : Ends isNameChar (w ++ t₁)) (ht₁ : Ends isWhitespace t₁)
    (hname : parseOperationName.Reads t₁ name (w' ++ (v ++ '{' :: t₂))) (hw' : Blank w') (hv : Skipped '(' v)
    (hset : parseSelections.Reads ('{' :: t₂) selections r) {gap : Text} (hgap : Blank gap) (before : List Definition) :
    (parseDefinition parseSelections before).Reads (gap ++ (keyword type ++ (w ++ t₁)))
      (before ++ [.operation type name selections]) r := by
  obtain ⟨c, hc, hspace, hf⟩ := head_keyword type (w ++ t₁)
  have ht : Ends isWhitespace (keyword type ++ (w ++ t₁)) := ends_of_head? hc hspace
  exact reads_operation hgap hc hspace hf
    (reads_parseOperation ht (reads_parseOperationType type (Ends.isLetter hends)) hw ht₁ hname hw' hv hset) before

theorem reads_isFragment (hr : Ends isLetter r) : isFragment.Reads (fragment ++ r) true (fragment ++ r) := by
  refine (reads_peek _).bind ?_
  rw [if_pos (by rfl)]
  refine (reads_peekWord _).bind ?_
  rw [takeWhile_of_ends (List.all_eq_true.1 (by decide)) hr]
  exact reads_pure _ _

/-- A definition, whatever was read before it. -/
theorem DefinitionAt.read (h : DefinitionAt definition t r) : Enough fun gas stack => ∀ before gap, Blank gap →
    (parseDefinition (GraphQL.parseSelections gas (parseValue gas) stack 0) before).Reads (gap ++ t)
      (before ++ [definition]) r := by
  cases h with
  | shorthand hset =>
    obtain ⟨t, rfl⟩ := hset.set_head
    have hnone : Skipped '(' [] := .inl rfl
    have htype : parseOperationType.Reads ('{' :: t) .query ([] ++ '{' :: t) := by
      refine (reads_peekWord _).bind ?_
      rw [show ('{' :: t).takeWhile isLetter = [] from rfl, if_neg (by decide), if_neg (by decide), if_neg (by decide)]
      exact reads_pure _ _
    have hname : parseOperationName.Reads ('{' :: t) [] ([] ++ ([] ++ '{' :: t)) := reads_noName hnone
    refine Enough.mono hset.read fun gas stack hread before gap hgap => ?_
    refine reads_operation hgap rfl (by decide) (by decide) ?_ before
    exact reads_parseOperation (ends_cons (by decide) t) htype blank_nil
      (ends_cons (by decide) t) hname blank_nil hnone hread
  | anonymous hw hv hset =>
    obtain ⟨t, rfl⟩ := hset.set_head
    refine Enough.mono hset.read fun gas stack hread before gap hgap => ?_
    exact reads_keyword hw (hw.ends_isNameChar (hv.ends (by decide) (by decide) t))
      (hv.ends (by decide) (by decide) t) (reads_noName hv)
      blank_nil hv hread hgap before
  | @operation type name selections w w' v t r hw hne hname hw' hv hset =>
    obtain ⟨t, rfl⟩ := hset.set_head
    have hreadName : parseOperationName.Reads (name ++ (w' ++ (v ++ '{' :: t))) name (w' ++ (v ++ '{' :: t)) := by
      obtain ⟨c, hc, hnameChar⟩ := hname.head (w' ++ (v ++ '{' :: t))
      have hbrace : (name ++ (w' ++ (v ++ '{' :: t))).head? ≠ some '{' := fun h => by
        rw [hc, Option.some.injEq] at h
        exact absurd (h ▸ hnameChar) (by decide)
      refine (reads_rest _).bind ?_
      rw [if_pos ⟨hbrace, by simp⟩]
      exact reads_parseName hname.2 (hw'.ends_isNameChar (hv.ends (by decide) (by decide) t))
    refine Enough.mono hset.read fun gas stack hread before gap hgap => ?_
    exact reads_keyword hw (hw.ends_of_ne_nil hne _) (hname.ends_isWhitespace _) hreadName hw' hv hread hgap before
  | @fragment name type selections w₁ w₂ w₃ w₄ d t r hw₁ hne₁ hname hw₂ hne₂ hw₃ hne₃ htype hw₄ hd hset =>
    obtain ⟨t, rfl⟩ := hset.set_head
    refine Enough.mono hset.read fun gas stack hread before gap hgap => ?_
    refine (reads_skipWhitespace hgap (ends_cons (by decide) _)).bind ((reads_rest _).bind ?_)
    rw [if_neg (by simp)]
    refine (reads_isFragment (Ends.isLetter (hw₁.ends_of_ne_nil hne₁ _))).bind ?_
    rw [if_pos rfl]
    refine Parser.Reads.bind ((reads_advance 8 _).bind ?_) (reads_pure _ r)
    refine (reads_skipWhitespace hw₁ (hname.ends_isWhitespace _)).bind
      ((reads_parseName hname.2 (hw₂.ends_of_ne_nil hne₂ _)).bind ?_)
    rw [if_neg hname.1]
    refine (reads_skipWhitespace hw₂ (ends_cons (by decide) _)).bind ((reads_peekWord _).bind ?_)
    rw [if_neg (by simp [takeWhile_on hw₃ hne₃])]
    refine (reads_advance 2 _).bind ((reads_skipWhitespace hw₃ (htype.ends_isWhitespace _)).bind ?_)
    refine (reads_parseName htype.2 (hw₄.ends_isNameChar (hd.ends (by decide) (by decide) t))).bind ?_
    rw [if_neg htype.1]
    refine (reads_skipWhitespace hw₄ (hd.ends (by decide) (by decide) t)).bind ((reads_peek _).bind ?_)
    refine (reads_skipped hd (by decide)).bind
      ((reads_noWhitespace (ends_cons (by decide) _)).bind ((reads_peek _).bind ?_))
    rw [List.head?_cons, if_neg (by simp)]
    exact hread.bind (reads_pure _ r)

theorem DefinitionAt.ne_nil (h : DefinitionAt definition t r) : t ≠ [] := by
  cases h with
  | shorthand hset =>
    obtain ⟨t, rfl⟩ := hset.set_head
    simp
  | anonymous => exact keyword_ne_nil _ _
  | operation => exact keyword_ne_nil _ _
  | fragment => simp

theorem DefinitionsAt.ne_nil (h : DefinitionsAt definitions t) : t ≠ [] := by
  cases h with
  | last h => exact h.ne_nil
  | next h _ _ => exact h.ne_nil

theorem DefinitionsAt.read (h : DefinitionsAt definitions t) :
    Enough fun gas stack => ∀ rounds, definitions.length < rounds → ∀ before gap, Blank gap →
    (loop (fun t => t = [])
      (parseDefinition (GraphQL.parseSelections gas (parseValue gas) stack 0)) rounds before).Reads (gap ++ t)
      (before ++ definitions) [] := by
  induction h with
  | @last d t h =>
    refine h.read.mono fun gas stack hread rounds hrounds before gap hgap => ?_
    obtain ⟨rounds, rfl⟩ : ∃ k, rounds = k + 2 := ⟨rounds - 2, by simp at hrounds; omega⟩
    exact reads_loop_round (by simp [h.ne_nil]) (hread before gap hgap) (reads_loop_stop (by simp) rounds _)
  | @next d definitions w t t' h hw hds ih =>
    refine (h.read.and ih).mono fun gas stack hread rounds hrounds before gap hgap => ?_
    obtain ⟨rounds, rfl⟩ : ∃ k, rounds = k + 1 := ⟨rounds - 1, by omega⟩
    have hrest := hread.2 rounds (by simpa using hrounds) (before ++ [d]) w hw
    rw [List.append_assoc] at hrest
    exact reads_loop_round (by simp [h.ne_nil]) (hread.1 before gap hgap) hrest

/-- **The parser reads what is written.** -/
theorem parseQuery_written {doc : Document} (h : Written doc t) :
    Enough fun gas stack => ∃ steps, parseQuery gas stack t = .ok doc ⟨[], steps⟩ := by
  obtain ⟨gap, t', htrimmed, hgap, hdefinitions⟩ := h
  refine (hdefinitions.read.and (.gas (doc.definitions.length + 1))).mono fun gas stack ⟨hread, hrounds⟩ => ?_
  have hdocument : (parseDocument gas (GraphQL.parseSelections gas (parseValue gas) stack 0)).Reads
    (gap ++ t') doc [] :=
    Parser.Reads.bind (hread gas hrounds [] gap hgap) (reads_pure _ [])
  obtain ⟨steps, hrun⟩ := hdocument 0
  refine ⟨steps, ?_⟩
  unfold parseQuery parseQueryWith
  simp only [htrimmed, List.append_eq_nil_iff, hdefinitions.ne_nil, and_false, if_false]
  exact hrun

end

def leafB : Selection := .field ['b'] [] [] []

def nodeA : Document := ⟨[.operation .query [] [.field ['a'] [] [] [leafB]]]⟩

/-- `{a{b}}` -/
def plainText : Text := ['{', 'a', '{', 'b', '}', '}']

/-- `query {a @d {b,}}` and a line break -/
def directiveText : Text := ['q', 'u', 'e', 'r', 'y', ' ', '{', 'a', ' ', '@', 'd', ' ', '{', 'b', ',', '}', '}', '\n']

theorem written_leafB (hw : Blank w) (r : Text) : SelectionAt 1 (.set [leafB]) ('{' :: 'b' :: (w ++ '}' :: r)) r := by
  have hname : NameAt ['b'] [] ('b' :: (w ++ '}' :: r)) ('}' :: r) :=
    .plain ⟨by simp, List.all_eq_true.1 (by decide)⟩ hw (hw.ends_isNameChar (ends_cons (by decide) _))
      (ends_cons (by decide) _) (by simp)
  exact .set (by decide) blank_nil (.next (.leaf hname (.none (by simp)) (by simp) (by simp)) blank_nil .done)

theorem written_nodeA (hw : Blank w) (hd : Skipped '@' d) (ht : SelectionAt 1 (.set [leafB]) ('{' :: t) ['}']) :
    SelectionAt 0 (.set [.field ['a'] [] [] [leafB]]) ('{' :: 'a' :: (w ++ (d ++ '{' :: t))) [] := by
  have hname : NameAt ['a'] [] ('a' :: (w ++ (d ++ '{' :: t))) (d ++ '{' :: t) :=
    .plain ⟨by simp, List.all_eq_true.1 (by decide)⟩ hw (hw.ends_isNameChar (hd.ends (by decide) (by decide) t))
      (hd.ends (by decide) (by decide) t)
      (fun h => absurd (hd.ends (p := fun c => c = ':') (by decide) (by decide) t ':' h) (by decide))
  have hopen : (d ++ '{' :: t).head? ≠ some '(' := fun h =>
    absurd (hd.ends (p := fun c => c = '(') (by decide) (by decide) t '(' h) (by decide)
  exact .set (by decide) blank_nil (.next (.node hname (.none hopen) hd ht) blank_nil .done)

mutual

/-- The fields and how deep they are nested. -/
def outline (depth : Nat) : Selection → List (Nat × Text)
  | .field name _ _ selections => (depth, name) :: outlines (depth + 1) selections
  | .fragmentSpread _ => []
  | .inlineFragment _ selections => outlines (depth + 1) selections

def outlines (depth : Nat) : List Selection → List (Nat × Text)
  | [] => []
  | s :: selections => outline depth s ++ outlines depth selections

end

/-- The outline of a query with one operation, if there is no error. -/
def outlineOf (query : String) : Option (List (Nat × Text)) :=
  match parseQuery 40 5 query.toList with
  | .ok ⟨[.operation _ _ selections]⟩ _ => some (outlines 1 selections)
  | _ => none

end GraphQL.Writing
