import ApiCerberus.GraphQL.Writing

/-!
# Documents that are printed

`printDocument` writes a document with single blanks between its tokens; the name of a spread directly follows its dots.
`parseQuery_printDocument`: the parser reads the document back, if it has a definition at all (`no_definitions`).
-/

namespace GraphQL.Writing

open Parsing

/-! ## Printing -/

mutual

/-- Lists and objects, with blanks between their parts. -/
def printValue : Value → Text
  | .scalar value => value
  | .list values => '[' :: printValues values
  | .object fields => '{' :: printPairs '}' fields

/-- With the closing bracket. -/
def printValues : List Value → Text
  | [] => [' ', ']']
  | v :: values => ' ' :: (printValue v ++ printValues values)

def printPairs (close : Char) : List (Text × Value) → Text
  | [] => [' ', close]
  | (name, v) :: pairs => ' ' :: (name ++ (' ' :: ':' :: ' ' :: (printValue v ++ printPairs close pairs)))

end

def ofArgument (arg : Argument) : Text × Value := (arg.name, arg.value)

def printArguments (args : List Argument) : Text :=
  if args = [] then [] else ' ' :: '(' :: printPairs ')' (args.map ofArgument)

def printName (name fieldAlias : Text) : Text :=
  if fieldAlias = [] then name else fieldAlias ++ (' ' :: ':' :: ' ' :: name)

mutual

/-- Without the blank before it. -/
def printSelection : Selection → Text
  | .field name fieldAlias args [] => printName name fieldAlias ++ printArguments args
  | .field name fieldAlias args (s :: selections) =>
    printName name fieldAlias ++ (printArguments args ++ ' ' :: '{' :: ' ' ::
      (printSelection s ++ printSelections selections))
  | .fragmentSpread name => '.' :: '.' :: '.' :: name
  | .inlineFragment type selections =>
    '.' :: '.' :: '.' :: ' ' :: 'o' :: 'n' :: ' ' :: (type ++ (' ' :: '{' :: printSelections selections))

/-- With the closing brace. -/
def printSelections : List Selection → Text
  | [] => [' ', '}']
  | s :: selections => ' ' :: (printSelection s ++ printSelections selections)

end

def printDefinition : Definition → Text
  | .operation type name selections =>
    keyword type ++ ((if name = [] then [] else ' ' :: name) ++ (' ' :: '{' :: printSelections selections))
  | .fragmentDefinition name type selections =>
    fragment ++ (' ' :: (name ++ (' ' :: 'o' :: 'n' :: ' ' :: (type ++ (' ' :: '{' :: printSelections selections)))))

/-- Definitions are separated by blanks. -/
def printDocument (doc : Document) : Text := Text.join ' ' (doc.definitions.map printDefinition)

/-! ## Documents -/

mutual

/-- What can be printed: scalars without quotes, fields with different names. -/
def Fair : Value → Prop
  | .scalar value => Bare value
  | .list values => FairValues values
  | .object fields => (fields.map Prod.fst).Nodup ∧ FairPairs fields

def FairValues : List Value → Prop
  | [] => True
  | v :: values => Fair v ∧ FairValues values

def FairPairs : List (Text × Value) → Prop
  | [] => True
  | (name, v) :: pairs => IsName name ∧ Fair v ∧ FairPairs pairs

end

mutual

/-- Inside `depth` selection sets. -/
def FairSelection (depth : Nat) : Selection → Prop
  | .field name fieldAlias args [] => IsName name ∧ (fieldAlias = [] ∨ IsName fieldAlias) ∧
    FairPairs (args.map ofArgument)
  | .field name fieldAlias args (s :: selections) =>
    IsName name ∧ (fieldAlias = [] ∨ IsName fieldAlias) ∧ FairPairs (args.map ofArgument) ∧ depth < defaultMaxDepth ∧
      FairSelection (depth + 1) s ∧ FairSelections (depth + 1) selections
  | .fragmentSpread name => IsName name
  | .inlineFragment type selections => IsName type ∧ depth < defaultMaxDepth ∧ FairSelections (depth + 1) selections

def FairSelections (depth : Nat) : List Selection → Prop
  | [] => True
  | s :: selections => FairSelection depth s ∧ FairSelections depth selections

end

/-- Names are names, and the selections are fair. -/
def FairDefinition : Definition → Prop
  | .operation _ name selections => (name = [] ∨ IsName name) ∧ FairSelections 1 selections
  | .fragmentDefinition name type selections => IsName name ∧ IsName type ∧ FairSelections 1 selections

/-! ## What is printed is written -/

variable {r : Text} {depth : Nat}

theorem blank_space : Blank [' '] := blank_singleton (by decide)

theorem setFields_of_nodup {fields pairs : List (Text × Value)} (h : ((fields ++ pairs).map Prod.fst).Nodup) :
    setFields fields pairs = fields ++ pairs := by
  induction pairs generalizing fields with
  | nil => exact (List.append_nil fields).symm
  | cons p pairs ih =>
    have hnew : fields.any (fun f => f.1 = p.1) = false := by
      rw [List.map_append, List.nodup_append] at h
      simp only [List.any_eq_false, decide_eq_true_eq]
      exact fun f hf heq => h.2.2 f.1 (List.mem_map_of_mem hf) p.1 (by simp) heq
    have hset : setField fields p.1 p.2 = fields ++ [p] := by
      rw [setField, if_neg (by simp [hnew])]
    have hnodup : ((fields ++ [p] ++ pairs).map Prod.fst).Nodup := by simpa using h
    have hrest := ih hnodup
    rw [List.append_assoc] at hrest
    change setFields (setField fields p.1 p.2) pairs = _
    rw [hset, hrest]
    rfl

theorem ends_bare (t : Text) : Ends (fun c => !endsScalar c) (' ' :: t) := ends_cons (by decide) t

mutual

theorem valueAt_print : ∀ (v : Value) {r : Text}, Fair v → Ends (fun c => !endsScalar c) r →
    ValueAt (.value v) (printValue v ++ r) r
  | .scalar _, _, hv, hr => .bare hv hr
  | .list values, r, hv, _ => by
    obtain ⟨t, ht, hitems⟩ := itemsAt_print values (r := r) hv
    rw [printValue, List.cons_append, ht]
    exact .list blank_space hitems
  | .object fields, r, hv, _ => by
    obtain ⟨t, ht, hpairs⟩ := pairsAt_print '}' fields (r := r) hv.2
    have hobject := ValueAt.object blank_space hpairs
    have hfields : setFields [] fields = fields := setFields_of_nodup (by simpa using hv.1)
    rw [hfields] at hobject
    rw [printValue, List.cons_append, ht]
    exact hobject

/-- Behind a blank. -/
theorem itemsAt_print : ∀ (values : List Value) {r : Text}, FairValues values →
    ∃ t, printValues values ++ r = ' ' :: t ∧ ValueAt (.items values) t (']' :: r)
  | [], r, _ => ⟨']' :: r, rfl, .noItems⟩
  | v :: values, r, hv => by
    obtain ⟨t, ht, hitems⟩ := itemsAt_print values (r := r) hv.2
    have hfirst := valueAt_print v hv.1 (ends_bare t)
    refine ⟨printValue v ++ ' ' :: t, ?_, .item (w := [' ']) hfirst blank_space hitems⟩
    rw [printValues, List.cons_append, List.append_assoc, ht]

theorem pairsAt_print : ∀ (close : Char) (pairs : List (Text × Value)) {r : Text}, FairPairs pairs →
    ∃ t, printPairs close pairs ++ r = ' ' :: t ∧ ValueAt (.pairs close pairs) t (close :: r)
  | close, [], r, _ => ⟨close :: r, rfl, .noPairs⟩
  | close, (name, v) :: pairs, r, hv => by
    obtain ⟨t, ht, hpairs⟩ := pairsAt_print close pairs (r := r) hv.2.2
    have hfirst := valueAt_print v hv.2.1 (ends_bare t)
    refine ⟨name ++ ([' '] ++ ':' :: ([' '] ++ (printValue v ++ ' ' :: t))), ?_,
      .pair hv.1 blank_space blank_space hfirst blank_space hpairs⟩
    rw [printPairs]
    simp [ht]

end

/-- What stands behind a selection and a blank. -/
def Follows (t : Text) : Prop := ∃ c, t.head? = some c ∧ (isNameChar c = true ∨ c = '.' ∨ c = '}')

variable {t : Text}

theorem Follows.ends {p : Char → Bool} (h : Follows t)
    (hp : ∀ c, p c = true → isNameChar c = false ∧ c ≠ '.' ∧ c ≠ '}') : Ends p t := by
  obtain ⟨c, hc, hstart⟩ := h
  refine ends_of_head? hc ?_
  refine Bool.eq_false_iff.2 fun htrue => ?_
  obtain ⟨h1, h2, h3⟩ := hp c htrue
  rcases hstart with hname | rfl | rfl
  · rw [h1] at hname
    cases hname
  · exact h2 rfl
  · exact h3 rfl

theorem Follows.head_ne (h : Follows t) {c : Char} (hc : isNameChar c = false ∧ c ≠ '.' ∧ c ≠ '}') :
    t.head? ≠ some c := by
  intro heq
  have hends : Ends (fun c' => c' = c) t := h.ends fun c' hc' => (of_decide_eq_true hc' : c' = c) ▸ hc
  exact absurd (hends c heq) (by simp)

theorem Follows.isWhitespace (h : Follows t) : Ends isWhitespace t := by
  refine h.ends fun c hc => ⟨Bool.eq_false_iff.2 fun hname => ?_, ?_, ?_⟩
  · rw [isWhitespace_of_isNameChar hname] at hc
    cases hc
  · rintro rfl
    exact absurd hc (by decide)
  · rintro rfl
    exact absurd hc (by decide)

theorem nameAt_print {name fieldAlias t : Text} (hname : IsName name) (halias : fieldAlias = [] ∨ IsName fieldAlias)
    (ht : Ends isWhitespace t)
    (hcolon : t.head? ≠ some ':') : NameAt name fieldAlias (printName name fieldAlias ++ ' ' :: t) t := by
  have hends := blank_space.ends_of_ne_nil (by simp) t
  rcases halias with rfl | halias
  · exact .plain (w := [' ']) hname blank_space hends ht hcolon
  · rw [printName, if_neg halias.1, List.append_assoc]
    exact .aliased (w := [' ']) halias blank_space blank_space hname blank_space hends ht

theorem fieldAt_print {name fieldAlias t : Text} {args : List Argument} (hname : IsName name)
    (halias : fieldAlias = [] ∨ IsName fieldAlias)
    (hargs : FairPairs (args.map ofArgument)) (ht : Ends isWhitespace t) (hcolon : t.head? ≠ some ':')
    (hopen : t.head? ≠ some '(') :
    ∃ t', NameAt name fieldAlias (printName name fieldAlias ++ (printArguments args ++ ' ' :: t)) t' ∧
      ArgumentsAt args t' t := by
  by_cases hnil : args = []
  · subst hnil
    exact ⟨t, nameAt_print hname halias ht hcolon, .none hopen⟩
  · obtain ⟨t', ht', hpairs⟩ := pairsAt_print ')' (args.map ofArgument) (r := ' ' :: t) hargs
    have hclosed : ValueAt (.pairs ')' (args.map ofArgument)) t' (')' :: ([' '] ++ t)) := hpairs
    have harguments := ArgumentsAt.some blank_space hclosed blank_space ht
    rw [List.map_map, show toArgument ∘ ofArgument = id from rfl, List.map_id] at harguments
    refine ⟨'(' :: ' ' :: t', ?_, harguments⟩
    rw [printArguments, if_neg hnil, List.cons_append, List.cons_append, ht']
    exact nameAt_print hname halias (ends_cons (by decide) _) (by simp)

theorem setAt_print {selections : List Selection} (hdepth : depth < defaultMaxDepth)
    (ht : printSelections selections ++ r = ' ' :: t)
    (h : SelectionAt (depth + 1) (.selections selections) t ('}' :: r)) :
    SelectionAt depth (.set selections) ('{' :: (printSelections selections ++ r)) r := by
  rw [ht]
  exact .set hdepth blank_space h

mutual

/-- What is printed of a selection belongs to the grammar. -/
theorem selectionAt_print : ∀ (s : Selection) {depth : Nat} {t : Text}, FairSelection depth s → Follows t →
    ∃ w, Blank w ∧ SelectionAt depth (.selection s) (printSelection s ++ ' ' :: t) (w ++ t)
  | .field name fieldAlias args selections, depth, t, hs, ht => by
    have hselections := fun h : FairSelections (depth + 1) selections => selectionsAt_print selections (r := ' ' :: t) h
    cases selections with
    | nil =>
      obtain ⟨hname, halias, hargs⟩ := hs
      obtain ⟨t', hnameAt, hargsAt⟩ := fieldAt_print hname halias hargs ht.isWhitespace (ht.head_ne (by decide))
        (ht.head_ne (by decide))
      rw [printSelection, List.append_assoc]
      exact ⟨[], blank_nil, .leaf hnameAt hargsAt (ht.head_ne (by decide)) (ht.head_ne (by decide))⟩
    | cons s selections =>
      obtain ⟨hname, halias, hargs, hdepth, hs⟩ := hs
      obtain ⟨t₁, ht₁, -, hset⟩ := hselections hs
      obtain ⟨t', hnameAt, hargsAt⟩ :=
        fieldAt_print hname halias hargs (t := '{' :: (printSelections (s :: selections) ++ ' ' :: t))
        (ends_cons (by decide) _) (by simp) (by simp)
      have hnode := SelectionAt.node (d := []) hnameAt hargsAt (.inl rfl) (setAt_print hdepth ht₁ hset)
      refine ⟨[' '], blank_space, ?_⟩
      rw [printSelection]
      simpa [printSelections] using hnode
  | .fragmentSpread name, depth, t, hs, _ =>
    ⟨[' '], blank_space, .spread blank_nil hs (ends_cons (by decide) t) fun h => (nomatch h)⟩
  | .inlineFragment type selections, depth, t, hs, _ => by
    obtain ⟨t₁, ht₁, -, hset⟩ := selectionsAt_print selections (r := ' ' :: t) hs.2.2
    have hinline := SelectionAt.inline (d := []) blank_nil blank_space (by simp) hs.1 blank_space (.inl rfl)
      (setAt_print hs.2.1 ht₁ hset)
    refine ⟨[' '], blank_space, ?_⟩
    rw [printSelection]
    simpa using hinline

/-- Behind a blank. -/
theorem selectionsAt_print : ∀ (selections : List Selection) {depth : Nat} {r : Text}, FairSelections depth selections →
    ∃ t, printSelections selections ++ r = ' ' :: t ∧ Follows t ∧
      SelectionAt depth (.selections selections) t ('}' :: r)
  | [], _, r, _ => ⟨'}' :: r, rfl, ⟨'}', rfl, .inr (.inr rfl)⟩, .done⟩
  | s :: selections, depth, r, hs => by
    obtain ⟨t, ht, hfollows, hselections⟩ := selectionsAt_print selections (r := r) hs.2
    obtain ⟨w, hw, hselection⟩ := selectionAt_print s hs.1 hfollows
    obtain ⟨c, hc, hstart⟩ := hselection.head
    refine ⟨printSelection s ++ ' ' :: t, ?_, ⟨c, hc, hstart.imp_right .inl⟩, .next hselection hw hselections⟩
    rw [printSelections, List.cons_append, List.append_assoc, ht]

end

theorem definitionSet_print {selections : List Selection} (h : FairSelections 1 selections) (r : Text) :
    SelectionAt 0 (.set selections) ('{' :: (printSelections selections ++ r)) r := by
  obtain ⟨t, ht, -, hset⟩ := selectionsAt_print selections (r := r) h
  exact setAt_print (by decide) ht hset

theorem definitionAt_print {d : Definition} (h : FairDefinition d)
    (r : Text) : DefinitionAt d (printDefinition d ++ r) r := by
  cases d with
  | operation type name selections =>
    obtain ⟨hname, hselections⟩ := h
    have hset := definitionSet_print hselections r
    rw [printDefinition]
    rcases hname with rfl | hname
    · have hoperation : DefinitionAt (.operation type [] selections) _ r :=
        .anonymous (v := []) blank_space (.inl rfl) hset
      simpa using hoperation
    · have hoperation : DefinitionAt (.operation type name selections) _ r :=
        .operation (v := []) blank_space (by simp) hname blank_space (.inl rfl) hset
      simpa [hname.1] using hoperation
  | fragmentDefinition name type selections =>
    obtain ⟨hname, htype, hselections⟩ := h
    have hset := definitionSet_print hselections r
    have hfragment := DefinitionAt.fragment (d := []) blank_space (by simp) hname blank_space (by simp) blank_space
      (by simp) htype blank_space
      (.inl rfl) hset
    rw [printDefinition]
    simpa using hfragment

theorem definitionsAt_print {definitions : List Definition} (hne : definitions ≠ [])
    (h : ∀ d ∈ definitions, FairDefinition d) :
    DefinitionsAt definitions (Text.join ' ' (definitions.map printDefinition)) := by
  induction definitions with
  | nil => exact absurd rfl hne
  | cons d definitions ih =>
    obtain ⟨hd, hdefinitions⟩ := List.forall_mem_cons.1 h
    cases definitions with
    | nil => simpa using DefinitionsAt.last (definitionAt_print hd [])
    | cons d' definitions =>
      rw [List.map_cons, List.map_cons, Text.join_cons_cons, ← List.map_cons]
      exact .next (w := [' ']) (definitionAt_print hd _) blank_space (ih (by simp) hdefinitions)

theorem printSelections_last (selections : List Selection) : ∃ t, printSelections selections = t ++ ['}'] := by
  induction selections with
  | nil => exact ⟨[' '], rfl⟩
  | cons s selections ih =>
    obtain ⟨t, ht⟩ := ih
    exact ⟨' ' :: (printSelection s ++ t), by simp [printSelections, ht]⟩

theorem printDefinition_last (d : Definition) : ∃ t, printDefinition d = t ++ ['}'] := by
  cases d with
  | operation type name selections =>
    obtain ⟨t, ht⟩ := printSelections_last selections
    exact ⟨keyword type ++ ((if name = [] then [] else ' ' :: name) ++ (' ' :: '{' :: t)),
      by simp [printDefinition, ht]⟩
  | fragmentDefinition name type selections =>
    obtain ⟨t, ht⟩ := printSelections_last selections
    exact ⟨fragment ++ (' ' :: (name ++ (' ' :: 'o' :: 'n' :: ' ' :: (type ++ (' ' :: '{' :: t))))),
      by simp [printDefinition, ht]⟩

theorem join_last {ts : List Text} (hne : ts ≠ []) (h : ∀ t ∈ ts, ∃ s, t = s ++ ['}']) :
    ∃ s, Text.join ' ' ts = s ++ ['}'] := by
  induction ts with
  | nil => exact absurd rfl hne
  | cons t ts ih =>
    obtain ⟨⟨s, rfl⟩, hts⟩ := List.forall_mem_cons.1 h
    cases ts with
    | nil => exact ⟨s, by simp⟩
    | cons t' ts =>
      obtain ⟨s', hs'⟩ := ih (by simp) hts
      exact ⟨s ++ ('}' :: ' ' :: s'), by simp [hs']⟩

theorem printDefinition_head (d : Definition) (t : Text) : ∃ c, (printDefinition d ++ t).head? = some c ∧
    Text.isSpace c = false := by
  cases d with
  | operation type name selections =>
    cases type with
    | query => exact ⟨'q', rfl, by decide⟩
    | mutation => exact ⟨'m', rfl, by decide⟩
    | subscription => exact ⟨'s', rfl, by decide⟩
  | fragmentDefinition name type selections => exact ⟨'f', rfl, by decide⟩

theorem trimmed_print {definitions : List Definition} (hne : definitions ≠ []) :
    Text.trimSpace (Text.join ' ' (definitions.map printDefinition)) =
      Text.join ' ' (definitions.map printDefinition) := by
  have hne' : definitions.map printDefinition ≠ [] := by simpa using hne
  obtain ⟨s, hs⟩ := join_last hne' fun t ht => by
    obtain ⟨d, -, rfl⟩ := List.mem_map.1 ht
    exact printDefinition_last d
  refine Text.trim_self ?_ ?_
  · obtain ⟨d, definitions, rfl⟩ := List.exists_cons_of_ne_nil hne
    obtain ⟨t, ht⟩ : ∃ t, Text.join ' ' ((d :: definitions).map printDefinition) = printDefinition d ++ t := by
      cases definitions with
      | nil => exact ⟨[], by simp⟩
      | cons d' definitions => exact ⟨_, Text.join_cons_cons⟩
    obtain ⟨c, hc, hspace⟩ := printDefinition_head d t
    intro c' hc'
    rw [ht, hc] at hc'
    cases hc'
    exact hspace
  · rw [hs]
    intro c hc
    obtain rfl : '}' = c := by simpa using hc
    decide

/-- **Round trip.** -/
theorem parseQuery_printDocument (doc : Document) (hne : doc.definitions ≠ [])
    (h : ∀ d ∈ doc.definitions, FairDefinition d) :
    Enough fun gas stack => ∃ steps, parseQuery gas stack (printDocument doc) = .ok doc ⟨[], steps⟩ :=
  parseQuery_written ⟨[], _, trimmed_print hne, Writing.blank_nil, definitionsAt_print hne h⟩

/-- `query q { x : a ( k : [ 1 { } ] ) { b } ...f }` -/
def printed : Document := ⟨[.operation .query ['q'] [
  .field ['a'] ['x'] [⟨['k'], .list [.scalar ['1'], .object []]⟩] [.field ['b'] [] [] []], .fragmentSpread ['f']]]⟩

theorem parseQuery_printDocument_printed : printDocument printed =
    "query q \x7b x : a ( k : [ 1 \x7b \x7d ] ) \x7b b \x7d ...f \x7d".toList ∧
    ∃ gas stack steps, parseQuery gas stack (printDocument printed) = .ok printed ⟨[], steps⟩ := by
  have hname : ∀ c, isNameChar c = true → IsName [c] := fun c hc => ⟨by simp, by simpa using hc⟩
  have hbare : Bare ['1'] := ⟨by simp, List.forall_mem_singleton.2 (by decide), by simp⟩
  have hfair : ∀ d ∈ printed.definitions, FairDefinition d := by
    refine List.forall_mem_singleton.2 ⟨.inr (hname 'q' (by decide)), ?_, hname 'f' (by decide), trivial⟩
    exact ⟨hname 'a' (by decide), .inr (hname 'x' (by decide)),
      ⟨hname 'k' (by decide), ⟨hbare, ⟨List.nodup_nil, trivial⟩, trivial⟩, trivial⟩,
      by decide, ⟨hname 'b' (by decide), .inl rfl, trivial⟩, trivial⟩
  obtain ⟨g, hg⟩ := parseQuery_printDocument printed (by simp [printed]) hfair
  exact ⟨by decide, g, g, hg g g (Nat.le_refl g) (Nat.le_refl g)⟩

/-- Without a definition there is no text. -/
theorem no_definitions : printDocument ⟨[]⟩ = [] ∧ ∀ gas stack, parseQuery gas stack (printDocument ⟨[]⟩) =
    .fail .empty ⟨[], 0⟩ :=
  ⟨rfl, fun _ _ => rfl⟩

end GraphQL.Writing
