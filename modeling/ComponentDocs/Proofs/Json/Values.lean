import ComponentDocs.Proofs.Json.Tokens

/-!
# Reading JSON that was written

A value that is written over several lines reads back as itself, with the fields of its
objects sorted by name.
-/

namespace ComponentDocs.Json

open Number

@[elab_as_elim]
theorem nestedInduction {motive : Json → Prop} (value : Json) (null : motive .null)
    (bool : ∀ value, motive (.bool value)) (integer : ∀ value, motive (.integer value))
    (float : ∀ value, motive (.float value)) (string : ∀ value, motive (.string value))
    (array : ∀ items, (∀ item ∈ items, motive item) → motive (.array items))
    (object : ∀ fields, (∀ field ∈ fields, motive field.2) → motive (.object fields)) :
    motive value := by
  apply @Json.rec motive (fun items => ∀ item ∈ items, motive item)
    (fun fields => ∀ field ∈ fields, motive field.2) (fun field => motive field.2)
  · exact null
  · exact bool
  · exact integer
  · exact float
  · exact string
  · exact array
  · exact object
  · exact List.forall_mem_nil _
  · intro item items hitem hitems
    exact List.forall_mem_cons.mpr ⟨hitem, hitems⟩
  · exact List.forall_mem_nil _
  · intro field fields hfield hfields
    exact List.forall_mem_cons.mpr ⟨hfield, hfields⟩
  · intro name value hvalue
    exact hvalue

mutual

def sorted : Json → Json
  | .null => .null
  | .bool value => .bool value
  | .integer value => .integer value
  | .float value => .float value
  | .string value => .string value
  | .array items => .array (sortedItems items)
  | .object fields => ofFields (sortedFields fields)

def sortedItems : List Json → List Json
  | [] => []
  | item :: rest => item.sorted :: sortedItems rest

def sortedFields : List (Text × Json) → List (Text × Json)
  | [] => []
  | (name, value) :: rest => (name, value.sorted) :: sortedFields rest

end

mutual

def IsLegible : Json → Prop
  | .null | .bool _ | .string _ => True
  | .integer value => -2 ^ 63 ≤ value ∧ value < 2 ^ 64
  | .float value => ReadsBack value
  | .array items => AreLegible items
  | .object fields => FieldsLegible fields

def AreLegible : List Json → Prop
  | [] => True
  | item :: rest => item.IsLegible ∧ AreLegible rest

def FieldsLegible : List (Text × Json) → Prop
  | [] => True
  | (_, value) :: rest => value.IsLegible ∧ FieldsLegible rest

end

mutual

def nesting : Json → Nat
  | .null | .bool _ | .integer _ | .float _ | .string _ => 0
  | .array items => itemsNesting items + 1
  | .object fields => fieldsNesting fields + 1

def itemsNesting : List Json → Nat
  | [] => 0
  | item :: rest => max item.nesting (itemsNesting rest)

def fieldsNesting : List (Text × Json) → Nat
  | [] => 0
  | (_, value) :: rest => max value.nesting (fieldsNesting rest)

end

theorem sortedItems_eq_map (items : List Json) : sortedItems items = items.map sorted := by
  induction items with
  | nil => rfl
  | cons item items ih => rw [sortedItems, ih, List.map_cons]

theorem sortedFields_eq_map (fields : List (Text × Json)) :
    sortedFields fields = fields.map fun field => (field.1, field.2.sorted) := by
  induction fields with
  | nil => rfl
  | cons field fields ih => rw [sortedFields, ih, List.map_cons]

variable {items : List Json} {fields : List (Text × Json)} {depth fuel : Nat}
  {gap rest text more : Text} {c : Char} {value : Json}

theorem areLegible_iff :
    AreLegible items ↔ ∀ item ∈ items, item.IsLegible := by
  induction items with
  | nil => simp [AreLegible]
  | cons item items ih => simp [AreLegible, ih]

theorem fieldsLegible_iff :
    FieldsLegible fields ↔ ∀ field ∈ fields, field.2.IsLegible := by
  induction fields with
  | nil => simp [FieldsLegible]
  | cons field fields ih => simp [FieldsLegible, ih]

theorem itemsNesting_le_iff :
    itemsNesting items ≤ depth ↔ ∀ item ∈ items, item.nesting ≤ depth := by
  induction items with
  | nil => simp [itemsNesting]
  | cons item items ih => simp [itemsNesting, ih]

theorem fieldsNesting_le_iff :
    fieldsNesting fields ≤ depth ↔ ∀ field ∈ fields, field.2.nesting ≤ depth := by
  induction fields with
  | nil => simp [fieldsNesting]
  | cons field fields ih => simp [fieldsNesting, ih]

/-! ## Values -/

theorem readValue_gap (hgap : gap.all isBlank = true) (fuel depth : Nat)
    (text : Text) : readValue fuel depth (gap ++ text) = readValue fuel depth text := by
  cases fuel with
  | zero => rw [readValue, readValue]
  | succ fuel => rw [readValue, readValue, skipBlanks_append hgap]

theorem readValue_minus (fuel depth : Nat) (text : Text) :
    readValue (fuel + 1) depth ('-' :: text) = readNumber true text := by
  simp [readValue, skipBlanks_cons (c := '-') (by decide)]

theorem readValue_digit (hc : c.isDigit = true) (fuel depth : Nat) (text : Text) :
    readValue (fuel + 1) depth (c :: text) = readNumber false (c :: text) := by
  have hne (d : Char) (hd : d.isDigit = false) : c ≠ d := by
    rintro rfl
    rw [hc] at hd
    contradiction
  rw [readValue, skipBlanks_cons (isBlank_of_isDigit hc)]
  split
  · contradiction
  · next heq => exact absurd (List.cons.inj heq).1 (hne _ (by decide))
  · next heq => exact absurd (List.cons.inj heq).1 (hne _ (by decide))
  · next heq => exact absurd (List.cons.inj heq).1 (hne _ (by decide))
  · next heq => exact absurd (List.cons.inj heq).1 (hne _ (by decide))
  · next heq =>
      cases heq
      rw [if_pos hc]

theorem readValue_null (fuel depth : Nat) (rest : Text) :
    readValue (fuel + 1) depth ("null".toList ++ rest) = some (.null, rest) := by
  simp [readValue, skipBlanks, isBlank, Text.after?, List.isPrefixOf]

theorem readValue_bool (value : Bool) (level fuel depth : Nat) (rest : Text) :
    readValue (fuel + 1) depth (prettyAt level (.bool value) ++ rest) =
      some (.bool value, rest) := by
  cases value <;> simp [prettyAt, readValue, skipBlanks, isBlank, Text.after?, List.isPrefixOf]

theorem readValue_integerText {value : Int} (hleast : -2 ^ 63 ≤ value) (hgreatest : value < 2 ^ 64)
    (fuel depth : Nat) (hrest : Ends rest) :
    readValue (fuel + 1) depth (integerText value ++ rest) = some (.integer value, rest) := by
  have hread := readNumber_natAbs hleast hgreatest hrest
  by_cases hsign : value < 0
  · rw [decide_eq_true hsign] at hread
    rw [integerText, if_pos hsign, List.cons_append, readValue_minus, hread]
  · rw [decide_eq_false hsign] at hread
    rw [integerText, if_neg hsign]
    match htext : Nat.toDigits 10 value.natAbs with
    | [] => exact absurd htext Nat.toDigits_ne_nil
    | c :: more =>
        have hc : c.isDigit = true :=
          Nat.isDigit_of_mem_toDigits (by decide) (by decide) (htext ▸ List.mem_cons_self)
        rw [htext] at hread
        rw [List.cons_append, readValue_digit hc, ← List.cons_append, hread]

theorem readValue_float {value : Binary64} (h : ReadsBack value) (fuel depth : Nat)
    (hrest : Ends rest) :
    readValue (fuel + 1) depth (floatFormat.write value ++ rest) = some (.float value, rest) := by
  rcases h.text with ⟨digits, htext, hread⟩ | ⟨c, more, htext, hc, hread⟩
  · rw [htext, List.cons_append, readValue_minus, readNumber_append true hrest hread,
      List.nil_append]
  · rw [htext, List.cons_append, readValue_digit hc, ← List.cons_append,
      readNumber_append false hrest hread, List.nil_append]

theorem readValue_quote (text : Text) (fuel depth : Nat) (rest : Text) :
    readValue (fuel + 1) depth (quote text ++ rest) = some (.string text, rest) := by
  have hstring := readString_quoted text rest
  simp [quote, readValue, skipBlanks_cons (c := '"') (by decide), hstring]

theorem head_bracketed {opening closing : Char} (level : Nat) (lines : List Text) :
    ∃ more, bracketed [opening] [closing] level lines = opening :: more := by
  rw [bracketed]
  split_ifs
  · exact ⟨_, rfl⟩
  · exact ⟨_, rfl⟩

theorem head_prettyAt (level : Nat) (h : value.IsLegible) :
    ∃ c more, prettyAt level value = c :: more ∧ isBlank c = false ∧ c ≠ ']' := by
  have hdigit {c : Char} (hc : c.isDigit = true) : isBlank c = false ∧ c ≠ ']' := by
    refine ⟨isBlank_of_isDigit hc, ?_⟩
    rintro rfl
    contradiction
  cases value with
  | null => exact ⟨'n', _, rfl, by decide, by decide⟩
  | bool value => cases value <;> exact ⟨_, _, rfl, by decide, by decide⟩
  | integer value =>
      rw [prettyAt, integerText]
      split_ifs
      · exact ⟨'-', _, rfl, by decide, by decide⟩
      · match htext : Nat.toDigits 10 value.natAbs with
        | [] => exact absurd htext Nat.toDigits_ne_nil
        | c :: more =>
            exact ⟨c, more, rfl, hdigit (Nat.isDigit_of_mem_toDigits (by decide) (by decide)
              (htext ▸ List.mem_cons_self))⟩
  | float value =>
      rw [prettyAt]
      rw [IsLegible] at h
      rcases h.text with ⟨digits, htext, -⟩ | ⟨c, more, htext, hc, -⟩
      · exact ⟨'-', digits, htext, by decide, by decide⟩
      · exact ⟨c, more, htext, hdigit hc⟩
  | string value => exact ⟨'"', _, rfl, by decide, by decide⟩
  | array items =>
      obtain ⟨more, hmore⟩ := head_bracketed level (prettyItems (level + 1) items)
      exact ⟨'[', more, hmore, by decide, by decide⟩
  | object fields =>
      obtain ⟨more, hmore⟩ := head_bracketed level (prettyFields (level + 1) fields)
      exact ⟨'\x7b', more, hmore, by decide, by decide⟩

def stacked (level : Nat) (lines : List Text) : Text :=
  Text.join ("," ++ newLine level) lines

theorem stacked_cons_cons (level : Nat) (line next : Text) (lines : List Text) :
    stacked level (line :: next :: lines) =
      line ++ ',' :: (newLine level ++ stacked level (next :: lines)) := by
  simp [stacked, Text.join]

theorem bracketed_cons (opening closing : Char) (level : Nat) (line : Text) (lines : List Text)
    (rest : Text) :
    bracketed [opening] [closing] level (line :: lines) ++ rest =
      opening :: (newLine (level + 1) ++ (stacked (level + 1) (line :: lines) ++
        (newLine level ++ closing :: rest))) := by
  simp [bracketed, stacked]

theorem ends_newLine (level : Nat) (rest : Text) : Ends (newLine level ++ rest) := by
  rintro c hc
  cases hc
  exact .inr rfl

theorem ends_comma (rest : Text) : Ends (',' :: rest) := by
  rintro c hc
  cases hc
  exact .inl rfl

theorem readItems_last {item : Json} (level : Nat)
    (h : readValue fuel depth text = some (item, newLine level ++ ']' :: rest)) :
    readItems (fuel + 1) depth text = some ([item], rest) := by
  rw [readItems, h]
  simp [skipBlanks_append (all_isBlank_newLine level), skipBlanks_cons (c := ']') (by decide)]

theorem readItems_comma {item : Json} (h : readValue fuel depth text = some (item, ',' :: rest)) :
    readItems (fuel + 1) depth text =
      (readItems fuel depth rest).map fun (items, behind) => (item :: items, behind) := by
  rw [readItems, h]
  simp [skipBlanks_cons (c := ',') (by decide)]

theorem readFields_name (hgap : gap.all isBlank = true) (name : Text)
    (h : readValue fuel depth text = some (value, rest)) (hrest : skipBlanks rest = c :: more) :
    readFields (fuel + 1) depth (gap ++ (quote name ++ ": ".toList ++ text)) =
      if c = ',' then
        (readFields fuel depth more).map fun (fields, behind) => ((name, value) :: fields, behind)
      else if c = '\x7d' then some ([(name, value)], more)
      else none := by
  have hblank : [' '].all isBlank = true := by decide
  have hspace : readValue fuel depth (' ' :: text) = readValue fuel depth text :=
    readValue_gap hblank fuel depth text
  have hstring := readString_quoted name (':' :: ' ' :: text)
  rw [readFields, skipBlanks_append hgap]
  simp only [quote, List.cons_append, List.append_assoc, List.nil_append,
    show ": ".toList = [':', ' '] from rfl, skipBlanks_cons (c := '"') (by decide), hstring,
    skipBlanks_cons (c := ':') (by decide), hspace, h, hrest]
  split_ifs with hcomma hclose
  · simp [hcomma]
  · simp [hclose]
  · simp [hcomma, hclose]

theorem readFields_last (hgap : gap.all isBlank = true) {name : Text} (level : Nat)
    (h : readValue fuel depth text = some (value, newLine level ++ '\x7d' :: rest)) :
    readFields (fuel + 1) depth (gap ++ (quote name ++ ": ".toList ++ text)) =
      some ([(name, value)], rest) := by
  have hclose : skipBlanks (newLine level ++ '\x7d' :: rest) = '\x7d' :: rest := by
    rw [skipBlanks_append (all_isBlank_newLine level), skipBlanks_cons (by decide)]
  rw [readFields_name hgap name h hclose, if_neg (by decide), if_pos rfl]

theorem readFields_comma (hgap : gap.all isBlank = true) {name : Text}
    (h : readValue fuel depth text = some (value, ',' :: rest)) :
    readFields (fuel + 1) depth (gap ++ (quote name ++ ": ".toList ++ text)) =
      (readFields fuel depth rest).map fun (fields, behind) =>
        ((name, value) :: fields, behind) := by
  rw [readFields_name hgap name h (skipBlanks_cons (by decide) rest), if_pos rfl]

theorem readValue_array (htext : skipBlanks text = c :: more) (hc : c ≠ ']') (fuel depth : Nat) :
    readValue (fuel + 1) (depth + 1) ('[' :: text) =
      (readItems fuel depth text).map fun (items, behind) => (.array items, behind) := by
  simp [readValue, skipBlanks_cons (c := '[') (by decide), htext, hc]

theorem readValue_object (htext : skipBlanks text = c :: more) (hc : c ≠ '\x7d')
    (fuel depth : Nat) :
    readValue (fuel + 1) (depth + 1) ('\x7b' :: text) =
      (readFields fuel depth text).map fun (fields, behind) => (ofFields fields, behind) := by
  simp [readValue, skipBlanks_cons (c := '\x7b') (by decide), htext, hc]

theorem length_newLine (level : Nat) : (newLine level).length = 2 * level + 1 := by
  simp [newLine]

theorem length_stacked_cons_cons (level : Nat) (line next : Text) (lines : List Text) :
    line.length + (stacked level (next :: lines)).length + 2 ≤
      (stacked level (line :: next :: lines)).length := by
  rw [stacked_cons_cons]
  simp only [List.length_append, List.length_cons, length_newLine]
  omega

theorem length_bracketed_cons (opening closing : Char) (level : Nat) (line : Text)
    (lines : List Text) :
    (stacked (level + 1) (line :: lines)).length + 4 ≤
      (bracketed [opening] [closing] level (line :: lines)).length := by
  rw [← List.append_nil (bracketed _ _ _ _), bracketed_cons]
  simp only [List.length_append, List.length_cons, length_newLine]
  omega

/-! ## Brackets -/

/-- A written value is read up to its end.  The fuel covers its text, and the depth its
brackets. -/
def IsRead (value : Json) : Prop :=
  ∀ ⦃level fuel depth : Nat⦄ ⦃rest : Text⦄, value.nesting ≤ depth →
    (prettyAt level value).length ≤ fuel → Ends rest →
      readValue (fuel + 1) depth (prettyAt level value ++ rest) = some (value.sorted, rest)

theorem readItems_stacked (hne : items ≠ []) (hitems : ∀ item ∈ items, item.IsRead) {level : Nat}
    (hdepth : ∀ item ∈ items, item.nesting ≤ depth)
    (hfuel : (stacked level (prettyItems level items)).length ≤ fuel)
    (hgap : gap.all isBlank = true) (closing : Nat) (rest : Text) :
    readItems (fuel + 2) depth (gap ++ (stacked level (prettyItems level items) ++
      (newLine closing ++ ']' :: rest))) = some (items.map sorted, rest) := by
  induction items generalizing fuel gap with
  | nil => contradiction
  | cons item items ih =>
      obtain ⟨hitem, hitems⟩ := List.forall_mem_cons.mp hitems
      obtain ⟨hnesting, hdepth⟩ := List.forall_mem_cons.mp hdepth
      match items with
      | [] =>
          simp only [prettyItems, stacked, Text.join] at hfuel ⊢
          apply readItems_last closing
          rw [readValue_gap hgap]
          exact hitem hnesting (by omega) (ends_newLine closing _)
      | next :: items =>
          have hlength := length_stacked_cons_cons level (prettyAt level item)
            (prettyAt level next) (prettyItems level items)
          simp only [prettyItems] at hfuel ⊢
          obtain ⟨fuel, rfl⟩ : ∃ less, fuel = less + 1 := ⟨fuel - 1, by omega⟩
          have hless : (stacked level (prettyItems level (next :: items))).length ≤ fuel := by
            simp only [prettyItems]
            omega
          have hmore := ih (List.cons_ne_nil _ _) hitems hdepth hless (all_isBlank_newLine level)
          simp only [prettyItems] at hmore
          rw [stacked_cons_cons]
          simp only [List.append_assoc, List.cons_append]
          rw [readItems_comma ((readValue_gap hgap _ _ _).trans
            (hitem hnesting (by omega) (ends_comma _))), hmore]
          rfl

theorem readFields_stacked (hne : fields ≠ []) (hfields : ∀ field ∈ fields, field.2.IsRead)
    {level : Nat} (hdepth : ∀ field ∈ fields, field.2.nesting ≤ depth)
    (hfuel : (stacked level (prettyFields level fields)).length ≤ fuel)
    (hgap : gap.all isBlank = true) (closing : Nat) (rest : Text) :
    readFields (fuel + 2) depth (gap ++ (stacked level (prettyFields level fields) ++
      (newLine closing ++ '\x7d' :: rest))) =
      some (fields.map fun field => (field.1, field.2.sorted), rest) := by
  induction fields generalizing fuel gap with
  | nil => contradiction
  | cons field fields ih =>
      obtain ⟨name, value⟩ := field
      obtain ⟨hvalue, hfields⟩ := List.forall_mem_cons.mp hfields
      obtain ⟨hnesting, hdepth⟩ := List.forall_mem_cons.mp hdepth
      have hline : (prettyAt level value).length ≤
          (quote name ++ ": ".toList ++ prettyAt level value).length := by
        rw [List.length_append]
        exact Nat.le_add_left _ _
      match fields with
      | [] =>
          simp only [prettyFields, stacked, Text.join] at hfuel ⊢
          rw [List.append_assoc (quote name ++ ": ".toList)]
          apply readFields_last hgap closing
          exact hvalue hnesting (by dsimp only; omega) (ends_newLine closing _)
      | (following, more) :: fields =>
          have hlength := length_stacked_cons_cons level
            (quote name ++ ": ".toList ++ prettyAt level value)
            (quote following ++ ": ".toList ++ prettyAt level more) (prettyFields level fields)
          simp only [prettyFields] at hfuel ⊢
          obtain ⟨fuel, rfl⟩ : ∃ less, fuel = less + 1 := ⟨fuel - 1, by omega⟩
          have hless :
              (stacked level (prettyFields level ((following, more) :: fields))).length ≤ fuel := by
            simp only [prettyFields]
            omega
          have hmore := ih (List.cons_ne_nil _ _) hfields hdepth hless (all_isBlank_newLine level)
          simp only [prettyFields] at hmore
          rw [stacked_cons_cons, List.append_assoc,
            List.append_assoc (quote name ++ ": ".toList), List.cons_append,
            List.append_assoc (newLine level)]
          rw [readFields_comma hgap (hvalue hnesting (by dsimp only; omega) (ends_comma _)), hmore]
          rfl

theorem skipBlanks_stacked (hc : isBlank c = false) {line tail : Text} (hline : line = c :: tail)
    (lines : List Text) (level : Nat) (rest : Text) :
    ∃ more, skipBlanks (newLine level ++ (stacked level (line :: lines) ++ rest)) = c :: more := by
  rw [skipBlanks_append (all_isBlank_newLine level), hline]
  cases lines with
  | nil => exact ⟨_, skipBlanks_cons hc _⟩
  | cons next lines =>
      rw [stacked_cons_cons]
      exact ⟨_, skipBlanks_cons hc _⟩

theorem isRead_array (hlegible : ∀ item ∈ items, item.IsLegible)
    (hitems : ∀ item ∈ items, item.IsRead) : (array items).IsRead := by
  intro level fuel depth rest hdepth hfuel _
  rw [nesting] at hdepth
  obtain ⟨depth, rfl⟩ : ∃ less, depth = less + 1 := ⟨depth - 1, by omega⟩
  rw [sorted, sortedItems_eq_map]
  match items with
  | [] =>
      simp [prettyAt, prettyItems, bracketed, readValue,
        skipBlanks_cons (c := '[') (by decide), skipBlanks_cons (c := ']') (by decide)]
  | item :: items =>
      have hstack := (length_bracketed_cons '[' ']' level (prettyAt (level + 1) item)
        (prettyItems (level + 1) items)).trans hfuel
      obtain ⟨fuel, rfl⟩ : ∃ less, fuel = less + 2 := ⟨fuel - 2, by omega⟩
      have hless :
          (stacked (level + 1) (prettyItems (level + 1) (item :: items))).length ≤ fuel := by
        rw [prettyItems]
        omega
      have hread := readItems_stacked (List.cons_ne_nil _ _) hitems
        (itemsNesting_le_iff.mp (Nat.le_of_succ_le_succ hdepth)) hless
        (all_isBlank_newLine (level + 1)) level rest
      -- the first item does not close the bracket
      obtain ⟨c, line, hhead, hblank, hc⟩ :=
        head_prettyAt (level + 1) (hlegible item List.mem_cons_self)
      obtain ⟨more, hmore⟩ := skipBlanks_stacked hblank hhead (prettyItems (level + 1) items)
        (level + 1) (newLine level ++ ']' :: rest)
      have htext : prettyAt level (array (item :: items)) ++ rest = _ :=
        bracketed_cons '[' ']' level (prettyAt (level + 1) item)
          (prettyItems (level + 1) items) rest
      rw [htext, readValue_array hmore hc, ← prettyItems, hread]
      rfl

theorem isRead_object (hfields : ∀ field ∈ fields, field.2.IsRead) : (object fields).IsRead := by
  intro level fuel depth rest hdepth hfuel _
  rw [nesting] at hdepth
  obtain ⟨depth, rfl⟩ : ∃ less, depth = less + 1 := ⟨depth - 1, by omega⟩
  rw [sorted, sortedFields_eq_map]
  match fields with
  | [] =>
      simp [prettyAt, prettyFields, bracketed, readValue, ofFields, Dictionary.ofList,
        skipBlanks_cons (c := '\x7b') (by decide), skipBlanks_cons (c := '\x7d') (by decide)]
  | (name, value) :: fields =>
      have hstack := (length_bracketed_cons '\x7b' '\x7d' level
        (quote name ++ ": ".toList ++ prettyAt (level + 1) value)
        (prettyFields (level + 1) fields)).trans hfuel
      obtain ⟨fuel, rfl⟩ : ∃ less, fuel = less + 2 := ⟨fuel - 2, by omega⟩
      have hless : (stacked (level + 1)
          (prettyFields (level + 1) ((name, value) :: fields))).length ≤ fuel := by
        rw [prettyFields]
        omega
      have hread := readFields_stacked (List.cons_ne_nil _ _) hfields
        (fieldsNesting_le_iff.mp (Nat.le_of_succ_le_succ hdepth)) hless
        (all_isBlank_newLine (level + 1)) level rest
      have hhead : quote name ++ ": ".toList ++ prettyAt (level + 1) value = '"' :: _ := rfl
      obtain ⟨more, hmore⟩ := skipBlanks_stacked (by decide) hhead
        (prettyFields (level + 1) fields) (level + 1) (newLine level ++ '\x7d' :: rest)
      have htext : prettyAt level (object ((name, value) :: fields)) ++ rest = _ :=
        bracketed_cons '\x7b' '\x7d' level
          (quote name ++ ": ".toList ++ prettyAt (level + 1) value)
          (prettyFields (level + 1) fields) rest
      rw [htext, readValue_object hmore (by decide), ← prettyFields, hread]
      rfl

theorem isRead_of_isLegible (value : Json) (h : value.IsLegible) : value.IsRead := by
  induction value using nestedInduction with
  | null => exact fun _ fuel depth rest _ _ _ => readValue_null fuel depth rest
  | bool value =>
      exact fun level fuel depth rest _ _ _ => readValue_bool value level fuel depth rest
  | integer value =>
      obtain ⟨hleast, hgreatest⟩ := h
      exact fun _ fuel depth rest _ _ => readValue_integerText hleast hgreatest fuel depth
  | float value => exact fun _ fuel depth rest _ _ => readValue_float h fuel depth
  | string value => exact fun _ fuel depth rest _ _ _ => readValue_quote value fuel depth rest
  | array items ih =>
      have hitems := areLegible_iff.mp h
      exact isRead_array hitems fun item hitem => ih item hitem (hitems item hitem)
  | object fields ih =>
      have hfields := fieldsLegible_iff.mp h
      exact isRead_object fun field hfield => ih field hfield (hfields field hfield)

theorem read?_pretty (h : value.IsLegible)
    (hdepth : value.nesting ≤ depth) : read? depth value.pretty = some value.sorted := by
  have hread : readValue (2 * value.pretty.length + 1 + 1) depth (prettyAt 0 value ++ []) =
      some (value.sorted, []) :=
    isRead_of_isLegible value h hdepth (by rw [pretty]; omega) (fun c hc => by cases hc)
  rw [List.append_nil, ← pretty] at hread
  rw [read?, hread]
  rfl

end ComponentDocs.Json
