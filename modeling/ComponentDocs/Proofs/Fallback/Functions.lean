import ComponentDocs.Proofs.Fallback.Arguments

/-!
# Functions that are recovered from a text

A function is found at the start of a line, and its parameters end at the first closing
parenthesis.  Parameters without one are read with their names, types and defaults.
-/

namespace ComponentDocs.Fallback

open ComponentDocs.Component

theorem isSome_until? {mark : Char} {text : Text} (h : mark ∈ text) :
    (Text.until? mark text).isSome = true := by
  obtain ⟨before, behind, rfl, hbefore⟩ := List.eq_append_cons_of_mem h
  rw [Text.until?_eq_some_iff.mpr ⟨rfl, hbefore⟩]
  rfl

structure Header where
  indent : Text
  exported : Bool
  isAsync : Bool
  name : Text
  arguments : List Argument
  result : Option Text
  isIndent : indent.all isTabOrSpace = true
  isName : Text.isIdentifier name = true

namespace Header

variable (header : Header)

def parameters : Text :=
  argumentsText header.arguments

def ending : Text :=
  match header.result with
  | none => " \x7b"
  | some type => ": " ++ (type ++ " \x7b")

def text : Text :=
  header.indent ++ ((if header.exported then "export ".toList else []) ++
    ((if header.isAsync then "async ".toList else []) ++
      ("function ".toList ++ (header.name ++ '(' :: (header.parameters ++ ')' :: header.ending)))))

theorem exists_resultAndBody? (rest : Text) :
    ∃ result behind, resultAndBody? (header.ending ++ rest) = some (result, behind) := by
  unfold ending
  cases header.result with
  | none => exact ⟨none, rest, rfl⟩
  | some type =>
      obtain ⟨⟨found, behind⟩, hfound⟩ : ∃ cut, Text.until? '\x7b' (type ++ (" \x7b" ++ rest)) =
          some cut :=
        Option.isSome_iff_exists.mp (isSome_until? (by simp))
      refine ⟨some (cleanType (' ' :: found)), behind, ?_⟩
      rw [Text.until?_eq_some_iff] at hfound
      have hopen : Text.until? '\x7b' (' ' :: (type ++ (" \x7b" ++ rest))) =
          some (' ' :: found, behind) :=
        Text.until?_eq_some_iff.mpr ⟨by rw [hfound.1, List.cons_append], by simpa using hfound.2⟩
      have htext : (": " ++ (type ++ " \x7b") : Text) ++ rest =
          ':' :: ' ' :: (type ++ (" \x7b" ++ rest)) := by
        simp
      rw [htext]
      change (Text.until? '\x7b' (' ' :: (type ++ (" \x7b" ++ rest)))).bind _ = _
      rw [hopen]
      rfl

theorem functionAt?_words (line : Text) :
    functionAt? (header.indent ++ ((if header.exported then "export ".toList else []) ++
      ((if header.isAsync then "async ".toList else []) ++ ("function ".toList ++ line)))) =
        functionAt? ("function ".toList ++ line) := by
  rw [functionAt?, List.dropWhile_append_of_pos (List.all_eq_true.mp header.isIndent)]
  cases header.exported <;> cases header.isAsync <;> rfl

theorem functionAt?_text (rest : Text) :
    functionAt? (header.text ++ rest) =
      (Text.until? ')' (header.parameters ++ (')' :: (header.ending ++ rest)))).bind
        fun (parameters, behind) => (resultAndBody? behind).bind fun (result, behind) =>
          some (⟨header.name, parameters, result⟩, behind) := by
  have htext : header.text ++ rest =
      header.indent ++ ((if header.exported then "export ".toList else []) ++
        ((if header.isAsync then "async ".toList else []) ++ ("function ".toList ++
          (header.name ++ '(' :: (header.parameters ++ ')' :: (header.ending ++ rest)))))) := by
    simp only [text, List.append_assoc, List.cons_append]
  rw [htext, functionAt?_words]
  generalize header.parameters ++ ')' :: (header.ending ++ rest) = behind
  have hspace : ∀ c ∈ (header.name ++ '(' :: behind).head?, Text.isSpace c = false :=
    fun c hc => (head?_name header.isName _ c hc).1
  have hstar : Text.afterOptional "*" (header.name ++ '(' :: behind) =
      header.name ++ '(' :: behind := by
    have hnone : Text.after? "*" (header.name ++ '(' :: behind) = none := by
      rw [Option.eq_none_iff_forall_ne_some]
      intro text htext
      rw [Text.after?_eq_some_iff] at htext
      exact (head?_name header.isName ('(' :: behind) '*' (by rw [htext]; rfl)).2 (by decide)
    rw [Text.afterOptional, hnone, Option.getD_none]
  have hname : Text.identifier? (header.name ++ '(' :: behind) =
      some (header.name, '(' :: behind) :=
    Text.identifier?_eq_some_iff.mpr ⟨header.isName, rfl, by rintro c ⟨⟩; decide⟩
  have hafter : Text.trimStart (' ' :: (header.name ++ '(' :: behind)) =
      header.name ++ '(' :: behind :=
    Text.trimStart_eq_iff.mpr ⟨[' '], rfl, rfl, hspace⟩
  have htrim : Text.trimStart (header.name ++ '(' :: behind) = header.name ++ '(' :: behind :=
    Text.dropWhile_of_head? hspace
  have hfunction : functionAt? ("function ".toList ++ (header.name ++ '(' :: behind)) =
      (Text.identifier? (Text.trimStart (Text.afterOptional "*" (Text.trimStart
        (' ' :: (header.name ++ '(' :: behind)))))).bind fun (name, behind) =>
        (Text.after? "(" (Text.trimStart (afterTypeParameters (Text.trimStart behind)))).bind
          fun behind => (Text.until? ')' behind).bind fun (parameters, behind) =>
            (resultAndBody? behind).bind fun (result, behind) =>
              some (⟨name, parameters, result⟩, behind) := rfl
  rw [hfunction, hafter, hstar, htrim, hname]
  rfl

theorem parameters_functionAt?_iff (rest : Text) :
    (∃ found behind, functionAt? (header.text ++ rest) = some (found, behind) ∧
      found.name = header.name ∧ found.parameters = header.parameters) ↔
        ')' ∉ header.parameters := by
  rw [functionAt?_text]
  constructor
  · rintro ⟨found, behind, hfound, -, hparameters⟩
    obtain ⟨⟨parameters, body⟩, huntil, hfound⟩ := Option.bind_eq_some_iff.mp hfound
    obtain ⟨⟨result, after⟩, -, hpair⟩ := Option.bind_eq_some_iff.mp hfound
    cases hpair
    rw [← hparameters]
    exact (Text.until?_eq_some_iff.mp huntil).2
  · intro hnot
    obtain ⟨result, behind, hbody⟩ := header.exists_resultAndBody? rest
    refine ⟨⟨header.name, header.parameters, result⟩, behind, ?_, rfl, rfl⟩
    have huntil := Text.until?_eq_some_iff.mpr
      ⟨(rfl : header.parameters ++ ')' :: (header.ending ++ rest) = _), hnot⟩
    simp only [huntil, Option.bind_some, hbody]

end Header

/-- Whether nothing that starts on a line in front of a text goes on behind its start. -/
def isUndisturbed {α : Type} (reader : Text → Option (α × Text)) (text : Text) :
    Bool → Text → Bool
  | _, [] => true
  | atStart, c :: front =>
      (!atStart || (reader (c :: (front ++ text))).all fun (_, behind) =>
        decide (text.length ≤ behind.length)) && isUndisturbed reader text (c == '\n') front

theorem mem_atLines {α : Type} {reader : Text → Option (α × Text)} {text behind : Text} {found : α}
    (hne : text ≠ []) (hread : reader text = some (found, behind)) {front : Text}
    {atStart : Bool} (hstart : (front.getLast?.map (· == '\n')).getD atStart = true)
    (hfront : isUndisturbed reader text atStart front = true) {skip : Nat}
    (hskip : skip ≤ front.length) : found ∈ atLines reader atStart skip (front ++ text) := by
  induction front generalizing atStart skip with
  | nil =>
      obtain ⟨c, rest, rfl⟩ := List.exists_cons_of_ne_nil hne
      obtain rfl : skip = 0 := Nat.le_zero.mp hskip
      obtain rfl : atStart = true := hstart
      rw [List.nil_append, atLines, if_pos rfl, hread]
      exact List.mem_cons_self ..
  | cons c front ih =>
      rw [isUndisturbed, Bool.and_eq_true] at hfront
      have hrest : (front.getLast?.map (· == '\n')).getD (c == '\n') = true := by
        cases front with
        | nil => simpa using hstart
        | cons d front => rwa [List.getLast?_cons_cons] at hstart
      cases skip with
      | succ skip =>
          exact ih hrest hfront.2 (Nat.le_of_succ_le_succ hskip)
      | zero =>
          rw [List.cons_append, atLines]
          split
          · next other after hother =>
              -- what is found ends in front of the text, so that the skip does too
              refine List.mem_cons_of_mem _ (ih hrest hfront.2 ?_)
              have hafter : text.length ≤ after.length := by
                cases hline : atStart with
                | false => simp [hline] at hother
                | true => simpa [hline, (if_pos hline).symm.trans hother] using hfront.1
              rw [List.length_append]
              omega
          · exact ih hrest hfront.2 (Nat.zero_le _)

theorem operations_ofText (options : Options) (source : Text) {found : FoundFunction}
    (h : found ∈ foundFunctions source) :
    functionOperation found ∈ (ScriptApi.ofText options source).operations := by
  rw [ScriptApi.ofText, foldl_addOperation_eq]
  exact List.mem_append_right _ (List.mem_map_of_mem h)

/--
A function whose parameters have no closing parenthesis is an operation with these parameters,
unless something that starts on an earlier line goes on behind the start of its line.  With a
closing parenthesis, as in the type of a callback or in a call, the parameters are not read as a
whole.
-/
theorem functions_recovered (options : Options) (header : Header) (front rest : Text)
    (hfront : front = [] ∨ front.getLast? = some '\n')
    (hundisturbed : isUndisturbed functionAt? (header.text ++ rest) true front = true) :
    ((∃ found behind, functionAt? (header.text ++ rest) = some (found, behind) ∧
      found.name = header.name ∧ found.parameters = header.parameters) ↔
        ')' ∉ header.parameters) ∧
    (')' ∉ header.parameters →
      ∃ operation ∈ (ScriptApi.ofText options (front ++ (header.text ++ rest))).operations,
        operation.name = header.name ∧
        operation.parameters = header.arguments.map Argument.parameter) := by
  have hiff := header.parameters_functionAt?_iff rest
  refine ⟨hiff, fun hnot => ?_⟩
  obtain ⟨found, behind, hread, hname, hparameters⟩ := hiff.mpr hnot
  have hne : header.text ++ rest ≠ [] := by
    intro hnil
    have hnone : functionAt? [] = none := rfl
    rw [hnil, hnone] at hread
    contradiction
  have hstart : (front.getLast?.map (· == '\n')).getD true = true := by
    rcases hfront with rfl | hlast
    · rfl
    · rw [hlast]
      rfl
  have hfound : found ∈ foundFunctions (front ++ (header.text ++ rest)) :=
    mem_atLines hne hread hstart hundisturbed (Nat.zero_le _)
  refine ⟨functionOperation found, operations_ofText options _ hfound, hname, ?_⟩
  have hentries : (functionOperation found).parameters =
      (entries found.parameters).map functionParameter := rfl
  rw [hentries, hparameters, Header.parameters, entries_argumentsText, List.map_map]
  exact List.map_congr_left fun argument _ => argument.functionParameter_found

def mapType : Annotation where
  text := "Map<K, V>"
  ne_nil := by decide
  trimmed := by decide
  unquoted := by decide
  isNested := by decide
  onlyArrows := by decide
  noSeparator := by decide

def listDefault : Initial where
  text := "[1, \x7b a: 2 \x7d]"
  ne_nil := by decide
  trimmed := by decide
  isNested := by decide

def loadHeader : Header where
  indent := "  "
  exported := true
  isAsync := true
  name := "load"
  arguments :=
    [⟨[], "id", .bare, [], rfl, by decide, rfl⟩,
      ⟨" ", "limit", .typed true mapType, [], rfl, by decide, rfl⟩,
      ⟨"\n", "all", .defaulted mapType listDefault, " ", rfl, by decide, rfl⟩]
  result := some "Promise<void>"
  isIndent := by decide
  isName := by decide

theorem functions_recovered_load :
    loadHeader.text = "  export async function load(id, limit?: Map<K, V>,\n" ++
      "all: Map<K, V> = [1, \x7b a: 2 \x7d] ): Promise<void> \x7b".toList ∧
    isUndisturbed functionAt? (loadHeader.text ++ "\x7d\n") true "function a() \x7b \x7d\n" = true ∧
    ∃ operation ∈ (ScriptApi.ofText {} ("function a() \x7b \x7d\n" ++
        (loadHeader.text ++ "\x7d\n"))).operations,
      operation.name = loadHeader.name ∧
      operation.parameters = loadHeader.arguments.map Argument.parameter := by
  have hundisturbed : isUndisturbed functionAt? (loadHeader.text ++ "\x7d\n") true
      "function a() \x7b \x7d\n" = true := by decide
  have hrecovered := functions_recovered {} loadHeader "function a() \x7b \x7d\n" "\x7d\n"
    (.inr (by decide)) hundisturbed
  exact ⟨by decide, hundisturbed, hrecovered.2 (by decide)⟩

def arrowType : Annotation where
  text := "(x: number) => void"
  ne_nil := by decide
  trimmed := by decide
  unquoted := by decide
  isNested := by decide
  onlyArrows := by decide
  noSeparator := by decide

def callbackHeader : Header where
  indent := []
  exported := false
  isAsync := false
  name := "watch"
  arguments := [⟨[], "go", .typed false arrowType, [], rfl, by decide, rfl⟩]
  result := none
  isIndent := by decide
  isName := by decide

/-- A function with a callback is lost. -/
theorem callback_function_lost :
    callbackHeader.text = "function watch(go: (x: number) => void) \x7b".toList ∧
    (ScriptApi.ofText {} (callbackHeader.text ++ "\x7d")).operations.length = 0 := by
  decide +kernel

end ComponentDocs.Fallback
