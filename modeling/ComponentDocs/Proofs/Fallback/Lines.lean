import ComponentDocs.Proofs.Props.Text
import ComponentDocs.Proofs.Text.Identifiers

/-!
# Lines on which nothing starts

Exported variables and functions are looked for where a line starts.  Neither is found on a
line with a member of a type, whatever stands between the members.
-/

namespace ComponentDocs.Fallback

open ComponentDocs.Component

structure Named (name : Text) (mark : Char) : Prop where
  ne_nil : name ≠ []
  continues : ∀ c ∈ name, Text.continuesIdentifier c = true
  isMark : mark = '?' ∨ mark = ':'

namespace Named

variable {name : Text} {mark : Char}

theorem not_mem (h : Named name mark) {c : Char} (hc : Text.continuesIdentifier c = false) :
    c ∉ name := by
  intro hmem
  rw [h.continues c hmem] at hc
  contradiction

theorem isSpace_eq_false (h : Named name mark) {c : Char} (hc : c ∈ name) :
    Text.isSpace c = false :=
  Text.isSpace_of_continuesIdentifier (h.continues c hc)

theorem isSpace_mark (h : Named name mark) : Text.isSpace mark = false := by
  rcases h.isMark with rfl | rfl <;> decide

theorem exists_of_after? (h : Named name mark) {word rest behind : Text}
    (hword : '?' ∉ word ∧ ':' ∉ word)
    (hafter : Text.after? word (name ++ mark :: rest) = some behind) :
    ∃ more, name = word ++ more ∧ behind = more ++ mark :: rest := by
  rw [Text.after?_eq_some_iff] at hafter
  rcases List.append_eq_append_iff.mp hafter with ⟨more, hname, hrest⟩ | ⟨more, hname, hrest⟩
  · cases more with
    | nil => exact ⟨[], by simpa using hname.symm, hrest.symm⟩
    | cons c more =>
        cases hrest
        rw [hname] at hword
        rcases h.isMark with rfl | rfl <;> simp at hword
  · exact ⟨more, hname, hrest⟩

theorem head?_append {p : Char → Bool} (hpart : ∀ c ∈ name, p c = false) (hmark : p mark = false)
    {front more : Text} (hname : name = front ++ more) (rest : Text) :
    ∀ c ∈ (more ++ mark :: rest).head?, p c = false := by
  intro c hc
  cases more with
  | nil =>
      cases hc
      exact hmark
  | cons first more =>
      cases hc
      exact hpart _ (by simp [hname])

theorem trimStart_append (h : Named name mark) {front more : Text} (hname : name = front ++ more)
    (rest : Text) : Text.trimStart (more ++ mark :: rest) = more ++ mark :: rest :=
  Text.dropWhile_of_head?
    (head?_append (fun _ => h.isSpace_eq_false) h.isSpace_mark hname rest)

theorem afterBlanks?_eq_none (h : Named name mark) (word : Text)
    (hword : '?' ∉ word ∧ ':' ∉ word) (rest : Text) :
    (Text.after? word (name ++ mark :: rest)).bind Text.afterBlanks? = none := by
  rw [Option.bind_eq_none_iff]
  intro behind hbehind
  obtain ⟨more, hname, rfl⟩ := h.exists_of_after? hword hbehind
  have hhead := head?_append (fun _ => h.isSpace_eq_false) h.isSpace_mark hname rest
  cases hmore : more ++ mark :: rest with
  | nil => rfl
  | cons c text =>
      rw [hmore] at hhead
      rw [Text.afterBlanks?, hhead c rfl]
      rfl

theorem dropWhile_isTabOrSpace (h : Named name mark) (rest : Text) :
    (name ++ mark :: rest).dropWhile isTabOrSpace = name ++ mark :: rest := by
  have hblank : ∀ c, Text.isSpace c = false → isTabOrSpace c = false := by
    intro c hc
    rw [Bool.eq_false_iff]
    intro htab
    simp only [isTabOrSpace, Bool.or_eq_true, beq_iff_eq] at htab
    rcases htab with rfl | rfl <;> contradiction
  exact Text.dropWhile_of_head? (head?_append (fun c hc => hblank c (h.isSpace_eq_false hc))
    (hblank mark h.isSpace_mark) (List.nil_append name).symm rest)

theorem exportAt?_eq_none (h : Named name mark) (rest : Text) :
    exportAt? (name ++ mark :: rest) = none := by
  have hblanks := h.afterBlanks?_eq_none "export" (by decide) rest
  rw [exportAt?, h.dropWhile_isTabOrSpace]
  cases hafter : Text.after? "export" (name ++ mark :: rest) with
  | none => rfl
  | some behind =>
      rw [hafter, Option.bind_some] at hblanks
      simp [hblanks]

theorem afterWord_eq (h : Named name mark) (word : Text) (hword : '?' ∉ word ∧ ':' ∉ word)
    (rest : Text) : afterWord word (name ++ mark :: rest) = name ++ mark :: rest := by
  rw [afterWord, h.afterBlanks?_eq_none word hword, Option.getD_none]

theorem identifier?_eq (h : Named name mark) (rest : Text) :
    Text.identifier? (name ++ mark :: rest) =
      if name.head?.any Text.startsIdentifier then some (name, mark :: rest) else none := by
  have hmark : ∀ c ∈ (mark :: rest).head?, Text.continuesIdentifier c = false := by
    rintro c ⟨⟩
    rcases h.isMark with rfl | rfl <;> decide
  obtain ⟨first, more, rfl⟩ := List.exists_cons_of_ne_nil h.ne_nil
  have hmore : ∀ c ∈ more, Text.continuesIdentifier c = true := fun c hc =>
    h.continues c (List.mem_cons_of_mem _ hc)
  rw [List.cons_append, Text.identifier?, List.takeWhile_append_of_pos hmore,
    List.dropWhile_append_of_pos hmore, Text.takeWhile_of_head? hmark,
    Text.dropWhile_of_head? hmark, List.append_nil]
  rfl

theorem functionAt?_eq_none (h : Named name mark) (rest : Text) :
    functionAt? (name ++ mark :: rest) = none := by
  have hmark : '*' ≠ mark ∧ mark ≠ '<' ∧ '(' ≠ mark ∧ Text.startsIdentifier mark = false := by
    rcases h.isMark with rfl | rfl <;> decide
  have hparenthesis : Text.after? "(" (Text.trimStart (afterTypeParameters
      (Text.trimStart (mark :: rest)))) = none := by
    have htrim : Text.trimStart (mark :: rest) = mark :: rest :=
      Text.dropWhile_of_head? (by simpa using h.isSpace_mark)
    have htypes : afterTypeParameters (mark :: rest) = mark :: rest := by
      unfold afterTypeParameters
      split
      · next heq =>
          cases heq
          simp at hmark
      · rfl
    rw [htrim, htypes, htrim]
    simp [Text.after?, hmark]
  rw [functionAt?, h.dropWhile_isTabOrSpace, h.afterWord_eq "export" (by decide),
    h.afterWord_eq "async" (by decide)]
  cases hafter : Text.after? "function" (name ++ mark :: rest) with
  | none => rfl
  | some behind =>
      obtain ⟨more, hname, rfl⟩ := h.exists_of_after? (by decide) hafter
      have hhead : ∀ c ∈ (more ++ mark :: rest).head?, ('*' == c) = false := by
        refine head?_append (fun c hc => ?_) (by simpa using hmark.1) hname rest
        have hstar : '*' ∉ name := h.not_mem (by decide)
        rw [beq_eq_false_iff_ne]
        rintro rfl
        exact hstar hc
      have hstar : Text.afterOptional "*" (more ++ mark :: rest) = more ++ mark :: rest := by
        cases hmore : more ++ mark :: rest with
        | nil => rfl
        | cons c text =>
            have hne : '*' ≠ c := by simpa [hmore] using hhead
            simp [Text.afterOptional, Text.after?, hne]
      simp only [Option.bind_eq_bind, Option.bind_some, h.trimStart_append hname, hstar]
      cases more with
      | nil => simp [Text.identifier?, hmark]
      | cons c more =>
          have hrest : Named (c :: more) mark :=
            ⟨by simp, fun d hd => h.continues d (by simp [hname, hd]), h.isMark⟩
          rw [hrest.identifier?_eq]
          split
          · simp only [Option.bind_some, hparenthesis, Option.bind_none]
          · rfl

end Named

def isGap (c : Char) : Bool :=
  Text.isSpace c || separatesMembers c

def wordStarts : List Char :=
  ['e', 'a', 'f']

/-- A reader passes over tabs and spaces, and reads neither what begins with another
character nor a name with a mark behind it. -/
structure LineReader {α : Type} (reader : Text → Option (α × Text)) : Prop where
  skip : ∀ (c : Char) (text : Text), isTabOrSpace c = true → reader (c :: text) = reader text
  other : ∀ (c : Char) (text : Text), isTabOrSpace c = false → c ∉ wordStarts →
    reader (c :: text) = none
  named : ∀ {name : Text} {mark : Char}, Named name mark → ∀ rest,
    reader (name ++ mark :: rest) = none

theorem lineReader_exportAt? : LineReader exportAt? where
  skip c text hc := by simp [exportAt?, hc]
  other c text hc hfirst := by
    have hne : 'e' ≠ c := Ne.symm (List.ne_of_not_mem_cons hfirst)
    simp [exportAt?, hc, Text.after?, hne]
  named := Named.exportAt?_eq_none

theorem lineReader_functionAt? : LineReader functionAt? where
  skip c text hc := by simp [functionAt?, hc]
  other c text hc hfirst := by
    simp only [wordStarts, List.mem_cons, List.not_mem_nil, or_false, not_or] at hfirst
    have hexport : 'e' ≠ c := Ne.symm hfirst.1
    have hasync : 'a' ≠ c := Ne.symm hfirst.2.1
    have hfunction : 'f' ≠ c := Ne.symm hfirst.2.2
    simp [functionAt?, hc, afterWord, Text.after?, hexport, hasync, hfunction]
  named := Named.functionAt?_eq_none

section

variable {α : Type} {reader : Text → Option (α × Text)}

theorem LineReader.reader_gap (h : LineReader reader) {gap rest : Text}
    (hgap : gap.all isGap = true) (hrest : reader rest = none) : reader (gap ++ rest) = none := by
  have hstarts : ∀ c ∈ wordStarts, isGap c = false := by decide
  induction gap with
  | nil => exact hrest
  | cons c gap ih =>
      rw [List.all_cons, Bool.and_eq_true] at hgap
      cases hc : isTabOrSpace c with
      | true =>
          rw [List.cons_append, h.skip c _ hc]
          exact ih hgap.2
      | false =>
          refine h.other c _ hc fun hmem => ?_
          rw [hstarts c hmem] at hgap
          simp at hgap

theorem LineReader.atLines_gap (h : LineReader reader) {gap rest : Text}
    (hgap : gap.all isGap = true) (hrest : reader rest = none) (atStart : Bool) :
    ∃ next, atLines reader atStart 0 (gap ++ rest) = atLines reader next 0 rest := by
  induction gap generalizing atStart with
  | nil => exact ⟨atStart, rfl⟩
  | cons c gap ih =>
      have hnone : reader (c :: (gap ++ rest)) = none := h.reader_gap hgap hrest
      rw [List.all_cons, Bool.and_eq_true] at hgap
      obtain ⟨next, hnext⟩ := ih hgap.2 (c == '\n')
      exact ⟨next, by rw [List.cons_append, atLines, hnone, ite_self, hnext]⟩

theorem atLines_line {line rest : Text} (hne : line ≠ []) (hbreak : '\n' ∉ line)
    (hnone : reader (line ++ rest) = none) (atStart : Bool) :
    atLines reader atStart 0 (line ++ rest) = atLines reader false 0 rest := by
  obtain ⟨c, more, rfl⟩ := List.exists_cons_of_ne_nil hne
  rw [List.mem_cons, not_or] at hbreak
  have hc : (c == '\n') = false := by simpa using Ne.symm hbreak.1
  rw [List.cons_append] at hnone ⊢
  rw [atLines, hnone, ite_self, hc]
  exact Props.atLines_append hbreak.2 rest

end

end ComponentDocs.Fallback
