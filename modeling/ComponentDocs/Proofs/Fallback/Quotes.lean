import ComponentDocs.Component.Fallback.Bindings
import ComponentDocs.Proofs.Fallback.Blocks
import ComponentDocs.Proofs.Fallback.Splitting

/-!
# Quotes in a block

Two scans read the strings of a block: the one that finds its end, which knows what a backslash
protects, and the one that splits it, which only looks at the character before a quote.  They
take the same characters for quoted, unless a string ends with a backslash that is itself
protected.
-/

namespace ComponentDocs.Component

namespace BlockPlace

def quote? : BlockPlace → Option Char
  | .code => none
  | .quoted quote | .escaped quote => some quote

theorem behind_append (place : BlockPlace) (front back : Text) :
    place.behind (front ++ back) = (place.behind front).behind back :=
  List.foldl_append

theorem behind_concat (place : BlockPlace) (front : Text) (c : Char) :
    place.behind (front ++ [c]) = (place.behind front).next c :=
  behind_append place front [c]

def OpenedBy (front : Text) : BlockPlace → Prop
  | .code => True
  | .quoted quote => ∃ before body, front = before ++ quote :: body ∧
      BlockPlace.code.behind before = .code ∧ isQuote quote = true ∧ StringBody quote body ∧
      (front.getLast? = some '\\' → ∃ start, body = start ++ ['\\', '\\'] ∧ StringBody quote start)
  | .escaped quote => ∃ before body, front = before ++ quote :: (body ++ ['\\']) ∧
      BlockPlace.code.behind before = .code ∧ isQuote quote = true ∧ StringBody quote body

end BlockPlace

variable {quote : Char} {front text : Text}

theorem StringBody.append {back : Text} (hfront : StringBody quote front)
    (hback : StringBody quote back) : StringBody quote (front ++ back) := by
  induction hfront with
  | nil => exact hback
  | plain hc hslash _ ih => exact .plain hc hslash ih
  | escape c _ ih => exact .escape c ih

theorem StringBody.behind {body : Text} (h : StringBody quote body) :
    (BlockPlace.quoted quote).behind body = .quoted quote := by
  induction h with
  | nil => rfl
  | plain hc hslash _ ih => simpa [BlockPlace.behind, BlockPlace.next, hc, hslash] using ih
  | escape c _ ih => simpa [BlockPlace.behind, BlockPlace.next] using ih

theorem openedBy_concat (h : (BlockPlace.code.behind front).OpenedBy front) (c : Char) :
    (BlockPlace.code.behind (front ++ [c])).OpenedBy (front ++ [c]) := by
  rw [BlockPlace.behind_concat]
  cases hplace : BlockPlace.code.behind front with
  | code =>
      by_cases hc : isQuote c = true
      · rw [BlockPlace.next, if_pos hc]
        refine ⟨front, [], rfl, hplace, hc, .nil, fun hlast => ?_⟩
        rw [List.getLast?_concat, Option.some.injEq] at hlast
        exact absurd hlast (ne_backslash_of_isQuote hc)
      · rw [BlockPlace.next, if_neg hc]
        trivial
  | quoted quote =>
      rw [hplace] at h
      obtain ⟨before, body, rfl, hbefore, hquote, hbody, -⟩ := h
      by_cases hslash : c = '\\'
      · rw [hslash]
        exact ⟨before, body, by simp, hbefore, hquote, hbody⟩
      · by_cases hc : c = quote
        · simp [BlockPlace.next, BlockPlace.OpenedBy, hc, ne_backslash_of_isQuote hquote]
        · simp only [BlockPlace.next, beq_iff_eq, hslash, hc, if_false]
          refine ⟨before, body ++ [c], by simp, hbefore, hquote,
            hbody.append (.plain hc hslash .nil), fun hlast => ?_⟩
          rw [List.getLast?_concat, Option.some.injEq] at hlast
          contradiction
  | escaped quote =>
      rw [hplace] at h
      obtain ⟨before, body, rfl, hbefore, hquote, hbody⟩ := h
      refine ⟨before, body ++ ['\\', c], by simp, hbefore, hquote,
        hbody.append (.escape c .nil), fun hlast => ⟨body, ?_, hbody⟩⟩
      rw [List.getLast?_concat, Option.some.injEq] at hlast
      rw [hlast]

theorem openedBy_behind (front : Text) : (BlockPlace.code.behind front).OpenedBy front := by
  induction front using List.reverseRecOn with
  | nil => trivial
  | append_singleton front c ih => exact openedBy_concat ih c

namespace SplitPlace

@[simp] theorem previous_next (place : SplitPlace) (c : Char) :
    (place.next c).previous = some c := by
  unfold next
  split
  · rfl
  · split <;> [rfl; split <;> [rfl; split <;> [rfl; split <;> rfl]]]

theorem previous_behind (front : Text) : (behind {} front).previous = front.getLast? := by
  cases front using List.reverseRecOn with
  | nil => rfl
  | append_singleton front c =>
      rw [behind_append, List.getLast?_concat]
      exact previous_next (behind {} front) c

theorem quote_next_of_none {place : SplitPlace} (h : place.quote = none) (c : Char) :
    (place.next c).quote = if isQuote c then some c else none := by
  simp only [next, h]
  split <;> [rfl; split <;> [rfl; split <;> [rfl; split <;> rfl]]]

theorem quote_next_of_some {place : SplitPlace} (h : place.quote = some quote) (c : Char) :
    (place.next c).quote =
      if c = quote ∧ place.previous ≠ some '\\' then none else some quote := by
  simp [next, h]

end SplitPlace

/-- Whether the scans have the same quote open behind each beginning of a text. -/
def QuotesAgree (text : Text) : Prop :=
  ∀ front, front <+: text →
    (SplitPlace.behind {} front).quote = (BlockPlace.code.behind front).quote?

/-- Whether a string of a text ends with a backslash that a backslash protects. -/
def HasEscapedEnd (text : Text) : Prop :=
  ∃ before quote body after, text = before ++ quote :: (body ++ '\\' :: '\\' :: quote :: after) ∧
    BlockPlace.code.behind before = .code ∧ isQuote quote = true ∧ StringBody quote body

theorem quote_concat_iff
    (h : (SplitPlace.behind {} front).quote = (BlockPlace.code.behind front).quote?) (c : Char) :
    (SplitPlace.behind {} (front ++ [c])).quote =
        (BlockPlace.code.behind (front ++ [c])).quote? ↔
      ¬(BlockPlace.code.behind front = .quoted c ∧ front.getLast? = some '\\') := by
  have hopened := openedBy_behind front
  rw [SplitPlace.behind_append, BlockPlace.behind_concat]
  change ((SplitPlace.behind {} front).next c).quote = _ ↔ _
  cases hplace : BlockPlace.code.behind front with
  | code =>
      rw [hplace] at h
      rw [SplitPlace.quote_next_of_none h]
      by_cases hc : isQuote c = true <;> simp [BlockPlace.next, BlockPlace.quote?, hc]
  | quoted quote =>
      rw [hplace] at h hopened
      obtain ⟨-, -, -, -, hquote, -⟩ := hopened
      rw [SplitPlace.quote_next_of_some h, SplitPlace.previous_behind]
      by_cases hslash : c = '\\'
      · have hne : '\\' ≠ quote := (ne_backslash_of_isQuote hquote).symm
        simp [BlockPlace.next, BlockPlace.quote?, hslash, hne, hne.symm]
      · by_cases hc : c = quote
        · simp [BlockPlace.next, BlockPlace.quote?, hc, ne_backslash_of_isQuote hquote]
        · simp [BlockPlace.next, BlockPlace.quote?, hslash, hc, Ne.symm hc]
  | escaped quote =>
      rw [hplace] at h hopened
      obtain ⟨before, body, hfront, -⟩ := hopened
      have hlast : front.getLast? = some '\\' := by
        rw [hfront, ← List.cons_append, ← List.append_assoc, List.getLast?_concat]
      rw [SplitPlace.quote_next_of_some h, SplitPlace.previous_behind]
      simp [BlockPlace.next, BlockPlace.quote?, hlast]

theorem hasEscapedEnd_iff :
    HasEscapedEnd text ↔ ∃ front c, front ++ [c] <+: text ∧
      BlockPlace.code.behind front = .quoted c ∧ front.getLast? = some '\\' := by
  constructor
  · rintro ⟨before, quote, body, after, rfl, hbefore, hquote, hbody⟩
    refine ⟨before ++ quote :: (body ++ ['\\', '\\']), quote, ⟨after, by simp⟩, ?_, ?_⟩
    · have hstring : StringBody quote (body ++ ['\\', '\\']) := hbody.append (.escape _ .nil)
      rw [BlockPlace.behind_append, hbefore]
      change (BlockPlace.code.next quote).behind _ = _
      rw [BlockPlace.next, if_pos hquote, hstring.behind]
    · simp [List.getLast?_append, List.getLast?_cons]
  · rintro ⟨front, quote, ⟨after, rfl⟩, hplace, hlast⟩
    have hopened := openedBy_behind front
    rw [hplace] at hopened
    obtain ⟨before, body, rfl, hbefore, hquote, -, hback⟩ := hopened
    obtain ⟨start, rfl, hstart⟩ := hback hlast
    exact ⟨before, quote, start, after, by simp, hbefore, hquote, hstart⟩

theorem quotesAgree_iff : QuotesAgree text ↔ ¬HasEscapedEnd text := by
  rw [hasEscapedEnd_iff]
  constructor
  · rintro hagree ⟨front, c, hbegins, hparts⟩
    have hfront := hagree front ((List.prefix_append front [c]).trans hbegins)
    exact (quote_concat_iff hfront c).mp (hagree _ hbegins) hparts
  · intro hnone front
    induction front using List.reverseRecOn with
    | nil => exact fun _ => rfl
    | append_singleton front c ih =>
        intro hbegins
        have hfront := ih ((List.prefix_append front [c]).trans hbegins)
        exact (quote_concat_iff hfront c).mpr fun hparts => hnone ⟨front, c, hbegins, hparts⟩

instance (text : Text) : Decidable (QuotesAgree text) :=
  decidable_of_iff (∀ front ∈ text.inits,
      (SplitPlace.behind {} front).quote = (BlockPlace.code.behind front).quote?) <| by
    simp only [List.mem_inits, QuotesAgree]

instance (text : Text) : Decidable (HasEscapedEnd text) :=
  decidable_of_iff (¬QuotesAgree text) (by rw [quotesAgree_iff, not_not])

theorem BraceBalanced.behind (h : BraceBalanced text) :
    BlockPlace.code.behind text = .code := by
  induction h with
  | nil => rfl
  | plain hquote _ _ _ ih => simpa [BlockPlace.behind, BlockPlace.next, hquote] using ih
  | string hquote hbody _ ih =>
      change (BlockPlace.code.next _).behind _ = _
      rw [BlockPlace.next, if_pos hquote, BlockPlace.behind_append, hbody.behind]
      simpa [BlockPlace.behind, BlockPlace.next, ne_backslash_of_isQuote hquote] using ih
  | group _ _ ihinner ihrest =>
      change (BlockPlace.code.next _).behind _ = _
      rw [BlockPlace.next, if_neg (by decide), BlockPlace.behind_append, ihinner]
      exact ihrest

/--
How a split reads the strings of a block.  It takes the same characters for quoted as the scan
that found the block exactly if no string of the block ends with a backslash that a backslash
protects.  Then it ends outside quotes, and every separator outside brackets that the scan for
the block has read as code divides the entries.
-/
theorem quotes_agree_iff {source content behind : Text}
    (h : balancedBlock source = some (content, behind)) (isSeparator : Char → Bool) :
    (QuotesAgree content ↔ ¬HasEscapedEnd content) ∧
    (¬HasEscapedEnd content → (SplitPlace.behind {} content).quote = none ∧
      ∀ front mark rest, content = front ++ mark :: rest →
        BlockPlace.code.behind front = .code → (SplitPlace.behind {} front).depth = 0 →
        isPlain mark = true → isSeparator mark = true →
        splitTopLevel isSeparator content =
          splitTopLevel isSeparator front ++ splitTopLevel isSeparator rest) := by
  refine ⟨quotesAgree_iff, fun hends => ?_⟩
  have hagree := quotesAgree_iff.mpr hends
  constructor
  · rw [hagree content List.prefix_rfl, (balancedBlock_eq_some_iff.mp h).1.behind]
    rfl
  · rintro front mark rest rfl hcode hdepth hplain hmark
    have hquote := hagree front (List.prefix_append front (mark :: rest))
    rw [hcode] at hquote
    exact splitTopLevel_append_cut ⟨⟨hdepth, hquote⟩, hplain, hmark⟩ rest

/-- Protected quotes, commas in strings, and strings of the other quotes. -/
theorem quotes_agree_iff_labels :
    let content : Text := "a = 'it\\'s, ', b = \"\\\\'\", c "
    balancedBlock (content ++ "\x7d = f()".toList) = some (content, " = f()".toList) ∧
      ¬HasEscapedEnd content ∧ (SplitPlace.behind {} content).quote = none ∧
      splitTopLevel (· == ',') content =
        ["a = 'it\\'s, '".toList, " b = \"\\\\'\"".toList, " c ".toList] := by
  intro content
  have hblock : balancedBlock (content ++ "\x7d = f()".toList) =
      some (content, " = f()".toList) := by decide
  have hends : ¬HasEscapedEnd content := by decide
  obtain ⟨hquote, hcuts⟩ := (quotes_agree_iff hblock (· == ',')).2 hends
  refine ⟨hblock, hends, hquote, ?_⟩
  rw [hcuts "a = 'it\\'s, '" ',' " b = \"\\\\'\", c " rfl (by decide) (by decide) rfl rfl]
  decide

/-- A string that ends with a protected backslash swallows the entries behind it. -/
theorem escaped_backslash_swallows :
    let content : Text := " a = '\\\\', b = 2 "
    balancedBlock (content ++ "\x7d = $props();".toList) =
        some (content, " = $props();".toList) ∧
      BlockPlace.code.behind content = .code ∧
      (SplitPlace.behind {} content).quote = some '\'' ∧
      splitTopLevel (· == ',') content = [content] ∧
      (entries content).map (fun entry => (entry.1.name, entry.2)) =
        [("a".toList, some "'\\\\', b = 2".toList)] := by
  decide

end ComponentDocs.Component
