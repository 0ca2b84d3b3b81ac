import ComponentDocs.Proofs.Text.Marks
import ComponentDocs.Sections

/-!
# Finding the blocks of a source

The search for the blocks of a tag passes over text in which the tag does not occur,
and finds a block that is written out.
-/

namespace ComponentDocs

namespace Block

/-- Attributes whose quoted values are complete, without a closing angle outside
quotes. -/
inductive Closed : Text → Prop
  | nil : Closed []
  | plain (c : Char) (rest : Text) :
      c ≠ '>' → c ≠ '"' → c ≠ '\'' → Closed rest → Closed (c :: rest)
  | quoted (quote : Char) (value rest : Text) :
      quote = '"' ∨ quote = '\'' → quote ∉ value → Closed rest →
        Closed (quote :: value ++ quote :: rest)

theorem cutTag_value {quote : Char} {value : Text} (hvalue : quote ∉ value) (rest : Text) :
    cutTag (some quote) (value ++ quote :: rest) =
      (cutTag none rest).map fun (inside, behind) => (value ++ quote :: inside, behind) := by
  induction value with
  | nil => simp [cutTag]
  | cons c value ih =>
      rw [List.mem_cons, not_or] at hvalue
      have hc : (c == quote) = false := by simpa using Ne.symm hvalue.1
      rw [List.cons_append, cutTag, hc, if_neg Bool.false_ne_true, ih hvalue.2, Option.map_map]
      rfl

variable {attributes name text : Text} {position : Nat}

theorem Closed.cutTag_append (h : Closed attributes) (behind : Text) :
    cutTag none (attributes ++ '>' :: behind) = some (attributes, behind) := by
  induction h with
  | nil => rfl
  | plain c rest hangle hdouble hsingle _ ih =>
      rw [List.cons_append, cutTag, if_neg (by simpa using hangle)]
      simp [hdouble, hsingle, ih]
  | quoted quote value rest hquote hvalue _ ih =>
      have hangle : (quote == '>') = false := by rcases hquote with rfl | rfl <;> rfl
      have hopens : (quote == '"' || quote == '\'') = true := by
        rcases hquote with rfl | rfl <;> rfl
      rw [List.cons_append, List.cons_append, List.append_assoc, List.cons_append, cutTag, hangle,
        if_neg Bool.false_ne_true]
      simp only [hopens, if_true]
      rw [cutTag_value hvalue, ih]
      rfl

def Apart (block other : Block) : Prop :=
  block.stop ≤ other.start ∨ other.stop ≤ block.start

instance : Std.Symm Apart :=
  ⟨fun _ _ => Or.symm⟩

theorem isMark_openingTag (hname : '<' ∉ name) : (openingTag name).IsMark := hname

theorem isMark_closingTag (hname : '<' ∉ name) : (closingTag name).IsMark := by
  simp [closingTag, Text.IsMark, hname]

def write (name attributes content : Text) : Text :=
  openingTag name ++ attributes ++ '>' :: content ++ closingTag name

/-- What may be written between the name of a tag and its closing angle. -/
structure IsAttributes (attributes : Text) : Prop where
  closed : Closed attributes
  separated : ∀ c ∈ attributes.head?, c = ' ' ∨ c = '\t' ∨ c = '\n' ∨ c = '\r'
  not_selfClosing : attributes.getLast? ≠ some '/'

theorem length_write (name attributes content : Text) :
    (write name attributes content).length =
      (openingTag name).length + attributes.length + 1 + content.length +
        (closingTag name).length := by
  simp only [write, List.length_append, List.length_cons]
  omega

theorem IsAttributes.endsTagName (h : IsAttributes attributes)
    (behind : Text) : endsTagName (attributes ++ '>' :: behind) = true := by
  cases attributes with
  | nil => rfl
  | cons c rest =>
      rcases h.separated c rfl with rfl | rfl | rfl | rfl <;> rfl

theorem scan_write {content : Text} (hname : '<' ∉ name) (hattributes : IsAttributes attributes)
    (hcontent : ¬closingTag name <:+: content) (position : Nat) (behind : Text) :
    scan name position (write name attributes content ++ behind) =
      .block ⟨position, position + (write name attributes content).length, attributes,
        content⟩ := by
  have htext : write name attributes content ++ behind =
      openingTag name ++ (attributes ++ '>' :: (content ++ closingTag name ++ behind)) := by
    simp [write]
  have hafter : Text.after? (openingTag name) (write name attributes content ++ behind) =
      some (attributes ++ '>' :: (content ++ closingTag name ++ behind)) := by
    rw [htext, Text.after?, if_pos (by simp), List.drop_left]
  have hselfClosing : (attributes.getLast? == some '/') = false := by
    simpa using hattributes.not_selfClosing
  simp only [scan, hafter, hattributes.endsTagName, if_true, ofTag,
    hattributes.closed.cutTag_append, hselfClosing,
    Text.cut?_append (isMark_closingTag hname) hcontent, length_write]
  simp only [Bool.false_eq_true, if_false, Nat.add_assoc]

theorem start_of_ofTag {found : Block}
    (h : ofTag name position text = .block found) : found.start = position := by
  unfold ofTag at h
  split at h
  · contradiction
  · dsimp only at h
    split at h
    · cases h
      rfl
    · split at h
      · contradiction
      · cases h
        rfl

theorem start_of_scan {found : Block}
    (h : scan name position text = .block found) : found.start = position := by
  unfold scan at h
  split at h
  · contradiction
  · split at h
    · exact start_of_ofTag h
    · contradiction

theorem scan_eq_other (h : ¬openingTag name <+: text) (position : Nat) :
    scan name position text = .other := by
  simp [scan, Text.after?, h]

theorem allFrom_skip (name : Text) (skip position : Nat) (text : Text) :
    allFrom name skip position text = allFrom name 0 (position + skip) (text.drop skip) := by
  induction skip generalizing position text with
  | zero => rfl
  | succ skip ih =>
      cases text with
      | nil => simp [allFrom]
      | cons c rest =>
          rw [allFrom, ih, List.drop_succ_cons, Nat.add_right_comm, Nat.add_assoc]

theorem allFrom_free {behind : Text} (hname : '<' ∉ name) (hfree : ¬openingTag name <:+: text)
    (hmeets : Text.MeetsMark (openingTag name) behind) (position : Nat) :
    allFrom name 0 position (text ++ behind) = allFrom name 0 (position + text.length) behind := by
  induction text generalizing position with
  | nil => rfl
  | cons c text ih =>
      have hbegins : ¬openingTag name <+: c :: text ++ behind :=
        Text.not_isPrefix_append (isMark_openingTag hname) (fun h => hfree h.isInfix)
          (List.cons_ne_nil c text) hmeets
      rw [List.cons_append] at hbegins ⊢
      rw [allFrom, scan_eq_other hbegins]
      dsimp only
      rw [ih (Text.not_isInfix_of_cons hfree), List.length_cons, Nat.add_assoc, Nat.add_comm 1]

theorem allFrom_write {content : Text} (hname : '<' ∉ name) (hattributes : IsAttributes attributes)
    (hcontent : ¬closingTag name <:+: content) (position : Nat) (behind : Text) :
    allFrom name 0 position (write name attributes content ++ behind) =
      ⟨position, position + (write name attributes content).length, attributes, content⟩ ::
        allFrom name 0 (position + (write name attributes content).length) behind := by
  have hscan := scan_write hname hattributes hcontent position behind
  obtain ⟨rest, hrest⟩ : ∃ rest, write name attributes content = '<' :: rest := ⟨_, rfl⟩
  have hlength : position + (write name attributes content).length - position - 1 =
      rest.length := by
    rw [hrest, List.length_cons]
    omega
  rw [hrest, List.cons_append] at hscan ⊢
  rw [allFrom, hscan]
  dsimp only
  rw [← hrest, hlength, allFrom_skip, List.drop_left, hrest, List.length_cons, Nat.add_assoc,
    Nat.add_comm 1]

theorem firstOutside_eq_head? {around : List Block} {skip : Nat}
    (h : ∀ block ∈ allFrom name skip position text, ∀ outer ∈ around,
      outer.holds block.start = false) :
    firstOutside name around skip position text = (allFrom name skip position text).head? := by
  induction text generalizing skip position with
  | nil => cases skip <;> rfl
  | cons c rest ih =>
      cases skip with
      | succ skip =>
          rw [allFrom] at h ⊢
          rw [firstOutside]
          exact ih h
      | zero =>
          rw [allFrom] at h ⊢
          rw [firstOutside]
          cases hscan : scan name position (c :: rest) with
          | other =>
              rw [hscan] at h
              exact ih h
          | unclosed => rfl
          | block found =>
              rw [hscan] at h
              have hnone : around.find? (fun block => block.holds position) = none := by
                rw [List.find?_eq_none]
                intro outer houter
                rw [← start_of_scan hscan, h found List.mem_cons_self outer houter]
                exact Bool.false_ne_true
              simp [hnone]

end Block

end ComponentDocs
