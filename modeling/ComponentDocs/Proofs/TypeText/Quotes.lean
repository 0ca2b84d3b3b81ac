import ComponentDocs.Proofs.TypeText.Members
import ComponentDocs.Proofs.TypeText.Signatures
import ComponentDocs.Proofs.TypeText.Tracking

/-!
# Quoted texts that are read back

What is quoted from a source is read where it stands alone, in front of each of the punctuators that
may follow it.  If it is read there as what it has been in the source, then it is read so in every
text of a type.
-/

namespace ComponentDocs.Script

open ComponentDocs.Script.Parser

def Cursor.opening (text : Text) : Cursor :=
  { token := (Lexed.next {} 0 text).token, rest := (Lexed.next {} 0 text).rest }

theorem Cursor.faces_opening (text : Text) : (Cursor.opening text).Faces text text := by
  refine ⟨List.suffix_refl text, ⟨false, ?_⟩, ?_⟩
  all_goals rw [Nat.sub_self]
  · exact ⟨rfl, rfl⟩
  · rfl

/-- The condition holds of the text alone, with a blank in front of it and without, in front of
each of the punctuators and of nothing. -/
def holdsAlone (stops : List Punctuator) (text : Text)
    (condition : Text → Option Punctuator → Bool) : Bool :=
  [Spacing.tight, .loose].all fun spacing =>
    (scraps? (spacing.text ++ text)).isSome &&
      (none :: stops.map some).all (condition (spacing.text ++ text))

/-- The text alone, and where it stands in a source. -/
structure Twins.Stand (twins : Twins) (cursor : Cursor) : Prop where
  mirrors : twins.Mirrors (Cursor.opening twins.alone) cursor
  agrees : (typedContext twins.text).Agrees (typedContext twins.source)
  flawed_eq : cursor.flawed = twins.flawed
  openCovers_eq : cursor.openCovers = twins.openCovers

theorem exists_twins {stops : List Punctuator} {text source after : Text} {spacing : Spacing}
    {cursor : Cursor} {condition : Text → Option Punctuator → Bool}
    (h : holdsAlone stops text condition = true) (hmarks : stops ⊆ stopMarks)
    (hstops : Stops stops after) (hcursor : cursor.Faces source (spacing.text ++ (text ++ after))) :
    ∃ twins : Twins, twins.source = source ∧ twins.after = after ∧
      twins.text = spacing.text ++ text ∧ condition twins.text twins.stop = true ∧
        twins.Stand cursor := by
  obtain ⟨front, hfront⟩ := hcursor.isSuffix
  obtain ⟨stop, hstop, hends⟩ := hstops
  rw [holdsAlone, List.all_eq_true] at h
  have hspacing := h spacing (by cases spacing <;> simp)
  rw [Bool.and_eq_true, Option.isSome_iff_exists, List.all_eq_true] at hspacing
  obtain ⟨⟨scraps, hscraps⟩, hcondition⟩ := hspacing
  obtain ⟨htext, hplain⟩ := of_scraps? hscraps
  have hmem : stop ∈ none :: stops.map some := by
    cases stop with
    | none => exact List.mem_cons_self
    | some mark => simpa using hstop mark rfl
  let twins : Twins :=
    { front, text := spacing.text ++ text, stop, after, flawed := cursor.flawed,
      openCovers := cursor.openCovers, isStop := fun mark hmark => hmarks (hstop mark hmark),
      ends := hends }
  have hsource : twins.source = source := by
    simp only [twins, Twins.source, ← hfront, List.append_assoc]
  refine ⟨twins, hsource, rfl, rfl, hcondition stop hmem, ⟨scraps, hplain, ?_, ?_, ?_, rfl⟩, ?_,
    rfl, rfl⟩
  · rw [htext]
    exact Cursor.faces_opening _
  · rw [htext, hsource]
    simpa only [twins, List.append_assoc] using hcursor
  · exact (Bool.false_or _).symm
  · refine ⟨rfl, Nat.succ_pos _, ?_⟩
    simp only [typedContext_itemBound, Twins.source, List.length_append]
    omega

theorem Twins.Mirrors.is_eq {twins : Twins} {cursor other : Cursor}
    (h : twins.Mirrors cursor other) (mark : Punctuator) :
    other.token.is mark = cursor.token.is mark := by
  rw [Token.is, h.same_token.kind_eq, Token.is]

theorem Twins.Mirrors.faces_after {twins : Twins} {cursor other : Cursor}
    (h : twins.Mirrors cursor other) (hstop : cursor.previousStop = twins.text.length) :
    other.Faces twins.source twins.after := by
  obtain ⟨scraps, hmirror⟩ := h
  have hlength := hstop.symm.trans hmirror.alone.previousStop_eq
  have hsuffix := hmirror.alone.isSuffix.length_le
  simp only [Twins.alone, List.length_append] at hlength hsuffix
  have hnil : scrapsText scraps = [] := List.length_eq_zero_iff.mp (by omega)
  simpa only [hnil, List.nil_append] using hmirror.within

section Transfer

variable {α : Type} [Likeness α] {reader other : Parser α} {accepts : Text → α → Bool}
  {twins : Twins} {cursor : Cursor}

def readsAlone (reader : Parser α) (accepts : Text → α → Bool) (text : Text)
    (stop : Option Punctuator) : Bool :=
  (reader (typedContext text) (Cursor.opening (text ++ stopText stop))).any fun run =>
    accepts (text ++ stopText stop) run.1 && run.2.token.kind == endKind stop &&
      run.2.previousStop == text.length && !run.2.flawed

theorem Twins.Stand.reaches [htracks : Tracks twins reader other] (h : twins.Stand cursor)
    (hreads : readsAlone reader accepts twins.text twins.stop = true) (hsound : cursor.Sound) :
    Reaches other (typedContext twins.source) cursor fun result moved =>
      (∃ value, accepts twins.alone value = true ∧ Same twins value result) ∧
        moved.Before twins.source twins.after := by
  simp only [readsAlone, Option.any_eq_true, Bool.and_eq_true, beq_iff_eq,
    Bool.not_eq_true'] at hreads
  obtain ⟨⟨value, moved⟩, hrun, ⟨⟨haccepts, hkind⟩, hstop⟩, hflawed⟩ := hreads
  rcases htracks.tracksAt h.agrees h.mirrors _ _ hrun with hpast | hreaches
  · obtain ⟨mark, hmark⟩ := Option.ne_none_iff_exists'.mp hpast.1
    rw [hmark, hpast.2.kind_eq] at hkind
    contradiction
  · refine hreaches.mono fun result final hfinal => ⟨⟨value, haccepts, hfinal.1⟩, ?_⟩
    refine ⟨hfinal.2.faces_after hstop, ?_⟩
    obtain ⟨scraps, hmirror⟩ := hfinal.2
    constructor
    · rw [hmirror.flawed_eq, hflawed, Bool.false_or, ← h.flawed_eq, hsound.flawed_eq]
    · rw [hmirror.openCovers_eq, ← h.openCovers_eq, hsound.openCovers_eq]

end Transfer

/-! ## Types -/

inductive Place where
  | unit
  | operand
  | meet
  | type
  | result
  deriving DecidableEq

def Place.stops : Place → List Punctuator
  | .operand => meetStops
  | .meet => joinStops
  | .unit | .type | .result => closers

def Place.reader : Place → Grammar → Parser TypeNode
  | .operand => Grammar.typeOperand
  | .meet => intersectionType
  | .result => resultType
  | .unit | .type => Grammar.type

def ReadsAt : Place → Text → TypeShape → Prop
  | .unit => ReadsUnit
  | .operand => ReadsOperand
  | .meet => ReadsMeet
  | .type => ReadsType
  | .result => ReadsResult

instance (place : Place) {twins : Twins} {g g' : Grammar} [g.IsStable] [g.IsTracked twins g'] :
    Tracks twins (place.reader g) (place.reader g') := by
  cases place with
  | meet => exact Tracks.joinedTypes inferInstance
  | result => exact inferInstanceAs (Tracks twins (resultType g) (resultType g'))
  | operand => exact inferInstanceAs (Tracks twins g.typeOperand g'.typeOperand)
  | _ => exact inferInstanceAs (Tracks twins g.type g'.type)

theorem Parser.yields_atFunctionType {g : Grammar} {context : Context} {cursor : Cursor} :
    Yields (atFunctionType g) context cursor fun _ moved => moved = cursor := by
  simp only [atFunctionType, yields_bind, yields_token]
  split
  · simp
  · split
    · rintro _ _ ⟨⟩
      rfl
    · simp

def leadsAlone (text : Text) (stop : Option Punctuator) : Bool :=
  (predicateSubject (typedContext text) (Cursor.opening (text ++ stopText stop))).isNone

def startsAlone (text : Text) (stop : Option Punctuator) : Bool :=
  let cursor := Cursor.opening (text ++ stopText stop)
  (atFunctionType (quotedGrammar 0) (typedContext text) cursor).any (!·.1) &&
    !cursor.token.is .bar && !cursor.token.is .ampersand

/-- The text is read alone as a type of the shape, and begins as a type in its place does. -/
def quotesType (place : Place) (text : Text) (shape : TypeShape) : Bool :=
  let reads := readsAlone (place.reader (quotedGrammar (8 * text.length - 1)))
    fun alone type => (type.shape alone).same shape
  !text.isEmpty && place != .unit && holdsAlone place.stops text fun text stop =>
    reads text stop && (place == .result || leadsAlone text stop) &&
      (place == .result || place == .type || startsAlone text stop)

section Types

variable {twins : Twins} {cursor : Cursor} {place : Place} {text : Text} {shape : TypeShape}

theorem Place.stops_subset (place : Place) : place.stops ⊆ stopMarks := by
  cases place <;> decide

theorem Twins.Stand.notPredicate (h : twins.Stand cursor)
    (hleads : leadsAlone twins.text twins.stop = true) :
    Yields predicateSubject (typedContext twins.source) cursor fun _ _ => False := by
  have hmatches : MatchesAt twins predicateSubject predicateSubject _ _ _ _ :=
    Matches.matchesAt h.agrees h.mirrors
  rw [leadsAlone, Option.isNone_iff_eq_none] at hleads
  rw [MatchesAt, show Cursor.opening twins.alone = _ from rfl, Twins.alone, hleads] at hmatches
  intro value moved hrun
  rw [hrun] at hmatches
  contradiction

theorem Twins.Stand.startsPart (h : twins.Stand cursor)
    (hstarts : startsAlone twins.text twins.stop = true) : cursor.StartsPart twins.source := by
  simp only [startsAlone, Bool.and_eq_true, Option.any_eq_true, Bool.not_eq_true'] at hstarts
  obtain ⟨⟨⟨⟨found, moved⟩, hrun, hfound⟩, hbar⟩, hampersand⟩ := hstarts
  refine ⟨fun depth => ?_, (h.mirrors.is_eq .bar).trans hbar,
    (h.mirrors.is_eq .ampersand).trans hampersand⟩
  have hmatches : MatchesAt twins (atFunctionType (quotedGrammar 0))
    (atFunctionType (grammar depth)) _ _ _ _ := Matches.matchesAt h.agrees h.mirrors
  rw [MatchesAt, Twins.alone, hrun] at hmatches
  generalize hcopied : atFunctionType (grammar depth) (typedContext twins.source) cursor = copied
    at hmatches
  cases hmatches with
  | some hresult =>
      exact ⟨_, _, hcopied, hresult.1.alike.trans hfound, yields_atFunctionType _ _ hcopied⟩

theorem exists_twins_of_quotesType {source after : Text} {spacing : Spacing}
    (h : quotesType place text shape = true) (hstops : Stops place.stops after)
    (hcursor : cursor.Faces source (spacing.text ++ (text ++ after))) :
    ∃ twins : Twins, twins.source = source ∧ twins.after = after ∧ twins.Stand cursor ∧
      readsAlone (place.reader (quotedGrammar (8 * text.length - 1)))
        (fun alone type => (type.shape alone).same shape) twins.text twins.stop = true ∧
      (place = .result ∨ leadsAlone twins.text twins.stop = true) ∧
      ((place = .result ∨ place = .type) ∨ startsAlone twins.text twins.stop = true) := by
  rw [quotesType, Bool.and_eq_true] at h
  obtain ⟨twins, hsource, hafter, -, hcondition, hstand⟩ :=
    exists_twins h.2 place.stops_subset hstops hcursor
  simp only [Bool.and_eq_true, Bool.or_eq_true, beq_iff_eq] at hcondition
  exact ⟨twins, hsource, hafter, hstand, hcondition.1.1, hcondition.1.2, hcondition.2⟩

theorem reads_of_quotesType (h : quotesType place text shape = true) :
    Reads place.reader 1 place.stops text shape := by
  intro source after cursor spacing depth hstops hcursor hdepth
  obtain ⟨twins, rfl, rfl, hstand, hreads, -⟩ :=
    exists_twins_of_quotesType h hstops hcursor.faces
  have := quotedGrammar_isTracked twins (show 8 * text.length - 1 ≤ depth by omega)
  refine (hstand.reaches hreads hcursor.sound).mono ?_
  rintro type moved ⟨⟨value, hshape, hsame⟩, hmoved⟩
  exact ⟨hsame.alike.trans (TypeShape.eq_of_same hshape), hmoved⟩

theorem leads_of_quotesType (h : quotesType place text shape = true) (hplace : place ≠ .result) :
    Leads place.stops text := by
  refine ⟨?_, fun hstops hcursor => ?_⟩
  · simp only [quotesType, Bool.and_eq_true, Bool.not_eq_true', List.isEmpty_eq_false_iff] at h
    exact List.length_pos_iff.mpr h.1.1
  · obtain ⟨twins, rfl, -, hstand, -, hleads, -⟩ := exists_twins_of_quotesType h hstops hcursor
    exact hstand.notPredicate (hleads.resolve_left hplace)

theorem starts_of_quotesType {source after : Text} {spacing : Spacing}
    (h : quotesType place text shape = true) (hplace : place ≠ .result ∧ place ≠ .type)
    (hstops : Stops place.stops after)
    (hcursor : cursor.Faces source (spacing.text ++ (text ++ after))) :
    cursor.StartsPart source := by
  obtain ⟨twins, rfl, -, hstand, -, -, hstarts⟩ := exists_twins_of_quotesType h hstops hcursor
  exact hstand.startsPart (hstarts.resolve_left (not_or.mpr hplace))

theorem readsAt_of_quotesType (h : quotesType place text shape = true) :
    ReadsAt place text shape := by
  have hreads : Reads place.reader 1 place.stops text shape := reads_of_quotesType h
  cases place with
  | unit => simp [quotesType] at h
  | operand => exact ⟨leads_of_quotesType h (by decide), starts_of_quotesType h (by decide), hreads⟩
  | meet => exact ⟨leads_of_quotesType h (by decide), starts_of_quotesType h (by decide), hreads⟩
  | type =>
      exact ⟨leads_of_quotesType h (by decide), fun hstops hcursor hdepth =>
        hreads hstops hcursor (by omega)⟩
  | result =>
      intro source after cursor spacing depth hstops hcursor hdepth
      exact hreads hstops hcursor (by omega)

end Types

/-! ## Parentheses -/

/-- Behind a parenthesis, the text does not begin like a parameter. -/
def opensAlone (text : Text) (stop : Option Punctuator) : Bool :=
  let cursor := Cursor.opening (text ++ stopText stop)
  cursor.token.kind.opensPlainly && !cursor.token.is .closeParen && !cursor.token.is .ellipsis &&
    (!isWord cursor.token || cursor.advance.previousStop == text.length ||
      parameterEnds.all fun mark => !cursor.advance.token.is mark)

theorem opens_of_holdsAlone {text : Text} (h : holdsAlone closers text opensAlone = true) :
    Opens text := by
  intro source after cursor spacing hstops hcursor
  obtain ⟨twins, rfl, rfl, -, hopens, hstand⟩ := exists_twins h (by decide) hstops hcursor
  simp only [opensAlone, Bool.and_eq_true, List.all_eq_true, Bool.not_eq_true',
    Bool.or_eq_true, beq_iff_eq] at hopens
  obtain ⟨⟨⟨hplain, hclose⟩, hdots⟩, hnext⟩ := hopens
  have hkind := hstand.mirrors.same_token.kind_eq
  refine ⟨?_, hkind ▸ hplain, fun hword => ?_⟩
  · simpa [hstand.mirrors.is_eq, Twins.alone] using And.intro hclose hdots
  · have hword' : isWord (Cursor.opening twins.alone).token = true := by
      rw [isWord, ← hkind]
      exact hword
    have hmirrors := hstand.mirrors.advance_inner (Token.isInner_of_isWord hword')
    rcases hnext with (hno | hstop) | hgoesOn
    · exact absurd hword' (Bool.eq_false_iff.mp hno)
    · exact .inl (hmirrors.faces_after hstop)
    · exact .inr fun mark hmark => (hmirrors.is_eq mark).trans (hgoesOn mark hmark)

/-! ## Parameters -/

/-- The text begins with the name of a parameter. -/
def startsParameter (text : Text) (stop : Option Punctuator) : Bool :=
  let cursor := Cursor.opening (text ++ stopText stop)
  cursor.token.kind.opensPlainly && isPlainName cursor.token &&
    (cursor.advance.previousStop == text.length ||
      [Punctuator.colon, .question, .assign].any (cursor.advance.token.is ·))

def quotesParameter (text : Text) (shape : ParameterShape) : Bool :=
  let reads := readsAlone (parameter (quotedGrammar (8 * text.length)))
    fun alone parameter => (parameter.shape alone).same shape
  holdsAlone parameterStops text fun text stop => startsParameter text stop && reads text stop

def quotesRest (text : Text) (shape : ParameterShape) : Bool :=
  let reads := readsAlone (restParameter (quotedGrammar (8 * text.length)))
    fun alone parameter => (parameter.shape alone).same shape
  holdsAlone [.closeParen] text fun text stop =>
    (Cursor.opening (text ++ stopText stop)).token.is .ellipsis && reads text stop

section Parameters

variable {text : Text} {shape : ParameterShape}

theorem Twins.Stand.startsParameter {twins : Twins} {cursor : Cursor} (h : twins.Stand cursor)
    (hstarts : Script.startsParameter twins.text twins.stop = true) :
    cursor.token.kind.opensPlainly = true ∧ isPlainName cursor.token = true ∧
      (cursor.advance.Faces twins.source twins.after ∨
        ∃ mark ∈ [Punctuator.colon, .question, .assign], cursor.advance.token.is mark = true) := by
  simp only [Script.startsParameter, Bool.and_eq_true, Bool.or_eq_true, beq_iff_eq,
    List.any_eq_true] at hstarts
  obtain ⟨⟨hplain, hname⟩, hnext⟩ := hstarts
  have hkind := h.mirrors.same_token.kind_eq
  have hmirrors := h.mirrors.advance_inner (Token.isInner_of_isWord (isWord_of_plain
    (by rw [Twins.alone, hname, Bool.true_or])))
  refine ⟨hkind ▸ hplain, by rw [isPlainName, hkind]; exact hname, ?_⟩
  refine hnext.imp hmirrors.faces_after ?_
  rintro ⟨mark, hmark, his⟩
  exact ⟨mark, hmark, (hmirrors.is_eq mark).trans his⟩

theorem readsParameter_of_quotesParameter (h : quotesParameter text shape = true) :
    ReadsParameter text shape := by
  have hmarks : parameterStops ⊆ stopMarks := by decide
  rw [quotesParameter] at h
  refine ⟨fun hstops hcursor => ?_, fun {_ _ _ _ depth} hstops hcursor hdepth => ?_,
    fun {_ _ _ _ depth} hstops hcursor hdepth => ?_⟩
  · obtain ⟨twins, -, -, -, hcondition, hstand⟩ := exists_twins h hmarks hstops hcursor
    rw [Bool.and_eq_true] at hcondition
    obtain ⟨-, hname, -⟩ := hstand.startsParameter hcondition.1
    revert hname
    unfold isPlainName
    split <;> simp_all [Token.is, Token.isKeyword]
    rintro hreserved rfl
    contradiction
  · obtain ⟨twins, rfl, rfl, -, hcondition, hstand⟩ := exists_twins h hmarks hstops hcursor
    rw [Bool.and_eq_true] at hcondition
    obtain ⟨hplain, hname, hnext⟩ := hstand.startsParameter hcondition.1
    have hbound : 0 < (typedContext twins.source).itemBound := Nat.succ_pos _
    have hrun := skipParameterStart_apply (grammar depth) hbound hplain
    rw [hname, Bool.true_or, if_pos rfl] at hrun
    exact ⟨_, _, hrun, rfl, hnext⟩
  · obtain ⟨twins, rfl, rfl, -, hcondition, hstand⟩ := exists_twins h hmarks hstops hcursor.faces
    rw [Bool.and_eq_true] at hcondition
    have := quotedGrammar_isTracked twins hdepth
    refine (hstand.reaches hcondition.2 hcursor.sound).mono ?_
    rintro parameter moved ⟨⟨value, hshape, hsame⟩, hmoved⟩
    exact ⟨hsame.alike.trans (ParameterShape.eq_of_same hshape), hmoved⟩

theorem readsRest_of_quotesRest (h : quotesRest text shape = true) : ReadsRest text shape := by
  have hmarks : [Punctuator.closeParen] ⊆ stopMarks := by decide
  have hstops : ∀ after, Stops [.closeParen] (')' :: after) :=
    fun after => Stops.sign .closeParen (by decide) (by decide) (absurd · (by decide))
  rw [quotesRest] at h
  refine ⟨fun hcursor => ?_, fun hcursor hdepth => ?_⟩
  · obtain ⟨twins, rfl, -, -, hcondition, hstand⟩ := exists_twins h hmarks (hstops _) hcursor
    rw [Bool.and_eq_true] at hcondition
    exact (hstand.mirrors.is_eq .ellipsis).trans hcondition.1
  · obtain ⟨twins, rfl, hafter, -, hcondition, hstand⟩ :=
      exists_twins h hmarks (hstops _) hcursor.faces
    rw [Bool.and_eq_true] at hcondition
    have := quotedGrammar_isTracked twins hdepth
    refine (hstand.reaches hcondition.2 hcursor.sound).mono ?_
    rintro parameter moved ⟨⟨value, hshape, hsame⟩, hmoved⟩
    exact ⟨hsame.alike.trans (ParameterShape.eq_of_same hshape), hafter ▸ hmoved⟩

end Parameters

/-! ## Members -/

instance {twins : Twins} : Matches twins mappedStart mappedStart := by
  unfold mappedStart
  infer_instance

/-- The text is read alone as a member of the shape, and begins neither like the end of an object
type nor like a mapped type. -/
def quotesMember (text : Text) (shape : MemberShape) : Bool :=
  let reader := bareMember (quotedGrammar (8 * text.length))
  holdsAlone closers text fun text stop =>
    let cursor := Cursor.opening (text ++ stopText stop)
    !cursor.token.is .closeBrace && (mappedStart (typedContext text) cursor).all (!·.1) &&
      readsAlone reader (fun alone build =>
        ((build ⟨cursor.token.span.start, text.length⟩).shape alone).same shape) text stop

theorem Span.text_append (start : Nat) (text rest : Text) :
    Span.text ⟨start, text.length⟩ (text ++ rest) = text.drop start := by
  rw [Span.text, List.drop_append, List.take_left' (List.length_drop ..)]

theorem MemberEnds.memberText_eq {twins : Twins} {rest : Text} (h : MemberEnds twins.after rest)
    (start : Nat) :
    Span.memberText twins.source
        ⟨start + twins.front.length, twins.source.length - rest.length⟩ =
      Span.memberText twins.alone ⟨start, twins.text.length⟩ := by
  obtain ⟨separator, hseparator, hafter⟩ : ∃ separator,
      (∀ c ∈ separator, c = ';') ∧ twins.after = separator ++ rest := by
    generalize twins.after = after at h
    cases h with
    | separator rest => exact ⟨[';'], by simp, rfl⟩
    | last rest => exact ⟨[], by simp, rfl⟩
  have hsource : twins.source = twins.front ++ (twins.text ++ separator) ++ rest := by
    rw [Twins.source, hafter, List.append_assoc, List.append_assoc]
  have hlength : twins.source.length - rest.length =
      (twins.front ++ (twins.text ++ separator)).length := by
    rw [hsource, List.length_append, Nat.add_sub_cancel]
  have hdrop : ∀ c ∈ separator.drop (start - twins.text.length),
      (c == ';' || c == ',') = true := by
    intro c hc
    rw [hseparator c (List.mem_of_mem_drop hc)]
    rfl
  rw [Span.memberText, Span.memberText, hlength, hsource, Span.text_append, Nat.add_comm start,
    List.drop_length_add_append, List.drop_append, Twins.alone, Span.text_append,
    Text.dropEndWhile, List.reverse_append,
    List.dropWhile_append_of_pos fun c hc => hdrop c (List.mem_reverse.mp hc), Text.dropEndWhile]

theorem readsMember_of_quotesMember {text : Text} {shape : MemberShape}
    (h : quotesMember text shape = true) : ReadsMember text shape := by
  rw [quotesMember] at h
  refine ⟨fun hends hcursor => ?_, fun hends hcursor => ?_,
    fun {_ _ _ _ _ depth} hends hcursor hdepth => ?_⟩
  · obtain ⟨twins, -, -, -, hcondition, hstand⟩ := exists_twins h (by decide) hends.stops hcursor
    simp only [Bool.and_eq_true, Bool.not_eq_true'] at hcondition
    exact (hstand.mirrors.is_eq .closeBrace).trans hcondition.1.1
  · obtain ⟨twins, rfl, -, -, hcondition, hstand⟩ :=
      exists_twins h (by decide) hends.stops hcursor
    simp only [Bool.and_eq_true, Option.all_eq_true, Bool.not_eq_true'] at hcondition
    have hmatches : MatchesAt twins mappedStart mappedStart _ _ _ _ :=
      Matches.matchesAt hstand.agrees hstand.mirrors
    intro found moved hrun
    rw [MatchesAt, hrun] at hmatches
    generalize halone : mappedStart (typedContext twins.text) (Cursor.opening twins.alone) = run
      at hmatches
    cases hmatches with
    | some hsame => exact hsame.1.alike.trans (hcondition.1.2 _ halone)
  · obtain ⟨twins, rfl, rfl, -, hcondition, hstand⟩ :=
      exists_twins h (by decide) hends.stops hcursor.faces
    rw [Bool.and_eq_true] at hcondition
    have := quotedGrammar_isTracked twins hdepth
    refine (hstand.reaches hcondition.2 hcursor.sound).mono ?_
    rintro build moved ⟨⟨value, hshape, hsame⟩, hmoved⟩
    refine ⟨(hsame.alike _ _ ?_).trans (MemberShape.eq_of_same hshape), hmoved⟩
    rw [show _ = _ from hstand.mirrors.same_start.alike]
    exact hends.memberText_eq _

end ComponentDocs.Script
