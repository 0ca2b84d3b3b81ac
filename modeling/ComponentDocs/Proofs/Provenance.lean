import ComponentDocs.Proofs.Extraction

/-!
# Where resolved types come from

Every type that a lookup remembered comes from a declaration that was taken in since the
resolver was cleared.  The declaration stood under the name itself or under the name by
which an import knows it.
-/

namespace ComponentDocs

open ComponentDocs.Types

/-- The keys under which a lookup of a name looks for its declaration: the name itself, and
what an import that binds it calls it, with or without the file of a module. -/
inductive Types.IsKeyFor (imports : List Import) (name : Text) : Text → Prop
  | bare : IsKeyFor imports name name
  | exported (record : Import) :
      record ∈ imports → record.binds name = true →
        IsKeyFor imports name (record.exportedName name)
  | exportedFrom (record : Import) (target : Text) :
      record ∈ imports → record.binds name = true →
        IsKeyFor imports name (fileKey target (record.exportedName name))

variable {known : Known} {imports : List Import} {type : ResolvedType} {sources : Sources}
  {file name key : Text} {extraction : Extraction}

namespace Types

theorem Catalog.declarationIn?_cases {catalog : Catalog}
    (h : catalog.declarationIn? file name = some known) :
    catalog.declaration? (fileKey file name) = some known ∨
      catalog.declaration? name = some known := by
  unfold declarationIn? at h
  cases hkey : catalog.declaration? (fileKey file name) with
  | some stored =>
      rw [hkey] at h
      exact .inl h
  | none =>
      rw [hkey] at h
      exact .inr h

namespace Sources

theorem resolved?_remember {other otherName : Text}
    (h : (sources.remember file name known).sources.catalog.resolved? other otherName =
      some type) :
    sources.catalog.resolved? other otherName = some type ∨
      other = file ∧ otherName = name ∧ type = known.resolve name := by
  rcases resolved?_remember_cases h with rfl | hbefore
  · by_cases hkey : (other, otherName) = (file, name)
    · cases hkey
      exact .inr ⟨rfl, rfl, rfl⟩
    · rw [remember, Catalog.resolved?_addResolved, Known.resolve, if_neg hkey] at h
      exact .inl h
  · exact .inl hbefore

/-- What a lookup adds to the types that are remembered: at most the declaration under one
of its keys. -/
theorem resolved?_lookup_cases {other otherName : Text}
    (h : (sources.lookup name file imports).sources.catalog.resolved? other otherName =
      some type) :
    sources.catalog.resolved? other otherName = some type ∨
      other = file ∧ otherName = name ∧ ∃ key known, IsKeyFor imports name key ∧
        (sources.lookup name file imports).sources.catalog.declaration? key = some known ∧
        type = known.resolve name := by
  cases hresolved : sources.catalog.resolved? file name with
  | some type =>
      rw [lookup_hit hresolved] at h
      exact .inl h
  | none =>
      cases hdeclared : sources.catalog.declaration? name with
      | some known =>
          rw [lookup_declared hresolved hdeclared] at h ⊢
          refine (resolved?_remember h).imp_right ?_
          rintro ⟨rfl, rfl, rfl⟩
          exact ⟨rfl, rfl, _, known, .bare, hdeclared, rfl⟩
      | none =>
          cases hrecord : imports.find? (fun record => record.binds name) with
          | none =>
              rw [lookup_unbound hresolved hdeclared hrecord] at h
              exact .inl h
          | some record =>
              have hmem := List.mem_of_find?_eq_some hrecord
              have hbinds : record.binds name = true := by simpa using List.find?_some hrecord
              rw [lookup_imported hresolved hdeclared hrecord] at h ⊢
              cases htarget : sources.workspace.resolveModule? file record.source with
              | none =>
                  rw [(lookupImported_unresolved htarget name).1] at h
                  exact .inl h
              | some target =>
                  rw [lookupImported_resolved htarget] at h ⊢
                  unfold lookupIn at h ⊢
                  dsimp only at h ⊢
                  split at h
                  · next known hknown =>
                      refine (resolved?_remember h).imp (by simp) ?_
                      rintro ⟨rfl, rfl, rfl⟩
                      rcases Catalog.declarationIn?_cases hknown with hkey | hkey
                      · exact ⟨rfl, rfl, _, known, .exportedFrom record target hmem hbinds, hkey,
                          rfl⟩
                      · exact ⟨rfl, rfl, _, known, .exported record hmem hbinds, hkey, rfl⟩
                  · rw [resolved?_load] at h
                    exact .inl h

end Sources

end Types

theorem Extraction.known?_cases (h : extraction.known? key = some known) :
    known.file = extraction.file ∧ known.declaration ∈ extraction.declarations ∧
      (key = known.declaration.name ∨
        key = fileKey extraction.file known.declaration.name) := by
  obtain ⟨declaration, hlast, rfl⟩ := Option.map_eq_some_iff.mp h
  refine ⟨rfl, List.mem_reverse.mp (List.mem_of_find?_eq_some hlast), ?_⟩
  simpa using List.find?_some hlast

/-- A key of a lookup tells the name of the declaration under it, unless there are colons
in the names. -/
theorem Types.IsKeyFor.declaration_name (h : IsKeyFor imports name key)
    (hknown : extraction.known? key = some known) (hname : ':' ∉ name)
    (hexported : ∀ record ∈ imports, record.binds name = true →
      ':' ∉ record.exportedName name) :
    known.declaration.name = name ∨ ∃ record ∈ imports, record.binds name = true ∧
      known.declaration.name = record.exportedName name := by
  obtain ⟨-, hmem, hkey⟩ := Extraction.known?_cases hknown
  have hcolon := Extraction.colon_not_mem_of_mem hmem
  have hbare : ∀ {word : Text}, ':' ∉ word →
      word = known.declaration.name ∨ word = fileKey extraction.file known.declaration.name →
        known.declaration.name = word := by
    rintro word hword (rfl | rfl)
    · rfl
    · simp [fileKey] at hword
  cases h with
  | bare => exact .inl (hbare hname hkey)
  | exported record hrecord hbinds =>
      exact .inr ⟨record, hrecord, hbinds, hbare (hexported record hrecord hbinds) hkey⟩
  | exportedFrom record target hrecord hbinds =>
      refine .inr ⟨record, hrecord, hbinds, ?_⟩
      rcases hkey with hkey | hkey
      · rw [← hkey] at hcolon
        simp [fileKey] at hcolon
      · exact (fileKey_inj (hexported record hrecord hbinds) hcolon hkey).2.symm

/-- A type that a name refers to by one of the extractions.  If there are no colons in the
names, its declaration has the name itself or the one that an import gave to a lookup. -/
structure Genuine (extractions : List Extraction) (events : List Event) (file name : Text)
    (type : ResolvedType) : Prop where
  name_eq : type.name = name
  declared : ∃ extraction ∈ extractions, type.sourceFile = some extraction.file ∧
    ∃ declaration ∈ extraction.declarations, type.definition = declaration.text ∧
      type.dependencies = dependencyNames declaration.text declaration.name ∧
      (':' ∉ name →
        (∀ imports record, .lookedUp name file imports ∈ events → record ∈ imports →
          record.binds name = true → ':' ∉ record.exportedName name) →
        declaration.name = name ∨
          ∃ imports record, .lookedUp name file imports ∈ events ∧ record ∈ imports ∧
            record.binds name = true ∧ declaration.name = record.exportedName name)

namespace Genuine

theorem mono {extractions more : List Extraction} {events later : List Event}
    (h : Genuine extractions events file name type) (hextractions : extractions ⊆ more)
    (hevents : events ⊆ later) :
    Genuine more later file name type := by
  obtain ⟨hname, extraction, hextraction, hfile, declaration, hdeclaration, htext, hdependencies,
    hnamed⟩ := h
  refine ⟨hname, extraction, hextractions hextraction, hfile, declaration, hdeclaration, htext,
    hdependencies, fun hcolon hexported => ?_⟩
  refine (hnamed hcolon fun imports record hevent => ?_).imp_right ?_
  · exact hexported imports record (hevents hevent)
  · rintro ⟨imports, record, hevent, hrecord⟩
    exact ⟨imports, record, hevents hevent, hrecord⟩

theorem of_key {extractions : List Extraction} {events : List Event}
    (hextraction : extraction ∈ extractions) (hevent : .lookedUp name file imports ∈ events)
    (hkey : IsKeyFor imports name key) (hknown : extraction.known? key = some known) :
    Genuine extractions events file name (known.resolve name) := by
  obtain ⟨hfile, hdeclaration, -⟩ := Extraction.known?_cases hknown
  refine ⟨rfl, extraction, hextraction, congrArg some hfile, known.declaration, hdeclaration, rfl,
    rfl, fun hcolon hexported => ?_⟩
  refine (hkey.declaration_name hknown hcolon fun record hrecord =>
    hexported imports record hevent hrecord).imp_right ?_
  rintro ⟨record, hrecord, hbinds, hname⟩
  exact ⟨imports, record, hevent, hrecord, hbinds, hname⟩

end Genuine

def Types.Catalog.IsGenuine (catalog : Catalog) (extractions : List Extraction)
    (events : List Event) : Prop :=
  ∀ file name type, catalog.resolved? file name = some type →
    Genuine extractions events file name type

theorem Types.Catalog.isGenuine_empty : IsGenuine {} [] [] := by
  intro file name type h
  contradiction

theorem Event.isGenuine_apply {earlier : List Extraction} {past : List Event}
    (hreflects : sources.catalog.Reflects earlier) (h : sources.catalog.IsGenuine earlier past)
    (event : Event) :
    (event.apply sources).catalog.IsGenuine (event.extractions sources earlier)
      (past ++ [event]) := by
  intro file name type hresolved
  have hpast : past ⊆ past ++ [event] := List.subset_append_left past [event]
  cases event with
  | inserted | opened => exact (h file name type hresolved).mono (List.Subset.refl _) hpast
  | defined source path =>
      exact (h file name type hresolved).mono (List.subset_append_left earlier _) hpast
  | cleared => contradiction
  | lookedUp other place imports =>
      rcases Sources.resolved?_lookup_cases hresolved with hold | ⟨rfl, rfl, key, known, hkey,
        hknown, rfl⟩
      · exact (h file name type hold).mono (List.subset_append_left earlier _) hpast
      · have hafter := Sources.reflects_lookup hreflects name file imports
        rw [hafter.declared] at hknown
        obtain ⟨extraction, hextraction, hfound⟩ := List.exists_of_findSome?_eq_some hknown
        exact .of_key (List.mem_reverse.mp hextraction) (by simp) hkey hfound

/--
Every resolved type is genuine.  What a name is remembered to refer to in a file has that
name and the path of a file, of which a text was taken in since the resolver was cleared;
its definition and its dependencies are those of a declaration in that text.  If there are
no colons in the names, the declaration has the name itself or the name that an import gave
to a lookup of it.
-/
theorem resolved_genuine (workspace : Workspace) (operations : List Operation)
    {file name : Text} {type : ResolvedType}
    (h : (Session.run workspace operations).sources.catalog.resolved? file name = some type) :
    Genuine (Session.extractions workspace operations) (Session.events workspace operations) file
      name type := by
  suffices hall : ∀ (happened : List Event) (sources : Sources) (earlier : List Extraction)
      (past : List Event), sources.catalog.Reflects earlier →
      sources.catalog.IsGenuine earlier past →
        (Event.replay sources happened).catalog.IsGenuine
          (Session.extractionsFrom sources earlier happened) (past ++ happened) by
    rw [Session.run_sources] at h
    exact hall _ _ [] [] Catalog.reflects_empty Catalog.isGenuine_empty _ _ _ h
  intro happened
  induction happened with
  | nil =>
      intro sources earlier past _ hgenuine
      rw [List.append_nil]
      exact hgenuine
  | cons event happened ih =>
      intro sources earlier past hreflects hgenuine
      have hnext := ih _ _ (past ++ [event]) (Event.reflects_apply hreflects event)
        (Event.isGenuine_apply hreflects hgenuine event)
      rw [List.append_assoc] at hnext
      exact hnext

def renamedLookup : List Operation :=
  [.insertFile "/t.ts" (.text "interface T{t:X}"),
    .resolve "N" "/a.ts"
      [{ source := "./t", names := ["N"], renamed := [("N", "T")], typeOnly := true }]]

theorem resolved_genuine_renamed :
    (Session.run {} renamedLookup).sources.catalog.resolved? "/a.ts" "N" =
        some ⟨"N", "interface T{t:X}", ["X"], some "/t.ts".toList⟩ ∧
      Genuine (Session.extractions {} renamedLookup) (Session.events {} renamedLookup) "/a.ts" "N"
        ⟨"N", "interface T{t:X}", ["X"], some "/t.ts".toList⟩ :=
  ⟨by decide +kernel, resolved_genuine {} renamedLookup (by decide +kernel)⟩

end ComponentDocs
