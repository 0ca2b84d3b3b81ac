import ComponentDocs.Proofs.Types.Closure
import ComponentDocs.Proofs.Types.Growth

/-!
# Searches that are repeated

A search that is made again when more is known takes the same turns as before, and changes
nothing, if no lookup that was made in vain has come to find something.
-/

namespace ComponentDocs.Types

theorem Catalog.declarationIn?_eq_none_iff {catalog : Catalog} {file name : Text} :
    catalog.declarationIn? file name = none ↔
      catalog.declaration? (fileKey file name) = none ∧ catalog.declaration? name = none := by
  unfold declarationIn?
  cases catalog.declaration? (fileKey file name) <;> simp

namespace Sources

variable {sources : Sources} {name file : Text} {imports : List Import}

theorem unknown_of_lookup_none (h : (sources.lookup name file imports).found = none) :
    sources.catalog.resolved? file name = none ∧ sources.catalog.declaration? name = none := by
  cases hresolved : sources.catalog.resolved? file name with
  | some type => simp [lookup_hit hresolved] at h
  | none =>
      cases hdeclared : sources.catalog.declaration? name with
      | some known => simp [lookup_declared hresolved hdeclared, remember] at h
      | none => simp

theorem module?_of_lookup_none (h : (sources.lookup name file imports).found = none) :
    sources.module? name file imports =
      (imports.find? fun record => record.binds name).bind fun record =>
        sources.workspace.resolveModule? file record.source := by
  obtain ⟨hresolved, hdeclared⟩ := unknown_of_lookup_none h
  simp [module?, hresolved, hdeclared]

theorem knowsFile_of_lookup_none (h : (sources.lookup name file imports).found = none)
    {target : Text} (htarget : sources.module? name file imports = some target) :
    (sources.lookup name file imports).sources.catalog.knowsFile target = true := by
  have houtcome := sources.lookup_outcome name file imports
  rw [h] at houtcome
  generalize (sources.lookup name file imports).sources = after at houtcome ⊢
  cases houtcome with
  | undeclared other hother =>
      rw [htarget, Option.some.injEq] at hother
      simp [knowsFile_load, hother]
  | unfound hnone =>
      rw [htarget] at hnone
      contradiction

/-- Sources in which a lookup finds nothing, and where there is nothing left to be read
for it. -/
structure Hides (sources : Sources) (name file : Text) (imports : List Import) : Prop where
  resolved : sources.catalog.resolved? file name = none
  declared : sources.catalog.declaration? name = none
  imported : ∀ record target, imports.find? (fun record => record.binds name) = some record →
    sources.workspace.resolveModule? file record.source = some target →
      sources.catalog.knowsFile target = true ∧
        sources.catalog.declarationIn? target (record.exportedName name) = none

theorem Hides.lookup (h : sources.Hides name file imports) :
    (sources.lookup name file imports).found = none ∧
      (sources.lookup name file imports).sources = sources := by
  cases hrecord : imports.find? (fun record => record.binds name) with
  | none =>
      rw [lookup_unbound h.resolved h.declared hrecord]
      simp
  | some record =>
      rw [lookup_imported h.resolved h.declared hrecord]
      cases htarget : sources.workspace.resolveModule? file record.source with
      | none =>
          obtain ⟨hsources, hfound⟩ := lookupImported_unresolved htarget name
          exact ⟨hfound, hsources⟩
      | some target =>
          obtain ⟨hknown, hnone⟩ := h.imported record target hrecord htarget
          rw [lookupImported_resolved htarget, lookupIn, load_known hknown]
          simp [hnone]

theorem hides_of_lookup_none (h : (sources.lookup name file imports).found = none)
    (hknown : ∀ target, sources.module? name file imports = some target →
      sources.catalog.knowsFile target = true) : sources.Hides name file imports := by
  obtain ⟨hresolved, hdeclared⟩ := unknown_of_lookup_none h
  refine ⟨hresolved, hdeclared, fun record target hrecord htarget => ?_⟩
  have hfile : sources.catalog.knowsFile target = true := by
    apply hknown
    rw [module?_of_lookup_none h, hrecord, Option.bind_some, htarget]
  refine ⟨hfile, ?_⟩
  rw [lookup_imported hresolved hdeclared hrecord, lookupImported_resolved htarget, lookupIn,
    load_known hfile] at h
  cases hin : sources.catalog.declarationIn? target (record.exportedName name) with
  | none => rfl
  | some known => simp [hin, remember] at h

theorem Hides.define (h : sources.Hides name file imports) {earlier : Sources}
    {source path : Text} (hgrows : (earlier.define source path).1.Grows sources) :
    (sources.afterRead.define source path).1.Hides name file imports := by
  have hdeclared : ∀ key, sources.catalog.declaration? key = none →
      (sources.afterRead.define source path).1.catalog.declaration? key = none := by
    intro key hkey
    have hbefore := hgrows.declared key hkey
    simp only [Sources.define, afterRead, Catalog.declaration?_addFile,
      Option.or_eq_none_iff] at hbefore ⊢
    exact ⟨hbefore.1, hkey⟩
  constructor
  case resolved => exact h.resolved
  case declared => exact hdeclared name h.declared
  case imported =>
    intro record target hrecord htarget
    have hsame : sources.workspace.resolveModule? file record.source = some target := by
      rw [← htarget]
      exact (Workspace.resolveModule?_with_reads _ _ _ _).symm
    obtain ⟨hknown, hnone⟩ := h.imported record target hrecord hsame
    rw [Catalog.declarationIn?_eq_none_iff] at hnone ⊢
    refine ⟨?_, hdeclared _ hnone.1, hdeclared _ hnone.2⟩
    simp [Sources.define, afterRead, hknown]

end Sources

/-- A query that finds the same types in other sources, and leaves them as they are. -/
structure Query.Settled (query : Query) (start : Text) (imports : List Import)
    (last : Sources) : Prop where
  imports : query.imports =
    if query.reference.file = start then imports
    else last.catalog.importsOf query.reference.file
  found : (last.lookup query.reference.name query.reference.file query.imports).found =
    query.lookup.found
  sources : (last.lookup query.reference.name query.reference.file query.imports).sources = last

namespace Query

variable {query : Query} {start : Text} {imports : List Import} {earlier last : Sources}

theorem hides_of_vain (hlast : query.lookup.sources.Grows last)
    (hnone : query.lookup.found = none)
    (hvain : (last.lookup query.reference.name query.reference.file query.imports).found = none) :
    last.Hides query.reference.name query.reference.file query.imports := by
  have hgrows : query.sources.Grows last := (Sources.grows_lookup _ _ _ _).trans hlast
  have hmodule : last.module? query.reference.name query.reference.file query.imports =
      query.sources.module? query.reference.name query.reference.file query.imports := by
    rw [Sources.module?_of_lookup_none hvain, Sources.module?_of_lookup_none hnone]
    simp only [hgrows.resolveModule?]
  apply Sources.hides_of_lookup_none hvain
  intro target htarget
  rw [hmodule] at htarget
  exact hlast.known target (Sources.knowsFile_of_lookup_none hnone htarget)

theorem settled_define {source path : Text} (hsees : query.SeesImports start imports)
    (hfile : query.reference.file = start ∨
      query.sources.catalog.knowsFile query.reference.file = true)
    (hearlier : (earlier.define source path).1.Grows last)
    (hlast : query.lookup.sources.Grows last)
    (hvain : query.lookup.found = none →
      (last.lookup query.reference.name query.reference.file query.imports).found = none) :
    query.Settled start imports (last.afterRead.define source path).1 := by
  have hagain := Sources.grows_redefine hearlier
  have hgrows : query.sources.Grows (last.afterRead.define source path).1 :=
    ((Sources.grows_lookup _ _ _ _).trans hlast).trans hagain
  have himports : query.imports = if query.reference.file = start then imports
      else (last.afterRead.define source path).1.catalog.importsOf query.reference.file := by
    rw [hsees]
    split
    · rfl
    · next hother => exact (hgrows.imports _ (hfile.resolve_left hother)).symm
  cases hfound : query.lookup.found with
  | some type =>
      have hresolved := hagain.resolved _ _ _ (hlast.resolved _ _ _
        (Sources.resolved?_of_lookup_found hfound))
      have hlookup := Sources.lookup_hit hresolved query.imports
      exact ⟨himports, by rw [hlookup, hfound], by rw [hlookup]⟩
  | none =>
      have hhides := (hides_of_vain hlast hfound (hvain hfound)).define hearlier
      obtain ⟨hnone, hsame⟩ := hhides.lookup
      exact ⟨himports, by rw [hnone, hfound], hsame⟩

end Query

namespace Worklist

variable {start : Text} {imports : List Import} {last : Sources}

/-- A loop that goes in step with another one, with sources that stay as they are. -/
structure Mirrors (last : Sources) (work other : Worklist) : Prop where
  queue : other.queue = work.queue
  visited : other.search.visited = work.search.visited
  found : other.search.found = work.search.found
  sources : other.search.sources = last

theorem mirrors_step {work other : Worklist} (h : Mirrors last work other)
    (hquery : ∀ query ∈ work.query? start imports, query.Settled start imports last) :
    Mirrors last (work.step start imports) (other.step start imports) := by
  obtain ⟨queue, search⟩ := work
  obtain ⟨otherQueue, otherSearch⟩ := other
  obtain ⟨hqueue, hvisited, hfound, hsources⟩ := h
  dsimp only at hqueue hvisited hfound hsources
  subst hqueue
  cases otherQueue with
  | nil => exact ⟨rfl, hvisited, hfound, hsources⟩
  | cons reference queue =>
      by_cases hold : reference ∈ search.visited
      · rw [step_visited start imports hold, step_visited start imports (hvisited ▸ hold)]
        exact ⟨rfl, hvisited, hfound, hsources⟩
      · have hsettled : (search.query start imports reference).Settled start imports last :=
          hquery _ (by rw [query?_new start imports hold]; rfl)
        have hsame : otherSearch.query start imports reference =
            ⟨last, reference, (search.query start imports reference).imports⟩ := by
          rw [hsettled.imports]
          simp [Search.query, hsources]
        have hlookup : (otherSearch.query start imports reference).lookup.found =
            (search.query start imports reference).lookup.found := by
          rw [hsame]
          exact hsettled.found
        rw [step_new start imports hold, step_new start imports (hvisited ▸ hold)]
        constructor
        case queue =>
          simp only [Query.met, hlookup]
          rfl
        case visited => simp only [Search.visit_visited, hvisited]
        case found =>
          cases hnext : (search.query start imports reference).lookup.found with
          | none =>
              rw [hnext] at hlookup
              simp only [Search.visit_found_of_none _ _ _ _ hnext,
                Search.visit_found_of_none _ _ _ _ hlookup, hfound]
          | some type =>
              rw [hnext] at hlookup
              simp only [Search.visit_found_of_some _ _ _ _ hnext,
                Search.visit_found_of_some _ _ _ _ hlookup, hfound]
        case sources =>
          rw [Search.visit_sources, hsame]
          exact hsettled.sources

theorem mirrors_iterate {work other : Worklist} (h : Mirrors last work other) (turns : Nat)
    (hqueries : ∀ query ∈ work.queries start imports turns, query.Settled start imports last) :
    Mirrors last ((step start imports)^[turns] work) ((step start imports)^[turns] other) := by
  induction turns generalizing work other with
  | zero => exact h
  | succ turns ih =>
      rw [Function.iterate_succ_apply, Function.iterate_succ_apply]
      rw [queries] at hqueries
      split at hqueries
      · next hempty =>
          -- an empty queue stays empty, and no further query is made
          obtain ⟨queue, search⟩ := work
          obtain rfl : queue = [] := by simpa using hempty
          refine ih (mirrors_step h ?_) ?_
          · simp [query?]
          · cases turns <;> simp [queries, step]
      · refine ih (mirrors_step h ?_) ?_
        · exact fun query hquery => hqueries query (by simp [Option.mem_def.mp hquery])
        · exact fun query hquery => hqueries query (by simp [hquery])

theorem iterate_eq_of_empty {work : Worklist} {turns more : Nat}
    (h : ((step start imports)^[turns] work).queue = [])
    (hmore : ((step start imports)^[more] work).queue = []) :
    (step start imports)^[turns] work = (step start imports)^[more] work := by
  rcases Nat.le_total turns more with hle | hle
  · exact (iterate_step_of_empty start imports h hle).symm
  · exact iterate_step_of_empty start imports hmore hle

end Worklist

theorem Query.knowsFile_of_mem_met {query : Query} (h : query.sources.catalog.Grounded)
    {reference : Reference} (hmet : reference ∈ query.met) :
    query.lookup.sources.catalog.knowsFile reference.file = true := by
  unfold met at hmet
  split at hmet
  · next type hfound =>
      obtain ⟨name, -, rfl⟩ := List.mem_map.mp hmet
      obtain ⟨source, hsource, hknown⟩ := (Sources.grounded_lookup h _ _ _).resolved _ _ type
        (Sources.resolved?_of_lookup_found hfound)
      simp only [hsource, Option.getD_some]
      exact hknown
  · contradiction

theorem Worklist.file_of_mem_queries {start : Text} {imports : List Import} {turns : Nat}
    {work : Worklist} (hgrounded : work.search.sources.catalog.Grounded)
    (hqueue : ∀ reference ∈ work.queue, reference.file = start ∨
      work.search.sources.catalog.knowsFile reference.file = true)
    {query : Query} (h : query ∈ work.queries start imports turns) :
    query.SeesImports start imports ∧ (query.reference.file = start ∨
      query.sources.catalog.knowsFile query.reference.file = true) := by
  induction turns generalizing work with
  | zero => contradiction
  | succ turns ih =>
      obtain ⟨queue, search⟩ := work
      cases queue with
      | nil => contradiction
      | cons reference queue =>
          rw [queries, List.isEmpty_cons, if_neg Bool.false_ne_true] at h
          by_cases hvisited : reference ∈ search.visited
          · rw [query?_visited start imports hvisited, step_visited start imports hvisited] at h
            refine ih ?_ ?_ h
            · exact hgrounded
            · exact fun other hother => hqueue other (by simp [hother])
          · rw [query?_new start imports hvisited, step_new start imports hvisited] at h
            rcases List.mem_append.mp h with hfirst | hlater
            · obtain rfl := Option.some.inj (Option.mem_toList.mp hfirst)
              exact ⟨search.query_seesImports start imports reference, hqueue reference (by simp)⟩
            · refine ih ?_ ?_ hlater
              · rw [Search.visit_sources]
                exact Sources.grounded_lookup hgrounded _ _ _
              · intro other hother
                rw [Search.visit_sources]
                rcases List.mem_append.mp hother with hold | hmet
                · exact (hqueue other (by simp [hold])).imp_right fun hknown =>
                    (Sources.grows_lookup _ _ _ _).known _ hknown
                · exact .inr (Query.knowsFile_of_mem_met hgrounded hmet)

theorem Sources.file_of_mem_queries {sources : Sources} (h : sources.catalog.Grounded)
    {name file : Text} {imports : List Import} {query : Query}
    (hquery : query ∈ sources.queries name file imports) :
    query.SeesImports file imports ∧ (query.reference.file = file ∨
      query.sources.catalog.knowsFile query.reference.file = true) := by
  apply Worklist.file_of_mem_queries h _ hquery
  intro reference hreference
  exact .inl (by rw [List.mem_singleton.mp hreference])

theorem Sources.root_mem_queries (sources : Sources) (name file : Text) (imports : List Import) :
    ⟨name, file⟩ ∈ (sources.queries name file imports).map Query.reference := by
  obtain ⟨turns, hturns⟩ : ∃ turns, sources.searchBound = turns + 1 :=
    Nat.exists_eq_add_one.mpr (by simp [searchBound])
  rw [queries, hturns, Worklist.queries]
  simp [worklist, Worklist.query?, Search.query]

theorem Sources.collect_of_settled {sources last : Sources} {name file : Text}
    {imports : List Import}
    (h : ∀ query ∈ sources.queries name file imports, query.Settled file imports last) :
    (last.collect name file imports).found = (sources.collect name file imports).found ∧
      (last.collect name file imports).sources = last := by
  have hstart : Worklist.Mirrors last (sources.worklist name file) (last.worklist name file) :=
    ⟨rfl, rfl, rfl, rfl⟩
  have hmirrors := Worklist.mirrors_iterate hstart sources.searchBound h
  have hlast := last.iterate_searchBound name file imports
  rw [sources.iterate_searchBound] at hmirrors
  rw [Worklist.iterate_eq_of_empty hmirrors.queue (by rw [hlast]), hlast] at hmirrors
  exact ⟨hmirrors.found, hmirrors.sources⟩

theorem Catalog.Grounded.located {sources : Sources} (h : sources.catalog.Grounded) :
    sources.Located := by
  intro file name type htype
  obtain ⟨source, hsource, -⟩ := h.resolved file name type htype
  exact ⟨source, hsource⟩

theorem Sources.isAmong_collect {sources last : Sources} (hsources : sources.Located)
    (hlast : last.Located) {name file : Text} {imports : List Import}
    (hgrows : (sources.collect name file imports).sources.Grows last) {type : ResolvedType}
    (htype : type ∈ (sources.collect name file imports).found) :
    type.IsAmong (last.collect name file imports).found := by
  have hagain : ∀ query ∈ sources.queries name file imports, ∀ type,
      query.lookup.found = some type →
      query.reference ∈ (last.queries name file imports).map Query.reference →
        ∃ other ∈ last.queries name file imports, other.lookup.found = some type := by
    intro query hquery type hfound hreference
    obtain ⟨other, hother, hsame⟩ := List.mem_map.mp hreference
    have hresolved := ((sources.threaded_queries name file imports).grows_of_mem hquery).2.trans
      hgrows |>.resolved _ _ _ (resolved?_of_lookup_found hfound)
    have hlater := ((last.threaded_queries name file imports).grows_of_mem hother).1.resolved
      _ _ _ hresolved
    rw [← hsame] at hlater
    exact ⟨other, hother, by rw [Query.lookup, lookup_hit hlater]⟩
  have hreached := (explores_collect hsources name file imports).reached type htype
  have hquery : ∃ query ∈ last.queries name file imports, query.lookup.found = some type := by
    clear htype
    induction hreached with
    | root hquery hroot _ hfound =>
        refine hagain _ hquery _ hfound ?_
        rw [hroot]
        exact last.root_mem_queries name file imports
    | next _ hname hfile hquery hreference _ hfound ih =>
        obtain ⟨previous, hprevious, hpreviousFound⟩ := ih
        refine hagain _ hquery _ hfound ?_
        rw [hreference]
        apply mem_queries_of_met hlast hprevious
        simp [Query.met, hpreviousFound, ResolvedType.references, hfile, hname]
  obtain ⟨query, hmem, hfound⟩ := hquery
  exact (explores_collect hlast name file imports).found query hmem type hfound

end ComponentDocs.Types
