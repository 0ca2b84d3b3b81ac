import ComponentDocs.Proofs.Session
import ComponentDocs.Proofs.Types.Termination

/-!
# Searches compute the closure

What a search finds is reached from its start by a chain of lookups, and it holds
everything that its own types refer to, as far as that can be found.
-/

namespace ComponentDocs.Types

/-- The imports with which a query has to be made in a search from a file. -/
def Query.SeesImports (query : Query) (start : Text) (imports : List Import) : Prop :=
  query.imports =
    if query.reference.file = start then imports
    else query.sources.catalog.importsOf query.reference.file

/--
A type that is found by a chain of lookups among the given ones.  The chain starts with
the root, and each further lookup is that of a dependency of the type before, from the
file of that type.
-/
inductive Reached (start : Text) (imports : List Import) (root : Reference)
    (queries : List Query) : ResolvedType → Prop
  | root {query : Query} {type : ResolvedType} :
      query ∈ queries → query.reference = root → query.SeesImports start imports →
      query.lookup.found = some type → Reached start imports root queries type
  | next {previous : ResolvedType} {name file : Text} {query : Query} {type : ResolvedType} :
      Reached start imports root queries previous → name ∈ previous.dependencies →
      previous.sourceFile = some file → query ∈ queries → query.reference = ⟨name, file⟩ →
      query.SeesImports start imports → query.lookup.found = some type →
        Reached start imports root queries type

variable {type : ResolvedType} {sources : Sources} {file name : Text}

theorem Reached.mono {start : Text} {imports : List Import} {root : Reference}
    {queries more : List Query} (hmore : queries ⊆ more)
    (h : Reached start imports root queries type) : Reached start imports root more type := by
  induction h with
  | root hquery hroot hsees hfound => exact .root (hmore hquery) hroot hsees hfound
  | next _ hname hfile hquery hreference hsees hfound ih =>
      exact .next ih hname hfile (hmore hquery) hreference hsees hfound

theorem Reached.exists_query {start : Text} {imports : List Import} {root : Reference}
    {queries : List Query} (h : Reached start imports root queries type) :
    ∃ query ∈ queries, query.lookup.found = some type := by
  cases h with
  | root hquery _ _ hfound => exact ⟨_, hquery, hfound⟩
  | next _ _ _ hquery _ _ hfound => exact ⟨_, hquery, hfound⟩

def Sources.Located (sources : Sources) : Prop :=
  ∀ file name type, sources.catalog.resolved? file name = some type →
    ∃ source, type.sourceFile = some source

theorem Sources.Located.lookup (h : sources.Located) (name file : Text)
    (imports : List Import) : (sources.lookup name file imports).sources.Located := by
  apply lookup_induction name file imports h
  · intro current specifier target source hcurrent _ _
    exact hcurrent
  · intro current target hcurrent
    exact hcurrent
  · intro current key known hcurrent _ other otherName type htype
    rcases resolved?_remember_cases htype with rfl | hold
    · exact ⟨known.file, rfl⟩
    · exact hcurrent other otherName type hold

theorem Sources.Located.sourceFile_of_found (h : sources.Located) {imports : List Import}
    (hfound : (sources.lookup name file imports).found = some type) :
    ∃ source, type.sourceFile = some source :=
  h.lookup name file imports file name type (resolved?_of_lookup_found hfound)

theorem located_run (workspace : Workspace) (operations : List Operation) :
    (Session.run workspace operations).sources.Located := by
  apply Session.run_induction
  · intro file name type htype
    contradiction
  · intro sources event h
    cases event with
    | inserted | opened | defined => exact h
    | lookedUp name file imports => exact h.lookup name file imports
    | cleared =>
        intro file name type htype
        contradiction

def ResolvedType.IsAmong (type : ResolvedType) (types : List ResolvedType) : Prop :=
  ∃ other ∈ types, other.sourceFile = type.sourceFile ∧ other.name = type.name

def ResolvedType.identity (type : ResolvedType) : Option Text × Text :=
  (type.sourceFile, type.name)

theorem any_isSame_eq_true {types : List ResolvedType} :
    types.any type.isSame = true ↔ type.IsAmong types := by
  simp only [List.any_eq_true, ResolvedType.isSame, Bool.and_eq_true, beq_iff_eq]
  constructor
  · rintro ⟨other, hother, hfile, hname⟩
    exact ⟨other, hother, hfile.symm, hname.symm⟩
  · rintro ⟨other, hother, hfile, hname⟩
    exact ⟨other, hother, hfile.symm, hname.symm⟩

theorem identity_mem_iff {types : List ResolvedType} :
    type.identity ∈ types.map ResolvedType.identity ↔ type.IsAmong types := by
  simp [ResolvedType.IsAmong, ResolvedType.identity]

namespace Search

variable (start : Text) (imports : List Import) (search : Search) (reference : Reference)

theorem query_seesImports : (search.query start imports reference).SeesImports start imports := by
  simp [Query.SeesImports, query]

theorem visit_found_prefix :
    search.found <+: (search.visit start imports reference).1.found := by
  cases hfound : (search.query start imports reference).lookup.found with
  | none => rw [visit_found_of_none _ _ _ _ hfound]
  | some type =>
      rw [visit_found_of_some _ _ _ _ hfound]
      split
      · exact List.prefix_rfl
      · exact List.prefix_append _ _

theorem mem_visit_found (h : type ∈ (search.visit start imports reference).1.found) :
    type ∈ search.found ∨ (search.query start imports reference).lookup.found = some type := by
  cases hfound : (search.query start imports reference).lookup.found with
  | none =>
      rw [visit_found_of_none _ _ _ _ hfound] at h
      exact .inl h
  | some other =>
      rw [visit_found_of_some _ _ _ _ hfound] at h
      split at h
      · exact .inl h
      · rcases List.mem_append.mp h with h | h
        · exact .inl h
        · exact .inr (by rw [List.mem_singleton.mp h])

theorem isAmong_visit_found (h : (search.query start imports reference).lookup.found = some type) :
    type.IsAmong (search.visit start imports reference).1.found := by
  rw [visit_found_of_some _ _ _ _ h]
  split
  · next hsame => exact any_isSame_eq_true.mp hsame
  · exact ⟨type, by simp, rfl, rfl⟩

theorem nodup_visit_found (h : (search.found.map ResolvedType.identity).Nodup) :
    ((search.visit start imports reference).1.found.map ResolvedType.identity).Nodup := by
  cases hfound : (search.query start imports reference).lookup.found with
  | none => rwa [visit_found_of_none _ _ _ _ hfound]
  | some type =>
      rw [visit_found_of_some _ _ _ _ hfound]
      split
      · exact h
      · next hsame =>
          rw [any_isSame_eq_true, ← identity_mem_iff] at hsame
          rw [List.map_append, List.map_singleton, List.nodup_append_comm, List.singleton_append,
            List.nodup_cons]
          exact ⟨hsame, h⟩

end Search

structure Worklist.Explores (start : Text) (imports : List Import) (root : Reference)
    (made : List Query) (work : Worklist) : Prop where
  located : work.search.sources.Located
  visited : work.search.visited = (made.map Query.reference).reverse
  nodup : (made.map Query.reference).Nodup
  queue : ∀ reference ∈ work.queue, reference = root ∨
    ∃ type, Reached start imports root made type ∧ type.sourceFile = some reference.file ∧
      reference.name ∈ type.dependencies
  reached : ∀ type ∈ work.search.found, Reached start imports root made type
  sourced : ∀ type ∈ work.search.found, ∃ source, type.sourceFile = some source
  distinct : (work.search.found.map ResolvedType.identity).Nodup
  found : ∀ query ∈ made, ∀ type, query.lookup.found = some type →
    type.IsAmong work.search.found
  known : ∀ query ∈ made, ∀ reference ∈ query.met,
    reference ∈ work.search.visited ∨ reference ∈ work.queue

namespace Worklist

variable {start : Text} {imports : List Import} {root : Reference} {made : List Query}

variable {queue : List Reference}

theorem Explores.pass {reference : Reference} {search : Search}
    (h : Explores start imports root made ⟨reference :: queue, search⟩)
    (hvisited : reference ∈ search.visited) :
    Explores start imports root made ⟨queue, search⟩ := by
  refine { h with queue := fun other hother => h.queue other (by simp [hother]), known := ?_ }
  intro query hquery other hother
  rcases h.known query hquery other hother with hold | hold
  · exact .inl hold
  · rcases List.mem_cons.mp hold with rfl | hold
    · exact .inl hvisited
    · exact .inr hold

theorem Explores.reached_next {reference : Reference} {search : Search}
    (h : Explores start imports root made ⟨reference :: queue, search⟩)
    (hfound : (search.query start imports reference).lookup.found = some type) :
    Reached start imports root (made ++ [search.query start imports reference]) type := by
  have hsees := search.query_seesImports start imports reference
  have hmem : search.query start imports reference ∈
      made ++ [search.query start imports reference] := by simp
  rcases h.queue reference (by simp) with hroot | ⟨previous, hprevious, hfile, hname⟩
  · exact .root hmem hroot hsees hfound
  · exact .next (hprevious.mono (List.subset_append_left _ _)) hname hfile hmem rfl hsees hfound

theorem Explores.queue_met {reference : Reference} {search : Search}
    (h : Explores start imports root made ⟨reference :: queue, search⟩) {other : Reference}
    (hother : other ∈ (search.query start imports reference).met) :
    ∃ type, Reached start imports root (made ++ [search.query start imports reference]) type ∧
      type.sourceFile = some other.file ∧ other.name ∈ type.dependencies := by
  unfold Query.met at hother
  split at hother
  · next type hfound =>
      obtain ⟨name, hname, rfl⟩ := List.mem_map.mp hother
      obtain ⟨source, hsource⟩ := h.located.sourceFile_of_found hfound
      exact ⟨type, h.reached_next hfound, by simp [hsource], hname⟩
  · contradiction

theorem Explores.visit {reference : Reference} {search : Search}
    (h : Explores start imports root made ⟨reference :: queue, search⟩)
    (hnew : reference ∉ search.visited) :
    Explores start imports root (made ++ [search.query start imports reference])
      ⟨queue ++ (search.query start imports reference).met,
        (search.visit start imports reference).1⟩ := by
  have hgrows : made ⊆ made ++ [search.query start imports reference] :=
    List.subset_append_left _ _
  have hfoundGrows := (search.visit_found_prefix start imports reference).subset
  have hvisited := search.visit_visited start imports reference
  have hmap : (made ++ [search.query start imports reference]).map Query.reference =
      made.map Query.reference ++ [reference] := by simp [Search.query]
  constructor
  case located =>
    rw [Search.visit_sources]
    exact h.located.lookup _ _ _
  case visited => rw [hvisited, hmap, List.reverse_concat, ← h.visited]
  case nodup =>
    rw [h.visited, List.mem_reverse] at hnew
    rw [hmap, List.nodup_append_comm, List.singleton_append, List.nodup_cons]
    exact ⟨hnew, h.nodup⟩
  case queue =>
    intro other hother
    rcases List.mem_append.mp hother with hother | hother
    · rcases h.queue other (by simp [hother]) with hroot | ⟨type, htype, hfile, hname⟩
      · exact .inl hroot
      · exact .inr ⟨type, htype.mono hgrows, hfile, hname⟩
    · exact .inr (h.queue_met hother)
  case reached =>
    intro type htype
    rcases search.mem_visit_found start imports reference htype with hold | hfound
    · exact (h.reached type hold).mono hgrows
    · exact h.reached_next hfound
  case sourced =>
    intro type htype
    rcases search.mem_visit_found start imports reference htype with hold | hfound
    · exact h.sourced type hold
    · exact h.located.sourceFile_of_found hfound
  case distinct => exact search.nodup_visit_found start imports reference h.distinct
  case found =>
    intro query hquery type hfound
    rcases List.mem_append.mp hquery with hquery | hquery
    · obtain ⟨other, hother, hsame⟩ := h.found query hquery type hfound
      exact ⟨other, hfoundGrows hother, hsame⟩
    · rw [List.mem_singleton.mp hquery] at hfound
      exact search.isAmong_visit_found start imports reference hfound
  case known =>
    intro query hquery other hother
    rw [hvisited]
    rcases List.mem_append.mp hquery with hquery | hquery
    · rcases h.known query hquery other hother with hold | hold
      · exact .inl (List.mem_cons_of_mem _ hold)
      · rcases List.mem_cons.mp hold with rfl | hold
        · exact .inl List.mem_cons_self
        · exact .inr (List.mem_append_left _ hold)
    · rw [List.mem_singleton.mp hquery] at hother
      exact .inr (List.mem_append_right _ hother)

theorem Explores.run {work : Worklist} (h : Explores start imports root made work)
    (turns : Nat) :
    Explores start imports root (made ++ work.queries start imports turns)
      ((step start imports)^[turns] work) := by
  induction turns generalizing made work with
  | zero => simpa [queries] using h
  | succ turns ih =>
      obtain ⟨queue, search⟩ := work
      cases queue with
      | nil =>
          rw [iterate_step_nil]
          simpa [queries] using h
      | cons reference queue =>
          rw [Function.iterate_succ_apply, queries, List.isEmpty_cons, if_neg Bool.false_ne_true]
          by_cases hvisited : reference ∈ search.visited
          · rw [query?_visited start imports hvisited, step_visited start imports hvisited]
            exact ih (h.pass hvisited)
          · rw [query?_new start imports hvisited, step_new start imports hvisited,
              Option.toList_some, ← List.append_assoc]
            exact ih (h.visit hvisited)

theorem explores_start (h : sources.Located) (name file : Text) (imports : List Import) :
    Explores file imports ⟨name, file⟩ [] (sources.worklist name file) := by
  constructor
  case located => exact h
  case visited => rfl
  case nodup => exact List.nodup_nil
  case queue => exact fun reference hreference => .inl (List.mem_singleton.mp hreference)
  case reached => exact fun type htype => absurd htype List.not_mem_nil
  case sourced => exact fun type htype => absurd htype List.not_mem_nil
  case distinct => exact List.nodup_nil
  case found => exact fun query hquery => absurd hquery List.not_mem_nil
  case known => exact fun query hquery => absurd hquery List.not_mem_nil

theorem found_prefix_step (start : Text) (imports : List Import) (work : Worklist) :
    work.search.found <+: (work.step start imports).search.found := by
  obtain ⟨queue, search⟩ := work
  cases queue with
  | nil => exact List.prefix_rfl
  | cons reference queue =>
      by_cases hvisited : reference ∈ search.visited
      · rw [step_visited start imports hvisited]
      · rw [step_new start imports hvisited]
        exact search.visit_found_prefix start imports reference

theorem found_prefix_iterate (start : Text) (imports : List Import) (turns : Nat)
    (work : Worklist) :
    work.search.found <+: ((step start imports)^[turns] work).search.found := by
  induction turns generalizing work with
  | zero => exact List.prefix_rfl
  | succ turns ih =>
      rw [Function.iterate_succ_apply]
      exact (found_prefix_step start imports work).trans (ih _)

end Worklist

namespace Sources

theorem head?_found_collect {imports : List Import}
    (h : (sources.lookup name file imports).found = some type) :
    (sources.collect name file imports).found.head? = some type := by
  have hquery : (Search.query file imports { sources } ⟨name, file⟩).lookup.found = some type := by
    simpa [Search.query, Query.lookup] using h
  have hfirst : ((sources.worklist name file).step file imports).search.found = [type] := by
    rw [worklist, Worklist.step_new file imports List.not_mem_nil,
      Search.visit_found_of_some _ _ _ _ hquery]
    rfl
  have hprefix := Worklist.found_prefix_iterate file imports (sources.searchBound - 1)
    ((sources.worklist name file).step file imports)
  have hturns : sources.searchBound = sources.searchBound - 1 + 1 := by
    simp only [searchBound]
    omega
  rw [hfirst, ← Function.iterate_succ_apply, Nat.succ_eq_add_one, ← hturns,
    ← collect_eq_iterate] at hprefix
  obtain ⟨rest, hrest⟩ := hprefix
  rw [← hrest]
  rfl

theorem explores_collect (h : sources.Located) (name file : Text) (imports : List Import) :
    Worklist.Explores file imports ⟨name, file⟩ (sources.queries name file imports)
      ⟨[], sources.collect name file imports⟩ := by
  rw [← sources.iterate_searchBound name file imports]
  exact (Worklist.explores_start h name file imports).run sources.searchBound

theorem mem_queries_of_met (h : sources.Located) {imports : List Import} {query : Query}
    (hquery : query ∈ sources.queries name file imports) {reference : Reference}
    (hmet : reference ∈ query.met) :
    reference ∈ (sources.queries name file imports).map Query.reference := by
  have hexplores := explores_collect h name file imports
  rcases hexplores.known query hquery _ hmet with hvisited | hqueue
  · rwa [hexplores.visited, List.mem_reverse] at hvisited
  · contradiction

theorem mem_queries_of_dependency (h : sources.Located) {imports : List Import}
    {source dependency : Text} (htype : type ∈ (sources.collect name file imports).found)
    (hsource : type.sourceFile = some source) (hdependency : dependency ∈ type.dependencies) :
    ⟨dependency, source⟩ ∈ (sources.queries name file imports).map Query.reference := by
  obtain ⟨query, hquery, hfound⟩ :=
    ((explores_collect h name file imports).reached type htype).exists_query
  apply mem_queries_of_met h hquery
  simp [Query.met, hfound, ResolvedType.references, hsource, hdependency]

end Sources

/--
A search computes the closure of what a name refers to.  Its lookups lead from the sources
before it to those after it.  Then

* no two types that are found have the same file and name;
* what is found for the name itself comes first;
* each type is reached by a chain of successful lookups from the name;
* each dependency of each type is looked up exactly once, from the file of that type, and
  what that lookup finds is among the types.
-/
theorem collect_closure (workspace : Workspace) (operations : List Operation) (name file : Text)
    (imports : List Import) :
    let resolver := Session.run workspace operations
    let queries := resolver.sources.queries name file imports
    let (after, found, _) := resolver.collect name file imports
    Threaded resolver.sources queries after.sources ∧
    (found.map fun type => (type.sourceFile, type.name)).Nodup ∧
    (∀ type, (resolver.sources.lookup name file imports).found = some type →
      found.head? = some type) ∧
    (∀ type ∈ found, Reached file imports ⟨name, file⟩ queries type) ∧
    ∀ type ∈ found, ∃ source, type.sourceFile = some source ∧
      ∀ dependency ∈ type.dependencies,
        (queries.map Query.reference).count ⟨dependency, source⟩ = 1 ∧
        ∀ query ∈ queries, query.reference = ⟨dependency, source⟩ →
          ∀ next, query.lookup.found = some next →
            ∃ other ∈ found, other.sourceFile = next.sourceFile ∧ other.name = next.name := by
  intro resolver queries
  have hlocated : resolver.sources.Located := located_run workspace operations
  have hexplores := Sources.explores_collect hlocated name file imports
  refine ⟨resolver.sources.threaded_queries name file imports, hexplores.distinct,
    fun type htype => Sources.head?_found_collect htype, hexplores.reached, fun type htype => ?_⟩
  obtain ⟨source, hsource⟩ := hexplores.sourced type htype
  refine ⟨source, hsource, fun dependency hdependency => ⟨?_, ?_⟩⟩
  · have hmem := Sources.mem_queries_of_dependency hlocated htype hsource hdependency
    exact List.count_eq_one_of_mem hexplores.nodup hmem
  · intro query hquery _ next hnext
    exact hexplores.found query hquery next hnext

end ComponentDocs.Types
