import ComponentDocs.Proofs.Types.Lookup
import ComponentDocs.Types.Closure
import Mathlib.Logic.Function.Iterate

/-!
# The work loop of a search

A search takes one reference after the other from a queue.  `Worklist.step` is one
turn of that loop and a search is its iteration.  `Worklist.queries` lists the
lookups that are made on the way, each with the sources as it found them.
-/

namespace ComponentDocs.Types

/-- A lookup that is made: what is looked up, with which imports, in which sources. -/
structure Query where
  sources : Sources
  reference : Reference
  imports : List Import

def Query.lookup (query : Query) : Lookup :=
  query.sources.lookup query.reference.name query.reference.file query.imports

/-- Queries that are made one after the other: each finds the sources as the one
before it left them. -/
inductive Threaded : Sources → List Query → Sources → Prop
  | nil (sources : Sources) : Threaded sources [] sources
  | cons (query : Query) (queries : List Query) (last : Sources) :
      Threaded query.lookup.sources queries last →
        Threaded query.sources (query :: queries) last

def Search.query (start : Text) (imports : List Import) (search : Search)
    (reference : Reference) : Query :=
  { sources := search.sources
    reference
    imports :=
      if reference.file == start then imports
      else search.sources.catalog.importsOf reference.file }

def Query.met (query : Query) : List Reference :=
  match query.lookup.found with
  | some type => type.references query.reference.file
  | none => []

/-- The state of the loop: what is still to be looked up, and the search so far. -/
structure Worklist where
  queue : List Reference
  search : Search

namespace Worklist

variable (start : Text) (imports : List Import)

def step (work : Worklist) : Worklist :=
  match work.queue with
  | [] => work
  | reference :: queue =>
      if work.search.visited.contains reference then { work with queue }
      else
        let (next, met) := work.search.visit start imports reference
        ⟨queue ++ met, next⟩

def query? (work : Worklist) : Option Query :=
  match work.queue with
  | [] => none
  | reference :: _ =>
      if work.search.visited.contains reference then none
      else some (work.search.query start imports reference)

def queries : Nat → Worklist → List Query
  | 0, _ => []
  | turns + 1, work =>
      if work.queue.isEmpty then []
      else (work.query? start imports).toList ++ queries turns (work.step start imports)

end Worklist

def Sources.worklist (sources : Sources) (name file : Text) : Worklist :=
  ⟨[⟨name, file⟩], { sources }⟩

def Sources.queries (sources : Sources) (name file : Text) (imports : List Import) : List Query :=
  (sources.worklist name file).queries file imports sources.searchBound

namespace Search

@[simp] theorem add_sources (search : Search) (type : ResolvedType) :
    (search.add type).sources = search.sources := by
  unfold add
  split <;> rfl

@[simp] theorem add_visited (search : Search) (type : ResolvedType) :
    (search.add type).visited = search.visited := by
  unfold add
  split <;> rfl

@[simp] theorem add_failures (search : Search) (type : ResolvedType) :
    (search.add type).failures = search.failures := by
  unfold add
  split <;> rfl

theorem add_found (search : Search) (type : ResolvedType) :
    (search.add type).found =
      if search.found.any type.isSame then search.found else search.found ++ [type] := by
  unfold add
  split <;> rfl

variable (start : Text) (imports : List Import) (search : Search) (reference : Reference)

def afterLookup : Search :=
  { search with
    sources := (search.query start imports reference).lookup.sources
    visited := reference :: search.visited
    failures := search.failures ++ (search.query start imports reference).lookup.failures }

theorem visit_eq :
    search.visit start imports reference =
      match (search.query start imports reference).lookup.found with
      | some type =>
          ((search.afterLookup start imports reference).add type,
            type.references reference.file)
      | none => (search.afterLookup start imports reference, []) := rfl

theorem visit_met :
    (search.visit start imports reference).2 = (search.query start imports reference).met := by
  rw [visit_eq, Query.met]
  cases (search.query start imports reference).lookup.found <;> rfl

theorem visit_sources :
    (search.visit start imports reference).1.sources =
      (search.query start imports reference).lookup.sources := by
  rw [visit_eq]
  cases (search.query start imports reference).lookup.found <;> simp [afterLookup]

theorem visit_visited :
    (search.visit start imports reference).1.visited = reference :: search.visited := by
  rw [visit_eq]
  cases (search.query start imports reference).lookup.found <;> simp [afterLookup]

theorem visit_failures :
    (search.visit start imports reference).1.failures =
      search.failures ++ (search.query start imports reference).lookup.failures := by
  rw [visit_eq]
  cases (search.query start imports reference).lookup.found <;> simp [afterLookup]

theorem visit_found_of_none (h : (search.query start imports reference).lookup.found = none) :
    (search.visit start imports reference).1.found = search.found := by
  rw [visit_eq, h]
  rfl

theorem visit_found_of_some {type : ResolvedType}
    (h : (search.query start imports reference).lookup.found = some type) :
    (search.visit start imports reference).1.found =
      if search.found.any type.isSame then search.found else search.found ++ [type] := by
  rw [visit_eq, h]
  exact add_found _ type

end Search

namespace Worklist

variable (start : Text) (imports : List Import)

@[simp] theorem step_nil (search : Search) :
    step start imports ⟨[], search⟩ = ⟨[], search⟩ := rfl

theorem step_visited {reference : Reference} {search : Search}
    (h : reference ∈ search.visited) (queue : List Reference) :
    step start imports ⟨reference :: queue, search⟩ = ⟨queue, search⟩ := by
  simp [step, h]

theorem step_new {reference : Reference} {search : Search}
    (h : reference ∉ search.visited) (queue : List Reference) :
    step start imports ⟨reference :: queue, search⟩ =
      ⟨queue ++ (search.query start imports reference).met,
        (search.visit start imports reference).1⟩ := by
  simp [step, h, Search.visit_met]

theorem query?_visited {reference : Reference} {search : Search}
    (h : reference ∈ search.visited) (queue : List Reference) :
    query? start imports ⟨reference :: queue, search⟩ = none := by
  simp [query?, h]

theorem query?_new {reference : Reference} {search : Search}
    (h : reference ∉ search.visited) (queue : List Reference) :
    query? start imports ⟨reference :: queue, search⟩ =
      some (search.query start imports reference) := by
  simp [query?, h]

theorem iterate_step_nil (turns : Nat) (search : Search) :
    (step start imports)^[turns] ⟨[], search⟩ = ⟨[], search⟩ :=
  Function.iterate_fixed (step_nil start imports search) turns

theorem iterate_step_of_empty {work : Worklist} {turns more : Nat}
    (hempty : ((step start imports)^[turns] work).queue = []) (hmore : turns ≤ more) :
    (step start imports)^[more] work = (step start imports)^[turns] work := by
  obtain ⟨rest, rfl⟩ := Nat.exists_eq_add_of_le' hmore
  rw [Function.iterate_add_apply]
  generalize (step start imports)^[turns] work = last at hempty ⊢
  obtain ⟨queue, search⟩ := last
  cases hempty
  exact iterate_step_nil start imports rest search

theorem run_eq_iterate (fuel : Nat) (queue : List Reference) (search : Search) :
    Search.run start imports fuel queue search =
      ((step start imports)^[fuel] ⟨queue, search⟩).search := by
  induction fuel generalizing queue search with
  | zero => rfl
  | succ fuel ih =>
      cases queue with
      | nil => rw [iterate_step_nil, Search.run]
      | cons reference queue =>
          rw [Search.run, Function.iterate_succ_apply]
          by_cases h : reference ∈ search.visited
          · simp [h, step_visited, ih]
          · simp [h, step_new, ih, Search.visit_met]

theorem threaded_queries (turns : Nat) (work : Worklist) :
    Threaded work.search.sources (work.queries start imports turns)
      ((step start imports)^[turns] work).search.sources := by
  induction turns generalizing work with
  | zero => exact .nil _
  | succ turns ih =>
      obtain ⟨queue, search⟩ := work
      cases queue with
      | nil =>
          rw [iterate_step_nil]
          exact .nil _
      | cons reference queue =>
          rw [Function.iterate_succ_apply, queries, List.isEmpty_cons, if_neg Bool.false_ne_true]
          by_cases h : reference ∈ search.visited
          · rw [query?_visited start imports h, step_visited start imports h]
            exact ih ⟨queue, search⟩
          · rw [query?_new start imports h, step_new start imports h]
            refine .cons (search.query start imports reference) _ _ ?_
            rw [← Search.visit_sources]
            exact ih ⟨_, (search.visit start imports reference).1⟩

end Worklist

theorem Sources.collect_eq_iterate (sources : Sources) (name file : Text)
    (imports : List Import) :
    sources.collect name file imports =
      ((Worklist.step file imports)^[sources.searchBound] (sources.worklist name file)).search :=
  Worklist.run_eq_iterate file imports sources.searchBound [⟨name, file⟩] { sources }

theorem Sources.threaded_queries (sources : Sources) (name file : Text) (imports : List Import) :
    Threaded sources (sources.queries name file imports)
      (sources.collect name file imports).sources := by
  rw [collect_eq_iterate]
  exact Worklist.threaded_queries file imports sources.searchBound (sources.worklist name file)

end ComponentDocs.Types
