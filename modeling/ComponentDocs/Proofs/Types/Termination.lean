import ComponentDocs.Proofs.Types.Scope
import ComponentDocs.Proofs.Types.Search

/-!
# Searches come to an end

Every turn of the work loop uses up some of its capacity: it takes a reference from
the queue, and a reference that is looked up for the first time is one fewer of those
in the scope of the search.  The names in the scope bound how many references a
lookup can add to the queue.
-/

namespace ComponentDocs.Types

namespace Worklist

def capacity (scope : Scope) (work : Worklist) : Nat :=
  work.queue.length +
    (scope.references.length - work.search.visited.length) * scope.names.length

/-- A loop that stays in a scope, and has looked up each reference once. -/
structure Inside (scope : Scope) (work : Worklist) : Prop where
  covers : scope.Covers work.search.sources
  queue : ∀ reference ∈ work.queue, reference ∈ scope.references
  visited : ∀ reference ∈ work.search.visited, reference ∈ scope.references
  nodup : work.search.visited.Nodup

variable {start : Text} {imports : List Import} {scope : Scope}

variable {queue : List Reference} {reference : Reference} {search : Search} {work : Worklist}

theorem Inside.tail (h : Inside scope ⟨reference :: queue, search⟩) :
    Inside scope ⟨queue, search⟩ :=
  ⟨h.covers, fun other hother => h.queue other (List.mem_cons_of_mem _ hother), h.visited, h.nodup⟩

theorem Inside.mem_references_of_met (h : Inside scope ⟨reference :: queue, search⟩)
    {other : Reference}
    (hother : other ∈ (search.query start imports reference).met) : other ∈ scope.references := by
  have hfile := (Scope.mem_references.mp (h.queue reference (by simp))).2
  unfold Query.met at hother
  split at hother
  · next type hfound => exact (h.covers.found hfound).mem_references hfile hother
  · contradiction

theorem Inside.length_met_le (h : Inside scope ⟨reference :: queue, search⟩) (start : Text)
    (imports : List Import) :
    (search.query start imports reference).met.length ≤ scope.names.length := by
  unfold Query.met
  split
  · next type hfound => simpa [ResolvedType.references] using (h.covers.found hfound).few
  · exact Nat.zero_le _

theorem Inside.step (h : Inside scope work) :
    Inside scope (work.step start imports) := by
  obtain ⟨queue, search⟩ := work
  cases queue with
  | nil => exact h
  | cons reference queue =>
      by_cases hvisited : reference ∈ search.visited
      · rw [step_visited start imports hvisited]
        exact h.tail
      · rw [step_new start imports hvisited]
        constructor
        case covers =>
          rw [Search.visit_sources]
          exact h.covers.lookup _ _ _
        case queue =>
          intro other hother
          rcases List.mem_append.mp hother with hother | hother
          · exact h.tail.queue other hother
          · exact h.mem_references_of_met hother
        case visited =>
          intro other hother
          rw [Search.visit_visited] at hother
          rcases List.mem_cons.mp hother with rfl | hother
          · exact h.queue other (by simp)
          · exact h.visited other hother
        case nodup =>
          rw [Search.visit_visited]
          exact List.nodup_cons.mpr ⟨hvisited, h.nodup⟩

theorem Inside.capacity_step_lt (h : Inside scope work) (hqueue : work.queue ≠ []) :
    (work.step start imports).capacity scope < work.capacity scope := by
  obtain ⟨queue, search⟩ := work
  cases queue with
  | nil => contradiction
  | cons reference queue =>
      by_cases hvisited : reference ∈ search.visited
      · rw [step_visited start imports hvisited]
        simp [capacity]
      · have hmet := h.length_met_le start imports
        have hroom : (reference :: search.visited).length ≤ scope.references.length := by
          refine (List.subperm_of_subset (List.nodup_cons.mpr ⟨hvisited, h.nodup⟩) ?_).length_le
          intro other hother
          rcases List.mem_cons.mp hother with rfl | hother
          · exact h.queue other (by simp)
          · exact h.visited other hother
        obtain ⟨free, hfree⟩ := Nat.exists_eq_add_of_le hroom
        have hbefore : scope.references.length - search.visited.length = free + 1 := by
          simp only [List.length_cons] at hfree
          omega
        have hafter : scope.references.length - (search.visited.length + 1) = free := by
          omega
        rw [step_new start imports hvisited]
        simp only [capacity, Search.visit_visited, hbefore, hafter, List.length_append,
          List.length_cons, Nat.succ_mul]
        omega

theorem Inside.exists_empty (h : Inside scope work) (start : Text) (imports : List Import) :
    ∃ turns ≤ work.capacity scope,
      ((Worklist.step start imports)^[turns] work).queue = [] ∧
        ∀ earlier < turns, ((Worklist.step start imports)^[earlier] work).queue ≠ [] := by
  induction hcapacity : work.capacity scope using Nat.strong_induction_on generalizing work with
  | h capacity ih =>
      by_cases hqueue : work.queue = []
      · exact ⟨0, Nat.zero_le _, hqueue, by simp⟩
      · have hless : (work.step start imports).capacity scope < capacity :=
          hcapacity ▸ h.capacity_step_lt hqueue
        obtain ⟨turns, hturns, hempty, hbusy⟩ := ih _ hless h.step rfl
        refine ⟨turns + 1, by omega, hempty, fun earlier hearlier => ?_⟩
        cases earlier with
        | zero => exact hqueue
        | succ earlier => exact hbusy earlier (by omega)

end Worklist

namespace Sources

theorem inside_worklist (sources : Sources) (name file : Text) :
    Worklist.Inside (sources.scope name file) (sources.worklist name file) := by
  constructor
  case covers => exact sources.covers_scope name file
  case queue =>
    intro reference hreference
    rw [List.mem_singleton.mp hreference, Scope.mem_references]
    exact ⟨List.mem_cons_self, List.mem_cons_self⟩
  case visited => exact fun reference hreference => absurd hreference List.not_mem_nil
  case nodup => exact List.nodup_nil

theorem capacity_worklist_lt (sources : Sources) (name file : Text) :
    (sources.worklist name file).capacity (sources.scope name file) < sources.searchBound := by
  have hnames := sources.length_names_scope_le name file
  have hfiles := sources.length_files_scope_le name file
  have hproduct : (sources.scope name file).files.length *
      (sources.scope name file).names.length * (sources.scope name file).names.length ≤
        sources.fileBound * sources.nameBound * sources.nameBound :=
    Nat.mul_le_mul (Nat.mul_le_mul hfiles hnames) hnames
  simp only [Worklist.capacity, worklist, Scope.length_references, searchBound, List.length_cons,
    List.length_nil, Nat.sub_zero]
  omega

theorem exists_empty_worklist (sources : Sources) (name file : Text) (imports : List Import) :
    ∃ turns < sources.searchBound,
      ((Worklist.step file imports)^[turns] (sources.worklist name file)).queue = [] ∧
        ∀ earlier < turns,
          ((Worklist.step file imports)^[earlier] (sources.worklist name file)).queue ≠ [] := by
  obtain ⟨turns, hturns, hempty, hbusy⟩ :=
    (sources.inside_worklist name file).exists_empty file imports
  exact ⟨turns, hturns.trans_lt (sources.capacity_worklist_lt name file), hempty, hbusy⟩

theorem iterate_searchBound (sources : Sources) (name file : Text) (imports : List Import) :
    (Worklist.step file imports)^[sources.searchBound] (sources.worklist name file) =
      ⟨[], sources.collect name file imports⟩ := by
  obtain ⟨turns, hturns, hempty, -⟩ := sources.exists_empty_worklist name file imports
  have hlast := Worklist.iterate_step_of_empty file imports hempty hturns.le
  rw [← hlast] at hempty
  rw [collect_eq_iterate, ← hempty]

/--
Every search comes to an end: after a number of turns, which is less than the bound that
the sources give, the queue is empty for the first time, and with fuel for so many turns
or more the search is the one that the sources collect.
-/
theorem collect_terminates (sources : Sources) (name file : Text) (imports : List Import) :
    ∃ turns < sources.searchBound,
      ((Worklist.step file imports)^[turns] (sources.worklist name file)).queue = [] ∧
      (∀ earlier < turns,
        ((Worklist.step file imports)^[earlier] (sources.worklist name file)).queue ≠ []) ∧
      ∀ fuel, turns ≤ fuel →
        Search.run file imports fuel [⟨name, file⟩] { sources } =
          sources.collect name file imports := by
  obtain ⟨turns, hturns, hempty, hbusy⟩ := sources.exists_empty_worklist name file imports
  refine ⟨turns, hturns, hempty, hbusy, fun fuel hfuel => ?_⟩
  have hstart : sources.worklist name file = ⟨[⟨name, file⟩], { sources }⟩ := rfl
  rw [collect_eq_iterate, Worklist.run_eq_iterate, ← hstart,
    Worklist.iterate_step_of_empty file imports hempty hfuel,
    Worklist.iterate_step_of_empty file imports hempty hturns.le]

end Sources

end ComponentDocs.Types
