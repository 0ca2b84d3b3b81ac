import ComponentDocs.Proofs.Session

/-!
# Stability of resolution

What a name referred to in a file when it was looked up, it refers to from then
on, until the resolver is cleared.
-/

namespace ComponentDocs

open ComponentDocs.Types

variable {type : ResolvedType} {sources : Sources} {file name : Text}

theorem Types.Sources.resolved?_lookup (h : sources.catalog.resolved? file name = some type)
    (other place : Text) (imports : List Import) :
    (sources.lookup other place imports).sources.catalog.resolved? file name = some type := by
  apply lookup_induction (P := fun current => current.catalog.resolved? file name = some type)
  · exact h
  · intro current specifier target source hcurrent _ _
    exact hcurrent
  · intro current target hcurrent
    exact hcurrent
  · intro current key known hcurrent _
    exact current.catalog.resolved?_addResolved_of_some hcurrent place (known.resolve other)

theorem Event.resolved?_apply {event : Event} (h : sources.catalog.resolved? file name = some type)
    (hevent : event ≠ .cleared) :
    (event.apply sources).catalog.resolved? file name = some type := by
  cases event with
  | inserted | opened | defined => exact h
  | lookedUp other place imports => exact Sources.resolved?_lookup h other place imports
  | cleared => contradiction

theorem Event.resolved?_replay {events : List Event}
    (h : sources.catalog.resolved? file name = some type) (hevents : .cleared ∉ events) :
    (replay sources events).catalog.resolved? file name = some type := by
  induction events generalizing sources with
  | nil => exact h
  | cons event events ih =>
      rw [List.mem_cons, not_or] at hevents
      exact ih (resolved?_apply h (Ne.symm hevents.1)) hevents.2

theorem Types.Resolver.resolve_eq_of_resolved? {resolver : Resolver}
    (h : resolver.sources.catalog.resolved? file name = some type)
    (hlog : resolver.log.length ≤ logLimit) (imports : List Import) :
    resolver.resolve name file imports = (resolver, some type) := by
  unfold resolve
  rw [Sources.lookup_hit h]
  exact congrArg (·, some type) (record_nil hlog)

/--
Resolution is stable.  If at some point of a session a lookup found a type, be it
a lookup of its own, one of a transitive resolution or one of an analysis, and
the resolver was not cleared since, then resolving the name in the file gives
that type, with any imports, and leaves the workspace with its count of reads,
everything that is known about types, and the log as they were.
-/
theorem resolve_stable (workspace : Workspace) (operations : List Operation)
    {before after : List Event} {name file : Text} {imports : List Import}
    {type : ResolvedType}
    (hevents : Session.events workspace operations =
      before ++ .lookedUp name file imports :: after)
    (hfound : ((Event.replay { workspace } before).lookup name file imports).found = some type)
    (hkept : .cleared ∉ after) (others : List Import) :
    (Session.run workspace operations).resolve name file others =
      (Session.run workspace operations, some type) := by
  have hresolved :
      (Session.run workspace operations).sources.catalog.resolved? file name = some type := by
    rw [Session.run_sources, hevents, Event.replay_append, Event.replay_cons]
    exact Event.resolved?_replay (Sources.resolved?_of_lookup_found hfound) hkept
  exact Resolver.resolve_eq_of_resolved? hresolved
    (Session.run_log_length_le workspace operations) others

/-- A type is looked up together with another one that refers to it.  Then its file
is replaced, and another file declares a type of its name. -/
def redefinition : List Operation :=
  [.insertFile "/t.ts" (.text "interface T{u:U}interface U{}"),
    .resolveAll "T" "/a.ts" [{ source := "./t", names := ["T"], typeOnly := true }],
    .insertFile "/t.ts" (.text "interface U{x:X}"),
    .define "interface U{y:Y}" "/b.ts"]

theorem resolve_stable_redefinition :
    (Session.run {} redefinition).resolve "U" "/t.ts" [] =
      (Session.run {} redefinition,
        some ⟨"U", "interface U{}", [], some "/t.ts".toList⟩) :=
  resolve_stable {} redefinition
    (by decide +kernel : Session.events {} redefinition =
      [.inserted "/t.ts" (.text "interface T{u:U}interface U{}"),
        .lookedUp "T" "/a.ts" [{ source := "./t", names := ["T"], typeOnly := true }]] ++
      .lookedUp "U" "/t.ts" [] ::
      [.inserted "/t.ts" (.text "interface U{x:X}"), .defined "interface U{y:Y}" "/b.ts"])
    (by decide +kernel) (by decide) []

end ComponentDocs
