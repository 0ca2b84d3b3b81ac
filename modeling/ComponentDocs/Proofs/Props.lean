import ComponentDocs.Component.Extract
import ComponentDocs.Proofs.Props.Text
import ComponentDocs.Proofs.Props.Tree

/-!
# The interface of a props script

A props script declares the same interface however it is read: off its tree if it parses,
or off its text.
-/

namespace ComponentDocs.Props

open ComponentDocs.Component (ScriptApi readScript)
open ComponentDocs.Script (Language parse?)

theorem Script.readScript_eq (script : Script) (file : Text) :
    (readScript {} file script.text).1 = script.api := by
  unfold readScript
  split
  · next program h => exact script.ofTree_eq h
  · exact script.ofText_eq

/-- The tree of an accepted script and its text give the same interface, and it is the one
that the script declares. -/
theorem strategies_agree (script : Script) {program : ComponentDocs.Script.Program}
    (h : parse? Language.ofComponents script.text = some program) :
    ScriptApi.ofTree {} script.text program = ScriptApi.ofText {} script.text ∧
      ScriptApi.ofText {} script.text = script.api :=
  ⟨(script.ofTree_eq h).trans script.ofText_eq.symm, script.ofText_eq⟩

def pickerScript : Script where
  members :=
    [⟨⟨"items", by decide⟩, false,
        .single (.group (.union (.name ⟨"string", by decide⟩) 0
          (.single (.name ⟨"number", by decide⟩) 1))) 1⟩,
      ⟨⟨"size", by decide⟩, true,
        .union (.literal ⟨'\'', "x-small", .inr rfl, by decide⟩) 0
          (.single (.literal ⟨'\'', "large", .inr rfl, by decide⟩) 0)⟩,
      ⟨⟨"onPick", by decide⟩, true,
        .single (.generic ⟨"Handler", by decide⟩ (.single (.name ⟨"Item", by decide⟩) 1)) 0⟩ ]
  bindings :=
    [⟨⟨"items", by decide⟩, none⟩,
      ⟨⟨"size", by decide⟩, some (.string ⟨'\'', "large", .inr rfl, by decide⟩)⟩,
      ⟨⟨"limit", by decide⟩,
        some (.integer false ⟨"120", by decide, by decide, by decide, by decide⟩)⟩,
      ⟨⟨"onPick", by decide⟩, some .null⟩ ]

theorem strategies_agree_picker : ∃ program,
    parse? Language.ofComponents pickerScript.text = some program ∧
      ScriptApi.ofTree {} pickerScript.text program = ScriptApi.ofText {} pickerScript.text ∧
        ScriptApi.ofText {} pickerScript.text = pickerScript.api := by
  have haccepted : (parse? Language.ofComponents pickerScript.text).isSome = true := by
    decide +kernel
  obtain ⟨program, h⟩ := Option.isSome_iff_exists.mp haccepted
  exact ⟨program, h, strategies_agree pickerScript h⟩

end ComponentDocs.Props
