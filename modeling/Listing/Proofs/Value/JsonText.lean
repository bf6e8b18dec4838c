import Listing.Proofs.Json.Unambiguous
import Listing.Sql.Statement

/-!
# Lists bound as JSON texts

A list that is not expanded is bound as its JSON text. JSON has no instants of its own, they are
written as texts; without them a value is determined by its JSON form, and a list by what it is
bound as. So null, the text `null` and a list of either stay apart, and likewise for truth values
and numbers.
-/

namespace Listing

/-- No instant stands in the value, at any depth. -/
inductive Value.IsTimeless : Value → Prop
  | null : IsTimeless null
  | bool (b : Bool) : IsTimeless (bool b)
  | integer (i : Int) : IsTimeless (integer i)
  | text (t : Text) : IsTimeless (text t)
  | list (items : List Value) (h : ∀ v ∈ items, IsTimeless v) : IsTimeless (list items)

namespace Value

variable {v w : Value} {vs ws : List Value}

theorem isIntegral_json (hv : v.IsTimeless) : v.json.IsIntegral := by
  induction hv with
  | null => exact .null
  | bool b => exact .bool b
  | integer i => exact .integer i
  | text t => exact .text t
  | list items h ih =>
    refine .array _ ?_
    rw [jsonItems_eq_map]
    exact List.forall_mem_map.mpr ih

theorem eq_of_map_json_eq (hjson : ∀ v ∈ vs, ∀ w ∈ ws, v.json = w.json → v = w)
    (h : vs.map json = ws.map json) : vs = ws := by
  refine List.ext_getElem (by simpa using congrArg List.length h) fun position hv hw => ?_
  refine hjson _ (List.getElem_mem hv) _ (List.getElem_mem hw) ?_
  have hposition := List.getElem_of_eq h (by simpa using hv)
  rwa [List.getElem_map, List.getElem_map] at hposition

/-- Without instants, the JSON form determines the value. -/
theorem eq_of_json_eq (hv : v.IsTimeless) (hw : w.IsTimeless) (h : v.json = w.json) : v = w := by
  induction hv generalizing w with
  | null =>
    cases hw with
    | null => rfl
    | _ => cases h
  | bool b =>
    cases hw with
    | bool c => exact congrArg bool (Json.bool.inj h)
    | _ => cases h
  | integer i =>
    cases hw with
    | integer j => exact congrArg integer (Json.integer.inj h)
    | _ => cases h
  | text t =>
    cases hw with
    | text u => exact congrArg text (Json.text.inj h)
    | _ => cases h
  | list items hitems ih =>
    cases hw with
    | list items' hitems' =>
      have hmap := Json.array.inj h
      rw [jsonItems_eq_map, jsonItems_eq_map] at hmap
      exact congrArg list (eq_of_map_json_eq (fun v hv w hw => ih v hv (hitems' w hw)) hmap)
    | _ => cases h

theorem eq_of_render_json_eq (hv : v.IsTimeless) (hw : w.IsTimeless)
    (h : v.json.render = w.json.render) : v = w :=
  eq_of_json_eq hv hw
    (Json.render_injective_of_isIntegral (isIntegral_json hv) (isIntegral_json hw) h)

/-- Lists are bound as texts, and without instants as the same text only if they are the same. -/
theorem parameter_list_eq_iff (hvs : ∀ v ∈ vs, v.IsTimeless) (hws : ∀ w ∈ ws, w.IsTimeless) :
    ∃ t u, (list vs).parameter = .text t ∧ (list ws).parameter = .text u ∧ (t = u ↔ vs = ws) := by
  refine ⟨_, _, rfl, rfl, fun h => ?_, fun h => h ▸ rfl⟩
  exact list.inj (eq_of_render_json_eq (.list vs hvs) (.list ws hws) h)

/-- Null beside its word, a number beside its digits, and two texts beside one that looks like
both: elements that differ in their kind alone. -/
theorem parameter_ne_of_lookalike_lists :
    let vs := [null, text "3".toList, list [text "a\",\"b".toList], bool true, list []]
    let ws := [text "null".toList, integer 3, list [text "a".toList, text "b".toList],
      text "true".toList, text "[]".toList]
    ((∀ v ∈ vs, v.IsTimeless) ∧ ∀ w ∈ ws, w.IsTimeless) ∧
      (list vs).parameter = .text "[null,\"3\",[\"a\\\",\\\"b\"],true,[]]".toList ∧
      (list ws).parameter = .text "[\"null\",3,[\"a\",\"b\"],\"true\",\"[]\"]".toList ∧
      (list vs).parameter ≠ (list ws).parameter := by
  intro vs ws
  have hvs : ∀ v ∈ vs, v.IsTimeless := by
    simp only [vs, List.forall_mem_cons]
    exact ⟨.null, .text _, .list _ (List.forall_mem_singleton.mpr (.text _)), .bool true,
      .list [] (List.forall_mem_nil _), List.forall_mem_nil _⟩
  have hws : ∀ w ∈ ws, w.IsTimeless := by
    have hlist : ∀ w ∈ [text "a".toList, text "b".toList], w.IsTimeless :=
      List.forall_mem_cons.mpr ⟨.text _, List.forall_mem_singleton.mpr (.text _)⟩
    simp only [ws, List.forall_mem_cons]
    exact ⟨.text _, .integer 3, .list _ hlist, .text _, .text _, List.forall_mem_nil _⟩
  refine ⟨⟨hvs, hws⟩, by decide, by decide, ?_⟩
  obtain ⟨t, u, ht, hu, heq⟩ := parameter_list_eq_iff hvs hws
  rw [ht, hu]
  exact fun h => absurd (heq.mp (Sql.Parameter.text.inj h)) (by decide)

end Value
end Listing
