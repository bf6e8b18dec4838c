import Listing.Proofs.Sql.Outline
import Mathlib.Data.List.Basic

/-!
# Values stay out of the text

Filters with the same fields and the same shapes of tests give the same template and the same
statement in every dialect, whatever their values are. Only the parameters differ, and there are
equally many of them.
-/

namespace Listing

/-- All of a filter but its values. -/
def Filter.shape (f : Filter) : Text × Test.Shape := (f.field, f.test.shape)

namespace Predicate

/-- The outline of the predicate of any filter with this field and this shape of test. -/
def blank (field : Text) (shape : Test.Shape) : Predicate :=
  ⟨(FieldPath.of field).accessor, shape.blank⟩

theorem outline_id_ofFilter (f : Filter) : (ofFilter f).outline id = blank f.field f.test.shape :=
  outline_ofFilter id f

end Predicate

namespace Condition

@[simp] theorem template_outline (c : Condition) : (c.outline id).template = c.template := by
  simp [template, outline, Function.comp_def]

end Condition

namespace Filter

/-- The outline of a conjunction is made from the shapes of its filters. -/
theorem outline_conjunction? (fs : List Filter) :
    (conjunction? fs).map (Condition.outline id) =
      Condition.ofPredicates? ((fs.map shape).map fun s => Predicate.blank s.1 s.2) := by
  rw [conjunction?_eq, Condition.map_outline_ofPredicates?, List.map_map, List.map_map]
  exact congrArg Condition.ofPredicates? (List.map_congr_left fun f _ =>
    Predicate.outline_id_ofFilter f)

theorem outline_conjunction?_eq {fs gs : List Filter} (h : fs.map shape = gs.map shape) :
    (conjunction? fs).map (Condition.outline id) = (conjunction? gs).map (Condition.outline id) := by
  rw [outline_conjunction?, outline_conjunction?, h]

theorem template_conjunction?_eq {fs gs : List Filter} (h : fs.map shape = gs.map shape) :
    (conjunction? fs).map Condition.template = (conjunction? gs).map Condition.template := by
  have houtline := congrArg (Option.map Condition.template) (outline_conjunction?_eq h)
  simpa [Function.comp_def] using houtline

end Filter

namespace Sql

theorem outline_selectFiltered_eq {fs gs : List Filter}
    (h : fs.map Filter.shape = gs.map Filter.shape) (table : Text) (sort? : Option SortOrder) :
    outline id (selectFiltered table fs sort?) = outline id (selectFiltered table gs sort?) := by
  have hid : ∀ t ∈ vocabulary, id t = t := fun _ _ => rfl
  rw [selectFiltered, selectFiltered, outline_selectAll hid, outline_selectAll hid,
    Filter.outline_conjunction?_eq h]

/-- Lists of filters that agree in everything but their values have the same template and are
written alike in every dialect; they send equally many parameters. -/
theorem text_eq_of_shape_eq {fs gs : List Filter} (h : fs.map Filter.shape = gs.map Filter.shape)
    (table : Text) (sort? : Option SortOrder) :
    (Filter.conjunction? fs).map Condition.template =
        (Filter.conjunction? gs).map Condition.template ∧
      (∀ d, render d (selectFiltered table fs sort?) = render d (selectFiltered table gs sort?)) ∧
      (parameters (selectFiltered table fs sort?)).length =
        (parameters (selectFiltered table gs sort?)).length := by
  have houtline := outline_selectFiltered_eq h table sort?
  exact ⟨Filter.template_conjunction?_eq h, render_eq_of_outline_eq houtline,
    length_parameters_eq_of_outline_eq houtline⟩

/-- An attack in a value leaves no trace in the text. -/
theorem text_eq_of_hostile_values :
    let harmless : List Filter :=
      [⟨"meta.tag".toList, .oneOf [.text "a".toList, .bool true], by decide⟩,
        ⟨"age".toList, .between (.integer 1) (.integer 9), by decide⟩]
    let hostile : List Filter :=
      [⟨"meta.tag".toList, .oneOf [.text "') OR 1 = 1 --".toList, .list [.null]], by decide⟩,
        ⟨"age".toList, .between .null (.text "? AND $7".toList), by decide⟩]
    harmless.map Filter.shape = hostile.map Filter.shape ∧
      ∀ d, render d (selectFiltered "t".toList harmless none) =
        render d (selectFiltered "t".toList hostile none) :=
  ⟨rfl, (text_eq_of_shape_eq rfl "t".toList none).2.1⟩

end Sql

end Listing
