import Listing.Proofs.Sql.Placeholders

/-!
# Values for JSON paths

What is read through a JSON path is a text, so a filter on one lists and binds neither null nor a
truth value, at any depth. The parts of a value are found by addresses: the positions to take in
lists of lists, from the outside in. Replacing these words by their JSON texts goes to every
address, keeps all lists as long as they are, and is told by that; so where no word is left it
changes nothing. A filter on a plain column lists its value as it is.
-/

namespace Listing

namespace Value

/-- Induction on values, where a list is a step from all of its elements. -/
@[elab_as_elim]
theorem items_induction {P : Value → Prop} (scalar : ∀ v, v.isList = false → P v)
    (list : ∀ items, (∀ v ∈ items, P v) → P (list items)) : ∀ v, P v
  | null => scalar _ rfl
  | bool _ => scalar _ rfl
  | integer _ => scalar _ rfl
  | text _ => scalar _ rfl
  | instant _ => scalar _ rfl
  | .list items => list items fun v _ => items_induction scalar list v

/-- The part of a value at an address. -/
def part? : Value → List Nat → Option Value
  | v, [] => some v
  | list items, position :: address => items[position]?.bind fun v => part? v address
  | _, _ :: _ => none

/-- Null and truth values: the words that JSON has beside texts, numbers and lists. -/
def isWord : Value → Bool
  | null | bool _ => true
  | _ => false

/-- No part is a word, at any depth. -/
def IsWordless (v : Value) : Prop := ∀ address u, v.part? address = some u → u.isWord = false

/-- The value with every word replaced by its JSON text, every other scalar as it is, and every
list as long as it is. -/
structure IsPathTextOf (w v : Value) : Prop where
  word : ∀ address u, v.part? address = some u → u.isWord = true →
    w.part? address = some (text u.json.render)
  scalar : ∀ address u, v.part? address = some u → u.isWord = false → u.isList = false →
    w.part? address = some u
  list : ∀ address items, v.part? address = some (list items) →
    ∃ items', w.part? address = some (Value.list items') ∧ items'.length = items.length

@[simp] theorem part?_nil (v : Value) : v.part? [] = some v := by
  cases v <;> rfl

theorem part?_list_cons (items : List Value) (position : Nat) (address : List Nat) :
    (list items).part? (position :: address) = items[position]?.bind fun v => v.part? address :=
  rfl

theorem part?_cons_of_isList_eq_false {v : Value} (h : v.isList = false) (position : Nat)
    (address : List Nat) : v.part? (position :: address) = none := by
  cases v with
  | list items => simp at h
  | _ => rfl

theorem asPathText_of_isWord {v : Value} (h : v.isWord = true) :
    v.asPathText = text v.json.render := by
  cases v with
  | null => rfl
  | bool b => rfl
  | _ => cases h

theorem asPathText_of_isWord_eq_false {v : Value} (hword : v.isWord = false)
    (hlist : v.isList = false) : v.asPathText = v := by
  cases v with
  | null => cases hword
  | bool b => cases hword
  | list items => simp at hlist
  | _ => rfl

theorem asPathText_list (items : List Value) :
    (list items).asPathText = list (items.map asPathText) := by
  rw [asPathText, asPathTextItems_eq_map]

theorem isWord_asPathText (v : Value) : v.asPathText.isWord = false := by
  cases v <;> rfl

theorem isList_asPathText (v : Value) : v.asPathText.isList = v.isList := by
  cases v <;> rfl

/-- The parts of a value are replaced one by one. -/
theorem part?_asPathText (v : Value) (address : List Nat) :
    v.asPathText.part? address = (v.part? address).map asPathText := by
  induction address generalizing v with
  | nil => simp
  | cons position address ih =>
    cases hlist : v.isList with
    | false =>
      rw [part?_cons_of_isList_eq_false hlist,
        part?_cons_of_isList_eq_false ((isList_asPathText v).trans hlist), Option.map_none]
    | true =>
      obtain ⟨items, rfl⟩ : ∃ items, v = list items := by
        cases v with
        | list items => exact ⟨items, rfl⟩
        | _ => cases hlist
      rw [asPathText_list, part?_list_cons, part?_list_cons, List.getElem?_map]
      cases items[position]? with
      | none => rfl
      | some u => exact ih u

theorem isWordless_asPathText (v : Value) : v.asPathText.IsWordless := by
  intro address u hu
  rw [part?_asPathText] at hu
  obtain ⟨w, _, rfl⟩ := Option.map_eq_some_iff.mp hu
  exact isWord_asPathText w

theorem isPathTextOf_asPathText (v : Value) : v.asPathText.IsPathTextOf v where
  word address u hu hword := by
    rw [part?_asPathText, hu, Option.map_some, asPathText_of_isWord hword]
  scalar address u hu hword hlist := by
    rw [part?_asPathText, hu, Option.map_some, asPathText_of_isWord_eq_false hword hlist]
  list address items hu := by
    refine ⟨items.map asPathText, ?_, List.length_map _⟩
    rw [part?_asPathText, hu, Option.map_some, asPathText_list]

/-- What holds of two lists at all addresses holds of their elements. -/
theorem IsPathTextOf.getElem {ws vs : List Value} (h : (Value.list ws).IsPathTextOf (.list vs))
    {position : Nat} (hw : position < ws.length) (hv : position < vs.length) :
    ws[position].IsPathTextOf vs[position] := by
  have hpart {items : List Value} (hitems : position < items.length) (address : List Nat) :
      (Value.list items).part? (position :: address) = items[position].part? address := by
    rw [part?_list_cons, List.getElem?_eq_getElem hitems, Option.bind_some]
  have hws := hpart hw
  have hvs := hpart hv
  refine ⟨fun address u hu => ?_, fun address u hu => ?_, fun address items hu => ?_⟩
  · rw [← hws]
    exact h.word _ u ((hvs address).trans hu)
  · rw [← hws]
    exact h.scalar _ u ((hvs address).trans hu)
  · rw [← hws]
    exact h.list _ items ((hvs address).trans hu)

/-- There is no other value with every word replaced by its text. -/
theorem IsPathTextOf.eq_asPathText {v w : Value} (h : w.IsPathTextOf v) : w = v.asPathText := by
  induction v using items_induction generalizing w with
  | scalar v hlist =>
    cases hword : v.isWord with
    | true =>
      rw [asPathText_of_isWord hword]
      simpa using h.word [] v (part?_nil v) hword
    | false =>
      rw [asPathText_of_isWord_eq_false hword hlist]
      simpa using h.scalar [] v (part?_nil v) hword hlist
  | list vs ih =>
    obtain ⟨ws, hw, hlength⟩ := h.list [] vs (part?_nil _)
    obtain rfl : w = Value.list ws := by simpa using hw
    rw [asPathText_list]
    refine congrArg Value.list
      (List.ext_getElem (by simpa using hlength) fun position hws hmap => ?_)
    have hvs : position < vs.length := by simpa using hmap
    rw [List.getElem_map]
    exact ih _ (List.getElem_mem hvs) (h.getElem hws hvs)

/-- Where there is no word, nothing is replaced. -/
theorem asPathText_eq_self {v : Value} (h : v.IsWordless) : v.asPathText = v := by
  have hself : v.IsPathTextOf v :=
    { word := fun address u hu hword => by simp [h address u hu] at hword
      scalar := fun _ _ hu _ _ => hu
      list := fun _ items hu => ⟨items, hu, rfl⟩ }
  exact hself.eq_asPathText.symm

theorem asPathText_asPathText (v : Value) : v.asPathText.asPathText = v.asPathText :=
  asPathText_eq_self (isWordless_asPathText v)

end Value

/-! ## What filters list and bind -/

/-- What is listed for an operator and a value: the two bounds of a range, and otherwise the value
as one. -/
structure Operator.Lists (op : Operator) (v : Value) (vs : List Value) : Prop where
  bounds : op = .between → v = .list vs ∧ vs.length = 2
  whole : op ≠ .between → vs = [v]

/-- A parameter that a text can be compared with: neither null nor a truth value. -/
inductive Sql.Parameter.IsComparable : Sql.Parameter → Prop
  | integer (n : Int) : IsComparable (.integer n)
  | text (t : Text) : IsComparable (.text t)
  | instant (i : Instant) : IsComparable (.instant i)

theorem Value.isComparable_parameter {v : Value} (h : v.isWord = false) :
    v.parameter.IsComparable := by
  cases v with
  | null => cases h
  | bool b => cases h
  | integer n => exact .integer n
  | text t => exact .text t
  | instant i => exact .instant i
  | list items => exact .text _

/-- The elements of a value without words are without words. -/
theorem Value.IsWordless.of_mem {items : List Value} (h : (Value.list items).IsWordless) {v : Value}
    (hv : v ∈ items) : v.IsWordless := by
  intro address u hu
  obtain ⟨position, hposition⟩ := List.getElem?_of_mem hv
  refine h (position :: address) u ?_
  rw [part?_list_cons, hposition, Option.bind_some, hu]

theorem Operator.Lists.isWordless {op : Operator} {v : Value} {vs : List Value}
    (h : op.Lists v vs) (hv : v.IsWordless) : ∀ w ∈ vs, w.IsWordless := by
  by_cases hop : op = .between
  · obtain ⟨rfl, -⟩ := h.bounds hop
    exact fun w hw => hv.of_mem hw
  · rw [h.whole hop]
    exact List.forall_mem_singleton.mpr hv

theorem Test.value_map_asPathText (t : Test) :
    (t.map Value.asPathText).value = t.value.asPathText := by
  cases t with
  | compare c v => rfl
  | oneOf items => exact (Value.asPathText_list items).symm
  | noneOf items => exact (Value.asPathText_list items).symm
  | between low high => rfl

namespace Predicate

theorem lists_values (p : Predicate) : p.test.operator.Lists p.test.value p.values := by
  rcases p with ⟨accessor, test⟩
  have hwhole {op : Operator} (hop : op ≠ .between) (v : Value) : op.Lists v [v] :=
    ⟨fun h => absurd h hop, fun _ => rfl⟩
  cases test with
  | compare c v => exact hwhole (by simp [Test.operator]) v
  | oneOf items => exact hwhole (by simp [Test.operator]) (.list items)
  | noneOf items => exact hwhole (by simp [Test.operator]) (.list items)
  | between low high => exact ⟨fun _ => ⟨rfl, rfl⟩, fun h => absurd rfl h⟩

theorem test_ofFilter_of_json {f : Filter} (h : (FieldPath.of f.field).isJson = true) :
    (ofFilter f).test = f.test.map Value.asPathText := by
  simp only [ofFilter, h, if_true]

theorem test_ofFilter_of_column {f : Filter} (h : (FieldPath.of f.field).isJson = false) :
    (ofFilter f).test = f.test := by
  simp only [ofFilter, h, Bool.false_eq_true, if_false]

end Predicate

namespace Condition

theorem values_ofFilter (f : Filter) : (ofFilter f).values = (Predicate.ofFilter f).values := by
  simp [values]

theorem parameters_ofFilter (f : Filter) : Sql.parameters (ofFilter f).sql =
    (Predicate.ofFilter f).test.operands.map Value.parameter := by
  rw [Sql.parameters_eq_flatMap, gather_sql fun _ _ => rfl, predicates_ofFilter,
    List.flatMap_singleton, Predicate.gathered_parameters]

end Condition

namespace Filter

variable {f : Filter}

theorem lists_of_json (h : (FieldPath.of f.field).isJson = true) :
    f.operator.Lists f.value.asPathText (Condition.ofFilter f).values := by
  have hlists := (Predicate.ofFilter f).lists_values
  rwa [Predicate.test_ofFilter_of_json h, Test.operator_map, Test.value_map_asPathText,
    ← Condition.values_ofFilter] at hlists

theorem lists_of_column (h : (FieldPath.of f.field).isJson = false) :
    f.operator.Lists f.value (Condition.ofFilter f).values := by
  have hlists := (Predicate.ofFilter f).lists_values
  rwa [Predicate.test_ofFilter_of_column h, ← Condition.values_ofFilter] at hlists

theorem isComparable_of_json (h : (FieldPath.of f.field).isJson = true) :
    ∀ p ∈ Sql.parameters (Condition.ofFilter f).sql, p.IsComparable := by
  rw [Condition.parameters_ofFilter, Predicate.test_ofFilter_of_json h, Test.operands_map,
    List.map_map, List.forall_mem_map]
  exact fun v _ => Value.isComparable_parameter v.isWord_asPathText

/-- A filter on a JSON path lists its value with the words replaced by their texts, has no word in
what it lists, at any depth, and binds nothing that a text cannot be compared with; a filter on a
plain column lists its value as it is. Replacing the words is told by what it does to the parts of
a value, and doing it again changes nothing. -/
theorem values_of_path_or_column (f : Filter) :
    ((FieldPath.of f.field).isJson = true →
        f.operator.Lists f.value.asPathText (Condition.ofFilter f).values ∧
          (∀ v ∈ (Condition.ofFilter f).values, v.IsWordless) ∧
          ∀ p ∈ Sql.parameters (Condition.ofFilter f).sql, p.IsComparable) ∧
      ((FieldPath.of f.field).isJson = false →
        f.operator.Lists f.value (Condition.ofFilter f).values) ∧
      ∀ v : Value, (∀ w, w = v.asPathText ↔ w.IsPathTextOf v) ∧
        v.asPathText.asPathText = v.asPathText := by
  refine ⟨fun h => ?_, lists_of_column, fun v => ⟨fun w => ⟨?_, fun h => h.eq_asPathText⟩, ?_⟩⟩
  · have hlists := lists_of_json h
    exact ⟨hlists, hlists.isWordless f.value.isWordless_asPathText, isComparable_of_json h⟩
  · rintro rfl
    exact v.isPathTextOf_asPathText
  · exact v.asPathText_asPathText

/-- A range with a list of lists for a bound, through a JSON path; the same range on a column. -/
theorem values_of_nested_range :
    let low : Value := .list [.null, .list [.bool true, .text "x".toList]]
    let low' : Value := .list [.text "null".toList, .list [.text "true".toList, .text "x".toList]]
    let f : Filter := ⟨"meta.score".toList, .between low (.bool false), by decide⟩
    let g : Filter := ⟨"score".toList, .between low (.bool false), by decide⟩
    (FieldPath.of f.field).isJson = true ∧ (FieldPath.of g.field).isJson = false ∧
      (Condition.ofFilter f).values = [low', .text "false".toList] ∧
      (∀ v ∈ (Condition.ofFilter f).values, v.IsWordless) ∧
      Sql.parameters (Condition.ofFilter f).sql =
        [.text "[\"null\",[\"true\",\"x\"]]".toList, .text "false".toList] ∧
      (Condition.ofFilter g).values = [low, .bool false] := by
  intro low low' f g
  have hf : (FieldPath.of f.field).isJson = true := by decide
  have hg : (FieldPath.of g.field).isJson = false := by decide
  obtain ⟨hlists, hwordless, -⟩ := (values_of_path_or_column f).1 hf
  have hplain := (values_of_path_or_column g).2.1 hg
  refine ⟨hf, hg, ?_, hwordless, by decide, ?_⟩
  · exact (Value.list.inj (hlists.bounds rfl).1).symm
  · exact (Value.list.inj (hplain.bounds rfl).1).symm

end Filter

end Listing
