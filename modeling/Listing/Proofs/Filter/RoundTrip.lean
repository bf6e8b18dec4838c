import Listing.Proofs.Filter.ListForms
import Listing.Proofs.Filter.Notations
import Listing.Proofs.Filter.Resolution
import Listing.Proofs.Value.Scalar

/-!
# Writing filters and reading them back

Values that have a raw text of their own: null, truth values, midnights of years with four digits,
and texts that stand for nothing else. Filters of such values are written as a batch and read
back, one by one and in order, whatever the clock and the configuration are.
-/

namespace Listing

open Text

namespace Value

/-- A scalar that can be written, and a text of the given kind if it is a text. -/
def IsLiteral (kind : Text → Prop) : Value → Prop
  | null | bool _ => True
  | instant i => i.IsMidnight ∧ 0 ≤ i.year ∧ i.year ≤ 9999
  | text t => IsPlain t ∧ kind t
  | integer _ | list _ => False

instance decidableIsLiteral (kind : Text → Prop) [DecidablePred kind] :
    DecidablePred (IsLiteral kind)
  | null | bool _ => isTrue trivial
  | instant i => inferInstanceAs (Decidable (i.IsMidnight ∧ 0 ≤ i.year ∧ i.year ≤ 9999))
  | text t => inferInstanceAs (Decidable (IsPlain t ∧ kind t))
  | integer _ | list _ => isFalse id

/-- The raw text of a literal; a midnight is written as its date. Other values have none. -/
def raw : Value → Text
  | null => "null".toList
  | bool true => "true".toList
  | bool false => "false".toList
  | instant i => i.date.text
  | text t => t
  | integer _ | list _ => []

@[simp] theorem raw_text (t : Text) : (text t).raw = t := rfl

@[simp] theorem raw_instant (i : Instant) : (instant i).raw = i.date.text := rfl

/-- The raw text of a list of literals. -/
def rawList (items : List Value) : Text := '[' :: join [','] (items.map raw) ++ [']']

/-- A literal is read from its raw text at every time. -/
theorem read_raw {kind : Text → Prop} {v : Value} (h : v.IsLiteral kind) (now : Instant) :
    read now v.raw = .ok v := by
  cases v with
  | null => exact read_of_mem_words (by decide) now
  | bool b =>
    cases b with
    | true => exact read_of_mem_words (by decide) now
    | false => exact read_of_mem_words (by decide) now
  | integer i => exact h.elim
  | text t =>
    obtain ⟨hplain, _⟩ := h
    rw [raw_text, read_of_ofToken?_eq_none hplain.1, ofLiteral_of_isPlain hplain]
  | instant i =>
    obtain ⟨hmidnight, hfirst, hlast⟩ := h
    have htoken := Dynamic.ofToken?_eq_none_of_dash i.date.dash_mem_text
    rw [raw_instant, read_of_ofToken?_eq_none htoken, ofLiteral_text_date hmidnight hfirst hlast]
  | list items => exact h.elim

/-- What the text of an element of a list must not contain. -/
def elementSeparators : List Char := [',', '[', ']']

theorem isToken_raw {v : Value} (h : v.IsLiteral (IsToken elementSeparators)) :
    IsToken elementSeparators v.raw := by
  cases v with
  | null => decide
  | bool b => cases b <;> decide
  | integer i => exact h.elim
  | text t => exact h.2
  | instant i => exact Date.isToken_text h.2.1 h.2.2 (by decide) (by decide)
  | list items => exact h.elim

/-- A text that can end a token of a batch. -/
def IsScalarText (t : Text) : Prop := Batch.IsClosed t ∧ trimEnd t = t

instance (t : Text) : Decidable (IsScalarText t) :=
  inferInstanceAs (Decidable (Batch.IsClosed t ∧ trimEnd t = t))

theorem isScalarText_of_isToken {t : Text} (h : IsToken elementSeparators t) : IsScalarText t :=
  ⟨Batch.isClosed_of_not_mem (h.not_mem ',' (by decide)) (h.not_mem '[' (by decide))
    (h.not_mem ']' (by decide)), trimEnd_eq_self_iff.mpr (isTrimmed_iff.mp h.trimmed).2⟩

theorem isScalarText_raw {v : Value} (h : v.IsLiteral IsScalarText) : IsScalarText v.raw := by
  cases v with
  | null => exact isScalarText_of_isToken (isToken_raw (v := null) trivial)
  | bool b => exact isScalarText_of_isToken (isToken_raw (v := bool b) trivial)
  | integer i => exact h.elim
  | text t => exact h.2
  | instant i => exact isScalarText_of_isToken (isToken_raw (v := instant i) h)
  | list items => exact h.elim

section Lists

variable {items : List Value} (h : ∀ v ∈ items, v.IsLiteral (IsToken elementSeparators))

include h

theorem isScalarText_rawList : IsScalarText (rawList items) := by
  have hcomma : Lacks ['[', ']'] [','] := by decide
  have hraw : Lacks ['[', ']'] (join [','] (items.map raw)) := by
    intro c hc
    refine not_mem_join (hcomma c hc) fun t ht => ?_
    obtain ⟨v, hv, rfl⟩ := List.mem_map.mp ht
    exact (isToken_raw (h v hv)).not_mem c (List.mem_cons_of_mem ',' hc)
  exact ⟨Batch.isClosed_bracketed (hraw '[' (by decide)) (hraw ']' (by decide)),
    trimEnd_append_cons (by decide) _ []⟩

theorem splitList_rawList : splitList (rawList items) = items.map raw := by
  rw [rawList, splitList_bracketed]
  refine pieces_join fun t ht => ?_
  obtain ⟨v, hv, rfl⟩ := List.mem_map.mp ht
  have hraw := isToken_raw (h v hv)
  refine ⟨hraw.ne_nil, hraw.trimmed, fun c hc => ?_⟩
  obtain rfl := List.mem_singleton.mp hc
  exact hraw.not_mem ',' (by decide)

theorem read_rawList (now : Instant) :
    (Operand.ofRaws true [rawList items]).read now = .ok (list items) := by
  have hread : ((items.map raw).mapM (read now)) = .ok (items.map id) :=
    mapM_map_eq_ok fun v hv => read_raw (h v hv) now
  refine Operand.read_list_eq_ok_iff.mpr ⟨items, ?_, rfl⟩
  rw [List.flatMap_singleton, splitList_rawList h, hread, List.map_id]

end Lists

end Value

namespace Test

/-- What can be written as a value of the batch language: scalars that stand alone, or elements
of a list. -/
def IsWritable : Test → Prop
  | compare _ v => v.IsLiteral Value.IsScalarText
  | oneOf items | noneOf items => ∀ v ∈ items, v.IsLiteral (IsToken Value.elementSeparators)
  | between low high => ∀ v ∈ [low, high], v.IsLiteral (IsToken Value.elementSeparators)

instance : DecidablePred IsWritable
  | compare _ v => inferInstanceAs (Decidable (v.IsLiteral Value.IsScalarText))
  | oneOf items | noneOf items => inferInstanceAs
    (Decidable (∀ v ∈ items, v.IsLiteral (IsToken Value.elementSeparators)))
  | between low high => inferInstanceAs
    (Decidable (∀ v ∈ [low, high], v.IsLiteral (IsToken Value.elementSeparators)))

def raw : Test → Text
  | compare _ v => v.raw
  | oneOf items | noneOf items => Value.rawList items
  | between low high => Value.rawList [low, high]

theorem isScalarText_raw {t : Test} (h : t.IsWritable) : Value.IsScalarText t.raw := by
  cases t with
  | compare c v => exact Value.isScalarText_raw h
  | oneOf items => exact Value.isScalarText_rawList h
  | noneOf items => exact Value.isScalarText_rawList h
  | between low high => exact Value.isScalarText_rawList h

theorem read_raw {t : Test} (h : t.IsWritable) (now : Instant) :
    (Operand.ofRaws t.operator.takesList [t.raw]).read now = .ok t.value := by
  cases t with
  | compare c v => exact Value.read_raw h now
  | oneOf items => exact Value.read_rawList h now
  | noneOf items => exact Value.read_rawList h now
  | between low high => exact Value.read_rawList h now

end Test

namespace Filter

/-- A filter that the batch language can state. -/
structure IsWritable (f : Filter) : Prop where
  field : IsToken RawFilter.separators f.field
  test : f.test.IsWritable

instance (f : Filter) : Decidable f.IsWritable :=
  decidable_of_iff (IsToken RawFilter.separators f.field ∧ f.test.IsWritable)
    ⟨fun h => ⟨h.1, h.2⟩, fun h => ⟨h.field, h.test⟩⟩

/-- The filter as it is written. -/
def raw (f : Filter) : RawFilter := ⟨f.field, f.operator.key, f.test.raw⟩

theorem isWritable_raw {f : Filter} (h : f.IsWritable) : f.raw.IsWritable where
  field := h.field.not_mem
  key := by
    have hkeys : ∀ op ∈ Operator.all, Lacks RawFilter.separators op.key := by decide
    exact hkeys f.operator (Operator.mem_all f.operator)
  value_isClosed := (Test.isScalarText_raw h.test).1
  value_trimEnd := (Test.isScalarText_raw h.test).2

theorem draft_raw (f : Filter) : f.raw.draft = Draft.ofRaws f.field f.operator [f.test.raw] := by
  simp only [RawFilter.draft, raw, Operator.ofKeyOrEq, Option.bind_some, Operator.ofKey?_key,
    Option.getD_some]

/-- A filter is found again in what it is written as. -/
theorem resolve_draft_raw {f : Filter} (h : f.IsWritable) (now : Instant) :
    f.raw.draft.resolve now = .ok (some f) := by
  have htrim : trim f.field = f.field := h.field.trimmed
  rw [draft_raw, Draft.resolve_eq_ok_some_iff]
  exact ⟨f.test.value, Test.read_raw h.test now, htrim.symm, Test.of_operator_value f.test⟩

end Filter

namespace Draft

theorem resolveAll_map_eq_ok {now : Instant} {fs : List Filter} {draft : Filter → Draft}
    (h : ∀ f ∈ fs, (draft f).resolve now = .ok (some f)) :
    resolveAll now (fs.map draft) = .ok fs := by
  rw [resolveAll, mapM_map_eq_ok h]
  simp [Except.map, List.filterMap_map]

end Draft

namespace Request

/-- A batch of written filters is read as these filters, in order, at every time. -/
theorem readFilters_of_written {c : Config} {p : Params} {fs : List Filter}
    (h : ∀ f ∈ fs, f.IsWritable)
    (hp : p.get? c.batchKey = some (.single (RawFilter.batch (fs.map Filter.raw))))
    (now : Instant) : readFilters c now p = .ok fs := by
  have hraw : ∀ w ∈ fs.map Filter.raw, w.IsWritable := by
    intro w hw
    obtain ⟨f, hf, rfl⟩ := List.mem_map.mp hw
    exact Filter.isWritable_raw (h f hf)
  rw [readFilters, RawFilter.drafts_of_get?_batch hraw hp, List.map_map]
  exact Draft.resolveAll_map_eq_ok fun f hf => Filter.resolve_draft_raw (h f hf) now

/-- Dates at the ends of their range, hidden commas, colons, and empty lists and texts. -/
theorem readFilters_of_every_kind_written :
    let fs : List Filter :=
      [⟨"at".toList, .compare .gte (.instant ⟨-62167219200, 0, by decide, by decide, by decide⟩),
          by decide⟩,
        ⟨"meta.at".toList,
          .noneOf [.instant ⟨253402214400, 0, by decide, by decide, by decide⟩, .null], by decide⟩,
        ⟨"title".toList, .compare .eq (.text " x:[1,[2,3]]y".toList), by decide⟩,
        ⟨"score".toList, .between (.text "10".toList) (.bool false), by decide⟩,
        ⟨"role".toList, .oneOf [], by decide⟩, ⟨"role".toList, .compare .neq (.text []), by decide⟩]
    let p : Params := ⟨[("status".toList, .single "active".toList), ("filters".toList, .single
      ("at:gte:0000-01-01,meta.at:nin:[9999-12-31,null],title:eq: x:[1,[2,3]]y," ++
        "score:btw:[10,false],role:in:[],role:neq:").toList)]⟩
    let now : Instant := ⟨0, 0, by decide, by decide, by decide⟩
    (∀ f ∈ fs, f.IsWritable) ∧
      p.get? Config.default.batchKey = some (.single (RawFilter.batch (fs.map Filter.raw))) ∧
      readFilters .default now p = .ok fs := by
  intro fs p now
  have hfs : ∀ f ∈ fs, f.IsWritable := by decide +kernel
  have hp : p.get? Config.default.batchKey =
      some (.single (RawFilter.batch (fs.map Filter.raw))) := by decide +kernel
  exact ⟨hfs, hp, readFilters_of_written hfs hp now⟩

end Request

end Listing
