import Listing.Proofs.Filter.Resolution
import Listing.Proofs.Text.Token
import Listing.Request.Reading

/-!
# Requests that are read are well formed

Whatever the parameters, the configuration and the clock are, a request that is read has trimmed
fields without the separators around them, lists exactly where the operators take lists, scalar
elements in these lists, keywords without the delimiter, and pages counted from 1.
-/

namespace Listing

open Text

/-- A scalar that is a token without commas if it is a text. -/
structure Value.IsElement (v : Value) : Prop where
  not_list : v.isList = false
  isToken : ∀ t, v = .text t → IsToken [','] t

structure Filter.WellFormed (f : Filter) : Prop where
  field : IsToken [':'] f.field
  isList_iff : f.value.isList = true ↔
    f.operator = .oneOf ∨ f.operator = .noneOf ∨ f.operator = .between
  bounds : f.operator = .between → ∃ low high, f.value = .list [low, high]
  elements : ∀ items, f.value = .list items → ∀ v ∈ items, v.IsElement
  rebuilt : Filter.of f.field f.operator f.value = .ok f

/-- A phrase may have blanks around it, terms may not. -/
def Keywords.WellFormed (delimiter : Char) : Keywords → Prop
  | phrase t => isBlank t = false ∧ delimiter ∉ t
  | terms ts => ts ≠ [] ∧ ∀ t ∈ ts, IsToken [delimiter] t

structure Request.WellFormed (c : Config) (r : Request) : Prop where
  filters : ∀ f ∈ r.filters, f.WellFormed
  sort : ∀ o ∈ r.sort, IsToken [':'] o.field
  includes : ∀ t ∈ r.includes, IsToken [','] t
  select : ∀ s ∈ r.select, IsToken [',', ':'] s.field
  groupBy : ∀ g ∈ r.groupBy, IsToken [',', ':'] g.field
  keywords : ∀ k ∈ r.keywords, k.WellFormed c.delimiter
  page_pos : 1 ≤ r.page
  perPage_pos : 1 ≤ r.perPage

/-! ## Drafts -/

/-- Drafts are made from raw texts, and their fields end before a colon. -/
def Draft.IsRead (d : Draft) : Prop :=
  ∃ field op raws, ':' ∉ field ∧ d = Draft.ofRaws field op raws

namespace Draft

theorem isRead_of_batch {token : Text} {d : Draft} (h : Batch.draft? token = some d) :
    d.IsRead := by
  obtain ⟨⟨field, rest⟩, hcut, rfl⟩ := Option.map_eq_some_iff.mp h
  have hfield := (cut?_eq_some_iff.mp hcut).1
  dsimp only
  split
  · exact ⟨field, _, _, hfield, rfl⟩
  · split
    · exact ⟨field, _, _, hfield, rfl⟩
    · exact ⟨field, _, _, hfield, rfl⟩

theorem isRead_of_entry {c : Config} {entry : Text × RawValue} {d : Draft}
    (h : Request.entryDraft? c entry = some d) : d.IsRead := by
  obtain ⟨_, rfl⟩ := Request.entryDraft?_eq_some_iff.mp h
  exact ⟨before ':' entry.1, _, _, not_mem_before ':' entry.1, rfl⟩

theorem isRead_of_mem_drafts {c : Config} {p : Params} {d : Draft}
    (h : d ∈ Request.drafts c p) : d.IsRead := by
  unfold Request.drafts at h
  split at h
  · obtain ⟨token, _, htoken⟩ := List.mem_filterMap.mp h
    exact isRead_of_batch htoken
  · obtain ⟨entry, _, hentry⟩ := List.mem_filterMap.mp h
    exact isRead_of_entry hentry

end Draft

/-! ## Filters -/

namespace Value

/-- The elements of a list literal are read as elements. -/
theorem isElement_of_mem_read {now : Instant} {raws : List Text} {vs : List Value}
    (h : (raws.flatMap splitList).mapM (read now) = .ok vs) : ∀ v ∈ vs, v.IsElement := by
  intro v hv
  obtain ⟨t, ht, hread⟩ := exists_of_mem_mapM_ok h v hv
  obtain ⟨raw, _, hraw⟩ := List.mem_flatMap.mp ht
  obtain ⟨hlist, htext⟩ := read_cases hread
  refine ⟨hlist, fun u hu => ?_⟩
  obtain rfl := htext u hu
  exact isToken_of_mem_pieces hraw

end Value

namespace Test

theorem of_scalar {c : Comparison} {v : Value} {t : Test} (h : of (.compare c) v = .ok t) :
    t.value = v := by
  cases h
  rfl

end Test

namespace Operator

theorem takesList_iff {op : Operator} :
    op.takesList = true ↔ op = oneOf ∨ op = noneOf ∨ op = between := by
  cases op <;> simp [takesList]

end Operator

namespace Filter

/-- A draft that was read resolves to a well-formed filter. -/
theorem wellFormed_of_resolve {now : Instant} {d : Draft} (hd : d.IsRead) {f : Filter}
    (h : d.resolve now = .ok (some f)) : f.WellFormed := by
  obtain ⟨field, op, raws, hcolon, rfl⟩ := hd
  obtain ⟨v, hread, hfield, htest⟩ := Draft.resolve_eq_ok_some_iff.mp h
  have hop : f.operator = op := Test.operator_of htest
  have hne : trim field ≠ [] := by
    intro hnil
    have hblank := f.field_not_blank
    rw [hfield] at hblank
    simp [Draft.ofRaws, hnil] at hblank
  have htoken : IsToken [':'] f.field := by
    rw [hfield]
    exact isToken_trim_of_not_mem hne hcolon
  cases hlist : op.takesList with
  | true =>
    -- A list of scalars, of which a range keeps the first two.
    obtain ⟨vs, hvs, rfl⟩ : ∃ vs, (raws.flatMap Value.splitList).mapM (Value.read now) = .ok vs ∧
        Value.list vs = v := by
      simpa [Draft.ofRaws, Operand.ofRaws, hlist, Operand.read_list_eq_ok_iff] using hread
    obtain ⟨hbounds, -, hkept⟩ := (Test.of_list_eq_ok_iff hlist).mp htest
    have hvalue : f.value = .list (if op = .between then vs.take 2 else vs) := hkept
    refine ⟨htoken, ?_, ?_, ?_, of_parts f⟩
    · rw [hvalue, hop, ← Operator.takesList_iff, hlist, Value.isList_list]
    · intro hbetween
      have hop : op = .between := hop ▸ hbetween
      obtain ⟨low, high, htake⟩ := List.length_eq_two.mp (List.length_take_of_le (hbounds hop))
      exact ⟨low, high, by rw [hvalue, if_pos hop, htake]⟩
    · intro items hitems v hv
      rw [← Value.list.inj (hvalue.symm.trans hitems)] at hv
      refine Value.isElement_of_mem_read hvs v ?_
      split at hv
      · exact List.mem_of_mem_take hv
      · exact hv
  | false =>
    obtain ⟨c, rfl⟩ : ∃ c, op = .compare c := by
      cases op with
      | compare c => exact ⟨c, rfl⟩
      | _ => simp [Operator.takesList] at hlist
    have hscalar : Value.read now (raws.getLast?.getD []) = .ok v := hread
    have hvalue : f.value = v := Test.of_scalar htest
    have hnot := (Value.read_cases hscalar).1
    refine ⟨htoken, ?_, ?_, ?_, of_parts f⟩
    · rw [hvalue, hop, ← Operator.takesList_iff, hlist, hnot]
    · simp [hop]
    · intro items hitems
      rw [← hvalue, hitems] at hnot
      simp at hnot

end Filter

/-! ## The other parameters -/

namespace SortOrder

theorem isToken_of_read {t : Text} {o : SortOrder} (h : read? t = some o) :
    IsToken [':'] o.field := by
  unfold read? at h
  cases hcut : cut? ':' t with
  | some cut =>
    simp only [hcut, Option.ite_none_left_eq_some, Option.some.injEq] at h
    obtain ⟨hne, rfl⟩ := h
    exact isToken_trim_of_not_mem hne (cut?_eq_some_iff.mp hcut).1
  | none =>
    simp only [hcut, Option.ite_none_left_eq_some, Option.some.injEq] at h
    obtain ⟨hne, rfl⟩ := h
    exact isToken_trim_of_not_mem hne (cut?_eq_none_iff.mp hcut)

end SortOrder

namespace Keywords

theorem wellFormed_of_read?_eq_some {delimiter : Char} {t : Text} {k : Keywords}
    (h : read? delimiter t = some k) : k.WellFormed delimiter := by
  unfold read? at h
  split at h
  · simp at h
  · rename_i hblank
    split at h
    · rename_i hdelimiter
      cases h
      exact ⟨by simpa using hblank, hdelimiter⟩
    · split at h
      · simp at h
      · rename_i ts hne
        cases h
        exact ⟨hne, fun t ht => isToken_of_mem_pieces ht⟩

end Keywords

namespace Request

theorem isToken_of_mem_elements {value? : Option RawValue} :
    ∀ t ∈ elements value?, IsToken [','] t := by
  intro t ht
  unfold elements at ht
  split at ht
  · obtain ⟨item, _, hitem⟩ := List.mem_flatMap.mp ht
    exact isToken_of_mem_pieces hitem
  · simp at ht

/-- An element stands for the trimmed text before its colon, and only blank fields are lost. -/
theorem qualified?_trim {α : Type} (lookup : Text → Option α) (t : Text) :
    qualified? lookup (trim t) =
      if trim (before ':' t) = [] then none
      else some (trim (before ':' t), (cut? ':' t).bind fun cut => lookup (trim cut.2)) := by
  unfold qualified?
  cases hcut : cut? ':' t with
  | none =>
    have hcolon := cut?_eq_none_iff.mp hcut
    have htrim : cut? ':' (trim t) = none := cut?_eq_none_iff.mpr fun hmem =>
      hcolon (mem_of_mem_trim hmem)
    rw [htrim, before_of_not_mem hcolon]
    rfl
  | some cut =>
    obtain ⟨field, qualifier⟩ := cut
    obtain ⟨hcolon, ht⟩ := cut?_eq_some_iff.mp hcut
    have htrim : cut? ':' (trim t) = some (trimStart field, trimEnd qualifier) := by
      refine cut?_eq_some_iff.mpr ⟨fun hmem => ?_, ?_⟩
      · exact hcolon ((trimStart_suffix_self field).subset hmem)
      · rw [ht, trim_append_cons (by decide)]
    simp only [htrim, before_of_cut? hcut, trim_trimStart, trim_trimEnd, Option.bind_some]

/-- The field of an element ends before its colon, so it has neither of the separators. -/
theorem isToken_of_qualified {α : Type} {lookup : Text → Option α} {element field : Text}
    {qualifier? : Option α} (helement : IsToken [','] element)
    (h : qualified? lookup element = some (field, qualifier?)) : IsToken [',', ':'] field := by
  have hcomma := helement.not_mem ',' List.mem_cons_self
  have htrim : trim element = element := helement.trimmed
  rw [← htrim, qualified?_trim, Option.ite_none_left_eq_some, Option.some.injEq,
    Prod.mk.injEq] at h
  obtain ⟨hne, rfl, -⟩ := h
  refine isToken_trim hne fun c hc => ?_
  simp only [List.mem_cons, List.not_mem_nil, or_false] at hc
  rcases hc with rfl | rfl
  · exact fun hmem => hcomma ((List.takeWhile_prefix _).subset hmem)
  · exact not_mem_before ':' element

theorem one_le_readPositive (text? : Option Text) (missing : Nat) :
    1 ≤ readPositive text? missing := Nat.le_max_left 1 _

/-- Every request that is read is well formed. -/
theorem wellFormed_of_read {c : Config} {now : Instant} {p : Params} {r : Request}
    (h : read c now p = .ok r) : r.WellFormed c := by
  obtain ⟨filters, hfilters, rfl⟩ := Except.map_eq_ok_iff.mp h
  refine
    { filters := ?_
      sort := ?_
      includes := isToken_of_mem_elements
      select := ?_
      groupBy := ?_
      keywords := ?_
      page_pos := one_le_readPositive _ _
      perPage_pos := one_le_readPositive _ _ }
  · intro f hf
    obtain ⟨d, hd, hresolve⟩ := Draft.exists_of_mem_resolveAll hfilters f hf
    exact Filter.wellFormed_of_resolve (Draft.isRead_of_mem_drafts hd) hresolve
  · intro o ho
    obtain ⟨t, _, ht⟩ := Option.bind_eq_some_iff.mp ho
    exact SortOrder.isToken_of_read ht
  · intro s hs
    obtain ⟨element, helement, hread⟩ := List.mem_filterMap.mp hs
    obtain ⟨⟨field, aggregation⟩, hqualified, rfl⟩ := Option.map_eq_some_iff.mp hread
    exact isToken_of_qualified (isToken_of_mem_elements element helement) hqualified
  · intro g hg
    obtain ⟨element, helement, hread⟩ := List.mem_filterMap.mp hg
    obtain ⟨⟨field, period⟩, hqualified, rfl⟩ := Option.map_eq_some_iff.mp hread
    exact isToken_of_qualified (isToken_of_mem_elements element helement) hqualified
  · intro k hk
    obtain ⟨t, _, ht⟩ := Option.bind_eq_some_iff.mp hk
    exact Keywords.wellFormed_of_read?_eq_some ht

/-- A request with blanks, brackets, missing parts and unknown operators all the same. -/
theorem wellFormed_of_untidy_parameters :
    let p : Params :=
      ⟨[(" age :gte".toList, .single " 18".toList), ("role:in".toList, .single "[a, b,, ]".toList),
        ("score:btw".toList, .many ["[1,2".toList, "true]".toList]),
        (" :eq".toList, .single "x".toList), ("tag:like:x".toList, .single "null".toList),
        ("order".toList, .single " name : ASC".toList),
        ("select".toList, .single " id:count, :sum,,b".toList),
        ("query".toList, .single " a ,, b ".toList), ("page".toList, .single "0".toList)]⟩
    let now : Instant := ⟨0, 0, by decide, by decide, by decide⟩
    let r : Request :=
      { filters := [⟨"age".toList, .compare .gte (.text " 18".toList), by decide⟩,
          ⟨"role".toList, .oneOf [.text "a".toList, .text "b".toList], by decide⟩,
          ⟨"score".toList, .between (.text "1".toList) (.text "2".toList), by decide⟩,
          ⟨"tag".toList, .compare .eq .null, by decide⟩]
        sort := some ⟨"name".toList, .asc⟩
        includes := []
        select := [⟨"id".toList, some .count⟩, ⟨"b".toList, none⟩]
        groupBy := []
        keywords := some (.terms ["a".toList, "b".toList])
        page := 1
        perPage := 20 }
    read .default now p = .ok r ∧ r.WellFormed .default := by
  intro p now r
  have hread : read .default now p = .ok r := by decide +kernel
  exact ⟨hread, wellFormed_of_read hread⟩

end Request

end Listing
