import Listing.Proofs.Filter.TopLevel
import Listing.Request.Reading

/-!
# The two notations of a filter

A filter is written as a field, the key of an operator and a raw value: either as one parameter,
whose key joins the first two by a colon, or as one token of a batch, which joins all three. Both
notations give the same draft, with the same scalars in the same order. So requests in the two
notations have the same filters at every time, and fail together.
-/

namespace Listing

open Text

/-- A filter as it is written. -/
structure RawFilter where
  field : Text
  key : Text
  value : Text
  deriving DecidableEq, Repr

namespace RawFilter

/-- What separates the parts of a batch, and the brackets that hide a comma. -/
def separators : List Char := [':', ',', '[', ']']

/-- A value may hold colons, and commas inside brackets. -/
structure IsWritable (w : RawFilter) : Prop where
  field : Lacks separators w.field
  key : Lacks separators w.key
  value_isClosed : Batch.IsClosed w.value
  value_trimEnd : trimEnd w.value = w.value

instance (w : RawFilter) : Decidable w.IsWritable :=
  decidable_of_iff (Lacks separators w.field ∧ Lacks separators w.key ∧
      Batch.IsClosed w.value ∧ trimEnd w.value = w.value)
    ⟨fun h => ⟨h.1, h.2.1, h.2.2.1, h.2.2.2⟩,
      fun h => ⟨h.field, h.key, h.value_isClosed, h.value_trimEnd⟩⟩

/-- The key of the parameter. -/
def parameter (w : RawFilter) : Text := w.field ++ ':' :: w.key

def token (w : RawFilter) : Text := w.parameter ++ ':' :: w.value

/-- The parameters of filters that are written one by one. -/
def perKey (ws : List RawFilter) : Params :=
  Params.ofList (ws.map fun w => (w.parameter, .single w.value))

def batch (ws : List RawFilter) : Text := join [','] (ws.map token)

/-- The only parameter of filters that are written as a batch. -/
def batched (c : Config) (ws : List RawFilter) : Params :=
  Params.ofList [(c.batchKey, .single (batch ws))]

/-- What both notations are read as. -/
def draft (w : RawFilter) : Draft :=
  Draft.ofRaws w.field (Operator.ofKeyOrEq (some w.key)) [w.value]

namespace IsWritable

variable {w : RawFilter} (h : w.IsWritable)

include h

theorem colon_not_mem_field : ':' ∉ w.field := h.field ':' (by decide)

theorem colon_not_mem_key : ':' ∉ w.key := h.key ':' (by decide)

theorem isClosed_token : Batch.IsClosed w.token := by
  have hfield : Batch.IsClosed w.field := Batch.isClosed_of_not_mem
    (h.field ',' (by decide)) (h.field '[' (by decide)) (h.field ']' (by decide))
  have hkey : Batch.IsClosed w.key := Batch.isClosed_of_not_mem
    (h.key ',' (by decide)) (h.key '[' (by decide)) (h.key ']' (by decide))
  have hcolon : Batch.IsClosed [':'] :=
    Batch.isClosed_of_not_mem (by decide) (by decide) (by decide)
  have htoken := ((hfield.append hcolon).append hkey).append (hcolon.append h.value_isClosed)
  simpa [token, parameter] using htoken

end IsWritable

theorem isBlank_token (w : RawFilter) : isBlank w.token = false := by
  have hcolon : isBlankChar ':' = false := by decide
  simp [isBlank, token, parameter, hcolon]

/-- Trimming a token trims the start of its field. -/
theorem trim_token {w : RawFilter} (h : trimEnd w.value = w.value) :
    trim w.token = token { w with field := trimStart w.field } := by
  have hcolon : isBlankChar ':' = false := by decide
  rw [token, parameter, trim_append_cons hcolon, trimStart_append_cons hcolon, h]
  rfl

theorem draft?_token {w : RawFilter} (hfield : ':' ∉ w.field) (hkey : ':' ∉ w.key) :
    Batch.draft? w.token = some w.draft := by
  have hcut : cut? ':' w.token = some (w.field, w.key ++ ':' :: w.value) :=
    cut?_eq_some_iff.mpr ⟨hfield, by simp [token, parameter]⟩
  have hrest : cut? ':' (w.key ++ ':' :: w.value) = some (w.key, w.value) :=
    cut?_eq_some_iff.mpr ⟨hkey, rfl⟩
  simp only [Batch.draft?, hcut, Option.map_some, hrest, draft]

/-- A batch reader takes the blanks before a token away, which makes no difference. -/
theorem draft?_trim_token {w : RawFilter} (h : w.IsWritable) :
    Batch.draft? (trim w.token) = some w.draft := by
  have hfield : ':' ∉ trimStart w.field := fun hmem =>
    h.colon_not_mem_field ((trimStart_suffix_self w.field).subset hmem)
  have hdraft := draft?_token (w := { w with field := trimStart w.field }) hfield
    h.colon_not_mem_key
  rw [trim_token h.value_trimEnd, hdraft]
  simp only [draft, Draft.ofRaws, trim_trimStart]

theorem drafts_batch {ws : List RawFilter} (h : ∀ w ∈ ws, w.IsWritable) :
    Batch.drafts [batch ws] = ws.map draft := by
  have hsplit : Batch.splitTopLevel (batch ws) = (ws.map token).map trim := by
    refine Batch.splitTopLevel_join (fun t ht => ?_) fun t ht => ?_
    · obtain ⟨w, hw, rfl⟩ := List.mem_map.mp ht
      exact (h w hw).isClosed_token
    · obtain ⟨w, _, rfl⟩ := List.mem_map.mp ht
      exact isBlank_token w
  rw [Batch.drafts, List.flatMap_singleton, hsplit, List.map_map, List.filterMap_map,
    ← List.filterMap_eq_map]
  exact List.filterMap_congr fun w hw => draft?_trim_token (h w hw)

theorem entryDraft?_parameter {c : Config} {w : RawFilter} (hfield : ':' ∉ w.field)
    (hreserved : c.isReserved w.field = false) :
    Request.entryDraft? c (w.parameter, .single w.value) = some w.draft := by
  have hcut : cut? ':' w.parameter = some (w.field, w.key) :=
    cut?_eq_some_iff.mpr ⟨hfield, rfl⟩
  rw [Request.entryDraft?_eq_some_iff, before_of_cut? hcut, hcut]
  exact ⟨hreserved, rfl⟩

theorem drafts_perKey {c : Config} {ws : List RawFilter} (hfield : ∀ w ∈ ws, ':' ∉ w.field)
    (hreserved : ∀ w ∈ ws, c.isReserved w.field = false) (hkeys : (ws.map parameter).Nodup)
    (hbatch : c.batchKey ∉ ws.map parameter) :
    Request.drafts c (perKey ws) = ws.map draft := by
  have hfst : (ws.map fun w => (w.parameter, RawValue.single w.value)).map Prod.fst =
      ws.map parameter := by
    rw [List.map_map]
    rfl
  have hentries := Params.entries_ofList (hfst ▸ hkeys)
  have hget : (perKey ws).get? c.batchKey = none := by
    rw [Params.get?_eq_none_iff, Params.keys, perKey, hentries, hfst]
    exact hbatch
  simp only [Request.drafts, hget]
  rw [perKey, hentries, List.filterMap_map, ← List.filterMap_eq_map]
  exact List.filterMap_congr fun w hw => entryDraft?_parameter (hfield w hw) (hreserved w hw)

theorem get?_batched (c : Config) (ws : List RawFilter) :
    (batched c ws).get? c.batchKey = some (.single (batch ws)) :=
  Params.get?_alter_self Params.empty c.batchKey _

theorem drafts_of_get?_batch {c : Config} {p : Params} {ws : List RawFilter}
    (h : ∀ w ∈ ws, w.IsWritable) (hp : p.get? c.batchKey = some (.single (batch ws))) :
    Request.drafts c p = ws.map draft := by
  simp only [Request.drafts, hp, RawValue.items]
  exact drafts_batch h

/-- Filters that are written one by one and the same filters in a batch are read alike, failures
included. -/
theorem readFilters_perKey_eq_batched {c : Config} {ws : List RawFilter}
    (h : ∀ w ∈ ws, w.IsWritable) (hreserved : ∀ w ∈ ws, c.isReserved w.field = false)
    (hkeys : (ws.map parameter).Nodup) (hbatch : c.batchKey ∉ ws.map parameter) (now : Instant) :
    Request.readFilters c now (perKey ws) = Request.readFilters c now (batched c ws) := by
  have hperKey := drafts_perKey (fun w hw => (h w hw).colon_not_mem_field) hreserved hkeys hbatch
  have hbatched := drafts_of_get?_batch h (get?_batched c ws)
  rw [Request.readFilters, hperKey, Request.readFilters, hbatched]

/-- Blanks, brackets, colons in values and unknown operators, dropped filters, and a failure. -/
theorem readFilters_eq_of_untidy_filters :
    let ws : List RawFilter :=
      [⟨" age ".toList, "gte".toList, " 18:00".toList⟩,
        ⟨"x".toList, "like".toList, "a]b[c,[d,e]]".toList⟩, ⟨" ".toList, "eq".toList, "1".toList⟩,
        ⟨"r".toList, "in".toList, "[ p, q,]".toList⟩, ⟨"s".toList, "btw".toList, [']']⟩,
        ⟨"at".toList, " lt".toList, "7_days_ago".toList⟩, ⟨"e".toList, [], []⟩]
    let now : Instant := ⟨0, 0, by decide, by decide, by decide⟩
    let dawn : Instant := ⟨Calendar.firstSecond, 0, by decide, by decide, by decide⟩
    Request.readFilters .default now (batched .default ws) =
        .ok [⟨"age".toList, .compare .gte (.text " 18:00".toList), by decide⟩,
          ⟨"x".toList, .compare .eq (.text "a]b[c,[d,e]]".toList), by decide⟩,
          ⟨"r".toList, .oneOf [.text ['p'], .text ['q']], by decide⟩,
          ⟨"at".toList, .compare .eq (.instant ⟨-604800, 0, by decide, by decide, by decide⟩),
            by decide⟩,
          ⟨"e".toList, .compare .eq (.text []), by decide⟩] ∧
      Request.readFilters .default dawn (batched .default ws) = .error .backward := by
  intro ws now dawn
  have hws : ∀ w ∈ ws, w.IsWritable := by decide
  have heq := readFilters_perKey_eq_batched (c := .default) hws (by decide) (by decide) (by decide)
  exact ⟨(heq now).symm.trans (by decide +kernel), (heq dawn).symm.trans (by decide +kernel)⟩

end RawFilter

end Listing
