import Listing.Proofs.Filter.Resolution
import Listing.Request.Reading

/-!
# Reserved keys

Without a batch, every filter comes from a parameter. A parameter is reserved by the text before
the first colon of its key as it stands, and the field of its filter is that text trimmed. So a
filter has a reserved field exactly when its parameter has blanks around a reserved name; a key
that is written without such blanks never gives one.
-/

namespace Listing

open Text

namespace Request

section WithoutBatch

variable {c : Config} {now : Instant} {p : Params} {fs : List Filter}
  (hp : p.get? c.batchKey = none) (h : readFilters c now p = .ok fs)

include hp h

/-- The parameter that a filter was read from. -/
theorem exists_key_of_mem_filters {f : Filter} (hf : f ∈ fs) :
    ∃ key ∈ p.keys, c.isReserved (before ':' key) = false ∧ trim (before ':' key) = f.field := by
  simp only [readFilters, drafts, hp] at h
  obtain ⟨d, hd, hresolve⟩ := Draft.exists_of_mem_resolveAll h f hf
  obtain ⟨entry, hentry, hdraft⟩ := List.mem_filterMap.mp hd
  obtain ⟨hreserved, rfl⟩ := entryDraft?_eq_some_iff.mp hdraft
  obtain ⟨v, _, hfield, _⟩ := Draft.resolve_eq_ok_some_iff.mp hresolve
  exact ⟨entry.1, List.mem_map_of_mem hentry, hreserved, hfield.symm⟩

/-- A key that gives a reserved field is not reserved itself, so it is not the field as it
stands. -/
theorem exists_blanks_of_isReserved {f : Filter} (hf : f ∈ fs)
    (hfield : c.isReserved f.field = true) :
    ∃ key ∈ p.keys, c.isReserved (before ':' key) = false ∧ trim (before ':' key) = f.field ∧
      ¬IsTrimmed (before ':' key) := by
  obtain ⟨key, hkey, hreserved, htrim⟩ := exists_key_of_mem_filters hp h hf
  refine ⟨key, hkey, hreserved, htrim, fun htrimmed => ?_⟩
  rw [← htrim, htrimmed, hreserved] at hfield
  exact Bool.false_ne_true hfield

end WithoutBatch

/-- A filter has a reserved field only through a key with blanks around a reserved name, so
without such keys no filter has one. -/
theorem blanks_of_isReserved_field {c : Config} {now : Instant} {p : Params} {fs : List Filter}
    (hp : p.get? c.batchKey = none) (h : readFilters c now p = .ok fs) :
    (∀ f ∈ fs, c.isReserved f.field = true → ∃ key ∈ p.keys,
        c.isReserved (before ':' key) = false ∧ trim (before ':' key) = f.field ∧
          ¬IsTrimmed (before ':' key)) ∧
      ((∀ key ∈ p.keys, c.isReserved (trim (before ':' key)) = true → IsTrimmed (before ':' key)) →
        ∀ f ∈ fs, c.isReserved f.field = false) := by
  refine ⟨fun f hf hfield => exists_blanks_of_isReserved hp h hf hfield, fun hkeys f hf => ?_⟩
  rw [← Bool.not_eq_true]
  intro hfield
  obtain ⟨key, hkey, _, htrim, hblanks⟩ := exists_blanks_of_isReserved hp h hf hfield
  exact hblanks (hkeys key hkey (htrim ▸ hfield))

/-- Blanks around names that are not reserved do no harm. -/
theorem isReserved_field_eq_false_of_blank_names :
    let p := Params.ofQuery "page:gt=2&+age+:gte=18&format=csv&=x&include+d=1".toList
    let now : Instant := ⟨0, 0, by decide, by decide, by decide⟩
    let fs : List Filter :=
      [⟨"age".toList, .compare .gte (.text "18".toList), by decide⟩,
        ⟨"include d".toList, .compare .eq (.text "1".toList), by decide⟩]
    readFilters .default now p = .ok fs ∧ ∀ f ∈ fs, Config.default.isReserved f.field = false := by
  intro p now fs
  have hread : readFilters .default now p = .ok fs := by decide +kernel
  have hp : p.get? Config.default.batchKey = none := by decide +kernel
  exact ⟨hread, (blanks_of_isReserved_field hp hread).2 (by decide +kernel)⟩

/-- A blank before the name of a control parameter makes it a filter on that very name. -/
theorem isReserved_field_of_blank_before_page :
    let p := Params.ofQuery "+page=3".toList
    let now : Instant := ⟨0, 0, by decide, by decide, by decide⟩
    let fs : List Filter := [⟨"page".toList, .compare .eq (.text "3".toList), by decide⟩]
    p.get? Config.default.batchKey = none ∧ readFilters .default now p = .ok fs ∧
      ¬∀ f ∈ fs, Config.default.isReserved f.field = false := by
  decide +kernel

end Request

end Listing
