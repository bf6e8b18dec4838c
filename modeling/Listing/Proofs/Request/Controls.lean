import Listing.Proofs.Filter.Clause
import Listing.Proofs.Filter.Resolution

/-!
# Controls and filters apart

The filters of a request come from its batch, or from the parameters that are not reserved;
everything else comes from the values of a few control keys. A parameter is reserved by the text
before the first colon of its key, whereas the batch and the controls are found by the whole key.
So a parameter such as `page:gt` or `filters:x` is neither a filter nor a control, and only the
batch key itself is reserved and still decides about filters.
-/

namespace Listing

open Text

/-- Changing the value under a key leaves the entries alone among which the key never is. -/
theorem Params.filter_entries_alter {key : Text} {chosen : Text × RawValue → Bool}
    (h : ∀ v, chosen (key, v) = false) (p : Params) (f : Option RawValue → RawValue) :
    (p.alter key f).entries.filter chosen = p.entries.filter chosen := by
  obtain ⟨entries⟩ := p
  change (alterEntries key f entries).filter chosen = entries.filter chosen
  induction entries with
  | nil => simp [alterEntries, h]
  | cons entry entries ih =>
    obtain ⟨k, v⟩ := entry
    by_cases hk : k = key
    · simp [alterEntries, hk, h]
    · simp [alterEntries, hk, List.filter_cons, ih]

namespace Request

/-- The parameters that can be filters, in order. -/
def filterEntries (c : Config) (p : Params) : List (Text × RawValue) :=
  p.entries.filter fun entry => c.isReserved (before ':' entry.1) = false

/-- The keys of all that is no filter. -/
def controlKeys : List Text :=
  ["order".toList, "include".toList, "select".toList, "group_by".toList, "keywords".toList,
    "query".toList, "page".toList, "per_page".toList]

section Filters

variable {c : Config} {p q : Params}

theorem clauses_congr (hbatch : p.get? c.batchKey = q.get? c.batchKey)
    (hentries : filterEntries c p = filterEntries c q) : clauses c p = clauses c q := by
  unfold clauses
  rw [hbatch]
  cases q.get? c.batchKey with
  | some batch => rfl
  | none => exact congrArg (List.map Clause.ofEntry) hentries

theorem readFilters_congr (hbatch : p.get? c.batchKey = q.get? c.batchKey)
    (hentries : filterEntries c p = filterEntries c q) (now : Instant) :
    readFilters c now p = readFilters c now q := by
  rw [readFilters, readFilters, drafts_eq, drafts_eq, clauses_congr hbatch hentries]

section Reserved

variable {key : Text} (hreserved : c.isReserved (before ':' key) = true) (hbatch : key ≠ c.batchKey)

include hreserved hbatch

/-- A reserved parameter adds no filter, wherever it stands. -/
theorem readFilters_append_cons_of_isReserved (now : Instant) (v : RawValue)
    (xs ys : List (Text × RawValue)) :
    readFilters c now ⟨xs ++ (key, v) :: ys⟩ = readFilters c now ⟨xs ++ ys⟩ := by
  apply readFilters_congr
  · exact Params.get?_append_cons_of_ne hbatch.symm v xs ys
  · simp [filterEntries, List.filter_append, hreserved]

/-- Setting a reserved parameter, or adding to its array, changes no filter. -/
theorem readFilters_alter_of_isReserved (now : Instant) (p : Params)
    (f : Option RawValue → RawValue) :
    readFilters c now (p.alter key f) = readFilters c now p := by
  apply readFilters_congr
  · exact p.get?_alter_of_ne hbatch.symm f
  · exact Params.filter_entries_alter (fun _ => by simp [hreserved]) p f

end Reserved

end Filters

/-- Only the filters can fail. -/
theorem map_filters_read (c : Config) (now : Instant) (p : Params) :
    (read c now p).map filters = readFilters c now p := by
  unfold read
  cases readFilters c now p <;> rfl

/-- The keys of lists. -/
def listKeys : List Text := ["include".toList, "select".toList, "group_by".toList]

/-- All but the filters is told by the lists, and by the values under the other control keys. -/
theorem read_eq_map_of_agreeing_controls {c : Config} {now now' : Instant} {p q : Params}
    {r : Request} (hlists : ∀ key ∈ listKeys, elements (p.get? key) = elements (q.get? key))
    (hothers : ∀ key ∈ controlKeys, key ∉ listKeys → p.get? key = q.get? key)
    (hp : read c now p = .ok r) :
    read c now' q = (readFilters c now' q).map fun fs => { r with filters := fs } := by
  obtain ⟨fs, -, rfl⟩ := Except.map_eq_ok_iff.mp hp
  simp only [listKeys, List.forall_mem_cons] at hlists
  obtain ⟨hinclude, hselect, hgroup, -⟩ := hlists
  have horder := hothers "order".toList (by decide) (by decide)
  have hkeywords := hothers "keywords".toList (by decide) (by decide)
  have hquery := hothers "query".toList (by decide) (by decide)
  have hpage := hothers "page".toList (by decide) (by decide)
  have hperPage := hothers "per_page".toList (by decide) (by decide)
  simp only [read, readKeywords?, Params.getText?, horder, hinclude, hselect, hgroup, hkeywords,
    hquery, hpage, hperPage]

/-- All but the filters is told by the values under the control keys. -/
theorem controls_congr {c : Config} {now now' : Instant} {p q : Params} {r r' : Request}
    (h : ∀ key ∈ controlKeys, p.get? key = q.get? key) (hp : read c now p = .ok r)
    (hq : read c now' q = .ok r') : r' = { r with filters := r'.filters } := by
  have hlists : ∀ key ∈ listKeys, key ∈ controlKeys := by decide
  rw [read_eq_map_of_agreeing_controls (fun key hkey => by rw [h key (hlists key hkey)])
    (fun key hkey _ => h key hkey) hp] at hq
  obtain ⟨fs, -, rfl⟩ := Except.map_eq_ok_iff.mp hq
  rfl

/-- Control parameters and filters do not interfere. Parameters that agree on the batch and, in
order, on the entries that are not reserved have the same filters, or fail alike. So a reserved
parameter other than the batch can be put anywhere, left out, set or added to. Parameters that
agree on the control keys agree on everything but the filters, and whether a request can be read
is up to its filters alone. -/
theorem read_of_agreeing_parts (c : Config) :
    (∀ (now : Instant) (p q : Params), p.get? c.batchKey = q.get? c.batchKey →
        filterEntries c p = filterEntries c q → readFilters c now p = readFilters c now q) ∧
      (∀ (now : Instant) (key : Text), c.isReserved (before ':' key) = true → key ≠ c.batchKey →
        (∀ (v : RawValue) (xs ys : List (Text × RawValue)),
            readFilters c now ⟨xs ++ (key, v) :: ys⟩ = readFilters c now ⟨xs ++ ys⟩) ∧
          ∀ (p : Params) (f : Option RawValue → RawValue),
            readFilters c now (p.alter key f) = readFilters c now p) ∧
      (∀ (now : Instant) (p : Params), (read c now p).map filters = readFilters c now p) ∧
      ∀ p q : Params, (∀ key ∈ controlKeys, p.get? key = q.get? key) →
        ∀ (now now' : Instant) (r r' : Request), read c now p = .ok r → read c now' q = .ok r' →
          r' = { r with filters := r'.filters } :=
  ⟨fun now _ _ hbatch hentries => readFilters_congr hbatch hentries now,
    fun now _ hreserved hbatch => ⟨readFilters_append_cons_of_isReserved hreserved hbatch now,
      readFilters_alter_of_isReserved hreserved hbatch now⟩,
    map_filters_read c, fun _ _ h _ _ _ _ hp hq => controls_congr h hp hq⟩

/-- Keys with an operator after a reserved name, the batch key among them, that are moved, changed,
set and left out around the same two filters; then another filter under the same controls. -/
theorem read_of_mixed_keys :
    let now : Instant := ⟨0, 0, by decide, by decide, by decide⟩
    let age : Text × RawValue := ("age:gte".toList, .single "18".toList)
    let name : Text × RawValue := ("name".toList, .many ["x".toList, "y".toList])
    let page : Text × RawValue := ("page".toList, .single "3".toList)
    let p : Params := ⟨[("page:gt".toList, .single "1".toList), age, page,
      ("filters:x".toList, .single "role:eq:admin".toList), name]⟩
    let q : Params := ⟨[("filters:x".toList, .many []), page, age, name,
      ("order:desc".toList, .single "age".toList)]⟩
    let other : Params := ⟨[page, ("filters".toList, .single "role:in:[a,b]".toList), name]⟩
    let fs : List Filter := [⟨"age".toList, .compare .gte (.text "18".toList), by decide⟩,
      ⟨"name".toList, .compare .eq (.text "y".toList), by decide⟩]
    let role : Filter := ⟨"role".toList, .oneOf [.text "a".toList, .text "b".toList], by decide⟩
    let r : Request := ⟨fs, none, [], [], [], none, 3, 20⟩
    read .default now p = .ok r ∧ readFilters .default now q = .ok fs ∧
      readFilters .default now (p.insert "page:gt".toList (.many [])) = .ok fs ∧
      readFilters .default now ⟨p.entries.tail⟩ = .ok fs ∧
      read .default now other = .ok { r with filters := [role] } := by
  intro now age name page p q other fs role r
  obtain ⟨hagree, hreserved, hmap, hcontrols⟩ := read_of_agreeing_parts .default
  have hp : read .default now p = .ok r := by decide +kernel
  have hfs : readFilters .default now p = .ok fs := by rw [← hmap, hp]; rfl
  have hrole : readFilters .default now other = .ok [role] := by decide +kernel
  obtain ⟨hplace, halter⟩ := hreserved now "page:gt".toList (by decide) (by decide)
  obtain ⟨r', hother, hfilters⟩ := Except.map_eq_ok_iff.mp ((hmap now other).trans hrole)
  have hr' : r' = { r with filters := r'.filters } :=
    hcontrols p other (by decide) now now r r' hp hother
  refine ⟨hp, (hagree now q p (by decide) (by decide)).trans hfs, (halter p _).trans hfs,
    (hplace _ [] p.entries.tail).symm.trans hfs, ?_⟩
  rw [hother, hr', hfilters]

end Request

end Listing
