import Listing.Proofs.Request.Controls
import Listing.Proofs.Request.WellFormed

/-!
# The lists of a request

What to include, to select and to group by is written as lists with commas, and a field can have a
qualifier after a colon. Such a list is read back entry by entry; a qualifier that is not known
leaves its field as it is. An array is read as its elements joined by commas. Whether a request
can be read at all is up to its filters alone, and a list that is the batch as well can make them
fail.
-/

namespace Listing

open Calendar Text

/-- A field of a list, and what is written after its colon, if it has one. -/
structure ListEntry where
  field : Text
  qualifier? : Option Text

namespace ListEntry

/-- The field is a token, and the qualifier any text without commas. -/
structure IsWritable (e : ListEntry) : Prop where
  field : IsToken [',', ':'] e.field
  qualifier : ∀ qualifier ∈ e.qualifier?, ',' ∉ qualifier

instance (e : ListEntry) : Decidable e.IsWritable :=
  decidable_of_iff (IsToken [',', ':'] e.field ∧ ∀ qualifier ∈ e.qualifier?, ',' ∉ qualifier)
    ⟨fun h => ⟨h.1, h.2⟩, fun h => ⟨h.field, h.qualifier⟩⟩

/-- The entry as it is written. -/
def raw (e : ListEntry) : Text :=
  match e.qualifier? with
  | some qualifier => e.field ++ ':' :: qualifier
  | none => e.field

/-- The entries as they are written. -/
def rawList (es : List ListEntry) : Text := join [','] (es.map raw)

section Writable

variable {e : ListEntry} (h : e.IsWritable)

include h

theorem comma_not_mem_raw : ',' ∉ e.raw := by
  have hfield := h.field.not_mem ',' (by decide)
  unfold raw
  cases hqualifier : e.qualifier? with
  | none => exact hfield
  | some qualifier => simp [hfield, h.qualifier qualifier hqualifier]

theorem cut?_raw : cut? ':' e.raw = e.qualifier?.map fun qualifier => (e.field, qualifier) := by
  have hfield := h.field.not_mem ':' (by decide)
  unfold raw
  cases e.qualifier? with
  | none => exact cut?_eq_none_iff.mpr hfield
  | some qualifier => exact cut?_eq_some_iff.mpr ⟨hfield, rfl⟩

theorem before_raw : before ':' e.raw = e.field := by
  have hfield := h.field.not_mem ':' (by decide)
  unfold raw
  cases e.qualifier? with
  | none => exact before_of_not_mem hfield
  | some qualifier => exact before_of_cut? (cut?_eq_some_iff.mpr ⟨hfield, rfl⟩)

theorem trim_raw_ne_nil : trim e.raw ≠ [] := by
  have hfirst : e.field <+: e.raw := by
    unfold raw
    cases e.qualifier? with
    | none => exact List.prefix_refl e.field
    | some qualifier => exact List.prefix_append e.field _
  -- The field of a blank entry would be blank as well.
  intro hnil
  have hblank := List.all_eq_true.mp (trim_eq_nil_iff.mp hnil)
  have hfield : trim e.field = [] := trim_eq_nil_iff.mpr
    (List.all_eq_true.mpr fun c hc => hblank c (hfirst.subset hc))
  exact h.field.ne_nil (h.field.trimmed.symm.trans hfield)

end Writable

section Keys

variable {α : Type} {key : α → Text} (hkey : ∀ a, IsToken [','] (key a))

include hkey

theorem isWritable_of_key {field : Text} (hfield : IsToken [',', ':'] field) (a? : Option α) :
    IsWritable ⟨field, a?.map key⟩ := by
  refine ⟨hfield, fun qualifier hqualifier => ?_⟩
  obtain ⟨a, -, rfl⟩ := Option.map_eq_some_iff.mp hqualifier
  exact (hkey a).not_mem ',' List.mem_cons_self

/-- Blanks around a qualifier do not count, and a key has none. -/
theorem lookup_of_key {lookup : Text → Option α} (hlookup : ∀ a, lookup (key a) = some a)
    (a? : Option α) : ((a?.map key).bind fun qualifier => lookup (trim qualifier)) = a? := by
  cases a? with
  | none => rfl
  | some a =>
    have htrim : trim (key a) = key a := (hkey a).trimmed
    rw [Option.map_some, Option.bind_some, htrim, hlookup a]

end Keys

end ListEntry

theorem Aggregation.isToken_key (a : Aggregation) : IsToken [','] a.key := by
  cases a <;> decide

theorem Period.isToken_key (p : Period) : IsToken [','] p.key := by
  cases p <;> decide

namespace Selection

def entry (s : Selection) : ListEntry := ⟨s.field, s.aggregation.map Aggregation.key⟩

/-- What an entry stands for: a qualifier that is not known leaves the field as it is. -/
def ofEntry (e : ListEntry) : Selection :=
  ⟨e.field, e.qualifier?.bind fun qualifier => Aggregation.ofKey? (trim qualifier)⟩

@[simp] theorem ofEntry_entry (s : Selection) : ofEntry s.entry = s := by
  rw [ofEntry, entry, ListEntry.lookup_of_key Aggregation.isToken_key Aggregation.ofKey?_key]

theorem isWritable_entry {s : Selection} (h : IsToken [',', ':'] s.field) :
    s.entry.IsWritable :=
  ListEntry.isWritable_of_key Aggregation.isToken_key h s.aggregation

end Selection

namespace Grouping

def entry (g : Grouping) : ListEntry := ⟨g.field, g.period.map Period.key⟩

def ofEntry (e : ListEntry) : Grouping :=
  ⟨e.field, e.qualifier?.bind fun qualifier => Period.ofKey? (trim qualifier)⟩

@[simp] theorem ofEntry_entry (g : Grouping) : ofEntry g.entry = g := by
  rw [ofEntry, entry, ListEntry.lookup_of_key Period.isToken_key Period.ofKey?_key]

theorem isWritable_entry {g : Grouping} (h : IsToken [',', ':'] g.field) :
    g.entry.IsWritable :=
  ListEntry.isWritable_of_key Period.isToken_key h g.period

end Grouping

namespace Request

/-! ## Entries -/

section Written

variable {e : ListEntry} {es : List ListEntry}

theorem qualified?_trim_raw {α : Type} (lookup : Text → Option α) (h : e.IsWritable) :
    qualified? lookup (trim e.raw) =
      some (e.field, e.qualifier?.bind fun qualifier => lookup (trim qualifier)) := by
  have htrim : trim e.field = e.field := h.field.trimmed
  rw [qualified?_trim, e.before_raw h, e.cut?_raw h, htrim, if_neg h.field.ne_nil,
    Option.bind_map]
  rfl

theorem elements_single (t : Text) : elements (some (.single t)) = pieces ',' t :=
  List.flatMap_singleton _ _

/-- A written list has one element for each of its entries. -/
theorem elements_rawList (h : ∀ e ∈ es, e.IsWritable) :
    elements (some (.single (ListEntry.rawList es))) = es.map fun e => trim e.raw := by
  have hpieces : ∀ e ∈ es, pieces ',' e.raw = [trim e.raw] := by
    intro e he
    rw [pieces_of_not_mem (ListEntry.comma_not_mem_raw (h e he))]
    simp [trimmedParts, ListEntry.trim_raw_ne_nil (h e he)]
  rw [elements_single, ListEntry.rawList, pieces_join_eq_flatMap, List.flatMap_map,
    List.flatMap_congr hpieces, ← List.map_eq_flatMap]

/-- No entry of a written list is lost. -/
theorem filterMap_elements_rawList {α : Type} {read? : Text → Option α} {f : ListEntry → α}
    (hread : ∀ e : ListEntry, e.IsWritable → read? (trim e.raw) = some (f e))
    (h : ∀ e ∈ es, e.IsWritable) :
    (elements (some (.single (ListEntry.rawList es)))).filterMap read? = es.map f := by
  rw [elements_rawList h, List.filterMap_map, ← List.filterMap_eq_map]
  exact List.filterMap_congr fun e he => hread e (h e he)

theorem readSelection?_trim_raw (h : e.IsWritable) :
    readSelection? (trim e.raw) = some (Selection.ofEntry e) := by
  rw [readSelection?, qualified?_trim_raw _ h]
  rfl

theorem readGrouping?_trim_raw (h : e.IsWritable) :
    readGrouping? (trim e.raw) = some (Grouping.ofEntry e) := by
  rw [readGrouping?, qualified?_trim_raw _ h]
  rfl

end Written

/-! ## Requests -/

section Requests

variable {c : Config} {now : Instant} {p q : Params}

/-- A part of a request that is the same whatever its filters are is given when these can be
read. -/
theorem map_read_eq {α : Type} {part : Request → α} {a : α}
    (h : ∀ r, read c now p = .ok r → part r = a) :
    (read c now p).map part = (readFilters c now p).map fun _ => a := by
  rw [← map_filters_read]
  cases hr : read c now p with
  | error direction => rfl
  | ok r => exact congrArg Except.ok (h r hr)

/-- The lists of a request are the elements under their keys. -/
theorem lists_of_read {r : Request} (h : read c now p = .ok r) :
    r.includes = elements (p.get? "include".toList) ∧
      r.select = (elements (p.get? "select".toList)).filterMap readSelection? ∧
      r.groupBy = (elements (p.get? "group_by".toList)).filterMap readGrouping? := by
  obtain ⟨fs, -, rfl⟩ := Except.map_eq_ok_iff.mp h
  exact ⟨rfl, rfl, rfl⟩

theorem map_includes_read {names : List Text} (h : ∀ t ∈ names, IsToken [','] t)
    (hp : p.get? "include".toList = some (.single (join [','] names))) :
    (read c now p).map includes = (readFilters c now p).map fun _ => names := by
  refine map_read_eq fun r hr => ?_
  obtain ⟨hincludes, -, -⟩ := lists_of_read hr
  rw [hincludes, hp, elements_single, pieces_join h]

theorem map_select_read {es : List ListEntry} (h : ∀ e ∈ es, e.IsWritable)
    (hp : p.get? "select".toList = some (.single (ListEntry.rawList es))) :
    (read c now p).map select = (readFilters c now p).map fun _ => es.map Selection.ofEntry := by
  refine map_read_eq fun r hr => ?_
  obtain ⟨-, hselect, -⟩ := lists_of_read hr
  rw [hselect, hp, filterMap_elements_rawList (fun _ => readSelection?_trim_raw) h]

theorem map_groupBy_read {es : List ListEntry} (h : ∀ e ∈ es, e.IsWritable)
    (hp : p.get? "group_by".toList = some (.single (ListEntry.rawList es))) :
    (read c now p).map groupBy = (readFilters c now p).map fun _ => es.map Grouping.ofEntry := by
  refine map_read_eq fun r hr => ?_
  obtain ⟨-, -, hgroupBy⟩ := lists_of_read hr
  rw [hgroupBy, hp, filterMap_elements_rawList (fun _ => readGrouping?_trim_raw) h]

theorem readFilters_of_filterEntries_eq_nil (hbatch : p.get? c.batchKey = none)
    (hentries : filterEntries c p = []) : readFilters c now p = .ok [] :=
  readFilters_congr (q := .empty) hbatch hentries now

theorem read_eq_of_agreeing_controls
    (hlists : ∀ key ∈ listKeys, elements (p.get? key) = elements (q.get? key))
    (hothers : ∀ key ∈ controlKeys, key ∉ listKeys → p.get? key = q.get? key)
    (hfilters : readFilters c now p = readFilters c now q) : read c now p = read c now q := by
  cases hp : read c now p with
  | ok r =>
    rw [read_eq_map_of_agreeing_controls hlists hothers hp, ← hfilters, ← map_filters_read, hp]
    rfl
  | error direction =>
    have hq : readFilters c now q = .error direction := by
      rw [← hfilters, ← map_filters_read, hp]
      rfl
    rw [read, hq]
    rfl

end Requests

/-! ## Arrays -/

/-- An array is read as the list that its elements make when they are joined. -/
theorem elements_many (raws : List Text) :
    elements (some (.many raws)) = elements (some (.single (join [','] raws))) := by
  rw [elements_single, pieces_join_eq_flatMap]
  rfl

section Arrays

variable {key : Text} (hkey : key ∈ listKeys) (p : Params) (raws : List Text)

theorem elements_get?_insert_many (other : Text) :
    elements ((p.insert key (.many raws)).get? other) =
      elements ((p.insert key (.single (join [','] raws))).get? other) := by
  unfold Params.insert
  by_cases hother : other = key
  · subst hother
    rw [Params.get?_alter_self, Params.get?_alter_self, elements_many]
  · rw [Params.get?_alter_of_ne p hother, Params.get?_alter_of_ne p hother]

include hkey

theorem get?_insert_of_not_mem_listKeys {other : Text} (hother : other ∉ listKeys)
    (v w : RawValue) : (p.insert key v).get? other = (p.insert key w).get? other := by
  have hne : other ≠ key := fun heq => hother (heq ▸ hkey)
  unfold Params.insert
  rw [Params.get?_alter_of_ne p hne, Params.get?_alter_of_ne p hne]

/-- Written as an array or joined, a list makes the same request up to the filters, and the very
same one under a key that is reserved and not that of the batch. -/
theorem read_insert_many (c : Config) (now : Instant) :
    (∀ r r', read c now (p.insert key (.many raws)) = .ok r →
        read c now (p.insert key (.single (join [','] raws))) = .ok r' →
          r' = { r with filters := r'.filters }) ∧
      (c.isReserved key = true → key ≠ c.batchKey →
        read c now (p.insert key (.many raws)) =
          read c now (p.insert key (.single (join [','] raws)))) := by
  -- The elements agree even under the key itself; the other controls are not touched.
  have hlists : ∀ other ∈ listKeys, elements ((p.insert key (.many raws)).get? other) =
      elements ((p.insert key (.single (join [','] raws))).get? other) :=
    fun other _ => elements_get?_insert_many p raws other
  have hothers : ∀ other ∈ controlKeys, other ∉ listKeys →
      (p.insert key (.many raws)).get? other =
        (p.insert key (.single (join [','] raws))).get? other :=
    fun other _ hother => get?_insert_of_not_mem_listKeys hkey p hother _ _
  refine ⟨fun r r' hr hr' => ?_,
    fun hreserved hbatch => read_eq_of_agreeing_controls hlists hothers ?_⟩
  · rw [read_eq_map_of_agreeing_controls hlists hothers hr] at hr'
    obtain ⟨fs, -, rfl⟩ := Except.map_eq_ok_iff.mp hr'
    rfl
  · have hbefore : ∀ key ∈ listKeys, before ':' key = key := by decide
    rw [← hbefore key hkey] at hreserved
    rw [Params.insert, readFilters_alter_of_isReserved hreserved hbatch, Params.insert,
      readFilters_alter_of_isReserved hreserved hbatch]

end Arrays

/-- Whenever the filters of a request can be read, the tokens to include and the fields to select
and to group by are read as they are written, in order. A qualifier that is not known leaves its
field as it is, and an array is read as its elements joined by commas. Without filters a request
can always be read. -/
theorem read_written_lists (c : Config) (now : Instant) (p : Params) :
    (∀ names : List Text, (∀ t ∈ names, IsToken [','] t) →
        p.get? "include".toList = some (.single (join [','] names)) →
          (read c now p).map includes = (readFilters c now p).map fun _ => names) ∧
      (∀ ss : List Selection, (∀ s ∈ ss, IsToken [',', ':'] s.field) →
        p.get? "select".toList = some (.single (ListEntry.rawList (ss.map Selection.entry))) →
          (read c now p).map select = (readFilters c now p).map fun _ => ss) ∧
      (∀ gs : List Grouping, (∀ g ∈ gs, IsToken [',', ':'] g.field) →
        p.get? "group_by".toList = some (.single (ListEntry.rawList (gs.map Grouping.entry))) →
          (read c now p).map groupBy = (readFilters c now p).map fun _ => gs) ∧
      (∀ es : List ListEntry, (∀ e ∈ es, e.IsWritable) →
        (p.get? "select".toList = some (.single (ListEntry.rawList es)) →
          (read c now p).map select =
            (readFilters c now p).map fun _ => es.map Selection.ofEntry) ∧
        (p.get? "group_by".toList = some (.single (ListEntry.rawList es)) →
          (read c now p).map groupBy =
            (readFilters c now p).map fun _ => es.map Grouping.ofEntry)) ∧
      (∀ key ∈ listKeys, ∀ raws : List Text,
        (∀ r r', read c now (p.insert key (.many raws)) = .ok r →
          read c now (p.insert key (.single (join [','] raws))) = .ok r' →
            r' = { r with filters := r'.filters }) ∧
        (c.isReserved key = true → key ≠ c.batchKey →
          read c now (p.insert key (.many raws)) =
            read c now (p.insert key (.single (join [','] raws))))) ∧
      (p.get? c.batchKey = none → filterEntries c p = [] → readFilters c now p = .ok []) := by
  refine ⟨fun names h hp => map_includes_read h hp, fun ss h hp => ?_, fun gs h hp => ?_,
    fun es h => ⟨fun hp => map_select_read h hp, fun hp => map_groupBy_read h hp⟩,
    fun key hkey raws => read_insert_many hkey p raws c now,
    fun hbatch hentries => readFilters_of_filterEntries_eq_nil hbatch hentries⟩
  · have hes : ∀ e ∈ ss.map Selection.entry, e.IsWritable :=
      List.forall_mem_map.mpr fun s hs => Selection.isWritable_entry (h s hs)
    have hselect : (read c now p).map select = (readFilters c now p).map fun _ =>
      (ss.map Selection.entry).map Selection.ofEntry := map_select_read hes hp
    simpa [Function.comp_def] using hselect
  · have hes : ∀ e ∈ gs.map Grouping.entry, e.IsWritable :=
      List.forall_mem_map.mpr fun g hg => Grouping.isWritable_entry (h g hg)
    have hgroupBy : (read c now p).map groupBy = (readFilters c now p).map fun _ =>
      (gs.map Grouping.entry).map Grouping.ofEntry := map_groupBy_read hes hp
    simpa [Function.comp_def] using hgroupBy

/-- Names with colons, a qualifier that is not known, one with blanks around it, and an array, read
at the first second of the range. -/
theorem read_lists_of_report :
    let now : Instant := ⟨firstSecond, 0, by decide, by decide, by decide⟩
    let names := ["author".toList, ":1_day_ago".toList]
    let ss : List Selection := [⟨"id".toList, some .count⟩, ⟨"meta.title".toList, none⟩]
    let es : List ListEntry := [⟨"created_at".toList, some " month ".toList⟩,
      ⟨"status".toList, some "decade:x".toList⟩, ⟨"kind".toList, none⟩]
    let raws := ["created_at: month ,status:decade:x".toList, "kind".toList]
    let p : Params := ⟨[("include".toList, .single "author,:1_day_ago".toList),
      ("select".toList, .single "id:count,meta.title".toList),
      ("group_by".toList, .single "created_at: month ,status:decade:x,kind".toList)]⟩
    let gs : List Grouping := [⟨"created_at".toList, some .month⟩, ⟨"status".toList, none⟩,
      ⟨"kind".toList, none⟩]
    (read .default now p).map includes = .ok names ∧ (read .default now p).map select = .ok ss ∧
      (p.get? "group_by".toList = some (.single (ListEntry.rawList es)) ∧
        (read .default now p).map groupBy = .ok gs) ∧
      read .default now (p.insert "group_by".toList (.many raws)) = read .default now p := by
  intro now names ss es raws p gs
  obtain ⟨hincludes, hselect, -, hentries, harrays, hfilters⟩ := read_written_lists .default now p
  have hread : readFilters .default now p = .ok [] := hfilters (by decide) (by decide)
  have hes : p.get? "group_by".toList = some (.single (ListEntry.rawList es)) := by decide
  have hgs : es.map Grouping.ofEntry = gs := by decide
  have hjoined : p.insert "group_by".toList (.single (join [','] raws)) = p := by decide
  refine ⟨?_, ?_, ⟨hes, ?_⟩, ?_⟩
  · rw [hincludes names (by decide) (by decide), hread]
    rfl
  · rw [hselect ss (by decide) (by decide), hread]
    rfl
  · rw [(hentries es (by decide)).2 hes, hread, hgs]
    rfl
  · rw [(harrays "group_by".toList (by decide) raws).2 (by decide) (by decide), hjoined]

/-- When the tokens to include are the batch as well, one of them can be a shift that leaves the
range, and nothing is read; so what is written is not always read back. -/
theorem include_fails_as_batch :
    let c : Config := { Config.default with batchKey := "include".toList }
    let now : Instant := ⟨firstSecond, 0, by decide, by decide, by decide⟩
    let names := [":1_day_ago".toList]
    let p : Params := ⟨[("include".toList, .single (join [','] names))]⟩
    (∀ t ∈ names, IsToken [','] t) ∧ read c now p = .error .backward ∧
      ¬∃ r, read c now p = .ok r ∧ r.includes = names := by
  intro c now names p
  have hnames : ∀ t ∈ names, IsToken [','] t := by decide
  have hread : read c now p = .error .backward := by decide +kernel
  refine ⟨hnames, hread, ?_⟩
  rintro ⟨r, hr, -⟩
  rw [hread] at hr
  cases hr

end Request
end Listing
