import Listing.Proofs.Page.Tiling
import Listing.Proofs.Request.Lists
import Listing.Proofs.Text.Digits

/-!
# The page of a request

A count is written in decimal, behind any number of zeros and at most one plus sign; a numeral
beyond the last count writes none, however long it is. The page of a request and its size are the
counts that stand under their keys, blanks aside, and at least 1; where no count stands, they are
1 and the size that the configuration gives. From both follows the window of rows.
-/

namespace Listing

open Text

/-- The text is the count in decimal, behind zeros and at most one plus sign. -/
def Text.WritesCount (t : Text) (n : Nat) : Prop :=
  n < 2 ^ 64 ∧ ∃ zeros, t = List.replicate zeros '0' ++ decimal n ∨
    t = '+' :: List.replicate zeros '0' ++ decimal n

/-- The number from 1 on that a text gives: the count that it writes between blanks, and
`missing` without a text or when it writes none. -/
structure Request.IsGivenBy (n : Nat) (text? : Option Text) (missing : Nat) : Prop where
  count : ∀ t ∈ text?, ∀ m, (trim t).WritesCount m → n = max 1 m
  otherwise : (∀ t ∈ text?, ∀ m, ¬(trim t).WritesCount m) → n = max 1 missing

namespace Text

/-! ## Counts -/

/-- Texts of digits that denote a number are its decimal text behind zeros. -/
theorem denotes_iff {t : Text} {n : Nat} :
    (t ≠ [] ∧ (∀ c ∈ t, c.isDigit = true) ∧ digitsValue t = n) ↔
      ∃ zeros, t = List.replicate zeros '0' ++ decimal n := by
  constructor
  · rintro ⟨hne, hdigits, rfl⟩
    exact exists_eq_zeros_append_decimal hne hdigits
  · rintro ⟨zeros, rfl⟩
    refine ⟨fun h => Nat.toDigits_ne_nil (List.append_eq_nil_iff.mp h).2, fun c hc => ?_, ?_⟩
    · rcases List.mem_append.mp hc with hc | hc
      · exact isDigit_of_mem_replicate_zero hc
      · exact isDigit_of_mem_decimal hc
    · rw [digitsValue_zeros_append, digitsValue_decimal]

theorem dropPlus_eq_iff {t u : Text} (hu : '+' ∉ u) : dropPlus t = u ↔ t = u ∨ t = '+' :: u := by
  unfold dropPlus
  split
  · rename_i t
    constructor
    · rintro rfl
      exact .inr rfl
    · rintro (rfl | h)
      · exact absurd List.mem_cons_self hu
      · exact (List.cons.inj h).2
  · rename_i hplus
    exact ⟨.inl, fun h => h.resolve_right fun h => hplus u h⟩

theorem readCount?_eq_some_iff {t : Text} {n : Nat} :
    readCount? t = some n ↔ t.WritesCount n := by
  have hmax : ∀ m, m ≤ maxCount ↔ m < 2 ^ 64 := fun m => by
    unfold maxCount UInt64.size
    omega
  have hread : readCount? t = some n ↔
      n < 2 ^ 64 ∧ dropPlus t ≠ [] ∧ (∀ c ∈ dropPlus t, c.isDigit = true) ∧
        digitsValue (dropPlus t) = n := by
    simp only [readCount?, List.all_eq_true, hmax, Option.ite_none_right_eq_some,
      Option.some.injEq]
    constructor
    · rintro ⟨⟨hne, hdigits, hlt⟩, rfl⟩
      exact ⟨hlt, hne, hdigits, rfl⟩
    · rintro ⟨hlt, hne, hdigits, rfl⟩
      exact ⟨⟨hne, hdigits, hlt⟩, rfl⟩
  rw [hread, denotes_iff]
  refine and_congr_right fun _ => exists_congr fun zeros => dropPlus_eq_iff fun hmem => ?_
  have hdigits := (denotes_iff.mpr ⟨zeros, rfl⟩).2.1 '+' hmem
  exact absurd hdigits (by decide)

end Text

namespace Request

/-! ## Numbers from 1 on -/

theorem isGivenBy_readPositive (text? : Option Text) (missing : Nat) :
    IsGivenBy (readPositive text? missing) text? missing where
  count t ht m hm := by
    obtain rfl := Option.mem_def.mp ht
    rw [readPositive, Option.bind_some, readCount?_eq_some_iff.mpr hm, Option.getD_some]
  otherwise h := by
    have hnone : (text?.bind fun t => readCount? (trim t)) = none := by
      rw [Option.bind_eq_none_iff]
      intro t ht
      rw [Option.eq_none_iff_forall_ne_some]
      exact fun m hm => h t ht m (readCount?_eq_some_iff.mp hm)
    rw [readPositive, hnone, Option.getD_none]

theorem pages_of_read {c : Config} {now : Instant} {p : Params} {r : Request}
    (h : read c now p = .ok r) : r.page = readPositive (p.getText? "page".toList) 1 ∧
      r.perPage = readPositive (p.getText? "per_page".toList) c.defaultPerPage := by
  obtain ⟨fs, -, rfl⟩ := Except.map_eq_ok_iff.mp h
  exact ⟨rfl, rfl⟩

theorem window_of_one_le {page perPage : Nat} (hpage : 1 ≤ page) (hperPage : 1 ≤ perPage)
    (maxPerPage : Nat) :
    Window.of page perPage maxPerPage =
      ⟨page, min perPage (max 1 maxPerPage),
        min ((page - 1) * min perPage (max 1 maxPerPage)) (2 ^ 64 - 1),
        min perPage (max 1 maxPerPage)⟩ := by
  rw [Window.of, Nat.max_eq_left hpage, Nat.max_eq_left hperPage, Nat.max_comm maxPerPage 1]
  rfl

/-- Whenever the filters of a request can be read, its page and its size are the numbers that the
last texts under their keys give. The window shows as many rows as the size allows up to the
configured maximum, and starts behind the rows of the pages before, or at the last count if these
are more. -/
theorem page_and_window_of_read (c : Config) (now : Instant) (p : Params) :
    ∃ page perPage limit : Nat,
      IsGivenBy page (p.getText? "page".toList) 1 ∧
      IsGivenBy perPage (p.getText? "per_page".toList) c.defaultPerPage ∧
      limit = min perPage (max 1 c.maxPerPage) ∧
      (read c now p).map (fun r => (r.page, r.perPage)) =
        (readFilters c now p).map (fun _ => (page, perPage)) ∧
      (read c now p).map (Window.ofRequest c) = (readFilters c now p).map fun _ =>
        ⟨page, limit, min ((page - 1) * limit) (2 ^ 64 - 1), limit⟩ := by
  refine ⟨_, _, _, isGivenBy_readPositive _ 1, isGivenBy_readPositive _ c.defaultPerPage, rfl,
    map_read_eq fun r hr => ?_, map_read_eq fun r hr => ?_⟩
  · obtain ⟨hpage, hperPage⟩ := pages_of_read hr
    rw [hpage, hperPage]
  · obtain ⟨hpage, hperPage⟩ := pages_of_read hr
    rw [Window.ofRequest, hpage, hperPage,
      window_of_one_le (one_le_readPositive _ _) (one_le_readPositive _ _)]

-- The last text of an array counts, and one more than the last count is no count.
example :
    let p : Params := ⟨[("page".toList, .many ["-1".toList, " +007 ".toList]),
      ("per_page".toList, .single "0018446744073709551616".toList)]⟩
    (readPositive (p.getText? "page".toList) 1, readPositive (p.getText? "per_page".toList) 20) =
      (7, 20) := by
  decide

end Request
end Listing
