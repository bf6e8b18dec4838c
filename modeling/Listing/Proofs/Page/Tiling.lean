import Listing.Page
import Mathlib.Logic.ExistsUnique

/-!
# Pages tile the rows

All pages of a resource have the same size. A page after the first exists exactly when it starts
before the end of the rows, and everything else follows: each row is on one page, the last page is
not empty, the offset of an existing page is never cut down, and the offset of any other page lies
at the end of the rows or after it, cut down or not.
-/

namespace Listing

namespace Window

/-- The number of rows on every page. -/
def pageSize (perPage maxPerPage : Nat) : Nat := min (max perPage 1) (max maxPerPage 1)

/-- The number of pages of this size, whichever of them is asked for. -/
def pageCount (size total : Nat) : Nat := (PageInfo.of 1 size total).pages

/-- The row stands in the window; rows are counted from 0. -/
def Shows (w : Window) (row : Nat) : Prop := w.offset ≤ row ∧ row < w.offset + w.limit

theorem one_le_pageSize (perPage maxPerPage : Nat) : 1 ≤ pageSize perPage maxPerPage := by
  unfold pageSize
  omega

theorem pageSize_le (perPage maxPerPage : Nat) : pageSize perPage maxPerPage ≤ max maxPerPage 1 :=
  Nat.min_le_right _ _

/-- A page after the first exists exactly when it starts before the end of the rows. -/
theorem lt_pageCount_iff {size total page : Nat} (hsize : 1 ≤ size) :
    page < pageCount size total ↔ page = 0 ∨ page * size < total := by
  have hmax : max size 1 = size := Nat.max_eq_left hsize
  simp only [pageCount, PageInfo.of, hmax]
  split
  · omega
  · -- A bound on the quotient, which is rounded up, becomes a bound on `page * size`.
    rw [← Nat.add_one_le_iff, Nat.le_div_iff_mul_le hsize, Nat.succ_mul]
    rcases Nat.eq_zero_or_pos page with rfl | hpage
    · simp only [Nat.zero_mul, true_or, iff_true]
      omega
    · omega

theorem one_le_pageCount {size : Nat} (hsize : 1 ≤ size) (total : Nat) :
    1 ≤ pageCount size total :=
  (lt_pageCount_iff hsize).mpr (.inl rfl)

section Pages

variable (page perPage maxPerPage total : Nat)

theorem limit_of : (of page perPage maxPerPage).limit = pageSize perPage maxPerPage := rfl

theorem pages_pageInfo_of : ((of page perPage maxPerPage).pageInfo total).pages =
    pageCount (pageSize perPage maxPerPage) total := rfl

theorem offset_of : (of page perPage maxPerPage).offset =
    min ((page - 1) * pageSize perPage maxPerPage) maxCount := by
  have hpage : max page 1 - 1 = page - 1 := by omega
  simp only [of, hpage, pageSize]

variable {page perPage maxPerPage total}

theorem start_of_le_pageCount (hpage : page ≤ pageCount (pageSize perPage maxPerPage) total) :
    page - 1 = 0 ∨ (page - 1) * pageSize perPage maxPerPage < total := by
  have hsize := one_le_pageSize perPage maxPerPage
  have hcount := one_le_pageCount hsize total
  rw [← lt_pageCount_iff hsize]
  omega

variable (htotal : total ≤ maxCount)

include htotal

/-- The offset of an existing page is exact. -/
theorem offset_of_le_pageCount (hpage : page ≤ pageCount (pageSize perPage maxPerPage) total) :
    (of page perPage maxPerPage).offset = (page - 1) * pageSize perPage maxPerPage ∧
      (page - 1) * pageSize perPage maxPerPage < maxCount := by
  have hexact : (page - 1) * pageSize perPage maxPerPage < maxCount := by
    rcases start_of_le_pageCount hpage with hfirst | hstart
    · rw [hfirst, Nat.zero_mul]
      decide
    · exact Nat.lt_of_lt_of_le hstart htotal
  exact ⟨by rw [offset_of, Nat.min_eq_left (Nat.le_of_lt hexact)], hexact⟩

theorem offset_lt_of_le_pageCount (hpage : page ≤ pageCount (pageSize perPage maxPerPage) total)
    (hrows : 0 < total) : (of page perPage maxPerPage).offset < total := by
  rw [(offset_of_le_pageCount htotal hpage).1]
  rcases start_of_le_pageCount hpage with hfirst | hstart
  · rwa [hfirst, Nat.zero_mul]
  · exact hstart

/-- A page that does not exist starts at the end of the rows or after it. -/
theorem le_offset_of_pageCount_lt
    (hpage : pageCount (pageSize perPage maxPerPage) total < page) :
    total ≤ (of page perPage maxPerPage).offset := by
  have hsize := one_le_pageSize perPage maxPerPage
  have hbeyond : ¬(page - 1 = 0 ∨ (page - 1) * pageSize perPage maxPerPage < total) := by
    rw [← lt_pageCount_iff hsize]
    omega
  rw [offset_of]
  exact Nat.le_min.mpr ⟨Nat.le_of_not_lt fun hstart => hbeyond (.inr hstart), htotal⟩

/-- Row `i` is on page `i / size`, counted from 0, and on no other. -/
theorem shows_of_iff (hpage : page ≤ pageCount (pageSize perPage maxPerPage) total) (row : Nat) :
    (of page perPage maxPerPage).Shows row ↔ row / pageSize perPage maxPerPage = page - 1 := by
  have hsize := one_le_pageSize perPage maxPerPage
  rw [Shows, limit_of, (offset_of_le_pageCount htotal hpage).1, Nat.div_eq_iff hsize]
  omega

theorem existsUnique_shows {row : Nat} (hrow : row < total) :
    ∃! page, (1 ≤ page ∧ page ≤ pageCount (pageSize perPage maxPerPage) total) ∧
      (of page perPage maxPerPage).Shows row := by
  have hsize := one_le_pageSize perPage maxPerPage
  have hstart : row / pageSize perPage maxPerPage * pageSize perPage maxPerPage < total :=
    Nat.lt_of_le_of_lt (Nat.div_mul_le_self _ _) hrow
  have hpage := (lt_pageCount_iff hsize).mpr (.inr hstart)
  refine ⟨row / pageSize perPage maxPerPage + 1, ⟨⟨Nat.le_add_left _ _, hpage⟩, ?_⟩, ?_⟩
  · exact (shows_of_iff htotal hpage row).mpr rfl
  · rintro other ⟨⟨hone, hother⟩, hshows⟩
    have hindex := (shows_of_iff htotal hother row).mp hshows
    omega

end Pages

/-- All pages have one size, between 1 and its maximum. Of every number of rows that can be
counted, each row is on exactly one page and the last page is not empty; the offsets of all pages
are exact, and a page beyond them starts after all rows. -/
theorem pages_tile_rows (perPage maxPerPage : Nat) {total : Nat} (htotal : total ≤ maxCount) :
    ∃ size pages,
      (∀ page, (of page perPage maxPerPage).limit = size ∧
        ((of page perPage maxPerPage).pageInfo total).pages = pages) ∧
      (1 ≤ size ∧ size ≤ max maxPerPage 1) ∧ 1 ≤ pages ∧
      (∀ row < total, ∃! page, (1 ≤ page ∧ page ≤ pages) ∧
        (of page perPage maxPerPage).Shows row) ∧
      (0 < total → (of pages perPage maxPerPage).offset < total) ∧
      (∀ page ≤ pages, (of page perPage maxPerPage).offset = (page - 1) * size ∧
        (page - 1) * size < maxCount) ∧
      ∀ page, pages < page → total ≤ (of page perPage maxPerPage).offset := by
  have hsize := one_le_pageSize perPage maxPerPage
  refine ⟨pageSize perPage maxPerPage, pageCount (pageSize perPage maxPerPage) total,
    fun page => ⟨limit_of .., pages_pageInfo_of ..⟩, ⟨hsize, pageSize_le perPage maxPerPage⟩,
    one_le_pageCount hsize total, ?_, ?_, ?_, ?_⟩
  · exact fun row hrow => existsUnique_shows htotal hrow
  · exact offset_lt_of_le_pageCount htotal Nat.le.refl
  · exact fun page hpage => offset_of_le_pageCount htotal hpage
  · exact fun page hpage => le_offset_of_pageCount_lt htotal hpage

/-- As many rows as can be counted, on pages of a hundred: the offset of a huge page is cut down
and still lies after all rows. -/
theorem pages_tile_all_counts :
    maxCount ≤ maxCount ∧ ((of 7 500 100).pageInfo maxCount).pages = 184467440737095517 ∧
      (∃! page, (1 ≤ page ∧ page ≤ 184467440737095517) ∧
        (of page 500 100).Shows (maxCount - 1)) ∧
      (of 184467440737095517 500 100).offset = 18446744073709551600 ∧
      (of maxCount 500 100).offset = maxCount := by
  obtain ⟨size, pages, hall, -, -, hrow, -, hexact, hbeyond⟩ :=
    pages_tile_rows 500 100 (Nat.le_refl maxCount)
  have hsize : size = 100 := (hall 1).1.symm.trans (by decide)
  have hpages : pages = 184467440737095517 := (hall 1).2.symm.trans (by decide +kernel)
  subst hsize hpages
  refine ⟨Nat.le_refl _, (hall 7).2, hrow _ (by decide), ?_, ?_⟩
  · rw [(hexact 184467440737095517 (Nat.le_refl _)).1]
  · have hcut : (of maxCount 500 100).offset ≤ maxCount := Nat.min_le_right _ _
    exact Nat.le_antisymm hcut (hbeyond maxCount (by decide))

end Window

end Listing
