import Listing.Proofs.Request.Lists

/-!
# The keywords of a request

The text of the keywords stands under its own key, or under another one where the first holds
nothing. Cut at every delimiter, it gives keywords unless all its parts are blank: the text itself
where there is nothing to cut, and otherwise the parts that are not blank, trimmed. The delimiter
may be a blank itself; a text of blanks has blank parts then as well.
-/

namespace Listing

open Text

/-- The parts stand one after the other in the text, and the separator between neighbours and
nowhere else. -/
structure Text.AreParts (sep : Char) (parts : List Text) (t : Text) : Prop where
  ne_nil : parts ≠ []
  join_eq : join [sep] parts = t
  not_mem : ∀ part ∈ parts, sep ∉ part

/-- The last text under the key of keywords, or under that of a query where the first has none. -/
def Request.IsKeywordText (p : Params) (t : Text) : Prop :=
  p.getText? "keywords".toList = some t ∨
    p.getText? "keywords".toList = none ∧ p.getText? "query".toList = some t

namespace Text

/-! ## Parts -/

theorem areParts_iff {sep : Char} {parts : List Text} {t : Text} :
    AreParts sep parts t ↔ parts = split sep t := by
  rw [eq_comm, split_eq_iff]
  constructor
  · intro h
    exact ⟨h.ne_nil, h.join_eq, h.not_mem⟩
  · rintro ⟨hne, hjoin, hparts⟩
    exact ⟨hne, hjoin, hparts⟩

theorem isInfix_join {sep : Text} {ts : List Text} {t : Text} (h : t ∈ ts) :
    t <:+: join sep ts := by
  induction ts with
  | nil => cases h
  | cons u ts ih =>
    cases ts with
    | nil =>
      obtain rfl := List.mem_singleton.mp h
      exact List.infix_rfl
    | cons v vs =>
      rw [join]
      rcases List.mem_cons.mp h with rfl | h
      · exact ((List.prefix_append t sep).trans (List.prefix_append _ _)).isInfix
      · exact (ih h).trans (List.suffix_append _ _).isInfix

theorem isBlank_of_mem_split {sep : Char} {t part : Text} (ht : isBlank t = true)
    (h : part ∈ split sep t) : isBlank part = true := by
  have hpart : part <:+: join [sep] (split sep t) := isInfix_join h
  rw [join_split] at hpart
  exact List.all_eq_true.mpr fun c hc => List.all_eq_true.mp ht c (hpart.subset hc)

theorem pieces_eq_map_trim (sep : Char) (t : Text) :
    pieces sep t = ((split sep t).filter fun part => !isBlank part).map trim := by
  have hempty : ∀ part : Text, (trim part).isEmpty = isBlank part := fun part => by
    rw [Bool.eq_iff_iff, List.isEmpty_iff, trim_eq_nil_iff]
  simp only [pieces, trimmedParts, List.filter_map, Function.comp_def, hempty]

theorem pieces_eq_nil_iff {sep : Char} {t : Text} :
    pieces sep t = [] ↔ ∀ part ∈ split sep t, isBlank part = true := by
  simp [pieces_eq_map_trim]

end Text

namespace Keywords

/-! ## Reading -/

theorem read?_of_forall_isBlank {delimiter : Char} {t : Text}
    (h : ∀ part ∈ split delimiter t, isBlank part = true) : read? delimiter t = none := by
  have hpieces := pieces_eq_nil_iff.mpr h
  unfold read?
  split
  · rfl
  · rename_i hblank
    split
    · -- Without a delimiter the text is its only part.
      rename_i hdelimiter
      rw [split_of_not_mem hdelimiter] at h
      exact absurd (h t List.mem_cons_self) hblank
    · rw [hpieces]

theorem read?_of_exists_not_isBlank {delimiter : Char} {t : Text}
    (h : ∃ part ∈ split delimiter t, isBlank part = false) :
    read? delimiter t = some (if delimiter ∈ t then terms (pieces delimiter t) else phrase t) := by
  obtain ⟨part, hpart, hfalse⟩ := h
  have hblank : ¬isBlank t = true := fun ht => by
    rw [isBlank_of_mem_split ht hpart] at hfalse
    cases hfalse
  have hpieces : pieces delimiter t ≠ [] := fun hnil => by
    rw [pieces_eq_nil_iff.mp hnil part hpart] at hfalse
    cases hfalse
  rw [read?, if_neg hblank]
  by_cases hdelimiter : delimiter ∈ t
  · rw [if_neg (not_not_intro hdelimiter), if_pos hdelimiter]
    split
    · contradiction
    · rfl
  · rw [if_pos hdelimiter, if_neg hdelimiter]

theorem read?_eq_none_iff {delimiter : Char} {t : Text} :
    read? delimiter t = none ↔ ∀ part ∈ split delimiter t, isBlank part = true := by
  refine ⟨fun h part hpart => ?_, read?_of_forall_isBlank⟩
  rw [← Bool.not_eq_false]
  intro hfalse
  rw [read?_of_exists_not_isBlank ⟨part, hpart, hfalse⟩] at h
  cases h

/-- Two tokens or more are read back from their join. -/
theorem read?_join {delimiter : Char} {ts : List Text} (hlength : 2 ≤ ts.length)
    (h : ∀ t ∈ ts, IsToken [delimiter] t) :
    read? delimiter (join [delimiter] ts) = some (terms ts) := by
  obtain ⟨t, u, us, rfl⟩ : ∃ t u us, ts = t :: u :: us := by
    match ts, hlength with
    | t :: u :: us, _ => exact ⟨t, u, us, rfl⟩
  have hmem : delimiter ∈ join [delimiter] (t :: u :: us) := by simp [join]
  have hlacks : ∀ v ∈ t :: u :: us, delimiter ∉ v := fun v hv =>
    (h v hv).not_mem delimiter List.mem_cons_self
  have hblank : isBlank t = false := by
    rw [← Bool.not_eq_true, ← trim_eq_nil_iff, (h t List.mem_cons_self).trimmed]
    exact (h t List.mem_cons_self).ne_nil
  rw [read?_of_exists_not_isBlank ⟨t, ?_, hblank⟩, if_pos hmem, pieces_join h]
  rw [split_join (List.cons_ne_nil t _) hlacks]
  exact List.mem_cons_self

end Keywords

namespace Request

theorem isKeywordText_iff {p : Params} {t : Text} : IsKeywordText p t ↔
    (p.getText? "keywords".toList).or (p.getText? "query".toList) = some t := by
  rw [IsKeywordText, Option.or_eq_some_iff]

theorem readKeywords?_eq {c : Config} {p : Params} {t : Text} (h : IsKeywordText p t) :
    readKeywords? c p = Keywords.read? c.delimiter t := by
  rw [readKeywords?, isKeywordText_iff.mp h, Option.bind_some]

theorem keywords_of_read {c : Config} {now : Instant} {p : Params} {r : Request}
    (h : read c now p = .ok r) : r.keywords = readKeywords? c p := by
  obtain ⟨fs, -, rfl⟩ := Except.map_eq_ok_iff.mp h
  rfl

/-- Keywords are missing when there is no text for them, or when it has blank parts only. -/
theorem readKeywords?_eq_none_iff {c : Config} {p : Params} : readKeywords? c p = none ↔
    ∀ t parts, IsKeywordText p t → AreParts c.delimiter parts t →
      ∀ part ∈ parts, isBlank part = true := by
  constructor
  · intro hnone t parts ht hparts
    rw [areParts_iff.mp hparts]
    exact Keywords.read?_eq_none_iff.mp (readKeywords?_eq ht ▸ hnone)
  · intro h
    rw [readKeywords?, Option.bind_eq_none_iff]
    intro t ht
    exact Keywords.read?_of_forall_isBlank (h t _ (isKeywordText_iff.mpr ht) (areParts_iff.mpr rfl))

/-- The keywords of a request are those of the last text under their key, or under that of a query.
They are missing exactly when there is no such text or all its parts between delimiters are blank;
otherwise they are the text as it stands when it has no delimiter, and when it has one the parts
that are not blank, trimmed and in order. So two tokens or more are read back from their join. -/
theorem keywords_of_separated_text (c : Config) (now : Instant) (p : Params) :
    ((read c now p).map keywords = (readFilters c now p).map fun _ => readKeywords? c p) ∧
      (readKeywords? c p = none ↔ ∀ t parts, IsKeywordText p t → AreParts c.delimiter parts t →
        ∀ part ∈ parts, isBlank part = true) ∧
      (∀ t parts, IsKeywordText p t → AreParts c.delimiter parts t →
        (∃ part ∈ parts, isBlank part = false) →
          readKeywords? c p = some (if c.delimiter ∈ t
            then .terms ((parts.filter fun part => !isBlank part).map trim) else .phrase t)) ∧
      ∀ ts : List Text, 2 ≤ ts.length → (∀ t ∈ ts, IsToken [c.delimiter] t) →
        IsKeywordText p (join [c.delimiter] ts) → readKeywords? c p = some (.terms ts) := by
  refine ⟨map_read_eq fun r => keywords_of_read, readKeywords?_eq_none_iff,
    fun t parts ht hparts h => ?_, fun ts hlength h ht => ?_⟩
  · obtain rfl := areParts_iff.mp hparts
    rw [readKeywords?_eq ht, Keywords.read?_of_exists_not_isBlank h, pieces_eq_map_trim]
  · rw [readKeywords?_eq ht, Keywords.read?_join hlength h]

/-- The delimiter is an em space, a blank itself, and the text stands under the second key. -/
theorem keywords_of_text_with_em_spaces :
    let c : Config := { Config.default with delimiter := '\u2003' }
    let now : Instant := ⟨0, 0, by decide, by decide, by decide⟩
    let parts := [[], " a ".toList, " ".toList, "b, c".toList]
    let ts := ["a".toList, "b, c".toList]
    let p : Params := ⟨[("keywords".toList, .many []),
      ("query".toList, .many ["x".toList, join ['\u2003'] parts])]⟩
    let q : Params := ⟨[("keywords".toList, .single (join ['\u2003'] ts)),
      ("query".toList, .single "x".toList)]⟩
    (IsKeywordText p (join ['\u2003'] parts) ∧ AreParts '\u2003' parts (join ['\u2003'] parts) ∧
        readKeywords? c p = some (.terms ts)) ∧
      (∀ t ∈ ts, IsToken ['\u2003'] t) ∧ IsKeywordText q (join ['\u2003'] ts) ∧
      (read c now q).map keywords = .ok (some (.terms ts)) := by
  intro c now parts ts p q
  have hp : IsKeywordText p (join ['\u2003'] parts) := .inr (by decide)
  have hparts : AreParts '\u2003' parts (join ['\u2003'] parts) :=
    ⟨by decide, rfl, by decide⟩
  have hts : ∀ t ∈ ts, IsToken ['\u2003'] t := by decide
  have hq : IsKeywordText q (join ['\u2003'] ts) := .inl (by decide)
  obtain ⟨-, -, hread, -⟩ := keywords_of_separated_text c now p
  obtain ⟨hrequest, -, -, hjoin⟩ := keywords_of_separated_text c now q
  have hfilters : readFilters c now q = .ok [] := by decide
  refine ⟨⟨hp, hparts, ?_⟩, hts, hq, ?_⟩
  · exact (hread _ parts hp hparts (by decide)).trans (by decide)
  · rw [hrequest, hfilters, hjoin ts (by decide) hts hq]
    rfl

end Request
end Listing
