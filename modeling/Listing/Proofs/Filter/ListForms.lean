import Listing.Proofs.Filter.Clause

/-!
# The forms of a list

A list of values can be written in brackets, without them, and as an array of texts. A reader
strips one opening and one closing bracket from each raw text before it looks for commas, so the
forms agree as long as no raw text has a bracket at its ends: the elements are then those between
the commas, wherever the commas come from. Elements that are tokens are given back one by one.
-/

namespace Listing

open Text

namespace Value

/-- A raw text without an opening bracket at its start and a closing one at its end. -/
structure IsBare (raw : Text) : Prop where
  head : (trim raw).head? ≠ some '['
  last : (trim raw).getLast? ≠ some ']'

instance (raw : Text) : Decidable (IsBare raw) :=
  decidable_of_iff ((trim raw).head? ≠ some '[' ∧ (trim raw).getLast? ≠ some ']')
    ⟨fun h => ⟨h.1, h.2⟩, fun h => ⟨h.head, h.last⟩⟩

theorem dropOpen_of_head?_ne {t : Text} (h : t.head? ≠ some '[') : dropOpen t = t := by
  unfold dropOpen
  split
  · exact absurd rfl h
  · rfl

theorem splitList_of_isBare {raw : Text} (h : IsBare raw) : splitList raw = pieces ',' raw := by
  rw [splitList, dropOpen_of_head?_ne h.head, dropClose, if_neg h.last, pieces_trim (by decide)]

/-- One pair of brackets is stripped, whatever stands inside. -/
theorem splitList_bracketed (t : Text) : splitList ('[' :: t ++ [']']) = pieces ',' t := by
  have htrim : trim ('[' :: t ++ [']']) = '[' :: t ++ [']'] := by
    refine isTrimmed_iff.mpr ⟨?_, ?_⟩
    · simp only [List.cons_append, List.head?_cons, Option.mem_def, Option.some.injEq, forall_eq']
      decide
    · rw [List.getLast?_concat]
      simp only [Option.mem_def, Option.some.injEq, forall_eq']
      decide
  rw [splitList, htrim, List.cons_append, dropOpen, dropClose, List.getLast?_concat, if_pos rfl,
    List.dropLast_concat]

/-! ## Joined raw texts -/

theorem or_some_ne {α : Type} {o : Option α} {a b : α} (ho : o ≠ some b) (ha : a ≠ b) :
    o.or (some a) ≠ some b := by
  cases o with
  | none => simpa using ha
  | some c => exact ho

theorem head?_trim_join {raws : List Text} (h : ∀ raw ∈ raws.head?, (trim raw).head? ≠ some '[') :
    (trim (join [','] raws)).head? ≠ some '[' := by
  match raws with
  | [] => simp [join]
  | [raw] => exact h raw rfl
  | raw :: next :: raws =>
    -- After a blank text the join starts with a comma.
    rw [join, List.append_assoc, List.singleton_append, head?_trim_append_cons (by decide)]
    exact or_some_ne (h raw rfl) (by decide)

theorem getLast?_trim_join {raws : List Text}
    (h : ∀ raw ∈ raws.getLast?, (trim raw).getLast? ≠ some ']') :
    (trim (join [','] raws)).getLast? ≠ some ']' := by
  induction raws with
  | nil => simp [join]
  | cons raw raws ih =>
    cases raws with
    | nil => exact h raw rfl
    | cons next raws =>
      rw [List.getLast?_cons_cons] at h
      rw [join, List.append_assoc, List.singleton_append, getLast?_trim_append_cons (by decide)]
      exact or_some_ne (ih h) (by decide)

/-- Only the ends of the first and of the last text can be taken for the brackets of a list. -/
theorem splitList_join {raws : List Text} (hhead : ∀ raw ∈ raws.head?, (trim raw).head? ≠ some '[')
    (hlast : ∀ raw ∈ raws.getLast?, (trim raw).getLast? ≠ some ']') :
    splitList (join [','] raws) = raws.flatMap (pieces ',') := by
  rw [splitList_of_isBare ⟨head?_trim_join hhead, getLast?_trim_join hlast⟩,
    pieces_join_eq_flatMap]

section Bare

variable {raws : List Text} (h : ∀ raw ∈ raws, IsBare raw)

include h

theorem flatMap_splitList_of_isBare : raws.flatMap splitList = raws.flatMap (pieces ',') :=
  List.flatMap_congr fun raw hraw => splitList_of_isBare (h raw hraw)

theorem splitList_join_of_isBare : splitList (join [','] raws) = raws.flatMap splitList := by
  rw [flatMap_splitList_of_isBare h]
  exact splitList_join (fun raw hraw => (h raw (List.mem_of_mem_head? hraw)).head)
    fun raw hraw => (h raw (List.mem_of_mem_getLast? hraw)).last

theorem splitList_bracketed_join_of_isBare :
    splitList ('[' :: join [','] raws ++ [']']) = raws.flatMap splitList := by
  rw [flatMap_splitList_of_isBare h, splitList_bracketed, pieces_join_eq_flatMap]

end Bare

end Value

namespace Request

open Value

/-- A parameter can be given another value that makes the same draft. -/
theorem readFilters_eq_of_entryDraft?_eq {c : Config} {key : Text} {v w : RawValue}
    (hkey : key ≠ c.batchKey) (h : entryDraft? c (key, v) = entryDraft? c (key, w))
    (now : Instant) (xs ys : List (Text × RawValue)) :
    readFilters c now ⟨xs ++ (key, v) :: ys⟩ = readFilters c now ⟨xs ++ (key, w) :: ys⟩ := by
  rw [readFilters, drafts_append_cons hkey, readFilters, drafts_append_cons hkey, h]

theorem entryDraft?_eq_of_splitList_eq {c : Config} {key raw : Text} {raws : List Text}
    (hop : (Clause.ofEntry (key, .many raws)).operator.takesList = true)
    (h : splitList raw = raws.flatMap splitList) :
    entryDraft? c (key, .single raw) = entryDraft? c (key, .many raws) := by
  have helements : (Clause.ofEntry (key, .single raw)).elements =
      (Clause.ofEntry (key, .many raws)).elements := by
    simpa [Clause.elements, Clause.ofEntry, RawValue.items] using h
  have hdraft :
      (Clause.ofEntry (key, .single raw)).draft = (Clause.ofEntry (key, .many raws)).draft :=
    Clause.draft_eq_of_elements_eq rfl rfl hop helements
  rw [Clause.entryDraft?_eq, Clause.entryDraft?_eq, hdraft]

/-- A list of tokens is read back from its text in brackets, and from the bare text when no
bracket stands at the ends. For an operator on lists, an array of raw texts without brackets at
their ends is read like one raw text that joins them by commas, with brackets or without: the
request has the same filters, or cannot be read, in all three forms. -/
theorem readFilters_of_list_forms :
    (∀ ts : List Text, (∀ t ∈ ts, IsToken [','] t) →
        splitList ('[' :: join [','] ts ++ [']']) = ts ∧
          ((∀ t ∈ ts.head?, t.head? ≠ some '[') → (∀ t ∈ ts.getLast?, t.getLast? ≠ some ']') →
            splitList (join [','] ts) = ts)) ∧
      ∀ (c : Config) (now : Instant) (key : Text) (raws : List Text)
        (xs ys : List (Text × RawValue)), key ≠ c.batchKey →
          (Clause.ofEntry (key, .many raws)).operator.takesList = true →
            (∀ raw ∈ raws, IsBare raw) →
              readFilters c now ⟨xs ++ (key, .single (join [','] raws)) :: ys⟩ =
                  readFilters c now ⟨xs ++ (key, .many raws) :: ys⟩ ∧
                readFilters c now ⟨xs ++ (key, .single ('[' :: join [','] raws ++ [']'])) :: ys⟩ =
                  readFilters c now ⟨xs ++ (key, .many raws) :: ys⟩ := by
  constructor
  · intro ts h
    refine ⟨by rw [splitList_bracketed, pieces_join h], fun hhead hlast => ?_⟩
    have htrim {t : Text} (ht : t ∈ ts) : trim t = t := (h t ht).trimmed
    rw [splitList_join, ← pieces_join_eq_flatMap, pieces_join h]
    · intro t ht
      rw [htrim (List.mem_of_mem_head? ht)]
      exact hhead t ht
    · intro t ht
      rw [htrim (List.mem_of_mem_getLast? ht)]
      exact hlast t ht
  · intro c now key raws xs ys hkey hop hraws
    have hplain := entryDraft?_eq_of_splitList_eq (c := c) hop (splitList_join_of_isBare hraws)
    have hbracketed := entryDraft?_eq_of_splitList_eq (c := c) hop
      (splitList_bracketed_join_of_isBare hraws)
    exact ⟨readFilters_eq_of_entryDraft?_eq hkey hplain now xs ys,
      readFilters_eq_of_entryDraft?_eq hkey hbracketed now xs ys⟩

/-- Brackets inside of tokens and of raw texts, raw texts that hold several elements or none, and
elements that are not texts. -/
theorem readFilters_of_untidy_list_forms :
    let ts : List Text := ["a]".toList, "[b".toList]
    let raws : List Text := [[' '], " a, x[1]y,,".toList, [], "null ".toList]
    let p : RawValue → Params := fun v =>
      ⟨[("page".toList, .single "2".toList), ("role:in".toList, v),
        ("b".toList, .single "1".toList)]⟩
    let fs : List Filter :=
      [⟨"role".toList, .oneOf [.text "a".toList, .text "x[1]y".toList, .null], by decide⟩,
        ⟨"b".toList, .compare .eq (.text "1".toList), by decide⟩]
    let now : Instant := ⟨0, 0, by decide, by decide, by decide⟩
    (∀ t ∈ ts, IsToken [','] t) ∧ splitList "[a],[b]".toList = ts ∧
      splitList "a],[b".toList = ts ∧ (∀ raw ∈ raws, IsBare raw) ∧
      readFilters .default now (p (.many raws)) = .ok fs ∧
      readFilters .default now (p (.single " , a, x[1]y,,,,null ".toList)) = .ok fs ∧
      readFilters .default now (p (.single "[ , a, x[1]y,,,,null ]".toList)) = .ok fs := by
  intro ts raws p fs now
  obtain ⟨hliteral, hforms⟩ := readFilters_of_list_forms
  have hts : ∀ t ∈ ts, IsToken [','] t := by decide
  have hraws : ∀ raw ∈ raws, IsBare raw := by decide
  have hmany : readFilters .default now (p (.many raws)) = .ok fs := by decide +kernel
  obtain ⟨hplain, hbracketed⟩ := hforms .default now "role:in".toList raws
    [("page".toList, .single "2".toList)] [("b".toList, .single "1".toList)] (by decide)
    (by decide) hraws
  exact ⟨hts, (hliteral ts hts).1, (hliteral ts hts).2 (by decide) (by decide), hraws, hmany,
    hplain.trans hmany, hbracketed.trans hmany⟩

end Request

end Listing
