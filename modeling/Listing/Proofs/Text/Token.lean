import Listing.Text.Split
import Mathlib.Data.List.DropRight

/-!
# Tokens

A token is a text that is not empty, has no blanks at its ends and contains none of some
separators. Readers that trim and split produce tokens. A text is trimmed exactly when it has no
blank at either end, so trimming twice is trimming once.
-/

namespace Listing
namespace Text

/-! ## Trimming -/

theorem trimStart_suffix_self (t : Text) : trimStart t <:+ t := List.dropWhile_suffix isBlankChar

theorem trimEnd_prefix_self (t : Text) : trimEnd t <+: t := List.rdropWhile_prefix isBlankChar t

theorem mem_of_mem_trim {c : Char} {t : Text} (h : c ∈ trim t) : c ∈ t :=
  (trimStart_suffix_self t).subset ((trimEnd_prefix_self (trimStart t)).subset h)

theorem trimStart_eq_self_iff {t : Text} :
    trimStart t = t ↔ ∀ c ∈ t.head?, isBlankChar c = false := by
  cases t with
  | nil => simp [trimStart]
  | cons c t =>
    cases hc : isBlankChar c with
    | true =>
      have hlen := (List.dropWhile_suffix (l := t) isBlankChar).length_le
      simp only [trimStart, List.dropWhile_cons, hc, if_true, List.head?_cons, Option.mem_def,
        Option.some.injEq, forall_eq', Bool.true_eq_false, iff_false]
      intro h
      rw [h, List.length_cons] at hlen
      omega
    | false => simp [trimStart, hc]

theorem trimEnd_eq_self_iff {t : Text} :
    trimEnd t = t ↔ ∀ c ∈ t.getLast?, isBlankChar c = false := by
  have hreverse : trimEnd t = t ↔ trimStart t.reverse = t.reverse := by
    unfold trimEnd trimStart
    rw [← List.reverse_inj, List.reverse_reverse]
  rw [hreverse, trimStart_eq_self_iff, List.head?_reverse]

theorem head?_trimStart (t : Text) : ∀ c ∈ (trimStart t).head?, isBlankChar c = false := by
  induction t with
  | nil => simp [trimStart]
  | cons c t ih =>
    cases hc : isBlankChar c with
    | true => simpa [trimStart, hc] using ih
    | false => simp [trimStart, hc]

theorem getLast?_trimEnd (t : Text) : ∀ c ∈ (trimEnd t).getLast?, isBlankChar c = false := by
  have h := head?_trimStart t.reverse
  rwa [← List.getLast?_reverse] at h

/-- A text is trimmed when it has no blank at its ends. -/
theorem isTrimmed_iff {t : Text} : IsTrimmed t ↔
    (∀ c ∈ t.head?, isBlankChar c = false) ∧ ∀ c ∈ t.getLast?, isBlankChar c = false := by
  rw [← trimStart_eq_self_iff, ← trimEnd_eq_self_iff]
  constructor
  · intro h
    have hlen : t.length ≤ (trimStart t).length := by
      have hshort := (trimEnd_prefix_self (trimStart t)).length_le
      rwa [← trim, h] at hshort
    have hstart : trimStart t = t := (trimStart_suffix_self t).eq_of_length_le hlen
    exact ⟨hstart, by rwa [IsTrimmed, trim, hstart] at h⟩
  · rintro ⟨hstart, hend⟩
    rw [IsTrimmed, trim, hstart, hend]

theorem isTrimmed_trim (t : Text) : IsTrimmed (trim t) := by
  rw [isTrimmed_iff]
  refine ⟨fun c hc => ?_, getLast?_trimEnd (trimStart t)⟩
  -- The first character of the trimmed text is the first that trimming at the start leaves.
  obtain ⟨rest, hrest⟩ := trimEnd_prefix_self (trimStart t)
  refine head?_trimStart t c ?_
  rw [← hrest]
  exact List.mem_head?_append_of_mem_head? hc

theorem isTrimmed_of_forall {t : Text} (h : ∀ c ∈ t, isBlankChar c = false) : IsTrimmed t :=
  isTrimmed_iff.mpr
    ⟨fun c hc => h c (List.mem_of_mem_head? hc), fun c hc => h c (List.mem_of_mem_getLast? hc)⟩

theorem isBlank_trim (t : Text) : isBlank (trim t) = isBlank t := by
  have htrim : trim (trim t) = trim t := isTrimmed_trim t
  rw [Bool.eq_iff_iff, ← trim_eq_nil_iff, ← trim_eq_nil_iff, htrim]

@[simp] theorem trimStart_trimStart (t : Text) : trimStart (trimStart t) = trimStart t :=
  trimStart_eq_self_iff.mpr (head?_trimStart t)

@[simp] theorem trim_trimStart (t : Text) : trim (trimStart t) = trim t := by
  rw [trim, trimStart_trimStart, trim]

/-- Trimming at the start goes no further than a character that is not blank. -/
theorem trimStart_append_cons {c : Char} (hc : isBlankChar c = false) (t u : Text) :
    trimStart (t ++ c :: u) = trimStart t ++ c :: u := by
  induction t with
  | nil => simp [trimStart, hc]
  | cons d t ih =>
    cases hd : isBlankChar d with
    | true => simpa [trimStart, hd] using ih
    | false => simp [trimStart, hd]

/-- Trimming at the end goes no further than a character that is not blank. -/
theorem trimEnd_append_cons {c : Char} (hc : isBlankChar c = false) (t u : Text) :
    trimEnd (t ++ c :: u) = t ++ c :: trimEnd u := by
  have hreverse : (t ++ c :: u).reverse = u.reverse ++ c :: t.reverse := by simp
  rw [trimEnd, hreverse, ← trimStart, trimStart_append_cons hc, List.reverse_append,
    List.reverse_cons, List.reverse_reverse, List.append_assoc, List.singleton_append]
  rfl

theorem trim_append_cons {c : Char} (hc : isBlankChar c = false) (t u : Text) :
    trim (t ++ c :: u) = trimStart t ++ c :: trimEnd u := by
  rw [trim, trimStart_append_cons hc, trimEnd_append_cons hc]

theorem exists_eq_trimEnd_append (t : Text) : ∃ v, isBlank v = true ∧ t = trimEnd t ++ v := by
  refine ⟨(t.reverse.takeWhile isBlankChar).reverse, ?_, ?_⟩
  · rw [isBlank_reverse]
    exact List.all_takeWhile
  · rw [trimEnd, ← List.reverse_append, List.takeWhile_append_dropWhile, List.reverse_reverse]

/-- Trimming takes blanks away at both ends and nothing else. -/
theorem exists_eq_append_trim (t : Text) :
    ∃ u v, isBlank u = true ∧ isBlank v = true ∧ t = u ++ trim t ++ v := by
  obtain ⟨v, hv, hend⟩ := exists_eq_trimEnd_append (trimStart t)
  refine ⟨t.takeWhile isBlankChar, v, List.all_takeWhile, hv, ?_⟩
  rw [List.append_assoc, trim, ← hend, trimStart, List.takeWhile_append_dropWhile]

theorem not_mem_of_isBlank {c : Char} (hc : isBlankChar c = false) {t : Text}
    (h : isBlank t = true) : c ∉ t := by
  intro hmem
  have hblank := List.all_eq_true.mp h c hmem
  rw [hc] at hblank
  exact Bool.false_ne_true hblank

theorem find?_of_isBlank {t : Text} (h : isBlank t = true) :
    t.find? (fun c => !isBlankChar c) = none := by
  rw [List.find?_eq_none]
  intro c hc
  simpa using List.all_eq_true.mp h c hc

theorem find?_of_head? {t : Text} (h : ∀ c ∈ t.head?, isBlankChar c = false) :
    t.find? (fun c => !isBlankChar c) = t.head? := by
  cases t with
  | nil => rfl
  | cons c t => simp [h c rfl]

/-- A trimmed text starts with the first character that is not blank. -/
theorem head?_trim (t : Text) : (trim t).head? = t.find? fun c => !isBlankChar c := by
  obtain ⟨u, v, hu, hv, ht⟩ := exists_eq_append_trim t
  have hhead := (isTrimmed_iff.mp (isTrimmed_trim t)).1
  conv_rhs => rw [ht]
  rw [List.find?_append, List.find?_append, find?_of_isBlank hu, find?_of_isBlank hv,
    find?_of_head? hhead, Option.none_or, Option.or_none]

theorem getLast?_trim (t : Text) :
    (trim t).getLast? = t.reverse.find? fun c => !isBlankChar c := by
  obtain ⟨u, v, hu, hv, ht⟩ := exists_eq_append_trim t
  rw [← isBlank_reverse] at hu hv
  have hlast := (isTrimmed_iff.mp (isTrimmed_trim t)).2
  rw [← List.head?_reverse] at hlast
  conv_rhs => rw [ht]
  rw [List.reverse_append, List.reverse_append, List.find?_append, List.find?_append,
    find?_of_isBlank hu, find?_of_isBlank hv, find?_of_head? hlast, Option.none_or, Option.or_none,
    List.head?_reverse]

theorem head?_trim_append_cons {c : Char} (hc : isBlankChar c = false) (t u : Text) :
    (trim (t ++ c :: u)).head? = (trim t).head?.or (some c) := by
  rw [head?_trim, head?_trim, List.find?_append, List.find?_cons_of_pos (by simpa using hc)]

theorem getLast?_trim_append_cons {c : Char} (hc : isBlankChar c = false) (t u : Text) :
    (trim (t ++ c :: u)).getLast? = (trim u).getLast?.or (some c) := by
  rw [getLast?_trim, getLast?_trim, List.reverse_append, List.reverse_cons, List.append_assoc,
    List.find?_append, List.singleton_append, List.find?_cons_of_pos (by simpa using hc)]

theorem trimStart_append_of_isBlank {u : Text} (hu : isBlank u = true) (t : Text) :
    trimStart (u ++ t) = trimStart t :=
  List.dropWhile_append_of_pos (List.all_eq_true.mp hu)

theorem trimEnd_append_of_isBlank {v : Text} (hv : isBlank v = true) (t : Text) :
    trimEnd (t ++ v) = trimEnd t := by
  rw [← isBlank_reverse] at hv
  rw [trimEnd, List.reverse_append, List.dropWhile_append_of_pos (List.all_eq_true.mp hv),
    ← trimEnd]

/-- Blanks around a text are trimmed away with its own. -/
theorem trim_append_append {u v : Text} (hu : isBlank u = true) (hv : isBlank v = true)
    (t : Text) : trim (u ++ t ++ v) = trim t := by
  rw [trim, List.append_assoc, trimStart_append_of_isBlank hu]
  cases ht : isBlank t with
  | true =>
    have hblank : isBlank (t ++ v) = true := by
      rw [isBlank, List.all_append]
      exact Bool.and_eq_true_iff.mpr ⟨ht, hv⟩
    rw [← trim, trim_eq_nil_iff.mpr hblank, trim_eq_nil_iff.mpr ht]
  | false =>
    have hne : (t.dropWhile isBlankChar).isEmpty = false := by
      rw [List.isEmpty_eq_false_iff]
      exact fun h => Bool.false_ne_true (ht.symm.trans (trimStart_eq_nil_iff.mp h))
    have happend : trimStart (t ++ v) = trimStart t ++ v := by
      rw [trimStart, List.dropWhile_append, hne]
      rfl
    rw [happend, trimEnd_append_of_isBlank hv, ← trim]

@[simp] theorem trim_trimEnd (t : Text) : trim (trimEnd t) = trim t := by
  obtain ⟨v, hv, ht⟩ := exists_eq_trimEnd_append t
  have hblanks := trim_append_append isBlank_nil hv (trimEnd t)
  rwa [List.nil_append, ← ht, eq_comm] at hblanks

/-! ## Trimmed parts -/

theorem mem_trimmedParts_iff {parts : List Text} {t : Text} :
    t ∈ trimmedParts parts ↔ t ≠ [] ∧ ∃ part ∈ parts, trim part = t := by
  simp [trimmedParts, and_comm]

theorem trimmedParts_append (ps qs : List Text) :
    trimmedParts (ps ++ qs) = trimmedParts ps ++ trimmedParts qs := by
  simp [trimmedParts]

theorem trimmedParts_eq_self {ts : List Text} (hne : ∀ t ∈ ts, t ≠ [])
    (htrimmed : ∀ t ∈ ts, IsTrimmed t) : trimmedParts ts = ts := by
  have htrim : ts.map trim = ts := (List.map_congr_left htrimmed).trans (List.map_id ts)
  rw [trimmedParts, htrim]
  exact List.filter_eq_self.mpr fun t ht => by simpa using hne t ht

/-! ## Cuts -/

/-- Induction on a text by cutting it in two, at a separator after a text that allows it. -/
@[elab_as_elim]
theorem cut_induction (sep : Char) (IsCut : Text → Prop) {P : Text → Prop}
    (whole : ∀ t, (∀ u v, t = u ++ sep :: v → ¬IsCut u) → P t)
    (cut : ∀ u v, IsCut u → P u → P v → P (u ++ sep :: v)) (t : Text) : P t := by
  by_cases h : ∃ u v, t = u ++ sep :: v ∧ IsCut u
  · obtain ⟨u, v, ht, hcut⟩ := h
    have hlength : t.length = u.length + (v.length + 1) := by simp [ht]
    rw [ht]
    exact cut u v hcut (cut_induction sep IsCut whole cut u) (cut_induction sep IsCut whole cut v)
  · simp only [not_exists, not_and] at h
    exact whole t h
termination_by t.length
decreasing_by all_goals omega

/-- A function that cuts a text in two at some separators, and works on both parts, does so for
all texts of a join. -/
theorem apply_join {β : Type} {f : Text → List β} {sep : Char} (IsCut : Text → Prop)
    (hnil : f [] = []) (hcut : ∀ u v, IsCut u → f (u ++ sep :: v) = f u ++ f v) {ts : List Text}
    (h : ∀ t ∈ ts.dropLast, IsCut t) : f (join [sep] ts) = ts.flatMap f := by
  induction ts with
  | nil => exact hnil
  | cons t ts ih =>
    cases ts with
    | nil => simp [join]
    | cons u us =>
      have hrest := ih fun v hv => h v (List.mem_cons_of_mem t hv)
      rw [join, List.append_assoc, List.singleton_append, hcut t _ (h t List.mem_cons_self), hrest,
        ← List.flatMap_cons]

/-! ## Tokens -/

/-- None of the characters occurs in the text. -/
def Lacks (chars : List Char) (t : Text) : Prop := ∀ c ∈ chars, c ∉ t

-- The instance is named: there are finitely many characters, and one that goes through all of them
-- would be found instead.
instance (chars : List Char) (t : Text) : Decidable (Lacks chars t) :=
  List.decidableBAll (fun c => c ∉ t) chars

/-- A trimmed text that is not empty and contains none of the separators. -/
structure IsToken (separators : List Char) (t : Text) : Prop where
  ne_nil : t ≠ []
  trimmed : IsTrimmed t
  not_mem : ∀ c ∈ separators, c ∉ t

theorem isToken_trim {separators : List Char} {t : Text} (hne : trim t ≠ [])
    (h : ∀ c ∈ separators, c ∉ t) : IsToken separators (trim t) :=
  ⟨hne, isTrimmed_trim t, fun c hc hmem => h c hc (mem_of_mem_trim hmem)⟩

theorem isToken_trim_of_not_mem {sep : Char} {t : Text} (hne : trim t ≠ []) (h : sep ∉ t) :
    IsToken [sep] (trim t) := isToken_trim hne (List.forall_mem_singleton.mpr h)

theorem isToken_of_mem_pieces {sep : Char} {t part : Text} (h : part ∈ pieces sep t) :
    IsToken [sep] part := by
  obtain ⟨hne, raw, hraw, rfl⟩ := mem_trimmedParts_iff.mp h
  exact isToken_trim_of_not_mem hne (not_mem_of_mem_split hraw)

instance (separators : List Char) (t : Text) : Decidable (IsToken separators t) :=
  decidable_of_iff (t ≠ [] ∧ IsTrimmed t ∧ Lacks separators t)
    ⟨fun h => ⟨h.1, h.2.1, h.2.2⟩, fun h => ⟨h.ne_nil, h.trimmed, h.not_mem⟩⟩

theorem pieces_append_cons (sep : Char) (u v : Text) :
    pieces sep (u ++ sep :: v) = pieces sep u ++ pieces sep v := by
  rw [pieces, split_append_cons, trimmedParts_append, pieces, pieces]

theorem pieces_of_not_mem {sep : Char} {t : Text} (h : sep ∉ t) :
    pieces sep t = trimmedParts [t] := by
  rw [pieces, split_of_not_mem h]

/-- Blanks around a separated list do not count. -/
theorem pieces_append_append {sep : Char} (hsep : isBlankChar sep = false) {u v : Text}
    (hu : isBlank u = true) (hv : isBlank v = true) (t : Text) :
    pieces sep (u ++ t ++ v) = pieces sep t := by
  induction t using cut_induction sep fun _ => True generalizing u v with
  | whole t h =>
    have ht : sep ∉ t := fun hmem =>
      have ⟨a, b, hab⟩ := List.append_of_mem hmem
      h a b hab trivial
    have hutv : sep ∉ u ++ t ++ v := by
      simp [ht, not_mem_of_isBlank hsep hu, not_mem_of_isBlank hsep hv]
    rw [pieces_of_not_mem hutv, pieces_of_not_mem ht, trimmedParts, trimmedParts,
      List.map_singleton, List.map_singleton, trim_append_append hu hv]
  | cut a b _ iha ihb =>
    have ha : pieces sep (u ++ a) = pieces sep a := by simpa using iha hu isBlank_nil
    have hb : pieces sep (b ++ v) = pieces sep b := by simpa using ihb isBlank_nil hv
    have happend : u ++ (a ++ sep :: b) ++ v = (u ++ a) ++ sep :: (b ++ v) := by simp
    rw [happend, pieces_append_cons, pieces_append_cons, ha, hb]

theorem pieces_trim {sep : Char} (hsep : isBlankChar sep = false) (t : Text) :
    pieces sep (trim t) = pieces sep t := by
  obtain ⟨u, v, hu, hv, ht⟩ := exists_eq_append_trim t
  conv_rhs => rw [ht]
  rw [pieces_append_append hsep hu hv]

/-- The texts of a join are read one after the other. -/
theorem pieces_join_eq_flatMap (sep : Char) (ts : List Text) :
    pieces sep (join [sep] ts) = ts.flatMap (pieces sep) :=
  apply_join (fun _ => True) rfl (fun u v _ => pieces_append_cons sep u v) fun _ _ => trivial

/-- A separated list of tokens is read as these tokens. -/
theorem pieces_join {sep : Char} {ts : List Text} (h : ∀ t ∈ ts, IsToken [sep] t) :
    pieces sep (join [sep] ts) = ts := by
  have hpieces : ∀ t ∈ ts, pieces sep t = [t] := by
    intro t ht
    have hsingle : ∀ u ∈ [t], IsToken [sep] u := by simpa using h t ht
    rw [pieces_of_not_mem ((h t ht).not_mem sep List.mem_cons_self)]
    exact trimmedParts_eq_self (fun u hu => (hsingle u hu).ne_nil) fun u hu =>
      (hsingle u hu).trimmed
  rw [pieces_join_eq_flatMap, List.flatMap_congr hpieces, List.flatMap_singleton']

theorem count_join {c : Char} {sep : Text} (hsep : c ∉ sep) (ts : List Text) :
    (join sep ts).count c = ts.flatten.count c := by
  induction ts with
  | nil => rfl
  | cons t ts ih =>
    cases ts with
    | nil => simp [join]
    | cons u ts =>
      rw [join, List.count_append, List.count_append, List.count_eq_zero_of_not_mem hsep, ih,
        Nat.add_zero, ← List.count_append]
      rfl

theorem not_mem_join {c : Char} {sep : Text} {ts : List Text} (hsep : c ∉ sep)
    (h : ∀ t ∈ ts, c ∉ t) : c ∉ join sep ts := by
  rw [← List.count_eq_zero, count_join hsep, List.count_eq_zero]
  simpa using h

/-! ## Cutting -/

theorem cut?_eq_some_iff {sep : Char} {t a b : Text} :
    cut? sep t = some (a, b) ↔ sep ∉ a ∧ t = a ++ sep :: b := by
  induction t generalizing a with
  | nil => simp [cut?]
  | cons c t ih =>
    by_cases hc : c = sep
    · subst hc
      cases a with
      | nil => simp [cut?, eq_comm]
      | cons d a =>
        simp only [cut?, if_true, Option.some.injEq, Prod.mk.injEq, List.nil_eq, reduceCtorEq,
          false_and, List.mem_cons, not_or, List.cons_append, List.cons.injEq, false_iff]
        exact fun h => h.1.1 h.2.1
    · cases a with
      | nil => simp [cut?, hc]
      | cons d a =>
        simp only [cut?, hc, if_false, Option.map_eq_some_iff, Prod.mk.injEq, Prod.exists,
          List.cons.injEq, List.mem_cons, not_or, List.cons_append]
        constructor
        · rintro ⟨a', b', hcut, ⟨rfl, rfl⟩, rfl⟩
          obtain ⟨ha, rfl⟩ := ih.mp hcut
          exact ⟨⟨Ne.symm hc, ha⟩, rfl, rfl⟩
        · rintro ⟨⟨_, ha⟩, rfl, rfl⟩
          exact ⟨a, b, ih.mpr ⟨ha, rfl⟩, ⟨rfl, rfl⟩, rfl⟩

theorem cut?_eq_none_iff {sep : Char} {t : Text} : cut? sep t = none ↔ sep ∉ t := by
  induction t with
  | nil => simp [cut?]
  | cons c t ih =>
    by_cases hc : c = sep
    · simp [cut?, hc]
    · simp [cut?, hc, ih, Ne.symm hc]

/-- The text after the first separator, nothing without one. -/
def after (sep : Char) (t : Text) : Text := (t.dropWhile (· ≠ sep)).tail

theorem after_of_cut? {sep : Char} {t a b : Text} (h : cut? sep t = some (a, b)) :
    after sep t = b := by
  obtain ⟨ha, rfl⟩ := cut?_eq_some_iff.mp h
  have hbefore : ∀ c ∈ a, decide (c ≠ sep) = true := by
    intro c hc
    rw [decide_eq_true_eq]
    rintro rfl
    exact ha hc
  rw [after, List.dropWhile_append_of_pos hbefore]
  simp

theorem cut?_of_mem {sep : Char} {t : Text} (h : sep ∈ t) :
    cut? sep t = some (before sep t, after sep t) := by
  cases hcut : cut? sep t with
  | none => exact absurd h (cut?_eq_none_iff.mp hcut)
  | some cut =>
    obtain ⟨a, b⟩ := cut
    rw [before_of_cut? hcut, after_of_cut? hcut]

theorem before_of_not_mem {sep : Char} {t : Text} (h : sep ∉ t) : before sep t = t :=
  before_of_cut?_eq_none (cut?_eq_none_iff.mpr h)

end Text
end Listing
