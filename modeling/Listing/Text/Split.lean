import Listing.Text.Blank

/-!
# Splitting at a separator

`split` cuts at every occurrence of a character and loses nothing but the separators: joining
the parts gives the text back, and joining parts without separators and splitting again gives
the parts back. `cut?` cuts at the first occurrence only. `pieces` is the lenient
reading of a separated list, in which blanks around a part and blank parts do not count.
-/

namespace Listing
namespace Text

/-- The parts between the separators; there is always one more part than separators. -/
def split (sep : Char) : Text → List Text
  | [] => [[]]
  | c :: t => if c = sep then [] :: split sep t else (split sep t).modifyHead (c :: ·)

/-- What stands before and after the first separator. -/
def cut? (sep : Char) : Text → Option (Text × Text)
  | [] => none
  | c :: t => if c = sep then some ([], t) else (cut? sep t).map fun (a, b) => (c :: a, b)

/-- The parts, trimmed, without those that are blank. -/
def trimmedParts (parts : List Text) : List Text :=
  (parts.map trim).filter fun part => !part.isEmpty

def pieces (sep : Char) (t : Text) : List Text := trimmedParts (split sep t)

/-- The text before the first separator, the whole text without one. -/
def before (sep : Char) (t : Text) : Text := t.takeWhile (· ≠ sep)

/-- The texts one after the other with `sep` between neighbours. -/
def join (sep : Text) : List Text → Text
  | [] => []
  | [t] => t
  | t :: u :: ts => t ++ sep ++ join sep (u :: ts)

@[simp] theorem split_nil (sep : Char) : split sep [] = [[]] := rfl

theorem split_ne_nil (sep : Char) (t : Text) : split sep t ≠ [] := by
  induction t with
  | nil => simp
  | cons c t ih =>
    by_cases h : c = sep
    · simp [split, h]
    · cases hs : split sep t <;> simp_all [split]

theorem split_of_not_mem {sep : Char} {t : Text} (h : sep ∉ t) : split sep t = [t] := by
  induction t with
  | nil => rfl
  | cons c t ih =>
    obtain ⟨hc, ht⟩ := not_or.mp (mt List.mem_cons.mpr h)
    rw [split, if_neg (Ne.symm hc), ih ht]
    rfl

/-- A separator cuts a text in two that are split apart from each other. -/
theorem split_append_cons (sep : Char) (t u : Text) :
    split sep (t ++ sep :: u) = split sep t ++ split sep u := by
  induction t with
  | nil => simp [split]
  | cons c t ih =>
    by_cases h : c = sep
    · simp [split, h, ih]
    · obtain ⟨v, vs, hv⟩ := List.exists_cons_of_ne_nil (split_ne_nil sep t)
      simp [split, h, ih, hv]

theorem not_mem_of_mem_split {sep : Char} {t part : Text} (h : part ∈ split sep t) :
    sep ∉ part := by
  induction t generalizing part with
  | nil =>
    obtain rfl := List.mem_singleton.mp h
    exact List.not_mem_nil
  | cons c t ih =>
    by_cases hc : c = sep
    · rw [split, if_pos hc] at h
      rcases List.mem_cons.mp h with rfl | h
      · exact List.not_mem_nil
      · exact ih h
    · obtain ⟨v, vs, hv⟩ := List.exists_cons_of_ne_nil (split_ne_nil sep t)
      rw [split, if_neg hc, hv, List.modifyHead_cons] at h
      rcases List.mem_cons.mp h with rfl | h
      · have := ih (hv ▸ List.mem_cons_self)
        exact not_or.mpr ⟨Ne.symm hc, this⟩ ∘ List.mem_cons.mp
      · exact ih (hv ▸ List.mem_cons_of_mem _ h)

theorem join_cons_of_ne_nil (sep t : Text) {ts : List Text} (h : ts ≠ []) :
    join sep (t :: ts) = t ++ sep ++ join sep ts := by
  cases ts with
  | nil => exact absurd rfl h
  | cons u ts => rfl

theorem join_append (sep : Text) {ts us : List Text} (hts : ts ≠ []) (hus : us ≠ []) :
    join sep (ts ++ us) = join sep ts ++ sep ++ join sep us := by
  induction ts with
  | nil => exact absurd rfl hts
  | cons t ts ih =>
    by_cases h : ts = []
    · subst h
      exact join_cons_of_ne_nil sep t hus
    · have hrest : ts ++ us ≠ [] := by simp [h]
      rw [List.cons_append, join_cons_of_ne_nil sep t hrest, ih h, join_cons_of_ne_nil sep t h]
      simp only [List.append_assoc]

/-- Joining groups of texts first, and then what came of them, is joining all the texts. -/
theorem join_flatten (sep : Text) {groups : List (List Text)} (h : ∀ group ∈ groups, group ≠ []) :
    join sep (groups.map (join sep)) = join sep groups.flatten := by
  induction groups with
  | nil => rfl
  | cons group groups ih =>
    obtain ⟨hgroup, hgroups⟩ := List.forall_mem_cons.mp h
    cases groups with
    | nil => simp [join]
    | cons next groups =>
      have hmap : (next :: groups).map (join sep) ≠ [] := List.cons_ne_nil _ _
      have hflatten : (next :: groups).flatten ≠ [] := by
        simp [hgroups next List.mem_cons_self]
      rw [List.map_cons, join_cons_of_ne_nil sep _ hmap, ih hgroups,
        ← join_append sep hgroup hflatten]
      rfl

theorem join_split (sep : Char) (t : Text) : join [sep] (split sep t) = t := by
  induction t with
  | nil => rfl
  | cons c t ih =>
    by_cases h : c = sep
    · rw [split, if_pos h, join_cons_of_ne_nil _ _ (split_ne_nil sep t), ih, h]
      rfl
    · rw [split, if_neg h]
      cases hs : split sep t with
      | nil => exact absurd hs (split_ne_nil sep t)
      | cons u us =>
        rw [hs] at ih
        cases us with
        | nil => simpa [join] using ih
        | cons v vs => simpa [join] using ih

theorem split_join {sep : Char} {ts : List Text} (hne : ts ≠ []) (h : ∀ t ∈ ts, sep ∉ t) :
    split sep (join [sep] ts) = ts := by
  induction ts with
  | nil => exact absurd rfl hne
  | cons t ts ih =>
    have ht := split_of_not_mem (h t List.mem_cons_self)
    cases ts with
    | nil => exact ht
    | cons u us =>
      have hrest := ih (List.cons_ne_nil u us) fun v hv => h v (List.mem_cons_of_mem t hv)
      rw [join, List.append_assoc, List.singleton_append, split_append_cons, ht, hrest]
      rfl

/-- The parts are the only texts without separators that the text is the join of. -/
theorem split_eq_iff {sep : Char} {t : Text} {parts : List Text} :
    split sep t = parts ↔ parts ≠ [] ∧ join [sep] parts = t ∧ ∀ part ∈ parts, sep ∉ part := by
  constructor
  · rintro rfl
    exact ⟨split_ne_nil sep t, join_split sep t, fun part => not_mem_of_mem_split⟩
  · rintro ⟨hne, rfl, hparts⟩
    exact split_join hne hparts

theorem split_eq_pair_iff {sep : Char} {t u v : Text} :
    split sep t = [u, v] ↔ t = u ++ sep :: v ∧ sep ∉ u ∧ sep ∉ v := by
  have hjoin : join [sep] [u, v] = u ++ sep :: v := List.append_assoc ..
  rw [split_eq_iff, hjoin]
  constructor
  · rintro ⟨-, rfl, hparts⟩
    exact ⟨rfl, hparts u (by simp), hparts v (by simp)⟩
  · rintro ⟨rfl, hu, hv⟩
    exact ⟨List.cons_ne_nil u [v], rfl, by simp [hu, hv]⟩

theorem not_mem_before (sep : Char) (t : Text) : sep ∉ before sep t := by
  intro h
  simpa using List.all_eq_true.mp (List.all_takeWhile (l := t)) sep h

theorem before_of_cut? {sep : Char} {t a b : Text} (h : cut? sep t = some (a, b)) :
    before sep t = a := by
  induction t generalizing a with
  | nil => simp [cut?] at h
  | cons c t ih =>
    by_cases hc : c = sep
    · simp_all [cut?, before]
    · simp only [cut?, hc, if_false, Option.map_eq_some_iff, Prod.mk.injEq, Prod.exists] at h
      obtain ⟨a', b', hab, rfl, rfl⟩ := h
      have := ih hab
      simp_all [before]

theorem before_of_cut?_eq_none {sep : Char} {t : Text} (h : cut? sep t = none) :
    before sep t = t := by
  induction t with
  | nil => rfl
  | cons c t ih =>
    by_cases hc : c = sep
    · simp [cut?, hc] at h
    · simp only [cut?, hc, if_false, Option.map_eq_none_iff] at h
      have := ih h
      simp_all [before]

end Text
end Listing
