import Listing.Filter.Batch
import Listing.Proofs.Text.Token

/-!
# Commas at the top level

How the tokens of a batch come out of the text that they were joined in. A text is closed when its
commas all stand inside brackets and its brackets leave the depth at zero. Closed texts stay closed
when they are put together, and joining closed texts by commas and splitting at the top level gives
them back.
-/

namespace Listing
namespace Batch

open Text

@[simp] theorem scan_nil (depth : Nat) : scan depth [] = depth := rfl

@[simp] theorem scan_cons (depth : Nat) (c : Char) (t : Text) :
    scan depth (c :: t) = scan (depthAfter depth c) t := rfl

@[simp] theorem scan_append (depth : Nat) (t u : Text) :
    scan depth (t ++ u) = scan (scan depth t) u := List.foldl_append

theorem depthAfter_of_ne {c : Char} (hopen : c ≠ '[') (hclose : c ≠ ']') (depth : Nat) :
    depthAfter depth c = depth := by
  simp [depthAfter, hopen, hclose]

/-- Every comma of a text that is read from this depth stands inside brackets. -/
def CommasInside (depth : Nat) (t : Text) : Prop := ∀ u v, t = u ++ ',' :: v → scan depth u ≠ 0

theorem commasInside_nil (depth : Nat) : CommasInside depth [] := by
  intro u v h
  simp at h

theorem commasInside_cons_iff {depth : Nat} {c : Char} {t : Text} :
    CommasInside depth (c :: t) ↔
      ¬(c = ',' ∧ depth = 0) ∧ CommasInside (depthAfter depth c) t := by
  constructor
  · intro h
    refine ⟨?_, fun u v ht => h (c :: u) v (congrArg (c :: ·) ht)⟩
    rintro ⟨rfl, hdepth⟩
    exact h [] t rfl hdepth
  · rintro ⟨hc, ht⟩ u v h
    cases u with
    | nil =>
      obtain ⟨rfl, _⟩ := List.cons.inj h
      exact fun hdepth => hc ⟨rfl, hdepth⟩
    | cons d u =>
      obtain ⟨rfl, htail⟩ := List.cons.inj h
      exact ht u v htail

instance decidableCommasInside : (depth : Nat) → (t : Text) → Decidable (CommasInside depth t)
  | depth, [] => isTrue (commasInside_nil depth)
  | depth, c :: t =>
    have := decidableCommasInside (depthAfter depth c) t
    decidable_of_iff _ commasInside_cons_iff.symm

theorem commasInside_append {depth : Nat} {t u : Text} (ht : CommasInside depth t)
    (hu : CommasInside (scan depth t) u) : CommasInside depth (t ++ u) := by
  induction t generalizing depth with
  | nil => exact hu
  | cons c t ih =>
    obtain ⟨hc, ht⟩ := commasInside_cons_iff.mp ht
    exact commasInside_cons_iff.mpr ⟨hc, ih ht hu⟩

theorem splitFrom_ne_nil (depth : Nat) (t : Text) : splitFrom depth t ≠ [] := by
  induction t generalizing depth with
  | nil => simp [splitFrom]
  | cons c t ih =>
    obtain ⟨v, vs, hv⟩ := List.exists_cons_of_ne_nil (ih (depthAfter depth c))
    by_cases h : c = ',' ∧ depth = 0 <;> simp [splitFrom, h, hv]

theorem splitFrom_of_commasInside {depth : Nat} {t : Text} (h : CommasInside depth t) :
    splitFrom depth t = [t] := by
  induction t generalizing depth with
  | nil => rfl
  | cons c t ih =>
    obtain ⟨hc, ht⟩ := commasInside_cons_iff.mp h
    rw [splitFrom, if_neg hc, ih ht, List.modifyHead_cons]

/-- A comma at depth zero cuts a text in two that are split apart from each other. -/
theorem splitFrom_append_comma {depth : Nat} {t : Text} (h : scan depth t = 0) (u : Text) :
    splitFrom depth (t ++ ',' :: u) = splitFrom depth t ++ splitFrom 0 u := by
  induction t generalizing depth with
  | nil => simp_all [splitFrom]
  | cons c t ih =>
    have hrest : splitFrom (depthAfter depth c) (t ++ ',' :: u) =
        splitFrom (depthAfter depth c) t ++ splitFrom 0 u := ih h
    obtain ⟨v, vs, hv⟩ := List.exists_cons_of_ne_nil (splitFrom_ne_nil (depthAfter depth c) t)
    by_cases hc : c = ',' ∧ depth = 0
    · obtain ⟨rfl, rfl⟩ := hc
      simpa [splitFrom, depthAfter] using hrest
    · simp only [splitFrom, hc, if_false, List.cons_append, hrest, hv, List.modifyHead_cons]

/-- Texts whose commas stand inside brackets are given back by splitting their join, when every
one but the last ends at depth zero. -/
theorem splitFrom_join {ts : List Text} (hne : ts ≠ []) (hinside : ∀ t ∈ ts, CommasInside 0 t)
    (hscan : ∀ t ∈ ts.dropLast, scan 0 t = 0) : splitFrom 0 (join [','] ts) = ts := by
  induction ts with
  | nil => exact absurd rfl hne
  | cons t ts ih =>
    have ht := splitFrom_of_commasInside (hinside t List.mem_cons_self)
    cases ts with
    | nil => exact ht
    | cons u us =>
      have hrest := ih (List.cons_ne_nil u us) (fun v hv => hinside v (List.mem_cons_of_mem t hv))
        fun v hv => hscan v (List.mem_cons_of_mem t hv)
      rw [join, List.append_assoc, List.singleton_append,
        splitFrom_append_comma (hscan t List.mem_cons_self), ht, hrest]
      rfl

/-- A text in which a batch reader sees no separator and no bracket left open. -/
structure IsClosed (t : Text) : Prop where
  commasInside : CommasInside 0 t
  scan_eq : scan 0 t = 0

instance (t : Text) : Decidable (IsClosed t) :=
  decidable_of_iff (CommasInside 0 t ∧ scan 0 t = 0)
    ⟨fun h => ⟨h.1, h.2⟩, fun h => ⟨h.commasInside, h.scan_eq⟩⟩

theorem IsClosed.append {t u : Text} (ht : IsClosed t) (hu : IsClosed u) : IsClosed (t ++ u) := by
  refine ⟨commasInside_append ht.commasInside ?_, ?_⟩
  · rw [ht.scan_eq]
    exact hu.commasInside
  · rw [scan_append, ht.scan_eq, hu.scan_eq]

theorem scan_of_not_mem {t : Text} (hopen : '[' ∉ t) (hclose : ']' ∉ t) (depth : Nat) :
    scan depth t = depth := by
  induction t generalizing depth with
  | nil => rfl
  | cons c t ih =>
    simp only [List.mem_cons, not_or] at hopen hclose
    rw [scan_cons, depthAfter_of_ne (Ne.symm hopen.1) (Ne.symm hclose.1), ih hopen.2 hclose.2]

theorem commasInside_of_not_mem {t : Text} (h : ',' ∉ t) (depth : Nat) : CommasInside depth t := by
  rintro u v rfl
  simp at h

theorem isClosed_of_not_mem {t : Text} (hcomma : ',' ∉ t) (hopen : '[' ∉ t) (hclose : ']' ∉ t) :
    IsClosed t := ⟨commasInside_of_not_mem hcomma 0, scan_of_not_mem hopen hclose 0⟩

/-- Inside one pair of brackets every comma is hidden. -/
theorem isClosed_bracketed {t : Text} (hopen : '[' ∉ t) (hclose : ']' ∉ t) :
    IsClosed ('[' :: t ++ [']']) := by
  have hinside : CommasInside 1 t := by
    rintro u v rfl
    simp only [List.mem_append, not_or] at hopen hclose
    rw [scan_of_not_mem hopen.1 hclose.1]
    exact Nat.one_ne_zero
  have hlast : CommasInside 1 [']'] := by decide
  have hscan : scan 1 t = 1 := scan_of_not_mem hopen hclose 1
  constructor
  · have hbody := commasInside_append hinside (hscan.symm ▸ hlast)
    exact commasInside_cons_iff.mpr ⟨by decide, hbody⟩
  · rw [List.cons_append, scan_cons, scan_append, depthAfter, if_pos rfl, hscan]
    rfl

theorem splitTopLevel_join_eq_trimmedParts {ts : List Text}
    (hinside : ∀ t ∈ ts, CommasInside 0 t) (hscan : ∀ t ∈ ts.dropLast, scan 0 t = 0) :
    splitTopLevel (join [','] ts) = trimmedParts ts := by
  cases ts with
  | nil => rfl
  | cons t ts => rw [splitTopLevel, splitFrom_join (List.cons_ne_nil t ts) hinside hscan]

/-- Tokens that are closed are given back, trimmed, by splitting their join. -/
theorem splitTopLevel_join {ts : List Text} (hclosed : ∀ t ∈ ts, IsClosed t)
    (hblank : ∀ t ∈ ts, isBlank t = false) : splitTopLevel (join [','] ts) = ts.map trim := by
  rw [splitTopLevel_join_eq_trimmedParts (fun t ht => (hclosed t ht).commasInside)
    fun t ht => (hclosed t ((List.dropLast_sublist _).subset ht)).scan_eq, trimmedParts]
  refine List.filter_eq_self.mpr fun u hu => ?_
  obtain ⟨v, hv, rfl⟩ := List.mem_map.mp hu
  have hne : trim v ≠ [] := fun h =>
    Bool.false_ne_true ((hblank v hv).symm.trans (trim_eq_nil_iff.mp h))
  simpa using hne

end Batch
end Listing
