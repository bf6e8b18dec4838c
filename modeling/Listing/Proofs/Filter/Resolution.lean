import Listing.Filter.Draft
import Mathlib.Data.List.Forall2

/-!
# Resolving drafts

What it means that resolving gives a filter: the scalars of the draft have been read, and their
value makes a filter together with the field and the operator of the draft. Resolving a list of
drafts gives the filters of some of these drafts.
-/

namespace Listing

section Traversal

variable {ε α β : Type}

theorem Except.map_eq_ok_iff {f : α → β} {x : Except ε α} {b : β} :
    x.map f = .ok b ↔ ∃ a, x = .ok a ∧ f a = b := by
  cases x <;> simp [Except.map]

theorem mapM_ok_cons_iff {f : α → Except ε β} {a : α} {as : List α} {bs : List β} :
    (a :: as).mapM f = .ok bs ↔ ∃ b rest, f a = .ok b ∧ as.mapM f = .ok rest ∧ bs = b :: rest := by
  rw [List.mapM_cons]
  cases h : f a with
  | error e => simp [bind, Except.bind]
  | ok b =>
    cases hrest : as.mapM f with
    | error e => simp [bind, Except.bind]
    | ok rest => simp [bind, Except.bind, pure, Except.pure, eq_comm]

/-- A traversal that succeeds does so element by element. -/
theorem mapM_eq_ok_iff_forall₂ {f : α → Except ε β} {as : List α} {bs : List β} :
    as.mapM f = .ok bs ↔ List.Forall₂ (fun a b => f a = .ok b) as bs := by
  induction as generalizing bs with
  | nil => simp [pure, Except.pure, eq_comm]
  | cons a as ih => simp only [mapM_ok_cons_iff, List.forall₂_cons_left_iff, ih]

theorem length_mapM_ok {f : α → Except ε β} {as : List α} {bs : List β}
    (h : as.mapM f = .ok bs) : bs.length = as.length :=
  (mapM_eq_ok_iff_forall₂.mp h).length_eq.symm

theorem mapM_congr {f g : α → Except ε β} {as : List α} (h : ∀ a ∈ as, f a = g a) :
    as.mapM f = as.mapM g := by
  induction as with
  | nil => rfl
  | cons a as ih =>
    obtain ⟨ha, has⟩ := List.forall_mem_cons.mp h
    rw [List.mapM_cons, List.mapM_cons, ha, ih has]

/-- Each result of a traversal that succeeds comes from one element. -/
theorem exists_of_mem_mapM_ok {f : α → Except ε β} {as : List α} {bs : List β}
    (h : as.mapM f = .ok bs) : ∀ b ∈ bs, ∃ a ∈ as, f a = .ok b := by
  induction as generalizing bs with
  | nil =>
    obtain rfl : [] = bs := by simpa [pure, Except.pure] using h
    simp
  | cons a as ih =>
    obtain ⟨b, rest, ha, hrest, rfl⟩ := mapM_ok_cons_iff.mp h
    intro d hd
    rcases List.mem_cons.mp hd with rfl | hd
    · exact ⟨a, List.mem_cons_self, ha⟩
    · obtain ⟨c, hc, hcd⟩ := ih hrest d hd
      exact ⟨c, List.mem_cons_of_mem a hc, hcd⟩

/-- A traversal that succeeds at every element succeeds. -/
theorem mapM_map_eq_ok {γ : Type} {f : α → Except ε β} {g : γ → α} {h : γ → β} {cs : List γ}
    (hf : ∀ c ∈ cs, f (g c) = .ok (h c)) : (cs.map g).mapM f = .ok (cs.map h) := by
  rw [mapM_eq_ok_iff_forall₂, List.forall₂_map_left_iff, List.forall₂_map_right_iff,
    List.forall₂_same]
  exact hf

end Traversal

namespace Dynamic

/-- Whether a token stands for a year; the others stand for points in time. -/
def isYear : Dynamic → Bool
  | daysAgo _ => false
  | daysFromNow _ => false
  | currentYear => true
  | nextYear => true
  | currentTime => false

section Kinds

variable {token : Dynamic} {now : Instant} {v : Value} (h : token.resolve now = .ok v)

include h

theorem instant_of_resolve (hyear : token.isYear = false) : ∃ i, v = .instant i := by
  -- A shift by days, in either direction, is the only case that may fail.
  cases token with
  | daysAgo days =>
    simp only [resolve] at h
    split at h
    · rename_i i _
      exact ⟨i, (Except.ok.inj h).symm⟩
    · cases h
  | daysFromNow days =>
    simp only [resolve] at h
    split at h
    · rename_i i _
      exact ⟨i, (Except.ok.inj h).symm⟩
    · cases h
  | currentYear => cases hyear
  | nextYear => cases hyear
  | currentTime => exact ⟨now, (Except.ok.inj h).symm⟩

theorem integer_of_resolve (hyear : token.isYear = true) : ∃ n, v = .integer n := by
  cases token with
  | daysAgo days => cases hyear
  | daysFromNow days => cases hyear
  | currentYear => exact ⟨now.year, (Except.ok.inj h).symm⟩
  | nextYear => exact ⟨now.year + 1, (Except.ok.inj h).symm⟩
  | currentTime => cases hyear

/-- A token stands for a point in time or for a year. -/
theorem instant_or_integer_of_resolve : (∃ i, v = .instant i) ∨ ∃ n, v = .integer n := by
  cases hyear : token.isYear with
  | true => exact .inr (integer_of_resolve h hyear)
  | false => exact .inl (instant_of_resolve h hyear)

end Kinds

end Dynamic

namespace Value

theorem ofLiteral_cases (t : Text) :
    (ofLiteral t).isList = false ∧ ∀ u, ofLiteral t = text u → u = t := by
  unfold ofLiteral
  split
  · exact ⟨rfl, fun u hu => by simp at hu⟩
  · split_ifs
    · exact ⟨rfl, fun u hu => by simp at hu⟩
    · exact ⟨rfl, fun u hu => by simp at hu⟩
    · exact ⟨rfl, fun u hu => by simp at hu⟩
    · exact ⟨rfl, fun u hu => (text.inj hu).symm⟩

/-- A scalar is never read as a list, and as no text but itself. -/
theorem read_cases {now : Instant} {t : Text} {v : Value} (h : read now t = .ok v) :
    v.isList = false ∧ ∀ u, v = text u → u = t := by
  unfold read at h
  split at h
  · rcases Dynamic.instant_or_integer_of_resolve h with ⟨i, rfl⟩ | ⟨n, rfl⟩
    · exact ⟨rfl, fun u hu => by simp at hu⟩
    · exact ⟨rfl, fun u hu => by simp at hu⟩
  · cases h
    exact ofLiteral_cases t

end Value

namespace Operand

theorem read_list_eq_ok_iff {now : Instant} {ts : List Text} {v : Value} :
    (list ts).read now = .ok v ↔ ∃ vs, ts.mapM (Value.read now) = .ok vs ∧ Value.list vs = v :=
  Except.map_eq_ok_iff

end Operand

namespace Filter

theorem of_eq_ok_iff {field : Text} {op : Operator} {v : Value} {f : Filter} :
    of field op v = .ok f ↔ f.field = field ∧ Test.of op v = .ok f.test := by
  unfold of
  split
  · rename_i hfield
    rw [Except.map_eq_ok_iff]
    constructor
    · rintro ⟨test, htest, rfl⟩
      exact ⟨rfl, htest⟩
    · rintro ⟨rfl, htest⟩
      exact ⟨f.test, htest, rfl⟩
  · rename_i hfield
    simp only [reduceCtorEq, false_iff, not_and]
    rintro rfl
    exact absurd f.field_not_blank hfield

end Filter

namespace Draft

theorem resolve_eq_ok_some_iff {now : Instant} {d : Draft} {f : Filter} :
    d.resolve now = .ok (some f) ↔ ∃ v, d.operand.read now = .ok v ∧ f.field = d.field ∧
      Test.of d.operator v = .ok f.test := by
  rw [resolve, Except.map_eq_ok_iff]
  refine exists_congr fun v => and_congr_right fun _ => ?_
  rw [← Filter.of_eq_ok_iff]
  cases Filter.of d.field d.operator v <;> simp [Except.toOption]

theorem filterMap_id_cons (f? : Option Filter) (rest : List (Option Filter)) :
    (f? :: rest).filterMap id = f?.toList ++ rest.filterMap id := by
  cases f? <;> rfl

/-- Resolving one more draft puts at most one filter in front. -/
theorem resolveAll_cons_eq_ok_iff {now : Instant} {d : Draft} {drafts : List Draft}
    {fs : List Filter} : resolveAll now (d :: drafts) = .ok fs ↔ ∃ f? rest,
      d.resolve now = .ok f? ∧ resolveAll now drafts = .ok rest ∧ fs = f?.toList ++ rest := by
  constructor
  · intro h
    obtain ⟨resolved, hresolved, rfl⟩ := Except.map_eq_ok_iff.mp h
    obtain ⟨f?, rest, hd, hrest, rfl⟩ := mapM_ok_cons_iff.mp hresolved
    exact ⟨f?, rest.filterMap id, hd, Except.map_eq_ok_iff.mpr ⟨rest, hrest, rfl⟩,
      filterMap_id_cons f? rest⟩
  · rintro ⟨f?, rest, hd, hrest, rfl⟩
    obtain ⟨resolved, hresolved, rfl⟩ := Except.map_eq_ok_iff.mp hrest
    exact Except.map_eq_ok_iff.mpr ⟨f? :: resolved,
      mapM_ok_cons_iff.mpr ⟨f?, resolved, hd, hresolved, rfl⟩, filterMap_id_cons f? resolved⟩

/-- Every resolved filter comes from one of the drafts. -/
theorem exists_of_mem_resolveAll {now : Instant} {drafts : List Draft} {fs : List Filter}
    (h : resolveAll now drafts = .ok fs) :
    ∀ f ∈ fs, ∃ d ∈ drafts, d.resolve now = .ok (some f) := by
  obtain ⟨resolved, hresolved, rfl⟩ := Except.map_eq_ok_iff.mp h
  intro f hf
  obtain ⟨f?, hmem, rfl⟩ := List.mem_filterMap.mp hf
  exact exists_of_mem_mapM_ok hresolved (some f) hmem

end Draft

end Listing
