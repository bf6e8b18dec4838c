import Listing.Proofs.Filter.Kept
import Listing.Proofs.Sql.ValueIndependence

/-!
# What the clock decides

Read at two times, a request is the same but for the values of clock tokens, and these are of the
same kind at both times. So neither the template nor the text of the statement depends on the
clock, and a request without clock tokens does not depend on it at all.
-/

namespace Listing

section Pairs

variable {α β γ δ : Type} {R : α → β → Prop}

/-- Two lists that are related to one list, element by element, are related to it together. -/
theorem forall₂_zip_of_forall₂ {S : α → γ → Prop} {T : α → β × γ → Prop} {as : List α}
    {bs : List β} {cs : List γ} (hR : List.Forall₂ R as bs) (hS : List.Forall₂ S as cs)
    (hT : ∀ a b c, R a b → S a c → T a (b, c)) : List.Forall₂ T as (bs.zip cs) := by
  induction hR generalizing cs with
  | nil => exact .nil
  | cons hab _ ih =>
    cases hS with
    | cons hac hrest => exact .cons (hT _ _ _ hab hac) (ih hrest)

theorem map_eq_map_of_forall₂ (f : β → δ) {S : α → β → Prop} {as : List α} {bs cs : List β}
    (hR : List.Forall₂ R as bs) (hS : List.Forall₂ S as cs)
    (hf : ∀ a b c, R a b → S a c → f b = f c) : bs.map f = cs.map f := by
  induction hR generalizing cs with
  | nil =>
    cases hS
    rfl
  | cons hab _ ih =>
    cases hS with
    | cons hac hrest => rw [List.map_cons, List.map_cons, hf _ _ _ hab hac, ih hrest]

end Pairs

/-! ## Scalars -/

/-- What a scalar can be read as at two times: the same value, or two instants or two whole
numbers if it is a clock token. -/
inductive Value.Alike (t : Text) : Value → Value → Prop where
  | same {v : Value} (ht : Dynamic.ofToken? t = none) : Alike t v v
  | instants {token : Dynamic} (ht : Dynamic.ofToken? t = some token) (i j : Instant) :
      Alike t (.instant i) (.instant j)
  | integers {token : Dynamic} (ht : Dynamic.ofToken? t = some token) (m n : Int) :
      Alike t (.integer m) (.integer n)

theorem Value.alike_of_read {n₁ n₂ : Instant} {t : Text} {v w : Value} (hv : read n₁ t = .ok v)
    (hw : read n₂ t = .ok w) : Alike t v w := by
  cases htoken : Dynamic.ofToken? t with
  | none =>
    rw [read_of_ofToken?_eq_none htoken, Except.ok.injEq] at hv hw
    rw [← hv, ← hw]
    exact .same htoken
  | some token =>
    simp only [read, htoken] at hv hw
    cases hyear : token.isYear with
    | true =>
      obtain ⟨m, rfl⟩ := Dynamic.integer_of_resolve hv hyear
      obtain ⟨n, rfl⟩ := Dynamic.integer_of_resolve hw hyear
      exact .integers htoken m n
    | false =>
      obtain ⟨i, rfl⟩ := Dynamic.instant_of_resolve hv hyear
      obtain ⟨j, rfl⟩ := Dynamic.instant_of_resolve hw hyear
      exact .instants htoken i j

/-! ## Clauses -/

namespace Test

theorem value_of_takesList {t : Test} (h : t.operator.takesList = true) :
    t.value = .list t.operands := by
  cases t with
  | compare c v => cases h
  | oneOf items => rfl
  | noneOf items => rfl
  | between low high => rfl

theorem operands_of_takesList_eq_false {t : Test} (h : t.operator.takesList = false) :
    t.operands = [t.value] := by
  cases t with
  | compare c v => rfl
  | oneOf items => cases h
  | noneOf items => cases h
  | between low high => cases h

/-- The shape of a test is its operator and the number of its values. -/
theorem shape_eq_of_operator_eq {t u : Test} (hoperator : t.operator = u.operator)
    (hlength : t.operands.length = u.operands.length) : t.shape = u.shape := by
  cases t <;> cases u <;> simp_all [shape, operator, listLength?, operands]

end Test

namespace Clause

/-- The texts whose values a clause puts into its filter; a range has no use for more than two. -/
def used (s : Clause) : List Text :=
  if s.operator = .between then s.scalars.take 2 else s.scalars

theorem Gives.forall₂_read {now : Instant} {s : Clause} {f : Filter} (h : s.Gives now f) :
    List.Forall₂ (fun t v => Value.read now t = .ok v) s.used f.test.operands := by
  have hoperator : f.test.operator = s.operator := h.operator
  cases hlist : s.operator.takesList with
  | false =>
    have hbetween : s.operator ≠ .between := fun hop => by
      rw [hop] at hlist
      cases hlist
    rw [used, if_neg hbetween, scalars, hlist,
      Test.operands_of_takesList_eq_false (hoperator ▸ hlist)]
    exact .cons (h.scalar hlist) .nil
  | true =>
    obtain ⟨vs, hvs, hvalue⟩ := h.list hlist
    have hoperands : f.test.operands = if s.operator = .between then vs.take 2 else vs :=
      Value.list.inj ((Test.value_of_takesList (hoperator ▸ hlist)).symm.trans hvalue)
    -- All texts were read before a range was cut to its bounds, so the pairs are cut with it.
    have hall := mapM_eq_ok_iff_forall₂.mp hvs
    rw [hoperands, used, scalars, if_pos hlist]
    split
    · exact List.forall₂_take 2 hall
    · exact hall

/-- The values of two filters of one clause, each pair with the text that both were read from. -/
def GivesAlike (s : Clause) (fs : Filter × Filter) : Prop :=
  List.Forall₂ (fun t vs => Value.Alike t vs.1 vs.2) s.used
    (fs.1.test.operands.zip fs.2.test.operands)

section TwoTimes

variable {n₁ n₂ : Instant} {s : Clause} {f g : Filter} (hf : s.Gives n₁ f) (hg : s.Gives n₂ g)

include hf hg

theorem givesAlike_of_gives : s.GivesAlike (f, g) :=
  forall₂_zip_of_forall₂ hf.forall₂_read hg.forall₂_read fun _ _ _ => Value.alike_of_read

theorem shape_eq_of_gives : f.shape = g.shape := by
  have hlength : f.test.operands.length = g.test.operands.length :=
    hf.forall₂_read.length_eq.symm.trans hg.forall₂_read.length_eq
  have hshape := Test.shape_eq_of_operator_eq (hf.operator.trans hg.operator.symm) hlength
  rw [Filter.shape, Filter.shape, hf.field, hg.field, hshape]

end TwoTimes

end Clause

/-! ## Requests -/

theorem Operand.read_congr {n₁ n₂ : Instant} {o : Operand}
    (h : ∀ t ∈ o.scalars, Value.read n₁ t = Value.read n₂ t) : o.read n₁ = o.read n₂ := by
  cases o with
  | scalar t => exact h t List.mem_cons_self
  | list ts => exact congrArg (Except.map Value.list) (mapM_congr h)

namespace Request

open Sql

/-- Two times at which all scalars are read alike give the same request. -/
theorem read_congr {c : Config} {p : Params} {n₁ n₂ : Instant}
    (h : ∀ t ∈ scalars c p, Value.read n₁ t = Value.read n₂ t) :
    read c n₁ p = read c n₂ p := by
  have hresolve : ∀ d ∈ drafts c p, d.resolve n₁ = d.resolve n₂ := by
    intro d hd
    rw [drafts_eq] at hd
    obtain ⟨s, hs, rfl⟩ := List.mem_map.mp hd
    have hread : s.draft.operand.read n₁ = s.draft.operand.read n₂ :=
      Operand.read_congr fun t ht =>
        h t (List.mem_flatMap.mpr ⟨s, hs, s.scalars_operand_draft ▸ ht⟩)
    rw [Draft.resolve, Draft.resolve, hread]
  rw [read, read, readFilters, readFilters, Draft.resolveAll, Draft.resolveAll,
    mapM_congr hresolve]

/-- At two times at which a request can be read, it is the same in all but the values of filters;
these are read alike from the same texts, so that the template, the text of the statement and the
number of parameters are the same. Without clock tokens nothing is different. -/
theorem read_alike_at_two_times {c : Config} {p : Params} {n₁ n₂ : Instant} {r₁ r₂ : Request}
    (h₁ : read c n₁ p = .ok r₁) (h₂ : read c n₂ p = .ok r₂) :
    r₂ = { r₁ with filters := r₂.filters } ∧
      r₁.filters.map Filter.shape = r₂.filters.map Filter.shape ∧
      List.Forall₂ Clause.GivesAlike ((clauses c p).filter Clause.IsKept)
        (r₁.filters.zip r₂.filters) ∧
      r₁.condition?.map Condition.template = r₂.condition?.map Condition.template ∧
      (∀ table,
        (∀ d, render d (selectAll table r₁.condition? r₁.sortTerm?) =
          render d (selectAll table r₂.condition? r₂.sortTerm?)) ∧
        (parameters (selectAll table r₁.condition? r₁.sortTerm?)).length =
          (parameters (selectAll table r₂.condition? r₂.sortTerm?)).length) ∧
      ((∀ t ∈ scalars c p, Dynamic.ofToken? t = none) → r₁ = r₂) := by
  -- Shown first, as the two readings are taken apart below.
  have hstatic : (∀ t ∈ scalars c p, Dynamic.ofToken? t = none) → r₁ = r₂ := by
    intro h
    have hread : read c n₁ p = read c n₂ p := read_congr fun t ht => by
      rw [Value.read_of_ofToken?_eq_none (h t ht), Value.read_of_ofToken?_eq_none (h t ht)]
    exact Except.ok.inj (h₁.symm.trans (hread.trans h₂))
  obtain ⟨fs, hread₁, rfl⟩ := Except.map_eq_ok_iff.mp h₁
  obtain ⟨gs, hread₂, rfl⟩ := Except.map_eq_ok_iff.mp h₂
  have hfs := forall₂_gives_of_readFilters hread₁
  have hgs := forall₂_gives_of_readFilters hread₂
  have hshape : fs.map Filter.shape = gs.map Filter.shape :=
    map_eq_map_of_forall₂ Filter.shape hfs hgs fun _ _ _ => Clause.shape_eq_of_gives
  have houtline := fun table => outline_selectFiltered_eq hshape table
  exact ⟨rfl, hshape, forall₂_zip_of_forall₂ hfs hgs fun _ _ _ => Clause.givesAlike_of_gives,
    Filter.template_conjunction?_eq hshape,
    fun table => ⟨render_eq_of_outline_eq (houtline table _),
      length_parameters_eq_of_outline_eq (houtline table _)⟩, hstatic⟩

/-- Clock tokens of both kinds, in every place where a value can stand, and one in a clause that
is dropped. -/
theorem read_alike_four_hundred_days_apart :
    let p : Params :=
      ⟨[("created:gte".toList, .single "7_days_ago".toList),
        ("year".toList, .single "next_year".toList), (" :eq".toList, .single "90_days".toList),
        ("meta.at:in".toList, .many ["[x, 1_day".toList, "current_year]".toList]),
        ("due:btw".toList, .single "[null,current_time,30_days]".toList)]⟩
    let r : List Filter → Request := fun filters =>
      { filters
        sort := none
        includes := []
        select := []
        groupBy := []
        keywords := none
        page := 1
        perPage := 20 }
    let n₁ : Instant := ⟨0, 0, by decide, by decide, by decide⟩
    let n₂ : Instant := ⟨400 * 86400, 5, by decide, by decide, by decide⟩
    let fs : List Filter :=
      [⟨"created".toList, .compare .gte
          (.instant ⟨-7 * 86400, 0, by decide, by decide, by decide⟩), by decide⟩,
        ⟨"year".toList, .compare .eq (.integer 1971), by decide⟩,
        ⟨"meta.at".toList, .oneOf [.text ['x'],
          .instant ⟨86400, 0, by decide, by decide, by decide⟩, .integer 1970], by decide⟩,
        ⟨"due".toList, .between .null (.instant n₁), by decide⟩]
    let gs : List Filter :=
      [⟨"created".toList, .compare .gte
          (.instant ⟨393 * 86400, 5, by decide, by decide, by decide⟩), by decide⟩,
        ⟨"year".toList, .compare .eq (.integer 1972), by decide⟩,
        ⟨"meta.at".toList, .oneOf [.text ['x'],
          .instant ⟨401 * 86400, 5, by decide, by decide, by decide⟩, .integer 1971], by decide⟩,
        ⟨"due".toList, .between .null (.instant n₂), by decide⟩]
    read .default n₁ p = .ok (r fs) ∧ read .default n₂ p = .ok (r gs) ∧
      fs.map Filter.shape = gs.map Filter.shape ∧
      List.Forall₂ Clause.GivesAlike ((clauses .default p).filter Clause.IsKept) (fs.zip gs) ∧
      render .postgres (selectAll "t".toList (r fs).condition? none) =
        render .postgres (selectAll "t".toList (r gs).condition? none) := by
  intro p r n₁ n₂ fs gs
  have h₁ : read .default n₁ p = .ok (r fs) := by decide +kernel
  have h₂ : read .default n₂ p = .ok (r gs) := by decide +kernel
  obtain ⟨-, hshape, halike, -, htext, -⟩ := read_alike_at_two_times h₁ h₂
  exact ⟨h₁, h₂, hshape, halike, (htext "t".toList).1 .postgres⟩

end Request

end Listing
