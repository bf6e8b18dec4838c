import Listing.Config
import Listing.Proofs.Params.Calls

/-!
# Runs of configuration steps

A configuration is changed by steps, in any order and number. The keys that are listed as reserved
only grow: what was listed stays in front, and each key that is new comes once, where it is first
reserved. The batch key is reserved without being listed, so a former one is not reserved any more
unless it is listed. Everything else is what was set last.
-/

namespace Listing
namespace Config

/-- The value that was set last, or the one at the start if none was set. -/
inductive LastSet {α : Type} (set : α → Step) (start : α) : List Step → α → Prop
  | set (earlier : List Step) (a : α) (later : List Step) (h : ∀ b, set b ∉ later) :
      LastSet set start (earlier ++ set a :: later) a
  | unset (steps : List Step) (h : ∀ b, set b ∉ steps) : LastSet set start steps start

/-- The key that a step reserves. -/
def Step.reserved? : Step → Option Text
  | reserve key => some key
  | _ => none

/-- The keys that the steps add to those that are listed at the start, each once and where it is
first reserved. -/
def added (c : Config) (steps : List Step) : List Text :=
  ((steps.filterMap Step.reserved?).removeAll c.reserved).eraseDups

theorem applyAll_concat (c : Config) (steps : List Step) (step : Step) :
    c.applyAll (steps ++ [step]) = (c.applyAll steps).apply step :=
  List.foldl_concat apply c step steps

/-! ## Reserved keys -/

theorem Step.reserved?_eq_some_iff {step : Step} {key : Text} :
    step.reserved? = some key ↔ step = .reserve key := by
  cases step <;> simp [Step.reserved?]

theorem mem_added_iff {c : Config} {steps : List Step} {key : Text} :
    key ∈ c.added steps ↔ .reserve key ∈ steps ∧ key ∉ c.reserved := by
  simp [added, List.removeAll, Step.reserved?_eq_some_iff]

theorem nodup_added (c : Config) (steps : List Step) : (c.added steps).Nodup :=
  Params.nodup_eraseDups _

theorem reserved_apply (c : Config) (step : Step) : (c.apply step).reserved =
    match step.reserved? with
    | some key => if key ∈ c.reserved then c.reserved else c.reserved ++ [key]
    | none => c.reserved := by
  cases step with
  | reserve key =>
    simp only [apply, Step.reserved?]
    split <;> rfl
  | _ => rfl

/-- A step adds the key that it reserves unless it is listed or was added before. -/
theorem added_concat (c : Config) (steps : List Step) (step : Step) :
    c.added (steps ++ [step]) =
      match step.reserved? with
      | some key =>
        if key ∈ c.reserved ++ c.added steps then c.added steps else c.added steps ++ [key]
      | none => c.added steps := by
  unfold added
  rw [List.filterMap_append]
  cases hkey : step.reserved? with
  | none => simp [hkey]
  | some key =>
    by_cases hlisted : key ∈ c.reserved
    · simp [List.removeAll, hkey, hlisted]
    · simp [List.removeAll, hkey, hlisted, Params.eraseDups_concat]

/-- The listed keys stay where they are, and the added ones come after them. -/
theorem reserved_applyAll (c : Config) (steps : List Step) :
    (c.applyAll steps).reserved = c.reserved ++ c.added steps := by
  induction steps using List.reverseRecOn with
  | nil => exact (List.append_nil _).symm
  | append_singleton steps step ih =>
    rw [applyAll_concat, reserved_apply, added_concat, ih]
    cases step.reserved? with
    | none => rfl
    | some key =>
      dsimp only
      split
      · rfl
      · exact List.append_assoc ..

theorem isReserved_applyAll_iff {c : Config} {steps : List Step} {key : Text} :
    (c.applyAll steps).isReserved key = true ↔
      key = (c.applyAll steps).batchKey ∨ key ∈ c.reserved ∨ .reserve key ∈ steps := by
  rw [isReserved_iff, reserved_applyAll, List.mem_append, mem_added_iff]
  tauto

/-! ## The other fields -/

namespace LastSet

variable {α : Type} {set : α → Step} {start : α} {steps : List Step}

theorem concat_self (a : α) : LastSet set start (steps ++ [set a]) a :=
  .set steps a [] fun _ => List.not_mem_nil

/-- A step that sets something else changes nothing. -/
theorem concat_of_ne {step : Step} (hne : ∀ a, step ≠ set a) {a : α}
    (h : LastSet set start steps a) : LastSet set start (steps ++ [step]) a := by
  have hlast {later : List Step} (hlater : ∀ b, set b ∉ later) (b : α) :
      set b ∉ later ++ [step] := by
    simp [hlater b, (hne b).symm]
  cases h with
  | set earlier a later hlater =>
    rw [List.append_assoc, List.cons_append]
    exact .set earlier a (later ++ [step]) (hlast hlater)
  | unset steps hsteps => exact .unset (steps ++ [step]) (hlast hsteps)

end LastSet

/-- A field that one kind of step sets, and that all others leave alone, is what was set last. -/
theorem lastSet_applyAll {α : Type} {set : α → Step} {get : Config → α}
    (hset : ∀ (c : Config) a, get (c.apply (set a)) = a)
    (hother : ∀ (c : Config) step, (∀ a, step ≠ set a) → get (c.apply step) = get c)
    (c : Config) (steps : List Step) :
    LastSet set (get c) steps (get (c.applyAll steps)) := by
  induction steps using List.reverseRecOn with
  | nil => exact .unset [] fun _ => List.not_mem_nil
  | append_singleton steps step ih =>
    rw [applyAll_concat]
    by_cases hstep : ∃ a, step = set a
    · obtain ⟨a, rfl⟩ := hstep
      rw [hset]
      exact .concat_self a
    · have hne : ∀ a, step ≠ set a := fun a h => hstep ⟨a, h⟩
      rw [hother _ step hne]
      exact ih.concat_of_ne hne

/-- The reserved keys are the batch key as it is in the end, the keys that were listed at the start
and those that some step reserves; a former batch key is none of them by itself. The keys listed in
the end are those at the start, and after them the new ones, each once and where it is first
reserved. All other fields hold what was set last. -/
theorem reserved_and_fields_of_applyAll (c : Config) (steps : List Step) :
    (∀ key, (c.applyAll steps).isReserved key = true ↔
        key = (c.applyAll steps).batchKey ∨ key ∈ c.reserved ∨ .reserve key ∈ steps) ∧
      (∀ key, key ≠ (c.applyAll steps).batchKey →
        ((c.applyAll steps).isReserved key = true ↔ key ∈ c.reserved ∨ .reserve key ∈ steps)) ∧
      ((c.applyAll steps).reserved = c.reserved ++ c.added steps ∧ (c.added steps).Nodup ∧
        ∀ key, key ∈ c.added steps ↔ .reserve key ∈ steps ∧ key ∉ c.reserved) ∧
      LastSet .defaultPerPage c.defaultPerPage steps (c.applyAll steps).defaultPerPage ∧
      LastSet .maxPerPage c.maxPerPage steps (c.applyAll steps).maxPerPage ∧
      LastSet .strategy c.strategy steps (c.applyAll steps).strategy ∧
      LastSet .batchKey c.batchKey steps (c.applyAll steps).batchKey ∧
      LastSet .delimiter c.delimiter steps (c.applyAll steps).delimiter := by
  refine ⟨fun key => isReserved_applyAll_iff, fun key hkey => ?_,
    ⟨reserved_applyAll c steps, nodup_added c steps, fun key => mem_added_iff⟩, ?_, ?_, ?_, ?_, ?_⟩
  · rw [isReserved_applyAll_iff]
    exact or_iff_right hkey
  all_goals
    -- Reserving a key and setting another field leave the field as it is.
    refine lastSet_applyAll (fun _ _ => rfl) (fun d step h => ?_) c steps
    cases step <;> grind [apply]

/-- Three batch keys in turn, with a key that is listed twice at the start: of the former batch keys
only the one that some step reserves is reserved in the end. -/
theorem reserved_and_fields_of_three_batch_keys :
    let c : Config := { Config.default with reserved := ["page".toList, "page".toList] }
    let steps : List Step :=
      [.batchKey "f".toList, .reserve "lang".toList, .maxPerPage 50, .reserve "page".toList,
        .batchKey "g".toList, .reserve "f".toList, .reserve "lang".toList, .maxPerPage 10]
    (c.applyAll steps).reserved =
        ["page".toList, "page".toList, "lang".toList, "f".toList] ∧
      ("filters".toList ≠ (c.applyAll steps).batchKey ∧
        (c.applyAll steps).isReserved "filters".toList = false) ∧
      ("f".toList ≠ (c.applyAll steps).batchKey ∧
        (c.applyAll steps).isReserved "f".toList = true) ∧
      (c.applyAll steps).isReserved "g".toList = true ∧
      LastSet .maxPerPage 100 steps 10 ∧ LastSet .delimiter ',' steps ',' := by
  intro c steps
  obtain ⟨hall, hformer, ⟨hlist, -, -⟩, -, hmax, -, -, hdelimiter⟩ :=
    reserved_and_fields_of_applyAll c steps
  have hfilters : "filters".toList ≠ (c.applyAll steps).batchKey := by decide
  have hf : "f".toList ≠ (c.applyAll steps).batchKey := by decide
  refine ⟨hlist.trans (by decide), ⟨hfilters, ?_⟩, ⟨hf, (hformer _ hf).mpr (by decide)⟩,
    (hall _).mpr (by decide), hmax, hdelimiter⟩
  rw [← Bool.not_eq_true, hformer _ hfilters]
  decide

end Config
end Listing
