import Listing.Text.Form

/-!
# Request parameters

Parameters are keys with their values, in the order in which the keys were first used. A value is
one text or an array of texts. Setting a key replaces its value in place; appending to a key adds
one element to its array, and what stood there before becomes the array's beginning. In a query
string `key[]` appends and a plain key sets.
-/

namespace Listing

inductive RawValue where
  | single (t : Text)
  | many (ts : List Text)
  deriving DecidableEq, Repr

namespace RawValue

def items : RawValue → List Text
  | single t => [t]
  | many ts => ts

/-- The text that a reader of one value takes. -/
def last? (v : RawValue) : Option Text := v.items.getLast?

end RawValue

structure Params where
  entries : List (Text × RawValue)
  deriving DecidableEq, Repr

namespace Params

def empty : Params := ⟨[]⟩

/-- Changes the value of a key in place, or adds the key at the end. -/
def alterEntries (key : Text) (f : Option RawValue → RawValue) :
    List (Text × RawValue) → List (Text × RawValue)
  | [] => [(key, f none)]
  | (k, v) :: entries =>
    if k = key then (k, f (some v)) :: entries else (k, v) :: alterEntries key f entries

def alter (p : Params) (key : Text) (f : Option RawValue → RawValue) : Params :=
  ⟨alterEntries key f p.entries⟩

def insert (p : Params) (key : Text) (v : RawValue) : Params := p.alter key fun _ => v

def append (p : Params) (key element : Text) : Params :=
  p.alter key fun old => .many ((old.map RawValue.items).getD [] ++ [element])

def get? (p : Params) (key : Text) : Option RawValue := p.entries.lookup key

/-- The last text under a key. -/
def getText? (p : Params) (key : Text) : Option Text := (p.get? key).bind RawValue.last?

def contains (p : Params) (key : Text) : Bool := (p.get? key).isSome

def size (p : Params) : Nat := p.entries.length

def isEmpty (p : Params) : Bool := p.entries.isEmpty

def keys (p : Params) : List Text := p.entries.map Prod.fst

theorem lookup_alterEntries_self (key : Text) (f : Option RawValue → RawValue)
    (entries : List (Text × RawValue)) :
    (alterEntries key f entries).lookup key = some (f (entries.lookup key)) := by
  induction entries with
  | nil => simp [alterEntries]
  | cons entry entries ih =>
    obtain ⟨k, v⟩ := entry
    by_cases h : k = key
    · simp [alterEntries, h]
    · have hkey : (key == k) = false := beq_eq_false_iff_ne.mpr (Ne.symm h)
      simp [alterEntries, h, List.lookup_cons, hkey, ih]

theorem lookup_alterEntries_of_ne {key other : Text} (h : other ≠ key)
    (f : Option RawValue → RawValue) (entries : List (Text × RawValue)) :
    (alterEntries key f entries).lookup other = entries.lookup other := by
  induction entries with
  | nil => simp [alterEntries, List.lookup_cons, beq_eq_false_iff_ne.mpr h]
  | cons entry entries ih =>
    obtain ⟨k, v⟩ := entry
    by_cases hk : k = key
    · simp [alterEntries, hk, List.lookup_cons, beq_eq_false_iff_ne.mpr h]
    · cases hother : other == k <;> simp [alterEntries, hk, List.lookup_cons, hother, ih]

@[simp] theorem get?_alter_self (p : Params) (key : Text) (f : Option RawValue → RawValue) :
    (p.alter key f).get? key = some (f (p.get? key)) :=
  lookup_alterEntries_self key f p.entries

theorem get?_alter_of_ne (p : Params) {key other : Text} (h : other ≠ key)
    (f : Option RawValue → RawValue) : (p.alter key f).get? other = p.get? other :=
  lookup_alterEntries_of_ne h f p.entries

/-- An entry makes no difference to other keys, wherever it stands. -/
theorem get?_append_cons_of_ne {key other : Text} (h : other ≠ key) (v : RawValue)
    (xs ys : List (Text × RawValue)) :
    (⟨xs ++ (key, v) :: ys⟩ : Params).get? other = (⟨xs ++ ys⟩ : Params).get? other := by
  simp [get?, List.lookup_append, List.lookup_cons, beq_eq_false_iff_ne.mpr h]

def ofList (entries : List (Text × RawValue)) : Params :=
  entries.foldl (fun p (key, v) => p.insert key v) empty

theorem get?_eq_none_iff {p : Params} {key : Text} : p.get? key = none ↔ key ∉ p.keys := by
  simp only [get?, keys, List.lookup_eq_none_iff, List.mem_map, not_exists, not_and]
  constructor
  · intro h entry hentry hkey
    simpa [hkey] using h entry hentry
  · intro h entry hentry
    exact bne_iff_ne.mpr (Ne.symm (h entry hentry))

/-- Entries of other keys are passed over. -/
theorem alterEntries_append_of_not_mem {key : Text} {entries : List (Text × RawValue)}
    (h : key ∉ entries.map Prod.fst) (f : Option RawValue → RawValue)
    (rest : List (Text × RawValue)) :
    alterEntries key f (entries ++ rest) = entries ++ alterEntries key f rest := by
  induction entries with
  | nil => rfl
  | cons entry entries ih =>
    obtain ⟨k, v⟩ := entry
    simp only [List.map_cons, List.mem_cons, not_or] at h
    rw [List.cons_append, alterEntries, if_neg (Ne.symm h.1), ih h.2, List.cons_append]

theorem alterEntries_of_not_mem {key : Text} {entries : List (Text × RawValue)}
    (h : key ∉ entries.map Prod.fst) (f : Option RawValue → RawValue) :
    alterEntries key f entries = entries ++ [(key, f none)] := by
  have hend := alterEntries_append_of_not_mem h f []
  rwa [List.append_nil] at hend

theorem entries_foldl_insert {p : Params} {entries : List (Text × RawValue)}
    (h : (p.keys ++ entries.map Prod.fst).Nodup) :
    (entries.foldl (fun p (key, v) => p.insert key v) p).entries = p.entries ++ entries := by
  induction entries generalizing p with
  | nil => simp
  | cons entry entries ih =>
    obtain ⟨key, v⟩ := entry
    have hkey : key ∉ p.keys := fun hmem =>
      (List.nodup_append.mp h).2.2 key hmem key List.mem_cons_self rfl
    have hinsert : (p.insert key v).entries = p.entries ++ [(key, v)] :=
      alterEntries_of_not_mem hkey _
    have hkeys : ((p.insert key v).keys ++ entries.map Prod.fst).Nodup := by
      rw [keys, hinsert, List.map_append, List.append_assoc]
      exact h
    rw [List.foldl_cons, ih hkeys, hinsert, List.append_assoc, List.singleton_append]

/-- Distinct keys stand in the order in which they were set. -/
theorem entries_ofList {entries : List (Text × RawValue)} (h : (entries.map Prod.fst).Nodup) :
    (ofList entries).entries = entries := entries_foldl_insert h

/-- The key of an array, when the text is one. -/
def arrayKey? (key : Text) : Option Text :=
  match key.reverse with
  | ']' :: '[' :: t => some t.reverse
  | _ => none

def addPair (p : Params) (key value : Text) : Params :=
  match arrayKey? key with
  | some array => p.append array value
  | none => p.insert key (.single value)

/-- Question marks at the start of a query do not count. -/
def ofQuery (query : Text) : Params :=
  (Form.decode (query.dropWhile (· = '?'))).foldl (fun p (key, value) => p.addPair key value) empty

end Params
end Listing
