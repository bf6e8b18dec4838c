import Listing.Params
import Mathlib.Data.List.Induction
import Mathlib.Data.List.Nodup

/-!
# Parameters as a record of calls

Parameters are built by two calls, setting a key and appending to a key, in any order and number.
Each key stands once, where it was first used. What a key holds is told by the calls on this key
alone: the value that was set last, followed by all that was appended since.
-/

namespace Listing
namespace Params

inductive Call where
  | insert (key : Text) (v : RawValue)
  | append (key element : Text)
  deriving DecidableEq, Repr

def Call.key : Call → Text
  | insert key _ => key
  | append key _ => key

def apply (p : Params) : Call → Params
  | .insert key v => p.insert key v
  | .append key element => p.append key element

/-- The parameters after some calls, the first one on no parameters at all. -/
def run (calls : List Call) : Params := calls.foldl apply empty

/-- What is appended to a key, in order. -/
def appended (key : Text) (calls : List Call) : List Text :=
  calls.filterMap fun call =>
    match call with
    | .append k element => if k = key then some element else none
    | .insert _ _ => none

theorem appended_cons_append (key element : Text) (calls : List Call) :
    appended key (.append key element :: calls) = element :: appended key calls := by
  simp [appended]

theorem appended_cons_of_ne {key : Text} {call : Call} (h : call.key ≠ key) (calls : List Call) :
    appended key (call :: calls) = appended key calls := by
  cases call with
  | insert k v => rfl
  | append k element =>
    have hk : k ≠ key := h
    simp [appended, hk]

/-- The call of one decoded pair of a query string. -/
def Call.ofPair (pair : Text × Text) : Call :=
  match arrayKey? pair.1 with
  | some array => .append array pair.2
  | none => .insert pair.1 (.single pair.2)

/-! ## One call -/

theorem map_fst_alterEntries_of_mem {key : Text} {entries : List (Text × RawValue)}
    (h : key ∈ entries.map Prod.fst) (f : Option RawValue → RawValue) :
    (alterEntries key f entries).map Prod.fst = entries.map Prod.fst := by
  induction entries with
  | nil => cases h
  | cons entry entries ih =>
    obtain ⟨k, v⟩ := entry
    by_cases hk : k = key
    · simp [alterEntries, hk]
    · have hrest : key ∈ entries.map Prod.fst :=
        (List.mem_cons.mp h).resolve_left (Ne.symm hk)
      rw [alterEntries, if_neg hk, List.map_cons, ih hrest, List.map_cons]

theorem keys_alter (p : Params) (key : Text) (f : Option RawValue → RawValue) :
    (p.alter key f).keys = if key ∈ p.keys then p.keys else p.keys ++ [key] := by
  split
  · rename_i hkey
    exact map_fst_alterEntries_of_mem hkey f
  · rename_i hkey
    rw [keys, alter, alterEntries_of_not_mem hkey, List.map_append]
    rfl

/-- A key that is used again keeps its place, and a new one comes last. -/
theorem keys_apply (p : Params) (call : Call) :
    (p.apply call).keys = if call.key ∈ p.keys then p.keys else p.keys ++ [call.key] := by
  cases call with
  | insert key v => exact keys_alter p key _
  | append key element => exact keys_alter p key _

theorem get?_apply_of_ne {p : Params} {call : Call} {key : Text} (h : call.key ≠ key) :
    (p.apply call).get? key = p.get? key := by
  cases call with
  | insert k v => exact get?_alter_of_ne p h.symm _
  | append k element => exact get?_alter_of_ne p h.symm _

theorem get?_insert_self (p : Params) (key : Text) (v : RawValue) :
    (p.insert key v).get? key = some v := get?_alter_self p key _

theorem get?_append_self (p : Params) (key element : Text) : (p.append key element).get? key =
    some (.many (((p.get? key).map RawValue.items).getD [] ++ [element])) :=
  get?_alter_self p key _

/-- What a call makes of its key depends on nothing but what the key held. -/
theorem get?_apply_congr {p q : Params} {key : Text} (h : p.get? key = q.get? key) (call : Call) :
    (p.apply call).get? key = (q.apply call).get? key := by
  by_cases hkey : call.key = key
  · subst hkey
    cases call with
    | insert key v => exact (get?_insert_self p key v).trans (get?_insert_self q key v).symm
    | append key element =>
      have hold : p.get? key = q.get? key := h
      rw [apply, apply, Call.key, get?_append_self, get?_append_self, hold]
  · rw [get?_apply_of_ne hkey, get?_apply_of_ne hkey, h]

/-! ## Runs of calls -/

theorem eraseDups_concat (ks : List Text) (k : Text) :
    (ks ++ [k]).eraseDups = if k ∈ ks then ks.eraseDups else ks.eraseDups ++ [k] := by
  rw [List.eraseDups_append]
  by_cases hk : k ∈ ks
  · simp [List.removeAll, hk]
  · simp [List.removeAll, hk, List.eraseDups_cons]

theorem nodup_eraseDups (ks : List Text) : ks.eraseDups.Nodup := by
  induction ks using List.reverseRecOn with
  | nil => exact List.nodup_nil
  | append_singleton ks k ih =>
    rw [eraseDups_concat]
    split
    · exact ih
    · rename_i hk
      rw [← List.concat_eq_append]
      exact ih.concat (mt List.mem_eraseDups.mp hk)

theorem run_concat (calls : List Call) (call : Call) :
    run (calls ++ [call]) = (run calls).apply call :=
  List.foldl_concat apply empty call calls

/-- Keys stand in the order in which they are first used. -/
theorem keys_run (calls : List Call) : (run calls).keys = (calls.map Call.key).eraseDups := by
  induction calls using List.reverseRecOn with
  | nil => rfl
  | append_singleton calls call ih =>
    rw [run_concat, keys_apply, ih, List.map_append, List.map_singleton, eraseDups_concat]
    simp only [List.mem_eraseDups]

theorem nodup_keys_run (calls : List Call) : (run calls).keys.Nodup := by
  rw [keys_run]
  exact nodup_eraseDups _

/-- Calls on other keys may be left out. -/
theorem get?_foldl_filter {p q : Params} {key : Text} (h : p.get? key = q.get? key)
    (calls : List Call) : (calls.foldl apply p).get? key =
      ((calls.filter fun call => call.key = key).foldl apply q).get? key := by
  induction calls generalizing p q with
  | nil => exact h
  | cons call calls ih =>
    rw [List.foldl_cons]
    by_cases hkey : call.key = key
    · rw [List.filter_cons_of_pos (by simpa using hkey), List.foldl_cons]
      exact ih (get?_apply_congr h call)
    · rw [List.filter_cons_of_neg (by simpa using hkey)]
      exact ih ((get?_apply_of_ne hkey).trans h)

theorem get?_run_filter (calls : List Call) (key : Text) :
    (run calls).get? key = (run (calls.filter fun call => call.key = key)).get? key :=
  get?_foldl_filter rfl calls

/-- Without setting it, a key holds what it held, followed by what is appended. -/
theorem get?_foldl_of_not_insert {key : Text} {calls : List Call}
    (h : ∀ v, Call.insert key v ∉ calls) (p : Params) : (calls.foldl apply p).get? key =
      if appended key calls = [] then p.get? key
      else some (.many (((p.get? key).map RawValue.items).getD [] ++ appended key calls)) := by
  induction calls generalizing p with
  | nil => rfl
  | cons call calls ih =>
    have hcalls : ∀ v, Call.insert key v ∉ calls := fun v hv => h v (List.mem_cons_of_mem call hv)
    rw [List.foldl_cons, ih hcalls]
    by_cases hkey : call.key = key
    · subst hkey
      cases call with
      | insert key v => exact absurd List.mem_cons_self (h v)
      | append key element =>
        have hself : (p.apply (.append key element)).get? key =
            some (.many (((p.get? key).map RawValue.items).getD [] ++ [element])) :=
          get?_append_self p key element
        rw [Call.key, appended_cons_append, hself, if_neg (List.cons_ne_nil _ _)]
        split
        · rename_i hnil
          rw [hnil]
        · simp [RawValue.items]
    · rw [appended_cons_of_ne hkey, get?_apply_of_ne hkey]

/-! ## What a key holds -/

theorem ofList_eq_run (entries : List (Text × RawValue)) :
    ofList entries = run (entries.map fun entry => .insert entry.1 entry.2) := by
  rw [run, List.foldl_map]
  rfl

theorem addPair_eq_apply (p : Params) (pair : Text × Text) :
    p.addPair pair.1 pair.2 = p.apply (Call.ofPair pair) := by
  unfold addPair Call.ofPair
  cases arrayKey? pair.1 with
  | none => rfl
  | some array => rfl

theorem ofQuery_eq_run (query : Text) : ofQuery query =
    run ((Form.decode (query.dropWhile (· = '?'))).map Call.ofPair) := by
  rw [run, List.foldl_map]
  simp only [← addPair_eq_apply]
  rfl

theorem get?_run_of_not_insert {key : Text} {calls : List Call}
    (h : ∀ v, Call.insert key v ∉ calls) : (run calls).get? key =
      if appended key calls = [] then none else some (.many (appended key calls)) :=
  get?_foldl_of_not_insert h empty

theorem get?_run_of_last_insert {key : Text} {v : RawValue} {earlier later : List Call}
    (h : ∀ w, Call.insert key w ∉ later) :
    (run (earlier ++ .insert key v :: later)).get? key =
      some (if appended key later = [] then v else .many (v.items ++ appended key later)) := by
  have hset : ((run earlier).apply (.insert key v)).get? key = some v :=
    get?_insert_self (run earlier) key v
  rw [run, List.foldl_append, ← run, List.foldl_cons, get?_foldl_of_not_insert h, hset]
  split <;> rfl

/-- Two neighbouring calls on different keys may change places. -/
theorem get?_run_swap {a b : Call} (h : a.key ≠ b.key) (earlier later : List Call) (key : Text) :
    (run (earlier ++ a :: b :: later)).get? key = (run (earlier ++ b :: a :: later)).get? key := by
  rw [get?_run_filter, get?_run_filter (earlier ++ b :: a :: later)]
  by_cases ha : a.key = key
  · have hb : b.key ≠ key := fun hb => h (ha.trans hb.symm)
    simp [List.filter_append, ha, hb]
  · simp [List.filter_append, List.filter_cons, ha]

/-- Each key stands once, where it was first used, and holds what was set last and all that was
appended since; so only the calls on it count, and calls on different keys may change places. -/
theorem keys_and_values_of_run (calls : List Call) :
    (run calls).keys = (calls.map Call.key).eraseDups ∧ (run calls).keys.Nodup ∧
      (∀ key,
        (∀ earlier v later, calls = earlier ++ .insert key v :: later →
          (∀ w, Call.insert key w ∉ later) → (run calls).get? key =
            some (if appended key later = [] then v else .many (v.items ++ appended key later))) ∧
        ((∀ v, Call.insert key v ∉ calls) → (run calls).get? key =
          if appended key calls = [] then none else some (.many (appended key calls))) ∧
        (∀ others : List Call,
          (others.filter fun call => call.key = key) = (calls.filter fun call => call.key = key) →
            (run others).get? key = (run calls).get? key) ∧
        ∀ earlier a b later, calls = earlier ++ a :: b :: later → a.key ≠ b.key →
          (run (earlier ++ b :: a :: later)).get? key = (run calls).get? key) ∧
      (∀ entries, ofList entries = run (entries.map fun entry => .insert entry.1 entry.2)) ∧
      ∀ query, ofQuery query =
        run ((Form.decode (query.dropWhile (· = '?'))).map Call.ofPair) := by
  refine ⟨keys_run calls, nodup_keys_run calls, ?_, ofList_eq_run, ofQuery_eq_run⟩
  intro key
  refine ⟨?_, get?_run_of_not_insert, ?_, ?_⟩
  · rintro earlier v later rfl hlater
    exact get?_run_of_last_insert hlater
  · intro others hothers
    rw [get?_run_filter others, hothers, ← get?_run_filter]
  · rintro earlier a b later rfl hkeys
    exact (get?_run_swap hkeys earlier later key).symm

/-- Setting and appending in turn: what was set before the last setting leaves no trace. -/
theorem keys_and_values_of_mixed_calls :
    let earlier : List Call := [.append ['a'] ['1'], .insert ['b'] (.single ['2']),
      .append ['b'] ['3'], .append ['c'] ['4']]
    let later : List Call := [.append ['a'] ['6'], .append ['b'] ['7'], .append ['a'] ['8']]
    let calls := earlier ++ .insert ['b'] (.many [['5'], []]) :: later
    (run calls).keys = [['a'], ['b'], ['c']] ∧ (∀ w, Call.insert ['b'] w ∉ later) ∧
      (run calls).get? ['b'] = some (.many [['5'], [], ['7']]) ∧
      (∀ v, Call.insert ['a'] v ∉ calls) ∧
      (run calls).get? ['a'] = some (.many [['1'], ['6'], ['8']]) ∧
      (run (earlier ++ .append ['a'] ['6'] :: .insert ['b'] (.many [['5'], []]) ::
        later.tail)).get? ['b'] = (run calls).get? ['b'] := by
  intro earlier later calls
  obtain ⟨hkeys, _, hvalues, _⟩ := keys_and_values_of_run calls
  obtain ⟨hset, _, _, hswap⟩ := hvalues ['b']
  obtain ⟨_, hunset, _⟩ := hvalues ['a']
  have hlater : ∀ w, Call.insert ['b'] w ∉ later := by simp [later]
  have hcalls : ∀ v, Call.insert ['a'] v ∉ calls := by simp [calls, earlier, later]
  exact ⟨hkeys.trans (by decide), hlater, (hset earlier _ later rfl hlater).trans (by decide),
    hcalls, (hunset hcalls).trans (by decide), hswap earlier _ _ later.tail rfl (by decide)⟩

end Params
end Listing
