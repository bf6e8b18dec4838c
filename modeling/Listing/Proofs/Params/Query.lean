import Listing.Proofs.Params.Calls
import Listing.Proofs.Text.Form

/-!
# Parameters are read back from their query string

Parameters are written entry by entry: a single text as one pair, an array as one pair for each
element under its key with brackets. The pairs of an entry are calls on its key, and no later
entry has this key again, so each entry is put together before the next one starts. Two kinds of
entries have no pairs of their own: an array without elements, and a single text under a key
that looks like an array's.
-/

namespace Listing
namespace Params

/-- An entry has pairs that are read back as this entry. -/
def IsExpressible : Text × RawValue → Prop
  | (key, .single _) => ¬['[', ']'] <:+ key
  | (_, .many ts) => ts ≠ []

instance : DecidablePred IsExpressible
  | (key, .single _) => inferInstanceAs (Decidable (¬['[', ']'] <:+ key))
  | (_, .many ts) => inferInstanceAs (Decidable (ts ≠ []))

/-- The pairs that write one entry. -/
def entryPairs : Text × RawValue → List (Text × Text)
  | (key, .single t) => [(key, t)]
  | (key, .many ts) => ts.map fun t => (key ++ ['[', ']'], t)

def pairs (p : Params) : List (Text × Text) := p.entries.flatMap entryPairs

/-- The query has the pairs of the parameters, each written in some way, between ampersands. -/
def IsWrittenAs (p : Params) (query : Text) : Prop :=
  ∃ ws, List.Forall₂ Form.WritesPair p.pairs ws ∧ query = Text.join ['&'] ws

/-! ## Keys of arrays -/

theorem arrayKey?_eq_some_iff {key array : Text} :
    arrayKey? key = some array ↔ key = array ++ ['[', ']'] := by
  constructor
  · intro h
    unfold arrayKey? at h
    split at h
    · rename_i t hreverse
      cases h
      rw [← key.reverse_reverse, hreverse]
      simp
    · cases h
  · rintro rfl
    simp [arrayKey?]

theorem arrayKey?_eq_none_iff {key : Text} : arrayKey? key = none ↔ ¬['[', ']'] <:+ key := by
  rw [Option.eq_none_iff_forall_ne_some]
  constructor
  · rintro h ⟨array, harray⟩
    exact h array (arrayKey?_eq_some_iff.mpr harray.symm)
  · intro h array harray
    exact h ⟨array, (arrayKey?_eq_some_iff.mp harray).symm⟩

/-! ## One entry -/

/-- The calls of the pairs of one entry. -/
def entryCalls : Text × RawValue → List Call
  | (key, .single t) => [.insert key (.single t)]
  | (key, .many ts) => ts.map (.append key)

theorem map_ofPair_entryPairs {entry : Text × RawValue} (h : IsExpressible entry) :
    (entryPairs entry).map Call.ofPair = entryCalls entry := by
  obtain ⟨key, v⟩ := entry
  cases v with
  | single t => simp [entryPairs, entryCalls, Call.ofPair, arrayKey?_eq_none_iff.mpr h]
  | many ts =>
    have harray : arrayKey? (key ++ ['[', ']']) = some key := arrayKey?_eq_some_iff.mpr rfl
    simp [entryPairs, entryCalls, Call.ofPair, harray, Function.comp_def]

/-- An array at the end grows by what is appended to its key. -/
theorem foldl_append_last {key : Text} {entries : List (Text × RawValue)}
    (h : key ∉ entries.map Prod.fst) (ts us : List Text) :
    (ts.map (Call.append key)).foldl apply ⟨entries ++ [(key, .many us)]⟩ =
      ⟨entries ++ [(key, .many (us ++ ts))]⟩ := by
  induction ts generalizing us with
  | nil => simp
  | cons t ts ih =>
    have hstep : apply ⟨entries ++ [(key, .many us)]⟩ (.append key t) =
        ⟨entries ++ [(key, .many (us ++ [t]))]⟩ := by
      simp [apply, append, alter, alterEntries_append_of_not_mem h, alterEntries, RawValue.items]
    rw [List.map_cons, List.foldl_cons, hstep, ih, List.append_assoc, List.singleton_append]

/-- The calls of an entry put it at the end. -/
theorem foldl_entryCalls {p : Params} {entry : Text × RawValue} (h : IsExpressible entry)
    (hkey : entry.1 ∉ p.keys) : (entryCalls entry).foldl apply p = ⟨p.entries ++ [entry]⟩ := by
  obtain ⟨key, v⟩ := entry
  cases v with
  | single t =>
    rw [entryCalls, List.foldl_cons, List.foldl_nil, apply, insert, alter,
      alterEntries_of_not_mem hkey]
  | many ts =>
    obtain ⟨t, ts, rfl⟩ := List.exists_cons_of_ne_nil h
    have hfirst : apply p (.append key t) = ⟨p.entries ++ [(key, .many [t])]⟩ := by
      simp [apply, append, alter, alterEntries_of_not_mem hkey]
    rw [entryCalls, List.map_cons, List.foldl_cons, hfirst, foldl_append_last hkey,
      List.singleton_append]

/-! ## All entries -/

theorem foldl_flatMap_entryCalls {p : Params} {entries : List (Text × RawValue)}
    (hkeys : (p.keys ++ entries.map Prod.fst).Nodup) (h : ∀ entry ∈ entries, IsExpressible entry) :
    (entries.flatMap entryCalls).foldl apply p = ⟨p.entries ++ entries⟩ := by
  -- What is put together already is in `p`; the keys still to come are not among its keys.
  induction entries generalizing p with
  | nil => simp
  | cons entry entries ih =>
    obtain ⟨hentry, hentries⟩ := List.forall_mem_cons.mp h
    have hkey : entry.1 ∉ p.keys := fun hmem =>
      (List.nodup_append.mp hkeys).2.2 entry.1 hmem entry.1 List.mem_cons_self rfl
    have hrest : (keys ⟨p.entries ++ [entry]⟩ ++ entries.map Prod.fst).Nodup := by
      rw [keys, List.map_append, List.append_assoc]
      exact hkeys
    rw [List.flatMap_cons, List.foldl_append, foldl_entryCalls hentry hkey, ih hrest hentries,
      List.append_assoc, List.singleton_append]

theorem run_calls_of_pairs {p : Params} (hkeys : p.keys.Nodup)
    (h : ∀ entry ∈ p.entries, IsExpressible entry) : run (p.pairs.map Call.ofPair) = p := by
  have hcalls : p.pairs.map Call.ofPair = p.entries.flatMap entryCalls := by
    rw [pairs, List.map_flatMap]
    exact List.flatMap_congr fun entry hentry => map_ofPair_entryPairs (h entry hentry)
  have hempty : (empty.keys ++ p.entries.map Prod.fst).Nodup := hkeys
  rw [hcalls]
  exact foldl_flatMap_entryCalls hempty h

/-! ## The query string -/

theorem dropWhile_replicate_append {query : Text} (h : query.head? ≠ some '?') (n : Nat) :
    (List.replicate n '?' ++ query).dropWhile (· = '?') = query := by
  have hmarks : ∀ c ∈ List.replicate n '?', decide (c = '?') = true := by
    intro c hc
    exact decide_eq_true (List.eq_of_mem_replicate hc)
  rw [List.dropWhile_append_of_pos hmarks]
  cases query with
  | nil => rfl
  | cons c t =>
    have hc : c ≠ '?' := fun hc => h (congrArg some hc)
    simp [hc]

/-- However its characters are written, and with any number of question marks before it, the query
string of parameters is read as these parameters. -/
theorem ofQuery_of_isWrittenAs {p : Params} (hkeys : p.keys.Nodup)
    (hentries : ∀ entry ∈ p.entries, IsExpressible entry) {query : Text}
    (hquery : p.IsWrittenAs query) (hstart : query.head? ≠ some '?') (n : Nat) :
    ofQuery (List.replicate n '?' ++ query) = p := by
  obtain ⟨ws, hws, rfl⟩ := hquery
  rw [ofQuery_eq_run, dropWhile_replicate_append hstart, Form.decode_join hws,
    run_calls_of_pairs hkeys hentries]

/-- A letter of two octets, digits in both cases, a space, an equals sign in a value, a question mark
inside, and an array under a key that looks like an array's. -/
theorem ofQuery_of_mixed_query :
    let p : Params := ⟨[(['é', '?'], .single "a=b c".toList),
      ("k[]".toList, .many [['&'], []])]⟩
    let query : Text := "%C3%a9?=a=b+c&k[]%5B]=%26&k[][]=".toList
    p.keys.Nodup ∧ (∀ entry ∈ p.entries, IsExpressible entry) ∧ p.IsWrittenAs query ∧
      query.head? ≠ some '?' ∧ ofQuery ("??".toList ++ query) = p := by
  intro p query
  have hkeys : p.keys.Nodup := by decide
  have hentries : ∀ entry ∈ p.entries, IsExpressible entry := by decide
  have hstart : query.head? ≠ some '?' := by decide
  have hletter : Form.Escapes (String.utf8EncodeChar 'é') ['%', 'C', '3', '%', 'a', '9'] := by
    show Form.Escapes [0xC3, 0xA9] _
    exact .cons (by decide) (by decide) (.cons (by decide) (by decide) .nil)
  have hbracket : Form.Escapes (String.utf8EncodeChar '[') ['%', '5', 'B'] := by
    show Form.Escapes [0x5B] _
    exact .cons (by decide) (by decide) .nil
  have hampersand : Form.Escapes (String.utf8EncodeChar '&') ['%', '2', '6'] := by
    show Form.Escapes [0x26] _
    exact .cons (by decide) (by decide) .nil
  have hfirst : Form.WritesPair (['é', '?'], ['a', '=', 'b', ' ', 'c'])
      "%C3%a9?=a=b+c".toList := by
    have hname : Form.Writes ['='] ['é', '?'] _ :=
      .escaped hletter (Form.writes_self (by simp [Form.alwaysReserved]))
    have hvalue : Form.Writes [] (['a', '=', 'b'] ++ [' ', 'c']) _ :=
      Form.writes_append (Form.writes_self (by simp [Form.alwaysReserved]))
        (.plus (Form.writes_self (by simp [Form.alwaysReserved])))
    exact .intro hname hvalue
  have hsecond : Form.WritesPair ("k[]".toList ++ ['[', ']'], ['&']) "k[]%5B]=%26".toList := by
    have hname : Form.Writes ['='] ("k[]".toList ++ ['[', ']']) _ :=
      Form.writes_append (Form.writes_self (by simp [Form.alwaysReserved]))
        (.escaped hbracket (Form.writes_self (by simp [Form.alwaysReserved])))
    have hvalue : Form.Writes [] ['&'] _ := .escaped hampersand .nil
    exact .intro hname hvalue
  have hthird : Form.WritesPair ("k[]".toList ++ ['[', ']'], []) "k[][]=".toList :=
    .intro (Form.writes_self (by simp [Form.alwaysReserved])) .nil
  have hquery : p.IsWrittenAs query :=
    ⟨_, .cons hfirst (.cons hsecond (.cons hthird .nil)), by decide⟩
  exact ⟨hkeys, hentries, hquery, hstart, ofQuery_of_isWrittenAs hkeys hentries hquery hstart 2⟩

end Params
end Listing
