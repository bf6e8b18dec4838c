import Listing.Text.Quoted
import Listing.Text.Split

/-!
# Field paths

A field is a plain column, or a key inside a JSON column. It is the latter exactly when it
consists of two parts, neither of them empty, with one dot between them. The SQL that reads a key
writes it as a string literal.
-/

namespace Listing

inductive FieldPath where
  | column (name : Text)
  | json (column key : Text)
  deriving DecidableEq, Repr

namespace FieldPath

def of (field : Text) : FieldPath :=
  match Text.split '.' field with
  | [name, key] => if name = [] ∨ key = [] then column field else json name key
  | _ => column field

def isJson : FieldPath → Bool
  | column _ => false
  | json _ _ => true

/-- The column that the table must have. -/
def columnName : FieldPath → Text
  | column name => name
  | json name _ => name

def key? : FieldPath → Option Text
  | column _ => none
  | json _ key => some key

/-- The SQL that reads the field. -/
def accessor : FieldPath → Text
  | column name => name
  | json name key => name ++ " ->> ".toList ++ Text.quoted '\'' key

/-- A name for the field without dots. -/
def label : FieldPath → Text
  | column name => name.map fun c => if c = '.' then '_' else c
  | json name key => name ++ '_' :: key

theorem of_eq_column {field : Text} (h : (of field).isJson = false) : of field = column field := by
  unfold of at h ⊢
  split
  · split <;> simp_all [isJson]
  · rfl

theorem of_eq_json_iff {field name key : Text} :
    of field = json name key ↔ Text.split '.' field = [name, key] ∧ name ≠ [] ∧ key ≠ [] := by
  unfold of
  split
  · rename_i left right hsplit
    rw [hsplit]
    split
    · rename_i hempty
      refine iff_of_false nofun ?_
      rintro ⟨hparts, hname, hkey⟩
      obtain ⟨rfl, rfl⟩ : left = name ∧ right = key := by simpa using hparts
      exact hempty.elim hname hkey
    · rename_i hempty
      obtain ⟨hleft, hright⟩ := not_or.mp hempty
      constructor
      · intro h
        obtain ⟨rfl, rfl⟩ := json.inj h
        exact ⟨rfl, hleft, hright⟩
      · rintro ⟨hparts, -, -⟩
        obtain ⟨rfl, rfl⟩ : left = name ∧ right = key := by simpa using hparts
        rfl
  · rename_i hparts
    exact iff_of_false nofun fun h => hparts name key h.1

theorem eq_of_of_eq_json {field name key : Text} (h : of field = json name key) :
    field = name ++ '.' :: key :=
  (Text.split_eq_pair_iff.mp (of_eq_json_iff.mp h).1).1

/-- The SQL of a field adds nothing to it but an arrow and quotes; it leaves out the dot. -/
theorem count_accessor {c : Char} (hc : c ∉ ". ->> '".toList) (field : Text) :
    (of field).accessor.count c = field.count c := by
  obtain ⟨hdot, hquote, harrow⟩ : c ≠ '.' ∧ c ≠ '\'' ∧ c ∉ " ->> ".toList := by simp_all
  cases hpath : of field with
  | column name =>
    have hplain : (of field).isJson = false := by rw [hpath, isJson]
    rw [column.inj (hpath.symm.trans (of_eq_column hplain)), accessor]
  | json name key =>
    rw [eq_of_of_eq_json hpath, accessor, List.count_append, List.count_append, List.count_append,
      List.count_cons_of_ne (Ne.symm hdot), Text.count_quoted hquote,
      List.count_eq_zero_of_not_mem harrow, Nat.add_zero]

theorem not_mem_accessor {c : Char} (hc : c ∉ ". ->> '".toList) {field : Text} (h : c ∉ field) :
    c ∉ (of field).accessor := by
  rwa [← List.count_eq_zero, count_accessor hc, List.count_eq_zero]

end FieldPath
end Listing
