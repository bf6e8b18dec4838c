import Listing.Json
import Listing.Time.Instant

/-!
# Values

What a filter compares with: null, truth values, whole numbers, texts, instants, and lists of
values to any depth. A value has a JSON form, in which an instant is its text. A JSON path reads
texts only, so `asPathText` replaces truth values and null by their JSON texts, at every depth.
-/

namespace Listing

inductive Value where
  | null
  | bool (b : Bool)
  | integer (i : Int)
  | text (t : Text)
  | instant (i : Instant)
  | list (items : List Value)

namespace Value

mutual

def same : Value → Value → Bool
  | null, null => true
  | bool b, bool c => b == c
  | integer i, integer j => i == j
  | text t, text u => t == u
  | instant i, instant j => i == j
  | list vs, list ws => sameItems vs ws
  | _, _ => false

def sameItems : List Value → List Value → Bool
  | [], [] => true
  | v :: vs, w :: ws => same v w && sameItems vs ws
  | _, _ => false

end

mutual

theorem same_eq_true_iff : ∀ v w : Value, same v w = true ↔ v = w
  | null, w => by cases w <;> simp [same]
  | bool _, w => by cases w <;> simp [same]
  | integer _, w => by cases w <;> simp [same]
  | text _, w => by cases w <;> simp [same]
  | instant _, w => by cases w <;> simp [same]
  | list vs, w => by cases w <;> simp [same, sameItems_eq_true_iff vs]

theorem sameItems_eq_true_iff : ∀ vs ws : List Value, sameItems vs ws = true ↔ vs = ws
  | [], ws => by cases ws <;> simp [sameItems]
  | v :: vs, ws => by
    cases ws <;> simp [sameItems, same_eq_true_iff v, sameItems_eq_true_iff vs]

end

instance : DecidableEq Value := fun v w => decidable_of_iff _ (same_eq_true_iff v w)

def asList? : Value → Option (List Value)
  | list items => some items
  | _ => none

def isList (v : Value) : Bool := v.asList?.isSome

mutual

def json : Value → Json
  | null => .null
  | bool b => .bool b
  | integer i => .integer i
  | text t => .text t
  | instant i => .text i.text
  | list items => .array (jsonItems items)

def jsonItems : List Value → List Json
  | [] => []
  | v :: vs => json v :: jsonItems vs

end

mutual

/-- The value that a text read through a JSON path is compared with. -/
def asPathText : Value → Value
  | null => text (Json.render .null)
  | bool b => text (Json.render (.bool b))
  | integer i => integer i
  | text t => text t
  | instant i => instant i
  | list items => list (asPathTextItems items)

def asPathTextItems : List Value → List Value
  | [] => []
  | v :: vs => asPathText v :: asPathTextItems vs

end

@[simp] theorem jsonItems_eq_map (vs : List Value) : jsonItems vs = vs.map json := by
  induction vs with
  | nil => rfl
  | cons v vs ih => simp [jsonItems, ih]

@[simp] theorem asPathTextItems_eq_map (vs : List Value) :
    asPathTextItems vs = vs.map asPathText := by
  induction vs with
  | nil => rfl
  | cons v vs ih => simp [asPathTextItems, ih]

@[simp] theorem isList_list (items : List Value) : isList (list items) = true := rfl

end Value
end Listing
