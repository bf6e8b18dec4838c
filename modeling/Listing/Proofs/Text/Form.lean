import Listing.Text.Form
import Listing.Proofs.Text.Token
import Listing.Proofs.Text.Utf8
import Mathlib.Data.List.Forall2

/-!
# Form-encoded pairs are read as they were written

A writer of form-encoded text may choose for each character: it stands as itself unless it is
reserved, a space may stand as a plus sign, and the octets of every character may be escaped as
`%XX` with digits in either case. Whatever the writer chooses, the text is read back. The layers of
the reading follow one another: the octets of one text, the text, the pair that is cut at its first
equals sign, and the pairs between ampersands.
-/

namespace Listing
namespace Form

/-- A hexadecimal digit in either case. -/
def hexDigits (digit : Nat) : List Char := [Nat.digitChar digit, (Nat.digitChar digit).toUpper]

/-- The text has `%XX` for each octet. -/
inductive Escapes : List UInt8 → Text → Prop where
  | nil : Escapes [] []
  | cons {octet : UInt8} {os : List UInt8} {high low : Char} {w : Text}
      (hhigh : high ∈ hexDigits (octet.toNat / 16)) (hlow : low ∈ hexDigits (octet.toNat % 16))
      (h : Escapes os w) : Escapes (octet :: os) ('%' :: high :: low :: w)

/-- The characters that never stand for themselves. -/
def alwaysReserved : List Char := ['&', '+', '%', ' ']

/-- The second text writes the first, with the writer's choice at each character. -/
inductive Writes (reserved : List Char) : Text → Text → Prop where
  | nil : Writes reserved [] []
  | literal {c : Char} {t w : Text} (halways : c ∉ alwaysReserved) (hc : c ∉ reserved)
      (h : Writes reserved t w) : Writes reserved (c :: t) (c :: w)
  | plus {t w : Text} (h : Writes reserved t w) : Writes reserved (' ' :: t) ('+' :: w)
  | escaped {c : Char} {t v w : Text} (hv : Escapes (String.utf8EncodeChar c) v)
      (h : Writes reserved t w) : Writes reserved (c :: t) (v ++ w)

/-- A pair, with an equals sign between its two parts and none in the name. -/
inductive WritesPair : Text × Text → Text → Prop where
  | intro {name value w v : Text} (hname : Writes ['='] name w) (hvalue : Writes [] value v) :
      WritesPair (name, value) (w ++ '=' :: v)

/-- A text without reserved characters may be left as it is. -/
theorem writes_self {reserved : List Char} {t : Text}
    (h : ∀ c ∈ t, c ∉ alwaysReserved ∧ c ∉ reserved) : Writes reserved t t := by
  induction t with
  | nil => exact .nil
  | cons c t ih =>
    obtain ⟨hc, ht⟩ := List.forall_mem_cons.mp h
    exact .literal hc.1 hc.2 (ih ht)

theorem writes_append {reserved : List Char} {t u w v : Text} (ht : Writes reserved t w)
    (hu : Writes reserved u v) : Writes reserved (t ++ u) (w ++ v) := by
  induction ht with
  | nil => exact hu
  | literal halways hc _ ih => exact .literal halways hc ih
  | plus _ ih => exact .plus ih
  | escaped hv _ ih =>
    rw [List.append_assoc]
    exact .escaped hv ih

/-! ## Octets -/

theorem map_hexValue?_hexDigits :
    ∀ digit < 16, (hexDigits digit).map hexValue? = [some digit, some digit] := by
  decide

theorem hexValue?_of_mem_hexDigits {digit : Nat} (hdigit : digit < 16) {c : Char}
    (hc : c ∈ hexDigits digit) : hexValue? c = some digit := by
  have hvalue : hexValue? c ∈ (hexDigits digit).map hexValue? := List.mem_map_of_mem hc
  rw [map_hexValue?_hexDigits digit hdigit] at hvalue
  simpa using hvalue

theorem hexOctet?_of_mem_hexDigits {octet : UInt8} {high low : Char}
    (hhigh : high ∈ hexDigits (octet.toNat / 16)) (hlow : low ∈ hexDigits (octet.toNat % 16)) :
    hexOctet? high low = some octet := by
  have hoctet : octet.toNat < 256 := octet.toNat_lt
  have hvalue : 16 * (octet.toNat / 16) + octet.toNat % 16 = octet.toNat := Nat.div_add_mod _ _
  rw [hexOctet?, hexValue?_of_mem_hexDigits (by omega) hhigh,
    hexValue?_of_mem_hexDigits (by omega) hlow]
  simp only [hvalue, UInt8.ofNat_toNat]

theorem octets_append_of_escapes {os : List UInt8} {v : Text} (h : Escapes os v) (rest : Text) :
    octets (v ++ rest) = os ++ octets rest := by
  induction h with
  | nil => rfl
  | cons hhigh hlow _ ih =>
    simp only [List.cons_append, octets, hexOctet?_of_mem_hexDigits hhigh hlow, ih]

theorem octets_cons_of_ne {c : Char} (hplus : c ≠ '+') (hpercent : c ≠ '%') (t : Text) :
    octets (c :: t) = String.utf8EncodeChar c ++ octets t := by
  rw [octets]
  · exact hplus
  · rintro h l u rfl
    contradiction

/-- What is written has the octets of the text, whatever else is reserved. -/
theorem octets_of_writes {reserved : List Char} {t w : Text} (h : Writes reserved t w) :
    octets w = Utf8.encode t := by
  induction h with
  | nil => rfl
  | literal halways _ _ ih =>
    have hplus := ne_of_mem_of_not_mem (a := '+') (by decide) halways
    have hpercent := ne_of_mem_of_not_mem (a := '%') (by decide) halways
    rw [octets_cons_of_ne hplus.symm hpercent.symm, ih, Utf8.encode_cons]
  | plus _ ih =>
    rw [octets, ih, Utf8.encode_cons]
    rfl
  | escaped hv _ ih => rw [octets_append_of_escapes hv, ih, Utf8.encode_cons]

theorem decodeText_of_writes {reserved : List Char} {t w : Text} (h : Writes reserved t w) :
    decodeText w = t := by
  rw [decodeText, octets_of_writes h, Utf8.decode_encode]

/-! ## Separators -/

theorem not_mem_of_escapes {sep : Char} (hsep : sep ≠ '%') (hhex : hexValue? sep = none)
    {os : List UInt8} {v : Text} (h : Escapes os v) : sep ∉ v := by
  have hdigit : ∀ digit < 16, sep ∉ hexDigits digit := by
    intro digit hdigit hmem
    rw [hexValue?_of_mem_hexDigits hdigit hmem] at hhex
    cases hhex
  induction h with
  | nil => exact List.not_mem_nil
  | @cons octet os high low w hhigh hlow _ ih =>
    have hoctet : octet.toNat < 256 := octet.toNat_lt
    simp only [List.mem_cons, not_or]
    refine ⟨hsep, ?_, ?_, ih⟩
    · rintro rfl
      exact hdigit _ (by omega) hhigh
    · rintro rfl
      exact hdigit _ (by omega) hlow

/-- A reserved separator does not occur in what is written. -/
theorem not_mem_of_writes {reserved : List Char} {sep : Char}
    (hsep : sep ∈ alwaysReserved ∨ sep ∈ reserved) (hplus : sep ≠ '+') (hpercent : sep ≠ '%')
    (hhex : hexValue? sep = none) {t w : Text} (h : Writes reserved t w) : sep ∉ w := by
  induction h with
  | nil => exact List.not_mem_nil
  | literal halways hc _ ih =>
    rw [List.mem_cons, not_or]
    refine ⟨?_, ih⟩
    rintro rfl
    exact hsep.elim halways hc
  | plus _ ih =>
    rw [List.mem_cons, not_or]
    exact ⟨hplus, ih⟩
  | escaped hv _ ih =>
    rw [List.mem_append, not_or]
    exact ⟨not_mem_of_escapes hpercent hhex hv, ih⟩

theorem ampersand_not_mem_of_writes {reserved : List Char} {t w : Text}
    (h : Writes reserved t w) : '&' ∉ w :=
  not_mem_of_writes (Or.inl (by decide)) (by decide) (by decide) (by decide) h

theorem equals_not_mem_of_writes {t w : Text} (h : Writes ['='] t w) : '=' ∉ w :=
  not_mem_of_writes (Or.inr (by decide)) (by decide) (by decide) (by decide) h

/-! ## Pairs -/

theorem ampersand_not_mem_of_writesPair {pair : Text × Text} {w : Text} (h : WritesPair pair w) :
    '&' ∉ w := by
  obtain ⟨hname, hvalue⟩ := h
  rw [List.mem_append, List.mem_cons, not_or, not_or]
  exact ⟨ampersand_not_mem_of_writes hname, by decide, ampersand_not_mem_of_writes hvalue⟩

theorem decodePair_of_writesPair {pair : Text × Text} {w : Text} (h : WritesPair pair w) :
    decodePair w = pair := by
  obtain @⟨name, value, w, v, hname, hvalue⟩ := h
  have hcut : Text.cut? '=' (w ++ '=' :: v) = some (w, v) :=
    Text.cut?_eq_some_iff.mpr ⟨equals_not_mem_of_writes hname, rfl⟩
  simp only [decodePair, hcut, decodeText_of_writes hname, decodeText_of_writes hvalue]

theorem ne_nil_of_writesPair {pair : Text × Text} {w : Text} (h : WritesPair pair w) : w ≠ [] := by
  obtain ⟨_, _⟩ := h
  simp

theorem map_decodePair_of_writes {pairs : List (Text × Text)} {ws : List Text}
    (h : List.Forall₂ WritesPair pairs ws) : ws.map decodePair = pairs := by
  induction h with
  | nil => rfl
  | cons hpair _ ih => rw [List.map_cons, decodePair_of_writesPair hpair, ih]

/-- Pairs that are joined by ampersands are read back one by one. -/
theorem decode_join {pairs : List (Text × Text)} {ws : List Text}
    (h : List.Forall₂ WritesPair pairs ws) : decode (Text.join ['&'] ws) = pairs := by
  have hwritten : ∀ w ∈ ws, '&' ∉ w ∧ w ≠ [] := by
    induction h with
    | nil => exact List.forall_mem_nil _
    | cons hpair _ ih =>
      exact List.forall_mem_cons.mpr
        ⟨⟨ampersand_not_mem_of_writesPair hpair, ne_nil_of_writesPair hpair⟩, ih⟩
  rcases eq_or_ne ws [] with rfl | hne
  · rw [List.forall₂_nil_right_iff.mp h]
    rfl
  · have hfilter : (ws.filter fun w => !w.isEmpty) = ws := by
      rw [List.filter_eq_self]
      intro w hw
      simpa using (hwritten w hw).2
    rw [decode, Text.split_join hne fun w hw => (hwritten w hw).1, hfilter]
    exact map_decodePair_of_writes h

end Form
end Listing
