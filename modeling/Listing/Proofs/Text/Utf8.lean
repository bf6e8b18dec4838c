import Listing.Text.Utf8
import Mathlib.Tactic.SplitIfs

/-!
# Well-formed UTF-8 is read as it was written

The octets of a character are read back as this character, whatever follows them. A longer
sequence starts a character whose value its leading octet gives in part; each trailing octet adds
six bits. The reader bounds the second octet further where it could write an overlong form, a
surrogate or a value past U+10FFFF, and the octets of a character stay within these bounds.
-/

namespace Listing
namespace Utf8

theorem toNat_ofNat_of_lt (octet : Nat) (h : octet < 256) : (UInt8.ofNat octet).toNat = octet := by
  rw [UInt8.toNat_ofNat']
  exact Nat.mod_eq_of_lt h

/-- An octet after the first, with the last six bits of a value. -/
def trailing (value : Nat) : UInt8 := UInt8.ofNat (value % 64 + 0x80)

theorem toNat_trailing (value : Nat) : (trailing value).toNat = value % 64 + 0x80 :=
  toNat_ofNat_of_lt _ (by omega)

/-! ## One octet -/

theorem decodeFrom_ascii {octet : UInt8} (h : octet.toNat < 0x80) (rest : List UInt8) :
    decodeFrom none (octet :: rest) = Char.ofNat octet.toNat :: decodeFrom none rest := by
  simp only [decodeFrom, step, start, h, if_true, List.singleton_append]

theorem decodeFrom_lead {octet : UInt8} {p : Pending} (h : lead? octet.toNat = some p)
    (hlow : 0x80 ≤ octet.toNat) (rest : List UInt8) :
    decodeFrom none (octet :: rest) = decodeFrom (some p) rest := by
  simp only [decodeFrom, step, start, Nat.not_lt.mpr hlow, if_false, h, List.nil_append]

/-- A trailing octet within the bounds adds its six bits. -/
theorem decodeFrom_trailing {n owed low high : Nat} (hlow : low ≤ (trailing n).toNat)
    (hhigh : (trailing n).toNat ≤ high) (rest : List UInt8) :
    decodeFrom (some ⟨n / 64, owed + 2, low, high⟩) (trailing n :: rest) =
      decodeFrom (some ⟨n, owed + 1, 0x80, 0xBF⟩) rest := by
  have htrailing := toNat_trailing n
  have hvalue : n / 64 * 64 + ((trailing n).toNat - 0x80) = n := by omega
  simp [decodeFrom, step, hlow, hhigh, hvalue]

theorem decodeFrom_last_trailing (n : Nat) (rest : List UInt8) :
    decodeFrom (some ⟨n / 64, 1, 0x80, 0xBF⟩) (trailing n :: rest) =
      Char.ofNat n :: decodeFrom none rest := by
  have htrailing := toNat_trailing n
  have hlow : 0x80 ≤ (trailing n).toNat := by omega
  have hhigh : (trailing n).toNat ≤ 0xBF := by omega
  have hvalue : n / 64 * 64 + ((trailing n).toNat - 0x80) = n := by omega
  simp [decodeFrom, step, hlow, hhigh, hvalue]

/-! ## Sequences -/

theorem lead?_two {n : Nat} (hlow : 0x80 ≤ n) (hhigh : n ≤ 0x7FF) :
    lead? (n / 64 % 32 + 0xC0) = some ⟨n / 64, 1, 0x80, 0xBF⟩ := by
  have hvalue : n / 64 % 32 + 0xC0 - 0xC0 = n / 64 := by omega
  rw [lead?, if_neg (by omega), if_pos (by omega), hvalue]

/-- The second octet of a sequence of three lies within its bounds, as no surrogate is a
character. -/
theorem lead?_three {n : Nat} (hlow : 0x800 ≤ n) (hhigh : n ≤ 0xFFFF)
    (hchar : n < 0xD800 ∨ 0xDFFF < n) :
    ∃ low high, lead? (n / 64 / 64 % 16 + 0xE0) = some ⟨n / 64 / 64, 2, low, high⟩ ∧
      low ≤ (trailing (n / 64)).toNat ∧ (trailing (n / 64)).toNat ≤ high := by
  have hvalue : n / 64 / 64 % 16 + 0xE0 - 0xE0 = n / 64 / 64 := by omega
  rw [toNat_trailing, lead?, hvalue, if_neg (by omega), if_neg (by omega)]
  split_ifs with hfirst hsurrogates
  · have hzero : n / 64 / 64 = 0 := by omega
    exact ⟨0xA0, 0xBF, by rw [hzero], by omega, by omega⟩
  · have hthirteen : n / 64 / 64 = 13 := by omega
    exact ⟨0x80, 0x9F, by rw [hthirteen], by omega, by omega⟩
  · exact ⟨0x80, 0xBF, rfl, by omega, by omega⟩
  all_goals omega

/-- The second octet of a sequence of four lies within its bounds, as the value needs four octets
and is not past the last character. -/
theorem lead?_four {n : Nat} (hlow : 0x10000 ≤ n) (hhigh : n ≤ 0x10FFFF) :
    ∃ low high, lead? (n / 64 / 64 / 64 % 8 + 0xF0) = some ⟨n / 64 / 64 / 64, 3, low, high⟩ ∧
      low ≤ (trailing (n / 64 / 64)).toNat ∧ (trailing (n / 64 / 64)).toNat ≤ high := by
  have hvalue : n / 64 / 64 / 64 % 8 + 0xF0 - 0xF0 = n / 64 / 64 / 64 := by omega
  rw [toNat_trailing, lead?, hvalue, if_neg (by omega), if_neg (by omega), if_neg (by omega),
    if_neg (by omega), if_neg (by omega)]
  split_ifs with hfirst hmiddle hlast
  · have hzero : n / 64 / 64 / 64 = 0 := by omega
    exact ⟨0x90, 0xBF, by rw [hzero], by omega, by omega⟩
  · exact ⟨0x80, 0xBF, rfl, by omega, by omega⟩
  · have hfour : n / 64 / 64 / 64 = 4 := by omega
    exact ⟨0x80, 0x8F, by rw [hfour], by omega, by omega⟩
  · omega

theorem decodeFrom_two {n : Nat} (hlow : 0x80 ≤ n) (hhigh : n ≤ 0x7FF) (rest : List UInt8) :
    decodeFrom none (UInt8.ofNat (n / 64 % 32 + 0xC0) :: trailing n :: rest) =
      Char.ofNat n :: decodeFrom none rest := by
  have hoctet := toNat_ofNat_of_lt (n / 64 % 32 + 0xC0) (by omega)
  have hlead := lead?_two hlow hhigh
  rw [← hoctet] at hlead
  rw [decodeFrom_lead hlead (by omega), decodeFrom_last_trailing]

theorem decodeFrom_three {n : Nat} (hlow : 0x800 ≤ n) (hhigh : n ≤ 0xFFFF)
    (hchar : n < 0xD800 ∨ 0xDFFF < n) (rest : List UInt8) :
    decodeFrom none
        (UInt8.ofNat (n / 64 / 64 % 16 + 0xE0) :: trailing (n / 64) :: trailing n :: rest) =
      Char.ofNat n :: decodeFrom none rest := by
  have hoctet := toNat_ofNat_of_lt (n / 64 / 64 % 16 + 0xE0) (by omega)
  obtain ⟨low, high, hlead, hsecond⟩ := lead?_three hlow hhigh hchar
  rw [← hoctet] at hlead
  rw [decodeFrom_lead hlead (by omega), decodeFrom_trailing hsecond.1 hsecond.2,
    decodeFrom_last_trailing]

theorem decodeFrom_four {n : Nat} (hlow : 0x10000 ≤ n) (hhigh : n ≤ 0x10FFFF)
    (rest : List UInt8) :
    decodeFrom none (UInt8.ofNat (n / 64 / 64 / 64 % 8 + 0xF0) :: trailing (n / 64 / 64) ::
        trailing (n / 64) :: trailing n :: rest) =
      Char.ofNat n :: decodeFrom none rest := by
  have hoctet := toNat_ofNat_of_lt (n / 64 / 64 / 64 % 8 + 0xF0) (by omega)
  obtain ⟨low, high, hlead, hsecond⟩ := lead?_four hlow hhigh
  have hthird := toNat_trailing (n / 64)
  rw [← hoctet] at hlead
  rw [decodeFrom_lead hlead (by omega), decodeFrom_trailing hsecond.1 hsecond.2,
    decodeFrom_trailing (by omega) (by omega), decodeFrom_last_trailing]

/-! ## Texts -/

/-- The octets of a character are the shortest sequence that holds its value. -/
theorem utf8EncodeChar_of_toNat_eq {c : Char} {n : Nat} (h : c.toNat = n) :
    String.utf8EncodeChar c =
      if n ≤ 0x7F then [UInt8.ofNat n]
      else if n ≤ 0x7FF then [UInt8.ofNat (n / 64 % 32 + 0xC0), trailing n]
      else if n ≤ 0xFFFF then
        [UInt8.ofNat (n / 64 / 64 % 16 + 0xE0), trailing (n / 64), trailing n]
      else [UInt8.ofNat (n / 64 / 64 / 64 % 8 + 0xF0), trailing (n / 64 / 64), trailing (n / 64),
        trailing n] := by
  subst h
  rw [Nat.div_div_eq_div_mul, Nat.div_div_eq_div_mul]
  rfl

theorem decodeFrom_utf8EncodeChar_append (c : Char) (rest : List UInt8) :
    decodeFrom none (String.utf8EncodeChar c ++ rest) = c :: decodeFrom none rest := by
  have hvalid : c.toNat < 0xD800 ∨ 0xDFFF < c.toNat ∧ c.toNat < 0x110000 := c.valid
  have hchar : Char.ofNat c.toNat = c := Char.ofNat_toNat c
  rw [utf8EncodeChar_of_toNat_eq rfl]
  split_ifs with hone htwo hthree
  · have hoctet := toNat_ofNat_of_lt c.toNat (by omega)
    rw [List.singleton_append, decodeFrom_ascii (by omega), hoctet, hchar]
  · exact (decodeFrom_two (by omega) htwo rest).trans (by rw [hchar])
  · exact (decodeFrom_three (by omega) hthree (by omega) rest).trans (by rw [hchar])
  · exact (decodeFrom_four (by omega) (by omega) rest).trans (by rw [hchar])

theorem decode_encode (t : Text) : decode (encode t) = t := by
  induction t with
  | nil => rfl
  | cons c t ih => rw [encode_cons, decode, decodeFrom_utf8EncodeChar_append, ← decode, ih]

end Utf8
end Listing
