import Listing.Proofs.Text.Token
import Listing.Text.Numeral
import Mathlib.Algebra.Ring.Nat
import Mathlib.Data.List.Induction
import Mathlib.Tactic.Ring

/-!
# Digits and the numbers they denote

Digits of a fixed width and the numbers below a power of ten determine each other, and texts of as
many digits are ordered as their numbers are. Texts that start with equally long parts are compared
by these parts first.
-/

namespace Listing
namespace Text

/-! ## Single digits -/

theorem digitValue_digitChar {d : Nat} (h : d < 10) : digitValue (Nat.digitChar d) = d := by
  have hall : ∀ d : Fin 10, digitValue (Nat.digitChar d) = d := by decide
  exact hall ⟨d, h⟩

theorem isDigit_digitChar {d : Nat} (h : d < 10) : (Nat.digitChar d).isDigit = true := by
  have hall : ∀ d : Fin 10, (Nat.digitChar d).isDigit = true := by decide
  exact hall ⟨d, h⟩

theorem toNat_bounds_of_isDigit {c : Char} (h : c.isDigit = true) :
    48 ≤ c.toNat ∧ c.toNat ≤ 57 := by
  simpa [Char.isDigit, UInt32.le_iff_toNat_le] using h

theorem isBlankChar_of_isDigit {c : Char} (h : c.isDigit = true) : isBlankChar c = false := by
  have hbounds := toNat_bounds_of_isDigit h
  simp only [isBlankChar, blankRanges, List.any_cons, List.any_nil, Bool.or_false,
    Bool.or_eq_false_iff, Bool.and_eq_false_imp, decide_eq_true_eq, decide_eq_false_iff_not]
  omega

theorem toNat_of_isDigit {c : Char} (h : c.isDigit = true) : c.toNat = 48 + digitValue c := by
  have hbounds := toNat_bounds_of_isDigit h
  have hzero : '0'.toNat = 48 := rfl
  unfold digitValue
  omega

theorem digitValue_lt {c : Char} (h : c.isDigit = true) : digitValue c < 10 := by
  have hbounds := toNat_bounds_of_isDigit h
  rw [toNat_of_isDigit h] at hbounds
  omega

theorem lt_iff_digitValue_lt {c d : Char} (hc : c.isDigit = true) (hd : d.isDigit = true) :
    c < d ↔ digitValue c < digitValue d := by
  have hlt : c < d ↔ c.toNat < d.toNat := Iff.rfl
  rw [hlt, toNat_of_isDigit hc, toNat_of_isDigit hd, Nat.add_lt_add_iff_left]

theorem digitValue_injective {c d : Char} (hc : c.isDigit = true) (hd : d.isDigit = true)
    (h : digitValue c = digitValue d) : c = d := by
  apply Char.toNat_inj.mp
  rw [toNat_of_isDigit hc, toNat_of_isDigit hd, h]

theorem digitChar_digitValue {c : Char} (h : c.isDigit = true) :
    Nat.digitChar (digitValue c) = c :=
  digitValue_injective (isDigit_digitChar (digitValue_lt h)) h
    (digitValue_digitChar (digitValue_lt h))

/-! ## Texts of digits -/

theorem isDigit_of_mem_fixedDecimal {width n : Nat} {c : Char} (h : c ∈ fixedDecimal width n) :
    c.isDigit = true := by
  induction width generalizing n with
  | zero => simp [fixedDecimal] at h
  | succ width ih =>
    rcases List.mem_append.mp h with h | h
    · exact ih h
    · obtain rfl := List.mem_singleton.mp h
      exact isDigit_digitChar (Nat.mod_lt n (by decide))

theorem digitsValue_concat (t : Text) (c : Char) :
    digitsValue (t ++ [c]) = 10 * digitsValue t + digitValue c := by
  simp [digitsValue]

theorem digitsValue_append (t u : Text) :
    digitsValue (t ++ u) = digitsValue t * 10 ^ u.length + digitsValue u := by
  induction u using List.reverseRecOn with
  | nil => simp [digitsValue]
  | append_singleton u c ih =>
    rw [← List.append_assoc, digitsValue_concat, ih, digitsValue_concat, List.length_append,
      List.length_singleton, Nat.pow_succ]
    ring

/-- Digits of a fixed width denote the number as far as the width goes. -/
theorem digitsValue_fixedDecimal (width n : Nat) :
    digitsValue (fixedDecimal width n) = n % 10 ^ width := by
  induction width generalizing n with
  | zero => simp [fixedDecimal, digitsValue, Nat.mod_one]
  | succ width ih =>
    rw [fixedDecimal, digitsValue_concat, ih, digitValue_digitChar (Nat.mod_lt n (by decide)),
      Nat.pow_succ', Nat.mod_mul]
    omega

theorem digitsValue_lt {t : Text} (h : ∀ c ∈ t, c.isDigit = true) :
    digitsValue t < 10 ^ t.length := by
  induction t using List.reverseRecOn with
  | nil => simp [digitsValue]
  | append_singleton t c ih =>
    have ht := ih fun d hd => h d (List.mem_append_left _ hd)
    have hc := digitValue_lt (h c (by simp))
    rw [digitsValue_concat, List.length_append, List.length_singleton, Nat.pow_succ]
    omega

/-- Digits are found again from their number and their width. -/
theorem fixedDecimal_digitsValue {width : Nat} {t : Text} (hlength : t.length = width)
    (h : ∀ c ∈ t, c.isDigit = true) : fixedDecimal width (digitsValue t) = t := by
  subst hlength
  induction t using List.reverseRecOn with
  | nil => rfl
  | append_singleton t c ih =>
    have ht := ih fun d hd => h d (List.mem_append_left _ hd)
    have hdigit := h c (by simp)
    have hc := digitValue_lt hdigit
    have hdiv : (10 * digitsValue t + digitValue c) / 10 = digitsValue t := by omega
    have hmod : (10 * digitsValue t + digitValue c) % 10 = digitValue c := by omega
    rw [digitsValue_concat, List.length_append, List.length_singleton, fixedDecimal, hdiv, hmod, ht,
      digitChar_digitValue hdigit]

/-! ## Decimal texts -/

@[simp] theorem digitsValue_decimal (n : Nat) : digitsValue (decimal n) = n :=
  Nat.ofDigitChars_ten_toDigits

theorem isDigit_of_mem_replicate_zero {zeros : Nat} {c : Char}
    (h : c ∈ List.replicate zeros '0') : c.isDigit = true := by
  rw [List.eq_of_mem_replicate h]
  decide

/-- Leading zeros do not count. -/
theorem digitsValue_zeros_append (zeros : Nat) (t : Text) :
    digitsValue (List.replicate zeros '0' ++ t) = digitsValue t := by
  have hzeros : digitsValue (List.replicate zeros '0') = 0 := by
    induction zeros with
    | zero => rfl
    | succ zeros ih => rw [List.replicate_succ', digitsValue_concat, ih]; rfl
  rw [digitsValue_append, hzeros, Nat.zero_mul, Nat.zero_add]

theorem decimal_of_isDigit {c : Char} (h : c.isDigit = true) : decimal (digitValue c) = [c] := by
  rw [decimal, Nat.toDigits_of_lt_base (digitValue_lt h), digitChar_digitValue h]

/-- Digits are the decimal text of their number behind leading zeros. -/
theorem exists_eq_zeros_append_decimal {t : Text} (hne : t ≠ [])
    (h : ∀ c ∈ t, c.isDigit = true) :
    ∃ zeros, t = List.replicate zeros '0' ++ decimal (digitsValue t) := by
  induction t using List.reverseRecOn with
  | nil => exact absurd rfl hne
  | append_singleton t c ih =>
    have hc := h c (by simp)
    have hdigit := decimal_of_isDigit hc
    rw [digitsValue_concat]
    by_cases ht : t = []
    · subst ht
      exact ⟨0, by simpa [digitsValue] using hdigit.symm⟩
    · obtain ⟨zeros, hzeros⟩ := ih ht fun d hd => h d (List.mem_append_left _ hd)
      rcases Nat.eq_zero_or_pos (digitsValue t) with hzero | hpos
      · -- Only zeros so far, and the last of them is a leading one as well.
        rw [hzero] at hzeros ⊢
        refine ⟨zeros + 1, ?_⟩
        rw [Nat.mul_zero, Nat.zero_add, hdigit, List.replicate_succ', hzeros]
        rfl
      · refine ⟨zeros, ?_⟩
        have happend : decimal (digitsValue t) ++ [c] =
            decimal (10 * digitsValue t + digitValue c) := by
          rw [← hdigit]
          exact Nat.toDigits_append_toDigits (by decide) hpos (digitValue_lt hc)
        rw [← happend, ← List.append_assoc, ← hzeros]

theorem takeWhile_decimal_append (n : Nat) {u : Text} (hu : ∀ c ∈ u.head?, c.isDigit = false) :
    (decimal n ++ u).takeWhile Char.isDigit = decimal n := by
  have hdigits : ∀ c ∈ decimal n, c.isDigit = true := fun c hc => isDigit_of_mem_decimal hc
  rw [List.takeWhile_append_of_pos hdigits]
  cases u with
  | nil => simp
  | cons c u => simp [hu c rfl]

theorem exists_decimal_eq_cons (n : Nat) : ∃ c t, decimal n = c :: t ∧ c.isDigit = true := by
  obtain ⟨c, t, hdecimal⟩ := List.exists_cons_of_ne_nil (Nat.toDigits_ne_nil (n := n) (b := 10))
  exact ⟨c, t, hdecimal, isDigit_of_mem_decimal (hdecimal ▸ List.mem_cons_self)⟩

/-- Before something else than a digit, a decimal text shows its number and where it ends. -/
theorem decimal_append_inj {m n : Nat} {r s : Text} (hr : ∀ c ∈ r.head?, c.isDigit = false)
    (hs : ∀ c ∈ s.head?, c.isDigit = false) (h : decimal m ++ r = decimal n ++ s) :
    m = n ∧ r = s := by
  have hdecimal : decimal m = decimal n := by
    rw [← takeWhile_decimal_append m hr, h, takeWhile_decimal_append n hs]
  refine ⟨?_, List.append_cancel_left (hdecimal ▸ h)⟩
  rw [← digitsValue_decimal m, hdecimal, digitsValue_decimal]

theorem decimal_append_ne_minus_cons (n : Nat) (r s : Text) : decimal n ++ r ≠ '-' :: s := by
  obtain ⟨c, t, hdecimal, hdigit⟩ := exists_decimal_eq_cons n
  rw [hdecimal]
  rintro ⟨⟩
  cases hdigit

theorem signedDecimal_append_inj {i j : Int} {r s : Text} (hr : ∀ c ∈ r.head?, c.isDigit = false)
    (hs : ∀ c ∈ s.head?, c.isDigit = false) (h : signedDecimal i ++ r = signedDecimal j ++ s) :
    i = j ∧ r = s := by
  cases i with
  | ofNat m =>
    cases j with
    | ofNat n =>
      obtain ⟨rfl, hrest⟩ := decimal_append_inj hr hs h
      exact ⟨rfl, hrest⟩
    | negSucc n => exact absurd h (decimal_append_ne_minus_cons m r _)
  | negSucc m =>
    cases j with
    | ofNat n => exact absurd h.symm (decimal_append_ne_minus_cons n s _)
    | negSucc n =>
      obtain ⟨hsucc, hrest⟩ := decimal_append_inj hr hs (List.cons.inj h).2
      exact ⟨congrArg Int.negSucc (Nat.succ.inj hsucc), hrest⟩

/-! ## Order -/

/-- Of two texts, parts of equal length are compared before what follows them. -/
theorem append_lt_append_iff {t u : Text} (h : t.length = u.length) (v w : Text) :
    t ++ v < u ++ w ↔ t < u ∨ t = u ∧ v < w := by
  induction t generalizing u with
  | nil =>
    obtain rfl := List.eq_nil_of_length_eq_zero h.symm
    simp
  | cons c t ih =>
    obtain ⟨d, u, rfl⟩ := List.exists_cons_of_length_eq_add_one h.symm
    have hlength : t.length = u.length := by simpa using h
    rw [List.cons_append, List.cons_append, List.cons_lt_cons_iff, List.cons_lt_cons_iff,
      ih hlength, List.cons.injEq]
    tauto

theorem mul_add_lt_mul_add_iff {a b p x y : Nat} (hx : x < p) (hy : y < p) :
    a * p + x < b * p + y ↔ a < b ∨ a = b ∧ x < y := by
  have hstep {m n : Nat} (h : m < n) : m * p + p ≤ n * p := by
    rw [← Nat.succ_mul]
    exact Nat.mul_le_mul_right p h
  rcases Nat.lt_trichotomy a b with h | rfl | h
  · have := hstep h
    omega
  · omega
  · have := hstep h
    omega

/-- Texts of as many digits are ordered as their numbers. -/
theorem lt_iff_digitsValue_lt {t u : Text} (hlength : t.length = u.length)
    (ht : ∀ c ∈ t, c.isDigit = true) (hu : ∀ c ∈ u, c.isDigit = true) :
    t < u ↔ digitsValue t < digitsValue u := by
  induction t generalizing u with
  | nil =>
    obtain rfl := List.eq_nil_of_length_eq_zero hlength.symm
    simp
  | cons c t ih =>
    obtain ⟨d, u, rfl⟩ := List.exists_cons_of_length_eq_add_one hlength.symm
    obtain ⟨hc, ht⟩ := List.forall_mem_cons.mp ht
    obtain ⟨hd, hu⟩ := List.forall_mem_cons.mp hu
    have hrest : t.length = u.length := by simpa using hlength
    have hvalue (e : Char) (v : Text) :
        digitsValue (e :: v) = digitValue e * 10 ^ v.length + digitsValue v := by
      simpa [digitsValue] using digitsValue_append [e] v
    have htail : digitsValue u < 10 ^ t.length := hrest ▸ digitsValue_lt hu
    have heq : c = d ↔ digitValue c = digitValue d :=
      ⟨congrArg digitValue, digitValue_injective hc hd⟩
    rw [List.cons_lt_cons_iff, ih hrest ht hu, hvalue, hvalue, ← hrest,
      mul_add_lt_mul_add_iff (digitsValue_lt ht) htail, lt_iff_digitValue_lt hc hd, heq]

theorem fixedDecimal_lt_iff {width m n : Nat} (hm : m < 10 ^ width) (hn : n < 10 ^ width) :
    fixedDecimal width m < fixedDecimal width n ↔ m < n := by
  rw [lt_iff_digitsValue_lt (by simp) (fun c hc => isDigit_of_mem_fixedDecimal hc)
    (fun c hc => isDigit_of_mem_fixedDecimal hc), digitsValue_fixedDecimal,
    digitsValue_fixedDecimal, Nat.mod_eq_of_lt hm, Nat.mod_eq_of_lt hn]

/-- Numbers of a fixed width are compared before what follows them. -/
theorem fixedDecimal_append_lt_iff {width m n : Nat} (hm : m < 10 ^ width) (hn : n < 10 ^ width)
    (t u : Text) :
    fixedDecimal width m ++ t < fixedDecimal width n ++ u ↔ m < n ∨ m = n ∧ t < u := by
  have heq : fixedDecimal width m = fixedDecimal width n ↔ m = n := by
    refine ⟨fun h => ?_, congrArg (fixedDecimal width)⟩
    have hvalues := congrArg digitsValue h
    rwa [digitsValue_fixedDecimal, digitsValue_fixedDecimal, Nat.mod_eq_of_lt hm,
      Nat.mod_eq_of_lt hn] at hvalues
  rw [append_lt_append_iff (by simp), fixedDecimal_lt_iff hm hn, heq]

end Text
end Listing
