import Listing.Proofs.Time.DateText
import Listing.Value.Literal

/-!
# What scalars are read as

Tokens of the clock, dates, words and plain texts do not overlap: no token and no word has a dash,
a word is no token, and a text that is neither a token nor a date nor a word stands for itself.
-/

namespace Listing

/-- No token of the clock is written with a dash. -/
theorem Dynamic.ofToken?_eq_none_of_dash {t : Text} (h : '-' ∈ t) : ofToken? t = none := by
  have htokens : ∀ token ∈ tokens, '-' ∉ token.1 := by decide
  refine List.lookup_eq_none_iff.mpr fun token htoken => bne_iff_ne.mpr ?_
  rintro rfl
  exact htokens token htoken h

namespace Value

/-- The words that are not read as texts. -/
def words : List Text := ["true".toList, "false".toList, "null".toList]

/-- A text that stands for itself: no token of the clock, no date and no word. -/
def IsPlain (t : Text) : Prop := Dynamic.ofToken? t = none ∧ Date.read? t = none ∧ t ∉ words

instance (t : Text) : Decidable (IsPlain t) :=
  inferInstanceAs (Decidable (Dynamic.ofToken? t = none ∧ Date.read? t = none ∧ t ∉ words))

theorem ofLiteral_of_isPlain {t : Text} (h : IsPlain t) : ofLiteral t = text t := by
  obtain ⟨_, hdate, hwords⟩ := h
  simp only [words, List.mem_cons, List.not_mem_nil, or_false, not_or] at hwords
  obtain ⟨htrue, hfalse, hnull⟩ := hwords
  simp only [ofLiteral, hdate, Option.bind_none, htrue, hfalse, hnull, if_false]

theorem ofLiteral_text_date {i : Instant} (hmidnight : i.IsMidnight) (hfirst : 0 ≤ i.year)
    (hlast : i.year ≤ 9999) : ofLiteral i.date.text = instant i := by
  simp only [ofLiteral, Date.read?_text hfirst hlast, Option.bind_some,
    Instant.midnight?_date hmidnight]

theorem read_of_mem_words {t : Text} (h : t ∈ words) (now : Instant) :
    read now t = .ok (ofLiteral t) := by
  have htokens : ∀ t ∈ words, Dynamic.ofToken? t = none := by decide +kernel
  exact read_of_ofToken?_eq_none (htokens t h) now

end Value

end Listing
