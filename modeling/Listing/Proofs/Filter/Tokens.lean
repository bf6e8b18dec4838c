import Listing.Proofs.Filter.TopLevel
import Listing.Request.Reading

/-!
# The tokens of a batch

What splitting at the top level gives: texts that are not empty, have no blanks at their ends and
hide their commas in brackets, and of which only the last may leave a bracket open. Exactly these
lists come back when they are joined by commas and split again. A comma at depth zero divides the
work of the splitter, so the texts of an array are read like their join, unless one of them
leaves a bracket open before the next.
-/

namespace Listing
namespace Batch

open Text

/-- A list of texts that a batch can be split into. -/
structure AreTokens (ts : List Text) : Prop where
  ne_nil : ∀ t ∈ ts, t ≠ []
  trimmed : ∀ t ∈ ts, IsTrimmed t
  commasInside : ∀ t ∈ ts, CommasInside 0 t
  scan_eq : ∀ t ∈ ts.dropLast, scan 0 t = 0

/-! ## Blanks and brackets -/

theorem scan_of_isBlank {t : Text} (h : isBlank t = true) (depth : Nat) : scan depth t = depth :=
  scan_of_not_mem (not_mem_of_isBlank (by decide) h) (not_mem_of_isBlank (by decide) h) depth

theorem scan_trim (depth : Nat) (t : Text) : scan depth (trim t) = scan depth t := by
  obtain ⟨u, v, hu, hv, ht⟩ := exists_eq_append_trim t
  conv_rhs => rw [ht, scan_append, scan_append, scan_of_isBlank hu, scan_of_isBlank hv]

theorem commasInside_trim {depth : Nat} {t : Text} (h : CommasInside depth t) :
    CommasInside depth (trim t) := by
  obtain ⟨u, v, hu, _, ht⟩ := exists_eq_append_trim t
  intro a b hab
  have hsplit : t = (u ++ a) ++ ',' :: (b ++ v) := by
    rw [ht, hab]
    simp
  have hscan := h (u ++ a) (b ++ v) hsplit
  rwa [scan_append, scan_of_isBlank hu] at hscan

/-! ## Splitting -/

theorem splitTopLevel_of_commasInside {t : Text} (h : CommasInside 0 t) :
    splitTopLevel t = trimmedParts [t] := by
  rw [splitTopLevel, splitFrom_of_commasInside h]

theorem eq_trim_of_mem_splitTopLevel {t token : Text} (h : CommasInside 0 t)
    (htoken : token ∈ splitTopLevel t) : token = trim t := by
  rw [splitTopLevel_of_commasInside h, mem_trimmedParts_iff] at htoken
  obtain ⟨_, part, hpart, rfl⟩ := htoken
  rw [List.mem_singleton.mp hpart]

/-- A comma after a text that leaves no bracket open parts the tokens. -/
theorem splitTopLevel_append_comma {u : Text} (h : scan 0 u = 0) (v : Text) :
    splitTopLevel (u ++ ',' :: v) = splitTopLevel u ++ splitTopLevel v := by
  rw [splitTopLevel, splitFrom_append_comma h, trimmedParts_append, splitTopLevel, splitTopLevel]

section Tokens

-- A text without commas at depth zero has one token at most. Any other text is cut at such a comma,
-- and what holds of the tokens on both sides is put together.

variable {t token : Text}

theorem commasInside_of_mem_splitTopLevel (h : token ∈ splitTopLevel t) :
    CommasInside 0 token := by
  induction t using cut_induction ',' fun u => scan 0 u = 0 with
  | whole t hinside =>
    rw [eq_trim_of_mem_splitTopLevel hinside h]
    exact commasInside_trim hinside
  | cut u v hu ihu ihv =>
    rw [splitTopLevel_append_comma hu] at h
    exact (List.mem_append.mp h).elim ihu ihv

theorem scan_of_mem_splitTopLevel (ht : scan 0 t = 0) (h : token ∈ splitTopLevel t) :
    scan 0 token = 0 := by
  induction t using cut_induction ',' fun u => scan 0 u = 0 with
  | whole t hinside => rw [eq_trim_of_mem_splitTopLevel hinside h, scan_trim, ht]
  | cut u v hu ihu ihv =>
    have hv : scan 0 v = 0 := by
      rw [scan_append, hu] at ht
      exact ht
    rw [splitTopLevel_append_comma hu] at h
    exact (List.mem_append.mp h).elim (ihu hu) (ihv hv)

theorem scan_of_mem_dropLast_splitTopLevel (h : token ∈ (splitTopLevel t).dropLast) :
    scan 0 token = 0 := by
  induction t using cut_induction ',' fun u => scan 0 u = 0 with
  | whole t hinside =>
    rw [splitTopLevel_of_commasInside hinside] at h
    by_cases hblank : trim t = [] <;> simp [trimmedParts, hblank] at h
  | cut u v hu ihu ihv =>
    rw [splitTopLevel_append_comma hu, List.dropLast_append] at h
    -- Without tokens on the right, the last token is one of those on the left.
    split at h
    · exact ihu h
    · exact (List.mem_append.mp h).elim (scan_of_mem_splitTopLevel hu) ihv

end Tokens

theorem areTokens_splitTopLevel (t : Text) : AreTokens (splitTopLevel t) where
  ne_nil _ htoken := (mem_trimmedParts_iff.mp htoken).1
  trimmed token htoken := by
    obtain ⟨_, part, _, rfl⟩ := mem_trimmedParts_iff.mp htoken
    exact isTrimmed_trim part
  commasInside _ htoken := commasInside_of_mem_splitTopLevel htoken
  scan_eq _ htoken := scan_of_mem_dropLast_splitTopLevel htoken

/-! ## Joining -/

theorem splitTopLevel_join_of_areTokens {ts : List Text} (h : AreTokens ts) :
    splitTopLevel (join [','] ts) = ts := by
  rw [splitTopLevel_join_eq_trimmedParts h.commasInside h.scan_eq,
    trimmedParts_eq_self h.ne_nil h.trimmed]

theorem areTokens_iff {ts : List Text} : AreTokens ts ↔ splitTopLevel (join [','] ts) = ts := by
  constructor
  · exact splitTopLevel_join_of_areTokens
  · intro h
    rw [← h]
    exact areTokens_splitTopLevel _

/-- Texts are split one by one unless a bracket is left open between them. -/
theorem splitTopLevel_join_eq_flatMap {ts : List Text} (h : ∀ t ∈ ts.dropLast, scan 0 t = 0) :
    splitTopLevel (join [','] ts) = ts.flatMap splitTopLevel :=
  apply_join (fun u => scan 0 u = 0) rfl (fun _ v hu => splitTopLevel_append_comma hu v) h

theorem drafts_join {ts : List Text} (h : ∀ t ∈ ts.dropLast, scan 0 t = 0) :
    drafts [join [','] ts] = drafts ts := by
  rw [drafts, drafts, List.flatMap_singleton, splitTopLevel_join_eq_flatMap h]

/-- Splitting at the top level undoes joining by commas. It gives tokens, and the lists of tokens
are exactly those that come back from their join, so that nothing changes when what was split is
joined and split again. A comma at depth zero parts the tokens on its sides; so a batch in an
array is read like its texts joined by commas, when all but the last leave no bracket open. -/
theorem splitTopLevel_of_joined_tokens :
    (∀ t, AreTokens (splitTopLevel t)) ∧
      (∀ ts, AreTokens ts ↔ splitTopLevel (join [','] ts) = ts) ∧
      (∀ t, splitTopLevel (join [','] (splitTopLevel t)) = splitTopLevel t) ∧
      (∀ u v, scan 0 u = 0 →
        splitTopLevel (u ++ ',' :: v) = splitTopLevel u ++ splitTopLevel v) ∧
      ∀ (c : Config) (now : Instant) (p q : Params) (ts : List Text),
        (∀ t ∈ ts.dropLast, scan 0 t = 0) → p.get? c.batchKey = some (.many ts) →
          q.get? c.batchKey = some (.single (join [','] ts)) →
            Request.readFilters c now p = Request.readFilters c now q := by
  refine ⟨areTokens_splitTopLevel, fun _ => areTokens_iff, ?_, ?_, ?_⟩
  · exact fun t => splitTopLevel_join_of_areTokens (areTokens_splitTopLevel t)
  · exact fun _ v hu => splitTopLevel_append_comma hu v
  · intro c now p q ts hscan hp hq
    have hdrafts : Request.drafts c p = Request.drafts c q := by
      simp only [Request.drafts, hp, hq, RawValue.items, drafts_join hscan]
    rw [Request.readFilters, Request.readFilters, hdrafts]

/-- Closing brackets without an opening one, blank and empty texts, a token with hidden commas, and
a bracket that only the last text leaves open. -/
theorem splitTopLevel_of_untidy_array :
    let ts : List Text :=
      [" a:in:[1,[2,]],,b]:x ".toList, [], "c:eq:]y ,".toList, "d:in:[3,e:eq:4".toList]
    let tokens : List Text :=
      ["a:in:[1,[2,]]".toList, "b]:x".toList, "c:eq:]y".toList, "d:in:[3,e:eq:4".toList]
    let p : Params := ⟨[("filters".toList, .many ts)]⟩
    let q : Params := ⟨[("b".toList, .single "0".toList),
      ("filters".toList, .single (join [','] ts))]⟩
    let now : Instant := ⟨0, 0, by decide, by decide, by decide⟩
    (∀ t ∈ ts.dropLast, scan 0 t = 0) ∧ splitTopLevel (join [','] ts) = tokens ∧
      AreTokens tokens ∧ splitTopLevel (join [','] tokens) = tokens ∧
      Request.readFilters .default now p = Request.readFilters .default now q := by
  intro ts tokens p q now
  obtain ⟨htokens, hjoin, -, -, hread⟩ := splitTopLevel_of_joined_tokens
  have hscan : ∀ t ∈ ts.dropLast, scan 0 t = 0 := by decide
  have hsplit : splitTopLevel (join [','] ts) = tokens := by decide +kernel
  have hare : AreTokens tokens := hsplit ▸ htokens (join [','] ts)
  exact ⟨hscan, hsplit, hare, (hjoin tokens).mp hare,
    hread .default now p q ts hscan (by decide) (by decide)⟩

end Batch
end Listing
