import Listing.Json
import Listing.Proofs.Text.Digits

/-!
# JSON texts are unambiguous

The text of a JSON value is read back from left to right: its first character shows the kind of the
value, an escape shows its character, and a value shows where it ends as soon as something else than
a digit follows. So a value whose numbers are integers is determined by its text, whatever its
strings hold and however deep it is.
-/

namespace Listing
namespace Json

/-- Every number in the value is an integer. -/
inductive IsIntegral : Json → Prop
  | null : IsIntegral null
  | bool (b : Bool) : IsIntegral (bool b)
  | integer (i : Int) : IsIntegral (integer i)
  | text (t : Text) : IsIntegral (text t)
  | array (items : List Json) (h : ∀ item ∈ items, IsIntegral item) : IsIntegral (array items)
  | object (members : List (Text × Json)) (h : ∀ member ∈ members, IsIntegral member.2) :
      IsIntegral (object members)

/-- A text can follow a value when it does not go on with digits. -/
def Follows (r : Text) : Prop := ∀ c ∈ r.head?, c.isDigit = false

theorem follows_cons {c : Char} (hc : c.isDigit = false) (r : Text) : Follows (c :: r) := by
  intro d hd
  obtain rfl := Option.some.inj hd
  exact hc

/-! ## Strings -/

/-- The characters with a short escape, and the letters that stand for them. -/
def shortEscapes : List (Char × Char) :=
  [('"', '"'), ('\\', '\\'), ('\x08', 'b'), ('\x0c', 'f'), ('\n', 'n'), ('\r', 'r'), ('\t', 't')]

/-- A character has a short escape, four digits, or stands for itself. -/
theorem escapeChar_cases (c : Char) :
    (∃ letter, (c, letter) ∈ shortEscapes ∧ escapeChar c = ['\\', letter]) ∨
      (c.toNat < 0x20 ∧ escapeChar c =
        ['\\', 'u', '0', '0', Nat.digitChar (c.toNat / 16), Nat.digitChar (c.toNat % 16)]) ∨
      c ≠ '"' ∧ c ≠ '\\' ∧ escapeChar c = [c] := by
  by_cases hshort : ∃ letter, (c, letter) ∈ shortEscapes
  · obtain ⟨letter, hletter⟩ := hshort
    have hall : ∀ escape ∈ shortEscapes, escapeChar escape.1 = ['\\', escape.2] := by decide
    exact .inl ⟨letter, hletter, hall _ hletter⟩
  · have hne : ∀ escape ∈ shortEscapes, c ≠ escape.1 := fun escape hescape heq =>
      hshort ⟨escape.2, heq ▸ hescape⟩
    simp only [shortEscapes, List.forall_mem_cons] at hne
    obtain ⟨hquote, hbackslash, hb, hf, hn, hr, ht, -⟩ := hne
    rw [escapeChar, if_neg hquote, if_neg hbackslash, if_neg hb, if_neg hf, if_neg hn, if_neg hr,
      if_neg ht]
    by_cases hcontrol : c.toNat < 0x20
    · exact .inr (.inl ⟨hcontrol, if_pos hcontrol⟩)
    · exact .inr (.inr ⟨hquote, hbackslash, if_neg hcontrol⟩)

theorem letter_ne_u {c letter : Char} (h : (c, letter) ∈ shortEscapes) : letter ≠ 'u' := by
  have hall : ∀ escape ∈ shortEscapes, escape.2 ≠ 'u' := by decide
  exact hall _ h

theorem eq_of_letter_eq {c d letter : Char} (hc : (c, letter) ∈ shortEscapes)
    (hd : (d, letter) ∈ shortEscapes) : c = d := by
  have hall : ∀ escape ∈ shortEscapes, ∀ other ∈ shortEscapes,
      escape.2 = other.2 → escape.1 = other.1 := by decide
  exact hall _ hc _ hd rfl

theorem digitChar_inj {m n : Nat} (hm : m < 16) (hn : n < 16)
    (h : Nat.digitChar m = Nat.digitChar n) : m = n := by
  have hall : ∀ m n : Fin 16, Nat.digitChar m = Nat.digitChar n → m = n := by decide
  exact congrArg Fin.val (hall ⟨m, hm⟩ ⟨n, hn⟩ h)

theorem escapeChar_append_inj {c d : Char} {r s : Text}
    (h : escapeChar c ++ r = escapeChar d ++ s) : c = d ∧ r = s := by
  rcases escapeChar_cases c with ⟨letter, hc, heq⟩ | ⟨hc, heq⟩ | ⟨-, hc, heq⟩ <;>
    rcases escapeChar_cases d with ⟨letter', hd, heq'⟩ | ⟨hd, heq'⟩ | ⟨-, hd, heq'⟩ <;>
    simp only [heq, heq', List.cons_append, List.nil_append, List.cons.injEq, true_and] at h
  · obtain ⟨rfl, hrest⟩ := h
    exact ⟨eq_of_letter_eq hc hd, hrest⟩
  · exact absurd h.1 (letter_ne_u hc)
  · exact absurd h.1.symm hd
  · exact absurd h.1.symm (letter_ne_u hd)
  · obtain ⟨hhigh, hlow, hrest⟩ := h
    have hhigh := digitChar_inj (by omega) (by omega) hhigh
    have hlow := digitChar_inj (by omega) (by omega) hlow
    exact ⟨Char.toNat_inj.mp (by omega), hrest⟩
  · exact absurd h.1.symm hd
  · exact absurd h.1 hc
  · exact absurd h.1 hc
  · exact h

theorem exists_escapeChar_eq_cons (c : Char) : ∃ d t, escapeChar c = d :: t ∧ d ≠ '"' := by
  rcases escapeChar_cases c with ⟨letter, -, heq⟩ | ⟨-, heq⟩ | ⟨hc, -, heq⟩
  · exact ⟨_, _, heq, by decide⟩
  · exact ⟨_, _, heq, by decide⟩
  · exact ⟨_, _, heq, hc⟩

/-- A string ends at the first quote that is not part of an escape. -/
theorem quote_append_inj {t u r s : Text} (h : quote t ++ r = quote u ++ s) : t = u ∧ r = s := by
  have hquote {d : Char} {v w x : Text} : '"' :: v ≠ escapeChar d ++ w ++ '"' :: x := by
    obtain ⟨b, rest, heq, hb⟩ := exists_escapeChar_eq_cons d
    rw [heq]
    exact fun h => hb (List.cons.inj h).1.symm
  simp only [quote, List.append_assoc, List.cons_append, List.cons.injEq, true_and,
    List.nil_append] at h
  induction t generalizing u with
  | nil =>
    cases u with
    | nil => exact ⟨rfl, (List.cons.inj h).2⟩
    | cons d u => exact absurd h hquote
  | cons c t ih =>
    cases u with
    | nil => exact absurd h.symm hquote
    | cons d u =>
      rw [List.flatMap_cons, List.flatMap_cons, List.append_assoc, List.append_assoc] at h
      obtain ⟨rfl, hrest⟩ := escapeChar_append_inj h
      obtain ⟨rfl, hrs⟩ := ih hrest
      exact ⟨rfl, hrs⟩

/-! ## Kinds -/

inductive Kind where
  | null
  | bool
  | number
  | text
  | array
  | object
  deriving DecidableEq, Repr

def kind : Json → Kind
  | null => .null
  | bool _ => .bool
  | integer _ => .number
  | decimal _ => .number
  | text _ => .text
  | array _ => .array
  | object _ => .object

/-- The kind of value that a text with this first character is of. -/
def Kind.ofChar? (c : Char) : Option Kind :=
  if c = 'n' then some null
  else if c = 't' ∨ c = 'f' then some bool
  else if c = '-' ∨ c.isDigit then some number
  else if c = '"' then some text
  else if c = '[' then some array
  else if c = '{' then some object
  else none

theorem Kind.ofChar?_of_isDigit {c : Char} (h : c.isDigit = true) : ofChar? c = some number := by
  have hne {d : Char} (hd : d.isDigit = false) : c ≠ d := fun heq => by
    rw [heq, hd] at h
    cases h
  have htf : ¬(c = 't' ∨ c = 'f') := not_or.mpr ⟨hne (by decide), hne (by decide)⟩
  rw [ofChar?, if_neg (hne (by decide)), if_neg htf, if_pos (.inr h)]

/-- The first character of a text shows the kind of its value. -/
theorem exists_render_eq_cons {j : Json} (hj : j.IsIntegral) :
    ∃ c t, j.render = c :: t ∧ Kind.ofChar? c = some j.kind := by
  cases hj with
  | null => exact ⟨_, _, rfl, rfl⟩
  | bool b => cases b <;> exact ⟨_, _, rfl, rfl⟩
  | integer i =>
    cases i with
    | ofNat n =>
      obtain ⟨c, t, hdecimal, hdigit⟩ := Text.exists_decimal_eq_cons n
      exact ⟨c, t, hdecimal, Kind.ofChar?_of_isDigit hdigit⟩
    | negSucc n => exact ⟨_, _, rfl, rfl⟩
  | text t => exact ⟨_, _, rfl, rfl⟩
  | array items _ => exact ⟨_, _, rfl, rfl⟩
  | object members _ => exact ⟨_, _, rfl, rfl⟩

theorem kind_eq_of_render_append {j k : Json} (hj : j.IsIntegral) (hk : k.IsIntegral) {r s : Text}
    (h : j.render ++ r = k.render ++ s) : j.kind = k.kind := by
  obtain ⟨c, t, hct, hc⟩ := exists_render_eq_cons hj
  obtain ⟨d, u, hdu, hd⟩ := exists_render_eq_cons hk
  rw [hct, hdu] at h
  obtain rfl := (List.cons.inj h).1
  exact Option.some.inj (hc.symm.trans hd)

/-! ## Items and members -/

/-- The texts after the first one of a list, each behind its comma. -/
def behindCommas (ts : List Text) : Text := ts.flatMap fun t => ',' :: t

theorem join_cons_eq (t : Text) (ts : List Text) :
    Text.join [','] (t :: ts) = t ++ behindCommas ts := by
  induction ts generalizing t with
  | nil => simp [Text.join, behindCommas]
  | cons u ts ih => rw [Text.join, ih]; simp [behindCommas]

theorem follows_behindCommas {close : Char} (hclose : close.isDigit = false) (ts : List Text)
    (r : Text) : Follows (behindCommas ts ++ close :: r) := by
  cases ts with
  | nil => exact follows_cons hclose r
  | cons t ts => exact follows_cons (by decide) _

section Separated

variable {α : Type} {f : α → Text} {close : Char} (hclose : close ≠ ',')
  (hdigit : close.isDigit = false)

include hclose hdigit

/-- Items behind commas are read back one by one, up to the character that closes them. -/
theorem behindCommas_append_inj {as bs : List α} {r s : Text}
    (hinj : ∀ a ∈ as, ∀ b ∈ bs, ∀ r s : Text, Follows r → Follows s → f a ++ r = f b ++ s →
      a = b ∧ r = s)
    (h : behindCommas (as.map f) ++ close :: r = behindCommas (bs.map f) ++ close :: s) :
    as = bs ∧ r = s := by
  induction as generalizing bs with
  | nil =>
    cases bs with
    | nil => exact ⟨rfl, (List.cons.inj h).2⟩
    | cons b bs => exact absurd (List.cons.inj h).1 hclose
  | cons a as ih =>
    cases bs with
    | nil => exact absurd (List.cons.inj h).1.symm hclose
    | cons b bs =>
      have hfirst : f a ++ (behindCommas (as.map f) ++ close :: r) =
          f b ++ (behindCommas (bs.map f) ++ close :: s) := by
        simpa [behindCommas] using h
      obtain ⟨rfl, hrest⟩ := hinj a List.mem_cons_self b List.mem_cons_self _ _
        (follows_behindCommas hdigit _ r) (follows_behindCommas hdigit _ s) hfirst
      obtain ⟨rfl, hrs⟩ := ih (fun a ha b hb => hinj a (List.mem_cons_of_mem _ ha) b
        (List.mem_cons_of_mem _ hb)) hrest
      exact ⟨rfl, hrs⟩

theorem join_append_inj {as bs : List α} {r s : Text}
    (hinj : ∀ a ∈ as, ∀ b ∈ bs, ∀ r s : Text, Follows r → Follows s → f a ++ r = f b ++ s →
      a = b ∧ r = s)
    (has : ∀ a ∈ as, ∀ r s : Text, close :: r ≠ f a ++ s)
    (hbs : ∀ b ∈ bs, ∀ r s : Text, close :: r ≠ f b ++ s)
    (h : Text.join [','] (as.map f) ++ close :: r = Text.join [','] (bs.map f) ++ close :: s) :
    as = bs ∧ r = s := by
  cases as with
  | nil =>
    cases bs with
    | nil => exact ⟨rfl, (List.cons.inj h).2⟩
    | cons b bs =>
      rw [List.map_cons, join_cons_eq, List.append_assoc] at h
      exact absurd h (hbs b List.mem_cons_self _ _)
  | cons a as =>
    cases bs with
    | nil =>
      rw [List.map_cons, join_cons_eq, List.append_assoc] at h
      exact absurd h.symm (has a List.mem_cons_self _ _)
    | cons b bs =>
      -- With a comma before the first items as well, both lists are behind commas.
      refine behindCommas_append_inj hclose hdigit hinj ?_
      simpa [join_cons_eq, behindCommas] using h

end Separated

theorem render_array (items : List Json) :
    (array items).render = '[' :: renderItems items ++ [']'] := rfl

theorem render_object (members : List (Text × Json)) :
    (object members).render = '{' :: renderMembers members ++ ['}'] := rfl

theorem renderItems_eq_join (items : List Json) :
    renderItems items = Text.join [','] (items.map render) := by
  induction items with
  | nil => rfl
  | cons item items ih =>
    cases items with
    | nil => rfl
    | cons next items =>
      rw [renderItems, ih]
      simp [Text.join]

def renderMember (member : Text × Json) : Text := quote member.1 ++ ':' :: render member.2

/-- A name is told before its value, which is told by what follows the colon. -/
theorem renderMember_append_inj {a b : Text × Json} {r s : Text}
    (hvalue : a.2.render ++ r = b.2.render ++ s → a.2 = b.2 ∧ r = s)
    (h : renderMember a ++ r = renderMember b ++ s) : a = b ∧ r = s := by
  simp only [renderMember, List.append_assoc, List.cons_append] at h
  obtain ⟨hname, hrest⟩ := quote_append_inj h
  obtain ⟨hvalue, hrs⟩ := hvalue (List.cons.inj hrest).2
  exact ⟨Prod.ext hname hvalue, hrs⟩

theorem renderMembers_eq_join (members : List (Text × Json)) :
    renderMembers members = Text.join [','] (members.map renderMember) := by
  induction members with
  | nil => rfl
  | cons member members ih =>
    cases members with
    | nil => rfl
    | cons next members =>
      rw [renderMembers, ih]
      simp [Text.join, renderMember]

/-! ## Values -/

theorem eq_of_render_bool_append {b c : Bool} {r s : Text}
    (h : (bool b).render ++ r = (bool c).render ++ s) : b = c := by
  cases b with
  | true =>
    cases c with
    | true => rfl
    | false => exact absurd (List.cons.inj h).1 (by decide)
  | false =>
    cases c with
    | true => exact absurd (List.cons.inj h).1 (by decide)
    | false => rfl

theorem close_cons_ne_render_append {close : Char} (hclose : Kind.ofChar? close = none) {j : Json}
    (hj : j.IsIntegral) (r s : Text) : close :: r ≠ j.render ++ s := by
  obtain ⟨c, t, hct, hc⟩ := exists_render_eq_cons hj
  rw [hct]
  rintro ⟨⟩
  rw [hclose] at hc
  cases hc

/-- The text of a value shows the value and where it ends. -/
theorem render_append_inj {j k : Json} (hj : j.IsIntegral) (hk : k.IsIntegral) {r s : Text}
    (hr : Follows r) (hs : Follows s) (h : j.render ++ r = k.render ++ s) : j = k ∧ r = s := by
  have hkind := kind_eq_of_render_append hj hk h
  induction hj generalizing k r s with
  | null =>
    cases hk with
    | null => exact ⟨rfl, List.append_cancel_left h⟩
    | _ => cases hkind
  | bool b =>
    cases hk with
    | bool b' =>
      obtain rfl := eq_of_render_bool_append h
      exact ⟨rfl, List.append_cancel_left h⟩
    | _ => cases hkind
  | integer i =>
    cases hk with
    | integer i' =>
      obtain ⟨rfl, hrest⟩ := Text.signedDecimal_append_inj hr hs h
      exact ⟨rfl, hrest⟩
    | _ => cases hkind
  | text t =>
    cases hk with
    | text u =>
      obtain ⟨rfl, hrest⟩ := quote_append_inj h
      exact ⟨rfl, hrest⟩
    | _ => cases hkind
  | array items hitems ih =>
    cases hk with
    | array items' hitems' =>
      have hjoin : Text.join [','] (items.map render) ++ ']' :: r =
          Text.join [','] (items'.map render) ++ ']' :: s := by
        simpa [render_array, renderItems_eq_join] using h
      obtain ⟨rfl, hrest⟩ := join_append_inj (by decide) (by decide)
        (fun a ha b hb _ _ hr hs h => ih a ha (hitems' b hb) hr hs h
          (kind_eq_of_render_append (hitems a ha) (hitems' b hb) h))
        (fun a ha => close_cons_ne_render_append (by decide) (hitems a ha))
        (fun b hb => close_cons_ne_render_append (by decide) (hitems' b hb)) hjoin
      exact ⟨rfl, hrest⟩
    | _ => cases hkind
  | object members hmembers ih =>
    cases hk with
    | object members' hmembers' =>
      have hjoin : Text.join [','] (members.map renderMember) ++ '}' :: r =
          Text.join [','] (members'.map renderMember) ++ '}' :: s := by
        simpa [render_object, renderMembers_eq_join] using h
      have hquote {member : Text × Json} {r s : Text} : '}' :: r ≠ renderMember member ++ s := by
        rintro ⟨⟩
      obtain ⟨rfl, hrest⟩ := join_append_inj (by decide) (by decide)
        (fun a ha b hb _ _ hr hs h => renderMember_append_inj (fun h =>
          ih a ha (hmembers' b hb) hr hs h
            (kind_eq_of_render_append (hmembers a ha) (hmembers' b hb) h)) h)
        (fun _ _ _ _ => hquote) (fun _ _ _ _ => hquote) hjoin
      exact ⟨rfl, hrest⟩
    | _ => cases hkind

/-- Values with the same text are the same. -/
theorem render_injective_of_isIntegral {j k : Json} (hj : j.IsIntegral) (hk : k.IsIntegral)
    (h : j.render = k.render) : j = k := by
  have hend : Follows [] := fun c hc => by cases hc
  exact (render_append_inj hj hk hend hend (by rw [h])).1

end Json
end Listing
