import Mathlib.Computability.Language

/-!
# The pattern language of `grep`

The meaning of the patterns of `user/grep.c`, stated without its matcher.  A pattern is a
sequence of items, each an atom (a literal byte, or `.` for any byte) that may be followed by
`*`, which repeats it zero or more times.  A leading `^` anchors a match at the start of the text
and a trailing `$` at its end; `^` and `$` anywhere else, and a `*` that follows no atom, are
literal bytes.  Items are read from the left, so `x**` is `x*` followed by a literal `*`.

* `Pattern.parse` : the pattern a string denotes;
* `Pattern.lang` : the words of its items, as a `Language`;
* `Pattern.Accepts` : the text has a substring in that language, a prefix when the pattern is
  anchored at the start and a suffix when it is anchored at the end.

`Lead L stop t` (the text begins with a word of `L`, and is that word when `stop`) is the form in
which the matcher's specification is proved; `lead_one`, `lead_atomLang_mul` and
`lead_kstar_mul` unfold it one item at a time.
-/

namespace Xv6Net

namespace Grep

open Computability

/-- An atom: a literal byte or `.`. -/
inductive Atom where
  | lit (c : UInt8)
  | any
  deriving DecidableEq, Repr

namespace Atom

/-- The atom a pattern byte stands for. -/
def ofByte (c : UInt8) : Atom := if c = 46 then .any else .lit c

/-- Whether an atom matches a text byte. -/
def accepts : Atom → UInt8 → Bool
  | .lit c, b => b == c
  | .any, _ => true

theorem ofByte_accepts (c b : UInt8) : (ofByte c).accepts b = true ↔ b = c ∨ c = 46 := by
  unfold ofByte
  split_ifs with h <;> simp [accepts, h]

end Atom

/-- An atom, and whether a `*` follows it. -/
structure Item where
  atom : Atom
  star : Bool
  deriving DecidableEq, Repr

/-- The one-byte words an atom matches. -/
def atomLang (a : Atom) : Language UInt8 := {w | ∃ b, a.accepts b = true ∧ w = [b]}

/-- The words of an item: one byte, or any number of bytes, that its atom accepts. -/
def Item.lang (i : Item) : Language UInt8 := if i.star then (atomLang i.atom)∗ else atomLang i.atom

/-- The items of a pattern body, read from the left: an atom takes the `*` right after it. -/
def toItems : List UInt8 → List Item
  | [] => []
  | c :: 42 :: p => ⟨.ofByte c, true⟩ :: toItems p
  | c :: p => ⟨.ofByte c, false⟩ :: toItems p

/-- A body is anchored at the end when its last byte is `$`. -/
def endAnchored (b : List UInt8) : Bool := b.getLast? == some 36

/-- The items of a body, without its anchoring `$`. -/
def bodyItems (b : List UInt8) : List Item := toItems (if endAnchored b then b.dropLast else b)

/-- The words of a sequence of items. -/
def itemsLang (is : List Item) : Language UInt8 := (is.map Item.lang).prod

/-- A parsed pattern. -/
structure Pattern where
  start : Bool
  items : List Item
  stop : Bool
  deriving DecidableEq, Repr

namespace Pattern

/-- The pattern a string denotes: a leading `^` anchors at the start, and the rest is its body. -/
def parse : List UInt8 → Pattern
  | 94 :: b => ⟨true, bodyItems b, endAnchored b⟩
  | b => ⟨false, bodyItems b, endAnchored b⟩

/-- The words of a pattern's items. -/
def lang (P : Pattern) : Language UInt8 := itemsLang P.items

/-- The text has a substring in the pattern's language: a prefix when the pattern is anchored at
the start, a suffix when it is anchored at the end. -/
def Accepts (P : Pattern) (t : List UInt8) : Prop :=
  ∃ u v w, t = u ++ v ++ w ∧ v ∈ P.lang ∧ (P.start → u = []) ∧ (P.stop → w = [])

end Pattern

/-! ### Words at the start of a text -/

section Lead

variable {α : Type*}

/-- `t` begins with a word of `L`, and is that word when `stop`. -/
def Lead (L : Language α) (stop : Bool) (t : List α) : Prop :=
  ∃ v w, t = v ++ w ∧ v ∈ L ∧ (stop → w = [])

variable {L M : Language α} {stop : Bool} {t : List α}

theorem lead_one : Lead 1 stop t ↔ (stop → t = []) := by
  simp only [Lead, Language.mem_one]
  constructor
  · rintro ⟨v, w, rfl, rfl, hw⟩
    simpa using hw
  · intro h
    exact ⟨[], t, rfl, rfl, h⟩

theorem lead_add : Lead (L + M) stop t ↔ Lead L stop t ∨ Lead M stop t := by
  simp only [Lead, Language.mem_add]
  constructor
  · rintro ⟨v, w, ht, hv | hv, hw⟩
    · exact .inl ⟨v, w, ht, hv, hw⟩
    · exact .inr ⟨v, w, ht, hv, hw⟩
  · rintro (⟨v, w, ht, hv, hw⟩ | ⟨v, w, ht, hv, hw⟩)
    · exact ⟨v, w, ht, .inl hv, hw⟩
    · exact ⟨v, w, ht, .inr hv, hw⟩

/-- A starred item either matches nothing or takes one more word: `A∗ * L = L + A * (A∗ * L)`. -/
theorem lead_kstar_mul (A : Language α) :
    Lead (A∗ * L) stop t ↔ Lead L stop t ∨ Lead (A * (A∗ * L)) stop t := by
  conv_lhs => rw [← Language.one_add_self_mul_kstar_eq_kstar]
  rw [add_mul, one_mul, mul_assoc, lead_add]

end Lead

theorem mem_atomLang {a : Atom} {w : List UInt8} :
    w ∈ atomLang a ↔ ∃ b, a.accepts b = true ∧ w = [b] := Iff.rfl

theorem lead_atomLang_mul {a : Atom} {L : Language UInt8} {stop : Bool} {t : List UInt8} :
    Lead (atomLang a * L) stop t ↔ ∃ b t', t = b :: t' ∧ a.accepts b = true ∧ Lead L stop t' := by
  simp only [Lead, Language.mem_mul, mem_atomLang]
  constructor
  · rintro ⟨_, w, rfl, ⟨_, ⟨b, hb, rfl⟩, v, hv, rfl⟩, hw⟩
    exact ⟨b, v ++ w, rfl, hb, v, w, rfl, hv, hw⟩
  · rintro ⟨b, _, rfl, hb, v, w, rfl, hv, hw⟩
    exact ⟨b :: v, w, rfl, ⟨[b], ⟨b, hb, rfl⟩, v, hv, rfl⟩, hw⟩

theorem lead_atomLang_mul_cons {a : Atom} {L : Language UInt8} {stop : Bool} {b : UInt8}
    {t : List UInt8} : Lead (atomLang a * L) stop (b :: t) ↔ a.accepts b = true ∧ Lead L stop t := by
  rw [lead_atomLang_mul]
  constructor
  · rintro ⟨_, _, ⟨rfl, rfl⟩, hb, hl⟩
    exact ⟨hb, hl⟩
  · rintro ⟨hb, hl⟩
    exact ⟨b, t, rfl, hb, hl⟩

theorem not_lead_atomLang_mul_nil {a : Atom} {L : Language UInt8} {stop : Bool} :
    ¬ Lead (atomLang a * L) stop [] := by
  rw [lead_atomLang_mul]
  rintro ⟨_, _, h, _⟩
  exact List.cons_ne_nil _ _ h.symm

/-- A pattern accepts a text when the text has a suffix (all of it, when anchored at the start)
that begins with a word of the pattern. -/
theorem Pattern.accepts_iff (P : Pattern) (t : List UInt8) :
    P.Accepts t ↔ ∃ u t', t = u ++ t' ∧ (P.start → u = []) ∧ Lead P.lang P.stop t' := by
  constructor
  · rintro ⟨u, v, w, rfl, hv, hu, hw⟩
    exact ⟨u, v ++ w, List.append_assoc u v w, hu, v, w, rfl, hv, hw⟩
  · rintro ⟨u, _, rfl, hu, v, w, rfl, hv, hw⟩
    exact ⟨u, v, w, (List.append_assoc u v w).symm, hv, hu, hw⟩

/-! ### The body, item by item -/

@[simp] theorem itemsLang_nil : itemsLang [] = 1 := rfl

@[simp] theorem itemsLang_cons (i : Item) (is : List Item) :
    itemsLang (i :: is) = i.lang * itemsLang is := by
  simp [itemsLang]

@[simp] theorem Item.lang_star (a : Atom) : Item.lang ⟨a, true⟩ = (atomLang a)∗ := rfl

@[simp] theorem Item.lang_lit (a : Atom) : Item.lang ⟨a, false⟩ = atomLang a := rfl

theorem toItems_cons {c : UInt8} {p : List UInt8} (h : ∀ q, p ≠ 42 :: q) :
    toItems (c :: p) = ⟨.ofByte c, false⟩ :: toItems p := by
  cases p with
  | nil => rfl
  | cons d q => exact toItems.eq_3 c (d :: q) (fun q hq => h q hq)

/-- Dropping the last byte keeps a body from starting with `*`. -/
theorem dropLast_ne_star {p : List UInt8} (h : ∀ q, p ≠ 42 :: q) :
    ∀ q, p.dropLast ≠ 42 :: q := by
  intro q hq
  cases p with
  | nil => simp at hq
  | cons d r =>
    have hp := List.dropLast_append_getLast (List.cons_ne_nil d r)
    rw [hq] at hp
    exact h _ hp.symm

@[simp] theorem endAnchored_nil : endAnchored [] = false := rfl

@[simp] theorem endAnchored_dollar : endAnchored [36] = true := rfl

@[simp] theorem bodyItems_nil : bodyItems [] = [] := rfl

@[simp] theorem bodyItems_dollar : bodyItems [36] = [] := rfl

theorem endAnchored_cons {c : UInt8} {p : List UInt8} (hp : p ≠ []) :
    endAnchored (c :: p) = endAnchored p := by
  obtain ⟨d, q, rfl⟩ := List.exists_cons_of_ne_nil hp
  simp [endAnchored, List.getLast?_cons_cons]

theorem endAnchored_star (c : UInt8) (p : List UInt8) :
    endAnchored (c :: 42 :: p) = endAnchored p := by
  rcases eq_or_ne p [] with rfl | hp
  · rfl
  · rw [endAnchored_cons (List.cons_ne_nil _ _), endAnchored_cons hp]

/-- A byte that is neither starred nor the anchoring `$` leaves the anchoring to the rest. -/
theorem endAnchored_lit {c : UInt8} {p : List UInt8} (h : c = 36 → p ≠ []) :
    endAnchored (c :: p) = endAnchored p := by
  rcases eq_or_ne p [] with rfl | hp
  · have hc : c ≠ 36 := fun hc => h hc rfl
    simp [endAnchored, hc]
  · exact endAnchored_cons hp

theorem bodyItems_star (c : UInt8) (p : List UInt8) :
    bodyItems (c :: 42 :: p) = ⟨.ofByte c, true⟩ :: bodyItems p := by
  unfold bodyItems
  rw [endAnchored_star]
  split_ifs with h
  · -- an anchored `p` is not empty, and the `$` dropped is its last byte
    have hp : p ≠ [] := by rintro rfl; simp at h
    rw [List.dropLast_cons_of_ne_nil (List.cons_ne_nil _ _), List.dropLast_cons_of_ne_nil hp]
    rfl
  · rfl

theorem bodyItems_lit {c : UInt8} {p : List UInt8} (h1 : ∀ q, p ≠ 42 :: q) (h2 : c = 36 → p ≠ []) :
    bodyItems (c :: p) = ⟨.ofByte c, false⟩ :: bodyItems p := by
  unfold bodyItems
  rw [endAnchored_lit h2]
  split_ifs with h
  · have hp : p ≠ [] := by rintro rfl; simp at h
    rw [List.dropLast_cons_of_ne_nil hp, toItems_cons (dropLast_ne_star h1)]
  · exact toItems_cons h1

end Grep

end Xv6Net
