import Xv6Net.Grep.Pattern

/-!
# The matcher of `grep` (`user/grep.c`)

`match`, `matchhere` and `matchstar` are the backtracking matcher that `grep` runs on each line.
A C string is the list of its bytes before the NUL, so `re[1] == '*'` is a second byte `42`,
and `re[0] == '$' && re[1] == '\0'` is the pattern `[36]`.  The mutual recursion of
`matchhere` and `matchstar` is total: each call shortens the pattern, or keeps it and shortens
the text, or goes from `matchstar` to `matchhere` on the same pattern and text.

* `matchhere_spec` : `matchhere re` accepts exactly the texts that begin with a word of the body
  `re` (and are that word when `re` ends with `$`), and `matchstar c re` those that begin with a
  run of bytes that `c` accepts followed by such a word;
* `grepMatch_iff` : `match(re, text)` is `Pattern.Accepts` of the pattern `re` denotes.
-/

namespace Xv6Net

namespace Grep

open Computability

mutual

/-- `matchhere(re, text)`: search for `re` at the beginning of `text`. -/
def matchhere : List UInt8 → List UInt8 → Bool
  | [], _ => true
  | c :: 42 :: re, text => matchstar c re text
  | [36], text => text.isEmpty
  | c :: re, b :: text => (c == 46 || c == b) && matchhere re text
  | _ :: _, [] => false
termination_by re text => (re.length, text.length, 0)

/-- `matchstar(c, re, text)`: search for `c*re` at the beginning of `text`. -/
def matchstar (c : UInt8) (re : List UInt8) : List UInt8 → Bool
  | [] => matchhere re []
  | b :: text => matchhere re (b :: text) || ((b == c || c == 46) && matchstar c re text)
termination_by text => (re.length, text.length, 1)

end

/-- The loop of `match` for a pattern without `^`: `matchhere` at every suffix of `text`, the
empty one included. -/
def matchLoop (re : List UInt8) : List UInt8 → Bool
  | [] => matchhere re []
  | b :: text => matchhere re (b :: text) || matchLoop re text

/-- `match(re, text)` (`match` is a keyword of Lean). -/
def grepMatch : List UInt8 → List UInt8 → Bool
  | 94 :: re, text => matchhere re text
  | re, text => matchLoop re text

/-- The test of a literal step of `matchhere`, `re[0]=='.' || re[0]==*text`. -/
theorem here_test (c b : UInt8) : (c == 46 || c == b) = true ↔ (Atom.ofByte c).accepts b = true := by
  rw [Atom.ofByte_accepts]
  simp [eq_comm (a := c), or_comm]

/-- The test of a step of `matchstar`, `*text++==c || c=='.'`. -/
theorem star_test (c b : UInt8) : (b == c || c == 46) = true ↔ (Atom.ofByte c).accepts b = true := by
  rw [Atom.ofByte_accepts]
  simp

/-- The words a body matches at the start of a text, with its anchoring at the end. -/
abbrev bodyLead (re text : List UInt8) : Prop :=
  Lead (itemsLang (bodyItems re)) (endAnchored re) text

/-- The specification of `matchhere` and `matchstar`, by the recursion they share: one case for
each branch of the C code. -/
theorem matchhere_spec :
    (∀ re text, matchhere re text = true ↔ bodyLead re text) ∧
    ∀ c re text, matchstar c re text = true ↔
      Lead ((atomLang (.ofByte c))∗ * itemsLang (bodyItems re)) (endAnchored re) text := by
  refine matchhere.mutual_induct (fun re text => matchhere re text = true ↔ bodyLead re text)
    (fun c re text => matchstar c re text = true ↔
      Lead ((atomLang (.ofByte c))∗ * itemsLang (bodyItems re)) (endAnchored re) text)
    ?empty ?star ?dollar ?lit ?litEnd ?starEnd ?starCons
  case empty =>
    intro text
    simp [matchhere, bodyLead, lead_one]
  case star =>
    intro c re text ih
    rw [matchhere.eq_2, ih, bodyLead, bodyItems_star, endAnchored_star, itemsLang_cons,
      Item.lang_star]
  case dollar =>
    intro text
    rw [matchhere.eq_3, bodyLead, bodyItems_dollar, endAnchored_dollar, itemsLang_nil, lead_one]
    simp
  case lit =>
    intro c re b text h1 h2 ih
    rw [matchhere.eq_4 c re b text h1 h2, bodyLead, bodyItems_lit h1 h2, endAnchored_lit h2,
      itemsLang_cons, Item.lang_lit, lead_atomLang_mul_cons, Bool.and_eq_true, ih, here_test]
  case litEnd =>
    intro c re h1 h2
    rw [matchhere.eq_5 c re h1 h2, bodyLead, bodyItems_lit h1 h2, itemsLang_cons, Item.lang_lit]
    simpa using not_lead_atomLang_mul_nil
  case starEnd =>
    intro c re ih
    rw [matchstar.eq_1, ih, lead_kstar_mul]
    exact (or_iff_left not_lead_atomLang_mul_nil).symm
  case starCons =>
    intro c re b text ih ihs
    rw [lead_kstar_mul, lead_atomLang_mul_cons, matchstar.eq_2, Bool.or_eq_true, ih,
      Bool.and_eq_true, ihs, star_test]

/-- The loop of `match` finds `matchhere` at some suffix of the text. -/
theorem matchLoop_iff (re text : List UInt8) :
    matchLoop re text = true ↔ ∃ u t, text = u ++ t ∧ matchhere re t = true := by
  induction text with
  | nil => simp [matchLoop]
  | cons b text ih =>
    rw [matchLoop, Bool.or_eq_true, ih]
    constructor
    · rintro (h | ⟨u, t, rfl, h⟩)
      · exact ⟨[], b :: text, rfl, h⟩
      · exact ⟨b :: u, t, rfl, h⟩
    · rintro ⟨_ | ⟨b', u⟩, t, ht, h⟩
      · rw [List.nil_append] at ht
        exact .inl (ht ▸ h)
      · simp only [List.cons_append, List.cons.injEq] at ht
        exact .inr ⟨u, t, ht.2, h⟩

theorem grepMatch_iff (re text : List UInt8) :
    grepMatch re text = true ↔ (Pattern.parse re).Accepts text := by
  rw [Pattern.accepts_iff]
  by_cases h : ∃ b, re = 94 :: b
  · -- anchored at the start: only the whole text is tried
    obtain ⟨b, rfl⟩ := h
    rw [grepMatch, matchhere_spec.1]
    simp [Pattern.parse, Pattern.lang]
  · -- unanchored: every suffix is tried
    simp only [not_exists] at h
    rw [grepMatch.eq_2 re text (fun b hb => h b hb), matchLoop_iff]
    simp [Pattern.parse.eq_2 re (fun b hb => h b hb), Pattern.lang, matchhere_spec.1]

end Grep

end Xv6Net
