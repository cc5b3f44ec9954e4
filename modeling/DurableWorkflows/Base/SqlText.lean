import Mathlib.Data.List.Infix
import Mathlib.Data.List.MinMax
import Mathlib.Data.String.Basic

/-!
# Texts in a database

A column with a binary collation is compared by the bytes of its texts.

## Main definitions

- `SqlText.bytes`: the UTF-8 bytes of a text
- `SqlText.maxText`: `max` over a column
- `SqlText.like`: `LIKE`

## Main results

- `bytes_lt_bytes`: the byte order of ASCII texts
- `maxText_map`: the largest text is that of the largest value
- `like_prefix`: a pattern for the texts with a prefix
-/

namespace SqlText

/-- The UTF-8 bytes of a text. -/
def bytes (text : List Char) : List ℕ :=
  text.flatMap fun c => (String.utf8EncodeChar c).map UInt8.toNat

/-- `max` over a column. -/
def maxText (texts : List String) : Option String :=
  texts.argmax fun text => bytes text.toList

/-- `LIKE`, with the wildcards `%` for any text and `_` for one character. -/
def like : List Char → List Char → Bool
  | [], text => text.isEmpty
  | '%' :: pattern, text => text.tails.any (like pattern)
  | '_' :: _, [] => false
  | '_' :: pattern, _ :: text => like pattern text
  | _ :: _, [] => false
  | c :: pattern, d :: text => c == d && like pattern text

-- ════════════════════════════════════════════════════════════════════════
-- Byte order
-- ════════════════════════════════════════════════════════════════════════

/-- A character of one byte. -/
def Ascii (c : Char) : Prop := c.toNat < 128

theorem bytes_of_ascii {c : Char} (h : Ascii c) :
    (String.utf8EncodeChar c).map UInt8.toNat = [c.toNat] := by
  have hle : c.val ≤ 127 := UInt32.le_iff_toNat_le.mpr (Nat.le_of_lt_succ h)
  have hmod : c.val.toNat % 256 = c.val.toNat := Nat.mod_eq_of_lt (Nat.lt_of_lt_of_le h (by decide))
  rw [String.utf8EncodeChar_eq_singleton (Char.utf8Size_eq_one_iff.mpr hle), List.map_singleton,
    UInt32.toNat_toUInt8]
  exact congrArg (fun n => [n]) hmod

theorem bytes_cons {c : Char} {cs : List Char} (h : Ascii c) : bytes (c :: cs) = c.toNat :: bytes cs := by
  rw [bytes, List.flatMap_cons, bytes_of_ascii h]
  rfl

/-- Of ASCII texts the byte order is that of the characters. -/
theorem bytes_lt_bytes {cs ds : List Char} (hcs : ∀ c ∈ cs, Ascii c) (hds : ∀ d ∈ ds, Ascii d) :
    bytes cs < bytes ds ↔ cs < ds := by
  induction cs generalizing ds with
  | nil =>
    cases ds with
    | nil => exact ⟨fun h => absurd h (lt_irrefl _), fun h => absurd h (lt_irrefl _)⟩
    | cons d ds =>
      rw [bytes_cons (hds d List.mem_cons_self)]
      exact ⟨fun _ => List.nil_lt_cons _ _, fun _ => List.nil_lt_cons _ _⟩
  | cons c cs ih =>
    have hc := hcs c List.mem_cons_self
    cases ds with
    | nil =>
      rw [bytes_cons hc]
      exact ⟨fun h => absurd h (List.not_lt_nil _), fun h => absurd h (List.not_lt_nil _)⟩
    | cons d ds =>
      have hrest := ih (fun c h => hcs c (List.mem_cons_of_mem _ h))
        fun d h => hds d (List.mem_cons_of_mem _ h)
      rw [bytes_cons hc, bytes_cons (hds d List.mem_cons_self), List.cons_lt_cons_iff,
        List.cons_lt_cons_iff, hrest, Char.toNat_inj]
      exact or_congr_left UInt32.lt_iff_toNat_lt.symm

/-- **The largest text** is that of the largest value, if the texts are in the order of their
values. -/
theorem maxText_map {α : Type*} [LinearOrder α] {text : α → String} {values : List α}
    (h : ∀ a ∈ values, ∀ b ∈ values, bytes (text a).toList < bytes (text b).toList ↔ a < b) :
    maxText (values.map text) = values.max?.map text := by
  cases hmax : maxText (values.map text) with
  | none =>
    rw [maxText, List.argmax_eq_none, List.map_eq_nil_iff] at hmax
    rw [hmax]
    rfl
  | some t =>
    obtain ⟨a, ha, rfl⟩ := List.mem_map.mp (List.argmax_mem hmax)
    have hlargest : values.max? = some a := by
      refine List.max?_eq_some_iff.mpr ⟨ha, fun b hb => ?_⟩
      have hle := List.not_lt_of_mem_argmax (List.mem_map_of_mem hb) hmax
      rw [h a ha b hb] at hle
      exact not_lt.mp hle
    rw [hlargest]
    rfl

-- ════════════════════════════════════════════════════════════════════════
-- Patterns
-- ════════════════════════════════════════════════════════════════════════

/-- A pattern that is a prefix without wildcards, and then any text. -/
theorem like_prefix {pre : List Char} (h : ∀ c ∈ pre, c ≠ '%' ∧ c ≠ '_') (text : List Char) :
    like (pre ++ ['%']) text = pre.isPrefixOf text := by
  induction pre generalizing text with
  | nil =>
    rw [List.nil_append, like, List.any_eq_true.mpr ⟨[], ?_, rfl⟩]
    · rfl
    · exact (List.mem_tails _ _).mpr (List.nil_suffix)
  | cons c pre ih =>
    obtain ⟨hany, hone⟩ := h c List.mem_cons_self
    have hrest := ih fun d hd => h d (List.mem_cons_of_mem _ hd)
    cases text with
    | nil =>
      rw [List.cons_append, like]
      · rfl
      · exact fun heq => hany heq
      · exact fun heq => hone heq
    | cons d text =>
      rw [List.cons_append, like, hrest]
      · rfl
      · exact fun heq => hany heq
      · exact fun heq => hone heq

end SqlText
