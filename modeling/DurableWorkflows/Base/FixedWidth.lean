import DurableWorkflows.Base.Decimal

/-!
# Texts of fixed width

A format is a list of items: numbers of a fixed width and characters. The texts
of one format are in the order of the lists of their numbers, and the numbers
are read back from a text.

## Main definitions

- `Item`, `text`, `numbers`: a format, and the text and the numbers of some fields
- `read`: the numbers of a text

## Main results

- `read_text`: what was written is read back
- `text_lt_text`: the order of the texts
-/

namespace FixedWidth

open Decimal

variable {φ : Type*}

/-- An item of a format: the number of a field, with leading zeros, or a character. -/
inductive Item (φ : Type*)
  | numeric (width : ℕ) (field : φ)
  | literal (c : Char)

/-- The text of some fields. -/
def text : List (Item φ) → (φ → ℕ) → List Char
  | [], _ => []
  | .numeric width field :: items, v => padded width (v field) ++ text items v
  | .literal c :: items, v => c :: text items v

/-- The numbers of some fields, in the order of the format. -/
def numbers : List (Item φ) → (φ → ℕ) → List ℕ
  | [], _ => []
  | .numeric _ field :: items, v => v field :: numbers items v
  | .literal _ :: items, v => numbers items v

/-- The numbers of a text that has the digits and the characters of the format. -/
def read : List (Item φ) → List Char → Option (List ℕ)
  | [], [] => some []
  | [], _ :: _ => none
  | .numeric width _ :: items, cs =>
    if (cs.take width).length = width then
      (parseNat (cs.take width)).bind fun n => (read items (cs.drop width)).map (n :: ·)
    else
      none
  | .literal _ :: _, [] => none
  | .literal c :: items, d :: cs => if c = d then read items cs else none

/-- Every number has at most the digits of its item. -/
def Fits (items : List (Item φ)) (v : φ → ℕ) : Prop :=
  ∀ {width field}, .numeric width field ∈ items → 0 < width ∧ v field < 10 ^ width

variable {items : List (Item φ)} {v w : φ → ℕ}

theorem Fits.tail {item : Item φ} (h : Fits (item :: items) v) : Fits items v :=
  fun hmem => h (List.mem_cons_of_mem _ hmem)

/-- The numbers of a text are read back. -/
theorem read_text (h : Fits items v) : read items (text items v) = some (numbers items v) := by
  induction items with
  | nil => rfl
  | cons item items ih =>
    have hrest := ih h.tail
    cases item with
    | literal c => exact (if_pos rfl).trans hrest
    | numeric width field =>
      obtain ⟨hwidth, hlt⟩ := h List.mem_cons_self
      have hlength := length_padded hwidth hlt
      rw [text, read, List.take_left' hlength, List.drop_left' hlength, if_pos hlength,
        parseNat_padded, Option.bind_some, hrest]
      rfl

/-- The texts of a format are in the order of their numbers. -/
theorem text_lt_text (hv : Fits items v) (hw : Fits items w) :
    text items v < text items w ↔ numbers items v < numbers items w := by
  induction items with
  | nil => exact ⟨fun h => absurd h (lt_irrefl _), fun h => absurd h (lt_irrefl _)⟩
  | cons item items ih =>
    have hrest := ih hv.tail hw.tail
    cases item with
    | literal c =>
      rw [text, text, numbers, numbers, List.cons_lt_cons_iff, hrest]
      exact ⟨fun h => h.elim (fun h => absurd h (lt_irrefl _)) And.right, fun h => .inr ⟨rfl, h⟩⟩
    | numeric width field =>
      obtain ⟨hwidth, hlt⟩ := hv List.mem_cons_self
      rw [text, text, numbers, numbers, padded_append_lt hwidth hlt (hw List.mem_cons_self).2,
        hrest, List.cons_lt_cons_iff]

/-- The characters of a text. -/
theorem mem_text {c : Char} (h : c ∈ text items v) : c.isDigit = true ∨ .literal c ∈ items := by
  induction items with
  | nil => cases h
  | cons item items ih =>
    cases item with
    | literal d =>
      rcases List.mem_cons.mp h with rfl | h
      · exact .inr List.mem_cons_self
      · exact (ih h).imp_right (List.mem_cons_of_mem _)
    | numeric width field =>
      rcases List.mem_append.mp h with h | h
      · exact .inl (List.all_eq_true.mp (all_padded _ _) c h)
      · exact (ih h).imp_right (List.mem_cons_of_mem _)

end FixedWidth
