import DurableWorkflows.Base.Decimal
import Mathlib.Algebra.Ring.Nat

/-!
# Compact JSON text

Strings and integers as a compact JSON writer emits them, and readers of one value from the
front of a text that return the rest.

## Main definitions

- `JsonText.quote`, `JsonText.readString`: a string between its quotes
- `JsonText.escapedBytes`: the bytes of a string in a JSON text, without the quotes
- `JsonText.readInt`, `JsonText.expect`: an integer, and a fixed text

## Main results

- `JsonText.readString_quote`, `JsonText.readInt_append`, `JsonText.expect_append`
- `JsonText.utf8Len_quote`: the length of a string's text
- `JsonText.nul_notMem_quote`
-/

namespace JsonText

variable {cs rest : List Char} {c : Char}

/-- The characters that have an escape of two characters, with its second. -/
def shortEscapes : List (Char × Char) :=
  [('"', '"'), ('\\', '\\'), ('\x08', 'b'), ('\t', 't'), ('\n', 'n'), ('\x0c', 'f'), ('\r', 'r')]

/-- The digits of an escape with the code of a character. -/
def hexDigits : List Char := "0123456789abcdef".toList

/-- The value of a digit. -/
def hexValue (c : Char) : Option ℕ := hexDigits.findIdx? (· == c)

/-- The digit of a value. -/
def hexDigit (n : ℕ) : Char := hexDigits.getD n '0'

/-- A character inside a string. -/
def escape (c : Char) : List Char :=
  match shortEscapes.lookup c with
  | some e => ['\\', e]
  | none =>
    if c.toNat < 32 then
      ['\\', 'u', '0', '0', hexDigit (c.toNat / 16), hexDigit (c.toNat % 16)]
    else
      [c]

/-- A string between its quotes. -/
def quote (cs : List Char) : List Char := '"' :: (cs.flatMap escape ++ ['"'])

/-- The inside of a string up to its closing quote, and the rest of the text. -/
def unescape : List Char → Option (List Char × List Char)
  | [] => none
  | '"' :: rest => some ([], rest)
  | '\\' :: 'u' :: p :: q :: r :: s :: rest =>
    ([p, q, r, s].mapM hexValue).bind fun digits =>
      (unescape rest).map fun (cs, rest) =>
        (Char.ofNat (digits.foldl (fun n d => 16 * n + d) 0) :: cs, rest)
  | '\\' :: e :: rest =>
    (shortEscapes.find? (·.2 == e)).bind fun (c, _) =>
      (unescape rest).map fun (cs, rest) => (c :: cs, rest)
  | c :: rest => (unescape rest).map fun (cs, rest) => (c :: cs, rest)

/-- A fixed text. -/
def expect (text : List Char) (cs : List Char) : Option (List Char) :=
  if text <+: cs then some (cs.drop text.length) else none

/-- A string from the front of a text. -/
def readString (cs : List Char) : Option (List Char × List Char) := do
  let cs ← expect ['"'] cs
  unescape cs

/-- A character of an integer. -/
def isNumeral (c : Char) : Bool := c.isDigit || c == '-'

/-- An integer from the front of a text. -/
def readInt (cs : List Char) : Option (ℤ × List Char) := do
  let n ← Decimal.parseInt (cs.takeWhile isNumeral)
  return (n, cs.dropWhile isNumeral)

/-- The bytes of a character inside a string. -/
def escapedSize (c : Char) : ℕ :=
  if c ∈ shortEscapes.map Prod.fst then 2 else if c.toNat < 32 then 6 else c.utf8Size

/-- The bytes of a string in a JSON text, without the quotes. -/
def escapedBytes (text : String) : ℕ := (text.toList.map escapedSize).sum

-- ════════════════════════════════════════════════════════════════════════
-- Reading
-- ════════════════════════════════════════════════════════════════════════

theorem expect_append (text rest : List Char) : expect text (text ++ rest) = some rest := by
  rw [expect, if_pos (List.prefix_append _ _), List.drop_left]

theorem find_shortEscape :
    ∀ pair ∈ shortEscapes, shortEscapes.find? (·.2 == pair.2) = some pair ∧ pair.2 ≠ 'u' := by
  decide

theorem hexValue_hexDigit : ∀ n < 16, hexValue (hexDigit n) = some n := by decide

/-- A character without an escape of two characters is no quote and no backslash. -/
theorem ne_of_lookup_none (h : shortEscapes.lookup c = none) : c ≠ '"' ∧ c ≠ '\\' := by
  constructor
  · rintro rfl
    exact absurd h (by decide)
  · rintro rfl
    exact absurd h (by decide)

theorem mem_of_lookup {e : Char} (h : shortEscapes.lookup c = some e) : (c, e) ∈ shortEscapes := by
  obtain ⟨before, after, heq, -⟩ := List.lookup_eq_some_iff.mp h
  rw [heq]
  exact List.mem_append_right _ List.mem_cons_self

/-- One character of a string is read back. -/
theorem unescape_escape (c : Char) (rest : List Char) :
    unescape (escape c ++ rest) = (unescape rest).map fun p => (c :: p.1, p.2) := by
  rw [escape.eq_def]
  cases h : shortEscapes.lookup c with
  | some e =>
    obtain ⟨hfind, hne⟩ := find_shortEscape _ (mem_of_lookup h)
    show unescape ('\\' :: e :: rest) = _
    rw [unescape, hfind, Option.bind_some]
    exact fun _ _ _ _ _ hu _ => hne hu
  | none =>
    obtain ⟨hquote, hslash⟩ := ne_of_lookup_none h
    show unescape ((if c.toNat < 32 then _ else [c]) ++ rest) = _
    by_cases hcontrol : c.toNat < 32
    · have hdigits : (['0', '0', hexDigit (c.toNat / 16), hexDigit (c.toNat % 16)]).mapM hexValue =
          some [0, 0, c.toNat / 16, c.toNat % 16] := by
        rw [List.mapM_cons, List.mapM_cons, List.mapM_cons, List.mapM_cons, List.mapM_nil,
          hexValue_hexDigit _ (show c.toNat / 16 < 16 by omega),
          hexValue_hexDigit _ (show c.toNat % 16 < 16 by omega)]
        rfl
      have hcode : [0, 0, c.toNat / 16, c.toNat % 16].foldl (fun n d => 16 * n + d) 0 = c.toNat := by
        show 16 * (16 * (16 * (16 * 0 + 0) + 0) + c.toNat / 16) + c.toNat % 16 = c.toNat
        omega
      rw [if_pos hcontrol]
      show unescape ('\\' :: 'u' :: '0' :: '0' :: _ :: _ :: rest) = _
      rw [unescape, hdigits, Option.bind_some, hcode, Char.ofNat_toNat]
    · rw [if_neg hcontrol, List.singleton_append, unescape]
      · exact fun h => hquote h
      · exact fun _ _ _ _ _ h _ => hslash h
      · exact fun _ _ h _ => hslash h

theorem unescape_quoted (cs rest : List Char) :
    unescape (cs.flatMap escape ++ '"' :: rest) = some (cs, rest) := by
  induction cs with
  | nil => rfl
  | cons c cs ih =>
    rw [List.flatMap_cons, List.append_assoc, unescape_escape, ih]
    rfl

/-- A string is read back. -/
theorem readString_quote (cs rest : List Char) :
    readString (quote cs ++ rest) = some (cs, rest) := by
  have hquote : quote cs ++ rest = ['"'] ++ (cs.flatMap escape ++ '"' :: rest) := by
    show '"' :: (cs.flatMap escape ++ ['"'] ++ rest) = _
    rw [List.append_assoc]
    rfl
  show (expect ['"'] (quote cs ++ rest)).bind unescape = _
  rw [hquote, expect_append]
  exact unescape_quoted cs rest

/-- An integer is read back, before a character that is none of a number's. -/
theorem readInt_append (n : ℤ) (hrest : ∀ c ∈ rest.head?, isNumeral c = false) :
    readInt ((toString n).toList ++ rest) = some (n, rest) := by
  have hall : ∀ d ∈ (toString n).toList, isNumeral d = true := by
    intro d hd
    rw [isNumeral, Bool.or_eq_true, beq_iff_eq]
    exact Decimal.mem_toList hd
  have hend : rest.takeWhile isNumeral = [] ∧ rest.dropWhile isNumeral = rest := by
    match rest, hrest with
    | [], _ => exact ⟨rfl, rfl⟩
    | c :: rest, hrest =>
      have hc : ¬ isNumeral c = true := by
        rw [hrest c rfl]
        decide
      exact ⟨List.takeWhile_cons_of_neg hc, List.dropWhile_cons_of_neg hc⟩
  show (Decimal.parseInt (List.takeWhile isNumeral _)).bind _ = _
  rw [List.takeWhile_append_of_pos hall, List.dropWhile_append_of_pos hall, hend.1, hend.2,
    List.append_nil, Decimal.parseInt_toList]
  rfl

-- ════════════════════════════════════════════════════════════════════════
-- Length
-- ════════════════════════════════════════════════════════════════════════

theorem utf8Len_escape (c : Char) : String.utf8Len (escape c) = escapedSize c := by
  have hshort : ∀ pair ∈ shortEscapes, pair.2.utf8Size = 1 := by decide
  have hhex : ∀ n < 16, (hexDigit n).utf8Size = 1 := by decide
  rw [escape.eq_def, escapedSize]
  cases h : shortEscapes.lookup c with
  | some e =>
    have hmem := mem_of_lookup h
    rw [if_pos (List.mem_map.mpr ⟨_, hmem, rfl⟩)]
    show String.utf8Len [] + e.utf8Size + '\\'.utf8Size = 2
    rw [hshort _ hmem]
    rfl
  | none =>
    have hmem : c ∉ shortEscapes.map Prod.fst := by
      rintro hmem
      obtain ⟨pair, hpair, rfl⟩ := List.mem_map.mp hmem
      exact absurd (List.lookup_eq_none_iff.mp h pair hpair) (by rw [bne_self_eq_false]; decide)
    rw [if_neg hmem]
    show String.utf8Len (if c.toNat < 32 then _ else [c]) = _
    by_cases hcontrol : c.toNat < 32
    · rw [if_pos hcontrol, if_pos hcontrol, String.utf8Len_cons, String.utf8Len_cons,
        String.utf8Len_cons, String.utf8Len_cons, String.utf8Len_cons, String.utf8Len_cons,
        hhex _ (show c.toNat / 16 < 16 by omega), hhex _ (show c.toNat % 16 < 16 by omega)]
      rfl
    · rw [if_neg hcontrol, if_neg hcontrol]
      exact Nat.zero_add _

/-- The length of a string's text. -/
theorem utf8Len_quote (text : String) :
    String.utf8Len (quote text.toList) = escapedBytes text + 2 := by
  have hinside : ∀ cs : List Char,
      String.utf8Len (cs.flatMap escape) = (cs.map escapedSize).sum := by
    intro cs
    induction cs with
    | nil => rfl
    | cons c cs ih =>
      rw [List.flatMap_cons, String.utf8Len_append, ih, utf8Len_escape, List.map_cons,
        List.sum_cons]
  show String.utf8Len ('"' :: (text.toList.flatMap escape ++ ['"'])) = _
  rw [String.utf8Len_cons, String.utf8Len_append, hinside]
  rfl

/-- A string's text has no U+0000: the writer escapes it. -/
theorem nul_notMem_quote (cs : List Char) : '\x00' ∉ quote cs := by
  have hnul : ∀ n, n < 16 → hexDigit n ≠ '\x00' := by decide
  have hescape : ∀ c : Char, '\x00' ∉ escape c := by
    intro c
    unfold escape
    split
    · rename_i e he
      have hpair : ∀ pair ∈ shortEscapes, '\x00' ∉ ['\\', pair.2] := by decide
      exact hpair _ (mem_of_lookup he)
    · by_cases hcontrol : c.toNat < 32
      · rw [if_pos hcontrol]
        simp only [List.mem_cons, List.not_mem_nil, or_false, not_or]
        exact ⟨by decide, by decide, by decide, by decide,
          (hnul _ (show c.toNat / 16 < 16 by omega)).symm,
          (hnul _ (show c.toNat % 16 < 16 by omega)).symm⟩
      · rw [if_neg hcontrol, List.mem_singleton]
        rintro rfl
        exact hcontrol (by decide)
  unfold quote
  simp only [List.mem_cons, List.mem_append, List.mem_flatMap, List.not_mem_nil, or_false, not_or]
  refine ⟨by decide, ?_, by decide⟩
  rintro ⟨c, -, hc⟩
  exact hescape c hc

/-- A character that JSON writes as one byte. -/
def Plain (c : Char) : Prop := 32 ≤ c.toNat ∧ c.toNat < 127 ∧ c ∉ shortEscapes.map Prod.fst

instance (c : Char) : Decidable (Plain c) := inferInstanceAs (Decidable (_ ∧ _))

theorem Plain.sizes (h : Plain c) : c.utf8Size = 1 ∧ escapedSize c = 1 := by
  have hsize : c.utf8Size = 1 := Char.utf8Size_eq_one_iff.mpr (by
    have := h.2.1
    exact UInt32.le_iff_toNat_le.mpr (show c.toNat ≤ 127 by omega))
  rw [escapedSize, if_neg h.2.2, if_neg (by have := h.1; omega)]
  exact ⟨hsize, hsize⟩

/-- The lengths of a text of plain characters. -/
theorem bytes_of_plain {text : String} (h : ∀ c ∈ text.toList, Plain c) :
    text.utf8ByteSize = text.toList.length ∧ escapedBytes text = text.toList.length := by
  have hsum : ∀ cs : List Char, (∀ c ∈ cs, Plain c) →
      String.utf8Len cs = cs.length ∧ (cs.map escapedSize).sum = cs.length := by
    intro cs hcs
    induction cs with
    | nil => exact ⟨rfl, rfl⟩
    | cons c cs ih =>
      obtain ⟨hlen, hescaped⟩ := ih fun d hd => hcs d (List.mem_cons_of_mem _ hd)
      obtain ⟨hsize, hsize'⟩ := (hcs c List.mem_cons_self).sizes
      rw [String.utf8Len_cons, List.map_cons, List.sum_cons, hlen, hescaped, hsize, hsize',
        List.length_cons]
      exact ⟨rfl, Nat.add_comm _ _⟩
  obtain ⟨hlen, hescaped⟩ := hsum text.toList h
  rw [← String.utf8ByteSize_ofList, String.ofList_toList] at hlen
  exact ⟨hlen, hescaped⟩

theorem plain_of_isDigit (h : c.isDigit = true) : Plain c := by
  obtain ⟨hzero, hnine⟩ := Decimal.isDigit_bounds h
  have hzero_eq : '0'.toNat = 48 := rfl
  have hnine_eq : '9'.toNat = 57 := rfl
  refine ⟨by omega, by omega, fun hmem => ?_⟩
  have hshort : (shortEscapes.map Prod.fst).all (fun d => !d.isDigit) = true := by decide
  have hfalse := List.all_eq_true.mp hshort c hmem
  rw [h] at hfalse
  cases hfalse

end JsonText
