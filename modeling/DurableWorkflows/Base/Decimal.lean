import Mathlib.Data.String.Basic

/-!
# Decimal numbers as text

## Main definitions

- `Decimal.padded`: a number with leading zeros
- `Decimal.parseNat`, `Decimal.parseInt`: the readers

## Main results

- `Decimal.parseNat_padded`, `Decimal.parseInt_toList`: what was written is read back
- `Decimal.padded_lt_padded`: padded numbers are in the order of the text
- `Decimal.append_lt_append`: texts with first parts of one length
-/

namespace Decimal

variable {n m width : ℕ} {cs ds xs ys : List Char}

/-- A number with leading zeros up to a width. -/
def padded (width n : ℕ) : List Char :=
  List.replicate (width - (Nat.toDigits 10 n).length) '0' ++ Nat.toDigits 10 n

/-- The number that a list of digits, at least one, shows. -/
def parseNat (cs : List Char) : Option ℕ :=
  if cs ≠ [] ∧ cs.all Char.isDigit then some (Nat.ofDigitChars 10 cs 0) else none

/-- The number that a list of digits with an optional plus sign shows. -/
def parseUnsigned : List Char → Option ℕ
  | '+' :: cs => parseNat cs
  | cs => parseNat cs

/-- The number that a list of digits with an optional sign shows. -/
def parseInt : List Char → Option ℤ
  | '-' :: cs => (parseNat cs).map fun n => -(n : ℤ)
  | '+' :: cs => (parseNat cs).map fun n => (n : ℤ)
  | cs => (parseNat cs).map fun n => (n : ℤ)

-- ════════════════════════════════════════════════════════════════════════
-- Reading
-- ════════════════════════════════════════════════════════════════════════

theorem all_toDigits (n : ℕ) : (Nat.toDigits 10 n).all Char.isDigit = true := by
  rw [List.all_eq_true]
  intro c hc
  exact Nat.isDigit_of_mem_toDigits (by decide) (by decide) hc

theorem all_padded (width n : ℕ) : (padded width n).all Char.isDigit = true := by
  rw [padded, List.all_append, all_toDigits, Bool.and_true, List.all_eq_true]
  intro c hc
  rw [List.eq_of_mem_replicate hc]
  decide

theorem parseNat_of_digits (hne : cs ≠ []) (hall : cs.all Char.isDigit = true) :
    parseNat cs = some (Nat.ofDigitChars 10 cs 0) := if_pos ⟨hne, hall⟩

theorem ofDigitChars_padded (width n : ℕ) : Nat.ofDigitChars 10 (padded width n) 0 = n := by
  rw [padded, Nat.ofDigitChars_append, Nat.ofDigitChars_replicate_zero, Nat.mul_zero,
    Nat.ofDigitChars_ten_toDigits]

theorem padded_ne_nil (width n : ℕ) : padded width n ≠ [] :=
  List.append_ne_nil_of_right_ne_nil _ Nat.toDigits_ne_nil

theorem parseNat_padded (width n : ℕ) : parseNat (padded width n) = some n := by
  rw [parseNat_of_digits (padded_ne_nil width n) (all_padded width n), ofDigitChars_padded]

theorem parseNat_toDigits (n : ℕ) : parseNat (Nat.toDigits 10 n) = some n := by
  rw [parseNat_of_digits Nat.toDigits_ne_nil (all_toDigits n), Nat.ofDigitChars_ten_toDigits]

/-- A list that starts with a digit has no sign. -/
theorem parseInt_of_digits (hall : cs.all Char.isDigit = true) :
    parseInt cs = (parseNat cs).map fun n => (n : ℤ) := by
  match cs with
  | [] => rfl
  | c :: cs =>
    have hdigit : c.isDigit = true := by
      rw [List.all_cons, Bool.and_eq_true] at hall
      exact hall.1
    rw [parseInt.eq_def]
    split
    · next heq =>
      cases heq
      exact absurd hdigit (by decide)
    · next heq =>
      cases heq
      exact absurd hdigit (by decide)
    · rfl

theorem parseUnsigned_of_digits (hall : cs.all Char.isDigit = true) :
    parseUnsigned cs = parseNat cs := by
  match cs with
  | [] => rfl
  | c :: cs =>
    have hdigit : c.isDigit = true := by
      rw [List.all_cons, Bool.and_eq_true] at hall
      exact hall.1
    rw [parseUnsigned.eq_def]
    split
    · next heq =>
      cases heq
      exact absurd hdigit (by decide)
    · rfl

theorem parseInt_padded (width n : ℕ) : parseInt (padded width n) = some (n : ℤ) := by
  rw [parseInt_of_digits (all_padded width n), parseNat_padded]
  rfl

/-- An integer is read back from its text. -/
theorem parseInt_toList (n : ℤ) : parseInt (toString n).toList = some n := by
  rw [Int.toString_eq_repr, Int.repr_eq_if]
  by_cases h : 0 ≤ n
  · rw [if_pos h, Nat.toList_repr, parseInt_of_digits (all_toDigits _), parseNat_toDigits]
    exact congrArg some (Int.toNat_of_nonneg h)
  · have hsign : "-".toList = ['-'] := by decide
    rw [if_neg h, String.toList_append, Nat.toList_repr, hsign, List.singleton_append, parseInt,
      parseNat_toDigits]
    refine congrArg some ?_
    show -((-n).toNat : ℤ) = n
    omega

-- ════════════════════════════════════════════════════════════════════════
-- Order
-- ════════════════════════════════════════════════════════════════════════

theorem length_padded (hwidth : 0 < width) (h : n < 10 ^ width) :
    (padded width n).length = width := by
  have hle := (Nat.length_toDigits_le_iff (by decide) hwidth).mpr h
  rw [padded, List.length_append, List.length_replicate]
  omega

theorem ofDigitChars_cons_zero (c : Char) (cs : List Char) :
    Nat.ofDigitChars 10 (c :: cs) 0 =
      10 ^ cs.length * (c.toNat - '0'.toNat) + Nat.ofDigitChars 10 cs 0 := by
  rw [Nat.ofDigitChars_cons, Nat.ofDigitChars_eq_ofDigitChars_zero, Nat.mul_zero, Nat.zero_add]

theorem isDigit_bounds {c : Char} (h : c.isDigit = true) :
    '0'.toNat ≤ c.toNat ∧ c.toNat ≤ '9'.toNat := by
  rw [Char.isDigit, Bool.and_eq_true, decide_eq_true_eq, decide_eq_true_eq] at h
  exact ⟨UInt32.le_iff_toNat_le.mp h.1, UInt32.le_iff_toNat_le.mp h.2⟩

theorem ofDigitChars_lt (hall : cs.all Char.isDigit = true) :
    Nat.ofDigitChars 10 cs 0 < 10 ^ cs.length := by
  induction cs with
  | nil => exact Nat.one_pos
  | cons c cs ih =>
    rw [List.all_cons, Bool.and_eq_true] at hall
    have hdigit := (isDigit_bounds hall.1).2
    have hzero : '9'.toNat - '0'.toNat = 9 := rfl
    have hle : 10 ^ cs.length * (c.toNat - '0'.toNat) ≤ 10 ^ cs.length * 9 :=
      Nat.mul_le_mul_left _ (by omega)
    have hrest := ih hall.2
    rw [ofDigitChars_cons_zero, List.length_cons, Nat.pow_succ]
    omega

/-- Lists of digits of one length are in the order of the numbers they show. -/
theorem digits_lt_digits (hlength : cs.length = ds.length) (hcs : cs.all Char.isDigit = true)
    (hds : ds.all Char.isDigit = true) :
    cs < ds ↔ Nat.ofDigitChars 10 cs 0 < Nat.ofDigitChars 10 ds 0 := by
  induction cs generalizing ds with
  | nil =>
    rw [List.eq_nil_of_length_eq_zero hlength.symm]
    exact ⟨fun h => absurd h (lt_irrefl _), fun h => absurd h (lt_irrefl _)⟩
  | cons c cs ih =>
    match ds with
    | d :: ds =>
      have hrest : cs.length = ds.length := Nat.succ.inj hlength
      rw [List.all_cons, Bool.and_eq_true] at hcs hds
      have hc := isDigit_bounds hcs.1
      have hd := isDigit_bounds hds.1
      have hcs_lt := ofDigitChars_lt hcs.2
      have hds_lt := ofDigitChars_lt hds.2
      rw [← hrest] at hds_lt
      rw [List.cons_lt_cons_iff, ih hrest hcs.2 hds.2, ofDigitChars_cons_zero,
        ofDigitChars_cons_zero, ← hrest]
      rcases lt_trichotomy c.toNat d.toNat with hlt | heq | hgt
      · have hmul : 10 ^ cs.length * (c.toNat - '0'.toNat + 1) ≤
            10 ^ cs.length * (d.toNat - '0'.toNat) := Nat.mul_le_mul_left _ (by omega)
        rw [Nat.mul_add_one] at hmul
        exact ⟨fun _ => by omega, fun _ => .inl (UInt32.lt_iff_toNat_lt.mpr hlt)⟩
      · obtain rfl : c = d := Char.toNat_inj.mp heq
        rw [Nat.add_lt_add_iff_left]
        exact ⟨fun h => h.elim (fun h => absurd h (lt_irrefl _)) And.right,
          fun h => .inr ⟨rfl, h⟩⟩
      · have hmul : 10 ^ cs.length * (d.toNat - '0'.toNat + 1) ≤
            10 ^ cs.length * (c.toNat - '0'.toNat) := Nat.mul_le_mul_left _ (by omega)
        rw [Nat.mul_add_one] at hmul
        refine ⟨?_, fun h => absurd h (by omega)⟩
        rintro (hlt | ⟨rfl, -⟩)
        · exact absurd (UInt32.lt_iff_toNat_lt.mp hlt) (Nat.not_lt.mpr hgt.le)
        · exact absurd hgt (lt_irrefl _)

theorem padded_lt_padded (hwidth : 0 < width) (hn : n < 10 ^ width) (hm : m < 10 ^ width) :
    padded width n < padded width m ↔ n < m := by
  rw [digits_lt_digits ((length_padded hwidth hn).trans (length_padded hwidth hm).symm)
    (all_padded width n) (all_padded width m), ofDigitChars_padded, ofDigitChars_padded]

/-- Texts with first parts of one length are in the order of these, then of the rests. -/
theorem append_lt_append (hlength : cs.length = ds.length) :
    cs ++ xs < ds ++ ys ↔ cs < ds ∨ cs = ds ∧ xs < ys := by
  induction cs generalizing ds with
  | nil =>
    rw [List.eq_nil_of_length_eq_zero hlength.symm]
    exact ⟨fun h => .inr ⟨rfl, h⟩, fun h => h.elim (fun h => absurd h (lt_irrefl _)) And.right⟩
  | cons c cs ih =>
    match ds with
    | d :: ds =>
      rw [List.cons_append, List.cons_append, List.cons_lt_cons_iff, List.cons_lt_cons_iff,
        ih (Nat.succ.inj hlength), List.cons.injEq]
      constructor
      · rintro (h | ⟨rfl, h | ⟨rfl, h⟩⟩)
        · exact .inl (.inl h)
        · exact .inl (.inr ⟨rfl, h⟩)
        · exact .inr ⟨⟨rfl, rfl⟩, h⟩
      · rintro ((h | ⟨rfl, h⟩) | ⟨⟨rfl, rfl⟩, h⟩)
        · exact .inl h
        · exact .inr ⟨rfl, .inl h⟩
        · exact .inr ⟨rfl, .inr ⟨rfl, h⟩⟩

theorem padded_inj : padded width n = padded width m ↔ n = m := by
  refine ⟨fun h => ?_, congrArg _⟩
  rw [← ofDigitChars_padded width n, h, ofDigitChars_padded]

/-- Texts that start with padded numbers of one width are in the order of these, then of the
rests. -/
theorem padded_append_lt (hwidth : 0 < width) (hn : n < 10 ^ width) (hm : m < 10 ^ width) :
    padded width n ++ xs < padded width m ++ ys ↔ n < m ∨ n = m ∧ xs < ys := by
  rw [append_lt_append ((length_padded hwidth hn).trans (length_padded hwidth hm).symm),
    padded_lt_padded hwidth hn hm, padded_inj]

/-- Padded numbers between separators are in the order of their lists. -/
theorem intercalate_padded_lt {sep : Char} (hwidth : 0 < width) {ns ms : List ℕ}
    (hlength : ns.length = ms.length) (hns : ∀ n ∈ ns, n < 10 ^ width)
    (hms : ∀ m ∈ ms, m < 10 ^ width) :
    [sep].intercalate (ns.map (padded width)) < [sep].intercalate (ms.map (padded width)) ↔
      ns < ms := by
  induction ns generalizing ms with
  | nil =>
    rw [List.eq_nil_of_length_eq_zero hlength.symm]
    exact ⟨fun h => absurd h (lt_irrefl _), fun h => absurd h (lt_irrefl _)⟩
  | cons n ns ih =>
    match ms with
    | m :: ms =>
      have hn := hns n List.mem_cons_self
      have hm := hms m List.mem_cons_self
      have hrest := ih (Nat.succ.inj hlength) (fun k hk => hns k (List.mem_cons_of_mem _ hk))
        fun k hk => hms k (List.mem_cons_of_mem _ hk)
      rw [List.map_cons, List.map_cons, List.cons_lt_cons_iff, ← hrest]
      match ns, ms with
      | [], [] =>
        rw [List.map_nil, List.intercalate_singleton, List.intercalate_singleton,
          padded_lt_padded hwidth hn hm]
        exact ⟨.inl, fun h => h.elim id fun h => absurd h.2 (lt_irrefl _)⟩
      | _ :: _, _ :: _ =>
        rw [List.map_cons, List.map_cons, List.intercalate_cons_cons, List.intercalate_cons_cons,
          List.append_assoc, List.append_assoc, padded_append_lt hwidth hn hm,
          append_lt_append rfl]
        refine or_congr_right (and_congr_right fun _ => ?_)
        exact ⟨fun h => h.elim (fun h => absurd h (lt_irrefl _)) And.right, fun h => .inr ⟨rfl, h⟩⟩

/-- The characters of padded numbers between separators. -/
theorem mem_intercalate_padded {sep c : Char} {ns : List ℕ}
    (h : c ∈ [sep].intercalate (ns.map (padded width))) : c.isDigit = true ∨ c = sep := by
  have hdigit : ∀ n, c ∈ padded width n → c.isDigit = true := fun n hc =>
    List.all_eq_true.mp (all_padded width n) c hc
  induction ns with
  | nil => cases h
  | cons n ns ih =>
    match ns with
    | [] =>
      rw [List.map_cons, List.map_nil, List.intercalate_singleton] at h
      exact .inl (hdigit n h)
    | m :: ns =>
      rw [List.map_cons, List.map_cons, List.intercalate_cons_cons, List.mem_append,
        List.mem_append, List.mem_singleton] at h
      exact h.elim (fun h => h.elim (fun h => .inl (hdigit n h)) .inr) ih

/-- The length of padded numbers between separators. -/
theorem length_intercalate_padded (sep : Char) {ns : List ℕ} (hwidth : 0 < width) (hne : ns ≠ [])
    (hns : ∀ n ∈ ns, n < 10 ^ width) :
    ([sep].intercalate (ns.map (padded width))).length + 1 = (width + 1) * ns.length := by
  induction ns with
  | nil => exact absurd rfl hne
  | cons n ns ih =>
    have hn := length_padded hwidth (hns n List.mem_cons_self)
    match ns with
    | [] => rw [List.map_cons, List.map_nil, List.intercalate_singleton, hn, List.length_singleton,
        Nat.mul_one]
    | m :: ns =>
      have hrest := ih (List.cons_ne_nil _ _) fun k hk => hns k (List.mem_cons_of_mem _ hk)
      rw [List.map_cons] at hrest
      rw [List.map_cons, List.map_cons, List.intercalate_cons_cons, List.length_append,
        List.length_append, hn, List.length_singleton, List.length_cons, Nat.mul_succ, ← hrest]
      omega

/-- The length of the text of an integer. -/
theorem length_toList_le {k : ℕ} {z : ℤ} (hk : 0 < k) (h : z.natAbs < 10 ^ k) :
    (toString z).toList.length ≤ k + 1 := by
  have hdigits : (Nat.toDigits 10 z.natAbs).length ≤ k :=
    (Nat.length_toDigits_le_iff (by decide) hk).mpr h
  rw [Int.toString_eq_repr, Int.repr_eq_if]
  by_cases hz : 0 ≤ z
  · have habs : z.toNat = z.natAbs := by omega
    rw [if_pos hz, Nat.toList_repr, habs]
    exact hdigits.trans (Nat.le_succ k)
  · have habs : (-z).toNat = z.natAbs := by omega
    have hsign : "-".toList = ['-'] := by decide
    rw [if_neg hz, String.toList_append, Nat.toList_repr, hsign, habs]
    exact Nat.succ_le_succ hdigits

/-- The characters of the text of an integer. -/
theorem mem_toList {z : ℤ} {c : Char} (h : c ∈ (toString z).toList) :
    c.isDigit = true ∨ c = '-' := by
  rw [Int.toString_eq_repr, Int.repr_eq_if] at h
  by_cases hz : 0 ≤ z
  · rw [if_pos hz, Nat.toList_repr] at h
    exact .inl (Nat.isDigit_of_mem_toDigits (by decide) (by decide) h)
  · have hsign : "-".toList = ['-'] := by decide
    rw [if_neg hz, String.toList_append, Nat.toList_repr, hsign] at h
    rcases List.mem_cons.mp h with rfl | h
    · exact .inr rfl
    · exact .inl (Nat.isDigit_of_mem_toDigits (by decide) (by decide) h)

end Decimal
