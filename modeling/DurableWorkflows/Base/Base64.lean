import Mathlib.Data.String.Basic

/-!
# URL-safe base64 without padding

Three bytes are four characters of the alphabet; a rest of two bytes is three characters, and a
rest of one byte is two. The reader refuses a text whose last character has bits left over.

## Main definitions

- `Base64.encode`, `Base64.decode`

## Main results

- `Base64.decode_encode`: what was written is read back
- `Base64.utf8ByteSize_encode`: the length of the text
-/

namespace Base64

/-- The 64 characters. -/
def alphabet : List Char :=
  "ABCDEFGHIJKLMNOPQRSTUVWXYZabcdefghijklmnopqrstuvwxyz0123456789-_".toList

/-- The character of a value of six bits. -/
def toChar (n : ℕ) : Char := alphabet.getD n 'A'

/-- The value of a character. -/
def ofChar (c : Char) : Option ℕ := alphabet.findIdx? (· == c)

/-- The values of six bits each of a list of bytes. -/
def sextets : List UInt8 → List ℕ
  | a :: b :: c :: rest =>
    a.toNat / 4 :: (a.toNat % 4 * 16 + b.toNat / 16) :: (b.toNat % 16 * 4 + c.toNat / 64) ::
      c.toNat % 64 :: sextets rest
  | [a, b] => [a.toNat / 4, a.toNat % 4 * 16 + b.toNat / 16, b.toNat % 16 * 4]
  | [a] => [a.toNat / 4, a.toNat % 4 * 16]
  | [] => []

/-- The bytes of a list of values of six bits; no bits may be left over. -/
def ofSextets : List ℕ → Option (List UInt8)
  | p :: q :: r :: s :: rest => do
    let bytes ← ofSextets rest
    return UInt8.ofNat (p * 4 + q / 16) :: UInt8.ofNat (q % 16 * 16 + r / 4) ::
      UInt8.ofNat (r % 4 * 64 + s) :: bytes
  | [p, q, r] =>
    if r % 4 = 0 then
      some [UInt8.ofNat (p * 4 + q / 16), UInt8.ofNat (q % 16 * 16 + r / 4)]
    else
      none
  | [p, q] => if q % 16 = 0 then some [UInt8.ofNat (p * 4 + q / 16)] else none
  | [_] => none
  | [] => some []

/-- The text of a list of bytes. -/
def encode (bytes : List UInt8) : String := String.ofList ((sextets bytes).map toChar)

/-- The bytes of a text. -/
def decode (text : String) : Option (List UInt8) := (text.toList.mapM ofChar).bind ofSextets

theorem ofChar_toChar : ∀ n < 64, ofChar (toChar n) = some n := by decide

theorem utf8Size_toChar (n : ℕ) : (toChar n).utf8Size = 1 := by
  have hall : alphabet.all (fun c => c.utf8Size == 1) = true := by decide
  by_cases h : n < alphabet.length
  · have hget : toChar n = alphabet[n] := by
      show alphabet.getD n 'A' = _
      rw [List.getD_eq_getElem?_getD, List.getElem?_eq_getElem h, Option.getD_some]
    rw [hget]
    exact beq_iff_eq.mp (List.all_eq_true.mp hall _ (List.getElem_mem h))
  · have hget : toChar n = 'A' := by
      show alphabet.getD n 'A' = _
      rw [List.getD_eq_getElem?_getD, List.getElem?_eq_none (Nat.le_of_not_lt h),
        Option.getD_none]
    rw [hget]
    decide

theorem sextets_lt (bytes : List UInt8) : ∀ n ∈ sextets bytes, n < 64 := by
  fun_induction sextets bytes with
  | case1 a b c rest ih =>
    have ha := a.toNat_lt
    have hb := b.toNat_lt
    have hc := c.toNat_lt
    simp only [List.forall_mem_cons]
    refine ⟨by omega, by omega, by omega, by omega, ih⟩
  | case2 a b =>
    have ha := a.toNat_lt
    have hb := b.toNat_lt
    simp only [List.forall_mem_cons, List.not_mem_nil, false_implies, implies_true, and_true]
    omega
  | case3 a =>
    have ha := a.toNat_lt
    simp only [List.forall_mem_cons, List.not_mem_nil, false_implies, implies_true, and_true]
    omega
  | case4 => simp

/-- The bytes that the values of six bits were taken from. -/
theorem ofSextets_sextets (bytes : List UInt8) : ofSextets (sextets bytes) = some bytes := by
  have hbyte : ∀ (n : ℕ) (byte : UInt8), n = byte.toNat → UInt8.ofNat n = byte := by
    rintro n byte rfl
    exact UInt8.ofNat_toNat
  fun_induction sextets bytes with
  | case1 a b c rest ih =>
    have hb := b.toNat_lt
    have hc := c.toNat_lt
    rw [ofSextets, ih]
    show some (_ :: _ :: _ :: rest) = _
    rw [hbyte _ a (by omega), hbyte _ b (by omega), hbyte _ c (by omega)]
  | case2 a b =>
    have hb := b.toNat_lt
    rw [ofSextets, if_pos (by omega), hbyte _ a (by omega), hbyte _ b (by omega)]
  | case3 a => rw [ofSextets, if_pos (by omega), hbyte _ a (by omega)]
  | case4 => rfl

/-- What was written is read back. -/
theorem decode_encode (bytes : List UInt8) : decode (encode bytes) = some bytes := by
  have hchars : ∀ ns : List ℕ, (∀ n ∈ ns, n < 64) →
      (ns.map toChar).mapM ofChar = some ns := by
    intro ns hns
    induction ns with
    | nil => rfl
    | cons n ns ih =>
      rw [List.map_cons, List.mapM_cons, ofChar_toChar n (hns n List.mem_cons_self),
        ih fun m hm => hns m (List.mem_cons_of_mem _ hm)]
      rfl
  show ((String.ofList _).toList.mapM ofChar).bind ofSextets = _
  rw [String.toList_ofList, hchars _ (sextets_lt bytes)]
  exact ofSextets_sextets bytes

theorem length_sextets (bytes : List UInt8) :
    (sextets bytes).length = (4 * bytes.length + 2) / 3 := by
  fun_induction sextets bytes with
  | case1 a b c rest ih =>
    simp only [List.length_cons, ih]
    omega
  | case2 => simp
  | case3 => simp
  | case4 => rfl

/-- Every character of a text is one byte. -/
theorem utf8ByteSize_encode (bytes : List UInt8) :
    (encode bytes).utf8ByteSize = (4 * bytes.length + 2) / 3 := by
  have hsize : ∀ ns : List ℕ, String.utf8Len (ns.map toChar) = ns.length := by
    intro ns
    induction ns with
    | nil => rfl
    | cons n ns ih => rw [List.map_cons, String.utf8Len_cons, ih, utf8Size_toChar, List.length_cons]
  show (String.ofList _).utf8ByteSize = _
  rw [String.utf8ByteSize_ofList, hsize, length_sextets]

end Base64
