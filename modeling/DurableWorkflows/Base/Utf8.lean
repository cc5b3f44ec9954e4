import Mathlib.Data.List.Infix
import Mathlib.Data.Nat.Find
import Mathlib.Data.String.Basic

/-!
# Prefixes of a text within a byte limit

A text is a sequence of characters of one to four bytes each, so a byte limit
can fall inside a character. The longest prefix of a text within a limit ends on
a character boundary at or before the limit.

## Main definitions

- `Utf8.LongestPrefix`: the longest prefix of a text within a byte limit

## Main results

- `LongestPrefix.unique`, `mono`
- `LongestPrefix.of_findGreatest`: the last boundary at or before the limit
-/

namespace Utf8

/-- Of two prefixes of one text, the one with fewer bytes is a prefix of the other. -/
theorem exists_append_of_size_le {value p q p' q' : String} (hp : value = p ++ p')
    (hq : value = q ++ q') (hsize : p.utf8ByteSize ≤ q.utf8ByteSize) : ∃ rest, q = p ++ rest := by
  have hlp : p.toList <+: value.toList := ⟨p'.toList, by rw [hp, String.toList_append]⟩
  have hlq : q.toList <+: value.toList := ⟨q'.toList, by rw [hq, String.toList_append]⟩
  rcases List.prefix_or_prefix_of_prefix hlp hlq with ⟨rest, h⟩ | ⟨rest, h⟩
  · refine ⟨String.ofList rest, ?_⟩
    apply String.toList_injective
    rw [String.toList_append, String.toList_ofList, h]
  · have hbytes := congrArg String.utf8Len h
    rw [String.utf8Len_append, String.utf8Len_toList, String.utf8Len_toList] at hbytes
    have hrest : rest = [] := by
      cases rest with
      | nil => rfl
      | cons c rest =>
        have := c.utf8Size_pos
        rw [String.utf8Len_cons] at hbytes
        omega
    refine ⟨"", ?_⟩
    apply String.toList_injective
    rw [String.append_empty, ← h, hrest, List.append_nil]

/-- Two prefixes of one text with the same number of bytes are the same. -/
theorem eq_of_size_eq {value p q p' q' : String} (hp : value = p ++ p') (hq : value = q ++ q')
    (hsize : p.utf8ByteSize = q.utf8ByteSize) : p = q := by
  obtain ⟨rest, rfl⟩ := exists_append_of_size_le hp hq hsize.le
  rw [String.utf8ByteSize_append] at hsize
  have hrest : rest.utf8ByteSize = 0 := by omega
  rw [String.utf8ByteSize_eq_zero_iff.mp hrest, String.append_empty]

/-- `result` is the longest prefix of `value` of at most `limit` bytes that ends on a character
boundary. -/
structure LongestPrefix (value : String) (limit : ℕ) (result : String) : Prop where
  isPrefix : ∃ rest, value = result ++ rest
  fits : result.utf8ByteSize ≤ limit
  longest : ∀ {p rest : String}, value = p ++ rest → p.utf8ByteSize ≤ limit →
    p.utf8ByteSize ≤ result.utf8ByteSize

namespace LongestPrefix

variable {value result result' : String} {limit limit' : ℕ}

theorem self (h : value.utf8ByteSize ≤ limit) : LongestPrefix value limit value where
  isPrefix := ⟨"", String.append_empty.symm⟩
  fits := h
  longest := by
    rintro p rest rfl -
    rw [String.utf8ByteSize_append]
    omega

/-- A longer limit gives a longer prefix. -/
theorem mono (h : LongestPrefix value limit result) (h' : LongestPrefix value limit' result')
    (hle : limit ≤ limit') : ∃ rest, result' = result ++ rest := by
  obtain ⟨rest, hrest⟩ := h.isPrefix
  obtain ⟨rest', hrest'⟩ := h'.isPrefix
  exact exists_append_of_size_le hrest hrest' (h'.longest hrest (h.fits.trans hle))

theorem unique (h : LongestPrefix value limit result) (h' : LongestPrefix value limit result') :
    result = result' := by
  obtain ⟨rest, hrest⟩ := h.isPrefix
  obtain ⟨rest', hrest'⟩ := h'.isPrefix
  apply eq_of_size_eq hrest hrest'
  exact Nat.le_antisymm (h'.longest hrest h.fits) (h.longest hrest' h'.fits)

/-- Cutting at the last boundary at or before the limit gives the longest prefix. -/
theorem of_findGreatest (boundary : ℕ → Prop) [DecidablePred boundary] {rest : String}
    (hboundary : ∀ {index}, boundary index ↔ String.Pos.Raw.IsValid value ⟨index⟩)
    (hvalue : value = result ++ rest)
    (hsize : result.utf8ByteSize = Nat.findGreatest boundary limit) :
    LongestPrefix value limit result where
  isPrefix := ⟨rest, hvalue⟩
  fits := hsize ▸ Nat.findGreatest_le limit
  longest := by
    intro p rest' hp hfits
    rw [hsize]
    apply Nat.le_findGreatest hfits
    rw [hboundary, String.Pos.Raw.isValid_iff_exists_append]
    exact ⟨p, rest', hp, rfl⟩

end LongestPrefix

end Utf8
