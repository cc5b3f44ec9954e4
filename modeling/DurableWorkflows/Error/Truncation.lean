import DurableWorkflows.Base.Utf8
import DurableWorkflows.Error

/-!
# Truncated texts

`truncate_utf8` cuts the text of an error for its column. It searches backwards
from the limit for a character boundary; an index below zero and a cut inside a
character are panics.

## Main definitions

- `isCharBoundary`, `searchBoundary`, `truncateAt`, `runTruncateUtf8`

## Main results

- `searchBoundary_eq`: the loop ends, at the last boundary
- `runTruncateUtf8_eq`: the function returns what `truncateUtf8` says
- `runTruncateUtf8_longestPrefix`: that is the longest prefix that fits
- `runTruncateUtf8_keeps_longest`: idempotent, and monotone in the limit
-/

namespace DurableWorkflows

open Utf8

/-- `str::is_char_boundary`. -/
def isCharBoundary (value : String) (index : ℕ) : Bool :=
  String.Pos.Raw.isValid value ⟨index⟩

theorem isCharBoundary_iff {value : String} {index : ℕ} :
    isCharBoundary value index ↔ String.Pos.Raw.IsValid value ⟨index⟩ :=
  String.Pos.Raw.isValid_eq_true_iff

theorem isCharBoundary_zero (value : String) : isCharBoundary value 0 := by
  rw [isCharBoundary_iff, String.Pos.Raw.isValid_iff_exists_append]
  exact ⟨"", value, String.empty_append.symm, rfl⟩

/-- `while !value.is_char_boundary(boundary) { boundary -= 1; }`. There is no
value where the index would fall below zero. -/
def searchBoundary (value : String) : ℕ → Option ℕ
  | 0 => if isCharBoundary value 0 then some 0 else none
  | boundary + 1 =>
    if isCharBoundary value (boundary + 1) then
      some (boundary + 1)
    else
      searchBoundary value boundary

/-- `String::truncate`. There is no value where the cut falls inside a character. -/
def truncateAt (value : String) (newLen : ℕ) : Option String :=
  if newLen ≤ value.utf8ByteSize then
    if h : String.Pos.Raw.IsValid value ⟨newLen⟩ then
      some (String.ofByteArray (value.toByteArray.extract 0 newLen) h.isValidUTF8_extract_zero)
    else
      none
  else
    some value

/-- `truncate_utf8` as it runs. There is no value where it panics. -/
def runTruncateUtf8 (value : String) (maxBytes : ℕ) : Option String :=
  if value.utf8ByteSize ≤ maxBytes then
    some value
  else
    (searchBoundary value maxBytes).bind (truncateAt value)

-- ════════════════════════════════════════════════════════════════════════
-- The search
-- ════════════════════════════════════════════════════════════════════════

/-- The loop ends at the last boundary at or before its start. -/
theorem searchBoundary_eq (value : String) (boundary : ℕ) :
    searchBoundary value boundary =
      some (Nat.findGreatest (fun index => isCharBoundary value index) boundary) := by
  induction boundary with
  | zero =>
    rw [searchBoundary, if_pos (isCharBoundary_zero value), Nat.findGreatest_zero]
  | succ boundary ih =>
    rw [searchBoundary, Nat.findGreatest_succ, ih, apply_ite some]

/-- A cut at a boundary keeps the bytes before it. -/
theorem truncateAt_eq_some {value : String} {boundary : ℕ} (h : isCharBoundary value boundary) :
    ∃ result rest, truncateAt value boundary = some result ∧ value = result ++ rest ∧
      result.utf8ByteSize = boundary := by
  have hvalid := isCharBoundary_iff.mp h
  obtain ⟨result, rest, hvalue, hend⟩ := String.Pos.Raw.isValid_iff_exists_append.mp hvalid
  have hsize : result.utf8ByteSize = boundary := (congrArg String.Pos.Raw.byteIdx hend).symm
  have hle : boundary ≤ value.utf8ByteSize := by
    rw [hvalue, String.utf8ByteSize_append]
    omega
  refine ⟨result, rest, ?_, hvalue, hsize⟩
  rw [truncateAt, if_pos hle, dif_pos hvalid]
  apply congrArg some
  apply String.toByteArray_inj.mp
  show value.toByteArray.extract 0 boundary = result.toByteArray
  rw [hvalue, String.toByteArray_append, ByteArray.extract_append_eq_left]
  rw [← hsize, String.size_toByteArray]

/-- **What the code returns**: it never panics, and it returns the longest prefix that fits. -/
theorem runTruncateUtf8_longestPrefix (value : String) (maxBytes : ℕ) :
    ∃ result, runTruncateUtf8 value maxBytes = some result ∧
      LongestPrefix value maxBytes result := by
  unfold runTruncateUtf8
  by_cases hfits : value.utf8ByteSize ≤ maxBytes
  · exact ⟨value, if_pos hfits, .self hfits⟩
  · have hboundary : isCharBoundary value
        (Nat.findGreatest (fun index => isCharBoundary value index) maxBytes) :=
      Nat.findGreatest_spec (P := fun index => isCharBoundary value index) (Nat.zero_le maxBytes)
        (isCharBoundary_zero value)
    obtain ⟨result, rest, hcut, hvalue, hsize⟩ := truncateAt_eq_some hboundary
    rw [if_neg hfits, searchBoundary_eq, Option.bind_some]
    exact ⟨result, hcut, .of_findGreatest _ isCharBoundary_iff hvalue hsize⟩

-- ════════════════════════════════════════════════════════════════════════
-- Characters
-- ════════════════════════════════════════════════════════════════════════

theorem utf8Len_takeBytes_le (chars : List Char) (maxBytes : ℕ) :
    String.utf8Len (takeBytes chars maxBytes) ≤ maxBytes := by
  fun_induction takeBytes chars maxBytes with
  | case1 => exact Nat.zero_le _
  | case2 c chars maxBytes hle ih =>
    rw [String.utf8Len_cons]
    omega
  | case3 => exact Nat.zero_le _

theorem takeBytes_prefix (chars : List Char) (maxBytes : ℕ) : takeBytes chars maxBytes <+: chars := by
  fun_induction takeBytes chars maxBytes with
  | case1 => exact List.prefix_rfl
  | case2 c chars maxBytes hle ih => exact (List.prefix_cons_inj c).mpr ih
  | case3 => exact List.nil_prefix

/-- A prefix within the limit is taken. -/
theorem prefix_takeBytes {chars p : List Char} {maxBytes : ℕ} (hp : p <+: chars)
    (hfits : String.utf8Len p ≤ maxBytes) : p <+: takeBytes chars maxBytes := by
  fun_induction takeBytes chars maxBytes generalizing p with
  | case1 => exact hp
  | case2 c chars maxBytes hle ih =>
    cases p with
    | nil => exact List.nil_prefix
    | cons d p =>
      obtain ⟨rfl, htail⟩ := List.cons_prefix_cons.mp hp
      rw [String.utf8Len_cons] at hfits
      exact (List.prefix_cons_inj d).mpr (ih htail (by omega))
  | case3 c chars maxBytes hlt =>
    cases p with
    | nil => exact List.nil_prefix
    | cons d p =>
      obtain ⟨rfl, htail⟩ := List.cons_prefix_cons.mp hp
      rw [String.utf8Len_cons] at hfits
      omega

/-- Taking whole characters gives the longest prefix too. -/
theorem truncateUtf8_longestPrefix (value : String) (maxBytes : ℕ) :
    LongestPrefix value maxBytes (truncateUtf8 value maxBytes) := by
  unfold truncateUtf8
  by_cases hfits : value.utf8ByteSize ≤ maxBytes
  · rw [if_pos hfits]
    exact .self hfits
  · rw [if_neg hfits]
    obtain ⟨rest, hrest⟩ := takeBytes_prefix value.toList maxBytes
    refine ⟨⟨String.ofList rest, ?_⟩, ?_, ?_⟩
    · apply String.toList_injective
      rw [String.toList_append, String.toList_ofList, String.toList_ofList, hrest]
    · rw [← String.utf8Len_toList, String.toList_ofList]
      exact utf8Len_takeBytes_le _ _
    · intro p rest' hp hsize
      have hprefix : p.toList <+: value.toList := ⟨rest'.toList, by rw [hp, String.toList_append]⟩
      obtain ⟨more, hmore⟩ := prefix_takeBytes hprefix (String.utf8Len_toList p ▸ hsize)
      rw [← String.utf8Len_toList, ← String.utf8Len_toList (String.ofList _), String.toList_ofList,
        ← hmore, String.utf8Len_append]
      omega

/-- The code returns what `truncateUtf8` says. -/
theorem runTruncateUtf8_eq (value : String) (maxBytes : ℕ) :
    runTruncateUtf8 value maxBytes = some (truncateUtf8 value maxBytes) := by
  obtain ⟨result, hrun, hresult⟩ := runTruncateUtf8_longestPrefix value maxBytes
  rw [hrun, hresult.unique (truncateUtf8_longestPrefix value maxBytes)]

/-- **Truncated texts.** The function does not panic. It returns a text that fits, or the longest
prefix of it that ends on a character boundary within the limit; it is idempotent, and a larger
limit keeps what a smaller one keeps. -/
theorem runTruncateUtf8_keeps_longest (value : String) (maxBytes : ℕ) :
    ∃ result, runTruncateUtf8 value maxBytes = some result ∧
      (value.utf8ByteSize ≤ maxBytes → result = value) ∧
      (∃ rest, value = result ++ rest) ∧
      result.utf8ByteSize ≤ maxBytes ∧
      isCharBoundary value result.utf8ByteSize ∧
      (∀ index, isCharBoundary value index → index ≤ maxBytes → index ≤ result.utf8ByteSize) ∧
      runTruncateUtf8 result maxBytes = some result ∧
      ∀ moreBytes, maxBytes ≤ moreBytes →
        ∃ longer rest, runTruncateUtf8 value moreBytes = some longer ∧ longer = result ++ rest := by
  obtain ⟨result, hrun, hresult⟩ := runTruncateUtf8_longestPrefix value maxBytes
  have hidempotent : runTruncateUtf8 result maxBytes = some result := by
    rw [runTruncateUtf8, if_pos hresult.fits]
  refine ⟨result, hrun, fun hfits => hresult.unique (.self hfits), hresult.isPrefix, hresult.fits,
    ?_, ?_, hidempotent, ?_⟩
  · obtain ⟨rest, hvalue⟩ := hresult.isPrefix
    rw [isCharBoundary_iff, String.Pos.Raw.isValid_iff_exists_append]
    exact ⟨result, rest, hvalue, rfl⟩
  · intro index hindex hle
    rw [isCharBoundary_iff, String.Pos.Raw.isValid_iff_exists_append] at hindex
    obtain ⟨p, rest, hvalue, hend⟩ := hindex
    have hsize : index = p.utf8ByteSize := congrArg String.Pos.Raw.byteIdx hend
    rw [hsize]
    exact hresult.longest hvalue (hsize ▸ hle)
  · intro moreBytes hmore
    obtain ⟨longer, hlonger, hprefix⟩ := runTruncateUtf8_longestPrefix value moreBytes
    obtain ⟨rest, hrest⟩ := hresult.mono hprefix hmore
    exact ⟨longer, rest, hlonger, hrest⟩

example : [1, 2, 5, 9].map (runTruncateUtf8 "aé€😀") = [some "a", some "a", some "aé", some "aé€"] := by
  decide

end DurableWorkflows
