import DurableWorkflows.Admin.Query

/-!
# The pages of a timeline

An entry stands at its time, the rank of its table and its numbers. The text that the source
sorts by is in this order, the cursor that it writes is read back as this position, and the
filters of the five tables keep the entries after it: so the pages are those of one list that
is merged from the tables.

## Main results

- `timelineKey_lt_iff`: the order of the texts is the order of the numbers
- `decodeTimelineCursor_encode`: the cursor of an entry is read back
- `timelinePage_isPage`: a page is a page of the merged list
- `workflowTimeline_complete`: the pages are all entries, each once and in order
-/

namespace DurableWorkflows

open Keyset

/-- Where an entry stands: its time, the rank of its table, and its numbers. -/
abbrev TimelinePosition : Type := DbMillis ×ₗ ℕ ×ₗ List ℕ

/-- The position of an entry. -/
def TimelineEnvelope.position (e : TimelineEnvelope) : TimelinePosition :=
  toLex (e.occurredAt, toLex (e.rank, e.components))

/-- The numbers of a row of each rank. -/
def IsComponents : ℕ → List ℕ → Prop
  | 0, [id] | 1, [id] | 4, [id] => I64.IsId id
  | 2, [id, attemptNumber] => I64.IsId id ∧ I32.IsNumber attemptNumber
  | 3, [id, attemptNumber, sequence] =>
    I64.IsId id ∧ I32.IsNumber attemptNumber ∧ I32.IsNumber sequence
  | _, _ => False

/-- An entry that a row of the tables has. -/
structure TimelineEnvelope.Valid (e : TimelineEnvelope) : Prop where
  components : IsComponents e.rank e.components
  occurredAt : I64.InRange e.occurredAt

/-- The cursor after an entry. -/
def TimelineEnvelope.cursor (e : TimelineEnvelope) : TimelineCursor where
  timestamp := e.occurredAt
  rank := e.rank
  id := e.components.getD 0 0
  attemptNumber := e.components.getD 1 0
  sequence := e.components.getD 2 0

variable {rank rank' : ℕ} {components components' : List ℕ} {e e' : TimelineEnvelope}

/-- The numbers of a rank have one shape. -/
theorem IsComponents.shape (h : IsComponents rank components) :
    (rank = 0 ∨ rank = 1 ∨ rank = 4) ∧ (∃ id, components = [id] ∧ I64.IsId id) ∨
      rank = 2 ∧ (∃ id n, components = [id, n] ∧ I64.IsId id ∧ I32.IsNumber n) ∨
      rank = 3 ∧ ∃ id n k, components = [id, n, k] ∧ I64.IsId id ∧ I32.IsNumber n ∧
        I32.IsNumber k := by
  rw [IsComponents.eq_def] at h
  split at h
  · exact .inl ⟨.inl rfl, _, rfl, h⟩
  · exact .inl ⟨.inr (.inl rfl), _, rfl, h⟩
  · exact .inl ⟨.inr (.inr rfl), _, rfl, h⟩
  · exact .inr (.inl ⟨rfl, _, _, rfl, h⟩)
  · exact .inr (.inr ⟨rfl, _, _, _, rfl, h⟩)
  · cases h

theorem I64.IsId.lt {n : ℕ} (h : I64.IsId n) : n < 10 ^ 19 := by
  have := h.2
  rw [DbMillis.max] at this
  omega

theorem I32.IsNumber.isId {n : ℕ} (h : I32.IsNumber n) : I64.IsId n := by
  refine ⟨h.1, ?_⟩
  have := h.2
  rw [I32.max] at this
  rw [DbMillis.max]
  omega

theorem IsComponents.rank_lt (h : IsComponents rank components) : rank < 10 := by
  obtain ⟨h, -⟩ | ⟨rfl, -⟩ | ⟨rfl, -⟩ := h.shape
  · omega
  · decide
  · decide

theorem IsComponents.isId (h : IsComponents rank components) : ∀ n ∈ components, I64.IsId n := by
  obtain ⟨-, id, rfl, hid⟩ | ⟨-, id, n, rfl, hid, hn⟩ | ⟨-, id, n, k, rfl, hid, hn, hk⟩ := h.shape
  · simpa using hid
  · simpa using ⟨hid, hn.isId⟩
  · simpa using ⟨hid, hn.isId, hk.isId⟩

theorem IsComponents.length_eq (h : IsComponents rank components)
    (h' : IsComponents rank components') : components.length = components'.length := by
  have hone : ∀ {cs : List ℕ}, (∃ id, cs = [id] ∧ I64.IsId id) → cs.length = 1 := by
    rintro _ ⟨id, rfl, -⟩
    rfl
  rcases h.shape with ⟨hrank, hid⟩ | ⟨rfl, id, n, rfl, -⟩ | ⟨rfl, id, n, k, rfl, -⟩
  · rcases h'.shape with ⟨-, hid'⟩ | ⟨rfl, -⟩ | ⟨rfl, -⟩
    · rw [hone hid, hone hid']
    · omega
    · omega
  · rcases h'.shape with ⟨hrank, -⟩ | ⟨-, id', n', rfl, -⟩ | ⟨hrank, -⟩
    · omega
    · rfl
    · omega
  · rcases h'.shape with ⟨hrank, -⟩ | ⟨hrank, -⟩ | ⟨-, id', n', k', rfl, -⟩
    · omega
    · omega
    · rfl

theorem IsComponents.length_bounds (h : IsComponents rank components) :
    0 < components.length ∧ components.length ≤ 3 := by
  obtain ⟨-, id, rfl, -⟩ | ⟨-, id, n, rfl, -⟩ | ⟨-, id, n, k, rfl, -⟩ := h.shape <;>
    exact ⟨Nat.succ_pos _, by simp⟩

-- ════════════════════════════════════════════════════════════════════════
-- The order of the texts
-- ════════════════════════════════════════════════════════════════════════

theorem length_toDigits_rank (h : rank < 10) : (Nat.toDigits 10 rank).length = 1 := by
  rw [Nat.toDigits_of_lt_base h]
  rfl

/-- The order of the texts is the order of the numbers. -/
theorem timelineKey_lt_iff (h : IsComponents rank components)
    (h' : IsComponents rank' components') :
    timelineKey rank components < timelineKey rank' components' ↔
      toLex (rank, components) < toLex (rank', components') := by
  have hdigits : Nat.toDigits 10 rank < Nat.toDigits 10 rank' ↔ rank < rank' := by
    rw [Decimal.digits_lt_digits ((length_toDigits_rank h.rank_lt).trans
      (length_toDigits_rank h'.rank_lt).symm) (Decimal.all_toDigits _) (Decimal.all_toDigits _),
      Nat.ofDigitChars_ten_toDigits, Nat.ofDigitChars_ten_toDigits]
  have hinj : Nat.toDigits 10 rank = Nat.toDigits 10 rank' ↔ rank = rank' := by
    refine ⟨fun heq => ?_, congrArg _⟩
    rw [← Nat.ofDigitChars_ten_toDigits (n := rank), heq, Nat.ofDigitChars_ten_toDigits]
  rw [String.lt_iff_toList_lt, timelineKey, timelineKey, String.toList_ofList,
    String.toList_ofList, Decimal.append_lt_append ((length_toDigits_rank h.rank_lt).trans
      (length_toDigits_rank h'.rank_lt).symm), hdigits, hinj, Prod.Lex.toLex_lt_toLex]
  refine or_congr_right (and_congr_right ?_)
  rintro rfl
  have hlt : ∀ {ns : List ℕ}, (∀ n ∈ ns, I64.IsId n) → ∀ n ∈ ns, n < 10 ^ 20 :=
    fun hns n hn => (hns n hn).lt.trans (by decide)
  rw [List.cons_lt_cons_iff, ← Decimal.intercalate_padded_lt (by decide) (h.length_eq h')
    (hlt h.isId) (hlt h'.isId)]
  exact ⟨fun hlt => hlt.elim (fun hlt => absurd hlt (lt_irrefl _)) And.right,
    fun hlt => .inr ⟨rfl, hlt⟩⟩

/-- The merged entries are sorted by their positions. -/
theorem sort_key_le_iff (h : e.Valid) (h' : e'.Valid) :
    toLex (e.occurredAt, e.tieBreaker) ≤ toLex (e'.occurredAt, e'.tieBreaker) ↔
      e.position ≤ e'.position := by
  rw [← not_lt, ← not_lt, not_iff_not, TimelineEnvelope.position, TimelineEnvelope.position,
    Prod.Lex.toLex_lt_toLex, Prod.Lex.toLex_lt_toLex]
  refine or_congr_right (and_congr_right fun _ => ?_)
  exact timelineKey_lt_iff h'.components h.components

-- ════════════════════════════════════════════════════════════════════════
-- The cursor of an entry
-- ════════════════════════════════════════════════════════════════════════

theorem plain_toDigits (n : ℕ) : ∀ c ∈ Nat.toDigits 10 n, JsonText.Plain c := fun _ hc =>
  JsonText.plain_of_isDigit (Nat.isDigit_of_mem_toDigits (by decide) (by decide) hc)

/-- The scope of a timeline is short and plain. -/
theorem timelineScope_plain (workflowId : WorkflowId) :
    (∀ c ∈ (timelineScope workflowId).toList, JsonText.Plain c) ∧
      (timelineScope workflowId).toList.length =
        18 + (Nat.toDigits 10 workflowId).length := by
  have hlist : (timelineScope workflowId).toList =
      "workflow_timeline:".toList ++ Nat.toDigits 10 workflowId := by
    have hdigits : (toString workflowId).toList = Nat.toDigits 10 workflowId := by
      rw [Nat.toString_eq_repr]
      exact Nat.toList_repr
    exact (show ("workflow_timeline:" ++ toString workflowId).toList = _ from
      String.toList_append).trans (congrArg _ hdigits)
  have hscope : "workflow_timeline:".toList.all (fun c => decide (JsonText.Plain c)) = true ∧
      "workflow_timeline:".toList.length = 18 := by decide
  rw [hlist, List.length_append, hscope.2]
  refine ⟨fun c hc => ?_, rfl⟩
  rcases List.mem_append.mp hc with hc | hc
  · exact of_decide_eq_true (List.all_eq_true.mp hscope.1 c hc)
  · exact plain_toDigits workflowId c hc

/-- The text of an entry is short and plain. -/
theorem timelineKey_plain (h : IsComponents rank components) :
    (∀ c ∈ (timelineKey rank components).toList, JsonText.Plain c) ∧
      (timelineKey rank components).toList.length ≤ 64 := by
  have hlt : ∀ n ∈ components, n < 10 ^ 20 := fun n hn =>
    (h.isId n hn).lt.trans (by decide)
  obtain ⟨hpos, hle⟩ := h.length_bounds
  have hlength := Decimal.length_intercalate_padded ':' (by decide)
    (List.ne_nil_of_length_pos hpos) hlt
  rw [timelineKey, String.toList_ofList, List.length_append, List.length_cons,
    length_toDigits_rank h.rank_lt]
  refine ⟨fun c hc => ?_, by omega⟩
  rcases List.mem_append.mp hc with hc | hc
  · exact plain_toDigits rank c hc
  · rcases List.mem_cons.mp hc with rfl | hc
    · decide
    · rcases Decimal.mem_intercalate_padded hc with hdigit | rfl
      · exact JsonText.plain_of_isDigit hdigit
      · decide

/-- The position of a cursor for an entry. -/
def TimelineEnvelope.cursorPosition (e : TimelineEnvelope) : CursorPosition :=
  ⟨e.occurredAt, e.tieBreaker⟩

/-- The writer accepts the position of an entry, and it fits into a cursor. -/
theorem cursorPosition_fits {workflowId : WorkflowId} (hworkflow : I64.IsId workflowId)
    (he : e.Valid) : e.cursorPosition.Accepted (timelineScope workflowId) ∧
      fieldBytes (timelineScope workflowId) e.cursorPosition ≤ maxFieldBytes := by
  obtain ⟨hscope_plain, hscope_length⟩ := timelineScope_plain workflowId
  obtain ⟨hkey_plain, hkey_length⟩ := timelineKey_plain he.components
  obtain ⟨hscope, hscope'⟩ := JsonText.bytes_of_plain hscope_plain
  obtain ⟨hkey, hkey'⟩ := JsonText.bytes_of_plain hkey_plain
  have hdigits := (Nat.length_toDigits_le_iff (by decide) (by decide)).mpr hworkflow.lt
  have hpos : 0 < (timelineKey e.rank e.components).toList.length := by
    rw [timelineKey, String.toList_ofList, List.length_append, length_toDigits_rank
      he.components.rank_lt]
    omega
  have htime_plain : ∀ c ∈ (toString e.occurredAt).toList, JsonText.Plain c := by
    intro c hc
    rcases Decimal.mem_toList hc with hdigit | rfl
    · exact JsonText.plain_of_isDigit hdigit
    · decide
  have htime_lt : e.occurredAt.natAbs < 10 ^ 19 := by
    have := he.occurredAt
    rw [I64.InRange, DbMillis.min, DbMillis.max] at this
    omega
  have htime := (JsonText.bytes_of_plain htime_plain).1
  have htime_length := Decimal.length_toList_le (by decide) htime_lt
  refine ⟨⟨?_, ?_⟩, ?_⟩
  · rw [validateScope, rejectIf, if_neg]
    rintro (h | h | h)
    · omega
    · omega
    · refine h (List.all_eq_true.mpr fun c hc => decide_eq_true ?_)
      have := (hscope_plain c hc).2.1
      omega
  · show validateTieBreaker (timelineKey e.rank e.components) = _
    rw [validateTieBreaker, rejectIf, if_neg]
    omega
  · show JsonText.escapedBytes _ + (toString e.occurredAt).utf8ByteSize +
      JsonText.escapedBytes (timelineKey e.rank e.components) ≤ 330
    omega

theorem parseRank_toDigits (h : rank < 10) : parseRank (Nat.toDigits 10 rank) = .ok rank := by
  have hparse : Decimal.parseUnsigned (Nat.toDigits 10 rank) = some rank := by
    rw [Decimal.parseUnsigned_of_digits (Decimal.all_toDigits rank), Decimal.parseNat_toDigits]
  have hfilter : (some rank).filter (· < 256) = some rank := by
    rw [Option.filter_some, if_pos (decide_eq_true (by omega))]
  rw [parseRank, hparse, hfilter]

theorem parseComponents_padded (h : ∀ n ∈ components, (n : ℤ) ≤ DbMillis.max) :
    (components.map (Decimal.padded 20)).mapM parseComponent =
      .ok (components.map fun n : ℕ => (n : ℤ)) := by
  induction components with
  | nil => rfl
  | cons n ns ih =>
    have hrange : I64.InRange (n : ℤ) := by
      refine ⟨?_, h n List.mem_cons_self⟩
      rw [DbMillis.min]
      omega
    have hfilter : (some (n : ℤ)).filter (fun n => decide (I64.InRange n)) = some (n : ℤ) := by
      rw [Option.filter_some, if_pos (decide_eq_true hrange)]
    have hparse : parseComponent (Decimal.padded 20 n) = .ok (n : ℤ) := by
      rw [parseComponent, Decimal.parseInt_padded, hfilter]
    rw [List.map_cons, List.mapM_cons, hparse, ih fun m hm => h m (List.mem_cons_of_mem _ hm)]
    rfl

/-- The text of an entry falls into its rank and its numbers. -/
theorem splitOn_timelineKey (h : IsComponents rank components) :
    (timelineKey rank components).toList.splitOn ':' =
      Nat.toDigits 10 rank :: components.map (Decimal.padded 20) := by
  have hjoin : (timelineKey rank components).toList =
      [':'].intercalate (Nat.toDigits 10 rank :: components.map (Decimal.padded 20)) := by
    rw [timelineKey, String.toList_ofList]
    match components, h.length_bounds.1 with
    | n :: ns, _ =>
      rw [List.map_cons, List.intercalate_cons_cons, List.append_assoc, List.singleton_append]
  rw [hjoin]
  refine List.splitOn_intercalate ':' (fun cs hcs hmem => ?_) (List.cons_ne_nil _ _)
  have hdigits : cs.all Char.isDigit = true := by
    rcases List.mem_cons.mp hcs with rfl | hcs
    · exact Decimal.all_toDigits rank
    · obtain ⟨n, -, rfl⟩ := List.mem_map.mp hcs
      exact Decimal.all_padded 20 n
  exact absurd (List.all_eq_true.mp hdigits ':' hmem) (by decide)

theorem optionalComponent_of_some {cs : List ℤ} {index n : ℕ} {message : String}
    (hget : cs[index]? = some (n : ℤ)) (hn : I32.IsNumber n) :
    optionalComponent cs index message = .ok n := by
  rw [optionalComponent, hget]
  exact if_pos (by exact_mod_cast hn.2)

/-- The rank and the numbers of an entry pass the checks. -/
theorem checkTimelineCursor_ok (timestamp : DbMillis) (h : IsComponents rank components) :
    checkTimelineCursor timestamp rank (components.map fun n : ℕ => (n : ℤ)) =
      .ok ⟨timestamp, rank, components.getD 0 0, components.getD 1 0, components.getD 2 0⟩ := by
  have hpositive : ¬ (components.map fun n : ℕ => (n : ℤ)).any (· ≤ 0) := by
    rw [List.any_map, List.any_eq_true]
    rintro ⟨n, hn, hle⟩
    have := (h.isId n hn).1
    have hle : (n : ℤ) ≤ 0 := of_decide_eq_true hle
    omega
  have hcheck : ∀ expected, (components.map fun n : ℕ => (n : ℤ)).length = expected →
      ¬ ((components.map fun n : ℕ => (n : ℤ)).length ≠ expected ∨
        (components.map fun n : ℕ => (n : ℤ)).any (· ≤ 0)) := fun expected hlength =>
    not_or.mpr ⟨fun hne => hne hlength, hpositive⟩
  rw [checkTimelineCursor]
  obtain ⟨hrank, id, rfl, -⟩ | ⟨rfl, id, n, rfl, -, hn⟩ | ⟨rfl, id, n, k, rfl, -, hn, hk⟩ :=
    h.shape
  · have hexpected : expectedComponents rank = .ok 1 := by
      rcases hrank with rfl | rfl | rfl <;> rfl
    rw [hexpected]
    show (rejectIf _ _ >>= _) = _
    rw [rejectIf, if_neg (hcheck 1 rfl)]
    rfl
  · show (rejectIf _ _ >>= _) = _
    rw [rejectIf, if_neg (hcheck 2 rfl)]
    show (optionalComponent _ 1 _ >>= _) = _
    rw [optionalComponent_of_some rfl hn]
    rfl
  · show (rejectIf _ _ >>= _) = _
    rw [rejectIf, if_neg (hcheck 3 rfl)]
    show (optionalComponent _ 1 _ >>= _) = _
    rw [optionalComponent_of_some rfl hn]
    show (optionalComponent _ 2 _ >>= _) = _
    rw [optionalComponent_of_some rfl hk]
    rfl

/-- The cursor of an entry is read back. -/
theorem decodeTimelineCursor_encode (codec : CursorCodec) {workflowId : WorkflowId}
    (hworkflow : I64.IsId workflowId) (he : e.Valid) :
    ∃ cursor, encodeCursor codec (timelineScope workflowId) e.cursorPosition = .ok cursor ∧
      decodeTimelineCursor codec (timelineScope workflowId) cursor = .ok e.cursor := by
  obtain ⟨haccepted, hfits⟩ := cursorPosition_fits hworkflow he
  refine ⟨_, encodeCursor_ok haccepted, ?_⟩
  have hdecode : decodeCursor codec _ _ = _ :=
    decodeCursor_eq he.occurredAt haccepted.1 haccepted
  rw [if_neg (not_lt.mpr hfits), if_pos rfl] at hdecode
  rw [decodeTimelineCursor, hdecode]
  show Except.bind (.ok _) _ = _
  have htie : e.cursorPosition.tieBreaker = timelineKey e.rank e.components := rfl
  rw [Except.bind, htie, splitOn_timelineKey he.components]
  show (parseRank _ >>= _) = _
  rw [parseRank_toDigits he.components.rank_lt]
  show (List.mapM parseComponent _ >>= _) = _
  rw [parseComponents_padded fun n hn => (he.components.isId n hn).2]
  exact checkTimelineCursor_ok e.occurredAt he.components

-- ════════════════════════════════════════════════════════════════════════
-- The five tables
-- ════════════════════════════════════════════════════════════════════════

/-- The rows of a table that pass the cursor of an entry, in the order of their columns, are the
entries after it, in order. -/
theorem sourcePage_eq {Row Order : Type} [LE Order] [DecidableLE Order] {rows : List Row}
    {passes : TimelineCursor → Row → Bool} {order : Row → Order} {envelope : Row → TimelineEnvelope}
    {last : Option TimelineEnvelope} (limit : ℕ)
    (hpasses : ∀ e ∈ last, ∀ row ∈ rows,
      passes e.cursor row = decide (e.position < (envelope row).position))
    (horder : ∀ row ∈ rows, ∀ row' ∈ rows,
      order row ≤ order row' ↔ (envelope row).position ≤ (envelope row').position) :
    sourcePage rows passes order envelope (last.map (·.cursor)) limit =
      (sort (·.position) (after (·.position) (last.map (·.position)) (rows.map envelope))).take
        limit := by
  have hfilter : (rows.filter fun row => (last.map (·.cursor)).all (passes · row)).map envelope =
      after (·.position) (last.map (·.position)) (rows.map envelope) := by
    rw [after, List.filter_map]
    refine congrArg _ (List.filter_congr fun row hrow => ?_)
    cases last with
    | none => rfl
    | some e => exact hpasses e rfl row hrow
  rw [sourcePage, List.map_take, orderBy, ← hfilter]
  refine congrArg _ (List.map_insertionSort _ _ _ _ fun row hrow row' hrow' => ?_)
  exact horder row (List.mem_of_mem_filter hrow) row' (List.mem_of_mem_filter hrow')

/-- The filter of a table keeps the rows after the entry of the cursor. -/
theorem applyTimelineCursor_eq {Row : Type} {time : Row → DbMillis}
    {beyond : TimelineCursor → Row → Bool} {row : Row} (htime : e'.occurredAt = time row)
    (hrank : e'.rank = rank)
    (hbeyond : e.rank = rank → (beyond e.cursor row = true ↔ e.components < e'.components)) :
    applyTimelineCursor rank time beyond e.cursor row = decide (e.position < e'.position) := by
  subst hrank
  have hlt : e.position < e'.position ↔ e.occurredAt < time row ∨
      e.occurredAt = time row ∧ (e.rank < e'.rank ∨
        e.rank = e'.rank ∧ e.components < e'.components) := by
    rw [TimelineEnvelope.position, TimelineEnvelope.position, Prod.Lex.toLex_lt_toLex,
      Prod.Lex.toLex_lt_toLex, htime]
  have hcursor : e.cursor.timestamp = e.occurredAt ∧ e.cursor.rank = e.rank := ⟨rfl, rfl⟩
  rw [Bool.eq_iff_iff, decide_eq_true_eq, hlt, applyTimelineCursor, hcursor.1, hcursor.2]
  rcases lt_trichotomy e'.rank e.rank with hrank | hrank | hrank
  · rw [if_pos hrank, decide_eq_true_eq]
    refine ⟨.inl, fun h => h.elim id fun h => ?_⟩
    omega
  · have hnlt : ¬ e'.rank < e.rank := by omega
    have hngt : ¬ e.rank < e'.rank := by omega
    rw [if_neg hnlt, if_neg hngt, Bool.or_eq_true, Bool.and_eq_true, decide_eq_true_eq,
      beq_iff_eq, hbeyond hrank.symm]
    refine or_congr_right (and_congr eq_comm ?_)
    exact ⟨fun h => .inr ⟨hrank.symm, h⟩, fun h => (h.resolve_left hngt).2⟩
  · have hnlt : ¬ e'.rank < e.rank := by omega
    rw [if_neg hnlt, if_pos hrank, decide_eq_true_eq]
    refine ⟨fun h => ?_, fun h => h.elim le_of_lt fun h => h.1.le⟩
    exact (lt_or_eq_of_le h).imp id fun h => ⟨h, .inl hrank⟩

theorem position_le_iff (hrank : e.rank = e'.rank) : e.position ≤ e'.position ↔
    e.occurredAt < e'.occurredAt ∨
      e.occurredAt = e'.occurredAt ∧ e.components ≤ e'.components := by
  rw [TimelineEnvelope.position, TimelineEnvelope.position, Prod.Lex.toLex_le_toLex,
    Prod.Lex.toLex_le_toLex]
  refine or_congr_right (and_congr_right fun _ => ?_)
  exact ⟨fun h => (h.resolve_left hrank.not_lt).2, fun h => .inr ⟨hrank, h⟩⟩

theorem cons_lt_cons {n m : ℕ} {ns ms : List ℕ} :
    n :: ns < m :: ms ↔ n < m ∨ n = m ∧ ns < ms := List.cons_lt_cons_iff

theorem cons_le_cons {n m : ℕ} {ns ms : List ℕ} :
    n :: ns ≤ m :: ms ↔ n < m ∨ n = m ∧ ns ≤ ms := by
  rw [le_iff_lt_or_eq, le_iff_lt_or_eq, List.cons.injEq, cons_lt_cons]
  tauto

/-- Lists of one number are in the order of the number. -/
theorem singleton_le_iff {n m : ℕ} : [n] ≤ [m] ↔ n ≤ m := by
  rw [cons_le_cons, and_iff_left (le_refl ([] : List ℕ)), ← le_iff_lt_or_eq]

theorem singleton_lt_iff {n m : ℕ} : [n] < [m] ↔ n < m := by
  rw [← not_le, singleton_le_iff, not_le]

/-- The rank of an entry tells how many numbers it has. -/
theorem numeric_components (he : e.Valid) (hrank : e.rank = 0 ∨ e.rank = 1 ∨ e.rank = 4) :
    e.components = [e.cursor.id] := by
  obtain ⟨-, id, hid, -⟩ | ⟨h, -⟩ | ⟨h, -⟩ := he.components.shape
  · rw [TimelineEnvelope.cursor, hid]
    rfl
  · omega
  · omega

theorem attempt_components (he : e.Valid) (hrank : e.rank = 2) :
    e.components = [e.cursor.id, e.cursor.attemptNumber] := by
  obtain ⟨h, -⟩ | ⟨-, id, n, hid, -⟩ | ⟨h, -⟩ := he.components.shape
  · omega
  · rw [TimelineEnvelope.cursor, hid]
    rfl
  · omega

theorem progress_components (he : e.Valid) (hrank : e.rank = 3) :
    e.components = [e.cursor.id, e.cursor.attemptNumber, e.cursor.sequence] := by
  obtain ⟨h, -⟩ | ⟨h, -⟩ | ⟨-, id, n, k, hid, -⟩ := he.components.shape
  · omega
  · omega
  · rw [TimelineEnvelope.cursor, hid]
    rfl

section Sources

variable {last : Option TimelineEnvelope} (hlast : ∀ e ∈ last, e.Valid) (limit : ℕ)

include hlast

/-- A table whose rows have one number: the events, the activities and the approvals. -/
theorem numericPage_eq {Row : Type} {rows : List Row} {time : Row → DbMillis} {id : Row → ℕ}
    {envelope : Row → TimelineEnvelope} (hrank : rank = 0 ∨ rank = 1 ∨ rank = 4)
    (henvelope : ∀ row, (envelope row).occurredAt = time row ∧ (envelope row).rank = rank ∧
      (envelope row).components = [id row]) :
    sourcePage rows (applyNumericTimelineCursor time id rank) (fun row => toLex (time row, id row))
        envelope (last.map (·.cursor)) limit =
      (sort (·.position) (after (·.position) (last.map (·.position)) (rows.map envelope))).take
        limit := by
  refine sourcePage_eq limit (fun e he row _ => ?_) fun row _ row' _ => ?_
  · obtain ⟨htime, hrow_rank, hcomponents⟩ := henvelope row
    refine applyTimelineCursor_eq htime hrow_rank fun hsame => ?_
    rw [hcomponents, numeric_components (hlast e he) (by omega), decide_eq_true_eq,
      singleton_lt_iff]
  · obtain ⟨htime, hrow_rank, hcomponents⟩ := henvelope row
    obtain ⟨htime', hrow_rank', hcomponents'⟩ := henvelope row'
    rw [position_le_iff (hrow_rank.trans hrow_rank'.symm), htime, htime', hcomponents,
      hcomponents', singleton_le_iff, Prod.Lex.toLex_le_toLex]

/-- The attempts. -/
theorem attemptPage_eq (rows : List ActivityAttemptRow) :
    sourcePage rows applyAttemptTimelineCursor
        (fun r => toLex (r.startedAt, toLex (r.activityId, r.attemptNumber)))
        attemptEnvelope (last.map (·.cursor)) limit =
      (sort (·.position) (after (·.position) (last.map (·.position))
        (rows.map attemptEnvelope))).take limit := by
  refine sourcePage_eq limit (fun e he row _ => ?_) fun row _ row' _ => ?_
  · refine applyTimelineCursor_eq rfl rfl fun hsame => ?_
    rw [attempt_components (hlast e he) hsame]
    show _ ↔ _ < [row.activityId, row.attemptNumber]
    rw [cons_lt_cons, singleton_lt_iff, Bool.or_eq_true, Bool.and_eq_true, decide_eq_true_eq,
      decide_eq_true_eq, beq_iff_eq]
    exact or_congr_right (and_congr_left fun _ => eq_comm)
  · have hposition : (attemptEnvelope row).position ≤ (attemptEnvelope row').position ↔ _ :=
      position_le_iff rfl
    rw [hposition, Prod.Lex.toLex_le_toLex,
      Prod.Lex.toLex_le_toLex]
    show _ ↔ _ ∨ _ ∧ [row.activityId, row.attemptNumber] ≤ [row'.activityId, row'.attemptNumber]
    rw [cons_le_cons, singleton_le_iff]
    rfl

/-- The progress events. -/
theorem progressPage_eq (rows : List ProgressEventRow) :
    sourcePage rows applyProgressTimelineCursor
        (fun r => toLex (r.createdAt, toLex (r.activityId, toLex (r.attemptNumber, r.sequence))))
        progressEnvelope (last.map (·.cursor)) limit =
      (sort (·.position) (after (·.position) (last.map (·.position))
        (rows.map progressEnvelope))).take limit := by
  refine sourcePage_eq limit (fun e he row _ => ?_) fun row _ row' _ => ?_
  · refine applyTimelineCursor_eq rfl rfl fun hsame => ?_
    rw [progress_components (hlast e he) hsame]
    show _ ↔ _ < [row.activityId, row.attemptNumber, row.sequence]
    rw [cons_lt_cons, cons_lt_cons, singleton_lt_iff, Bool.or_eq_true, Bool.and_eq_true,
      Bool.or_eq_true, Bool.and_eq_true, decide_eq_true_eq, decide_eq_true_eq, decide_eq_true_eq,
      beq_iff_eq, beq_iff_eq]
    refine or_congr_right (and_congr eq_comm (or_congr_right (and_congr_left fun _ => eq_comm)))
  · have hposition : (progressEnvelope row).position ≤ (progressEnvelope row').position ↔ _ :=
      position_le_iff rfl
    rw [hposition, Prod.Lex.toLex_le_toLex,
      Prod.Lex.toLex_le_toLex, Prod.Lex.toLex_le_toLex]
    show _ ↔ _ ∨ _ ∧ [row.activityId, row.attemptNumber, row.sequence] ≤
      [row'.activityId, row'.attemptNumber, row'.sequence]
    rw [cons_le_cons, cons_le_cons, singleton_le_iff]
    rfl

end Sources

namespace TimelineTables

variable (tables : TimelineTables) (workflowId : WorkflowId)

/-- The entries of the five tables. -/
def sources : List (List TimelineEnvelope) :=
  [(tables.workflowEvents workflowId).map eventEnvelope,
    (tables.workflowActivities workflowId).map activityEnvelope,
    (tables.workflowAttempts workflowId).map attemptEnvelope,
    (tables.workflowProgress workflowId).map progressEnvelope,
    (tables.workflowApprovals workflowId).map approvalEnvelope]

/-- All entries of a workflow. -/
def entries : List TimelineEnvelope := (tables.sources workflowId).flatten

/-- What is loaded are the first entries of each table after the entry of the cursor. -/
theorem loadTimeline_eq {last : Option TimelineEnvelope} (hlast : ∀ e ∈ last, e.Valid)
    (limit : ℕ) : loadTimeline tables workflowId (last.map (·.cursor)) limit =
      (((tables.sources workflowId).map (after (·.position) (last.map (·.position)))).map
        fun xs => (sort (·.position) xs).take limit).flatten := by
  simp only [loadTimeline, sources, List.map_cons, List.map_nil, List.flatten_cons,
    List.flatten_nil, List.append_nil, List.append_assoc]
  refine congrArg₂ _ (numericPage_eq hlast limit (.inl rfl) fun _ => ⟨rfl, rfl, rfl⟩) ?_
  refine congrArg₂ _ (numericPage_eq hlast limit (.inr (.inl rfl)) fun _ => ⟨rfl, rfl, rfl⟩) ?_
  refine congrArg₂ _ (attemptPage_eq hlast limit _) ?_
  refine congrArg₂ _ (progressPage_eq hlast limit _) ?_
  exact numericPage_eq hlast limit (.inr (.inr rfl)) fun _ => ⟨rfl, rfl, rfl⟩

variable {tables workflowId}

/-- The entries of a table have its rank. -/
theorem rank_of_mem_sources {i : ℕ} {xs : List TimelineEnvelope}
    (hget : (tables.sources workflowId)[i]? = some xs) {e : TimelineEnvelope} (he : e ∈ xs) :
    e.rank = i := by
  match i, hget with
  | 0, rfl | 1, rfl | 2, rfl | 3, rfl | 4, rfl =>
    obtain ⟨row, -, rfl⟩ := List.mem_map.mp he
    rfl

/-- Every entry is one of a row. -/
theorem valid_of_mem {e : TimelineEnvelope} (he : e ∈ tables.entries workflowId) : e.Valid := by
  obtain ⟨xs, hxs, he⟩ := List.mem_flatten.mp he
  obtain ⟨i, hget⟩ := List.mem_iff_getElem?.mp hxs
  match i, hget with
  | 0, rfl =>
    obtain ⟨row, hrow, rfl⟩ := List.mem_map.mp he
    obtain ⟨hid, htime⟩ := tables.eventRange row (List.mem_of_mem_filter hrow)
    exact ⟨hid, htime⟩
  | 1, rfl =>
    obtain ⟨row, hrow, rfl⟩ := List.mem_map.mp he
    obtain ⟨hid, htime⟩ := tables.activityRange row (List.mem_of_mem_filter hrow)
    exact ⟨hid, htime⟩
  | 2, rfl =>
    obtain ⟨row, hrow, rfl⟩ := List.mem_map.mp he
    obtain ⟨hid, hnumber, htime⟩ := tables.attemptRange row (List.mem_of_mem_filter hrow)
    exact ⟨⟨hid, hnumber⟩, htime⟩
  | 3, rfl =>
    obtain ⟨row, hrow, rfl⟩ := List.mem_map.mp he
    obtain ⟨hid, hnumber, hsequence, htime⟩ :=
      tables.progressRange row (List.mem_of_mem_filter hrow)
    exact ⟨⟨hid, hnumber, hsequence⟩, htime⟩
  | 4, rfl =>
    obtain ⟨row, hrow, rfl⟩ := List.mem_map.mp he
    obtain ⟨hid, htime⟩ := tables.approvalRange row (List.mem_of_mem_filter hrow)
    exact ⟨hid, htime⟩

/-- Rows with different keys have entries at different positions. -/
theorem nodup_map_envelope {Row Key : Type} {rows : List Row} {key : Row → Key}
    {envelope : Row → TimelineEnvelope} {p : Row → Bool} (hkey : (rows.map key).Nodup)
    (hinj : ∀ row row', (envelope row).components = (envelope row').components →
      key row = key row') :
    (((rows.filter p).map envelope).map (·.position)).Nodup := by
  rw [List.map_map]
  refine List.pairwise_map.mpr ((List.pairwise_map.mp hkey).filter p |>.imp ?_)
  intro row row' hne hposition
  have hcomponents : (envelope row).components = (envelope row').components :=
    congrArg (fun position => (ofLex (ofLex position).2).2) hposition
  exact hne (hinj row row' hcomponents)

variable (tables workflowId) in
/-- No two entries stand at one position. -/
theorem nodup_positions : ((tables.entries workflowId).map (·.position)).Nodup := by
  rw [entries, List.map_flatten, List.nodup_flatten]
  constructor
  · intro positions hpositions
    obtain ⟨xs, hxs, rfl⟩ := List.mem_map.mp hpositions
    obtain ⟨i, hget⟩ := List.mem_iff_getElem?.mp hxs
    match i, hget with
    | 0, rfl => exact nodup_map_envelope tables.eventKey fun _ _ h => (List.cons.inj h).1
    | 1, rfl => exact nodup_map_envelope tables.activityKey fun _ _ h => (List.cons.inj h).1
    | 2, rfl =>
      refine nodup_map_envelope tables.attemptKey fun row row' h => ?_
      obtain ⟨hid, hrest⟩ := List.cons.inj h
      exact Prod.ext hid (List.cons.inj hrest).1
    | 3, rfl =>
      refine nodup_map_envelope tables.progressKey fun row row' h => ?_
      obtain ⟨hid, hrest⟩ := List.cons.inj h
      obtain ⟨hnumber, hrest⟩ := List.cons.inj hrest
      exact Prod.ext hid (Prod.ext hnumber (List.cons.inj hrest).1)
    | 4, rfl => exact nodup_map_envelope tables.approvalKey fun _ _ h => (List.cons.inj h).1
  · -- the ranks keep the tables apart
    rw [List.pairwise_map, List.pairwise_iff_getElem]
    intro i j hi hj hlt position hmem hmem'
    obtain ⟨e, he, rfl⟩ := List.mem_map.mp hmem
    obtain ⟨e', he', hposition⟩ := List.mem_map.mp hmem'
    have hrank := rank_of_mem_sources (List.getElem?_eq_getElem hi) he
    have hrank' := rank_of_mem_sources (List.getElem?_eq_getElem hj) he'
    have hsame : e'.rank = e.rank :=
      congrArg (fun position => (ofLex (ofLex position).2).1) hposition
    omega

end TimelineTables

-- ════════════════════════════════════════════════════════════════════════
-- Pages
-- ════════════════════════════════════════════════════════════════════════

section Pages

variable {codec : CursorCodec} {tables : TimelineTables} {workflowId : WorkflowId}

/-- A cursor of a request stands for the position of the entry it was written for. -/
def MarksEntry (codec : CursorCodec) (workflowId : WorkflowId) (cursor : Option String)
    (mark : Option TimelinePosition) : Prop :=
  ∃ last : Option TimelineEnvelope, (∀ e ∈ last, e.Valid) ∧ mark = last.map (·.position) ∧
    requestCursor codec workflowId cursor = .ok (last.map (·.cursor))

theorem marksEntry_none : MarksEntry codec workflowId none none :=
  ⟨none, (fun _ h => nomatch h), rfl, rfl⟩

/-- All entries of a workflow in their order. -/
def TimelineTables.timeline (tables : TimelineTables) (workflowId : WorkflowId) :
    List TimelineEnvelope := sort (·.position) (tables.entries workflowId)

variable (codec) in
/-- The cursor after the last entry of a page stands for it. -/
theorem timelineNextCursor_ok (hworkflow : I64.IsId workflowId) {shown : List TimelineEnvelope}
    (hlast : shown.getLast? = some e) (he : e.Valid) :
    ∃ cursor, timelineNextCursor codec workflowId shown = .ok (some cursor) ∧
      MarksEntry codec workflowId (some cursor) (some e.position) := by
  obtain ⟨cursor, hencode, hdecode⟩ := decodeTimelineCursor_encode codec hworkflow he
  refine ⟨cursor, ?_, some e, fun _ h => Option.some_inj.mp h ▸ he, rfl, ?_⟩
  · rw [timelineNextCursor, hlast]
    show (encodeCursor codec _ e.cursorPosition >>= _) = _
    rw [hencode]
    rfl
  · rw [requestCursor, hdecode]
    rfl

/-- The text of an entry orders it as its position does. -/
theorem orderBy_eq_sort {loaded : List TimelineEnvelope} (hvalid : ∀ e ∈ loaded, e.Valid) :
    orderBy (fun e : TimelineEnvelope => toLex (e.occurredAt, e.tieBreaker)) loaded =
      sort (·.position) loaded :=
  insertionSort_eq_sort fun e he e' he' => sort_key_le_iff (hvalid e he) (hvalid e' he')

variable (tables workflowId) in
/-- The entries that are loaded and sorted are those after the cursor, as far as a page shows
them. -/
theorem take_loaded {last : Option TimelineEnvelope} (hlast : ∀ e ∈ last, e.Valid) (limit : ℕ) :
    let loaded := orderBy (fun e : TimelineEnvelope => toLex (e.occurredAt, e.tieBreaker))
      (loadTimeline tables workflowId (last.map (·.cursor)) (limit + 1))
    let rest := after (·.position) (last.map (·.position)) (tables.timeline workflowId)
    loaded.take limit = rest.take limit ∧ (limit < loaded.length ↔ limit < rest.length) := by
  intro loaded rest
  have hnodup := tables.nodup_positions workflowId
  let left := (tables.sources workflowId).map (after (·.position) (last.map (·.position)))
  let tops := left.map fun xs => (sort (·.position) xs).take (limit + 1)
  have hrest : rest = sort (·.position) left.flatten := by
    show after _ _ (sort _ _) = _
    rw [after_sort _ hnodup, TimelineTables.entries, after_flatten]
  have hsub : left.flatten.Sublist (tables.entries workflowId) := by
    show (List.flatten (List.map _ _)).Sublist _
    rw [← after_flatten]
    exact List.filter_sublist
  have hvalid : ∀ e ∈ tops.flatten, e.Valid := by
    intro e he
    obtain ⟨xs, hxs, he⟩ := List.mem_flatten.mp he
    obtain ⟨ys, hys, rfl⟩ := List.mem_map.mp hxs
    have hmem := (perm_sort _ ys).mem_iff.mp (List.mem_of_mem_take he)
    exact TimelineTables.valid_of_mem (hsub.subset (List.mem_flatten.mpr ⟨ys, hys, hmem⟩))
  have hloaded : loaded = sort (·.position) tops.flatten := by
    show orderBy _ (loadTimeline _ _ _ _) = _
    rw [tables.loadTimeline_eq workflowId hlast]
    exact orderBy_eq_sort hvalid
  have hlengths : tops.flatten.length ≤ left.flatten.length ∧
      min left.flatten.length (limit + 1) ≤ tops.flatten.length := length_tops left
  rw [hloaded, hrest, (perm_sort _ _).length_eq, (perm_sort _ _).length_eq]
  refine ⟨take_sort_flatten left (hnodup.sublist (hsub.map _)) (Nat.le_succ limit), ?_⟩
  omega

/-- A page is a page of the timeline. -/
theorem timelinePage_isPage (hworkflow : workflowId ∈ tables.workflows) {cursor : Option String}
    {mark : Option TimelinePosition} {limit : Option ℕ}
    (hlimit : LimitAccepted maxTimelinePageSize limit)
    (hmark : MarksEntry codec workflowId cursor mark) :
    ∃ result, timelinePage codec tables workflowId ⟨cursor, limit⟩ = .ok result ∧
      IsPage (·.position) (MarksEntry codec workflowId)
        (after (·.position) mark (tables.timeline workflowId)) (limitOrDefault limit) result := by
  obtain ⟨last, hlast, rfl, hcursor⟩ := hmark
  obtain ⟨htake, hmore⟩ := take_loaded tables workflowId hlast (limitOrDefault limit)
  have hbounded := (PageRequest.boundedLimit_ok_iff ⟨cursor, limit⟩ _).mpr hlimit
  rw [timelinePage, hbounded]
  show ∃ result, (requestCursor codec workflowId cursor >>= _) = _ ∧ _
  rw [hcursor]
  show ∃ result, (rejectIf _ _ >>= _) = _ ∧ _
  rw [rejectIf, if_neg (not_not.mpr hworkflow)]
  show ∃ result, truncateTimeline codec workflowId (limitOrDefault limit) _ = _ ∧ _
  rw [truncateTimeline]
  by_cases hlong : limitOrDefault limit <
      (after (·.position) (last.map (·.position)) (tables.timeline workflowId)).length
  · rw [if_pos (hmore.mpr hlong), htake]
    have hne : (after (·.position) (last.map (·.position)) (tables.timeline workflowId)).take
        (limitOrDefault limit) ≠ [] := by
      refine List.ne_nil_of_length_pos ?_
      rw [List.length_take]
      have := hlimit.1
      omega
    obtain ⟨e, he⟩ := Option.ne_none_iff_exists'.mp (mt List.getLast?_eq_none_iff.mp hne)
    have hmem : e ∈ tables.entries workflowId :=
      (perm_sort _ _).mem_iff.mp
        (List.mem_of_mem_filter (List.mem_of_mem_take (List.mem_of_getLast? he)))
    obtain ⟨text, hnext, hmarks⟩ := timelineNextCursor_ok codec
      (tables.workflowRange workflowId hworkflow) he (TimelineTables.valid_of_mem hmem)
    rw [hnext]
    exact ⟨_, rfl, rfl, .inr ⟨hlong, text, e, rfl, he, hmarks⟩⟩
  · rw [if_neg (fun h => hlong (hmore.mp h)), htake]
    exact ⟨_, rfl, rfl, .inl ⟨not_lt.mp hlong, rfl⟩⟩

/-- **The timeline.** Reading page after page, with any accepted limits, ends, and what was read
are the entries of the five tables, each once, in the order of their time, the rank of their
table and their numbers. -/
theorem workflowTimeline_complete (codec : CursorCodec) (tables : TimelineTables)
    (workflowId : WorkflowId) (hworkflow : workflowId ∈ tables.workflows) (limits : ℕ → Option ℕ)
    (hlimits : ∀ i, LimitAccepted maxTimelinePageSize (limits i)) :
    ∃ timeline : List TimelineEnvelope, timeline.Perm (tables.entries workflowId) ∧
      timeline.Pairwise (fun e e' => e.position < e'.position) ∧
      Follows (fun cursor limit => workflowTimeline codec tables workflowId ⟨cursor, limit⟩)
        none limits (timeline.map (·.entry)) := by
  have hnodup := tables.nodup_positions workflowId
  have hsorted : (tables.timeline workflowId).Pairwise fun e e' => e.position < e'.position :=
    (ordered_sort _ _).strict (((perm_sort _ _).map _).nodup_iff.mpr hnodup)
  refine ⟨tables.timeline workflowId, perm_sort _ _, hsorted, ?_⟩
  have hfollows : Follows (fun cursor limit => timelinePage codec tables workflowId ⟨cursor, limit⟩)
      none limits (after (·.position) none (tables.timeline workflowId)) := by
    have hmarks : MarksEntry codec workflowId none none := marksEntry_none
    refine follows_after hsorted (fun _ hlimit => hlimit.1) ?_ hmarks hlimits
    exact fun cursor mark limit hlimit hmark => timelinePage_isPage hworkflow hlimit hmark
  rw [after_none] at hfollows
  refine hfollows.map fun cursor limit => ?_
  rw [workflowTimeline]
  cases timelinePage codec tables workflowId ⟨cursor, limit⟩ <;> rfl

end Pages

namespace Sample

/-- An event of the workflow with id 1. -/
def timelineEvent (sequence : ℕ) : WorkflowEventRow where
  workflowId := 1
  sequence := sequence
  deliverySequence := none
  eventType := .approvalRequested
  metadata := none
  actorType := none
  actorId := none
  reason := none
  createdAt := 1000

/-- An approval requested at the time of the events. -/
def timelineApproval : ApprovalRow where
  id := 3
  workflowId := 1
  commandSequence := 1
  kind := "review"
  version := 1
  promptMetadataJson := "null"
  validationSchemaJson := "null"
  validationVersion := 1
  status := .pending
  requestedAt := 1000
  expiresAt := none
  decisionPayloadJson := none
  decidedBy := none
  operatorReason := none
  resolvedAt := none

/-- Two events and an approval at one time. -/
def timelineTables : TimelineTables where
  workflows := [1]
  events := [(12, timelineEvent 2), (9, timelineEvent 1)]
  activities := []
  attempts := []
  progress := []
  approvals := [timelineApproval]
  eventKey := by decide
  activityKey := by decide
  attemptKey := by decide
  progressKey := by decide
  approvalKey := by decide
  workflowRange := by decide
  eventRange := by decide
  activityRange := by decide
  attemptRange := by decide
  progressRange := by decide
  approvalRange := by decide

theorem timeline_byOne : ∃ timeline : List TimelineEnvelope,
    timeline.Perm (timelineTables.entries 1) ∧
      timeline.Pairwise (fun e e' => e.position < e'.position) ∧
      Follows (fun cursor limit => workflowTimeline compactCodec timelineTables 1 ⟨cursor, limit⟩)
        none (fun _ => some 1) (timeline.map (·.entry)) :=
  workflowTimeline_complete compactCodec timelineTables 1 (by decide) (fun _ => some 1)
    fun _ => by decide

end Sample

end DurableWorkflows
