import MikroLLM.Go.Trim
import MikroLLM.Go.Unmarshal
import MikroLLM.Library.Lines

/-!
# The scanner of a streamed answer

The proxy hands an answer on in chunks and feeds each of them to a scanner, which
keeps the last line that tells the usage. When the fragment of a line and the next
chunk are longer than `tailMax` together, both are dropped before their lines are
read, and what follows is taken for the beginning of a line.
-/

namespace MikroLLM.PromptCache

open Go Library

/-- `TailMax`. -/
def tailMax : ℕ :=
  64 * 1024

/-- The bytes that one `Read` of `writeUpstream` gives at most. -/
def readMax : ℕ :=
  32 * 1024

/-- `bytes.TrimRight(line, "\r")`. -/
def trimReturns (line : Bytes) : Bytes :=
  line.rdropWhile (· = 0x0d)

/-- The payload that `Scanner.line` finds in a line. -/
def payloadOf (line : Bytes) : Option Bytes :=
  if line = [] ∨ line.head? = some 0x3a then none
  else if dataField.isPrefixOf line then
    let payload := trimBytes (line.drop 5)
    if payload = [] ∨ payload = bytesOf "[DONE]" then none else some payload
  else if line.head? = some 0x7b then some line
  else none

/-- What `Scanner.consider` asks of a payload, but for its length. -/
def tellsUsage (payload : Bytes) : Bool :=
  match (parseDoc maxNestingDepth payload).bind mapOf with
  | none => false
  | some fields =>
      (fieldOf fields "usage").isSome || field fields "done" == .bool true ||
        (fieldOf fields "prompt_eval_count").isSome

/-- `Scanner`, where no usage yet is nil. -/
structure Scanner where
  frag : Bytes
  lastUsage : Option Bytes

namespace Scanner

/-- A new scanner. -/
def new : Scanner where
  frag := []
  lastUsage := none

/-- `Scanner.consider`. -/
def consider (scanner : Scanner) (payload : Bytes) : Scanner :=
  if tailMax < payload.length then scanner
  else if tellsUsage payload then { scanner with lastUsage := some payload }
  else scanner

/-- `Scanner.line`, of a line that may end with carriage returns. -/
def line (scanner : Scanner) (text : Bytes) : Scanner :=
  match payloadOf (trimReturns text) with
  | none => scanner
  | some payload => scanner.consider payload

/-- `Scanner.Feed`. -/
def feed (scanner : Scanner) (chunk : Bytes) : Scanner :=
  if chunk = [] then scanner
  else
    let frag := scanner.frag ++ chunk
    if tailMax < frag.length then { scanner with frag := [] }
    else
      let cut := cutLines (· = 0x0a) frag
      let read := cut.1.foldl line scanner
      { read with frag := if tailMax < cut.2.length then [] else cut.2 }

/-- The scanner after all chunks. -/
def feedAll (chunks : List Bytes) : Scanner :=
  chunks.foldl feed new

end Scanner

/-- The payload of a line that qualifies. -/
def usageOf (text : Bytes) : Option Bytes :=
  (payloadOf (trimReturns text)).filter tellsUsage

/-- The complete lines of a stream. -/
def completeLines (stream : Bytes) : List Bytes :=
  (cutLines (· = 0x0a) stream).1

/-- The payload of the last complete line that qualifies. -/
def lastUsageOf (stream : Bytes) : Option Bytes :=
  ((completeLines stream).filterMap usageOf).getLast?

/-- What the stream holds behind its last line feed is short enough for the next chunk, each time. -/
def Fits (chunks : List Bytes) : Prop :=
  ∀ before chunk, before ++ [chunk] <+: chunks →
    (cutLines (· = 0x0a) before.flatten).2.length + chunk.length ≤ tailMax

section Reading

variable {text line stream chunk : Bytes} {scanner : Scanner}

theorem length_payloadOf {payload : Bytes} (found : payloadOf line = some payload) :
    payload.length ≤ line.length := by
  rw [payloadOf] at found
  split_ifs at found with none isData
  · simp only at found
    split_ifs at found
    rw [← Option.some.inj found]
    have shorter := (isInfix_trimBytes (line.drop 5)).length_le
    rw [List.length_drop] at shorter
    omega
  · rw [Option.some.inj found]

/-- A line within the limit is told to the scanner when it qualifies. -/
theorem lastUsage_line (short : text.length ≤ tailMax) :
    (scanner.line text).lastUsage = (usageOf text).or scanner.lastUsage := by
  rw [Scanner.line, usageOf]
  cases found : payloadOf (trimReturns text) with
  | none => rfl
  | some payload =>
      have fewer : (trimReturns text).length ≤ text.length :=
        (List.rdropWhile_prefix _ _).length_le
      have fits : ¬tailMax < payload.length := by
        have shorter := length_payloadOf found
        omega
      simp only [Scanner.consider, if_neg fits]
      by_cases tells : tellsUsage payload = true
      · rw [if_pos tells, Option.filter_some_pos tells]
        rfl
      · rw [if_neg tells, Option.filter_some_neg (Bool.eq_false_of_not_eq_true tells)]
        rfl

theorem lastUsage_lines {lines : List Bytes} (short : ∀ line ∈ lines, line.length ≤ tailMax) :
    (lines.foldl Scanner.line scanner).lastUsage =
      ((lines.filterMap usageOf).getLast?).or scanner.lastUsage := by
  induction lines generalizing scanner with
  | nil => rfl
  | cons line rest ih =>
      rw [List.forall_mem_cons] at short
      rw [List.foldl_cons, ih short.2, lastUsage_line short.1, List.filterMap_cons]
      cases usageOf line with
      | none => rfl
      | some payload =>
          simp only [Option.some_or]
          rw [List.getLast?_cons]
          cases (rest.filterMap usageOf).getLast? with
          | none => rfl
          | some last => rfl

/-- The scanner holds what is behind the last line feed, and what the last line that qualifies
tells. -/
structure Follows (stream : Bytes) (scanner : Scanner) : Prop where
  frag : scanner.frag = (cutLines (· = 0x0a) stream).2
  lastUsage : scanner.lastUsage = lastUsageOf stream

theorem lastUsageOf_append (stream chunk : Bytes) :
    lastUsageOf (stream ++ chunk) =
      (((cutLines (· = 0x0a) ((cutLines (· = 0x0a) stream).2 ++ chunk)).1.filterMap
        usageOf).getLast?).or (lastUsageOf stream) := by
  rw [lastUsageOf, completeLines, cutLines_append, List.filterMap_append, List.getLast?_append]
  rfl

/-- One call within the limit. -/
theorem Follows.feed (follows : Follows stream scanner)
    (fits : (cutLines (· = 0x0a) stream).2.length + chunk.length ≤ tailMax) :
    Follows (stream ++ chunk) (scanner.feed chunk) := by
  rw [Scanner.feed]
  by_cases empty : chunk = []
  · rw [if_pos empty, empty, List.append_nil]
    exact follows
  · have within : ¬tailMax < (scanner.frag ++ chunk).length := by
      rw [follows.frag, List.length_append]
      omega
    rw [follows.frag] at within
    have shortRest : ¬tailMax <
        (cutLines (· = 0x0a) ((cutLines (· = 0x0a) stream).2 ++ chunk)).2.length := by
      have shorter : (cutLines (· = 0x0a) ((cutLines (· = 0x0a) stream).2 ++ chunk)).2.length ≤
          ((cutLines (· = 0x0a) stream).2 ++ chunk).length := length_rest_le _
      omega
    have shortLines : ∀ line ∈
        (cutLines (· = 0x0a) ((cutLines (· = 0x0a) stream).2 ++ chunk)).1,
          line.length ≤ tailMax := by
      intro line inside
      have shorter := length_le_of_mem_cutLines inside
      omega
    simp only [if_neg empty, follows.frag, if_neg within, if_neg shortRest]
    constructor
    · rw [cutLines_append stream chunk]
    · rw [lastUsage_lines shortLines, follows.lastUsage, lastUsageOf_append]

theorem feedAll_concat (chunks : List Bytes) (chunk : Bytes) :
    Scanner.feedAll (chunks ++ [chunk]) = (Scanner.feedAll chunks).feed chunk :=
  List.foldl_append

/-- Every call within the limit. -/
theorem follows_feedAll {chunks : List Bytes} (fits : Fits chunks) :
    Follows chunks.flatten (Scanner.feedAll chunks) := by
  induction chunks using List.reverseRecOn with
  | nil => exact ⟨rfl, rfl⟩
  | append_singleton before chunk ih =>
      have fitsBefore : Fits before := by
        intro earlier other within
        exact fits earlier other (within.trans (List.prefix_append before [chunk]))
      rw [feedAll_concat, List.flatten_append, List.flatten_singleton]
      exact (ih fitsBefore).feed (fits before chunk (List.prefix_refl _))

end Reading

/-- While every chunk fits, the last usage is that of the last complete line that qualifies, and no
other text is taken for a line. -/
theorem lastUsage_of_fits {chunks : List Bytes} (fits : Fits chunks) {fed : List Bytes}
    (begun : fed <+: chunks) :
    (Scanner.feedAll fed).lastUsage = lastUsageOf fed.flatten ∧
      ∀ payload, (Scanner.feedAll fed).lastUsage = some payload →
        ∃ line ∈ completeLines fed.flatten, usageOf line = some payload := by
  have fitsFed : Fits fed := by
    intro before chunk within
    exact fits before chunk (within.trans begun)
  have follows := follows_feedAll fitsFed
  refine ⟨follows.lastUsage, ?_⟩
  intro payload isLast
  rw [follows.lastUsage, lastUsageOf] at isLast
  exact List.mem_filterMap.mp (List.mem_of_getLast? isLast)

/-- A line that tells the usage. -/
def usageLine : Bytes :=
  bytesOf "\x7b\"usage\":1\x7d"

/-- Text that is no line of the stream's format. -/
@[irreducible]
def padding (count : ℕ) : Bytes :=
  List.replicate count 0x78

/-- A line that tells the usage, in one chunk. -/
theorem lastUsage_usageLine :
    (Scanner.feedAll [usageLine ++ [0x0a]]).lastUsage = some usageLine := by
  have fits : Fits [usageLine ++ [0x0a]] := by
    intro before chunk within
    have isEmpty : before = [] := by
      have shorter := within.length_le
      rw [List.length_append, List.length_singleton, List.length_singleton] at shorter
      exact List.length_eq_zero_iff.mp (by omega)
    rw [isEmpty, List.nil_append, List.cons_prefix_cons] at within
    rw [isEmpty, within.1]
    decide
  rw [(lastUsage_of_fits fits (List.prefix_refl _)).1]
  decide +kernel

section Dropping

theorem length_padding (count : ℕ) : (padding count).length = count := by
  rw [padding, List.length_replicate]

theorem ends_padding (count : ℕ) : ∀ byte ∈ padding count, decide (byte = 0x0a) = false := by
  intro byte inside
  rw [padding] at inside
  rw [List.eq_of_mem_replicate inside]
  rfl

theorem usageOf_padding (count : ℕ) (rest : Bytes) :
    usageOf (padding (count + 1) ++ rest) = none := by
  have kept : trimReturns (padding (count + 1) ++ rest) =
      0x78 :: (padding count ++ rest).rdropWhile (· = 0x0d) := by
    rw [padding, padding, List.replicate_succ]
    exact @rdropWhile_around UInt8 (fun byte => decide (byte = 0x0d)) 0x78 rfl [] _
  have noData : dataField.isPrefixOf (0x78 :: (padding count ++ rest).rdropWhile (· = 0x0d)) =
      false := rfl
  rw [usageOf, kept, payloadOf, if_neg (by simp), noData]
  rfl

theorem padding_add (first second : ℕ) :
    padding first ++ padding second = padding (first + second) := by
  rw [padding, padding, padding, List.replicate_append_replicate]

/-- A fragment of padding waits for its line to end. -/
theorem feedAll_padding {first second : ℕ} (short : first + second ≤ tailMax) :
    Scanner.feedAll [padding first, padding second] =
      { frag := padding (first + second), lastUsage := none } := by
  have start : Follows [] Scanner.new := ⟨rfl, rfl⟩
  have one : Follows (padding first) (Scanner.new.feed (padding first)) := by
    apply start.feed
    rw [length_padding]
    exact (Nat.add_le_add_left (Nat.le_add_right _ _) _).trans (by simpa [cutLines] using short)
  have both : Follows (padding first ++ padding second)
      (Scanner.feedAll [padding first, padding second]) := by
    apply one.feed
    rw [cutLines_open (ends_padding first), length_padding, length_padding]
    exact short
  rw [padding_add] at both
  have uncut := cutLines_open (ends_padding (first + second))
  have frag := both.frag
  have lastUsage := both.lastUsage
  rw [uncut] at frag
  rw [lastUsageOf, completeLines, uncut] at lastUsage
  generalize Scanner.feedAll [padding first, padding second] = scanner at frag lastUsage
  cases scanner with
  | mk held last =>
      simp only at frag lastUsage
      rw [frag, lastUsage]
      rfl

/-- A chunk that does not fit is dropped with the fragment before it. -/
theorem feed_dropped {frag chunk : Bytes} {last : Option Bytes} (notEmpty : chunk ≠ [])
    (long : tailMax < frag.length + chunk.length) :
    (Scanner.mk frag last).feed chunk = ⟨[], last⟩ := by
  rw [← List.length_append] at long
  rw [Scanner.feed, if_neg notEmpty]
  simp only [if_pos long]

theorem length_usageLine : usageLine.length = 11 := by
  decide

theorem ends_usageLine : (usageLine.all fun byte => !decide (byte = 0x0a)) = true := by
  decide

theorem cutLines_usageLine : cutLines (· = 0x0a) (usageLine ++ [0x0a]) = ([usageLine], []) := by
  decide

theorem usageOf_usageLine : usageOf usageLine = some usageLine := by
  decide +kernel

/-- A stream of two lines, the second of which the scanner does not see. -/
def droppedLine : List Bytes :=
  [padding readMax, padding 32767] ++ [0x0a :: (usageLine ++ [0x0a])]

theorem completeLines_droppedLine :
    completeLines droppedLine.flatten = [padding 65535, usageLine] := by
  have whole : droppedLine.flatten = padding 65535 ++ 0x0a :: (usageLine ++ [0x0a]) := by
    have joined : padding 65535 = padding readMax ++ padding 32767 :=
      (padding_add readMax 32767).symm
    rw [joined, List.append_assoc]
    rfl
  rw [whole, completeLines, cutLines_line (ends_padding _) (by decide), cutLines_usageLine]

theorem lastUsageOf_droppedLine : lastUsageOf droppedLine.flatten = some usageLine := by
  have noUsage : usageOf (padding 65535) = none := by
    have none := usageOf_padding 65534 []
    rwa [List.append_nil] at none
  rw [lastUsageOf, completeLines_droppedLine, List.filterMap_cons, noUsage, List.filterMap_cons,
    usageOf_usageLine]
  rfl

theorem feedAll_droppedLine : (Scanner.feedAll droppedLine).lastUsage = none := by
  have waits : Scanner.feedAll [padding readMax, padding 32767] =
      { frag := padding (readMax + 32767), lastUsage := none } := feedAll_padding (by decide)
  have drops : (Scanner.mk (padding (readMax + 32767)) none).feed
      (0x0a :: (usageLine ++ [0x0a])) = ⟨[], none⟩ := by
    apply feed_dropped (List.cons_ne_nil _ _)
    rw [length_padding, List.length_cons, List.length_append, length_usageLine,
      List.length_singleton, tailMax, readMax]
    decide
  rw [droppedLine, feedAll_concat, waits, drops]

/-- A stream of one line, which ends like one that tells the usage. -/
def longLine : List Bytes :=
  [padding readMax, padding readMax] ++ [padding 1] ++ [usageLine ++ [0x0a]]

theorem completeLines_longLine :
    completeLines longLine.flatten = [padding 65537 ++ usageLine] := by
  have whole : longLine.flatten = (padding 65537 ++ usageLine) ++ 0x0a :: [] := by
    have joined : padding 65537 = padding readMax ++ (padding readMax ++ padding 1) := by
      rw [padding_add, padding_add]
      rfl
    rw [joined, List.append_assoc, List.append_assoc, List.append_assoc]
    rfl
  have inside : ∀ byte ∈ padding 65537 ++ usageLine, decide (byte = 0x0a) = false := by
    rw [List.forall_mem_append]
    exact ⟨ends_padding _, by simpa using ends_usageLine⟩
  rw [whole, completeLines, cutLines_line inside (by decide)]
  rfl

theorem feedAll_longLine : (Scanner.feedAll longLine).lastUsage = some usageLine := by
  have waits : Scanner.feedAll [padding readMax, padding readMax] =
      { frag := padding (readMax + readMax), lastUsage := none } := feedAll_padding (by decide)
  have drops : (Scanner.mk (padding (readMax + readMax)) none).feed (padding 1) = ⟨[], none⟩ := by
    apply feed_dropped (by simp [padding])
    rw [length_padding, length_padding]
    decide
  have reads : ((Scanner.mk [] none).feed (usageLine ++ [0x0a])).lastUsage = some usageLine := by
    decide +kernel
  rw [longLine, feedAll_concat, feedAll_concat, waits, drops, reads]

/-- The usage of a second line is lost, and the end of a long line is taken for a usage. -/
theorem not_lastUsage :
    (¬∀ chunks : List Bytes,
        (∀ line ∈ completeLines chunks.flatten, line.length ≤ tailMax) →
          (∀ chunk ∈ chunks, chunk.length ≤ readMax) →
            (Scanner.feedAll chunks).lastUsage = lastUsageOf chunks.flatten) ∧
      ¬∀ chunks payload, (Scanner.feedAll chunks).lastUsage = some payload →
        ∃ line ∈ completeLines chunks.flatten, usageOf line = some payload := by
  constructor
  · intro claim
    have shortLines : ∀ line ∈ completeLines droppedLine.flatten, line.length ≤ tailMax := by
      rw [completeLines_droppedLine, List.forall_mem_cons, List.forall_mem_singleton,
        length_padding, length_usageLine]
      decide
    have shortChunks : ∀ chunk ∈ droppedLine, chunk.length ≤ readMax := by
      rw [droppedLine, List.forall_mem_append, List.forall_mem_cons, List.forall_mem_singleton,
        List.forall_mem_singleton, length_padding, length_padding, List.length_cons,
        List.length_append, length_usageLine, List.length_singleton]
      decide
    have same := claim droppedLine shortLines shortChunks
    rw [feedAll_droppedLine, lastUsageOf_droppedLine] at same
    exact nomatch same
  · intro claim
    rcases claim longLine usageLine feedAll_longLine with ⟨line, isLine, isUsage⟩
    rw [completeLines_longLine, List.mem_singleton] at isLine
    rw [isLine, usageOf_padding 65536 usageLine] at isUsage
    exact nomatch isUsage

end Dropping

end MikroLLM.PromptCache
