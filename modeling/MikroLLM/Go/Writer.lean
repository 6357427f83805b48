import Mathlib.Data.List.Basic
import MikroLLM.Go.Text

/-!
# Headers and response writers

The parts of `net/http` that a handler writes with. A header is a list of its
canonical keys and values, a key with two values stands in it twice. A writer
keeps what was sent, so that a second status line can be seen.
-/

namespace MikroLLM.Go

abbrev Bytes := List UInt8

abbrev Header := List (String × String)

/-- `Header.Set`. -/
def headerSet (header : Header) (key value : String) : Header :=
  header.filter (·.1 ≠ key) ++ [(key, value)]

/-- `Header.Del`. -/
def headerDel (header : Header) (key : String) : Header :=
  header.filter (·.1 ≠ key)

/-- `Header.Get`. -/
def headerGet (header : Header) (key : String) : String :=
  ((header.find? (·.1 = key)).map (·.2)).getD ""

/-- The values of `Content-Length`. -/
def lengthsOf (header : Header) : List String :=
  (header.filter (·.1 = "Content-Length")).map (·.2)

/-- What goes out to the client. -/
inductive Sent
  | status (code : ℕ) (header : Header)
  | body (bytes : Bytes)
  deriving DecidableEq

/-- A `http.ResponseWriter`. -/
structure Writer where
  header : Header
  sent : List Sent
  deriving DecidableEq

namespace Writer

/-- `w.Header().Set`. -/
def setHeader (writer : Writer) (key value : String) : Writer :=
  { writer with header := headerSet writer.header key value }

/-- `w.WriteHeader`. -/
def writeHeader (writer : Writer) (code : ℕ) : Writer :=
  { writer with sent := writer.sent ++ [.status code writer.header] }

def Sent.isStatus : Sent → Bool
  | .status _ _ => true
  | .body _ => false

/-- `w.Write`; without a status line it sends one for 200 first. -/
def write (writer : Writer) (bytes : Bytes) : Writer :=
  let writer := if writer.sent.any Sent.isStatus then writer else writer.writeHeader 200
  { writer with sent := writer.sent ++ [.body bytes] }

/-- The bytes of the body so far. -/
def output (writer : Writer) : Bytes :=
  (writer.sent.map fun sent =>
    match sent with
    | .status _ _ => []
    | .body bytes => bytes).flatten

/-- Several writes. -/
def writeAll (writer : Writer) (chunks : List Bytes) : Writer :=
  chunks.foldl write writer

/-- `http.Error`. -/
def httpError (writer : Writer) (message : String) (code : ℕ) : Writer :=
  let cleared : Writer := { writer with header := headerDel writer.header "Content-Length" }
  (((cleared.setHeader "Content-Type" "text/plain; charset=utf-8").setHeader
    "X-Content-Type-Options" "nosniff").writeHeader code).write (bytesOf (message ++ "\n"))

end Writer

/-- What was sent is one status line with this header, and after it these bytes. -/
def Answered (writer : Writer) (code : ℕ) (header : Header) (bytes : Bytes) : Prop :=
  ∃ chunks : List Bytes, writer.sent = .status code header :: chunks.map Sent.body ∧
    chunks.flatten = bytes

section Answers

variable {writer : Writer} {code : ℕ} {header : Header} {bytes : Bytes} {key value : String}

@[simp]
theorem setHeader_sent : (writer.setHeader key value).sent = writer.sent := rfl

@[simp]
theorem setHeader_header :
    (writer.setHeader key value).header = headerSet writer.header key value := rfl

@[simp]
theorem lengthsOf_append (header more : Header) :
    lengthsOf (header ++ more) = lengthsOf header ++ lengthsOf more := by
  simp [lengthsOf]

theorem lengthsOf_headerSet (header : Header) (value : String) (other : key ≠ "Content-Length") :
    lengthsOf (headerSet header key value) = lengthsOf header := by
  simp only [lengthsOf, headerSet, List.filter_append, List.filter_filter, List.map_append]
  have kept : header.filter (fun entry => decide (entry.1 = "Content-Length") &&
      decide (entry.1 ≠ key)) = header.filter (·.1 = "Content-Length") := by
    apply List.filter_congr
    intro entry _
    by_cases isLength : entry.1 = "Content-Length"
    · have kept : "Content-Length" ≠ key := Ne.symm other
      simp [isLength, kept]
    · simp [isLength]
  simp only [kept, List.filter_singleton, other, decide_false, cond_false, List.map_nil,
    List.append_nil]

theorem lengthsOf_headerDel (header : Header) :
    lengthsOf (headerDel header "Content-Length") = [] := by
  simp [lengthsOf, headerDel, List.filter_filter]

/-- The status line of a writer that sent nothing. -/
theorem answered_writeHeader (unsent : writer.sent = []) (code : ℕ) :
    Answered (writer.writeHeader code) code writer.header [] := by
  refine ⟨[], ?_, rfl⟩
  simp [Writer.writeHeader, unsent]

theorem Answered.output (answered : Answered writer code header bytes) :
    writer.output = bytes := by
  rcases answered with ⟨chunks, sent, rfl⟩
  simp [Writer.output, sent, Function.comp_def]

theorem Answered.write (answered : Answered writer code header bytes) (more : Bytes) :
    Answered (writer.write more) code header (bytes ++ more) := by
  rcases answered with ⟨chunks, sent, rfl⟩
  refine ⟨chunks ++ [more], ?_, ?_⟩
  · simp [Writer.write, sent, Writer.Sent.isStatus]
  · simp

theorem Answered.writeAll (answered : Answered writer code header bytes) (chunks : List Bytes) :
    Answered (writer.writeAll chunks) code header (bytes ++ chunks.flatten) := by
  induction chunks generalizing writer bytes with
  | nil => simpa [Writer.writeAll] using answered
  | cons chunk rest ih =>
      have first := ih (answered.write chunk)
      simpa [Writer.writeAll] using first

end Answers

end MikroLLM.Go
