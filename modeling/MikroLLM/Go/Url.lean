import Mathlib.Data.List.TakeWhile
import MikroLLM.Go.Writer
import MikroLLM.Library.Percent

/-!
# Package `net/url`

References that start with one slash, which have no scheme and no host, and how
`http.ServeMux` cleans their paths.
-/

namespace MikroLLM.Go

open Library

/-- A letter, a digit, or one of `-`, `_`, `.` and `~`. -/
def isUnreserved (byte : UInt8) : Bool :=
  (0x61 ≤ byte && byte ≤ 0x7a) || (0x41 ≤ byte && byte ≤ 0x5a) || (0x30 ≤ byte && byte ≤ 0x39) ||
    byte ∈ bytesOf "-_.~"

/-- The negation of `shouldEscape`, for a path. -/
def keptInPath (byte : UInt8) : Bool :=
  isUnreserved byte || byte ∈ bytesOf "$&+,/:;=@"

/-- `url.QueryEscape`. -/
def queryEscape (text : Bytes) : Bytes :=
  percentEncode isUnreserved true text

/-- `validEncoded`, for a path. -/
def validEncoded (text : Bytes) : Bool :=
  text.all fun byte => byte ∈ bytesOf "!$&'()*+,;=:@[]%" || keptInPath byte

/-- What a request keeps of such a reference. -/
structure URL where
  path : Bytes
  rawPath : Bytes
  rawQuery : Bytes
  fragment : Bytes
  deriving DecidableEq

/-- The text before and after the first such byte, as by `strings.Cut`. -/
def cut (text : Bytes) (separator : UInt8) : Bytes × Bytes :=
  (text.takeWhile (· ≠ separator), (text.dropWhile (· ≠ separator)).tail)

/-- `url.Parse`, for a reference that starts with one slash. -/
def parseReference (raw : Bytes) : Option URL :=
  let (reference, fragment) := cut raw 0x23
  if reference.any fun byte => byte < 0x20 || byte = 0x7f then none
  else
    let (rest, rawQuery) := cut reference 0x3f
    (percentDecode false rest).bind fun path =>
      (percentDecode false fragment).map fun fragment =>
        ⟨path, if percentEncode keptInPath false path = rest then [] else rest, rawQuery, fragment⟩

/-- `URL.EscapedPath`. -/
def URL.escapedPath (url : URL) : Bytes :=
  if url.rawPath ≠ [] && validEncoded url.rawPath &&
      percentDecode false url.rawPath = some url.path then url.rawPath
  else if url.path = [0x2a] then [0x2a]
  else percentEncode keptInPath false url.path

/-- One element in `path.Clean` of a rooted path. -/
def cleanStep (elements : List Bytes) (element : Bytes) : List Bytes :=
  if element = [] ∨ element = [0x2e] then elements
  else if element = [0x2e, 0x2e] then elements.dropLast
  else elements ++ [element]

/-- `path.Clean` of a rooted path. -/
def clean (path : Bytes) : Bytes :=
  0x2f :: [0x2f].intercalate ((path.splitOn 0x2f).foldl cleanStep [])

/-- `cleanPath`, of the multiplexer. -/
def cleanPath (path : Bytes) : Bytes :=
  let rooted := if path.head? = some 0x2f then path else 0x2f :: path
  let cleaned := clean rooted
  if rooted.getLast? = some 0x2f && cleaned ≠ [0x2f] then cleaned ++ [0x2f] else cleaned

/-- One setting in `url.ParseQuery`; what cannot be read is left out. -/
def parseSetting (setting : Bytes) : Option (Bytes × Bytes) :=
  if 0x3b ∈ setting ∨ setting = [] then none
  else
    let (key, value) := cut setting 0x3d
    (percentDecode true key).bind fun key =>
      (percentDecode true value).map fun value => (key, value)

/-- `URL.Query`, in the order of the settings. -/
def URL.query (url : URL) : List (Bytes × Bytes) :=
  (url.rawQuery.splitOn 0x26).filterMap parseSetting

/-- `Values.Get`. -/
def queryGet (query : List (Bytes × Bytes)) (key : Bytes) : Bytes :=
  ((query.find? (·.1 = key)).map (·.2)).getD []

/-- `pathUnescape`, of the multiplexer. -/
def pathUnescape (segment : Bytes) : Bytes :=
  (percentDecode false segment).getD segment

section Paths

variable {text path raw : Bytes} {url : URL}

theorem keptInPath_percent : keptInPath 0x25 = false := by
  decide

/-- The escaped path writes the path. -/
theorem percentDecode_escapedPath (url : URL) :
    percentDecode false url.escapedPath = some url.path := by
  unfold URL.escapedPath
  split_ifs with keeps star
  · simp only [Bool.and_eq_true, decide_eq_true_eq] at keeps
    exact keeps.2
  · rw [star]
    decide
  · exact percentDecode_percentEncode keptInPath_percent (by simp) _

/-- The value of a setting is written with none of the marks of a URL. -/
theorem mem_queryEscape {byte : UInt8} (inside : byte ∈ queryEscape text) :
    byte ∉ bytesOf "#&;" ∧ ¬byte < 0x20 ∧ byte ≠ 0x7f := by
  have safe : ∀ byte : UInt8, isUnreserved byte = true ∨ byte = 0x25 ∨ byte = 0x2b ∨
      (0x30 ≤ byte ∧ byte ≤ 0x39) ∨ (0x41 ≤ byte ∧ byte ≤ 0x46) →
      byte ∉ bytesOf "#&;" ∧ ¬byte < 0x20 ∧ byte ≠ 0x7f := by
    apply forall_byte
    decide
  apply safe
  rcases mem_percentEncode inside with ⟨_, kept⟩ | percent | plus | digit | letter
  · exact Or.inl kept
  · exact Or.inr (Or.inl percent)
  · exact Or.inr (Or.inr (Or.inl plus.1))
  · exact Or.inr (Or.inr (Or.inr (Or.inl digit)))
  · exact Or.inr (Or.inr (Or.inr (Or.inr letter)))

theorem queryEscape_decodes (text : Bytes) : percentDecode true (queryEscape text) = some text :=
  percentDecode_percentEncode (by decide) (fun _ => by decide) text

/-- A query of one setting, with a key that needs no escapes. -/
theorem query_setting {key : Bytes} (plainKey : percentDecode true key = some key)
    (noMarks : ∀ byte ∈ key, byte ∉ bytesOf "&;=") (text : Bytes)
    (isQuery : url.rawQuery = key ++ 0x3d :: queryEscape text) : url.query = [(key, text)] := by
  have noMark : ∀ mark ∈ bytesOf "&;", mark ∉ url.rawQuery := by
    intro mark isMark inside
    rw [isQuery, List.mem_append, List.mem_cons] at inside
    have marks : ∀ mark ∈ bytesOf "&;", mark ∈ bytesOf "&;=" ∧ mark ≠ 0x3d ∧
        mark ∈ bytesOf "#&;" := by decide +kernel
    rcases marks mark isMark with ⟨inKeyMarks, notEqual, inValueMarks⟩
    rcases inside with inKey | isEqual | inValue
    · exact noMarks mark inKey inKeyMarks
    · exact notEqual isEqual
    · exact (mem_queryEscape inValue).1 inValueMarks
  have noEqual : ∀ byte ∈ key, decide (byte ≠ 0x3d) = true := by
    intro byte inside
    rw [decide_eq_true_eq]
    rintro rfl
    exact noMarks _ inside (by decide)
  have parts : cut url.rawQuery 0x3d = (key, queryEscape text) := by
    rw [isQuery, cut, List.takeWhile_append_of_pos noEqual, List.dropWhile_append_of_pos noEqual]
    simp
  have noSemicolon := noMark 0x3b (by decide)
  have notEmpty : url.rawQuery ≠ [] := by
    rw [isQuery]
    simp
  rw [URL.query, List.splitOn_eq_singleton (noMark 0x26 (by decide))]
  simp [parseSetting, noSemicolon, notEmpty, parts, plainKey, queryEscape_decodes]

/-- The segments of a path are read one by one. -/
theorem percentDecode_segments {segments : List Bytes} {read : Bytes} (some : segments ≠ [])
    (reads : percentDecode false ([0x2f].intercalate segments) = Option.some read) :
    read = [0x2f].intercalate (segments.map pathUnescape) := by
  induction segments generalizing read with
  | nil => exact absurd rfl some
  | cons segment rest ih =>
      cases rest with
      | nil =>
          rw [List.intercalate_singleton] at reads
          simp [pathUnescape, reads]
      | cons next others =>
          rw [List.intercalate_cons_cons, List.append_assoc, List.singleton_append] at reads
          rcases percentDecode_separated (by decide) (by decide) (by decide) reads with
            ⟨front, back, frontRead, backRead, rfl⟩
          have later := ih (by simp) backRead
          have first : pathUnescape segment = front := by
            rw [pathUnescape, frontRead]
            rfl
          rw [List.map_cons, List.map_cons, List.intercalate_cons_cons, first, later]
          simp

theorem count_percentEncode (text : Bytes) :
    (percentEncode keptInPath false text).count 0x2f = text.count 0x2f := by
  have single : ∀ byte : UInt8, (percentByte keptInPath false byte).count 0x2f =
      [byte].count 0x2f := by
    apply forall_byte
    decide
  induction text with
  | nil => rfl
  | cons byte rest ih =>
      unfold percentEncode at ih ⊢
      rw [List.flatMap_cons, List.count_append, single, ih, ← List.count_append]
      rfl

/-- The escaped path is the one that was parsed, or written byte by byte. -/
theorem escapedPath_or (noStar : url.path ≠ [0x2a]) :
    url.rawPath ≠ [] ∧ url.escapedPath = url.rawPath ∨
      url.escapedPath = percentEncode keptInPath false url.path := by
  unfold URL.escapedPath
  split_ifs with kept
  · simp only [Bool.and_eq_true, decide_eq_true_eq] at kept
    exact Or.inl ⟨kept.1.1, rfl⟩
  · exact Or.inr rfl

theorem escapedPath_cases (parses : parseReference raw = some url) (noStar : url.path ≠ [0x2a]) :
    percentDecode false (cut (cut raw 0x23).1 0x3f).1 = some url.path ∧
      (∀ byte ∈ (cut raw 0x23).1, ¬byte < 0x20 ∧ byte ≠ 0x7f) ∧
      (url.escapedPath = (cut (cut raw 0x23).1 0x3f).1 ∨
        url.escapedPath = percentEncode keptInPath false url.path) := by
  simp only [parseReference] at parses
  split_ifs at parses with control
  simp only [Option.bind_eq_some_iff, Option.map_eq_some_iff] at parses
  rcases parses with ⟨path, pathRead, fragment, _, rfl⟩
  refine ⟨pathRead, ?_, ?_⟩
  · intro byte inside
    simp only [List.any_eq_true, not_exists, not_and, Bool.or_eq_true, decide_eq_true_eq,
      not_or] at control
    exact control byte inside
  · rcases escapedPath_or noStar with ⟨kept, isRaw⟩ | encoded
    · left
      rw [isRaw]
      simp only [ne_eq, ite_eq_left_iff, not_forall] at kept ⊢
      rcases kept with ⟨differs, _⟩
      rw [if_neg differs]
    · exact Or.inr encoded

/-- A reference without a fragment and without control characters, up to its query. -/
theorem parseReference_plain {query : Bytes} (plain : 0x25 ∉ path ∧ 0x23 ∉ path ∧ 0x3f ∉ path)
    (noFragment : 0x23 ∉ query)
    (noControl : ∀ byte ∈ path ++ query, ¬byte < 0x20 ∧ byte ≠ 0x7f) :
    parseReference (path ++ 0x3f :: query) = some
      ⟨path, if percentEncode keptInPath false path = path then [] else path, query, []⟩ := by
  have whole : cut (path ++ 0x3f :: query) 0x23 = (path ++ 0x3f :: query, []) := by
    have all : ∀ byte ∈ path ++ 0x3f :: query, decide (byte ≠ 0x23) = true := by
      intro byte inside
      rw [decide_eq_true_eq]
      rintro rfl
      rw [List.mem_append, List.mem_cons] at inside
      rcases inside with front | mark | back
      · exact plain.2.1 front
      · exact absurd mark (by decide)
      · exact noFragment back
    rw [cut, List.takeWhile_eq_self_iff.mpr all, List.dropWhile_eq_nil_iff.mpr all]
    rfl
  have parts : cut (path ++ 0x3f :: query) 0x3f = (path, query) := by
    have all : ∀ byte ∈ path, decide (byte ≠ 0x3f) = true := by
      intro byte inside
      rw [decide_eq_true_eq]
      rintro rfl
      exact plain.2.2 inside
    rw [cut, List.takeWhile_append_of_pos all, List.dropWhile_append_of_pos all]
    simp
  have clear : ((path ++ 0x3f :: query).any fun byte => byte < 0x20 || byte = 0x7f) = false := by
    rw [List.any_eq_false]
    intro byte inside
    simp only [Bool.or_eq_true, decide_eq_true_eq, not_or]
    rw [List.mem_append, List.mem_cons] at inside
    rcases inside with front | rfl | back
    · exact noControl byte (List.mem_append_left _ front)
    · decide
    · exact noControl byte (List.mem_append_right _ back)
  simp only [parseReference, whole, clear, parts, Bool.false_eq_true, if_false,
    percentDecode_plain plain.1, Option.bind_some]
  simp [percentDecode_nil]

/-- The path of a reference, up to a query that stands behind it: the part before the first mark,
which is shorter where there is one. -/
theorem cut_cut (front middle query : Bytes) (frontPlain : 0x23 ∉ front ∧ 0x3f ∉ front) :
    ∃ path, (cut (cut (front ++ middle ++ 0x3f :: query) 0x23).1 0x3f).1 = front ++ path ∧
      (path.length < middle.length ∨ path = middle ∧ 0x23 ∉ middle ∧ 0x3f ∉ middle ∧
        ∀ byte ∈ middle, byte ∈ (cut (front ++ middle ++ 0x3f :: query) 0x23).1) := by
  have frontKept : ∀ byte ∈ front, (decide (byte ≠ 0x3f) && decide (byte ≠ 0x23)) = true := by
    intro byte inside
    simp only [Bool.and_eq_true, decide_eq_true_eq]
    constructor
    · rintro rfl
      exact frontPlain.2 inside
    · rintro rfl
      exact frontPlain.1 inside
  let kept := fun byte : UInt8 => decide (byte ≠ 0x3f) && decide (byte ≠ 0x23)
  have pathIs : (cut (cut (front ++ middle ++ 0x3f :: query) 0x23).1 0x3f).1 =
      front ++ (middle ++ 0x3f :: query).takeWhile kept := by
    simp only [cut, List.takeWhile_takeWhile]
    rw [List.append_assoc, ← List.takeWhile_append_of_pos frontKept]
    simp only [Bool.decide_and, Bool.decide_eq_true]
  refine ⟨_, pathIs, ?_⟩
  by_cases plain : ∀ byte ∈ middle, kept byte = true
  · right
    have noFragment : 0x23 ∉ middle := fun inside => absurd (plain _ inside) (by decide)
    have noQuery : 0x3f ∉ middle := fun inside => absurd (plain _ inside) (by decide)
    refine ⟨?_, noFragment, noQuery, ?_⟩
    · rw [List.takeWhile_append_of_pos plain]
      simp [kept]
    · intro byte inside
      rw [cut, List.takeWhile_append_of_pos]
      · exact List.mem_append_left _ (List.mem_append_right _ inside)
      · intro other otherInside
        rw [decide_eq_true_eq]
        rintro rfl
        rcases List.mem_append.mp otherInside with early | late
        · exact frontPlain.1 early
        · exact noFragment late
  · left
    have shorter := List.takeWhile_prefix kept (l := middle)
    have lengthNe : (middle.takeWhile kept).length ≠ middle.length := by
      intro same
      exact plain (List.takeWhile_eq_self_iff.mp (shorter.eq_of_length same))
    have lengthLe := shorter.length_le
    rw [List.takeWhile_append, if_neg lengthNe]
    omega

theorem length_splitOn (text : Bytes) (separator : UInt8) :
    (text.splitOn separator).length = text.count separator + 1 := by
  induction text with
  | nil => simp
  | cons byte rest ih =>
      rw [List.splitOn_cons_eq_if_modifyHead, List.count_cons]
      split
      · rw [List.length_cons, ih]
      · rw [List.length_modifyHead, ih]

/-- A path of segments that are not empty and not dotted is clean. -/
theorem cleanPath_segments {segments : List Bytes} (some : segments ≠ [])
    (proper : ∀ segment ∈ segments, 0x2f ∉ segment ∧ segment ≠ [] ∧ segment ≠ [0x2e] ∧
      segment ≠ [0x2e, 0x2e]) :
    cleanPath ([0x2f].intercalate ([] :: segments)) = [0x2f].intercalate ([] :: segments) := by
  have splits : ([0x2f].intercalate ([] :: segments)).splitOn 0x2f = [] :: segments := by
    apply List.splitOn_intercalate
    · intro segment inside
      rcases List.mem_cons.mp inside with rfl | inside
      · simp
      · exact (proper segment inside).1
    · simp
  have kept : ∀ segments elements : List Bytes,
      (∀ segment ∈ segments, segment ≠ [] ∧ segment ≠ [0x2e] ∧ segment ≠ [0x2e, 0x2e]) →
      segments.foldl cleanStep elements = elements ++ segments := by
    intro segments
    induction segments with
    | nil => simp
    | cons segment rest ih =>
        intro elements proper
        rcases proper segment List.mem_cons_self with ⟨notEmpty, notDot, notDots⟩
        rw [List.foldl_cons, ih _ fun other inside => proper other (List.mem_cons_of_mem _ inside)]
        simp [cleanStep, notEmpty, notDot, notDots]
  have starts : [0x2f].intercalate ([] :: segments) = 0x2f :: [0x2f].intercalate segments := by
    rw [List.intercalate_cons_of_ne_nil some]
    rfl
  have cleaned : clean ([0x2f].intercalate ([] :: segments)) =
      [0x2f].intercalate ([] :: segments) := by
    rw [clean, splits, List.foldl_cons]
    simp only [cleanStep, true_or, if_true]
    rw [kept segments [] fun segment inside => (proper segment inside).2, List.nil_append, starts]
  have ends : ([0x2f].intercalate ([] :: segments)).getLast? ≠ Option.some 0x2f := by
    intro slash
    rcases List.getLast?_eq_some_iff.mp slash with ⟨front, same⟩
    rw [same, List.splitOn_append_cons_self, List.splitOn_nil] at splits
    have last := congrArg List.getLast? splits
    rw [List.getLast?_append, List.getLast?_cons_of_ne_nil some] at last
    have inside := List.mem_of_getLast? last.symm
    exact (proper [] (by simpa using inside)).2.1 rfl
  have rooted : ([0x2f].intercalate ([] :: segments)).head? = Option.some 0x2f := by
    rw [starts]
    rfl
  simp only [cleanPath, rooted, if_true, cleaned, ends, decide_false, Bool.false_and,
    Bool.false_eq_true, if_false]

end Paths

end MikroLLM.Go
