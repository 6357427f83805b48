import MikroLLM.Go.Json
import MikroLLM.Go.Url
import MikroLLM.Go.Utf8

/-!
# Media references in hub jobs

`localRelay` writes the reference of a job into the URL of a request to the own
handler, as it is. The multiplexer of the handler then reads a reference from
the URL, and the routes ask for the model that the query names.
-/

namespace MikroLLM.Hub

open Go Library

/-- What `localRelay` reads of a job of the hub. -/
structure RelayJob where
  kind : String
  aliasName : String
  ref : String
  body : Body

/-- The request of a job to the own handler. -/
structure LocalRequest where
  method : String
  url : Bytes
  body : Option Fields

/-- The object in the body of a job, an empty one where there is none; none for a nil map. -/
def relayFields : Body → Option Fields
  | .json [.null] => none
  | body => some ((decode body).getD [])

/-- `localRelay`; it panics where it would set a key of a nil map. -/
def localRelay (job : RelayJob) : Option LocalRequest :=
  (relayFields job.body).map fun raw =>
    let raw := setField raw "model" (.string job.aliasName)
    let kind := if job.kind = "" then "chat" else job.kind
    let query := bytesOf "?model=" ++ queryEscape (bytesOf job.aliasName)
    if kind = "decision" then ⟨"POST", bytesOf "/v1/systemone", some raw⟩
    else if kind = "images" then ⟨"POST", bytesOf "/v1/images/generations", some raw⟩
    else if kind = "videos" then ⟨"POST", bytesOf "/v1/videos", some raw⟩
    else if kind = "images_status" then
      ⟨"GET", bytesOf "/v1/images/" ++ bytesOf job.ref ++ query, none⟩
    else if kind = "videos_status" then
      ⟨"GET", bytesOf "/v1/videos/" ++ bytesOf job.ref ++ query, none⟩
    else if kind = "videos_content" then
      ⟨"GET", bytesOf "/v1/videos/" ++ bytesOf job.ref ++ bytesOf "/content" ++ query, none⟩
    else ⟨"POST", bytesOf "/v1/chat/completions", some (setField raw "stream" (.bool false))⟩

/-- The routes with a path value `id`. -/
inductive MediaRoute
  | imagesGet
  | videosGet
  | videosContent
  deriving DecidableEq

/-- The patterns of these routes, `GET /v1/images/{id}`, `GET /v1/videos/{id}` and
`GET /v1/videos/{id}/content`, which no pattern with other words there precedes. -/
def matchRoute (path : Bytes) : Option (MediaRoute × Bytes) :=
  match path.splitOn 0x2f with
  | [root, version, media, segment] =>
      let id := pathUnescape segment
      if root = [] && pathUnescape version = bytesOf "v1" && segment ≠ [] && id ≠ [0x2f] then
        if pathUnescape media = bytesOf "images" then some (.imagesGet, id)
        else if pathUnescape media = bytesOf "videos" then some (.videosGet, id)
        else none
      else none
  | [root, version, media, segment, content] =>
      let id := pathUnescape segment
      if root = [] && pathUnescape version = bytesOf "v1" && pathUnescape media = bytesOf "videos" &&
          id ≠ [0x2f] && pathUnescape content = bytesOf "content" then some (.videosContent, id)
      else none
  | _ => none

/-- `ServeMux.findHandler`: one of these routes with its path value. A path that is not clean is
redirected. -/
def findRoute (url : URL) : Option (MediaRoute × Bytes) :=
  let path := cleanPath url.escapedPath
  if path ≠ url.escapedPath then none else matchRoute path

/-- `imageModels` and `videoModels`: the models of the references that this node gave out. -/
structure MediaModels where
  imageModels : Bytes → Option Bytes
  videoModels : Bytes → Option Bytes

/-- What a route forwards. -/
structure MediaCall where
  path : Bytes
  model : Bytes
  deriving DecidableEq

/-- The model and the path of a status or content route. -/
def serveMediaGet (remembered : Bytes → Option Bytes) (path : Bytes) (id : Bytes)
    (query : List (Bytes × Bytes)) : Option MediaCall :=
  let asked := trimBytes (queryGet query (bytesOf "model"))
  let model := if asked = [] then (remembered id).getD [] else asked
  if model = [] ∨ id = [] then none else some ⟨path, model⟩

/-- `serveImagesGet`. -/
def serveImagesGet (models : MediaModels) (id : Bytes) : List (Bytes × Bytes) → Option MediaCall :=
  serveMediaGet models.imageModels (bytesOf "/v1/images/" ++ id) id

/-- `serveVideosGet`. -/
def serveVideosGet (models : MediaModels) (id : Bytes) (content : Bool) :
    List (Bytes × Bytes) → Option MediaCall :=
  serveMediaGet models.videoModels
    (bytesOf "/v1/videos/" ++ id ++ if content then bytesOf "/content" else []) id

/-- The handler of a route. -/
def MediaRoute.serve (models : MediaModels) (id : Bytes) :
    MediaRoute → List (Bytes × Bytes) → Option MediaCall
  | imagesGet => serveImagesGet models id
  | videosGet => serveVideosGet models id false
  | videosContent => serveVideosGet models id true

/-- The kinds of jobs with a reference. -/
inductive ReferenceKind
  | imagesStatus
  | videosStatus
  | videosContent
  deriving DecidableEq

namespace ReferenceKind

/-- The word for the kind. -/
def word : ReferenceKind → String
  | imagesStatus => "images_status"
  | videosStatus => "videos_status"
  | videosContent => "videos_content"

/-- The route that a job of this kind means. -/
def route : ReferenceKind → MediaRoute
  | imagesStatus => .imagesGet
  | videosStatus => .videosGet
  | videosContent => .videosContent

/-- What stands before the reference. -/
def before : ReferenceKind → Bytes
  | imagesStatus => bytesOf "/v1/images/"
  | videosStatus => bytesOf "/v1/videos/"
  | videosContent => bytesOf "/v1/videos/"

/-- What stands between the reference and the query. -/
def after : ReferenceKind → Bytes
  | imagesStatus => []
  | videosStatus => []
  | videosContent => bytesOf "/content"

end ReferenceKind

/-- The job is served by its route with the reference as the path value and the alias as the only
setting of the query, and for an alias as the admin writes them, trimmed and not empty, the route
asks for that model. -/
def KeepsReference (kind : ReferenceKind) (job : RelayJob) : Prop :=
  ∃ request url, localRelay job = some request ∧ request.method = "GET" ∧
    parseReference request.url = some url ∧
    findRoute url = some (kind.route, bytesOf job.ref) ∧
    url.query = [(bytesOf "model", bytesOf job.aliasName)] ∧
    (trimSpace job.aliasName = job.aliasName → job.aliasName ≠ "" → ∀ models,
      kind.route.serve models (bytesOf job.ref) url.query = some
        ⟨kind.before ++ bytesOf job.ref ++ kind.after, bytesOf job.aliasName⟩)

/-- A reference that means itself in a path: not empty, not a dotted segment, without control
characters and without `/`, `?`, `#` and `%`. -/
def plainReference (ref : String) : Bool :=
  ref ≠ "" && ref ≠ "." && ref ≠ ".." &&
    (bytesOf ref).all fun byte => !(byte < 0x20) && byte ≠ 0x7f && byte ∉ bytesOf "/?#%"

section Reference

variable {kind : ReferenceKind} {job : RelayJob} {ref query : Bytes} {url : URL}

theorem localRelay_reference (kind : ReferenceKind) (ref aliasName : String) (body : Body) :
    localRelay ⟨kind.word, aliasName, ref, body⟩ = (relayFields body).map fun _ =>
      ⟨"GET", kind.before ++ (bytesOf ref ++ kind.after) ++
        0x3f :: (bytesOf "model=" ++ queryEscape (bytesOf aliasName)), none⟩ := by
  have mark : bytesOf "?model=" = 0x3f :: bytesOf "model=" := by decide
  cases kind <;>
    simp [localRelay, ReferenceKind.word, ReferenceKind.before, ReferenceKind.after, mark]

theorem relayFields_isSome (body : Body) : (relayFields body).isSome ↔ body ≠ .json [.null] := by
  unfold relayFields
  split
  · simp
  · rename_i other
    simpa using other

/-- The segments of the path that a job of this kind means. -/
def ReferenceKind.segments (kind : ReferenceKind) (segment : Bytes) : List Bytes :=
  match kind with
  | imagesStatus => [bytesOf "v1", bytesOf "images", segment]
  | videosStatus => [bytesOf "v1", bytesOf "videos", segment]
  | videosContent => [bytesOf "v1", bytesOf "videos", segment, bytesOf "content"]

/-- No path of a reference is the asterisk. -/
theorem path_ne_star (kind : ReferenceKind) (rest : Bytes) : kind.before ++ rest ≠ [0x2a] := by
  intro same
  have first : (kind.before ++ rest).head? = some 0x2f := by cases kind <;> rfl
  rw [same] at first
  exact absurd first (by decide)

theorem before_after (kind : ReferenceKind) (segment : Bytes) :
    kind.before ++ (segment ++ kind.after) = [0x2f].intercalate ([] :: kind.segments segment) := by
  have images : bytesOf "/v1/images/" =
      0x2f :: (bytesOf "v1" ++ 0x2f :: (bytesOf "images" ++ [0x2f])) := by decide +kernel
  have videos : bytesOf "/v1/videos/" =
      0x2f :: (bytesOf "v1" ++ 0x2f :: (bytesOf "videos" ++ [0x2f])) := by decide
  have content : bytesOf "/content" = 0x2f :: bytesOf "content" := by decide
  cases kind <;>
    simp [ReferenceKind.before, ReferenceKind.after, ReferenceKind.segments, images, videos, content]

theorem segments_proper (kind : ReferenceKind) {segment : Bytes} (noSlash : 0x2f ∉ segment) (notEmpty : segment ≠ [])
    (notDot : segment ≠ [0x2e]) (notDots : segment ≠ [0x2e, 0x2e]) :
    ∀ part ∈ kind.segments segment, 0x2f ∉ part ∧ part ≠ [] ∧ part ≠ [0x2e] ∧
      part ≠ [0x2e, 0x2e] := by
  have words : ∀ part ∈ [bytesOf "v1", bytesOf "images", bytesOf "videos", bytesOf "content"],
      0x2f ∉ part ∧ part ≠ [] ∧ part ≠ [0x2e] ∧ part ≠ [0x2e, 0x2e] := by decide
  intro part inside
  have isSegmentOrWord : part = segment ∨
      part ∈ [bytesOf "v1", bytesOf "images", bytesOf "videos", bytesOf "content"] := by
    cases kind <;> simp only [ReferenceKind.segments, List.mem_cons, List.not_mem_nil, or_false]
      at inside ⊢ <;> tauto
  rcases isSegmentOrWord with rfl | isWord
  · exact ⟨noSlash, notEmpty, notDot, notDots⟩
  · exact words part isWord

/-- The route of a path that a job of this kind means. -/
theorem findRoute_segments {segment id : Bytes} (reads : percentDecode false segment = some id)
    (noSlash : 0x2f ∉ segment) (notEmpty : id ≠ []) (notDot : id ≠ [0x2e])
    (notDots : id ≠ [0x2e, 0x2e]) (notSlash : id ≠ [0x2f])
    (isPath : url.escapedPath = kind.before ++ (segment ++ kind.after)) :
    findRoute url = some (kind.route, id) := by
  have differs : ∀ word id : Bytes, percentDecode false word = some word → id ≠ word →
      percentDecode false segment = some id → segment ≠ word := by
    rintro word id plain ne reads rfl
    rw [plain, Option.some.injEq] at reads
    exact ne reads.symm
  have segmentNe : segment ≠ [] := differs [] id rfl notEmpty reads
  have proper := segments_proper kind noSlash segmentNe
    (differs [0x2e] id (by decide) notDot reads)
    (differs [0x2e, 0x2e] id (by decide) notDots reads)
  have isClean : cleanPath url.escapedPath = url.escapedPath := by
    rw [isPath, before_after]
    apply cleanPath_segments
    · cases kind <;> simp [ReferenceKind.segments]
    · exact proper
  have splits : url.escapedPath.splitOn 0x2f = [] :: kind.segments segment := by
    rw [isPath, before_after]
    apply List.splitOn_intercalate
    · intro part inside
      rcases List.mem_cons.mp inside with rfl | inside
      · simp
      · exact (proper part inside).1
    · simp
  have unescaped : pathUnescape segment = id := by
    rw [pathUnescape, reads]
    rfl
  have words : pathUnescape (bytesOf "v1") = bytesOf "v1" ∧
      pathUnescape (bytesOf "images") = bytesOf "images" ∧
      pathUnescape (bytesOf "videos") = bytesOf "videos" ∧
      pathUnescape (bytesOf "content") = bytesOf "content" ∧
      bytesOf "videos" ≠ bytesOf "images" := by decide +kernel
  simp only [findRoute, isClean, ne_eq, not_true_eq_false, if_false, matchRoute, splits]
  cases kind <;>
    simp [ReferenceKind.segments, ReferenceKind.route, unescaped, words, segmentNe, notSlash]

/-- What the route and the path value say about the path. -/
theorem path_of_findRoute {id : Bytes} (found : findRoute url = some (kind.route, id)) :
    url.path = kind.before ++ (id ++ kind.after) ∧
      url.escapedPath.count 0x2f = (kind.before ++ kind.after).count 0x2f := by
  have fits : matchRoute url.escapedPath = some (kind.route, id) := by
    simp only [findRoute] at found
    split_ifs at found with isClean
    rw [not_not] at isClean
    rwa [isClean] at found
  have whole : [0x2f].intercalate (url.escapedPath.splitOn 0x2f) = url.escapedPath :=
    List.intercalate_splitOn 0x2f
  have counts := length_splitOn url.escapedPath 0x2f
  have read := percentDecode_segments (List.splitOn_ne_nil 0x2f url.escapedPath)
    (whole ▸ percentDecode_escapedPath url)
  have slashes : (bytesOf "/v1/images/").count 0x2f = 3 ∧ (bytesOf "/v1/videos/").count 0x2f = 3 ∧
      (bytesOf "/content").count 0x2f = 1 := by decide
  have root : pathUnescape [] = [] := rfl
  rw [before_after]
  unfold matchRoute at fits
  split at fits
  · rename_i first version media segment splits
    rw [splits] at read counts
    simp only [List.length_cons, List.length_nil] at counts
    simp only at fits
    split_ifs at fits with proper images videos <;>
      simp only [Option.some.injEq, Prod.mk.injEq] at fits <;>
      simp only [Bool.and_eq_true, decide_eq_true_eq] at proper <;>
      rcases fits with ⟨isRoute, rfl⟩
    · cases kind <;> simp only [ReferenceKind.route, reduceCtorEq] at isRoute
      constructor
      · rw [read]
        simp [ReferenceKind.segments, proper, images, root]
      · rw [List.count_append]
        simp only [ReferenceKind.before, ReferenceKind.after, slashes, List.count_nil]
        omega
    · cases kind <;> simp only [ReferenceKind.route, reduceCtorEq] at isRoute
      constructor
      · rw [read]
        simp [ReferenceKind.segments, proper, videos, root]
      · rw [List.count_append]
        simp only [ReferenceKind.before, ReferenceKind.after, slashes, List.count_nil]
        omega
  · rename_i first version media segment content splits
    rw [splits] at read counts
    simp only [List.length_cons, List.length_nil] at counts
    simp only at fits
    split_ifs at fits with proper
    simp only [Option.some.injEq, Prod.mk.injEq] at fits
    simp only [Bool.and_eq_true, decide_eq_true_eq] at proper
    rcases fits with ⟨isRoute, rfl⟩
    cases kind <;> simp only [ReferenceKind.route, reduceCtorEq] at isRoute
    constructor
    · rw [read]
      simp [ReferenceKind.segments, proper, root]
    · rw [List.count_append]
      simp only [ReferenceKind.before, ReferenceKind.after, slashes]
      omega
  · exact nomatch fits

/-- The bytes of a plain reference. -/
theorem plainReference_iff {ref : String} : plainReference ref = true ↔
    (bytesOf ref ≠ [] ∧ bytesOf ref ≠ [0x2e] ∧ bytesOf ref ≠ [0x2e, 0x2e]) ∧
      ∀ byte ∈ bytesOf ref, (¬byte < 0x20 ∧ byte ≠ 0x7f) ∧ byte ∉ bytesOf "/?#%" := by
  have words : bytesOf "" = [] ∧ bytesOf "." = [0x2e] ∧ bytesOf ".." = [0x2e, 0x2e] := by
    decide
  rw [← words.2.2, ← words.2.1, ← words.1]
  simp only [plainReference, Bool.and_eq_true, decide_eq_true_eq, List.all_eq_true, ne_eq,
    bytesOf_injective.eq_iff, Bool.not_eq_true', decide_eq_false_iff_not, and_assoc]

/-- A reference that is plain reaches its route. -/
theorem findRoute_of_plain {ref : String} (kind : ReferenceKind) (plain : plainReference ref = true)
    (aliasName : String) : ∃ url,
    parseReference (kind.before ++ (bytesOf ref ++ kind.after) ++
      0x3f :: (bytesOf "model=" ++ queryEscape (bytesOf aliasName))) = some url ∧
    findRoute url = some (kind.route, bytesOf ref) ∧
    url.rawQuery = bytesOf "model=" ++ queryEscape (bytesOf aliasName) := by
  rcases plainReference_iff.mp plain with ⟨⟨notEmpty, notDot, notDots⟩, bytesPlain⟩
  have fixed : ∀ byte ∈ kind.before ++ (kind.after ++ bytesOf "model="),
      (¬byte < 0x20 ∧ byte ≠ 0x7f) ∧ byte ∉ bytesOf "?#%" := by
    cases kind <;> decide +kernel
  have marks : ∀ byte, byte ∈ bytesOf "?#%" → byte ∈ bytesOf "/?#%" := by
    apply forall_byte
    decide
  have pathPlain : ∀ byte ∈ kind.before ++ (bytesOf ref ++ kind.after),
      (¬byte < 0x20 ∧ byte ≠ 0x7f) ∧ byte ∉ bytesOf "?#%" := by
    intro byte inside
    rcases List.mem_append.mp inside with front | inside
    · exact fixed byte (List.mem_append_left _ front)
    · rcases List.mem_append.mp inside with middle | back
      · exact ⟨(bytesPlain byte middle).1, fun mark => (bytesPlain byte middle).2 (marks byte mark)⟩
      · exact fixed byte (List.mem_append_right _ (List.mem_append_left _ back))
  have queryPlain : ∀ byte ∈ bytesOf "model=" ++ queryEscape (bytesOf aliasName),
      (¬byte < 0x20 ∧ byte ≠ 0x7f) ∧ byte ≠ 0x23 := by
    intro byte inside
    rcases List.mem_append.mp inside with key | value
    · rcases fixed byte (List.mem_append_right _ (List.mem_append_right _ key)) with ⟨clear, mark⟩
      refine ⟨clear, ?_⟩
      rintro rfl
      exact mark (by decide)
    · rcases mem_queryEscape value with ⟨mark, clear⟩
      refine ⟨clear, ?_⟩
      rintro rfl
      exact mark (by decide)
  have noMark : ∀ mark ∈ bytesOf "?#%", mark ∉ kind.before ++ (bytesOf ref ++ kind.after) :=
    fun mark isMark inside => (pathPlain mark inside).2 isMark
  refine ⟨_, parseReference_plain ⟨noMark 0x25 (by decide), noMark 0x23 (by decide),
    noMark 0x3f (by decide)⟩ (fun inside => (queryPlain _ inside).2 rfl) ?_, ?_, rfl⟩
  · intro byte inside
    rcases List.mem_append.mp inside with path | query
    · exact (pathPlain byte path).1
    · exact (queryPlain byte query).1
  · have noSlash : 0x2f ∉ bytesOf ref := fun inside =>
      (bytesPlain _ inside).2 (by decide)
    have noPercent : 0x25 ∉ bytesOf ref := fun inside =>
      (bytesPlain _ inside).2 (by decide)
    have notSlash : bytesOf ref ≠ [0x2f] := by
      intro same
      exact noSlash (by simp [same])
    rcases @escapedPath_or ⟨kind.before ++ (bytesOf ref ++ kind.after), _, _, []⟩
      (path_ne_star kind _) with ⟨kept, asIs⟩ | encoded
    · apply findRoute_segments (percentDecode_plain noPercent) noSlash notEmpty notDot notDots
        notSlash
      rw [asIs]
      simp only [ne_eq, ite_eq_left_iff, not_forall] at kept ⊢
      rcases kept with ⟨differs, _⟩
      rw [if_neg differs]
    · have fixedKept : percentEncode keptInPath false kind.before = kind.before ∧
          percentEncode keptInPath false kind.after = kind.after := by
        cases kind <;> decide
      have parts : percentEncode keptInPath false (kind.before ++ (bytesOf ref ++ kind.after)) =
          kind.before ++ (percentEncode keptInPath false (bytesOf ref) ++ kind.after) := by
        rw [percentEncode, List.flatMap_append, List.flatMap_append]
        exact congrArg₂ _ fixedKept.1 (congrArg _ fixedKept.2)
      apply findRoute_segments (percentDecode_percentEncode keptInPath_percent (by simp) _)
      · rw [← List.count_eq_zero, count_percentEncode, List.count_eq_zero]
        exact noSlash
      · exact notEmpty
      · exact notDot
      · exact notDots
      · exact notSlash
      · rw [encoded, parts]

/-- A reference that reaches its route is plain. -/
theorem plain_of_findRoute {ref : String} {query : Bytes}
    (parses : parseReference (kind.before ++ (bytesOf ref ++ kind.after) ++ 0x3f :: query) = some url)
    (found : findRoute url = some (kind.route, bytesOf ref)) : plainReference ref = true := by
  rcases path_of_findRoute found with ⟨isPath, slashes⟩
  have isReference : url.path ≠ [0x2a] := by
    rw [isPath]
    exact path_ne_star kind _
  rcases escapedPath_cases parses isReference with ⟨reads, noControl, escaped⟩
  have beforePlain : 0x23 ∉ kind.before ∧ 0x3f ∉ kind.before ∧ 0x25 ∉ kind.before := by
    cases kind <;> decide
  rcases cut_cut kind.before (bytesOf ref ++ kind.after) query ⟨beforePlain.1, beforePlain.2.1⟩ with
    ⟨path, isCut, lengths⟩
  rw [isCut, percentDecode_append (percentDecode_plain beforePlain.2.2)] at reads
  rcases Option.map_eq_some_iff.mp reads with ⟨read, pathRead, same⟩
  rw [isPath, List.append_cancel_left_eq] at same
  subst same
  rcases length_percentDecode pathRead with ⟨lengthLe, noPercent⟩
  rcases lengths with shorter | ⟨rfl, noFragment, noQuery, inReference⟩
  · omega
  rw [isCut, isPath] at escaped
  have count : (bytesOf ref).count 0x2f = 0 := by
    have sum : url.escapedPath.count 0x2f =
        (kind.before ++ (bytesOf ref ++ kind.after)).count 0x2f := by
      rcases escaped with asIs | encoded
      · rw [asIs]
      · rw [encoded, count_percentEncode]
    rw [slashes] at sum
    simp only [List.count_append] at sum
    omega
  have dotted : ∀ word ∈ [[], [0x2e], [0x2e, 0x2e]], bytesOf ref ≠ word := by
    have redirects : ∀ word ∈ [[], [0x2e], [0x2e, 0x2e]],
        percentEncode keptInPath false (kind.before ++ (word ++ kind.after)) =
          kind.before ++ (word ++ kind.after) ∧
        (cleanPath (kind.before ++ (word ++ kind.after)) = kind.before ++ (word ++ kind.after) →
          matchRoute (kind.before ++ (word ++ kind.after)) = none) := by
      cases kind <;> decide
    intro word isWord same
    rcases redirects word isWord with ⟨plain, noRoute⟩
    rw [same] at escaped
    have isPath : url.escapedPath = kind.before ++ (word ++ kind.after) := by
      rcases escaped with asIs | encoded
      · exact asIs
      · rw [encoded, plain]
    rw [findRoute, isPath] at found
    split_ifs at found with isClean
    rw [not_not] at isClean
    rw [isClean, noRoute isClean] at found
    exact nomatch found
  rw [plainReference_iff]
  constructor
  · refine ⟨dotted _ (by simp), dotted _ (by simp), dotted _ (by simp)⟩
  · intro byte inside
    refine ⟨noControl byte (inReference byte (List.mem_append_left _ inside)), ?_⟩
    intro mark
    have marks : ∀ byte : UInt8, byte ∈ bytesOf "/?#%" →
        byte = 0x2f ∨ byte = 0x3f ∨ byte = 0x23 ∨ byte = 0x25 := by
      apply forall_byte
      decide
    rcases marks byte mark with rfl | rfl | rfl | rfl
    · exact List.count_eq_zero.mp count inside
    · exact noQuery (List.mem_append_left _ inside)
    · exact noFragment (List.mem_append_left _ inside)
    · exact noPercent rfl (List.mem_append_left _ inside)

/-- A job keeps its reference and its alias exactly when the reference is plain, unless its body is
`null`, which no job survives. -/
theorem keepsReference_iff (kind : ReferenceKind) (ref aliasName : String) (body : Body) :
    KeepsReference kind ⟨kind.word, aliasName, ref, body⟩ ↔
      plainReference ref = true ∧ body ≠ .json [.null] := by
  constructor
  · rintro ⟨request, url, relays, _, parses, found, _⟩
    rw [localRelay_reference] at relays
    rcases Option.map_eq_some_iff.mp relays with ⟨fields, hasFields, rfl⟩
    exact ⟨plain_of_findRoute parses found,
      (relayFields_isSome body).mp (Option.isSome_iff_exists.mpr ⟨fields, hasFields⟩)⟩
  · rintro ⟨plain, notNull⟩
    rcases Option.isSome_iff_exists.mp ((relayFields_isSome body).mpr notNull) with ⟨fields, hasFields⟩
    rcases findRoute_of_plain kind plain aliasName with ⟨url, parses, found, isQuery⟩
    have settings : url.query = [(bytesOf "model", bytesOf aliasName)] := by
      apply query_setting
      · decide
      · decide +kernel
      · rw [isQuery]
        have setting : bytesOf "model=" = bytesOf "model" ++ [0x3d] := by decide
        rw [setting, List.append_assoc, List.singleton_append]
    refine ⟨⟨"GET", kind.before ++ (bytesOf ref ++ kind.after) ++
      0x3f :: (bytesOf "model=" ++ queryEscape (bytesOf aliasName)), none⟩, url, ?_, rfl, parses, found, settings, ?_⟩
    · rw [localRelay_reference, hasFields]
      rfl
    · intro trimmed notEmpty models
      have named : bytesOf aliasName ≠ [] := by
        rw [← show bytesOf "" = [] from rfl]
        exact bytesOf_injective.ne notEmpty
      have asked : trimBytes (queryGet url.query (bytesOf "model")) = bytesOf aliasName := by
        simp [settings, queryGet, trimBytes_bytesOf, trimmed]
      have hasId := (plainReference_iff.mp plain).1.1
      cases kind <;>
        simp [MediaRoute.serve, ReferenceKind.route, serveImagesGet, serveVideosGet, serveMediaGet,
          asked, named, hasId, ReferenceKind.before, ReferenceKind.after]

end Reference

/-- A reference with a question mark is cut off there, and what follows names another model. -/
theorem not_keepsReference : ¬ ∀ (kind : ReferenceKind) (ref aliasName : String) (body : Body),
    KeepsReference kind ⟨kind.word, aliasName, ref, body⟩ := by
  intro claim
  rcases claim .videosStatus "v1?model=secret&x=" "shared" (.json [.object []]) with
    ⟨request, url, relays, _, parses, found, _⟩
  rw [localRelay_reference] at relays
  rcases Option.map_eq_some_iff.mp relays with ⟨_, _, rfl⟩
  have elsewhere : (parseReference (ReferenceKind.videosStatus.before ++
      (bytesOf "v1?model=secret&x=" ++ ReferenceKind.videosStatus.after) ++
      0x3f :: (bytesOf "model=" ++ queryEscape (bytesOf "shared")))).bind findRoute =
        some (.videosGet, bytesOf "v1") := by decide +kernel
  rw [parses, Option.bind_some, found] at elsewhere
  exact absurd elsewhere (by decide)

end MikroLLM.Hub
