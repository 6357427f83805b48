import MikroLLM.Go.Codec
import MikroLLM.Go.Decoder
import MikroLLM.Go.Strings
import MikroLLM.Go.Text
import MikroLLM.Go.Unmarshal
import MikroLLM.Library.Distinct

/-!
# Reference images

`openComfyMediaBody` collects the images of a request from five places. What it finds
in each of them goes through `mergeImageRefs`, which takes lists and strings, but no
object alone.
-/

namespace MikroLLM.Proxy

open Go Library

/-- A reference to an image. -/
def imageRef (url : String) : Fields :=
  [("type", .string "image_url"), ("image_url", .object [("url", .string url)])]

/-- `asImageRef`. -/
def asImageRef : Json → Option Fields
  | .string url => if trimSpace url = "" then none else some (imageRef url)
  | .object fields =>
      if stringAt fields "url" ≠ "" ∧ field fields "image_url" = .null then
        some (imageRef (stringAt fields "url"))
      else some fields
  | _ => none

/-- `imageRefURL`. -/
def imageRefURL (ref : Fields) : String :=
  match field ref "image_url" with
  | .object inner =>
      if stringAt inner "url" ≠ "" then stringAt inner "url" else stringAt ref "url"
  | _ => stringAt ref "url"

/-- The closure `add` in `mergeImageRefs`, whose map `seen` has the URLs of the references. -/
def addImageRef (refs : List Fields) (value : Json) : List Fields :=
  match asImageRef value with
  | none => refs
  | some ref =>
      if imageRefURL ref = "" ∨ imageRefURL ref ∈ refs.map imageRefURL then refs
      else refs ++ [ref]

/-- The switch over the type of `existing` in `mergeImageRefs`. -/
def addExisting : Json → List Fields
  | .array values => values.foldl addImageRef []
  | .string url => addImageRef [] (.string url)
  | _ => []

/-- `mergeImageRefs`. -/
def mergeImageRefs (existing : Json) (extra : List Json) : List Fields :=
  extra.foldl addImageRef (addExisting existing)

/-- One part of a content in `imageRefsFromContent`. -/
def imagePart : Json → Option Json
  | .object part =>
      if imageRefURL part = "" then none else some (.object (imageRef (imageRefURL part)))
  | _ => none

/-- `imageRefsFromContent`. -/
def imageRefsFromContent : Json → List Json
  | .array parts => parts.filterMap imagePart
  | _ => []

/-- `imageRefsFromMessages`. -/
def imageRefsFromMessages : Json → List Json
  | .array messages => messages.flatMap fun message =>
      match message with
      | .object fields => imageRefsFromContent (field fields "content")
      | _ => []
  | _ => []

/-- The text of one part in `mediaContentText`, behind the text of those before it. -/
def addMediaText (written : String) : Json → String
  | .object part =>
      let text := stringAt part "text"
      if text = "" then written
      else if written = "" then text
      else written ++ " " ++ text
  | _ => written

/-- `mediaContentText`. -/
def mediaContentText : Json → String
  | .string text => text
  | .array parts => parts.foldl addMediaText ""
  | _ => ""

/-- One message in `lastUserImagePrompt`. -/
def lastPrompt (text : TextLibrary) (last : String) : Json → String
  | .object message =>
      let role := stringAt message "role"
      if text.equalFold role "assistant" ∨ text.equalFold role "system" then last
      else
        let prompt := trimSpace (mediaContentText (field message "content"))
        if prompt = "" then last else prompt
  | _ => last

/-- `lastUserImagePrompt`. -/
def lastUserImagePrompt (text : TextLibrary) (raw : Fields) : String :=
  let last :=
    match field raw "messages" with
    | .array messages => messages.foldl (lastPrompt text) ""
    | _ => ""
  if last = "" then trimSpace (stringAt raw "prompt") else last

/-- References as a value of the map. -/
def refsValue (refs : List Fields) : Json := .array (refs.map .object)

/-- The references of a request. -/
def collectRefs (raw : Fields) : List Fields :=
  let refs := mergeImageRefs (field raw "input_references") []
  let refs := mergeImageRefs (refsValue refs)
    ((mergeImageRefs (field raw "input_reference") []).map .object)
  let refs := mergeImageRefs (refsValue refs)
    ((mergeImageRefs (field raw "input_image") []).map .object)
  let refs := mergeImageRefs (refsValue refs)
    ((mergeImageRefs (field raw "input_images") []).map .object)
  mergeImageRefs (refsValue refs) (imageRefsFromMessages (field raw "messages"))

/-- One round of the loop over the URLs. -/
def addURL (urls : List String) (ref : Fields) : List String :=
  if imageRefURL ref = "" ∨ imageRefURL ref ∈ urls then urls else urls ++ [imageRefURL ref]

/-- The fields of the images. -/
def setImages (raw : Fields) (refs : List Fields) : Fields :=
  let urls := refs.foldl addURL []
  let raw :=
    match urls with
    | [] => raw
    | [url] => setField raw "input_image" (.string url)
    | url :: more =>
        setField (setField raw "input_image" (.string url)) "input_images"
          (.array ((url :: more).map .string))
  if refs = [] then raw else setField raw "input_references" (refsValue refs)

/-- The map that `openComfyMediaBody` writes. -/
def openComfyMedia (text : TextLibrary) (raw : Fields) : Fields :=
  let prompt := lastUserImagePrompt text raw
  let raw := if prompt = "" then raw else setField raw "prompt" (.string prompt)
  deleteField (deleteField (setImages raw (collectRefs raw)) "messages") "modalities"

/-- `openComfyMediaBody`. -/
def openComfyMediaBody (text : TextLibrary) (codec : Codec) (body : List UInt8) : List UInt8 :=
  match codec.decode body with
  | none => body
  | some raw => codec.marshal (openComfyMedia text raw)

/-- The URL that a value gives. -/
def urlsOf (value : Json) : List String :=
  match asImageRef value with
  | none => []
  | some ref => if imageRefURL ref = "" then [] else [imageRefURL ref]

/-- The URLs of a field that is a list of values or a value alone, each with the mark whether it
stands in an object alone. -/
def givenBy : Json → List (String × Bool)
  | .array values => (values.flatMap urlsOf).map (·, false)
  | .string url => (urlsOf (.string url)).map (·, false)
  | value => (urlsOf value).map (·, true)

/-- The URLs that a request gives, in the order of the five places. -/
def given (raw : Fields) : List (String × Bool) :=
  givenBy (field raw "input_references") ++ givenBy (field raw "input_reference") ++
    givenBy (field raw "input_image") ++ givenBy (field raw "input_images") ++
      ((imageRefsFromMessages (field raw "messages")).flatMap urlsOf).map (·, false)

/-- The distinct URLs that a request gives. -/
def givenURLs (raw : Fields) : List String := distinct ((given raw).map Prod.fst)

/-- The URLs of a list of references. -/
def urlsIn : Json → List String
  | .array values => values.flatMap urlsOf
  | _ => []

/-- Every image that is given is kept, once and in its place. -/
structure KeepsImages (raw written : Fields) : Prop where
  references : urlsIn (field written "input_references") = givenURLs raw
  first : ∀ url rest, givenURLs raw = url :: rest → field written "input_image" = .string url
  several : 1 < (givenURLs raw).length →
    field written "input_images" = .array ((givenURLs raw).map .string)

section Collecting

variable {refs : List Fields} {values : List Json} {value : Json} {raw other : Fields} {url : String}

theorem imageRefURL_imageRef (url : String) : imageRefURL (imageRef url) = url := by
  by_cases blank : url = ""
  · rw [blank]
    rfl
  · have inner : stringAt [("url", .string url)] "url" = url := rfl
    have outer : field (imageRef url) "image_url" = .object [("url", .string url)] := rfl
    simp only [imageRefURL, outer, inner, ne_eq, if_pos blank]

/-- An object gives the URL it refers to. -/
theorem urlsOf_object (ref : Fields) :
    urlsOf (.object ref) = if imageRefURL ref = "" then [] else [imageRefURL ref] := by
  simp only [urlsOf, asImageRef]
  split
  · rename_i plain
    split at plain
    · cases plain
    · cases plain
  · rename_i kept isKept
    split at isKept
    · rename_i plain
      cases isKept
      have isURL : imageRefURL ref = stringAt ref "url" := by
        rw [imageRefURL, plain.2]
      rw [imageRefURL_imageRef, isURL]
    · cases isKept
      rfl

/-- References that have URLs. -/
def Proper (refs : List Fields) : Prop := ∀ ref ∈ refs, imageRefURL ref ≠ ""

theorem Proper.urls (proper : Proper refs) :
    (refs.map Json.object).flatMap urlsOf = refs.map imageRefURL := by
  induction refs with
  | nil => rfl
  | cons ref rest ih =>
      rw [Proper, List.forall_mem_cons] at proper
      rw [List.map_cons, List.flatMap_cons, urlsOf_object, if_neg proper.1, ih proper.2,
        List.map_cons, List.singleton_append]

theorem addImageRef_urls (refs : List Fields) (value : Json) :
    (addImageRef refs value).map imageRefURL =
      (urlsOf value).foldl addDistinct (refs.map imageRefURL) := by
  rw [addImageRef, urlsOf]
  cases asImageRef value with
  | none => rfl
  | some ref =>
      simp only
      by_cases blank : imageRefURL ref = ""
      · rw [if_pos (Or.inl blank), if_pos blank, List.foldl_nil]
      · rw [if_neg blank, List.foldl_cons, List.foldl_nil, addDistinct]
        by_cases isSeen : imageRefURL ref ∈ refs.map imageRefURL
        · rw [if_pos (Or.inr isSeen), if_pos isSeen]
        · rw [if_neg (not_or.mpr ⟨blank, isSeen⟩), if_neg isSeen, List.map_append,
            List.map_singleton]

theorem Proper.add (proper : Proper refs) (value : Json) : Proper (addImageRef refs value) := by
  rw [addImageRef]
  cases asImageRef value with
  | none => exact proper
  | some ref =>
      simp only
      split
      · exact proper
      · rename_i fresh
        rw [Proper, List.forall_mem_append, List.forall_mem_singleton]
        exact ⟨proper, (not_or.mp fresh).1⟩

theorem Proper.foldl (proper : Proper refs) : Proper (values.foldl addImageRef refs) := by
  induction values generalizing refs with
  | nil => exact proper
  | cons value rest ih => exact ih (proper.add value)

theorem proper_nil : Proper [] := fun _ inside => absurd inside List.not_mem_nil

theorem foldl_addImageRef_urls (refs : List Fields) :
    (values.foldl addImageRef refs).map imageRefURL =
      (values.flatMap urlsOf).foldl addDistinct (refs.map imageRefURL) := by
  induction values generalizing refs with
  | nil => rfl
  | cons value rest ih =>
      rw [List.foldl_cons, ih, addImageRef_urls, List.flatMap_cons, List.foldl_append]

theorem proper_mergeImageRefs (existing : Json) (extra : List Json) :
    Proper (mergeImageRefs existing extra) := by
  have proper : Proper (addExisting existing) := by
    cases existing with
    | array values => exact proper_nil.foldl
    | string url => exact proper_nil.add _
    | object fields => exact proper_nil
    | null => exact proper_nil
    | bool value => exact proper_nil
    | number literal => exact proper_nil
  exact proper.foldl

/-- `mergeImageRefs` finds what does not stand in an object alone. -/
theorem mergeImageRefs_urls (existing : Json) (extra : List Json) :
    (mergeImageRefs existing extra).map imageRefURL =
      distinct (unmarked (givenBy existing) ++ extra.flatMap urlsOf) := by
  have start : (addExisting existing).map imageRefURL =
      (unmarked (givenBy existing)).foldl addDistinct [] := by
    cases existing with
    | array values =>
        rw [addExisting, foldl_addImageRef_urls, givenBy, unmarked_of_false, List.map_nil]
    | string url => rw [addExisting, addImageRef_urls, givenBy, unmarked_of_false, List.map_nil]
    | object fields =>
        have marked : unmarked (givenBy (.object fields)) = [] := unmarked_of_true _
        rw [marked]
        rfl
    | null => rfl
    | bool value => rfl
    | number literal => rfl
  rw [mergeImageRefs, foldl_addImageRef_urls, start, ← List.foldl_append, foldl_addDistinct,
    List.nil_append, distinct]

/-- The references found so far, and those of one more place. -/
theorem mergeImageRefs_more {front : List String} (proper : Proper refs)
    (urls : refs.map imageRefURL = distinct front) (place : Json) :
    (mergeImageRefs (refsValue refs) ((mergeImageRefs place []).map .object)).map imageRefURL =
      distinct (front ++ unmarked (givenBy place)) := by
  have found := (proper_mergeImageRefs place []).urls
  rw [mergeImageRefs_urls, List.flatMap_nil, List.append_nil] at found
  rw [mergeImageRefs_urls, found, distinct_append_right, refsValue, givenBy, unmarked_of_false,
    proper.urls, urls, distinct_append_left]

theorem collectRefs_proper (raw : Fields) : Proper (collectRefs raw) :=
  proper_mergeImageRefs _ _

/-- The URLs that are found. -/
theorem collectRefs_urls (raw : Fields) :
    (collectRefs raw).map imageRefURL = distinct (unmarked (given raw)) := by
  have one := mergeImageRefs_urls (field raw "input_references") []
  rw [List.flatMap_nil, List.append_nil] at one
  have two := mergeImageRefs_more (proper_mergeImageRefs _ _) one (field raw "input_reference")
  have three := mergeImageRefs_more (proper_mergeImageRefs _ _) two (field raw "input_image")
  have four := mergeImageRefs_more (proper_mergeImageRefs _ _) three (field raw "input_images")
  rw [collectRefs, mergeImageRefs_urls, refsValue, givenBy, unmarked_of_false,
    (proper_mergeImageRefs _ _).urls, four, distinct_append_left, given, unmarked_append,
    unmarked_append, unmarked_append, unmarked_append, unmarked_of_false]

/-- The five places. -/
def imagePlaces : List String :=
  ["input_references", "input_reference", "input_image", "input_images", "messages"]

theorem collectRefs_congr (same : ∀ key ∈ imagePlaces, field raw key = field other key) :
    collectRefs raw = collectRefs other := by
  simp only [imagePlaces, List.forall_mem_cons] at same
  rcases same with ⟨references, reference, image, images, messages, _⟩
  rw [collectRefs, collectRefs, references, reference, image, images, messages]

/-- The loop over the URLs finds those of the references. -/
theorem addURL_urls (proper : Proper refs) (urls : List String) :
    refs.foldl addURL urls = (refs.map imageRefURL).foldl addDistinct urls := by
  induction refs generalizing urls with
  | nil => rfl
  | cons ref rest ih =>
      rw [Proper, List.forall_mem_cons] at proper
      rw [List.foldl_cons, ih proper.2, List.map_cons, List.foldl_cons]
      simp only [addURL, addDistinct, proper.1, false_or]

end Collecting

section Writing

variable {text : TextLibrary} {raw written : Fields} {refs : List Fields} {key : String}

theorem field_deleteField_ne (fields : Fields) {key other : String} (differs : other ≠ key) :
    field (deleteField fields key) other = field fields other := by
  rw [field, fieldOf_deleteField_ne fields differs, field]

theorem field_promptFor (prompt : String) (differs : key ≠ "prompt") :
    field (if prompt = "" then raw else setField raw "prompt" (.string prompt)) key =
      field raw key := by
  split
  · rfl
  · exact field_setField_ne raw _ differs

/-- The map that is written, in front of the deletions. -/
theorem field_openComfyMedia (text : TextLibrary) (raw : Fields) (key : String)
    (kept : key ≠ "messages") (alsoKept : key ≠ "modalities") :
    ∃ prompted, (∀ other, other ≠ "prompt" → field prompted other = field raw other) ∧
      field (openComfyMedia text raw) key = field (setImages prompted (collectRefs raw)) key := by
  let prompt := lastUserImagePrompt text raw
  refine ⟨if prompt = "" then raw else setField raw "prompt" (.string prompt),
    fun other differs => field_promptFor prompt differs, ?_⟩
  have sameRefs : collectRefs (if prompt = "" then raw else setField raw "prompt" (.string prompt)) =
      collectRefs raw := by
    apply collectRefs_congr
    intro place inside
    apply field_promptFor
    rintro rfl
    exact absurd inside (by decide)
  rw [openComfyMedia, field_deleteField_ne _ alsoKept, field_deleteField_ne _ kept, sameRefs]

theorem field_references (raw : Fields) (refs : List Fields) :
    field (setImages raw refs) "input_references" =
      if refs = [] then field raw "input_references" else refsValue refs := by
  rw [setImages]
  split
  · rename_i none
    rw [none]
    rfl
  · exact field_setField_self _ _ _

/-- The images that are written. -/
theorem field_images (raw : Fields) {url : String} {rest : List String}
    (urls : refs.foldl addURL [] = url :: rest) :
    field (setImages raw refs) "input_image" = .string url ∧
      (rest ≠ [] → field (setImages raw refs) "input_images" =
        .array ((url :: rest).map .string)) := by
  have some : ¬refs = [] := by
    rintro rfl
    cases urls
  have notReferences : "input_image" ≠ "input_references" := by decide
  have notImages : "input_image" ≠ "input_images" := by decide
  have alsoNotReferences : "input_images" ≠ "input_references" := by decide
  simp only [setImages, urls, if_neg some]
  cases rest with
  | nil =>
      refine ⟨?_, fun more => absurd rfl more⟩
      rw [field_setField_ne _ _ notReferences, field_setField_self]
  | cons next more =>
      constructor
      · rw [field_setField_ne _ _ notReferences, field_setField_ne _ _ notImages,
          field_setField_self]
      · intro _
        rw [field_setField_ne _ _ alsoNotReferences, field_setField_self]

theorem distinct_eq_nil {items : List String} (none : distinct items = []) : items = [] := by
  apply List.eq_nil_iff_forall_not_mem.mpr
  intro item inside
  rw [← mem_distinct, none] at inside
  cases inside

/-- The list of references has the URLs that do not stand in objects alone. -/
theorem urlsIn_references (text : TextLibrary) (raw : Fields) :
    urlsIn (field (openComfyMedia text raw) "input_references") = distinct (unmarked (given raw)) := by
  have proper := collectRefs_proper raw
  have urls := collectRefs_urls raw
  rcases field_openComfyMedia text raw "input_references" (by decide) (by decide) with
    ⟨prompted, same, isField⟩
  rw [isField, field_references, same "input_references" (by decide)]
  split
  · rename_i none
    rw [none, List.map_nil] at urls
    have noURLs := distinct_eq_nil urls.symm
    simp only [given, unmarked_append, List.append_eq_nil_iff] at noURLs
    have noReferences := noURLs.1.1.1.1
    rw [← urls]
    cases isValue : field raw "input_references" with
    | array values =>
        rw [isValue, givenBy, unmarked_of_false] at noReferences
        exact noReferences
    | string url => rfl
    | object fields => rfl
    | null => rfl
    | bool value => rfl
    | number literal => rfl
  · rw [refsValue, urlsIn, proper.urls, urls]

end Writing

/-- `openComfyMediaBody` keeps the images of a request exactly when each URL that stands in an
object alone was given before, or is the next new one that does not. -/
theorem keepsImages_iff {text : TextLibrary} {codec : Codec} {body : List UInt8} {raw : Fields}
    (decodes : codec.decode body = some raw) :
    openComfyMediaBody text codec body = codec.marshal (openComfyMedia text raw) ∧
      (KeepsImages raw (openComfyMedia text raw) ↔ Covered [] (given raw)) := by
  refine ⟨by rw [openComfyMediaBody, decodes], ?_⟩
  have references := urlsIn_references text raw
  have covered : givenURLs raw = distinct (unmarked (given raw)) ↔ Covered [] (given raw) :=
    distinctFrom_unmarked_iff
  constructor
  · intro keeps
    rw [← covered, ← references, keeps.references]
  · intro isCovered
    have same := covered.mpr isCovered
    have proper := collectRefs_proper raw
    have urls : (collectRefs raw).foldl addURL [] = givenURLs raw := by
      rw [addURL_urls proper, collectRefs_urls, ← same, foldl_addDistinct, List.nil_append]
      exact distinct_distinct _
    rcases field_openComfyMedia text raw "input_image" (by decide) (by decide) with
      ⟨prompted, _, isImage⟩
    rcases field_openComfyMedia text raw "input_images" (by decide) (by decide) with
      ⟨promptedToo, _, areImages⟩
    constructor
    · rw [references, same]
    · intro url rest isGiven
      rw [isGiven] at urls
      rw [isImage]
      exact (field_images prompted urls).1
    · intro several
      cases isGiven : givenURLs raw with
      | nil =>
          rw [isGiven] at several
          cases several
      | cons url rest =>
          rw [isGiven] at urls several
          rw [areImages]
          refine (field_images promptedToo urls).2 ?_
          rintro rfl
          simp at several

section Trials

/-- A photo in a list, and alone in an object. -/
def photoFields : Fields :=
  [("prompt", .string "a cube"), ("input_references", .array [.string "a.png", .string "b.png"]),
    ("input_image", .object [("url", .string "a.png")])]

def photoBody : List UInt8 :=
  bytesOf "\x7b\"prompt\":\"a cube\",\"input_references\":[\"a.png\",\"b.png\"],\"input_image\":\x7b\"url\":\"a.png\"\x7d\x7d"

/-- Only the object. -/
def lonelyFields : Fields :=
  [("prompt", .string "a cube"), ("input_image", .object [("url", .string "a.png")])]

def lonelyBody : List UInt8 :=
  bytesOf "\x7b\"prompt\":\"a cube\",\"input_image\":\x7b\"url\":\"a.png\"\x7d\x7d"

def photoDocuments : Documents where
  list := [(photoBody, encode photoFields), (lonelyBody, encode lonelyFields)]
  distinct := by decide
  texts := by decide

theorem decode_photoBody : (knownCodec photoDocuments).decode photoBody = some photoFields := by
  have parsed : (knownCodec photoDocuments).parse photoBody = encode photoFields :=
    @Documents.read_of_mem photoDocuments _ _ List.mem_cons_self
  rw [Codec.decode, parsed]
  rfl

theorem decode_lonelyBody : (knownCodec photoDocuments).decode lonelyBody = some lonelyFields := by
  have parsed : (knownCodec photoDocuments).parse lonelyBody = encode lonelyFields :=
    @Documents.read_of_mem photoDocuments _ _ (List.mem_cons_of_mem _ List.mem_cons_self)
  rw [Codec.decode, parsed]
  rfl

theorem keepsImages_iff_photo :
    openComfyMediaBody asciiText (knownCodec photoDocuments) photoBody =
        (knownCodec photoDocuments).marshal (openComfyMedia asciiText photoFields) ∧
      (KeepsImages photoFields (openComfyMedia asciiText photoFields) ↔
        Covered [] (given photoFields)) :=
  keepsImages_iff decode_photoBody

/-- The photo in the object is lost. -/
theorem not_keepsImages :
    ¬∀ (text : TextLibrary) (codec : Codec) (body : List UInt8) (raw : Fields),
      codec.decode body = some raw →
        openComfyMediaBody text codec body = codec.marshal (openComfyMedia text raw) ∧
          KeepsImages raw (openComfyMedia text raw) := by
  intro claim
  have keeps := (claim asciiText (knownCodec photoDocuments) lonelyBody lonelyFields
    decode_lonelyBody).2
  have isFirst := keeps.first "a.png" [] (by decide)
  exact absurd isFirst (by decide)

end Trials

end MikroLLM.Proxy
