import MikroLLM.Go.Strings
import MikroLLM.Go.Text

/-!
# Media kinds of a model

What a model answers with besides text, as it is stored and as it is guessed
from the name.
-/

namespace MikroLLM.Domain

open Go

variable (text : TextLibrary)

def mediaImage : String := "image"

def mediaVideo : String := "video"

def mediaEmbed : String := "embed"

def mediaDecision : String := "decision"

/-- `ParseMedia`. -/
def parseMedia (list : String) : List String :=
  ((split list ',').map fun part => text.toLower (trimSpace part)).foldl
    (fun kept part =>
      if part ∈ [mediaImage, mediaVideo, mediaEmbed, mediaDecision] ∧ part ∉ kept then kept ++ [part]
      else kept) []

/-- `JoinMedia`. -/
def joinMedia (media : List String) : String :=
  join (parseMedia text (join media ",")) ","

def imageNameTokens : List String :=
  ["dall-e", "dall_e", "dalle", "gpt-image", "flux", "imagen", "recraft", "ideogram", "sdxl",
    "stable-diffusion", "stable_diffusion", "hidream", "grok-imagine", "seedream", "photon",
    "flash-image", "pro-image", "image-preview", "nanobanana", "z-image", "z_image"]

def embeddingNameTokens : List String :=
  ["embed", "/laya", "laya:", ":laya", "modern-bert", "modernbert", "bge-", "bge/", "minilm",
    "nomic-embed", "snowflake-arctic-embed"]

def videoNameTokens : List String :=
  ["sora", "kling", "runway", "luma-dream", "luma/dream", "dream-machine", "wan-2", "wan2", "wan/",
    "minimax-video", "hailuo", "veo-", "veo2", "veo3", "hunyuan-video", "ltx-video", "seedance",
    "sora-2", "grok-imagine-video", "imagine-video", "/veo"]

/-- A name before its tag. -/
def untagged (name : String) : String :=
  String.ofList (name.toList.takeWhile (· ≠ ':'))

/-- `IsEmbeddingModel`. -/
def isEmbeddingModel (name : String) : Bool :=
  let low := text.toLower (trimSpace name)
  let base := untagged low
  low ≠ "" && (base = "laya" || hasSuffix base "/laya" || embeddingNameTokens.any (contains low))

/-- `IsDecisionModel`. -/
def isDecisionModel (name : String) : Bool :=
  let low := text.toLower (trimSpace name)
  let base := String.ofList ((untagged low).toList.rtakeWhile (· ≠ '/'))
  low ≠ "" && (base ∈ ["jev", "nimble", "tev1"] || hasPrefix base "jev-" ||
    hasPrefix base "typesafe-jev")

/-- `InferMedia`. -/
def inferMedia (name : String) (outputModalities : List String) : List String :=
  if isEmbeddingModel text name then [mediaEmbed]
  else if isDecisionModel text name then [mediaDecision]
  else
    let published := outputModalities.filterMap fun modality =>
      let kind := text.toLower (trimSpace modality)
      if kind = mediaImage ∨ kind = "images" then some mediaImage
      else if kind = mediaVideo ∨ kind = "videos" then some mediaVideo
      else none
    let low := text.toLower name
    let image := if imageNameTokens.any (contains low) then [mediaImage] else []
    let video := if videoNameTokens.any (contains low) then [mediaVideo] else []
    parseMedia text (join (published ++ image ++ video) ",")

end MikroLLM.Domain
