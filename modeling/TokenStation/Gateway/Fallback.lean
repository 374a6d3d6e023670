import TokenStation.Protocol.Stream
import TokenStation.Protocol.Text
import TokenStation.Router.Lexicon

/-!
# Which failures may be tried elsewhere

The catalog says which codes another upstream may survive. Two private marks in an error's
extensions change that for one attempt: a host-owned terminal attempt forbids the fallback, and a
channel that refused image input allows it. The marks are erased before the error is rendered.
-/

namespace TokenStation

def noAttemptFallbackExtension : String := "token_station_private_no_attempt_fallback"

def imageUnsupportedExtension : String := "token_station_private_image_unsupported"

/-- Whether a mark is set to `true`. -/
def isMarked (error : ErrorEnvelope) (mark : String) : Bool :=
  (error.extensions.lookup mark).any JsonValue.isTrue

/-- Mark an error as the end of its request. -/
def forbidAttemptFallback (error : ErrorEnvelope) : ErrorEnvelope :=
  { error with
    extensions := error.extensions.insert noAttemptFallbackExtension (.bool true) }

def isImageChannelRefusal (error : ErrorEnvelope) : Bool :=
  isMarked error imageUnsupportedExtension

/-- Whether another upstream may be tried after this failure. -/
def attemptFallbackAllowed (error : ErrorEnvelope) : Bool :=
  (error.code.isRetriableElsewhere || isImageChannelRefusal error)
    && !isMarked error noAttemptFallbackExtension

/-- Erase the private marks. -/
def sanitizeAttemptErrorForRender (error : ErrorEnvelope) : ErrorEnvelope :=
  { error with
    extensions :=
      (error.extensions.erase noAttemptFallbackExtension).erase imageUnsupportedExtension }

/-- The routing decision, and the error without its private carrier. -/
def takeAttemptFallbackPolicy (error : ErrorEnvelope) : Bool × ErrorEnvelope :=
  (attemptFallbackAllowed error, sanitizeAttemptErrorForRender error)

/-! ## Image refusals -/

/-- The host's own refusal when a channel does not take images. -/
def upstreamImageError : ErrorEnvelope :=
  { ErrorEnvelope.new .capability 400
      ("The current channel rejected image input. No available fallback completed the request. "
        ++ "Open Token Station to select another channel.") with
    extensions := (∅ : Extensions).insert imageUnsupportedExtension (.bool true) }

def imageRequestGuidance (error : ErrorEnvelope) : ErrorEnvelope :=
  if error.code = .invalidRequest ∧ error.httpStatus = 400 then
    { error with
      message := "The model rejected this image request. Check the image format or switch to an "
        ++ "image model in Token Station > Routing." }
  else error

/-- Words of a refusal that is about this image, not about images. -/
def imageDefectHints : List String :=
  ["image size", "image format", "mime", "media_type", "media type", "base64", "decode",
    "image url", "image_url", "image resolution", "content policy", "content_policy", "safety",
    "moderation"]

def imageRefusalStatements : List String :=
  ["this model does not support image attachments", "this model does not support images",
    "this model does not support image input", "image input is not supported",
    "image input is not yet supported", "image input is not yet supported (text + tools only)",
    "image input unsupported", "this model only supports text", "this model is text-only"]

/-- Whether an error states that the channel takes no images at all. -/
def isUnsupportedMediaError (error : ErrorEnvelope) : Bool :=
  if error.code = .contentPolicy ∨ error.code = .auth ∨ error.code = .paymentRequired then false
  else if error.httpStatus ∉ [400, 415, 422, 501] then false
  else
    let message := toAsciiLowercase (error.providerMessage.getD error.message).toList
    if imageDefectHints.any fun hint ↦ containsText (String.ofList message) hint then false
    else
      let statement := trim message
      let statement := trim ((stripPrefix "kiro:".toList statement).getD statement)
      let statement := trimEndMatches (fun c ↦ c == '.' || c == '!') statement
      imageRefusalStatements.any fun known ↦ known.toList == statement

/-- How `dispatch` rewrites the error of an attempt: refusals of images are given the host's words,
and an attempt that has put something on the wire is the last one. -/
def attemptError (hasImages outputStarted : Bool) (error : ErrorEnvelope) : ErrorEnvelope :=
  let error :=
    if hasImages && isUnsupportedMediaError error then
      if !attemptFallbackAllowed error && error.extensions.keys.contains noAttemptFallbackExtension
      then forbidAttemptFallback upstreamImageError
      else upstreamImageError
    else if hasImages then imageRequestGuidance error
    else error
  if outputStarted then forbidAttemptFallback error else error

end TokenStation
