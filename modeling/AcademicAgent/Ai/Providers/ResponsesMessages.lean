import AcademicAgent.Ai.Utils.SanitizeUnicode
import AcademicAgent.Ai.Providers.ToolCallIds

/-!
# Messages for the Responses API

A history becomes a list of input items.
-/

namespace AcademicAgent

namespace Responses

/-- A part of the content of a message or of a result. -/
inductive InputContent where
  | inputText (text : JsString)
  | inputImage (imageUrl : JsString)
  deriving DecidableEq

inductive CallOutput where
  | text (output : JsString)
  | parts (output : List InputContent)
  deriving DecidableEq

inductive Phase where
  | commentary
  | finalAnswer
  deriving DecidableEq

/-- `ResponseInput`, as far as the conversion makes it. -/
inductive InputItem where
  | instructions (role content : JsString)
  | user (content : List InputContent)
  | reasoning (item : Json)
  | message (text id : JsString) (phase : Option Phase)
  | functionCall (id : Option JsString) (callId name arguments : JsString)
  | functionCallOutput (callId : JsString) (output : CallOutput)
  deriving DecidableEq

structure TextSignature where
  id : JsString
  phase : Option Phase := none
  deriving DecidableEq

def textSignatureV1 : Json.Tree → Option TextSignature
  | .obj members =>
    match assocGet (js "v") members, assocGet (js "id") members with
    | some (.num v), some (.str id) =>
      if v = Decimal.ofInt 1 then
        some
          { id
            phase := match assocGet (js "phase") members with
              | some (.str phase) =>
                if phase = js "commentary" then some .commentary
                else if phase = js "final_answer" then some .finalAnswer
                else none
              | _ => none }
      else none
    | _, _ => none
  | _ => none

def parseTextSignature (signature : Option JsString) : Option TextSignature :=
  match nonEmpty signature with
  | none => none
  | some signature =>
    let parsed :=
      if js "\x7b" <+: signature then
        (Json.parse signature).bind fun value => textSignatureV1 value.tree
      else none
    -- a signature that is no object of this version is a plain id
    some (parsed.getD { id := signature })

inductive TextId where
  | counter (msgIndex : Nat)
  | stored (id : JsString)
  deriving DecidableEq

/-- The id of a text block: the stored one, unless that is missing or empty. -/
def textId (msgIndex : Nat) (block : TextContent) : TextId :=
  match nonEmpty ((parseTextSignature block.textSignature).map TextSignature.id) with
  | some id => .stored id
  | none => .counter msgIndex

/-- `msg_${msgIndex}`. -/
def counterId (msgIndex : Nat) : JsString := js "msg_" ++ decimalText msgIndex

/-- A stored id, with its hash in its place where it is too long. -/
def shortenedId (id : JsString) : JsString :=
  if 64 < id.length then js "msg_" ++ shortHash id else id

def TextId.msgId : TextId → JsString
  | .counter msgIndex => counterId msgIndex
  | .stored id => shortenedId id

def inputContent : ContentBlock → InputContent
  | .text item => .inputText (sanitizeSurrogates item.text)
  | .image item => .inputImage (js "data:" ++ item.mimeType ++ js ";base64," ++ item.data)

def userContent : MessageContent → List InputContent
  | .string content => [.inputText (sanitizeSurrogates content)]
  | .blocks content => content.map inputContent

/-- The call of the same provider and interface, but of another model. -/
def isDifferentModel (model : Model) (assistantMsg : AssistantMessage) : Bool :=
  assistantMsg.model ≠ model.id && assistantMsg.provider = model.provider &&
    assistantMsg.api = model.api

def functionCall (differentModel : Bool) (toolCall : ToolCall) : InputItem :=
  let itemId := itemIdPart toolCall.id
  .functionCall
    (if differentModel && itemId.any fun id => js "fc_" <+: id then none else itemId)
    (callIdPart toolCall.id) toolCall.name toolCall.arguments.stringify

/-- A block of an assistant message, none when a signature is no JSON. -/
def blockItems (differentModel : Bool) (msgIndex : Nat) : AssistantBlock → Option (List InputItem)
  | .thinking block =>
    match nonEmpty block.thinkingSignature with
    | none => some []
    | some signature => (Json.parse signature).map fun item => [.reasoning item]
  | .text block =>
    some
      [.message (sanitizeSurrogates block.text) (textId msgIndex block).msgId
        ((parseTextSignature block.textSignature).bind TextSignature.phase)]
  | .toolCall toolCall => some [functionCall differentModel toolCall]

/-- The loop over the content of an assistant message. -/
def contentItems (differentModel : Bool) (msgIndex : Nat) :
    List AssistantBlock → Option (List InputItem)
  | [] => some []
  | block :: content => do
    let items ← blockItems differentModel msgIndex block
    let rest ← contentItems differentModel msgIndex content
    pure (items ++ rest)

def callOutput (model : Model) (content : List ContentBlock) : CallOutput :=
  let texts := content.filterMap fun
    | .text c => some c.text
    | .image _ => none
  let images := content.filter fun
    | .image _ => true
    | .text _ => false
  let textResult := [lf].intercalate texts
  if images ≠ [] ∧ InputKind.image ∈ model.input then
    .parts ((if textResult = [] then [] else [.inputText (sanitizeSurrogates textResult)]) ++
      images.map inputContent)
  else
    .text (sanitizeSurrogates (if textResult = [] then js "(see attached image)" else textResult))

def messageItems (model : Model) (msgIndex : Nat) : Message → Option (List InputItem)
  | .user content _ =>
    let content := userContent content
    some (if content = [] then [] else [.user content])
  | .assistant msg => contentItems (isDifferentModel model msg) msgIndex msg.content
  | .toolResult msg =>
    some [.functionCallOutput (callIdPart msg.toolCallId) (callOutput model msg.content)]

/-- The loop over the messages; a message without items is not counted. -/
def convertFrom (model : Model) : Nat → List Message → Option (List InputItem)
  | _, [] => some []
  | msgIndex, msg :: messages => do
    let items ← messageItems model msgIndex msg
    let rest ← convertFrom model (if items = [] then msgIndex else msgIndex + 1) messages
    pure (items ++ rest)

structure Context where
  systemPrompt : Option JsString
  messages : List Message

def instructionItems (reasoning includeSystemPrompt : Bool) (systemPrompt : Option JsString) :
    List InputItem :=
  match nonEmpty systemPrompt with
  | none => []
  | some systemPrompt =>
    if includeSystemPrompt then
      [.instructions (if reasoning then js "developer" else js "system")
        (sanitizeSurrogates systemPrompt)]
    else []

section Conversion

variable (now : Nat → Int) (model : Model) (allowedToolCallProviders : List JsString)

def transformedMessages (context : Context) : List Message :=
  transformMessages now context.messages model
    (some (normalizeResponsesToolCallId allowedToolCallProviders))

/-- The conversion, for a model that reasons or does not; none when it throws. -/
def convertResponsesMessages (reasoning : Bool) (context : Context)
    (includeSystemPrompt : Bool) : Option (List InputItem) :=
  (convertFrom model 0 (transformedMessages now model allowedToolCallProviders context)).map
    (instructionItems reasoning includeSystemPrompt context.systemPrompt ++ ·)

end Conversion

end Responses

end AcademicAgent
