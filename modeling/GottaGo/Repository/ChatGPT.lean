/-
GottaGo.Repository.ChatGPT — `ChatGPTRepository.chatComplete`
(`lib/repository/chat_gpt/chat_gpt_repository.dart`) and `GptPlace`
(`lib/model/gpt_place.dart`).

The chat service is not modelled: a request is answered by the choices of a
response, or by null when it failed (`catchError` prints the error and
returns nothing). `jsonDecode` is a parameter, for any decoder of JSON.

The loop over the choices has a `try` inside the `try` of the whole method.
Its handler prints `element.message!.content`, so a choice without a message
throws once more from the handler and ends the method with null.
-/
import GottaGo.Async.Prog
import GottaGo.Json.Dynamic

namespace GottaGo

open GottaGo.Async GottaGo.Firestore

structure GptPlace where
  name : String
  type : String
  description : String
  city : String
  state : String
  deriving DecidableEq, Repr

def GptPlace.fromJson (json : List (String × Value)) : Except Json.Thrown GptPlace := do
  let name ← Json.assign asString (Json.get json "name")
  let type ← Json.assign asString (Json.get json "type")
  let description ← Json.assign asString (Json.get json "description")
  let city ← Json.assign asString (Json.get json "city")
  let state ← Json.assign asString (Json.get json "state")
  return { name := name, type := type, description := description, city := city, state := state }

/-- A choice of a response; of its message only the content is read. -/
structure ChatChoice where
  message : Option String := none
  finishReason : Option String := none
  deriving DecidableEq, Repr

/-- A request for a completion: the contents of its messages, all of which
are the user's, and where to stop. -/
structure ChatCompleteText where
  messages : List String
  name : String
  stop : List String := []
  deriving DecidableEq, Repr

/-- The choices of the response, null if there is none. -/
abbrev ChatResponse := Option (List ChatChoice)

abbrev Chat (α : Type) := Prog ChatCompleteText (fun _ => ChatResponse) Json.Thrown α

namespace ChatGPTRepository

/-- `_openAI.onChatCompletion(request: request).catchError(…)`. -/
def onChatCompletion (request : ChatCompleteText) : Chat ChatResponse :=
  Prog.await (A := fun _ => ChatResponse) request

section ChatComplete

variable (jsonDecode : String → Except Json.Thrown Value)

/-- `GptPlace.fromJson(jsonDecode(element.message!.content))`. -/
def decodeMessage (element : ChatChoice) : Except Json.Thrown GptPlace :=
  match element.message with
  | none => .error .typeError
  | some content => do
    let decodedJson ← jsonDecode content
    let json ← Json.assign asMap decodedJson
    GptPlace.fromJson json

/-- The handler of the inner `try`. -/
def printMessage (element : ChatChoice) : Except Json.Thrown (Option GptPlace) :=
  match element.message with
  | none => .error .typeError
  | some _ => .ok none

/-- The request that continues a message that was cut off. -/
def finishRequest (element : ChatChoice) (name : String) : ChatCompleteText where
  messages := ["Finish this: " ++ element.message.getD "null"]
  name := name
  stop := ["\n"]

/-- The loop over the choices. -/
def readChoices (name : String) : List ChatChoice → Chat (Option GptPlace)
  | [] => .ret none
  | element :: choices =>
    match element.finishReason with
    | none => readChoices name choices
    | some finishReason => do
      -- what the continuation answers is not looked at
      if finishReason = "length" then do
        let _ ← onChatCompletion (finishRequest element name)
      let found ← Prog.tryCatch
        ((Prog.ofExcept (decodeMessage jsonDecode element)).bind fun place => .ret (some place))
        fun _ => Prog.ofExcept (printMessage element)
      match found with
      | some place => return some place
      | none => readChoices name choices

def chatComplete (messages : List String) (name : String) : Chat (Option GptPlace) :=
  Prog.tryCatch
    (do
      let response ← onChatCompletion { messages := messages, name := name }
      match response with
      | none => .raise .typeError
      | some choices => readChoices jsonDecode name choices)
    fun _ => .ret none

end ChatComplete

end ChatGPTRepository

end GottaGo
