/-
GottaGo.Explore.Replies — which replies of the chat service are understood.

The prompt asks for an object with five keys whose values may be null
(`Reply`). `Scenario` is a response together with what the service would
answer to the continuation of each choice, and `InFormat` says that a choice,
completed by its continuation if it was cut off, is such an object.

`chatComplete` decodes each choice as it came, into five strings. What it
returns is the first choice that it can decode, unless one without a message
comes before (`chatComplete_eq`), and that is the reply in the format only
under the condition of `chatComplete_understands_iff`.
-/
import GottaGo.Repository.ChatGPT

namespace GottaGo

open GottaGo.Async GottaGo.Firestore

/-- What the prompt asks for. -/
structure Reply where
  name : String
  type : Option String
  description : Option String
  city : Option String
  state : Option String
  deriving DecidableEq, Repr

/-- The object with the keys of a reply. -/
structure Reply.IsObject (r : Reply) (v : Value) : Prop where
  keys : ∃ m, v = .map m ∧ m.lookup "name" = some (.str r.name) ∧
    m.lookup "type" = some (.ofString? r.type) ∧
    m.lookup "description" = some (.ofString? r.description) ∧
    m.lookup "city" = some (.ofString? r.city) ∧ m.lookup "state" = some (.ofString? r.state)

/-- A place as a reply, with nothing null. -/
def GptPlace.reply (place : GptPlace) : Reply where
  name := place.name
  type := some place.type
  description := some place.description
  city := some place.city
  state := some place.state

/-- The choices of a response, each with the response that a request to finish
it would have. -/
abbrev Scenario := List (ChatChoice × ChatResponse)

namespace Scenario

/-- The content of a choice, with its continuation if it was cut off. -/
def completed (c : ChatChoice × ChatResponse) : Option String :=
  c.1.message.map fun content =>
    if c.1.finishReason = some "length" then
      content ++ ((c.2.getD []).head?.bind ChatChoice.message).getD ""
    else content

/-- The responses to the requests that `chatComplete` makes, in order. -/
def responses (s : Scenario) : List ChatResponse :=
  some (s.map Prod.fst) ::
    (s.filter fun c => c.1.finishReason = some "length").map Prod.snd

end Scenario

/-- The service answers with the responses that it is given. -/
def chatServer (_ : ChatCompleteText) (responses : List ChatResponse) :
    Except Json.Thrown ChatResponse × List ChatResponse :=
  (.ok responses.head?.join, responses.tail)

/-- A first element with `D` after elements with `P` is the head, or comes
after a head with `P`. -/
theorem exists_first_cons {α : Type} {D P : α → Prop} {x : α} {xs : List α} :
    (∃ pre d post, x :: xs = pre ++ d :: post ∧ D d ∧ ∀ e ∈ pre, P e) ↔
      D x ∨ P x ∧ ∃ pre d post, xs = pre ++ d :: post ∧ D d ∧ ∀ e ∈ pre, P e := by
  constructor
  · rintro ⟨pre, d, post, heq, hd, hpre⟩
    cases pre with
    | nil =>
      cases heq
      exact .inl hd
    | cons y pre =>
      cases heq
      exact .inr ⟨hpre _ List.mem_cons_self, pre, d, post, rfl, hd,
        fun e he => hpre e (List.mem_cons_of_mem _ he)⟩
  · rintro (hx | ⟨hx, pre, d, post, rfl, hd, hpre⟩)
    · exact ⟨[], x, xs, rfl, hx, by simp⟩
    · exact ⟨x :: pre, d, post, rfl, hd, by simpa using ⟨hx, hpre⟩⟩

section Replies

variable (jsonDecode : String → Except Json.Thrown Value)

/-- A choice is a reply in the format that was asked for. -/
def InFormat (c : ChatChoice × ChatResponse) (r : Reply) : Prop :=
  c.1.finishReason ≠ none ∧
    ∃ content v, Scenario.completed c = some content ∧ jsonDecode content = .ok v ∧ r.IsObject v

/-- Reply `r` is the first in the format. -/
def FirstReply (s : Scenario) (r : Reply) : Prop :=
  ∃ pre c post, s = pre ++ c :: post ∧ InFormat jsonDecode c r ∧
    ∀ e ∈ pre, ∀ r', ¬ InFormat jsonDecode e r'

/-- The content of a choice, as it came, is the object of a place. -/
def AsItCame (c : ChatChoice) (place : GptPlace) : Prop :=
  ∃ content v, c.message = some content ∧ jsonDecode content = .ok v ∧ place.reply.IsObject v

/-- A choice that is unfinished, or has a message that is no object of a place
as it came. -/
def PassedBy (c : ChatChoice) : Prop :=
  c.finishReason ≠ none → c.message ≠ none ∧ ∀ place, ¬ AsItCame jsonDecode c place

/-- The first choice that is not passed by is, as it came, the object of a
place that says what the reply says. -/
def Understood (s : Scenario) (r : Reply) : Prop :=
  ∃ place : GptPlace, place.reply = r ∧ ∃ pre d post, s.map Prod.fst = pre ++ d :: post ∧
    (d.finishReason ≠ none ∧ AsItCame jsonDecode d place) ∧ ∀ e ∈ pre, PassedBy jsonDecode e

namespace ChatGPTRepository

variable {jsonDecode} {name : String} {element : ChatChoice} {choices : List ChatChoice}
  {place : GptPlace} (responses : List ChatResponse)

/-- A choice is decoded when it is, as it came, the object of a place. -/
theorem decodeMessage_eq_ok_iff :
    decodeMessage jsonDecode element = .ok place ↔ AsItCame jsonDecode element place := by
  have hget : ∀ (m : List (String × Value)) (k s : String),
      Json.get m k = .str s ↔ m.lookup k = some (.str s) := by
    intro m k s
    cases h : m.lookup k <;> simp [Json.get, h]
  unfold decodeMessage AsItCame
  cases element.message with
  | none => simp
  | some content =>
    simp only [bind_eq_ok, Json.assign_eq_ok, Json.asMap_eq_ok, GptPlace.fromJson,
      asString_eq_ok, hget]
    constructor
    · rintro ⟨v, hv, m, rfl, _, h₁, _, h₂, _, h₃, _, h₄, _, h₅, hplace⟩
      cases hplace
      exact ⟨content, _, rfl, hv, ⟨m, rfl, h₁, h₂, h₃, h₄, h₅⟩⟩
    · rintro ⟨_, v, hcontent, hv, ⟨m, rfl, h₁, h₂, h₃, h₄, h₅⟩⟩
      cases hcontent
      exact ⟨_, hv, m, rfl, _, h₁, _, h₂, _, h₃, _, h₄, _, h₅, rfl⟩

/-- A choice that decodes ends the loop. -/
theorem readChoices_of_ok (hfinish : element.finishReason ≠ none)
    (h : decodeMessage jsonDecode element = .ok place) :
    (Prog.eval chatServer (readChoices jsonDecode name (element :: choices)) responses).1 =
      .ok (some place) := by
  obtain ⟨reason, hreason⟩ := Option.ne_none_iff_exists'.mp hfinish
  by_cases hl : reason = "length" <;>
    simp [readChoices, hreason, hl, onChatCompletion, chatServer, h, Prog.ofExcept, Prog.bind,
      Prog.tryCatch]

/-- So does one without a message. -/
theorem readChoices_of_none (hfinish : element.finishReason ≠ none)
    (h : element.message = none) :
    (Prog.eval chatServer (readChoices jsonDecode name (element :: choices)) responses).1 =
      .error .typeError := by
  obtain ⟨reason, hreason⟩ := Option.ne_none_iff_exists'.mp hfinish
  by_cases hl : reason = "length" <;>
    simp [readChoices, hreason, hl, onChatCompletion, chatServer, decodeMessage, printMessage, h,
      Prog.ofExcept, Prog.bind, Prog.tryCatch]

/-- Any other choice is passed by. -/
theorem readChoices_of_passedBy (h : PassedBy jsonDecode element) :
    ∃ responses', (Prog.eval chatServer (readChoices jsonDecode name (element :: choices))
        responses).1 =
      (Prog.eval chatServer (readChoices jsonDecode name choices) responses').1 := by
  cases hreason : element.finishReason with
  | none => exact ⟨responses, by simp [readChoices, hreason]⟩
  | some reason =>
    obtain ⟨hmessage, hdecode⟩ := h (by simp [hreason])
    obtain ⟨content, hcontent⟩ := Option.ne_none_iff_exists'.mp hmessage
    cases hd : decodeMessage jsonDecode element with
    | ok place => exact absurd (decodeMessage_eq_ok_iff.mp hd) (hdecode place)
    | error e =>
      by_cases hl : reason = "length"
      · exact ⟨responses.tail, by simp [readChoices, hreason, hl, onChatCompletion, chatServer,
          hd, printMessage, hcontent, Prog.ofExcept, Prog.bind, Prog.tryCatch]⟩
      · exact ⟨responses, by simp [readChoices, hreason, hl, hd, printMessage, hcontent,
          Prog.ofExcept, Prog.bind, Prog.tryCatch]⟩

/-- What the loop returns is the first choice that it does not pass by. -/
theorem readChoices_eq_ok_iff :
    (Prog.eval chatServer (readChoices jsonDecode name choices) responses).1 = .ok (some place) ↔
      ∃ pre d post, choices = pre ++ d :: post ∧
        (d.finishReason ≠ none ∧ AsItCame jsonDecode d place) ∧
          ∀ e ∈ pre, PassedBy jsonDecode e := by
  induction choices generalizing responses with
  | nil => simp [readChoices]
  | cons c cs ih =>
    rw [exists_first_cons]
    by_cases hpass : PassedBy jsonDecode c
    · obtain ⟨responses', heq⟩ := readChoices_of_passedBy responses hpass
      have hnot : ¬ (c.finishReason ≠ none ∧ AsItCame jsonDecode c place) :=
        fun hd => (hpass hd.1).2 place hd.2
      rw [heq, ih responses']
      simp [hpass, hnot]
    · have hstop : c.finishReason ≠ none ∧
          (c.message = none ∨ ∃ p, AsItCame jsonDecode c p) := by
        simpa [PassedBy, or_iff_not_imp_left] using hpass
      obtain ⟨hfinish, hnone | ⟨p, hp⟩⟩ := hstop
      · rw [readChoices_of_none responses hfinish hnone]
        simp [hpass, AsItCame, hnone]
      · rw [← decodeMessage_eq_ok_iff] at hp
        rw [readChoices_of_ok responses hfinish hp]
        simp [hpass, hfinish, ← decodeMessage_eq_ok_iff, hp]

end ChatGPTRepository

/-- The run of `chatComplete` in a scenario. -/
def runChatComplete (messages : List String) (name : String) (s : Scenario) :
    Except Json.Thrown (Option GptPlace) :=
  (Prog.eval chatServer (ChatGPTRepository.chatComplete jsonDecode messages name) s.responses).1

/-- A place is returned when the loop returns it. -/
theorem runChatComplete_eq_ok {messages : List String} {name : String} {s : Scenario}
    {place : GptPlace} :
    runChatComplete jsonDecode messages name s = .ok (some place) ↔
      (Prog.eval chatServer (ChatGPTRepository.readChoices jsonDecode name (s.map Prod.fst))
        s.responses.tail).1 = .ok (some place) := by
  have hrun : Prog.eval chatServer
      (ChatGPTRepository.onChatCompletion { messages := messages, name := name }) s.responses =
        (.ok (some (s.map Prod.fst)), s.responses.tail) := by
    simp [ChatGPTRepository.onChatCompletion, chatServer, Scenario.responses]
  rw [runChatComplete, ChatGPTRepository.chatComplete, Prog.eval_tryCatch, Prog.bind_eq,
    Prog.eval_bind, hrun]
  dsimp only
  rcases Prog.eval chatServer (ChatGPTRepository.readChoices jsonDecode name (s.map Prod.fst))
    s.responses.tail with ⟨e | r, responses⟩ <;> simp

/-- A place is returned when it is what the first choice that is not passed by
is, as it came. -/
theorem runChatComplete_iff {messages : List String} {name : String} {s : Scenario} {r : Reply} :
    (∃ place : GptPlace, runChatComplete jsonDecode messages name s = .ok (some place) ∧
      place.reply = r) ↔ Understood jsonDecode s r := by
  simp only [runChatComplete_eq_ok, ChatGPTRepository.readChoices_eq_ok_iff, Understood]
  constructor
  · rintro ⟨place, hfirst, hreply⟩
    exact ⟨place, hreply, hfirst⟩
  · rintro ⟨place, hreply, hfirst⟩
    exact ⟨place, hfirst, hreply⟩

/-- `chatComplete` returns the first reply in the format just when that is
understood. -/
theorem chatComplete_understands_iff (messages : List String) (name : String) (s : Scenario) :
    (∀ r, FirstReply jsonDecode s r →
        ∃ place : GptPlace, runChatComplete jsonDecode messages name s = .ok (some place) ∧
          place.reply = r) ↔
      ∀ r, FirstReply jsonDecode s r → Understood jsonDecode s r := by
  constructor
  · intro h r hfirst
    exact (runChatComplete_iff jsonDecode).mp (h r hfirst)
  · intro h r hfirst
    exact (runChatComplete_iff jsonDecode).mpr (h r hfirst)

/-- In a response without cut-off choices and without missing messages, the
first reply is understood just when nothing in it is null. -/
theorem understood_iff_of_whole {s : Scenario} {r : Reply}
    (hwhole : ∀ c ∈ s, c.1.finishReason ≠ some "length")
    (hmessage : ∀ c ∈ s, c.1.finishReason ≠ none → c.1.message ≠ none)
    (h : FirstReply jsonDecode s r) :
    Understood jsonDecode s r ↔ ∃ place : GptPlace, place.reply = r := by
  have hformat : ∀ c ∈ s, ∀ place, c.1.finishReason ≠ none → AsItCame jsonDecode c.1 place →
      InFormat jsonDecode c place.reply := by
    rintro c hc place hfinish ⟨content, v, hcontent, hv, hobject⟩
    refine ⟨hfinish, content, v, ?_, hv, hobject⟩
    simp [Scenario.completed, hcontent, hwhole c hc]
  constructor
  · rintro ⟨place, hreply, -⟩
    exact ⟨place, hreply⟩
  · rintro ⟨place, hreply⟩
    obtain ⟨pre, c, post, rfl, ⟨hfinish, content, v, hcompleted, hv, hobject⟩, hfirst⟩ := h
    have hc : c ∈ pre ++ c :: post := by simp
    refine ⟨place, hreply, pre.map Prod.fst, c.1, post.map Prod.fst, by simp,
      ⟨hfinish, content, v, ?_, hv, hreply ▸ hobject⟩, ?_⟩
    · simpa [Scenario.completed, hwhole c hc] using hcompleted
    · intro e he hefinish
      obtain ⟨f, hf, rfl⟩ := List.mem_map.mp he
      have hmem : f ∈ pre ++ c :: post := List.mem_append_left _ hf
      exact ⟨hmessage f hmem hefinish, fun p hp => hfirst f hf _ (hformat f hmem p hefinish hp)⟩

end Replies

/-- A finished choice that says that the state is not known. -/
def pantheon : ChatChoice where
  message := some "\x7b\"name\": \"Pantheon\", \"type\": \"temple\", \"description\": \"A temple.\", \"city\": \"Rome\", \"state\": null\x7d"
  finishReason := some "stop"

/-- What its message decodes to. -/
def pantheonJson : List (String × Value) :=
  [("name", .str "Pantheon"), ("type", .str "temple"), ("description", .str "A temple."),
    ("city", .str "Rome"), ("state", .null)]

/-- The state is null, as the prompt allows, and the reply is thrown away. -/
theorem null_state_not_understood :
    ¬ ∀ (jsonDecode : String → Except Json.Thrown Value) (messages : List String)
        (name : String) (s : Scenario) (r : Reply), FirstReply jsonDecode s r →
        ∃ place : GptPlace, runChatComplete jsonDecode messages name s = .ok (some place) ∧
          place.reply = r := by
  intro h
  let jsonDecode : String → Except Json.Thrown Value := fun source =>
    if some source = pantheon.message then .ok (.map pantheonJson) else .error .formatException
  have hformat : InFormat jsonDecode (pantheon, none)
      { name := "Pantheon", type := some "temple", description := some "A temple.",
        city := some "Rome", state := none } :=
    ⟨by decide, _, _, rfl, rfl, ⟨pantheonJson, rfl, rfl, rfl, rfl, rfl, rfl⟩⟩
  obtain ⟨place, -, hreply⟩ := h jsonDecode ["Give me 1 place to visit"] "User"
    [(pantheon, none)] _ ⟨[], _, [], rfl, hformat, by simp⟩
  exact absurd (congrArg Reply.state hreply) (by simp [GptPlace.reply])

end GottaGo
