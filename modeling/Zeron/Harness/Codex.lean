import Zeron.Harness.Events
import Zeron.Uploads.Staging

namespace Zeron.Harness.Codex

open Zeron.Data
open Zeron.Doc (DoneStatus)

/-! # Notifications of a child thread

What the Codex app server says about one child thread becomes the events of its transcript.
Completion text is a fallback for text that was not streamed; completed items and turns are
remembered so that they are told once.
-/

inductive Phase where
  | started
  | completed
deriving DecidableEq

def field (value : Json) (keys : List String) : Option Json := keys.findSome? (get value)

def strField (value : Json) (keys : List String) : String := ((field value keys).bind asStr).getD ""

def deltaText (params : Json) : Option String :=
  ((field params ["delta", "textDelta"]).bind asStr).filter (· ≠ "")

def itemId (params : Json) : String := strField params ["itemId", "item_id"]

def turnId (params : Json) : String := ((get params "turn").map fun turn => strField turn ["id"]).getD ""

def turnErrorMessage (params : Json) : Option String :=
  ((((get params "turn").bind fun turn => get turn "error")).filter fun error => !error.isNull).map
    fun error =>
      let message := strField error ["message"]
      if message = "" then String.ofList error.render else message

def itemType (item : Json) : String := ((get item "type").bind asStr).getD ""

/-! ## Reasoning -/

structure ReasoningStream where
  lastPart : Option (String × Bool × Nat)
  announcedSummary : Option (String × Nat)
  trailingNewlines : Nat
deriving DecidableEq

def ReasoningStream.start : ReasoningStream := ⟨none, none, 0⟩

def newlines (text : List Char) : Nat := (text.takeWhile (· == '\n')).length

def ReasoningStream.partIndex (stream : ReasoningStream) (summary : Bool) (id : String)
    (params : Json) : Nat :=
  let keys :=
    if summary then ["summaryIndex", "summary_index"] else ["contentIndex", "content_index"]
  let announced := (stream.announcedSummary.filter fun part => summary && part.1 == id).map (·.2)
  (((field params keys).bind asU64).or announced).getD 0

/-- Parts that follow one another are set apart by a blank line. -/
def ReasoningStream.map (stream : ReasoningStream) (method : String) (params : Json) :
    ReasoningStream × List AgentEvent :=
  let id := itemId params
  let summary := method != "item/reasoning/textDelta"
  let index := stream.partIndex summary id params
  if method = "item/reasoning/summaryPartAdded" then
    ({ stream with announcedSummary := some (id, index) }, [])
  else
    match deltaText params with
    | none => (stream, [])
    | some text =>
        let part := (id, summary, index)
        let missing :=
          if stream.lastPart.any (· != part) then
            2 - (stream.trailingNewlines + newlines text.toList)
          else 0
        let trailing := newlines text.toList.reverse
        let before := stream.trailingNewlines + missing
        ({ stream with
            trailingNewlines := if trailing = text.utf8ByteSize then before + trailing else trailing
            lastPart := some part },
          (if 0 < missing then [.reasoningDelta (String.ofList (List.replicate missing '\n'))]
            else []) ++ [.reasoningDelta text])

/-! ## Items -/

def toolLifecycle (phase : Phase) (id : String) (call : ToolCall) (isError : Bool) :
    List AgentEvent :=
  match phase with
  | .started => [.toolCall id call]
  | .completed => [.toolCall id call, .toolResult id isError none none]

def fileChangeCall : List (String × String) → ToolCall
  | [(path, kind)] =>
      if kind = "add" then .writeFile path none
      else if kind = "update" then .editFile path none none
      else .applyPatch (some path)
  | _ => .applyPatch none

def isCollabSpawn (item : Json) : Bool :=
  (itemType item == "collabAgentToolCall" || itemType item == "collab_agent_tool_call") &&
    ((get item "tool").bind asStr).any fun tool => tool == "spawnAgent" || tool == "spawn_agent"

def imageError (item : Json) : Option String :=
  match (get item "failure").filter fun failure => !failure.isNull with
  | some failure =>
      if ((get failure "type").bind asStr).any fun kind =>
          kind == "usageLimitExceeded" || kind == "usage_limit_exceeded" then
        some "Image generation usage limit exceeded"
      else some "Image generation failed"
  | none =>
      if strField item ["status"] ∈ ["failed", "cancelled", "canceled"] then
        some "Image generation failed"
      else if isBlank (strField item ["savedPath", "saved_path"]) then
        some "Image generation completed without a saved file"
      else none

def imageItem (phase : Phase) (item : Json) : List AgentEvent :=
  let id := strField item ["id"]
  let call : ToolCall := .unknown "Generate image" none
  match phase with
  | .started => [.toolCall id call]
  | .completed =>
      let error := imageError item
      let path := strField item ["savedPath", "saved_path"]
      let name := ((Uploads.fileNameOf path.toList).map String.ofList).getD "generated.png"
      [.toolCall id call, .toolResult id error.isSome none none,
        match error with
        | some message => .error message
        | none => .generatedImage (id ++ ":image") path name ""]

def commandItem (phase : Phase) (item : Json) : List AgentEvent :=
  let id := strField item ["id"]
  match phase with
  | .started => [.toolCall id (.exec (strField item ["command"]))]
  | .completed =>
      let exitCode := ((field item ["exitCode", "exit_code"]).bind asI64).getD 0
      [.toolResult id (strField item ["status"] == "failed" || exitCode != 0) none none]

def changeKind (change : Json) : String :=
  (((get change "kind").bind asStr).filter (· ∈ ["add", "delete", "update"])).getD "update"

def fileItem (phase : Phase) (item : Json) : List AgentEvent :=
  let changes := (items (get item "changes")).map fun change =>
    (strField change ["path"], changeKind change)
  let status := strField item ["status"]
  toolLifecycle phase (strField item ["id"]) (fileChangeCall changes)
    (status == "failed" || status == "declined")

def mcpItem (phase : Phase) (item : Json) : List AgentEvent :=
  let id := strField item ["id"]
  match phase with
  | .started =>
      [.toolCall id (.mcp (strField item ["server"]) (strField item ["tool"])
        ((get item "arguments").filter fun value => !value.isNull))]
  | .completed => [.toolResult id (strField item ["status"] == "failed") none none]

def todoItem (phase : Phase) (item : Json) : List AgentEvent :=
  let todos := (items (get item "items")).map fun todo =>
    let done := (field todo ["completed", "done"]).bind asBool == some true
    TodoItem.new (strField todo ["text"]) (if done then .completed else .pending)
  toolLifecycle phase (strField item ["id"]) (.todo todos) false

def collabName (item : Json) : String :=
  if isCollabSpawn item then "Agent"
  else
    match strField item ["tool"] with
    | "sendInput" | "send_input" => "Send agent message"
    | "wait" => "Wait for agents"
    | "closeAgent" | "close_agent" => "Close agent"
    | "resumeAgent" | "resume_agent" => "Resume agent"
    | tool => "Agent control: " ++ tool

/-- The last part of the path that is not empty. -/
def activityName (item : Json) : String :=
  let parts := (strField item ["agentPath"]).toList.splitOn '/'
  match parts.reverse.find? (· ≠ []) with
  | some leaf => "Agent: " ++ String.ofList leaf
  | none => "Agent"

def activityItem (phase : Phase) (item : Json) : List AgentEvent :=
  if ((get item "kind").bind asStr).any fun kind => kind == "started" || kind == "spawned" then
    toolLifecycle phase (strField item ["id"]) (.unknown (activityName item) (some item))
      (strField item ["kind"] ∈ ["failed", "errored"])
  else []

def mapItem (phase : Phase) (item : Json) : List AgentEvent :=
  match itemType item with
  | "imageGeneration" | "image_generation" => imageItem phase item
  | "commandExecution" | "command_execution" => commandItem phase item
  | "fileChange" | "file_change" => fileItem phase item
  | "mcpToolCall" | "mcp_tool_call" => mcpItem phase item
  | "webSearch" | "web_search" =>
      toolLifecycle phase (strField item ["id"]) (.webSearch (strField item ["query"])) false
  | "todoList" | "todo_list" => todoItem phase item
  | "error" => [.error (strField item ["message"])]
  | "collabAgentToolCall" | "collab_agent_tool_call" =>
      toolLifecycle phase (strField item ["id"]) (.unknown (collabName item) (some item))
        (strField item ["status"] ∈ ["failed", "errored"])
  | "subAgentActivity" | "sub_agent_activity" => activityItem phase item
  | _ => []

def userMessageText (item : Json) : Option String :=
  let text := strField item ["text"]
  if !isBlank text then some text
  else
    let joined := "\n\n".intercalate
      ((items (get item "content")).filterMap fun block => (get block "text").bind asStr)
    if isBlank joined then none else some joined

def isUserMessage (item : Json) : Bool :=
  itemType item == "userMessage" || itemType item == "user_message"

def isAgentMessage (item : Json) : Bool :=
  itemType item == "agentMessage" || itemType item == "agent_message"

/-! ## The child stream -/

structure ChildStream where
  reasoning : ReasoningStream
  streamedText : List String
  completedItems : List String
  completedTurns : List String
  settled : Bool
deriving DecidableEq

def ChildStream.start : ChildStream := ⟨.start, [], [], [], false⟩

/-- The ids after one more, and whether it is new. -/
def remember (ids : List String) (id : String) : List String × Bool :=
  if id = "" then (ids, true)
  else if id ∈ ids then (ids, false)
  else ((if ids.length = 256 then ids.drop 1 else ids) ++ [id], true)

def ChildStream.turnStarted (stream : ChildStream) (params : Json) :
    ChildStream × List AgentEvent :=
  let id := turnId params
  if id ≠ "" ∧ id ∈ stream.completedTurns then (stream, [])
  else if stream.settled then ({ stream with settled := false }, [.steered none none])
  else (stream, [])

/-- An item that is not a replayed completion. -/
def ChildStream.newItem (stream : ChildStream) (phase : Phase) (item : Json) :
    ChildStream × List AgentEvent :=
  let id := strField item ["id"]
  if isUserMessage item then
    match phase, userMessageText item with
    | .completed, some text => ({ stream with settled := false }, [.userMessage text])
    | _, _ => (stream, [])
  else if stream.settled then (stream, [])
  else if isAgentMessage item then
    match phase with
    | .started => (stream, [])
    | .completed =>
        let text := strField item ["text"]
        let fallback : List AgentEvent :=
          if id ∈ stream.streamedText ∨ text = "" then [] else [.textDelta text]
        ({ stream with streamedText := stream.streamedText.filter (· ≠ id) },
          fallback ++ [.textDelta "\n\n"])
  else (stream, mapItem phase item)

def ChildStream.item (stream : ChildStream) (phase : Phase) (params : Json) :
    ChildStream × List AgentEvent :=
  let item := (get params "item").getD .null
  match phase with
  | .started => stream.newItem .started item
  | .completed =>
      let (ids, new) := remember stream.completedItems (strField item ["id"])
      if new then { stream with completedItems := ids }.newItem .completed item else (stream, [])

def ChildStream.delta (stream : ChildStream) (params : Json) : ChildStream × List AgentEvent :=
  let id := itemId params
  if id ≠ "" ∧ id ∈ stream.completedItems then (stream, [])
  else
    ({ stream with streamedText :=
        if id ∈ stream.streamedText then stream.streamedText else stream.streamedText ++ [id] },
      ((deltaText params).map AgentEvent.textDelta).toList)

def turnStatus (params : Json) : Option String := (pointer params ["turn", "status"]).bind asStr

def doneStatus (method : String) (params : Json) : DoneStatus :=
  if method = "turn/failed" ∨ (turnErrorMessage params).isSome ∨ turnStatus params = some "failed" then
    .errored
  else if method = "turn/aborted" ∨ turnStatus params = some "interrupted" then .interrupted
  else .completed

def ChildStream.finish (stream : ChildStream) (child method : String) (params : Json) :
    ChildStream × List AgentEvent :=
  let (turns, new) :=
    if method = "thread/closed" then (stream.completedTurns, true)
    else remember stream.completedTurns (turnId params)
  if new then
    ({ stream with completedTurns := turns, settled := true, streamedText := [] },
      [.done (doneStatus method params) none (turnErrorMessage params) (some child)])
  else (stream, [])

def errorMessage (params : Json) : String :=
  (((pointer params ["error", "message"]).bind asStr).or ((get params "message").bind asStr)).getD
    "Codex subagent error"

def ChildStream.map (stream : ChildStream) (child method : String) (params : Json) :
    ChildStream × List AgentEvent :=
  if method = "turn/started" then stream.turnStarted params
  else if method = "item/started" then stream.item .started params
  else if method = "item/completed" then stream.item .completed params
  else if stream.settled then (stream, [])
  else
    match method with
    | "item/agentMessage/delta" => stream.delta params
    | "item/reasoning/textDelta" | "item/reasoning/summaryTextDelta"
    | "item/reasoning/summaryPartAdded" =>
        let (reasoning, events) := stream.reasoning.map method params
        ({ stream with reasoning }, events)
    | "turn/completed" | "turn/failed" | "turn/aborted" | "thread/closed" =>
        stream.finish child method params
    | "error" => (stream, [.error (errorMessage params)])
    | _ => (stream, [])

end Zeron.Harness.Codex
