import Zeron.Data.ByteOrder
import Zeron.Data.Needle
import Zeron.Harness.Events

namespace Zeron.Harness

open Zeron.Data
open Zeron.Doc (DoneStatus)

/-! # Frames of the Claude CLI

One frame becomes events.  Frames of a subagent carry the id of a tool call; the events are
tagged with the call that spawned it, which is found through three maps filled from live calls,
task starts and the history of earlier processes.
-/

/-! ## Frames -/

structure SystemFrame where
  subtype : String
  model : String
  tools : List String
  cwd : String
  sessionId : String
  toolUseId : Option String
  status : Option String
  taskId : Option String
  subagentType : Option String
deriving DecidableEq

structure Delta where
  kind : String
  text : String
  thinking : String
deriving DecidableEq

structure StreamEventFrame where
  parentToolUseId : Option String
  kind : String
  delta : Delta
deriving DecidableEq

structure ContentBlock where
  kind : String
  text : String
  id : String
  name : String
  input : Json
  toolUseId : String
  isError : Option Bool
deriving DecidableEq

/-- `blocks` are the items of the content that decode. -/
structure MessageFrame where
  parentToolUseId : Option String
  model : Option String
  usage : Option Json
  blocks : List ContentBlock
  error : Option String
deriving DecidableEq

structure RateLimitInfo where
  status : String
  rateLimitType : Option String
deriving DecidableEq

structure ResultFrame where
  modelUsage : List (String × Json)
  subtype : String
  result : Option String
  errors : List Json
  inputTokens : Nat
  outputTokens : Nat
  sessionId : Option String
deriving DecidableEq

inductive Frame where
  | system (frame : SystemFrame)
  | streamEvent (frame : StreamEventFrame)
  | assistant (frame : MessageFrame)
  | user (frame : MessageFrame)
  | rateLimit (info : RateLimitInfo)
  | result (frame : ResultFrame)
  | controlRequest
  | other
deriving DecidableEq

/-! ## Texts -/

def assistantErrorText (code : String) : String :=
  match code with
  | "authentication_failed" => "Authentication failed — sign in to Claude again."
  | "oauth_org_not_allowed" => "This organization isn't allowed to use Claude here."
  | "billing_error" => "Billing error — check your Claude plan or payment method."
  | "rate_limit" => "Claude usage limit reached — try again after the limit resets."
  | "overloaded" => "Claude is overloaded right now — try again shortly."
  | "invalid_request" => "The request was rejected as invalid."
  | "model_not_found" => "The selected model isn't available."
  | "server_error" => "Claude had a server error — try again."
  | "max_output_tokens" => "The reply hit the maximum output length."
  | "unknown" => "Claude returned an unspecified error."
  | other => "Claude error: " ++ other

def rateWindowLabel (kind : String) : String :=
  match kind with
  | "five_hour" => "5-hour"
  | "seven_day" | "seven_day_overage_included" => "weekly"
  | "seven_day_opus" => "weekly (Opus)"
  | "seven_day_sonnet" => "weekly (Sonnet)"
  | "overage" => "overage"
  | _ => "usage"

def resultErrorText (subtype : String) : String :=
  match subtype with
  | "error_max_turns" => "The run hit the maximum number of turns."
  | "error_max_budget_usd" => "The run hit its cost budget."
  | "error_max_structured_output_retries" => "The run exhausted its structured-output retries."
  | _ => "The run ended with an error."

def isInternalDiagnostic (message : String) : Bool :=
  (cutFirst "[ede_diagnostic]".toList message.toList).isSome

def isSyntheticUserText (text : String) : Bool :=
  let text := trimStart text
  "<system-reminder>".isPrefixOf text || "[Request interrupted".isPrefixOf text

def strField (input : Json) (key : String) : String := ((get input key).bind asStr).getD ""

def optStrField (input : Json) (key : String) : Option String := (get input key).bind asStr

def present (input : Json) : Option Json := if input.isNull then none else some input

/-! ## Tool calls -/

def isSpawnName (name : String) : Bool := name == "Agent" || name == "Task"

/-- `mcp__<server>__<tool>`. -/
def mcpName (name : String) : Option (String × String) :=
  (Transcript.stripPrefix name "mcp__").bind fun rest =>
    (cutFirst "__".toList rest.toList).map fun cut => (String.ofList cut.1, String.ofList cut.2)

def decodeToolUse (name : String) (input : Json) : ToolCall :=
  match name with
  | "Bash" => .exec (strField input "command")
  | "Read" => .readFile (strField input "file_path")
  | "Write" => .writeFile (strField input "file_path") (optStrField input "content")
  | "Edit" =>
      .editFile (strField input "file_path") (optStrField input "old_string")
        (optStrField input "new_string")
  | "Grep" => .search (strField input "pattern") (optStrField input "path")
  | "Glob" => .glob (strField input "pattern")
  | "WebFetch" => .webFetch (strField input "url") (optStrField input "prompt")
  | "WebSearch" => .webSearch (strField input "query")
  | "TodoWrite" =>
      .todo ((items (get input "todos")).map fun todo =>
        TodoItem.new (strField todo "content") (TodoStatus.parse (strField todo "status")))
  | "Agent" | "Task" =>
      let description := strField input "description"
      .unknown (if description = "" then "Agent" else "Agent: " ++ description) (present input)
  | _ =>
      match mcpName name with
      | some (server, tool) => .mcp server tool (present input)
      | none => .unknown name (present input)

/-! ## State -/

structure Normalizer where
  sawInit : Bool
  lastModel : Option String
  agentTasks : String → Option String
  agentToolSpawns : String → Option String
  agentSpawnTools : List String
  assistantMessageId : String
  sessionId : Option String

/-- `fresh` stands for the next random message id, here and below. -/
def Normalizer.new (fresh : String) : Normalizer where
  sawInit := false
  lastModel := none
  agentTasks _ := none
  agentToolSpawns _ := none
  agentSpawnTools := []
  assistantMessageId := fresh
  sessionId := none

/-- `entry(task).or_insert(spawn)`. -/
def Normalizer.enter (norm : Normalizer) (task spawn : String) : Normalizer :=
  match norm.agentTasks task with
  | some _ => norm
  | none => { norm with agentTasks := Function.update norm.agentTasks task (some spawn) }

def nonempty (text : Option String) : Option String := text.filter (· ≠ "")

/-- A record of the history of an earlier process. -/
def Normalizer.restoreRecord (norm : Normalizer) (record : Json) : Normalizer :=
  if (get record "isSidechain").bind asBool = some true ∨
      (((get record "parent_tool_use_id").map Json.isNull).getD true) = false then norm
  else
    match (pointer record ["message", "content"]).bind asArray with
    | none => norm
    | some blocks =>
        match (get record "type").bind asStr with
        | some "assistant" =>
            let spawns := blocks.filterMap fun block =>
              if (get block "type").bind asStr = some "tool_use" ∧
                  ((get block "name").bind asStr).any isSpawnName then
                nonempty ((get block "id").bind asStr)
              else none
            { norm with agentSpawnTools := norm.agentSpawnTools ++ spawns }
        | some "user" =>
            let spawn := (blocks.filterMap fun block =>
              if (get block "type").bind asStr = some "tool_result" then
                (get block "tool_use_id").bind asStr
              else none).find? (norm.agentSpawnTools.contains ·)
            match nonempty ((pointer record ["toolUseResult", "agentId"]).bind asStr), spawn with
            | some agent, some spawn => norm.enter agent spawn
            | _, _ => norm
        | _ => norm

def contains (text needle : String) : Bool := (cutFirst needle.toList text.toList).isSome

/-- Lines that cannot name a spawn or its agent are not parsed; torn ones are passed over. -/
def Normalizer.restoreLine (parse : String → Option Json) (norm : Normalizer) (line : List UInt8) :
    Normalizer :=
  match fromUtf8 line with
  | none => norm
  | some text =>
      if contains text "\"Agent\"" || contains text "\"Task\"" || contains text "agentId" then
        (parse text).elim norm norm.restoreRecord
      else norm

/-- `file` are the lines of the session's history, if it has one, and `parse` reads a value. -/
def Normalizer.restoreSpawns (fresh : String) (parse : String → Option Json) (sessionId : String)
    (file : Option (List (List UInt8))) : Normalizer :=
  if sessionId = "" ∨ ¬ sessionId.toList.all (fun c => c.isAlphanum || c == '-') then
    Normalizer.new fresh
  else (file.getD []).foldl (Normalizer.restoreLine parse) (Normalizer.new fresh)

/-! ## Events of a frame -/

def terminalStatus (status : String) : Option DoneStatus :=
  if status ∈ ["completed", "complete", "succeeded", "success"] then some .completed
  else if status ∈ ["failed", "errored", "error"] then some .errored
  else if status ∈ ["killed", "cancelled", "canceled", "stopped", "interrupted"] then
    some .interrupted
  else none

def Normalizer.taskNotification (norm : Normalizer) (frame : SystemFrame) : List AgentEvent :=
  match (frame.taskId.bind norm.agentTasks).or (nonempty frame.toolUseId) with
  | none => []
  | some parent =>
      if norm.agentSpawnTools.contains parent then
        match terminalStatus (frame.status.getD "") with
        | some status => [.subagent parent (.done status none none none)]
        | none => []
      else []

/-- The task and the tool of the start of an agent's task. -/
def startedTask (frame : SystemFrame) : Option (String × String) :=
  if frame.subtype = "task_started" ∧ frame.subagentType.isSome then
    (nonempty frame.taskId).bind fun task => (nonempty frame.toolUseId).map fun tool => (task, tool)
  else none

def Normalizer.taskStarted (norm : Normalizer) (task tool : String) : Normalizer :=
  let entered := norm.enter task tool
  let spawn := (entered.agentTasks task).getD tool
  { entered with
    agentSpawnTools := entered.agentSpawnTools ++ [spawn]
    agentToolSpawns := Function.update entered.agentToolSpawns tool (some spawn) }

def Normalizer.system (norm : Normalizer) (frame : SystemFrame) : Normalizer × List AgentEvent :=
  if frame.subtype = "task_notification" then (norm, norm.taskNotification frame)
  else
    match startedTask frame with
    | some (task, tool) => (norm.taskStarted task tool, [])
    | none =>
        if frame.subtype ≠ "init" ∨ norm.sawInit then (norm, [])
        else
          ({ norm with sawInit := true, sessionId := some frame.sessionId },
            [.sessionStarted .claudeCode frame.model frame.tools frame.cwd frame.sessionId
              norm.assistantMessageId])

/-- The spawn a tagged frame belongs to. -/
def Normalizer.spawnOf (norm : Normalizer) (parent : String) : String :=
  (norm.agentToolSpawns parent).getD parent

def Normalizer.streamEvent (norm : Normalizer) (frame : StreamEventFrame) : List AgentEvent :=
  if frame.kind ≠ "content_block_delta" then []
  else
    match frame.parentToolUseId with
    | some parent =>
        match frame.delta.kind with
        | "text_delta" => [.subagent (norm.spawnOf parent) (.textDelta frame.delta.text)]
        | "thinking_delta" =>
            if frame.delta.thinking = "" then []
            else [.subagent (norm.spawnOf parent) (.reasoningDelta frame.delta.thinking)]
        | _ => []
    | none =>
        match frame.delta.kind with
        | "text_delta" => [.textDelta frame.delta.text]
        | "thinking_delta" => [.reasoningDelta frame.delta.thinking]
        | "input_json_delta" => [.reasoningDelta ""]
        | _ => []

def taggedBlock (parent : String) (block : ContentBlock) : Option AgentEvent :=
  match block.kind with
  | "text" =>
      if block.text = "" then none
      else some (.subagent parent (.textDelta (trimEnd block.text ++ "\n\n")))
  | "tool_use" =>
      some (.subagent parent (.toolCall block.id (decodeToolUse block.name block.input)))
  | _ => none

def taggedAssistant (parent : String) (frame : MessageFrame) : List AgentEvent :=
  frame.blocks.filterMap (taggedBlock parent) ++
    (frame.error.map fun code => .subagent parent (.error (assistantErrorText code))).toList

def isToolUse (block : ContentBlock) : Bool := block.kind == "tool_use"

/-- The opening message of a spawn. -/
def openingOf (block : ContentBlock) : Option AgentEvent :=
  if isSpawnName block.name then
    (((get block.input "prompt").bind asStr).filter fun text => !isBlank text).map fun text =>
      .subagent block.id (.userMessage text)
  else none

/-- The agent a message is sent to. -/
def addressee (block : ContentBlock) : Option String :=
  if block.name = "SendMessage" then
    (((get block.input "to").or (get block.input "recipient"))).bind asStr
  else none

def steerText (block : ContentBlock) : Option String :=
  (((get block.input "message").or (get block.input "content")).bind asStr).filter
    fun text => !isBlank text

def Normalizer.steerOf (norm : Normalizer) (block : ContentBlock) : Option AgentEvent :=
  ((addressee block).bind norm.agentTasks).bind fun spawn =>
    (steerText block).map fun text => .subagent spawn (.userMessage text)

def Normalizer.toolUse (norm : Normalizer) (block : ContentBlock) : List AgentEvent :=
  .toolCall block.id (decodeToolUse block.name block.input) ::
    ((openingOf block).toList ++ (norm.steerOf block).toList)

def spawnBlocks (frame : MessageFrame) : List String :=
  (frame.blocks.filter fun block => isToolUse block && isSpawnName block.name).map (·.id)

def usageKeys : List String :=
  ["input_tokens", "cache_read_input_tokens", "cache_creation_input_tokens"]

def maxU64 : Nat := 2 ^ 64 - 1

def contextTokens (usage : Json) : Option Nat :=
  let counts := usageKeys.filterMap fun key => (get usage key).bind asU64
  if counts = [] then none else some (counts.foldl (fun sum count => min (sum + count) maxU64) 0)

def Normalizer.assistant (norm : Normalizer) (fresh : String) (frame : MessageFrame) :
    Normalizer × List AgentEvent :=
  match frame.parentToolUseId with
  | some parent => (norm, taggedAssistant (norm.spawnOf parent) frame)
  | none =>
      let known := { norm with agentSpawnTools := norm.agentSpawnTools ++ spawnBlocks frame }
      ({ known with
          lastModel := frame.model.or norm.lastModel
          assistantMessageId := fresh },
        (frame.blocks.filter isToolUse).flatMap known.toolUse ++
          (((frame.usage.bind contextTokens).map fun tokens => .contextUsage (some tokens) none).toList ++
            (frame.error.map fun code => .error (assistantErrorText code)).toList ++
            [.assistantMessageCompleted norm.assistantMessageId]))

def isToolResult (block : ContentBlock) : Bool := block.kind == "tool_result"

def resultEvent (block : ContentBlock) : AgentEvent :=
  .toolResult block.toolUseId (block.isError.getD false) none none

def isSteer (block : ContentBlock) : Bool :=
  block.kind == "text" && !isBlank block.text && !isSyntheticUserText block.text

def Normalizer.user (norm : Normalizer) (frame : MessageFrame) : List AgentEvent :=
  let results := (frame.blocks.filter isToolResult).map resultEvent
  match frame.parentToolUseId with
  | some parent =>
      let steers := (frame.blocks.filter isSteer).map fun block => AgentEvent.userMessage block.text
      (results ++ steers).map (.subagent (norm.spawnOf parent))
  | none => results

def rateLimit (info : RateLimitInfo) : List AgentEvent :=
  if info.status ≠ "rejected" then []
  else
    [.error ("Claude " ++ rateWindowLabel (info.rateLimitType.getD "") ++
      " limit reached — the turn was blocked. Try again after it resets.")]

/-- The usage entry of the model of the last message. -/
def modelUsageOf (lastModel : Option String) (modelUsage : List (String × Json)) : Option Json :=
  (lastModel.bind fun model =>
    (modelUsage.lookup model).or
      ((modelUsage.map (·.2)).find? fun entry =>
        decide ((get entry "canonicalModel").bind asStr = some model))).or
    (match modelUsage with
      | [(_, entry)] => some entry
      | _ => none)

def errorText : Json → String
  | .string text => text
  | other => String.ofList other.render

def resultError (frame : ResultFrame) : Option String :=
  let (diagnostics, errors) := (frame.errors.map errorText).partition isInternalDiagnostic
  if errors ≠ [] then some ("; ".intercalate errors)
  else if frame.subtype ∈
      ["error_max_turns", "error_max_budget_usd", "error_max_structured_output_retries"] then
    some (resultErrorText frame.subtype)
  else if diagnostics ≠ [] then none
  else some (resultErrorText frame.subtype)

def doneOf (frame : ResultFrame) (interrupted : Bool) : AgentEvent :=
  if frame.subtype = "success" then
    .done (if interrupted then .interrupted else .completed) frame.result none frame.sessionId
  else
    .done (if interrupted then .interrupted else .errored) none (resultError frame) frame.sessionId

def Normalizer.result (norm : Normalizer) (frame : ResultFrame) (interrupted : Bool) :
    Normalizer × List AgentEvent :=
  let window := (((modelUsageOf norm.lastModel frame.modelUsage).bind fun entry =>
    get entry "contextWindow").bind asU64).filter (0 < ·)
  ({ norm with sessionId := frame.sessionId.or norm.sessionId },
    (window.map fun window => .contextUsage none (some window)).toList ++
      [.usage frame.inputTokens frame.outputTokens, doneOf frame interrupted])

def Normalizer.normalize (norm : Normalizer) (fresh : String) (frame : Frame)
    (interrupted : Bool) : Normalizer × List AgentEvent :=
  match frame with
  | .system frame => norm.system frame
  | .streamEvent frame => (norm, norm.streamEvent frame)
  | .assistant frame => norm.assistant fresh frame
  | .user frame => (norm, norm.user frame)
  | .rateLimit info => (norm, rateLimit info)
  | .result frame => norm.result frame interrupted
  | .controlRequest | .other => (norm, [])

end Zeron.Harness
