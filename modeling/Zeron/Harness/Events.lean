import Zeron.Data.Json
import Zeron.Doc.Fold

namespace Zeron.Harness

open Zeron.Data
open Zeron.Transcript (TodoItem TodoStatus ToolDiff UserInputQuestion)
open Zeron.Doc (DoneStatus)

/-! # What a harness reports

The events the agent programs are translated to, with everything they carry, and how their
frames, JSON values, are read.
-/

abbrev ToolCall := Transcript.ToolCall Json

inductive HarnessId where
  | claudeCode
  | codex
deriving DecidableEq

inductive AgentEvent where
  | sessionStarted (harness : HarnessId) (model : String) (tools : List String) (cwd : String)
      (sessionId : String) (assistantMessageId : String)
  | textDelta (text : String)
  | generatedImage (id path name mimeType : String)
  | reasoningDelta (text : String)
  | assistantMessageCompleted (assistantMessageId : String)
  | toolCall (id : String) (call : ToolCall)
  | toolResult (id : String) (isError : Bool) (output : Option String) (diff : Option ToolDiff)
  | contextUsage (tokens window : Option Nat)
  | usage (inputTokens outputTokens : Nat)
  | error (message : String)
  | steered (assistantMessageId nextAssistantMessageId : Option String)
  | done (status : DoneStatus) (result error sessionId : Option String)
  | userMessage (text : String)
  | subagent (parentToolUseId : String) (event : AgentEvent)
deriving DecidableEq

/-! ## Reading values -/

def get (value : Json) (key : String) : Option Json :=
  match value with
  | .object entries => entries.lookup key
  | _ => none

def asStr : Json → Option String
  | .string text => some text
  | _ => none

def asBool : Json → Option Bool
  | .bool value => some value
  | _ => none

def asArray : Json → Option (List Json)
  | .array items => some items
  | _ => none

def asU64 : Json → Option Nat
  | .number value => if 0 ≤ value ∧ value < 2 ^ 64 then some value.toNat else none
  | _ => none

def asI64 : Json → Option Int
  | .number value => if -2 ^ 63 ≤ value ∧ value < 2 ^ 63 then some value else none
  | _ => none

/-- `Value::pointer` along object keys. -/
def pointer (value : Json) : List String → Option Json
  | [] => some value
  | key :: rest => (get value key).bind fun inner => pointer inner rest

def items (value : Option Json) : List Json := (value.bind asArray).getD []

def isBlank (text : String) : Bool := (Command.trim text.toList).isEmpty

def trimEnd (text : String) : String :=
  String.ofList (text.toList.rdropWhile Registry.SidebarM.isWhitespace)

def trimStart (text : String) : String := String.ofList (Command.trimStart text.toList)

/-! ## Checklists -/

def TodoStatus.parse (raw : String) : TodoStatus :=
  if raw ∈ ["completed", "complete", "done"] then .completed
  else if raw ∈ ["in_progress", "inProgress", "in-progress", "active"] then .inProgress
  else .pending

def TodoItem.new (text : String) (status : TodoStatus) : TodoItem where
  text := text
  done := status == .completed
  status := if status = .inProgress then some status else none

end Zeron.Harness
