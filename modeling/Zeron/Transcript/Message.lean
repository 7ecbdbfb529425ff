import Mathlib

namespace Zeron.Transcript

/-! # Transcript entries

One rendered message of a chat and its parts.  Tool inputs are arbitrary JSON;
transcripts only compare them, so their type is a parameter.
-/

inductive TodoStatus where
  | pending
  | inProgress
  | completed
deriving DecidableEq

structure TodoItem where
  text : String
  done : Bool
  status : Option TodoStatus
deriving DecidableEq

inductive ToolCall (value : Type) where
  | exec (command : String)
  | readFile (path : String)
  | writeFile (path : String) (content : Option String)
  | editFile (path : String) (oldString newString : Option String)
  | applyPatch (path : Option String)
  | search (pattern : String) (path : Option String)
  | glob (pattern : String)
  | webFetch (url : String) (prompt : Option String)
  | webSearch (query : String)
  | todo (items : List TodoItem)
  | mcp (server tool : String) (input : Option value)
  | unknown (name : String) (input : Option value)
deriving DecidableEq

structure ToolDiff where
  path : String
  oldText : Option String
  newText : String
deriving DecidableEq

structure ToolDiffStat where
  path : String
  additions : Nat
  deletions : Nat
deriving DecidableEq

inductive SubagentStatus where
  | running
  | done
  | failed
deriving DecidableEq

structure UserInputQuestion where
  id : String
  header : String
  question : String
  options : List String
  multiSelect : Bool
  prefill : Option String
  multiline : Bool
deriving DecidableEq

structure ToolPart (value : Type) where
  call : ToolCall value
  isError : Bool
  resolved : Bool
  output : Option String
  diff : Option ToolDiff
  outputRef : Option String
  outputBytes : Option Nat
  diffRef : Option String
  diffStats : Option (List ToolDiffStat)
  subagentRef : Option String
  subagentStatus : Option SubagentStatus
  subagentTail : Option String
deriving DecidableEq

inductive MessagePart (value : Type) where
  | text (id text : String)
  | image (id path name mimeType : String)
  | reasoning (id text : String)
  | tool (id : String) (tool : ToolPart value)
  | input (id requestId : String) (questions : List UserInputQuestion) (resolved : Bool)
  | error (id message : String)
  | fork (id sourceChatId sourceTitle : String)
deriving DecidableEq

def MessagePart.id {value : Type} : MessagePart value → String
  | .text id _ | .image id _ _ _ | .reasoning id _ | .tool id _ | .input id _ _ _ | .error id _
  | .fork id _ _ => id

inductive MessageRole where
  | user
  | assistant
  | system
deriving DecidableEq

inductive MessageStatus where
  | streaming
  | complete
  | aborted
deriving DecidableEq

structure SessionMessageEntry (value : Type) where
  id : String
  role : MessageRole
  parts : List (MessagePart value)
  createdAt : Int
  deviceId : String
  status : Option MessageStatus
  continuationOf : Option String
  durationMs : Option Int
deriving DecidableEq

end Zeron.Transcript
