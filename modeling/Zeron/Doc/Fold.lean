import Zeron.Command.Host
import Zeron.Transcript.Delta
import Zeron.Transcript.Groups

namespace Zeron.Doc

open Zeron.Transcript

/-! # The event fold

Agent events become the parts of one assistant message, and a policy strips what the
document must not hold.  Between turn boundaries a part grows or changes in place, and
only an image takes the place of another.
-/

inductive DoneStatus where
  | completed
  | interrupted
  | errored
deriving DecidableEq

inductive AgentEvent (value : Type) where
  | sessionStarted
  | textDelta (text : String)
  | generatedImage (id path name mimeType : String)
  | reasoningDelta (text : String)
  | assistantMessageCompleted
  | toolCall (id : String) (call : ToolCall value)
  | toolResult (id : String) (isError : Bool) (output : Option String) (diff : Option ToolDiff)
  | contextUsage
  | usage
  | availableCommands
  | error (message : String)
  | inputRequested (requestId : String) (questions : List UserInputQuestion)
  | inputResolved (requestId : String)
  | steered
  | done (status : DoneStatus) (error : Option String)
  | userMessage (text : String)
  | subagent (parentToolUseId : String) (event : AgentEvent value)

/-- What the fold and the policy ask of other libraries. -/
structure Inputs (value : Type) where
  /-- `input.get(key)?.as_str()`. -/
  field : value → String → Option String
  /-- The object with these fields. -/
  object : List (String × String) → value
  /-- The lines that a text difference adds and deletes. -/
  changes : String → String → Nat × Nat
  /-- `text.lines().count()`. -/
  lines : String → Nat

variable {value : Type}

def isSubagentSpawn : ToolCall value → Bool
  | .unknown name _ | .mcp _ name _ => name == "Agent" || (stripPrefix name "Agent: ").isSome
  | _ => false

/-- A turn boundary, which clears what was folded. -/
def AgentEvent.resets : AgentEvent value → Bool
  | .sessionStarted | .steered => true
  | _ => false

/-- The status that an event of a subagent says. -/
def subagentStatus : AgentEvent value → Option SubagentStatus
  | .done .errored _ => some .failed
  | .done _ _ => some .done
  | .userMessage _ | .steered => some .running
  | _ => none

/-- A tool that was called. -/
def calledTool (call : ToolCall value) : ToolPart value where
  call := call
  isError := false
  resolved := false
  output := none
  diff := none
  outputRef := none
  outputBytes := none
  diffRef := none
  diffStats := none
  subagentRef := none
  subagentStatus := none
  subagentTail := none

def isTool (id : String) : MessagePart value → Bool
  | .tool pid _ => pid == id
  | _ => false

def refreshCall (call : ToolCall value) : MessagePart value → MessagePart value
  | .tool id tool => .tool id { tool with call }
  | part => part

def resolveInput (requestId : String) : MessagePart value → MessagePart value
  | .input id rid questions resolved =>
      if rid = requestId then .input id rid questions true else .input id rid questions resolved
  | part => part

def noteSubagent (parent : String) (status : Option SubagentStatus) :
    MessagePart value → MessagePart value
  | .tool id tool =>
      if id = parent ∧ isSubagentSpawn tool.call = true then
        match status with
        | some status => .tool id { tool with subagentStatus := some status }
        | none =>
            if tool.subagentStatus = some .done ∨ tool.subagentStatus = some .failed then
              .tool id tool
            else .tool id { tool with subagentStatus := some .running }
      else .tool id tool
  | part => part

namespace Inputs

variable (inputs : Inputs value)

def diffStat (diff : ToolDiff) : ToolDiffStat :=
  match diff.oldText with
  | none => { path := diff.path, additions := inputs.lines diff.newText, deletions := 0 }
  | some old =>
      { path := diff.path
        additions := (inputs.changes old diff.newText).1
        deletions := (inputs.changes old diff.newText).2 }

def resolveTool (id : String) (isError : Bool) (diff : Option ToolDiff) :
    MessagePart value → MessagePart value
  | .tool pid tool =>
      if pid = id then
        .tool pid
          { tool with
            isError
            resolved := true
            output := none
            outputBytes := none
            diff := none
            diffStats := diff.map fun diff => [inputs.diffStat diff] }
      else .tool pid tool
  | part => part

/-- One event into the parts so far. -/
def foldEventIntoParts (out : List (MessagePart value)) :
    AgentEvent value → List (MessagePart value)
  | .sessionStarted | .steered => []
  | .textDelta text =>
      match out.getLast? with
      | some (.text id tail) => out.dropLast ++ [.text id (tail ++ text)]
      | _ => out ++ [.text s!"t{out.length}" text]
  | .generatedImage id path name mimeType =>
      match out.findIdx? fun part => part.id == id with
      | some index => out.set index (.image id path name mimeType)
      | none => out ++ [.image id path name mimeType]
  | .reasoningDelta text =>
      if text = "" then out
      else
        match out.getLast? with
        | some (.reasoning id tail) => out.dropLast ++ [.reasoning id (tail ++ text)]
        | _ => out ++ [.reasoning s!"r{out.length}" text]
  | .toolCall id call =>
      match out.findIdx? (isTool id) with
      | some index => out.modify index (refreshCall call)
      | none => out ++ [.tool id (calledTool call)]
  | .toolResult id isError _ diff => out.map (inputs.resolveTool id isError diff)
  | .inputRequested requestId questions =>
      if out.any fun part => part.id == s!"in-{requestId}" then out
      else out ++ [.input s!"in-{requestId}" requestId questions false]
  | .inputResolved requestId => out.map (resolveInput requestId)
  | .error message => out ++ [.error s!"e{out.length}" message]
  | .done _ (some message) => out ++ [.error s!"e{out.length}" message]
  | .done _ none => out
  | .subagent parent event => out.map (noteSubagent parent (subagentStatus event))
  | .assistantMessageCompleted | .usage | .contextUsage | .availableCommands | .userMessage _ => out

/-! ## Rendering -/

def subagentInputKeep : List String :=
  ["model", "modelId", "model_id", "subagent_model", "subagent_type"]

/-- The keys of a spawn's input that may enter the document. -/
def keptInput (input : value) : List (String × String) :=
  subagentInputKeep.filterMap fun key =>
    (inputs.field input key).bind fun text =>
      let text := String.ofList (Command.trim text.toList)
      if text = "" then none else some (key, text)

def spawnBadge (call : ToolCall value) : Option value :=
  if isSubagentSpawn call then
    match call with
    | .unknown _ input | .mcp _ _ input =>
        input.bind fun input =>
          if inputs.keptInput input = [] then none
          else some (inputs.object (inputs.keptInput input))
    | _ => none
  else none

def sanitizeToolCall (call : ToolCall value) : ToolCall value :=
  match call with
  | .writeFile path _ => .writeFile path none
  | .editFile path _ _ => .editFile path none none
  | .webFetch url _ => .webFetch url none
  | .mcp server tool _ => .mcp server tool (inputs.spawnBadge call)
  | .unknown name _ => .unknown name (inputs.spawnBadge call)
  | other => other

def renderPart : MessagePart value → MessagePart value
  | .tool id tool => .tool id { tool with call := inputs.sanitizeToolCall tool.call }
  | other => other

def renderParts (parts : List (MessagePart value)) : List (MessagePart value) :=
  parts.map inputs.renderPart

end Inputs

/-! ## What becomes of a part -/

/-- The fields of a tool that the fold never fills, or not before a result. -/
structure FoldedTool (tool : ToolPart value) : Prop where
  isError : tool.resolved = false → tool.isError = false
  output : tool.output = none
  diff : tool.diff = none
  outputRef : tool.outputRef = none
  outputBytes : tool.outputBytes = none
  diffRef : tool.diffRef = none
  subagentRef : tool.subagentRef = none
  subagentTail : tool.subagentTail = none

/-- The parts that the fold makes. -/
def Folded : MessagePart value → Prop
  | .tool _ tool => FoldedTool tool
  | .fork _ _ _ => False
  | _ => True

/-- A part some events later. -/
inductive Becomes : MessagePart value → MessagePart value → Prop
  | text (id old tail : String) : Becomes (.text id old) (.text id (old ++ tail))
  | reasoning (id old tail : String) : Becomes (.reasoning id old) (.reasoning id (old ++ tail))
  | tool (id : String) {old new : ToolPart value}
      (resolved : old.resolved = true → new.resolved = true)
      (status : old.subagentStatus.isSome = true → new.subagentStatus.isSome = true) :
      Becomes (.tool id old) (.tool id new)
  | input (id requestId : String) (questions : List UserInputQuestion) {old new : Bool}
      (resolved : old = true → new = true) :
      Becomes (.input id requestId questions old) (.input id requestId questions new)
  | error (id message : String) : Becomes (.error id message) (.error id message)
  | image (old : MessagePart value) (path name mimeType : String) :
      Becomes old (.image old.id path name mimeType)

theorem Becomes.refl {part : MessagePart value} (folded : Folded part) : Becomes part part := by
  cases part with
  | text id text => simpa using Becomes.text id text ""
  | image id path name mimeType => exact .image (.image id path name mimeType) path name mimeType
  | reasoning id text => simpa using Becomes.reasoning id text ""
  | tool id tool => exact .tool id (fun same => same) fun same => same
  | input id requestId questions resolved => exact .input id requestId questions fun same => same
  | error id message => exact .error id message
  | fork => exact absurd folded not_false

theorem Becomes.trans {first second third : MessagePart value} (one : Becomes first second)
    (other : Becomes second third) : Becomes first third := by
  cases one with
  | text id old tail =>
      cases other with
      | text _ _ more =>
          rw [String.append_assoc]
          exact .text id old (tail ++ more)
      | image _ path name mimeType => exact .image (.text id old) path name mimeType
  | reasoning id old tail =>
      cases other with
      | reasoning _ _ more =>
          rw [String.append_assoc]
          exact .reasoning id old (tail ++ more)
      | image _ path name mimeType => exact .image (.reasoning id old) path name mimeType
  | @tool id old new resolved status =>
      cases other with
      | tool _ later settled => exact .tool id (later ∘ resolved) (settled ∘ status)
      | image _ path name mimeType => exact .image (.tool id old) path name mimeType
  | @input id requestId questions old new resolved =>
      cases other with
      | input _ _ _ later => exact .input id requestId questions (later ∘ resolved)
      | image _ path name mimeType => exact .image (.input id requestId questions old) path name mimeType
  | error id message => exact other
  | image old path name mimeType =>
      cases other with
      | image _ path name mimeType => exact .image first path name mimeType

/-- Every part is still there, as what became of it. -/
def GrowsInto (old new : List (MessagePart value)) : Prop :=
  ∀ (index : Nat) (part : MessagePart value), old[index]? = some part →
    ∃ later, new[index]? = some later ∧ Becomes part later

theorem GrowsInto.trans {first second third : List (MessagePart value)}
    (one : GrowsInto first second) (other : GrowsInto second third) : GrowsInto first third := by
  intro index part isPart
  obtain ⟨next, isNext, became⟩ := one index part isPart
  obtain ⟨last, isLast, later⟩ := other index next isNext
  exact ⟨last, isLast, became.trans later⟩

theorem GrowsInto.length {old new : List (MessagePart value)} (grows : GrowsInto old new) :
    old.length ≤ new.length := by
  by_contra shorter
  obtain ⟨later, isLater, _⟩ := grows new.length old[new.length] (List.getElem?_eq_getElem (by omega))
  rw [List.getElem?_eq_none (le_refl _)] at isLater
  cases isLater

theorem growsInto_append {out : List (MessagePart value)} (folded : ∀ part ∈ out, Folded part)
    (extra : List (MessagePart value)) : GrowsInto out (out ++ extra) := by
  intro index part isPart
  refine ⟨part, ?_, .refl (folded part (List.mem_of_getElem? isPart))⟩
  rw [List.getElem?_append_left (List.getElem?_eq_some_iff.mp isPart).1]
  exact isPart

theorem growsInto_refl {out : List (MessagePart value)} (folded : ∀ part ∈ out, Folded part) :
    GrowsInto out out := fun _ part isPart =>
  ⟨part, isPart, .refl (folded part (List.mem_of_getElem? isPart))⟩

theorem growsInto_map {out : List (MessagePart value)} {change : MessagePart value → MessagePart value}
    (became : ∀ part ∈ out, Becomes part (change part)) : GrowsInto out (out.map change) := by
  intro index part isPart
  refine ⟨change part, ?_, became part (List.mem_of_getElem? isPart)⟩
  rw [List.getElem?_map, isPart]
  rfl

theorem growsInto_modify {out : List (MessagePart value)} {index : Nat}
    {change : MessagePart value → MessagePart value} (folded : ∀ part ∈ out, Folded part)
    (became : ∀ part, out[index]? = some part → Becomes part (change part)) :
    GrowsInto out (out.modify index change) := by
  intro place part isPart
  rw [List.getElem?_modify, isPart]
  refine ⟨_, rfl, ?_⟩
  dsimp only
  split
  · rename_i same
    exact became part (same ▸ isPart)
  · exact .refl (folded part (List.mem_of_getElem? isPart))

/-- What the fold may make of its parts. -/
structure Follows (old new : List (MessagePart value)) : Prop where
  grows : GrowsInto old new
  folded : ∀ part ∈ new, Folded part

/-- The loops write the last part by its place. -/
theorem dropLast_append_eq {out : List (MessagePart value)} {last : MessagePart value}
    (isLast : out.getLast? = some last) (next : MessagePart value) :
    out.dropLast ++ [next] = out.modify (out.length - 1) fun _ => next := by
  obtain ⟨front, rfl⟩ := List.getLast?_eq_some_iff.mp isLast
  rw [List.dropLast_concat, List.length_append, List.length_singleton, Nat.add_sub_cancel]
  rw [List.modify_eq_take_cons_drop (by simp)]
  simp

theorem getElem?_last {out : List (MessagePart value)} {last : MessagePart value}
    (isLast : out.getLast? = some last) : out[out.length - 1]? = some last := by
  rw [← List.getLast?_eq_getElem?]
  exact isLast

/-! ## One event -/

namespace Inputs

variable {inputs : Inputs value} {out : List (MessagePart value)}

theorem folded_append {extra : MessagePart value} (folded : ∀ part ∈ out, Folded part)
    (isFolded : Folded extra) : ∀ part ∈ out ++ [extra], Folded part := by
  intro part inside
  rcases List.mem_append.mp inside with old | new
  · exact folded part old
  · rw [List.mem_singleton.mp new]
    exact isFolded

theorem folded_modify {index : Nat} {change : MessagePart value → MessagePart value}
    (folded : ∀ part ∈ out, Folded part) (kept : ∀ part, Folded part → Folded (change part)) :
    ∀ part ∈ out.modify index change, Folded part := by
  intro part inside
  rcases mem_modify inside with old | ⟨old, isOld, rfl⟩
  · exact folded part old
  · exact kept old (folded old isOld)

theorem folded_map {change : MessagePart value → MessagePart value}
    (folded : ∀ part ∈ out, Folded part) (kept : ∀ part, Folded part → Folded (change part)) :
    ∀ part ∈ out.map change, Folded part := by
  intro part inside
  obtain ⟨old, isOld, rfl⟩ := List.mem_map.mp inside
  exact kept old (folded old isOld)

theorem becomes_refreshCall {part : MessagePart value} (call : ToolCall value)
    (folded : Folded part) :
    Becomes part (refreshCall call part) ∧ Folded (refreshCall call part) := by
  cases part with
  | tool id tool =>
      refine ⟨.tool id (fun same => same) fun same => same, ?_⟩
      exact ⟨folded.isError, folded.output, folded.diff, folded.outputRef, folded.outputBytes, folded.diffRef,
        folded.subagentRef, folded.subagentTail⟩
  | _ => exact ⟨.refl folded, folded⟩

theorem becomes_resolveTool {part : MessagePart value} (id : String) (isError : Bool)
    (diff : Option ToolDiff) (folded : Folded part) :
    Becomes part (inputs.resolveTool id isError diff part) ∧
      Folded (inputs.resolveTool id isError diff part) := by
  cases part with
  | tool pid tool =>
      by_cases same : pid = id
      · simp only [resolveTool, if_pos same]
        refine ⟨.tool pid (fun _ => rfl) fun same => same, ?_⟩
        exact ⟨nofun, rfl, rfl, folded.outputRef, rfl, folded.diffRef, folded.subagentRef,
          folded.subagentTail⟩
      · simp only [resolveTool, if_neg same]
        exact ⟨.refl folded, folded⟩
  | _ => exact ⟨.refl folded, folded⟩

theorem becomes_resolveInput {part : MessagePart value} (requestId : String)
    (folded : Folded part) :
    Becomes part (resolveInput requestId part) ∧ Folded (resolveInput requestId part) := by
  cases part with
  | input id rid questions resolved =>
      by_cases same : rid = requestId
      · simp only [resolveInput, if_pos same]
        exact ⟨.input id rid questions fun _ => rfl, trivial⟩
      · simp only [resolveInput, if_neg same]
        exact ⟨.refl folded, folded⟩
  | _ => exact ⟨.refl folded, folded⟩

theorem becomes_noteSubagent {part : MessagePart value} (parent : String)
    (status : Option SubagentStatus) (folded : Folded part) :
    Becomes part (noteSubagent parent status part) ∧ Folded (noteSubagent parent status part) := by
  cases part with
  | tool id tool =>
      have marked : ∀ status, Folded (.tool id { tool with subagentStatus := some status }) :=
        fun _ => ⟨folded.isError, folded.output, folded.diff, folded.outputRef, folded.outputBytes, folded.diffRef,
          folded.subagentRef, folded.subagentTail⟩
      by_cases own : id = parent ∧ isSubagentSpawn tool.call = true
      · simp only [noteSubagent, if_pos own]
        cases status with
        | some status => exact ⟨.tool id (fun same => same) fun _ => rfl, marked _⟩
        | none =>
            dsimp only
            by_cases settled : tool.subagentStatus = some .done ∨ tool.subagentStatus = some .failed
            · rw [if_pos settled]
              exact ⟨.refl folded, folded⟩
            · rw [if_neg settled]
              exact ⟨.tool id (fun same => same) fun _ => rfl, marked _⟩
      · simp only [noteSubagent, if_neg own]
        exact ⟨.refl folded, folded⟩
  | _ => exact ⟨.refl folded, folded⟩

/-- Between turn boundaries parts stay, grow or change in place. -/
theorem fold_spec {event : AgentEvent value} (folded : ∀ part ∈ out, Folded part)
    (stays : event.resets = false) : Follows out (inputs.foldEventIntoParts out event) := by
  cases event with
  | sessionStarted => cases stays
  | steered => cases stays
  | textDelta text =>
      rw [foldEventIntoParts]
      split
      · rename_i id tail isLast
        rw [dropLast_append_eq isLast]
        constructor
        · apply growsInto_modify folded
          intro part isPart
          rw [getElem?_last isLast] at isPart
          cases isPart
          exact .text id tail text
        · exact folded_modify folded fun _ _ => trivial
      · exact ⟨growsInto_append folded _, folded_append folded trivial⟩
  | generatedImage id path name mimeType =>
      rw [foldEventIntoParts]
      split
      · rename_i index isFound
        obtain ⟨inside, isId, _⟩ := List.findIdx?_eq_some_iff_getElem.mp isFound
        rw [List.set_eq_modify]
        constructor
        · apply growsInto_modify folded
          intro part isPart
          rw [List.getElem?_eq_getElem inside] at isPart
          rw [Option.some.inj isPart] at isId
          have image := Becomes.image part path name mimeType
          rw [eq_of_beq isId] at image
          exact image
        · exact folded_modify folded fun _ _ => trivial
      · exact ⟨growsInto_append folded _, folded_append folded trivial⟩
  | reasoningDelta text =>
      rw [foldEventIntoParts]
      split
      · exact ⟨growsInto_refl folded, folded⟩
      · split
        · rename_i id tail isLast
          rw [dropLast_append_eq isLast]
          constructor
          · apply growsInto_modify folded
            intro part isPart
            rw [getElem?_last isLast] at isPart
            cases isPart
            exact .reasoning id tail text
          · exact folded_modify folded fun _ _ => trivial
        · exact ⟨growsInto_append folded _, folded_append folded trivial⟩
  | toolCall id call =>
      rw [foldEventIntoParts]
      split
      · constructor
        · apply growsInto_modify folded
          intro part isPart
          exact (becomes_refreshCall call (folded part (List.mem_of_getElem? isPart))).1
        · exact folded_modify folded fun part isFolded => (becomes_refreshCall call isFolded).2
      · exact ⟨growsInto_append folded _, folded_append folded
          ⟨fun _ => rfl, rfl, rfl, rfl, rfl, rfl, rfl, rfl⟩⟩
  | toolResult id isError output diff =>
      exact ⟨growsInto_map fun part inside => (becomes_resolveTool id isError diff (folded part inside)).1,
        folded_map folded fun part isFolded => (becomes_resolveTool id isError diff isFolded).2⟩
  | inputRequested requestId questions =>
      rw [foldEventIntoParts]
      split
      · exact ⟨growsInto_refl folded, folded⟩
      · exact ⟨growsInto_append folded _, folded_append folded trivial⟩
  | inputResolved requestId =>
      exact ⟨growsInto_map fun part inside => (becomes_resolveInput requestId (folded part inside)).1,
        folded_map folded fun part isFolded => (becomes_resolveInput requestId isFolded).2⟩
  | error message => exact ⟨growsInto_append folded _, folded_append folded trivial⟩
  | done status message =>
      cases message with
      | none => exact ⟨growsInto_refl folded, folded⟩
      | some message => exact ⟨growsInto_append folded _, folded_append folded trivial⟩
  | subagent parent event =>
      exact ⟨growsInto_map fun part inside => (becomes_noteSubagent parent _ (folded part inside)).1,
        folded_map folded fun part isFolded => (becomes_noteSubagent parent _ isFolded).2⟩
  | _ => exact ⟨growsInto_refl folded, folded⟩

/-! ## Rendered parts -/

theorem becomes_renderPart {first second : MessagePart value} (became : Becomes first second) :
    Becomes (inputs.renderPart first) (inputs.renderPart second) := by
  cases became with
  | text id old tail => exact .text id old tail
  | reasoning id old tail => exact .reasoning id old tail
  | tool id resolved status => exact .tool id resolved status
  | input id requestId questions resolved => exact .input id requestId questions resolved
  | error id message => exact .error id message
  | image old path name mimeType =>
      have sameId : (inputs.renderPart first).id = first.id := by
        cases first <;> rfl
      have image := Becomes.image (inputs.renderPart first) path name mimeType
      rw [sameId] at image
      exact image

theorem folded_renderPart {part : MessagePart value} (folded : Folded part) :
    Folded (inputs.renderPart part) := by
  cases part with
  | tool id tool =>
      exact ⟨folded.isError, folded.output, folded.diff, folded.outputRef, folded.outputBytes, folded.diffRef,
        folded.subagentRef, folded.subagentTail⟩
  | _ => exact folded

theorem growsInto_renderParts {first second : List (MessagePart value)}
    (grows : GrowsInto first second) :
    GrowsInto (inputs.renderParts first) (inputs.renderParts second) := by
  intro index part isPart
  unfold renderParts at isPart ⊢
  rw [List.getElem?_map] at isPart ⊢
  obtain ⟨old, isOld, rfl⟩ := Option.map_eq_some_iff.mp isPart
  obtain ⟨later, isLater, became⟩ := grows index old isOld
  rw [isLater]
  exact ⟨_, rfl, becomes_renderPart became⟩

end Inputs

end Zeron.Doc
