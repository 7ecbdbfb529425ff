import Zeron.Doc.Fold

namespace Zeron.Doc

open Zeron.Transcript

/-! # Growth of the fold

Between two turn boundaries the fold only grows its parts: each keeps its place, its id
and its kind, at most one more comes after them, and no two share an id.
-/

inductive PartKind where
  | text
  | image
  | reasoning
  | tool
  | input
  | error
  | fork
deriving DecidableEq

variable {value : Type}

def partKind : MessagePart value → PartKind
  | .text _ _ => .text
  | .image _ _ _ _ => .image
  | .reasoning _ _ => .reasoning
  | .tool _ _ => .tool
  | .input _ _ _ _ => .input
  | .error _ _ => .error
  | .fork _ _ _ => .fork

/-- What an event never changes of a part. -/
def tag (part : MessagePart value) : String × PartKind := (part.id, partKind part)

namespace AgentEvent

/-- The id of the tool that an event calls. -/
def toolIds : AgentEvent value → List String
  | .toolCall id _ => [id]
  | _ => []

def imageIds : AgentEvent value → List String
  | .generatedImage id _ _ _ => [id]
  | _ => []

end AgentEvent

/-- The ids that the fold makes up itself. -/
def Generated (id : String) : Prop :=
  (∃ n : Nat, id = s!"t{n}" ∨ id = s!"r{n}" ∨ id = s!"e{n}") ∨ ∃ requestId : String, id = s!"in-{requestId}"

/-! ## Generated ids -/

theorem toList_numbered (letter : String) (n : Nat) :
    (toString letter ++ toString n).toList = letter.toList ++ n.repr.toList := by
  rw [String.toList_append]
  rfl

/-- A letter and a number can be read back. -/
theorem numbered_inj {first : String} (second : String) {a b : Char} {n m : Nat} (one : first.toList = [a])
    (other : second.toList = [b])
    (same : toString first ++ toString n = toString second ++ toString m) : a = b ∧ n = m := by
  have lists := congrArg String.toList same
  rw [toList_numbered, toList_numbered, one, other, List.singleton_append, List.singleton_append,
    List.cons.injEq, String.toList_inj] at lists
  exact ⟨lists.1, Nat.repr_inj.mp lists.2⟩

theorem head_append {letter : Char} {front : String} (rest : List Char) (tail : String)
    (shape : front.toList = letter :: rest) : (front ++ tail).toList.head? = some letter := by
  rw [String.toList_append, shape]
  rfl

theorem head_t (n : Nat) : (s!"t{n}").toList.head? = some 't' := head_append [] _ rfl

theorem head_r (n : Nat) : (s!"r{n}").toList.head? = some 'r' := head_append [] _ rfl

theorem head_e (n : Nat) : (s!"e{n}").toList.head? = some 'e' := head_append [] _ rfl

theorem head_in (requestId : String) : (s!"in-{requestId}").toList.head? = some 'i' :=
  head_append ['n', '-'] _ rfl

theorem head_generated {id : String} (generated : Generated id) :
    id.toList.head? ∈ [some 't', some 'r', some 'e', some 'i'] := by
  rcases generated with ⟨n, rfl | rfl | rfl⟩ | ⟨requestId, rfl⟩
  · rw [head_t]
    decide
  · rw [head_r]
    decide
  · rw [head_e]
    decide
  · rw [head_in]
    decide

/-! ## Whose id a part has -/

/-- The tools and the images that the events of a turn name. -/
structure Named where
  tools : List String
  images : List String
  apart : ∀ id ∈ tools, id ∉ images
  tools_named : ∀ id ∈ tools, ¬ Generated id
  images_named : ∀ id ∈ images, ¬ Generated id

/-- Where the id of the part at an index comes from. -/
def Own (names : Named) (index : Nat) (id : String) : PartKind → Prop
  | .text => id = s!"t{index}"
  | .reasoning => id = s!"r{index}"
  | .error => id = s!"e{index}"
  | .input => ∃ requestId : String, id = s!"in-{requestId}"
  | .tool => id ∈ names.tools
  | .image => id ∈ names.images
  | .fork => False

variable {names : Named} {index : Nat} {id : String} {kind : PartKind}

/-- An id that no counter makes was given by a tool call or an image. -/
theorem Own.given (own : Own names index id kind) (named : ¬ Generated id) :
    kind = .tool ∧ id ∈ names.tools ∨ kind = .image ∧ id ∈ names.images := by
  cases kind with
  | text => exact absurd (.inl ⟨index, .inl own⟩) named
  | reasoning => exact absurd (.inl ⟨index, .inr (.inl own)⟩) named
  | error => exact absurd (.inl ⟨index, .inr (.inr own)⟩) named
  | input => exact absurd (.inr own) named
  | tool => exact .inl ⟨rfl, own⟩
  | image => exact .inr ⟨rfl, own⟩
  | fork => exact own.elim

theorem Own.image (own : Own names index id kind) (isImage : id ∈ names.images) : kind = .image := by
  rcases own.given (names.images_named id isImage) with ⟨-, isTool⟩ | ⟨same, -⟩
  · exact absurd isImage (names.apart id isTool)
  · exact same

theorem Own.tool (own : Own names index id kind) (isTool : id ∈ names.tools) : kind = .tool := by
  rcases own.given (names.tools_named id isTool) with ⟨same, -⟩ | ⟨-, isImage⟩
  · exact same
  · exact absurd isImage (names.apart id isTool)

/-- A number that no part has reached makes a new id. -/
theorem Own.fresh {letter : String} {length : Nat} (own : Own names index id kind)
    (below : index < length) (isLetter : letter ∈ ["t", "r", "e"]) :
    id ≠ toString letter ++ toString length := by
  rintro rfl
  have generated : Generated (toString letter ++ toString length) := by
    fin_cases isLetter
    · exact .inl ⟨length, .inl rfl⟩
    · exact .inl ⟨length, .inr (.inl rfl)⟩
    · exact .inl ⟨length, .inr (.inr rfl)⟩
  obtain ⟨head, isHead, notIn⟩ : ∃ head, letter.toList = [head] ∧ head ≠ 'i' := by
    fin_cases isLetter
    · exact ⟨'t', rfl, by decide⟩
    · exact ⟨'r', rfl, by decide⟩
    · exact ⟨'e', rfl, by decide⟩
  cases kind with
  | text => exact absurd (numbered_inj "t" isHead rfl own).2 (by omega)
  | reasoning => exact absurd (numbered_inj "r" isHead rfl own).2 (by omega)
  | error => exact absurd (numbered_inj "e" isHead rfl own).2 (by omega)
  | input =>
      obtain ⟨requestId, same⟩ := own
      have heads := head_in requestId
      rw [← same] at heads
      have isLetter := head_append [] (toString length) isHead
      exact notIn (Option.some.inj (isLetter.symm.trans heads))
  | tool => exact names.tools_named _ own generated
  | image => exact names.images_named _ own generated
  | fork => exact own.elim

/-- Every part has an id of its own kind, and no two parts the same. -/
structure Owned (names : Named) (out : List (MessagePart value)) : Prop where
  own : ∀ (index : Nat) (part : MessagePart value), out[index]? = some part →
    Own names index part.id (partKind part)
  distinct : (out.map MessagePart.id).Nodup

/-- The parts as they were, each with its id and its kind, and perhaps one more. -/
def Keeps (names : Named) (out new : List (MessagePart value)) : Prop :=
  new.map tag = out.map tag ∨
    ∃ extra, new = out ++ [extra] ∧ extra.id ∉ out.map MessagePart.id ∧
      Own names out.length extra.id (partKind extra)

/-- The events of a turn name only these tools and images. -/
structure Names (names : Named) (event : AgentEvent value) : Prop where
  tools : ∀ id ∈ event.toolIds, id ∈ names.tools
  images : ∀ id ∈ event.imageIds, id ∈ names.images

theorem map_id_eq {out new : List (MessagePart value)} (same : new.map tag = out.map tag) :
    new.map MessagePart.id = out.map MessagePart.id := by
  have ids := congrArg (List.map Prod.fst) same
  rw [List.map_map, List.map_map] at ids
  exact ids

theorem Owned.keeps {out new : List (MessagePart value)} (owned : Owned names out)
    (keeps : Keeps names out new) : Owned names new := by
  rcases keeps with same | ⟨extra, rfl, fresh, own⟩
  · constructor
    · intro index part isPart
      have isTag : (out.map tag)[index]? = some (tag part) := by
        rw [← same, List.getElem?_map, isPart]
        rfl
      rw [List.getElem?_map] at isTag
      obtain ⟨old, isOld, tags⟩ := Option.map_eq_some_iff.mp isTag
      have own := owned.own index old isOld
      rw [tag, tag, Prod.mk.injEq] at tags
      rw [← tags.1, ← tags.2]
      exact own
    · rw [map_id_eq same]
      exact owned.distinct
  · constructor
    · intro index part isPart
      rw [List.getElem?_append] at isPart
      split at isPart
      · exact owned.own index part isPart
      · rw [List.getElem?_singleton] at isPart
        split at isPart
        · rename_i _ last
          have here : index = out.length := by omega
          rw [here, ← Option.some.inj isPart]
          exact own
        · cases isPart
    · rw [List.map_append, List.map_singleton, List.nodup_append]
      refine ⟨owned.distinct, by simp, ?_⟩
      intro id inside other isOther same
      rw [List.mem_singleton.mp isOther] at same
      exact fresh (same ▸ inside)

theorem Owned.fresh {out : List (MessagePart value)} (owned : Owned names out) {letter : String}
    (isLetter : letter ∈ ["t", "r", "e"]) :
    toString letter ++ toString out.length ∉ out.map MessagePart.id := by
  intro known
  obtain ⟨part, inside, isId⟩ := List.mem_map.mp known
  obtain ⟨index, isPart⟩ := List.getElem?_of_mem inside
  have below := (List.getElem?_eq_some_iff.mp isPart).1
  exact (owned.own index part isPart).fresh below isLetter isId

/-! ## One event -/

theorem tag_refreshCall (call : ToolCall value) (part : MessagePart value) :
    tag (refreshCall call part) = tag part := by
  cases part <;> rfl

theorem tag_resolveInput (requestId : String) (part : MessagePart value) :
    tag (resolveInput requestId part) = tag part := by
  cases part with
  | input id rid questions resolved =>
      rw [resolveInput]
      split <;> rfl
  | _ => rfl

theorem tag_noteSubagent (parent : String) (status : Option SubagentStatus)
    (part : MessagePart value) : tag (noteSubagent parent status part) = tag part := by
  cases part with
  | tool id tool =>
      simp only [noteSubagent]
      repeat' split
      all_goals rfl
  | _ => rfl

theorem map_tag_map {change : MessagePart value → MessagePart value}
    (same : ∀ part, tag (change part) = tag part) (out : List (MessagePart value)) :
    (out.map change).map tag = out.map tag := by
  rw [List.map_map]
  exact List.map_congr_left fun part _ => same part

theorem map_tag_modify {out : List (MessagePart value)} {index : Nat}
    {change : MessagePart value → MessagePart value}
    (same : ∀ part, out[index]? = some part → tag (change part) = tag part) :
    (out.modify index change).map tag = out.map tag := by
  apply List.ext_getElem?
  intro place
  rw [List.getElem?_map, List.getElem?_map, List.getElem?_modify]
  cases isPart : out[place]? with
  | none => rfl
  | some part =>
      by_cases here : index = place
      · subst here
        simp [same part isPart]
      · simp [here]

namespace Inputs

variable {inputs : Inputs value} {out : List (MessagePart value)}

theorem tag_resolveTool (id : String) (isError : Bool) (diff : Option ToolDiff)
    (part : MessagePart value) : tag (inputs.resolveTool id isError diff part) = tag part := by
  cases part with
  | tool pid tool =>
      rw [resolveTool]
      split <;> rfl
  | _ => rfl

theorem keeps_numbered (owned : Owned names out) {letter : String} {extra : MessagePart value}
    (isLetter : letter ∈ ["t", "r", "e"]) (isId : extra.id = toString letter ++ toString out.length)
    (own : Own names out.length extra.id (partKind extra)) : Keeps names out (out ++ [extra]) :=
  .inr ⟨extra, rfl, isId ▸ owned.fresh isLetter, own⟩

theorem fold_keeps (owned : Owned names out) {event : AgentEvent value} (known : Names names event)
    (stays : event.resets = false) : Keeps names out (inputs.foldEventIntoParts out event) := by
  cases event with
  | sessionStarted => cases stays
  | steered => cases stays
  | textDelta text =>
      rw [foldEventIntoParts]
      split
      · rename_i id tail isLast
        left
        rw [dropLast_append_eq isLast]
        apply map_tag_modify
        intro part isPart
        rw [getElem?_last isLast] at isPart
        cases isPart
        rfl
      · exact keeps_numbered owned (by decide) rfl rfl
  | generatedImage id path name mimeType =>
      rw [foldEventIntoParts]
      have isImage := known.images id List.mem_cons_self
      split
      · rename_i index isFound
        obtain ⟨inside, isId, _⟩ := List.findIdx?_eq_some_iff_getElem.mp isFound
        left
        rw [List.set_eq_modify]
        apply map_tag_modify
        intro part isPart
        have own := owned.own index part isPart
        rw [List.getElem?_eq_getElem inside] at isPart
        rw [Option.some.inj isPart] at isId
        have sameId := eq_of_beq isId
        rw [sameId] at own
        rw [tag, tag, sameId, own.image isImage]
        rfl
      · rename_i absent
        refine .inr ⟨_, rfl, ?_, isImage⟩
        intro inside
        obtain ⟨part, isPart, isId⟩ := List.mem_map.mp inside
        have differs := List.findIdx?_eq_none_iff.mp absent part isPart
        rw [isId] at differs
        exact absurd differs (by simp [MessagePart.id])
  | reasoningDelta text =>
      rw [foldEventIntoParts]
      split
      · exact .inl rfl
      · split
        · rename_i id tail isLast
          left
          rw [dropLast_append_eq isLast]
          apply map_tag_modify
          intro part isPart
          rw [getElem?_last isLast] at isPart
          cases isPart
          rfl
        · exact keeps_numbered owned (by decide) rfl rfl
  | toolCall id call =>
      rw [foldEventIntoParts]
      have named := known.tools id List.mem_cons_self
      split
      · exact .inl (map_tag_modify fun part _ => tag_refreshCall call part)
      · rename_i absent
        refine .inr ⟨_, rfl, ?_, named⟩
        intro inside
        obtain ⟨part, isPart, isId⟩ := List.mem_map.mp inside
        obtain ⟨index, isAt⟩ := List.getElem?_of_mem isPart
        have own := owned.own index part isAt
        rw [isId] at own
        have isKind := own.tool named
        have differs := List.findIdx?_eq_none_iff.mp absent part isPart
        cases part with
        | tool pid tool =>
            change (pid == id) = false at differs
            change pid = id at isId
            rw [isId, beq_self_eq_true] at differs
            cases differs
        | _ => cases isKind
  | toolResult id isError output diff =>
      exact .inl (map_tag_map (inputs.tag_resolveTool id isError diff) out)
  | inputRequested requestId questions =>
      rw [foldEventIntoParts]
      split
      · exact .inl rfl
      · rename_i absent
        refine .inr ⟨_, rfl, ?_, requestId, rfl⟩
        intro inside
        obtain ⟨part, isPart, isId⟩ := List.mem_map.mp inside
        exact absent (List.any_eq_true.mpr ⟨part, isPart, beq_iff_eq.mpr isId⟩)
  | inputResolved requestId => exact .inl (map_tag_map (tag_resolveInput requestId) out)
  | error message => exact keeps_numbered owned (by decide) rfl rfl
  | done status message =>
      cases message with
      | none => exact .inl rfl
      | some message => exact keeps_numbered owned (by decide) rfl rfl
  | subagent parent event => exact .inl (map_tag_map (tag_noteSubagent parent _) out)
  | _ => exact .inl rfl

end Inputs

/-! ## One step -/

/-- What a step may make of a part: bodies get longer, flags are set, and a tool's call or
an image's file is refreshed. -/
inductive Refines : MessagePart value → MessagePart value → Prop
  | text (id old tail : String) : Refines (.text id old) (.text id (old ++ tail))
  | reasoning (id old tail : String) : Refines (.reasoning id old) (.reasoning id (old ++ tail))
  | tool (id : String) {old new : ToolPart value}
      (resolved : old.resolved = true → new.resolved = true) : Refines (.tool id old) (.tool id new)
  | input (id requestId : String) (questions : List UserInputQuestion) {old new : Bool}
      (resolved : old = true → new = true) :
      Refines (.input id requestId questions old) (.input id requestId questions new)
  | error (id message : String) : Refines (.error id message) (.error id message)
  | image (id : String) (old new : String × String × String) :
      Refines (.image id old.1 old.2.1 old.2.2) (.image id new.1 new.2.1 new.2.2)

theorem Becomes.refines {old new : MessagePart value} (became : Becomes old new)
    (same : partKind new = partKind old) : Refines old new := by
  cases became with
  | text id old tail => exact .text id old tail
  | reasoning id old tail => exact .reasoning id old tail
  | tool id resolved _ => exact .tool id resolved
  | input id requestId questions resolved => exact .input id requestId questions resolved
  | error id message => exact .error id message
  | image _ path name mimeType =>
      cases old with
      | image id oldPath oldName oldType =>
          exact .image id (oldPath, oldName, oldType) (path, name, mimeType)
      | _ => cases same

/-- A step of the fold: every part keeps its place, and at most one comes after them. -/
structure GrowthStep (old new : List (MessagePart value)) : Prop where
  stays : ∀ (index : Nat) (part : MessagePart value), old[index]? = some part →
    ∃ later, new[index]? = some later ∧ Refines part later
  adds : new.length ≤ old.length + 1
  distinct : (new.map MessagePart.id).Nodup

theorem growthStep {old new : List (MessagePart value)} (owned : Owned names old)
    (keeps : Keeps names old new) (grows : GrowsInto old new) : GrowthStep old new := by
  constructor
  · intro index part isPart
    obtain ⟨later, isLater, became⟩ := grows index part isPart
    refine ⟨later, isLater, became.refines ?_⟩
    rcases keeps with same | ⟨extra, rfl, _, _⟩
    · have tags : (new.map tag)[index]? = (old.map tag)[index]? := by rw [same]
      rw [List.getElem?_map, List.getElem?_map, isPart, isLater] at tags
      exact congrArg Prod.snd (Option.some.inj tags)
    · rw [List.getElem?_append_left (List.getElem?_eq_some_iff.mp isPart).1, isPart] at isLater
      rw [Option.some.inj isLater]
  · rcases keeps with same | ⟨extra, rfl, _, _⟩
    · have lengths := congrArg List.length same
      rw [List.length_map, List.length_map] at lengths
      omega
    · rw [List.length_append, List.length_singleton]
  · exact (owned.keeps keeps).distinct

namespace Inputs

variable {inputs : Inputs value}

theorem foldl_owned (inputs : Inputs value) {events : List (AgentEvent value)} (known : ∀ event ∈ events, Names names event)
    (stays : ∀ event ∈ events, event.resets = false) {out : List (MessagePart value)}
    (owned : Owned names out) (folded : ∀ part ∈ out, Folded part) :
    Owned names (events.foldl inputs.foldEventIntoParts out) ∧
      ∀ part ∈ events.foldl inputs.foldEventIntoParts out, Folded part := by
  induction events generalizing out with
  | nil => exact ⟨owned, folded⟩
  | cons event events ih =>
      have first := stays event List.mem_cons_self
      rw [List.foldl_cons]
      apply ih
      · exact fun other later => known other (List.mem_cons_of_mem _ later)
      · exact fun other later => stays other (List.mem_cons_of_mem _ later)
      · exact owned.keeps (fold_keeps owned (known event List.mem_cons_self) first)
      · exact (fold_spec folded first).folded

theorem fold_reset {event : AgentEvent value} (resets : event.resets = true)
    (out : List (MessagePart value)) : inputs.foldEventIntoParts out event = [] := by
  cases event <;> first | rfl | cases resets

/-- Between two turn boundaries every event only grows the parts. -/
theorem fold_grows {boundary : AgentEvent value} {events : List (AgentEvent value)}
    (resets : boundary.resets = true) (stays : ∀ event ∈ events, event.resets = false)
    (apart : ∀ id ∈ events.flatMap AgentEvent.toolIds, id ∉ events.flatMap AgentEvent.imageIds)
    (named : ∀ id ∈ events.flatMap AgentEvent.toolIds ++ events.flatMap AgentEvent.imageIds,
      ¬ Generated id)
    (out : List (MessagePart value)) {before after : List (AgentEvent value)}
    {event : AgentEvent value} (split : events = before ++ event :: after) :
    GrowthStep ((boundary :: before).foldl inputs.foldEventIntoParts out)
      ((boundary :: (before ++ [event])).foldl inputs.foldEventIntoParts out) := by
  let names : Named :=
    { tools := events.flatMap AgentEvent.toolIds
      images := events.flatMap AgentEvent.imageIds
      apart
      tools_named := fun id isTool => named id (List.mem_append_left _ isTool)
      images_named := fun id isImage => named id (List.mem_append_right _ isImage) }
  have known : ∀ event ∈ events, Names names event := fun event inside =>
    ⟨fun id own => List.mem_flatMap.mpr ⟨event, inside, own⟩,
      fun id own => List.mem_flatMap.mpr ⟨event, inside, own⟩⟩
  have isBefore : ∀ other ∈ before, other ∈ events := by
    intro other inside
    rw [split]
    exact List.mem_append_left _ inside
  have isEvent : event ∈ events := by
    rw [split]
    exact List.mem_append_right _ List.mem_cons_self
  have nothing : Owned names ([] : List (MessagePart value)) := ⟨by simp, List.nodup_nil⟩
  rw [List.foldl_cons, List.foldl_cons, fold_reset resets, List.foldl_concat]
  obtain ⟨owned, folded⟩ := inputs.foldl_owned
    (fun other inside => known other (isBefore other inside))
    (fun other inside => stays other (isBefore other inside)) nothing (by simp)
  exact growthStep owned (fold_keeps owned (known event isEvent) (stays event isEvent))
    (fold_spec folded (stays event isEvent)).grows

/-- Libraries that read and count nothing. -/
def sampleInputs : Inputs Unit where
  field _ _ := none
  object _ := ()
  changes _ _ := (0, 0)
  lines _ := 0

theorem fold_grows_reply :
    GrowthStep
      (([.steered, .textDelta "a", .toolCall "call-1" (.exec "ls"),
        .generatedImage "shot" "p" "n" "m", .toolResult "call-1" false none none] :
          List (AgentEvent Unit)).foldl sampleInputs.foldEventIntoParts [])
      ([.steered, .textDelta "a", .toolCall "call-1" (.exec "ls"),
        .generatedImage "shot" "p" "n" "m", .toolResult "call-1" false none none,
        .textDelta "b"].foldl sampleInputs.foldEventIntoParts []) := by
  have named : ∀ id ∈ ["call-1", "shot"], ¬ Generated id := by
    intro id inside generated
    have heads := head_generated generated
    fin_cases inside <;> revert heads <;> decide
  exact @fold_grows Unit sampleInputs .steered
    [.textDelta "a", .toolCall "call-1" (.exec "ls"), .generatedImage "shot" "p" "n" "m",
      .toolResult "call-1" false none none, .textDelta "b"] rfl (by simp [AgentEvent.resets])
    (by decide) named []
    [.textDelta "a", .toolCall "call-1" (.exec "ls"), .generatedImage "shot" "p" "n" "m",
      .toolResult "call-1" false none none] [] (.textDelta "b") rfl

end Inputs

end Zeron.Doc
