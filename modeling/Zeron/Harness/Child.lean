import Zeron.Data.Runs
import Zeron.Harness.Codex

namespace Zeron.Harness.Codex

open Zeron.Data
open Zeron.Doc (DoneStatus)

/-! # A child's transcript gets each message once

A thread is what the stream holds, what the notifications said so far and what was emitted for
each of them.  A notification is a new one or the replay of an earlier one.
-/

variable {stream : ChildStream} {child method id turn : String} {params item : Json}

inductive Notice where
  | turnStarted (turn : String)
  | turnEnded (turn : String)
  | started (item : Json)
  | completed (item : Json)
  | delta (item : String) (text : List Char)
  | closed
  | other
deriving DecidableEq

def itemOf (params : Json) : Json := (get params "item").getD .null

def noticeOf (method : String) (params : Json) : Notice :=
  match method with
  | "turn/started" => .turnStarted (turnId params)
  | "item/started" => .started (itemOf params)
  | "item/completed" => .completed (itemOf params)
  | "item/agentMessage/delta" =>
      .delta (itemId params) (((deltaText params).map String.toList).getD [])
  | "turn/completed" | "turn/failed" | "turn/aborted" => .turnEnded (turnId params)
  | "thread/closed" => .closed
  | _ => .other

structure Note where
  method : String
  params : Json
  replay : Bool
deriving DecidableEq

def Note.notice (note : Note) : Notice := noticeOf note.method note.params

def itemKey (item : Json) : String := strField item ["id"]

def messageText (item : Json) : List Char := (strField item ["text"]).toList

/-- What the notifications said: the turns that are open, the deltas of items that are not complete
and whether they were heard in a turn that is over. -/
structure Ledger where
  turns : List String
  ended : List String
  completed : List String
  heard : String → Option (List Char)
  stale : String → Bool
  messages : List (String × List Char)
  seen : List (String × Json)

def Ledger.start : Ledger := ⟨[], [], [], fun _ => none, fun _ => false, [], []⟩

def addId (ids : List String) (id : String) : List String :=
  if id = "" ∨ id ∈ ids then ids else ids ++ [id]

def Ledger.hear (ledger : Ledger) : Notice → Ledger
  | .turnStarted turn => { ledger with turns := ledger.turns ++ [turn] }
  | .turnEnded turn =>
      let turns := ledger.turns.erase turn
      { ledger with
        turns
        ended := ledger.ended ++ [turn]
        heard := if turns = [] then fun _ => none else ledger.heard
        stale := if turns = [] then fun id => ledger.stale id || (ledger.heard id).isSome
          else ledger.stale }
  | .completed item =>
      let id := itemKey item
      let completed := addId ledger.completed id
      if isAgentMessage item then
        { ledger with
          completed
          messages := ledger.messages ++ [(id, messageText item)]
          heard := Function.update ledger.heard id none }
      else { ledger with completed }
  | .delta id text =>
      { ledger with
        heard := Function.update ledger.heard id (some ((ledger.heard id).getD [] ++ text)) }
  | .started _ | .closed | .other => ledger

def Ledger.note (ledger : Ledger) (note : Note) : Ledger :=
  if note.replay then ledger
  else { ledger.hear note.notice with seen := ledger.seen ++ [(note.method, note.params)] }

structure Thread where
  stream : ChildStream
  ledger : Ledger
  log : List (Note × List AgentEvent)

def Thread.start : Thread := ⟨.start, .start, []⟩

def Thread.step (child : String) (thread : Thread) (note : Note) : Option Thread :=
  let mapped := thread.stream.map child note.method note.params
  some ⟨mapped.1, thread.ledger.note note, thread.log ++ [(note, mapped.2)]⟩

/-! ## What was emitted -/

def textsOf (events : List AgentEvent) : List Char :=
  events.flatMap fun event =>
    match event with
    | .textDelta text => text.toList
    | _ => []

def isDone : AgentEvent → Bool
  | .done _ _ _ _ => true
  | _ => false

def isAbout (id : String) : Notice → Bool
  | .delta item _ => item == id
  | .completed item => itemKey item == id
  | _ => false

/-- The text emitted for an item. -/
def textFor (id : String) (log : List (Note × List AgentEvent)) : List Char :=
  log.flatMap fun entry => if isAbout id entry.1.notice then textsOf entry.2 else []

/-- The turns a `Done` was emitted for. -/
def donesOf (log : List (Note × List AgentEvent)) : List String :=
  log.flatMap fun entry => (entry.2.filter isDone).map fun _ => turnId entry.1.params

/-! ## Notifications in order -/

/-- A turn is started before it ends, a message has an id of its own and its deltas come before it
in one turn and make up its text, or nothing; there are at most 256 items and turns, and what is
replayed was said before. -/
def InOrder (thread : Thread) (note : Note) : Prop :=
  let ledger := thread.ledger
  if note.replay then
    (note.method, note.params) ∈ ledger.seen ∧ note.notice ≠ .other ∧ note.notice ≠ .closed
  else
    match note.notice with
    | .turnStarted turn => turn = "" ∨ turn ∉ ledger.turns ∧ turn ∉ ledger.ended
    | .turnEnded turn => turn ∈ ledger.turns ∧ ledger.ended.length < 256
    | .completed item =>
        (addId ledger.completed (itemKey item)).length ≤ 256 ∧
          (isAgentMessage item = true →
            itemKey item ≠ "" ∧ itemKey item ∉ ledger.completed ∧ ledger.turns ≠ [] ∧
              ledger.stale (itemKey item) = false ∧
              ledger.heard (itemKey item) ∈ [none, some (messageText item), some []])
    | .delta id _ => ledger.turns ≠ [] ∧ id ∉ ledger.messages.map (·.1)
    | .started _ | .other => True
    | .closed => False

/-- Turns do not overlap, the deltas of a message with a text are not all empty, and a replay says
what was done with: a delta of a completed item, a start that opens no tool call, or anything of
a kind the settled child does not take; replayed items and turns have ids. -/
def Tame (thread : Thread) (note : Note) : Prop :=
  if note.replay then
    match note.notice with
    | .turnStarted turn | .turnEnded turn => turn ≠ ""
    | .started item => thread.stream.settled = true ∨ mapItem .started item = []
    | .completed item => itemKey item ≠ ""
    | .delta id _ => thread.stream.settled = true ∨ id ∈ thread.ledger.completed
    | .closed | .other => True
  else
    match note.notice with
    | .turnStarted _ => thread.ledger.turns = []
    | .completed item =>
        isAgentMessage item = true → messageText item ≠ [] →
          thread.ledger.heard (itemKey item) ≠ some []
    | _ => True

/-! ## What a notification does -/

/-- The method a notice comes from, and what it takes of the parameters. -/
theorem noticeOf_spec (method : String) (params : Json) :
    match noticeOf method params with
    | .turnStarted turn => method = "turn/started" ∧ turnId params = turn
    | .started item => method = "item/started" ∧ itemOf params = item
    | .completed item => method = "item/completed" ∧ itemOf params = item
    | .delta id text =>
        method = "item/agentMessage/delta" ∧ itemId params = id ∧
          ((deltaText params).map String.toList).getD [] = text
    | .turnEnded turn =>
        method ∈ ["turn/completed", "turn/failed", "turn/aborted"] ∧ turnId params = turn
    | .closed => method = "thread/closed"
    | .other =>
        method ∉ ["turn/started", "item/started", "item/completed", "item/agentMessage/delta",
          "turn/completed", "turn/failed", "turn/aborted", "thread/closed"] := by
  generalize notice : noticeOf method params = said
  unfold noticeOf at notice
  split at notice <;> cases notice
  · exact ⟨rfl, rfl⟩
  · exact ⟨rfl, rfl⟩
  · exact ⟨rfl, rfl⟩
  · exact ⟨rfl, rfl, rfl⟩
  · exact ⟨by decide, rfl⟩
  · exact ⟨by decide, rfl⟩
  · exact ⟨by decide, rfl⟩
  · rfl
  · simp_all

theorem map_turnStarted (notice : noticeOf method params = .turnStarted turn) :
    stream.map child method params = stream.turnStarted params ∧ turnId params = turn := by
  have said := noticeOf_spec method params
  rw [notice] at said
  obtain ⟨rfl, same⟩ := said
  exact ⟨rfl, same⟩

theorem map_started (notice : noticeOf method params = .started item) :
    stream.map child method params = stream.newItem .started item := by
  have said := noticeOf_spec method params
  rw [notice] at said
  obtain ⟨rfl, rfl⟩ := said
  rfl

theorem map_completed (notice : noticeOf method params = .completed item) :
    stream.map child method params =
      if (remember stream.completedItems (itemKey item)).2 then
        { stream with completedItems := (remember stream.completedItems (itemKey item)).1 }.newItem
          .completed item
      else (stream, []) := by
  have said := noticeOf_spec method params
  rw [notice] at said
  obtain ⟨rfl, rfl⟩ := said
  rfl

theorem map_turnEnded (notice : noticeOf method params = .turnEnded turn) :
    (stream.map child method params =
        if stream.settled then (stream, []) else stream.finish child method params) ∧
      turnId params = turn ∧ method ≠ "thread/closed" := by
  have said := noticeOf_spec method params
  rw [notice] at said
  obtain ⟨among, same⟩ := said
  simp only [List.mem_cons, List.not_mem_nil, or_false] at among
  rcases among with rfl | rfl | rfl
  all_goals exact ⟨rfl, same, by decide⟩

theorem map_delta {text : List Char} (notice : noticeOf method params = .delta id text) :
    (stream.map child method params = if stream.settled then (stream, []) else stream.delta params) ∧
      itemId params = id ∧ ((deltaText params).map String.toList).getD [] = text := by
  have said := noticeOf_spec method params
  rw [notice] at said
  obtain ⟨rfl, same, heard⟩ := said
  exact ⟨rfl, same, heard⟩

def isPlain : AgentEvent → Bool
  | .textDelta _ | .done _ _ _ _ => false
  | _ => true

/-- Events that are neither text nor the end of a turn. -/
def Wordless (events : List AgentEvent) : Prop := events.all isPlain = true

theorem wordless_nil : Wordless [] := rfl

theorem Wordless.textsOf {events : List AgentEvent} (plain : Wordless events) :
    textsOf events = [] := by
  apply List.flatMap_eq_nil_iff.mpr
  intro event member
  have unsaid := List.all_eq_true.mp plain event member
  cases event <;> first | rfl | cases unsaid

theorem Wordless.dones {events : List AgentEvent} (plain : Wordless events) :
    events.filter isDone = [] := by
  apply List.filter_eq_nil_iff.mpr
  intro event member
  have unsaid := List.all_eq_true.mp plain event member
  cases event <;> first | exact Bool.false_ne_true | cases unsaid

theorem reasoning_wordless (reasoning : ReasoningStream) (method : String) (params : Json) :
    Wordless (reasoning.map method params).2 := by
  have gap : ∀ missing : Nat, Wordless (if 0 < missing then
      [.reasoningDelta (String.ofList (List.replicate missing '\n'))] else []) := by
    intro missing
    split <;> rfl
  unfold ReasoningStream.map
  dsimp only
  split
  · exact wordless_nil
  · split
    · exact wordless_nil
    · rw [Wordless, List.all_append, Bool.and_eq_true]
      exact ⟨gap _, rfl⟩

theorem map_other (notice : noticeOf method params = .other) :
    ∃ reasoning, (stream.map child method params).1 = { stream with reasoning } ∧
      Wordless (stream.map child method params).2 := by
  have said := noticeOf_spec method params
  rw [notice] at said
  simp only [List.mem_cons, List.not_mem_nil, or_false, not_or] at said
  obtain ⟨unstarted, unitem, uncompleted, undelta, unended, unfailed, unaborted, unclosed⟩ := said
  unfold ChildStream.map
  rw [if_neg (fun same => unstarted same), if_neg (fun same => unitem same),
    if_neg (fun same => uncompleted same)]
  split
  · exact ⟨stream.reasoning, rfl, wordless_nil⟩
  · split
    · exact absurd rfl undelta
    · exact ⟨_, rfl, reasoning_wordless _ _ _⟩
    · exact ⟨_, rfl, reasoning_wordless _ _ _⟩
    · exact ⟨_, rfl, reasoning_wordless _ _ _⟩
    · exact absurd rfl unended
    · exact absurd rfl unfailed
    · exact absurd rfl unaborted
    · exact absurd rfl unclosed
    · exact ⟨stream.reasoning, rfl, rfl⟩
    · exact ⟨stream.reasoning, rfl, wordless_nil⟩

theorem toolLifecycle_wordless (phase : Phase) (id : String) (call : ToolCall) (isError : Bool) :
    Wordless (toolLifecycle phase id call isError) := by
  cases phase <;> rfl

theorem imageItem_wordless (phase : Phase) (item : Json) : Wordless (imageItem phase item) := by
  cases phase with
  | started => rfl
  | completed =>
      unfold imageItem
      dsimp only
      split <;> rfl

theorem mapItem_wordless (phase : Phase) (item : Json) : Wordless (mapItem phase item) := by
  unfold mapItem
  split
  · exact imageItem_wordless phase item
  · exact imageItem_wordless phase item
  · cases phase <;> rfl
  · cases phase <;> rfl
  · exact toolLifecycle_wordless _ _ _ _
  · exact toolLifecycle_wordless _ _ _ _
  · cases phase <;> rfl
  · cases phase <;> rfl
  · exact toolLifecycle_wordless _ _ _ _
  · exact toolLifecycle_wordless _ _ _ _
  · exact toolLifecycle_wordless _ _ _ _
  · exact toolLifecycle_wordless _ _ _ _
  · rfl
  · exact toolLifecycle_wordless _ _ _ _
  · exact toolLifecycle_wordless _ _ _ _
  · unfold activityItem
    split
    · exact toolLifecycle_wordless _ _ _ _
    · exact wordless_nil
  · unfold activityItem
    split
    · exact toolLifecycle_wordless _ _ _ _
    · exact wordless_nil
  · exact wordless_nil

/-! ## The log -/

section log

variable {log : List (Note × List AgentEvent)} {note : Note} {events : List AgentEvent}

theorem textFor_concat (id : String) (log : List (Note × List AgentEvent)) (note : Note)
    (events : List AgentEvent) :
    textFor id (log ++ [(note, events)]) =
      textFor id log ++ if isAbout id note.notice then textsOf events else [] := by
  simp [textFor]

theorem donesOf_concat (log : List (Note × List AgentEvent)) (note : Note)
    (events : List AgentEvent) :
    donesOf (log ++ [(note, events)]) =
      donesOf log ++ (events.filter isDone).map fun _ => turnId note.params := by
  simp [donesOf]

theorem textFor_plain (plain : Wordless events) (id : String) :
    textFor id (log ++ [(note, events)]) = textFor id log := by
  rw [textFor_concat, plain.textsOf]
  simp

theorem textFor_other (other : isAbout id note.notice = false) :
    textFor id (log ++ [(note, events)]) = textFor id log := by
  rw [textFor_concat, other]
  simp

theorem donesOf_plain (plain : events.filter isDone = []) :
    donesOf (log ++ [(note, events)]) = donesOf log := by
  rw [donesOf_concat, plain]
  simp

end log

/-! ## What holds of every thread -/

/-- What was said is among the turns and items of the ledger. -/
def Said (ledger : Ledger) : Notice → Prop
  | .turnStarted turn => turn ∈ ledger.ended ∨ turn ∈ ledger.turns
  | .turnEnded turn => turn ∈ ledger.ended
  | .completed item => itemKey item = "" ∨ itemKey item ∈ ledger.completed
  | _ => True

structure Tells (thread : Thread) : Prop where
  items : thread.stream.completedItems = thread.ledger.completed
  turns : thread.stream.completedTurns = thread.ledger.ended.filter (· ≠ "")
  shortItems : thread.ledger.completed.length ≤ 256
  shortTurns : thread.ledger.ended.length ≤ 256
  named : "" ∉ thread.ledger.completed
  single : thread.ledger.turns.length ≤ 1
  running : ∀ turn ∈ thread.ledger.turns, turn = "" ∨ turn ∉ thread.ledger.ended
  unsettled : thread.ledger.turns ≠ [] → thread.stream.settled = false
  streamed : ∀ id, id ∉ thread.ledger.completed →
    (id ∈ thread.stream.streamedText ↔ (thread.ledger.heard id).isSome = true)
  heard : ∀ id, id ∉ thread.ledger.completed → thread.ledger.stale id = false →
    textFor id thread.log = (thread.ledger.heard id).getD []
  messages : ∀ id text, (id, text) ∈ thread.ledger.messages →
    id ∈ thread.ledger.completed ∧ textFor id thread.log = text ++ ['\n', '\n']
  dones : donesOf thread.log = thread.ledger.ended
  said : ∀ method params, (method, params) ∈ thread.ledger.seen →
    Said thread.ledger (noticeOf method params)

theorem tells_start : Tells Thread.start where
  items := rfl
  turns := rfl
  shortItems := Nat.zero_le _
  shortTurns := Nat.zero_le _
  named := by simp [Thread.start, Ledger.start]
  single := Nat.zero_le _
  running := by simp [Thread.start, Ledger.start]
  unsettled := by simp [Thread.start, Ledger.start]
  streamed := by simp [Thread.start, Ledger.start, ChildStream.start]
  heard := by simp [Thread.start, Ledger.start, textFor]
  messages := by simp [Thread.start, Ledger.start]
  dones := rfl
  said := by simp [Thread.start, Ledger.start]

theorem mem_addId {ids : List String} {other : String} :
    other ∈ addId ids id ↔ other ∈ ids ∨ id ≠ "" ∧ other = id := by
  rw [addId]
  by_cases empty : id = ""
  · simp [empty]
  · by_cases held : id ∈ ids
    · simp only [held, or_true, if_true, empty, ne_eq, not_false_eq_true, true_and]
      constructor
      · exact .inl
      · rintro (old | rfl)
        · exact old
        · exact held
    · simp [empty, held]

theorem said_hear {ledger : Ledger} {old : Notice} (said : Said ledger old) (notice : Notice) :
    Said (ledger.hear notice) old := by
  have completed : ∀ other, other ∈ ledger.completed → other ∈ (ledger.hear notice).completed := by
    intro other member
    cases notice with
    | completed item =>
        rw [Ledger.hear]
        split <;> exact mem_addId.mpr (.inl member)
    | _ => exact member
  have ended : ∀ other, other ∈ ledger.ended → other ∈ (ledger.hear notice).ended := by
    intro other member
    cases notice with
    | turnEnded turn => exact List.mem_append_left _ member
    | completed item =>
        rw [Ledger.hear]
        split <;> exact member
    | _ => exact member
  have turns : ∀ other, other ∈ ledger.turns →
      other ∈ (ledger.hear notice).ended ∨ other ∈ (ledger.hear notice).turns := by
    intro other member
    cases notice with
    | turnStarted turn => exact .inr (List.mem_append_left _ member)
    | turnEnded turn =>
        by_cases same : other = turn
        · subst same
          exact .inl (List.mem_append_right _ List.mem_cons_self)
        · exact .inr ((List.mem_erase_of_ne same).mpr member)
    | completed item =>
        rw [Ledger.hear]
        split <;> exact .inr member
    | _ => exact .inr member
  cases old with
  | turnStarted turn =>
      rcases said with past | running
      · exact .inl (ended _ past)
      · exact turns _ running
  | turnEnded turn => exact ended _ said
  | completed item => exact said.imp_right (completed _)
  | _ => trivial

/-- A notification has been said once it was heard. -/
theorem said_of_hear (ledger : Ledger) (notice : Notice) : Said (ledger.hear notice) notice := by
  cases notice with
  | turnStarted turn => exact .inr (List.mem_append_right _ List.mem_cons_self)
  | turnEnded turn => exact List.mem_append_right _ List.mem_cons_self
  | completed item =>
      by_cases empty : itemKey item = ""
      · exact .inl empty
      · right
        rw [Ledger.hear]
        split <;> exact mem_addId.mpr (.inr ⟨empty, rfl⟩)
  | _ => trivial

section steps

variable {thread : Thread} {note : Note}

/-- A replay changes nothing and emits nothing. -/
theorem replay_silent (tells : Tells thread) (replay : note.replay = true)
    (ordered : InOrder thread note) (tame : Tame thread note) :
    thread.stream.map child note.method note.params = (thread.stream, []) := by
  rw [InOrder, if_pos replay] at ordered
  rw [Tame, if_pos replay] at tame
  have said := tells.said _ _ ordered.1
  change Said thread.ledger note.notice at said
  cases notice : note.notice with
  | turnStarted turn =>
      rw [notice] at said tame
      obtain ⟨mapped, same⟩ := @map_turnStarted thread.stream child _ _ _ notice
      rw [mapped, ChildStream.turnStarted, same]
      rcases said with past | running
      · have held : turn ∈ thread.stream.completedTurns := by
          rw [tells.turns]
          exact List.mem_filter.mpr ⟨past, by simpa using tame⟩
        rw [if_pos ⟨tame, held⟩]
      · have unsettled := tells.unsettled (List.ne_nil_of_mem running)
        simp [unsettled]
  | turnEnded turn =>
      rw [notice] at said tame
      obtain ⟨mapped, same, unclosed⟩ := @map_turnEnded thread.stream child _ _ _ notice
      have held : turn ∈ thread.stream.completedTurns := by
        rw [tells.turns]
        exact List.mem_filter.mpr ⟨said, by simpa using tame⟩
      have known : remember thread.stream.completedTurns turn =
          (thread.stream.completedTurns, false) := by
        rw [remember, if_neg tame, if_pos held]
      rw [mapped, ChildStream.finish, if_neg unclosed, same, known]
      simp
  | started item =>
      rw [notice] at tame
      rw [map_started notice, ChildStream.newItem]
      split
      · rfl
      · split
        · rfl
        · rename_i unsettled
          split
          · rfl
          · rw [tame.resolve_left unsettled]
  | completed item =>
      rw [notice] at said tame
      have held : itemKey item ∈ thread.stream.completedItems := by
        rw [tells.items]
        exact said.resolve_left tame
      have known : remember thread.stream.completedItems (itemKey item) =
          (thread.stream.completedItems, false) := by
        rw [remember, if_neg tame, if_pos held]
      rw [map_completed notice, known]
      rfl
  | delta id text =>
      rw [notice] at tame
      obtain ⟨mapped, same, -⟩ := @map_delta thread.stream child _ _ _ _ notice
      rw [mapped]
      split
      · rfl
      · rename_i unsettled
        have listed := tame.resolve_left unsettled
        have nonempty : id ≠ "" := by
          rintro rfl
          exact tells.named listed
        rw [ChildStream.delta, same, if_pos ⟨nonempty, by rw [tells.items]; exact listed⟩]
  | closed => exact absurd notice ordered.2.2
  | other => exact absurd notice ordered.2.1

theorem note_replay (ledger : Ledger) (replay : note.replay = true) : ledger.note note = ledger := by
  rw [Ledger.note, if_pos replay]

theorem note_new (ledger : Ledger) (new : note.replay = false) :
    ledger.note note =
      { ledger.hear note.notice with seen := ledger.seen ++ [(note.method, note.params)] } := by
  rw [Ledger.note, new]
  rfl

theorem said_note (tells : Tells thread) (new : note.replay = false) (method : String)
    (params : Json) (listed : (method, params) ∈ (thread.ledger.note note).seen) :
    Said (thread.ledger.note note) (noticeOf method params) := by
  have unseen : ∀ (ledger : Ledger) (seen : List (String × Json)) (old : Notice),
      Said ledger old → Said { ledger with seen } old := by
    intro ledger seen old said
    cases old <;> exact said
  rw [note_new _ new] at listed ⊢
  apply unseen
  rcases List.mem_append.mp listed with early | now
  · exact said_hear (tells.said _ _ early) _
  · rw [List.mem_singleton] at now
    cases now
    exact said_of_hear _ _

theorem tells_replay (tells : Tells thread) (replay : note.replay = true) :
    Tells ⟨thread.stream, thread.ledger.note note, thread.log ++ [(note, [])]⟩ := by
  rw [note_replay _ replay]
  exact { tells with
    heard := fun id fresh current => by
      rw [textFor_plain wordless_nil]
      exact tells.heard id fresh current
    messages := fun id text listed => by
      rw [textFor_plain wordless_nil]
      exact tells.messages id text listed
    dones := (donesOf_plain rfl).trans tells.dones }

/-- Notifications that only reach the reasoning or a tool. -/
theorem tells_quiet (tells : Tells thread) (new : note.replay = false)
    (quiet : ∀ ledger : Ledger, ledger.hear note.notice = ledger) {reasoning : ReasoningStream}
    {events : List AgentEvent} (plain : Wordless events) :
    Tells ⟨{ thread.stream with reasoning }, thread.ledger.note note,
      thread.log ++ [(note, events)]⟩ := by
  have said := said_note tells new
  rw [note_new _ new, quiet] at said ⊢
  exact { tells with
    heard := fun id fresh current => by
      rw [textFor_plain plain]
      exact tells.heard id fresh current
    messages := fun id text listed => by
      rw [textFor_plain plain]
      exact tells.messages id text listed
    dones := (donesOf_plain plain.dones).trans tells.dones
    said := said }

theorem tells_turnStarted (tells : Tells thread) (new : note.replay = false)
    (ordered : InOrder thread note) (tame : Tame thread note)
    (notice : note.notice = .turnStarted turn) :
    Tells ⟨(thread.stream.map child note.method note.params).1, thread.ledger.note note,
      thread.log ++ [(note, (thread.stream.map child note.method note.params).2)]⟩ := by
  have said := said_note tells new
  simp only [InOrder, Tame, new, notice, Bool.false_eq_true, if_false] at ordered tame
  obtain ⟨mapped, same⟩ := @map_turnStarted thread.stream child _ _ _ notice
  have opened : ∃ events, thread.stream.map child note.method note.params =
      ({ thread.stream with settled := false }, events) ∧ Wordless events := by
    have unknown : ¬ (turn ≠ "" ∧ turn ∈ thread.stream.completedTurns) := by
      rintro ⟨named, held⟩
      rw [tells.turns] at held
      rcases ordered with empty | ⟨-, fresh⟩
      · exact named empty
      · exact fresh (List.mem_filter.mp held).1
    rw [mapped, ChildStream.turnStarted, same, if_neg unknown]
    cases settled : thread.stream.settled with
    | true => exact ⟨_, rfl, rfl⟩
    | false =>
        have same : { thread.stream with settled := false } = thread.stream := by rw [← settled]
        rw [same]
        exact ⟨[], rfl, wordless_nil⟩
  obtain ⟨events, mapped, plain⟩ := opened
  rw [note_new _ new, notice] at said ⊢
  rw [mapped]
  exact { tells with
    single := by simp [Ledger.hear, tame]
    running := fun other member => by
      change other ∈ thread.ledger.turns ++ [turn] at member
      rw [tame, List.nil_append, List.mem_singleton] at member
      subst member
      exact ordered.imp_right fun both => both.2
    unsettled := fun _ => rfl
    heard := fun id fresh current => by
      rw [textFor_plain plain]
      exact tells.heard id fresh current
    messages := fun id text listed => by
      rw [textFor_plain plain]
      exact tells.messages id text listed
    dones := (donesOf_plain plain.dones).trans tells.dones
    said := said }

theorem tells_turnEnded (tells : Tells thread) (new : note.replay = false)
    (ordered : InOrder thread note) (notice : note.notice = .turnEnded turn) :
    Tells ⟨(thread.stream.map child note.method note.params).1, thread.ledger.note note,
      thread.log ++ [(note, (thread.stream.map child note.method note.params).2)]⟩ := by
  have said := said_note tells new
  simp only [InOrder, new, notice, Bool.false_eq_true, if_false] at ordered
  obtain ⟨running, short⟩ := ordered
  obtain ⟨mapped, same, unclosed⟩ := @map_turnEnded thread.stream child _ _ _ notice
  have alone : thread.ledger.turns.erase turn = [] := by
    apply List.eq_nil_of_length_eq_zero
    rw [List.length_erase_of_mem running]
    have single := tells.single
    omega
  have known : remember thread.stream.completedTurns turn =
      ((thread.ledger.ended ++ [turn]).filter (· ≠ ""), true) := by
    rw [remember, tells.turns, List.filter_append]
    by_cases empty : turn = ""
    · simp [empty]
    · have fresh := (tells.running turn running).resolve_left empty
      have length : (thread.ledger.ended.filter (· ≠ "")).length ≠ 256 := by
        have shorter := List.length_filter_le (fun turn => decide (turn ≠ "")) thread.ledger.ended
        omega
      rw [if_neg empty, if_neg (fun held => fresh (List.mem_filter.mp held).1), if_neg length]
      simp [empty]
  have finished : ∃ event, isDone event = true ∧ thread.stream.map child note.method note.params =
      ({ thread.stream with
        completedTurns := (thread.ledger.ended ++ [turn]).filter (· ≠ "")
        settled := true
        streamedText := [] }, [event]) := by
    have unsettled := tells.unsettled (List.ne_nil_of_mem running)
    rw [mapped, unsettled, ChildStream.finish, if_neg unclosed, same, known]
    exact ⟨_, rfl, rfl⟩
  obtain ⟨event, done, mapped⟩ := finished
  have unsaid : ∀ id, isAbout id note.notice = false := by
    intro id
    rw [notice]
    rfl
  have hears : thread.ledger.note note =
      { thread.ledger with
        turns := []
        ended := thread.ledger.ended ++ [turn]
        heard := fun _ => none
        stale := fun id => thread.ledger.stale id || (thread.ledger.heard id).isSome
        seen := thread.ledger.seen ++ [(note.method, note.params)] } := by
    rw [note_new _ new, notice, Ledger.hear]
    simp only [alone, if_true]
  rw [hears] at said ⊢
  rw [mapped]
  exact { tells with
    turns := rfl
    shortTurns := by
      rw [List.length_append]
      exact short
    single := Nat.zero_le _
    running := by simp
    unsettled := fun contrary => absurd rfl contrary
    streamed := by simp
    heard := fun id fresh current => by
      rw [textFor_other (unsaid id)]
      simp only [Bool.or_eq_false_iff, Option.isSome_eq_false_iff, Option.isNone_iff_eq_none]
        at current
      rw [tells.heard id fresh current.1, current.2]
    messages := fun id text listed => by
      rw [textFor_other (unsaid id)]
      exact tells.messages id text listed
    dones := by
      rw [donesOf_concat, tells.dones, List.filter_cons_of_pos done, same]
      rfl
    said := said }

theorem remember_new (tells : Tells thread) (fresh : id ∉ thread.ledger.completed)
    (short : (addId thread.ledger.completed id).length ≤ 256) :
    remember thread.stream.completedItems id = (addId thread.ledger.completed id, true) := by
  rw [remember, tells.items]
  rw [addId] at short ⊢
  by_cases empty : id = ""
  · simp [empty]
  · have apart : ¬ (id = "" ∨ id ∈ thread.ledger.completed) := by simp [empty, fresh]
    rw [if_neg apart, List.length_append] at short
    have room : thread.ledger.completed.length ≠ 256 := by
      have one : [id].length = 1 := rfl
      omega
    rw [if_neg apart, if_neg empty, if_neg fresh, if_neg room]

/-- What the end of a message emits. -/
theorem newItem_message (unsettled : stream.settled = false) (message : isAgentMessage item = true) :
    stream.newItem .completed item =
      ({ stream with streamedText := stream.streamedText.filter (· ≠ itemKey item) },
        (if itemKey item ∈ stream.streamedText ∨ strField item ["text"] = "" then []
          else [.textDelta (strField item ["text"])]) ++ [.textDelta "\n\n"]) := by
  have unuser : isUserMessage item = false := by
    simp only [isAgentMessage, Bool.or_eq_true, beq_iff_eq] at message
    rcases message with kind | kind <;> simp [isUserMessage, kind]
  unfold ChildStream.newItem
  rw [if_neg (by simp [unuser]), if_neg (by simp [unsettled]), if_pos message]
  rfl

/-- A message whose text was not heard is told at its end. -/
theorem tells_message (tells : Tells thread) (new : note.replay = false)
    (ordered : InOrder thread note) (tame : Tame thread note)
    (notice : note.notice = .completed item) (message : isAgentMessage item = true) :
    Tells ⟨(thread.stream.map child note.method note.params).1, thread.ledger.note note,
      thread.log ++ [(note, (thread.stream.map child note.method note.params).2)]⟩ := by
  have said := said_note tells new
  simp only [InOrder, Tame, new, notice, Bool.false_eq_true, if_false] at ordered tame
  obtain ⟨short, own⟩ := ordered
  obtain ⟨named, fresh, running, current, heard⟩ := own message
  have unsettled := tells.unsettled running
  have mapped := @map_completed thread.stream child _ _ _ notice
  rw [remember_new tells fresh short, if_pos rfl] at mapped
  have ended := @newItem_message
    { thread.stream with completedItems := addId thread.ledger.completed (itemKey item) } item
    unsettled message
  rw [mapped, ended]
  have told : textFor (itemKey item) thread.log ++
      textsOf ((if itemKey item ∈ thread.stream.streamedText ∨ strField item ["text"] = "" then []
        else [AgentEvent.textDelta (strField item ["text"])]) ++ [.textDelta "\n\n"]) =
      messageText item ++ ['\n', '\n'] := by
    have streamed := tells.streamed (itemKey item) fresh
    have before := tells.heard (itemKey item) fresh current
    cases hearing : thread.ledger.heard (itemKey item) with
    | none =>
        have unstreamed : itemKey item ∉ thread.stream.streamedText := by
          rw [streamed, hearing]
          simp
        rw [before, hearing]
        by_cases empty : strField item ["text"] = ""
        · simp [empty, messageText, textsOf]
        · simp [unstreamed, empty, messageText, textsOf]
    | some text =>
        have listed : itemKey item ∈ thread.stream.streamedText := by
          rw [streamed, hearing]
          rfl
        have whole : text = messageText item := by
          rw [hearing] at heard tame
          simp only [List.mem_cons, Option.some.injEq, reduceCtorEq, List.not_mem_nil, or_false,
            false_or] at heard
          rcases heard with same | empty
          · exact same
          · by_contra apart
            rw [empty] at apart
            exact tame message (Ne.symm apart) (by rw [empty])
        rw [before, hearing, if_pos (.inl listed), whole]
        rfl
  have hears : thread.ledger.note note =
      { thread.ledger with
        completed := addId thread.ledger.completed (itemKey item)
        messages := thread.ledger.messages ++ [(itemKey item, messageText item)]
        heard := Function.update thread.ledger.heard (itemKey item) none
        seen := thread.ledger.seen ++ [(note.method, note.params)] } := by
    rw [note_new _ new, notice, Ledger.hear]
    simp only [message, if_true]
  rw [hears] at said ⊢
  have unsaid : ∀ id, id ≠ itemKey item → isAbout id note.notice = false := by
    intro id apart
    rw [notice]
    simpa [isAbout] using apart.symm
  exact { tells with
    items := rfl
    shortItems := short
    named := by
      rw [mem_addId]
      rintro (old | ⟨-, empty⟩)
      · exact tells.named old
      · exact named empty.symm
    streamed := fun id other => by
      rw [mem_addId] at other
      have apart : id ≠ itemKey item := fun same => other (.inr ⟨named, same⟩)
      have old := tells.streamed id fun held => other (.inl held)
      simp [apart, old]
    heard := fun id other current => by
      rw [mem_addId] at other
      have apart : id ≠ itemKey item := fun same => other (.inr ⟨named, same⟩)
      rw [textFor_other (unsaid id apart)]
      change _ = (Function.update thread.ledger.heard (itemKey item) none id).getD []
      rw [Function.update_of_ne apart]
      exact tells.heard id (fun held => other (.inl held)) current
    messages := fun id text listed => by
      rcases List.mem_append.mp listed with old | now
      · obtain ⟨held, kept⟩ := tells.messages id text old
        have apart : id ≠ itemKey item := by
          rintro rfl
          exact fresh held
        rw [textFor_other (unsaid id apart)]
        exact ⟨mem_addId.mpr (.inl held), kept⟩
      · rw [List.mem_singleton] at now
        cases now
        refine ⟨mem_addId.mpr (.inr ⟨named, rfl⟩), ?_⟩
        rw [textFor_concat, notice]
        simpa [isAbout] using told
    dones := by
      rw [donesOf_plain, tells.dones]
      split <;> rfl
    said := said }

/-- What an item that is no message changes. -/
theorem newItem_other (phase : Phase) (other : isAgentMessage item = false) :
    ∃ settled events, stream.newItem phase item = ({ stream with settled }, events) ∧
      (stream.settled = false → settled = false) ∧ Wordless events := by
  unfold ChildStream.newItem
  dsimp only
  split
  · split
    · exact ⟨false, _, rfl, fun _ => rfl, rfl⟩
    · exact ⟨stream.settled, [], rfl, id, wordless_nil⟩
  · split
    · exact ⟨stream.settled, [], rfl, id, wordless_nil⟩
    · rw [if_neg (by simp [other])]
      exact ⟨stream.settled, _, rfl, id, mapItem_wordless phase item⟩

theorem newItem_started (stream : ChildStream) (item : Json) :
    ∃ events, stream.newItem .started item = (stream, events) ∧ Wordless events := by
  unfold ChildStream.newItem
  dsimp only
  split
  · exact ⟨[], rfl, wordless_nil⟩
  · split
    · exact ⟨[], rfl, wordless_nil⟩
    · split
      · exact ⟨[], rfl, wordless_nil⟩
      · exact ⟨_, rfl, mapItem_wordless .started item⟩

theorem tells_item (tells : Tells thread) (new : note.replay = false)
    (ordered : InOrder thread note) (notice : note.notice = .completed item)
    (other : isAgentMessage item = false) :
    Tells ⟨(thread.stream.map child note.method note.params).1, thread.ledger.note note,
      thread.log ++ [(note, (thread.stream.map child note.method note.params).2)]⟩ := by
  have said := said_note tells new
  simp only [InOrder, new, notice, Bool.false_eq_true, if_false] at ordered
  have hears : thread.ledger.note note =
      { thread.ledger with
        completed := addId thread.ledger.completed (itemKey item)
        seen := thread.ledger.seen ++ [(note.method, note.params)] } := by
    rw [note_new _ new, notice, Ledger.hear]
    simp only [other, Bool.false_eq_true, if_false]
  obtain ⟨settled, events, mapped, unsettled, plain⟩ : ∃ settled events,
      thread.stream.map child note.method note.params =
        ({ thread.stream with
          completedItems := addId thread.ledger.completed (itemKey item)
          settled }, events) ∧
        (thread.stream.settled = false → settled = false) ∧ Wordless events := by
    rw [map_completed notice]
    by_cases held : itemKey item ∈ thread.ledger.completed
    · have named : itemKey item ≠ "" := by
        intro empty
        rw [empty] at held
        exact tells.named held
      have known : remember thread.stream.completedItems (itemKey item) =
          (thread.stream.completedItems, false) := by
        rw [remember, if_neg named, tells.items, if_pos held]
      have same : addId thread.ledger.completed (itemKey item) = thread.stream.completedItems := by
        rw [addId, if_pos (.inr held), tells.items]
      rw [known, same]
      exact ⟨thread.stream.settled, [], rfl, id, wordless_nil⟩
    · rw [remember_new tells held ordered.1, if_pos rfl]
      exact @newItem_other
        { thread.stream with completedItems := addId thread.ledger.completed (itemKey item) } item
        .completed other
  rw [hears] at said ⊢
  rw [mapped]
  have grows : ∀ id, id ∉ addId thread.ledger.completed (itemKey item) →
      id ∉ thread.ledger.completed := fun id absent held => absent (mem_addId.mpr (.inl held))
  exact { tells with
    items := rfl
    shortItems := ordered.1
    named := by
      rw [mem_addId]
      rintro (old | ⟨named, empty⟩)
      · exact tells.named old
      · exact named empty.symm
    unsettled := fun running => unsettled (tells.unsettled running)
    streamed := fun id absent => tells.streamed id (grows id absent)
    heard := fun id absent current => by
      rw [textFor_plain plain]
      exact tells.heard id (grows id absent) current
    messages := fun id text listed => by
      rw [textFor_plain plain]
      exact (tells.messages id text listed).imp_left fun held => mem_addId.mpr (.inl held)
    dones := (donesOf_plain plain.dones).trans tells.dones
    said := said }

theorem textsOf_delta (params : Json) :
    textsOf ((deltaText params).map AgentEvent.textDelta).toList =
      ((deltaText params).map String.toList).getD [] := by
  cases deltaText params <;> simp [textsOf]

theorem dones_delta (params : Json) :
    ((deltaText params).map AgentEvent.textDelta).toList.filter isDone = [] := by
  cases deltaText params <;> rfl

theorem tells_delta (tells : Tells thread) (new : note.replay = false)
    (ordered : InOrder thread note) {text : List Char} (notice : note.notice = .delta id text) :
    Tells ⟨(thread.stream.map child note.method note.params).1, thread.ledger.note note,
      thread.log ++ [(note, (thread.stream.map child note.method note.params).2)]⟩ := by
  have said := said_note tells new
  simp only [InOrder, new, notice, Bool.false_eq_true, if_false] at ordered
  obtain ⟨running, unfinished⟩ := ordered
  obtain ⟨mapped, same, said_text⟩ := @map_delta thread.stream child _ _ _ _ notice
  have unsettled := tells.unsettled running
  rw [unsettled, if_neg Bool.false_ne_true, ChildStream.delta, same] at mapped
  have hears : thread.ledger.note note =
      { thread.ledger with
        heard := Function.update thread.ledger.heard id
          (some ((thread.ledger.heard id).getD [] ++ text))
        seen := thread.ledger.seen ++ [(note.method, note.params)] } := by
    rw [note_new _ new, notice]
    rfl
  have unsaid : ∀ other, other ≠ id → isAbout other note.notice = false := by
    intro other apart
    rw [notice]
    simpa [isAbout] using apart.symm
  have messages : ∀ other text events, (other, text) ∈ thread.ledger.messages →
      textFor other (thread.log ++ [(note, events)]) = textFor other thread.log := by
    intro other text events listed
    apply textFor_other (unsaid other _)
    rintro rfl
    exact unfinished (List.mem_map.mpr ⟨_, listed, rfl⟩)
  rw [hears] at said ⊢
  by_cases tool : id ≠ "" ∧ id ∈ thread.stream.completedItems
  · rw [if_pos tool] at mapped
    rw [mapped]
    have held : id ∈ thread.ledger.completed := by
      rw [← tells.items]
      exact tool.2
    exact { tells with
      streamed := fun other absent => by
        have apart : other ≠ id := by
          rintro rfl
          exact absent held
        change _ ↔ (Function.update thread.ledger.heard id _ other).isSome = true
        rw [Function.update_of_ne apart]
        exact tells.streamed other absent
      heard := fun other absent current => by
        have apart : other ≠ id := by
          rintro rfl
          exact absent held
        change _ = (Function.update thread.ledger.heard id _ other).getD []
        rw [textFor_plain wordless_nil, Function.update_of_ne apart]
        exact tells.heard other absent current
      messages := fun other text listed => by
        rw [messages other text _ listed]
        exact tells.messages other text listed
      dones := (donesOf_plain rfl).trans tells.dones
      said := said }
  · rw [if_neg tool] at mapped
    rw [mapped]
    exact { tells with
      streamed := fun other absent => by
        change other ∈ (if id ∈ thread.stream.streamedText then thread.stream.streamedText
          else thread.stream.streamedText ++ [id]) ↔
          (Function.update thread.ledger.heard id _ other).isSome = true
        have old := tells.streamed other absent
        by_cases apart : other = id
        · subst apart
          rw [Function.update_self]
          by_cases listed : other ∈ thread.stream.streamedText <;> simp [listed]
        · rw [Function.update_of_ne apart, ← old]
          by_cases listed : id ∈ thread.stream.streamedText <;> simp [listed, apart]
      heard := fun other absent current => by
        change _ = (Function.update thread.ledger.heard id _ other).getD []
        by_cases apart : other = id
        · subst apart
          rw [Function.update_self, textFor_concat, notice, textsOf_delta, said_text,
            tells.heard other absent current]
          simp [isAbout]
        · rw [textFor_other (unsaid other apart), Function.update_of_ne apart]
          exact tells.heard other absent current
      messages := fun other text listed => by
        rw [messages other text _ listed]
        exact tells.messages other text listed
      dones := (donesOf_plain (dones_delta note.params)).trans tells.dones
      said := said }

theorem tells_step (tells : Tells thread) (ordered : InOrder thread note) (tame : Tame thread note) :
    Tells ⟨(thread.stream.map child note.method note.params).1, thread.ledger.note note,
      thread.log ++ [(note, (thread.stream.map child note.method note.params).2)]⟩ := by
  cases new : note.replay with
  | true =>
      rw [replay_silent tells new ordered tame]
      exact tells_replay tells new
  | false =>
      cases notice : note.notice with
      | turnStarted turn => exact tells_turnStarted tells new ordered tame notice
      | turnEnded turn => exact tells_turnEnded tells new ordered notice
      | completed item =>
          cases message : isAgentMessage item with
          | true => exact tells_message tells new ordered tame notice message
          | false => exact tells_item tells new ordered notice message
      | delta id text => exact tells_delta tells new ordered notice
      | started item =>
          obtain ⟨events, mapped, plain⟩ := newItem_started thread.stream item
          rw [map_started notice, mapped]
          exact tells_quiet tells new (fun _ => by rw [notice]; rfl) plain
      | closed =>
          simp only [InOrder, new, notice, Bool.false_eq_true, if_false] at ordered
      | other =>
          obtain ⟨reasoning, mapped, plain⟩ := @map_other thread.stream child _ _ notice
          rw [mapped]
          exact tells_quiet tells new (fun _ => by rw [notice]; rfl) plain

end steps

/-! ## Each message once -/

/-- Each completed message is told as its text and one blank line, replays emit nothing and leave
the stream as it is, and there is one `Done` for each turn that ended. -/
theorem each_message_once {thread : Thread}
    (run : Reaches (Thread.step child) (fun thread note => InOrder thread note ∧ Tame thread note)
      Thread.start thread) :
    (∀ id text, (id, text) ∈ thread.ledger.messages →
      textFor id thread.log = text ++ ['\n', '\n']) ∧
    (∀ note, note.replay = true → InOrder thread note → Tame thread note →
      thread.stream.map child note.method note.params = (thread.stream, [])) ∧
    donesOf thread.log = thread.ledger.ended := by
  have tells : Tells thread := run.keeps tells_start fun before note after tells allowed taken => by
    cases taken
    exact tells_step tells allowed.1 allowed.2
  exact ⟨fun id text listed => (tells.messages id text listed).2,
    fun note replay ordered tame => replay_silent tells replay ordered tame, tells.dones⟩

def turnNote (method turn : String) : Note :=
  ⟨method, .object [("turn", .object [("id", .string turn)])], false⟩

def deltaNote (id text : String) : Note :=
  ⟨"item/agentMessage/delta", .object [("itemId", .string id), ("delta", .string text)], false⟩

def messageNote (id text : String) (replay : Bool) : Note :=
  ⟨"item/completed", .object [("item", .object [("id", .string id), ("type", .string "agentMessage"),
    ("text", .string text)])], replay⟩

/-- The thread after some notifications. -/
def Thread.hear (child : String) (thread : Thread) (note : Note) : Thread :=
  let mapped := thread.stream.map child note.method note.params
  ⟨mapped.1, thread.ledger.note note, thread.log ++ [(note, mapped.2)]⟩

theorem reaches_notes {allowed : Thread → Note → Prop} (child : String) (notes : List Note)
    (permitted : ∀ index note, notes[index]? = some note →
      allowed ((notes.take index).foldl (Thread.hear child) Thread.start) note) :
    Reaches (Thread.step child) allowed Thread.start
      (notes.foldl (Thread.hear child) Thread.start) := by
  induction notes using List.reverseRecOn with
  | nil => exact .refl
  | append_singleton notes note ih =>
      have earlier := ih fun index other here => by
        have inside : index < notes.length := (List.getElem?_eq_some_iff.mp here).1
        have later := permitted index other (by rw [List.getElem?_append_left inside, here])
        rwa [List.take_append_of_le_length (Nat.le_of_lt inside)] at later
      have last := permitted notes.length note (by simp)
      rw [List.take_left] at last
      rw [List.foldl_concat]
      exact earlier.tail ⟨note, last, rfl⟩

/-- A message is streamed, completed and replayed in a turn. -/
def hello : List Note :=
  [turnNote "turn/started" "t", deltaNote "m" "hello", messageNote "m" "hello" false,
    messageNote "m" "hello" true, turnNote "turn/completed" "t"]

theorem each_message_once_hello :
    textFor "m" (hello.foldl (Thread.hear "c") Thread.start).log = "hello\n\n".toList := by
  have run := @reaches_notes (fun thread note => InOrder thread note ∧ Tame thread note) "c" hello
    fun index note here => by
      match index with
      | 0 =>
          cases here
          exact ⟨show "t" = "" ∨ "t" ∉ [] ∧ "t" ∉ [] by decide, rfl⟩
      | 1 =>
          cases here
          exact ⟨show ["t"] ≠ [] ∧ "m" ∉ [] by decide, trivial⟩
      | 2 =>
          cases here
          refine ⟨⟨by decide, fun _ => ⟨by decide, by decide, by decide, by decide, ?_⟩⟩, ?_⟩
          · decide
          · intro _ _
            decide
      | 3 =>
          cases here
          refine ⟨⟨?_, ?_, ?_⟩, ?_⟩
          · decide
          · decide
          · decide
          · exact show "m" ≠ "" by decide
      | 4 =>
          cases here
          refine ⟨⟨?_, ?_⟩, trivial⟩
          · decide
          · decide
      | index + 5 => cases here
  exact (each_message_once run).1 "m" "hello".toList (by decide)

/-- A message with an empty delta is not told. -/
theorem not_each_message_once :
    ¬ ∀ (child : String) (thread : Thread), Reaches (Thread.step child) InOrder Thread.start thread →
      ∀ id text, (id, text) ∈ thread.ledger.messages →
        textFor id thread.log = text ++ ['\n', '\n'] := by
  intro claim
  have run := @reaches_notes InOrder "c"
    [turnNote "turn/started" "t", deltaNote "m" "", messageNote "m" "hello" false]
    fun index note here => by
      match index with
      | 0 =>
          cases here
          exact show "t" = "" ∨ "t" ∉ [] ∧ "t" ∉ [] by decide
      | 1 =>
          cases here
          exact show ["t"] ≠ [] ∧ "m" ∉ [] by decide
      | 2 =>
          cases here
          refine ⟨by decide, fun _ => ⟨by decide, by decide, by decide, by decide, ?_⟩⟩
          decide
      | index + 3 => cases here
  have told := claim "c" _ run "m" "hello".toList (by decide)
  exact absurd told (by decide)

end Zeron.Harness.Codex
