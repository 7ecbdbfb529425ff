import Zeron.Data.Json
import Zeron.Rpc.Replies

namespace Zeron.Rpc

open Zeron.Data

/-! # Replies are faithful

The router folded over the first frames of a script, for each way an id can be
opened, and from it what a request has got at any point of a run.
-/

variable {V : Type} {serde : Serde V} {state : Connection V} {id : Nat}

/-! ## The router over a script -/

/-- A readiness or an item frame. -/
def ServerFrame.Live (frame : ServerFrame V) : Prop :=
  frame.err = none ∧ frame.done = false ∧
    (frame.ok.isSome = true ∧ frame.item = none ∨ frame.ok = none ∧ frame.item.isSome = true)

def Kind.waiting : Kind → Bool → Pending
  | .call, _ => .call
  | .stream, _ => .stream
  | .checked, began => .checked !began

/-- What the client holds of a stream that has not ended. -/
def Kind.midway (kind : Kind) (frames : List (ServerFrame V)) : Caller V where
  pending := some (kind.waiting (frames ≠ []))
  ready := if kind = .checked ∧ frames ≠ [] then some (.ok ()) else none
  items := frames.filterMap ServerFrame.item

theorem routeAll_live {kind : Kind} (stream : kind ≠ .call) {frames : List (ServerFrame V)}
    (live : ∀ frame ∈ frames, frame.Live) : kind.start.routeAll frames = kind.midway frames := by
  induction frames using List.reverseRecOn with
  | nil => cases kind <;> rfl
  | append_singleton frames frame ih =>
      have earlier := ih fun other member => live other (List.mem_append_left _ member)
      obtain ⟨err, done, shape⟩ := live frame (List.mem_append_right _ List.mem_cons_self)
      rw [Caller.routeAll_snoc, earlier]
      rcases shape with ⟨ok, item⟩ | ⟨ok, item⟩
      · obtain ⟨value, ok⟩ := Option.isSome_iff_exists.mp ok
        cases kind with
        | call => exact absurd rfl stream
        | stream => simp [Caller.route, Kind.midway, Kind.waiting, err, ok, item]
        | checked =>
            by_cases began : frames = [] <;>
              simp [Caller.route, Kind.midway, Kind.waiting, err, ok, item, began]
      · obtain ⟨value, item⟩ := Option.isSome_iff_exists.mp item
        cases kind with
        | call => exact absurd rfl stream
        | stream => simp [Caller.route, Kind.midway, Kind.waiting, err, ok, item]
        | checked =>
            by_cases began : frames = [] <;>
              simp [Caller.route, Kind.midway, Kind.waiting, err, ok, item, began]

theorem routeAll_done {kind : Kind} (stream : kind ≠ .call) {frames : List (ServerFrame V)}
    (live : ∀ frame ∈ frames, frame.Live) :
    kind.start.routeAll (frames ++ [doneFrame V id]) = { kind.midway frames with
      pending := none
      ready := if kind = .checked then some (.ok ()) else none } := by
  rw [Caller.routeAll_snoc, routeAll_live stream live]
  cases kind with
  | call => exact absurd rfl stream
  | stream => simp [Caller.route, Kind.midway, Kind.waiting, doneFrame]
  | checked =>
      by_cases began : frames = [] <;>
        simp [Caller.route, Kind.midway, Kind.waiting, doneFrame, began]

/-- The frames of a stream before its end. -/
def Slot.liveScript (serde : Serde V) (id : Nat) (slot : Slot V) : List (ServerFrame V) :=
  Reply.stream.frames serde id (slot.method.getD "") ++ slot.produced.map (itemFrame id)

theorem Slot.script_stream {slot : Slot V} (streams : slot.reply = some .stream) :
    slot.script serde id = slot.liveScript serde id ++
      (if slot.ended then [doneFrame V id] else []) := by
  simp [script, streams, liveScript]

theorem Slot.live_liveScript (slot : Slot V) :
    ∀ frame ∈ slot.liveScript serde id, frame.Live := by
  intro frame member
  rcases List.mem_append.mp member with ready | item
  · rw [Reply.frames] at ready
    split at ready
    · rw [List.mem_singleton.mp ready]
      exact ⟨rfl, rfl, .inl ⟨rfl, rfl⟩⟩
    · cases ready
  · obtain ⟨value, _, rfl⟩ := List.mem_map.mp item
    exact ⟨rfl, rfl, .inr ⟨rfl, rfl⟩⟩

theorem Slot.ids_script (slot : Slot V) : ∀ frame ∈ slot.script serde id, frame.id = id := by
  intro frame member
  unfold script at member
  split at member
  · cases member
  · rename_i reply _
    rcases List.mem_append.mp member with early | done
    · rcases List.mem_append.mp early with first | item
      · exact reply.ids id _ frame first
      · obtain ⟨value, _, rfl⟩ := List.mem_map.mp item
        rfl
    · split at done
      · rw [List.mem_singleton.mp done]
        rfl
      · cases done

theorem Slot.items_liveScript (slot : Slot V) :
    (slot.liveScript serde id).filterMap ServerFrame.item = slot.produced := by
  have ready : (Reply.stream.frames serde id (slot.method.getD "")).filterMap ServerFrame.item =
      [] := by
    rw [Reply.frames]
    split <;> rfl
  rw [liveScript, List.filterMap_append, ready, List.nil_append, List.filterMap_map]
  exact List.filterMap_some

/-! ## What a request gets -/

/-- A result is the reply of the id's own handler. -/
def Answers (reply : Option (Reply V)) : Except RpcError V → Prop
  | .ok value => reply = some (.value value) ∨ reply = some .stream
  | .error error => (∃ sent : RpcError, reply = some (.failed sent) ∧ error.text = sent.text ∧
      (sent.Carried → error = sent)) ∨ reply = some .stream

/-- A request's error is its handler's. -/
def Refuses (sent : RpcError) {α : Type} (outcome : Option (Except RpcError α)) : Prop :=
  ∃ error, outcome = some (.error error) ∧ error.text = sent.text ∧ (sent.Carried → error = sent)

/-- What the requester of an id has, given what the id's handler did. -/
structure Faithful (state : Connection V) (id : Nat) : Prop where
  /-- Only frames of the id itself have changed what its requester has. -/
  own : ∀ frame ∈ (state.slots id).routed, frame.id = id
  /-- Before the handler returns there is no result, no item and no end. -/
  silent : ∀ kind, (state.slots id).kind = some kind →
    kind = .call ∨ (state.slots id).receiving = true →
    (state.slots id).reply = none → (state.slots id).caller = kind.start
  answered : (state.slots id).kind = some .call → ∀ result,
    (state.slots id).caller.result = some result → Answers (state.slots id).reply result
  resolved : (state.slots id).kind = some .call → state.onWire id = [] → ∀ value,
    (state.slots id).reply = some (.value value) →
    (state.slots id).caller.result = some (.ok value)
  refused : (state.slots id).kind = some .call → state.onWire id = [] → ∀ error,
    (state.slots id).reply = some (.failed error) → Refuses error (state.slots id).caller.result
  /-- The items a stream has got, and after them the ones under way, are the ones produced. -/
  streamed : (state.slots id).receiving = true → (state.slots id).reply = some .stream →
    (state.slots id).caller.items ++ (state.onWire id).filterMap ServerFrame.item =
      (state.slots id).produced
  ends : (state.slots id).receiving = true → (state.slots id).reply = some .stream →
    ((state.slots id).caller.pending = none ↔
      (state.slots id).ended = true ∧ state.onWire id = [])
  fails : (state.slots id).receiving = true → state.onWire id = [] → ∀ error,
    (state.slots id).reply = some (.failed error) → (state.slots id).caller.pending = none ∧
      (state.slots id).caller.items = [] ∧
      ((state.slots id).kind = some .checked → Refuses error (state.slots id).caller.ready)
  confirmed : (state.slots id).receiving = true → (state.slots id).kind = some .checked →
    (state.slots id).reply = some .stream → (state.slots id).caller.ready =
      if (state.slots id).routed = [] then none else some (.ok ())

theorem refuses_wireError {α : Type} (error : RpcError) :
    Refuses error (some (.error (wireError error.text) : Except RpcError α)) :=
  ⟨_, rfl, text_wireError _, fun carried => wireError_text carried⟩

theorem Slot.script_value {slot : Slot V} {value : V} (replied : slot.reply = some (.value value))
    (still : slot.produced = [] ∧ slot.ended = false) :
    slot.script serde id = [{ id, ok := some value }] := by
  simp [script, replied, still, Reply.frames]

theorem Slot.script_failed {slot : Slot V} {error : RpcError}
    (replied : slot.reply = some (.failed error))
    (still : slot.produced = [] ∧ slot.ended = false) :
    slot.script serde id = [{ id, err := some error.text }] := by
  simp [script, replied, still, Reply.frames]

/-- What is routed of one frame: nothing yet, or the frame with nothing left on the wire. -/
theorem routed_of_single {frame : ServerFrame V} {routed wire : List (ServerFrame V)}
    (split : [frame] = routed ++ wire) : routed = [] ∧ wire = [frame] ∨ routed = [frame] ∧ wire = [] := by
  cases routed with
  | nil => exact .inl ⟨rfl, split.symm⟩
  | cons first rest =>
      obtain ⟨rfl, rest⟩ := List.cons.inj split
      obtain ⟨rfl, rfl⟩ := List.append_eq_nil_iff.mp rest.symm
      exact .inr ⟨rfl, rfl⟩

/-- A stream's frames as the client has routed them: still before the end, or all. -/
theorem SlotSound.stream_split (sound : SlotSound serde state id)
    (streams : (state.slots id).reply = some .stream) :
    (∀ frame ∈ (state.slots id).routed, frame.Live) ∧
        ¬ ((state.slots id).ended = true ∧ state.onWire id = []) ∨
      (state.slots id).routed = (state.slots id).liveScript serde id ++ [doneFrame V id] ∧
        (state.slots id).ended = true ∧ state.onWire id = [] := by
  have script := sound.script
  rw [Slot.script_stream streams] at script
  have live : ∀ frame ∈ (state.slots id).liveScript serde id, frame.Live :=
    (state.slots id).live_liveScript
  cases ended : (state.slots id).ended with
  | false =>
      simp only [ended, Bool.false_eq_true, if_false, List.append_nil] at script
      rw [script] at live
      exact .inl ⟨fun frame member => live frame (List.mem_append_left _ member), by simp⟩
  | true =>
      simp only [ended, if_true] at script
      cases wire : state.onWire id using List.reverseRecOn with
      | nil =>
          rw [wire, List.append_nil] at script
          exact .inr ⟨script.symm, rfl, rfl⟩
      | append_singleton rest last =>
          rw [wire, ← List.append_assoc] at script
          rw [(List.append_inj' script rfl).1] at live
          exact .inl ⟨fun frame member => live frame (List.mem_append_left _ member), by simp⟩

theorem SlotSound.unheard_call {kind : Kind} (sound : SlotSound serde state id)
    (known : (state.slots id).kind = some kind) (receiving : (state.slots id).receiving = true) :
    kind ≠ .call := by
  intro call
  rw [sound.unheard (known.trans (congrArg some call))] at receiving
  cases receiving

/-- A heard stream's part of the client. -/
theorem SlotSound.stream_caller {kind : Kind} (sound : SlotSound serde state id)
    (known : (state.slots id).kind = some kind) (receiving : (state.slots id).receiving = true)
    (streams : (state.slots id).reply = some .stream) :
    ((state.slots id).caller.pending = none ↔
      (state.slots id).ended = true ∧ state.onWire id = []) ∧
    (state.slots id).caller.items = (state.slots id).routed.filterMap ServerFrame.item ∧
    (kind = .checked → (state.slots id).caller.ready =
      if (state.slots id).routed = [] then none else some (.ok ())) := by
  have stream := sound.unheard_call known receiving
  rw [sound.folded kind known (.inr receiving)]
  rcases sound.stream_split streams with ⟨live, midway⟩ | ⟨routed, finished⟩
  · rw [routeAll_live stream live]
    refine ⟨iff_of_false (by simp [Kind.midway]) midway, rfl, ?_⟩
    intro checked
    by_cases began : (state.slots id).routed = [] <;> simp [Kind.midway, checked, began]
  · rw [routed, routeAll_done stream (state.slots id).live_liveScript]
    refine ⟨iff_of_true rfl finished, ?_, ?_⟩
    · simp [Kind.midway, doneFrame]
    · intro checked
      simp [checked]

theorem SlotSound.faithful (sound : SlotSound serde state id) : Faithful state id := by
  have script := sound.script
  constructor
  · intro frame member
    exact Slot.ids_script (state.slots id) frame (script ▸ List.mem_append_left _ member)
  · intro kind known attached unreplied
    rw [Slot.script, unreplied] at script
    obtain ⟨routed, _⟩ := List.append_eq_nil_iff.mp script.symm
    rw [sound.folded kind known attached, routed]
    rfl
  · intro call result held
    rw [sound.folded .call call (.inl rfl)] at held
    cases replied : (state.slots id).reply with
    | none =>
        rw [Slot.script, replied] at script
        obtain ⟨routed, _⟩ := List.append_eq_nil_iff.mp script.symm
        rw [routed] at held
        cases held
    | some reply =>
        cases reply with
        | value value =>
            rw [Slot.script_value replied (sound.still (by simp [replied]))] at script
            rcases routed_of_single script with ⟨routed, _⟩ | ⟨routed, _⟩
            · rw [routed] at held
              cases held
            · rw [routed] at held
              cases held
              exact .inl rfl
        | failed error =>
            rw [Slot.script_failed replied (sound.still (by simp [replied]))] at script
            rcases routed_of_single script with ⟨routed, _⟩ | ⟨routed, _⟩
            · rw [routed] at held
              cases held
            · rw [routed] at held
              cases held
              exact .inl ⟨error, rfl, text_wireError _, fun carried => wireError_text carried⟩
        | stream => cases result <;> exact .inr rfl
  · intro call idle value replied
    rw [Slot.script_value replied (sound.still (by simp [replied])), idle,
      List.append_nil] at script
    rw [sound.folded .call call (.inl rfl), ← script]
    rfl
  · intro call idle error replied
    rw [Slot.script_failed replied (sound.still (by simp [replied])), idle,
      List.append_nil] at script
    rw [sound.folded .call call (.inl rfl), ← script]
    exact refuses_wireError error
  · intro receiving streams
    obtain ⟨kind, known⟩ := Option.ne_none_iff_exists'.mp (sound.known (.inl receiving))
    rw [(sound.stream_caller known receiving streams).2.1, ← List.filterMap_append, ← script,
      Slot.script_stream streams, List.filterMap_append, Slot.items_liveScript]
    cases (state.slots id).ended <;> simp [doneFrame]
  · intro receiving streams
    obtain ⟨kind, known⟩ := Option.ne_none_iff_exists'.mp (sound.known (.inl receiving))
    exact (sound.stream_caller known receiving streams).1
  · intro receiving idle error replied
    obtain ⟨kind, known⟩ := Option.ne_none_iff_exists'.mp (sound.known (.inl receiving))
    rw [Slot.script_failed replied (sound.still (by simp [replied])), idle,
      List.append_nil] at script
    rw [sound.folded kind known (.inr receiving), ← script]
    cases kind with
    | call => exact absurd rfl (sound.unheard_call known receiving)
    | stream => exact ⟨rfl, rfl, fun checked => absurd (known.symm.trans checked) (by simp)⟩
    | checked => exact ⟨rfl, rfl, fun _ => refuses_wireError error⟩
  · intro receiving checked streams
    exact (sound.stream_caller checked receiving streams).2.2 rfl

/-! ## Delivery -/

/-- The steps of the client's reader and of consumers. -/
def Action.delivers : Action V → Prop
  | .route | .deliver | .take _ => True
  | _ => False

/-- Requests and handlers stand as they did. -/
def SameTasks (before after : Connection V) : Prop :=
  ∀ id, (after.slots id).kind = (before.slots id).kind ∧
    (after.slots id).receiving = (before.slots id).receiving ∧
    (after.slots id).reply = (before.slots id).reply ∧
    (after.slots id).produced = (before.slots id).produced ∧
    (after.slots id).ended = (before.slots id).ended

theorem SameTasks.trans {first second third : Connection V} (low : SameTasks first second)
    (high : SameTasks second third) : SameTasks first third := by
  intro id
  obtain ⟨kind, receiving, reply, produced, ended⟩ := low id
  obtain ⟨kind', receiving', reply', produced', ended'⟩ := high id
  exact ⟨kind'.trans kind, receiving'.trans receiving, reply'.trans reply,
    produced'.trans produced, ended'.trans ended⟩

theorem sameTasks_write (state : Connection V) (id : Nat) (slot : Slot V)
    (same : slot.kind = (state.slots id).kind ∧ slot.receiving = (state.slots id).receiving ∧
      slot.reply = (state.slots id).reply ∧ slot.produced = (state.slots id).produced ∧
      slot.ended = (state.slots id).ended) : SameTasks state (state.write id slot) := by
  intro other
  by_cases here : other = id
  · rw [here, slots_write]
    exact same
  · rw [show (state.write id slot).slots other = _ from Function.update_of_ne here _ _]
    exact ⟨rfl, rfl, rfl, rfl, rfl⟩

variable [DecidableEq V]

theorem step_deliver (serde : Serde V) {state : Connection V} {id : Nat}
    (waits : state.delivering = some id)
    (room : (state.slots id).receiving = true →
      (state.slots id).caller.items.length - 1 - (state.slots id).taken < streamQueueCap) :
    ∃ next, state.step serde .deliver = some next ∧ next.delivering = none ∧
      next.toClient = state.toClient ∧ SameTasks state next := by
  rw [Connection.step, waits]
  dsimp only
  cases receiving : (state.slots id).receiving with
  | false =>
      rw [if_pos rfl]
      exact ⟨_, rfl, rfl, rfl, sameTasks_write state id _ ⟨rfl, receiving.symm, rfl, rfl, rfl⟩⟩
  | true =>
      rw [if_neg (by decide), if_pos (room receiving)]
      exact ⟨_, rfl, rfl, rfl, fun _ => ⟨rfl, rfl, rfl, rfl, rfl⟩⟩

/-- The reader gets rid of the item it has, once the consumer has made room for it. -/
theorem delivers_item (serde : Serde V) (state : Connection V) {id : Nat}
    (waits : state.delivering = some id) :
    ∃ next, Reaches (Connection.step serde) (fun _ action => action.delivers) state next ∧
      next.delivering = none ∧ next.toClient = state.toClient ∧ SameTasks state next := by
  -- the items ahead of the one in hand
  induction ahead : (state.slots id).caller.items.length - 1 - (state.slots id).taken
    generalizing state with
  | zero =>
      obtain ⟨next, stepped, rest⟩ := step_deliver serde waits (fun _ => by rw [ahead]; decide)
      exact ⟨next, .single ⟨.deliver, trivial, stepped⟩, rest⟩
  | succ count ih =>
      by_cases room : (state.slots id).receiving = true → count + 1 < streamQueueCap
      · obtain ⟨next, stepped, rest⟩ := step_deliver serde waits (by rwa [ahead])
        exact ⟨next, .single ⟨.deliver, trivial, stepped⟩, rest⟩
      · obtain ⟨receiving, full⟩ := Classical.not_imp.mp room
        have stepped : state.step serde (.take id) =
            some (state.write id { state.slots id with taken := (state.slots id).taken + 1 }) := by
          apply if_pos
          rw [waits, if_pos rfl]
          exact ⟨receiving, by omega⟩
        have same : SameTasks state
            (state.write id { state.slots id with taken := (state.slots id).taken + 1 }) :=
          sameTasks_write state id _ ⟨rfl, rfl, rfl, rfl, rfl⟩
        obtain ⟨next, runs, free, wire, tasks⟩ := ih
          (state.write id { state.slots id with taken := (state.slots id).taken + 1 }) waits (by
            rw [slots_write]
            simp only
            omega)
        exact ⟨next, .head ⟨.take id, trivial, stepped⟩ runs, free, wire, same.trans tasks⟩

theorem step_route {state : Connection V} {sent : ServerFrame V} {rest : List (ServerFrame V)}
    (sound : Sound serde state) (idle : state.delivering = none)
    (queue : state.toClient = sent :: rest) :
    ∃ next, state.step serde .route = some next ∧ next.toClient = rest ∧ SameTasks state next := by
  have survives := sound.survive sent (queue ▸ List.mem_cons_self)
  simp only [Connection.step, queue, idle, arrives_of_survives survives]
  refine ⟨_, rfl, ?_, ?_⟩
  · cases ((state.slots sent.id).caller.route sent).2 <;> rfl
  · have tasks := sameTasks_write state sent.id { state.slots sent.id with
        caller := ((state.slots sent.id).caller.route sent).1
        routed := (state.slots sent.id).routed ++ [sent] } ⟨rfl, rfl, rfl, rfl, rfl⟩
    cases ((state.slots sent.id).caller.route sent).2 <;> exact tasks

/-- Steps of delivery keep the correspondence. -/
theorem Sound.delivered {before after : Connection V} (sound : Sound serde before)
    (runs : Reaches (Connection.step serde) (fun _ action => action.delivers) before after) :
    Sound serde after := by
  apply runs.keeps sound
  intro first action second sound delivers stepped
  apply sound.step _ stepped
  cases action <;> trivial

/-- Delivery alone brings every frame on the wire to the client. -/
theorem drains {state : Connection V} (sound : Sound serde state) :
    ∃ finish, Reaches (Connection.step serde) (fun _ action => action.delivers) state finish ∧
      finish.delivering = none ∧ finish.toClient = [] ∧ SameTasks state finish := by
  induction frames : state.toClient generalizing state with
  | nil =>
      cases waits : state.delivering with
      | none => exact ⟨state, .refl, waits, frames, fun _ => ⟨rfl, rfl, rfl, rfl, rfl⟩⟩
      | some id =>
          obtain ⟨free, runs, idle, wire, tasks⟩ := delivers_item serde state waits
          exact ⟨free, runs, idle, wire.trans frames, tasks⟩
  | cons sent rest ih =>
      have freed : ∃ free, Reaches (Connection.step serde) (fun _ action => action.delivers) state
          free ∧ free.delivering = none ∧ free.toClient = state.toClient ∧ SameTasks state free := by
        cases waits : state.delivering with
        | none => exact ⟨state, .refl, waits, rfl, fun _ => ⟨rfl, rfl, rfl, rfl, rfl⟩⟩
        | some id => exact delivers_item serde state waits
      obtain ⟨free, runs, idle, wire, tasks⟩ := freed
      obtain ⟨next, stepped, shorter, kept⟩ := step_route (sound.delivered runs) idle
        (wire.trans frames)
      have onward : Reaches (Connection.step serde) (fun _ action => action.delivers) state next :=
        runs.tail ⟨.route, trivial, stepped⟩
      obtain ⟨finish, rest, done⟩ := ih (sound.delivered onward) shorter
      exact ⟨finish, onward.trans rest, done.1, done.2.1, (tasks.trans kept).trans done.2.2⟩

theorem replies_faithful
    (runs : Reaches (Connection.step serde) (fun state action => action.Within serde state) {} state) :
    (∀ id, Faithful state id) ∧
    ∃ finish, Reaches (Connection.step serde) (fun _ action => action.delivers) state finish ∧
      finish.delivering = none ∧ finish.toClient = [] ∧ SameTasks state finish ∧
      ∀ id, Faithful finish id := by
  have sound := sound_of_reaches runs
  obtain ⟨finish, onward, idle, wire, tasks⟩ := drains sound
  exact ⟨fun id => (sound.slots id).faithful, finish, onward, idle, wire, tasks,
    fun id => ((sound.delivered onward).slots id).faithful⟩

/-! ## Runs -/

instance (serde : Serde V) (state : Connection V) :
    (action : Action V) → Decidable (action.Within serde state)
  | .open _ => inferInstanceAs (Decidable (_ < _))
  | .reply _ (.value _) => inferInstanceAs (Decidable (_ ∧ _ ≠ _ ∧ _ ≠ _))
  | .produce _ _ => inferInstanceAs (Decidable (_ ∧ _ ≠ _ ∧ _ ≠ _))
  | .reply _ (.failed _) | .reply _ .stream | .send _ _ | .cancel _ | .sendCancel _
  | .dropReceiver _ | .take _ | .receive | .finish _ | .route | .deliver => .isTrue trivial

def jsonSerde : Serde Json where
  null := .null
  streamTrue := .object [("stream", .bool true)]
  reread := some
  present := nofun
  flat _ _ := rfl
  ready _ := rfl

/-- A call and a stream at once, their frames interleaved. -/
def interleaved : List (Action Json) :=
  [.open .call, .open .stream, .send 2 "WatchChats", .send 1 "Echo", .receive, .receive,
    .reply 2 .stream, .produce 2 (.number 3), .reply 1 (.value (.number 7)), .produce 2 (.number 4),
    .route, .deliver, .route, .finish 2, .take 2]

theorem replies_faithful_interleaved : ∃ state : Connection Json,
    (state.slots 1).caller.result = some (.ok (.number 7)) ∧
    (state.slots 2).caller.items = [.number 3] ∧ ∀ id, Faithful state id := by
  have ran : (runAll (Connection.step jsonSerde) (fun state action => action.Within jsonSerde state)
      {} interleaved).map (fun state =>
        ((state.slots 1).caller.result, (state.slots 2).caller.items)) =
      some (some (.ok (.number 7)), [.number 3]) := by
    rfl
  obtain ⟨state, ran, held⟩ := Option.map_eq_some_iff.mp ran
  obtain ⟨result, items⟩ := Prod.mk.inj held
  refine ⟨state, result, items, (replies_faithful ((reaches_of_runAll ran).mono ?_)).1⟩
  exact fun _ _ within => of_decide_eq_true within

/-- A call answered with `null`, and a stream one of whose items is `null`. -/
def nulls : List (Action Json) :=
  [.open .call, .open .stream, .send 1 "Echo", .send 2 "WatchChats", .receive, .receive,
    .reply 1 (.value .null), .reply 2 .stream, .produce 2 .null, .route, .route]

theorem null_replies_lost : ∃ state : Connection Json,
    Reaches (Connection.step jsonSerde) (fun _ _ => True) {} state ∧
      ¬ Faithful state 1 ∧ ¬ Faithful state 2 := by
  have ran : (runAll (Connection.step jsonSerde) (fun _ _ => true) {} nulls).map (fun state =>
        (((state.slots 1).kind, (state.slots 1).reply, state.toClient),
          ((state.slots 2).receiving, (state.slots 2).reply, (state.slots 2).produced),
          (state.slots 1).caller.result, (state.slots 2).caller.items)) =
      some ((some .call, some (.value .null), []), (true, some .stream, [.null]), none, []) := by
    rfl
  obtain ⟨state, ran, held⟩ := Option.map_eq_some_iff.mp ran
  simp only [Prod.mk.injEq] at held
  obtain ⟨⟨call, value, wire⟩, ⟨receiving, streams, produced⟩, result, items⟩ := held
  refine ⟨state, (reaches_of_runAll ran).mono fun _ _ _ => trivial, ?_, ?_⟩
  · intro faithful
    have resolved := faithful.resolved call (by simp [Connection.onWire, wire]) _ value
    rw [result] at resolved
    cases resolved
  · intro faithful
    have streamed := faithful.streamed receiving streams
    rw [items, produced] at streamed
    simp [Connection.onWire, wire] at streamed

end Zeron.Rpc
