import Zeron.Rpc.Connection

namespace Zeron.Rpc

open Zeron.Data

/-! # Whose reply a request gets

What a handler did under an id fixes the frames sent for it; the client has
routed a first part of them and the rest is on the wire.  What the client holds
under the id is the fold of its router over that first part.
-/

variable {V : Type} {serde : Serde V} {state after : Connection V}

/-- The frames on the wire to the client under an id. -/
def Connection.onWire (state : Connection V) (id : Nat) : List (ServerFrame V) :=
  state.toClient.filter (·.id = id)

section Projections

variable (state : Connection V) (id : Nat) (slot : Slot V)

@[simp] theorem slots_write : (state.write id slot).slots id = slot := Function.update_self _ _ _

@[simp] theorem onWire_write (other : Nat) : (state.write id slot).onWire other = state.onWire other :=
  rfl

@[simp] theorem nextId_write : (state.write id slot).nextId = state.nextId := rfl

@[simp] theorem toClient_write : (state.write id slot).toClient = state.toClient := rfl

@[simp] theorem toServer_write : (state.write id slot).toServer = state.toServer := rfl

@[simp] theorem delivering_write : (state.write id slot).delivering = state.delivering := rfl

end Projections

def itemFrame (id : Nat) (item : V) : ServerFrame V := { id, item := some item }

def doneFrame (V : Type) (id : Nat) : ServerFrame V := { id, done := true }

/-- The frames sent for what the handler of an id did. -/
def Slot.script (serde : Serde V) (id : Nat) (slot : Slot V) : List (ServerFrame V) :=
  match slot.reply with
  | none => []
  | some reply =>
      reply.frames serde id (slot.method.getD "") ++ slot.produced.map (itemFrame id) ++
        (if slot.ended then [doneFrame V id] else [])

def Caller.routeAll (caller : Caller V) (frames : List (ServerFrame V)) : Caller V :=
  frames.foldl (fun caller frame => (caller.route frame).1) caller

def Kind.start (kind : Kind) : Caller V := { pending := some kind.pending }

/-- What holds of one id. -/
structure SlotSound (serde : Serde V) (state : Connection V) (id : Nat) : Prop where
  script : (state.slots id).script serde id = (state.slots id).routed ++ state.onWire id
  folded : ∀ kind, (state.slots id).kind = some kind →
    kind = .call ∨ (state.slots id).receiving = true →
    (state.slots id).caller = kind.start.routeAll (state.slots id).routed
  still : (state.slots id).reply ≠ some .stream →
    (state.slots id).produced = [] ∧ (state.slots id).ended = false
  live : (state.slots id).running = true → (state.slots id).ended = false
  unasked : (state.slots id).method = none →
    (state.slots id).running = false ∧ (state.slots id).reply = none
  unheard : (state.slots id).kind = some .call → (state.slots id).receiving = false
  blank : (state.slots id).kind = none → state.slots id = {}
  fresh : state.nextId ≤ id → (state.slots id).kind = none

/-- A client frame on its way: the id is known, and a request's task has not begun. -/
structure Asked (state : Connection V) (frame : ClientFrame) : Prop where
  known : (state.slots frame.id).kind ≠ none
  unbegun : frame.cancel = false → (state.slots frame.id).method ≠ none ∧
    (state.slots frame.id).running = false ∧ (state.slots frame.id).reply = none

structure Sound (serde : Serde V) (state : Connection V) : Prop where
  slots : ∀ id, SlotSound serde state id
  survive : ∀ frame ∈ state.toClient, frame.Survives serde
  asked : ∀ frame ∈ state.toServer, Asked state frame
  once : ((state.toServer.filter (·.cancel = false)).map ClientFrame.id).Nodup
  waiting : ∀ id, state.delivering = some id →
    (state.slots id).kind ≠ none ∧ (state.slots id).kind ≠ some .call

/-- A step that leaves an id's slot and frames alone keeps what holds of it. -/
theorem SlotSound.elsewhere {id : Nat} (sound : SlotSound serde state id)
    (slot : after.slots id = state.slots id) (wire : after.onWire id = state.onWire id)
    (later : state.nextId ≤ after.nextId) : SlotSound serde after id := by
  constructor
  · rw [slot, wire]
    exact sound.script
  · rw [slot]
    exact sound.folded
  · rw [slot]
    exact sound.still
  · rw [slot]
    exact sound.live
  · rw [slot]
    exact sound.unasked
  · rw [slot]
    exact sound.unheard
  · rw [slot]
    exact sound.blank
  · intro unused
    rw [slot]
    exact sound.fresh (later.trans unused)

theorem SlotSound.used {id : Nat} (sound : SlotSound serde state id)
    (kind : (state.slots id).kind ≠ none) : id < state.nextId := by
  by_contra unused
  exact kind (sound.fresh (not_lt.mp unused))

/-- What the handlers and the client do within the bounds of the format: no value is `null`,
every frame survives its text, and no id comes back. -/
def Action.Within (serde : Serde V) (state : Connection V) : Action V → Prop
  | .open _ => state.nextId + 1 < 2 ^ 64
  | .reply id (.value value) => ServerFrame.Survives serde { id, ok := some value }
  | .produce id item => (itemFrame id item).Survives serde
  | _ => True

/-! ## Steps -/

/-- A step about one id, the frames of every other id left where they are. -/
theorem Sound.rewrite (id : Nat) (sound : Sound serde state)
    (slots : ∀ other, other ≠ id → after.slots other = state.slots other)
    (wire : ∀ other, other ≠ id → after.onWire other = state.onWire other)
    (later : state.nextId ≤ after.nextId)
    (here : SlotSound serde after id)
    (survive : ∀ frame ∈ after.toClient, frame.Survives serde)
    (queue : after.toServer = state.toServer)
    (asked : ∀ frame ∈ state.toServer, frame.id = id → Asked after frame)
    (waiting : ∀ other, after.delivering = some other →
      (after.slots other).kind ≠ none ∧ (after.slots other).kind ≠ some .call) :
    Sound serde after := by
  constructor
  · intro other
    by_cases same : other = id
    · rw [same]
      exact here
    · exact (sound.slots other).elsewhere (slots other same) (wire other same) later
  · exact survive
  · intro frame member
    rw [queue] at member
    by_cases same : frame.id = id
    · exact asked frame member same
    · obtain ⟨known, unbegun⟩ := sound.asked frame member
      exact ⟨by rwa [slots _ same], by rwa [slots _ same]⟩
  · rw [queue]
    exact sound.once
  · exact waiting

/-- A running task was asked for and has not ended. -/
theorem SlotSound.running {id : Nat} (sound : SlotSound serde state id)
    (runs : (state.slots id).running = true) :
    (state.slots id).method ≠ none ∧ (state.slots id).ended = false := by
  refine ⟨?_, sound.live runs⟩
  intro unasked
  rw [(sound.unasked unasked).1] at runs
  cases runs

theorem SlotSound.known {id : Nat} (sound : SlotSound serde state id)
    (used : (state.slots id).receiving = true ∨ (state.slots id).cancelling = true) :
    (state.slots id).kind ≠ none := by
  intro unknown
  rw [sound.blank unknown] at used
  rcases used with used | used <;> cases used

theorem Sound.waiting_write {id : Nat} {slot : Slot V} (sound : Sound serde state)
    (kind : slot.kind = (state.slots id).kind) (other : Nat)
    (waits : state.delivering = some other) :
    ((state.write id slot).slots other).kind ≠ none ∧
      ((state.write id slot).slots other).kind ≠ some .call := by
  by_cases same : other = id
  · rw [same, slots_write, kind]
    exact sound.waiting id (same ▸ waits)
  · rw [show (state.write id slot).slots other = _ from Function.update_of_ne same _ _]
    exact sound.waiting other waits

/-- A step that touches nothing of an id its frames depend on. -/
theorem Sound.aside (id : Nat) (slot : Slot V) (sound : Sound serde state)
    (used : (state.slots id).kind ≠ none)
    (kind : slot.kind = (state.slots id).kind)
    (reply : slot.reply = (state.slots id).reply)
    (produced : slot.produced = (state.slots id).produced)
    (ended : slot.ended = (state.slots id).ended)
    (routed : slot.routed = (state.slots id).routed)
    (receiving : slot.receiving = true → (state.slots id).receiving = true)
    (caller : slot.kind = some .call ∨ slot.receiving = true →
      slot.caller = (state.slots id).caller)
    (method : (state.slots id).method ≠ none → slot.method = (state.slots id).method)
    (running : slot.running = true → slot.method ≠ none ∧ slot.ended = false)
    (idle : ∀ frame ∈ state.toServer, frame.id = id → frame.cancel = false →
      slot.running = false) :
    Sound serde (state.write id slot) := by
  obtain ⟨script, folded, still, live, unasked, unheard, _, fresh⟩ := sound.slots id
  apply sound.rewrite id
  · intro other different
    exact Function.update_of_ne different _ _
  · intro other _
    rfl
  · exact le_rfl
  · constructor
    · have same : slot.script serde id = (state.slots id).script serde id := by
        by_cases asked : (state.slots id).method = none
        · simp [Slot.script, reply, (unasked asked).2]
        · simp [Slot.script, reply, produced, ended, method asked]
      simpa [same, routed] using script
    · intro known same attached
      rw [slots_write] at same attached ⊢
      rw [caller (attached.imp_left fun call => by rw [same, call]), routed]
      exact folded known (kind ▸ same) (attached.imp_right receiving)
    · simpa [reply, produced, ended] using still
    · intro runs
      rw [slots_write] at runs ⊢
      exact (running runs).2
    · intro none
      rw [slots_write] at none ⊢
      have before : (state.slots id).method = .none := by
        by_contra asked
        exact asked (method asked ▸ none)
      refine ⟨?_, reply.trans (unasked before).2⟩
      by_contra runs
      exact (running (by simpa using runs)).1 none
    · intro call
      rw [slots_write] at call ⊢
      by_contra hears
      have heard := receiving (by simpa using hears)
      rw [unheard (kind ▸ call)] at heard
      cases heard
    · intro unknown
      rw [slots_write, kind] at unknown
      exact absurd unknown used
    · intro unused
      exact absurd ((sound.slots id).used used) (not_lt.mpr unused)
  · exact sound.survive
  · rfl
  · intro frame member same
    obtain ⟨known, unbegun⟩ := sound.asked frame member
    rw [same] at known unbegun
    constructor
    · rwa [same, slots_write, kind]
    · intro requests
      obtain ⟨asked, _, unreplied⟩ := unbegun requests
      rw [same, slots_write, method asked, reply]
      exact ⟨asked, idle frame member same requests, unreplied⟩
  · exact sound.waiting_write kind

theorem Sound.idle {id : Nat} (sound : Sound serde state) (frame : ClientFrame)
    (member : frame ∈ state.toServer) (same : frame.id = id) (requests : frame.cancel = false) :
    (state.slots id).running = false :=
  same ▸ ((sound.asked frame member).unbegun requests).2.1

theorem Sound.cancels {id : Nat} (sound : Sound serde state) (used : (state.slots id).kind ≠ none) :
    Sound serde (state.request { id, cancel := true }) := by
  refine ⟨fun other => (sound.slots other).elsewhere rfl rfl le_rfl, sound.survive, ?_, ?_,
    sound.waiting⟩
  · intro other member
    rcases List.mem_append.mp member with old | new
    · obtain ⟨known, unbegun⟩ := sound.asked other old
      exact ⟨known, unbegun⟩
    · obtain rfl := List.mem_singleton.mp new
      exact ⟨used, nofun⟩
  · simpa [Connection.request] using sound.once

theorem Sound.emits (id : Nat) (slot : Slot V) (frames : List (ServerFrame V))
    (sound : Sound serde state) (running : (state.slots id).running = true)
    (script : slot.script serde id = (state.slots id).script serde id ++ frames)
    (ids : ∀ frame ∈ frames, frame.id = id)
    (survive : ∀ frame ∈ frames, frame.Survives serde)
    (same : slot.kind = (state.slots id).kind ∧ slot.caller = (state.slots id).caller ∧
      slot.receiving = (state.slots id).receiving ∧ slot.routed = (state.slots id).routed ∧
      slot.method = (state.slots id).method)
    (still : slot.reply ≠ some .stream → slot.produced = [] ∧ slot.ended = false)
    (live : slot.running = true → slot.ended = false) :
    Sound serde { state.write id slot with toClient := state.toClient ++ frames } := by
  obtain ⟨kind, caller, receiving, routed, method⟩ := same
  obtain ⟨before, folded, _, _, _, unheard, blank, fresh⟩ := sound.slots id
  have asked := ((sound.slots id).running running).1
  apply sound.rewrite id
  · intro other different
    exact Function.update_of_ne different _ _
  · intro other different
    have none : frames.filter (·.id = other) = [] := by
      apply List.filter_eq_nil_iff.mpr
      intro frame member
      simpa [ids frame member] using different.symm
    simp [Connection.onWire, none]
  · exact le_rfl
  · constructor
    · have all : frames.filter (·.id = id) = frames := by
        apply List.filter_eq_self.mpr
        intro frame member
        simpa using ids frame member
      simp only [Connection.onWire] at before
      simp [Connection.write, Connection.onWire, script, routed, all, before]
    · simpa [Connection.write, kind, caller, receiving, routed] using folded
    · simpa [Connection.write] using still
    · simpa [Connection.write] using live
    · simp [Connection.write, method, asked]
    · simpa [Connection.write, kind, receiving] using unheard
    · intro unknown
      have none : (state.slots id).kind = .none := by simpa [Connection.write, kind] using unknown
      rw [blank none] at running
      cases running
    · simpa [Connection.write, kind] using fresh
  · intro frame member
    rcases List.mem_append.mp member with old | new
    · exact sound.survive frame old
    · exact survive frame new
  · rfl
  · intro frame member here
    obtain ⟨known, unbegun⟩ := sound.asked frame member
    rw [here] at known
    refine ⟨by simpa [Connection.write, here, kind] using known, ?_⟩
    intro requests
    have idle := sound.idle frame member here requests
    rw [idle] at running
    cases running
  · exact sound.waiting_write kind

theorem Reply.ids (reply : Reply V) (id : Nat) (method : String) :
    ∀ frame ∈ reply.frames serde id method, frame.id = id := by
  intro frame member
  cases reply with
  | value answer => rw [List.mem_singleton.mp member]
  | failed error => rw [List.mem_singleton.mp member]
  | stream =>
      rw [Reply.frames] at member
      split at member
      · rw [List.mem_singleton.mp member]
      · cases member

theorem Reply.survive {reply : Reply V} {id : Nat} (method : String)
    (within : (Action.reply id reply).Within serde state) :
    ∀ frame ∈ reply.frames serde id method, frame.Survives serde := by
  intro frame member
  cases reply with
  | value answer =>
      rw [List.mem_singleton.mp member]
      exact within
  | failed error =>
      rw [List.mem_singleton.mp member]
      refine ⟨serde.flat _ ?_, by simp, by simp⟩
      simp [ServerFrame.encode]
  | stream =>
      rw [Reply.frames] at member
      split at member
      · rw [List.mem_singleton.mp member]
        exact ⟨serde.ready id, fun null => serde.present (Option.some.inj null), by simp⟩
      · cases member

theorem Caller.routeAll_snoc (caller : Caller V) (frames : List (ServerFrame V))
    (frame : ServerFrame V) :
    caller.routeAll (frames ++ [frame]) = ((caller.routeAll frames).route frame).1 := by
  simp [routeAll]

/-- A call's entry only goes away, and the reader never waits for a call. -/
theorem Caller.route_call {caller : Caller V}
    (call : caller.pending = none ∨ caller.pending = some .call) (frame : ServerFrame V) :
    ((caller.route frame).1.pending = none ∨ (caller.route frame).1.pending = some .call) ∧
      (caller.route frame).2 = false := by
  rcases call with gone | call
  · simp only [route, gone]
    cases frame.err <;> cases frame.ok <;> cases frame.item <;> cases frame.done <;> simp [gone]
  · simp only [route, call]
    cases frame.err <;> cases frame.ok <;> cases frame.item <;> cases frame.done <;> simp [call]

theorem Caller.routeAll_call (frames : List (ServerFrame V)) :
    (Kind.call.start.routeAll frames).pending = none ∨
      (Kind.call.start.routeAll frames).pending = some .call := by
  induction frames using List.reverseRecOn with
  | nil => exact .inr rfl
  | append_singleton frames frame ih =>
      rw [routeAll_snoc]
      exact (route_call ih frame).1

/-- The reader takes a frame: it moves from the wire to what has been routed. -/
theorem Sound.routes {sent : ServerFrame V} {rest : List (ServerFrame V)} (sound : Sound serde state)
    (queue : state.toClient = sent :: rest) :
    Sound serde { state.write sent.id { state.slots sent.id with
        caller := ((state.slots sent.id).caller.route sent).1
        routed := (state.slots sent.id).routed ++ [sent] } with
      toClient := rest
      delivering := if ((state.slots sent.id).caller.route sent).2 then some sent.id else none } := by
  obtain ⟨before, folded, still, live, unasked, unheard, blank, fresh⟩ := sound.slots sent.id
  have wire : state.onWire sent.id = sent :: rest.filter (·.id = sent.id) := by
    simp [Connection.onWire, queue]
  have script : (state.slots sent.id).script serde sent.id =
      (state.slots sent.id).routed ++ [sent] ++ rest.filter (·.id = sent.id) := by
    rw [before, wire, List.append_assoc]
    rfl
  have known : (state.slots sent.id).kind ≠ none := by
    intro unknown
    rw [blank unknown] at script
    simp [Slot.script] at script
  apply sound.rewrite sent.id
  · intro other different
    exact Function.update_of_ne different _ _
  · intro other different
    simp [Connection.onWire, queue, different.symm]
  · exact le_rfl
  · constructor
    · simpa [Connection.write, Connection.onWire, Slot.script] using script
    · intro kind same attached
      simp only [Connection.write, Function.update_self] at same attached ⊢
      rw [folded kind same attached, Caller.routeAll_snoc]
    · simpa [Connection.write] using still
    · simpa [Connection.write] using live
    · simpa [Connection.write] using unasked
    · simpa [Connection.write] using unheard
    · intro unknown
      exact absurd (by simpa [Connection.write] using unknown) known
    · simpa [Connection.write] using fresh
  · intro frame member
    exact sound.survive frame (queue ▸ List.mem_cons_of_mem _ member)
  · rfl
  · intro frame member same
    obtain ⟨known, unbegun⟩ := sound.asked frame member
    rw [same] at known unbegun
    exact ⟨by simpa [Connection.write, same] using known,
      by simpa [Connection.write, same] using unbegun⟩
  · intro other waits
    obtain ⟨flag, same⟩ := Option.ite_none_right_eq_some.mp waits
    rw [← Option.some.inj same]
    simp only [Connection.write, Function.update_self]
    refine ⟨known, fun call => ?_⟩
    have idle := (Caller.route_call (Caller.routeAll_call (state.slots sent.id).routed) sent).2
    rw [← folded .call call (.inl rfl), flag] at idle
    cases idle

theorem sound_start : Sound serde ({} : Connection V) where
  slots _ := ⟨rfl, nofun, fun _ => ⟨rfl, rfl⟩, nofun, fun _ => ⟨rfl, rfl⟩, nofun, fun _ => rfl,
    fun _ => rfl⟩
  survive := nofun
  asked := nofun
  once := List.nodup_nil
  waiting := nofun

/-! ## Actions -/

variable [DecidableEq V]

theorem sound_open {kind : Kind} (sound : Sound serde state)
    (within : (Action.open kind).Within serde state)
    (stepped : state.step serde (.open kind) = some after) : Sound serde after := by
  cases stepped
  have bound : state.nextId + 1 < 2 ^ 64 := within
  have next : (state.nextId + 1) % 2 ^ 64 = state.nextId + 1 := Nat.mod_eq_of_lt bound
  have unknown := (sound.slots state.nextId).fresh le_rfl
  have blank := (sound.slots state.nextId).blank unknown
  have script := (sound.slots state.nextId).script
  rw [blank] at script
  apply sound.rewrite state.nextId
  · intro other different
    exact Function.update_of_ne different _ _
  · intro other _
    rfl
  · simp only [next]
    omega
  · constructor
    · simpa [Connection.write, blank, Slot.script, Connection.onWire] using script
    · intro known same _
      simp only [Connection.write, Function.update_self, Option.some.injEq] at same ⊢
      rw [← same, blank]
      rfl
    · simp [Connection.write, blank]
    · simp [Connection.write, blank]
    · simp [Connection.write, blank]
    · simp [Connection.write]
    · simp [Connection.write]
    · intro unused
      simp only [next] at unused
      omega
  · exact sound.survive
  · rfl
  · intro frame member same
    have known := (sound.asked frame member).known
    rw [same] at known
    exact absurd unknown known
  · intro other waits
    obtain ⟨known, stream⟩ := sound.waiting other waits
    by_cases same : other = state.nextId
    · rw [same] at known
      exact absurd unknown known
    · simpa [Connection.write, Function.update_of_ne same] using ⟨known, stream⟩

theorem sound_send {id : Nat} {method : String} (sound : Sound serde state)
    (stepped : state.step serde (.send id method) = some after) : Sound serde after := by
  obtain ⟨⟨known, unasked, attached⟩, same⟩ := Option.ite_none_right_eq_some.mp stepped
  obtain rfl := Option.some.inj same
  have used : (state.slots id).kind ≠ none := Option.isSome_iff_ne_none.mp known
  obtain ⟨idle, unreplied⟩ := (sound.slots id).unasked unasked
  have first : ∀ frame ∈ state.toServer, frame.cancel = false → frame.id ≠ id := by
    intro frame member requests here
    have asked := ((sound.asked frame member).unbegun requests).1
    rw [here] at asked
    exact asked unasked
  have written : Sound serde (state.write id { state.slots id with method := some method }) := by
    refine sound.aside id _ used rfl rfl rfl rfl rfl (fun hears => hears) (fun _ => rfl)
      (fun asked => absurd unasked asked) ?_ sound.idle
    intro runs
    rw [show (state.slots id).running = true from runs] at idle
    cases idle
  refine ⟨fun other => (written.slots other).elsewhere rfl rfl le_rfl, written.survive, ?_, ?_,
    written.waiting⟩
  · intro frame member
    rcases List.mem_append.mp member with old | new
    · obtain ⟨known, unbegun⟩ := written.asked frame old
      exact ⟨known, unbegun⟩
    · obtain rfl := List.mem_singleton.mp new
      refine ⟨?_, fun _ => ?_⟩
      · simpa [Connection.request, Connection.write] using used
      · simp [Connection.request, Connection.write, idle, unreplied]
  · have absent : id ∉ (state.toServer.filter (·.cancel = false)).map ClientFrame.id := by
      intro inside
      obtain ⟨frame, member, here⟩ := List.mem_map.mp inside
      obtain ⟨queued, requests⟩ := List.mem_filter.mp member
      exact first frame queued (by simpa using requests) here
    simp only [Connection.request, toServer_write, List.filter_append, List.map_append]
    exact List.nodup_append_comm.mp (List.nodup_cons.mpr ⟨absent, sound.once⟩)

theorem sound_cancel {id : Nat} (sound : Sound serde state)
    (stepped : state.step serde (.cancel id) = some after) : Sound serde after := by
  obtain ⟨receiving, same⟩ := Option.ite_none_right_eq_some.mp stepped
  obtain rfl := Option.some.inj same
  have used := (sound.slots id).known (.inl receiving)
  refine sound.aside id _ used rfl rfl rfl rfl rfl nofun ?_ (fun _ => rfl)
    (sound.slots id).running sound.idle
  rintro (call | hears)
  · rw [(sound.slots id).unheard call] at receiving
    cases receiving
  · cases hears

theorem sound_sendCancel {id : Nat} (sound : Sound serde state)
    (stepped : state.step serde (.sendCancel id) = some after) : Sound serde after := by
  obtain ⟨cancelling, same⟩ := Option.ite_none_right_eq_some.mp stepped
  obtain rfl := Option.some.inj same
  have used := (sound.slots id).known (.inr cancelling)
  apply Sound.cancels
  · exact sound.aside id _ used rfl rfl rfl rfl rfl (fun hears => hears) (fun _ => rfl)
      (fun _ => rfl) (sound.slots id).running sound.idle
  · simpa using used

theorem sound_dropReceiver {id : Nat} (sound : Sound serde state)
    (stepped : state.step serde (.dropReceiver id) = some after) : Sound serde after := by
  obtain ⟨⟨receiving, _⟩, same⟩ := Option.ite_none_right_eq_some.mp stepped
  obtain rfl := Option.some.inj same
  have used := (sound.slots id).known (.inl receiving)
  exact sound.aside id _ used rfl rfl rfl rfl rfl nofun (fun _ => rfl)
    (fun _ => rfl) (sound.slots id).running sound.idle

theorem sound_take {id : Nat} (sound : Sound serde state)
    (stepped : state.step serde (.take id) = some after) : Sound serde after := by
  obtain ⟨⟨receiving, _⟩, same⟩ := Option.ite_none_right_eq_some.mp stepped
  obtain rfl := Option.some.inj same
  have used := (sound.slots id).known (.inl receiving)
  exact sound.aside id _ used rfl rfl rfl rfl rfl (fun hears => hears) (fun _ => rfl)
    (fun _ => rfl) (sound.slots id).running sound.idle

theorem sound_receive (sound : Sound serde state)
    (stepped : state.step serde .receive = some after) : Sound serde after := by
  cases queue : state.toServer with
  | nil =>
      rw [Connection.step, queue] at stepped
      cases stepped
  | cons frame rest =>
      rw [Connection.step, queue] at stepped
      have taken : Sound serde { state with toServer := rest } := by
        refine ⟨fun id => (sound.slots id).elsewhere rfl rfl le_rfl, sound.survive, ?_, ?_,
          sound.waiting⟩
        · intro other member
          obtain ⟨known, unbegun⟩ := sound.asked other (queue ▸ List.mem_cons_of_mem _ member)
          exact ⟨known, unbegun⟩
        · have once := sound.once
          rw [queue] at once
          exact once.sublist (((List.sublist_cons_self frame rest).filter _).map _)
      obtain ⟨known, unbegun⟩ := sound.asked frame (queue ▸ List.mem_cons_self)
      by_cases cancels : frame.cancel = true
      · simp only [cancels, if_true, Option.some.injEq] at stepped
        rw [← stepped]
        exact taken.aside frame.id _ known rfl rfl rfl rfl rfl (fun hears => hears) (fun _ => rfl)
          (fun _ => rfl) nofun (fun _ _ _ _ => rfl)
      have requests : frame.cancel = false := by simpa using cancels
      obtain ⟨asked, idle, unreplied⟩ := unbegun requests
      simp only [requests, Bool.false_eq_true, if_false] at stepped
      split at stepped
      · rw [← Option.some.inj stepped]
        have unended : (state.slots frame.id).ended = false :=
          ((sound.slots frame.id).still (by simp [unreplied])).2
        refine taken.aside frame.id _ known rfl rfl rfl rfl rfl (fun hears => hears) (fun _ => rfl)
          (fun _ => rfl) (fun _ => ⟨asked, unended⟩) ?_
        intro other member here same
        have once := sound.once
        rw [queue, List.filter_cons_of_pos (by simpa using requests), List.map_cons,
          List.nodup_cons] at once
        apply absurd _ once.1
        rw [← here]
        exact List.mem_map_of_mem (List.mem_filter.mpr ⟨member, by simpa using same⟩)
      · rw [← Option.some.inj stepped]
        exact taken

theorem sound_reply {id : Nat} {reply : Reply V} (sound : Sound serde state)
    (within : (Action.reply id reply).Within serde state)
    (stepped : state.step serde (.reply id reply) = some after) : Sound serde after := by
  obtain ⟨⟨running, unreplied⟩, same⟩ := Option.ite_none_right_eq_some.mp stepped
  obtain rfl := Option.some.inj same
  obtain ⟨unproduced, unended⟩ := (sound.slots id).still (by simp [unreplied])
  refine sound.emits id _ _ running ?_ (reply.ids id _) (Reply.survive _ within)
    ⟨rfl, rfl, rfl, rfl, rfl⟩ (fun _ => ⟨unproduced, unended⟩) (fun _ => unended)
  simp [Slot.script, unreplied, unproduced, unended]

theorem sound_produce {id : Nat} {item : V} (sound : Sound serde state)
    (within : (Action.produce id item).Within serde state)
    (stepped : state.step serde (.produce id item) = some after) : Sound serde after := by
  obtain ⟨⟨running, streams⟩, same⟩ := Option.ite_none_right_eq_some.mp stepped
  obtain rfl := Option.some.inj same
  have unended := (sound.slots id).live running
  refine sound.emits id _ [itemFrame id item] running ?_ ?_ ?_ ⟨rfl, rfl, rfl, rfl, rfl⟩
    (fun other => absurd streams other) (fun _ => unended)
  · simp [Slot.script, streams, unended]
  · simp [itemFrame]
  · intro frame member
    rw [List.mem_singleton.mp member]
    exact within

theorem sound_finish {id : Nat} (sound : Sound serde state)
    (stepped : state.step serde (.finish id) = some after) : Sound serde after := by
  obtain ⟨⟨running, streams⟩, same⟩ := Option.ite_none_right_eq_some.mp stepped
  obtain rfl := Option.some.inj same
  have unended := (sound.slots id).live running
  refine sound.emits id _ [doneFrame V id] running ?_ ?_ ?_ ⟨rfl, rfl, rfl, rfl, rfl⟩
    (fun other => absurd streams other) nofun
  · simp [Slot.script, streams, unended]
  · simp [doneFrame]
  · intro frame member
    rw [List.mem_singleton.mp member]
    refine ⟨serde.flat _ ?_, by simp [doneFrame], by simp [doneFrame]⟩
    simp [doneFrame, ServerFrame.encode]

theorem sound_route (sound : Sound serde state)
    (stepped : state.step serde .route = some after) : Sound serde after := by
  cases queue : state.toClient with
  | nil =>
      simp only [Connection.step, queue] at stepped
      split at stepped
      · rename_i same
        cases same
      · cases stepped
  | cons sent rest =>
      cases waits : state.delivering with
      | some id =>
          simp [Connection.step, queue, waits] at stepped
      | none =>
          have survives := sound.survive sent (queue ▸ List.mem_cons_self)
          simp only [Connection.step, queue, waits, arrives_of_survives survives,
            Option.some.injEq] at stepped
          have shape : after = { state.write sent.id { state.slots sent.id with
                caller := ((state.slots sent.id).caller.route sent).1
                routed := (state.slots sent.id).routed ++ [sent] } with
              toClient := rest
              delivering := if ((state.slots sent.id).caller.route sent).2 then some sent.id
                else none } := by
            rw [← stepped]
            cases ((state.slots sent.id).caller.route sent).2
            · simp [Connection.write, waits]
            · simp [Connection.write]
          rw [shape]
          exact sound.routes queue

theorem sound_deliver (sound : Sound serde state)
    (stepped : state.step serde .deliver = some after) : Sound serde after := by
  cases waits : state.delivering with
  | none =>
      rw [Connection.step, waits] at stepped
      cases stepped
  | some id =>
      rw [Connection.step, waits] at stepped
      obtain ⟨known, stream⟩ := sound.waiting id waits
      have free : Sound serde { state with delivering := none } := by
        refine ⟨fun other => (sound.slots other).elsewhere rfl rfl le_rfl, sound.survive, ?_,
          sound.once, nofun⟩
        intro frame member
        obtain ⟨known, unbegun⟩ := sound.asked frame member
        exact ⟨known, unbegun⟩
      dsimp only at stepped
      split at stepped
      · rename_i dead
        rw [← Option.some.inj stepped]
        apply Sound.cancels
        · refine free.aside id _ known rfl rfl rfl rfl rfl (fun hears => hears) ?_ (fun _ => rfl)
            (sound.slots id).running sound.idle
          rintro (call | hears)
          · exact absurd call stream
          · exact absurd hears (by simpa using dead)
        · simpa using known
      · split at stepped
        · rw [← Option.some.inj stepped]
          exact free
        · cases stepped

/-- Every step within bounds keeps the correspondence. -/
theorem Sound.step {action : Action V} (sound : Sound serde state)
    (within : action.Within serde state) (stepped : state.step serde action = some after) :
    Sound serde after := by
  cases action with
  | «open» kind => exact sound_open sound within stepped
  | send id method => exact sound_send sound stepped
  | cancel id => exact sound_cancel sound stepped
  | sendCancel id => exact sound_sendCancel sound stepped
  | dropReceiver id => exact sound_dropReceiver sound stepped
  | take id => exact sound_take sound stepped
  | receive => exact sound_receive sound stepped
  | reply id reply => exact sound_reply sound within stepped
  | produce id item => exact sound_produce sound within stepped
  | finish id => exact sound_finish sound stepped
  | route => exact sound_route sound stepped
  | deliver => exact sound_deliver sound stepped

theorem sound_of_reaches
    (runs : Reaches (Connection.step serde) (fun state action => action.Within serde state) {} state) :
    Sound serde state :=
  runs.keeps sound_start fun _ _ _ sound within stepped => sound.step within stepped

end Zeron.Rpc
