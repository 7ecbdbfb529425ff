import Zeron.Data.Runs

namespace Zeron.Rpc

open Zeron.Data

/-! # The end of a connection

A request enters the pending map before its frame is sent.  When the socket's
pump has ended, its two channel ends are dropped one after the other, in an
order the language leaves open; the reader drains the map once, when its own
end has gone and nothing is buffered any more.
-/

inductive Stage
  | idle
  | inserted
  | sent
  | failed
deriving DecidableEq, Repr

structure Waiter where
  stage : Stage := .idle
  /-- The id is in the pending map. -/
  entry : Bool := false
  /-- The reply or the error has been handed over, or the requester is gone. -/
  resolved : Bool := false
deriving DecidableEq, Repr

structure Closing where
  nextId : Nat := 1
  waiters : Nat → Waiter := fun _ => {}
  pumping : Bool := true
  /-- `out_rx` and `in_tx`, the pump's ends. -/
  outbound : Bool := true
  inbound : Bool := true
  buffered : Nat := 0
  drained : Bool := false

namespace Closing

inductive Act
  | insert
  /-- The send of a request's frame completes, or fails. -/
  | send (id : Nat)
  | sendFails (id : Nat)
  /-- The requester goes away while its send waits for room. -/
  | abandon (id : Nat)
  /-- A subscription is dropped. -/
  | cancel (id : Nat)
  | push
  /-- The reader takes a frame, which may be the last of an id. -/
  | route (ends : Option Nat)
  | pumpEnds
  | dropOutbound
  | dropInbound
  | drain
deriving DecidableEq, Repr

def write (state : Closing) (id : Nat) (waiter : Waiter) : Closing :=
  { state with waiters := Function.update state.waiters id waiter }

def step (state : Closing) : Act → Option Closing
  | .insert =>
      some { state.write state.nextId { stage := .inserted, entry := true } with
        nextId := state.nextId + 1 }
  | .send id =>
      if (state.waiters id).stage = .inserted ∧ state.outbound = true then
        some (state.write id { state.waiters id with stage := .sent })
      else none
  | .sendFails id =>
      if (state.waiters id).stage = .inserted ∧ state.outbound = false then
        some (state.write id { stage := .failed, entry := false, resolved := true })
      else none
  | .abandon id =>
      if (state.waiters id).stage = .inserted ∧ (state.outbound = true ∨ state.drained = false) then
        some (state.write id { state.waiters id with stage := .failed, resolved := true })
      else none
  | .cancel id =>
      if (state.waiters id).stage ≠ .idle then
        some (state.write id { stage := .failed, entry := false, resolved := true })
      else none
  | .push => if state.pumping then some { state with buffered := state.buffered + 1 } else none
  | .route ends =>
      if state.drained = false ∧ 0 < state.buffered then
        let state := { state with buffered := state.buffered - 1 }
        match ends with
        | none => some state
        | some id =>
            if (state.waiters id).entry then
              some (state.write id { state.waiters id with entry := false, resolved := true })
            else some state
      else none
  | .pumpEnds => if state.pumping then some { state with pumping := false } else none
  | .dropOutbound =>
      if state.pumping = false ∧ state.outbound = true then some { state with outbound := false }
      else none
  | .dropInbound =>
      if state.pumping = false ∧ state.inbound = true then some { state with inbound := false }
      else none
  | .drain =>
      if state.inbound = false ∧ state.buffered = 0 ∧ state.drained = false then
        some { state with
          drained := true
          waiters := fun id =>
            let waiter := state.waiters id
            if waiter.entry then { waiter with entry := false, resolved := true } else waiter }
      else none

/-- Once the reader has exited and no request is between its insert and its send, the map is
empty and every request has its reply or an error. -/
def Released (state : Closing) : Prop :=
  state.drained = true → (∀ id, (state.waiters id).stage ≠ .inserted) →
    ∀ id, (state.waiters id).entry = false ∧
      ((state.waiters id).stage ≠ .idle → (state.waiters id).resolved = true)

/-- No send completes, or is given up, for a request that entered the map after it was drained. -/
def InTime (state : Closing) : Act → Prop
  | .send id | .abandon id => state.drained = false ∨ (state.waiters id).entry = false
  | _ => True

/-- A request without an entry has been resolved, and after the drain an entry belongs to a
request not yet sent. -/
structure Held (state : Closing) : Prop where
  entry : ∀ id, (state.waiters id).stage ≠ .idle →
    (state.waiters id).entry = true ∨ (state.waiters id).resolved = true
  idle : ∀ id, (state.waiters id).stage = .idle → (state.waiters id).entry = false
  late : state.drained = true → ∀ id, (state.waiters id).entry = true →
    (state.waiters id).stage = .inserted

theorem Held.released {state : Closing} (held : Held state) : Released state := by
  intro drained sent id
  have gone : (state.waiters id).entry = false := by
    by_contra entry
    exact sent id (held.late drained id (by simpa using entry))
  refine ⟨gone, fun known => ?_⟩
  rcases held.entry id known with entry | resolved
  · rw [gone] at entry
    cases entry
  · exact resolved

/-- A step about one request. -/
theorem Held.write {state : Closing} {id : Nat} {waiter : Waiter} (held : Held state)
    (entry : waiter.stage ≠ .idle → waiter.entry = true ∨ waiter.resolved = true)
    (idle : waiter.stage = .idle → waiter.entry = false)
    (late : state.drained = true → waiter.entry = true → waiter.stage = .inserted) :
    Held (state.write id waiter) := by
  have here : (state.write id waiter).waiters id = waiter := Function.update_self _ _ _
  have there : ∀ other, other ≠ id → (state.write id waiter).waiters other = state.waiters other :=
    fun other different => Function.update_of_ne different _ _
  constructor
  · intro other
    by_cases same : other = id
    · rw [same, here]
      exact entry
    · rw [there other same]
      exact held.entry other
  · intro other
    by_cases same : other = id
    · rw [same, here]
      exact idle
    · rw [there other same]
      exact held.idle other
  · intro drained other
    by_cases same : other = id
    · rw [same, here]
      exact late drained
    · rw [there other same]
      exact held.late drained other

theorem Held.step {state after : Closing} {act : Act} (held : Held state)
    (inTime : state.InTime act) (stepped : state.step act = some after) : Held after := by
  cases act with
  | insert =>
      cases stepped
      obtain ⟨entry, idle, late⟩ := @Held.write state state.nextId
        { stage := .inserted, entry := true } held (fun _ => .inl rfl) nofun (fun _ _ => rfl)
      exact ⟨entry, idle, late⟩
  | send id =>
      obtain ⟨⟨inserted, _⟩, same⟩ := Option.ite_none_right_eq_some.mp stepped
      obtain rfl := Option.some.inj same
      apply held.write
      · exact fun _ => held.entry id (by simp [inserted])
      · nofun
      · intro drained entry
        rcases inTime with early | gone
        · rw [drained] at early
          cases early
        · exact absurd entry (by simp [gone])
  | abandon id =>
      obtain ⟨_, same⟩ := Option.ite_none_right_eq_some.mp stepped
      obtain rfl := Option.some.inj same
      refine held.write (fun _ => .inr rfl) nofun ?_
      intro drained entry
      rcases inTime with early | gone
      · rw [drained] at early
        cases early
      · exact absurd entry (by simp [gone])
  | sendFails id =>
      obtain ⟨_, same⟩ := Option.ite_none_right_eq_some.mp stepped
      obtain rfl := Option.some.inj same
      exact held.write (fun _ => .inr rfl) (fun _ => rfl) nofun
  | cancel id =>
      obtain ⟨_, same⟩ := Option.ite_none_right_eq_some.mp stepped
      obtain rfl := Option.some.inj same
      exact held.write (fun _ => .inr rfl) (fun _ => rfl) nofun
  | push =>
      obtain ⟨_, same⟩ := Option.ite_none_right_eq_some.mp stepped
      obtain rfl := Option.some.inj same
      exact ⟨held.entry, held.idle, held.late⟩
  | route ends =>
      obtain ⟨_, same⟩ := Option.ite_none_right_eq_some.mp stepped
      have shorter : Held { state with buffered := state.buffered - 1 } :=
        ⟨held.entry, held.idle, held.late⟩
      cases ends with
      | none =>
          obtain rfl := Option.some.inj same
          exact shorter
      | some id =>
          dsimp only at same
          split at same
          · obtain rfl := Option.some.inj same
            exact shorter.write (fun _ => .inr rfl) (fun _ => rfl) nofun
          · obtain rfl := Option.some.inj same
            exact shorter
  | pumpEnds =>
      obtain ⟨_, same⟩ := Option.ite_none_right_eq_some.mp stepped
      obtain rfl := Option.some.inj same
      exact ⟨held.entry, held.idle, held.late⟩
  | dropOutbound =>
      obtain ⟨_, same⟩ := Option.ite_none_right_eq_some.mp stepped
      obtain rfl := Option.some.inj same
      exact ⟨held.entry, held.idle, held.late⟩
  | dropInbound =>
      obtain ⟨_, same⟩ := Option.ite_none_right_eq_some.mp stepped
      obtain rfl := Option.some.inj same
      exact ⟨held.entry, held.idle, held.late⟩
  | drain =>
      obtain ⟨_, same⟩ := Option.ite_none_right_eq_some.mp stepped
      obtain rfl := Option.some.inj same
      constructor
      · intro id known
        by_cases entry : (state.waiters id).entry = true
        · simp [entry]
        · have stage : (state.waiters id).stage ≠ .idle := by simpa [entry] using known
          simpa [entry] using held.entry id stage
      · intro id idle
        by_cases entry : (state.waiters id).entry = true <;> simp [entry]
      · intro _ id entry
        by_cases before : (state.waiters id).entry = true <;> simp [before] at entry

theorem held_start : Held {} := ⟨nofun, fun _ _ => rfl, nofun⟩

theorem calls_released {state : Closing} (runs : Reaches step InTime {} state) : Released state :=
  (runs.keeps held_start fun _ _ _ held inTime stepped => held.step inTime stepped).released

/-- A call in flight and one still to be sent when the connection dies. -/
def dying : List Act :=
  [.insert, .send 1, .insert, .pumpEnds, .dropInbound, .drain, .dropOutbound, .sendFails 2]

instance (state : Closing) : (act : Act) → Decidable (state.InTime act)
  | .send _ | .abandon _ => inferInstanceAs (Decidable (_ ∨ _))
  | .insert | .sendFails _ | .cancel _ | .push | .route _ | .pumpEnds | .dropOutbound
  | .dropInbound | .drain => .isTrue trivial

theorem calls_released_dying : ∃ state : Closing,
    (state.drained = true ∧ (state.waiters 1).resolved = true) ∧ Released state := by
  have ran : (runAll step (fun state act => state.InTime act) {} dying).map
      (fun state => (state.drained, (state.waiters 1).resolved)) = some (true, true) := by
    rfl
  obtain ⟨state, ran, held⟩ := Option.map_eq_some_iff.mp ran
  refine ⟨state, Prod.mk.inj held, calls_released ((reaches_of_runAll ran).mono ?_)⟩
  exact fun _ _ inTime => of_decide_eq_true inTime

/-- A call made between the two drops, after the drain. -/
def betweenDrops : List Act :=
  [.pumpEnds, .dropInbound, .drain, .insert, .send 1, .dropOutbound]

theorem call_left_between_drops : ∃ state : Closing,
    Reaches step (fun _ _ => True) {} state ∧ ¬ Released state := by
  obtain ⟨state, ran⟩ : ∃ state, runAll step (fun _ _ => true) {} betweenDrops = some state :=
    ⟨_, rfl⟩
  refine ⟨state, (reaches_of_runAll ran).mono fun _ _ _ => trivial, ?_⟩
  cases ran
  intro released
  have sent := released rfl (by
    intro id
    by_cases same : id = 1 <;> simp [write, same]) 1
  exact absurd sent.1 (by decide)

/-! ## The other order -/

/-- The pump's outbound end goes first. -/
def OutboundFirst (state : Closing) : Act → Prop
  | .dropInbound => state.outbound = false
  | _ => True

structure Ordered (state : Closing) : Prop where
  drained : state.drained = true → state.inbound = false
  inbound : state.inbound = false → state.outbound = false

/-- No send completes after a drain that came behind the outbound end. -/
theorem Ordered.inTime {state after : Closing} {act : Act} (ordered : Ordered state)
    (stepped : state.step act = some after) : state.InTime act := by
  have alive : state.outbound = true → state.drained = false := by
    intro alive
    by_contra drained
    rw [ordered.inbound (ordered.drained (by simpa using drained))] at alive
    cases alive
  cases act with
  | send id =>
      obtain ⟨⟨_, outbound⟩, _⟩ := Option.ite_none_right_eq_some.mp stepped
      exact .inl (alive outbound)
  | abandon id =>
      obtain ⟨⟨_, either⟩, _⟩ := Option.ite_none_right_eq_some.mp stepped
      exact .inl (either.elim alive fun early => early)
  | _ => trivial

theorem Ordered.step {state after : Closing} {act : Act} (ordered : Ordered state)
    (first : state.OutboundFirst act) (stepped : state.step act = some after) : Ordered after := by
  obtain ⟨drained, inbound⟩ := ordered
  cases act with
  | insert =>
      cases stepped
      exact ⟨drained, inbound⟩
  | route ends =>
      obtain ⟨_, same⟩ := Option.ite_none_right_eq_some.mp stepped
      cases ends with
      | none =>
          obtain rfl := Option.some.inj same
          exact ⟨drained, inbound⟩
      | some id =>
          dsimp only at same
          split at same
          all_goals
            obtain rfl := Option.some.inj same
            exact ⟨drained, inbound⟩
  | dropOutbound =>
      obtain ⟨_, same⟩ := Option.ite_none_right_eq_some.mp stepped
      obtain rfl := Option.some.inj same
      exact ⟨drained, fun _ => rfl⟩
  | dropInbound =>
      obtain ⟨_, same⟩ := Option.ite_none_right_eq_some.mp stepped
      obtain rfl := Option.some.inj same
      exact ⟨fun _ => rfl, fun _ => first⟩
  | drain =>
      obtain ⟨⟨gone, _⟩, same⟩ := Option.ite_none_right_eq_some.mp stepped
      obtain rfl := Option.some.inj same
      exact ⟨fun _ => gone, inbound⟩
  | send _ | sendFails _ | abandon _ | cancel _ | push | pumpEnds =>
      obtain ⟨_, same⟩ := Option.ite_none_right_eq_some.mp stepped
      obtain rfl := Option.some.inj same
      exact ⟨drained, inbound⟩

/-- With the outbound end dropped first, no request is ever left waiting. -/
theorem released_of_outboundFirst {state : Closing}
    (runs : Reaches step OutboundFirst {} state) : Released state := by
  have both : Held state ∧ Ordered state := by
    apply @Reaches.keeps _ _ _ _ _ _ (fun state => Held state ∧ Ordered state) runs
      ⟨held_start, nofun, nofun⟩
    intro before act after ⟨held, ordered⟩ first stepped
    exact ⟨held.step (ordered.inTime stepped) stepped, ordered.step first stepped⟩
  exact both.1.released

instance (state : Closing) : (act : Act) → Decidable (state.OutboundFirst act)
  | .dropInbound => inferInstanceAs (Decidable (_ = _))
  | .insert | .send _ | .sendFails _ | .abandon _ | .cancel _ | .push | .route _ | .pumpEnds
  | .dropOutbound | .drain => .isTrue trivial

/-- A call that finds the outbound end gone, and one whose reply never came. -/
theorem released_of_outboundFirst_dying : ∃ state : Closing,
    (state.drained = true ∧ (state.waiters 1).resolved = true) ∧ Released state := by
  have ran : (runAll step (fun state act => state.OutboundFirst act) {}
      [.insert, .send 1, .insert, .pumpEnds, .dropOutbound, .sendFails 2, .dropInbound, .drain]).map
      (fun state => (state.drained, (state.waiters 1).resolved)) = some (true, true) := by
    rfl
  obtain ⟨state, ran, held⟩ := Option.map_eq_some_iff.mp ran
  refine ⟨state, Prod.mk.inj held, released_of_outboundFirst ((reaches_of_runAll ran).mono ?_)⟩
  exact fun _ _ first => of_decide_eq_true first

end Closing

end Zeron.Rpc
