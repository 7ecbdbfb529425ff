import Zeron.Data.Runs
import Zeron.Device.Receipts

namespace Zeron.Device

open Zeron.Data

/-! # Pending receipts and what will deliver them

A replay to a host that acknowledges leaves an alarm set or nothing pending.
What the room's code never sees is a ping: the runtime answers it, and a socket
that had lapsed is live again without a replay.
-/

variable {uuid : Nat → String} {room : DeviceRoom} {ws : Nat}

section Freshest

theorem freshest_append (best : Option (Nat × Nat)) (hosts : List (Nat × Nat))
    (last : Nat × Nat) :
    freshest best (hosts ++ [last]) none = some last ∨
      freshest best (hosts ++ [last]) none = freshest best hosts none := by
  induction hosts generalizing best with
  | nil =>
      cases best with
      | none => simp [freshest]
      | some held =>
          simp only [List.nil_append, freshest, reduceCtorEq, if_false]
          split <;> simp
  | cons host hosts ih =>
      cases best with
      | none =>
          simp only [List.cons_append, freshest, reduceCtorEq, if_false]
          exact ih (some host)
      | some held =>
          simp only [List.cons_append, freshest, reduceCtorEq, if_false]
          split
          · exact ih (some host)
          · exact ih (some held)

/-- Leaving a socket out of the search is the same as not listing it. -/
theorem freshest_exclude (best : Option (Nat × Nat)) (hosts : List (Nat × Nat)) (ws : Nat) :
    freshest best hosts (some ws) = freshest best (hosts.filter fun host => host.1 ≠ ws) none := by
  induction hosts generalizing best with
  | nil => rfl
  | cons host hosts ih =>
      by_cases same : host.1 = ws
      · have dropped : (host :: hosts).filter (fun host => host.1 ≠ ws) =
            hosts.filter fun host => host.1 ≠ ws := by simp [same]
        rw [dropped, ← ih]
        simp only [freshest, same, if_true]
      · have kept : (host :: hosts).filter (fun host => host.1 ≠ ws) =
            host :: hosts.filter fun host => host.1 ≠ ws := by simp [same]
        have apart : some host.1 ≠ some ws := fun equal => same (Option.some.inj equal)
        rw [kept]
        cases best with
        | none =>
            simp only [freshest, if_neg apart, reduceCtorEq, if_false]
            exact ih _
        | some held =>
            simp only [freshest, if_neg apart, reduceCtorEq, if_false]
            split
            · exact ih _
            · exact ih _

theorem pickLiveHost_later {hosts : List (Nat × Nat)} {exclude : Option Nat} {now ms : Nat}
    (live : pickLiveHost hosts (now + ms) exclude = some ws) :
    pickLiveHost hosts now exclude = some ws := by
  unfold pickLiveHost at live ⊢
  split at live
  · split at live
    · rw [if_pos (by omega)]
      exact live
    · cases live
  · cases live

theorem freshest_mem {best : Option (Nat × Nat)} {hosts : List (Nat × Nat)} {found : Nat × Nat}
    (fresh : freshest best hosts none = some found) : found ∈ hosts ∨ best = some found := by
  induction hosts generalizing best with
  | nil => exact .inr fresh
  | cons host hosts ih =>
      cases best with
      | none =>
          simp only [freshest, reduceCtorEq, if_false] at fresh
          rcases ih fresh with later | here
          · exact .inl (List.mem_cons_of_mem _ later)
          · exact .inl (by simp [Option.some.inj here])
      | some held =>
          simp only [freshest, reduceCtorEq, if_false] at fresh
          split at fresh
          · rcases ih fresh with later | here
            · exact .inl (List.mem_cons_of_mem _ later)
            · exact .inl (by simp [Option.some.inj here])
          · rcases ih fresh with later | here
            · exact .inl (List.mem_cons_of_mem _ later)
            · exact .inr here

/-- The socket left out is never picked. -/
theorem ne_of_pickLiveHost_exclude {hosts : List (Nat × Nat)} {now left : Nat}
    (live : pickLiveHost hosts now (some left) = some ws) : ws ≠ left := by
  unfold pickLiveHost at live
  split at live
  · rename_i best fresh
    split at live
    · cases live
      rw [freshest_exclude] at fresh
      rcases freshest_mem fresh with member | nothing
      · simpa using (List.mem_filter.mp member).2
      · cases nothing
    · cases live
  · cases live

theorem pickLiveHost_append {hosts : List (Nat × Nat)} {last : Nat × Nat} {now : Nat}
    (live : pickLiveHost (hosts ++ [last]) now none = some ws) :
    ws = last.1 ∨ pickLiveHost hosts now none = some ws := by
  unfold pickLiveHost at live ⊢
  rcases freshest_append none hosts last with joined | before
  · rw [joined] at live
    simp only [Option.ite_none_right_eq_some, Option.some.injEq] at live
    exact .inl live.2.symm
  · rw [before] at live
    exact .inr live

end Freshest

/-- Over a host that acknowledges, an idle replay has seen no row. -/
theorem replayRows_idle {rows : List PendingNudge} {replay : Replay}
    (none : (replayRows true rows replay).sent = 0)
    (empty : (replayRows true rows replay).inflight = []) : rows = [] := by
  have grows : ∀ (rows : List PendingNudge) (replay : Replay),
      replay.inflight.length ≤ (replayRows true rows replay).inflight.length ∧
        replay.sent ≤ (replayRows true rows replay).sent := by
    intro rows
    induction rows with
    | nil => exact fun replay => ⟨Nat.le_refl _, Nat.le_refl _⟩
    | cons row rows ih =>
        intro replay
        rw [replayRows_cons_acking]
        split
        · exact ih replay
        · split
          · exact ⟨Nat.le_refl _, Nat.le_refl _⟩
          · have later := ih { replay with
              delivered := replay.delivered ++ [row]
              inflight := replay.inflight ++ [row.token]
              sent := replay.sent + 1 }
            simp only [List.length_append, List.length_singleton] at later
            omega
  cases rows with
  | nil => rfl
  | cons row rows =>
      have started : replay.inflight = [] := by
        have length := (grows (row :: rows) replay).1
        rw [empty] at length
        exact List.eq_nil_of_length_eq_zero (Nat.le_zero.mp length)
      rw [replayRows_cons_acking, started] at none
      simp only [List.contains_nil, Bool.false_eq_true, if_false, List.length_nil, nudgePage,
        ge_iff_le, Nat.le_zero, OfNat.ofNat_ne_zero] at none
      have sent := (grows rows { replay with
        delivered := replay.delivered ++ [row]
        inflight := [] ++ [row.token]
        sent := replay.sent + 1 }).2
      simp only at sent
      omega

namespace DeviceRoom

/-- Socket numbers are handed out once. -/
def Numbered (room : DeviceRoom) : Prop :=
  (room.hosts.map HostSocket.ws).Nodup ∧ ∀ host ∈ room.hosts, host.ws < room.accepted

theorem Numbered.host? (numbered : room.Numbered) {host : HostSocket} (member : host ∈ room.hosts) :
    room.host? host.ws = some host := by
  unfold DeviceRoom.host?
  cases found : room.hosts.find? fun other => other.ws = host.ws with
  | none =>
      have absent := List.find?_eq_none.mp found host member
      simp at absent
  | some other =>
      have same : other.ws = host.ws := by simpa using List.find?_some found
      rw [List.inj_on_of_nodup_map numbered.1 (List.mem_of_find?_eq_some found) member same]

/-- Every pending receipt has been sent, under its token, on this socket. -/
def AllSent (room : DeviceRoom) (host : HostSocket) : Prop :=
  ∀ key token, room.receipt? key = some token → ⟨key, token⟩ ∈ host.frames

/-- An alarm is set, or nothing is pending. -/
def Settled (room : DeviceRoom) : Prop :=
  room.alarm.isSome ∨ ∀ key, room.receipt? key = none

/-- Whenever the live host acknowledges its nudges, an alarm is set or every pending
receipt has been sent to it. -/
def Triggered (room : DeviceRoom) : Prop :=
  ∀ host ∈ room.hosts, room.liveHost none = some host.ws → host.nudgeAck = true →
    room.alarm.isSome ∨ room.AllSent host

theorem Settled.triggered (settled : room.Settled) : room.Triggered := by
  intro host _ _ _
  rcases settled with armed | idle
  · exact .inl armed
  · refine .inr fun key token held => ?_
    rw [idle key] at held
    cases held

theorem Numbered.setHost (numbered : room.Numbered) {change : HostSocket → HostSocket}
    (keeps : ∀ host, (change host).ws = host.ws) : (room.setHost ws change).Numbered := by
  have same : (room.setHost ws change).hosts.map HostSocket.ws = room.hosts.map HostSocket.ws := by
    simp only [DeviceRoom.setHost, List.map_map]
    apply List.map_congr_left
    intro host _
    simp only [Function.comp_apply]
    split
    · exact keeps host
    · rfl
  constructor
  · rw [same]
    exact numbered.1
  · intro host member
    have listed : host.ws ∈ (room.setHost ws change).hosts.map HostSocket.ws :=
      List.mem_map_of_mem member
    rw [same] at listed
    obtain ⟨before, held, number⟩ := List.mem_map.mp listed
    rw [← number]
    exact numbered.2 before held

theorem liveHost_setHost (room : DeviceRoom) (ws : Nat) (change : HostSocket → HostSocket)
    (keeps : ∀ host, (change host).ws = host.ws ∧ (change host).lastSeenAt = host.lastSeenAt)
    (exclude : Option Nat) : (room.setHost ws change).liveHost exclude = room.liveHost exclude := by
  have same : (room.setHost ws change).hosts.map (fun host => (host.ws, host.lastSeenAt)) =
      room.hosts.map fun host => (host.ws, host.lastSeenAt) := by
    simp only [DeviceRoom.setHost, List.map_map]
    apply List.map_congr_left
    intro host _
    simp only [Function.comp_apply]
    split
    · rw [(keeps host).1, (keeps host).2]
    · rfl
  unfold liveHost
  rw [same]
  rfl

/-- What a replay, to whatever socket, never undoes. -/
structure Redelivers (before after : DeviceRoom) : Prop where
  armed : before.alarm.isSome → after.alarm.isSome
  receipts : ∀ key token, after.receipt? key = some token → before.receipt? key = some token
  hosts : ∀ host ∈ after.hosts, ∃ held ∈ before.hosts,
    held.ws = host.ws ∧ held.nudgeAck = host.nudgeAck ∧ held.frames ⊆ host.frames
  live : after.liveHost none = before.liveHost none
  numbered : before.Numbered → after.Numbered

theorem Redelivers.triggered {before after : DeviceRoom} (redelivers : Redelivers before after)
    (triggered : before.Triggered) : after.Triggered := by
  intro host member live acks
  obtain ⟨held, listed, number, same, sent⟩ := redelivers.hosts host member
  rw [redelivers.live, ← number] at live
  rcases triggered held listed live (same.trans acks) with armed | all
  · exact .inl (redelivers.armed armed)
  · exact .inr fun key token pending => sent (all key token (redelivers.receipts key token pending))

end DeviceRoom

theorem receipt?_replayRows {nudgeAck : Bool} {rows : List PendingNudge} {replay : Replay}
    {key token : String}
    (held : (replayRows nudgeAck rows replay).nudges.receipt? key = some token) :
    replay.nudges.receipt? key = some token := by
  induction rows generalizing replay with
  | nil => exact held
  | cons row rows ih =>
      unfold replayRows at held
      split at held
      · exact ih held
      · split at held
        · exact held
        · split at held
          · exact ih held
          · split at held
            · have before := ih held
              exact before
            · have before := ih held
              simp only [Nudges.receipt?_acknowledgeNudge] at before
              split at before
              · cases before
              · exact before

namespace DeviceRoom

theorem redelivers_replayNudges (room : DeviceRoom) (ws : Nat) :
    Redelivers room (room.replayNudges ws) := by
  have unchanged : Redelivers room room :=
    ⟨id, fun _ _ held => held,
      fun host member => ⟨host, member, rfl, rfl, List.Subset.refl _⟩, rfl, id⟩
  unfold replayNudges
  cases found : room.host? ws with
  | none => exact unchanged
  | some host =>
      let replay := replayRows host.nudgeAck (pendingNudges room.nudges)
        { inflight := host.nudgeInflight, nudges := room.nudges }
      let note := fun host : HostSocket =>
        { host with
          nudgeInflight := replay.inflight
          frames := if host.isOpen then host.frames ++ replay.delivered else host.frames }
      let kept := { room with nudges := replay.nudges }.setHost ws note
      have sameHost : ∀ host, (note host).ws = host.ws ∧
          (note host).lastSeenAt = host.lastSeenAt := fun host => ⟨rfl, rfl⟩
      have marked : Redelivers room kept := by
        constructor
        · exact id
        · exact fun key token held => receipt?_replayRows held
        · intro after member
          obtain ⟨before, listed, same⟩ := List.mem_map.mp member
          subst same
          refine ⟨before, listed, ?_⟩
          split
          · refine ⟨rfl, rfl, ?_⟩
            dsimp only [note]
            split
            · exact List.subset_append_left _ _
            · exact List.Subset.refl _
          · exact ⟨rfl, rfl, List.Subset.refl _⟩
        · exact liveHost_setHost { room with nudges := replay.nudges } ws note sameHost none
        · intro numbered
          have retired : ({ room with nudges := replay.nudges } : DeviceRoom).Numbered := numbered
          exact retired.setHost fun host => (sameHost host).1
      dsimp only
      split
      · exact ⟨fun _ => rfl, marked.receipts, marked.hosts, marked.live, marked.numbered⟩
      · exact marked

/-- A replay to a host that acknowledges sets the alarm unless nothing is pending. -/
theorem settled_replayNudges {host : HostSocket} (found : room.host? ws = some host)
    (acks : host.nudgeAck = true) : (room.replayNudges ws).Settled := by
  unfold replayNudges
  rw [found]
  simp only [acks]
  split
  · exact .inl rfl
  · rename_i idle
    simp only [ne_eq, not_or, not_not] at idle
    have noRows := replayRows_idle idle.1 idle.2
    refine .inr fun key => ?_
    have none := Nudges.receipt?_of_pendingNudges_nil noRows key
    rw [← none]
    simp only [receipt?, setHost, noRows, replayRows]

/-- A replay to a live host leaves the room triggered: a host that acknowledges is settled,
and of any other the property says nothing. -/
theorem triggered_replayNudges_live (numbered : room.Numbered)
    (live : room.liveHost none = some ws) : (room.replayNudges ws).Triggered := by
  have redelivers := redelivers_replayNudges room ws
  intro after member nowLive acks
  obtain ⟨held, listed, number, same, _⟩ := redelivers.hosts after member
  rw [redelivers.live, live] at nowLive
  have here : held.ws = ws := by
    rw [number]
    exact (Option.some.inj nowLive).symm
  have found := numbered.host? listed
  rw [here] at found
  exact (settled_replayNudges found (same.trans acks)).triggered after member
    (by rw [redelivers.live, live]; exact nowLive) acks

/-- Whom the runtime's own events hand the room to: a ping makes its socket seen now, and a
close leaves its socket out. -/
def takesOver (room : DeviceRoom) : Event → Option Nat
  | .ping ws => (room.pinged ws).liveHost none
  | .close ws => room.liveHost (some ws)
  | _ => none

/-- The step hands the room to no acknowledging host it was not already routed to, unless
an alarm is set or everything pending has been sent to that host. -/
def Covered (room : DeviceRoom) (event : Event) : Prop :=
  ∀ host ∈ room.hosts, room.takesOver event = some host.ws → room.liveHost none ≠ some host.ws →
    host.nudgeAck = true → room.alarm.isSome ∨ room.AllSent host

theorem liveHost_socketClosed (room : DeviceRoom) (ws : Nat) :
    (room.socketClosed ws).liveHost none = room.liveHost (some ws) := by
  unfold liveHost pickLiveHost
  rw [freshest_exclude]
  simp only [socketClosed, List.filter_map]
  rfl

/-- The room a ping or a close leaves: the same tables and alarm, and every socket with the
frames it was sent. -/
theorem triggered_of_covered {event : Event} {after : DeviceRoom} (triggered : room.Triggered)
    (covered : room.Covered event)
    (tables : after.nudges = room.nudges) (alarm : after.alarm = room.alarm)
    (live : after.liveHost none = room.takesOver event)
    (hosts : ∀ host ∈ after.hosts, ∃ held ∈ room.hosts,
      held.ws = host.ws ∧ held.nudgeAck = host.nudgeAck ∧ held.frames = host.frames) :
    after.Triggered := by
  intro host member nowLive acks
  obtain ⟨held, listed, number, same, frames⟩ := hosts host member
  rw [live, ← number] at nowLive
  have settled : room.alarm.isSome ∨ room.AllSent held := by
    by_cases before : room.liveHost none = some held.ws
    · exact triggered held listed before (same.trans acks)
    · exact covered held listed nowLive before (same.trans acks)
  rcases settled with armed | all
  · exact .inl (alarm ▸ armed)
  · refine .inr fun key token pending => ?_
    rw [← frames]
    rw [receipt?, tables] at pending
    exact all key token pending

theorem Numbered.acceptHost (numbered : room.Numbered) (userId : String) (nudgeAck : Bool) :
    (room.acceptHost userId nudgeAck).Numbered := by
  constructor
  · simp only [DeviceRoom.acceptHost, List.map_append, List.map_map, List.map_singleton]
    refine List.Nodup.append numbered.1 (List.nodup_singleton _) ?_
    intro number listed joined
    obtain ⟨host, member, same⟩ := List.mem_map.mp listed
    have below := numbered.2 host member
    simp only [Function.comp_apply] at same
    rw [List.mem_singleton.mp joined] at same
    omega
  · intro host member
    rcases List.mem_append.mp member with superseded | joined
    · obtain ⟨before, listed, same⟩ := List.mem_map.mp superseded
      subst same
      exact Nat.lt_succ_of_lt (numbered.2 before listed)
    · rw [List.mem_singleton.mp joined]
      exact Nat.lt_succ_self _

theorem numbered_step (numbered : room.Numbered) (event : Event) :
    (room.step uuid event).Numbered := by
  cases event with
  | nudge userId body =>
      simp only [step]
      rcases postNudge_cases uuid room userId body with refused | ⟨chatId, _, _, enqueued⟩
      · rw [refused.1]
        exact numbered
      · rw [enqueued]
        simp only [replayLive]
        split
        · exact (redelivers_replayNudges _ _).numbered numbered
        · exact numbered
  | join userId nudgeAck =>
      simp only [step, joinHost]
      split
      · exact (redelivers_replayNudges _ _).numbered (numbered.acceptHost userId nudgeAck)
      · exact numbered
  | alarm =>
      simp only [step, alarmFires]
      split
      · exact numbered
      · split
        · exact numbered
        · split
          · exact numbered
          · refine (redelivers_replayNudges _ _).numbered (Numbered.setHost ?_ fun _ => rfl)
            exact numbered
  | ack ws chatId token =>
      simp only [step, nudgeAcked]
      split
      · exact numbered
      · split
        · refine (redelivers_replayNudges _ _).numbered (Numbered.setHost ?_ fun _ => rfl)
          exact numbered
        · exact numbered
  | ping ws => exact numbered.setHost fun _ => rfl
  | close ws =>
      refine ⟨numbered.1.sublist (List.filter_sublist.map _), ?_⟩
      exact fun host member => numbered.2 host (List.mem_filter.mp member).1
  | tick ms => exact numbered

theorem triggered_postNudge (numbered : room.Numbered) (triggered : room.Triggered)
    (userId : String) (body : Option String) :
    (room.postNudge uuid userId body).1.Triggered := by
  rcases postNudge_cases uuid room userId body with refused | ⟨chatId, _, _, enqueued⟩
  · rw [refused.1]
    exact triggered
  · rw [enqueued]
    simp only [replayLive]
    split
    · rename_i ws live
      have numberedNow : (room.enqueue uuid chatId).1.Numbered := numbered
      exact triggered_replayNudges_live numberedNow live
    · -- with no live host there is nothing to show
      rename_i none
      intro host _ live _
      rw [none] at live
      cases live

theorem triggered_joinHost (numbered : room.Numbered) (triggered : room.Triggered)
    (userId : String) (nudgeAck : Bool) : (room.joinHost userId nudgeAck).Triggered := by
  unfold joinHost
  split
  · let joined : HostSocket := { ws := room.accepted, nudgeAck := nudgeAck, joinedAt := room.now }
    have listed : joined ∈ (room.acceptHost userId nudgeAck).hosts :=
      List.mem_append_right _ (List.mem_singleton_self _)
    have found := (numbered.acceptHost userId nudgeAck).host? listed
    cases nudgeAck with
    | true => exact (settled_replayNudges found rfl).triggered
    | false =>
        apply (redelivers_replayNudges _ _).triggered
        intro host member live acks
        rcases List.mem_append.mp member with superseded | joined
        · obtain ⟨before, listed, same⟩ := List.mem_map.mp superseded
          subst same
          -- the host routed to is an older one, as it was before the join
          have older : room.liveHost none = some before.ws := by
            have seen : (room.acceptHost userId false).hosts.map
                (fun host => (host.ws, host.lastSeenAt)) =
                room.hosts.map (fun host => (host.ws, host.lastSeenAt)) ++
                  [(room.accepted, max 0 room.now)] := by
              simp only [acceptHost, List.map_append, List.map_map]
              rfl
            unfold liveHost at live
            rw [seen] at live
            rcases pickLiveHost_append live with joined | older
            · have below := numbered.2 before listed
              simp only at joined
              omega
            · exact older
          exact triggered before listed older acks
        · rw [List.mem_singleton.mp joined] at acks
          cases acks
  · exact triggered

theorem triggered_alarmFires (numbered : room.Numbered) (triggered : room.Triggered) :
    room.alarmFires.Triggered := by
  unfold alarmFires
  split
  · exact triggered
  · split
    · exact triggered
    · dsimp only
      split
      · rename_i none
        intro host _ live _
        have same : room.liveHost .none = some host.ws := live
        rw [show room.liveHost .none = .none from none] at same
        cases same
      · rename_i ws live
        apply triggered_replayNudges_live
        · have fired : ({ room with alarm := none } : DeviceRoom).Numbered := numbered
          exact fired.setHost fun _ => rfl
        · have same := liveHost_setHost { room with alarm := none } ws
            (fun host => { host with nudgeInflight := [] }) (fun host => ⟨rfl, rfl⟩) none
          exact same.trans live

theorem triggered_nudgeAcked (numbered : room.Numbered) (triggered : room.Triggered)
    (ws : Nat) (chatId token : String) : (room.nudgeAcked ws chatId token).Triggered := by
  unfold nudgeAcked
  split
  · exact triggered
  · rename_i host found
    split
    · rename_i acks
      let retired := { room with nudges := acknowledgeNudge room.nudges chatId token }
      let drop := fun host : HostSocket =>
        { host with nudgeInflight := host.nudgeInflight.filter (· ≠ token) }
      have numberedNow : (retired.setHost ws drop).Numbered :=
        (show retired.Numbered from numbered).setHost fun _ => rfl
      have listed := mem_of_host? found
      have changed : drop host ∈ (retired.setHost ws drop).hosts :=
        List.mem_map.mpr ⟨host, listed.1, if_pos listed.2⟩
      have foundNow := numberedNow.host? changed
      rw [show (drop host).ws = ws from listed.2] at foundNow
      exact (settled_replayNudges foundNow acks).triggered
    · exact triggered

theorem mem_pinged {host : HostSocket} (member : host ∈ (room.pinged ws).hosts) :
    ∃ held ∈ room.hosts,
      held.ws = host.ws ∧ held.nudgeAck = host.nudgeAck ∧ held.frames = host.frames := by
  obtain ⟨held, listed, same⟩ := List.mem_map.mp member
  subst same
  refine ⟨held, listed, ?_⟩
  split <;> exact ⟨rfl, rfl, rfl⟩

theorem triggered_step (numbered : room.Numbered) (triggered : room.Triggered) {event : Event}
    (covered : room.Covered event) : (room.step uuid event).Triggered := by
  cases event with
  | nudge userId body => exact triggered_postNudge numbered triggered userId body
  | join userId nudgeAck => exact triggered_joinHost numbered triggered userId nudgeAck
  | alarm => exact triggered_alarmFires numbered triggered
  | ack ws chatId token => exact triggered_nudgeAcked numbered triggered ws chatId token
  | ping ws => exact triggered_of_covered triggered covered rfl rfl rfl fun _ => mem_pinged
  | close ws =>
      refine triggered_of_covered triggered covered rfl rfl (liveHost_socketClosed room ws) ?_
      intro host member
      exact ⟨host, (List.mem_filter.mp member).1, rfl, rfl, rfl⟩
  | tick ms =>
      intro host member live acks
      exact triggered host member (pickLiveHost_later live) acks

/-- The runs whose steps are all covered. -/
def CoveredRuns (uuid : Nat → String) : DeviceRoom → DeviceRoom → Prop :=
  Reaches (fun room event => some (room.step uuid event)) Covered

theorem CoveredRuns.keeps (runs : CoveredRuns uuid {} room) :
    room.Numbered ∧ room.Triggered := by
  refine @Reaches.keeps _ _ _ _ _ _ (fun room => room.Numbered ∧ room.Triggered) runs ?_ ?_
  · exact ⟨⟨List.nodup_nil, fun host member => by cases member⟩, fun host member => by cases member⟩
  · intro before event after holds covered stepped
    cases stepped
    exact ⟨numbered_step holds.1 event, triggered_step holds.1 holds.2 covered⟩

/-- An uncovered ping or close leaves the room routed to a host that something pending was
never sent to, with no alarm set. -/
theorem covered_of_triggered {event : Event} {after : DeviceRoom}
    (tables : after.nudges = room.nudges) (alarm : after.alarm = room.alarm)
    (live : after.liveHost none = room.takesOver event)
    (hosts : ∀ held ∈ room.hosts, room.takesOver event = some held.ws → ∃ host ∈ after.hosts,
      held.ws = host.ws ∧ held.nudgeAck = host.nudgeAck ∧ held.frames = host.frames)
    (triggered : after.Triggered) : room.Covered event := by
  intro held listed taken _ acks
  obtain ⟨host, member, number, same, frames⟩ := hosts held listed taken
  have nowLive : after.liveHost none = some host.ws := by rw [live, taken, number]
  rcases triggered host member nowLive (same.symm.trans acks) with armed | all
  · exact .inl (alarm ▸ armed)
  · refine .inr fun key token pending => ?_
    rw [frames]
    apply all
    rw [receipt?, tables]
    exact pending

theorem covered_of_triggered_step {event : Event}
    (triggered : (room.step uuid event).Triggered) : room.Covered event := by
  cases event with
  | ping ws =>
      have stepped : (room.pinged ws).Triggered := triggered
      refine covered_of_triggered (rfl : (room.pinged ws).nudges = room.nudges) rfl rfl ?_ stepped
      intro held listed _
      refine ⟨_, List.mem_map_of_mem listed, ?_⟩
      split <;> exact ⟨rfl, rfl, rfl⟩
  | close ws =>
      have stepped : (room.socketClosed ws).Triggered := triggered
      refine covered_of_triggered (rfl : (room.socketClosed ws).nudges = room.nudges) rfl
        (liveHost_socketClosed room ws) ?_ stepped
      intro held listed taken
      refine ⟨held, List.mem_filter.mpr ⟨listed, ?_⟩, rfl, rfl, rfl⟩
      have apart : held.ws ≠ ws := ne_of_pickLiveHost_exclude taken
      simpa using apart
  | nudge userId body => exact fun _ _ taken => by cases taken
  | join userId nudgeAck => exact fun _ _ taken => by cases taken
  | alarm => exact fun _ _ taken => by cases taken
  | ack ws chatId token => exact fun _ _ taken => by cases taken
  | tick ms => exact fun _ _ taken => by cases taken

end DeviceRoom

end Zeron.Device
