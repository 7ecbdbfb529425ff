import Zeron.Command.Evaluate

namespace Zeron.Command

/-! # Pending sends and their retry

The composer lists the sends of its device that have not landed in the
transcript, and says of each how its delivery stands.  A retry issues the dead
ones anew under their message ids.
-/

def undeliveredGraceMs : Int64 := 120000

inductive SendState where
  | sending
  | queued
  | failed
deriving DecidableEq

inductive PendingKind where
  | run
  | steer
deriving DecidableEq

def sendState (startedMs : Int64) (degraded dead : Bool) (now : Int64) : SendState :=
  if dead ∨ now - startedMs > undeliveredGraceMs then .failed
  else if degraded then .queued
  else .sending

/-- The message a run or a steer writes, with its text. -/
def SessionCommandPayload.send : SessionCommandPayload → Option (String × String × PendingKind)
  | .run request messageId => some (messageId, request.prompt, .run)
  | .steer prompt (some messageId) => some (messageId, prompt, .steer)
  | .steer _ none | .interrupt | .respondInput _ _ => none

structure Attempt where
  text : String
  kind : PendingKind
  firstIssued : Int64
  live : Bool
  dead : Bool
deriving DecidableEq

structure PendingSend where
  messageId : String
  text : String
  kind : PendingKind
  state : SendState
  sentAtMs : Int64
deriving DecidableEq

def SessionCommandEntry.lapsed (command : SessionCommandEntry) (now : Int64) : Bool :=
  decide (now ≥ command.effectiveExpiry)

/-- Whether a command is a live or a dead attempt; a cancelled one is neither. -/
def SessionCommandEntry.standing (command : SessionCommandEntry) (now : Int64) :
    Option (Bool × Bool) :=
  match command.status with
  | .pending => some (!command.lapsed now, command.lapsed now)
  | .applied => some (true, false)
  | .rejected | .expired | .superseded => some (false, true)
  | .cancelled => none

/-- What the session's projection reads: the document's commands, the ids of the
transcript, and the composer's own clocks. -/
structure Session where
  commands : List SessionCommandEntry
  landed : String → Bool
  lastEntryId : Option String
  graceStarted : List (String × Int64)

variable (deviceId : String) (now : Int64)

/-- The attempts so far, in the order their messages first appeared. -/
abbrev Attempts := List (String × Attempt)

def noteAttempt (attempts : Attempts) (messageId : String) (fresh : Attempt)
    (live dead : Bool) : Attempts :=
  let note (attempt : Attempt) : Attempt :=
    { attempt with live := attempt.live || live, dead := attempt.dead || dead }
  if attempts.any (fun entry => entry.1 = messageId) then
    attempts.map fun entry => if entry.1 = messageId then (entry.1, note entry.2) else entry
  else attempts ++ [(messageId, note fresh)]

def collectAttempt (session : Session) (attempts : Attempts) (command : SessionCommandEntry) :
    Attempts :=
  if command.issuedBy ≠ deviceId then attempts
  else
    match command.payload.send with
    | none => attempts
    | some (messageId, text, kind) =>
        if session.landed messageId then attempts
        else
          match command.standing now with
          | none => attempts
          | some (live, dead) =>
              noteAttempt attempts messageId ⟨text, kind, command.issuedAt, false, false⟩ live dead

def derivePending (session : Session) (degraded : Bool) : List PendingSend :=
  (session.commands.foldl (collectAttempt deviceId now session) []).map fun (messageId, attempt) =>
    { messageId := messageId
      text := attempt.text
      kind := attempt.kind
      state := sendState ((session.graceStarted.lookup messageId).getD attempt.firstIssued) degraded
        (attempt.dead && !attempt.live) now
      sentAtMs := attempt.firstIssued }

/-! ## The retry -/

structure Reissue where
  latestDead : AList (fun _ : String => SessionCommandEntry) := ∅
  live : List String := []

def Reissue.newer (reissue : Reissue) (messageId : String) (command : SessionCommandEntry) : Bool :=
  match reissue.latestDead.lookup messageId with
  | none => true
  | some existing => decide (existing.issuedAt < command.issuedAt)

def noteDead (reissue : Reissue) (messageId : String) (command : SessionCommandEntry) : Reissue :=
  if reissue.newer messageId command then
    { reissue with latestDead := reissue.latestDead.insert messageId command }
  else reissue

def collectReissue (pendingIds : List String) (reissue : Reissue)
    (command : SessionCommandEntry) : Reissue :=
  if command.issuedBy ≠ deviceId then reissue
  else
    match command.payload.send with
    | none => reissue
    | some (messageId, _, _) =>
        if messageId ∉ pendingIds then reissue
        else
          match command.status with
          | .pending =>
              if command.lapsed now then noteDead reissue messageId command
              else { reissue with live := messageId :: reissue.live }
          | .applied => { reissue with live := messageId :: reissue.live }
          | .rejected | .expired => noteDead reissue messageId command
          | .superseded | .cancelled => reissue

/-- The entry `queue_command` writes. -/
def freshEntry (newId : String) (session : Session) (payload : SessionCommandPayload) :
    SessionCommandEntry where
  id := newId
  payload := payload
  issuedBy := deviceId
  issuedAt := now
  basedOn := session.lastEntryId.map fun turnId => ⟨some turnId, none⟩
  expiresAt := some (now + commandDefaultTtlMs)
  status := .pending
  resolution := none

def queueCommand (newId : String) (session : Session) (payload : SessionCommandPayload) : Session :=
  { session with
    commands := session.commands ++ [freshEntry deviceId now newId session payload] }

/-- The order in which the map of dead attempts is walked. -/
structure DeadOrder where
  arrange : List (Sigma fun _ : String => SessionCommandEntry) →
    List (Sigma fun _ : String => SessionCommandEntry)
  perm : ∀ entries, (arrange entries).Perm entries

/-- A command is issued anew for every dead message that has no live attempt. -/
def reissueDead (newId : Nat → String) (live : List String) :
    List (Sigma fun _ : String => SessionCommandEntry) → Session → Session
  | [], session => session
  | dead :: rest, session =>
      if dead.1 ∈ live then reissueDead newId live rest session
      else
        reissueDead newId live rest
          (queueCommand deviceId now (newId session.commands.length) session dead.2.payload)

/-- `retry_delivery`, over the sends the composer shows. -/
def retryDelivery (newId : Nat → String) (order : DeadOrder) (pending : List PendingSend)
    (session : Session) : Session :=
  let pendingIds := pending.map PendingSend.messageId
  let graced := { session with
    graceStarted := pendingIds.map (fun id => (id, now)) ++ session.graceStarted }
  let reissue := session.commands.foldl (collectReissue deviceId now pendingIds) {}
  reissueDead deviceId now newId reissue.live (order.arrange reissue.latestDead.entries) graced

/-! ## Attempts of a message -/

/-- The command is this device's attempt to send a message. -/
def SessionCommandEntry.sends (command : SessionCommandEntry) (messageId : String) : Bool :=
  command.issuedBy == deviceId && command.payload.send.map Prod.fst == some messageId

def SessionCommandEntry.live (command : SessionCommandEntry) : Bool :=
  (command.standing now).any Prod.fst

def SessionCommandEntry.dead (command : SessionCommandEntry) : Bool :=
  (command.standing now).any Prod.snd

/-- A dead attempt that a retry issues anew; a superseded one is passed over. -/
def SessionCommandEntry.reissuable (command : SessionCommandEntry) : Bool :=
  command.dead now && command.status != .superseded

variable {deviceId now}

theorem live_or_dead {command : SessionCommandEntry} (stands : (command.standing now).isSome) :
    command.live now = true ∨ command.dead now = true := by
  unfold SessionCommandEntry.live SessionCommandEntry.dead
  revert stands
  unfold SessionCommandEntry.standing
  cases command.status <;> simp

section Collecting

variable {session : Session} {attempts : Attempts} {messageId : String}

theorem mem_noteAttempt {fresh attempt : Attempt} {live dead : Bool} {key : String}
    (member : (key, attempt) ∈ noteAttempt attempts messageId fresh live dead) :
    (key ≠ messageId ∧ (key, attempt) ∈ attempts) ∨
      (key = messageId ∧ ∃ before, ((key, before) ∈ attempts ∨
          ((∀ other, (key, other) ∉ attempts) ∧ before = fresh)) ∧
        attempt = { before with
          live := before.live || live, dead := before.dead || dead }) := by
  unfold noteAttempt at member
  dsimp only at member
  split at member
  · obtain ⟨⟨other, before⟩, listed, same⟩ := List.mem_map.mp member
    split at same
    · rename_i here
      cases same
      exact .inr ⟨here, before, .inl listed, rfl⟩
    · rename_i apart
      cases same
      exact .inl ⟨apart, listed⟩
  · rename_i absent
    simp only [List.any_eq_true, decide_eq_true_eq, not_exists, not_and] at absent
    rcases List.mem_append.mp member with listed | appended
    · exact .inl ⟨absent _ listed, listed⟩
    · cases List.mem_singleton.mp appended
      exact .inr ⟨rfl, fresh, .inr ⟨fun other listed => absent _ listed rfl, rfl⟩, rfl⟩

theorem exists_mem_noteAttempt (attempts : Attempts) (messageId : String) (fresh : Attempt)
    (live dead : Bool) {key : String}
    (known : key = messageId ∨ ∃ attempt, (key, attempt) ∈ attempts) :
    ∃ attempt, (key, attempt) ∈ noteAttempt attempts messageId fresh live dead := by
  unfold noteAttempt
  dsimp only
  split
  · rename_i present
    have listed : ∃ attempt, (key, attempt) ∈ attempts := by
      rcases known with here | listed
      · obtain ⟨⟨other, attempt⟩, member, same⟩ := List.any_eq_true.mp present
        have equal : other = messageId := by simpa using same
        exact ⟨attempt, by rw [here, ← equal]; exact member⟩
      · exact listed
    obtain ⟨attempt, member⟩ := listed
    by_cases here : key = messageId
    · exact ⟨_, List.mem_map.mpr ⟨(key, attempt), member, if_pos here⟩⟩
    · exact ⟨attempt, List.mem_map.mpr ⟨(key, attempt), member, if_neg here⟩⟩
  · rcases known with here | ⟨attempt, member⟩
    · exact ⟨_, List.mem_append_right _ (List.mem_singleton.mpr (by rw [here]))⟩
    · exact ⟨attempt, List.mem_append_left _ member⟩

variable (deviceId now)

def hasLive (done : List SessionCommandEntry) (messageId : String) : Bool :=
  done.any fun command => command.sends deviceId messageId && command.live now

def hasDead (done : List SessionCommandEntry) (messageId : String) : Bool :=
  done.any fun command => command.sends deviceId messageId && command.dead now

/-- What the attempts say after the commands `done`: a message is listed exactly when it has
not landed and has an attempt, live or dead. -/
structure Collected (session : Session) (done : List SessionCommandEntry) (attempts : Attempts) :
    Prop where
  flags : ∀ key attempt, (key, attempt) ∈ attempts →
    session.landed key = false ∧ (attempt.live || attempt.dead) = true ∧
      attempt.live = hasLive deviceId now done key ∧ attempt.dead = hasDead deviceId now done key
  listed : ∀ key, session.landed key = false →
    (hasLive deviceId now done key || hasDead deviceId now done key) = true →
    ∃ attempt, (key, attempt) ∈ attempts

variable {deviceId now}

theorem hasLive_snoc (done : List SessionCommandEntry) (command : SessionCommandEntry)
    (key : String) : hasLive deviceId now (done ++ [command]) key =
      (hasLive deviceId now done key || (command.sends deviceId key && command.live now)) := by
  simp [hasLive]

theorem hasDead_snoc (done : List SessionCommandEntry) (command : SessionCommandEntry)
    (key : String) : hasDead deviceId now (done ++ [command]) key =
      (hasDead deviceId now done key || (command.sends deviceId key && command.dead now)) := by
  simp [hasDead]

/-- A command that counts for no message that has not landed changes nothing. -/
theorem Collected.pass {done : List SessionCommandEntry} {command : SessionCommandEntry}
    (collected : Collected deviceId now session done attempts)
    (silent : ∀ key, session.landed key = false → command.sends deviceId key = true →
      command.standing now = none) :
    Collected deviceId now session (done ++ [command]) attempts := by
  have live : ∀ key, session.landed key = false →
      hasLive deviceId now (done ++ [command]) key = hasLive deviceId now done key := by
    intro key unlanded
    rw [hasLive_snoc]
    cases sent : command.sends deviceId key with
    | false => simp
    | true => simp [SessionCommandEntry.live, silent key unlanded sent]
  have dead : ∀ key, session.landed key = false →
      hasDead deviceId now (done ++ [command]) key = hasDead deviceId now done key := by
    intro key unlanded
    rw [hasDead_snoc]
    cases sent : command.sends deviceId key with
    | false => simp
    | true => simp [SessionCommandEntry.dead, silent key unlanded sent]
  constructor
  · intro key attempt member
    obtain ⟨unlanded, known, lives, deads⟩ := collected.flags key attempt member
    exact ⟨unlanded, known, by rw [live key unlanded, lives], by rw [dead key unlanded, deads]⟩
  · intro key unlanded known
    rw [live key unlanded, dead key unlanded] at known
    exact collected.listed key unlanded known

theorem Collected.note {done : List SessionCommandEntry} {command : SessionCommandEntry}
    (collected : Collected deviceId now session done attempts) {text : String}
    {kind : PendingKind} {live dead : Bool}
    (mine : command.issuedBy = deviceId) (sent : command.payload.send = some (messageId, text, kind))
    (unlanded : session.landed messageId = false)
    (stands : command.standing now = some (live, dead)) :
    Collected deviceId now session (done ++ [command])
      (noteAttempt attempts messageId ⟨text, kind, command.issuedAt, false, false⟩ live dead) := by
  have sends : ∀ key, command.sends deviceId key = (messageId == key) := by
    intro key
    simp [SessionCommandEntry.sends, mine, sent]
  have counts : (live || dead) = true := by
    have either : command.live now = true ∨ command.dead now = true :=
      live_or_dead (by simp [stands])
    simpa [SessionCommandEntry.live, SessionCommandEntry.dead, stands] using either
  have lives : command.live now = live := by simp [SessionCommandEntry.live, stands]
  have deads : command.dead now = dead := by simp [SessionCommandEntry.dead, stands]
  constructor
  · intro key attempt member
    rw [hasLive_snoc, hasDead_snoc, sends, lives, deads]
    rcases mem_noteAttempt member with ⟨apart, listed⟩ | ⟨rfl, before, held, rfl⟩
    · have other : (messageId == key) = false := by simpa using Ne.symm apart
      obtain ⟨kept, known, wasLive, wasDead⟩ := collected.flags key attempt listed
      refine ⟨kept, known, ?_, ?_⟩
      · rw [other, wasLive, Bool.false_and, Bool.or_false]
      · rw [other, wasDead, Bool.false_and, Bool.or_false]
    · have flags : before.live = hasLive deviceId now done key ∧
          before.dead = hasDead deviceId now done key := by
        rcases held with listed | ⟨absent, rfl⟩
        · exact (collected.flags key before listed).2.2
        · have none : (hasLive deviceId now done key || hasDead deviceId now done key) = false := by
            by_contra known
            obtain ⟨other, listed⟩ := collected.listed key unlanded (by simpa only [Bool.not_eq_false] using known)
            exact absent other listed
          simp only [Bool.or_eq_false_iff] at none
          exact ⟨none.1.symm, none.2.symm⟩
      refine ⟨unlanded, ?_, ?_, ?_⟩
      · dsimp only
        cases live <;> cases dead <;> simp at counts ⊢
      · simp [flags.1]
      · simp [flags.2]
  · intro key kept known
    apply exists_mem_noteAttempt
    by_cases here : key = messageId
    · exact .inl here
    · right
      have other : (messageId == key) = false := by simpa using Ne.symm here
      rw [hasLive_snoc, hasDead_snoc, sends, other, Bool.false_and, Bool.false_and,
        Bool.or_false, Bool.or_false] at known
      exact collected.listed key kept known

theorem Collected.snoc {done : List SessionCommandEntry}
    (collected : Collected deviceId now session done attempts) (command : SessionCommandEntry) :
    Collected deviceId now session (done ++ [command])
      (collectAttempt deviceId now session attempts command) := by
  unfold collectAttempt
  split
  · rename_i foreign
    exact collected.pass fun key _ sent => by simp [SessionCommandEntry.sends, foreign] at sent
  · rename_i mine
    split
    · rename_i silent
      exact collected.pass fun key _ sent => by simp [SessionCommandEntry.sends, silent] at sent
    · rename_i messageId text kind sent
      split
      · rename_i landed
        refine collected.pass fun key unlanded sends => ?_
        have same : messageId = key := by
          simpa [SessionCommandEntry.sends, sent] using (Bool.and_eq_true_iff.mp sends).2
        rw [same, unlanded] at landed
        cases landed
      · rename_i unlanded
        split
        · rename_i standing
          exact collected.pass fun _ _ _ => standing
        · rename_i live dead standing
          exact collected.note (by simpa using mine) sent (by simpa using unlanded) standing

theorem collected_foldl (session : Session) :
    Collected deviceId now session session.commands
      (session.commands.foldl (collectAttempt deviceId now session) []) := by
  have every : ∀ commands, Collected deviceId now session commands
      (commands.foldl (collectAttempt deviceId now session) []) := by
    intro commands
    induction commands using List.reverseRecOn with
    | nil =>
        refine ⟨fun key attempt member => (by cases member), fun key _ known => ?_⟩
        simp [hasLive, hasDead] at known
    | append_singleton done command ih =>
        rw [List.foldl_append]
        exact ih.snoc command
  exact every session.commands

/-- The messages shown as pending. -/
theorem mem_derivePending {session : Session} {degraded : Bool} {messageId : String} :
    (∃ send ∈ derivePending deviceId now session degraded, send.messageId = messageId) ↔
      session.landed messageId = false ∧
        (hasLive deviceId now session.commands messageId ||
          hasDead deviceId now session.commands messageId) = true := by
  have collected := @collected_foldl deviceId now session
  constructor
  · rintro ⟨send, member, rfl⟩
    obtain ⟨⟨key, attempt⟩, listed, rfl⟩ := List.mem_map.mp member
    obtain ⟨unlanded, known, live, dead⟩ := collected.flags key attempt listed
    exact ⟨unlanded, by rw [← live, ← dead]; exact known⟩
  · rintro ⟨unlanded, known⟩
    obtain ⟨attempt, listed⟩ := collected.listed messageId unlanded known
    exact ⟨_, List.mem_map.mpr ⟨_, listed, rfl⟩, rfl⟩

/-- A send shown within its grace has failed exactly when none of its attempts is live. -/
theorem failed_iff {session : Session} {degraded : Bool} {send : PendingSend}
    (member : send ∈ derivePending deviceId now session degraded)
    (graced : session.graceStarted.lookup send.messageId = some now) :
    send.state = .failed ↔ hasLive deviceId now session.commands send.messageId = false := by
  have collected := @collected_foldl deviceId now session
  obtain ⟨⟨key, attempt⟩, listed, rfl⟩ := List.mem_map.mp member
  obtain ⟨_, known, live, _⟩ := collected.flags key attempt listed
  dsimp only at graced ⊢
  have recent : ¬ (now - now > undeliveredGraceMs) := by
    rw [Int64.sub_self]
    decide
  rw [graced, ← live]
  unfold sendState
  simp only [Option.getD_some, recent, or_false]
  cases lives : attempt.live with
  | true =>
      simp only [Bool.not_true, Bool.and_false, Bool.false_eq_true, if_false, Bool.true_eq_false,
        iff_false]
      split <;> simp
  | false =>
      have dead : attempt.dead = true := by simpa [lives] using known
      simp [dead]

end Collecting

section Reissuing

variable {session : Session} {pendingIds : List String}

def hasReissuable (deviceId : String) (now : Int64) (done : List SessionCommandEntry)
    (messageId : String) : Bool :=
  done.any fun command => command.sends deviceId messageId && command.reissuable now

/-- What the retry has found after the commands `done`: which pending messages are live, and
a dead attempt of each that has one worth issuing again. -/
structure Sorted (deviceId : String) (now : Int64) (pendingIds : List String)
    (done : List SessionCommandEntry) (reissue : Reissue) : Prop where
  live : ∀ messageId, messageId ∈ reissue.live ↔
    messageId ∈ pendingIds ∧ hasLive deviceId now done messageId = true
  dead : ∀ messageId, (reissue.latestDead.lookup messageId).isSome = true ↔
    messageId ∈ pendingIds ∧ hasReissuable deviceId now done messageId = true
  sends : ∀ messageId command, reissue.latestDead.lookup messageId = some command →
    command.sends deviceId messageId = true

theorem lookup_noteDead (reissue : Reissue) (messageId : String) (command : SessionCommandEntry)
    (key : String) :
    ((noteDead reissue messageId command).latestDead.lookup key).isSome =
      (decide (key = messageId) || (reissue.latestDead.lookup key).isSome) ∧
    (∀ held, (noteDead reissue messageId command).latestDead.lookup key = some held →
      (key = messageId ∧ held = command) ∨ reissue.latestDead.lookup key = some held) ∧
    (noteDead reissue messageId command).live = reissue.live := by
  unfold noteDead
  split
  · by_cases here : key = messageId
    · subst here
      simp
    · simp [here, AList.lookup_insert_ne here]
  · rename_i older
    refine ⟨?_, fun held found => .inr found, rfl⟩
    by_cases here : key = messageId
    · subst here
      cases found : reissue.latestDead.lookup key with
      | none => simp [Reissue.newer, found] at older
      | some existing => simp
    · simp [here]

theorem Sorted.pass {done : List SessionCommandEntry} {reissue : Reissue}
    {command : SessionCommandEntry} (sorted : Sorted deviceId now pendingIds done reissue)
    (silent : ∀ key ∈ pendingIds, command.sends deviceId key = true →
      command.live now = false ∧ command.reissuable now = false) :
    Sorted deviceId now pendingIds (done ++ [command]) reissue := by
  refine ⟨fun key => ?_, fun key => ?_, sorted.sends⟩
  · rw [sorted.live key, hasLive_snoc]
    apply and_congr_right
    intro listed
    cases sent : command.sends deviceId key with
    | false => simp
    | true => simp [(silent key listed sent).1]
  · rw [sorted.dead key]
    apply and_congr_right
    intro listed
    simp only [hasReissuable, List.any_append, List.any_cons, List.any_nil]
    cases sent : command.sends deviceId key with
    | false => simp
    | true => simp [(silent key listed sent).2]

theorem Sorted.liveAttempt {done : List SessionCommandEntry} {reissue : Reissue}
    {command : SessionCommandEntry} {messageId : String}
    (sorted : Sorted deviceId now pendingIds done reissue)
    (sends : ∀ key, command.sends deviceId key = (messageId == key))
    (listed : messageId ∈ pendingIds) (live : command.live now = true)
    (passed : command.reissuable now = false) :
    Sorted deviceId now pendingIds (done ++ [command])
      { reissue with live := messageId :: reissue.live } := by
  refine ⟨fun key => ?_, fun key => ?_, sorted.sends⟩
  · rw [List.mem_cons, sorted.live key, hasLive_snoc, sends, live]
    by_cases here : key = messageId
    · subst here
      simp [listed]
    · simp [here, Ne.symm here]
  · rw [sorted.dead key]
    simp [hasReissuable, passed]

theorem Sorted.deadAttempt {done : List SessionCommandEntry} {reissue : Reissue}
    {command : SessionCommandEntry} {messageId : String}
    (sorted : Sorted deviceId now pendingIds done reissue)
    (sends : ∀ key, command.sends deviceId key = (messageId == key))
    (listed : messageId ∈ pendingIds) (live : command.live now = false)
    (dead : command.reissuable now = true) :
    Sorted deviceId now pendingIds (done ++ [command]) (noteDead reissue messageId command) := by
  refine ⟨fun key => ?_, fun key => ?_, fun key held found => ?_⟩
  · rw [(lookup_noteDead reissue messageId command key).2.2, sorted.live key, hasLive_snoc, live]
    simp
  · rw [(lookup_noteDead reissue messageId command key).1, Bool.or_eq_true, sorted.dead key]
    simp only [hasReissuable, List.any_append, List.any_cons, List.any_nil, sends, dead]
    by_cases here : key = messageId
    · subst here
      simp [listed]
    · simp [here, Ne.symm here]
  · rcases (lookup_noteDead reissue messageId command key).2.1 held found with ⟨rfl, rfl⟩ | before
    · simp [sends]
    · exact sorted.sends key held before

theorem Sorted.snoc {done : List SessionCommandEntry} {reissue : Reissue}
    (sorted : Sorted deviceId now pendingIds done reissue) (command : SessionCommandEntry) :
    Sorted deviceId now pendingIds (done ++ [command])
      (collectReissue deviceId now pendingIds reissue command) := by
  unfold collectReissue
  split
  · rename_i foreign
    exact sorted.pass fun key _ sent => by simp [SessionCommandEntry.sends, foreign] at sent
  · rename_i mine
    split
    · rename_i silent
      exact sorted.pass fun key _ sent => by simp [SessionCommandEntry.sends, silent] at sent
    · rename_i messageId text kind sent
      have sends : ∀ key, command.sends deviceId key = (messageId == key) := by
        intro key
        simp [SessionCommandEntry.sends, sent, show command.issuedBy = deviceId by simpa using mine]
      split
      · rename_i unlisted
        refine sorted.pass fun key listed sends' => ?_
        rw [sends] at sends'
        rw [beq_iff_eq.mp sends'] at unlisted
        exact absurd listed unlisted
      · rename_i listed
        simp only [not_not] at listed
        cases status : command.status with
        | pending =>
            cases lapsed : command.lapsed now with
            | true =>
                exact sorted.deadAttempt sends listed
                  (by simp [SessionCommandEntry.live, SessionCommandEntry.standing, status, lapsed])
                  (by simp [SessionCommandEntry.reissuable, SessionCommandEntry.dead,
                    SessionCommandEntry.standing, status, lapsed])
            | false =>
                exact sorted.liveAttempt sends listed
                  (by simp [SessionCommandEntry.live, SessionCommandEntry.standing, status, lapsed])
                  (by simp [SessionCommandEntry.reissuable, SessionCommandEntry.dead,
                    SessionCommandEntry.standing, status, lapsed])
        | applied =>
            exact sorted.liveAttempt sends listed
              (by simp [SessionCommandEntry.live, SessionCommandEntry.standing, status])
              (by simp [SessionCommandEntry.reissuable, SessionCommandEntry.dead,
                SessionCommandEntry.standing, status])
        | rejected | expired =>
            exact sorted.deadAttempt sends listed
              (by simp [SessionCommandEntry.live, SessionCommandEntry.standing, status])
              (by simp [SessionCommandEntry.reissuable, SessionCommandEntry.dead,
                SessionCommandEntry.standing, status])
        | superseded | cancelled =>
            refine sorted.pass fun key _ _ => ⟨?_, ?_⟩
            · simp [SessionCommandEntry.live, SessionCommandEntry.standing, status]
            · simp [SessionCommandEntry.reissuable, SessionCommandEntry.dead,
                SessionCommandEntry.standing, status]

theorem sorted_foldl (commands : List SessionCommandEntry) :
    Sorted deviceId now pendingIds commands
      (commands.foldl (collectReissue deviceId now pendingIds) {}) := by
  induction commands using List.reverseRecOn with
  | nil =>
      refine ⟨fun key => ?_, fun key => ?_, fun key command found => ?_⟩
      · simp [hasLive]
      · simp [hasReissuable]
      · simp at found
  | append_singleton done command ih =>
      rw [List.foldl_append]
      exact ih.snoc command

/-- The command queued for a dead attempt. -/
def Revives (deviceId : String) (now : Int64) (dead : Sigma fun _ : String => SessionCommandEntry)
    (command : SessionCommandEntry) : Prop :=
  command.payload = dead.2.payload ∧ command.issuedBy = deviceId ∧ command.status = .pending ∧
    command.expiresAt = some (now + commandDefaultTtlMs)

/-- Exactly the dead messages without a live attempt get a command, at the ledger's end. -/
theorem reissueDead_spec (newId : Nat → String) (live : List String)
    (dead : List (Sigma fun _ : String => SessionCommandEntry)) (session : Session) :
    ∃ added, (reissueDead deviceId now newId live dead session).commands =
        session.commands ++ added ∧
      (∀ command ∈ added, ∃ entry ∈ dead, entry.1 ∉ live ∧ Revives deviceId now entry command) ∧
      (∀ entry ∈ dead, entry.1 ∉ live → ∃ command ∈ added, Revives deviceId now entry command) ∧
      (reissueDead deviceId now newId live dead session).landed = session.landed ∧
      (reissueDead deviceId now newId live dead session).graceStarted = session.graceStarted := by
  induction dead generalizing session with
  | nil => exact ⟨[], by simp [reissueDead]⟩
  | cons entry rest ih =>
      unfold reissueDead
      split
      · rename_i alive
        obtain ⟨added, commands, sound, complete, landed, grace⟩ := ih session
        refine ⟨added, commands, fun command member => ?_, fun other member quiet => ?_,
          landed, grace⟩
        · obtain ⟨from_, listed, revives⟩ := sound command member
          exact ⟨from_, List.mem_cons_of_mem _ listed, revives⟩
        · rcases List.mem_cons.mp member with rfl | inRest
          · exact absurd alive quiet
          · exact complete other inRest quiet
      · rename_i quiet
        obtain ⟨added, commands, sound, complete, landed, grace⟩ :=
          ih (queueCommand deviceId now (newId session.commands.length) session entry.2.payload)
        let fresh := freshEntry deviceId now (newId session.commands.length) session entry.2.payload
        have revived : Revives deviceId now entry fresh := ⟨rfl, rfl, rfl, rfl⟩
        refine ⟨fresh :: added, ?_, fun command member => ?_, fun other member silent => ?_,
          landed, grace⟩
        · rw [commands, queueCommand, List.append_assoc]
          rfl
        · rcases List.mem_cons.mp member with rfl | inAdded
          · exact ⟨entry, List.mem_cons_self, quiet, revived⟩
          · obtain ⟨from_, listed, revives⟩ := sound command inAdded
            exact ⟨from_, List.mem_cons_of_mem _ listed, revives⟩
        · rcases List.mem_cons.mp member with rfl | inRest
          · exact ⟨fresh, List.mem_cons_self, revived⟩
          · obtain ⟨command, listed, revives⟩ := complete other inRest silent
            exact ⟨command, List.mem_cons_of_mem _ listed, revives⟩

/-- A pending entry with an expiry of its own is live before it. -/
theorem live_of_pending {command : SessionCommandEntry} {expiry : Int64}
    (status : command.status = .pending) (expires : command.expiresAt = some expiry) :
    command.live now = decide (now < expiry) := by
  have lapsed : command.lapsed now = !decide (now < expiry) := by
    rw [SessionCommandEntry.lapsed, SessionCommandEntry.effectiveExpiry, expires, Option.getD_some]
    by_cases later : now < expiry
    · simp [later]
    · simpa [later] using Int64.not_lt.mp later
  rw [SessionCommandEntry.live, SessionCommandEntry.standing, status]
  simp [lapsed]

theorem Revives.live {dead : Sigma fun _ : String => SessionCommandEntry}
    {command : SessionCommandEntry} (revives : Revives deviceId now dead command) :
    command.live now = decide (now < now + commandDefaultTtlMs) :=
  live_of_pending revives.2.2.1 revives.2.2.2

theorem Revives.sends {dead : Sigma fun _ : String => SessionCommandEntry}
    {command : SessionCommandEntry} (revives : Revives deviceId now dead command)
    (before : dead.2.sends deviceId dead.1 = true) (key : String) :
    command.sends deviceId key = (dead.1 == key) := by
  obtain ⟨payload, mine, _, _⟩ := revives
  simp only [SessionCommandEntry.sends, Bool.and_eq_true, beq_iff_eq] at before
  simp [SessionCommandEntry.sends, payload, mine, before.2]

/-- What a retry leaves: the ledger grows by one fresh command for each pending message that
is dead but not live, and the grace of every pending message starts over. -/
theorem retryDelivery_spec (deviceId : String) (now : Int64) (newId : Nat → String)
    (order : DeadOrder) (pending : List PendingSend) (session : Session) :
    ∃ added, (retryDelivery deviceId now newId order pending session).commands =
        session.commands ++ added ∧
      (retryDelivery deviceId now newId order pending session).landed = session.landed ∧
      (retryDelivery deviceId now newId order pending session).graceStarted =
        (pending.map PendingSend.messageId).map (fun id => (id, now)) ++ session.graceStarted ∧
      (∀ command ∈ added, command.live now = decide (now < now + commandDefaultTtlMs) ∧
        ∃ messageId, (∀ key, command.sends deviceId key = (messageId == key)) ∧
          messageId ∈ pending.map PendingSend.messageId ∧
          hasReissuable deviceId now session.commands messageId = true ∧
          hasLive deviceId now session.commands messageId = false) ∧
      ∀ messageId ∈ pending.map PendingSend.messageId,
        hasLive deviceId now session.commands messageId = false →
        hasReissuable deviceId now session.commands messageId = true →
        ∃ command ∈ added, command.live now = decide (now < now + commandDefaultTtlMs) ∧
          command.sends deviceId messageId = true := by
  let pendingIds := pending.map PendingSend.messageId
  let reissue := session.commands.foldl (collectReissue deviceId now pendingIds) {}
  have sorted : Sorted deviceId now pendingIds session.commands reissue :=
    sorted_foldl session.commands
  have entries : ∀ entry, entry ∈ order.arrange reissue.latestDead.entries ↔
      reissue.latestDead.lookup entry.1 = some entry.2 := by
    intro entry
    rw [(order.perm _).mem_iff, AList.mem_lookup_iff.symm]
    rfl
  obtain ⟨added, commands, sound, complete, landed, grace⟩ := @reissueDead_spec deviceId
    now newId reissue.live (order.arrange reissue.latestDead.entries)
    { session with
      graceStarted := pendingIds.map (fun id => (id, now)) ++ session.graceStarted }
  refine ⟨added, commands, landed, grace, ?_, ?_⟩
  · intro command member
    obtain ⟨entry, listed, quiet, revives⟩ := sound command member
    have found := (entries entry).mp listed
    have isDead := (sorted.dead entry.1).mp (by rw [found]; rfl)
    refine ⟨revives.live, entry.1, revives.sends (sorted.sends _ _ found), isDead.1, isDead.2, ?_⟩
    by_contra alive
    exact quiet ((sorted.live entry.1).mpr ⟨isDead.1, by simpa using alive⟩)
  · intro messageId listed quiet isDead
    have known := (sorted.dead messageId).mpr ⟨listed, isDead⟩
    obtain ⟨dead, found⟩ := Option.isSome_iff_exists.mp known
    have silent : messageId ∉ reissue.live := by
      intro alive
      rw [((sorted.live messageId).mp alive).2] at quiet
      cases quiet
    obtain ⟨command, member, revives⟩ := complete ⟨messageId, dead⟩ ((entries _).mpr found) silent
    refine ⟨command, member, revives.live, ?_⟩
    rw [revives.sends (sorted.sends messageId dead found)]
    simp

end Reissuing

/-- A pending message has an attempt that a retry keeps or issues anew, and the clock has room
for a new command's lifetime. -/
def Revivable (deviceId : String) (now : Int64) (session : Session) (messageId : String) : Prop :=
  hasLive deviceId now session.commands messageId = true ∨
    hasReissuable deviceId now session.commands messageId = true ∧ now < now + commandDefaultTtlMs

theorem hasLive_retry (newId : Nat → String) (order : DeadOrder) {pending : List PendingSend}
    {session : Session} {messageId : String}
    (listed : messageId ∈ pending.map PendingSend.messageId) :
    hasLive deviceId now (retryDelivery deviceId now newId order pending session).commands
      messageId = true ↔ Revivable deviceId now session messageId := by
  obtain ⟨added, commands, _, _, sound, complete⟩ :=
    retryDelivery_spec deviceId now newId order pending session
  have split : hasLive deviceId now
      (retryDelivery deviceId now newId order pending session).commands messageId =
        (hasLive deviceId now session.commands messageId ||
          hasLive deviceId now added messageId) := by
    rw [commands, hasLive, List.any_append]
    rfl
  have fresh : hasLive deviceId now session.commands messageId = false →
      (hasLive deviceId now added messageId = true ↔
        hasReissuable deviceId now session.commands messageId = true ∧
          now < now + commandDefaultTtlMs) := by
    intro quiet
    constructor
    · intro revived
      obtain ⟨command, member, counts⟩ := List.any_eq_true.mp revived
      obtain ⟨sends, lives⟩ := Bool.and_eq_true_iff.mp counts
      obtain ⟨clock, other, named, _, isDead, _⟩ := sound command member
      rw [named, beq_iff_eq] at sends
      rw [clock] at lives
      rw [← sends]
      exact ⟨isDead, of_decide_eq_true lives⟩
    · rintro ⟨isDead, roomy⟩
      obtain ⟨command, member, clock, sends⟩ := complete messageId listed quiet isDead
      apply List.any_eq_true.mpr
      refine ⟨command, member, ?_⟩
      rw [sends, clock, decide_eq_true roomy]
      rfl
  rw [split, Bool.or_eq_true]
  unfold Revivable
  cases alive : hasLive deviceId now session.commands messageId with
  | true => exact ⟨fun _ => .inl rfl, fun _ => .inl rfl⟩
  | false =>
      rw [fresh alive]

/-- The commands of a message that has a live attempt are left as they are. -/
theorem sends_retry_of_live (newId : Nat → String) (order : DeadOrder)
    (pending : List PendingSend) {session : Session} {messageId : String}
    (alive : hasLive deviceId now session.commands messageId = true) :
    (retryDelivery deviceId now newId order pending session).commands.filter
        (fun command => command.sends deviceId messageId) =
      session.commands.filter fun command => command.sends deviceId messageId := by
  obtain ⟨added, commands, _, _, sound, _⟩ :=
    retryDelivery_spec deviceId now newId order pending session
  have none : added.filter (fun command => command.sends deviceId messageId) = [] := by
    apply List.filter_eq_nil_iff.mpr
    intro command member sends
    obtain ⟨_, other, named, _, _, quiet⟩ := sound command member
    rw [named, beq_iff_eq] at sends
    rw [sends, alive] at quiet
    cases quiet
  rw [commands, List.filter_append, none, List.append_nil]

theorem lookup_graced {ids : List String} {messageId : String} (listed : messageId ∈ ids)
    (earlier : List (String × Int64)) :
    (ids.map (fun id => (id, now)) ++ earlier).lookup messageId = some now := by
  induction ids with
  | nil => cases listed
  | cons first rest ih =>
      rw [List.map_cons, List.cons_append, List.lookup_cons]
      cases same : messageId == first with
      | true => rfl
      | false =>
          apply ih
          rcases List.mem_cons.mp listed with here | inRest
          · simp [here] at same
          · exact inRest

/-- Whether a command counts at all does not depend on the clock. -/
theorem live_or_dead_iff {command : SessionCommandEntry} :
    (command.live now || command.dead now) = (command.status != .cancelled) := by
  unfold SessionCommandEntry.live SessionCommandEntry.dead SessionCommandEntry.standing
  cases command.status <;> simp

theorem hasAttempt_iff {commands : List SessionCommandEntry} {messageId : String} :
    (hasLive deviceId now commands messageId || hasDead deviceId now commands messageId) = true ↔
      ∃ command ∈ commands, command.sends deviceId messageId = true ∧
        command.status ≠ .cancelled := by
  have counts : ∀ command : SessionCommandEntry, (command.status ≠ .cancelled ↔
      command.live now = true ∨ command.dead now = true) := by
    intro command
    rw [← Bool.or_eq_true, live_or_dead_iff, bne_iff_ne]
  simp only [hasLive, hasDead, Bool.or_eq_true, List.any_eq_true, Bool.and_eq_true]
  constructor
  · rintro (⟨command, member, sends, alive⟩ | ⟨command, member, sends, dead⟩)
    · exact ⟨command, member, sends, (counts command).mpr (.inl alive)⟩
    · exact ⟨command, member, sends, (counts command).mpr (.inr dead)⟩
  · rintro ⟨command, member, sends, standing⟩
    rcases (counts command).mp standing with alive | dead
    · exact .inl ⟨command, member, sends, alive⟩
    · exact .inr ⟨command, member, sends, dead⟩

/-- A retry brings no new message into the list. -/
theorem pending_of_retry (newId : Nat → String) (order : DeadOrder) {session : Session}
    {shownAt : Int64} {degraded degradedAfter : Bool} {send : PendingSend}
    (member : send ∈ derivePending deviceId now (retryDelivery deviceId now newId order
      (derivePending deviceId shownAt session degraded) session) degradedAfter) :
    send.messageId ∈ (derivePending deviceId shownAt session degraded).map
      PendingSend.messageId := by
  obtain ⟨added, commands, landed, _, sound, _⟩ := retryDelivery_spec deviceId now newId order
    (derivePending deviceId shownAt session degraded) session
  obtain ⟨unlanded, known⟩ := mem_derivePending.mp ⟨send, member, rfl⟩
  rw [landed] at unlanded
  obtain ⟨command, listed, sends, standing⟩ := hasAttempt_iff.mp known
  rw [commands] at listed
  rcases List.mem_append.mp listed with old | fresh
  · have shown : ∃ same ∈ derivePending deviceId shownAt session degraded,
        same.messageId = send.messageId :=
      mem_derivePending.mpr ⟨unlanded, hasAttempt_iff.mpr ⟨command, old, sends, standing⟩⟩
    obtain ⟨same, here, equal⟩ := shown
    exact List.mem_map.mpr ⟨same, here, equal⟩
  · obtain ⟨_, other, named, pending, _⟩ := sound command fresh
    rw [named, beq_iff_eq] at sends
    rwa [← sends]

/-- A retry revives every pending send exactly when each of them has a live attempt, or a dead
one that was not superseded and a clock with room for a new command's lifetime: then every one
has a live attempt, none is shown as failed, and no message that was live gets a command. -/
theorem retry_revives_iff (deviceId : String) (now shownAt : Int64) (degraded degradedAfter : Bool)
    (newId : Nat → String) (order : DeadOrder) (session : Session) :
    let pending := derivePending deviceId shownAt session degraded
    let after := retryDelivery deviceId now newId order pending session
    ((∀ send ∈ pending, hasLive deviceId now after.commands send.messageId = true) ∧
      (∀ send ∈ derivePending deviceId now after degradedAfter, send.state ≠ .failed) ∧
      ∀ messageId, hasLive deviceId now session.commands messageId = true →
        after.commands.filter (fun command => command.sends deviceId messageId) =
          session.commands.filter fun command => command.sends deviceId messageId) ↔
    ∀ send ∈ pending, Revivable deviceId now session send.messageId := by
  intro pending after
  have lives : ∀ send ∈ pending, (hasLive deviceId now after.commands send.messageId = true ↔
      Revivable deviceId now session send.messageId) :=
    fun send member => hasLive_retry newId order (List.mem_map_of_mem member)
  constructor
  · rintro ⟨revived, _, _⟩ send member
    exact (lives send member).mp (revived send member)
  · intro revivable
    refine ⟨fun send member => (lives send member).mpr (revivable send member), ?_, ?_⟩
    · intro send member failed
      have listed := pending_of_retry newId order member
      have graced : after.graceStarted.lookup send.messageId = some now := by
        obtain ⟨_, _, _, grace, _⟩ := retryDelivery_spec deviceId now newId order pending session
        rw [show after.graceStarted = _ from grace]
        exact lookup_graced listed _
      have quiet := (failed_iff member graced).mp failed
      obtain ⟨shown, here, same⟩ := List.mem_map.mp listed
      have alive := (lives shown here).mpr (revivable shown here)
      rw [same, quiet] at alive
      cases alive
    · exact fun messageId alive => sends_retry_of_live newId order pending alive

/-- A run by this device that another entry superseded. -/
def supersededRun : SessionCommandEntry where
  id := "command"
  payload := .run ⟨"prompt", []⟩ "message"
  issuedBy := "device"
  issuedAt := 0
  basedOn := none
  expiresAt := none
  status := .superseded
  resolution := none

/-- The only attempt of a pending send was superseded: it is shown as failed, and a retry
leaves the ledger as it is. -/
theorem superseded_send_not_revived :
    let session : Session := ⟨[supersededRun], fun _ => false, none, []⟩
    let pending := derivePending "device" 1000 session false
    let after := retryDelivery "device" 1000 Nat.repr ⟨id, fun _ => .refl _⟩ pending session
    (∃ send ∈ pending, send.messageId = "message" ∧ send.state = .failed ∧
      hasLive "device" 1000 after.commands "message" = false) ∧
    after.commands = [supersededRun] ∧
    ∃ send ∈ derivePending "device" 1000 after false, send.state = .failed := by
  decide

end Zeron.Command
