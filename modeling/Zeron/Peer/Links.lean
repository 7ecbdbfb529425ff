import Zeron.Data.Runs

namespace Zeron.Peer

open Zeron.Data

/-! # The cache of peer links

A link is authenticated when its socket opens.  A task that watches the credentials
closes the links of a sign-in that ended; it is told that something changed, and not
how often.
-/

structure Link where
  serial : Nat
  /-- The sign-in whose token the link was dialed with. -/
  signIn : Nat
deriving DecidableEq

inductive CallStage
  | starting
  | looking
  | probing
  | queued
  | rechecking
  | cooling
  | reading
  | connecting (signIn : Nat)
  | sleeping
  | landed (link : Link)
deriving DecidableEq

structure Call where
  device : String
  stage : CallStage := .starting
  attempt : Nat := 0
  /-- The sign-in there was when the call began, and how many there had been. -/
  signedIn : Option Nat
  signIns : Nat
deriving DecidableEq

/-- Whether the call has the dial lock of its device. -/
def Call.dials (call : Call) : Bool :=
  match call.stage with
  | .starting | .looking | .probing | .queued => false
  | _ => true

/-- What the watcher task does next. -/
inductive Watcher
  | idle
  | asking
  | applying (signedOut : Bool)
  | clearing
deriving DecidableEq

/-- A link that a call returned. -/
structure Returned where
  link : Link
  call : Call
deriving DecidableEq

/-- The sign-in of the link had not ended before the call began. -/
def Returned.Fits (returned : Returned) : Prop :=
  ¬ (returned.link.signIn < returned.call.signIns ∧
    returned.call.signedIn ≠ some returned.link.signIn)

structure LinkCache where
  signedIn : Option Nat
  signIns : Nat
  /-- The credentials changed since the watcher last looked. -/
  changed : Bool := false
  watcher : Watcher := .idle
  revoked : Bool := false
  links : List (String × Link) := []
  /-- The serials of the links whose transport has dropped. -/
  dropped : List Nat := []
  /-- The devices that back off after a failed sequence of dials. -/
  cooldowns : List String := []
  /-- The devices whose dial lock is held. -/
  dialing : List String := []
  /-- `disconnect_all` calls that have set the flag and not yet cleared the links. -/
  disconnecting : Nat := 0
  calls : List Call := []
  returned : List Returned := []
  nextLink : Nat := 0

def dialAttempts : Nat := 3

inductive LinkAction
  | signIn
  | signOut
  | refreshed
  | notice
  /-- The token source answers the watcher; `available` is false while it cannot say. -/
  | answer (available : Bool)
  | apply
  | wake
  | online
  | disconnect
  | disconnected
  | client (device : String)
  /-- A call goes on; what it waits for succeeds or fails. -/
  | goOn (call : Nat) (succeeds : Bool)
  | dropCall (call : Nat)
  | invalidate (device : String)
  | resetCooldown (device : String)
  | dropLink (serial : Nat)
  | evict (device : String)
deriving DecidableEq

namespace LinkCache

/-- A cache that is made while the device is signed in, or while it is not. -/
def start (signedIn : Bool) : LinkCache where
  signedIn := if signedIn then some 0 else none
  signIns := if signedIn then 1 else 0

def remove (cache : LinkCache) (device : String) : LinkCache :=
  { cache with links := cache.links.filter fun row => row.1 ≠ device }

/-- The link of a device, unless its transport has dropped. -/
def cached (cache : LinkCache) (device : String) : Option Link :=
  ((cache.links.find? fun row => row.1 = device).map Prod.snd).filter fun link =>
    !cache.dropped.contains link.serial

def setCall (cache : LinkCache) (number : Nat) (call : Call) (stage : CallStage) : LinkCache :=
  { cache with calls := cache.calls.set number { call with stage } }

/-- The call is over, and lets go of its lock. -/
def endCall (cache : LinkCache) (number : Nat) (call : Call) : LinkCache :=
  { cache with
    calls := cache.calls.eraseIdx number
    dialing := if call.dials then cache.dialing.erase call.device else cache.dialing }

def returnLink (cache : LinkCache) (number : Nat) (call : Call) (link : Link) : LinkCache :=
  let ended := cache.endCall number call
  { ended with returned := ⟨link, call⟩ :: ended.returned }

/-- `cached`, and the call goes on where it finds nothing. -/
def look (cache : LinkCache) (number : Nat) (call : Call) (next : CallStage) : LinkCache :=
  match cache.cached call.device with
  | some link => cache.returnLink number call link
  | none => (cache.remove call.device).setCall number call next

/-- An attempt failed: the sequence goes on, or counts as one failure. -/
def retry (cache : LinkCache) (number : Nat) (call : Call) : LinkCache :=
  if call.attempt + 1 < dialAttempts then
    cache.setCall number { call with attempt := call.attempt + 1 } .sleeping
  else { cache with cooldowns := call.device :: cache.cooldowns }.endCall number call

/-- The end of a sequence of dials, under the lock of the links. -/
def insert (cache : LinkCache) (number : Nat) (call : Call) (link : Link) : LinkCache :=
  let cleared := { cache with cooldowns := cache.cooldowns.filter (· ≠ call.device) }
  if cleared.revoked then cleared.endCall number call
  else
    let removed := cleared.remove call.device
    { removed with links := (call.device, link) :: removed.links }.returnLink number call link

/-- `client`, from one lock section or answer to the next. -/
def goOn (cache : LinkCache) (number : Nat) (call : Call) (succeeds : Bool) : Option LinkCache :=
  match call.stage with
  | .starting =>
      some (if cache.revoked then cache.endCall number call else cache.setCall number call .looking)
  | .looking => some (cache.look number call .probing)
  | .probing =>
      -- a device without recent presence is not dialed
      some (if succeeds then cache.setCall number call .queued else cache.endCall number call)
  | .queued =>
      if cache.dialing.contains call.device then none
      else some ({ cache with dialing := call.device :: cache.dialing }.setCall number call .rechecking)
  | .rechecking => some (cache.look number call .cooling)
  | .cooling =>
      some (if cache.cooldowns.contains call.device then cache.endCall number call
        else cache.setCall number call .reading)
  | .reading =>
      match cache.signedIn with
      | some signIn =>
          some (if succeeds then cache.setCall number call (.connecting signIn)
            else cache.retry number call)
      | none => some (cache.retry number call)
  | .connecting signIn =>
      if succeeds then
        some ({ cache with nextLink := cache.nextLink + 1 }.setCall number call
          (.landed ⟨cache.nextLink, signIn⟩))
      else some (cache.retry number call)
  | .sleeping => some (cache.setCall number call .reading)
  | .landed link => some (cache.insert number call link)

def step (cache : LinkCache) : LinkAction → Option LinkCache
  | .signIn =>
      some { cache with signedIn := some cache.signIns, signIns := cache.signIns + 1, changed := true }
  | .signOut => some { cache with signedIn := none, changed := true }
  | .refreshed => some { cache with changed := true }
  | .notice =>
      if cache.changed ∧ cache.watcher = .idle then
        some { cache with changed := false, watcher := .asking }
      else none
  | .answer available =>
      if cache.watcher = .asking then
        match cache.signedIn with
        | none => some { cache with watcher := .applying true }
        | some _ => some { cache with watcher := if available then .applying false else .idle }
      else none
  | .apply =>
      match cache.watcher with
      | .applying true => some { cache with revoked := true, watcher := .clearing }
      | .applying false => some { cache with revoked := false, cooldowns := [], watcher := .idle }
      | .clearing => some { cache with links := [], cooldowns := [], watcher := .idle }
      | _ => none
  | .wake =>
      if cache.watcher = .idle then some { cache with links := [], cooldowns := [] } else none
  | .online => if cache.watcher = .idle then some { cache with cooldowns := [] } else none
  | .disconnect =>
      some { cache with revoked := true, disconnecting := cache.disconnecting + 1 }
  | .disconnected =>
      if cache.disconnecting = 0 then none
      else some { cache with
        links := [], cooldowns := [], disconnecting := cache.disconnecting - 1 }
  | .client device =>
      some { cache with
        calls := cache.calls ++ [{ device, signedIn := cache.signedIn, signIns := cache.signIns }] }
  | .goOn number succeeds => cache.calls[number]?.bind fun call => cache.goOn number call succeeds
  | .dropCall number => cache.calls[number]?.map fun call => cache.endCall number call
  | .invalidate device => some (cache.remove device)
  | .resetCooldown device =>
      some { cache with cooldowns := cache.cooldowns.filter (· ≠ device) }
  | .dropLink serial => some { cache with dropped := serial :: cache.dropped }
  | .evict device =>
      if (cache.cached device).isNone then some (cache.remove device) else none

/-- The watcher has handled every change of the credentials. -/
def Settled (cache : LinkCache) : Prop := cache.changed = false ∧ cache.watcher = .idle

/-- No link outlives its sign-in. -/
structure Revoked (cache : LinkCache) : Prop where
  links : cache.Settled → ∀ row ∈ cache.links, cache.signedIn = some row.2.signIn
  returned : ∀ returned ∈ cache.returned, returned.Fits

/-- No sign-in finds a link of an earlier one, or comes between the token of a dial and its
link, and no call that began signed out finds a link while the device is signed out. -/
def keepsApart (cache : LinkCache) : LinkAction → Bool
  | .signIn => cache.links.isEmpty
  | .goOn number _ =>
      cache.calls[number]?.all fun call =>
        match call.stage with
        | .landed link => cache.revoked || link.signIn + 1 = cache.signIns
        | .looking | .rechecking =>
            call.signedIn.isSome || cache.signedIn.isSome || (cache.cached call.device).isNone
        | _ => true
  | _ => true

end LinkCache

/-! ## Calls -/

namespace Call

/-- The sign-in whose token the call has read. -/
def token (call : Call) : Option Nat :=
  match call.stage with
  | .connecting signIn => some signIn
  | .landed link => some link.signIn
  | _ => none

/-- The sign-in had not ended before the call began. -/
def Outlived (call : Call) (signIn : Nat) : Prop :=
  signIn < call.signIns → call.signedIn = some signIn

/-- What a call knows of the sign-ins, while this one is current. -/
structure Sound (signedIn : Option Nat) (signIns : Nat) (call : Call) : Prop where
  past : call.signIns ≤ signIns
  began : ∀ signIn, call.signedIn = some signIn → signIn + 1 = call.signIns
  still : call.signIns = signIns → signedIn.isSome → call.signedIn = signedIn
  token : ∀ signIn, call.token = some signIn → call.Outlived signIn

variable {call : Call} {signedIn : Option Nat} {signIns : Nat}

theorem Sound.atStage (sound : call.Sound signedIn signIns) (attempt : Nat) {stage : CallStage}
    (silent : ({ call with attempt, stage } : Call).token = none) :
    ({ call with attempt, stage } : Call).Sound signedIn signIns :=
  ⟨sound.past, sound.began, sound.still, by simp [silent]⟩

/-- A link of the last sign-in fits the call, where one of the two was signed in. -/
theorem Sound.outlived (sound : call.Sound signedIn signIns) {signIn : Nat}
    (last : signIn + 1 = signIns) (current : ∀ signIn, signedIn = some signIn → signIn + 1 = signIns)
    (known : call.signedIn.isSome ∨ signedIn.isSome) : call.Outlived signIn := by
  intro ended
  have same : call.signIns = signIns := by
    have past := sound.past
    omega
  rcases known with known | known
  · obtain ⟨began, known⟩ := Option.isSome_iff_exists.mp known
    have number := sound.began began known
    rw [known]
    congr 1
    omega
  · obtain ⟨here, signed⟩ := Option.isSome_iff_exists.mp known
    have number := current here signed
    rw [sound.still same known, signed]
    congr 1
    omega

end Call

namespace LinkCache

variable {cache after : LinkCache} {call : Call} {number : Nat}

theorem fits_of_outlived {link : Link} (outlived : call.Outlived link.signIn) :
    (Returned.mk link call).Fits :=
  fun ended => ended.2 (outlived ended.1)

/-! ## What every step keeps -/

structure Kept (cache : LinkCache) : Prop where
  recent : ∀ row ∈ cache.links, row.2.signIn + 1 = cache.signIns
  current : ∀ signIn, cache.signedIn = some signIn → signIn + 1 = cache.signIns
  watched : cache.signedIn = none → cache.changed = true ∨ cache.watcher = .asking ∨
    cache.watcher = .applying true ∨ cache.watcher = .clearing ∧ cache.revoked = true ∨
    cache.watcher = .idle ∧ cache.links = [] ∧ (cache.revoked = true ∨ cache.signIns = 0)
  calls : ∀ call ∈ cache.calls, call.Sound cache.signedIn cache.signIns
  returned : ∀ returned ∈ cache.returned, returned.Fits

theorem Kept.holds (kept : cache.Kept) : cache.Revoked := by
  refine ⟨?_, kept.returned⟩
  rintro ⟨unchanged, idle⟩ row there
  have recent := kept.recent row there
  cases signedIn : cache.signedIn with
  | none =>
      rcases kept.watched signedIn with changed | asking | applying | clearing | cleared
      · simp [unchanged] at changed
      · simp [idle] at asking
      · simp [idle] at applying
      · simp [idle] at clearing
      · simp [cleared.2.1] at there
  | some signIn =>
      have current := kept.current signIn signedIn
      congr 1
      omega

/-- Links are taken away, and calls come and go. -/
theorem Kept.mono (kept : cache.Kept) (signedIn : after.signedIn = cache.signedIn)
    (signIns : after.signIns = cache.signIns) (changed : after.changed = cache.changed)
    (watcher : after.watcher = cache.watcher)
    (revoked : cache.revoked = true → after.revoked = true)
    (links : ∀ row ∈ after.links, row ∈ cache.links)
    (calls : ∀ call ∈ after.calls, call.Sound cache.signedIn cache.signIns)
    (returned : ∀ returned ∈ after.returned, returned.Fits) : after.Kept := by
  constructor
  · intro row there
    rw [signIns]
    exact kept.recent row (links row there)
  · rw [signedIn, signIns]
    exact kept.current
  · rw [signedIn, changed, watcher, signIns]
    intro out
    rcases kept.watched out with changed | asking | applying | clearing | ⟨idle, empty, revoked'⟩
    · exact .inl changed
    · exact .inr (.inl asking)
    · exact .inr (.inr (.inl applying))
    · exact .inr (.inr (.inr (.inl ⟨clearing.1, revoked clearing.2⟩)))
    · refine .inr (.inr (.inr (.inr ⟨idle, ?_, revoked'.imp_left revoked⟩)))
      rw [List.eq_nil_iff_forall_not_mem]
      intro row there
      rw [empty] at links
      exact List.not_mem_nil (links row there)
  · rw [signedIn, signIns]
    exact calls
  · exact returned

theorem Kept.endCall (kept : cache.Kept) (number : Nat) (call : Call) :
    (cache.endCall number call).Kept :=
  kept.mono rfl rfl rfl rfl id (fun _ there => there)
    (fun other there => kept.calls other (List.mem_of_mem_eraseIdx there)) kept.returned

theorem Kept.setCall (kept : cache.Kept) (number : Nat) {call : Call} {stage : CallStage}
    (sound : ({ call with stage } : Call).Sound cache.signedIn cache.signIns) :
    (cache.setCall number call stage).Kept := by
  refine kept.mono rfl rfl rfl rfl id (fun _ there => there) ?_ kept.returned
  intro other there
  rcases List.mem_or_eq_of_mem_set there with before | rfl
  · exact kept.calls other before
  · exact sound

theorem Kept.remove (kept : cache.Kept) (device : String) : (cache.remove device).Kept :=
  kept.mono rfl rfl rfl rfl id (fun _ there => List.mem_of_mem_filter there) kept.calls kept.returned

theorem Kept.returnLink (kept : cache.Kept) (number : Nat) {link : Link}
    (outlived : call.Outlived link.signIn) : (cache.returnLink number call link).Kept := by
  refine (kept.endCall number call).mono rfl rfl rfl rfl id (fun _ there => there)
    (kept.endCall number call).calls ?_
  intro returned there
  rcases List.mem_cons.mp there with rfl | before
  · exact fits_of_outlived outlived
  · exact kept.returned returned before

theorem cached_mem {device : String} {link : Link} (found : cache.cached device = some link) :
    ∃ row ∈ cache.links, row.2 = link := by
  obtain ⟨held, _⟩ := Option.filter_eq_some_iff.mp found
  obtain ⟨row, first, rfl⟩ := Option.map_eq_some_iff.mp held
  exact ⟨row, List.mem_of_find?_eq_some first, rfl⟩

theorem Kept.look (kept : cache.Kept) (sound : call.Sound cache.signedIn cache.signIns)
    {next : CallStage} (silent : ({ call with stage := next } : Call).token = none)
    (known : (cache.cached call.device).isSome →
      call.signedIn.isSome ∨ cache.signedIn.isSome) : (cache.look number call next).Kept := by
  unfold LinkCache.look
  split
  · rename_i link found
    obtain ⟨row, there, rfl⟩ := cached_mem found
    apply kept.returnLink
    exact sound.outlived (kept.recent row there) kept.current (known (by simp [found]))
  · exact (kept.remove call.device).setCall number (sound.atStage call.attempt silent)

theorem Kept.retry (kept : cache.Kept) (sound : call.Sound cache.signedIn cache.signIns) :
    (cache.retry number call).Kept := by
  unfold LinkCache.retry
  split
  · exact kept.setCall number (sound.atStage (call.attempt + 1) rfl)
  · have counted : ({ cache with cooldowns := call.device :: cache.cooldowns } : LinkCache).Kept :=
      kept.mono rfl rfl rfl rfl id (fun _ there => there) kept.calls kept.returned
    exact counted.endCall number call

theorem Kept.insert (kept : cache.Kept) (sound : call.Sound cache.signedIn cache.signIns)
    {link : Link} (landed : call.stage = .landed link)
    (last : cache.revoked = true ∨ link.signIn + 1 = cache.signIns) :
    (cache.insert number call link).Kept := by
  have cleared : ({ cache with
      cooldowns := cache.cooldowns.filter (· ≠ call.device) } : LinkCache).Kept :=
    kept.mono rfl rfl rfl rfl id (fun _ there => there) kept.calls kept.returned
  unfold LinkCache.insert
  simp only
  split
  · exact cleared.endCall number call
  · rename_i trusted
    have removed := cleared.remove call.device
    apply Kept.returnLink
    · refine ⟨?_, removed.current, ?_, removed.calls, removed.returned⟩
      · intro row there
        rcases List.mem_cons.mp there with rfl | there
        · exact last.resolve_left trusted
        · exact removed.recent row there
      · intro out
        rcases kept.watched out with changed | asking | applying | clearing | ⟨_, _, revoked | none⟩
        · exact .inl changed
        · exact .inr (.inl asking)
        · exact .inr (.inr (.inl applying))
        · exact absurd clearing.2 trusted
        · exact absurd revoked trusted
        · have last := last.resolve_left trusted
          omega
    · exact sound.token link.signIn (by simp [Call.token, landed])

theorem Kept.goOn (kept : cache.Kept) {succeeds : Bool} (there : cache.calls[number]? = some call)
    (apart : cache.keepsApart (.goOn number succeeds) = true)
    (went : cache.goOn number call succeeds = some after) : after.Kept := by
  have sound := kept.calls call (List.mem_of_getElem? there)
  simp only [keepsApart, there, Option.all_some] at apart
  have quiet {stage : CallStage} (silent : ({ call with stage } : Call).token = none) :
      (cache.setCall number call stage).Kept :=
    kept.setCall number (sound.atStage call.attempt silent)
  unfold LinkCache.goOn at went
  cases stage : call.stage <;> simp only [stage, Option.some.injEq] at went apart
  case starting | probing | cooling =>
    subst went
    split
    all_goals first
      | exact kept.endCall number call
      | exact quiet rfl
  case looking | rechecking =>
    subst went
    apply kept.look sound rfl
    intro found
    simp only [Bool.or_eq_true] at apart
    rcases apart with known | empty
    · exact known
    · simp [Option.isNone_iff_eq_none.mp empty] at found
  case queued =>
    split at went
    · cases went
    · cases went
      have locked : ({ cache with dialing := call.device :: cache.dialing } : LinkCache).Kept :=
        kept.mono rfl rfl rfl rfl id (fun _ there => there) kept.calls kept.returned
      exact locked.setCall number (sound.atStage call.attempt rfl)
  case reading =>
    cases signedIn : cache.signedIn with
    | none =>
        simp only [signedIn, Option.some.injEq] at went
        subst went
        exact kept.retry sound
    | some signIn =>
        simp only [signedIn, Option.some.injEq] at went
        subst went
        split
        · apply kept.setCall
          refine ⟨sound.past, sound.began, sound.still, ?_⟩
          rintro _ ⟨⟩
          exact sound.outlived (kept.current signIn signedIn) kept.current (.inr (by simp [signedIn]))
        · exact kept.retry sound
  case connecting signIn =>
    split at went <;> cases went
    · have counted : ({ cache with nextLink := cache.nextLink + 1 } : LinkCache).Kept :=
        kept.mono rfl rfl rfl rfl id (fun _ there => there) kept.calls kept.returned
      apply counted.setCall
      refine ⟨sound.past, sound.began, sound.still, ?_⟩
      rintro _ ⟨⟩
      exact sound.token signIn (by simp [Call.token, stage])
    · exact kept.retry sound
  case sleeping =>
    subst went
    exact quiet rfl
  case landed link =>
    subst went
    exact kept.insert sound stage (by simpa using apart)

/-! ## The watcher and the credentials -/

theorem Kept.signIn (kept : cache.Kept) (empty : cache.links.isEmpty = true) :
    ({ cache with
      signedIn := some cache.signIns
      signIns := cache.signIns + 1
      changed := true } : LinkCache).Kept := by
  have none : cache.links = [] := List.isEmpty_iff.mp empty
  refine ⟨by simp [none], by simp, nofun, ?_, kept.returned⟩
  intro call there
  have sound := kept.calls call there
  refine ⟨Nat.le_succ_of_le sound.past, sound.began, fun same _ => ?_, sound.token⟩
  have past := sound.past
  have same : call.signIns = cache.signIns + 1 := same
  omega

theorem Kept.signOut (kept : cache.Kept) :
    ({ cache with signedIn := none, changed := true } : LinkCache).Kept := by
  refine ⟨kept.recent, nofun, fun _ => .inl rfl, ?_, kept.returned⟩
  intro call there
  have sound := kept.calls call there
  exact ⟨sound.past, sound.began, nofun, sound.token⟩

theorem Kept.notice (kept : cache.Kept) :
    ({ cache with changed := false, watcher := .asking } : LinkCache).Kept :=
  ⟨kept.recent, kept.current, fun _ => .inr (.inl rfl), kept.calls, kept.returned⟩

theorem Kept.answer (kept : cache.Kept) {available : Bool} (asking : cache.watcher = .asking)
    (answered : cache.step (.answer available) = some after) : after.Kept := by
  simp only [LinkCache.step, asking, if_true] at answered
  cases signedIn : cache.signedIn with
  | none =>
      simp only [signedIn] at answered
      cases answered
      exact ⟨kept.recent, by simp, fun _ => .inr (.inr (.inl rfl)),
        by simpa [signedIn] using kept.calls, kept.returned⟩
  | some here =>
      simp only [signedIn] at answered
      cases answered
      exact ⟨kept.recent, by simpa [signedIn] using kept.current, nofun,
        by simpa [signedIn] using kept.calls, kept.returned⟩

theorem Kept.apply (kept : cache.Kept) (applied : cache.step .apply = some after) : after.Kept := by
  simp only [LinkCache.step] at applied
  split at applied
  · cases applied
    exact ⟨kept.recent, kept.current, fun _ => .inr (.inr (.inr (.inl ⟨rfl, rfl⟩))), kept.calls,
      kept.returned⟩
  · rename_i applying
    cases applied
    refine ⟨kept.recent, kept.current, fun out => ?_, kept.calls, kept.returned⟩
    rcases kept.watched out with changed | other | other | other | other
    · exact .inl changed
    all_goals simp [applying] at other
  · rename_i clearing
    cases applied
    refine ⟨nofun, kept.current, fun out => ?_, kept.calls, kept.returned⟩
    rcases kept.watched out with changed | other | other | revoked | other
    · exact .inl changed
    · simp [clearing] at other
    · simp [clearing] at other
    · exact .inr (.inr (.inr (.inr ⟨rfl, rfl, .inl revoked.2⟩)))
    · simp [clearing] at other
  · cases applied

theorem Kept.client (kept : cache.Kept) (device : String) :
    ({ cache with calls := cache.calls ++
      [{ device, signedIn := cache.signedIn, signIns := cache.signIns }] } : LinkCache).Kept := by
  refine kept.mono rfl rfl rfl rfl id (fun _ there => there) ?_ kept.returned
  intro call there
  rcases List.mem_append.mp there with before | new
  · exact kept.calls call before
  · obtain rfl := List.mem_singleton.mp new
    exact ⟨Nat.le_refl _, kept.current, fun _ _ => rfl, nofun⟩

theorem Kept.step {action : LinkAction} (kept : cache.Kept)
    (apart : cache.keepsApart action = true) (stepped : cache.step action = some after) :
    after.Kept := by
  -- links and cooldowns go, and nothing else changes
  have fewer {links : List (String × Link)} {cooldowns : List String} {disconnecting : Nat}
      (there : ∀ row ∈ links, row ∈ cache.links) :
      ({ cache with links, cooldowns, disconnecting } : LinkCache).Kept :=
    kept.mono rfl rfl rfl rfl id there kept.calls kept.returned
  cases action with
  | signIn =>
      cases stepped
      exact kept.signIn apart
  | signOut =>
      cases stepped
      exact kept.signOut
  | refreshed =>
      cases stepped
      exact ⟨kept.recent, kept.current, fun _ => .inl rfl, kept.calls, kept.returned⟩
  | notice =>
      simp only [LinkCache.step] at stepped
      split at stepped <;> cases stepped
      exact kept.notice
  | answer available =>
      by_cases asking : cache.watcher = .asking
      · exact kept.answer asking stepped
      · simp [LinkCache.step, asking] at stepped
  | apply => exact kept.apply stepped
  | wake =>
      simp only [LinkCache.step] at stepped
      split at stepped <;> cases stepped
      exact fewer nofun
  | online =>
      simp only [LinkCache.step] at stepped
      split at stepped <;> cases stepped
      exact fewer fun _ there => there
  | disconnect =>
      cases stepped
      exact kept.mono rfl rfl rfl rfl (fun _ => rfl) (fun _ there => there) kept.calls kept.returned
  | disconnected =>
      simp only [LinkCache.step] at stepped
      split at stepped <;> cases stepped
      exact fewer nofun
  | client device =>
      cases stepped
      exact kept.client device
  | goOn number succeeds =>
      obtain ⟨call, there, went⟩ := Option.bind_eq_some_iff.mp stepped
      exact kept.goOn there apart went
  | dropCall number =>
      obtain ⟨call, _, rfl⟩ := Option.map_eq_some_iff.mp stepped
      exact kept.endCall number call
  | invalidate device =>
      cases stepped
      exact kept.remove device
  | resetCooldown device =>
      cases stepped
      exact fewer fun _ there => there
  | dropLink serial =>
      cases stepped
      exact kept.mono rfl rfl rfl rfl id (fun _ there => there) kept.calls kept.returned
  | evict device =>
      simp only [LinkCache.step] at stepped
      split at stepped <;> cases stepped
      exact kept.remove device

theorem kept_start (signedIn : Bool) : (start signedIn).Kept := by
  refine ⟨nofun, ?_, ?_, nofun, nofun⟩
  · cases signedIn <;> simp [start]
  · cases signedIn <;> simp [start]

/-- In a run that keeps its sign-ins apart, the cache holds links of the current sign-in
whenever the watcher is done, and no call returns a link of one that ended before it. -/
theorem links_revoked {signedIn : Bool}
    (runs : Reaches step (fun cache action => cache.keepsApart action = true)
      (start signedIn) cache) : cache.Revoked := by
  have kept : cache.Kept := by
    apply runs.keeps (kept_start signedIn)
    intro before action next kept apart stepped
    exact kept.step apart stepped
  exact kept.holds

/-- The actions of a call that dials and gets its link. -/
def dialed (call : Nat) : List LinkAction := List.replicate 9 (.goOn call true)

/-- A sign-out that is handled before the next sign-in; each sign-in dials its own link. -/
theorem handled_sign_out_revokes : ∃ cache : LinkCache,
    (Reaches step (fun cache action => cache.keepsApart action = true) (start true) cache ∧
      cache.links = [("laptop", ⟨1, 1⟩)]) ∧ cache.Revoked := by
  have ran : (runAll step keepsApart (start true)
      (.client "laptop" :: dialed 0 ++
        [.signOut, .notice, .answer true, .apply, .apply, .signIn, .notice, .answer true, .apply,
          .client "laptop"] ++ dialed 0)).map links = some [("laptop", ⟨1, 1⟩)] := by
    decide
  obtain ⟨cache, ran, links⟩ := Option.map_eq_some_iff.mp ran
  have runs := reaches_of_runAll ran
  exact ⟨cache, ⟨runs, links⟩, links_revoked runs⟩

/-- The watcher sees a sign-out and the sign-in after it as one change. -/
theorem coalesced_sign_out_keeps_link : ∃ cache : LinkCache,
    Reaches step (fun _ _ => True) (start true) cache ∧ ¬ cache.Revoked := by
  have ran : (runAll step (fun _ _ => true) (start true)
      (.client "laptop" :: dialed 0 ++
        [.signOut, .signIn, .notice, .answer true, .apply])).map
      (fun cache => (cache.changed, cache.watcher, cache.links, cache.signedIn)) =
      some (false, .idle, [("laptop", ⟨0, 0⟩)], some 1) := by
    decide
  obtain ⟨cache, ran, ends⟩ := Option.map_eq_some_iff.mp ran
  injection ends with changed ends
  injection ends with idle ends
  injection ends with links signedIn
  refine ⟨cache, (reaches_of_runAll ran).mono fun _ _ _ => trivial, fun revoked => ?_⟩
  have current := revoked.links ⟨changed, idle⟩ ("laptop", ⟨0, 0⟩) (by simp [links])
  rw [signedIn] at current
  cases current

end LinkCache

end Zeron.Peer
