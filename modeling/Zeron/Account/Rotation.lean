import Zeron.Account.Ledger

namespace Zeron.Account

open Zeron.Data

/-! # Refresh tokens are spent once

A renewed token is not sent again where the answer that renews it still finds the
refresh that waits for it.
-/

namespace RefreshStage

def sends : RefreshStage → Option (Nat × Credential)
  | .sending generation token => some (generation, token)
  | _ => none

def asks : RefreshStage → Option (Nat × Credential)
  | .asked generation token _ | .received generation token _ => some (generation, token)
  | _ => none

end RefreshStage

def Answer.renewal : Answer → Option Credential
  | .rotated tokens => some tokens.refreshToken
  | _ => none

def RefreshStage.renewal : RefreshStage → Option Credential
  | .asked _ _ answer => answer.bind Answer.renewal
  | .received _ _ answer => answer.renewal
  | _ => none

namespace Holder

def rotates : Holder → Option Credential
  | .rotating tokens => some tokens.refreshToken
  | _ => none

def brings : Holder → Option Credential
  | .persisting session _ | .storing session _ => some session.refreshToken
  | _ => none

/-- The holder ends a refresh, which goes on where it releases the lock. -/
def endsRefresh : Holder → Bool
  | .clearing refresh | .removing refresh | .leaving refresh => refresh
  | .rotating _ | .saving _ _ _ | .announcing _ _ _ => true
  | _ => false

end Holder

namespace Auth

def ledger (auth : Auth) : Ledger where
  stored := auth.storedToken
  generation := auth.generation
  sending := auth.gate.bind fun refresh => refresh.stage.sends
  asking := auth.gate.bind fun refresh => refresh.stage.asks
  renewal := auth.gate.bind fun refresh => refresh.stage.renewal
  rotating := auth.holder.bind Holder.rotates
  arriving := auth.holder.bind Holder.brings
  sent := auth.sent
  answered := auth.answered
  strays := auth.strays
  replayed := auth.replayed
  nextSerial := auth.nextSerial

/-- No answer that renews a token is lost while the token is still in use. -/
def keepsRotations (auth : Auth) : AuthAction → Bool
  | .dropCaller | .timeOut =>
      match auth.gate with
      | some ⟨_, _, .asked _ token (some (.rotated _))⟩ => decide (auth.storedToken ≠ some token)
      | _ => true
  | .answerStray number (.rotates _) =>
      match auth.strays[number]? with
      | some token =>
          decide (auth.ledger.stored ≠ some token ∧ auth.ledger.sending.map Prod.snd ≠ some token)
      | none => true
  | _ => true

structure Sound (auth : Auth) : Prop where
  unspent : auth.ledger.Unspent
  ends : ∀ holder, auth.holder = some holder → holder.endsRefresh = true →
    auth.gate.map Refresh.stage = some .committing

variable {auth after : Auth} {refresh : Refresh} {stage : RefreshStage} {number : Nat}

theorem Sound.congr (sound : auth.Sound) (ledger : after.ledger = auth.ledger)
    (holder : after.holder = auth.holder) (gate : after.gate = auth.gate) : after.Sound := by
  constructor
  · rw [ledger]
    exact sound.unspent
  · rw [holder, gate]
    exact sound.ends

/-- Native tokens take serials as well. -/
theorem Sound.issue (sound : auth.Sound) (count : Nat)
    (ledger : after.ledger = { auth.ledger with nextSerial := auth.ledger.nextSerial + count })
    (holder : after.holder = auth.holder) (gate : after.gate = auth.gate) : after.Sound := by
  constructor
  · rw [ledger]
    exact sound.unspent.issue count
  · rw [holder, gate]
    exact sound.ends

/-! ## The refresh that holds the gate -/

theorem ledger_of_gate (held : auth.gate = some refresh) :
    auth.ledger.sending = refresh.stage.sends ∧ auth.ledger.asking = refresh.stage.asks ∧
      auth.ledger.renewal = refresh.stage.renewal := by
  simp [ledger, held]

/-- A refresh that is not at its commit moves on. -/
theorem Sound.move (sound : auth.Sound) (held : auth.gate = some refresh)
    (moving : refresh.stage ≠ .committing) (unspent : after.ledger.Unspent)
    (holder : after.holder = auth.holder) : after.Sound := by
  refine ⟨unspent, fun other here ends => ?_⟩
  rw [holder] at here
  have committing := sound.ends other here ends
  rw [held] at committing
  exact absurd (Option.some.inj committing) moving

/-- It moves on without a token. -/
theorem Sound.quieten (sound : auth.Sound) (held : auth.gate = some refresh)
    (moving : refresh.stage ≠ .committing) {strays : List Credential}
    (there : ∀ stray ∈ strays,
      stray ∈ auth.strays ∨ refresh.stage.asks.map Prod.snd = some stray)
    (kept : ∀ spent, refresh.stage.asks.map Prod.snd = some spent →
      refresh.stage.renewal.isSome → auth.storedToken ≠ some spent)
    (ledger : after.ledger =
      { auth.ledger with sending := none, asking := none, renewal := none, strays })
    (holder : after.holder = auth.holder) : after.Sound := by
  apply sound.move held moving _ holder
  rw [ledger]
  obtain ⟨_, asks, renewal⟩ := ledger_of_gate held
  apply sound.unspent.letGo
  · rw [asks]
    exact there
  · rw [asks, renewal]
    exact kept

theorem Sound.read (sound : auth.Sound) {session : StoredSession}
    (held : auth.gate = some refresh) (reading : refresh.stage = .reading)
    (free : auth.holder = none) (stored : auth.stored = some session) :
    (auth.atStage refresh (.sending auth.generation session.refreshToken)).Sound := by
  have asks : auth.ledger.asking = none := by
    simp [Auth.ledger, held, reading, RefreshStage.asks]
  refine sound.move held (by simp [reading]) ?_ rfl
  have token : auth.ledger.stored = some session.refreshToken := by
    simp [Auth.ledger, storedToken, stored]
  have read := sound.unspent.read token asks (by simp [Auth.ledger, free])
  have same : (auth.atStage refresh (.sending auth.generation session.refreshToken)).ledger =
      { auth.ledger with sending := some (auth.generation, session.refreshToken) } := by
    simp [Auth.ledger, atStage, held, reading, storedToken, RefreshStage.sends,
      RefreshStage.asks, RefreshStage.renewal]
  rw [same]
  exact read

theorem Sound.send (sound : auth.Sound) {generation : Nat} {token : Credential}
    (held : auth.gate = some refresh) (sending : refresh.stage = .sending generation token) :
    (auth.send refresh generation token).Sound := by
  have sends : auth.ledger.sending = some (generation, token) := by
    simp [Auth.ledger, held, sending, RefreshStage.sends]
  refine sound.move held (by simp [sending]) ?_ rfl
  have same : (auth.send refresh generation token).ledger =
      { auth.ledger with
        sending := none
        asking := some (generation, token)
        sent := token :: auth.sent
        replayed := if token ∈ auth.answered then token :: auth.replayed else auth.replayed } := by
    simp [Auth.ledger, Auth.send, atStage, held, sending, storedToken, RefreshStage.sends,
      RefreshStage.asks, RefreshStage.renewal]
  rw [same]
  exact sound.unspent.send sends

theorem Sound.commit (sound : auth.Sound) {generation : Nat} {token : Credential}
    {answer : Answer} (held : auth.gate = some refresh)
    (received : refresh.stage = .received generation token answer) (free : auth.holder = none) :
    (auth.commit refresh generation token answer).Sound := by
  have moving : refresh.stage ≠ .committing := by simp [received]
  obtain ⟨_, asks, renewal⟩ := ledger_of_gate held
  rw [received] at asks renewal
  have current : auth.storedToken = some token → auth.generation = generation :=
    fun stored => sound.unspent.current generation token stored (.inr asks)
  -- an answer without a new token leaves the store as it is
  have ended {failed : Bool} (old : answer.renewal = none) :
      (auth.atStage refresh (.settling failed)).Sound := by
    refine sound.quieten held moving (fun _ stray => .inl stray) ?_ rfl rfl
    rw [received]
    simp [RefreshStage.renewal, old]
  cases answer with
  | failed => exact ended rfl
  | rejected =>
      simp only [Auth.commit]
      split
      · exact ended rfl
      · split
        · exact ended rfl
        · constructor
          · have quiet := @Ledger.Unspent.letGo _ sound.unspent auth.strays (fun _ stray => .inl stray)
              (by simp [renewal, RefreshStage.renewal, Answer.renewal])
            have cleared := quiet.clear ((auth.generation + 1) % u64)
            have same : ((auth.atStage refresh .committing).clearSession true).ledger =
                { auth.ledger with
                  stored := none
                  generation := (auth.generation + 1) % u64
                  sending := none, asking := none, renewal := none } := by
              simp [Auth.ledger, clearSession, atStage, free, storedToken, RefreshStage.sends,
                RefreshStage.asks, RefreshStage.renewal, Holder.rotates, Holder.brings]
            rw [same]
            exact cleared
          · intro _ _ _
            rfl
  | rotated tokens =>
      simp only [Auth.commit]
      split
      · rename_i replaced
        refine sound.quieten held moving (fun _ stray => .inl stray) ?_ rfl rfl
        rw [received]
        rintro spent ⟨⟩ _ stored
        rcases replaced with moved | other
        · exact moved (current stored)
        · exact other stored
      · constructor
        · have same : ({ auth.atStage refresh .committing with
                access := some tokens.accessToken
                accessFresh := true
                accesses := tokens.accessToken :: auth.accesses
                holder := some (.rotating tokens) } : Auth).ledger =
              { auth.ledger with
                sending := none
                asking := none
                renewal := none
                rotating := some tokens.refreshToken } := by
            simp [Auth.ledger, atStage, free, storedToken, RefreshStage.sends, RefreshStage.asks,
              RefreshStage.renewal, Holder.rotates, Holder.brings]
          rw [same]
          exact sound.unspent.commit renewal
        · intro _ _ _
          rfl

theorem Sound.goOn (sound : auth.Sound) (held : auth.gate = some refresh)
    (went : auth.goOn refresh = some after) : after.Sound := by
  -- the stages without a token
  have quieten {next : Auth} (silent : refresh.stage.asks = none)
      (moving : refresh.stage ≠ .committing)
      (ledger : next.ledger =
        { auth.ledger with sending := none, asking := none, renewal := none })
      (holder : next.holder = auth.holder) : next.Sound := by
    refine sound.quieten held moving (fun _ stray => .inl stray) ?_ ledger holder
    simp [silent]
  unfold Auth.goOn at went
  cases stage : refresh.stage <;> simp only [stage, reduceCtorEq, Option.some.injEq] at went
  case checking | pausing =>
    split at went <;> cases went <;>
      exact quieten (by simp [stage, RefreshStage.asks]) (by simp [stage]) rfl rfl
  case reading =>
    split at went
    · cases went
    · rename_i free
      cases stored : auth.stored with
      | none =>
          simp only [stored] at went
          cases went
          exact quieten (by simp [stage, RefreshStage.asks]) (by simp [stage]) rfl rfl
      | some session =>
          simp only [stored] at went
          cases went
          exact sound.read held stage (by simpa using free) stored
  case sending generation token =>
    subst went
    exact sound.send held stage
  case asked generation token answer =>
    cases answer with
    | none => cases went
    | some answer =>
        cases went
        refine sound.move held (by simp [stage]) ?_ rfl
        have same : (auth.atStage refresh (.received generation token answer)).ledger =
            auth.ledger := by
          simp [Auth.ledger, atStage, held, stage, storedToken, RefreshStage.sends,
            RefreshStage.asks, RefreshStage.renewal]
        rw [same]
        exact sound.unspent
  case received generation token answer =>
    split at went
    · cases went
    · rename_i free
      cases went
      exact sound.commit held stage (by simpa using free)
  case settling failed =>
    subst went
    unfold settle
    split
    · split <;> exact quieten (by simp [stage, RefreshStage.asks]) (by simp [stage]) rfl rfl
    · exact quieten (by simp [stage, RefreshStage.asks]) (by simp [stage]) rfl rfl

/-- Nobody waits for the request of the gate any more. -/
theorem Sound.forsake (sound : auth.Sound) {generation : Nat} {token : Credential}
    {answer : Option Answer} (held : auth.gate = some refresh)
    (asked : refresh.stage = .asked generation token answer)
    (kept : ∀ tokens, answer = some (.rotated tokens) → auth.storedToken ≠ some token)
    (ledger : after.ledger = { (auth.forsake token answer).ledger with
      sending := none, asking := none, renewal := none })
    (holder : after.holder = auth.holder) : after.Sound := by
  have strays : ∀ stray ∈ (auth.forsake token answer).strays,
      stray ∈ auth.strays ∨ refresh.stage.asks.map Prod.snd = some stray := by
    intro stray there
    unfold Auth.forsake at there
    split at there
    · rcases List.mem_cons.mp there with rfl | there
      · exact .inr (by simp [asked, RefreshStage.asks])
      · exact .inl there
    · exact .inl there
  refine sound.quieten held (by simp [asked]) strays ?_ (ledger.trans ?_) holder
  · intro spent presented renewed
    rw [asked] at presented renewed
    cases presented
    cases answer with
    | none => cases renewed
    | some answer =>
        cases answer with
        | rotated tokens => exact kept tokens rfl
        | rejected | failed => cases renewed
  · unfold Auth.forsake
    split <;> rfl

theorem Sound.answer (sound : auth.Sound) {generation : Nat} {token : Credential}
    {retryGeneration : Nat} {organization : Option String}
    (held : auth.gate = some ⟨organization, retryGeneration, .asked generation token none⟩)
    (outcome : Outcome) :
    ((auth.answerOf token outcome).1.atStage ⟨organization, retryGeneration, .reading⟩
      (.asked generation token (some (auth.answerOf token outcome).2))).Sound := by
  have asks : auth.ledger.asking = some (generation, token) := by
    simp [Auth.ledger, held, RefreshStage.asks]
  cases outcome with
  | rotates orgId =>
      refine sound.move held (by simp) ?_ rfl
      have same : ((auth.answerOf token (.rotates orgId)).1.atStage
            ⟨organization, retryGeneration, .reading⟩
            (.asked generation token (some (auth.answerOf token (.rotates orgId)).2))).ledger =
          { auth.ledger with
            answered := token :: auth.answered
            renewal := some ⟨auth.nextSerial + 1, token.origin⟩
            nextSerial := auth.nextSerial + 2 } := by
        simp [Auth.ledger, atStage, answerOf, held, storedToken, RefreshStage.sends,
          RefreshStage.asks, RefreshStage.renewal, Answer.renewal]
      rw [same]
      exact sound.unspent.renew asks rfl
  | rejects | fails =>
      refine sound.move held (by simp) ?_ rfl
      convert sound.unspent using 1
      simp [Auth.ledger, atStage, answerOf, held, storedToken, RefreshStage.sends,
        RefreshStage.asks, RefreshStage.renewal, Answer.renewal]

theorem Sound.answerStray (sound : auth.Sound) {token : Credential} {outcome : Outcome}
    (stray : auth.strays[number]? = some token)
    (kept : auth.keepsRotations (.answerStray number outcome) = true) :
    ({ auth with strays := auth.strays.eraseIdx number }.answerOf token outcome).1.Sound := by
  have fewer : ∀ other ∈ auth.strays.eraseIdx number, other ∈ auth.ledger.strays :=
    fun other there => List.mem_of_mem_eraseIdx there
  refine ⟨?_, ?_⟩
  · cases outcome with
    | rotates orgId =>
        simp only [keepsRotations, stray, decide_eq_true_eq] at kept
        exact sound.unspent.renewStray fewer (List.mem_of_getElem? stray) kept
    | rejects | fails => exact sound.unspent.fewerStrays fewer
  · cases outcome <;> exact sound.ends

/-! ## The holder of the sign-in lock -/

/-- The holder lets go of the lock, with no token in its hands. -/
theorem Sound.release (sound : auth.Sound) {holder : Holder} (held : auth.holder = some holder)
    (empty : holder.rotates = none ∧ holder.brings = none) {refresh : Bool}
    (ends : refresh = true → holder.endsRefresh = true) : (auth.release refresh).Sound := by
  refine ⟨?_, by intros; contradiction⟩
  have same : (auth.release refresh).ledger = auth.ledger := by
    cases refresh with
    | false => simp [Auth.ledger, Auth.release, held, empty, storedToken]
    | true =>
        obtain ⟨flight, gate, stage⟩ :=
          Option.map_eq_some_iff.mp (sound.ends holder held (ends rfl))
        simp [Auth.ledger, Auth.release, held, empty, gate, stage, storedToken,
          RefreshStage.sends, RefreshStage.asks, RefreshStage.renewal]
  rw [same]
  exact sound.unspent

/-- The holder goes on, with the tokens it had. -/
theorem Sound.handOver (sound : auth.Sound) {holder next : Holder}
    (held : auth.holder = some holder) (goesOn : after.holder = some next)
    (tokens : next.rotates = holder.rotates ∧ next.brings = holder.brings)
    (ends : next.endsRefresh = holder.endsRefresh) (gate : after.gate = auth.gate)
    (ledger : after.ledger = { auth.ledger with
      rotating := after.ledger.rotating, arriving := after.ledger.arriving }) : after.Sound := by
  constructor
  · have rotating : after.ledger.rotating = auth.ledger.rotating := by
      simp [Auth.ledger, held, goesOn, tokens]
    have arriving : after.ledger.arriving = auth.ledger.arriving := by
      simp [Auth.ledger, held, goesOn, tokens]
    rw [ledger, rotating, arriving]
    exact sound.unspent
  · intro other same endsRefresh
    obtain rfl := Option.some.inj (goesOn.symm.trans same)
    rw [gate]
    exact sound.ends holder held (ends ▸ endsRefresh)

theorem kickAvatarBackfill_frame (auth : Auth) (user : AuthUser) (access : Credential) :
    (auth.kickAvatarBackfill user access).ledger = auth.ledger ∧
      (auth.kickAvatarBackfill user access).holder = auth.holder ∧
      (auth.kickAvatarBackfill user access).gate = auth.gate := by
  unfold kickAvatarBackfill
  split <;> exact ⟨rfl, rfl, rfl⟩

theorem Sound.kick (sound : auth.Sound) (user : AuthUser) (access : Credential) :
    (auth.kickAvatarBackfill user access).Sound := by
  obtain ⟨ledger, holder, gate⟩ := kickAvatarBackfill_frame auth user access
  exact sound.congr ledger holder gate

theorem Sound.announce (sound : auth.Sound) {tokens : Tokens} {user : AuthUser} {orgChanged : Bool}
    (holder : auth.holder = some (.announcing tokens user orgChanged)) (state : AuthState) :
    ((({ auth with state } : Auth).kickAvatarBackfill user tokens.accessToken).release true).Sound := by
  have announced : ({ auth with state } : Auth).Sound := sound.congr rfl rfl rfl
  have still := (kickAvatarBackfill_frame { auth with state } user tokens.accessToken).2.1
  exact (announced.kick user tokens.accessToken).release (still.trans holder) ⟨rfl, rfl⟩ fun _ => rfl

theorem Sound.rotate (sound : auth.Sound) {tokens : Tokens}
    (holder : auth.holder = some (.rotating tokens)) (held : auth.hold = some after) :
    after.Sound := by
  have rotating : auth.ledger.rotating = some tokens.refreshToken := by
    simp [Auth.ledger, holder, Holder.rotates]
  have ends := sound.ends _ holder rfl
  simp only [Auth.hold, holder] at held
  cases stored : auth.stored with
  | none =>
      simp only [stored] at held
      cases held
      obtain ⟨flight, gate, stage⟩ := Option.map_eq_some_iff.mp ends
      refine ⟨?_, by intros; contradiction⟩
      convert sound.unspent.giveUp (by simp [Auth.ledger, storedToken, stored]) using 1
      simp [Auth.ledger, Auth.release, holder, gate, stage, storedToken, Holder.brings,
        RefreshStage.sends, RefreshStage.asks, RefreshStage.renewal]
  | some session =>
      simp only [stored] at held
      cases held
      constructor
      · convert sound.unspent.rotate rotating (by simp [Auth.ledger, holder, Holder.brings]) using 1
        simp [Auth.ledger, holder, storedToken, Holder.brings, Holder.rotates]
      · exact fun _ _ _ => ends

theorem Sound.hold (sound : auth.Sound) (held : auth.hold = some after) : after.Sound := by
  have whole := held
  unfold Auth.hold at held
  split at held
  · cases held
  · rename_i session access holder
    cases held
    exact sound.handOver holder rfl ⟨rfl, rfl⟩ rfl rfl rfl
  · rename_i session access holder
    cases held
    constructor
    · have arriving : auth.ledger.arriving = some session.refreshToken := by
        simp [Auth.ledger, holder, Holder.brings]
      convert sound.unspent.store arriving using 1
      simp [Auth.ledger, holder, storedToken, Holder.brings, Holder.rotates]
    · rintro _ ⟨⟩ ends
      cases ends
  · rename_i session access holder
    cases held
    have released : (auth.release false).Sound := sound.release holder ⟨rfl, rfl⟩ (by intros; contradiction)
    have published : ({ auth.retryRefresh with
        state := stateFor session.user session.orgId, holder := none } : Auth).Sound :=
      released.congr rfl rfl rfl
    split
    · exact (published.kick session.user access).congr rfl rfl rfl
    · exact published.kick session.user access
  · rename_i refresh holder
    cases held
    exact sound.handOver holder rfl ⟨rfl, rfl⟩ rfl rfl rfl
  · rename_i refresh holder
    cases held
    exact sound.handOver holder rfl ⟨rfl, rfl⟩ rfl rfl rfl
  · rename_i refresh holder
    cases held
    have left : ({ auth with state := .signedOut } : Auth).Sound := sound.congr rfl rfl rfl
    exact left.release holder ⟨rfl, rfl⟩ id
  · rename_i tokens holder
    exact sound.rotate holder whole
  · rename_i tokens user orgChanged holder
    cases held
    exact sound.handOver holder rfl ⟨rfl, rfl⟩ rfl rfl rfl
  · rename_i tokens user orgChanged holder
    cases held
    split
    · exact sound.announce holder _
    · exact sound.announce holder auth.state

/-! ## The other flows -/

theorem Sound.finishSignIn (sound : auth.Sound) (free : auth.holder = none) (exchange : Exchange)
    (account : String) (avatarUrl avatarData orgId : Option String) :
    (auth.finishSignIn exchange account avatarUrl avatarData orgId).Sound := by
  unfold Auth.finishSignIn
  split
  · exact sound
  · constructor
    · have new : (⟨auth.nextSerial + 1, ⟨account, exchange.signIn⟩⟩ : Credential).serial =
          auth.ledger.nextSerial + 1 := rfl
      convert sound.unspent.arrive new using 1
      simp [Auth.ledger, free, storedToken, Holder.brings, Holder.rotates]
    · rintro _ ⟨⟩ ends
      cases ends

theorem Sound.clearSession (sound : auth.Sound) (free : auth.holder = none) :
    (auth.clearSession false).Sound := by
  constructor
  · convert sound.unspent.clear ((auth.generation + 1) % u64) using 1
    simp [Auth.ledger, Auth.clearSession, free, storedToken, Holder.brings, Holder.rotates]
  · rintro _ ⟨⟩ ends
    cases ends

theorem Sound.mergeNative (sound : auth.Sound) (access : Credential) :
    (auth.mergeNative access).Sound := by
  unfold Auth.mergeNative
  cases stored : auth.stored with
  | none => exact sound
  | some session =>
      refine sound.issue 1 ?_ rfl rfl
      simp [Auth.ledger, storedToken, stored]

theorem Sound.nativeAnswered (sound : auth.Sound) (token : Credential) (outcome : Outcome) :
    (auth.nativeAnswered token outcome).Sound := by
  unfold Auth.nativeAnswered
  cases stored : auth.stored with
  | none => exact sound
  | some session =>
      cases outcome with
      | rotates orgId =>
          simp only
          split
          · refine sound.issue 1 ?_ rfl rfl
            simp [Auth.ledger, storedToken, stored]
          · exact sound
      | rejects =>
          simp only
          split
          · refine sound.congr ?_ rfl rfl
            simp [Auth.ledger, storedToken, stored]
          · exact sound
      | fails => exact sound

theorem Sound.avatarFetched (sound : auth.Sound) (access : Credential)
    (picture data : Option String) : (auth.avatarFetched access picture data).Sound := by
  unfold Auth.avatarFetched
  cases stored : auth.stored with
  | none => exact sound.congr (by simp [Auth.ledger, storedToken, stored]) rfl rfl
  | some session =>
      cases data with
      | none => exact sound.congr (by simp [Auth.ledger, storedToken, stored]) rfl rfl
      | some data =>
          simp only
          split <;> exact sound.congr (by simp [Auth.ledger, storedToken, stored]) rfl rfl

theorem Sound.avatarStep (sound : auth.Sound) (stepped : auth.avatarStep = some after) :
    after.Sound := by
  unfold Auth.avatarStep at stepped
  split at stepped <;> cases stepped <;> exact sound.congr rfl rfl rfl

theorem Sound.enter (sound : auth.Sound) (free : auth.gate = none) (waiting : List String)
    (organization : Option String) :
    ({ auth with waiting, gate := some { organization } } : Auth).Sound := by
  constructor
  · convert sound.unspent using 1
    simp [Auth.ledger, free, storedToken, RefreshStage.sends, RefreshStage.asks,
      RefreshStage.renewal]
  · intro holder held ends
    have committing := sound.ends holder held ends
    simp [free] at committing

theorem Sound.step {action : AuthAction} (sound : auth.Sound)
    (kept : auth.keepsRotations action = true) (stepped : auth.step action = some after) :
    after.Sound := by
  cases action with
  | beginSignIn =>
      simp only [Auth.step] at stepped
      split at stepped <;> cases stepped
      exact sound.congr rfl rfl rfl
  | expirePending signIn | exchangeFails exchange | refresh | dropWaiting number | expireAccess
  | cooldownEnds | retryRefresh =>
      cases stepped
      exact sound.congr rfl rfl rfl
  | takePending signIn =>
      simp only [Auth.step] at stepped
      split at stepped <;> cases stepped
      exact sound.congr rfl rfl rfl
  | finishSignIn exchange account avatarUrl avatarData orgId =>
      simp only [Auth.step] at stepped
      split at stepped
      · cases stepped
      · split at stepped <;> cases stepped
        rename_i free
        have fewer : ({ auth with
            exchanges := auth.exchanges.eraseIdx exchange } : Auth).Sound := sound.congr rfl rfl rfl
        exact fewer.finishSignIn (by simpa using free) _ account avatarUrl avatarData orgId
  | signOut =>
      simp only [Auth.step] at stepped
      split at stepped <;> cases stepped
      rename_i free
      exact sound.clearSession (by simpa using free)
  | hold => exact sound.hold stepped
  | selectOrg organization =>
      simp only [Auth.step] at stepped
      split at stepped <;> cases stepped
      exact sound.congr rfl rfl rfl
  | takeGate organization =>
      cases organization with
      | none =>
          simp only [Auth.step] at stepped
          split at stepped <;> cases stepped
          rename_i free
          exact sound.enter (by simp_all) auth.waiting none
      | some number =>
          simp only [Auth.step] at stepped
          split at stepped
          · cases stepped
          · split at stepped <;> cases stepped
            rename_i free
            exact sound.enter (by simpa using free) _ _
  | goOn =>
      obtain ⟨refresh, held, went⟩ := Option.bind_eq_some_iff.mp stepped
      exact sound.goOn held went
  | unreachable =>
      simp only [Auth.step] at stepped
      split at stepped
      · rename_i organization retryGeneration generation token held
        cases stepped
        exact sound.quieten held (by simp) (fun _ stray => .inl stray) (by intros; contradiction) rfl rfl
      · cases stepped
  | answer outcome =>
      simp only [Auth.step] at stepped
      split at stepped
      · rename_i organization retryGeneration generation token held
        cases stepped
        exact sound.answer held outcome
      · cases stepped
  | dropCaller =>
      simp only [Auth.step] at stepped
      split at stepped
      · rename_i organization retryGeneration generation token answer held
        cases stepped
        apply sound.forsake held rfl _ rfl
        · unfold Auth.forsake
          split <;> rfl
        · rintro tokens rfl
          simpa [keepsRotations, held] using kept
      · cases stepped
  | timeOut =>
      simp only [Auth.step] at stepped
      split at stepped
      · rename_i organization retryGeneration generation token answer held
        cases stepped
        apply sound.forsake held rfl _ rfl
        · unfold Auth.forsake
          split <;> rfl
        · rintro tokens rfl
          simpa [keepsRotations, held] using kept
      · cases stepped
  | answerStray number outcome =>
      simp only [Auth.step] at stepped
      split at stepped
      · cases stepped
      · rename_i token stray
        cases stepped
        exact sound.answerStray stray kept
  | lazyMint number =>
      simp only [Auth.step] at stepped
      split at stepped
      · split at stepped <;> cases stepped
        exact sound.congr rfl rfl rfl
      · cases stepped
  | mintAnswered number minted =>
      simp only [Auth.step] at stepped
      split at stepped
      · cases stepped
      · cases stepped
        have fewer : ({ auth with mints := auth.mints.eraseIdx number } : Auth).Sound :=
          sound.congr rfl rfl rfl
        split
        · exact fewer.mergeNative _
        · exact fewer
  | refreshNative =>
      simp only [Auth.step] at stepped
      split at stepped <;> cases stepped
      exact sound.congr rfl rfl rfl
  | nativeAnswered number outcome =>
      simp only [Auth.step] at stepped
      split at stepped
      · cases stepped
      · cases stepped
        have fewer : ({ auth with rotations := auth.rotations.eraseIdx number } : Auth).Sound :=
          sound.congr rfl rfl rfl
        exact fewer.nativeAnswered _ outcome
  | avatarFetched picture data =>
      simp only [Auth.step] at stepped
      split at stepped <;> cases stepped
      exact sound.avatarFetched _ picture data
  | avatarStep => exact sound.avatarStep stepped

theorem sound_load (axeai : Bool) (file : Option StoredSession) : (load axeai file).Sound := by
  have stored : (load axeai file).ledger.stored = file.map StoredSession.refreshToken := rfl
  constructor
  · constructor
    · intros; contradiction
    · intros; contradiction
    · rfl
    · rintro _ _ _ (none | none) <;> cases none
    · rintro _ (none | none | none) <;> cases none
    · exact nofun
    · intros; contradiction
    · exact ⟨by intros; contradiction, by intros; contradiction, fun _ => rfl⟩
    · rintro token (same | none | none | none | none | none)
      · obtain ⟨session, rfl, rfl⟩ := Option.map_eq_some_iff.mp (stored.symm.trans same)
        exact Nat.lt_succ_self _
      all_goals cases none
  · intros; contradiction

/-- In a run that loses no rotation in use, no token is sent after the edge has
answered it with a new one. -/
theorem rotated_never_sent {axeai : Bool} {file : Option StoredSession}
    (runs : Reaches step (fun auth action => auth.keepsRotations action = true)
      (load axeai file) auth) : auth.replayed = [] := by
  have sound : auth.Sound := by
    apply runs.keeps (sound_load axeai file)
    intro before action next sound kept stepped
    exact sound.step kept stepped
  exact sound.unspent.clean

/-- The session the examples start from. -/
def someSession : StoredSession where
  refreshToken := ⟨0, ⟨"ann", 0⟩⟩
  user := { id := "ann", signIn := 0, avatarUrl := none, avatarData := none }
  orgId := some "first"
  axeaiNative := none

/-- Two refreshes, each with the token the one before it left. -/
theorem two_refreshes_never_sent : ∃ auth : Auth,
    (Reaches step (fun auth action => auth.keepsRotations action = true)
      (load false (some someSession)) auth ∧
      auth.sent = [⟨2, ⟨"ann", 0⟩⟩, ⟨0, ⟨"ann", 0⟩⟩]) ∧ auth.replayed = [] := by
  have ran : (runAll step keepsRotations (load false (some someSession))
      [.refresh, .takeGate none, .goOn, .goOn, .goOn, .goOn, .answer (.rotates (some "first")),
        .goOn, .goOn, .hold, .hold, .hold, .goOn, .expireAccess, .refresh, .takeGate none,
        .goOn, .goOn, .goOn, .goOn]).map sent =
      some [⟨2, ⟨"ann", 0⟩⟩, ⟨0, ⟨"ann", 0⟩⟩] := by
    decide
  obtain ⟨auth, ran, tokens⟩ := Option.map_eq_some_iff.mp ran
  have runs := reaches_of_runAll ran
  exact ⟨auth, ⟨runs, tokens⟩, rotated_never_sent runs⟩

/-- The caller of `select_org` is dropped while it waits: the edge renews its token, and
the next routine refresh sends it again. -/
theorem dropped_rotation_sent_again : ∃ auth : Auth,
    Reaches step (fun _ _ => True) (load false (some someSession)) auth ∧
      ¬ auth.replayed = [] := by
  have ran : (runAll step (fun _ _ => true) (load false (some someSession))
      [.selectOrg "second", .takeGate (some 0), .goOn, .goOn, .goOn, .goOn, .dropCaller,
        .answerStray 0 (.rotates (some "second")), .refresh, .takeGate none, .goOn, .goOn,
        .goOn, .goOn]).map replayed = some [⟨0, ⟨"ann", 0⟩⟩] := by
    decide
  obtain ⟨auth, ran, again⟩ := Option.map_eq_some_iff.mp ran
  refine ⟨auth, (reaches_of_runAll ran).mono fun _ _ _ => trivial, ?_⟩
  rw [again]
  simp

end Auth

end Zeron.Account
