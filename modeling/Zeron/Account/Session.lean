import Zeron.Data.Runs

namespace Zeron.Account

open Zeron.Data

/-! # The auth service of a device

The session, the cached access token, the published state and `session.json` are
written under different locks by flows that wait for the network in between.  A step
is what one flow does from one lock section or answer to the next.
-/

/-- An account in one sign-in of it: what the provider issues credentials for. -/
structure Origin where
  account : String
  signIn : Nat
deriving DecidableEq

/-- A token, with what its issuer knows of it.  No two tokens have one serial. -/
structure Credential where
  serial : Nat
  origin : Origin
deriving DecidableEq

structure AuthUser where
  id : String
  /-- The sign-in whose exchange reported the user. -/
  signIn : Nat
  avatarUrl : Option String
  avatarData : Option String
deriving DecidableEq

def AuthUser.origin (user : AuthUser) : Origin := ⟨user.id, user.signIn⟩

structure StoredSession where
  refreshToken : Credential
  user : AuthUser
  orgId : Option String
  axeaiNative : Option Credential
deriving DecidableEq

inductive AuthState
  | signedOut
  | needsOrganization (user : AuthUser)
  | signedIn (user : AuthUser) (orgId : Option String)
deriving DecidableEq

def AuthState.user : AuthState → Option AuthUser
  | .signedOut => none
  | .needsOrganization user => some user
  | .signedIn user _ => some user

def stateFor (user : AuthUser) : Option String → AuthState
  | some orgId => .signedIn user (some orgId)
  | none => .needsOrganization user

/-- What a refresh answers, with the scope its access token implies. -/
structure Tokens where
  accessToken : Credential
  refreshToken : Credential
  orgId : Option String
deriving DecidableEq

/-- `rejected`: a status of the 4xx range but 408 and 429; `failed`: any other failure. -/
inductive Answer
  | rotated (tokens : Tokens)
  | rejected
  | failed
deriving DecidableEq

/-- A code exchange under way: it took its pending state at this generation. -/
structure Exchange where
  signIn : Nat
  generation : Nat
  /-- How many sign-outs there had been. -/
  signOuts : Nat
deriving DecidableEq

/-- What the holder of the sign-in lock does next. -/
inductive Holder
  -- `finish_sign_in`
  | persisting (session : StoredSession) (access : Credential)
  | storing (session : StoredSession) (access : Credential)
  | publishing (session : StoredSession) (access : Credential)
  -- `clear_session`, for a sign-out or for a refresh that was rejected
  | clearing (refresh : Bool)
  | removing (refresh : Bool)
  | leaving (refresh : Bool)
  -- the end of `refresh_locked`
  | rotating (tokens : Tokens)
  | saving (tokens : Tokens) (user : AuthUser) (orgChanged : Bool)
  | announcing (tokens : Tokens) (user : AuthUser) (orgChanged : Bool)
deriving DecidableEq

inductive RefreshStage
  | checking
  | pausing
  | reading
  | sending (generation : Nat) (token : Credential)
  | asked (generation : Nat) (token : Credential) (answer : Option Answer)
  | received (generation : Nat) (token : Credential) (answer : Answer)
  | committing
  | settling (failed : Bool)
deriving DecidableEq

/-- The refresh that holds the gate. -/
structure Refresh where
  organization : Option String
  retryGeneration : Nat := 0
  stage : RefreshStage := .checking
deriving DecidableEq

/-- The one avatar backfill of the process. -/
inductive Backfill
  | unused
  | fetching (access : Credential)
  | saving (user : AuthUser) (orgId : Option String)
  | announcing (user : AuthUser) (orgId : Option String)
  | over
deriving DecidableEq

structure Auth where
  axeai : Bool
  stored : Option StoredSession
  access : Option Credential := none
  /-- The cached access token has more than the slack left. -/
  accessFresh : Bool := false
  state : AuthState
  file : Option StoredSession
  generation : Nat := 0
  pending : List Nat := []
  holder : Option Holder := none
  exchanges : List Exchange := []
  /-- The shared routine refresh runs; where it does not hold the gate it waits for it. -/
  refreshFlight : Bool := false
  /-- The organizations of the callers that wait for the gate. -/
  waiting : List String := []
  gate : Option Refresh := none
  retryGeneration : Nat := 0
  retryFailure : Bool := false
  /-- Every access token the service was given. -/
  accesses : List Credential := []
  /-- The access tokens, and the native tokens, that are being exchanged. -/
  mints : List Credential := []
  rotations : List Credential := []
  backfill : Backfill := .unused
  nextSerial : Nat
  nextSignIn : Nat := 1
  signOuts : Nat := 0
  /-- The first sign-in begun after the last sign-out. -/
  fence : Nat := 0
  /-- The refresh tokens sent to the edge, and those it answered with new ones. -/
  sent : List Credential := []
  answered : List Credential := []
  /-- Unanswered requests that nobody waits for any more. -/
  strays : List Credential := []
  /-- The tokens sent after the edge had answered them with new ones. -/
  replayed : List Credential := []

def u64 : Nat := 2 ^ 64

def AuthState.load : Option StoredSession → AuthState
  | some session => stateFor session.user session.orgId
  | none => .signedOut

/-- The service as it starts, with the session it reads from its file. -/
def Auth.load (axeai : Bool) (file : Option StoredSession) : Auth where
  axeai
  stored := file
  state := .load file
  file
  nextSerial := file.elim 0 fun session => session.refreshToken.serial + 1

/-- How the edge answers a refresh. -/
inductive Outcome
  | rotates (orgId : Option String)
  | rejects
  | fails

inductive AuthAction
  | beginSignIn
  | expirePending (signIn : Nat)
  | takePending (signIn : Nat)
  | exchangeFails (exchange : Nat)
  | finishSignIn (exchange : Nat) (account : String) (avatarUrl avatarData orgId : Option String)
  | signOut
  | hold
  | refresh
  | selectOrg (organization : String)
  | takeGate (organization : Option Nat)
  | dropWaiting (organization : Nat)
  | goOn
  | unreachable
  | answer (outcome : Outcome)
  | dropCaller
  | timeOut
  | answerStray (stray : Nat) (outcome : Outcome)
  | expireAccess
  | cooldownEnds
  | retryRefresh
  | lazyMint (access : Nat)
  | mintAnswered (mint : Nat) (minted : Bool)
  | refreshNative
  | nativeAnswered (rotation : Nat) (outcome : Outcome)
  | avatarFetched (picture : Option String) (data : Option String)
  | avatarStep

namespace Auth

def storedToken (auth : Auth) : Option Credential := auth.stored.map StoredSession.refreshToken

def retryRefresh (auth : Auth) : Auth :=
  { auth with retryGeneration := (auth.retryGeneration + 1) % u64, retryFailure := false }

def kickAvatarBackfill (auth : Auth) (user : AuthUser) (access : Credential) : Auth :=
  if auth.axeai && user.avatarData.isNone && auth.backfill = .unused then
    { auth with backfill := .fetching access }
  else auth

/-- `clear_session`, up to the cleared session. -/
def clearSession (auth : Auth) (refresh : Bool) : Auth :=
  { auth with
    generation := (auth.generation + 1) % u64
    signOuts := auth.signOuts + 1
    fence := auth.nextSignIn
    pending := []
    stored := none
    holder := some (.clearing refresh) }

def atStage (auth : Auth) (refresh : Refresh) (stage : RefreshStage) : Auth :=
  { auth with gate := some { refresh with stage } }

/-- The holder is done; a refresh goes on to its end. -/
def release (auth : Auth) (refresh : Bool) : Auth :=
  let gate := if refresh then
    auth.gate.map fun held => { held with stage := .settling false }
  else auth.gate
  { auth with holder := none, gate }

def finishSignIn (auth : Auth) (exchange : Exchange) (account : String)
    (avatarUrl avatarData orgId : Option String) : Auth :=
  if exchange.generation ≠ auth.generation then auth
  else
    let origin : Origin := ⟨account, exchange.signIn⟩
    let access : Credential := ⟨auth.nextSerial, origin⟩
    let session : StoredSession :=
      { refreshToken := ⟨auth.nextSerial + 1, origin⟩
        user := { id := account, signIn := exchange.signIn, avatarUrl, avatarData }
        orgId
        axeaiNative := none }
    { auth with
      access := some access
      accessFresh := true
      accesses := access :: auth.accesses
      nextSerial := auth.nextSerial + 2
      holder := some (.persisting session access) }

/-- The next section of the flow that holds the sign-in lock. -/
def hold (auth : Auth) : Option Auth :=
  match auth.holder with
  | none => none
  | some (.persisting session access) =>
      some { auth with file := some session, holder := some (.storing session access) }
  | some (.storing session access) =>
      some { auth with stored := some session, holder := some (.publishing session access) }
  | some (.publishing session access) =>
      let published :=
        { auth.retryRefresh with state := stateFor session.user session.orgId, holder := none }
      let kicked := published.kickAvatarBackfill session.user access
      some (if auth.axeai then { kicked with mints := access :: kicked.mints } else kicked)
  | some (.clearing refresh) =>
      some { auth.retryRefresh with access := none, holder := some (.removing refresh) }
  | some (.removing refresh) => some { auth with file := none, holder := some (.leaving refresh) }
  | some (.leaving refresh) => some ({ auth with state := .signedOut }.release refresh)
  | some (.rotating tokens) =>
      match auth.stored with
      | none => some (auth.release true)
      | some session =>
          let renewed :=
            { session with refreshToken := tokens.refreshToken, orgId := tokens.orgId }
          let orgChanged := decide (session.orgId ≠ tokens.orgId)
          some { auth with
            stored := some renewed
            holder := some (.saving tokens session.user orgChanged) }
  | some (.saving tokens user orgChanged) =>
      some { auth with
        file := auth.stored
        holder := some (.announcing tokens user orgChanged) }
  | some (.announcing tokens user orgChanged) =>
      let announced :=
        if orgChanged then { auth with state := stateFor user tokens.orgId } else auth
      some ((announced.kickAvatarBackfill user tokens.accessToken).release true)

def leaveGate (auth : Auth) (refresh : Refresh) : Auth :=
  { auth with
    gate := none
    refreshFlight := if refresh.organization.isNone then false else auth.refreshFlight }

/-- The end of `refresh_serialized`. -/
def settle (auth : Auth) (refresh : Refresh) (failed : Bool) : Auth :=
  let left := auth.leaveGate refresh
  if auth.retryGeneration = refresh.retryGeneration then
    if failed then
      { left with retryFailure := auth.retryFailure || refresh.organization.isNone }
    else { left with retryFailure := false }
  else left

/-- What `refresh_locked` does with an answer, up to the first write of the commit. -/
def commit (auth : Auth) (refresh : Refresh) (generation : Nat) (token : Credential) :
    Answer → Auth
  | .failed => auth.atStage refresh (.settling true)
  | .rejected =>
      if refresh.organization.isSome then auth.atStage refresh (.settling true)
      else if auth.generation ≠ generation ∨ auth.storedToken ≠ some token then
        auth.atStage refresh (.settling false)
      else (auth.atStage refresh .committing).clearSession true
  | .rotated tokens =>
      if auth.generation ≠ generation ∨ auth.storedToken ≠ some token then
        auth.atStage refresh (.settling false)
      else
        { auth.atStage refresh .committing with
          access := some tokens.accessToken
          accessFresh := true
          accesses := tokens.accessToken :: auth.accesses
          holder := some (.rotating tokens) }

def send (auth : Auth) (refresh : Refresh) (generation : Nat) (token : Credential) : Auth :=
  { auth.atStage refresh (.asked generation token none) with
    sent := token :: auth.sent
    replayed := if token ∈ auth.answered then token :: auth.replayed else auth.replayed }

/-- The next section of the refresh that holds the gate. -/
def goOn (auth : Auth) (refresh : Refresh) : Option Auth :=
  match refresh.stage with
  | .checking =>
      if refresh.organization.isNone && auth.access.isSome && auth.accessFresh then
        some (auth.leaveGate refresh)
      else some (auth.atStage refresh .pausing)
  | .pausing =>
      if refresh.organization.isNone && auth.retryFailure then some (auth.leaveGate refresh)
      else some (auth.atStage { refresh with retryGeneration := auth.retryGeneration } .reading)
  | .reading =>
      if auth.holder.isSome then none
      else
        match auth.stored with
        | none => some (auth.atStage refresh (.settling false))
        | some session =>
            some (auth.atStage refresh (.sending auth.generation session.refreshToken))
  | .sending generation token => some (auth.send refresh generation token)
  | .asked _ _ none => none
  | .asked generation token (some answer) =>
      some (auth.atStage refresh (.received generation token answer))
  | .received generation token answer =>
      if auth.holder.isSome then none else some (auth.commit refresh generation token answer)
  | .committing => none
  | .settling failed => some (auth.settle refresh failed)

/-- The edge answers a request: a token it accepts is spent. -/
def answerOf (auth : Auth) (token : Credential) : Outcome → Auth × Answer
  | .rejects => (auth, .rejected)
  | .fails => (auth, .failed)
  | .rotates orgId =>
      ({ auth with
          nextSerial := auth.nextSerial + 2
          answered := token :: auth.answered },
        .rotated
          { accessToken := ⟨auth.nextSerial, token.origin⟩
            refreshToken := ⟨auth.nextSerial + 1, token.origin⟩
            orgId })

/-- Nobody waits for the request of this stage any more. -/
def forsake (auth : Auth) (token : Credential) (answer : Option Answer) : Auth :=
  if answer.isNone then { auth with strays := token :: auth.strays } else auth

/-- `mint_axeai_native` merges what it was given into the session there is. -/
def mergeNative (auth : Auth) (access : Credential) : Auth :=
  match auth.stored with
  | none => auth
  | some session =>
      let native : Credential := ⟨auth.nextSerial, access.origin⟩
      let merged := some { session with axeaiNative := some native }
      { auth with stored := merged, file := merged, nextSerial := auth.nextSerial + 1 }

/-- The end of `refresh_axeai_native`. -/
def nativeAnswered (auth : Auth) (token : Credential) (outcome : Outcome) : Auth :=
  match auth.stored, outcome with
  | some session, .rotates _ =>
      if session.axeaiNative = some token then
        let native : Credential := ⟨auth.nextSerial, token.origin⟩
        let merged := some { session with axeaiNative := some native }
        { auth with stored := merged, file := merged, nextSerial := auth.nextSerial + 1 }
      else auth
  | some session, .rejects =>
      if session.axeaiNative = some token then
        let dropped := some { session with axeaiNative := none }
        { auth with stored := dropped, file := dropped }
      else auth
  | _, _ => auth

/-- The part of `backfill_avatar` that holds the lock of the session. -/
def avatarFetched (auth : Auth) (access : Credential) (picture data : Option String) : Auth :=
  match auth.stored, data with
  | some session, some data =>
      if session.user.id = access.origin.account ∧ session.user.avatarData = none then
        let user := { session.user with avatarUrl := picture, avatarData := some data }
        { auth with
          stored := some { session with user }
          backfill := .saving user session.orgId }
      else { auth with backfill := .over }
  | _, _ => { auth with backfill := .over }

def avatarStep (auth : Auth) : Option Auth :=
  match auth.backfill with
  | .saving user orgId => some { auth with file := auth.stored, backfill := .announcing user orgId }
  | .announcing user orgId => some { auth with state := stateFor user orgId, backfill := .over }
  | _ => none

def step (auth : Auth) : AuthAction → Option Auth
  | .beginSignIn =>
      if auth.holder.isSome then none
      else some { auth with
        pending := auth.nextSignIn :: auth.pending
        nextSignIn := auth.nextSignIn + 1 }
  | .expirePending signIn => some { auth with pending := auth.pending.erase signIn }
  | .takePending signIn =>
      if auth.holder.isNone ∧ signIn ∈ auth.pending then
        some { auth with
          pending := auth.pending.erase signIn
          exchanges := ⟨signIn, auth.generation, auth.signOuts⟩ :: auth.exchanges }
      else none
  | .exchangeFails exchange => some { auth with exchanges := auth.exchanges.eraseIdx exchange }
  | .finishSignIn exchange account avatarUrl avatarData orgId =>
      match auth.exchanges[exchange]? with
      | none => none
      | some held =>
          if auth.holder.isSome then none
          else
            let auth := { auth with exchanges := auth.exchanges.eraseIdx exchange }
            some (auth.finishSignIn held account avatarUrl avatarData orgId)
  | .signOut => if auth.holder.isSome then none else some (auth.clearSession false)
  | .hold => auth.hold
  | .refresh => some { auth with refreshFlight := true }
  | .selectOrg organization =>
      if auth.axeai then none
      else some { auth with waiting := organization :: auth.waiting }
  | .takeGate none =>
      if auth.gate.isNone && auth.refreshFlight then
        some { auth with gate := some { organization := none } }
      else none
  | .takeGate (some number) =>
      match auth.waiting[number]? with
      | none => none
      | some organization =>
          if auth.gate.isSome then none
          else some { auth with
            waiting := auth.waiting.eraseIdx number
            gate := some { organization := some organization } }
  | .dropWaiting number => some { auth with waiting := auth.waiting.eraseIdx number }
  | .goOn => auth.gate.bind auth.goOn
  | .unreachable =>
      match auth.gate with
      | some ⟨organization, retryGeneration, .sending _ _⟩ =>
          some (auth.atStage ⟨organization, retryGeneration, .reading⟩ (.settling true))
      | _ => none
  | .answer outcome =>
      match auth.gate with
      | some ⟨organization, retryGeneration, .asked generation token none⟩ =>
          let answered := auth.answerOf token outcome
          some (answered.1.atStage ⟨organization, retryGeneration, .reading⟩
            (.asked generation token (some answered.2)))
      | _ => none
  | .dropCaller =>
      match auth.gate with
      | some ⟨some _, _, .asked _ token answer⟩ =>
          some { auth.forsake token answer with gate := none }
      | _ => none
  | .timeOut =>
      match auth.gate with
      | some ⟨organization, retryGeneration, .asked _ token answer⟩ =>
          some ((auth.forsake token answer).atStage ⟨organization, retryGeneration, .reading⟩
            (.settling true))
      | _ => none
  | .answerStray number outcome =>
      match auth.strays[number]? with
      | none => none
      | some token =>
          some ({ auth with strays := auth.strays.eraseIdx number }.answerOf token outcome).1
  | .expireAccess => some { auth with accessFresh := false }
  | .cooldownEnds => some { auth with retryFailure := false }
  | .retryRefresh => some auth.retryRefresh
  | .lazyMint number =>
      match auth.accesses[number]? with
      | some access => if auth.axeai then some { auth with mints := access :: auth.mints } else none
      | none => none
  | .mintAnswered number minted =>
      match auth.mints[number]? with
      | none => none
      | some access =>
          let auth := { auth with mints := auth.mints.eraseIdx number }
          some (if minted then auth.mergeNative access else auth)
  | .refreshNative =>
      match auth.stored.bind StoredSession.axeaiNative with
      | some token => some { auth with rotations := token :: auth.rotations }
      | none => none
  | .nativeAnswered number outcome =>
      match auth.rotations[number]? with
      | none => none
      | some token =>
          let auth := { auth with rotations := auth.rotations.eraseIdx number }
          some (auth.nativeAnswered token outcome)
  | .avatarFetched picture data =>
      match auth.backfill with
      | .fetching access => some (auth.avatarFetched access picture data)
      | _ => none
  | .avatarStep => auth.avatarStep

end Auth

end Zeron.Account
