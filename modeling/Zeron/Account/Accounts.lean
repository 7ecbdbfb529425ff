import Zeron.Account.Session

namespace Zeron.Account

open Zeron.Data

/-! # Accounts do not mix

What the service holds belongs to one sign-in.  A native session that was asked for in
an earlier sign-in, and a profile photo that is announced after its session is gone, are
where it can fail.
-/

/-- The credentials of a session are those of the sign-in that reported its user. -/
def StoredSession.Own (session : StoredSession) : Prop :=
  session.user.origin = session.refreshToken.origin ∧
    ∀ native, session.axeaiNative = some native → native.origin = session.refreshToken.origin

/-- The backfill has written the session, and not yet the file. -/
def Backfill.unsaved : Backfill → Bool
  | .saving _ _ => true
  | _ => false

def Backfill.between : Backfill → Bool
  | .saving _ _ | .announcing _ _ => true
  | _ => false

namespace Holder

/-- A sign-in or a sign-out publishes the state before it lets go of the lock. -/
def publishes : Holder → Bool
  | .rotating _ | .saving _ _ _ | .announcing _ _ _ => false
  | _ => true

/-- A sign-in has written its session to the file, and not yet to the service. -/
def stores : Holder → Bool
  | .storing _ _ => true
  | _ => false

end Holder

namespace Auth

/-- Everything the service holds is of one sign-in, begun after the last sign-out. -/
structure Settled (auth : Auth) : Prop where
  own : ∀ session, auth.stored = some session → session.Own
  access : ∀ access, auth.access = some access →
    ∃ session, auth.stored = some session ∧ access.origin = session.refreshToken.origin
  signedOut : auth.state = .signedOut ↔ auth.stored = none
  user : ∀ session, auth.stored = some session →
    auth.state.user.map AuthUser.id = some session.user.id
  file : auth.file = auth.stored
  final : ∀ session, auth.stored = some session → auth.fence ≤ session.refreshToken.origin.signIn

/-- No operation is between two of its lock sections. -/
def Quiet (auth : Auth) : Prop := auth.holder = none ∧ auth.backfill.between = false

def storing (auth : Auth) : Bool := auth.holder.any Holder.stores

/-- A mint is merged into the sign-in that asked for it, a photo is announced where its user
is signed in, nothing writes the file while a sign-in has yet to store its session, and no
exchange outlasts so many sign-outs that its generation comes again. -/
def keepsApart (auth : Auth) : AuthAction → Bool
  | .finishSignIn exchange _ _ _ _ =>
      auth.exchanges[exchange]?.all fun held =>
        held.generation ≠ auth.generation || held.signOuts = auth.signOuts
  | .mintAnswered number true =>
      auth.mints[number]?.all fun access => auth.stored.all fun session =>
        decide (access.origin = session.refreshToken.origin) && !auth.storing
  | .nativeAnswered _ .fails => true
  | .nativeAnswered number _ =>
      auth.rotations[number]?.all fun token => auth.stored.all fun session =>
        decide (session.axeaiNative ≠ some token) || !auth.storing
  | .avatarStep =>
      match auth.backfill with
      | .saving _ _ => !auth.storing
      | .announcing user _ =>
          auth.holder.any Holder.publishes ||
            decide (auth.stored.map (fun session => session.user.id) = some user.id)
      | _ => true
  | _ => true

/-! ## What holds under the sign-in lock -/

def AccessOwn (auth : Auth) : Prop := ∀ access, auth.access = some access →
  ∃ session, auth.stored = some session ∧ access.origin = session.refreshToken.origin

def Published (auth : Auth) : Prop :=
  (auth.state = .signedOut ↔ auth.stored = none) ∧
    ∀ session, auth.stored = some session → auth.state.user.map AuthUser.id = some session.user.id

def Saved (auth : Auth) : Prop := auth.backfill.unsaved = false → auth.file = auth.stored

/-- A session on its way into the service, with its access token in place. -/
def Arriving (auth : Auth) (session : StoredSession) (access : Credential) : Prop :=
  session.Own ∧ access.origin = session.refreshToken.origin ∧ auth.access = some access ∧
    auth.fence ≤ session.refreshToken.origin.signIn

/-- The stored session is the one a flow has in hand, but for what others merged into it. -/
def Holds (auth : Auth) (origin : Origin) (id : String) : Prop :=
  ∃ session, auth.stored = some session ∧ session.refreshToken.origin = origin ∧
    session.user.id = id

def Under (auth : Auth) : Option Holder → Prop
  | none => auth.AccessOwn ∧ auth.Published ∧ auth.Saved
  | some (.persisting session access) => auth.Arriving session access
  | some (.storing session access) => auth.Arriving session access ∧ auth.file = some session
  | some (.publishing session access) =>
      auth.Arriving session access ∧ auth.Saved ∧
        auth.Holds session.refreshToken.origin session.user.id
  | some (.clearing _) => auth.stored = none
  | some (.removing _) => auth.stored = none ∧ auth.access = none
  | some (.leaving _) => auth.stored = none ∧ auth.access = none ∧ auth.file = none
  | some (.rotating tokens) =>
      auth.AccessOwn ∧ auth.Published ∧ ∃ id, auth.Holds tokens.refreshToken.origin id
  | some (.saving tokens user _) =>
      auth.AccessOwn ∧ auth.Published ∧ auth.Holds tokens.refreshToken.origin user.id
  | some (.announcing tokens user _) =>
      auth.AccessOwn ∧ auth.Published ∧ auth.Saved ∧ auth.Holds tokens.refreshToken.origin user.id

/-- The edge answers a token with tokens of the same sign-in. -/
def Answers (gate : Option Refresh) : Prop :=
  ∀ refresh, gate = some refresh → ∀ generation token tokens,
    refresh.stage = .asked generation token (some (.rotated tokens)) ∨
      refresh.stage = .received generation token (.rotated tokens) →
    tokens.accessToken.origin = token.origin ∧ tokens.refreshToken.origin = token.origin

structure Kept (auth : Auth) : Prop where
  own : ∀ session, auth.stored = some session → session.Own
  final : ∀ session, auth.stored = some session → auth.fence ≤ session.refreshToken.origin.signIn
  under : auth.Under auth.holder
  begun : auth.fence ≤ auth.nextSignIn ∧ ∀ signIn ∈ auth.pending, auth.fence ≤ signIn
  exchanges : ∀ held ∈ auth.exchanges, held.signOuts ≤ auth.signOuts ∧
    (held.signOuts = auth.signOuts → auth.fence ≤ held.signIn)
  answers : Answers auth.gate

variable {auth after : Auth} {session : StoredSession} {access : Credential}

theorem Kept.settled (kept : auth.Kept) (quiet : auth.Quiet) : auth.Settled := by
  obtain ⟨free, rests⟩ := quiet
  have under := kept.under
  rw [free] at under
  obtain ⟨own, published, saved⟩ := under
  have unsaved : auth.backfill.unsaved = false := by
    cases backfill : auth.backfill <;> simp_all [Backfill.between, Backfill.unsaved]
  exact ⟨kept.own, own, published.1, published.2, saved unsaved, kept.final⟩

/-- What the facts under the lock are about. -/
structure SameFacts (auth after : Auth) : Prop where
  stored : after.stored = auth.stored
  access : after.access = auth.access
  state : after.state = auth.state
  file : after.file = auth.file
  fence : after.fence = auth.fence
  backfill : after.backfill.unsaved = auth.backfill.unsaved

theorem Under.congr {holder : Option Holder} (under : auth.Under holder)
    (same : SameFacts auth after) : after.Under holder := by
  obtain ⟨stored, access, state, file, fence, backfill⟩ := same
  rcases holder with _ | holder
  · simpa [Under, AccessOwn, Published, Saved, stored, access, state, file, backfill] using under
  · cases holder <;>
      simpa [Under, AccessOwn, Published, Saved, Arriving, Holds, stored, access, state, file,
        fence, backfill] using under

/-- The sign-ins under way. -/
structure SameFlows (auth after : Auth) : Prop where
  nextSignIn : after.nextSignIn = auth.nextSignIn
  pending : after.pending = auth.pending
  exchanges : after.exchanges = auth.exchanges
  signOuts : after.signOuts = auth.signOuts

theorem Kept.congr (kept : auth.Kept) (same : SameFacts auth after)
    (holder : after.holder = auth.holder) (flows : SameFlows auth after)
    (answers : Answers after.gate) : after.Kept := by
  obtain ⟨nextSignIn, pending, exchanges, signOuts⟩ := flows
  constructor
  · rw [same.stored]
    exact kept.own
  · rw [same.stored, same.fence]
    exact kept.final
  · rw [holder]
    exact Under.congr kept.under same
  · rw [same.fence, nextSignIn, pending]
    exact kept.begun
  · rw [exchanges, signOuts, same.fence]
    exact kept.exchanges
  · exact answers

/-- Something is merged into the stored session, other than its refresh token. -/
structure Touches (auth after : Auth) (session next : StoredSession) : Prop where
  stored : auth.stored = some session
  renewed : after.stored = some next
  token : next.refreshToken = session.refreshToken
  user : next.user.origin = session.user.origin
  own : session.Own → next.Own
  access : after.access = auth.access
  state : after.state = auth.state
  fence : after.fence = auth.fence
  file : after.file = some next ∧ auth.storing = false ∨
    after.file = auth.file ∧ after.backfill.unsaved = true

namespace Touches

variable {next : StoredSession}

theorem accessOwn (touches : Touches auth after session next) (own : auth.AccessOwn) :
    after.AccessOwn := by
  intro access held
  rw [touches.access] at held
  obtain ⟨other, stored, origin⟩ := own access held
  cases touches.stored.symm.trans stored
  exact ⟨next, touches.renewed, by rw [touches.token, origin]⟩

theorem id (touches : Touches auth after session next) : next.user.id = session.user.id :=
  congrArg Origin.account touches.user

theorem published (touches : Touches auth after session next) (published : auth.Published) :
    after.Published := by
  obtain ⟨signedOut, user⟩ := published
  constructor
  · rw [touches.state, signedOut, touches.stored, touches.renewed]
    simp
  · intro other held
    cases touches.renewed.symm.trans held
    rw [touches.state, touches.id]
    exact user session touches.stored

theorem saved (touches : Touches auth after session next) : after.Saved := by
  intro saved
  rcases touches.file with ⟨file, _⟩ | ⟨_, unsaved⟩
  · rw [file, touches.renewed]
  · rw [saved] at unsaved
    cases unsaved

theorem arriving (touches : Touches auth after session next) {arrives : StoredSession}
    (arriving : auth.Arriving arrives access) : after.Arriving arrives access := by
  unfold Arriving
  rw [touches.access, touches.fence]
  exact arriving

theorem holds (touches : Touches auth after session next) {origin : Origin} {id : String}
    (holds : auth.Holds origin id) : after.Holds origin id := by
  obtain ⟨other, stored, same, user⟩ := holds
  cases touches.stored.symm.trans stored
  exact ⟨next, touches.renewed, by rw [touches.token, same], touches.id.trans user⟩

theorem not_empty (touches : Touches auth after session next) : auth.stored ≠ none := by
  simp [touches.stored]

theorem under (touches : Touches auth after session next) (under : auth.Under auth.holder) :
    after.Under auth.holder := by
  cases holder : auth.holder with
  | none =>
      rw [holder] at under
      exact ⟨touches.accessOwn under.1, touches.published under.2.1, touches.saved⟩
  | some here =>
      rw [holder] at under
      cases here with
      | persisting arrives access => exact touches.arriving under
      | storing arrives access =>
          rcases touches.file with ⟨_, free⟩ | ⟨file, _⟩
          · simp [storing, holder, Holder.stores] at free
          · exact ⟨touches.arriving under.1, file.trans under.2⟩
      | publishing arrives access =>
          exact ⟨touches.arriving under.1, touches.saved, touches.holds under.2.2⟩
      | clearing refresh => exact absurd under touches.not_empty
      | removing refresh | leaving refresh => exact absurd under.1 touches.not_empty
      | rotating tokens =>
          obtain ⟨own, published, id, holds⟩ := under
          exact ⟨touches.accessOwn own, touches.published published, id, touches.holds holds⟩
      | saving tokens user orgChanged =>
          exact ⟨touches.accessOwn under.1, touches.published under.2.1, touches.holds under.2.2⟩
      | announcing tokens user orgChanged =>
          exact ⟨touches.accessOwn under.1, touches.published under.2.1, touches.saved,
            touches.holds under.2.2.2⟩

end Touches

theorem Kept.touch {next : StoredSession} (kept : auth.Kept)
    (touches : Touches auth after session next) (holder : after.holder = auth.holder)
    (flows : SameFlows auth after) (gate : after.gate = auth.gate) : after.Kept := by
  obtain ⟨nextSignIn, pending, exchanges, signOuts⟩ := flows
  constructor
  · intro other held
    cases touches.renewed.symm.trans held
    exact touches.own (kept.own session touches.stored)
  · intro other held
    cases touches.renewed.symm.trans held
    rw [touches.fence, touches.token]
    exact kept.final session touches.stored
  · rw [holder]
    exact touches.under kept.under
  · rw [touches.fence, nextSignIn, pending]
    exact kept.begun
  · rw [exchanges, signOuts, touches.fence]
    exact kept.exchanges
  · rw [gate]
    exact kept.answers

/-! ## The refresh that holds the gate -/

theorem answers_of_silent {refresh : Refresh} (silent : ∀ generation token answer,
    refresh.stage ≠ .asked generation token (some answer) ∧
      refresh.stage ≠ .received generation token answer) : Answers (some refresh) := by
  rintro _ ⟨⟩ generation token tokens (asked | received)
  · exact absurd asked (silent generation token _).1
  · exact absurd received (silent generation token _).2

theorem answers_release (refresh : Bool) (answers : Answers auth.gate) :
    Answers (auth.release refresh).gate := by
  cases refresh with
  | false => exact answers
  | true =>
      cases gate : auth.gate with
      | none => simp [release, gate, Answers]
      | some flight =>
          simp only [release, gate, if_true, Option.map_some]
          exact answers_of_silent (by simp)

theorem Kept.clearSession (kept : auth.Kept) (refresh : Bool) (answers : Answers auth.gate) :
    (auth.clearSession refresh).Kept := by
  constructor
  · intros; contradiction
  · intros; contradiction
  · exact rfl
  · exact ⟨Nat.le_refl _, by intros; contradiction⟩
  · intro held there
    have earlier := (kept.exchanges held there).1
    refine ⟨Nat.le_succ_of_le earlier, fun same => ?_⟩
    have later : held.signOuts = auth.signOuts + 1 := same
    omega
  · exact answers

theorem Kept.commit (kept : auth.Kept) {refresh : Refresh} {generation : Nat} {token : Credential}
    {answer : Answer} (held : auth.gate = some refresh)
    (received : refresh.stage = .received generation token answer) (free : auth.holder = none) :
    (auth.commit refresh generation token answer).Kept := by
  have settled {failed : Bool} : (auth.atStage refresh (.settling failed)).Kept :=
    kept.congr ⟨rfl, rfl, rfl, rfl, rfl, rfl⟩ rfl ⟨rfl, rfl, rfl, rfl⟩ (answers_of_silent (by simp))
  have committing : Answers (some { refresh with stage := .committing }) :=
    answers_of_silent (by simp)
  cases answer with
  | failed => exact settled
  | rejected =>
      simp only [Auth.commit]
      split
      · exact settled
      · split
        · exact settled
        · have moved : (auth.atStage refresh .committing).Kept :=
            kept.congr ⟨rfl, rfl, rfl, rfl, rfl, rfl⟩ rfl ⟨rfl, rfl, rfl, rfl⟩ committing
          exact moved.clearSession true committing
  | rotated tokens =>
      simp only [Auth.commit]
      split
      · exact settled
      · rename_i current
        have stored : auth.storedToken = some token := by
          by_contra other
          exact current (.inr other)
        obtain ⟨session, stored, same⟩ := Option.map_eq_some_iff.mp stored
        obtain ⟨ofAccess, ofRefresh⟩ :=
          kept.answers refresh held generation token tokens (.inr received)
        have under := kept.under
        rw [free] at under
        refine ⟨kept.own, kept.final, ⟨?_, under.2.1, session.user.id, session, stored, ?_, rfl⟩,
          kept.begun, kept.exchanges, committing⟩
        · rintro access ⟨⟩
          exact ⟨session, stored, by rw [ofAccess, same]⟩
        · rw [ofRefresh, same]

theorem Kept.goOn (kept : auth.Kept) {refresh : Refresh} (held : auth.gate = some refresh)
    (went : auth.goOn refresh = some after) : after.Kept := by
  unfold Auth.goOn at went
  cases stage : refresh.stage <;> simp only [stage, reduceCtorEq, Option.some.injEq] at went
  case checking | pausing =>
    split at went <;> cases went
    · exact kept.congr ⟨rfl, rfl, rfl, rfl, rfl, rfl⟩ rfl ⟨rfl, rfl, rfl, rfl⟩ (by rintro _ ⟨⟩)
    · exact kept.congr ⟨rfl, rfl, rfl, rfl, rfl, rfl⟩ rfl ⟨rfl, rfl, rfl, rfl⟩
        (answers_of_silent (by simp))
  case reading =>
    split at went
    · cases went
    · split at went <;> cases went <;>
        exact kept.congr ⟨rfl, rfl, rfl, rfl, rfl, rfl⟩ rfl ⟨rfl, rfl, rfl, rfl⟩
          (answers_of_silent (by simp))
  case sending generation token =>
    subst went
    exact kept.congr ⟨rfl, rfl, rfl, rfl, rfl, rfl⟩ rfl ⟨rfl, rfl, rfl, rfl⟩
      (answers_of_silent (by simp))
  case asked generation token answer =>
    cases answer with
    | none => cases went
    | some answer =>
        cases went
        refine kept.congr ⟨rfl, rfl, rfl, rfl, rfl, rfl⟩ rfl ⟨rfl, rfl, rfl, rfl⟩ ?_
        rintro _ ⟨⟩ generation' token' tokens (asked | received)
        · cases asked
        · cases received
          exact kept.answers refresh held generation token tokens (.inl stage)
  case received generation token answer =>
    split at went
    · cases went
    · rename_i free
      cases went
      exact kept.commit held stage (by simpa using free)
  case settling failed =>
    subst went
    unfold settle
    split
    · split <;> exact kept.congr ⟨rfl, rfl, rfl, rfl, rfl, rfl⟩ rfl ⟨rfl, rfl, rfl, rfl⟩ (by rintro _ ⟨⟩)
    · exact kept.congr ⟨rfl, rfl, rfl, rfl, rfl, rfl⟩ rfl ⟨rfl, rfl, rfl, rfl⟩ (by rintro _ ⟨⟩)

/-! ## The holder of the sign-in lock -/

theorem Kept.finishSignIn (kept : auth.Kept) {exchange : Exchange}
    (began : exchange.generation = auth.generation → auth.fence ≤ exchange.signIn)
    (account : String) (avatarUrl avatarData orgId : Option String) :
    (auth.finishSignIn exchange account avatarUrl avatarData orgId).Kept := by
  unfold Auth.finishSignIn
  split
  · exact kept
  · rename_i current
    refine ⟨kept.own, kept.final, ?_, kept.begun, kept.exchanges, kept.answers⟩
    exact ⟨⟨rfl, by intros; contradiction⟩, rfl, rfl, began (by simpa using current)⟩

theorem user_stateFor (user : AuthUser) (orgId : Option String) :
    (stateFor user orgId).user = some user ∧ stateFor user orgId ≠ .signedOut := by
  cases orgId <;> simp [stateFor, AuthState.user]

/-- The state of a held session is published. -/
theorem Holds.published {origin : Origin} {user : AuthUser} (holds : auth.Holds origin user.id)
    (orgId : Option String) (state : auth.state = stateFor user orgId) : auth.Published := by
  obtain ⟨session, stored, _, id⟩ := holds
  obtain ⟨names, signedIn⟩ := user_stateFor user orgId
  constructor
  · rw [state, stored]
    simp [signedIn]
  · intro other held
    cases stored.symm.trans held
    rw [state, names, id]
    rfl

theorem kick_unsaved (auth : Auth) (user : AuthUser) (access : Credential) :
    (auth.kickAvatarBackfill user access).backfill.unsaved = auth.backfill.unsaved := by
  unfold kickAvatarBackfill
  split
  · rename_i kicks
    simp only [Bool.and_eq_true, decide_eq_true_eq] at kicks
    rw [kicks.2]
    rfl
  · rfl

theorem Kept.kick (kept : auth.Kept) (user : AuthUser) (access : Credential) :
    (auth.kickAvatarBackfill user access).Kept := by
  have unsaved := kick_unsaved auth user access
  unfold kickAvatarBackfill at unsaved ⊢
  split
  · rename_i kicks
    rw [if_pos kicks] at unsaved
    exact kept.congr ⟨rfl, rfl, rfl, rfl, rfl, unsaved⟩ rfl ⟨rfl, rfl, rfl, rfl⟩ kept.answers
  · exact kept

theorem release_kick (auth : Auth) (user : AuthUser) (access : Credential) (refresh : Bool) :
    (auth.kickAvatarBackfill user access).release refresh =
      (auth.release refresh).kickAvatarBackfill user access := by
  unfold kickAvatarBackfill
  split <;> simp_all [release]

theorem Kept.publish (kept : auth.Kept) {session : StoredSession} {access : Credential}
    (under : auth.Under (some (.publishing session access))) :
    ({ auth.retryRefresh with
      state := stateFor session.user session.orgId, holder := none } : Auth).Kept := by
  obtain ⟨⟨own, origin, cached, fence⟩, saved, holds⟩ := under
  refine ⟨kept.own, kept.final, ⟨?_, ?_, saved⟩, kept.begun, kept.exchanges, kept.answers⟩
  · intro other held
    cases cached.symm.trans held
    obtain ⟨stays, stored, same, _⟩ := holds
    exact ⟨stays, stored, origin.trans same.symm⟩
  · exact Holds.published holds session.orgId rfl

theorem Kept.rotate (kept : auth.Kept) {tokens : Tokens}
    (under : auth.Under (some (.rotating tokens))) (stored : auth.stored = some session)
    (orgChanged : Bool) :
    ({ auth with
      stored := some { session with refreshToken := tokens.refreshToken, orgId := tokens.orgId }
      holder := some (.saving tokens session.user orgChanged) } : Auth).Kept := by
  obtain ⟨own, ⟨signedOut, names⟩, id, other, held, origin, _⟩ := under
  cases stored.symm.trans held
  obtain ⟨user, native⟩ := kept.own session stored
  refine ⟨?_, ?_, ⟨?_, ⟨?_, ?_⟩, ?_⟩, kept.begun, kept.exchanges, kept.answers⟩
  · rintro _ ⟨⟩
    exact ⟨user.trans origin, fun token here => (native token here).trans origin⟩
  · rintro _ ⟨⟩
    have final := kept.final session stored
    rw [origin] at final
    exact final
  · intro access here
    obtain ⟨holder, there, same⟩ := own access here
    cases stored.symm.trans there
    exact ⟨_, rfl, same.trans origin⟩
  · simpa [stored] using signedOut
  · rintro _ ⟨⟩
    exact names session stored
  · exact ⟨_, rfl, rfl, rfl⟩

theorem Kept.announce (kept : auth.Kept) {tokens : Tokens} {user : AuthUser} {orgChanged : Bool}
    (under : auth.Under (some (.announcing tokens user orgChanged))) (state : AuthState)
    (announced : state = auth.state ∨ state = stateFor user tokens.orgId) :
    ((({ auth with state } : Auth).kickAvatarBackfill user tokens.accessToken).release true).Kept := by
  obtain ⟨own, published, saved, holds⟩ := under
  have names : ({ auth with state } : Auth).Published := by
    rcases announced with rfl | rfl
    · exact published
    · exact Holds.published holds tokens.orgId rfl
  have released : (({ auth with state } : Auth).release true).Kept :=
    ⟨kept.own, kept.final, ⟨own, names, saved⟩, kept.begun, kept.exchanges,
      answers_release true kept.answers⟩
  rw [release_kick]
  exact released.kick user tokens.accessToken

theorem Kept.hold (kept : auth.Kept) (held : auth.hold = some after) : after.Kept := by
  have under := kept.under
  unfold Auth.hold at held
  split at held
  · cases held
  · rename_i session access holder
    cases held
    rw [holder] at under
    exact ⟨kept.own, kept.final, ⟨under, rfl⟩, kept.begun, kept.exchanges, kept.answers⟩
  · rename_i session access holder
    cases held
    rw [holder] at under
    obtain ⟨arriving, file⟩ := under
    refine ⟨?_, ?_, ⟨arriving, fun _ => file, session, rfl, rfl, rfl⟩, kept.begun, kept.exchanges,
      kept.answers⟩
    · rintro _ ⟨⟩
      exact arriving.1
    · rintro _ ⟨⟩
      exact arriving.2.2.2
  · rename_i session access holder
    cases held
    rw [holder] at under
    have kicked := (kept.publish under).kick session.user access
    split
    · exact kicked.congr ⟨rfl, rfl, rfl, rfl, rfl, rfl⟩ rfl ⟨rfl, rfl, rfl, rfl⟩ kicked.answers
    · exact kicked
  · rename_i refresh holder
    cases held
    rw [holder] at under
    exact ⟨kept.own, kept.final, ⟨under, rfl⟩, kept.begun, kept.exchanges, kept.answers⟩
  · rename_i refresh holder
    cases held
    rw [holder] at under
    exact ⟨kept.own, kept.final, ⟨under.1, under.2, rfl⟩, kept.begun, kept.exchanges, kept.answers⟩
  · rename_i refresh holder
    cases held
    rw [holder] at under
    obtain ⟨stored, access, file⟩ := under
    refine ⟨kept.own, kept.final, ⟨?_, ⟨?_, ?_⟩, fun _ => file.trans stored.symm⟩, kept.begun,
      kept.exchanges, answers_release refresh kept.answers⟩
    · intro other cached
      cases access.symm.trans cached
    · exact iff_of_true rfl stored
    · intro other here
      cases stored.symm.trans here
  · rename_i tokens holder
    rw [holder] at under
    split at held
    · rename_i stored
      obtain ⟨_, _, _, session, there, _⟩ := under
      cases stored.symm.trans there
    · rename_i session stored
      cases held
      exact kept.rotate under stored _
  · rename_i tokens user orgChanged holder
    cases held
    rw [holder] at under
    obtain ⟨own, published, holds⟩ := under
    exact ⟨kept.own, kept.final, ⟨own, published, fun _ => rfl, holds⟩, kept.begun, kept.exchanges,
      kept.answers⟩
  · rename_i tokens user orgChanged holder
    cases held
    rw [holder] at under
    split
    · exact kept.announce under _ (.inr rfl)
    · exact kept.announce under auth.state (.inl rfl)

/-! ## Mints, rotations and the backfill -/

theorem Kept.mergeNative (kept : auth.Kept) {access : Credential}
    (merges : ∀ session, auth.stored = some session →
      access.origin = session.refreshToken.origin ∧ auth.storing = false) :
    (auth.mergeNative access).Kept := by
  unfold Auth.mergeNative
  split
  · exact kept
  · rename_i session stored
    obtain ⟨same, free⟩ := merges session stored
    refine kept.touch ⟨stored, rfl, rfl, rfl, ?_, rfl, rfl, rfl, .inl ⟨rfl, free⟩⟩ rfl
      ⟨rfl, rfl, rfl, rfl⟩ rfl
    rintro ⟨user, _⟩
    refine ⟨user, ?_⟩
    rintro _ ⟨⟩
    exact same

theorem Kept.nativeAnswered (kept : auth.Kept) {token : Credential} {outcome : Outcome}
    (merges : ∀ session, auth.stored = some session → session.axeaiNative = some token →
      (∃ orgId, outcome = .rotates orgId) ∨ outcome = .rejects → auth.storing = false) :
    (auth.nativeAnswered token outcome).Kept := by
  unfold Auth.nativeAnswered
  split
  · rename_i session orgId stored
    split
    · rename_i current
      have free := merges session stored current (.inl ⟨orgId, rfl⟩)
      refine kept.touch ⟨stored, rfl, rfl, rfl, ?_, rfl, rfl, rfl, .inl ⟨rfl, free⟩⟩ rfl
        ⟨rfl, rfl, rfl, rfl⟩ rfl
      rintro ⟨user, native⟩
      refine ⟨user, ?_⟩
      rintro _ ⟨⟩
      exact native token current
    · exact kept
  · rename_i session stored
    split
    · rename_i current
      have free := merges session stored current (.inr rfl)
      refine kept.touch ⟨stored, rfl, rfl, rfl, ?_, rfl, rfl, rfl, .inl ⟨rfl, free⟩⟩ rfl
        ⟨rfl, rfl, rfl, rfl⟩ rfl
      rintro ⟨user, _⟩
      exact ⟨user, by intros; contradiction⟩
    · exact kept
  · exact kept

theorem Kept.avatarFetched (kept : auth.Kept) (backfill : auth.backfill.unsaved = false)
    (access : Credential) (picture data : Option String) :
    (auth.avatarFetched access picture data).Kept := by
  have ended : ({ auth with backfill := .over } : Auth).Kept :=
    kept.congr ⟨rfl, rfl, rfl, rfl, rfl, backfill.symm⟩ rfl ⟨rfl, rfl, rfl, rfl⟩ kept.answers
  unfold Auth.avatarFetched
  split
  · rename_i session data stored
    split
    · exact kept.touch ⟨stored, rfl, rfl, rfl, id, rfl, rfl, rfl, .inr ⟨rfl, rfl⟩⟩ rfl
        ⟨rfl, rfl, rfl, rfl⟩ rfl
    · exact ended
  · exact ended

/-- The backfill writes the file; no sign-in has written it and not yet its session. -/
theorem Kept.save (kept : auth.Kept) (free : auth.storing = false) (backfill : Backfill) :
    ({ auth with file := auth.stored, backfill } : Auth).Kept := by
  refine ⟨kept.own, kept.final, ?_, kept.begun, kept.exchanges, kept.answers⟩
  have under := kept.under
  show Auth.Under _ auth.holder
  cases holder : auth.holder with
  | none =>
      rw [holder] at under
      exact ⟨under.1, under.2.1, fun _ => rfl⟩
  | some here =>
      rw [holder] at under
      cases here with
      | persisting session access => exact under
      | storing session access => simp [storing, holder, Holder.stores] at free
      | publishing session access => exact ⟨under.1, fun _ => rfl, under.2.2⟩
      | clearing refresh => exact under
      | removing refresh => exact under
      | leaving refresh => exact ⟨under.1, under.2.1, under.1⟩
      | rotating tokens => exact under
      | saving tokens user orgChanged => exact under
      | announcing tokens user orgChanged =>
          exact ⟨under.1, under.2.1, fun _ => rfl, under.2.2.2⟩

theorem Kept.announcePhoto (kept : auth.Kept) {user : AuthUser} {orgId : Option String}
    (announcing : auth.backfill = .announcing user orgId)
    (own : auth.holder.any Holder.publishes = true ∨
      auth.stored.map (fun session => session.user.id) = some user.id) :
    ({ auth with state := stateFor user orgId, backfill := .over } : Auth).Kept := by
  refine ⟨kept.own, kept.final, ?_, kept.begun, kept.exchanges, kept.answers⟩
  have saved (saved : auth.Saved) :
      ({ auth with state := stateFor user orgId, backfill := .over } : Auth).Saved :=
    fun _ => saved (by rw [announcing]; rfl)
  -- where nobody else publishes, the photo is that of the stored user
  have published (silent : auth.holder.any Holder.publishes = false) :
      ({ auth with state := stateFor user orgId, backfill := .over } : Auth).Published := by
    rcases own with publishes | own
    · rw [silent] at publishes
      cases publishes
    · obtain ⟨session, stored, id⟩ := Option.map_eq_some_iff.mp own
      have holds : ({ auth with state := stateFor user orgId, backfill := .over } : Auth).Holds
          session.refreshToken.origin user.id := ⟨session, stored, rfl, id⟩
      exact holds.published orgId rfl
  have under := kept.under
  show Auth.Under _ auth.holder
  cases holder : auth.holder with
  | none =>
      rw [holder] at under published
      exact ⟨under.1, published rfl, saved under.2.2⟩
  | some here =>
      rw [holder] at under published
      cases here with
      | persisting session access => exact under
      | storing session access => exact under
      | publishing session access => exact ⟨under.1, saved under.2.1, under.2.2⟩
      | clearing refresh => exact under
      | removing refresh => exact under
      | leaving refresh => exact under
      | rotating tokens => exact ⟨under.1, published rfl, under.2.2⟩
      | saving tokens user orgChanged => exact ⟨under.1, published rfl, under.2.2⟩
      | announcing tokens user orgChanged =>
          exact ⟨under.1, published rfl, saved under.2.2.1, under.2.2.2⟩

/-! ## Runs -/

/-- A step that touches no session, state or file. -/
theorem Kept.quietly (kept : auth.Kept) (same : SameFacts auth after)
    (holder : after.holder = auth.holder) (flows : SameFlows auth after)
    (gate : after.gate = auth.gate) : after.Kept := by
  apply kept.congr same holder flows
  rw [gate]
  exact kept.answers

theorem Kept.begin (kept : auth.Kept) :
    ({ auth with
      pending := auth.nextSignIn :: auth.pending, nextSignIn := auth.nextSignIn + 1 } : Auth).Kept := by
  obtain ⟨next, pending⟩ := kept.begun
  refine ⟨kept.own, kept.final, Under.congr kept.under ⟨rfl, rfl, rfl, rfl, rfl, rfl⟩,
    ⟨Nat.le_succ_of_le next, ?_⟩, kept.exchanges, kept.answers⟩
  intro signIn there
  rcases List.mem_cons.mp there with rfl | there
  · exact next
  · exact pending signIn there

theorem Kept.fewer (kept : auth.Kept) {pending : List Nat} {exchanges : List Exchange}
    (pendings : ∀ signIn ∈ pending, signIn ∈ auth.pending)
    (others : ∀ held ∈ exchanges, held ∈ auth.exchanges ∨
      held.signOuts = auth.signOuts ∧ held.signIn ∈ auth.pending) :
    ({ auth with pending, exchanges } : Auth).Kept := by
  refine ⟨kept.own, kept.final, Under.congr kept.under ⟨rfl, rfl, rfl, rfl, rfl, rfl⟩,
    ⟨kept.begun.1, fun signIn there => kept.begun.2 signIn (pendings signIn there)⟩, ?_,
    kept.answers⟩
  intro held there
  rcases others held there with before | ⟨now, begun⟩
  · exact kept.exchanges held before
  · exact ⟨Nat.le_of_eq now, fun _ => kept.begun.2 held.signIn begun⟩

theorem Kept.answer (kept : auth.Kept) {generation retryGeneration : Nat} {token : Credential}
    {organization : Option String} (outcome : Outcome) :
    ((auth.answerOf token outcome).1.atStage ⟨organization, retryGeneration, .reading⟩
      (.asked generation token (some (auth.answerOf token outcome).2))).Kept := by
  cases outcome with
  | rotates orgId =>
      refine kept.congr ⟨rfl, rfl, rfl, rfl, rfl, rfl⟩ rfl ⟨rfl, rfl, rfl, rfl⟩ ?_
      rintro _ ⟨⟩ _ _ tokens (asked | received)
      · cases asked
        exact ⟨rfl, rfl⟩
      · cases received
  | rejects | fails =>
      refine kept.congr ⟨rfl, rfl, rfl, rfl, rfl, rfl⟩ rfl ⟨rfl, rfl, rfl, rfl⟩ ?_
      rintro _ ⟨⟩ _ _ tokens (asked | received)
      · cases asked
      · cases received

theorem Kept.step {action : AuthAction} (kept : auth.Kept)
    (apart : auth.keepsApart action = true) (stepped : auth.step action = some after) :
    after.Kept := by
  cases action with
  | beginSignIn =>
      simp only [Auth.step] at stepped
      split at stepped <;> cases stepped
      exact kept.begin
  | expirePending signIn =>
      cases stepped
      exact kept.fewer (fun _ there => List.mem_of_mem_erase there) fun _ there => .inl there
  | takePending signIn =>
      simp only [Auth.step] at stepped
      split at stepped <;> cases stepped
      rename_i taken
      apply kept.fewer (fun _ there => List.mem_of_mem_erase there)
      intro held there
      rcases List.mem_cons.mp there with rfl | there
      · exact .inr ⟨rfl, taken.2⟩
      · exact .inl there
  | exchangeFails exchange =>
      cases stepped
      exact kept.fewer (fun _ there => there) fun _ there => .inl (List.mem_of_mem_eraseIdx there)
  | finishSignIn exchange account avatarUrl avatarData orgId =>
      simp only [Auth.step] at stepped
      split at stepped
      · cases stepped
      · rename_i held taken
        split at stepped <;> cases stepped
        have fewer : ({ auth with
            exchanges := auth.exchanges.eraseIdx exchange } : Auth).Kept :=
          kept.fewer (fun _ there => there) fun _ there => .inl (List.mem_of_mem_eraseIdx there)
        apply fewer.finishSignIn
        intro current
        have began := (kept.exchanges held (List.mem_of_getElem? taken)).2
        have recent : held.generation ≠ auth.generation ∨ held.signOuts = auth.signOuts := by
          simpa [keepsApart, taken] using apart
        exact began (recent.resolve_left fun other => other current)
  | signOut =>
      simp only [Auth.step] at stepped
      split at stepped <;> cases stepped
      exact kept.clearSession false kept.answers
  | hold => exact kept.hold stepped
  | refresh | dropWaiting number | expireAccess | cooldownEnds | retryRefresh =>
      cases stepped
      exact kept.quietly ⟨rfl, rfl, rfl, rfl, rfl, rfl⟩ rfl ⟨rfl, rfl, rfl, rfl⟩ rfl
  | selectOrg organization =>
      simp only [Auth.step] at stepped
      split at stepped <;> cases stepped
      exact kept.quietly ⟨rfl, rfl, rfl, rfl, rfl, rfl⟩ rfl ⟨rfl, rfl, rfl, rfl⟩ rfl
  | takeGate organization =>
      cases organization with
      | none =>
          simp only [Auth.step] at stepped
          split at stepped <;> cases stepped
          exact kept.congr ⟨rfl, rfl, rfl, rfl, rfl, rfl⟩ rfl ⟨rfl, rfl, rfl, rfl⟩
            (answers_of_silent (by simp))
      | some number =>
          simp only [Auth.step] at stepped
          split at stepped
          · cases stepped
          · split at stepped <;> cases stepped
            exact kept.congr ⟨rfl, rfl, rfl, rfl, rfl, rfl⟩ rfl ⟨rfl, rfl, rfl, rfl⟩
              (answers_of_silent (by simp))
  | goOn =>
      obtain ⟨refresh, held, went⟩ := Option.bind_eq_some_iff.mp stepped
      exact kept.goOn held went
  | unreachable =>
      simp only [Auth.step] at stepped
      split at stepped <;> cases stepped
      exact kept.congr ⟨rfl, rfl, rfl, rfl, rfl, rfl⟩ rfl ⟨rfl, rfl, rfl, rfl⟩
        (answers_of_silent (by simp))
  | answer outcome =>
      simp only [Auth.step] at stepped
      split at stepped <;> cases stepped
      exact kept.answer outcome
  | dropCaller =>
      simp only [Auth.step] at stepped
      split at stepped <;> cases stepped
      unfold forsake
      split <;>
        exact kept.congr ⟨rfl, rfl, rfl, rfl, rfl, rfl⟩ rfl ⟨rfl, rfl, rfl, rfl⟩ (by rintro _ ⟨⟩)
  | timeOut =>
      simp only [Auth.step] at stepped
      split at stepped <;> cases stepped
      unfold forsake
      split <;>
        exact kept.congr ⟨rfl, rfl, rfl, rfl, rfl, rfl⟩ rfl ⟨rfl, rfl, rfl, rfl⟩
          (answers_of_silent (by simp))
  | answerStray number outcome =>
      simp only [Auth.step] at stepped
      split at stepped <;> cases stepped
      cases outcome <;>
        exact kept.quietly ⟨rfl, rfl, rfl, rfl, rfl, rfl⟩ rfl ⟨rfl, rfl, rfl, rfl⟩ rfl
  | lazyMint number =>
      simp only [Auth.step] at stepped
      split at stepped
      · split at stepped <;> cases stepped
        exact kept.quietly ⟨rfl, rfl, rfl, rfl, rfl, rfl⟩ rfl ⟨rfl, rfl, rfl, rfl⟩ rfl
      · cases stepped
  | mintAnswered number minted =>
      simp only [Auth.step] at stepped
      split at stepped <;> cases stepped
      rename_i access minting
      have fewer : ({ auth with mints := auth.mints.eraseIdx number } : Auth).Kept :=
        kept.quietly ⟨rfl, rfl, rfl, rfl, rfl, rfl⟩ rfl ⟨rfl, rfl, rfl, rfl⟩ rfl
      cases minted with
      | false => exact fewer
      | true =>
          apply fewer.mergeNative
          intro session stored
          have stored : auth.stored = some session := stored
          simpa [keepsApart, minting, stored, storing] using apart
  | refreshNative =>
      simp only [Auth.step] at stepped
      split at stepped <;> cases stepped
      exact kept.quietly ⟨rfl, rfl, rfl, rfl, rfl, rfl⟩ rfl ⟨rfl, rfl, rfl, rfl⟩ rfl
  | nativeAnswered number outcome =>
      simp only [Auth.step] at stepped
      split at stepped <;> cases stepped
      rename_i token rotating
      have fewer : ({ auth with rotations := auth.rotations.eraseIdx number } : Auth).Kept :=
        kept.quietly ⟨rfl, rfl, rfl, rfl, rfl, rfl⟩ rfl ⟨rfl, rfl, rfl, rfl⟩ rfl
      apply fewer.nativeAnswered
      rintro session stored current (⟨orgId, rfl⟩ | rfl) <;>
        have stored : auth.stored = some session := stored <;>
        simpa [keepsApart, rotating, stored, current, storing] using apart
  | avatarFetched picture data =>
      simp only [Auth.step] at stepped
      split at stepped <;> cases stepped
      rename_i access fetching
      exact kept.avatarFetched (by rw [fetching]; rfl) access picture data
  | avatarStep =>
      simp only [Auth.step, Auth.avatarStep] at stepped
      split at stepped <;> cases stepped
      · rename_i user orgId saving
        exact kept.save (by simpa [keepsApart, saving] using apart) _
      · rename_i user orgId announcing
        exact kept.announcePhoto announcing (by simpa [keepsApart, announcing] using apart)

theorem kept_load (axeai : Bool) {file : Option StoredSession}
    (own : ∀ session, file = some session → session.Own) : (load axeai file).Kept := by
  refine ⟨own, fun _ _ => Nat.zero_le _, ⟨by rintro _ ⟨⟩, ⟨?_, ?_⟩, fun _ => rfl⟩,
    ⟨Nat.zero_le _, by rintro _ ⟨⟩⟩, by rintro _ ⟨⟩, by rintro _ ⟨⟩⟩
  · cases file with
    | none => exact iff_of_true rfl rfl
    | some session => exact iff_of_false (user_stateFor session.user session.orgId).2 (by intro stray; cases stray)
  · rintro session ⟨⟩
    exact congrArg (Option.map AuthUser.id) (user_stateFor session.user session.orgId).1

/-- In a run that keeps its sign-ins apart, all that the service holds between two
operations is of one sign-in, and no sign-out is undone. -/
theorem accounts_never_mix {axeai : Bool} {file : Option StoredSession}
    (own : ∀ session, file = some session → session.Own)
    (runs : Reaches step (fun auth action => auth.keepsApart action = true) (load axeai file) auth)
    (quiet : auth.Quiet) : auth.Settled := by
  have kept : auth.Kept := by
    apply runs.keeps (kept_load axeai own)
    intro before action next kept apart stepped
    exact kept.step apart stepped
  exact kept.settled quiet

/-- Ann signs in and out, and bob signs in, each with a native session. -/
theorem two_sign_ins_settled : ∃ auth : Auth,
    ((Reaches step (fun auth action => auth.keepsApart action = true) (load true none) auth ∧
      auth.Quiet) ∧ auth.stored.map (fun session => session.user.id) = some "bob") ∧
      auth.Settled := by
  have ran : (runAll step keepsApart (load true none)
      [.beginSignIn, .takePending 1, .finishSignIn 0 "ann" none none (some "personal"), .hold,
        .hold, .hold, .mintAnswered 0 true, .signOut, .hold, .hold, .hold, .beginSignIn,
        .takePending 2, .finishSignIn 0 "bob" none none (some "personal"), .hold, .hold, .hold,
        .mintAnswered 0 true]).map
      (fun auth => (auth.holder, auth.backfill.between,
        auth.stored.map fun session => session.user.id)) = some (none, false, some "bob") := by
    decide
  obtain ⟨auth, ran, ends⟩ := Option.map_eq_some_iff.mp ran
  injection ends with free ends
  injection ends with rests names
  have runs := reaches_of_runAll ran
  have none_own : ∀ session, (none : Option StoredSession) = some session → session.Own := by simp
  exact ⟨auth, ⟨⟨runs, free, rests⟩, names⟩, accounts_never_mix none_own runs ⟨free, rests⟩⟩

/-- The native session ann's sign-in asked for arrives after bob has signed in. -/
theorem late_mint_mixes : ∃ auth : Auth,
    Reaches step (fun _ _ => True) (load true none) auth ∧ ¬ (auth.Quiet → auth.Settled) := by
  have ran : (runAll step (fun _ _ => true) (load true none)
      [.beginSignIn, .takePending 1, .finishSignIn 0 "ann" none none (some "personal"), .hold,
        .hold, .hold, .signOut, .hold, .hold, .hold, .beginSignIn, .takePending 2,
        .finishSignIn 0 "bob" none none (some "personal"), .hold, .hold, .hold,
        .mintAnswered 1 true]).map
      (fun auth => (auth.holder, auth.backfill.between,
        auth.stored.map fun session => (session.refreshToken.origin.account,
          session.axeaiNative.map fun native => native.origin.account))) =
      some (none, false, some ("bob", some "ann")) := by
    decide
  obtain ⟨auth, ran, ends⟩ := Option.map_eq_some_iff.mp ran
  injection ends with free ends
  injection ends with rests names
  obtain ⟨session, stored, accounts⟩ := Option.map_eq_some_iff.mp names
  injection accounts with token native
  obtain ⟨credential, native, account⟩ := Option.map_eq_some_iff.mp native
  refine ⟨auth, (reaches_of_runAll ran).mono fun _ _ _ => trivial, fun settles => ?_⟩
  have origin := ((settles ⟨free, rests⟩).own session stored).2 credential native
  rw [origin, token] at account
  exact absurd account (by decide)

end Auth

end Zeron.Account
