import Zeron.Account.Session

namespace Zeron.Account

open Zeron.Data

/-! # The ledger of refresh tokens

The edge takes back a refresh token with the answer that renews it.  The ledger says
where each token is on its way through the service, and nothing of sessions or locks.
-/

/-- The refresh tokens of the service: where each one is, and what the edge did with it. -/
structure Ledger where
  stored : Option Credential
  generation : Nat
  /-- What a refresh read and is about to send, and what it sent. -/
  sending : Option (Nat × Credential)
  asking : Option (Nat × Credential)
  /-- The new token of an answer, before and after the checks of the commit. -/
  renewal : Option Credential
  rotating : Option Credential
  /-- The token of a sign-in that is not stored yet. -/
  arriving : Option Credential
  sent : List Credential
  answered : List Credential
  strays : List Credential
  replayed : List Credential
  nextSerial : Nat

namespace Ledger

variable {ledger : Ledger} {token : Credential} {generation : Nat}

structure Unspent (ledger : Ledger) : Prop where
  renewing : ∀ token, ledger.stored = some token → token ∈ ledger.answered →
    (ledger.asking.map Prod.snd = some token ∧ ledger.renewal.isSome) ∨ ledger.rotating.isSome
  unsent : ∀ generation token, ledger.sending = some (generation, token) → token ∉ ledger.answered
  clean : ledger.replayed = []
  current : ∀ generation token, ledger.stored = some token →
    ledger.sending = some (generation, token) ∨ ledger.asking = some (generation, token) →
    ledger.generation = generation
  known : ∀ token, token ∈ ledger.answered ∨ token ∈ ledger.strays ∨
    ledger.asking.map Prod.snd = some token → token ∈ ledger.sent
  fresh : ∀ token, ledger.renewal = some token ∨ ledger.rotating = some token ∨
    ledger.arriving = some token → token ∉ ledger.sent
  apart : ∀ token, ledger.arriving = some token →
    ledger.stored ≠ some token ∧ ledger.sending.map Prod.snd ≠ some token
  alone : (ledger.rotating.isSome → ledger.sending = none ∧ ledger.asking = none) ∧
    (ledger.sending.isSome → ledger.asking = none ∧ ledger.renewal = none) ∧
    (ledger.asking = none → ledger.renewal = none)
  bounded : ∀ token, ledger.stored = some token ∨ ledger.sending.map Prod.snd = some token ∨
    ledger.renewal = some token ∨ ledger.rotating = some token ∨ ledger.arriving = some token ∨
    token ∈ ledger.sent → token.serial < ledger.nextSerial

theorem Unspent.ofStored (held : ledger.Unspent) (there : ledger.stored = some token) :
    token.serial < ledger.nextSerial :=
  held.bounded token (.inl there)

theorem Unspent.ofSending (held : ledger.Unspent) (there : ledger.sending.map Prod.snd = some token) :
    token.serial < ledger.nextSerial :=
  held.bounded token (.inr (.inl there))

theorem Unspent.ofRenewal (held : ledger.Unspent) (there : ledger.renewal = some token) :
    token.serial < ledger.nextSerial :=
  held.bounded token (.inr (.inr (.inl there)))

theorem Unspent.ofRotating (held : ledger.Unspent) (there : ledger.rotating = some token) :
    token.serial < ledger.nextSerial :=
  held.bounded token (.inr (.inr (.inr (.inl there))))

theorem Unspent.ofArriving (held : ledger.Unspent) (there : ledger.arriving = some token) :
    token.serial < ledger.nextSerial :=
  held.bounded token (.inr (.inr (.inr (.inr (.inl there)))))

theorem Unspent.ofSent (held : ledger.Unspent) (there : token ∈ ledger.sent) :
    token.serial < ledger.nextSerial :=
  held.bounded token (.inr (.inr (.inr (.inr (.inr there)))))

/-- New serials are given to other credentials too. -/
theorem Unspent.issue (held : ledger.Unspent) (count : Nat) :
    ({ ledger with nextSerial := ledger.nextSerial + count }).Unspent :=
  { held with bounded := fun token there => Nat.lt_add_right count (held.bounded token there) }

/-- A sign-in brings a token. -/
theorem Unspent.arrive (held : ledger.Unspent) (new : token.serial = ledger.nextSerial + 1) :
    ({ ledger with arriving := some token, nextSerial := ledger.nextSerial + 2 }).Unspent := by
  have unknown : ∀ other, other.serial < ledger.nextSerial → other ≠ token := by
    rintro other less rfl
    omega
  constructor
  · exact held.renewing
  · exact held.unsent
  · exact held.clean
  · exact held.current
  · exact held.known
  · rintro other (renewal | rotating | arriving)
    · exact held.fresh other (.inl renewal)
    · exact held.fresh other (.inr (.inl rotating))
    · cases arriving
      intro sent
      exact unknown _ (held.ofSent sent) rfl
  · intro other arriving
    cases arriving
    constructor
    · intro stored
      exact unknown _ (held.ofStored stored) rfl
    · intro sending
      exact unknown _ (held.ofSending sending) rfl
  · exact held.alone
  · rintro other (stored | sending | renewal | rotating | arriving | sent)
    · exact Nat.lt_add_right 2 (held.ofStored stored)
    · exact Nat.lt_add_right 2 (held.ofSending sending)
    · exact Nat.lt_add_right 2 (held.ofRenewal renewal)
    · exact Nat.lt_add_right 2 (held.ofRotating rotating)
    · cases arriving
      show token.serial < ledger.nextSerial + 2
      omega
    · exact Nat.lt_add_right 2 (held.ofSent sent)

/-- The token of a sign-in takes the place of the one there was. -/
theorem Unspent.store (held : ledger.Unspent) (arriving : ledger.arriving = some token) :
    ({ ledger with stored := some token, arriving := none }).Unspent := by
  have unsent := held.fresh token (.inr (.inr arriving))
  constructor
  · intro other same answered
    cases same
    exact absurd (held.known token (.inl answered)) unsent
  · exact held.unsent
  · exact held.clean
  · intro generation other same presented
    cases same
    rcases presented with sending | asking
    · exact absurd (congrArg (Option.map Prod.snd) sending) (held.apart token arriving).2
    · exact absurd (held.known token (.inr (.inr (congrArg (Option.map Prod.snd) asking)))) unsent
  · exact held.known
  · intro other
    rintro (renewal | rotating | none)
    · exact held.fresh other (.inl renewal)
    · exact held.fresh other (.inr (.inl rotating))
    · cases none
  · nofun
  · exact held.alone
  · rintro other (same | sending | renewal | rotating | none | sent)
    · cases same
      exact held.ofArriving arriving
    · exact held.ofSending sending
    · exact held.ofRenewal renewal
    · exact held.ofRotating rotating
    · cases none
    · exact held.ofSent sent

/-- A sign-out drops the token. -/
theorem Unspent.clear (held : ledger.Unspent) (generation : Nat) :
    ({ ledger with stored := none, generation }).Unspent := by
  constructor
  · nofun
  · exact held.unsent
  · exact held.clean
  · nofun
  · exact held.known
  · exact held.fresh
  · intro token arriving
    exact ⟨nofun, (held.apart token arriving).2⟩
  · exact held.alone
  · rintro token (none | rest)
    · cases none
    · exact held.bounded token (.inr rest)

/-- A refresh reads the token; no sign-in is between its lock sections. -/
theorem Unspent.read (held : ledger.Unspent) (stored : ledger.stored = some token)
    (idle : ledger.asking = none) (free : ledger.rotating = none ∧ ledger.arriving = none) :
    ({ ledger with sending := some (ledger.generation, token) }).Unspent := by
  have quiet := held.alone.2.2 idle
  constructor
  · exact held.renewing
  · rintro _ _ ⟨⟩ answered
    rcases held.renewing token stored answered with ⟨asking, _⟩ | rotating
    · simp [idle] at asking
    · simp [free.1] at rotating
  · exact held.clean
  · rintro generation other same (sending | asking)
    · cases sending
      rfl
    · exact held.current generation other same (.inr asking)
  · exact held.known
  · exact held.fresh
  · intro other arriving
    simp [free.2] at arriving
  · refine ⟨?_, fun _ => ⟨idle, quiet⟩, fun _ => quiet⟩
    simp [free.1]
  · rintro other (same | sending | rest)
    · exact held.ofStored same
    · cases sending
      exact held.ofStored stored
    · exact held.bounded other (.inr (.inr rest))

/-- What is read is sent. -/
theorem Unspent.send (held : ledger.Unspent) (sending : ledger.sending = some (generation, token)) :
    ({ ledger with
      sending := none
      asking := some (generation, token)
      sent := token :: ledger.sent
      replayed := if token ∈ ledger.answered then token :: ledger.replayed else ledger.replayed
      } : Ledger).Unspent := by
  have unsent := held.unsent generation token sending
  have resting : ledger.rotating = none := by
    cases rotating : ledger.rotating with
    | none => rfl
    | some _ => simpa [sending] using (held.alone.1 (by simp [rotating])).1
  obtain ⟨idle, quiet⟩ := held.alone.2.1 (by simp [sending])
  constructor
  · intro other same answered
    rcases held.renewing other same answered with ⟨asking, _⟩ | rotating
    · simp [idle] at asking
    · exact .inr rotating
  · nofun
  · simp [unsent, held.clean]
  · rintro _ other same (none | asking)
    · cases none
    · cases asking
      exact held.current generation token same (.inl sending)
  · rintro other (answered | stray | asking)
    · exact List.mem_cons_of_mem _ (held.known other (.inl answered))
    · exact List.mem_cons_of_mem _ (held.known other (.inr (.inl stray)))
    · cases asking
      exact List.mem_cons_self
  · rintro other (renewal | rotating | arriving)
    · simp [quiet] at renewal
    · simp [resting] at rotating
    · intro there
      rcases List.mem_cons.mp there with rfl | there
      · exact (held.apart other arriving).2 (by simp [sending])
      · exact held.fresh other (.inr (.inr arriving)) there
  · intro other arriving
    exact ⟨(held.apart other arriving).1, nofun⟩
  · exact ⟨by simp [resting], nofun, nofun⟩
  · rintro other (same | none | renewal | rotating | arriving | there)
    · exact held.ofStored same
    · cases none
    · exact held.ofRenewal renewal
    · exact held.ofRotating rotating
    · exact held.ofArriving arriving
    · rcases List.mem_cons.mp there with rfl | there
      · exact held.ofSending (congrArg (Option.map Prod.snd) sending)
      · exact held.ofSent there

/-- The edge renews the token of the request that is waited for. -/
theorem Unspent.renew {next : Credential} (held : ledger.Unspent)
    (asking : ledger.asking = some (generation, token))
    (new : next.serial = ledger.nextSerial + 1) :
    ({ ledger with
      answered := token :: ledger.answered
      renewal := some next
      nextSerial := ledger.nextSerial + 2 } : Ledger).Unspent := by
  have silent : ledger.sending = none := by
    cases sending : ledger.sending with
    | none => rfl
    | some _ => simpa [asking] using (held.alone.2.1 (by simp [sending])).1
  constructor
  · intro other same answered
    rcases List.mem_cons.mp answered with rfl | answered
    · exact .inl ⟨by simp [asking], rfl⟩
    · rcases held.renewing other same answered with ⟨mine, _⟩ | rotating
      · exact .inl ⟨mine, rfl⟩
      · exact .inr rotating
  · simp [silent]
  · exact held.clean
  · exact held.current
  · rintro other (answered | rest)
    · rcases List.mem_cons.mp answered with rfl | answered
      · exact held.known other (.inr (.inr (by simp [asking])))
      · exact held.known other (.inl answered)
    · exact held.known other (.inr rest)
  · rintro other (renewal | rotating | arriving) sent
    · cases renewal
      have less := held.ofSent sent
      omega
    · exact held.fresh other (.inr (.inl rotating)) sent
    · exact held.fresh other (.inr (.inr arriving)) sent
  · exact held.apart
  · refine ⟨held.alone.1, by simp [silent], by simp [asking]⟩
  · rintro other (same | sending | renewal | rest)
    · exact Nat.lt_add_right 2 (held.ofStored same)
    · exact Nat.lt_add_right 2 (held.ofSending sending)
    · cases renewal
      show next.serial < ledger.nextSerial + 2
      omega
    · exact Nat.lt_add_right 2 (held.bounded other (.inr (.inr (.inr rest))))

/-- The refresh ends without a new token: what it leaves in the store is not spent. -/
theorem Unspent.letGo (held : ledger.Unspent) {strays : List Credential}
    (there : ∀ stray ∈ strays, stray ∈ ledger.strays ∨ ledger.asking.map Prod.snd = some stray)
    (kept : ∀ spent, ledger.asking.map Prod.snd = some spent → ledger.renewal.isSome →
      ledger.stored ≠ some spent) :
    ({ ledger with sending := none, asking := none, renewal := none, strays } : Ledger).Unspent := by
  constructor
  · intro other same answered
    rcases held.renewing other same answered with ⟨mine, renewal⟩ | rotating
    · exact absurd same (kept other mine renewal)
    · exact .inr rotating
  · nofun
  · exact held.clean
  · rintro _ _ _ (none | none) <;> cases none
  · rintro other (answered | stray | none)
    · exact held.known other (.inl answered)
    · exact held.known other (.inr (there other stray))
    · cases none
  · rintro other (none | rest)
    · cases none
    · exact held.fresh other (.inr rest)
  · intro other arriving
    exact ⟨(held.apart other arriving).1, nofun⟩
  · exact ⟨fun _ => ⟨rfl, rfl⟩, nofun, fun _ => rfl⟩
  · rintro other (same | none | none | rest)
    · exact held.ofStored same
    · cases none
    · cases none
    · exact held.bounded other (.inr (.inr (.inr rest)))

/-- The edge renews a token that nobody waits for and nobody will send. -/
theorem Unspent.renewStray (held : ledger.Unspent) {strays : List Credential}
    (fewer : ∀ stray ∈ strays, stray ∈ ledger.strays) (stray : token ∈ ledger.strays)
    (unwanted : ledger.stored ≠ some token ∧ ledger.sending.map Prod.snd ≠ some token) :
    ({ ledger with
      strays
      answered := token :: ledger.answered
      nextSerial := ledger.nextSerial + 2 } : Ledger).Unspent := by
  constructor
  · intro other same answered
    rcases List.mem_cons.mp answered with rfl | answered
    · exact absurd same unwanted.1
    · exact held.renewing other same answered
  · intro generation other sending answered
    rcases List.mem_cons.mp answered with rfl | answered
    · exact unwanted.2 (congrArg (Option.map Prod.snd) sending)
    · exact held.unsent generation other sending answered
  · exact held.clean
  · exact held.current
  · rintro other (answered | stray | asking)
    · rcases List.mem_cons.mp answered with rfl | answered
      · exact held.known other (.inr (.inl stray))
      · exact held.known other (.inl answered)
    · exact held.known other (.inr (.inl (fewer other stray)))
    · exact held.known other (.inr (.inr asking))
  · exact held.fresh
  · exact held.apart
  · exact held.alone
  · exact fun other there => Nat.lt_add_right 2 (held.bounded other there)

theorem Unspent.fewerStrays (held : ledger.Unspent) {strays : List Credential}
    (fewer : ∀ stray ∈ strays, stray ∈ ledger.strays) : ({ ledger with strays }).Unspent :=
  { held with
    known := by
      rintro other (answered | stray | asking)
      · exact held.known other (.inl answered)
      · exact held.known other (.inr (.inl (fewer other stray)))
      · exact held.known other (.inr (.inr asking)) }

/-- The answer finds the token it is for. -/
theorem Unspent.commit (held : ledger.Unspent) {next : Credential}
    (renewal : ledger.renewal = some next) :
    ({ ledger with
      sending := none
      asking := none
      renewal := none
      rotating := some next } : Ledger).Unspent := by
  constructor
  · exact fun _ _ _ => .inr rfl
  · nofun
  · exact held.clean
  · rintro _ _ _ (none | none) <;> cases none
  · rintro other (answered | stray | none)
    · exact held.known other (.inl answered)
    · exact held.known other (.inr (.inl stray))
    · cases none
  · rintro other (none | rotating | arriving)
    · cases none
    · cases rotating
      exact held.fresh next (.inl renewal)
    · exact held.fresh other (.inr (.inr arriving))
  · intro other arriving
    exact ⟨(held.apart other arriving).1, nofun⟩
  · exact ⟨fun _ => ⟨rfl, rfl⟩, nofun, fun _ => rfl⟩
  · rintro other (same | none | none | rotating | rest)
    · exact held.ofStored same
    · cases none
    · cases none
    · cases rotating
      exact held.ofRenewal renewal
    · exact held.bounded other (.inr (.inr (.inr (.inr rest))))

/-- The new token takes the place of the spent one. -/
theorem Unspent.rotate (held : ledger.Unspent) {next : Credential}
    (rotating : ledger.rotating = some next) (free : ledger.arriving = none) :
    ({ ledger with stored := some next, rotating := none } : Ledger).Unspent := by
  have unsent := held.fresh next (.inr (.inl rotating))
  obtain ⟨silent, idle⟩ := held.alone.1 (by simp [rotating])
  constructor
  · intro other same answered
    cases same
    exact absurd (held.known next (.inl answered)) unsent
  · exact held.unsent
  · exact held.clean
  · simp [silent, idle]
  · exact held.known
  · rintro other (renewal | none | arriving)
    · exact held.fresh other (.inl renewal)
    · cases none
    · exact held.fresh other (.inr (.inr arriving))
  · simp [free]
  · exact ⟨nofun, held.alone.2⟩
  · rintro other (same | sending | renewal | none | rest)
    · cases same
      exact held.ofRotating rotating
    · exact held.ofSending sending
    · exact held.ofRenewal renewal
    · cases none
    · exact held.bounded other (by tauto)

/-- The store is empty when the refresh that was to write it comes. -/
theorem Unspent.giveUp (held : ledger.Unspent) (empty : ledger.stored = none) :
    ({ ledger with rotating := none } : Ledger).Unspent := by
  constructor
  · simp [empty]
  · exact held.unsent
  · exact held.clean
  · exact held.current
  · exact held.known
  · rintro other (renewal | none | arriving)
    · exact held.fresh other (.inl renewal)
    · cases none
    · exact held.fresh other (.inr (.inr arriving))
  · exact held.apart
  · exact ⟨nofun, held.alone.2⟩
  · rintro other (same | sending | renewal | none | rest)
    · exact held.ofStored same
    · exact held.ofSending sending
    · exact held.ofRenewal renewal
    · cases none
    · exact held.bounded other (by tauto)

end Ledger

end Zeron.Account
