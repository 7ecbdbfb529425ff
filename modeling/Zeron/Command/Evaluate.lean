import Mathlib

namespace Zeron.Command

/-! # Evaluating commands

Every device appends its commands to the chat's ledger; the host decides what
becomes of each pending one.  An entry read from the ledger is evaluated against
the whole ledger, the processed ids and the turns of the transcript.
-/

/-- The part of a run request the host reads before it executes the command. -/
structure RunRequest where
  prompt : String
  attachments : List String
deriving DecidableEq

structure UserInputAnswer where
  questionId : String
  labels : List String
deriving DecidableEq

inductive SessionCommandKind where
  | run
  | steer
  | interrupt
  | respondInput
deriving DecidableEq

inductive SessionCommandStatus where
  | pending
  | applied
  | rejected
  | expired
  | superseded
  | cancelled
deriving DecidableEq

inductive SessionCommandPayload where
  | run (request : RunRequest) (messageId : String)
  | steer (prompt : String) (messageId : Option String)
  | interrupt
  | respondInput (requestId : String) (answers : List UserInputAnswer)
deriving DecidableEq

def SessionCommandPayload.kind : SessionCommandPayload → SessionCommandKind
  | .run _ _ => .run
  | .steer _ _ => .steer
  | .interrupt => .interrupt
  | .respondInput _ _ => .respondInput

structure CommandBasedOn where
  turnId : Option String
  frontier : Option String
deriving DecidableEq

structure SessionCommandEntry where
  id : String
  payload : SessionCommandPayload
  issuedBy : String
  issuedAt : Int64
  basedOn : Option CommandBasedOn
  expiresAt : Option Int64
  status : SessionCommandStatus
  resolution : Option String
deriving DecidableEq

def commandDefaultTtlMs : Int64 := 24 * 60 * 60 * 1000

def SessionCommandEntry.kind (entry : SessionCommandEntry) : SessionCommandKind :=
  entry.payload.kind

def SessionCommandEntry.effectiveExpiry (entry : SessionCommandEntry) : Int64 :=
  entry.expiresAt.getD (entry.issuedAt + commandDefaultTtlMs)

def canComposerCancel (entry : SessionCommandEntry) (deviceId : String) : Bool :=
  entry.status == .pending && entry.issuedBy == deviceId

inductive CommandDisposition where
  | skip
  | expired
  | superseded
  | execute
deriving DecidableEq

structure EvaluationContext where
  isProcessed : String → Bool
  nowMs : Int64
  entries : List SessionCommandEntry
  currentTurnId : Option String
  turnIsPast : String → Bool

/-- A pending entry of the same kind, issued later under another id. -/
def EvaluationContext.hasNewerSameKind (cx : EvaluationContext) (entry : SessionCommandEntry) :
    Bool :=
  cx.entries.any fun other =>
    other.id != entry.id && other.kind == entry.kind && other.status == .pending &&
      decide (entry.issuedAt < other.issuedAt)

/-- The turn the entry was based on has finished and is not the current one. -/
def EvaluationContext.aimsAtPastTurn (cx : EvaluationContext) (entry : SessionCommandEntry) :
    Bool :=
  match entry.basedOn.bind CommandBasedOn.turnId with
  | some turnId => cx.currentTurnId != some turnId && cx.turnIsPast turnId
  | none => false

def evaluateCommand (entry : SessionCommandEntry) (cx : EvaluationContext) : CommandDisposition :=
  if cx.isProcessed entry.id then .skip
  else if entry.effectiveExpiry ≤ cx.nowMs then .expired
  else if entry.kind = .interrupt ∧ cx.hasNewerSameKind entry then .superseded
  else if entry.kind = .interrupt ∧ cx.aimsAtPastTurn entry then .superseded
  else .execute

/-! ## Which interrupts execute -/

/-- Processed, expired or aimed at a turn that is over. -/
def EvaluationContext.spent (cx : EvaluationContext) (entry : SessionCommandEntry) : Bool :=
  cx.isProcessed entry.id || decide (entry.effectiveExpiry ≤ cx.nowMs) || cx.aimsAtPastTurn entry

/-- The interrupts of the ledger. -/
def EvaluationContext.interrupts (cx : EvaluationContext) : List SessionCommandEntry :=
  cx.entries.filter fun entry => entry.kind = .interrupt

def EvaluationContext.Live (cx : EvaluationContext) (entry : SessionCommandEntry) : Prop :=
  entry ∈ cx.interrupts ∧ entry.status = .pending ∧ cx.spent entry = false

/-- No pending interrupt under another id was issued later. -/
def EvaluationContext.Unopposed (cx : EvaluationContext) (entry : SessionCommandEntry) : Prop :=
  ∀ other ∈ cx.interrupts, other.status = .pending → other.id ≠ entry.id →
    other.issuedAt ≤ entry.issuedAt

/-- Every pending interrupt that is spent is no newer than one that is not.  Where
rows repeat an id, an unopposed twin that is not spent also answers for it. -/
def EvaluationContext.Outlasted (cx : EvaluationContext) : Prop :=
  ∀ dead ∈ cx.interrupts, dead.status = .pending → cx.spent dead = true →
    ∃ entry ∈ cx.interrupts, cx.spent entry = false ∧
      (dead.issuedAt ≤ entry.issuedAt ∨ entry.id = dead.id ∧ cx.Unopposed entry)

section

variable {cx : EvaluationContext} {entry : SessionCommandEntry}

theorem EvaluationContext.mem_interrupts :
    entry ∈ cx.interrupts ↔ entry ∈ cx.entries ∧ entry.kind = .interrupt := by
  simp [interrupts]

theorem EvaluationContext.hasNewerSameKind_eq_false (interrupt : entry.kind = .interrupt) :
    cx.hasNewerSameKind entry = false ↔ cx.Unopposed entry := by
  simp only [hasNewerSameKind, interrupt, Unopposed, mem_interrupts, List.any_eq_false,
    Bool.and_eq_true, bne_iff_ne, beq_iff_eq, decide_eq_true_eq, not_and, Int64.not_lt]
  constructor
  · intro quiet other member pending otherId
    exact quiet other member.1 ⟨⟨otherId, member.2⟩, pending⟩
  · rintro quiet other member ⟨⟨otherId, kind⟩, pending⟩
    exact quiet other ⟨member, kind⟩ pending otherId

theorem evaluateCommand_eq_execute (interrupt : entry.kind = .interrupt) :
    evaluateCommand entry cx = .execute ↔ cx.spent entry = false ∧ cx.Unopposed entry := by
  rw [← EvaluationContext.hasNewerSameKind_eq_false interrupt]
  unfold evaluateCommand EvaluationContext.spent
  simp only [interrupt, true_and]
  split <;> [skip; split <;> [skip; split <;> [skip; split]]] <;> simp_all

/-- Some interrupt that is not spent was issued no earlier than all the others that
are not. -/
theorem EvaluationContext.exists_newest (member : entry ∈ cx.interrupts)
    (sound : cx.spent entry = false) :
    ∃ newest ∈ cx.interrupts, cx.spent newest = false ∧
      ∀ other ∈ cx.interrupts, cx.spent other = false → other.issuedAt ≤ newest.issuedAt := by
  have nonempty : cx.interrupts.filter (fun entry => cx.spent entry = false) ≠ [] := by
    apply List.ne_nil_of_mem (a := entry)
    simp [member, sound]
  cases found : (cx.interrupts.filter (fun entry => cx.spent entry = false)).argmax
      (fun entry => entry.issuedAt.toInt) with
  | none => exact absurd (List.argmax_eq_none.mp found) nonempty
  | some newest =>
      have inside := List.argmax_mem (Option.mem_def.mpr found)
      rw [List.mem_filter] at inside
      refine ⟨newest, inside.1, by simpa using inside.2, ?_⟩
      intro other otherMember otherSound
      have within : other ∈ cx.interrupts.filter (fun entry => cx.spent entry = false) := by
        simp [otherMember, otherSound]
      apply Int64.le_iff_toInt_le.mpr
      exact List.le_of_mem_argmax (f := fun entry => entry.issuedAt.toInt) within found

theorem EvaluationContext.Unopposed.executes (quiet : cx.Unopposed entry)
    (member : entry ∈ cx.interrupts) (sound : cx.spent entry = false) :
    ∃ entry ∈ cx.interrupts, evaluateCommand entry cx = .execute :=
  ⟨entry, member,
    (evaluateCommand_eq_execute (EvaluationContext.mem_interrupts.mp member).2).mpr ⟨sound, quiet⟩⟩

theorem EvaluationContext.Outlasted.executes (outlasted : cx.Outlasted) (live : cx.Live entry) :
    ∃ entry ∈ cx.interrupts, evaluateCommand entry cx = .execute := by
  obtain ⟨newest, member, sound, most⟩ := exists_newest live.1 live.2.2
  by_cases quiet : cx.Unopposed newest
  · exact quiet.executes member sound
  · -- Whatever supersedes the newest sound interrupt is newer, hence spent itself.
    unfold Unopposed at quiet
    push Not at quiet
    obtain ⟨dead, deadMember, pending, _, newer⟩ := quiet
    rw [Int64.not_le] at newer
    have spent : cx.spent dead = true := by
      by_contra fresh
      exact absurd newer (Int64.not_lt.mpr (most dead deadMember (by simpa using fresh)))
    obtain ⟨answer, answerMember, answerSound, late | ⟨_, quiet⟩⟩ :=
      outlasted dead deadMember pending spent
    · exact absurd (Int64.lt_of_lt_of_le newer late)
        (Int64.not_lt.mpr (most answer answerMember answerSound))
    · exact quiet.executes answerMember answerSound

/-- A ledger with a live interrupt loses every interrupt exactly when a spent one,
still pending, is newer than all that are not spent. -/
theorem interrupt_executes_iff (cx : EvaluationContext) :
    ((∃ entry, cx.Live entry) →
        ∃ entry ∈ cx.interrupts, evaluateCommand entry cx = .execute) ↔
      ((∃ entry, cx.Live entry) → cx.Outlasted) := by
  constructor
  · intro executes live dead deadMember pending spent
    obtain ⟨entry, member, execute⟩ := executes live
    obtain ⟨sound, quiet⟩ :=
      (evaluateCommand_eq_execute (EvaluationContext.mem_interrupts.mp member).2).mp execute
    refine ⟨entry, member, sound, ?_⟩
    by_cases late : dead.issuedAt ≤ entry.issuedAt
    · exact .inl late
    · right
      refine ⟨?_, quiet⟩
      by_contra otherId
      exact late (quiet dead deadMember pending (Ne.symm otherId))
  · intro outlasted live
    obtain ⟨entry, live⟩ := live
    exact (outlasted ⟨entry, live⟩).executes live

end

def interruptEntry (id : String) (issuedAt : Int64) (turnId : Option String) :
    SessionCommandEntry :=
  { id, issuedAt, payload := .interrupt, issuedBy := "device-a",
    basedOn := turnId.map fun turnId => { turnId := some turnId, frontier := none },
    expiresAt := none, status := .pending, resolution := none }

/-- The second interrupt aims at a turn that is over, and still supersedes the first. -/
def crossedInterrupts : EvaluationContext :=
  { isProcessed := fun _ => false, nowMs := 3000,
    entries := [interruptEntry "i1" 1000 none, interruptEntry "i2" 2000 (some "turn-1")],
    currentTurnId := some "turn-2",
    turnIsPast := fun turnId => turnId == "turn-1" || turnId == "turn-2" }

theorem crossed_interrupts_swallowed :
    (∃ entry, crossedInterrupts.Live entry) ∧
      ¬ ∃ entry ∈ crossedInterrupts.interrupts,
        evaluateCommand entry crossedInterrupts = .execute := by
  constructor
  · refine ⟨interruptEntry "i1" 1000 none, ?_, rfl, ?_⟩ <;> decide
  · decide

end Zeron.Command
