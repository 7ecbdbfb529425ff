import Zeron.Chat.Log
import Zeron.Data.Runs

namespace Zeron.Chat

open Zeron.Data

/-! # A checkpoint download that resumes

The room serves its one blob from a byte offset and stamps the answer with the
seq the blob covers.  A download keeps the bytes of a cut answer and asks for
the rest; it starts over when the stamp has changed.
-/

def maxSafeInteger : Nat := 2 ^ 53 - 1

/-- `bytes=N-`; an offset the room cannot use asks for the whole blob. -/
def parseRangeStart (start : Nat) : Option Nat :=
  if start ≤ maxSafeInteger ∧ start > 0 then some start else none

structure CheckpointResponse where
  status : Nat
  /-- The `x-chat2-checkpoint-seq` header. -/
  seq : Option Nat
  body : Bytes
deriving DecidableEq

/-- `GET checkpoint`. -/
def ChatLog.getCheckpoint (log : ChatLog) (range : Option Nat) : CheckpointResponse :=
  match log.checkpoint with
  | none => ⟨404, none, []⟩
  | some bytes =>
      match range.bind parseRangeStart with
      | none => ⟨200, some log.checkpointSeq, bytes⟩
      | some start =>
          if start ≥ bytes.length then ⟨416, none, []⟩
          else ⟨206, some log.checkpointSeq, bytes.drop start⟩

/-- The two implementations: the engine's names the range failure, the client's does not. -/
inductive Fetcher
  | engine
  | client
deriving DecidableEq

inductive FetchError
  | rangeBeyondEnd
  | noCheckpoint
  | http (code : Nat)
  | exhausted
  | refused
deriving DecidableEq

def Fetcher.failure (fetcher : Fetcher) (code : Nat) : FetchError :=
  if code = 416 ∧ fetcher = .engine then .rangeBeyondEnd
  else if code = 404 then .noCheckpoint
  else .http code

def fetchAttempts : Nat := 4

/-- What `fetch` carries from attempt to attempt. -/
structure Download where
  got : Bytes := []
  seenSeq : Option Nat := none
  attempts : Nat := 0
  result : Option (Except FetchError Bytes) := none
deriving DecidableEq

/-- What becomes of one attempt. -/
inductive Fate
  /-- No permit or no bearer: `fetch` gives up. -/
  | refused
  /-- The request never got an answer. -/
  | unsent
  /-- Something before the room refused in its place. -/
  | answered (code : Nat) (failed : code ≠ 200 ∧ code ≠ 206)
  /-- The body was cut after this many bytes. -/
  | cut (bytes : Nat)
  | whole
deriving DecidableEq

namespace Download

/-- The end of an attempt that settled nothing. -/
def next (download : Download) : Download :=
  let download := { download with attempts := download.attempts + 1 }
  if download.attempts ≥ fetchAttempts then
    { download with result := some (.error .exhausted) }
  else download

def fail (download : Download) (error : FetchError) : Download :=
  { download with result := some (.error error) }

/-- The body of a stamped answer, read after the bytes held up to its end or to the cut. -/
def read (download : Download) (held body : Bytes) (cutAt : Option Nat) : Download :=
  match cutAt with
  | none => { download with got := held ++ body, result := some (.ok (held ++ body)) }
  | some count => { download with got := held ++ body.take count }.next

def receive (download : Download) (fetcher : Fetcher) (response : CheckpointResponse)
    (cutAt : Option Nat) : Download :=
  if response.seq.isSome ∧ download.seenSeq.isSome ∧ response.seq ≠ download.seenSeq then
    -- replaced mid-download: start over from byte 0
    { download with got := [], seenSeq := response.seq }.next
  else
    let download :=
      if response.seq.isSome then { download with seenSeq := response.seq } else download
    if response.status = 200 then download.read [] response.body cutAt
    else if response.status = 206 then download.read download.got response.body cutAt
    else download.fail (fetcher.failure response.status)

def range (download : Download) : Option Nat :=
  if download.got = [] then none else some download.got.length

def attempt (download : Download) (fetcher : Fetcher) (log : ChatLog) : Fate → Download
  | .refused => download.fail .refused
  | .unsent => download.next
  | .answered code _ => download.receive fetcher ⟨code, none, []⟩ none
  | .cut count => download.receive fetcher (log.getCheckpoint download.range) (some count)
  | .whole => download.receive fetcher (log.getCheckpoint download.range) none

end Download

structure Downloading where
  log : ChatLog := ensureChatLog
  /-- The blobs of the accepted commits. -/
  committed : List Bytes := []
  download : Download := {}

inductive DownloadEvent
  | append (device batchId : String) (bytes : Bytes) (receivedAt : Int)
  | commit (seqCovered : Int) (frontier bytes : Bytes) (committedAt : Int)
  | fetch
  | attempt (fetcher : Fetcher) (fate : Fate)

def ChatLog.CheckpointOutcome.accepted : ChatLog.CheckpointOutcome → Bool
  | .ok _ _ => true
  | .error _ => false

/-- An attempt is over in one step: its answer is the blob at the moment it is served, and
a commit that lands while the body streams comes after it. -/
def Downloading.step (s : Downloading) : DownloadEvent → Option Downloading
  | .append device batchId bytes receivedAt =>
      (s.log.appendRow device batchId bytes receivedAt).map fun result =>
        { s with log := result.2 }
  | .commit seqCovered frontier bytes committedAt =>
      let (outcome, log) := s.log.commitCheckpoint seqCovered frontier bytes committedAt
      some { s with
        log := log
        committed := if outcome.accepted then bytes :: s.committed else s.committed }
  | .fetch => some { s with download := {} }
  | .attempt fetcher fate =>
      if s.download.result = none then
        some { s with download := s.download.attempt fetcher s.log fate }
      else none

/-! ## What a download holds -/

namespace Download

/-- The next request gets the rest of this blob, after the bytes held. -/
def Resumes (download : Download) (blob : Bytes) : Prop :=
  download.got ≠ [] ∧ download.got.length ≤ maxSafeInteger ∧ download.got.length < blob.length

/-- The bytes held under the stamp of the room's checkpoint begin its blob, as long as there
is more of it to ask for. -/
structure Sound (log : ChatLog) (committed : List Bytes) (download : Download) : Prop where
  unseen : download.seenSeq = none → download.got = []
  seen : ∀ seq, download.seenSeq = some seq → seq ≤ log.checkpointSeq
  held : ∀ blob, download.seenSeq = some log.checkpointSeq → log.checkpoint = some blob →
    download.Resumes blob → download.got <+: blob
  done : ∀ bytes, download.result = some (.ok bytes) → bytes ∈ committed

variable {log : ChatLog} {committed : List Bytes} {download : Download}

theorem Sound.next (sound : download.Sound log committed) : download.next.Sound log committed := by
  unfold Download.next
  dsimp only
  split
  · exact ⟨sound.unseen, sound.seen, sound.held, by simp⟩
  · exact ⟨sound.unseen, sound.seen, sound.held, sound.done⟩

theorem Sound.fail (sound : download.Sound log committed) (error : FetchError) :
    (download.fail error).Sound log committed :=
  ⟨sound.unseen, sound.seen, sound.held, by simp [Download.fail]⟩

/-- An answer without a stamp ends the download. -/
theorem Sound.receive_unstamped (sound : download.Sound log committed) (fetcher : Fetcher)
    {code : Nat} (failed : code ≠ 200 ∧ code ≠ 206) (cutAt : Option Nat) :
    (download.receive fetcher ⟨code, none, []⟩ cutAt).Sound log committed := by
  unfold receive
  simp only [Option.isSome_none, Bool.false_eq_true, false_and, if_false, failed.1, failed.2]
  exact sound.fail _

theorem Sound.read {blob held body : Bytes} (sound : download.Sound log committed)
    (stored : log.checkpoint = some blob) (member : blob ∈ committed)
    (stamped : download.seenSeq = some log.checkpointSeq) (split : held ++ body = blob)
    (cutAt : Option Nat) : (download.read held body cutAt).Sound log committed := by
  have begins : ∀ count, held ++ body.take count <+: blob := by
    intro count
    refine ⟨body.drop count, ?_⟩
    rw [List.append_assoc, List.take_append_drop, split]
  unfold Download.read
  cases cutAt with
  | none =>
      refine ⟨fun none => ?_, sound.seen, ?_, ?_⟩
      · rw [stamped] at none
        cases none
      · intro other _ same _
        rw [stored] at same
        cases same
        dsimp only
        rw [split]
      · intro bytes finished
        cases finished
        rwa [split]
  | some count =>
      apply Sound.next
      refine ⟨fun none => ?_, sound.seen, ?_, sound.done⟩
      · rw [stamped] at none
        cases none
      · intro other _ same _
        rw [stored] at same
        cases same
        exact begins count

theorem getCheckpoint_cases (log : ChatLog) (download : Download) :
    (∃ code, (code ≠ 200 ∧ code ≠ 206) ∧
      log.getCheckpoint download.range = ⟨code, none, []⟩) ∨
    ∃ blob, log.checkpoint = some blob ∧
      (log.getCheckpoint download.range = ⟨200, some log.checkpointSeq, blob⟩ ∨
        (download.Resumes blob ∧
          log.getCheckpoint download.range =
            ⟨206, some log.checkpointSeq, blob.drop download.got.length⟩)) := by
  unfold ChatLog.getCheckpoint
  cases log.checkpoint with
  | none => exact .inl ⟨404, by decide, rfl⟩
  | some blob =>
      by_cases empty : download.got = []
      · exact .inr ⟨blob, rfl, .inl (by simp [range, empty])⟩
      · cases parsed : parseRangeStart download.got.length with
        | none => exact .inr ⟨blob, rfl, .inl (by simp [range, empty, parsed])⟩
        | some start =>
            obtain ⟨usable, same⟩ := Option.ite_none_right_eq_some.mp parsed
            cases same
            by_cases beyond : download.got.length ≥ blob.length
            · exact .inl ⟨416, by decide, by simp [range, empty, parsed, beyond]⟩
            · refine .inr ⟨blob, rfl, .inr ⟨⟨empty, usable.1, by omega⟩, ?_⟩⟩
              simp [range, empty, parsed, beyond]

/-- A stamped answer, whether it starts the blob or goes on from the bytes held. -/
theorem Sound.receive {blob body : Bytes} {status : Nat} (sound : download.Sound log committed)
    (stored : log.checkpoint = some blob) (member : blob ∈ committed)
    (served : (status = 200 ∧ body = blob) ∨
      (status = 206 ∧ download.Resumes blob ∧
        body = blob.drop download.got.length))
    (fetcher : Fetcher) (cutAt : Option Nat) :
    (download.receive fetcher ⟨status, some log.checkpointSeq, body⟩ cutAt).Sound
      log committed := by
  unfold Download.receive
  simp only [Option.isSome_some, true_and, if_true]
  split
  · apply Sound.next
    exact ⟨fun none => (by cases none), fun seq same => (by cases same; exact Nat.le_refl _),
      fun _ _ _ _ => List.nil_prefix, sound.done⟩
  · rename_i fresh
    have current : download.seenSeq = none ∨ download.seenSeq = some log.checkpointSeq := by
      cases seen : download.seenSeq with
      | none => exact .inl rfl
      | some seq =>
          rw [seen] at fresh
          simp only [Option.isSome_some, ne_eq, true_and, not_not] at fresh
          exact .inr fresh.symm
    have begins : ∀ other, log.checkpoint = some other → download.Resumes other →
        download.got <+: other := by
      intro other same shorter
      rcases current with none | seen
      · rw [sound.unseen none]
        exact List.nil_prefix
      · exact sound.held other seen same shorter
    have stamped : ({ download with seenSeq := some log.checkpointSeq } : Download).Sound
        log committed :=
      ⟨fun none => (by cases none), fun seq same => (by cases same; exact Nat.le_refl _),
        fun other _ same shorter => begins other same shorter, sound.done⟩
    rcases served with ⟨rfl, rfl⟩ | ⟨rfl, shorter, rfl⟩
    · simp only [if_true]
      exact stamped.read stored member rfl rfl cutAt
    · simp only [show (206 : Nat) ≠ 200 by decide, if_false, if_true]
      obtain ⟨rest, split⟩ := begins blob stored shorter
      have tail : download.got ++ blob.drop download.got.length = blob := by
        rw [← split, List.drop_left]
      exact stamped.read stored member rfl tail cutAt

theorem Sound.attempt (sound : download.Sound log committed)
    (members : ∀ blob, log.checkpoint = some blob → blob ∈ committed) (fetcher : Fetcher)
    (fate : Fate) : (download.attempt fetcher log fate).Sound log committed := by
  have answered : ∀ cutAt, (download.receive fetcher (log.getCheckpoint download.range) cutAt).Sound
      log committed := by
    intro cutAt
    rcases getCheckpoint_cases log download with
      ⟨code, failed, served⟩ | ⟨blob, stored, served | ⟨shorter, served⟩⟩
    · rw [served]
      exact sound.receive_unstamped fetcher failed cutAt
    · rw [served]
      exact sound.receive stored (members blob stored) (.inl ⟨rfl, rfl⟩) fetcher cutAt
    · rw [served]
      exact sound.receive stored (members blob stored) (.inr ⟨rfl, shorter, rfl⟩) fetcher cutAt
  cases fate with
  | refused => exact sound.fail _
  | unsent => exact sound.next
  | answered code failed => exact sound.receive_unstamped fetcher failed none
  | cut count => exact answered (some count)
  | whole => exact answered none

end Download

/-! ## Every order of commits and attempts -/

namespace Downloading

/-- A commit under the seq a download has seen, of a blob the download would resume into
although it does not begin with the bytes held. -/
def Splices (s : Downloading) (seqCovered : Int) (bytes : Bytes) : Prop :=
  s.download.seenSeq = some s.log.checkpointSeq ∧ seqCovered = s.log.checkpointSeq ∧
    s.download.Resumes bytes ∧ ¬ s.download.got <+: bytes

/-- An accepted commit does not splice the download under way. -/
def Covered (s : Downloading) : DownloadEvent → Prop
  | .commit seqCovered frontier bytes committedAt =>
      (s.log.commitCheckpoint seqCovered frontier bytes committedAt).1.accepted = true →
        ¬ s.Splices seqCovered bytes
  | _ => True

instance (s : Downloading) : DecidablePred s.Covered := fun event =>
  match event with
  | .commit _ _ _ _ => inferInstanceAs (Decidable (_ → ¬ ((_ = _) ∧ (_ = _) ∧ (_ ∧ _ ∧ _) ∧ ¬ _)))
  | .append _ _ _ _ | .fetch | .attempt _ _ => inferInstanceAs (Decidable True)

structure Whole (s : Downloading) : Prop where
  contiguous : s.log.Contiguous
  stored : ∀ blob, s.log.checkpoint = some blob → blob ∈ s.committed
  sound : s.download.Sound s.log s.committed

theorem whole_start : ({} : Downloading).Whole where
  contiguous := ChatLog.contiguous_ensureChatLog
  stored := fun blob stored => by cases stored
  sound := ⟨fun _ => rfl, fun seq seen => by simp at seen, fun _ _ _ _ => List.nil_prefix,
    fun bytes done => by simp at done⟩

variable {s : Downloading}

theorem Whole.append (whole : s.Whole) {device batchId : String} {bytes : Bytes} {receivedAt : Int}
    {after : Downloading}
    (stepped : s.step (.append device batchId bytes receivedAt) = some after) : after.Whole := by
  simp only [step] at stepped
  rcases whole.contiguous.appendRow_cases device batchId bytes receivedAt with
    ⟨_, error, result⟩ | ⟨row, _, _, result⟩ | ⟨unused, result⟩
  · rw [result] at stepped
    cases stepped
    exact whole
  · rw [result] at stepped
    cases stepped
    exact whole
  · rw [result] at stepped
    cases stepped
    exact ⟨whole.contiguous.appended unused device bytes receivedAt, whole.stored,
      whole.sound.unseen, whole.sound.seen, whole.sound.held, whole.sound.done⟩

theorem Whole.commit (whole : s.Whole) {seqCovered : Int} {frontier bytes : Bytes}
    {committedAt : Int} {after : Downloading}
    (covered : s.Covered (.commit seqCovered frontier bytes committedAt))
    (stepped : s.step (.commit seqCovered frontier bytes committedAt) = some after) :
    after.Whole := by
  simp only [step] at stepped
  rcases s.log.commitCheckpoint_cases seqCovered frontier bytes committedAt with
    ⟨error, result⟩ | ⟨seq, count, same, above, below, result⟩
  · rw [result] at stepped
    cases stepped
    exact whole
  · have kept := covered (by rw [result]; rfl)
    rw [result] at stepped
    cases stepped
    have floor := whole.contiguous.covers
    refine ⟨whole.contiguous.pruned above below frontier bytes committedAt, ?_, ?_⟩
    · intro blob stored
      cases stored
      exact List.mem_cons_self
    · constructor
      · exact whole.sound.unseen
      · intro other seen
        have before := whole.sound.seen other seen
        change other ≤ seq
        omega
      · intro blob seen stored shorter
        cases stored
        by_contra apart
        change s.download.seenSeq = some seq at seen
        have before := whole.sound.seen seq seen
        have unmoved : seq = s.log.checkpointSeq := by omega
        exact kept ⟨by rw [seen, unmoved], by rw [same, unmoved], shorter, apart⟩
      · exact fun bytes done => List.mem_cons_of_mem _ (whole.sound.done bytes done)

theorem Whole.step (whole : s.Whole) {event : DownloadEvent} {after : Downloading}
    (covered : s.Covered event) (stepped : s.step event = some after) : after.Whole := by
  cases event with
  | append device batchId bytes receivedAt => exact whole.append stepped
  | commit seqCovered frontier bytes committedAt => exact whole.commit covered stepped
  | fetch =>
      cases stepped
      exact ⟨whole.contiguous, whole.stored, fun _ => rfl, fun seq seen => by simp at seen,
        fun _ _ _ _ => List.nil_prefix, fun bytes done => by simp at done⟩
  | attempt fetcher fate =>
      simp only [Downloading.step, Option.ite_none_right_eq_some] at stepped
      cases stepped.2
      exact ⟨whole.contiguous, whole.stored, whole.sound.attempt whole.stored fetcher fate⟩

/-- The runs in which no commit splices the download under way. -/
def CoveredRuns : Downloading → Downloading → Prop :=
  Reaches Downloading.step Covered

theorem CoveredRuns.whole (runs : CoveredRuns {} s) : s.Whole :=
  runs.keeps whole_start fun _ _ _ whole covered stepped => whole.step covered stepped

/-- After a splicing commit, an attempt that is not cut returns bytes that are not the blob. -/
theorem spliced {s : Downloading} {seqCovered : Int} {frontier bytes : Bytes}
    {committedAt : Int} (waiting : s.download.result = none)
    (accepted : (s.log.commitCheckpoint seqCovered frontier bytes committedAt).1.accepted = true)
    (splices : s.Splices seqCovered bytes) (fetcher : Fetcher) :
    ∃ replaced finish : Downloading, ∃ got,
      s.step (.commit seqCovered frontier bytes committedAt) = some replaced ∧
      replaced.step (.attempt fetcher .whole) = some finish ∧
      finish.download.result = some (.ok got) ∧ replaced.log.checkpoint = some bytes ∧
      got ≠ bytes := by
  obtain ⟨seen, covers, resumes, apart⟩ := splices
  rcases s.log.commitCheckpoint_cases seqCovered frontier bytes committedAt with
    ⟨error, result⟩ | ⟨seq, count, same, above, below, result⟩
  · rw [result] at accepted
    cases accepted
  · have unmoved : seq = s.log.checkpointSeq := by omega
    let replaced : Downloading := { s with
      log := s.log.pruned seq frontier bytes committedAt
      committed := bytes :: s.committed }
    let tail := bytes.drop s.download.got.length
    refine ⟨replaced, { replaced with download := { s.download with
        got := s.download.got ++ tail, result := some (.ok (s.download.got ++ tail)) } },
      s.download.got ++ tail, ?_, ?_, rfl, rfl, ?_⟩
    · simp only [step, result]
      rfl
    · have served : replaced.log.getCheckpoint s.download.range =
          ⟨206, some s.log.checkpointSeq, tail⟩ := by
        have short : ¬ s.download.got.length ≥ bytes.length := Nat.not_le.mpr resumes.2.2
        have parsed : parseRangeStart s.download.got.length = some s.download.got.length :=
          if_pos ⟨resumes.2.1, List.length_pos_iff.mpr resumes.1⟩
        simp only [ChatLog.getCheckpoint, replaced, ChatLog.pruned, Download.range,
          if_neg resumes.1, Option.bind_some, parsed, if_neg short, ChatLog.checkpointSeq,
          Option.getD_some, unmoved]
        rfl
      have attempted : s.download.attempt fetcher replaced.log .whole = { s.download with
          got := s.download.got ++ tail, result := some (.ok (s.download.got ++ tail)) } := by
        simp [Download.attempt, served, Download.receive, Download.read, seen]
      have unsettled : replaced.download.result = none := waiting
      simp only [step, if_pos unsettled]
      exact congrArg some (congrArg (fun download => { replaced with download }) attempted)
    · intro equal
      exact apart ⟨tail, equal⟩

end Downloading

/-- A download returns the blob of one accepted commit in every run where no commit under
the seq being downloaded brings a blob that the bytes held do not begin; and after a commit
that does, an uncut attempt returns bytes that are not the stored blob. -/
theorem checkpoint_download_whole (s : Downloading) (runs : Downloading.CoveredRuns {} s) :
    (∀ bytes, s.download.result = some (.ok bytes) → bytes ∈ s.committed) ∧
    ∀ seqCovered frontier bytes committedAt fetcher, s.download.result = none →
      ¬ s.Covered (.commit seqCovered frontier bytes committedAt) →
      ∃ replaced finish : Downloading, ∃ got,
        s.step (.commit seqCovered frontier bytes committedAt) = some replaced ∧
        replaced.step (.attempt fetcher .whole) = some finish ∧
        finish.download.result = some (.ok got) ∧ replaced.log.checkpoint = some bytes ∧
        got ≠ bytes := by
  refine ⟨runs.whole.sound.done, ?_⟩
  intro seqCovered frontier bytes committedAt fetcher waiting uncovered
  simp only [Downloading.Covered, not_forall, not_not] at uncovered
  obtain ⟨accepted, splices⟩ := uncovered
  exact Downloading.spliced waiting accepted splices fetcher

/-- A new checkpoint commits between two attempts; its seq restarts the download. -/
theorem checkpoint_download_whole_restarted :
    ∃ s : Downloading, s.download.result = some (.ok [7, 8, 9]) ∧ [7, 8, 9] ∈ s.committed := by
  have ran := reaches_of_runAll (show runAll Downloading.step (fun s event => decide (s.Covered event)) {}
    [.commit 0 [] [1, 2, 3] 0, .append "device" "batch" [0] 0, .fetch,
      .attempt .engine (.cut 1), .commit 1 [] [7, 8, 9] 0, .attempt .engine .whole,
      .attempt .engine .whole] = some _ from rfl)
  have covered := ran.mono fun _ _ permitted => of_decide_eq_true permitted
  exact ⟨_, rfl, (checkpoint_download_whole _ covered).1 _ rfl⟩

/-- Two checkpoints of the same seq, the second committed between two attempts: the download
returns one byte of the first blob and two of the second. -/
theorem checkpoint_download_spliced :
    ∃ finish : Downloading,
      List.foldlM Downloading.step {}
        [.commit 0 [] [1, 2, 3] 0, .fetch, .attempt .engine (.cut 1), .commit 0 [] [7, 8, 9] 0,
          .attempt .engine .whole] = some finish ∧
      finish.download.result = some (.ok [1, 8, 9]) ∧ [1, 8, 9] ∉ finish.committed :=
  ⟨_, rfl, rfl, by decide⟩

end Zeron.Chat
