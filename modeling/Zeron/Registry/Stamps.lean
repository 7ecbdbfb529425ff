import Zeron.Registry.Deletes
import Zeron.Registry.Sidebar

namespace Zeron.Registry

open Zeron.Data

/-! # Stamping after observing

Clock texts of the format's widths stand in the order of the positions they print.
A source that has observed a clock therefore issues newer ones from then on, as long
as its milliseconds fit their thirteen digits.
-/

/-! ## Digits -/

theorem digit_bounds {c : Char} (numeric : c.isDigit = true) : 48 ≤ c.toNat ∧ c.toNat ≤ 57 := by
  exact Char.isDigit_iff_toNat.mp numeric

theorem ofDigitChars_head (c : Char) (rest : List Char) :
    Nat.ofDigitChars 10 (c :: rest) 0 =
      10 ^ rest.length * (c.toNat - 48) + Nat.ofDigitChars 10 rest 0 := by
  rw [Nat.ofDigitChars_cons, Nat.ofDigitChars_eq_ofDigitChars_zero, Nat.mul_zero, Nat.zero_add]
  rfl

theorem ofDigitChars_lt {digits : List Char} (numeric : ∀ c ∈ digits, c.isDigit = true) :
    Nat.ofDigitChars 10 digits 0 < 10 ^ digits.length := by
  induction digits with
  | nil => simp
  | cons c rest ih =>
      have tail := ih fun d member => numeric d (List.mem_cons_of_mem _ member)
      have digit := digit_bounds (numeric c List.mem_cons_self)
      have head : 10 ^ rest.length * (c.toNat - 48) ≤ 10 ^ rest.length * 9 :=
        Nat.mul_le_mul_left _ (by omega)
      rw [ofDigitChars_head, List.length_cons, Nat.pow_succ]
      omega

/-- Digits of one width compare as their values, whatever follows them. -/
theorem digits_append_lt {left right leftRest rightRest : List Char}
    (leftNumeric : ∀ c ∈ left, c.isDigit = true) (rightNumeric : ∀ c ∈ right, c.isDigit = true)
    (width : left.length = right.length)
    (below : Nat.ofDigitChars 10 left 0 < Nat.ofDigitChars 10 right 0) :
    left ++ leftRest < right ++ rightRest := by
  induction left generalizing right with
  | nil =>
      cases right with
      | nil => exact absurd below (lt_irrefl _)
      | cons d others => cases width
  | cons c rest ih =>
      cases right with
      | nil => cases width
      | cons d others =>
          simp only [List.mem_cons, forall_eq_or_imp] at leftNumeric rightNumeric
          simp only [List.length_cons, Nat.succ.injEq] at width
          have rightTail := ofDigitChars_lt rightNumeric.2
          have leftHead := digit_bounds leftNumeric.1
          have rightHead := digit_bounds rightNumeric.1
          rw [ofDigitChars_head, ofDigitChars_head, width] at below
          rw [List.cons_append, List.cons_append, List.cons_lt_cons_iff]
          rcases lt_trichotomy c.toNat d.toNat with first | same | first
          · exact .inl first
          · have equal : c = d := Char.toNat_inj.mp same
            subst equal
            exact .inr ⟨rfl, ih leftNumeric.2 rightNumeric.2 width (by omega)⟩
          · exfalso
            have heads : 10 ^ others.length * (d.toNat - 48 + 1) ≤
                10 ^ others.length * (c.toNat - 48) := Nat.mul_le_mul_left _ (by omega)
            rw [Nat.mul_succ] at heads
            omega

theorem length_paddedNat {width value : Nat} (positive : 0 < width) (fits : value < 10 ^ width) :
    (paddedNat width value).length = width := by
  rw [paddedNat, List.length_leftpad]
  exact max_eq_left ((Nat.length_toDigits_le_iff (by omega) positive).mpr fits)

theorem paddedNat_append_lt {width left right : Nat} {leftRest rightRest : List Char}
    (positive : 0 < width) (fits : right < 10 ^ width) (below : left < right) :
    paddedNat width left ++ leftRest < paddedNat width right ++ rightRest := by
  apply digits_append_lt
  · exact fun c member => isDigit_of_mem_paddedNat member
  · exact fun c member => isDigit_of_mem_paddedNat member
  · rw [length_paddedNat positive (by omega), length_paddedNat positive fits]
  · rw [ofDigitChars_paddedNat, ofDigitChars_paddedNat]
    exact below

/-! ## Positions -/

def HlcClock.msLimit : Int := 10 ^ 13
def HlcClock.counterLimit : Nat := 10 ^ 6

theorem encodeHlc_lt {leftMs rightMs : Int} {leftCounter rightCounter : Nat}
    {leftDevice rightDevice : String} (start : 0 ≤ leftMs) (msFits : rightMs < HlcClock.msLimit)
    (counterFits : rightCounter < HlcClock.counterLimit)
    (before : leftMs < rightMs ∨ leftMs = rightMs ∧ leftCounter < rightCounter) :
    encodeHlc leftMs leftCounter leftDevice < encodeHlc rightMs rightCounter rightDevice := by
  obtain ⟨left, rfl⟩ := Int.eq_ofNat_of_zero_le start
  obtain ⟨right, rfl⟩ := Int.eq_ofNat_of_zero_le (show 0 ≤ rightMs by omega)
  simp only [HlcClock.msLimit, HlcClock.counterLimit] at msFits counterFits
  rw [String.lt_iff, encodeHlc, encodeHlc, String.toList_ofList, String.toList_ofList]
  rcases before with ms | ⟨ms, counter⟩
  · exact paddedNat_append_lt (by decide) (by omega) (by omega)
  · rw [ms]
    apply List.append_left_lt
    exact List.cons_lt_cons_iff.mpr (.inr ⟨rfl, paddedNat_append_lt (by decide) counterFits counter⟩)

theorem parseUnsigned_paddedNat {width value limit : Nat} (fits : value ≤ limit) :
    parseUnsigned limit (paddedNat width value) = some value := by
  have numeric : (paddedNat width value).all Char.isDigit = true :=
    List.all_eq_true.mpr fun c member => isDigit_of_mem_paddedNat member
  have unsigned : (paddedNat width value).head? ≠ some '+' := by
    intro plus
    exact absurd (isDigit_of_mem_paddedNat (List.mem_of_mem_head? plus)) (by decide)
  have filled : paddedNat width value ≠ [] := fun empty =>
    Nat.toDigits_ne_nil (List.append_eq_nil_iff.mp empty).2
  simp only [parseUnsigned, unsigned, if_false, numeric, ofDigitChars_paddedNat]
  exact if_pos ⟨filled, trivial, fits⟩

theorem takeWhile_paddedNat (width value : Nat) (rest : List Char) :
    (paddedNat width value ++ '-' :: rest).takeWhile (· ≠ '-') = paddedNat width value ∧
      (paddedNat width value ++ '-' :: rest).dropWhile (· ≠ '-') = '-' :: rest := by
  have numeric : ∀ c ∈ paddedNat width value, decide (c ≠ '-') = true := by
    intro c member
    apply decide_eq_true
    rintro rfl
    exact dash_not_mem_paddedNat _ _ member
  rw [List.takeWhile_append_of_pos numeric, List.dropWhile_append_of_pos numeric]
  simp

theorem clockPosition_encodeHlc {ms : Int} {counter : Nat} (device : String) (start : 0 ≤ ms)
    (msFits : ms < HlcClock.msLimit) (counterFits : counter < HlcClock.counterLimit) :
    clockPosition (encodeHlc ms counter device) = some (ms.toNat, counter) := by
  obtain ⟨value, rfl⟩ := Int.eq_ofNat_of_zero_le start
  simp only [HlcClock.msLimit, HlcClock.counterLimit] at msFits counterFits
  have first := takeWhile_paddedNat 13 value (paddedNat 6 counter ++ '-' :: device.toList)
  have second := takeWhile_paddedNat 6 counter device.toList
  simp only [clockPosition, encodeHlc, String.toList_ofList]
  rw [show paddedInt 13 (value : Int) = paddedNat 13 value from rfl, first.1, first.2]
  simp only
  rw [second.1, parseUnsigned_paddedNat (by omega), parseUnsigned_paddedNat (by omega)]
  rfl

namespace HlcClock

/-- No earlier than another position of the source. -/
def Since (after before : HlcClock) : Prop := after.Reached before.lastMs before.counter

theorem Reached.trans {before after : HlcClock} {ms : Int} {counter : Nat}
    (reached : before.Reached ms counter) (since : after.Since before) :
    after.Reached ms counter := by
  unfold Since Reached at *
  omega

theorem since_refl (clock : HlcClock) : clock.Since clock := .inr ⟨rfl, Nat.le_refl _⟩

theorem Since.trans {a b c : HlcClock} (later : c.Since b) (first : b.Since a) : c.Since a :=
  Reached.trans first later

theorem observe_since (clock : HlcClock) (hlc : Hlc) : (clock.observe hlc).Since clock := by
  unfold observe
  split
  · exact clock.since_refl
  · split
    · simp only [Since, Reached]
      omega
    · exact clock.since_refl

/-- An observed clock is behind the source. -/
theorem observe_reached (clock : HlcClock) {ms : Int} {counter : Nat} (device : String)
    (start : 0 ≤ ms) (msFits : ms < msLimit) (counterFits : counter < counterLimit) :
    (clock.observe (encodeHlc ms counter device)).Reached ms counter := by
  rw [observe, clockPosition_encodeHlc device start msFits counterFits]
  simp only [Reached]
  split
  · simp only
    omega
  · omega

theorem advance_since (clock : HlcClock) (nowMs : Int) : (clock.advance nowMs).Since clock := by
  unfold Since Reached advance
  split
  · exact .inl (by simp only; omega)
  · split
    · exact .inl (by simp only; omega)
    · exact .inr ⟨rfl, Nat.le_succ _⟩

theorem advance_counter_lt (clock : HlcClock) (nowMs : Int) :
    (clock.advance nowMs).counter < counterLimit := by
  unfold advance counterLimit
  split
  · exact Nat.pos_of_ne_zero (by decide)
  · split
    · exact Nat.pos_of_ne_zero (by decide)
    · simp only
      omega

/-- What the source issues is newer than every clock behind it. -/
theorem next_newer {clock : HlcClock} {ms : Int} {counter : Nat} {nowMs : Int}
    (reached : clock.Reached ms counter) (start : 0 ≤ ms)
    (msFits : (clock.advance nowMs).lastMs < msLimit) (device name : String) :
    encodeHlc ms counter device < (clock.next nowMs name).1 := by
  apply encodeHlc_lt start msFits (clock.advance_counter_lt nowMs)
  have moved := reached.trans (clock.advance_since nowMs)
  have fresh := clock.not_reached_advance nowMs
  unfold Reached at reached moved fresh
  by_contra behind
  apply fresh
  omega

/-- A run of at most so many issues whose readings are no later than `latest`. -/
structure Runs (latest : Int) (issues : Nat) (before after : HlcClock) : Prop where
  since : after.Since before
  bounded : after.lastMs ≤ max latest before.lastMs + issues

theorem Runs.refl (latest : Int) (clock : HlcClock) : Runs latest 0 clock clock :=
  ⟨clock.since_refl, by omega⟩

theorem Runs.trans {latest : Int} {first second : Nat} {a b c : HlcClock}
    (start : Runs latest first a b) (rest : Runs latest second b c) :
    Runs latest (first + second) a c := by
  refine ⟨rest.since.trans start.since, ?_⟩
  have one := start.bounded
  have two := rest.bounded
  omega

theorem Runs.mono {latest : Int} {few many : Nat} {before after : HlcClock}
    (runs : Runs latest few before after) (most : few ≤ many) : Runs latest many before after :=
  ⟨runs.since, by have bounded := runs.bounded; omega⟩

theorem advance_runs {latest nowMs : Int} (clock : HlcClock) (reading : nowMs ≤ latest) :
    Runs latest 1 clock (clock.advance nowMs) := by
  refine ⟨clock.advance_since nowMs, ?_⟩
  unfold advance
  split
  · simp only
    omega
  · split
    · simp only
      omega
    · simp only
      omega

end HlcClock

/-! ## What an enqueued op does to a replica -/

namespace RegistryDoc

/-- A row with its queued ops, tombstones included. -/
def held (doc : RegistryDoc) (key : RowKey) : Option RegistryRow :=
  replay (doc.authoritative.get? key) (rowOps key doc.pendingOps)

theorem overlayRow_eq_shown (doc : RegistryDoc) (kind id : String) :
    doc.overlayRow kind id = shown (doc.held ⟨kind, id⟩) := overlayRow_eq doc kind id

/-- Whatever the mode, enqueued ops replay behind everything the row holds. -/
theorem held_enqueueOps {doc : RegistryDoc} (settled : doc.Settled) (now : Nat → Int)
    (ops : List RowOp) (key : RowKey) :
    (doc.enqueueOps now ops).held key = replay (doc.held key) (rowOps key ops) := by
  by_cases mode : doc.localOnly = true
  · have empty : doc.pendingOps = [] := by simp [pendingOps, settled mode]
    unfold enqueueOps
    by_cases none_ : ops.isEmpty
    · have nil : ops = [] := List.isEmpty_iff.mp none_
      simp [nil, rowOps]
    · rw [if_neg none_, if_pos mode, held, pendingOps, foldl_foldOp_pending, get?_foldl_foldOp, held]
      simp only [settled mode, empty, List.flatMap_nil, rowOps, List.filter_nil, replay_nil]
  · have online : doc.localOnly = false := Bool.eq_false_iff.mpr mode
    rw [held, held, (enqueueOps_sameTable online now ops).authoritative, enqueueOps_replay online]

theorem foldl_foldOp_clock (ops : List RowOp) (doc : RegistryDoc) :
    (ops.foldl foldOp doc).clock = doc.clock := by
  induction ops generalizing doc with
  | nil => rfl
  | cons op rest ih =>
      rw [List.foldl_cons, ih]
      unfold foldOp
      split <;> rfl

/-- What a call may do to the clock and the queue. -/
structure Spends (latest : Int) (issues batches : Nat) (doc after : RegistryDoc) : Prop where
  clock : HlcClock.Runs latest issues doc.clock after.clock
  pending : after.pending.length ≤ doc.pending.length + batches

theorem Spends.trans {latest : Int} {issues batches moreIssues moreBatches : Nat}
    {a b c : RegistryDoc} (first : Spends latest issues batches a b)
    (second : Spends latest moreIssues moreBatches b c) :
    Spends latest (issues + moreIssues) (batches + moreBatches) a c := by
  refine ⟨first.clock.trans second.clock, ?_⟩
  have one := first.pending
  have two := second.pending
  omega

theorem nextHlc_spends {latest nowMs : Int} (doc : RegistryDoc) (reading : nowMs ≤ latest) :
    Spends latest 1 0 doc (doc.nextHlc nowMs).2 :=
  ⟨doc.clock.advance_runs reading, Nat.le_refl _⟩

theorem restore_spends {latest : Int} {state : RegistryDoc × (Nat → Int)}
    (readings : ∀ index, state.2 index ≤ latest) (batch : TailBatch) :
    Spends latest 1 1 state.1 (restore state batch).1 ∧
      ∀ index, (restore state batch).2 index ≤ latest := by
  unfold restore
  dsimp only
  split
  · exact ⟨⟨(HlcClock.Runs.refl latest _).mono (Nat.zero_le _), Nat.le_succ _⟩, readings⟩
  · split
    · refine ⟨⟨state.1.clock.advance_runs (readings 0), ?_⟩, fun index => readings _⟩
      simp [nextHlc]
    · refine ⟨⟨(HlcClock.Runs.refl latest _).mono (Nat.zero_le _), ?_⟩, readings⟩
      simp

theorem pushBatch_spends {latest : Int} {state : RegistryDoc × (Nat → Int)}
    (readings : ∀ index, state.2 index ≤ latest) (ops : List RowOp) :
    Spends latest 1 1 state.1 (pushBatch state ops).1 ∧
      ∀ index, (pushBatch state ops).2 index ≤ latest := by
  refine ⟨⟨state.1.clock.advance_runs (readings 0), ?_⟩, fun index => readings _⟩
  simp [pushBatch, nextHlc]

theorem foldl_spends {α : Type} {latest : Int}
    {step : RegistryDoc × (Nat → Int) → α → RegistryDoc × (Nat → Int)}
    (one : ∀ state item, (∀ index, state.2 index ≤ latest) →
      Spends latest 1 1 state.1 (step state item).1 ∧ ∀ index, (step state item).2 index ≤ latest)
    (items : List α) (state : RegistryDoc × (Nat → Int))
    (readings : ∀ index, state.2 index ≤ latest) :
    Spends latest items.length items.length state.1 (items.foldl step state).1 ∧
      ∀ index, (items.foldl step state).2 index ≤ latest := by
  induction items generalizing state with
  | nil => exact ⟨⟨.refl latest _, Nat.le_refl _⟩, readings⟩
  | cons item rest ih =>
      obtain ⟨first, still⟩ := one state item readings
      obtain ⟨others, after⟩ := ih (step state item) still
      refine ⟨?_, after⟩
      have both := first.trans others
      rwa [Nat.add_comm] at both

theorem coalesceUnsent_spends {latest : Int} (doc : RegistryDoc) {now : Nat → Int}
    (readings : ∀ index, now index ≤ latest) :
    Spends latest doc.pending.length 0 doc (doc.coalesceUnsent now).2 := by
  have still : ∀ after : RegistryDoc, after.clock = doc.clock →
      after.pending.length ≤ doc.pending.length → Spends latest doc.pending.length 0 doc after := by
    intro after clock pending
    exact ⟨clock ▸ (HlcClock.Runs.refl latest _).mono (Nat.zero_le _), pending⟩
  have start := unsentStart_le doc.pending
  have kept := (Compaction.run_invariant
    ((doc.pending.drop (unsentStart doc.pending)).map TailBatch.ofPending)).kept.length_eq
  simp only [List.length_map, List.length_drop] at kept
  unfold coalesceUnsent
  dsimp only
  split
  · exact still _ rfl (Nat.le_refl _)
  · split
    · refine still _ rfl ?_
      simp only [List.length_append, List.length_take, List.length_map]
      omega
    · let front : RegistryDoc := { doc with pending := doc.pending.take (unsentStart doc.pending) }
      have spent := (foldl_spends (fun _ batch readings => restore_spends readings batch)
        (Compaction.run ((doc.pending.drop (unsentStart doc.pending)).map TailBatch.ofPending)).tail
        (front, now) readings).1
      have pending := spent.pending
      simp only [front, List.length_take] at pending
      exact ⟨spent.clock.mono (by omega), by simp only; omega⟩

theorem enqueueOps_spends {latest : Int} (doc : RegistryDoc) {now : Nat → Int}
    (readings : ∀ index, now index ≤ latest) (op : RowOp) :
    Spends latest (doc.pending.length + 2) 1 doc (doc.enqueueOps now [op]) := by
  unfold enqueueOps
  rw [if_neg (by simp)]
  split
  · refine ⟨?_, ?_⟩
    · rw [foldl_foldOp_clock]
      exact (HlcClock.Runs.refl latest _).mono (Nat.zero_le _)
    · rw [foldl_foldOp_pending]
      exact Nat.le_succ _
  · let counted : RegistryDoc := { doc with generation := doc.generation + 1 }
    obtain ⟨pushed, still⟩ := foldl_spends (fun _ ops readings => pushBatch_spends readings ops)
      (chunkOps 1 [op]) (counted, now) readings
    have merged := coalesceUnsent_spends ((chunkOps 1 [op]).foldl pushBatch (counted, now)).1 still
    have both := pushed.trans merged
    have queued := pushed.pending
    have one : (chunkOps 1 [op]).length = 1 := rfl
    have before : (counted, now).1.pending.length = doc.pending.length := rfl
    rw [one] at queued both
    exact ⟨both.clock.mono (by omega), both.pending⟩

theorem write_spends {latest : Int} (doc : RegistryDoc) {now : Nat → Int}
    (readings : ∀ index, now index ≤ latest) (kind id : String) (op : OpKind)
    (set : BTreeMap Json) :
    Spends latest (doc.pending.length + 3) 1 doc (doc.write now kind id op set) := by
  have both := (doc.nextHlc_spends (readings 0)).trans
    (@enqueueOps_spends latest (doc.nextHlc (now 0)).2 (fun index => now (index + 1))
      (fun index => readings _)
      { kind, id, op, set := some set, hlc := (doc.nextHlc (now 0)).1, clocks := none })
  rw [Nat.zero_add] at both
  exact ⟨both.clock.mono (by simp only [nextHlc]; omega), both.pending⟩

end RegistryDoc

end Zeron.Registry
