import Zeron.Data.ByteOrder
import Zeron.Data.Runs
import Zeron.Edge.ClockOrder
import Zeron.Registry.Stamps

namespace Zeron.Edge

open Zeron.Data Zeron.Registry

/-! # The clock of a device

A device issues clocks from one source, moves it past the rows it observes, and keeps it
over restarts.  Whatever the wall clock reads, what it issues is above every clock it has
issued or observed before.
-/

/-! ## The source on disk -/

def clockToJson (clock : HlcClock) : Json :=
  .object [("last_ms", .number clock.lastMs), ("counter", .number clock.counter)]

/-- `last_ms` reads as an `i64` and `counter` as a `u32`. -/
def clockOfJson : Json → Option HlcClock
  | .object entries => do
      let lastMs ← Json.num (entries.lookup "last_ms")
      let counter ← Json.num (entries.lookup "counter")
      if -2 ^ 63 ≤ lastMs ∧ lastMs < 2 ^ 63 ∧ 0 ≤ counter ∧ counter < 2 ^ 32 then
        some ⟨lastMs, counter.toNat⟩
      else none
  | _ => none

/-- The positions that print in the widths of the format. -/
structure Printable (clock : HlcClock) : Prop where
  start : 0 ≤ clock.lastMs
  ms : clock.lastMs < HlcClock.msLimit
  counter : clock.counter < HlcClock.counterLimit

theorem clockOfJson_clockToJson {clock : HlcClock} (printable : Printable clock) :
    clockOfJson (clockToJson clock) = some clock := by
  have start := printable.start
  have ms := printable.ms
  have counter := printable.counter
  unfold HlcClock.msLimit at ms
  unfold HlcClock.counterLimit at counter
  simp [clockToJson, clockOfJson, Json.num, List.lookup]
  omega

/-! ## Runs of the source -/

/-- A clock the device has issued or observed. -/
structure Sighting where
  hlc : Hlc
  issued : Bool
deriving DecidableEq

structure DeviceClock where
  clock : HlcClock
  /-- Every clock issued or observed so far, the latest first. -/
  trace : List Sighting
deriving DecidableEq

inductive ClockAction where
  /-- `HlcClock::next` under whatever name the device then has. -/
  | next (nowMs : Int) (device : String)
  /-- `observe_sidebar_row` of a row of the overlay. -/
  | observe (row : RegistryRow)
  /-- The source is written out and read back. -/
  | restart

namespace DeviceClock

def new : DeviceClock := { clock := .default, trace := [] }

def observeRow (clock : HlcClock) (row : RegistryRow) : HlcClock :=
  match row.maxClock with
  | none => clock
  | some hlc => clock.observe hlc

def sightings (row : RegistryRow) : List Sighting := (stamps row).map fun hlc => ⟨hlc, false⟩

def step (state : DeviceClock) : ClockAction → Option DeviceClock
  | .next nowMs device =>
      let issued := state.clock.next nowMs device
      some { clock := issued.2, trace := ⟨issued.1, true⟩ :: state.trace }
  | .observe row =>
      some { clock := observeRow state.clock row, trace := sightings row ++ state.trace }
  | .restart => (clockOfJson (clockToJson state.clock)).map fun clock => { state with clock }

/-- The milliseconds stay below thirteen digits, and a row's clocks have passed the room's
check or are the device's own. -/
def Allowed (state : DeviceClock) : ClockAction → Prop
  | .next nowMs _ => (state.clock.advance nowMs).lastMs < HlcClock.msLimit
  | .observe row => ∀ hlc ∈ stamps row, hlcRe hlc = true ∨ ⟨hlc, true⟩ ∈ state.trace
  | .restart => True

end DeviceClock

/-- The source of a replica observes and issues as the device's does. -/
theorem observeSidebarRow_clock (doc : RegistryDoc) (kind id : String) :
    (doc.observeSidebarRow kind id).clock =
      match doc.overlayRow kind id with
      | none => doc.clock
      | some row => DeviceClock.observeRow doc.clock row := by
  unfold RegistryDoc.observeSidebarRow DeviceClock.observeRow
  cases doc.overlayRow kind id with
  | none => rfl
  | some row =>
      dsimp only [Option.bind_some]
      cases row.maxClock <;> rfl

theorem nextHlc_clock (doc : RegistryDoc) (nowMs : Int) :
    (doc.nextHlc nowMs).1 = (doc.clock.next nowMs doc.deviceId).1 ∧
      (doc.nextHlc nowMs).2.clock = (doc.clock.next nowMs doc.deviceId).2 := ⟨rfl, rfl⟩

/-! ## Clocks of the room's form -/

/-- Digits of one width are what their value prints. -/
theorem digits_inj {left right : List Char} (leftNumeric : ∀ c ∈ left, c.isDigit = true)
    (rightNumeric : ∀ c ∈ right, c.isDigit = true) (width : left.length = right.length)
    (same : Nat.ofDigitChars 10 left 0 = Nat.ofDigitChars 10 right 0) : left = right := by
  induction left generalizing right with
  | nil => exact (List.length_eq_zero_iff.mp width.symm).symm
  | cons c lefts ih =>
      cases right with
      | nil => cases width
      | cons d rights =>
          simp only [List.mem_cons, forall_eq_or_imp] at leftNumeric rightNumeric
          simp only [List.length_cons, Nat.succ.injEq] at width
          have leftTail := ofDigitChars_lt leftNumeric.2
          have rightTail := ofDigitChars_lt rightNumeric.2
          have leftHead := digit_bounds leftNumeric.1
          have rightHead := digit_bounds rightNumeric.1
          rw [ofDigitChars_head, ofDigitChars_head, width] at same
          rw [width] at leftTail
          have power : 0 < 10 ^ rights.length := by positivity
          have heads : c.toNat - 48 = d.toNat - 48 := by
            have left := congrArg (· / 10 ^ rights.length) same
            simpa [Nat.mul_add_div power, Nat.div_eq_of_lt leftTail, Nat.div_eq_of_lt rightTail]
              using left
          have equal : c = d := Char.toNat_inj.mp (by omega)
          subst equal
          rw [ih leftNumeric.2 rightNumeric.2 width (by omega)]

theorem paddedNat_ofDigitChars {digits : List Char} (numeric : ∀ c ∈ digits, c.isDigit = true)
    (filled : digits ≠ []) : paddedNat digits.length (Nat.ofDigitChars 10 digits 0) = digits := by
  apply digits_inj (fun c member => isDigit_of_mem_paddedNat member) numeric
  · exact length_paddedNat (List.length_pos_iff.mpr filled) (ofDigitChars_lt numeric)
  · exact ofDigitChars_paddedNat _ _

theorem drop_of_getElem? {text : List Char} {index : Nat} {c : Char} (here : text[index]? = some c) :
    text.drop index = c :: text.drop (index + 1) := by
  obtain ⟨inside, rfl⟩ := List.getElem?_eq_some_iff.mp here
  exact List.drop_eq_getElem_cons inside

/-- A clock that the room accepts prints a position. -/
theorem encodeHlc_of_hlcRe {hlc : Hlc} (accepted : hlcRe hlc = true) :
    ∃ clock device, Printable clock ∧ hlc = encodeHlc clock.lastMs clock.counter device := by
  simp only [hlcRe, Bool.and_eq_true, decide_eq_true_eq, List.all_eq_true] at accepted
  obtain ⟨⟨⟨⟨⟨⟨⟨msLength, ms⟩, first⟩, counterLength, counter⟩, second⟩, _⟩, _⟩, device⟩ := accepted
  let text := hlc.toList
  have msText := paddedNat_ofDigitChars ms (by rw [← List.length_pos_iff, msLength]; decide)
  have counterText := paddedNat_ofDigitChars counter
    (by rw [← List.length_pos_iff, counterLength]; decide)
  have msFits := ofDigitChars_lt ms
  have counterFits := ofDigitChars_lt counter
  rw [msLength] at msText msFits
  rw [counterLength] at counterText counterFits
  refine ⟨⟨Nat.ofDigitChars 10 (text.take 13) 0, Nat.ofDigitChars 10 ((text.drop 14).take 6) 0⟩,
    String.ofList (text.drop 21), ⟨Int.natCast_nonneg _, ?_, counterFits⟩, ?_⟩
  · change ((Nat.ofDigitChars 10 (text.take 13) 0 : Nat) : Int) < 10 ^ 13
    exact_mod_cast msFits
  · apply String.toList_injective
    rw [encodeHlc, String.toList_ofList, String.toList_ofList]
    change _ = paddedNat 13 _ ++ _
    rw [msText, counterText, ← drop_of_getElem? second]
    have middle : (text.drop 14).take 6 ++ text.drop 20 = text.drop 14 := by
      have pieces := List.take_append_drop 6 (text.drop 14)
      rwa [List.drop_drop] at pieces
    rw [middle, ← drop_of_getElem? first, List.take_append_drop]

/-! ## Byte order -/

/-- Clocks of the format's widths stand in the order of their three parts. -/
theorem utf8_encodeHlc_lt_iff {left right : HlcClock} (leftFits : Printable left)
    (rightFits : Printable right) (leftDevice rightDevice : String) :
    utf8 (encodeHlc left.lastMs left.counter leftDevice) <
        utf8 (encodeHlc right.lastMs right.counter rightDevice) ↔
      left.lastMs < right.lastMs ∨ left.lastMs = right.lastMs ∧
        (left.counter < right.counter ∨ left.counter = right.counter ∧
          utf8 leftDevice < utf8 rightDevice) := by
  rw [utf8_lt_iff, utf8_lt_iff]
  by_cases same : left.lastMs = right.lastMs ∧ left.counter = right.counter
  · -- One position: the clocks share all but the device.
    rw [same.1, same.2, encodeHlc, encodeHlc, String.lt_iff, String.toList_ofList, String.toList_ofList]
    have shared : ∀ device : String,
        paddedInt 13 right.lastMs ++ '-' :: (paddedNat 6 right.counter ++ '-' :: device.toList) =
          (paddedInt 13 right.lastMs ++ '-' :: (paddedNat 6 right.counter ++ ['-'])) ++
            device.toList := by simp
    rw [shared, shared, append_lt_append_iff, ← String.lt_iff]
    simp
  · constructor
    · intro below
      by_contra behind
      have after : right.lastMs < left.lastMs ∨
          right.lastMs = left.lastMs ∧ right.counter < left.counter := by omega
      exact lt_asymm below (encodeHlc_lt rightFits.start leftFits.ms leftFits.counter after)
    · intro before
      exact encodeHlc_lt leftFits.start rightFits.ms rightFits.counter (by omega)

/-! ## What a run keeps -/

namespace DeviceClock

/-- The source fits the format and has passed everything in the trace, and every clock
issued is above those before it. -/
structure Rising (state : DeviceClock) : Prop where
  printable : Printable state.clock
  reached : ∀ sighting ∈ state.trace, ∃ clock device, Printable clock ∧
    sighting.hlc = encodeHlc clock.lastMs clock.counter device ∧
    state.clock.Reached clock.lastMs clock.counter
  rises : state.trace.Pairwise fun later earlier =>
    later.issued = true → utf8 earlier.hlc < utf8 later.hlc

theorem rising_new : Rising new := by
  refine ⟨⟨?_, ?_, ?_⟩, ?_, .nil⟩
  · exact Int.le_refl 0
  · decide
  · decide
  · simp [new]

theorem Rising.next {state : DeviceClock} (rising : Rising state) {nowMs : Int} (device : String)
    (fits : (state.clock.advance nowMs).lastMs < HlcClock.msLimit) :
    Rising { clock := (state.clock.next nowMs device).2
             trace := ⟨(state.clock.next nowMs device).1, true⟩ :: state.trace } := by
  have since := state.clock.advance_since nowMs
  have counter := state.clock.advance_counter_lt nowMs
  have start : 0 ≤ (state.clock.advance nowMs).lastMs := by
    have before := rising.printable.start
    unfold HlcClock.Since HlcClock.Reached at since
    omega
  have printable : Printable (state.clock.advance nowMs) := ⟨start, fits, counter⟩
  constructor
  · exact printable
  · intro sighting inside
    rcases List.mem_cons.mp inside with rfl | before
    · exact ⟨_, device, printable, rfl, .inr ⟨rfl, Nat.le_refl _⟩⟩
    · obtain ⟨clock, name, isPrintable, isHlc, reached⟩ := rising.reached sighting before
      exact ⟨clock, name, isPrintable, isHlc, reached.advance nowMs⟩
  · apply List.pairwise_cons.mpr
    refine ⟨?_, rising.rises⟩
    intro earlier inside _
    obtain ⟨clock, name, isPrintable, isHlc, reached⟩ := rising.reached earlier inside
    rw [utf8_lt_iff, isHlc]
    exact HlcClock.next_newer reached isPrintable.start fits name device

/-- Observing a printed position moves the source to it or leaves it where it is. -/
theorem observe_encodeHlc (clock : HlcClock) {position : HlcClock} (printable : Printable position)
    (device : String) :
    clock.observe (encodeHlc position.lastMs position.counter device) = position ∨
      clock.observe (encodeHlc position.lastMs position.counter device) = clock := by
  have start := printable.start
  rw [HlcClock.observe, clockPosition_encodeHlc device start printable.ms printable.counter]
  dsimp only
  split
  · left
    rw [Int.toNat_of_nonneg start]
  · exact .inr rfl

/-- A row is observed at its newest clock, which puts the source past all of them. -/
theorem observeRow_spec {clock : HlcClock} {row : RegistryRow} (printable : Printable clock)
    (known : ∀ hlc ∈ stamps row, ∃ position device, Printable position ∧
      hlc = encodeHlc position.lastMs position.counter device) :
    Printable (observeRow clock row) ∧ (observeRow clock row).Since clock ∧
      ∀ hlc ∈ stamps row, ∃ position device, Printable position ∧
        hlc = encodeHlc position.lastMs position.counter device ∧
        (observeRow clock row).Reached position.lastMs position.counter := by
  unfold observeRow
  cases newest : row.maxClock with
  | none =>
      have nothing := (maxClockBy_eq_none_iff id row).mp newest
      refine ⟨printable, clock.since_refl, ?_⟩
      rw [nothing]
      simp
  | some most =>
      obtain ⟨isStamp, bound⟩ := maxClockBy_spec id newest
      obtain ⟨top, topDevice, topPrintable, rfl⟩ := known most isStamp
      have topReached := clock.observe_reached topDevice topPrintable.start topPrintable.ms
        topPrintable.counter
      dsimp only
      refine ⟨?_, clock.observe_since _, ?_⟩
      · rcases observe_encodeHlc clock topPrintable topDevice with moved | stayed
        · rw [moved]
          exact topPrintable
        · rw [stayed]
          exact printable
      · intro hlc inside
        obtain ⟨position, device, isPrintable, rfl⟩ := known hlc inside
        refine ⟨position, device, isPrintable, rfl, ?_⟩
        have below := bound _ inside
        by_contra beyond
        have after : top.lastMs < position.lastMs ∨
            top.lastMs = position.lastMs ∧ top.counter < position.counter := by
          unfold HlcClock.Reached at topReached beyond
          omega
        exact absurd (encodeHlc_lt topPrintable.start isPrintable.ms isPrintable.counter after)
          (not_lt.mpr below)

theorem Rising.observe {state : DeviceClock} (rising : Rising state) {row : RegistryRow}
    (known : ∀ hlc ∈ stamps row, hlcRe hlc = true ∨ ⟨hlc, true⟩ ∈ state.trace) :
    Rising { clock := observeRow state.clock row, trace := sightings row ++ state.trace } := by
  have printed : ∀ hlc ∈ stamps row, ∃ position device, Printable position ∧
      hlc = encodeHlc position.lastMs position.counter device := by
    intro hlc inside
    rcases known hlc inside with accepted | own
    · exact encodeHlc_of_hlcRe accepted
    · obtain ⟨position, device, isPrintable, isHlc, _⟩ := rising.reached _ own
      exact ⟨position, device, isPrintable, isHlc⟩
  obtain ⟨printable, since, passed⟩ := observeRow_spec rising.printable printed
  constructor
  · exact printable
  · intro sighting inside
    rcases List.mem_append.mp inside with fresh | before
    · obtain ⟨hlc, isStamp, rfl⟩ := List.mem_map.mp fresh
      exact passed hlc isStamp
    · obtain ⟨position, device, isPrintable, isHlc, reached⟩ := rising.reached sighting before
      exact ⟨position, device, isPrintable, isHlc, reached.trans since⟩
  · apply List.pairwise_append.mpr
    have silent : ∀ sighting ∈ sightings row, sighting.issued = false := by
      intro sighting inside
      obtain ⟨hlc, _, rfl⟩ := List.mem_map.mp inside
      rfl
    refine ⟨?_, rising.rises, ?_⟩
    · apply List.Pairwise.imp_of_mem _ (List.pairwise_of_forall fun _ _ => trivial)
      intro later _ inside _ _ issued
      rw [silent later inside] at issued
      cases issued
    · intro later inside _ _ issued
      rw [silent later inside] at issued
      cases issued

theorem Rising.step {state after : DeviceClock} {action : ClockAction} (rising : Rising state)
    (allowed : Allowed state action) (stepped : state.step action = some after) : Rising after := by
  cases action with
  | next nowMs device =>
      cases stepped
      exact rising.next device allowed
  | observe row =>
      cases stepped
      exact rising.observe allowed
  | restart =>
      rw [DeviceClock.step, clockOfJson_clockToJson rising.printable] at stepped
      cases stepped
      exact rising

/-- The source of a device never repeats a clock or goes back: each clock it issues is
above every one it has issued or observed before, since clocks compare as bytes in the
order of their milliseconds, counters and devices. -/
theorem issued_clocks_rise {final : DeviceClock} (runs : Reaches step Allowed new final) :
    (final.trace.Pairwise fun later earlier =>
      later.issued = true → utf8 earlier.hlc < utf8 later.hlc) ∧
    Printable final.clock ∧
    ∀ left right : HlcClock, Printable left → Printable right →
      ∀ leftDevice rightDevice : String,
        utf8 (encodeHlc left.lastMs left.counter leftDevice) <
            utf8 (encodeHlc right.lastMs right.counter rightDevice) ↔
          left.lastMs < right.lastMs ∨ left.lastMs = right.lastMs ∧
            (left.counter < right.counter ∨ left.counter = right.counter ∧
              utf8 leftDevice < utf8 rightDevice) := by
  have rising : Rising final := runs.keeps rising_new fun _ _ _ rising allowed stepped =>
    rising.step allowed stepped
  exact ⟨rising.rises, rising.printable, fun _ _ left right => utf8_encodeHlc_lt_iff left right⟩

instance (state : DeviceClock) : (action : ClockAction) → Decidable (Allowed state action)
  | .next _ _ => inferInstanceAs (Decidable (_ < _))
  | .observe row =>
      inferInstanceAs (Decidable (∀ hlc ∈ stamps row, hlcRe hlc = true ∨ ⟨hlc, true⟩ ∈ state.trace))
  | .restart => inferInstanceAs (Decidable True)

/-- The wall clock goes back, a row from ahead is observed, and the device restarts. -/
def regression : List ClockAction :=
  [.next 1000 "d", .next 500 "d", .observe (.tombstone "chats" "c1" (encodeHlc 5000 999999 "other")),
    .restart, .next 900 "d"]

theorem issued_clocks_rise_regression :
    ((runAll step (fun state action => decide (Allowed state action)) new regression).map
        fun final => final.trace.map Sighting.hlc) =
      some ["0000000005001-000000-d", "0000000005000-999999-other", "0000000001000-000001-d",
        "0000000001000-000000-d"] ∧
    ∀ final, runAll step (fun state action => decide (Allowed state action)) new regression = some final →
      final.trace.Pairwise fun later earlier =>
        later.issued = true → utf8 earlier.hlc < utf8 later.hlc := by
  refine ⟨by decide, ?_⟩
  intro final ran
  have runs := (reaches_of_runAll ran).mono (fun _ _ permitted => of_decide_eq_true permitted)
  exact (issued_clocks_rise runs).1

end DeviceClock

end Zeron.Edge
