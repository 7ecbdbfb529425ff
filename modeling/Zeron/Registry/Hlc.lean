import Zeron.Data.Lww

namespace Zeron.Registry

open Zeron.Data

/-! # Hybrid logical clocks

A clock is the string `{ms:013}-{counter:06}-{device}`, compared as a string.
The device replica issues its clocks from one `HlcClock`, whose position only
moves forward whatever the wall clock reads.
-/

abbrev Hlc := String

/-- A natural number zero-padded to `width` digits. -/
def paddedNat (width value : Nat) : List Char := (Nat.toDigits 10 value).leftpad width '0'

/-- `{value:0width}`: the sign counts towards the width. -/
def paddedInt (width : Nat) : Int → List Char
  | .ofNat value => paddedNat width value
  | .negSucc value => '-' :: paddedNat (width - 1) (value + 1)

def encodeHlc (ms : Int) (counter : Nat) (device : String) : Hlc :=
  String.ofList (paddedInt 13 ms ++ '-' :: (paddedNat 6 counter ++ '-' :: device.toList))

/-- `a` strictly newer than `b`; never written loses to any. -/
def hlcNewer (a : Hlc) (b : Option Hlc) : Bool :=
  match b with
  | none => true
  | some b => decide (a > b)

theorem hlcNewer_eq_newer (a : Hlc) (b : Option Hlc) : hlcNewer a b = Lww.newer a b := by
  cases b <;> rfl

/-! ## Distinct positions print distinct clocks -/

theorem isDigit_of_mem_paddedNat {width value : Nat} {c : Char}
    (member : c ∈ paddedNat width value) : c.isDigit = true := by
  rcases List.mem_append.mp member with padding | digit
  · rw [List.eq_of_mem_replicate padding]
    decide
  · exact Nat.isDigit_of_mem_toDigits (by decide) (by decide) digit

theorem dash_not_mem_paddedNat (width value : Nat) : '-' ∉ paddedNat width value := by
  intro member
  exact absurd (isDigit_of_mem_paddedNat member) (by decide)

theorem ofDigitChars_paddedNat (width value : Nat) :
    Nat.ofDigitChars 10 (paddedNat width value) 0 = value := by
  have zeros : ∀ count, Nat.ofDigitChars 10 (List.replicate count '0') 0 = 0 := by
    intro count
    induction count with
    | zero => rfl
    | succ count ih => rw [List.replicate_succ, Nat.ofDigitChars_cons]; exact ih
  rw [paddedNat, List.leftpad, Nat.ofDigitChars_append, zeros, Nat.ofDigitChars_ten_toDigits]

theorem paddedNat_injective {width left right : Nat}
    (same : paddedNat width left = paddedNat width right) : left = right := by
  rw [← ofDigitChars_paddedNat width left, same, ofDigitChars_paddedNat]

/-- Two texts cut at their first dash agree piece by piece. -/
theorem split_at_dash {left right leftRest rightRest : List Char}
    (leftFree : '-' ∉ left) (rightFree : '-' ∉ right)
    (same : left ++ '-' :: leftRest = right ++ '-' :: rightRest) :
    left = right ∧ leftRest = rightRest := by
  induction left generalizing right with
  | nil =>
      cases right with
      | nil => exact ⟨rfl, by simpa using same⟩
      | cons c rest =>
          simp only [List.nil_append, List.cons_append, List.cons.injEq] at same
          exact absurd (by simp [← same.1]) rightFree
  | cons c rest ih =>
      cases right with
      | nil =>
          simp only [List.nil_append, List.cons_append, List.cons.injEq] at same
          exact absurd (by simp [same.1]) leftFree
      | cons d other =>
          simp only [List.cons_append, List.cons.injEq] at same
          simp only [List.mem_cons, not_or] at leftFree rightFree
          obtain ⟨heads, tails⟩ := ih leftFree.2 rightFree.2 same.2
          exact ⟨by rw [same.1, heads], tails⟩

private theorem paddedNat_ne_nil (width value : Nat) : paddedNat width value ≠ [] := by
  intro empty
  exact Nat.toDigits_ne_nil (List.append_eq_nil_iff.mp empty).2

theorem paddedNat_ne_signed {width value : Nat} {rest other : List Char}
    (same : paddedNat width value ++ rest = '-' :: other) : False := by
  cases digits : paddedNat width value with
  | nil => exact paddedNat_ne_nil _ _ digits
  | cons c others =>
      have first : c.isDigit = true := isDigit_of_mem_paddedNat (by rw [digits]; simp)
      rw [digits, List.cons_append, List.cons.injEq] at same
      rw [same.1] at first
      exact absurd first (by decide)

theorem split_at_paddedInt {width : Nat} {left right : Int} {leftRest rightRest : List Char}
    (same : paddedInt width left ++ '-' :: leftRest = paddedInt width right ++ '-' :: rightRest) :
    left = right ∧ leftRest = rightRest := by
  cases left with
  | ofNat left =>
      cases right with
      | ofNat right =>
          obtain ⟨digits, rest⟩ :=
            split_at_dash (dash_not_mem_paddedNat _ _) (dash_not_mem_paddedNat _ _) same
          exact ⟨by rw [paddedNat_injective digits], rest⟩
      | negSucc right => exact (paddedNat_ne_signed same).elim
  | negSucc left =>
      cases right with
      | ofNat right => exact (paddedNat_ne_signed same.symm).elim
      | negSucc right =>
          simp only [paddedInt, List.cons_append, List.cons.injEq, true_and] at same
          obtain ⟨digits, rest⟩ :=
            split_at_dash (dash_not_mem_paddedNat _ _) (dash_not_mem_paddedNat _ _) same
          exact ⟨by rw [Nat.succ.inj (paddedNat_injective digits)], rest⟩

theorem encodeHlc_injective {leftMs rightMs : Int} {leftCounter rightCounter : Nat}
    {leftDevice rightDevice : String}
    (same : encodeHlc leftMs leftCounter leftDevice =
      encodeHlc rightMs rightCounter rightDevice) :
    leftMs = rightMs ∧ leftCounter = rightCounter ∧ leftDevice = rightDevice := by
  obtain ⟨ms, rest⟩ := split_at_paddedInt (String.ofList_injective same)
  obtain ⟨counter, device⟩ :=
    split_at_dash (dash_not_mem_paddedNat _ _) (dash_not_mem_paddedNat _ _) rest
  exact ⟨ms, paddedNat_injective counter, String.toList_injective device⟩

/-! ## The monotonic source -/

structure HlcClock where
  lastMs : Int
  counter : Nat
deriving DecidableEq

def HlcClock.default : HlcClock := ⟨0, 0⟩

/-- The position a reading of the wall clock moves the source to.  The counter
rolls over into the millisecond part before it outgrows its six digits. -/
def HlcClock.advance (clock : HlcClock) (nowMs : Int) : HlcClock :=
  if nowMs > clock.lastMs then ⟨nowMs, 0⟩
  else if clock.counter + 1 > 999999 then ⟨clock.lastMs + 1, 0⟩
  else ⟨clock.lastMs, clock.counter + 1⟩

def HlcClock.next (clock : HlcClock) (nowMs : Int) (device : String) : Hlc × HlcClock :=
  let clock := clock.advance nowMs
  (encodeHlc clock.lastMs clock.counter device, clock)

/-- At or before the source's position. -/
def HlcClock.Reached (clock : HlcClock) (ms : Int) (counter : Nat) : Prop :=
  ms < clock.lastMs ∨ ms = clock.lastMs ∧ counter ≤ clock.counter

/-- A clock the source has emitted, under whatever device name it then had. -/
def HlcClock.Issued (clock : HlcClock) (hlc : Hlc) : Prop :=
  ∃ ms counter device, clock.Reached ms counter ∧ hlc = encodeHlc ms counter device

theorem HlcClock.Reached.advance {clock : HlcClock} {ms : Int} {counter : Nat}
    (reached : clock.Reached ms counter) (nowMs : Int) :
    (clock.advance nowMs).Reached ms counter := by
  unfold HlcClock.Reached HlcClock.advance at *
  split
  · exact .inl (by simp only; omega)
  · split
    · exact .inl (by simp only; omega)
    · simp only; omega

theorem HlcClock.not_reached_advance (clock : HlcClock) (nowMs : Int) :
    ¬ clock.Reached (clock.advance nowMs).lastMs (clock.advance nowMs).counter := by
  unfold HlcClock.Reached HlcClock.advance
  split
  · simp only; omega
  · split
    · simp only; omega
    · simp only; omega

theorem HlcClock.Issued.next {clock : HlcClock} {hlc : Hlc} (issued : clock.Issued hlc)
    (nowMs : Int) (device : String) : (clock.next nowMs device).2.Issued hlc := by
  obtain ⟨ms, counter, name, reached, rfl⟩ := issued
  exact ⟨ms, counter, name, reached.advance nowMs, rfl⟩

theorem HlcClock.next_issued (clock : HlcClock) (nowMs : Int) (device : String) :
    (clock.next nowMs device).2.Issued (clock.next nowMs device).1 :=
  ⟨_, _, device, .inr ⟨rfl, Nat.le_refl _⟩, rfl⟩

/-- The source never emits the same clock twice, not even across a wall-clock
regression. -/
theorem HlcClock.next_fresh (clock : HlcClock) (nowMs : Int) (device : String) :
    ¬ clock.Issued (clock.next nowMs device).1 := by
  rintro ⟨ms, counter, name, reached, same⟩
  obtain ⟨sameMs, sameCounter, _⟩ := encodeHlc_injective same
  rw [← sameMs, ← sameCounter] at reached
  exact clock.not_reached_advance nowMs reached

end Zeron.Registry
