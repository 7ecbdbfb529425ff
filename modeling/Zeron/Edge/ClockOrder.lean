import Zeron.Edge.Core

namespace Zeron.Edge

open Zeron.Data Zeron.Registry

/-! # Two orders on clocks

The room compares clock strings by UTF-16 code units, the client by code points.
The orders differ on characters past the surrogates, but a clock the room accepts
is ASCII, and an ASCII text stands on the same side of every other text in both.
-/

/-! ## JavaScript's string order -/

def utf16Units (c : Char) : List Nat :=
  if c.toNat ≤ 0xFFFF then [c.toNat]
  else [0xD800 + (c.toNat - 0x10000) / 0x400, 0xDC00 + (c.toNat - 0x10000) % 0x400]

def utf16 (text : String) : List Nat := text.toList.flatMap utf16Units

/-- `a > b` on JavaScript strings. -/
def byCodeUnit : Greater := fun a b => decide (utf16 b < utf16 a)

theorem utf16Units_cons (c : Char) : ∃ first rest, utf16Units c = first :: rest := by
  unfold utf16Units
  split
  · exact ⟨_, _, rfl⟩
  · exact ⟨_, _, rfl⟩

theorem utf16Units_append_inj {c d : Char} {left right : List Nat}
    (same : utf16Units c ++ left = utf16Units d ++ right) : c = d ∧ left = right := by
  have cValid : c.toNat < 0xD800 ∨ 0xDFFF < c.toNat ∧ c.toNat < 0x110000 := c.valid
  have dValid : d.toNat < 0xD800 ∨ 0xDFFF < d.toNat ∧ d.toNat < 0x110000 := d.valid
  unfold utf16Units at same
  by_cases narrow : c.toNat ≤ 0xFFFF
  · by_cases narrowRight : d.toNat ≤ 0xFFFF
    · rw [if_pos narrow, if_pos narrowRight] at same
      simp only [List.cons_append, List.nil_append, List.cons.injEq] at same
      exact ⟨Char.toNat_inj.mp same.1, same.2⟩
    · rw [if_pos narrow, if_neg narrowRight] at same
      simp only [List.cons_append, List.nil_append, List.cons.injEq] at same
      omega
  · by_cases narrowRight : d.toNat ≤ 0xFFFF
    · rw [if_neg narrow, if_pos narrowRight] at same
      simp only [List.cons_append, List.nil_append, List.cons.injEq] at same
      omega
    · rw [if_neg narrow, if_neg narrowRight] at same
      simp only [List.cons_append, List.nil_append, List.cons.injEq] at same
      exact ⟨Char.toNat_inj.mp (by omega), same.2.2⟩

theorem utf16_injective {a b : String} (same : utf16 a = utf16 b) : a = b := by
  suffices lists : ∀ left right : List Char,
      left.flatMap utf16Units = right.flatMap utf16Units → left = right from
    String.toList_injective (lists _ _ same)
  intro left
  induction left with
  | nil =>
      intro right same
      cases right with
      | nil => rfl
      | cons d rest =>
          obtain ⟨first, others, units⟩ := utf16Units_cons d
          simp [List.flatMap_cons, units] at same
  | cons c rest ih =>
      intro right same
      cases right with
      | nil =>
          obtain ⟨first, others, units⟩ := utf16Units_cons c
          simp [List.flatMap_cons, units] at same
      | cons d others =>
          simp only [List.flatMap_cons] at same
          obtain ⟨head, tail⟩ := utf16Units_append_inj same
          rw [head, ih others tail]

/-! ## ASCII texts -/

def Ascii (text : String) : Prop := ∀ c ∈ text.toList, c.toNat < 128

instance (text : String) : Decidable (Ascii text) :=
  inferInstanceAs (Decidable (∀ c ∈ text.toList, _))

theorem utf16Units_of_ascii {c : Char} (ascii : c.toNat < 128) : utf16Units c = [c.toNat] := by
  rw [utf16Units, if_pos (by omega)]

/-- An ASCII text is above exactly the same texts in both orders. -/
theorem utf16_lt_iff {a : String} (ascii : Ascii a) (b : String) : utf16 b < utf16 a ↔ b < a := by
  suffices lists : ∀ left right : List Char, (∀ c ∈ left, c.toNat < 128) →
      (right.flatMap utf16Units < left.flatMap utf16Units ↔ right < left) from
    lists _ _ ascii
  intro left
  induction left with
  | nil => simp
  | cons c rest ih =>
      intro right ascii
      have here : c.toNat < 128 := ascii c (by simp)
      cases right with
      | nil => simp [utf16Units_of_ascii here]
      | cons d others =>
          have order : d < c ↔ d.toNat < c.toNat := Iff.rfl
          have later := ih others fun e member => ascii e (List.mem_cons_of_mem _ member)
          rw [List.flatMap_cons, List.flatMap_cons, utf16Units_of_ascii here,
            List.singleton_append, List.cons_lt_cons_iff, order, ← later, ← Char.toNat_inj]
          by_cases narrow : d.toNat ≤ 0xFFFF
          · rw [utf16Units, if_pos narrow, List.singleton_append, List.cons_lt_cons_iff]
          · -- The other text goes on with a surrogate, above any ASCII unit.
            rw [utf16Units, if_neg narrow, List.cons_append, List.cons_lt_cons_iff]
            constructor
            · rintro (below | ⟨same, -⟩) <;> omega
            · rintro (below | ⟨same, -⟩) <;> omega

theorem byCodeUnit_eq {a : String} (ascii : Ascii a) (b : String) :
    byCodeUnit a b = byCodePoint a b :=
  decide_eq_decide.mpr (utf16_lt_iff ascii b)

theorem toNat_lt_of_isAlphanum {c : Char} (alphanum : c.isAlphanum = true) : c.toNat < 128 := by
  simp only [Char.isAlphanum, Char.isAlpha, Char.isUpper, Char.isLower, Char.isDigit,
    Bool.or_eq_true, Bool.and_eq_true, decide_eq_true_eq, ge_iff_le, UInt32.le_iff_toNat_le] at alphanum
  have bound : c.toNat = c.val.toNat := rfl
  rcases alphanum with (⟨_, upper⟩ | ⟨_, lower⟩) | ⟨_, digit⟩
  · have := upper.trans (by decide : _ ≤ 127); omega
  · have := lower.trans (by decide : _ ≤ 127); omega
  · have := digit.trans (by decide : _ ≤ 127); omega

theorem ascii_of_hlcRe {hlc : Hlc} (accepted : hlcRe hlc = true) : Ascii hlc := by
  simp only [hlcRe, Bool.and_eq_true, decide_eq_true_eq, List.all_eq_true] at accepted
  obtain ⟨⟨⟨⟨⟨⟨⟨_, ms⟩, first⟩, _, counter⟩, second⟩, _⟩, _⟩, device⟩ := accepted
  have digit : ∀ {c : Char}, c.isDigit = true → c.toNat < 128 := fun isDigit =>
    toNat_lt_of_isAlphanum (by simp [Char.isAlphanum, isDigit])
  intro c member
  obtain ⟨index, here, rfl⟩ := List.mem_iff_getElem.mp member
  have at_ : hlc.toList[index]? = some hlc.toList[index] := List.getElem?_eq_getElem here
  -- The five parts of the text, by where the character stands.
  by_cases inMs : index < 13
  · exact digit (ms _ (List.mem_iff_getElem?.mpr ⟨index, by rw [List.getElem?_take_of_lt inMs, at_]⟩))
  · by_cases isFirst : index = 13
    · subst isFirst
      rw [at_, Option.some.injEq] at first
      rw [first]
      decide
    · by_cases inCounter : index < 20
      · refine digit (counter _ (List.mem_iff_getElem?.mpr ⟨index - 14, ?_⟩))
        rw [List.getElem?_take_of_lt (by omega), List.getElem?_drop, ← at_]
        congr 1
        omega
      · by_cases isSecond : index = 20
        · subst isSecond
          rw [at_, Option.some.injEq] at second
          rw [second]
          decide
        · have inDevice : hlc.toList[index] ∈ hlc.toList.drop 21 := by
            refine List.mem_iff_getElem?.mpr ⟨index - 21, ?_⟩
            rw [List.getElem?_drop, ← at_]
            congr 1
            omega
          have kind := device _ inDevice
          simp only [Bool.or_eq_true, decide_eq_true_eq] at kind
          rcases kind with (alphanum | underscore) | dash
          · exact toNat_lt_of_isAlphanum alphanum
          · rw [underscore]; decide
          · rw [dash]; decide

/-! ## The newest clock of a row -/

/-- Every clock on a row. -/
def stamps (row : RegistryRow) : List Hlc := row.delHlc.toList ++ row.clocks.toList.map Prod.snd

section Newest

variable {κ : Type} [LinearOrder κ] (rank : Hlc → κ)

/-- The comparison that ranks clocks first. -/
def byRank : Greater := fun a b => decide (rank b < rank a)

theorem foldl_newest_spec (clocks : List (String × Hlc)) (start : Option Hlc) :
    let newest := clocks.foldl
      (fun max entry => if max.all (fun held => byRank rank entry.2 held) then some entry.2 else max)
      start
    (newest = none ↔ start = none ∧ clocks = []) ∧
      ∀ most ∈ newest, most ∈ start.toList ++ clocks.map Prod.snd ∧
        ∀ clock ∈ start.toList ++ clocks.map Prod.snd, rank clock ≤ rank most := by
  induction clocks generalizing start with
  | nil => cases start <;> simp
  | cons entry rest ih =>
      obtain ⟨name, clock⟩ := entry
      obtain ⟨empty, newest⟩ := ih (if start.all (fun held => byRank rank clock held) then some clock
        else start)
      simp only [List.foldl_cons]
      cases start with
      | none => simpa using ⟨by simpa using empty, by simpa using newest⟩
      | some held =>
          by_cases beats : rank held < rank clock
          · simp only [byRank, beats, Option.all_some, decide_true, if_true] at empty newest ⊢
            refine ⟨by simpa using empty, fun most isMost => ?_⟩
            obtain ⟨member, bound⟩ := newest most isMost
            have clockBound := bound clock (by simp)
            refine ⟨by simp_all, fun other isOther => ?_⟩
            simp only [Option.toList_some, List.map_cons, List.singleton_append, List.mem_cons] at isOther
            rcases isOther with rfl | rfl | later
            · exact beats.le.trans clockBound
            · exact clockBound
            · exact bound other (by simp [later])
          · simp only [byRank, beats, Option.all_some, decide_false, Bool.false_eq_true, if_false]
              at empty newest ⊢
            refine ⟨by simpa using empty, fun most isMost => ?_⟩
            obtain ⟨member, bound⟩ := newest most isMost
            have heldBound := bound held (by simp)
            refine ⟨?_, fun other isOther => ?_⟩
            · simp only [Option.toList_some, List.map_cons, List.singleton_append, List.mem_cons]
                at member ⊢
              tauto
            · simp only [Option.toList_some, List.map_cons, List.singleton_append, List.mem_cons]
                at isOther
              rcases isOther with rfl | rfl | later
              · exact heldBound
              · exact (not_lt.mp beats).trans heldBound
              · exact bound other (by simp [later])

theorem maxClockBy_eq_none_iff (row : RegistryRow) :
    maxClockBy (byRank rank) row = none ↔ stamps row = [] := by
  have spec := (foldl_newest_spec rank row.clocks.toList row.delHlc).1
  rw [maxClockBy, spec, stamps, List.append_eq_nil_iff]
  simp

theorem maxClockBy_spec {row : RegistryRow} {most : Hlc}
    (newest : maxClockBy (byRank rank) row = some most) :
    most ∈ stamps row ∧ ∀ clock ∈ stamps row, rank clock ≤ rank most :=
  (foldl_newest_spec rank row.clocks.toList row.delHlc).2 most newest

theorem hlcNewerBy_maxClockBy (row : RegistryRow) (hlc : Hlc) :
    hlcNewerBy (byRank rank) hlc (maxClockBy (byRank rank) row) = true ↔
      ∀ clock ∈ stamps row, rank clock < rank hlc := by
  cases newest : maxClockBy (byRank rank) row with
  | none =>
      rw [maxClockBy_eq_none_iff] at newest
      simp [hlcNewerBy, newest]
  | some most =>
      obtain ⟨member, bound⟩ := maxClockBy_spec rank newest
      simp only [hlcNewerBy, byRank, decide_eq_true_eq]
      constructor
      · exact fun beats clock isClock => (bound clock isClock).trans_lt beats
      · exact fun beats => beats most member

end Newest

theorem byCodePoint_eq_byRank : byCodePoint = byRank id := rfl

theorem byCodeUnit_eq_byRank : byCodeUnit = byRank utf16 := by
  funext a b
  exact decide_eq_decide.mpr Iff.rfl

/-- An ASCII clock beats the whole row in both orders or in neither. -/
theorem hlcNewerBy_maxClockBy_eq {hlc : Hlc} (ascii : Ascii hlc) (row : RegistryRow) :
    hlcNewerBy byCodeUnit hlc (maxClockBy byCodeUnit row) =
      hlcNewerBy byCodePoint hlc (maxClockBy byCodePoint row) := by
  rw [Bool.eq_iff_iff, byCodeUnit_eq_byRank, byCodePoint_eq_byRank, hlcNewerBy_maxClockBy,
    hlcNewerBy_maxClockBy]
  exact forall₂_congr fun clock _ => utf16_lt_iff ascii clock

/-- The row's newest clock by code points is its newest by code units. -/
def NewestAgrees (row : RegistryRow) : Prop :=
  ∀ most ∈ stamps row, (∀ clock ∈ stamps row, ¬ clock > most) →
    ∀ clock ∈ stamps row, byCodeUnit clock most = false

theorem maxClockBy_agrees_iff (row : RegistryRow) :
    maxClockBy byCodeUnit row = row.maxClock ↔ NewestAgrees row := by
  have points : row.maxClock = maxClockBy (byRank id) row := rfl
  rw [points, byCodeUnit_eq_byRank]
  cases newest : maxClockBy (byRank id) row with
  | none =>
      have empty := (maxClockBy_eq_none_iff id row).mp newest
      simp [NewestAgrees, empty, maxClockBy_eq_none_iff]
  | some most =>
      obtain ⟨member, bound⟩ := maxClockBy_spec id newest
      constructor
      · intro units other isOther otherBound clock isClock
        have same : other = most := le_antisymm (bound other isOther) (not_lt.mp (otherBound most member))
        rw [same]
        simpa [byCodeUnit] using (maxClockBy_spec utf16 units).2 clock isClock
      · intro agrees
        have unitBound := agrees most member fun clock isClock => not_lt.mpr (bound clock isClock)
        cases units : maxClockBy (byRank utf16) row with
        | none =>
            rw [(maxClockBy_eq_none_iff utf16 row).mp units] at member
            cases member
        | some other =>
            obtain ⟨isOther, otherBound⟩ := maxClockBy_spec utf16 units
            have below : ¬ utf16 most < utf16 other := by
              simpa [byCodeUnit] using unitBound other isOther
            rw [utf16_injective (le_antisymm (not_lt.mp below) (otherBound most member))]

theorem newestAgrees_of_ascii {row : RegistryRow} (ascii : ∀ clock ∈ stamps row, Ascii clock) :
    NewestAgrees row := by
  intro most member bound clock isClock
  rw [byCodeUnit_eq (ascii clock isClock)]
  exact decide_eq_false (bound clock isClock)

end Zeron.Edge
