import Zeron.Registry.Sidebar

namespace Zeron.Registry

open Zeron.Data

/-! # Order keys are dense

A key made between two others is a valid key strictly between them.
-/

/-- A digit of an order key. -/
def isHexDigit (c : Char) : Bool := c.isDigit || ('a' ≤ c && c ≤ 'f')

theorem hexDigit_range {c : Char} (hex : isHexDigit c = true) :
    48 ≤ c.toNat ∧ c.toNat ≤ 57 ∨ 97 ≤ c.toNat ∧ c.toNat ≤ 102 := by
  simp only [isHexDigit, Bool.or_eq_true, Bool.and_eq_true, decide_eq_true_eq] at hex
  rcases hex with digit | ⟨low, high⟩
  · exact .inl (Char.isDigit_iff_toNat.mp digit)
  · exact .inr ⟨low, high⟩

theorem digitChar_hexDigit {c : Char} (hex : isHexDigit c = true) :
    hexDigit c < 16 ∧ Nat.digitChar (hexDigit c) = c := by
  have table : ∀ code < 103, 48 ≤ code ∧ code ≤ 57 ∨ 97 ≤ code ∧ code ≤ 102 →
      hexDigit (Char.ofNat code) < 16 ∧
        Nat.digitChar (hexDigit (Char.ofNat code)) = Char.ofNat code := by decide
  have range := hexDigit_range hex
  have held := table c.toNat (by omega) range
  rwa [Char.ofNat_toNat] at held

theorem isHexDigit_digitChar {value : Nat} (small : value < 16) :
    isHexDigit (Nat.digitChar value) = true := by
  have table : ∀ value < 16, isHexDigit (Nat.digitChar value) = true := by decide
  exact table value small

theorem digitChar_lt {left right : Nat} (below : left < right) (small : right < 16) :
    Nat.digitChar left < Nat.digitChar right := by
  have table : ∀ right < 16, ∀ left < right, Nat.digitChar left < Nat.digitChar right := by decide
  exact table right small left below

/-- Any text of order key digits. -/
def HexText (text : List Char) : Prop := ∀ c ∈ text, isHexDigit c = true

theorem HexText.append {left right : List Char} (first : HexText left) (second : HexText right) :
    HexText (left ++ right) := by
  intro c member
  rcases List.mem_append.mp member with inLeft | inRight
  · exact first c inLeft
  · exact second c inRight

theorem hexText_nonceHex {nonce : String} (ascii : ∀ c ∈ nonce.toList, c.toNat < 128) :
    HexText (nonceHex nonce) := by
  intro c member
  obtain ⟨index, _, isHere⟩ := List.mem_flatMap.mp member
  have small : (nonce.toList[index]?.map Char.toNat).getD 0 < 128 := by
    cases found : nonce.toList[index]? with
    | none => decide
    | some held => exact ascii held (List.mem_of_getElem? found)
  simp only [List.mem_cons, List.not_mem_nil, or_false] at isHere
  rcases isHere with rfl | rfl
  · exact isHexDigit_digitChar (by omega)
  · exact isHexDigit_digitChar (by omega)

/-- What `validPinOrderKey` asks of the digits. -/
structure KeyText (text : List Char) : Prop where
  hex : HexText text
  last : text.getLast? ≠ some '0'

theorem KeyText.tail {c : Char} {rest : List Char} (valid : KeyText (c :: rest)) : KeyText rest := by
  refine ⟨fun d member => valid.hex d (List.mem_cons_of_mem _ member), fun last => valid.last ?_⟩
  rw [List.getLast?_cons, last]
  rfl

/-- The next digit of a lower bound; past its end it goes on with zeroes. -/
def nextLow (lower : List Char) : Nat := (lower.head?.map hexDigit).getD 0

theorem lt_of_nextLow {lower rest : List Char} {digit : Nat} (lowerHex : HexText lower)
    (above : nextLow lower < digit) (small : digit < 16) : lower < Nat.digitChar digit :: rest := by
  cases lower with
  | nil => exact List.nil_lt_cons _ _
  | cons c tail =>
      have held := (digitChar_hexDigit (lowerHex c List.mem_cons_self)).2
      rw [List.cons_lt_cons_iff, ← held]
      exact .inl (digitChar_lt above small)

theorem lt_of_tail {lower rest : List Char} (lowerHex : HexText lower)
    (tail : lower.tail < rest) : lower < Nat.digitChar (nextLow lower) :: rest := by
  cases lower with
  | nil => exact List.nil_lt_cons _ _
  | cons c others =>
      have held := (digitChar_hexDigit (lowerHex c List.mem_cons_self)).2
      exact List.cons_lt_cons_iff.mpr (.inr ⟨held.symm, tail⟩)

theorem nextLow_lt {lower : List Char} (lowerHex : HexText lower) : nextLow lower < 16 := by
  cases lower with
  | nil => decide
  | cons c rest => exact (digitChar_hexDigit (lowerHex c List.mem_cons_self)).1

theorem digitChar_cons_lt {digit : Nat} {d : Char} {rest others : List Char}
    (hex : isHexDigit d = true) (below : digit < hexDigit d) :
    Nat.digitChar digit :: rest < d :: others := by
  have held := digitChar_hexDigit hex
  rw [List.cons_lt_cons_iff, ← held.2]
  exact .inl (digitChar_lt below held.1)

/-- The first digit of a lower bound is at most that of an upper one. -/
theorem nextLow_le {lower others : List Char} {d : Char} (lowerHex : HexText lower)
    (hex : isHexDigit d = true) (apart : lower < d :: others) : nextLow lower ≤ hexDigit d := by
  by_contra above
  cases lower with
  | nil => exact above (Nat.zero_le _)
  | cons c rest =>
      have beyond : d :: others < c :: rest := by
        rw [← (digitChar_hexDigit hex).2]
        exact digitChar_cons_lt (lowerHex c List.mem_cons_self) (not_le.mp above)
      exact lt_asymm beyond apart

/-- Where the first digits agree, the bounds stay apart behind them. -/
theorem tail_lt_tail {lower others : List Char} {d : Char} (lowerHex : HexText lower)
    (upperKey : KeyText (d :: others)) (apart : lower < d :: others)
    (same : nextLow lower = hexDigit d) : lower.tail < others := by
  have hex := upperKey.hex d List.mem_cons_self
  cases lower with
  | nil =>
      -- The upper bound starts with a zero here, so it cannot end with it.
      cases others with
      | nil =>
          have zero : d = '0' := by
            rw [← (digitChar_hexDigit hex).2, ← same]
            rfl
          exact absurd (by simp [zero]) upperKey.last
      | cons e rest => exact List.nil_lt_cons _ _
  | cons c rest =>
      have equal : c = d := by
        rw [← (digitChar_hexDigit (lowerHex c List.mem_cons_self)).2, ← (digitChar_hexDigit hex).2]
        exact congrArg Nat.digitChar same
      subst equal
      exact List.cons_lt_cons_self.mp apart

/-- What the loop adds to the key stays between what is left of the bounds. -/
theorem orderKeyLoop_spec {nonce : String} (ascii : ∀ c ∈ nonce.toList, c.toNat < 128)
    {turns : Nat} {lower : List Char} {upper : Option (List Char)} {key : List Char}
    {result : String} (lowerHex : HexText lower) (upperKey : ∀ high ∈ upper, KeyText high)
    (apart : ∀ high ∈ upper, lower < high)
    (made : orderKeyLoop nonce turns lower upper key = .ok result) :
    result.toList.length ≤ maxPinOrderKeyBytes ∧
      ∃ added, result.toList = key ++ added ∧ lower < added ∧ (∀ high ∈ upper, added < high) ∧
        HexText added ∧ added.getLast? = some '8' := by
  induction turns generalizing lower upper key with
  | zero => cases made
  | succ turns ih =>
      rw [orderKeyLoop] at made
      dsimp only at made
      have low := nextLow_lt lowerHex
      rw [show (lower.head?.map hexDigit).getD 0 = nextLow lower from rfl] at made
      generalize isHigh : ((upper.bind List.head?).map hexDigit).getD 16 = high at made
      have cap : high ≤ 16 := by
        cases upper with
        | none => exact isHigh ▸ le_refl _
        | some bound =>
            cases bound with
            | nil => exact isHigh ▸ le_refl _
            | cons d others =>
                have hex := (upperKey _ rfl).hex d List.mem_cons_self
                exact isHigh ▸ (digitChar_hexDigit hex).1.le
      split at made
      · -- There is room for a digit between.
        rename_i room
        split at made
        · rename_i fits
          cases made
          rw [String.toList_ofList]
          refine ⟨fits, _, rfl, lt_of_nextLow lowerHex (by omega) (by omega), ?_, ?_, ?_⟩
          · intro bound isBound
            cases isBound
            cases bound with
            | nil => exact absurd (apart _ rfl) (List.not_lt_nil _)
            | cons d others =>
                have hex := (upperKey _ rfl).hex d List.mem_cons_self
                have isDigit : hexDigit d = high := isHigh
                exact digitChar_cons_lt hex (by omega)
          · intro c member
            rcases List.mem_cons.mp member with rfl | later
            · exact isHexDigit_digitChar (by omega)
            · refine (hexText_nonceHex ascii).append (fun d isLast => ?_) c later
              rw [List.mem_singleton.mp isLast]
              decide
          · rw [← List.cons_append]
            exact List.getLast?_concat
        · cases made
      · -- The bounds' next digits are neighbours or equal: the key takes the lower one.
        rename_i tight
        have lowerTail : HexText lower.tail := fun c member => lowerHex c (List.mem_of_mem_tail member)
        have grown : ∀ added, key ++ [Nat.digitChar (nextLow lower)] ++ added =
            key ++ Nat.digitChar (nextLow lower) :: added := by simp
        have hexAdded : ∀ added, HexText added → HexText (Nat.digitChar (nextLow lower) :: added) := by
          intro added hex c member
          rcases List.mem_cons.mp member with rfl | later
          · exact isHexDigit_digitChar low
          · exact hex c later
        have lastAdded : ∀ added : List Char, added.getLast? = some '8' →
            (Nat.digitChar (nextLow lower) :: added).getLast? = some '8' := by
          intro added last
          rw [List.getLast?_cons, last]
          rfl
        by_cases same : nextLow lower = high
        · rw [if_neg (not_not.mpr same)] at made
          cases upper with
          | none => exact absurd (same.trans isHigh.symm) (ne_of_lt low)
          | some bound =>
              cases bound with
              | nil => exact absurd (apart _ rfl) (List.not_lt_nil _)
              | cons d others =>
                  have valid := upperKey _ rfl
                  have isDigit : hexDigit d = high := isHigh
                  have behind := tail_lt_tail lowerHex valid (apart _ rfl) (same.trans isDigit.symm)
                  obtain ⟨length, added, isAdded, above, below, hex, last⟩ := ih lowerTail
                    (by rintro _ ⟨⟩; exact valid.tail) (by rintro _ ⟨⟩; exact behind) made
                  refine ⟨length, _, isAdded.trans (grown added), lt_of_tail lowerHex above, ?_,
                    hexAdded added hex, lastAdded added last⟩
                  rintro _ ⟨⟩
                  have equal : Nat.digitChar (nextLow lower) = d := by
                    rw [same, ← isDigit]
                    exact (digitChar_hexDigit (valid.hex d List.mem_cons_self)).2
                  exact List.cons_lt_cons_iff.mpr (.inr ⟨equal, below _ rfl⟩)
        · rw [if_pos same] at made
          obtain ⟨length, added, isAdded, above, _, hex, last⟩ := ih lowerTail
            (by rintro _ ⟨⟩) (by rintro _ ⟨⟩) made
          refine ⟨length, _, isAdded.trans (grown added), lt_of_tail lowerHex above, ?_,
            hexAdded added hex, lastAdded added last⟩
          intro bound isBound
          cases isBound
          cases bound with
          | nil => exact absurd (apart _ rfl) (List.not_lt_nil _)
          | cons d others =>
              have digit := (upperKey _ rfl).hex d List.mem_cons_self
              have isDigit : hexDigit d = high := isHigh
              have ordered := nextLow_le lowerHex digit (apart _ rfl)
              exact digitChar_cons_lt digit (by omega)

theorem keyText_of_valid {key : String} (valid : validPinOrderKey key = true) :
    KeyText key.toList := by
  simp only [validPinOrderKey, Bool.and_eq_true] at valid
  refine ⟨fun c member => List.all_eq_true.mp valid.1.2 c member, fun last => ?_⟩
  rw [last] at valid
  exact absurd valid.2 (by decide)

/-- A made key is valid and lies strictly between its bounds. -/
theorem pinOrderKeyBetween_spec {lower upper : Option String} {nonce key : String}
    (made : pinOrderKeyBetween lower upper nonce = .ok key) :
    validPinOrderKey key = true ∧ (∀ low ∈ lower, low < key) ∧ ∀ high ∈ upper, key < high := by
  unfold pinOrderKeyBetween at made
  split at made
  · cases made
  · rename_i sound
    simp only [Bool.or_eq_true, not_or, Bool.not_eq_true, Bool.not_eq_false'] at sound
    obtain ⟨⟨⟨⟨⟨⟨lowers, uppers⟩, ordered⟩, _⟩, _⟩, allAscii⟩, _⟩ := sound
    have ascii : ∀ c ∈ nonce.toList, c.toNat < 128 := by
      intro c member
      exact of_decide_eq_true (List.all_eq_true.mp allAscii c member)
    have lowerKey : KeyText ((lower.map String.toList).getD []) := by
      cases lower with
      | none => exact ⟨fun c member => (List.not_mem_nil member).elim, by simp⟩
      | some low => exact keyText_of_valid (by simpa using lowers)
    have upperKey : ∀ high ∈ upper.map String.toList, KeyText high := by
      intro high isHigh
      cases upper with
      | none => cases isHigh
      | some bound =>
          cases isHigh
          exact keyText_of_valid (by simpa using uppers)
    have apart : ∀ high ∈ upper.map String.toList, (lower.map String.toList).getD [] < high := by
      intro high isHigh
      cases upper with
      | none => cases isHigh
      | some bound =>
          cases isHigh
          cases lower with
          | none =>
              cases digits : bound.toList with
              | nil => simp [validPinOrderKey, String.toList_eq_nil_iff.mp digits] at uppers
              | cons c rest => exact List.nil_lt_cons _ _
          | some low =>
              have behind : ¬ low ≥ bound := of_decide_eq_false ordered
              exact String.lt_iff.mp (not_le.mp behind)
    obtain ⟨length, added, isAdded, above, below, hex, last⟩ :=
      orderKeyLoop_spec ascii lowerKey.hex upperKey apart made
    rw [List.nil_append] at isAdded
    refine ⟨?_, ?_, ?_⟩
    · have filled : key ≠ "" := by
        rintro rfl
        rw [← isAdded] at last
        cases last
      have digits : key.toList.all isHexDigit = true := by
        rw [isAdded]
        exact List.all_eq_true.mpr hex
      have ends : key.toList.getLast?.all (· ≠ '0') = true := by
        rw [isAdded, last]
        rfl
      simp only [validPinOrderKey, Bool.and_eq_true, decide_eq_true_eq]
      exact ⟨⟨⟨filled, length⟩, digits⟩, ends⟩
    · intro low isLow
      cases isLow
      exact String.lt_iff.mpr (isAdded ▸ above)
    · intro high isHigh
      exact String.lt_iff.mpr (isAdded ▸ below high.toList (by rw [isHigh]; rfl))

/-! ## Nonces -/

/-- A byte of a nonce, zero after its end. -/
def byteAt (nonce : List Char) (index : Nat) : Nat := (nonce[index]?.map Char.toNat).getD 0

def byteHex (byte : Nat) : List Char := [Nat.digitChar (byte / 16), Nat.digitChar (byte % 16)]

theorem nonceHex_eq (nonce : String) :
    nonceHex nonce = (List.range' 0 nonceBytes).flatMap (byteHex ∘ byteAt nonce.toList) := by
  rw [← List.range_eq_range']
  rfl

theorem byteHex_lt {left right : Nat} {rest others : List Char} (below : left < right)
    (small : right < 256) : byteHex left ++ rest < byteHex right ++ others := by
  unfold byteHex
  simp only [List.cons_append, List.nil_append]
  rw [List.cons_lt_cons_iff]
  by_cases high : left / 16 = right / 16
  · refine .inr ⟨by rw [high], ?_⟩
    exact List.cons_lt_cons_iff.mpr (.inl (digitChar_lt (by omega) (by omega)))
  · exact .inl (digitChar_lt (by omega) (by omega))

/-- The first different byte decides. -/
theorem flatMap_byteHex_lt {left right : Nat → Nat} {rest others : List Char} {start count index : Nat}
    (low : start ≤ index) (high : index < start + count) (same : ∀ before < index, left before = right before)
    (below : left index < right index) (small : right index < 256) :
    (List.range' start count).flatMap (byteHex ∘ left) ++ rest <
      (List.range' start count).flatMap (byteHex ∘ right) ++ others := by
  induction count generalizing start with
  | zero => omega
  | succ count ih =>
      rw [List.range'_succ, List.flatMap_cons, List.flatMap_cons, List.append_assoc, List.append_assoc]
      rcases low.eq_or_lt with here | later
      · subst here
        exact byteHex_lt below small
      · have equal : (byteHex ∘ left) start = (byteHex ∘ right) start :=
          congrArg byteHex (same start later)
        rw [equal]
        exact List.append_left_lt (ih later (by omega))

/-- What `pinOrderKeyBetween` asks of a nonce. -/
structure ValidNonce (nonce : String) : Prop where
  filled : nonce ≠ ""
  short : nonce.toList.length ≤ nonceBytes
  ascii : ∀ c ∈ nonce.toList, c.toNat < 128
  noNul : ∀ c ∈ nonce.toList, c.toNat ≠ 0

/-- The first different byte of two nonces; a nonce that has ended has a zero there. -/
theorem byteAt_lt {left right : List Char} (noNul : ∀ c ∈ right, c.toNat ≠ 0) (below : left < right) :
    ∃ index < right.length, (∀ before < index, byteAt left before = byteAt right before) ∧
      byteAt left index < byteAt right index := by
  rcases List.lt_iff_exists.mp below with ⟨begins, shorter⟩ | ⟨index, inLeft, inRight, same, differs⟩
  · refine ⟨left.length, shorter, fun before early => ?_, ?_⟩
    · have here : left[before]? = right[before]? := by
        conv_lhs => rw [begins]
        exact List.getElem?_take_of_lt early
      unfold byteAt
      rw [here]
    · unfold byteAt
      rw [List.getElem?_eq_none (Nat.le_refl _), List.getElem?_eq_getElem shorter]
      exact Nat.pos_of_ne_zero (noNul _ (List.getElem_mem shorter))
  · refine ⟨index, inRight, fun before early => ?_, ?_⟩
    · unfold byteAt
      rw [List.getElem?_eq_getElem (early.trans inLeft), List.getElem?_eq_getElem (early.trans inRight),
        same before early]
    · unfold byteAt
      rw [List.getElem?_eq_getElem inLeft, List.getElem?_eq_getElem inRight]
      exact differs

theorem nonceHex_lt {left right : String} {rest others : List Char} (valid : ValidNonce right)
    (below : left < right) : nonceHex left ++ rest < nonceHex right ++ others := by
  obtain ⟨index, inside, same, differs⟩ := byteAt_lt valid.noNul (String.lt_iff.mp below)
  rw [nonceHex_eq, nonceHex_eq]
  have short := valid.short
  refine flatMap_byteHex_lt (Nat.zero_le _) (by omega) same differs ?_
  unfold byteAt
  rw [List.getElem?_eq_getElem inside]
  exact (valid.ascii _ (List.getElem_mem inside)).trans (by decide)

theorem length_nonceHex (nonce : String) : (nonceHex nonce).length = 2 * nonceBytes := by
  have twice : ∀ indices : List Nat,
      (indices.flatMap (byteHex ∘ byteAt nonce.toList)).length = 2 * indices.length := by
    intro indices
    induction indices with
    | nil => rfl
    | cons index rest ih =>
        rw [List.flatMap_cons, List.length_append, ih, List.length_cons]
        exact Nat.add_comm _ _
  rw [nonceHex_eq, twice, List.length_range']

/-- The digits before the nonce do not depend on it, nor does whether the key is too long. -/
theorem orderKeyLoop_shape (turns : Nat) (lower : List Char) (upper : Option (List Char))
    (key : List Char) :
    (∀ nonce, orderKeyLoop nonce turns lower upper key = .error "Pin ordering key is too long") ∨
      ∃ begins : List Char, ∀ nonce, orderKeyLoop nonce turns lower upper key =
        .ok (String.ofList (begins ++ (nonceHex nonce ++ ['8']))) := by
  induction turns generalizing lower upper key with
  | zero => exact .inl fun _ => rfl
  | succ turns ih =>
      by_cases room : ((upper.bind List.head?).map hexDigit).getD 16 >
          (lower.head?.map hexDigit).getD 0 + 1
      · obtain ⟨digit, isDigit⟩ : ∃ digit : Nat, digit = ((lower.head?.map hexDigit).getD 0 +
            ((upper.bind List.head?).map hexDigit).getD 16) / 2 := ⟨_, rfl⟩
        have length : ∀ nonce, (key ++ Nat.digitChar digit :: (nonceHex nonce ++ ['8'])).length =
            key.length + 2 * nonceBytes + 2 := by
          intro nonce
          simp only [List.length_append, List.length_cons, List.length_nil, length_nonceHex]
          omega
        by_cases fits : key.length + 2 * nonceBytes + 2 ≤ maxPinOrderKeyBytes
        · refine .inr ⟨key ++ [Nat.digitChar digit], fun nonce => ?_⟩
          rw [orderKeyLoop]
          dsimp only
          rw [if_pos room, ← isDigit, if_pos (by rw [length]; exact fits), List.append_assoc]
          rfl
        · refine .inl fun nonce => ?_
          rw [orderKeyLoop]
          dsimp only
          rw [if_pos room, ← isDigit, if_neg (by rw [length]; exact fits)]
      · refine (ih lower.tail (if (lower.head?.map hexDigit).getD 0 ≠
          ((upper.bind List.head?).map hexDigit).getD 16 then none else upper.map List.tail)
          (key ++ [Nat.digitChar ((lower.head?.map hexDigit).getD 0)])).imp ?_ ?_
        · intro long nonce
          rw [orderKeyLoop]
          dsimp only
          rw [if_neg room, long nonce]
        · rintro ⟨begins, made⟩
          refine ⟨begins, fun nonce => ?_⟩
          rw [orderKeyLoop]
          dsimp only
          rw [if_neg room, made nonce]

/-- Sound arguments pass the checks. -/
theorem pinOrderKeyBetween_eq {lower upper : Option String} {nonce : String}
    (lowerValid : ∀ low ∈ lower, validPinOrderKey low = true)
    (upperValid : ∀ high ∈ upper, validPinOrderKey high = true)
    (apart : ∀ low ∈ lower, ∀ high ∈ upper, low < high) (valid : ValidNonce nonce) :
    pinOrderKeyBetween lower upper nonce =
      orderKeyLoop nonce maxPinOrderKeyBytes ((lower.map String.toList).getD [])
        (upper.map String.toList) [] := by
  have lowers : lower.any (fun key => !validPinOrderKey key) = false := by
    cases lower with
    | none => rfl
    | some low => simp [lowerValid low rfl]
  have uppers : upper.any (fun key => !validPinOrderKey key) = false := by
    cases upper with
    | none => rfl
    | some high => simp [upperValid high rfl]
  have ordered : (lower.bind fun a => upper.map fun b => decide (a ≥ b)).getD false = false := by
    cases lower with
    | none => rfl
    | some low =>
        cases upper with
        | none => rfl
        | some high => simpa using apart low rfl high rfl
  have ascii : nonce.toList.all (fun c => decide (c.toNat < 128)) = true :=
    List.all_eq_true.mpr fun c member => decide_eq_true (valid.ascii c member)
  have noNul : nonce.toList.any (fun c => decide (c.toNat = 0)) = false := by
    rw [List.any_eq_false]
    intro c member
    simpa using valid.noNul c member
  unfold pinOrderKeyBetween
  rw [lowers, uppers, ordered, ascii, noNul]
  simp [valid.filled, valid.short]

/-- Keys between two bounds come in the order of their nonces. -/
theorem pinOrderKeyBetween_lt {lower upper : Option String} {left right leftKey rightKey : String}
    (lowerValid : ∀ low ∈ lower, validPinOrderKey low = true)
    (upperValid : ∀ high ∈ upper, validPinOrderKey high = true)
    (apart : ∀ low ∈ lower, ∀ high ∈ upper, low < high) (leftValid : ValidNonce left)
    (rightValid : ValidNonce right) (below : left < right)
    (leftMade : pinOrderKeyBetween lower upper left = .ok leftKey)
    (rightMade : pinOrderKeyBetween lower upper right = .ok rightKey) : leftKey < rightKey := by
  rw [pinOrderKeyBetween_eq lowerValid upperValid apart leftValid] at leftMade
  rw [pinOrderKeyBetween_eq lowerValid upperValid apart rightValid] at rightMade
  rcases orderKeyLoop_shape maxPinOrderKeyBytes ((lower.map String.toList).getD [])
    (upper.map String.toList) [] with long | ⟨begins, made⟩
  · rw [long] at leftMade
    cases leftMade
  · rw [made] at leftMade rightMade
    cases leftMade
    cases rightMade
    rw [String.lt_iff, String.toList_ofList, String.toList_ofList]
    exact List.append_left_lt (nonceHex_lt rightValid below)

/-- Between two bounds there is a key for every nonce, unless it gets too long, and the keys are
in the order of the nonces. -/
theorem pinOrderKeyBetween_dense {lower upper : Option String} {nonce : String}
    (lowerValid : ∀ low ∈ lower, validPinOrderKey low = true)
    (upperValid : ∀ high ∈ upper, validPinOrderKey high = true)
    (apart : ∀ low ∈ lower, ∀ high ∈ upper, low < high) (valid : ValidNonce nonce) :
    (pinOrderKeyBetween lower upper nonce = .error "Pin ordering key is too long" ∨
      ∃ key, pinOrderKeyBetween lower upper nonce = .ok key ∧ validPinOrderKey key = true ∧
        (∀ low ∈ lower, low < key) ∧ ∀ high ∈ upper, key < high) ∧
      ∀ other, ValidNonce other → ∀ key otherKey, pinOrderKeyBetween lower upper nonce = .ok key →
        pinOrderKeyBetween lower upper other = .ok otherKey →
          (key < otherKey ↔ nonce < other) ∧ (key = otherKey ↔ nonce = other) := by
  constructor
  · rcases orderKeyLoop_shape maxPinOrderKeyBytes ((lower.map String.toList).getD [])
      (upper.map String.toList) [] with long | ⟨begins, made⟩
    · exact .inl ((pinOrderKeyBetween_eq lowerValid upperValid apart valid).trans (long nonce))
    · have key := (pinOrderKeyBetween_eq lowerValid upperValid apart valid).trans (made nonce)
      exact .inr ⟨_, key, pinOrderKeyBetween_spec key⟩
  · intro other otherValid key otherKey made otherMade
    rcases lt_trichotomy nonce other with below | rfl | above
    · have ordered := pinOrderKeyBetween_lt lowerValid upperValid apart valid otherValid below made
        otherMade
      exact ⟨iff_of_true ordered below, iff_of_false ordered.ne below.ne⟩
    · have same : key = otherKey := Except.ok.inj (made.symm.trans otherMade)
      subst same
      exact ⟨iff_of_false (lt_irrefl _) (lt_irrefl _), iff_of_true rfl rfl⟩
    · have ordered := pinOrderKeyBetween_lt lowerValid upperValid apart otherValid valid above
        otherMade made
      exact ⟨iff_of_false (lt_asymm ordered) (lt_asymm above), iff_of_false ordered.ne' above.ne'⟩

theorem pinOrderKeyBetween_dense_neighbours : ∃ key, pinOrderKeyBetween (some "8") (some "9") "a" = .ok key ∧
    validPinOrderKey key = true ∧ "8" < key ∧ key < "9" := by
  have valid : ValidNonce "a" :=
    ⟨by decide, by decide, by simp, by simp⟩
  have lowerValid : ∀ low ∈ some "8", validPinOrderKey low = true := by decide
  have upperValid : ∀ high ∈ some "9", validPinOrderKey high = true := by decide
  have apart : ∀ low ∈ some "8", ∀ high ∈ some "9", low < high := by decide
  have made : (pinOrderKeyBetween (some "8") (some "9") "a").toBool = true := by decide +kernel
  rcases (pinOrderKeyBetween_dense lowerValid upperValid apart valid).1 with
    long | ⟨key, isKey, sound, above, below⟩
  · rw [long] at made
    exact absurd made Bool.false_ne_true
  · exact ⟨key, isKey, sound, above "8" rfl, below "9" rfl⟩

end Zeron.Registry
