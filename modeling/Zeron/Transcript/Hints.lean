import Zeron.Transcript.Tracker

namespace Zeron.Transcript

/-! # Append hints

A hint is given for the growth of one text; hints about the same part chain, so
that the base revision stays that of the first version in the chain.
-/

variable {value : Type}

/-- One part's text has grown, and nothing else has changed. -/
structure GrowsIn (part : Nat) (old new : SessionMessageEntry value) : Prop where
  others : new = { old with parts := new.parts }
  parts : ∃ front before after back, old.parts = front ++ before :: back ∧
    new.parts = front ++ after :: back ∧ front.length = part ∧ grows before after = true

/-- A holder of `old` needs at most the grown text of one part. -/
def HeldGrew (part : Nat) (old new : SessionMessageEntry value) : Prop :=
  new = old ∨ GrowsIn part old new

theorem isSome_stripPrefix {text front : String} :
    (stripPrefix text front).isSome = true ↔ front.toList <+: text.toList := by
  unfold stripPrefix
  split
  · rename_i begins
    exact iff_of_true rfl (List.isPrefixOf_iff_prefix.mp begins)
  · rename_i other
    exact iff_of_false nofun fun begins => other (List.isPrefixOf_iff_prefix.mpr begins)

/-- A grown part is the same text or reasoning with a longer body. -/
theorem grows_iff {old new : MessagePart value} : grows old new = true ↔
    ∃ id before after, (old = .text id before ∧ new = .text id after ∨
      old = .reasoning id before ∧ new = .reasoning id after) ∧
      before.utf8ByteSize < after.utf8ByteSize ∧ before.toList <+: after.toList := by
  constructor
  · intro grew
    cases old <;> cases new <;> simp only [grows, Bool.and_eq_true, decide_eq_true_eq,
      isSome_stripPrefix, Bool.false_eq_true] at grew
    · obtain ⟨⟨rfl, longer⟩, begins⟩ := grew
      exact ⟨_, _, _, .inl ⟨rfl, rfl⟩, longer, begins⟩
    · obtain ⟨⟨rfl, longer⟩, begins⟩ := grew
      exact ⟨_, _, _, .inr ⟨rfl, rfl⟩, longer, begins⟩
  · rintro ⟨id, before, after, ⟨rfl, rfl⟩ | ⟨rfl, rfl⟩, longer, begins⟩ <;>
      simp [grows, longer, isSome_stripPrefix.mpr begins]

theorem grows_trans {first second third : MessagePart value} (low : grows first second = true)
    (high : grows second third = true) : grows first third = true := by
  obtain ⟨id, before, between, shape, longer, begins⟩ := grows_iff.mp low
  obtain ⟨id', between', after, shape', longer', begins'⟩ := grows_iff.mp high
  have chained : before.utf8ByteSize < after.utf8ByteSize ∧ before.toList <+: after.toList ∧
      (first = .text id before ∧ third = .text id after ∨
        first = .reasoning id before ∧ third = .reasoning id after) := by
    rcases shape with ⟨rfl, rfl⟩ | ⟨rfl, rfl⟩ <;> rcases shape' with ⟨same, rfl⟩ | ⟨same, rfl⟩ <;>
      cases same
    · exact ⟨longer.trans longer', begins.trans begins', .inl ⟨rfl, rfl⟩⟩
    · exact ⟨longer.trans longer', begins.trans begins', .inr ⟨rfl, rfl⟩⟩
  exact grows_iff.mpr ⟨id, before, after, chained.2.2, chained.1, chained.2.1⟩

theorem GrowsIn.trans {part : Nat} {first second third : SessionMessageEntry value}
    (low : GrowsIn part first second) (high : GrowsIn part second third) :
    GrowsIn part first third := by
  obtain ⟨lowOthers, front, one, two, back, firstParts, secondParts, length, lowGrows⟩ := low
  obtain ⟨highOthers, front', two', three, back', secondParts', thirdParts, length', highGrows⟩ := high
  rw [secondParts] at secondParts'
  obtain ⟨rfl, tails⟩ := List.append_inj secondParts' (length.trans length'.symm)
  obtain ⟨rfl, rfl⟩ := List.cons.inj tails
  refine ⟨?_, front, one, three, back, firstParts, thirdParts, length, grows_trans lowGrows highGrows⟩
  rw [highOthers, lowOthers]

theorem HeldGrew.grows {part : Nat} {first second third : SessionMessageEntry value}
    (held : HeldGrew part first second) (grown : GrowsIn part second third) :
    HeldGrew part first third := by
  rcases held with rfl | low
  · exact .inr grown
  · exact .inr (low.trans grown)

variable [DecidableEq value]

/-- With a grown part in hand, the rest must be equal. -/
theorem grownPart_some {old new : List (MessagePart value)} (length : old.length = new.length)
    {index grown part : Nat} (found : grownPart (old.zip new) index (some grown) = some part) :
    old = new ∧ part = grown := by
  induction old generalizing new index with
  | nil =>
      rw [List.length_eq_zero_iff.mp length.symm] at found ⊢
      exact ⟨rfl, (Option.some.inj found).symm⟩
  | cons first rest ih =>
      cases new with
      | nil => cases length
      | cons other later =>
          rw [List.zip_cons_cons, grownPart] at found
          split at found
          · rename_i same
            obtain ⟨equal, part⟩ := ih (Nat.succ.inj length) found
            exact ⟨by rw [same, equal], part⟩
          · simp at found

theorem grownPart_none {old new : List (MessagePart value)} (length : old.length = new.length)
    {index part : Nat} (found : grownPart (old.zip new) index none = some part) :
    ∃ front before after back, old = front ++ before :: back ∧ new = front ++ after :: back ∧
      part = index + front.length ∧ grows before after = true := by
  induction old generalizing new index with
  | nil => cases found
  | cons first rest ih =>
      cases new with
      | nil => cases length
      | cons other later =>
          rw [List.zip_cons_cons, grownPart] at found
          split at found
          · rename_i same
            obtain ⟨front, before, after, back, olds, news, place, grew⟩ :=
              ih (Nat.succ.inj length) found
            refine ⟨first :: front, before, after, back, by rw [olds]; rfl, by rw [news, same]; rfl,
              ?_, grew⟩
            rw [List.length_cons]
            omega
          · split at found
            · cases found
            · rename_i ok
              obtain ⟨equal, part⟩ := grownPart_some (Nat.succ.inj length) found
              refine ⟨[], first, other, rest, rfl, by rw [equal]; rfl, part, ?_⟩
              simpa using ok

theorem appendHint_spec {prev : Entry value} {next : SessionMessageEntry value} {hint : AppendHint}
    (given : appendHint prev next = some hint) :
    GrowsIn hint.partIndex { prev.message with continuationOf := next.continuationOf } next ∧
      (hint.baseRev = prev.rev ∨
        ∃ earlier, prev.append = some earlier ∧ earlier.partIndex = hint.partIndex ∧
          hint.baseRev = earlier.baseRev) := by
  unfold appendHint at given
  dsimp only at given
  split at given
  · cases given
  · rename_i same
    simp only [not_or, ne_eq, not_not] at same
    obtain ⟨id, role, created, device, status, duration, length⟩ := same
    obtain ⟨part, grown, rfl⟩ := Option.map_eq_some_iff.mp given
    obtain ⟨front, before, after, back, olds, news, place, grew⟩ := grownPart_none length grown
    refine ⟨⟨?_, front, before, after, back, olds, news, by rw [place, Nat.zero_add], grew⟩, ?_⟩
    · obtain ⟨⟩ := next
      simp only at id role created device status duration
      simp [id, role, created, device, status, duration]
    · dsimp only
      cases hinted : prev.append with
      | none => exact .inl rfl
      | some earlier =>
          by_cases here : earlier.partIndex = part
          · exact .inr ⟨earlier, rfl, here, by simp [here]⟩
          · exact .inl (by simp [here])

end Zeron.Transcript
