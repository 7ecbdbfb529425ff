import Zeron.Doc.Salvage
import Zeron.Doc.Joined

namespace Zeron.Doc

open Zeron.Transcript

/-! # The opening tail

The first paint shows the last parts of a document.  The window is cut inside an entry,
and only its first continuation is named after its root.
-/

variable {raw value : Type}

def PartsValue.held : PartsValue raw → List (Option (PartMap raw))
  | .list parts => parts
  | _ => []

/-- An entry with its last parts. -/
def EntryMap.cut (entry : EntryMap raw) (count : Nat) : EntryMap raw :=
  { entry with parts := .list (entry.parts.held.drop (entry.parts.held.length - count)) }

/-- The loop from the newest entry back. -/
def tailOf : Nat → List (EntryMap raw) → List (EntryMap raw)
  | _, [] => []
  | remaining, entry :: older =>
      if remaining = 0 then []
      else
        match entry.parts with
        | .list parts =>
            let count := min remaining parts.length
            { entry with parts := .list (parts.drop (parts.length - count)) } ::
              tailOf (remaining - min (max count 1) remaining) older
        | _ => { entry with parts := .list [] } :: tailOf (remaining - 1) older

/-- A segment under the id of its root. -/
def underRoot (entry : SessionMessageEntry value) : SessionMessageEntry value :=
  match entry.continuationOf with
  | some root => { entry with id := root, continuationOf := none }
  | none => entry

def renameFirst : List (SessionMessageEntry value) → List (SessionMessageEntry value)
  | [] => []
  | first :: rest => underRoot first :: rest

/-- What an entry counts in the window. -/
def EntryMap.cost (entry : EntryMap raw) : Nat := max 1 entry.parts.held.length

def costs (entries : List (EntryMap raw)) : Nat := (entries.map EntryMap.cost).sum

/-- The window of a document begins at this entry. -/
structure WindowAt (doc : List (EntryMap raw)) (maxParts : Nat) (before : List (EntryMap raw))
    (first : EntryMap raw) (later : List (EntryMap raw)) : Prop where
  split : doc = before ++ first :: later
  fits : costs later < maxParts
  full : before = [] ∨ maxParts ≤ costs (first :: later)

namespace Codec

variable (codec : Codec raw value)

def readEntries (doc : List (EntryMap raw)) : List (SessionMessageEntry value) :=
  doc.map codec.entryFromJson

def readOpeningTail (doc : List (EntryMap raw)) (maxParts : Nat) :
    List (SessionMessageEntry value) :=
  joinContinuationEntries
    (renameFirst ((tailOf maxParts doc.reverse).map codec.entryFromJson).reverse)

/-- The opening tail is a suffix of the joined transcript. -/
structure OpensAsSuffix (doc : List (EntryMap raw)) (maxParts : Nat) : Prop where
  suffix : List.SublistForall₂ Shows (codec.readOpeningTail doc maxParts)
    (joinContinuationEntries (codec.readEntries doc))
  bounded : ((codec.readOpeningTail doc maxParts).map fun entry => entry.parts.length).sum ≤ maxParts
  whole : costs doc ≤ maxParts →
    codec.readOpeningTail doc maxParts = joinContinuationEntries (codec.readEntries doc)

/-! ## What the window needs -/

def entryId (entry : EntryMap raw) : String :=
  ((entry.fields .id).bind codec.asStr).getD (codec.recoveredId entry)

def continued (entry : EntryMap raw) : Option String :=
  (entry.fields .continuationOf).bind codec.asStr

def RootIn (entries : List (EntryMap raw)) (root : String) : Prop :=
  ∃ entry ∈ entries, codec.continued entry = none ∧ codec.entryId entry = root

/-- A part that is read the same at any place of its entry. -/
def Identified (part : Option (PartMap raw)) : Prop :=
  ∀ fields, part = some fields → (fields .id).bind codec.asStr ≠ none ∨
    ∀ entryId index, codec.salvagePart fields entryId index = none

/-- A continuation of the window has its root in it, or none at all. -/
structure Clean (maxParts : Nat) (before : List (EntryMap raw)) (first : EntryMap raw)
    (later : List (EntryMap raw)) : Prop where
  root : ∀ root, codec.continued first = some root → codec.RootIn before root
  named : codec.continued first = none →
    codec.entryId (first.cut (maxParts - costs later)) = codec.entryId first
  parts : maxParts < costs (first :: later) →
    ∀ part ∈ (first.cut (maxParts - costs later)).parts.held, codec.Identified part
  later : ∀ mid entry rest, later = mid ++ entry :: rest →
    (∃ root, codec.continued entry = some root ∧
        (codec.continued first = some root ∨ codec.RootIn (first :: mid) root)) ∨
      codec.entryId (entry.cut entry.cost) = codec.entryId entry ∧
        ∀ root, codec.continued entry = some root → ¬ codec.RootIn before root

def Rejoinable (doc : List (EntryMap raw)) (maxParts : Nat) : Prop :=
  ∀ before first later, WindowAt doc maxParts before first later →
    codec.Clean maxParts before first later

/-- Entries with ids of their own, whose continuations name roots. -/
structure WellIdentified (doc : List (EntryMap raw)) : Prop where
  strict : ∀ entry ∈ doc, (codec.strictEntry entry).isSome = true
  distinct : (doc.map codec.entryId).Nodup
  roots : ∀ entry ∈ doc, ∀ root, codec.continued entry = some root →
    ∀ other ∈ doc, codec.entryId other = root → codec.continued other = none

/-! ## The window -/

end Codec

theorem cost_pos (entry : EntryMap raw) : 0 < entry.cost :=
  Nat.lt_of_lt_of_le Nat.zero_lt_one (Nat.le_max_left 1 _)

theorem tailOf_cons {remaining : Nat} (entry : EntryMap raw) (older : List (EntryMap raw))
    (isLeft : remaining ≠ 0) :
    tailOf remaining (entry :: older) =
      entry.cut remaining :: tailOf (remaining - entry.cost) older := by
  rw [tailOf, if_neg isLeft]
  unfold EntryMap.cut EntryMap.cost
  cases isParts : entry.parts with
  | list parts =>
      have start : parts.length - min remaining parts.length = parts.length - remaining := by omega
      have left : remaining - min (max (min remaining parts.length) 1) remaining =
          remaining - max 1 parts.length := by omega
      dsimp only [PartsValue.held]
      rw [start, left]
  | missing => simp [PartsValue.held]
  | other => simp [PartsValue.held]

theorem tailOf_zero (older : List (EntryMap raw)) : tailOf 0 older = [] := by
  cases older <;> rfl

theorem costs_append (first second : List (EntryMap raw)) :
    costs (first ++ second) = costs first + costs second := by
  unfold costs
  rw [List.map_append, List.sum_append]

theorem costs_cons (entry : EntryMap raw) (rest : List (EntryMap raw)) :
    costs (entry :: rest) = entry.cost + costs rest := by
  unfold costs
  rw [List.map_cons, List.sum_cons]

theorem costs_reverse (entries : List (EntryMap raw)) : costs entries.reverse = costs entries := by
  unfold costs
  rw [List.map_reverse, List.sum_reverse]

/-- The entries that fit whole. -/
theorem tailOf_append {remaining : Nat} (newer older : List (EntryMap raw))
    (fits : costs newer ≤ remaining) :
    tailOf remaining (newer ++ older) =
      (newer.map fun entry => entry.cut entry.cost) ++ tailOf (remaining - costs newer) older := by
  induction newer generalizing remaining with
  | nil => rfl
  | cons entry rest ih =>
      rw [costs_cons] at fits ⊢
      have positive := cost_pos entry
      rw [List.cons_append, tailOf_cons entry _ (by omega), ih (by omega)]
      have whole : entry.cut remaining = entry.cut entry.cost := by
        have fewer : entry.parts.held.length ≤ entry.cost := Nat.le_max_right _ _
        unfold EntryMap.cut
        rw [show entry.parts.held.length - remaining = 0 by omega,
          show entry.parts.held.length - entry.cost = 0 by omega]
      rw [whole, List.map_cons, List.cons_append, Nat.sub_sub]

theorem tailOf_window {doc before later : List (EntryMap raw)} {first : EntryMap raw} {maxParts : Nat}
    (window : WindowAt doc maxParts before first later) :
    tailOf maxParts doc.reverse =
      (later.reverse.map fun entry => entry.cut entry.cost) ++
        [first.cut (maxParts - costs later)] := by
  obtain ⟨split, fits, full⟩ := window
  rw [split, List.reverse_append, List.reverse_cons, List.append_assoc]
  rw [tailOf_append _ _ (by rw [costs_reverse]; omega), costs_reverse, List.singleton_append,
    tailOf_cons _ _ (by omega)]
  rcases full with rfl | full
  · rfl
  · rw [costs_cons] at full
    rw [show maxParts - costs later - first.cost = 0 by omega, tailOf_zero]

theorem exists_window {doc : List (EntryMap raw)} {maxParts : Nat} (nonempty : doc ≠ [])
    (positive : 0 < maxParts) :
    ∃ before first later, WindowAt doc maxParts before first later := by
  induction doc using List.reverseRecOn generalizing maxParts with
  | nil => exact absurd rfl nonempty
  | append_singleton older entry ih =>
      by_cases ends : older = [] ∨ maxParts ≤ entry.cost
      · refine ⟨older, entry, [], rfl, positive, ?_⟩
        rw [costs_cons]
        exact ends
      · rw [not_or] at ends
        obtain ⟨before, first, later, rfl, fits, full⟩ := ih ends.1 (show 0 < maxParts - entry.cost by omega)
        refine ⟨before, first, later ++ [entry], by simp, ?_, ?_⟩
        · rw [costs_append, costs_cons]
          simp only [costs, List.map_nil, List.sum_nil] at fits ⊢
          omega
        · refine full.imp_right fun full => ?_
          rw [costs_cons] at full ⊢
          rw [costs_append, costs_cons]
          omega

/-! ## Decoding a cut entry -/

namespace Codec

variable (codec : Codec raw value)

@[simp] theorem id_entryFromJson (entry : EntryMap raw) :
    (codec.entryFromJson entry).id = codec.entryId entry := by
  rw [codec.entryFromJson_eq]
  rfl

@[simp] theorem continuationOf_entryFromJson (entry : EntryMap raw) :
    (codec.entryFromJson entry).continuationOf = codec.continued entry := by
  rw [codec.entryFromJson_eq]
  rfl

theorem parts_entryFromJson (entry : EntryMap raw) :
    (codec.entryFromJson entry).parts =
      (entry.parts.held.mapIdx (codec.savedPart (codec.entryId entry))).reduceOption := by
  rw [codec.entryFromJson_eq]
  unfold salvageEntry savedParts PartsValue.held
  cases entry.parts <;> rfl

@[simp] theorem continued_cut (entry : EntryMap raw) (count : Nat) :
    codec.continued (entry.cut count) = codec.continued entry := rfl

theorem savedPart_eq {part : Option (PartMap raw)} (identified : codec.Identified part)
    (entryId other : String) (index place : Nat) :
    codec.savedPart entryId index part = codec.savedPart other place part := by
  unfold savedPart
  split
  · rfl
  · cases part with
    | none => rfl
    | some fields =>
        rw [Option.bind_some, Option.bind_some]
        rcases identified fields rfl with isId | isNone
        · obtain ⟨id, isId⟩ := Option.ne_none_iff_exists'.mp isId
          unfold salvagePart
          dsimp only
          rw [isId]
          rfl
        · rw [isNone, isNone]

/-- An entry that is not cut. -/
theorem parts_whole {entry : EntryMap raw} {count : Nat}
    (enough : entry.parts.held.length ≤ count) :
    (codec.entryFromJson (entry.cut count)).parts = (codec.entryFromJson entry).parts := by
  cases isParts : entry.parts with
  | list parts =>
      have same : entry.cut count = entry := by
        unfold EntryMap.cut
        rw [Nat.sub_eq_zero_of_le enough, List.drop_zero, isParts]
        dsimp only [PartsValue.held]
        rw [← isParts]
      rw [same]
  | missing =>
      rw [parts_entryFromJson, parts_entryFromJson]
      simp [EntryMap.cut, PartsValue.held, isParts]
  | other =>
      rw [parts_entryFromJson, parts_entryFromJson]
      simp [EntryMap.cut, PartsValue.held, isParts]

theorem parts_suffix {entry : EntryMap raw} {count : Nat}
    (identified : count < entry.parts.held.length →
      ∀ part ∈ (entry.cut count).parts.held, codec.Identified part) :
    (codec.entryFromJson (entry.cut count)).parts <:+ (codec.entryFromJson entry).parts := by
  by_cases enough : entry.parts.held.length ≤ count
  · rw [codec.parts_whole enough]
  · rw [parts_entryFromJson, parts_entryFromJson]
    have known := identified (by omega)
    obtain ⟨front, isHeld⟩ : ∃ front, entry.parts.held = front ++ (entry.cut count).parts.held :=
      ⟨_, (List.take_append_drop _ _).symm⟩
    have same : (entry.cut count).parts.held.mapIdx (codec.savedPart (codec.entryId (entry.cut count))) =
        (entry.cut count).parts.held.mapIdx fun place =>
          codec.savedPart (codec.entryId entry) (place + front.length) := by
      apply List.ext_getElem?
      intro place
      rw [List.getElem?_mapIdx, List.getElem?_mapIdx]
      cases isPart : (entry.cut count).parts.held[place]? with
      | none => rfl
      | some part =>
          exact congrArg some (codec.savedPart_eq (known part (List.mem_of_getElem? isPart)) _ _ _ _)
    rw [same]
    conv => rhs; rw [isHeld, List.mapIdx_append, List.reduceOption_append]
    exact List.suffix_append _ _

/-! ## Joining the window -/

/-- The first entry of the window, as it is joined. -/
def opener (maxParts : Nat) (first : EntryMap raw) (later : List (EntryMap raw)) :
    SessionMessageEntry value :=
  underRoot (codec.entryFromJson (first.cut (maxParts - costs later)))

def whole (entry : EntryMap raw) : SessionMessageEntry value :=
  codec.entryFromJson (entry.cut entry.cost)

section window

variable {codec} {doc before later : List (EntryMap raw)} {first : EntryMap raw} {maxParts : Nat}

theorem readOpeningTail_eq (window : WindowAt doc maxParts before first later) :
    codec.readOpeningTail doc maxParts =
      joinContinuationEntries (codec.opener maxParts first later :: later.map codec.whole) := by
  unfold readOpeningTail
  rw [tailOf_window window, List.map_append, List.reverse_append, List.map_map, List.map_reverse,
    List.reverse_reverse]
  rfl

theorem continuationOf_underRoot (entry : SessionMessageEntry value) :
    (underRoot entry).continuationOf = none := by
  unfold underRoot
  split
  · rfl
  · assumption

theorem continuationOf_opener (maxParts : Nat) (first : EntryMap raw) (later : List (EntryMap raw)) :
    (codec.opener maxParts first later).continuationOf = none := continuationOf_underRoot _

theorem parts_underRoot (entry : SessionMessageEntry value) :
    (underRoot entry).parts = entry.parts := by
  unfold underRoot
  split <;> rfl

theorem id_opener_of_continued {root : String} (continued : codec.continued first = some root) :
    (codec.opener maxParts first later).id = root := by
  have isRoot : (codec.entryFromJson (first.cut (maxParts - costs later))).continuationOf = some root := by
    rw [continuationOf_entryFromJson, continued_cut, continued]
  unfold opener underRoot
  rw [isRoot]

theorem opener_of_root (isRoot : codec.continued first = none) :
    codec.opener maxParts first later = codec.entryFromJson (first.cut (maxParts - costs later)) := by
  have opens : (codec.entryFromJson (first.cut (maxParts - costs later))).continuationOf = none := by
    rw [continuationOf_entryFromJson, continued_cut, isRoot]
  unfold opener underRoot
  rw [opens]

theorem cut_of_lt (isCut : maxParts - costs later < first.parts.held.length)
    (window : WindowAt doc maxParts before first later) : maxParts < costs (first :: later) := by
  have fits := window.fits
  have fewer : first.parts.held.length ≤ first.cost := Nat.le_max_right _ _
  rw [costs_cons]
  omega

/-- The table of the whole document at the first entry. -/
theorem lookup_before (entries : List (EntryMap raw)) (root : String) :
    ((((entries.map codec.entryFromJson).foldl Joining.add {}).rootIndex).lookup root).isSome = true ↔
      codec.RootIn entries root := by
  rw [lookup_foldl]
  simp [RootIn]

theorem shadow_first (window : WindowAt doc maxParts before first later)
    (clean : codec.Clean maxParts before first later) :
    ∃ place, Shadow (({} : Joining value).add (codec.opener maxParts first later))
      (((before.map codec.entryFromJson).foldl Joining.add {}).add (codec.entryFromJson first)) place := by
  have start : Rooted ({} : Joining value) := nofun
  apply Shadow.first (start.foldl _) (continuationOf_opener maxParts first later)
  · rw [opener, parts_underRoot]
    exact codec.parts_suffix fun isCut => clean.parts (cut_of_lt isCut window)
  · cases continued : codec.continued first with
    | none =>
        refine .inl ⟨by rw [continuationOf_entryFromJson, continued], ?_⟩
        rw [opener_of_root continued, id_entryFromJson, clean.named continued, id_entryFromJson]
    | some root =>
        have known := (lookup_before before root).mpr (clean.root root continued)
        obtain ⟨index, isIndex⟩ := Option.isSome_iff_exists.mp known
        refine .inr ⟨index, ?_, ?_⟩
        · rw [continuationOf_entryFromJson, continued, id_opener_of_continued continued]
        · rw [id_opener_of_continued continued]
          exact isIndex

/-- The table of the window knows the roots in it. -/
theorem lookup_window (mid : List (EntryMap raw))
    (named : codec.continued first = none →
      codec.entryId (first.cut (maxParts - costs later)) = codec.entryId first)
    (alike : ∀ entry ∈ mid, codec.continued entry = none →
      codec.entryId (entry.cut entry.cost) = codec.entryId entry) (root : String) :
    ((((mid.map codec.whole).foldl Joining.add
        (({} : Joining value).add (codec.opener maxParts first later))).rootIndex).lookup root).isSome =
          true ↔
      codec.continued first = some root ∨ codec.RootIn (first :: mid) root := by
  have isFirst : (codec.opener maxParts first later).id = root ↔
      codec.continued first = some root ∨
        codec.continued first = none ∧ codec.entryId first = root := by
    cases continued : codec.continued first with
    | none => simp [opener_of_root continued, named continued]
    | some name => simp [id_opener_of_continued continued]
  rw [lookup_foldl, lookup_add, isFirst]
  unfold RootIn
  rw [List.exists_mem_cons_iff, ← or_assoc]
  apply or_congr
  · simp [continuationOf_opener]
  · constructor
    · rintro ⟨_, inside, isRoot, isId⟩
      obtain ⟨entry, isEntry, rfl⟩ := List.mem_map.mp inside
      rw [whole, continuationOf_entryFromJson, continued_cut] at isRoot
      rw [whole, id_entryFromJson, alike entry isEntry isRoot] at isId
      exact ⟨entry, isEntry, isRoot, isId⟩
    · rintro ⟨entry, isEntry, isRoot, isId⟩
      refine ⟨_, List.mem_map_of_mem isEntry, ?_, ?_⟩
      · rw [whole, continuationOf_entryFromJson, continued_cut, isRoot]
      · rw [whole, id_entryFromJson, alike entry isEntry isRoot, isId]

theorem named_of_clean (clean : codec.Clean maxParts before first later) (entry : EntryMap raw)
    (inside : entry ∈ later) (isRoot : codec.continued entry = none) :
    codec.entryId (entry.cut entry.cost) = codec.entryId entry := by
  obtain ⟨mid, rest, split⟩ := List.append_of_mem inside
  rcases clean.later mid entry rest split with ⟨root, continued, _⟩ | ⟨named, _⟩
  · rw [isRoot] at continued
    cases continued
  · exact named

theorem findsRoot (clean : codec.Clean maxParts before first later) {mid rest : List (EntryMap raw)}
    {entry : EntryMap raw} (split : later = mid ++ entry :: rest) :
    FindsRoot
      ((mid.map codec.whole).foldl Joining.add
        (({} : Joining value).add (codec.opener maxParts first later)))
      ((mid.map codec.entryFromJson).foldl Joining.add
        (((before.map codec.entryFromJson).foldl Joining.add {}).add (codec.entryFromJson first)))
      (codec.whole entry) (codec.entryFromJson entry) := by
  have alike : ∀ other ∈ mid, codec.continued other = none →
      codec.entryId (other.cut other.cost) = codec.entryId other := by
    intro other inside
    apply named_of_clean clean
    rw [split]
    exact List.mem_append_left _ inside
  have joined : ∀ root, codec.continued entry = some root →
      codec.continued first = some root ∨ codec.RootIn (first :: mid) root →
      ∃ root index, (codec.entryFromJson entry).continuationOf = some root ∧
        ((mid.map codec.whole).foldl Joining.add (({} : Joining value).add
          (codec.opener maxParts first later))).rootIndex.lookup root = some index := by
    intro root continued known
    have isSome := (lookup_window mid clean.named alike root).mpr known
    obtain ⟨index, isIndex⟩ := Option.isSome_iff_exists.mp isSome
    refine ⟨root, index, ?_, isIndex⟩
    rw [continuationOf_entryFromJson, continued]
  rcases clean.later mid entry rest split with ⟨root, continued, known⟩ | ⟨named, orphan⟩
  · exact .inl (joined root continued known)
  · by_cases known : ∃ root, codec.continued entry = some root ∧ codec.RootIn (first :: mid) root
    · obtain ⟨root, continued, inside⟩ := known
      exact .inl (joined root continued (.inr inside))
    · refine .inr ⟨?_, ?_⟩
      · rw [whole, id_entryFromJson, named, id_entryFromJson]
      · intro root continued
        rw [continuationOf_entryFromJson] at continued
        have folded : (mid.map codec.entryFromJson).foldl Joining.add
            (((before.map codec.entryFromJson).foldl Joining.add {}).add (codec.entryFromJson first)) =
            ((before ++ first :: mid).map codec.entryFromJson).foldl Joining.add {} := by
          rw [List.map_append, List.foldl_append]
          rfl
        rw [folded, ← Option.not_isSome_iff_eq_none, lookup_before]
        rintro ⟨other, inside, isRoot, isId⟩
        rcases List.mem_append.mp inside with old | new
        · exact orphan root continued ⟨other, old, isRoot, isId⟩
        · exact known ⟨root, continued, other, new, isRoot, isId⟩

theorem continuationOf_whole (entry : EntryMap raw) :
    (codec.whole entry).continuationOf = (codec.entryFromJson entry).continuationOf := by
  rw [whole, continuationOf_entryFromJson, continuationOf_entryFromJson, continued_cut]

theorem parts_whole_entry (entry : EntryMap raw) :
    (codec.whole entry).parts = (codec.entryFromJson entry).parts :=
  codec.parts_whole (Nat.le_max_right _ _)

theorem readEntries_eq (split : doc = before ++ first :: later) :
    joinContinuationEntries (codec.readEntries doc) =
      ((later.map codec.entryFromJson).foldl Joining.add
        (((before.map codec.entryFromJson).foldl Joining.add {}).add (codec.entryFromJson first))).out := by
  rw [joinContinuationEntries_eq_foldl, readEntries, split, List.map_append, List.foldl_append]
  rfl

theorem suffix_of_clean (window : WindowAt doc maxParts before first later)
    (clean : codec.Clean maxParts before first later) :
    List.SublistForall₂ Shows (codec.readOpeningTail doc maxParts)
      (joinContinuationEntries (codec.readEntries doc)) := by
  obtain ⟨place, shadow⟩ := shadow_first window clean
  let pairs := later.map fun entry => (codec.whole entry, codec.entryFromJson entry)
  have alike : ∀ pair ∈ pairs, pair.1.continuationOf = pair.2.continuationOf ∧
      pair.1.parts = pair.2.parts := by
    intro pair inside
    obtain ⟨entry, _, rfl⟩ := List.mem_map.mp inside
    exact ⟨continuationOf_whole entry, parts_whole_entry entry⟩
  obtain ⟨place, shadow⟩ := shadow.foldl pairs alike (by
    intro mid pair rest split
    obtain ⟨front, back, isLater, rfl, isRest⟩ := List.map_eq_append_iff.mp split
    obtain ⟨entry, others, rfl, rfl, rfl⟩ := List.map_eq_cons_iff.mp isRest
    rw [List.map_map, List.map_map]
    exact findsRoot clean isLater)
  rw [readOpeningTail_eq window, readEntries_eq window.split, joinContinuationEntries_eq_foldl]
  rw [List.map_map, List.map_map] at shadow
  exact shadow.sublist

/-! ## Bounds -/

theorem length_parts_le (entry : EntryMap raw) :
    (codec.entryFromJson entry).parts.length ≤ entry.parts.held.length := by
  rw [parts_entryFromJson]
  refine (List.reduceOption_length_le _).trans ?_
  rw [List.length_mapIdx]

theorem length_cut (entry : EntryMap raw) (count : Nat) :
    (entry.cut count).parts.held.length = min count entry.parts.held.length := by
  unfold EntryMap.cut PartsValue.held
  rw [List.length_drop]
  omega

theorem sum_parts_eq (entries : List (SessionMessageEntry value)) :
    (entries.map fun entry => entry.parts.length).sum =
      (entries.flatMap fun entry => entry.parts).length := (List.length_flatMap ..).symm

theorem sum_whole_le (later : List (EntryMap raw)) :
    ((later.map codec.whole).map fun entry => entry.parts.length).sum ≤ costs later := by
  induction later with
  | nil => exact le_refl _
  | cons entry rest ih =>
      rw [List.map_cons, List.map_cons, List.sum_cons, costs_cons]
      have own : (codec.whole entry).parts.length ≤ entry.cost := by
        rw [parts_whole_entry]
        exact (length_parts_le entry).trans (Nat.le_max_right _ _)
      omega

theorem bounded_of_window (window : WindowAt doc maxParts before first later) :
    ((codec.readOpeningTail doc maxParts).map fun entry => entry.parts.length).sum ≤ maxParts := by
  rw [readOpeningTail_eq window, sum_parts_eq, (parts_perm _).length_eq, ← sum_parts_eq,
    List.map_cons, List.sum_cons]
  have own : (codec.opener maxParts first later).parts.length ≤ maxParts - costs later := by
    rw [opener, parts_underRoot]
    refine (length_parts_le _).trans ?_
    rw [length_cut]
    exact Nat.min_le_left _ _
  have others := @sum_whole_le raw value codec later
  have fits := window.fits
  omega

/-! ## A window that holds the document -/

theorem entryFromJson_cut {entry : EntryMap raw} {count : Nat}
    (named : codec.entryId (entry.cut count) = codec.entryId entry)
    (enough : entry.parts.held.length ≤ count) :
    codec.entryFromJson (entry.cut count) = codec.entryFromJson entry := by
  have parts := codec.parts_whole enough
  rw [entryFromJson_eq, entryFromJson_eq] at parts ⊢
  change SessionMessageEntry.mk _ _ _ _ _ _ _ _ = SessionMessageEntry.mk _ _ _ _ _ _ _ _
  rw [SessionMessageEntry.mk.injEq]
  exact ⟨named, rfl, parts, rfl, rfl, rfl, rfl, rfl⟩

theorem durationMs_whole (entry : EntryMap raw) :
    (codec.whole entry).durationMs = (codec.entryFromJson entry).durationMs := by
  rw [whole, entryFromJson_eq, entryFromJson_eq]
  rfl

theorem foldl_whole (clean : codec.Clean maxParts before first later) (back : List (EntryMap raw))
    {mid : List (EntryMap raw)} (split : later = mid ++ back) :
    (back.map codec.whole).foldl Joining.add ((mid.map codec.whole).foldl Joining.add
        (({} : Joining value).add (codec.opener maxParts first later))) =
      (back.map codec.entryFromJson).foldl Joining.add ((mid.map codec.whole).foldl Joining.add
        (({} : Joining value).add (codec.opener maxParts first later))) := by
  induction back generalizing mid with
  | nil => rfl
  | cons entry rest ih =>
      have same : ((mid.map codec.whole).foldl Joining.add
            (({} : Joining value).add (codec.opener maxParts first later))).add (codec.whole entry) =
          ((mid.map codec.whole).foldl Joining.add
            (({} : Joining value).add (codec.opener maxParts first later))).add
              (codec.entryFromJson entry) := by
        rcases findsRoot clean split with ⟨root, index, isRoot, isFound⟩ | ⟨named, _⟩
        · exact add_same (continuationOf_whole entry) (parts_whole_entry entry)
            (durationMs_whole entry) isRoot isFound
        · rw [whole, id_entryFromJson, id_entryFromJson] at named
          rw [whole, entryFromJson_cut named (Nat.le_max_right _ _)]
      have next := @ih (mid ++ [entry]) (by rw [split, List.append_assoc]; rfl)
      rw [List.map_append, List.foldl_append] at next
      rw [List.map_cons, List.map_cons, List.foldl_cons, List.foldl_cons, ← same]
      exact next

theorem whole_of_clean (window : WindowAt doc maxParts before first later)
    (clean : codec.Clean maxParts before first later) (fits : costs doc ≤ maxParts) :
    codec.readOpeningTail doc maxParts = joinContinuationEntries (codec.readEntries doc) := by
  have isAll : before = [] := by
    rcases window.full with isAll | full
    · exact isAll
    · cases before with
      | nil => rfl
      | cons older rest =>
          rw [window.split, costs_append, costs_cons] at fits
          have positive := cost_pos older
          omega
  subst isAll
  have isRoot : codec.continued first = none := by
    cases continued : codec.continued first with
    | none => rfl
    | some root =>
        obtain ⟨_, inside, _⟩ := clean.root root continued
        cases inside
  have enough : first.parts.held.length ≤ maxParts - costs later := by
    rw [window.split, List.nil_append, costs_cons] at fits
    have fewer : first.parts.held.length ≤ first.cost := Nat.le_max_right _ _
    omega
  have isFirst : codec.opener maxParts first later = codec.entryFromJson first := by
    rw [opener_of_root isRoot, entryFromJson_cut (clean.named isRoot) enough]
  have folded := @foldl_whole raw value codec [] later first maxParts clean later [] rfl
  rw [readOpeningTail_eq window, joinContinuationEntries_eq_foldl, readEntries_eq window.split,
    List.foldl_cons]
  refine (congrArg Joining.out folded).trans ?_
  rw [List.map_nil, List.foldl_nil, isFirst]
  rfl

end window

theorem opensAsSuffix_of_rejoinable (doc : List (EntryMap raw)) (maxParts : Nat)
    (rejoinable : codec.Rejoinable doc maxParts) : codec.OpensAsSuffix doc maxParts := by
  by_cases empty : doc = [] ∨ maxParts = 0
  · have isEmpty : codec.readOpeningTail doc maxParts = [] := by
      unfold readOpeningTail
      rcases empty with rfl | rfl
      · rfl
      · rw [tailOf_zero]
        rfl
    refine ⟨?_, ?_, ?_⟩
    · rw [isEmpty]
      exact .nil
    · rw [isEmpty]
      exact Nat.zero_le _
    · intro fits
      rcases empty with rfl | rfl
      · rfl
      · cases doc with
        | nil => rfl
        | cons entry rest =>
            rw [costs_cons] at fits
            have positive := cost_pos entry
            omega
  · rw [not_or] at empty
    obtain ⟨before, first, later, window⟩ := exists_window empty.1 (Nat.pos_of_ne_zero empty.2)
    have clean := rejoinable before first later window
    exact ⟨suffix_of_clean window clean, bounded_of_window window, whole_of_clean window clean⟩

/-! ## Documents whose entries have ids of their own -/

theorem mem_of_mapM {α β : Type} {read : α → Option β} {elements : List α} {found : List β}
    (isRead : elements.mapM read = some found) : ∀ element ∈ elements, read element ≠ none := by
  induction elements generalizing found with
  | nil => exact nofun
  | cons first rest ih =>
      rw [List.mapM_cons] at isRead
      obtain ⟨head, isHead, isRead⟩ := Option.bind_eq_some_iff.mp isRead
      obtain ⟨tail, isTail, _⟩ := Option.bind_eq_some_iff.mp isRead
      intro element inside
      rcases List.mem_cons.mp inside with rfl | later
      · rw [isHead]
        exact Option.some_ne_none head
      · exact ih isTail element later

section identified

variable {codec} {doc before later : List (EntryMap raw)} {first : EntryMap raw} {maxParts : Nat}

theorem id_of_strict {entry : EntryMap raw} (strict : (codec.strictEntry entry).isSome = true) :
    (entry.fields .id).bind codec.asStr ≠ none := by
  obtain ⟨read, strict⟩ := Option.isSome_iff_exists.mp strict
  unfold strictEntry at strict
  obtain ⟨id, isId, _⟩ := Option.bind_eq_some_iff.mp strict
  rw [isId]
  exact Option.some_ne_none id

theorem identified_of_strict {entry : EntryMap raw}
    (strict : (codec.strictEntry entry).isSome = true) :
    ∀ part ∈ entry.parts.held, codec.Identified part := by
  obtain ⟨read, strict⟩ := Option.isSome_iff_exists.mp strict
  unfold strictEntry at strict
  obtain ⟨id, _, strict⟩ := Option.bind_eq_some_iff.mp strict
  obtain ⟨role, _, strict⟩ := Option.bind_eq_some_iff.mp strict
  obtain ⟨parts, areParts, _⟩ := Option.bind_eq_some_iff.mp strict
  cases isList : entry.parts with
  | missing => exact nofun
  | other => exact nofun
  | list held =>
      rw [isList] at areParts
      intro part inside fields isPart
      have isRead := mem_of_mapM areParts part inside
      rw [isPart, Option.bind_some] at isRead
      refine .inl fun isNone => isRead ?_
      unfold readPart
      rw [isNone]
      rfl

theorem entryId_cut {entry : EntryMap raw} (strict : (codec.strictEntry entry).isSome = true)
    (count : Nat) : codec.entryId (entry.cut count) = codec.entryId entry := by
  obtain ⟨id, isId⟩ := Option.ne_none_iff_exists'.mp (id_of_strict strict)
  unfold entryId EntryMap.cut
  rw [isId]
  rfl

theorem ids_of_related {shown full : List (SessionMessageEntry value)}
    (related : List.SublistForall₂ Shows shown full) :
    (shown.map (·.id)).Sublist (full.map (·.id)) := by
  induction related with
  | nil => exact List.nil_sublist _
  | cons shows _ ih =>
      rw [List.map_cons, List.map_cons, shows.id]
      exact ih.cons_cons _
  | cons_right _ ih => exact ih.cons _

theorem ids_readEntries : (codec.readEntries doc).map (·.id) = doc.map codec.entryId := by
  unfold readEntries
  rw [List.map_map]
  exact List.map_congr_left fun entry _ => codec.id_entryFromJson entry

theorem ids_joined :
    ((joinContinuationEntries (codec.readEntries doc)).map (·.id)).Sublist (doc.map codec.entryId) := by
  rw [joinContinuationEntries_eq_foldl, ← ids_readEntries]
  exact ids_sublist (codec.readEntries doc) {}

/-- The ids of the tail up to an entry that stands alone in it. -/
theorem ids_tail (window : WindowAt doc maxParts before first later) {mid rest : List (EntryMap raw)}
    {entry : EntryMap raw} (split : later = mid ++ entry :: rest)
    (alone : ∀ root, codec.continued entry = some root →
      ((((mid.map codec.whole).foldl Joining.add
        (({} : Joining value).add (codec.opener maxParts first later))).rootIndex).lookup root) = none) :
    ([(codec.opener maxParts first later).id] ++ [(codec.whole entry).id]).Sublist
      ((codec.readOpeningTail doc maxParts).map (·.id)) := by
  rw [readOpeningTail_eq window, joinContinuationEntries_eq_foldl, List.foldl_cons, split,
    List.map_append, List.map_cons, List.foldl_append, List.foldl_cons, ← split]
  refine List.Sublist.trans ?_ (ids_begin _ _).sublist
  have start : ((({} : Joining value).add (codec.opener maxParts first later)).out.map (·.id)) =
      [(codec.opener maxParts first later).id] := by
    rw [add_root _ (continuationOf_opener maxParts first later)]
    rfl
  have front := ids_begin (mid.map codec.whole)
    (({} : Joining value).add (codec.opener maxParts first later))
  rw [start] at front
  rcases ids_add ((mid.map codec.whole).foldl Joining.add
    (({} : Joining value).add (codec.opener maxParts first later))) (codec.whole entry) with
    ⟨⟨root, index, continues, isFound⟩, _⟩ | added
  · rw [continuationOf_whole, continuationOf_entryFromJson] at continues
    rw [alone root continues] at isFound
    cases isFound
  · rw [added]
    exact front.sublist.append_right _

/-- A continuation that finds its root has no message of its own. -/
theorem not_mem_joined {entry : EntryMap raw} {rest : List (EntryMap raw)} {root : String}
    (distinct : (doc.map codec.entryId).Nodup) (split : doc = before ++ entry :: rest)
    (continued : codec.continued entry = some root) (known : codec.RootIn before root) :
    codec.entryId entry ∉ (joinContinuationEntries (codec.readEntries doc)).map (·.id) := by
  obtain ⟨index, isFound⟩ := Option.isSome_iff_exists.mp ((lookup_before before root).mpr known)
  have joined : ((((before.map codec.entryFromJson).foldl Joining.add {}).add
      (codec.entryFromJson entry)).out.map (·.id)) =
      ((before.map codec.entryFromJson).foldl Joining.add {}).out.map (·.id) := by
    apply ids_add_joined _ isFound
    rw [continuationOf_entryFromJson, continued]
  have front := ids_sublist (before.map codec.entryFromJson) {}
  have all := ids_sublist (rest.map codec.entryFromJson)
    (((before.map codec.entryFromJson).foldl Joining.add {}).add (codec.entryFromJson entry))
  rw [joined] at all
  have among := all.trans (front.append_right _)
  rw [readEntries_eq split]
  intro inside
  have member := among.subset inside
  rw [split, List.map_append, List.map_cons, List.nodup_middle, List.nodup_cons] at distinct
  apply distinct.1
  simpa using member

theorem clean_of_suffix (well : codec.WellIdentified doc)
    (window : WindowAt doc maxParts before first later)
    (suffix : List.SublistForall₂ Shows (codec.readOpeningTail doc maxParts)
      (joinContinuationEntries (codec.readEntries doc))) :
    codec.Clean maxParts before first later := by
  have split := window.split
  have ids := ids_of_related suffix
  have distinct : ((joinContinuationEntries (codec.readEntries doc)).map (·.id)).Nodup :=
    ids_joined.nodup well.distinct
  have firstIn : first ∈ doc := by
    rw [split]
    exact List.mem_append_right _ List.mem_cons_self
  have laterIn : ∀ entry ∈ later, entry ∈ doc := by
    intro entry inside
    rw [split]
    exact List.mem_append_right _ (List.mem_cons_of_mem _ inside)
  have isOpener : (codec.opener maxParts first later).id ∈
      (joinContinuationEntries (codec.readEntries doc)).map (·.id) := by
    apply ids.subset
    rw [readOpeningTail_eq window, joinContinuationEntries_eq_foldl, List.foldl_cons]
    apply (ids_begin _ _).subset
    rw [add_root _ (continuationOf_opener maxParts first later)]
    exact List.mem_singleton.mpr rfl
  refine ⟨?_, ?_, ?_, ?_⟩
  · intro root continued
    rw [id_opener_of_continued continued] at isOpener
    obtain ⟨other, inside, isId⟩ := List.mem_map.mp (ids_joined.subset isOpener)
    have isRoot := well.roots first firstIn root continued other inside isId
    rw [split] at inside
    rcases List.mem_append.mp inside with old | new
    · exact ⟨other, old, isRoot, isId⟩
    · rcases List.mem_cons.mp new with rfl | after
      · rw [continued] at isRoot
        cases isRoot
      · obtain ⟨mid, rest, isLater⟩ := List.append_of_mem after
        have twice := ids_tail window isLater (by
          intro name continues
          rw [isRoot] at continues
          cases continues)
        rw [id_opener_of_continued continued, whole, id_entryFromJson,
          entryId_cut (well.strict other (laterIn other after)), isId] at twice
        have nodup := (twice.trans ids).nodup distinct
        exact absurd nodup (by simp)
  · exact fun _ => entryId_cut (well.strict first firstIn) _
  · intro _ part inside
    apply identified_of_strict (well.strict first firstIn) part
    exact List.mem_of_mem_drop inside
  · intro mid entry rest isLater
    have entryIn : entry ∈ later := by
      rw [isLater]
      exact List.mem_append_right _ List.mem_cons_self
    by_cases joined : ∃ root, codec.continued entry = some root ∧
        (codec.continued first = some root ∨ codec.RootIn (first :: mid) root)
    · exact .inl joined
    · refine .inr ⟨entryId_cut (well.strict entry (laterIn entry entryIn)) _, ?_⟩
      intro root continued inBefore
      have alike : ∀ other ∈ mid, codec.continued other = none →
          codec.entryId (other.cut other.cost) = codec.entryId other := by
        intro other inside _
        apply entryId_cut (well.strict other (laterIn other _))
        rw [isLater]
        exact List.mem_append_left _ inside
      have alone := ids_tail window isLater (by
        intro name continues
        rw [← Option.not_isSome_iff_eq_none,
          lookup_window mid (fun _ => entryId_cut (well.strict first firstIn) _) alike]
        exact fun known => joined ⟨name, continues, known⟩)
      have shown : codec.entryId entry ∈
          (joinContinuationEntries (codec.readEntries doc)).map (·.id) := by
        apply (alone.trans ids).subset
        rw [whole, id_entryFromJson, entryId_cut (well.strict entry (laterIn entry entryIn))]
        exact List.mem_append_right _ (List.mem_singleton.mpr rfl)
      have whole : doc = (before ++ first :: mid) ++ entry :: rest := by
        rw [split, isLater, List.append_assoc, List.cons_append]
      have known : codec.RootIn (before ++ first :: mid) root := by
        obtain ⟨other, inside, isOther⟩ := inBefore
        exact ⟨other, List.mem_append_left _ inside, isOther⟩
      exact not_mem_joined well.distinct whole continued known shown

end identified

/-- The opening tail is a suffix of the joined transcript where its continuations find
    their roots, and where entries have ids of their own only there. -/
theorem opensAsSuffix_iff (doc : List (EntryMap raw)) (maxParts : Nat) :
    (∀ entries : List (SessionMessageEntry value), JoinsInOrder entries) ∧
      (codec.Rejoinable doc maxParts → codec.OpensAsSuffix doc maxParts) ∧
      (codec.WellIdentified doc →
        (codec.OpensAsSuffix doc maxParts ↔ codec.Rejoinable doc maxParts)) := by
  refine ⟨joinsInOrder, codec.opensAsSuffix_of_rejoinable doc maxParts, fun well => ⟨?_, ?_⟩⟩
  · intro opens before first later window
    exact clean_of_suffix well window opens.suffix
  · exact codec.opensAsSuffix_of_rejoinable doc maxParts

end Codec

/-! ## A steered turn -/

/-- An entry with one text. -/
def saying (id : String) (role : MessageRole) (continuationOf : Option String) : EntryMap Plain :=
  plain.pushMessage
    { id, role, parts := [.text id "body"], createdAt := 1, deviceId := "d1"
      status := none, continuationOf, durationMs := none }

/-- A user steers a turn, and the turn goes on in a continuation. -/
def steered : List (EntryMap Plain) :=
  [saying "a" .assistant none, saying "u" .user none, saying "a#1" .assistant (some "a")]

/-- The window that begins at the user's entry shows the continuation under its own id. -/
theorem not_opensAsSuffix : ¬ plain.OpensAsSuffix steered 2 := by
  intro opens
  have ids := Codec.ids_of_related opens.suffix
  have shown : (plain.readOpeningTail steered 2).map (·.id) = ["u", "a#1"] := rfl
  have joined : (joinContinuationEntries (plain.readEntries steered)).map (·.id) = ["a", "u"] := rfl
  rw [shown, joined] at ids
  exact absurd ids (by decide)

end Zeron.Doc
