import Zeron.Data.Packing
import Zeron.Data.Utf16

namespace Zeron.Edge

open Zeron.Data

/-! # Messages of the session document

An entry whose parts are beyond the inline cap is split into a root and continuations,
and readers stitch these together again.
-/

/-- The units of a text of ASCII characters. -/
def ascii (text : String) : Units := text.toList.map fun char => UInt16.ofNat char.toNat

inductive PartKind where
  | text
  | reasoning
  | tool
  | input
  | error
  | image
deriving DecidableEq, Repr

/-- `others` are the encoded lengths of the members besides these. -/
structure DocMessagePart where
  id : Units
  kind : PartKind
  text : Option Units := none
  reasoning : Option Units := none
  others : List Nat := []
deriving DecidableEq, Repr

/-- `shared` is what every entry of a split message has in common. -/
structure SessionMessageEntry (shared usage : Type) where
  id : Units
  parts : List DocMessagePart
  tokens : Option usage
  continuationOf : Option Units
  shared : shared
deriving DecidableEq, Repr

def PartKind.name : PartKind → String
  | .text => "text"
  | .reasoning => "reasoning"
  | .tool => "tool"
  | .input => "input"
  | .error => "error"
  | .image => "image"

/-- The bytes of a JSON string. -/
def quotedBytes (text : Units) : Nat := 2 + escapedBytes text

/-- The bytes of each member of the part that is not undefined. -/
def DocMessagePart.members (part : DocMessagePart) : List Nat :=
  [quotedBytes (ascii "id") + 1 + quotedBytes part.id,
    quotedBytes (ascii "kind") + 1 + quotedBytes (ascii part.kind.name)] ++
  (part.text.toList.map fun text => quotedBytes (ascii "text") + 1 + quotedBytes text) ++
  (part.reasoning.toList.map fun text => quotedBytes (ascii "reasoning") + 1 + quotedBytes text) ++
  part.others

/-- `encoder.encode(JSON.stringify(part)).length`. -/
def partBytes (part : DocMessagePart) : Nat := 2 + part.members.sum + (part.members.length - 1)

def continuationId (rootId : Units) (index : Nat) : Units := rootId ++ ascii ("#c" ++ toString index)

def DocMessagePart.isText (part : DocMessagePart) : Bool :=
  part.kind = .text || part.kind = .reasoning

def DocMessagePart.body (part : DocMessagePart) : Option Units :=
  match part.kind with
  | .text => part.text
  | .reasoning => part.reasoning
  | _ => none

def chunkLen (maxBytes : Nat) : Nat := max 1 (maxBytes / 4)

/-- `body.slice(off, off + chunkLen)` for each `off` of the loop. -/
def slices (length : Nat) (body : Units) : List Units :=
  (List.range ((body.length + length - 1) / length)).map fun n =>
    (body.drop (n * length)).take length

/-- A text or reasoning part of nothing but its body. -/
def plainPart (kind : PartKind) (id body : Units) : DocMessagePart :=
  if kind = .text then { id, kind := .text, text := some body }
  else { id, kind := .reasoning, reasoning := some body }

def pieceOf (part : DocMessagePart) (slice : Units × Nat) : DocMessagePart :=
  plainPart part.kind (part.id ++ ascii ("#t" ++ toString slice.2)) slice.1

/-- What a part is exploded into. -/
def atomsOf (maxBytes : Nat) (part : DocMessagePart) : List DocMessagePart :=
  match part.body with
  | some body =>
      if partBytes part > maxBytes then
        (slices (chunkLen maxBytes) body).zipIdx.map (pieceOf part)
      else [part]
  | none => [part]

/-- The groups so far, and the current one with its bytes. -/
def pushAtom (maxBytes : Nat) (packing : Packing DocMessagePart) (atom : DocMessagePart) :
    Packing DocMessagePart :=
  let bytes := partBytes atom
  if packing.last ≠ [] ∧ packing.bytes + bytes > maxBytes then
    { done := packing.done ++ [packing.last], last := [atom], bytes := bytes }
  else { packing with last := packing.last ++ [atom], bytes := packing.bytes + bytes }

def groupsOf (maxBytes : Nat) (atoms : List DocMessagePart) : List (List DocMessagePart) :=
  let packing := atoms.foldl (pushAtom maxBytes) .empty
  if packing.last = [] then packing.done else packing.done ++ [packing.last]

section entries

variable {shared usage : Type}

def entryOf (entry : SessionMessageEntry shared usage) (group : List DocMessagePart × Nat) :
    SessionMessageEntry shared usage :=
  if group.2 = 0 then { entry with parts := group.1 }
  else
    { entry with
      id := continuationId entry.id group.2
      parts := group.1
      continuationOf := some entry.id
      tokens := none }

def totalBytes (parts : List DocMessagePart) : Nat := (parts.map partBytes).sum

def splitMessageEntry (entry : SessionMessageEntry shared usage) (maxBytes : Nat) :
    List (SessionMessageEntry shared usage) :=
  if totalBytes entry.parts ≤ maxBytes then [entry]
  else (groupsOf maxBytes (entry.parts.flatMap (atomsOf maxBytes))).zipIdx.map (entryOf entry)

/-- `entry.continuationOf` as a condition: the empty id is none. -/
def SessionMessageEntry.continues (entry : SessionMessageEntry shared usage) : Option Units :=
  entry.continuationOf.filter (· ≠ [])

/-- `rootIndex`, the latest id first, and `order`. -/
structure Joining (shared usage : Type) where
  rootIndex : List (Units × Nat)
  order : List (SessionMessageEntry shared usage)

def joinEntry (joining : Joining shared usage) (entry : SessionMessageEntry shared usage) :
    Joining shared usage :=
  match entry.continues with
  | some rootId =>
      match joining.rootIndex.lookup rootId with
      | some index =>
          { joining with
            order := joining.order.modify index fun root =>
              { root with parts := root.parts ++ entry.parts } }
      | none => { joining with order := joining.order ++ [entry] }
  | none =>
      { rootIndex := (entry.id, joining.order.length) :: joining.rootIndex
        order := joining.order ++ [entry] }

def joinContinuations (entries : List (SessionMessageEntry shared usage)) :
    List (SessionMessageEntry shared usage) :=
  if entries.any (·.continues.isSome) then (entries.foldl joinEntry ⟨[], []⟩).order else entries

end entries

/-! ## Slices -/

theorem flatten_windows (length : Nat) (body : Units) (count : Nat) :
    ((List.range count).map fun n => (body.drop (n * length)).take length).flatten =
      body.take (count * length) := by
  induction count with
  | zero => simp
  | succ count ih =>
      rw [List.range_succ, List.map_append, List.flatten_append, ih, Nat.succ_mul, List.take_add]
      simp

theorem flatten_slices {length : Nat} (positive : 0 < length) (body : Units) :
    (slices length body).flatten = body := by
  rw [slices, flatten_windows]
  apply List.take_of_length_le
  have := Nat.lt_div_mul_add (a := body.length + length - 1) positive
  have := Nat.div_mul_le_self (body.length + length - 1) length
  have := Nat.mod_lt (body.length + length - 1) positive
  have := Nat.div_add_mod' (body.length + length - 1) length
  omega

theorem chunkLen_pos (maxBytes : Nat) : 0 < chunkLen maxBytes := by
  unfold chunkLen
  omega

theorem slices_eq_nil {length : Nat} {body : Units} (positive : 0 < length) :
    slices length body = [] ↔ body = [] := by
  constructor
  · intro none
    rw [← flatten_slices positive body, none, List.flatten_nil]
  · intro none
    subst none
    rw [slices, List.map_eq_nil_iff, List.range_eq_nil]
    apply Nat.div_eq_of_lt
    simp only [List.length_nil]
    omega

/-! ## Sizes -/

theorem partBytes_pos (part : DocMessagePart) : 0 < partBytes part := by
  unfold partBytes
  omega

/-- What a text part takes besides its id and its body. -/
def overhead (kind : PartKind) : Nat := if kind = .text then 33 else 43

theorem partBytes_plainPart (kind : PartKind) (id body : Units) :
    partBytes (plainPart kind id body) = overhead kind + escapedBytes id + escapedBytes body := by
  unfold plainPart overhead
  split
  · have key : escapedBytes (ascii "id") = 2 ∧ escapedBytes (ascii "kind") = 4 ∧
        escapedBytes (ascii "text") = 4 := by decide
    simp only [partBytes, DocMessagePart.members, PartKind.name, quotedBytes]
    simp [key]
    omega
  · have key : escapedBytes (ascii "id") = 2 ∧ escapedBytes (ascii "kind") = 4 ∧
        escapedBytes (ascii "reasoning") = 9 := by decide
    simp only [partBytes, DocMessagePart.members, PartKind.name, quotedBytes]
    simp [key]
    omega

theorem escapedBytes_id_le (id : Units) (index : Nat) :
    escapedBytes id ≤ escapedBytes (id ++ ascii ("#t" ++ toString index)) := by
  rw [escapedBytes_append]
  · omega
  · have head : (ascii ("#t" ++ toString index)).head? = some 35 := by
      rw [ascii, String.toList_append]
      rfl
    have low : isLow 35 = false := by decide
    rw [cutsPair, head, Option.any_some, low, Bool.and_false]

theorem body_isText {part : DocMessagePart} {body : Units} (has : part.body = some body) :
    part.isText = true := by
  unfold DocMessagePart.body at has
  unfold DocMessagePart.isText
  split at has
  next kind => simp [kind]
  next kind => simp [kind]
  next => cases has

theorem atomsOf_small {maxBytes : Nat} {part : DocMessagePart}
    (small : part.isText = true → partBytes part ≤ maxBytes) : atomsOf maxBytes part = [part] := by
  unfold atomsOf
  cases has : part.body with
  | none => rfl
  | some body => exact if_neg (Nat.not_lt.mpr (small (body_isText has)))

theorem atomsOf_large {maxBytes : Nat} {part : DocMessagePart} {body : Units}
    (large : maxBytes < partBytes part) (has : part.body = some body) :
    atomsOf maxBytes part = (slices (chunkLen maxBytes) body).zipIdx.map (pieceOf part) := by
  unfold atomsOf
  rw [has]
  exact if_pos large

theorem body_plainPart {part : DocMessagePart} {body : Units}
    (plain : part = plainPart part.kind part.id body) : part.body = some body := by
  have kind := congrArg DocMessagePart.kind plain
  rw [plain]
  unfold plainPart at kind ⊢
  split
  · rfl
  · rfl

/-- The pieces of a part take at least as many bytes as the part. -/
theorem partBytes_le_pieces {part : DocMessagePart} {bodies : List Units} (present : bodies ≠ []) :
    partBytes (plainPart part.kind part.id bodies.flatten) ≤
      totalBytes (bodies.zipIdx.map (pieceOf part)) := by
  have escaped : ∀ (bodies : List Units) (start : Nat),
      (bodies.map escapedBytes).sum ≤ totalBytes ((bodies.zipIdx start).map (pieceOf part)) := by
    intro bodies
    induction bodies with
    | nil => exact fun _ => Nat.le_refl 0
    | cons body bodies ih =>
        intro start
        have later := ih (start + 1)
        rw [totalBytes] at later
        rw [List.zipIdx_cons, List.map_cons, List.map_cons, List.sum_cons, totalBytes, List.map_cons,
          List.sum_cons, pieceOf, partBytes_plainPart]
        dsimp only
        omega
  cases bodies with
  | nil => exact absurd rfl present
  | cons body bodies =>
      have later := escaped bodies (0 + 1)
      have piece : partBytes (pieceOf part (body, 0)) = overhead part.kind +
          escapedBytes (part.id ++ ascii ("#t" ++ toString 0)) + escapedBytes body :=
        partBytes_plainPart _ _ _
      have joined := escapedBytes_flatten_le (body :: bodies)
      have longer := escapedBytes_id_le part.id 0
      rw [totalBytes] at later
      rw [List.map_cons, List.sum_cons] at joined
      rw [partBytes_plainPart, List.zipIdx_cons, List.map_cons, totalBytes, List.map_cons,
        List.sum_cons, piece]
      omega

/-! ## Groups -/

theorem pushAtom_eq {maxBytes : Nat} {packing : Packing DocMessagePart}
    (packed : packing.Packed partBytes maxBytes) (atom : DocMessagePart) :
    pushAtom maxBytes packing atom = packing.push partBytes maxBytes atom := by
  have filled : packing.last ≠ [] ↔ packing.bytes > 0 := by
    rw [packed.bytes]
    cases packing.last with
    | nil => simp
    | cons first rest =>
        have positive := partBytes_pos first
        simp
        omega
  unfold pushAtom Packing.push
  simp only [filled]

/-- The loop over the atoms is the greedy packing. -/
theorem foldl_pushAtom (maxBytes : Nat) (atoms : List DocMessagePart) :
    (atoms.foldl (pushAtom maxBytes) .empty).Packed partBytes maxBytes ∧
      (atoms.foldl (pushAtom maxBytes) .empty).chunks.flatten = atoms := by
  induction atoms using List.reverseRecOn with
  | nil => exact ⟨Packing.packed_empty, rfl⟩
  | append_singleton atoms atom ih =>
      rw [List.foldl_append, List.foldl_cons, List.foldl_nil, pushAtom_eq ih.1,
        Packing.flatten_chunks_push, ih.2]
      exact ⟨ih.1.push atom, rfl⟩

theorem filter_weight (group : List DocMessagePart) :
    group.filter (fun part => 0 < partBytes part) = group := by
  rw [List.filter_eq_self]
  intro part _
  simpa using partBytes_pos part

/-- The groups hold the atoms in order, none is empty, and a group beyond the limit is one atom. -/
theorem groupsOf_spec (maxBytes : Nat) (atoms : List DocMessagePart) :
    (groupsOf maxBytes atoms).flatten = atoms ∧
      ∀ group ∈ groupsOf maxBytes atoms, group ≠ [] ∧
        (totalBytes group ≤ maxBytes ∨ ∃ single, group = [single] ∧ maxBytes < partBytes single) := by
  obtain ⟨packed, whole⟩ := foldl_pushAtom maxBytes atoms
  have bounded := packed.bounded
  unfold groupsOf
  dsimp only
  split
  next none =>
      have nothing := packed.first none
      rw [Packing.chunks, none, nothing] at whole
      rw [nothing, ← whole]
      exact ⟨rfl, fun _ member => absurd member List.not_mem_nil⟩
  next some' =>
      refine ⟨whole, fun group member => ⟨?_, ?_⟩⟩
      · rcases List.mem_append.mp member with done | last
        · exact (packed.done group done).2
        · rw [List.mem_singleton.mp last]
          exact some'
      · rcases bounded group member with fits | ⟨single, alone, large⟩
        · exact .inl fits
        · rw [filter_weight] at alone
          exact .inr ⟨single, alone, large⟩

/-! ## Stitching -/

section stitching

variable {shared usage : Type} {entry : SessionMessageEntry shared usage}

theorem entryOf_later (group : List DocMessagePart) {index : Nat} (later : 0 < index) :
    entryOf entry (group, index) =
      { entry with
        id := continuationId entry.id index
        parts := group
        continuationOf := some entry.id
        tokens := none } := by
  unfold entryOf
  rw [if_neg later.ne']

theorem ids_later (groups : List (List DocMessagePart)) {start : Nat} (later : 0 < start) :
    ((groups.zipIdx start).map (entryOf entry)).map SessionMessageEntry.id =
      (List.range' start groups.length).map (continuationId entry.id) := by
  induction groups generalizing start with
  | nil => rfl
  | cons group groups ih =>
      rw [List.zipIdx_cons, List.map_cons, List.map_cons, entryOf_later group later,
        ih (Nat.succ_pos start), List.length_cons, List.range'_succ, List.map_cons]

theorem continues_later (group : List DocMessagePart) {index : Nat} (later : 0 < index) :
    (entryOf entry (group, index)).continues = (some entry.id).filter (· ≠ []) := by
  rw [entryOf_later group later]
  rfl

/-- Continuations of a root that stands first. -/
theorem foldl_joinEntry (named : entry.id ≠ []) (root : SessionMessageEntry shared usage)
    (groups : List (List DocMessagePart)) {start : Nat} (later : 0 < start) :
    ((groups.zipIdx start).map (entryOf entry)).foldl joinEntry ⟨[(entry.id, 0)], [root]⟩ =
      ⟨[(entry.id, 0)], [{ root with parts := root.parts ++ groups.flatten }]⟩ := by
  induction groups generalizing root start with
  | nil => simp
  | cons group groups ih =>
      have isRoot : (entryOf entry (group, start)).continues = some entry.id := by
        rw [continues_later group later, Option.filter_some, if_pos (by simpa using named)]
      have found : List.lookup entry.id [(entry.id, 0)] = some 0 := by simp
      rw [List.zipIdx_cons, List.map_cons, List.foldl_cons, joinEntry, isRoot]
      simp only [found, List.modify_zero_cons]
      rw [ih _ (Nat.succ_pos start), entryOf_later group later, List.flatten_cons, List.append_assoc]

/-- A root of its own, and its continuations, are one entry. -/
theorem joinContinuations_root (named : entry.id ≠ []) (root : entry.continues = none)
    (group : List DocMessagePart) (groups : List (List DocMessagePart)) :
    joinContinuations (((group :: groups).zipIdx).map (entryOf entry)) =
      [{ entry with parts := (group :: groups).flatten }] := by
  have first : entryOf entry (group, 0) = { entry with parts := group } := rfl
  have unjoined : ({ entry with parts := group } : SessionMessageEntry shared usage).continues =
      none := root
  rw [List.zipIdx_cons, List.map_cons, first, joinContinuations]
  split
  · rw [List.foldl_cons, joinEntry, unjoined]
    have joined := foldl_joinEntry named { entry with parts := group } groups
      (Nat.succ_pos 0)
    exact congrArg Joining.order joined
  next single =>
      cases groups with
      | nil => simp
      | cons next groups =>
          refine absurd ?_ single
          rw [List.zipIdx_cons, List.map_cons, List.any_cons, List.any_cons,
            continues_later next (Nat.succ_pos 0), Option.filter_some, if_pos (by simpa using named)]
          simp

theorem foldl_roots {entries : List (SessionMessageEntry shared usage)}
    (roots : ∀ entry ∈ entries, entry.continues = none) (joining : Joining shared usage) :
    (entries.foldl joinEntry joining).order.length = joining.order.length + entries.length := by
  induction entries generalizing joining with
  | nil => rfl
  | cons entry entries ih =>
      rw [List.foldl_cons, ih (fun other later => roots other (List.mem_cons_of_mem _ later)),
        joinEntry, roots entry List.mem_cons_self]
      simp only [List.length_append, List.length_cons, List.length_nil]
      omega

theorem foldl_orphans {entries : List (SessionMessageEntry shared usage)}
    (orphans : ∀ entry ∈ entries, entry.continues.isSome = true)
    (order : List (SessionMessageEntry shared usage)) :
    (entries.foldl joinEntry ⟨[], order⟩).order.length = order.length + entries.length := by
  induction entries generalizing order with
  | nil => rfl
  | cons entry entries ih =>
      obtain ⟨rootId, continues⟩ := Option.isSome_iff_exists.mp (orphans entry List.mem_cons_self)
      rw [List.foldl_cons, joinEntry, continues]
      simp only [List.lookup_nil]
      rw [ih fun other later => orphans other (List.mem_cons_of_mem _ later)]
      simp only [List.length_append, List.length_cons, List.length_nil]
      omega

theorem continues_of_mem {groups : List (List DocMessagePart)} {start : Nat} (later : 0 < start)
    {other : SessionMessageEntry shared usage}
    (member : other ∈ (groups.zipIdx start).map (entryOf entry)) :
    other.continues = (some entry.id).filter (· ≠ []) := by
  obtain ⟨⟨group, index⟩, inside, rfl⟩ := List.mem_map.mp member
  have after := (List.mem_zipIdx inside).1
  exact continues_later group (by omega)

/-- Where the root has no id, or continues another, nothing is joined. -/
theorem length_joinContinuations (apart : entry.id = [] ∨ entry.continues.isSome = true)
    (groups : List (List DocMessagePart)) :
    (joinContinuations (groups.zipIdx.map (entryOf entry))).length = groups.length := by
  cases groups with
  | nil => rfl
  | cons group groups =>
      have first : (entryOf entry (group, 0)).continues = entry.continues := rfl
      rw [List.zipIdx_cons, List.map_cons, joinContinuations]
      split
      · by_cases unnamed : entry.id = []
        · have roots : ∀ other ∈ (groups.zipIdx (0 + 1)).map (entryOf entry),
              other.continues = none := by
            intro other member
            rw [continues_of_mem (Nat.succ_pos 0) member, unnamed]
            rfl
          rw [List.foldl_cons, foldl_roots roots, joinEntry, first]
          cases entry.continues with
          | none => simp [Nat.add_comm]
          | some rootId => simp [Nat.add_comm]
        · have continues : entry.continues.isSome = true := apart.resolve_left unnamed
          rw [foldl_orphans]
          · simp
          · intro other member
            rcases List.mem_cons.mp member with rfl | member
            · rw [first]
              exact continues
            · rw [continues_of_mem (Nat.succ_pos 0) member, Option.filter_some,
                if_pos (by simpa using unnamed)]
              rfl
      · simp

end stitching

/-! ## Lossless splitting -/

/-- The part itself, or pieces of a part of nothing but a body. -/
def Concatenates (part : DocMessagePart) (pieces : List DocMessagePart) : Prop :=
  pieces = [part] ∨ ∃ bodies, bodies ≠ [] ∧ pieces = bodies.zipIdx.map (pieceOf part) ∧
    part = plainPart part.kind part.id bodies.flatten

/-- No slice of a body begins or ends inside a surrogate pair. -/
def PairsWhole (maxBytes : Nat) (body : Units) : Prop :=
  ∀ front back, slices (chunkLen maxBytes) body = front ++ back →
    cutsPair front.flatten back.flatten = false

structure Lossless {shared usage : Type} (entry : SessionMessageEntry shared usage)
    (maxBytes : Nat) : Prop where
  ids : ∃ count, (splitMessageEntry entry maxBytes).map SessionMessageEntry.id =
    entry.id :: (List.range' 1 count).map (continuationId entry.id)
  joined : ∃ whole, joinContinuations (splitMessageEntry entry maxBytes) = [whole] ∧
    whole.parts = entry.parts.flatMap (atomsOf maxBytes)
  pieces : ∀ part ∈ entry.parts, Concatenates part (atomsOf maxBytes part)
  pairs : ∀ part ∈ entry.parts, ∀ body, part.body = some body → maxBytes < partBytes part →
    PairsWhole maxBytes body
  bounded : ∀ split ∈ splitMessageEntry entry maxBytes,
    totalBytes split.parts ≤ maxBytes ∨ ∃ part, split.parts = [part] ∧ part.isText = false

/-- A part beyond the cap whose pieces can be put together again: there are some, of nothing but
a body, none cuts a pair and each is within the cap. -/
def Splittable (maxBytes : Nat) (part : DocMessagePart) : Prop :=
  ∃ body, part = plainPart part.kind part.id body ∧ body ≠ [] ∧ PairsWhole maxBytes body ∧
    ∀ piece ∈ atomsOf maxBytes part, partBytes piece ≤ maxBytes

/-- Where nothing is split, or each text part beyond the cap can be, and the continuations find
their root if there are any. -/
def SplitsWell {shared usage : Type} (entry : SessionMessageEntry shared usage)
    (maxBytes : Nat) : Prop :=
  totalBytes entry.parts ≤ maxBytes ∨
    (∀ part ∈ entry.parts, part.isText = true → maxBytes < partBytes part →
      Splittable maxBytes part) ∧
    ((entry.id ≠ [] ∧ entry.continues = none) ∨ ∃ part, entry.parts = [part] ∧ part.isText = false)

section splitting

variable {shared usage : Type} {entry : SessionMessageEntry shared usage} {maxBytes : Nat}
  {part piece : DocMessagePart} {body : Units}

theorem partBytes_le_total {parts : List DocMessagePart} (member : part ∈ parts) :
    partBytes part ≤ totalBytes parts :=
  List.single_le_sum (fun _ _ => Nat.zero_le _) _ (List.mem_map_of_mem member)

theorem pieceOf_isText (slice : Units × Nat) : (pieceOf part slice).isText = true := by
  unfold pieceOf plainPart DocMessagePart.isText
  split <;> rfl

theorem pieceOf_ne (slice : Units × Nat) : pieceOf part slice ≠ part := by
  intro same
  have ids := congrArg (fun part => part.id.length) same
  unfold pieceOf plainPart at ids
  have suffix : (ascii ("#t" ++ toString slice.2)).length ≠ 0 := by
    rw [ascii, List.length_map, String.toList_append, List.length_append]
    exact Nat.ne_of_gt (Nat.lt_of_lt_of_le (by decide : 0 < "#t".toList.length) (Nat.le_add_right _ _))
  split at ids
  · simp only [List.length_append] at ids
    omega
  · simp only [List.length_append] at ids
    omega

/-- An atom is a part that is not chunked, or a piece. -/
theorem mem_atomsOf (member : piece ∈ atomsOf maxBytes part) :
    (piece = part ∧ atomsOf maxBytes part = [part]) ∨
      (piece.isText = true ∧ part.isText = true ∧ maxBytes < partBytes part) := by
  cases has : part.body with
  | none =>
      have single : atomsOf maxBytes part = [part] := by
        unfold atomsOf
        rw [has]
      rw [single] at member ⊢
      exact .inl ⟨List.mem_singleton.mp member, rfl⟩
  | some body =>
      by_cases large : maxBytes < partBytes part
      · rw [atomsOf_large large has] at member
        obtain ⟨slice, -, rfl⟩ := List.mem_map.mp member
        exact .inr ⟨pieceOf_isText slice, body_isText has, large⟩
      · have single : atomsOf maxBytes part = [part] := atomsOf_small fun _ => Nat.not_lt.mp large
        rw [single] at member ⊢
        exact .inl ⟨List.mem_singleton.mp member, rfl⟩

theorem Splittable.atoms (splittable : Splittable maxBytes part) (large : maxBytes < partBytes part) :
    ∃ bodies, bodies ≠ [] ∧ atomsOf maxBytes part = bodies.zipIdx.map (pieceOf part) ∧
      part = plainPart part.kind part.id bodies.flatten := by
  obtain ⟨body, plain, filled, -, -⟩ := splittable
  refine ⟨slices (chunkLen maxBytes) body, ?_, atomsOf_large large (body_plainPart plain), ?_⟩
  · intro none
    exact filled ((slices_eq_nil (chunkLen_pos maxBytes)).mp none)
  · rw [flatten_slices (chunkLen_pos maxBytes)]
    exact plain

/-- The atoms of a part that can be split: there are some, and they take no less than the part. -/
theorem atoms_of_splittable
    (splittable : part.isText = true → maxBytes < partBytes part → Splittable maxBytes part) :
    atomsOf maxBytes part ≠ [] ∧ partBytes part ≤ totalBytes (atomsOf maxBytes part) ∧
      Concatenates part (atomsOf maxBytes part) := by
  by_cases chunked : part.isText = true ∧ maxBytes < partBytes part
  · obtain ⟨bodies, filled, atoms, plain⟩ := (splittable chunked.1 chunked.2).atoms chunked.2
    have size := @partBytes_le_pieces part bodies filled
    rw [← plain] at size
    rw [atoms]
    refine ⟨fun none => filled ?_, size, .inr ⟨bodies, filled, rfl, plain⟩⟩
    rw [List.map_eq_nil_iff, List.zipIdx_eq_nil_iff] at none
    exact none
  · have single : atomsOf maxBytes part = [part] :=
      atomsOf_small fun text => Nat.not_lt.mp fun large => chunked ⟨text, large⟩
    rw [single]
    exact ⟨List.cons_ne_nil _ _, by simp [totalBytes], .inl rfl⟩

theorem splitMessageEntry_large (large : maxBytes < totalBytes entry.parts) :
    splitMessageEntry entry maxBytes =
      (groupsOf maxBytes (entry.parts.flatMap (atomsOf maxBytes))).zipIdx.map (entryOf entry) :=
  if_neg (Nat.not_le.mpr large)

theorem parts_entryOf (group : List DocMessagePart × Nat) : (entryOf entry group).parts = group.1 := by
  unfold entryOf
  split <;> rfl

/-- What the entries of a split message hold. -/
theorem parts_split (large : maxBytes < totalBytes entry.parts) :
    (splitMessageEntry entry maxBytes).map SessionMessageEntry.parts =
      groupsOf maxBytes (entry.parts.flatMap (atomsOf maxBytes)) := by
  have parts : ((fun entry => entry.parts) ∘ entryOf entry) = (Prod.fst : List DocMessagePart × Nat → _) :=
    funext parts_entryOf
  rw [splitMessageEntry_large large, List.map_map]
  exact (congrArg (List.map · _) parts).trans (List.zipIdx_map_fst _ _)

theorem joinContinuations_single (entry : SessionMessageEntry shared usage) :
    joinContinuations [entry] = [entry] := by
  unfold joinContinuations
  split
  · rw [List.foldl_cons, List.foldl_nil, joinEntry]
    cases entry.continues <;> rfl
  · rfl

theorem mem_split {split : SessionMessageEntry shared usage}
    (large : maxBytes < totalBytes entry.parts) (member : split ∈ splitMessageEntry entry maxBytes) :
    split.parts ∈ groupsOf maxBytes (entry.parts.flatMap (atomsOf maxBytes)) := by
  rw [← parts_split large]
  exact List.mem_map_of_mem member

theorem exists_split {atom : DocMessagePart} (large : maxBytes < totalBytes entry.parts)
    (member : atom ∈ entry.parts.flatMap (atomsOf maxBytes)) :
    ∃ split ∈ splitMessageEntry entry maxBytes, atom ∈ split.parts := by
  rw [← (groupsOf_spec maxBytes (entry.parts.flatMap (atomsOf maxBytes))).1,
    ← parts_split large] at member
  obtain ⟨parts, inside, member⟩ := List.mem_flatten.mp member
  obtain ⟨split, splits, rfl⟩ := List.mem_map.mp inside
  exact ⟨split, splits, member⟩

/-- An entry that is not split. -/
theorem lossless_small (small : totalBytes entry.parts ≤ maxBytes) : Lossless entry maxBytes := by
  have whole : splitMessageEntry entry maxBytes = [entry] := if_pos small
  have single : ∀ part ∈ entry.parts, atomsOf maxBytes part = [part] := fun part member =>
    atomsOf_small fun _ => (partBytes_le_total member).trans small
  constructor
  · exact ⟨0, by rw [whole]; rfl⟩
  · refine ⟨entry, by rw [whole, joinContinuations_single], ?_⟩
    rw [List.flatMap_congr single, List.flatMap_singleton']
  · exact fun part member => .inl (single part member)
  · intro part member body _ large
    have := (partBytes_le_total member).trans small
    omega
  · intro split member
    rw [whole, List.mem_singleton] at member
    rw [member]
    exact .inl small

theorem lossless_of_splitsWell (well : SplitsWell entry maxBytes) : Lossless entry maxBytes := by
  rcases well with small | ⟨splittable, root⟩
  · exact lossless_small small
  by_cases small : totalBytes entry.parts ≤ maxBytes
  · exact lossless_small small
  have large : maxBytes < totalBytes entry.parts := Nat.not_le.mp small
  obtain ⟨whole, filled⟩ := groupsOf_spec maxBytes (entry.parts.flatMap (atomsOf maxBytes))
  have atoms := fun part member => atoms_of_splittable (splittable part member)
  obtain ⟨group, groups, isGroups⟩ :
      ∃ group groups, groupsOf maxBytes (entry.parts.flatMap (atomsOf maxBytes)) = group :: groups := by
    apply List.exists_cons_of_ne_nil
    intro none
    rw [none] at whole
    obtain ⟨first, rest, parts⟩ := List.exists_cons_of_ne_nil (l := entry.parts) (by
      intro none
      rw [none] at large
      exact absurd large (Nat.not_lt_zero _))
    have member : first ∈ entry.parts := parts ▸ List.mem_cons_self
    exact (atoms first member).1 (List.flatMap_eq_nil_iff.mp whole.symm first member)
  have result := @splitMessageEntry_large shared usage entry maxBytes large
  rw [isGroups] at result whole
  constructor
  · refine ⟨groups.length, ?_⟩
    rw [result, List.zipIdx_cons, List.map_cons, List.map_cons, ids_later groups (Nat.succ_pos 0)]
    rfl
  · rcases root with ⟨named, isRoot⟩ | ⟨part, parts, other⟩
    · refine ⟨{ entry with parts := (group :: groups).flatten }, ?_, whole⟩
      rw [result, joinContinuations_root named isRoot]
    · have single : atomsOf maxBytes part = [part] :=
        atomsOf_small fun text => absurd text (by rw [other]; exact Bool.false_ne_true)
      have alone : groups = [] := by
        rw [parts, List.flatMap_singleton, single, List.flatten_cons] at whole
        rw [isGroups] at filled
        obtain ⟨first, rest, isFirst⟩ :=
          List.exists_cons_of_ne_nil (filled group List.mem_cons_self).1
        rw [isFirst, List.cons_append, List.cons.injEq, List.append_eq_nil_iff,
          List.flatten_eq_nil_iff] at whole
        apply List.eq_nil_iff_forall_not_mem.mpr
        intro other member
        exact (filled other (List.mem_cons_of_mem _ member)).1 (whole.2.2 other member)
      subst alone
      refine ⟨{ entry with parts := group }, ?_, ?_⟩
      · rw [result]
        exact joinContinuations_single _
      · rw [← whole, List.flatten_singleton]
  · exact fun part member => (atoms part member).2.2
  · intro part member body has large
    obtain ⟨own, plain, -, pairs, -⟩ := splittable part member (body_isText has) large
    rw [body_plainPart plain] at has
    cases has
    exact pairs
  · intro split member
    have inside := mem_split large member
    rcases (filled _ inside).2 with fits | ⟨single, alone, beyond⟩
    · exact .inl fits
    · refine .inr ⟨single, alone, ?_⟩
      have atom : single ∈ entry.parts.flatMap (atomsOf maxBytes) := by
        rw [← (groupsOf_spec maxBytes (entry.parts.flatMap (atomsOf maxBytes))).1]
        exact List.mem_flatten.mpr ⟨_, inside, alone ▸ List.mem_singleton_self _⟩
      obtain ⟨part, among, own⟩ := List.mem_flatMap.mp atom
      by_contra text
      rw [Bool.not_eq_false] at text
      rcases mem_atomsOf own with ⟨same, -⟩ | ⟨-, partText, partLarge⟩
      · subst same
        obtain ⟨-, -, -, -, pieces⟩ := splittable _ among text beyond
        have := pieces _ own
        omega
      · obtain ⟨-, -, -, -, pieces⟩ := splittable _ among partText partLarge
        have := pieces _ own
        omega

theorem total_atoms (sizes : ∀ part ∈ entry.parts,
      partBytes part ≤ totalBytes (atomsOf maxBytes part)) :
    totalBytes entry.parts ≤ totalBytes (entry.parts.flatMap (atomsOf maxBytes)) := by
  generalize entry.parts = parts at sizes
  induction parts with
  | nil => exact Nat.le_refl 0
  | cons part parts ih =>
      have here := sizes part List.mem_cons_self
      have later := ih fun other member => sizes other (List.mem_cons_of_mem _ member)
      rw [totalBytes, totalBytes] at *
      rw [List.flatMap_cons, List.map_append, List.sum_append, List.map_cons, List.sum_cons]
      omega

/-- What an entry whose message is split losslessly asks of its long parts. -/
theorem Lossless.splittable (lossless : Lossless entry maxBytes) (member : part ∈ entry.parts)
    (text : part.isText = true) (large : maxBytes < partBytes part) : Splittable maxBytes part := by
  have beyond : maxBytes < totalBytes entry.parts := large.trans_le (partBytes_le_total member)
  -- No text atom is beyond the cap: its entry is within it.
  have fits : ∀ atom ∈ atomsOf maxBytes part, atom.isText = true → partBytes atom ≤ maxBytes := by
    intro atom own isText
    obtain ⟨split, splits, inside⟩ := @exists_split shared usage entry maxBytes _ beyond
      (List.mem_flatMap.mpr ⟨part, member, own⟩)
    rcases lossless.bounded split splits with small | ⟨single, alone, other⟩
    · exact (partBytes_le_total inside).trans small
    · rw [alone, List.mem_singleton] at inside
      rw [inside, other] at isText
      cases isText
  cases has : part.body with
  | none =>
      have single : atomsOf maxBytes part = [part] := by
        unfold atomsOf
        rw [has]
      have := fits part (single ▸ List.mem_singleton_self _) text
      omega
  | some body =>
      have atoms := atomsOf_large large has
      have pieces := lossless.pieces part member
      rw [atoms] at pieces
      rcases pieces with whole | ⟨bodies, filled, same, plain⟩
      · have piece : part ∈ (slices (chunkLen maxBytes) body).zipIdx.map (pieceOf part) :=
          whole ▸ List.mem_singleton_self _
        obtain ⟨slice, -, isPart⟩ := List.mem_map.mp piece
        exact absurd isPart (pieceOf_ne slice)
      · have own := (body_plainPart plain).symm.trans has
        rw [Option.some.inj own] at plain
        refine ⟨body, plain, ?_, lossless.pairs part member body has large, ?_⟩
        · intro none
          rw [(slices_eq_nil (chunkLen_pos maxBytes)).mpr none] at same
          cases bodies with
          | nil => exact filled rfl
          | cons first rest => cases same
        · intro piece inside
          apply fits piece inside
          rw [atoms] at inside
          obtain ⟨slice, -, rfl⟩ := List.mem_map.mp inside
          exact pieceOf_isText slice

/-- Splitting is lossless exactly where it splits well. -/
theorem lossless_iff (entry : SessionMessageEntry shared usage) (maxBytes : Nat) :
    Lossless entry maxBytes ↔ SplitsWell entry maxBytes := by
  constructor
  · intro lossless
    by_cases small : totalBytes entry.parts ≤ maxBytes
    · exact .inl small
    have large : maxBytes < totalBytes entry.parts := Nat.not_le.mp small
    have splittable := fun part (member : part ∈ entry.parts) => lossless.splittable member
    have atoms := fun part member => atoms_of_splittable (splittable part member)
    refine .inr ⟨splittable, ?_⟩
    by_cases root : entry.id ≠ [] ∧ entry.continues = none
    · exact .inl root
    right
    -- Nothing is joined, so there is one group, and it is one part that is no text.
    have apart : entry.id = [] ∨ entry.continues.isSome = true := by
      by_cases named : entry.id = []
      · exact .inl named
      · exact .inr (Option.isSome_iff_ne_none.mpr fun isRoot => root ⟨named, isRoot⟩)
    obtain ⟨whole, joined, -⟩ := lossless.joined
    have count := congrArg List.length joined
    rw [splitMessageEntry_large large, length_joinContinuations apart] at count
    obtain ⟨group, single⟩ := List.length_eq_one_iff.mp count
    have all := (groupsOf_spec maxBytes (entry.parts.flatMap (atomsOf maxBytes))).1
    rw [single, List.flatten_singleton] at all
    have total := @total_atoms shared usage entry maxBytes fun part member => (atoms part member).2.1
    have result := @splitMessageEntry_large shared usage entry maxBytes large
    rw [single] at result
    rcases lossless.bounded (entryOf entry (group, 0)) (by rw [result]; exact List.mem_singleton_self _)
      with fits | ⟨atom, alone, other⟩
    · rw [parts_entryOf] at fits
      change totalBytes group ≤ maxBytes at fits
      rw [all] at fits
      omega
    · rw [parts_entryOf] at alone
      change group = [atom] at alone
      rw [all] at alone
      cases parts : entry.parts with
      | nil =>
          rw [parts] at alone
          cases alone
      | cons part rest =>
          rw [parts, List.flatMap_cons] at alone
          have member : part ∈ entry.parts := parts ▸ List.mem_cons_self
          obtain ⟨first, more, isFirst⟩ := List.exists_cons_of_ne_nil (atoms part member).1
          rw [isFirst, List.cons_append, List.cons.injEq, List.append_eq_nil_iff,
            List.flatMap_eq_nil_iff] at alone
          have noRest : rest = [] := by
            apply List.eq_nil_iff_forall_not_mem.mpr
            intro next later
            exact (atoms next (parts ▸ List.mem_cons_of_mem _ later)).1 (alone.2.2 next later)
          subst noRest
          refine ⟨part, rfl, ?_⟩
          rcases mem_atomsOf (isFirst ▸ List.mem_cons_self : first ∈ atomsOf maxBytes part) with
            ⟨same, -⟩ | ⟨isText, -, -⟩
          · rw [← same, alone.1, other]
          · rw [alone.1, other] at isText
            cases isText
  · exact lossless_of_splitsWell

/-- Fifteen letters, a pair and thirty more letters: the cut after sixteen units. -/
def cutEntry : SessionMessageEntry Unit Unit where
  id := ascii "m"
  parts := [plainPart .text (ascii "p") (List.replicate 15 97 ++ [0xD83D, 0xDE00] ++
    List.replicate 30 97)]
  tokens := none
  continuationOf := none
  shared := ()

theorem not_lossless : ¬ ∀ (entry : SessionMessageEntry Unit Unit) (maxBytes : Nat),
    64 ≤ maxBytes → Lossless entry maxBytes := by
  intro lossless
  have pairs := (lossless cutEntry 64 (Nat.le_refl 64)).pairs _ List.mem_cons_self _ rfl
    (by decide)
  have whole := pairs [_] _ rfl
  revert whole
  decide

end splitting

end Zeron.Edge
