import Zeron.Data.ByteOrder
import Zeron.Text.Spans

namespace Zeron.Text

open Zeron.Data

/-! # White-space normalization

CSS white-space processing of a text, with its spans moved onto the output.  A separate scan
of the bytes decides when all of it may be skipped.
-/

inductive WhiteSpace where
  | normal
  | preLine
  | preWrap
  | pre
deriving DecidableEq, Repr

def formFeed : Char := '\x0C'

/-- `usize::MAX`, the offset of a span that has not been reached. -/
def usizeMax : Nat := 2 ^ 64 - 1

/-- A string of the source, which is never as long as the largest offset. -/
structure Str where
  chars : List Char
  fits : utf8Length chars < usizeMax

/-! ## The scan -/

/-- The bytes after `previous`, in the modes that collapse. -/
def scanBytes (preLine : Bool) (previous : UInt8) : List UInt8 → Bool
  | [] => false
  | byte :: rest =>
      if byte = 0x09 ∨ byte = 0x0D ∨ byte = 0x0C then true
      else if byte = 0x0A ∧ preLine = false then true
      else if byte = 0x0A ∧ previous = 0x20 then true
      else if byte = 0x20 ∧ (previous = 0x20 ∨ previous = 0x0A) then true
      else scanBytes preLine byte rest

def needsNormalization (text : List Char) (mode : WhiteSpace) : Bool :=
  let bytes := text.flatMap String.utf8EncodeChar
  match mode with
  | .preWrap | .pre => bytes.any fun byte => byte = 0x0D ∨ byte = 0x0C
  | .normal | .preLine =>
      if bytes.head? = some 0x20 ∨ bytes.getLast? = some 0x20 then true
      else scanBytes (mode = .preLine) 0 bytes

/-! ## The slow path -/

/-- `current` is the span that receives output, `inSpace` the loop's `in_ws`. -/
structure Normalizer (attributes : Type) where
  out : List Char
  spans : List (Span attributes)
  current : Nat
  inSpace : Bool
deriving DecidableEq, Repr

variable {attributes : Type}

def Span.cutTo (length : Nat) (span : Span attributes) : Span attributes :=
  { span with start := min span.start length, stop := min span.stop length }

/-- The ranges of a span and of those before it are pulled back, up to one that needs none. -/
def pullBack (length : Nat) (spans : List (Span attributes)) (index : Nat) : List (Span attributes) :=
  if spans[index]?.any fun span => span.start ≤ length && span.stop ≤ length then spans
  else
    let spans := spans.modify index (Span.cutTo length)
    match index with
    | 0 => spans
    | before + 1 => pullBack length spans before

namespace Normalizer

variable (n : Normalizer attributes)

def push (char : Char) : Normalizer attributes := { n with out := n.out ++ [char] }

/-- The output ends in a space. -/
def popSpace : Normalizer attributes :=
  { n with out := n.out.dropLast, spans := pullBack (utf8Length n.out.dropLast) n.spans n.current }

def endsWith (char : Char) : Bool := n.out.getLast? = some char

def start (spans : List (Span attributes)) : Normalizer attributes :=
  { out := []
    spans := (spans.map fun span => { span with start := usizeMax, stop := usizeMax }).modify 0
      fun span => { span with start := 0 }
    current := 0
    inSpace := false }

/-- Every span that ends at or before the character is closed, the next opened. -/
def advance (spans : List (Span attributes)) (index : Nat) (n : Normalizer attributes) :
    Normalizer attributes :=
  if n.current + 1 < spans.length ∧ (spans[n.current]?.any fun span => span.stop ≤ index) then
    let length := utf8Length n.out
    advance spans index { n with
      spans := (n.spans.modify n.current fun span => { span with stop := length }).modify
        (n.current + 1) fun span => { span with start := length }
      current := n.current + 1 }
  else n
termination_by spans.length - n.current

def take (mode : WhiteSpace) (char : Char) (next : Option Char) : Normalizer attributes :=
  match mode with
  | .normal =>
      if char = ' ' ∨ char = '\t' ∨ char = '\n' ∨ char = '\r' ∨ char = formFeed then
        { (if !n.inSpace && !n.out.isEmpty then n.push ' ' else n) with inSpace := true }
      else { n.push char with inSpace := false }
  | .preLine =>
      if char = ' ' ∨ char = '\t' then
        { (if !n.inSpace && !n.out.isEmpty && !n.endsWith '\n' then n.push ' ' else n) with
          inSpace := true }
      else if char = '\r' ∧ next = some '\n' then n
      else if char = '\n' ∨ char = '\r' ∨ char = formFeed then
        { (if n.endsWith ' ' && n.inSpace then n.popSpace else n).push '\n' with inSpace := false }
      else { n.push char with inSpace := false }
  | .preWrap | .pre =>
      if char = '\r' ∧ next = some '\n' then n
      else if char = '\r' ∨ char = formFeed then n.push '\n'
      else n.push char

/-- The characters from an offset on. -/
def scan (mode : WhiteSpace) (spans : List (Span attributes)) (n : Normalizer attributes)
    (index : Nat) : List Char → Normalizer attributes
  | [] => n
  | char :: rest =>
      scan mode spans ((n.advance spans index).take mode char rest.head?) (index + char.utf8Size) rest

def trimEnd (mode : WhiteSpace) : Normalizer attributes :=
  if n.inSpace && n.endsWith ' ' && (mode = .normal || mode = .preLine) then n.popSpace else n

/-- The spans from the current one on end at the end of the output. -/
def finish : List Char × List (Span attributes) :=
  let length := utf8Length n.out
  (n.out, n.spans.mapIdx fun index span =>
    if index < n.current then span
    else { span with
      start := if span.start = usizeMax then length else span.start
      stop := length })

end Normalizer

def normalizeSlowly (text : List Char) (spans : List (Span attributes)) (mode : WhiteSpace) :
    List Char × List (Span attributes) :=
  (((Normalizer.start spans).scan mode spans 0 text).trimEnd mode).finish

def normalize (text : List Char) (spans : List (Span attributes)) (mode : WhiteSpace) :
    List Char × List (Span attributes) :=
  if !needsNormalization text mode then (text, spans) else normalizeSlowly text spans mode

/-! ## What the modes ask of a text -/

def WhiteSpace.collapses : WhiteSpace → Bool
  | .normal | .preLine => true
  | .preWrap | .pre => false

/-- Two characters that collapsing leaves next to each other. -/
def Apart (char next : Char) : Prop :=
  (char = ' ' → next ≠ ' ' ∧ next ≠ '\n') ∧ (char = '\n' → next ≠ ' ')

/-- A character no output of the mode has. -/
def WhiteSpace.refuses (mode : WhiteSpace) (char : Char) : Bool :=
  char = '\r' || char = formFeed || mode.collapses && char = '\t' || mode = .normal && char = '\n'

/-- The text as its mode leaves it, up to a space at its end. -/
structure Tidy (mode : WhiteSpace) (text : List Char) : Prop where
  clean : ∀ char ∈ text, mode.refuses char = false
  starts : mode.collapses = true → text.head? ≠ some ' '
  apart : mode.collapses = true → text.IsChain Apart

structure Obeys (mode : WhiteSpace) (text : List Char) : Prop extends Tidy mode text where
  ends : mode.collapses = true → text.getLast? ≠ some ' '

/-- A character that is neither collapsed nor turned into a newline. -/
def WhiteSpace.keeps (mode : WhiteSpace) (char : Char) : Bool :=
  match mode with
  | .normal | .preLine =>
      char ≠ ' ' && char ≠ '\t' && char ≠ '\n' && char ≠ '\r' && char ≠ formFeed
  | .preWrap | .pre => char ≠ '\n' && char ≠ '\r' && char ≠ formFeed

/-! ## Output and spans together -/

/-- The output is a labelled text, and the spans reached so far hold what carries their
number.  Where the current span ends is not known before it is closed. -/
structure Tracked (spans : List (Span attributes)) (n : Normalizer attributes)
    (labelled : Labelled) : Prop where
  attributes : n.spans.map Span.attributes = spans.map Span.attributes
  reached : n.current < spans.length
  out : n.out = labelled.map Prod.fst
  labels : ∀ entry ∈ labelled, entry.2 ≤ n.current
  ordered : InOrder labelled
  opened : ∀ index span, n.spans[index]? = some span → index ≤ n.current →
    span.start = below labelled index
  closed : ∀ index span, n.spans[index]? = some span → index < n.current →
    span.stop = below labelled (index + 1)
  unset : ∀ index span, n.spans[index]? = some span → n.current < index → span.start = usizeMax

theorem Span.cutTo_of_le {length : Nat} {span : Span attributes} (start : span.start ≤ length)
    (stop : span.stop ≤ length) : span.cutTo length = span := by
  simp only [Span.cutTo, Nat.min_eq_left start, Nat.min_eq_left stop]

theorem getElem?_modify_cutTo {length index place : Nat} {spans : List (Span attributes)} :
    (spans.modify index (Span.cutTo length))[place]? =
      if place = index then spans[place]?.map (Span.cutTo length) else spans[place]? := by
  rw [List.getElem?_modify]
  by_cases same : place = index
  · simp [same]
  · simp [same, Ne.symm same]

/-- Each span up to an index starts at its bound and ends where the next one starts. -/
structure Follows (bound : Nat → Nat) (spans : List (Span attributes)) (index : Nat) : Prop where
  mono : ∀ {low high}, low ≤ high → bound low ≤ bound high
  starts : ∀ place span, spans[place]? = some span → place ≤ index → span.start = bound place
  stops : ∀ place span, spans[place]? = some span → place < index → span.stop = bound (place + 1)

section Pulling

variable {length index : Nat} {spans : List (Span attributes)} {bound : Nat → Nat}

/-- Where a span needs no cut, none before it does. -/
theorem Follows.settled (follows : Follows bound spans index)
    (small : (spans[index]?.any fun span => span.start ≤ length && span.stop ≤ length) = true)
    (place : Nat) :
    spans[place]? = if place ≤ index then spans[place]?.map (Span.cutTo length) else spans[place]? := by
  simp only [Option.any_eq_true, Bool.and_eq_true, decide_eq_true_eq] at small
  obtain ⟨current, isCurrent, start, stop⟩ := small
  split
  · rename_i low
    cases found : spans[place]? with
    | none => rfl
    | some span =>
        rw [Option.map_some]
        by_cases same : place = index
        · rw [same, isCurrent] at found
          cases found
          rw [Span.cutTo_of_le start stop]
        · have begins := follows.starts place span found low
          have ends := follows.stops place span found (by omega)
          have opens := follows.starts index current isCurrent (Nat.le_refl index)
          have before := follows.mono low
          have after := follows.mono (show place + 1 ≤ index by omega)
          rw [Span.cutTo_of_le (by omega) (by omega)]
  · rfl

theorem getElem?_pullBack (follows : Follows bound spans index) (place : Nat) :
    (pullBack length spans index)[place]? =
      if place ≤ index then spans[place]?.map (Span.cutTo length) else spans[place]? := by
  induction index generalizing spans with
  | zero =>
      rw [pullBack]
      split
      · exact follows.settled ‹_› place
      · simp only [getElem?_modify_cutTo, Nat.le_zero]
  | succ before ih =>
      rw [pullBack]
      split
      · exact follows.settled ‹_› place
      · have moved : ∀ place span, (spans.modify (before + 1) (Span.cutTo length))[place]? = some span →
            place ≤ before → spans[place]? = some span := by
          intro place span found low
          rwa [getElem?_modify_cutTo, if_neg (by omega)] at found
        have earlier : Follows bound (spans.modify (before + 1) (Span.cutTo length)) before := by
          refine ⟨follows.mono, ?_, ?_⟩
          · intro place span found low
            exact follows.starts place span (moved place span found low) (by omega)
          · intro place span found low
            exact follows.stops place span (moved place span found (by omega)) (by omega)
        rw [ih earlier, getElem?_modify_cutTo]
        by_cases last : place = before + 1
        · simp [last]
        · by_cases low : place ≤ before
          · simp [low, last, Nat.le_succ_of_le low]
          · have high : ¬place ≤ before + 1 := by omega
            simp [low, last, high]

end Pulling

namespace Tracked

variable {spans : List (Span attributes)} {n : Normalizer attributes} {labelled : Labelled}

theorem attributes_of_getElem? {spans others : List (Span attributes)}
    (same : ∀ index : Nat, spans[index]?.map Span.attributes = others[index]?.map Span.attributes) :
    spans.map Span.attributes = others.map Span.attributes := by
  apply List.ext_getElem?
  intro index
  rw [List.getElem?_map, List.getElem?_map, same]

theorem below_current (tracked : Tracked spans n labelled) :
    below labelled (n.current + 1) = utf8Length n.out := by
  rw [tracked.out, below_all fun entry member => Nat.lt_succ_of_le (tracked.labels entry member)]

theorem start (some_span : spans ≠ []) : Tracked spans (Normalizer.start spans) [] := by
  constructor
  · apply attributes_of_getElem?
    intro index
    simp only [Normalizer.start, List.getElem?_modify, List.getElem?_map, Option.map_eq_map]
    cases spans[index]? with
    | none => rfl
    | some span =>
        simp only [Option.map_some]
        split <;> rfl
  · exact List.length_pos_iff.mpr some_span
  · rfl
  · simp
  · exact List.Pairwise.nil
  · intro index span found low
    obtain rfl : index = 0 := Nat.le_zero.mp low
    simp only [Normalizer.start, List.getElem?_modify, List.getElem?_map, if_true,
      Option.map_eq_map, Option.map_map] at found
    obtain ⟨original, -, rfl⟩ := Option.map_eq_some_iff.mp found
    rfl
  · intro index span _ low
    exact absurd low (Nat.not_lt_zero _)
  · intro index span found high
    have later : ¬0 = index := Nat.ne_of_lt high
    simp only [Normalizer.start, List.getElem?_modify, List.getElem?_map, later, if_false,
      Option.map_eq_map, Option.map_map] at found
    obtain ⟨original, -, rfl⟩ := Option.map_eq_some_iff.mp found
    rfl

theorem setSpace (tracked : Tracked spans n labelled) (inSpace : Bool) :
    Tracked spans { n with inSpace } labelled :=
  ⟨tracked.attributes, tracked.reached, tracked.out, tracked.labels, tracked.ordered, tracked.opened,
    tracked.closed, tracked.unset⟩

theorem push (tracked : Tracked spans n labelled) (char : Char) :
    Tracked spans (n.push char) (labelled ++ [(char, n.current)]) := by
  have kept : ∀ count, count ≤ n.current →
      below (labelled ++ [(char, n.current)]) count = below labelled count := by
    intro count low
    rw [below_append, below_single, if_neg (Nat.not_lt_of_le low), Nat.add_zero]
  constructor
  · exact tracked.attributes
  · exact tracked.reached
  · rw [List.map_append, ← tracked.out]
    rfl
  · intro entry member
    rcases List.mem_append.mp member with old | new
    · exact tracked.labels entry old
    · cases List.mem_singleton.mp new
      exact Nat.le_refl _
  · exact tracked.ordered.concat tracked.labels char
  · intro index span found low
    rw [kept index low]
    exact tracked.opened index span found low
  · intro index span found low
    rw [kept (index + 1) low]
    exact tracked.closed index span found low
  · exact tracked.unset

theorem follows (tracked : Tracked spans n labelled) :
    Follows (below labelled) n.spans n.current :=
  ⟨below_mono labelled, tracked.opened, tracked.closed⟩

/-- A removed space takes its byte from every range that reached over it. -/
theorem below_concat {rest : Labelled} {char : Char} {label : Nat}
    (ordered : InOrder (rest ++ [(char, label)])) (count : Nat) :
    min (below (rest ++ [(char, label)]) count) (utf8Length (rest.map Prod.fst)) =
      below rest count := by
  have small := below_le rest count
  rw [below_append, below_single]
  split
  · rename_i low
    rw [below_all]
    · omega
    · intro entry member
      have := (List.pairwise_append.mp ordered).2.2 entry member _ (List.mem_singleton_self _)
      omega
  · omega

theorem popSpace {char : Char} {label : Nat}
    (tracked : Tracked spans n (labelled ++ [(char, label)])) : Tracked spans n.popSpace labelled := by
  have shorter : n.out.dropLast = labelled.map Prod.fst := by
    rw [tracked.out, List.map_append, List.map_singleton, List.dropLast_concat]
  have cut := @getElem?_pullBack _ (utf8Length n.out.dropLast) _ _ _ tracked.follows
  constructor
  · rw [← tracked.attributes]
    apply attributes_of_getElem?
    intro index
    simp only [Normalizer.popSpace, cut]
    split
    · rw [Option.map_map]
      rfl
    · rfl
  · exact tracked.reached
  · exact shorter
  · exact fun entry member => tracked.labels entry (List.mem_append_left _ member)
  · exact tracked.ordered.left
  · intro index span found low
    simp only [Normalizer.popSpace] at found low
    rw [cut, if_pos low] at found
    obtain ⟨before, isBefore, rfl⟩ := Option.map_eq_some_iff.mp found
    have start := tracked.opened index before isBefore low
    rw [← below_concat tracked.ordered index, ← start, ← shorter]
    rfl
  · intro index span found low
    simp only [Normalizer.popSpace] at found low
    rw [cut, if_pos (Nat.le_of_lt low)] at found
    obtain ⟨before, isBefore, rfl⟩ := Option.map_eq_some_iff.mp found
    have stop := tracked.closed index before isBefore low
    rw [← below_concat tracked.ordered (index + 1), ← stop, ← shorter]
    rfl
  · intro index span found high
    simp only [Normalizer.popSpace] at found high
    rw [cut, if_neg (Nat.not_le_of_lt high)] at found
    exact tracked.unset index span found high

theorem close (tracked : Tracked spans n labelled) (more : n.current + 1 < spans.length) :
    Tracked spans { n with
      spans := (n.spans.modify n.current fun span => { span with stop := utf8Length n.out }).modify
        (n.current + 1) fun span => { span with start := utf8Length n.out }
      current := n.current + 1 } labelled := by
  have whole := tracked.below_current
  constructor
  · rw [← tracked.attributes]
    apply attributes_of_getElem?
    intro index
    simp only [List.getElem?_modify, Option.map_eq_map, Option.map_map]
    cases n.spans[index]? with
    | none => rfl
    | some span =>
        simp only [Option.map_some, Function.comp_apply]
        split <;> split <;> rfl
  · exact more
  · exact tracked.out
  · exact fun entry member => Nat.le_succ_of_le (tracked.labels entry member)
  · exact tracked.ordered
  · intro index span found low
    simp only [List.getElem?_modify, Option.map_eq_map, Option.map_map] at found low
    obtain ⟨before, isBefore, rfl⟩ := Option.map_eq_some_iff.mp found
    simp only [Function.comp_apply]
    by_cases next : n.current + 1 = index
    · rw [if_pos next, ← next, whole]
    · rw [if_neg next]
      have start := tracked.opened index before isBefore (by omega)
      split <;> exact start
  · intro index span found low
    simp only [List.getElem?_modify, Option.map_eq_map, Option.map_map] at found low
    obtain ⟨before, isBefore, rfl⟩ := Option.map_eq_some_iff.mp found
    simp only [Function.comp_apply]
    rw [if_neg (by omega)]
    by_cases here : n.current = index
    · rw [if_pos here, ← here, whole]
    · rw [if_neg here]
      exact tracked.closed index before isBefore (by omega)
  · intro index span found high
    simp only [List.getElem?_modify, Option.map_eq_map, Option.map_map] at found high
    obtain ⟨before, isBefore, rfl⟩ := Option.map_eq_some_iff.mp found
    simp only [Function.comp_apply]
    rw [if_neg (by omega), if_neg (by omega)]
    exact tracked.unset index before isBefore (by omega)

/-- The spans that end before a character are closed and its own one is current. -/
theorem advance {text : List Char} {index : Nat} (tracked : Tracked spans n labelled)
    (cover : Cover text spans) (inside : index < utf8Length text)
    (passed : n.current ≤ owner spans index) :
    Tracked spans (n.advance spans index) labelled ∧
      (n.advance spans index).current = owner spans index ∧
      (n.advance spans index).out = n.out ∧ (n.advance spans index).inSpace = n.inSpace := by
  have owned := owner_lt cover.2 (Nat.zero_le index) inside
  induction n using Normalizer.advance.induct spans index with
  | case1 n closing length ih =>
      rw [Normalizer.advance, if_pos closing]
      have another : n.current ≠ owner spans index := by
        intro same
        have holds := of_decide_eq_true (List.findIdx_getElem (w := owned))
        have stop := closing.2
        rw [same, List.getElem?_eq_getElem owned, Option.any_some, decide_eq_true_eq] at stop
        exact absurd holds (Nat.not_lt_of_le stop)
      exact ih (tracked.close closing.1) (by simp only; omega)
  | case2 n stopped =>
      rw [Normalizer.advance, if_neg stopped]
      refine ⟨tracked, ?_, rfl, rfl⟩
      by_cases last : n.current + 1 < spans.length
      · have open_span : ¬(spans[n.current]?.any fun span => decide (span.stop ≤ index)) = true :=
          fun stop => stopped ⟨last, stop⟩
        rw [List.getElem?_eq_getElem tracked.reached, Option.any_some, decide_eq_true_eq] at open_span
        apply Nat.le_antisymm passed
        apply Nat.le_of_not_lt
        intro later
        have early := List.not_of_lt_findIdx later
        simp only [decide_eq_false_iff_not] at early
        omega
      · omega

theorem finish (tracked : Tracked spans n labelled) (fits : utf8Length n.out < usizeMax) :
    Marks labelled n.finish.2 ∧ n.finish.2.map Span.attributes = spans.map Span.attributes := by
  have whole := tracked.below_current
  constructor
  · intro index span found
    simp only [Normalizer.finish, List.getElem?_mapIdx] at found
    obtain ⟨before, isBefore, rfl⟩ := Option.map_eq_some_iff.mp found
    split
    · rename_i low
      exact ⟨tracked.opened index before isBefore (Nat.le_of_lt low),
        tracked.closed index before isBefore low⟩
    · rename_i high
      by_cases here : index = n.current
      · have start := tracked.opened index before isBefore (Nat.le_of_eq here)
        have small := below_le labelled index
        rw [← tracked.out] at small
        simp only
        rw [if_neg (by omega), here, whole]
        exact ⟨here ▸ start, rfl⟩
      · have start := tracked.unset index before isBefore (by omega)
        have all : ∀ count, n.current < count → below labelled count = utf8Length n.out := by
          intro count later
          rw [tracked.out]
          exact below_all fun entry member => (tracked.labels entry member).trans_lt later
        simp only
        rw [if_pos start, all index (by omega), all (index + 1) (by omega)]
        exact ⟨rfl, rfl⟩
  · rw [← tracked.attributes]
    apply attributes_of_getElem?
    intro index
    simp only [Normalizer.finish, List.getElem?_mapIdx]
    cases n.spans[index]? with
    | none => rfl
    | some span =>
        simp only [Option.map_some]
        split <;> rfl

end Tracked

/-! ## One character -/

section Tidying

variable {mode : WhiteSpace} {out : List Char} {char : Char}

theorem Tidy.nil (mode : WhiteSpace) : Tidy mode [] :=
  ⟨by simp, by simp, fun _ => List.isChain_nil⟩

theorem Tidy.left {front back : List Char} (tidy : Tidy mode (front ++ back)) : Tidy mode front := by
  refine ⟨fun char member => tidy.clean char (List.mem_append_left _ member), ?_, ?_⟩
  · intro collapses starts
    apply tidy.starts collapses
    rw [List.head?_append, starts]
    rfl
  · exact fun collapses => (tidy.apart collapses).left_of_append

theorem Tidy.push (tidy : Tidy mode out) (clean : mode.refuses char = false)
    (first : mode.collapses = true → out = [] → char ≠ ' ')
    (apart : mode.collapses = true → ∀ last, out.getLast? = some last → Apart last char) :
    Tidy mode (out ++ [char]) := by
  refine ⟨?_, ?_, ?_⟩
  · intro other member
    rcases List.mem_append.mp member with old | new
    · exact tidy.clean other old
    · exact List.mem_singleton.mp new ▸ clean
  · intro collapses starts
    cases out with
    | nil => exact first collapses rfl (Option.some.inj starts)
    | cons head rest => exact tidy.starts collapses starts
  · intro collapses
    apply List.isChain_append.mpr
    refine ⟨tidy.apart collapses, List.isChain_singleton _, ?_⟩
    intro last isLast next isNext
    cases Option.some.inj isNext
    exact apart collapses last isLast

/-- What stands before a space is neither a space nor a newline. -/
theorem Tidy.before_space {front : List Char} (tidy : Tidy mode (front ++ [' ']))
    (collapses : mode.collapses = true) {last : Char} (isLast : front.getLast? = some last) :
    last ≠ ' ' ∧ last ≠ '\n' := by
  have apart : Apart last ' ' :=
    (List.isChain_append.mp (tidy.apart collapses)).2.2 last isLast ' ' rfl
  exact ⟨fun space => (apart.1 space).1 rfl, fun newline => apart.2 newline rfl⟩

theorem endsWith_iff {n : Normalizer attributes} : n.endsWith char = true ↔ ∃ front, n.out = front ++ [char] := by
  rw [Normalizer.endsWith, decide_eq_true_eq, List.getLast?_eq_some_iff]

end Tidying

/-- The scan has read the front of the text. -/
structure Scanned (mode : WhiteSpace) (spans : List (Span attributes)) (front : List Char)
    (n : Normalizer attributes) (labelled : Labelled) : Prop extends Tracked spans n labelled where
  kept : labelled.filter (fun entry => mode.keeps entry.1) =
    (owners spans 0 front).filter fun entry => mode.keeps entry.1
  tidy : Tidy mode n.out
  spaced : mode.collapses = true → n.endsWith ' ' = true → n.inSpace = true
  short : utf8Length n.out ≤ utf8Length front

namespace Scanned

variable {mode : WhiteSpace} {spans : List (Span attributes)} {front : List Char}
  {n : Normalizer attributes} {labelled : Labelled} {char : Char}

theorem utf8Length_concat (text : List Char) (char : Char) :
    utf8Length (text ++ [char]) = utf8Length text + char.utf8Size := by
  rw [utf8Length_append, utf8Length_cons]
  rfl

theorem owners_concat (spans : List (Span attributes)) (front : List Char) (char : Char) :
    owners spans 0 (front ++ [char]) = owners spans 0 front ++ [(char, owner spans (utf8Length front))] := by
  rw [owners_append, Nat.zero_add]
  rfl

/-- The character leaves no mark of its own in the output. -/
theorem skip (scanned : Scanned mode spans front n labelled) (lost : mode.keeps char = false)
    {inSpace : Bool} (spaced : n.inSpace = true → inSpace = true) :
    Scanned mode spans (front ++ [char]) { n with inSpace } labelled := by
  refine ⟨scanned.toTracked.setSpace inSpace, ?_, scanned.tidy, fun collapses ends =>
    spaced (scanned.spaced collapses ends), ?_⟩
  · rw [owners_concat, List.filter_append, scanned.kept]
    simp [lost]
  · rw [utf8Length_concat]
    exact Nat.le_add_right_of_le scanned.short

theorem push (scanned : Scanned mode spans front n labelled)
    (here : n.current = owner spans (utf8Length front)) {written : Char}
    (same : written = char ∨
      mode.keeps written = false ∧ mode.keeps char = false ∧ written.utf8Size = 1)
    (tidy : Tidy mode (n.out ++ [written])) {inSpace : Bool}
    (spaced : mode.collapses = true → written = ' ' → inSpace = true) :
    Scanned mode spans (front ++ [char]) { n.push written with inSpace }
      (labelled ++ [(written, n.current)]) := by
  refine ⟨(scanned.toTracked.push written).setSpace inSpace, ?_, tidy, ?_, ?_⟩
  · rw [owners_concat, List.filter_append, List.filter_append, scanned.kept, here]
    rcases same with rfl | ⟨lost, also, -⟩
    · rfl
    · simp [lost, also]
  · intro collapses ends
    apply spaced collapses
    simpa [Normalizer.endsWith, Normalizer.push] using ends
  · have short := scanned.short
    have positive := char.utf8Size_pos
    simp only [Normalizer.push, utf8Length_concat]
    rcases same with rfl | ⟨-, -, single⟩
    · omega
    · omega

/-- A space at the end of the output goes, and nothing else does. -/
theorem popSpace (scanned : Scanned mode spans front n labelled) (ends : n.endsWith ' ' = true)
    (collapses : mode.collapses = true) :
    ∃ shorter, Scanned mode spans front n.popSpace shorter ∧ n.popSpace.endsWith ' ' = false ∧
      n.out = n.popSpace.out ++ [' '] := by
  obtain ⟨rest, isOut⟩ := endsWith_iff.mp ends
  have popped : n.popSpace.out = rest := by
    simp only [Normalizer.popSpace, isOut, List.dropLast_concat]
  have out := scanned.out
  rw [isOut] at out
  obtain ⟨shorter, removed, isLabelled, isShorter, isRemoved⟩ := List.map_eq_append_iff.mp out.symm
  obtain ⟨⟨space, label⟩, rfl, isSpace⟩ := List.map_eq_singleton_iff.mp isRemoved
  subst isLabelled
  have isSpace : space = ' ' := isSpace
  have space_lost : mode.keeps space = false := by
    subst isSpace
    cases mode with
    | normal => rfl
    | preLine => rfl
    | preWrap => cases collapses
    | pre => cases collapses
  have tidy := scanned.tidy
  rw [isOut] at tidy
  have last : n.popSpace.endsWith ' ' = false := by
    rw [Normalizer.endsWith, popped, decide_eq_false_iff_not]
    intro isLast
    exact (tidy.before_space collapses isLast).1 rfl
  refine ⟨shorter, ⟨scanned.toTracked.popSpace, ?_, popped ▸ tidy.left, ?_, ?_⟩, last, popped ▸ isOut⟩
  · rw [← scanned.kept, List.filter_append]
    simp [space_lost]
  · intro _ ends
    rw [last] at ends
    cases ends
  · have short := scanned.short
    rw [isOut, utf8Length_concat] at short
    rw [popped]
    omega

theorem ends_of_getLast {last : Char} (isLast : n.out.getLast? = some last) :
    n.endsWith last = true := decide_eq_true isLast

/-- Where the loop is not in white space, the output does not end in a space. -/
theorem getLast_ne (scanned : Scanned mode spans front n labelled) (collapses : mode.collapses = true)
    (written : n.inSpace = false) {last : Char} (isLast : n.out.getLast? = some last) :
    last ≠ ' ' := by
  intro isSpace
  have inSpace := scanned.spaced collapses (isSpace ▸ ends_of_getLast isLast)
  rw [written] at inSpace
  cases inSpace

theorem take_plain (scanned : Scanned mode spans front n labelled)
    (here : n.current = owner spans (utf8Length front)) (next : Option Char)
    (plain : mode.collapses = false) :
    ∃ longer, Scanned mode spans (front ++ [char]) (n.take mode char next) longer ∧
      (n.take mode char next).current = n.current := by
  have taken : n.take mode char next =
      if char = '\r' ∧ next = some '\n' then n
      else if char = '\r' ∨ char = formFeed then n.push '\n' else n.push char := by
    cases mode <;> first | rfl | cases plain
  have lost : ∀ {char : Char}, char = '\n' ∨ char = '\r' ∨ char = formFeed →
      mode.keeps char = false := by
    rintro char (rfl | rfl | rfl) <;> cases mode <;> rfl
  have collapsed : ∀ {motive : Prop}, mode.collapses = true → motive := by
    intro motive collapses
    rw [plain] at collapses
    cases collapses
  rw [taken]
  split
  · rename_i pair
    exact ⟨_, scanned.skip (lost (.inr (.inl pair.1))) id, rfl⟩
  · split
    · rename_i line
      refine ⟨_, scanned.push here (.inr ⟨lost (.inl rfl), lost (.inr line), rfl⟩)
        (scanned.tidy.push ?_ collapsed collapsed) collapsed, rfl⟩
      cases mode <;> first | rfl | cases plain
    · rename_i other
      simp only [not_or] at other
      refine ⟨_, scanned.push here (.inl rfl)
        (scanned.tidy.push ?_ collapsed collapsed) collapsed, rfl⟩
      cases mode with
      | normal => cases plain
      | preLine => cases plain
      | preWrap => simp [WhiteSpace.refuses, WhiteSpace.collapses, other]
      | pre => simp [WhiteSpace.refuses, WhiteSpace.collapses, other]

theorem take (scanned : Scanned mode spans front n labelled)
    (here : n.current = owner spans (utf8Length front)) (next : Option Char) :
    ∃ longer, Scanned mode spans (front ++ [char]) (n.take mode char next) longer ∧
      (n.take mode char next).current = n.current := by
  cases mode with
  | normal =>
      simp only [Normalizer.take]
      split
      · rename_i space
        have lost : WhiteSpace.normal.keeps char = false := by
          rcases space with rfl | rfl | rfl | rfl | rfl <;> rfl
        split
        · rename_i writes
          simp only [Bool.and_eq_true, Bool.not_eq_true', List.isEmpty_eq_false_iff] at writes
          refine ⟨_, scanned.push here (.inr ⟨rfl, lost, rfl⟩) (scanned.tidy.push rfl ?_ ?_) ?_, rfl⟩
          · exact fun _ empty => absurd empty writes.2
          · intro collapses last isLast
            refine ⟨fun isSpace => absurd isSpace (scanned.getLast_ne collapses writes.1 isLast), ?_⟩
            rintro rfl
            have clean := scanned.tidy.clean '\n' (List.mem_of_getLast? isLast)
            cases clean
          · exact fun _ _ => rfl
        · exact ⟨_, scanned.skip lost fun _ => rfl, rfl⟩
      · rename_i solid
        simp only [not_or] at solid
        refine ⟨_, scanned.push here (.inl rfl) (scanned.tidy.push ?_ ?_ ?_) ?_, rfl⟩
        · simp [WhiteSpace.refuses, WhiteSpace.collapses, solid]
        · exact fun _ _ => solid.1
        · exact fun _ _ _ => ⟨fun _ => ⟨solid.1, solid.2.2.1⟩, fun _ => solid.1⟩
        · exact fun _ isSpace => absurd isSpace solid.1
  | preLine =>
      simp only [Normalizer.take]
      split
      · rename_i space
        have lost : WhiteSpace.preLine.keeps char = false := by
          rcases space with rfl | rfl <;> rfl
        split
        · rename_i writes
          simp only [Bool.and_eq_true, Bool.not_eq_true', List.isEmpty_eq_false_iff] at writes
          obtain ⟨⟨outside, written⟩, line⟩ := writes
          refine ⟨_, scanned.push here (.inr ⟨rfl, lost, rfl⟩) (scanned.tidy.push rfl ?_ ?_) ?_, rfl⟩
          · exact fun _ empty => absurd empty written
          · intro collapses last isLast
            refine ⟨fun isSpace => absurd isSpace (scanned.getLast_ne collapses outside isLast), ?_⟩
            rintro rfl
            rw [ends_of_getLast isLast] at line
            cases line
          · exact fun _ _ => rfl
        · exact ⟨_, scanned.skip lost fun _ => rfl, rfl⟩
      · rename_i solid
        simp only [not_or] at solid
        split
        · rename_i pair
          have lost : WhiteSpace.preLine.keeps char = false := by rw [pair.1]; rfl
          exact ⟨_, scanned.skip lost id, rfl⟩
        · split
          · rename_i line
            have lost : WhiteSpace.preLine.keeps char = false := by
              rcases line with rfl | rfl | rfl <;> rfl
            split
            · rename_i pops
              simp only [Bool.and_eq_true] at pops
              obtain ⟨shorter, popped, last, -⟩ := scanned.popSpace pops.1 rfl
              refine ⟨_, popped.push here (.inr ⟨rfl, lost, rfl⟩) (popped.tidy.push rfl ?_ ?_) ?_, rfl⟩
              · exact fun _ _ => by decide
              · intro _ other isLast
                refine ⟨fun isSpace => ?_, fun _ => by decide⟩
                have ends := isSpace ▸ ends_of_getLast isLast
                rw [last] at ends
                cases ends
              · exact fun _ isSpace => absurd isSpace (by decide)
            · rename_i stays
              refine ⟨_, scanned.push here (.inr ⟨rfl, lost, rfl⟩) (scanned.tidy.push rfl ?_ ?_) ?_, rfl⟩
              · exact fun _ _ => by decide
              · intro collapses other isLast
                refine ⟨fun isSpace => ?_, fun _ => by decide⟩
                have ends := isSpace ▸ ends_of_getLast isLast
                exact absurd (Bool.and_eq_true_iff.mpr ⟨ends, scanned.spaced collapses ends⟩) stays
              · exact fun _ isSpace => absurd isSpace (by decide)
          · rename_i other
            simp only [not_or] at other
            refine ⟨_, scanned.push here (.inl rfl) (scanned.tidy.push ?_ ?_ ?_) ?_, rfl⟩
            · simp [WhiteSpace.refuses, WhiteSpace.collapses, solid, other]
            · exact fun _ _ => solid.1
            · exact fun _ _ _ => ⟨fun _ => ⟨solid.1, other.1⟩, fun _ => solid.1⟩
            · exact fun _ isSpace => absurd isSpace solid.1
  | preWrap => exact scanned.take_plain here next rfl
  | pre => exact scanned.take_plain here next rfl

theorem start (mode : WhiteSpace) (some_span : spans ≠ []) :
    Scanned mode spans [] (Normalizer.start spans) [] := by
  refine ⟨Tracked.start some_span, rfl, Tidy.nil mode, ?_, Nat.le_refl _⟩
  intro _ ends
  cases ends

/-- The loop over the rest of the text. -/
theorem scan {rest : List Char} (cover : Cover (front ++ rest) spans)
    (scanned : Scanned mode spans front n labelled)
    (passed : n.current ≤ owner spans (utf8Length front)) :
    ∃ longer, Scanned mode spans (front ++ rest) (n.scan mode spans (utf8Length front) rest) longer := by
  induction rest generalizing front n labelled with
  | nil =>
      rw [List.append_nil]
      exact ⟨labelled, scanned⟩
  | cons char rest ih =>
      have positive := char.utf8Size_pos
      have inside : utf8Length front < utf8Length (front ++ char :: rest) := by
        rw [utf8Length_append, utf8Length_cons]
        omega
      obtain ⟨tracked, here, out, inSpace⟩ := scanned.toTracked.advance cover inside passed
      have advanced : Scanned mode spans front (n.advance spans (utf8Length front)) labelled := by
        refine ⟨tracked, scanned.kept, out ▸ scanned.tidy, ?_, out ▸ scanned.short⟩
        rw [Normalizer.endsWith, out, inSpace]
        exact scanned.spaced
      obtain ⟨longer, taken, stays⟩ := advanced.take here rest.head?
      have shift : front ++ char :: rest = (front ++ [char]) ++ rest := by simp
      have size := utf8Length_concat front char
      rw [shift] at cover ⊢
      rw [Normalizer.scan, ← size]
      apply ih cover taken
      rw [stays, here, size]
      exact owner_mono spans (Nat.le_add_right _ _)

/-- The space the loop leaves at the end goes. -/
theorem trimEnd (scanned : Scanned mode spans front n labelled) :
    ∃ shorter, Scanned mode spans front (n.trimEnd mode) shorter ∧ Obeys mode (n.trimEnd mode).out := by
  unfold Normalizer.trimEnd
  split
  · rename_i pops
    simp only [Bool.and_eq_true, Bool.or_eq_true, decide_eq_true_eq] at pops
    have collapses : mode.collapses = true := by rcases pops.2 with rfl | rfl <;> rfl
    obtain ⟨shorter, popped, last, -⟩ := scanned.popSpace pops.1.2 collapses
    refine ⟨shorter, popped, popped.tidy, ?_⟩
    intro _ ends
    rw [ends_of_getLast ends] at last
    cases last
  · rename_i stays
    refine ⟨labelled, scanned, scanned.tidy, ?_⟩
    intro collapses ends
    apply stays
    have ends := ends_of_getLast ends
    have inSpace := scanned.spaced collapses ends
    cases mode <;> simp_all [WhiteSpace.collapses]

end Scanned

/-! ## A text that obeys its mode -/

namespace Scanned

variable {mode : WhiteSpace} {spans : List (Span attributes)} {front : List Char}
  {n : Normalizer attributes} {char : Char}

/-- A character the mode leaves where it is. -/
theorem take_of_tidy (tidy : Tidy mode (front ++ [char])) (out : n.out = front)
    (spaced : mode.collapses = true → n.inSpace = n.endsWith ' ') (next : Option Char) :
    ∃ inSpace, n.take mode char next = { n.push char with inSpace } ∧
      (mode.collapses = true → inSpace = decide (char = ' ')) := by
  have clean := tidy.clean char (List.mem_append_right _ (List.mem_singleton_self _))
  simp only [WhiteSpace.refuses, Bool.or_eq_false_iff, Bool.and_eq_false_iff,
    decide_eq_false_iff_not] at clean
  obtain ⟨⟨⟨return_free, feed_free⟩, tab_free⟩, line_free⟩ := clean
  have space : mode.collapses = true → char = ' ' →
      n.inSpace = false ∧ n.out ≠ [] ∧ n.endsWith '\n' = false := by
    rintro collapses rfl
    refine ⟨?_, ?_, ?_⟩
    · rw [spaced collapses, Normalizer.endsWith, out, decide_eq_false_iff_not]
      exact fun isLast => (tidy.before_space collapses isLast).1 rfl
    · rw [out]
      rintro rfl
      exact tidy.starts collapses rfl
    · rw [Normalizer.endsWith, out, decide_eq_false_iff_not]
      exact fun isLast => (tidy.before_space collapses isLast).2 rfl
  cases mode with
  | normal =>
      have tab_free : char ≠ '\t' := tab_free.resolve_left (by decide)
      have line_free : char ≠ '\n' := line_free.resolve_left (by decide)
      refine ⟨decide (char = ' '), ?_, fun _ => rfl⟩
      by_cases isSpace : char = ' '
      · obtain ⟨outside, written, -⟩ := space rfl isSpace
        subst isSpace
        simp [Normalizer.take, outside, written]
      · simp [Normalizer.take, isSpace, tab_free, line_free, return_free, feed_free]
  | preLine =>
      have tab_free : char ≠ '\t' := tab_free.resolve_left (by decide)
      refine ⟨decide (char = ' '), ?_, fun _ => rfl⟩
      by_cases isSpace : char = ' '
      · obtain ⟨outside, written, line⟩ := space rfl isSpace
        subst isSpace
        simp [Normalizer.take, outside, written, line]
      · by_cases isLine : char = '\n'
        · have ends : n.endsWith ' ' = false := by
            rw [Normalizer.endsWith, out, decide_eq_false_iff_not]
            intro isLast
            have apart : Apart ' ' char :=
              (List.isChain_append.mp (tidy.apart rfl)).2.2 ' ' isLast char rfl
            exact (apart.1 rfl).2 isLine
          subst isLine
          simp [Normalizer.take, ends]
        · simp [Normalizer.take, isSpace, isLine, tab_free, return_free, feed_free]
  | preWrap => exact ⟨n.inSpace, by simp [Normalizer.take, Normalizer.push, return_free, feed_free], nofun⟩
  | pre => exact ⟨n.inSpace, by simp [Normalizer.take, Normalizer.push, return_free, feed_free], nofun⟩

/-- The loop writes a text that obeys its mode as it stands. -/
theorem scan_of_tidy {rest : List Char} (cover : Cover (front ++ rest) spans)
    (tidy : Tidy mode (front ++ rest)) (tracked : Tracked spans n (owners spans 0 front))
    (spaced : mode.collapses = true → n.inSpace = n.endsWith ' ')
    (passed : n.current ≤ owner spans (utf8Length front)) :
    Tracked spans (n.scan mode spans (utf8Length front) rest) (owners spans 0 (front ++ rest)) := by
  induction rest generalizing front n with
  | nil =>
      rw [List.append_nil]
      exact tracked
  | cons char rest ih =>
      have positive := char.utf8Size_pos
      have inside : utf8Length front < utf8Length (front ++ char :: rest) := by
        rw [utf8Length_append, utf8Length_cons]
        omega
      obtain ⟨advanced, here, out, inSpace⟩ := tracked.advance cover inside passed
      have shift : front ++ char :: rest = (front ++ [char]) ++ rest := by simp
      have size := utf8Length_concat front char
      rw [shift] at cover tidy ⊢
      have out : (n.advance spans (utf8Length front)).out = front := by
        rw [out, tracked.out, map_fst_owners]
      obtain ⟨spaces, taken, marked⟩ := take_of_tidy tidy.left out
        (fun collapses => by
          rw [inSpace, spaced collapses, Normalizer.endsWith, Normalizer.endsWith, out,
            tracked.out, map_fst_owners]) rest.head?
      have pushed := (advanced.push char).setSpace spaces
      rw [here, ← owners_concat] at pushed
      rw [Normalizer.scan, ← size, taken]
      apply ih cover tidy pushed
      · intro collapses
        rw [marked collapses]
        simp [Normalizer.endsWith, Normalizer.push]
      · simp only [Normalizer.push]
        rw [here, size]
        exact owner_mono spans (Nat.le_add_right _ _)

end Scanned

/-- The slow path leaves a text that obeys its mode alone, with its spans. -/
theorem normalizeSlowly_of_obeys {mode : WhiteSpace} {text : Str} {spans : List (Span attributes)}
    (cover : Cover text.chars spans) (obeys : Obeys mode text.chars) :
    normalizeSlowly text.chars spans mode = (text.chars, spans) := by
  have tracked : Tracked spans ((Normalizer.start spans).scan mode spans 0 text.chars)
      (owners spans 0 text.chars) :=
    @Scanned.scan_of_tidy _ _ _ [] _ _ cover obeys.toTidy (Tracked.start cover.1)
      (fun _ => rfl) (Nat.zero_le _)
  have out : ((Normalizer.start spans).scan mode spans 0 text.chars).out = text.chars := by
    rw [tracked.out, map_fst_owners]
  have untrimmed : ((Normalizer.start spans).scan mode spans 0 text.chars).trimEnd mode =
      (Normalizer.start spans).scan mode spans 0 text.chars := by
    rw [Normalizer.trimEnd, if_neg]
    intro trims
    simp only [Bool.and_eq_true, Bool.or_eq_true, decide_eq_true_eq, Normalizer.endsWith, out] at trims
    apply obeys.ends _ trims.1.2
    rcases trims.2 with rfl | rfl <;> rfl
  obtain ⟨marks, same⟩ := tracked.finish (by rw [out]; exact text.fits)
  rw [normalizeSlowly, untrimmed]
  exact Prod.ext out (marks.unique cover.marks same)

/-! ## The scan of the bytes -/

section Bytes

/-- What the scan sees of a character: its byte, or none that it looks for. -/
def markOf (char : Char) : UInt8 := if char.toNat < 128 then UInt8.ofNat char.toNat else 0

theorem markOf_eq {char sought : Char} (positive : 0 < sought.toNat) (ascii : sought.toNat < 128) :
    markOf char = UInt8.ofNat sought.toNat ↔ char = sought := by
  constructor
  · intro same
    have values := congrArg UInt8.toNat same
    rw [markOf] at values
    split at values
    · simp only [UInt8.toNat_ofNat'] at values
      apply Char.toNat_inj.mp
      omega
    · simp only [UInt8.toNat_ofNat'] at values
      rw [Nat.mod_eq_of_lt (by omega)] at values
      exact absurd values (Nat.ne_of_lt positive)
  · rintro rfl
    rw [markOf, if_pos ascii]

theorem encode_shape (char : Char) :
    String.utf8EncodeChar char = [markOf char] ∨
      (markOf char = 0 ∧ String.utf8EncodeChar char ≠ [] ∧
        ∀ byte ∈ String.utf8EncodeChar char, 0x80 ≤ byte) := by
  have digit : ∀ value, value < 64 → 0x80 ≤ UInt8.ofNat (value + 0x80) := by
    intro value small
    rw [UInt8.le_iff_toNat_le, UInt8.toNat_ofNat']
    have : UInt8.toNat 0x80 = 0x80 := rfl
    omega
  rcases utf8EncodeChar_cases char with ⟨low, code⟩ | ⟨low, high, code⟩ | ⟨low, high, code⟩ | ⟨low, high, code⟩
  · left
    rw [code, markOf, if_pos (by omega)]
    rfl
  all_goals
    right
    refine ⟨by rw [markOf, if_neg (by omega)], by rw [code]; exact List.cons_ne_nil _ _, ?_⟩
    intro byte member
    rw [code] at member
    rcases List.mem_cons.mp member with rfl | later
    · rw [UInt8.le_iff_toNat_le, UInt8.toNat_ofNat']
      have : UInt8.toNat 0x80 = 0x80 := rfl
      omega
    · obtain ⟨value, isDigit, rfl⟩ := List.mem_map.mp later
      apply digit
      simp only [List.mem_cons, List.not_mem_nil, or_false] at isDigit
      omega

/-- Of the byte before, the scan asks only whether it is a space or a newline. -/
theorem scanBytes_previous (preLine : Bool) {previous other : UInt8}
    (space : previous = 0x20 ↔ other = 0x20) (line : previous = 0x0A ↔ other = 0x0A)
    (bytes : List UInt8) : scanBytes preLine previous bytes = scanBytes preLine other bytes := by
  cases bytes with
  | nil => rfl
  | cons byte rest => simp only [scanBytes, space, line]

theorem scanBytes_high (preLine : Bool) (previous : UInt8) {bytes : List UInt8}
    (some_byte : bytes ≠ []) (high : ∀ byte ∈ bytes, 0x80 ≤ byte) (rest : List UInt8) :
    scanBytes preLine previous (bytes ++ rest) = scanBytes preLine 0 rest := by
  induction bytes generalizing previous with
  | nil => exact absurd rfl some_byte
  | cons byte bytes ih =>
      have large := high byte List.mem_cons_self
      have differ : ∀ low : UInt8, low < 0x80 → byte ≠ low := by
        rintro low small rfl
        exact absurd small (UInt8.not_lt.mpr large)
      rw [List.cons_append, scanBytes, if_neg (by simp [differ]), if_neg (by simp [differ]),
        if_neg (by simp [differ]), if_neg (by simp [differ])]
      cases bytes with
      | nil =>
          apply scanBytes_previous
          · simp [differ]
          · simp [differ]
      | cons next bytes =>
          exact ih byte (List.cons_ne_nil _ _) fun other member =>
            high other (List.mem_cons_of_mem _ member)

theorem markOf_space (char : Char) : markOf char = 0x20 ↔ char = ' ' :=
  @markOf_eq char ' ' (by decide) (by decide)

theorem markOf_tab (char : Char) : markOf char = 0x09 ↔ char = '\t' :=
  @markOf_eq char '\t' (by decide) (by decide)

theorem markOf_line (char : Char) : markOf char = 0x0A ↔ char = '\n' :=
  @markOf_eq char '\n' (by decide) (by decide)

theorem markOf_return (char : Char) : markOf char = 0x0D ↔ char = '\r' :=
  @markOf_eq char '\r' (by decide) (by decide)

theorem markOf_feed (char : Char) : markOf char = 0x0C ↔ char = formFeed :=
  @markOf_eq char formFeed (by decide) (by decide)

/-- A wide character is none the scan looks for. -/
theorem plain_of_mark {char : Char} (mark : markOf char = 0) :
    char ≠ ' ' ∧ char ≠ '\t' ∧ char ≠ '\n' ∧ char ≠ '\r' ∧ char ≠ formFeed := by
  rw [Ne, ← markOf_space, Ne, ← markOf_tab, Ne, ← markOf_line, Ne, ← markOf_return, Ne, ← markOf_feed,
    mark]
  decide

theorem scanBytes_char {mode : WhiteSpace} (collapses : mode.collapses = true) (previous char : Char)
    (rest : List UInt8) :
    scanBytes (mode = .preLine) (markOf previous) (String.utf8EncodeChar char ++ rest) = false ↔
      mode.refuses char = false ∧ Apart previous char ∧
        scanBytes (mode = .preLine) (markOf char) rest = false := by
  rcases encode_shape char with code | ⟨mark, some_byte, high⟩
  · rw [code, List.singleton_append, scanBytes]
    simp only [markOf_space, markOf_tab, markOf_line, markOf_return, markOf_feed]
    by_cases blank : char = '\t' ∨ char = '\r' ∨ char = formFeed
    · have refused : mode.refuses char = true := by
        rcases blank with rfl | rfl | rfl <;> simp [WhiteSpace.refuses, collapses]
      simp [blank, refused]
    · rw [if_neg blank]
      simp only [not_or] at blank
      by_cases line : char = '\n'
      · subst line
        cases mode <;> simp [WhiteSpace.refuses, WhiteSpace.collapses, Apart, blank] at collapses ⊢
      · have accepted : mode.refuses char = false := by
          simp [WhiteSpace.refuses, blank, line]
        by_cases space : char = ' '
        · subst space
          simp [accepted, Apart]
        · simp [accepted, Apart, line, space]
  · obtain ⟨space, tab, line, back, feed⟩ := plain_of_mark mark
    rw [scanBytes_high _ _ some_byte high, mark]
    simp [WhiteSpace.refuses, Apart, space, tab, line, back, feed]

theorem scanBytes_iff {mode : WhiteSpace} (collapses : mode.collapses = true) (previous : Char)
    (text : List Char) :
    scanBytes (mode = .preLine) (markOf previous) (text.flatMap String.utf8EncodeChar) = false ↔
      (∀ char ∈ text, mode.refuses char = false) ∧ (previous :: text).IsChain Apart := by
  induction text generalizing previous with
  | nil => simp [scanBytes]
  | cons char rest ih =>
      rw [List.flatMap_cons, scanBytes_char collapses, ih char, List.forall_mem_cons,
        List.isChain_cons_cons]
      exact ⟨fun ⟨clean, apart, rest, chain⟩ => ⟨⟨clean, rest⟩, apart, chain⟩,
        fun ⟨⟨clean, rest⟩, apart, chain⟩ => ⟨clean, apart, rest, chain⟩⟩

theorem head_bytes (text : List Char) :
    (text.flatMap String.utf8EncodeChar).head? = some 0x20 ↔ text.head? = some ' ' := by
  cases text with
  | nil => simp
  | cons char rest =>
      rw [List.flatMap_cons]
      rcases encode_shape char with code | ⟨mark, some_byte, high⟩
      · simp [code, markOf_space]
      · obtain ⟨byte, bytes, code⟩ := List.exists_cons_of_ne_nil some_byte
        have large := high byte (by rw [code]; exact List.mem_cons_self)
        have differ : byte ≠ 0x20 := by
          rintro rfl
          exact absurd large (by decide)
        simp [code, differ, (plain_of_mark mark).1]

theorem last_bytes (text : List Char) :
    (text.flatMap String.utf8EncodeChar).getLast? = some 0x20 ↔ text.getLast? = some ' ' := by
  induction text using List.reverseRecOn with
  | nil => simp
  | append_singleton front char _ =>
      rw [List.flatMap_append, List.flatMap_singleton, List.getLast?_concat]
      rcases encode_shape char with code | ⟨mark, some_byte, high⟩
      · simp [code, markOf_space]
      · obtain ⟨bytes, byte, code⟩ := (List.eq_nil_or_concat' _).resolve_left some_byte
        have large := high byte (by rw [code]; exact List.mem_append_right _ (List.mem_singleton_self _))
        have differ : byte ≠ 0x20 := by
          rintro rfl
          exact absurd large (by decide)
        rw [code, ← List.append_assoc, List.getLast?_concat]
        simp [differ, (plain_of_mark mark).1]

theorem any_bytes (text : List Char) :
    ((text.flatMap String.utf8EncodeChar).any fun byte => byte = 0x0D ∨ byte = 0x0C) = false ↔
      ∀ char ∈ text, char ≠ '\r' ∧ char ≠ formFeed := by
  induction text with
  | nil => simp
  | cons char rest ih =>
      rw [List.flatMap_cons, List.any_append, Bool.or_eq_false_iff, ih, List.forall_mem_cons]
      apply and_congr_left'
      rcases encode_shape char with code | ⟨mark, -, high⟩
      · simp [code, markOf_return, markOf_feed]
      · obtain ⟨-, -, -, back, feed⟩ := plain_of_mark mark
        simp only [ne_eq, back, feed, not_false_eq_true, and_self, iff_true, List.any_eq_false,
          decide_eq_true_eq]
        rintro byte member (rfl | rfl)
        · exact absurd (high _ member) (by decide)
        · exact absurd (high _ member) (by decide)

/-- The scan passes exactly the texts that already are as their mode leaves them. -/
theorem needsNormalization_iff (text : List Char) (mode : WhiteSpace) :
    needsNormalization text mode = false ↔ Obeys mode text := by
  have plain : mode.collapses = false →
      (((text.flatMap String.utf8EncodeChar).any fun byte => byte = 0x0D ∨ byte = 0x0C) = false ↔
        Obeys mode text) := by
    intro plain
    have accepts : ∀ char, mode.refuses char = false ↔ char ≠ '\r' ∧ char ≠ formFeed := by
      intro char
      cases mode <;> simp [WhiteSpace.refuses, WhiteSpace.collapses] at plain ⊢
    rw [any_bytes]
    constructor
    · intro clean
      refine ⟨⟨fun char member => (accepts char).mpr (clean char member), ?_, ?_⟩, ?_⟩ <;>
        · intro collapses
          rw [plain] at collapses
          cases collapses
    · exact fun obeys char member => (accepts char).mp (obeys.clean char member)
  have collapsed : mode.collapses = true →
      ((if (text.flatMap String.utf8EncodeChar).head? = some 0x20 ∨
            (text.flatMap String.utf8EncodeChar).getLast? = some 0x20 then true
          else scanBytes (mode = .preLine) 0 (text.flatMap String.utf8EncodeChar)) = false ↔
        Obeys mode text) := by
    intro collapses
    have chain : ('\x00' :: text).IsChain Apart ↔ text.IsChain Apart := by
      cases text with
      | nil => simp
      | cons char rest => simp [Apart]
    have scanned := scanBytes_iff collapses '\x00' text
    rw [show markOf '\x00' = 0 from rfl, chain] at scanned
    split
    · rename_i spaced
      rw [head_bytes, last_bytes] at spaced
      refine ⟨nofun, fun obeys => ?_⟩
      rcases spaced with first | last
      · exact absurd first (obeys.starts collapses)
      · exact absurd last (obeys.ends collapses)
    · rename_i bare
      rw [head_bytes, last_bytes, not_or] at bare
      rw [scanned]
      exact ⟨fun ⟨clean, apart⟩ => ⟨⟨clean, fun _ => bare.1, fun _ => apart⟩, fun _ => bare.2⟩,
        fun obeys => ⟨obeys.clean, obeys.apart collapses⟩⟩
  cases mode with
  | normal => exact collapsed rfl
  | preLine => exact collapsed rfl
  | preWrap => exact plain rfl
  | pre => exact plain rfl

end Bytes

/-! ## The whole pass -/

section Whole

variable {mode : WhiteSpace} {text : Str} {spans : List (Span attributes)}

/-- What the slow path returns: a labelled text that obeys the mode, and its cover. -/
theorem normalizeSlowly_spec (cover : Cover text.chars spans) (mode : WhiteSpace) :
    ∃ labelled : Labelled, ∃ moved : List (Span attributes),
      normalizeSlowly text.chars spans mode = (labelled.map Prod.fst, moved) ∧
      Marks labelled moved ∧ InOrder labelled ∧ (∀ entry ∈ labelled, entry.2 < moved.length) ∧
      moved.map Span.attributes = spans.map Span.attributes ∧
      labelled.filter (fun entry => mode.keeps entry.1) =
        (owners spans 0 text.chars).filter (fun entry => mode.keeps entry.1) ∧
      Obeys mode (labelled.map Prod.fst) := by
  obtain ⟨scannedText, scanned⟩ := @Scanned.scan _ mode spans [] _ _ _ cover (Scanned.start mode cover.1)
    (Nat.zero_le _)
  obtain ⟨labelled, trimmed, obeys⟩ := scanned.trimEnd
  obtain ⟨marks, same⟩ := trimmed.toTracked.finish (Nat.lt_of_le_of_lt trimmed.short text.fits)
  have length := congrArg List.length same
  simp only [List.length_map] at length
  refine ⟨labelled, _, Prod.ext trimmed.out rfl, marks, trimmed.ordered, ?_, same, trimmed.kept,
    trimmed.out ▸ obeys⟩
  intro entry member
  exact ((trimmed.labels entry member).trans_lt trimmed.reached).trans_eq length.symm

end Whole

/-- What normalization is to do with a covered text. -/
structure Normalizes (mode : WhiteSpace) (text : List Char) (spans : List (Span attributes))
    (out : List Char) (moved : List (Span attributes)) : Prop where
  tiles : Cover out moved
  count : moved.length = spans.length
  attributes : moved.map Span.attributes = spans.map Span.attributes
  kept : (owners moved 0 out).filter (fun entry => mode.keeps entry.1) =
    (owners spans 0 text).filter fun entry => mode.keeps entry.1
  obeys : Obeys mode out
  again : normalize out moved mode = (out, moved)

theorem normalize_of_obeys {mode : WhiteSpace} {text : List Char} (obeys : Obeys mode text)
    (spans : List (Span attributes)) : normalize text spans mode = (text, spans) := by
  rw [normalize, (needsNormalization_iff text mode).mpr obeys]
  rfl

theorem normalizes {text : Str} {spans : List (Span attributes)} (cover : Cover text.chars spans)
    (mode : WhiteSpace) : Normalizes mode text.chars spans (normalize text.chars spans mode).1
      (normalize text.chars spans mode).2 := by
  cases needs : needsNormalization text.chars mode with
  | false =>
      have obeys := (needsNormalization_iff text.chars mode).mp needs
      have same := normalize_of_obeys obeys spans
      rw [same]
      exact ⟨cover, rfl, rfl, rfl, obeys, same⟩
  | true =>
      obtain ⟨labelled, moved, result, marks, ordered, inside, same, kept, obeys⟩ :=
        normalizeSlowly_spec cover mode
      have slow : normalize text.chars spans mode = (labelled.map Prod.fst, moved) := by
        rw [normalize, needs]
        exact result
      have length := congrArg List.length same
      simp only [List.length_map] at length
      have some_span : moved ≠ [] := by
        rintro rfl
        exact cover.1 (List.length_eq_zero_iff.mp length.symm)
      rw [slow]
      refine ⟨marks.cover ordered some_span inside, length, same, ?_, obeys,
        normalize_of_obeys obeys moved⟩
      rw [marks.owners ordered inside]
      exact kept

/-- Normalization keeps the characters in their spans, its output is a fixed point, its scan
skips only texts the slow path would not change, and spans to start from can be had from any
that are at least one. -/
theorem normalization_keeps_spans (text : Str) (mode : WhiteSpace) :
    (∀ spans : List (Span attributes), Cover text.chars spans →
      Normalizes mode text.chars spans (normalize text.chars spans mode).1
          (normalize text.chars spans mode).2 ∧
        (needsNormalization text.chars mode = false →
          normalizeSlowly text.chars spans mode = (text.chars, spans))) ∧
      ∀ spans : List (Span attributes), spans ≠ [] →
        Cover text.chars ((repairSpans text.chars spans).getD spans) := by
  refine ⟨fun spans cover => ⟨normalizes cover mode, fun skipped => ?_⟩, fun spans => cover_repairSpans⟩
  exact normalizeSlowly_of_obeys cover ((needsNormalization_iff text.chars mode).mp skipped)

def blankText : Str := { chars := ['a', ' ', '\t', 'b'], fits := by decide }

theorem normalization_keeps_spans_blanks :
    Normalizes .normal blankText.chars [(⟨0, 2, ()⟩ : Span Unit), ⟨2, 2, ()⟩, ⟨2, 4, ()⟩]
      ['a', ' ', 'b'] [⟨0, 2, ()⟩, ⟨2, 2, ()⟩, ⟨2, 3, ()⟩] := by
  have result : normalize blankText.chars [(⟨0, 2, ()⟩ : Span Unit), ⟨2, 2, ()⟩, ⟨2, 4, ()⟩] .normal =
      (['a', ' ', 'b'], [⟨0, 2, ()⟩, ⟨2, 2, ()⟩, ⟨2, 3, ()⟩]) := by decide +kernel
  have holds := ((normalization_keeps_spans blankText .normal).1 _
    (cover_of_validSpans (by decide : validSpans blankText.chars
      [(⟨0, 2, ()⟩ : Span Unit), ⟨2, 2, ()⟩, ⟨2, 4, ()⟩] = true))).1
  rw [result] at holds
  exact holds

/-- No span to stretch: the repair of none is no cover. -/
theorem not_cover_repairSpans : ¬∀ (text : Str) (spans : List (Span Unit)),
    Cover text.chars ((repairSpans text.chars spans).getD spans) := by
  intro covers
  exact (covers { chars := ['a'], fits := by decide } []).1 rfl

end Zeron.Text
