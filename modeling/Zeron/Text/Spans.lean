import Zeron.Data.Offsets

namespace Zeron.Text

open Zeron.Data

/-! # Spans that cover a text

Spans are byte ranges that follow each other from the start of the text to its end.  A
text whose characters are labelled in order with numbers of spans determines such a cover,
and a cover determines the labels.
-/

/-- `attributes` is what a span says of its text: the style, the padding and whether it is
atomic.  No pass here reads it. -/
structure Span (attributes : Type) where
  start : Nat
  stop : Nat
  attributes : attributes
deriving DecidableEq, Repr

variable {attributes : Type}

/-- The spans follow each other from one offset to another, on character boundaries. -/
def Tiles (text : List Char) : Nat → Nat → List (Span attributes) → Prop
  | low, high, [] => low = high
  | low, high, span :: rest => span.start = low ∧ low ≤ span.stop ∧
      isCharBoundary text span.stop = true ∧ Tiles text span.stop high rest

/-- A contiguous in-order cover on character boundaries; some spans may be empty. -/
def Cover (text : List Char) (spans : List (Span attributes)) : Prop :=
  spans ≠ [] ∧ Tiles text 0 (utf8Length text) spans

/-- `spans.windows(2)` of neighbours that meet. -/
def adjacent : List (Span attributes) → Bool
  | span :: next :: rest => span.stop = next.start && adjacent (next :: rest)
  | _ => true

def validSpans (text : List Char) (spans : List (Span attributes)) : Bool :=
  !spans.isEmpty && (spans.head?.any fun span => span.start = 0) &&
    (spans.getLast?.any fun span => span.stop = utf8Length text) && adjacent spans &&
    spans.all fun span => span.start ≤ span.stop && isCharBoundary text span.start &&
      isCharBoundary text span.stop

/-- `while !text.is_char_boundary(end) { end += 1 }`, at most `left` times. -/
def advanceTo (text : List Char) : Nat → Nat → Nat
  | 0, offset => offset
  | left + 1, offset =>
      if isCharBoundary text offset then offset else advanceTo text left (offset + 1)

/-- The spans moved so that each starts where the one before it ends. -/
def followFrom (text : List Char) (position : Nat) :
    List (Span attributes) → List (Span attributes)
  | [] => []
  | span :: rest =>
      let clamped := max position (min span.stop (utf8Length text))
      let stop := advanceTo text (utf8Length text - clamped) clamped
      { span with start := position, stop } :: followFrom text stop rest

def stretchLast (stop : Nat) : List (Span attributes) → List (Span attributes)
  | [] => []
  | [span] => [{ span with stop }]
  | span :: rest => span :: stretchLast stop rest

/-- `none` when the spans already cover the text. -/
def repairSpans (text : List Char) (spans : List (Span attributes)) :
    Option (List (Span attributes)) :=
  if validSpans text spans then none
  else some (stretchLast (utf8Length text) (followFrom text 0 spans))

/-! ## Covers -/

section Covers

variable {text : List Char} {spans : List (Span attributes)}

theorem tiles_of_adjacent {low : Nat} (some_span : spans ≠ [])
    (first : (spans.head?.any fun span => span.start = low) = true)
    (last : (spans.getLast?.any fun span => span.stop = utf8Length text) = true)
    (meets : adjacent spans = true)
    (each : ∀ span ∈ spans, span.start ≤ span.stop ∧ isCharBoundary text span.stop = true) :
    Tiles text low (utf8Length text) spans := by
  induction spans generalizing low with
  | nil => exact absurd rfl some_span
  | cons span rest ih =>
      simp only [List.head?_cons, Option.any_some, decide_eq_true_eq] at first
      obtain ⟨ordered, boundary⟩ := each span List.mem_cons_self
      refine ⟨first, first ▸ ordered, boundary, ?_⟩
      cases rest with
      | nil =>
          have whole : span.stop = utf8Length text := by simpa using last
          exact whole
      | cons next rest =>
          simp only [adjacent, Bool.and_eq_true, decide_eq_true_eq] at meets
          apply ih (List.cons_ne_nil _ _)
          · simpa using meets.1.symm
          · simpa using last
          · exact meets.2
          · exact fun span member => each span (List.mem_cons_of_mem _ member)

theorem cover_of_validSpans (valid : validSpans text spans = true) : Cover text spans := by
  simp only [validSpans, Bool.and_eq_true, List.all_eq_true, decide_eq_true_eq] at valid
  obtain ⟨⟨⟨⟨some_span, first⟩, last⟩, meets⟩, each⟩ := valid
  have some_span : spans ≠ [] := by simpa using some_span
  exact ⟨some_span, tiles_of_adjacent some_span first last meets fun span member =>
    ⟨(each span member).1.1, (each span member).2⟩⟩

theorem advanceTo_spec {offset left : Nat} (inside : offset + left = utf8Length text) :
    offset ≤ advanceTo text left offset ∧ advanceTo text left offset ≤ utf8Length text ∧
      isCharBoundary text (advanceTo text left offset) = true := by
  induction left generalizing offset with
  | zero =>
      rw [advanceTo]
      refine ⟨Nat.le_refl _, Nat.le_of_eq inside, ?_⟩
      rw [show offset = utf8Length text from inside]
      exact isCharBoundary_length text
  | succ left ih =>
      rw [advanceTo]
      split
      · rename_i here
        exact ⟨Nat.le_refl _, by omega, here⟩
      · obtain ⟨later, inside, boundary⟩ := @ih (offset + 1) (by omega)
        exact ⟨by omega, inside, boundary⟩

theorem tiles_followFrom {position : Nat} (inside : position ≤ utf8Length text)
    (some_span : spans ≠ []) :
    Tiles text position (utf8Length text)
      (stretchLast (utf8Length text) (followFrom text position spans)) := by
  induction spans generalizing position with
  | nil => exact absurd rfl some_span
  | cons span rest ih =>
      have clamped : max position (min span.stop (utf8Length text)) ≤ utf8Length text := by omega
      obtain ⟨later, within, reached⟩ := advanceTo_spec (Nat.add_sub_of_le clamped)
      cases rest with
      | nil => exact ⟨rfl, inside, isCharBoundary_length text, rfl⟩
      | cons next rest =>
          have after := ih within (List.cons_ne_nil next rest)
          exact ⟨rfl, (Nat.le_max_left _ _).trans later, reached, after⟩

/-- The repair of any spans covers the text, as long as there is one to stretch. -/
theorem cover_repairSpans (some_span : spans ≠ []) :
    Cover text ((repairSpans text spans).getD spans) := by
  unfold repairSpans
  split
  · rename_i valid
    exact cover_of_validSpans valid
  · refine ⟨?_, tiles_followFrom (Nat.zero_le _) some_span⟩
    cases spans with
    | nil => exact absurd rfl some_span
    | cons span rest => cases rest <;> simp [followFrom, stretchLast]

theorem tiles_append {low high : Nat} {front back : List (Span attributes)} :
    Tiles text low high (front ++ back) ↔
      ∃ middle, Tiles text low middle front ∧ Tiles text middle high back := by
  induction front generalizing low with
  | nil => simp [Tiles]
  | cons span front ih => simp [Tiles, ih, and_assoc]

theorem le_of_tiles {low high : Nat} (tiles : Tiles text low high spans) : low ≤ high := by
  induction spans generalizing low with
  | nil => exact Nat.le_of_eq tiles
  | cons span rest ih =>
      obtain ⟨-, ordered, -, after⟩ := tiles
      exact ordered.trans (ih after)

theorem stop_le_of_tiles {low high : Nat} (tiles : Tiles text low high spans) {span : Span attributes}
    (member : span ∈ spans) : span.stop ≤ high := by
  induction spans generalizing low with
  | nil => cases member
  | cons first rest ih =>
      obtain ⟨-, -, -, after⟩ := tiles
      rcases List.mem_cons.mp member with rfl | later
      · exact le_of_tiles after
      · exact ih after later

theorem boundary_of_tiles {low high : Nat} (tiles : Tiles text low high spans)
    (start : isCharBoundary text low = true) : isCharBoundary text high = true := by
  induction spans generalizing low with
  | nil => exact (show low = high from tiles) ▸ start
  | cons span rest ih =>
      obtain ⟨-, -, reached, after⟩ := tiles
      exact ih after reached

end Covers

/-! ## Labelled characters -/

abbrev Labelled := List (Char × Nat)

/-- The bytes of the characters whose label is below a number. -/
def below (labelled : Labelled) (count : Nat) : Nat :=
  utf8Length ((labelled.filter fun entry => entry.2 < count).map Prod.fst)

def InOrder (labelled : Labelled) : Prop :=
  labelled.Pairwise fun entry next => entry.2 ≤ next.2

/-- Each span holds exactly the characters that carry its number. -/
def Marks (labelled : Labelled) (spans : List (Span attributes)) : Prop :=
  ∀ index span, spans[index]? = some span →
    span.start = below labelled index ∧ span.stop = below labelled (index + 1)

/-- The span that covers the byte at an offset. -/
def owner (spans : List (Span attributes)) (offset : Nat) : Nat :=
  spans.findIdx fun span => offset < span.stop

/-- The characters from an offset on, each with the span that covers it. -/
def owners (spans : List (Span attributes)) (offset : Nat) : List Char → Labelled
  | [] => []
  | char :: rest => (char, owner spans offset) :: owners spans (offset + char.utf8Size) rest

section Labels

variable {labelled front back : Labelled} {count : Nat}

theorem below_append : below (front ++ back) count = below front count + below back count := by
  simp [below, utf8Length_append]

theorem below_single (char : Char) (label : Nat) :
    below [(char, label)] count = if label < count then char.utf8Size else 0 := by
  by_cases low : label < count <;> simp [below, low, utf8Length]

theorem below_all (low : ∀ entry ∈ labelled, entry.2 < count) :
    below labelled count = utf8Length (labelled.map Prod.fst) := by
  rw [below, List.filter_eq_self.mpr]
  exact fun entry member => decide_eq_true (low entry member)

theorem below_none (high : ∀ entry ∈ labelled, count ≤ entry.2) : below labelled count = 0 := by
  rw [below, List.filter_eq_nil_iff.mpr]
  · rfl
  · intro entry member
    simpa using high entry member

theorem below_le (labelled : Labelled) (count : Nat) :
    below labelled count ≤ utf8Length (labelled.map Prod.fst) := by
  induction labelled with
  | nil => exact Nat.le_refl 0
  | cons entry rest ih =>
      rw [← List.singleton_append, below_append, below_single, List.map_append, utf8Length_append]
      have single : utf8Length ([entry].map Prod.fst) = entry.1.utf8Size := by simp [utf8Length]
      split <;> omega

theorem below_mono (labelled : Labelled) {count more : Nat} (le : count ≤ more) :
    below labelled count ≤ below labelled more := by
  induction labelled with
  | nil => exact Nat.le_refl 0
  | cons entry rest ih =>
      rw [← List.singleton_append, below_append, below_append, below_single, below_single]
      split <;> split <;> omega

theorem InOrder.left (ordered : InOrder (front ++ back)) : InOrder front :=
  (List.pairwise_append.mp ordered).1

theorem InOrder.concat (ordered : InOrder labelled) {label : Nat}
    (high : ∀ entry ∈ labelled, entry.2 ≤ label) (char : Char) :
    InOrder (labelled ++ [(char, label)]) := by
  apply List.pairwise_append.mpr
  refine ⟨ordered, List.pairwise_singleton _ _, ?_⟩
  intro entry member last isLast
  cases List.mem_singleton.mp isLast
  exact high entry member

/-- In an ordered text what a label is above stands before what it is not above. -/
theorem below_take (ordered : InOrder labelled) (count : Nat) :
    ∃ front back, labelled = front ++ back ∧ below labelled count = utf8Length (front.map Prod.fst) := by
  induction labelled with
  | nil => exact ⟨[], [], rfl, rfl⟩
  | cons entry rest ih =>
      obtain ⟨least, ordered⟩ := List.pairwise_cons.mp ordered
      by_cases low : entry.2 < count
      · obtain ⟨front, back, rfl, size⟩ := ih ordered
        refine ⟨entry :: front, back, rfl, ?_⟩
        rw [← List.singleton_append, below_append, below_single, if_pos low, size, List.map_cons,
          utf8Length_cons]
      · refine ⟨[], entry :: rest, rfl, below_none ?_⟩
        intro other member
        rcases List.mem_cons.mp member with rfl | later
        · exact Nat.le_of_not_lt low
        · exact (Nat.le_of_not_lt low).trans (least other later)

theorem below_boundary (ordered : InOrder labelled) (count : Nat) :
    isCharBoundary (labelled.map Prod.fst) (below labelled count) = true := by
  obtain ⟨front, back, rfl, size⟩ := below_take ordered count
  exact isCharBoundary_iff.mpr ⟨front.map Prod.fst, back.map Prod.fst, List.map_append, size.symm⟩

end Labels

section Marked

variable {labelled : Labelled} {spans : List (Span attributes)} {text : List Char}

theorem Marks.tiles (ordered : InOrder labelled) (start : Nat)
    (marks : ∀ index span, spans[index]? = some span →
      span.start = below labelled (start + index) ∧ span.stop = below labelled (start + index + 1)) :
    Tiles (labelled.map Prod.fst) (below labelled start) (below labelled (start + spans.length))
      spans := by
  induction spans generalizing start with
  | nil => rfl
  | cons span rest ih =>
      obtain ⟨starts, stops⟩ := marks 0 span rfl
      refine ⟨starts, ?_, ?_, ?_⟩
      · rw [stops]
        exact below_mono labelled (Nat.le_succ _)
      · rw [stops]
        exact below_boundary ordered _
      · have after := ih (start + 1) fun index span found => by
          have moved := marks (index + 1) span found
          rwa [← Nat.add_assoc, Nat.add_right_comm] at moved
        rw [stops, List.length_cons, Nat.add_comm rest.length, ← Nat.add_assoc]
        exact after

/-- Spans that hold the characters of their number cover them. -/
theorem Marks.cover (marks : Marks labelled spans) (ordered : InOrder labelled)
    (some_span : spans ≠ []) (inside : ∀ entry ∈ labelled, entry.2 < spans.length) :
    Cover (labelled.map Prod.fst) spans := by
  have tiles := Marks.tiles ordered 0 fun index span found => by
    rw [Nat.zero_add]
    exact marks index span found
  rw [below_none fun entry _ => Nat.zero_le entry.2, Nat.zero_add, below_all inside] at tiles
  exact ⟨some_span, tiles⟩

/-- The span of a character in an ordered text is the one whose number it carries. -/
theorem owner_of_marks {front back : Labelled} {char : Char} {label : Nat}
    (marks : Marks (front ++ (char, label) :: back) spans)
    (ordered : InOrder (front ++ (char, label) :: back)) (inside : label < spans.length) :
    owner spans (utf8Length (front.map Prod.fst)) = label := by
  obtain ⟨-, tail, before⟩ := List.pairwise_append.mp ordered
  have least := (List.pairwise_cons.mp tail).1
  have stops : ∀ index (low : index < spans.length), (spans[index]).stop =
      below (front ++ (char, label) :: back) (index + 1) :=
    fun index low => (marks index spans[index] (List.getElem?_eq_getElem low)).2
  rw [owner, List.findIdx_eq inside]
  constructor
  · rw [stops label inside, ← List.singleton_append, ← List.append_assoc, below_append,
      below_append, below_single, if_pos (Nat.lt_succ_self _), below_all]
    · have := char.utf8Size_pos
      simp only [decide_eq_true_eq]
      omega
    · intro entry member
      exact Nat.lt_succ_of_le (before entry member (char, label) List.mem_cons_self)
  · intro index low
    have nothing : below ((char, label) :: back) (index + 1) = 0 := by
      apply below_none
      intro entry member
      rcases List.mem_cons.mp member with rfl | later
      · exact low
      · exact Nat.le_trans low (least entry later)
    rw [stops index (low.trans inside), below_append, nothing]
    have := below_le front (index + 1)
    simp only [decide_eq_false_iff_not]
    omega

theorem Marks.owners_append {front back : Labelled} (marks : Marks (front ++ back) spans)
    (ordered : InOrder (front ++ back)) (inside : ∀ entry ∈ front ++ back, entry.2 < spans.length) :
    owners spans (utf8Length (front.map Prod.fst)) (back.map Prod.fst) = back := by
  induction back generalizing front with
  | nil => rfl
  | cons entry back ih =>
      have here := owner_of_marks marks ordered
        (inside entry (List.mem_append_right _ List.mem_cons_self))
      have shift : front ++ entry :: back = (front ++ [entry]) ++ back := by simp
      rw [shift] at marks ordered inside
      have rest := ih marks ordered inside
      rw [List.map_append, utf8Length_append] at rest
      rw [List.map_cons, owners, here]
      have single : utf8Length ([entry].map Prod.fst) = entry.1.utf8Size := by simp [utf8Length]
      rw [single] at rest
      rw [rest]

theorem Marks.owners (marks : Marks labelled spans) (ordered : InOrder labelled)
    (inside : ∀ entry ∈ labelled, entry.2 < spans.length) :
    owners spans 0 (labelled.map Prod.fst) = labelled :=
  @Marks.owners_append _ spans [] labelled marks ordered inside

theorem Marks.unique {others : List (Span attributes)} (marks : Marks labelled spans)
    (also : Marks labelled others)
    (same : spans.map Span.attributes = others.map Span.attributes) : spans = others := by
  apply List.ext_getElem?
  intro index
  have attributes := congrArg (·[index]?) same
  simp only [List.getElem?_map] at attributes
  cases here : spans[index]? with
  | none =>
      rw [here] at attributes
      cases there : others[index]? with
      | none => rfl
      | some other => rw [there] at attributes; cases attributes
  | some span =>
      cases there : others[index]? with
      | none => rw [here, there] at attributes; cases attributes
      | some other =>
          rw [here, there] at attributes
          obtain ⟨start, stop⟩ := marks index span here
          obtain ⟨start', stop'⟩ := also index other there
          have carried := Option.some.inj attributes
          cases span
          cases other
          simp_all

/-! ## The labels of a covered text -/

theorem map_fst_owners (spans : List (Span attributes)) (offset : Nat) (text : List Char) :
    (owners spans offset text).map Prod.fst = text := by
  induction text generalizing offset with
  | nil => rfl
  | cons char rest ih => rw [Zeron.Text.owners, List.map_cons, ih]

theorem owners_append (spans : List (Span attributes)) (offset : Nat) (front back : List Char) :
    owners spans offset (front ++ back) =
      owners spans offset front ++ owners spans (offset + utf8Length front) back := by
  induction front generalizing offset with
  | nil => simp [Zeron.Text.owners, utf8Length]
  | cons char front ih =>
      rw [List.cons_append, Zeron.Text.owners, ih, utf8Length_cons, Zeron.Text.owners, Nat.add_assoc,
        List.cons_append]

theorem owner_mono (spans : List (Span attributes)) {offset later : Nat} (le : offset ≤ later) :
    owner spans offset ≤ owner spans later := by
  induction spans with
  | nil => exact Nat.le_refl _
  | cons span rest ih =>
      simp only [owner, List.findIdx_cons] at ih ⊢
      by_cases here : offset < span.stop
      · simp [here]
      · have there : ¬later < span.stop := by omega
        simpa [here, there] using ih

theorem mem_owners {offset : Nat} {entry : Char × Nat} (member : entry ∈ owners spans offset text) :
    ∃ place, offset ≤ place ∧ place < offset + utf8Length text ∧ entry.2 = owner spans place := by
  induction text generalizing offset with
  | nil => cases member
  | cons char rest ih =>
      have positive := char.utf8Size_pos
      rw [utf8Length_cons]
      rcases List.mem_cons.mp member with rfl | later
      · exact ⟨offset, Nat.le_refl _, by omega, rfl⟩
      · obtain ⟨place, low, high, same⟩ := ih later
        exact ⟨place, by omega, by omega, same⟩

theorem owner_lt {low high offset : Nat} (tiles : Tiles text low high spans) (from_low : low ≤ offset)
    (inside : offset < high) : owner spans offset < spans.length := by
  apply List.findIdx_lt_length_of_exists
  induction spans generalizing low with
  | nil =>
      have : low = high := tiles
      omega
  | cons span rest ih =>
      obtain ⟨-, -, -, after⟩ := tiles
      by_cases here : offset < span.stop
      · exact ⟨span, List.mem_cons_self, by simpa using here⟩
      · obtain ⟨found, member, holds⟩ := ih after (Nat.le_of_not_lt here)
        exact ⟨found, List.mem_cons_of_mem _ member, holds⟩

theorem le_owner {low high offset : Nat} {front back : List (Span attributes)}
    (tiles : Tiles text low high front) (past : high ≤ offset) :
    front.length ≤ owner (front ++ back) offset := by
  rw [owner, List.findIdx_append]
  split
  · rename_i found
    obtain ⟨span, member, holds⟩ := List.findIdx_lt_length.mp found
    have := stop_le_of_tiles tiles member
    have := of_decide_eq_true holds
    omega
  · exact Nat.le_add_left _ _

theorem owner_append_lt {low high offset : Nat} {front back : List (Span attributes)}
    (tiles : Tiles text low high front) (from_low : low ≤ offset) (inside : offset < high) :
    owner (front ++ back) offset < front.length := by
  have found : front.findIdx (fun span => offset < span.stop) < front.length :=
    owner_lt tiles from_low inside
  rw [owner, List.findIdx_append, if_pos found]
  exact found

/-- At a place where a span ends, the characters before it have the earlier labels. -/
theorem below_owners {high : Nat} {front back : List (Span attributes)}
    (tiles : Tiles text 0 high front) (boundary : isCharBoundary text high = true) :
    below (owners (front ++ back) 0 text) front.length = high := by
  obtain ⟨before, after, rfl, size⟩ := isCharBoundary_iff.mp boundary
  rw [owners_append, below_append, below_all, below_none, map_fst_owners, size, Nat.add_zero]
  · intro entry member
    obtain ⟨place, past, -, same⟩ := mem_owners member
    rw [same]
    exact le_owner tiles (by omega)
  · intro entry member
    obtain ⟨place, -, inside, same⟩ := mem_owners member
    rw [same]
    exact owner_append_lt tiles (Nat.zero_le _) (by omega)

theorem Cover.marks (cover : Cover text spans) : Marks (Zeron.Text.owners spans 0 text) spans := by
  intro index span found
  obtain ⟨inside, here⟩ := List.getElem?_eq_some_iff.mp found
  have split : spans = spans.take index ++ span :: spans.drop (index + 1) := by
    rw [← here, List.getElem_cons_drop, List.take_append_drop]
  have length : (spans.take index).length = index := List.length_take_of_le (Nat.le_of_lt inside)
  generalize spans.take index = front at split length
  generalize spans.drop (index + 1) = back at split
  subst length
  subst split
  obtain ⟨middle, before, after⟩ := tiles_append.mp cover.2
  obtain ⟨starts, ordered, boundary, -⟩ := id after
  have zero : isCharBoundary text 0 = true := isCharBoundary_iff.mpr ⟨[], text, rfl, rfl⟩
  have upto : Tiles text 0 span.stop (front ++ [span]) :=
    tiles_append.mpr ⟨middle, before, starts, ordered, boundary, rfl⟩
  refine ⟨?_, ?_⟩
  · rw [starts]
    exact (@below_owners _ text middle front (span :: back) before (boundary_of_tiles before zero)).symm
  · have whole := @below_owners _ text span.stop (front ++ [span]) back upto boundary
    rw [List.append_assoc, List.singleton_append, List.length_append, List.length_singleton] at whole
    exact whole.symm

end Marked

end Zeron.Text
