import Zeron.Command.Host
import Zeron.Data.Offsets
import Zeron.Data.Smallest
import Zeron.Workspace.Paths
import Zeron.Workspace.Texts

namespace Zeron.Workspace

open Zeron.Data

/-! # Search over a workspace

A walker lists the entries below the root, and the errors it meets, one directory after
the other.  The search keeps the best matches of what has been listed.
-/

def maxSearchQueryChars : Nat := 256

inductive WorkspaceEntryKind where
  | file
  | directory
  | symlink
deriving DecidableEq, Repr

structure WorkspaceFileSearchMatch where
  path : String
  name : String
  kind : WorkspaceEntryKind
  score : Int
deriving DecidableEq, Repr

/-- `FileType`; `other` is none of the three. -/
inductive FileType where
  | symlink
  | directory
  | file
  | other
deriving DecidableEq, Repr

def FileType.kind : FileType → Option WorkspaceEntryKind
  | .symlink => some .symlink
  | .directory => some .directory
  | .file => some .file
  | .other => none

/-- What the walker yields: an entry by its path below the root, or an error. -/
inductive Item where
  | entry (relative : Path) (fileType : Option FileType)
  | failure (message : String)
deriving DecidableEq

def validateWorkspaceSearchQuery (query : String) : Except WorkspaceFilesError Unit :=
  if (Command.trim query.toList).isEmpty then .error (.badParams "query must not be empty")
  else if maxSearchQueryChars < query.toList.length then
    .error (.badParams s!"query must not exceed {maxSearchQueryChars} characters")
  else .ok ()

/-! ## Scores -/

/-- `str::find`: the byte index of the first occurrence. -/
def find (pattern : List Char) : List Char → Option Nat
  | [] => if pattern.isEmpty then some 0 else none
  | char :: rest =>
      if pattern.isPrefixOf (char :: rest) then some 0
      else (find pattern rest).map (· + char.utf8Size)

/-- The characters of the path passed over before the last one of the query. -/
def gapsOf (wanted : Char) (remaining : List Char) (gaps : Int) : List Char → Option Int
  | [] => none
  | character :: path =>
      if character = wanted then
        match remaining with
        | following :: remaining => gapsOf following remaining gaps path
        | [] => some gaps
      else gapsOf wanted remaining (gaps + 1) path

section search

variable (lower : String → String)

/-- `lower` is `str::to_lowercase`. -/
def workspaceSearchScore (name path query : String) : Option Int :=
  match query.toList with
  | [] => some 0
  | first :: remaining =>
      let name := (lower name).toList
      let path := (lower path).toList
      let query := first :: remaining
      if name = query then some 10000
      else if query.isPrefixOf name then some (8000 - utf8Length name)
      else
        match find query name with
        | some index => some (6000 - index - utf8Length name)
        | none =>
            match find query path with
            | some index => some (4000 - index - utf8Length path)
            | none => (gapsOf first remaining 0 path).map fun gaps => 2000 - gaps - utf8Length path

/-- Texts compare by their bytes, as they do by their characters. -/
def compareWorkspaceSearchMatches (left right : WorkspaceFileSearchMatch) : Ordering :=
  (compare right.score left.score).then
    ((compare (lower left.path) (lower right.path)).then (compare left.path right.path))

def matchLe (left right : WorkspaceFileSearchMatch) : Bool :=
  (compareWorkspaceSearchMatches lower left right).isLE

/-! ## The walk -/

/-- What the loop makes of one item. -/
inductive Outcome where
  | skip
  | found (result : WorkspaceFileSearchMatch)
  | broken
  | failed (message : String)
deriving DecidableEq

/-- `DirEntry::file_name` of an entry whose path is UTF-8. -/
def entryName (path : Path) : String := (path.getLast?.bind Component.toStr).getD ""

def Item.outcome (queryLower : String) : Item → Outcome
  | .failure message => .failed message
  | .entry relative fileType =>
      if relative = [] ∨ containsGitComponent relative = true then .skip
      else
        match fileType.bind FileType.kind with
        | none => .skip
        | some kind =>
            match pathToWire relative with
            | none => .broken
            | some path =>
                if isInternalTempWirePath path then .skip
                else
                  match workspaceSearchScore lower (entryName relative) path queryLower with
                  | none => .skip
                  | some score => .found ⟨path, entryName relative, kind, score⟩

/-- One turn of the loop: an error ends the search only before its first match. -/
def searchItem (queryLower : String) (limit : Nat) (found : List WorkspaceFileSearchMatch)
    (item : Item) : Except WorkspaceFilesError (List WorkspaceFileSearchMatch) :=
  match item.outcome lower queryLower with
  | .skip => .ok found
  | .found result => .ok (keepSmallest (matchLe lower) limit found result)
  | .broken => .error (.unsupported "path is not UTF-8")
  | .failed message => if found.isEmpty then .error (.io message) else .ok found

def searchWorkspaceBlocking (query : String) (limit : Nat) (walk : List Item) :
    Except WorkspaceFilesError (List WorkspaceFileSearchMatch) :=
  match validateWorkspaceSearchQuery query with
  | .error reason => .error reason
  | .ok () =>
      if limit = 0 then .ok []
      else
        (walk.foldlM (searchItem lower (lower query) limit) []).map fun found =>
          found.mergeSort (matchLe lower)

end search

/-! ## Walks

A listing is what the walker finds in a directory: each entry or error with the listing
below it, and the rest of the directory.  The order inside a directory is the operating
system's; what is below an entry comes right after it.
-/

inductive Node where
  | entry (name : Component) (fileType : Option FileType)
  | failure (message : String)
deriving DecidableEq

inductive Listing where
  | nil
  | cons (node : Node) (below siblings : Listing)
deriving DecidableEq

def Node.path (parent : Path) : Node → Path
  | .entry name _ => parent ++ [name]
  | .failure _ => parent

def Node.item (parent : Path) : Node → Item
  | .entry name fileType => .entry (parent ++ [name]) fileType
  | .failure message => .failure message

/-- A node of a directory, with what is below it and the rest of the directory. -/
inductive Picks : Listing → Node → Listing → Listing → Prop
  | here (node : Node) (below siblings : Listing) :
      Picks (.cons node below siblings) node below siblings
  | later {node picked : Node} {below siblings pickedBelow rest : Listing}
      (picks : Picks siblings picked pickedBelow rest) :
      Picks (.cons node below siblings) picked pickedBelow (.cons node below rest)

/-- The orders in which the walker may yield what is below `parent`. -/
inductive Walks : Path → Listing → List Item → Prop
  | nil (parent : Path) : Walks parent .nil []
  | visit {parent : Path} {listing below rest : Listing} {node : Node} {inner outer : List Item}
      (picks : Picks listing node below rest) (inside : Walks (node.path parent) below inner)
      (after : Walks parent rest outer) :
      Walks parent listing (node.item parent :: (inner ++ outer))

/-- The walk of a workspace begins with its root. -/
def Yields (listing : Listing) (walk : List Item) : Prop :=
  ∃ below, Walks [] listing below ∧ walk = .entry [] (some .directory) :: below

def Listing.names : Listing → List Component
  | .nil => []
  | .cons (.entry name _) _ siblings => name :: siblings.names
  | .cons (.failure _) _ siblings => siblings.names

/-- The names of a directory are different, and nothing is below an error. -/
def Listing.Sound : Listing → Prop
  | .nil => True
  | .cons node below siblings =>
      below.Sound ∧ siblings.Sound ∧
        match node with
        | .entry name _ => name ∉ siblings.names
        | .failure _ => below = .nil

structure WorkspaceTree where
  listing : Listing
  sound : listing.Sound

/-- All items below `parent`, in one of their orders. -/
def Listing.items (parent : Path) : Listing → List Item
  | .nil => []
  | .cons node below siblings =>
      node.item parent :: (below.items (node.path parent) ++ siblings.items parent)

/-- The items that count and are below none that does: any of them may be the first. -/
def Listing.frontier (lower : String → String) (queryLower : String) (parent : Path) :
    Listing → List Item
  | .nil => []
  | .cons node below siblings =>
      (if (node.item parent).outcome lower queryLower = .skip then
          below.frontier lower queryLower (node.path parent)
        else [node.item parent]) ++ siblings.frontier lower queryLower parent

section walks

variable {lower : String → String} {queryLower : String} {parent : Path} {node : Node}
  {listing below rest siblings : Listing} {walk : List Item} {item : Item}

theorem Picks.items (picks : Picks listing node below rest) :
    (listing.items parent).Perm
      (node.item parent :: (below.items (node.path parent) ++ rest.items parent)) := by
  induction picks with
  | here => exact List.Perm.refl _
  | @later first picked firstBelow siblings pickedBelow rest _ ih =>
      have swapped : (picked.item parent :: first.item parent ::
          (firstBelow.items (first.path parent) ++
            (pickedBelow.items (picked.path parent) ++ rest.items parent))).Perm
          (picked.item parent :: (pickedBelow.items (picked.path parent) ++ first.item parent ::
            (firstBelow.items (first.path parent) ++ rest.items parent))) := by
        apply List.Perm.cons
        exact ((List.perm_append_comm_assoc _ _ _).cons _).trans List.perm_middle.symm
      rw [Listing.items]
      refine ((ih.append_left _).cons _).trans ?_
      exact (List.perm_middle.cons _).trans ((List.Perm.swap _ _ _).trans swapped)

theorem Walks.items (walks : Walks parent listing walk) : walk.Perm (listing.items parent) := by
  induction walks with
  | nil => exact List.Perm.refl _
  | visit picks _ _ inner outer =>
      exact ((inner.append outer).cons _).trans picks.items.symm

theorem walks_items (parent : Path) (listing : Listing) :
    Walks parent listing (listing.items parent) := by
  induction listing generalizing parent with
  | nil => exact .nil parent
  | cons node below siblings inner outer =>
      exact .visit (.here node below siblings) (inner _) (outer _)

/-- A walk of the siblings can come first. -/
theorem Walks.before {inner : List Item} (walks : Walks parent siblings walk)
    (inside : Walks (node.path parent) below inner) :
    Walks parent (.cons node below siblings) (walk ++ node.item parent :: inner) := by
  induction walks with
  | nil parent =>
      have single := Walks.visit (.here node below .nil) inside (.nil parent)
      rw [List.append_nil] at single
      exact single
  | visit picks inside' _ _ outer =>
      rw [List.cons_append, List.append_assoc]
      exact .visit (.later picks) inside' (outer inside)

/-! ## What comes first -/

/-- The first item of a walk that counts. -/
def firstOf (lower : String → String) (queryLower : String) (walk : List Item) : Option Item :=
  walk.find? fun item => decide (item.outcome lower queryLower ≠ .skip)

theorem firstOf_cons_skip {head : Item} (skips : head.outcome lower queryLower = .skip) :
    firstOf lower queryLower (head :: walk) = firstOf lower queryLower walk := by
  rw [firstOf, List.find?_cons_of_neg (by simpa using skips), firstOf]

theorem firstOf_cons {head : Item} (counts : head.outcome lower queryLower ≠ .skip) :
    firstOf lower queryLower (head :: walk) = some head := by
  rw [firstOf, List.find?_cons_of_pos (by simpa using counts)]

theorem firstOf_append (walk later : List Item) :
    firstOf lower queryLower (walk ++ later) =
      (firstOf lower queryLower walk).or (firstOf lower queryLower later) :=
  List.find?_append

theorem Picks.frontier (picks : Picks listing node below rest) :
    ∀ item, item ∈ listing.frontier lower queryLower parent ↔
      item ∈ (if (node.item parent).outcome lower queryLower = .skip then
          below.frontier lower queryLower (node.path parent)
        else [node.item parent]) ∨ item ∈ rest.frontier lower queryLower parent := by
  induction picks with
  | here => exact fun item => List.mem_append
  | later _ ih =>
      intro item
      rw [Listing.frontier, List.mem_append, ih item, Listing.frontier, List.mem_append]
      exact or_left_comm

/-- Whatever comes first is of the frontier. -/
theorem Walks.firstOf_mem (walks : Walks parent listing walk)
    (first : firstOf lower queryLower walk = some item) :
    item ∈ listing.frontier lower queryLower parent := by
  induction walks with
  | nil => cases first
  | @visit parent listing below rest node inner outer picks _ _ inside after =>
      rw [picks.frontier]
      by_cases skips : (node.item parent).outcome lower queryLower = .skip
      · rw [firstOf_cons_skip skips, firstOf_append, Option.or_eq_some_iff] at first
        rw [if_pos skips]
        rcases first with first | ⟨-, first⟩
        · exact .inl (inside first)
        · exact .inr (after first)
      · rw [firstOf_cons skips] at first
        cases first
        rw [if_neg skips]
        exact .inl (List.mem_singleton_self _)

/-- Any item of the frontier can come first. -/
theorem exists_firstOf (member : item ∈ listing.frontier lower queryLower parent) :
    ∃ walk, Walks parent listing walk ∧ firstOf lower queryLower walk = some item := by
  induction listing generalizing parent with
  | nil => cases member
  | cons node below siblings inside after =>
      rw [Listing.frontier, List.mem_append] at member
      rcases member with own | later
      · by_cases skips : (node.item parent).outcome lower queryLower = .skip
        · rw [if_pos skips] at own
          obtain ⟨inner, walks, first⟩ := inside own
          refine ⟨_, .visit (.here node below siblings) walks (walks_items parent siblings), ?_⟩
          rw [firstOf_cons_skip skips, firstOf_append, first]
          rfl
        · rw [if_neg skips] at own
          cases List.mem_singleton.mp own
          exact ⟨_, walks_items parent _, firstOf_cons skips⟩
      · obtain ⟨outer, walks, first⟩ := after later
        refine ⟨_, walks.before (walks_items _ below), ?_⟩
        rw [firstOf_append, first]
        rfl

end walks

/-! ## The order of matches -/

section order

variable (lower : String → String)

/-- The score, best first, then the path without and with its case. -/
def matchKey (result : WorkspaceFileSearchMatch) : Int ×ₗ String ×ₗ String :=
  toLex (-result.score, toLex (lower result.path, result.path))

theorem compare_isLE_iff (left right : WorkspaceFileSearchMatch) :
    matchLe lower left right = true ↔ matchKey lower left ≤ matchKey lower right := by
  have isLE : ∀ {α : Type} [LinearOrder α] (a b : α) (following : Ordering),
      ((compare a b).then following).isLE = true ↔ a < b ∨ a = b ∧ following.isLE = true := by
    intro α _ a b following
    rcases lt_trichotomy a b with less | same | more
    · rw [compare_lt_iff_lt.mpr less]
      simp [less]
    · rw [compare_eq_iff_eq.mpr same]
      simp [same]
    · rw [compare_gt_iff_gt.mpr more]
      simp [more.le.not_gt, more.ne']
  have single : ∀ a b : String, (compare a b).isLE = true ↔ a ≤ b := by
    intro a b
    rcases lt_trichotomy a b with less | same | more
    · rw [compare_lt_iff_lt.mpr less]
      simp [less.le]
    · rw [compare_eq_iff_eq.mpr same]
      simp [same]
    · rw [compare_gt_iff_gt.mpr more]
      simp [more]
  rw [matchLe, compareWorkspaceSearchMatches, isLE, isLE, single, matchKey, matchKey,
    Prod.Lex.toLex_le_toLex, Prod.Lex.toLex_le_toLex, neg_lt_neg_iff, neg_inj, eq_comm]

theorem matchLe_orders : Orders (matchLe lower) := by
  constructor
  · intro a b c first second
    rw [compare_isLE_iff] at first second ⊢
    exact first.trans second
  · intro a b
    rw [Bool.or_eq_true, compare_isLE_iff, compare_isLE_iff]
    exact le_total _ _

/-- Matches the order does not tell apart have one path. -/
theorem path_eq_of_matchLe {a b : WorkspaceFileSearchMatch} (first : matchLe lower a b = true)
    (second : matchLe lower b a = true) : a.path = b.path := by
  rw [compare_isLE_iff] at first second
  have same := toLex.injective (le_antisymm first second)
  exact (Prod.mk.inj (toLex.injective (Prod.mk.inj same).2)).2

end order

/-! ## Paths of a walk -/

def Item.relative : Item → Option Path
  | .entry relative _ => some relative
  | .failure _ => none

section matching

variable {lower : String → String} {queryLower : String} {parent : Path} {listing : Listing}
  {walk : List Item} {item : Item} {result : WorkspaceFileSearchMatch} {limit : Nat}
  {message query : String}

def Listing.paths (parent : Path) (listing : Listing) : List Path :=
  (listing.items parent).filterMap Item.relative

theorem paths_entry (name : Component) (fileType : Option FileType) (below siblings : Listing) :
    (Listing.cons (.entry name fileType) below siblings).paths parent =
      (parent ++ [name]) :: (below.paths (parent ++ [name]) ++ siblings.paths parent) := by
  simp [Listing.paths, Listing.items, Node.item, Node.path, Item.relative]

/-- What is below `parent` has one of the listing's names after it. -/
theorem relative_below (sound : listing.Sound) {path : Path}
    (member : path ∈ listing.paths parent) :
    ∃ name more, path = parent ++ name :: more ∧ name ∈ listing.names := by
  induction listing generalizing parent with
  | nil => cases member
  | cons node below siblings inside after =>
      obtain ⟨soundBelow, soundAfter, own⟩ := sound
      cases node with
      | entry name fileType =>
          rw [paths_entry, List.mem_cons, List.mem_append] at member
          rcases member with rfl | member | member
          · exact ⟨name, [], rfl, List.mem_cons_self⟩
          · obtain ⟨next, more, rfl, -⟩ := inside soundBelow member
            exact ⟨name, next :: more, List.append_assoc .., List.mem_cons_self⟩
          · obtain ⟨next, more, same, named⟩ := after soundAfter member
            exact ⟨next, more, same, List.mem_cons_of_mem _ named⟩
      | failure message =>
          subst own
          obtain ⟨next, more, same, named⟩ := after soundAfter member
          exact ⟨next, more, same, named⟩

/-- No path is listed twice. -/
theorem nodup_paths (sound : listing.Sound) : (listing.paths parent).Nodup := by
  induction listing generalizing parent with
  | nil => exact List.nodup_nil
  | cons node below siblings inside after =>
      obtain ⟨soundBelow, soundAfter, own⟩ := sound
      cases node with
      | entry name fileType =>
          rw [paths_entry, List.nodup_cons, List.mem_append, not_or, List.nodup_append]
          refine ⟨⟨fun member => ?_, fun member => ?_⟩, inside soundBelow, after soundAfter, ?_⟩
          · obtain ⟨next, more, same, -⟩ := relative_below soundBelow member
            have lengths := congrArg List.length same
            simp at lengths
          · obtain ⟨next, more, same, named⟩ := relative_below soundAfter member
            rw [List.append_cancel_left_eq] at same
            cases same
            exact own named
          · intro first below' second later same
            obtain ⟨next, more, isFirst, -⟩ := relative_below soundBelow below'
            obtain ⟨other, rest, isSecond, named⟩ := relative_below soundAfter later
            rw [isFirst, isSecond, List.append_assoc, List.append_cancel_left_eq] at same
            cases same
            exact own named
      | failure message =>
          subst own
          exact after soundAfter

def Outcome.match? : Outcome → Option WorkspaceFileSearchMatch
  | .found result => some result
  | _ => none

theorem match_eq_some {outcome : Outcome} :
    outcome.match? = some result ↔ outcome = .found result := by
  cases outcome <;> simp [Outcome.match?]

def matchesOf (lower : String → String) (queryLower : String) (walk : List Item) :
    List WorkspaceFileSearchMatch :=
  walk.filterMap fun item => (item.outcome lower queryLower).match?

theorem outcome_found (found : item.outcome lower queryLower = .found result) :
    ∃ relative, item.relative = some relative ∧ relative ≠ [] ∧
      pathToWire relative = some result.path := by
  cases item with
  | failure message => cases found
  | entry relative fileType =>
      unfold Item.outcome at found
      dsimp only at found
      split at found
      · cases found
      next inside =>
          rw [not_or] at inside
          split at found
          · cases found
          · split at found
            · cases found
            next path named =>
                split at found
                · cases found
                · split at found
                  · cases found
                  · cases found
                    exact ⟨relative, rfl, inside.1, named⟩

/-- Matches are told apart by their paths. -/
theorem strict_matches (sound : listing.Sound) :
    Strict (matchLe lower) (matchesOf lower queryLower (listing.items parent)) := by
  have apart : (listing.items parent).Pairwise fun first second => ∀ path,
      first.relative = some path → second.relative ≠ some path := by
    have distinct := @nodup_paths parent listing sound
    rw [Listing.paths, List.Nodup, List.pairwise_filterMap] at distinct
    exact distinct.imp fun different path first second => different path first path second rfl
  have paths : ((matchesOf lower queryLower (listing.items parent)).map
      WorkspaceFileSearchMatch.path).Nodup := by
    rw [List.Nodup, List.pairwise_map, matchesOf, List.pairwise_filterMap]
    apply apart.imp
    intro first second different a isFirst b isSecond same
    obtain ⟨path, ofFirst, inside, named⟩ := outcome_found (match_eq_some.mp isFirst)
    obtain ⟨other, ofSecond, otherInside, otherNamed⟩ := outcome_found (match_eq_some.mp isSecond)
    rw [← same] at otherNamed
    rw [pathToWire_injective otherInside inside otherNamed named] at ofSecond
    exact different path ofFirst ofSecond
  constructor
  · exact paths.of_map _
  · intro a first b second low high
    exact List.inj_on_of_nodup_map paths first second (path_eq_of_matchLe lower low high)

/-! ## What the loop returns -/

def anyBroken (lower : String → String) (queryLower : String) (walk : List Item) : Bool :=
  walk.any fun item => decide (item.outcome lower queryLower = .broken)

/-- After a match only a name that is no UTF-8 ends the search. -/
theorem foldlM_found {found : List WorkspaceFileSearchMatch} (present : found ≠ [])
    (positive : 0 < limit) :
    walk.foldlM (searchItem lower queryLower limit) found =
      if anyBroken lower queryLower walk then .error (.unsupported "path is not UTF-8")
      else .ok ((matchesOf lower queryLower walk).foldl (keepSmallest (matchLe lower) limit) found) := by
  induction walk generalizing found with
  | nil => rfl
  | cons item walk ih =>
      rw [List.foldlM_cons, searchItem, anyBroken, List.any_cons, matchesOf]
      cases outcome : item.outcome lower queryLower with
      | skip =>
          rw [List.filterMap_cons_none (by rw [outcome]; rfl)]
          exact ih present
      | found result =>
          rw [List.filterMap_cons_some (by rw [outcome]; rfl)]
          exact ih (keepSmallest_ne_nil positive)
      | broken => rfl
      | failed message =>
          rw [List.filterMap_cons_none (by rw [outcome]; rfl)]
          dsimp only
          rw [if_neg (by simpa using present)]
          exact ih present

/-- An error that comes first is returned. -/
theorem foldlM_failed (first : firstOf lower queryLower walk = some (.failure message)) :
    walk.foldlM (searchItem lower queryLower limit) [] = .error (.io message) := by
  induction walk with
  | nil => cases first
  | cons item walk ih =>
      rw [List.foldlM_cons, searchItem]
      by_cases skips : item.outcome lower queryLower = .skip
      · rw [firstOf_cons_skip skips] at first
        rw [skips]
        exact ih first
      · rw [firstOf_cons skips] at first
        cases first
        rfl

theorem outcome_failed (failed : item.outcome lower queryLower = .failed message) :
    item = .failure message := by
  cases item with
  | failure text =>
      cases failed
      rfl
  | entry relative fileType =>
      unfold Item.outcome at failed
      dsimp only at failed
      split at failed
      · cases failed
      · split at failed
        · cases failed
        · split at failed
          · cases failed
          · split at failed
            · cases failed
            · split at failed
              · cases failed
              · cases failed

/-- A walk that does not begin with an error. -/
theorem foldlM_eq (unfailed : ∀ message, firstOf lower queryLower walk ≠ some (.failure message))
    (positive : 0 < limit) :
    walk.foldlM (searchItem lower queryLower limit) [] =
      if anyBroken lower queryLower walk then .error (.unsupported "path is not UTF-8")
      else .ok ((matchesOf lower queryLower walk).foldl (keepSmallest (matchLe lower) limit) []) := by
  induction walk with
  | nil => rfl
  | cons item walk ih =>
      rw [List.foldlM_cons, searchItem, anyBroken, List.any_cons, matchesOf]
      cases outcome : item.outcome lower queryLower with
      | skip =>
          rw [List.filterMap_cons_none (by rw [outcome]; rfl)]
          apply ih
          intro message first
          exact unfailed message ((firstOf_cons_skip outcome).trans first)
      | found result =>
          rw [List.filterMap_cons_some (by rw [outcome]; rfl)]
          exact foldlM_found (keepSmallest_ne_nil positive) positive
      | broken => rfl
      | failed message =>
          refine absurd ?_ (unfailed message)
          rw [firstOf_cons (by rw [outcome]; exact Outcome.noConfusion), outcome_failed outcome]

/-! ## The order of the walk -/

/-- Every error lies below a match or a name that is no UTF-8, or all that counts is one and the
same error. -/
def Indifferent (lower : String → String) (queryLower : String) (listing : Listing) : Prop :=
  (∀ message, Item.failure message ∉ listing.frontier lower queryLower []) ∨
    ∃ message, ∀ item ∈ listing.items [],
      item.outcome lower queryLower = .skip ∨ item = .failure message

/-- What counts is of the frontier, or below an entry of it. -/
theorem frontier_above (sound : listing.Sound) (member : item ∈ listing.items parent)
    (counts : item.outcome lower queryLower ≠ .skip) :
    item ∈ listing.frontier lower queryLower parent ∨
      ∃ top ∈ listing.frontier lower queryLower parent, ∀ message, top ≠ .failure message := by
  induction listing generalizing parent with
  | nil => cases member
  | cons node below siblings inside after =>
      obtain ⟨soundBelow, soundAfter, own⟩ := sound
      rw [Listing.frontier, Listing.items, List.mem_cons, List.mem_append] at *
      simp only [List.mem_append]
      by_cases skips : (node.item parent).outcome lower queryLower = .skip
      · rw [if_pos skips]
        rcases member with rfl | member | member
        · exact absurd skips counts
        · rcases inside soundBelow member with here | ⟨top, above, entry⟩
          · exact .inl (.inl here)
          · exact .inr ⟨top, .inl above, entry⟩
        · rcases after soundAfter member with here | ⟨top, above, entry⟩
          · exact .inl (.inr here)
          · exact .inr ⟨top, .inr above, entry⟩
      · rw [if_neg skips]
        rcases member with rfl | member | member
        · exact .inl (.inl (List.mem_singleton_self _))
        · cases node with
          | entry name fileType =>
              refine .inr ⟨_, .inl (List.mem_singleton_self _), fun message same => ?_⟩
              cases same
          | failure message =>
              subst own
              cases member
        · rcases after soundAfter member with here | ⟨top, above, entry⟩
          · exact .inl (.inr here)
          · exact .inr ⟨top, .inr above, entry⟩

/-- What the loop returns for a walk whose first item that counts is no error. -/
def answer (lower : String → String) (queryLower : String) (limit : Nat) (listing : Listing) :
    Except WorkspaceFilesError (List WorkspaceFileSearchMatch) :=
  if anyBroken lower queryLower (listing.items []) then .error (.unsupported "path is not UTF-8")
  else .ok (smallest (matchLe lower) limit (matchesOf lower queryLower (listing.items [])))

theorem anyBroken_perm {other : List Item} (perm : walk.Perm other) :
    anyBroken lower queryLower walk = anyBroken lower queryLower other :=
  perm.any_eq

theorem search_below (accepted : validateWorkspaceSearchQuery query = .ok ())
    (positive : 0 < limit) (below : List Item) :
    searchWorkspaceBlocking lower query limit (.entry [] (some .directory) :: below) =
      (below.foldlM (searchItem lower (lower query) limit) []).map fun found =>
        found.mergeSort (matchLe lower) := by
  rw [searchWorkspaceBlocking, accepted]
  dsimp only
  rw [if_neg positive.ne', List.foldlM_cons]
  rfl

theorem search_failed {below : List Item}
    (accepted : validateWorkspaceSearchQuery query = .ok ()) (positive : 0 < limit)
    (first : firstOf lower (lower query) below = some (.failure message)) :
    searchWorkspaceBlocking lower query limit (.entry [] (some .directory) :: below) =
      .error (.io message) := by
  rw [search_below accepted positive, foldlM_failed first]
  rfl

theorem search_answer {below : List Item}
    (accepted : validateWorkspaceSearchQuery query = .ok ()) (positive : 0 < limit)
    (sound : listing.Sound) (walks : Walks [] listing below)
    (unfailed : ∀ message, firstOf lower (lower query) below ≠ some (.failure message)) :
    searchWorkspaceBlocking lower query limit (.entry [] (some .directory) :: below) =
      answer lower (lower query) limit listing := by
  have perm := walks.items
  have strict : Strict (matchLe lower) (matchesOf lower (lower query) below) :=
    (strict_matches sound).subperm (perm.filterMap _).subperm
  rw [search_below accepted positive, foldlM_eq unfailed positive, answer,
    anyBroken_perm perm.symm]
  split
  · rfl
  · have kept : ((matchesOf lower (lower query) below).foldl
        (keepSmallest (matchLe lower) limit) []).mergeSort (matchLe lower) =
          smallest (matchLe lower) limit (matchesOf lower (lower query) below) :=
      mergeSort_foldl_keepSmallest (matchLe_orders lower) strict (Nat.zero_le limit)
    exact congrArg Except.ok
      (kept.trans (smallest_perm (matchLe_orders lower) strict (perm.filterMap _)))

/-- Either every walk has an item that counts, or none has. -/
theorem firstOf_eq_none (walks : Walks [] listing walk) :
    firstOf lower queryLower walk = none ↔
      ∀ item ∈ listing.items [], item.outcome lower queryLower = .skip := by
  rw [firstOf, List.find?_eq_none]
  simp only [decide_eq_true_eq, ne_eq, not_not]
  constructor
  · intro skips item member
    exact skips item (walks.items.mem_iff.mpr member)
  · intro skips item member
    exact skips item (walks.items.mem_iff.mp member)

/-- Where a search does not depend on the order, the errors are as `Indifferent` says. -/
theorem indifferent_of_same (sound : listing.Sound)
    (accepted : validateWorkspaceSearchQuery query = .ok ()) (positive : 0 < limit)
    (same : ∀ walk other, Walks [] listing walk → Walks [] listing other →
      searchWorkspaceBlocking lower query limit (.entry [] (some .directory) :: walk) =
        searchWorkspaceBlocking lower query limit (.entry [] (some .directory) :: other)) :
    Indifferent lower (lower query) listing := by
  by_cases fails : ∀ message, Item.failure message ∉ listing.frontier lower (lower query) []
  · exact .inl fails
  · obtain ⟨message, member⟩ := not_forall_not.mp fails
    obtain ⟨walk, walks, first⟩ := exists_firstOf member
    have failed := search_failed accepted positive first
    -- Another item of the frontier would come first in another walk.
    have alone : ∀ top ∈ listing.frontier lower (lower query) [], top = .failure message := by
      intro top above
      obtain ⟨other, walksOther, firstOther⟩ := exists_firstOf above
      have equal := (same walk other walks walksOther).symm.trans failed
      by_cases isFailure : ∃ text, top = .failure text
      · obtain ⟨text, rfl⟩ := isFailure
        rw [search_failed accepted positive firstOther] at equal
        cases equal
        rfl
      · rw [not_exists] at isFailure
        have unfailed : ∀ text, firstOf lower (lower query) other ≠ some (.failure text) := by
          intro text isFirst
          rw [firstOther] at isFirst
          exact isFailure text (Option.some.inj isFirst)
        rw [search_answer accepted positive sound walksOther unfailed, answer] at equal
        split at equal
        · cases equal
        · cases equal
    refine .inr ⟨message, fun item inside => ?_⟩
    by_cases skips : item.outcome lower (lower query) = .skip
    · exact .inl skips
    · rcases frontier_above sound inside skips with here | ⟨top, above, entry⟩
      · exact .inr (alone item here)
      · exact absurd (alone top above) (entry message)

theorem same_of_indifferent (sound : listing.Sound)
    (accepted : validateWorkspaceSearchQuery query = .ok ()) (positive : 0 < limit)
    (indifferent : Indifferent lower (lower query) listing) {other : List Item}
    (walks : Walks [] listing walk) (others : Walks [] listing other) :
    searchWorkspaceBlocking lower query limit (.entry [] (some .directory) :: walk) =
      searchWorkspaceBlocking lower query limit (.entry [] (some .directory) :: other) := by
  rcases indifferent with unfailed | ⟨message, single⟩
  · rw [search_answer accepted positive sound walks
        fun message first => unfailed message (walks.firstOf_mem first),
      search_answer accepted positive sound others
        fun message first => unfailed message (others.firstOf_mem first)]
  · by_cases skips : ∀ item ∈ listing.items [], item.outcome lower (lower query) = .skip
    · have none := fun {walk} (walks : Walks [] listing walk) => (firstOf_eq_none walks).mpr skips
      rw [search_answer accepted positive sound walks (by rw [none walks]; simp),
        search_answer accepted positive sound others (by rw [none others]; simp)]
    · have first : ∀ {walk}, Walks [] listing walk →
          firstOf lower (lower query) walk = some (.failure message) := by
        intro walk walks
        obtain ⟨item, isFirst⟩ :=
          Option.ne_none_iff_exists'.mp (mt (firstOf_eq_none walks).mp skips)
        have member := walks.items.mem_iff.mp (List.mem_of_find?_eq_some isFirst)
        have counts := List.find?_some isFirst
        rw [decide_eq_true_eq] at counts
        rcases single item member with skip | failure
        · exact absurd skip counts
        · rw [isFirst, failure]
      rw [search_failed accepted positive (first walks),
        search_failed accepted positive (first others)]

/-- A result is the best of all matches, whatever the errors. -/
theorem result_eq_smallest (sound : listing.Sound) (walks : Walks [] listing walk)
    {results : List WorkspaceFileSearchMatch}
    (returned : searchWorkspaceBlocking lower query limit (.entry [] (some .directory) :: walk) =
      .ok results) :
    results = smallest (matchLe lower) limit (matchesOf lower (lower query) (listing.items [])) := by
  rcases Nat.eq_zero_or_pos limit with rfl | positive
  · rw [searchWorkspaceBlocking] at returned
    split at returned
    · cases returned
    · cases returned
      rfl
  · have accepted : validateWorkspaceSearchQuery query = .ok () := by
      cases checked : validateWorkspaceSearchQuery query with
      | ok => rfl
      | error reason =>
          rw [searchWorkspaceBlocking, checked] at returned
          cases returned
    by_cases failed : ∃ message, firstOf lower (lower query) walk = some (.failure message)
    · obtain ⟨message, first⟩ := failed
      rw [search_failed accepted positive first] at returned
      cases returned
    · rw [not_exists] at failed
      rw [search_answer accepted positive sound walks failed, answer] at returned
      split at returned
      · cases returned
      · cases returned
        rfl

/-- The result of a search does not depend on the order of the walk exactly when no error can
come before a match, or nothing but one error can come; a result is always the best of all
matches. -/
theorem search_order_iff (lower : String → String) (tree : WorkspaceTree) (query : String)
    (limit : Nat) :
    ((∀ walk other, Yields tree.listing walk → Yields tree.listing other →
        searchWorkspaceBlocking lower query limit walk =
          searchWorkspaceBlocking lower query limit other) ↔
      validateWorkspaceSearchQuery query ≠ .ok () ∨ limit = 0 ∨
        Indifferent lower (lower query) tree.listing) ∧
    ∀ walk results, Yields tree.listing walk →
      searchWorkspaceBlocking lower query limit walk = .ok results →
      results = smallest (matchLe lower) limit
        (matchesOf lower (lower query) (tree.listing.items [])) := by
  constructor
  · constructor
    · intro same
      by_cases accepted : validateWorkspaceSearchQuery query = .ok ()
      · rcases Nat.eq_zero_or_pos limit with zero | positive
        · exact .inr (.inl zero)
        · refine .inr (.inr (indifferent_of_same tree.sound accepted positive ?_))
          intro walk other walks others
          exact same _ _ ⟨walk, walks, rfl⟩ ⟨other, others, rfl⟩
      · exact .inl accepted
    · rintro condition _ _ ⟨walk, walks, rfl⟩ ⟨other, others, rfl⟩
      cases checked : validateWorkspaceSearchQuery query with
      | error reason => rw [searchWorkspaceBlocking, searchWorkspaceBlocking, checked]
      | ok =>
          rcases Nat.eq_zero_or_pos limit with rfl | positive
          · rw [searchWorkspaceBlocking, searchWorkspaceBlocking, checked]
            rfl
          · rcases condition with rejected | impossible | indifferent
            · exact absurd checked rejected
            · omega
            · exact same_of_indifferent tree.sound checked positive indifferent walks others
  · rintro _ results ⟨walk, walks, rfl⟩ returned
    exact result_eq_smallest tree.sound walks returned

/-- A file and a directory that cannot be read. -/
def lockedTree : WorkspaceTree where
  listing :=
    .cons (.entry (.utf8 ⟨"a", by decide⟩) (some .file)) .nil
      (.cons (.entry (.utf8 ⟨"locked", by decide⟩) (some .directory))
        (.cons (.failure "Permission denied") .nil .nil) .nil)
  sound := ⟨trivial, ⟨⟨trivial, trivial, rfl⟩, trivial, List.not_mem_nil⟩, by decide⟩

/-- The error is ignored after the file, and returned before it. -/
theorem not_search_order : ¬ ∀ (lower : String → String) (tree : WorkspaceTree) (query : String)
    (limit : Nat) (walk other : List Item), Yields tree.listing walk → Yields tree.listing other →
      searchWorkspaceBlocking lower query limit walk =
        searchWorkspaceBlocking lower query limit other := by
  intro same
  have fileFirst := walks_items [] lockedTree.listing
  have lockedFirst := Walks.before (walks_items [] (.cons
    (.entry (.utf8 ⟨"locked", by decide⟩) (some .directory))
    (.cons (.failure "Permission denied") .nil .nil) .nil))
    (walks_items ((Node.entry (.utf8 ⟨"a", by decide⟩) (some .file)).path []) .nil)
  have equal := same id lockedTree "a" 10 _ _ ⟨_, fileFirst, rfl⟩ ⟨_, lockedFirst, rfl⟩
  have results := congrArg Except.isOk equal
  revert results
  decide

end matching

end Zeron.Workspace
