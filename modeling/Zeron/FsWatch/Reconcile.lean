import Zeron.FsWatch.Cover

namespace Zeron.FsWatch

/-! # One pass over the OS watches

A pass takes down what the cover of the wanted paths no longer has, puts up what it
has, and begins again while puttings up fail.  `moments` are the installed roots
after each of its steps.
-/

/-- A backend; `bridgeEnabled` is a switch of the hub. -/
structure Backend where
  restartsOnChange : Bool
  shared : Bool
  bridgeEnabled : Bool := true

structure OsState where
  /-- Whether the shared watcher has been created. -/
  watcher : Bool := false
  /-- The paths with a watcher of their own. -/
  handles : List Path := []
  installed : Roots := {}
  failed : List Path := []

/-- What comes of putting up one path. -/
inductive Attempt
  | missing
  /-- No watcher can be created where one is needed. -/
  | noWatcher
  | refused
  | accepted
deriving DecidableEq

/-- What the system answers in one pass. -/
structure Answers where
  attempt : Path → Attempt
  bridgeOpens : Bool := true

structure Passing where
  os : OsState
  touched : Bool := false
  bridgeTried : Bool := false
  /-- The path the bridge is on, while it is open. -/
  bridge : Option Path := none
  moments : List Roots := []

/-- `while !path.starts_with(ancestor) { ancestor = ancestor.parent()? }`. -/
def climb (path : Path) : Nat → Path → Option Path
  | 0, ancestor => if ancestor <+: path then some ancestor else none
  | fuel + 1, ancestor =>
      if ancestor <+: path then some ancestor
      else ancestor.parent.bind (climb path fuel)

def commonAncestor : List Path → Option Path
  | [] => none
  | first :: rest =>
      rest.foldlM (fun ancestor path => climb path ancestor.length ancestor) first

def openBridge (backend : Backend) (answers : Answers) (installed desired : Roots) : Option Path :=
  if backend.bridgeEnabled then
    let survivors := (installed.keep (· ∈ desired.rows)).rows.map Prod.fst
    (commonAncestor survivors).filter fun _ => answers.bridgeOpens
  else none

namespace Passing

def takeDown (passing : Passing) (path : Path) : Passing :=
  let os := passing.os
  let installed := os.installed.remove path
  if path ∈ os.handles then
    { passing with
      os := { os with installed, handles := os.handles.filter (· ≠ path) }
      touched := true
      moments := passing.moments ++ [installed] }
  else
    { passing with
      os := { os with installed }
      touched := passing.touched || os.watcher
      moments := passing.moments ++ [installed] }

/-- `install`: the watchers it leaves, whether the watcher was touched and whether it went well. -/
def install (shared : Bool) (attempt : Attempt) (os : OsState) (touched : Bool) (path : Path) :
    OsState × Bool × Bool :=
  let watching := if shared then { os with watcher := true } else os
  match attempt with
  | .missing => (os, touched, false)
  | .noWatcher => (os, touched || shared && os.watcher, false)
  | .refused => (watching, true, false)
  | .accepted =>
      (if shared then watching else { os with handles := path :: os.handles }, true, true)

/-- One path put up, or recorded as failed; whether one of the round has failed. -/
def putUp (backend : Backend) (answers : Answers) (round : Passing × Bool) (row : Path × Bool) :
    Passing × Bool :=
  let passing := round.1
  if row ∈ passing.os.installed.rows then round
  else
    let (os, touched, ok) :=
      install backend.shared (answers.attempt row.1) passing.os passing.touched row.1
    if ok then
      let installed := os.installed.insert row.1 row.2
      ({ passing with os := { os with installed }, touched, moments := passing.moments ++ [installed] },
        round.2)
    else ({ passing with os := { os with failed := row.1 :: os.failed }, touched }, true)

/-- The paths to take down. -/
def stale (installed desired : Roots) : List Path :=
  (installed.rows.filter (· ∉ desired.rows)).map Prod.fst

/-- One round: a bridge before the first change, everything down, then everything up. -/
def round (backend : Backend) (answers : Answers) (desired : Roots) (passing : Passing) :
    Passing × Bool :=
  let passing :=
    if backend.restartsOnChange && !passing.bridgeTried then
      { passing with
        bridgeTried := true
        bridge := openBridge backend answers passing.os.installed desired }
    else passing
  let down := (stale passing.os.installed desired).foldl takeDown passing
  desired.rows.foldl (putUp backend answers) (down, false)

/-- The rounds of a pass; none is left when the fuel is gone. -/
def rounds (backend : Backend) (answers : Answers) (wanted : Roots) :
    Nat → Passing → Option Passing
  | 0, _ => none
  | fuel + 1, passing =>
      let desired := minimalCover wanted passing.os.failed
      if desired.same passing.os.installed then some passing
      else
        match passing.round backend answers desired with
        | (passing, false) => some passing
        | (passing, true) => rounds backend answers wanted fuel passing

end Passing

/-! ## Registrations -/

structure Registration where
  id : Nat
  path : Path
  recursive : Bool
  attached : Bool := false
deriving DecidableEq

/-- Distinct paths, recursive where any registration is. -/
def wantedOf (regs : List Registration) : Roots :=
  regs.foldl (fun wanted reg => wanted.want reg.path reg.recursive) {}

/-- The rounds of `reconcile_os`, from the registrations it reads first. -/
def reconcileOs (backend : Backend) (answers : Answers) (os : OsState) (wanted : Roots) :
    Option Passing :=
  let os := { os with failed := os.failed.filter (· ∈ wanted.rows.map Prod.fst) }
  Passing.rounds backend answers wanted (wanted.rows.length + 1) { os, moments := [os.installed] }

/-- Whether events may have been dropped with no bridge open. -/
def Passing.gap (backend : Backend) (passing : Passing) : Bool :=
  backend.restartsOnChange && passing.touched && passing.bridge.isNone

/-- Whether the handler of a registration is sent a rescan at the end of a pass. -/
def rescans (backend : Backend) (before : Roots) (passing : Passing) (reg : Registration) : Bool :=
  let after := passing.os.installed
  isCovered reg.path after &&
    (!reg.attached || decide (coveringRoots reg.path before ≠ coveringRoots reg.path after) ||
      passing.gap backend && isCovered reg.path before)

/-- The flag of a registration at the end of a pass. -/
def Registration.attach (installed : Roots) (reg : Registration) : Registration :=
  { reg with attached := isCovered reg.path installed }

end Zeron.FsWatch
