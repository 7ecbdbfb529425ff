import Mathlib

namespace Zeron.Preview

/-! # Listeners observed on this device

Paths and command lines come from the operating system: a path need not be
UTF-8.  What identifies a server is its working directory and its command
without the port settings.
-/

/-- A unit of an operating-system string: a character, or one run of bytes that
is no character. -/
inductive OsUnit where
  | char (c : Char)
  | stray (bytes : List UInt8)
  deriving DecidableEq

abbrev OsStr := List OsUnit

def osStr (text : String) : OsStr := text.toList.map .char

def OsUnit.toChar? : OsUnit → Option Char
  | .char c => some c
  | .stray _ => none

def toStr (text : OsStr) : Option String := (text.mapM OsUnit.toChar?).map String.ofList

def toStringLossy (text : OsStr) : String :=
  String.ofList (text.map fun part => part.toChar?.getD (Char.ofNat 0xFFFD))

def OsUnit.bytes : OsUnit → List UInt8
  | .char c => String.utf8EncodeChar c
  | .stray bytes => bytes

/-! ## Paths -/

inductive Component where
  | rootDir
  | curDir
  | parentDir
  | normal (name : OsStr)
  deriving DecidableEq

def component (part : OsStr) : Option Component :=
  if part = [] ∨ part = osStr "." then none
  else if part = osStr ".." then some .parentDir
  else some (.normal part)

/-- The components of a path.  Repeated slashes and inner dots are dropped, so
two spellings of one path are equal here. -/
def components (path : OsStr) : List Component :=
  let parts := path.splitOn (.char '/')
  let start :=
    if path.head? = some (.char '/') then [.rootDir]
    else if parts.head? = some (osStr ".") then [.curDir]
    else []
  start ++ parts.filterMap component

def compareBytes : List UInt8 → List UInt8 → Ordering
  | [], [] => .eq
  | [], _ :: _ => .lt
  | _ :: _, [] => .gt
  | a :: left, b :: right => (compare a b).then (compareBytes left right)

def Component.index : Component → Nat
  | .rootDir => 0
  | .curDir => 1
  | .parentDir => 2
  | .normal _ => 3

def Component.compare : Component → Component → Ordering
  | .normal a, .normal b => compareBytes (a.flatMap OsUnit.bytes) (b.flatMap OsUnit.bytes)
  | a, b => Ord.compare a.index b.index

def compareComponents : List Component → List Component → Ordering
  | [], [] => .eq
  | [], _ :: _ => .lt
  | _ :: _, [] => .gt
  | a :: left, b :: right => (a.compare b).then (compareComponents left right)

def fileName (path : OsStr) : Option OsStr :=
  match (components path).getLast? with
  | some (.normal name) => some name
  | _ => none

/-- A file name without its extension; a leading dot starts no extension. -/
def fileStem (path : OsStr) : Option OsStr :=
  (fileName path).map fun name =>
    let after := name.reverse.takeWhile (· != .char '.')
    let before := name.take (name.length - after.length - 1)
    if before = [] then name else before

/-! ## Listeners -/

inductive SocketAddr where
  | v4 (ip port : Nat)
  | v6 (ip port flowinfo scope : Nat)
  deriving DecidableEq

def SocketAddr.port : SocketAddr → Nat
  | .v4 _ port => port
  | .v6 _ port _ _ => port

def SocketAddr.compare : SocketAddr → SocketAddr → Ordering
  | .v4 ipA portA, .v4 ipB portB => (Ord.compare ipA ipB).then (Ord.compare portA portB)
  | .v4 .., .v6 .. => .lt
  | .v6 .., .v4 .. => .gt
  | .v6 ipA portA flowA scopeA, .v6 ipB portB flowB scopeB =>
      (((Ord.compare ipA ipB).then (Ord.compare portA portB)).then
        (Ord.compare flowA flowB)).then (Ord.compare scopeA scopeB)

structure Listener where
  pid : Nat
  cwd : OsStr
  args : List String
  startedAt : Nat
  address : SocketAddr
  zeronOwned : Bool
  deriving DecidableEq

def Listener.port (listener : Listener) : Nat := listener.address.port

/-- What a listener is told apart by within one scan. -/
def Listener.process (listener : Listener) : Nat × Nat × Nat :=
  (listener.pid, listener.startedAt, listener.port)

/-- `str::parse::<u16>`. -/
def parseU16 (text : String) : Option Nat :=
  let digits := if text.toList.head? = some '+' then text.toList.tail else text.toList
  if digits ≠ [] ∧ digits.all Char.isDigit ∧ Nat.ofDigitChars 10 digits 0 < 2 ^ 16 then
    some (Nat.ofDigitChars 10 digits 0)
  else none

/-- `to_lowercase`, as far as the names looked for can tell: no character beyond
ASCII lower-cases into a text that continues one of them. -/
def lowered (text : String) : List Char := text.toList.map Char.toLower

def names (needle : String) (arg : String) : Bool :=
  let arg := lowered arg
  decide ((fileStem (arg.map .char)) = some (osStr needle)) ||
    decide (('/' :: needle.toList ++ ['/']) <:+: arg) ||
    decide ((needle.toList ++ "-server".toList) <+: arg)

def frameworks : List (String × String × Nat) :=
  [("vite", "Vite", 100), ("next", "Next.js", 100), ("astro", "Astro", 100),
    ("miniflare", "Miniflare", 80)]

def framework (args : List String) : String × Nat :=
  match frameworks.find? fun known => args.any (names known.1) with
  | some (_, name, rank) => (name, rank)
  | none =>
      let runs (name : String) : Bool :=
        args.head?.any fun first => fileName (osStr first) = some (osStr name)
      if runs "node" || runs "bun" || runs "deno" then ("Node HTTP server", 50)
      else ("HTTP server", 40)

def commandWords (pythonHttp : Bool) : Bool → List String → List String
  | _, [] => []
  | true, _ :: rest => commandWords pythonHttp false rest
  | false, arg :: rest =>
      if arg = "--port" ∨ arg = "-p" ∨ arg = "--inspect-port" then
        -- The flag takes the next argument with it.
        commandWords pythonHttp true rest
      else if arg.startsWith "--port=" ∨ arg.startsWith "PORT=" ∨
          arg.startsWith "--inspect-port=" then
        commandWords pythonHttp false rest
      else if pythonHttp ∧ (parseU16 arg).isSome then
        commandWords pythonHttp false rest
      else
        arg :: commandWords pythonHttp false rest

def nul : String := String.singleton (Char.ofNat 0)

def commandIdentity (args : List String) : String :=
  nul.intercalate (commandWords (args.contains "http.server") false args)

/-- What a server is known by: its directory and its command, its port apart. -/
def identityText (listener : Listener) : String :=
  toStringLossy listener.cwd ++ nul ++
    commandIdentity (listener.args.filter fun arg => parseU16 arg ≠ some listener.port)

def stemIs (names : List String) (value : OsStr) : Bool :=
  match (fileStem value).bind toStr with
  | some stem => names.contains (String.ofList (stem.toList.map Char.toLower))
  | none => names.contains ""

def serviceRole (listener : Listener) (frameworkName : String) : String :=
  if frameworkName ≠ "HTTP server" ∧ frameworkName ≠ "Node HTTP server" then frameworkName
  else
    let values := listener.args.map osStr ++ [osStr (toStringLossy listener.cwd)]
    let role := values.findSome? fun value =>
      if stemIs ["api", "api-server"] value then some "API"
      else if stemIs ["docs", "documentation"] value then some "Docs"
      else none
    role.getD frameworkName

/-- A listener seen under a project root. -/
structure Observation where
  root : OsStr
  listener : Listener
  deriving DecidableEq

def Observation.rank (seen : Observation) : Nat := (framework seen.listener.args).2

/-- Frontends first, then our own children, then the oldest process. -/
def Observation.order (a b : Observation) : Ordering :=
  (compareComponents (components a.root) (components b.root)).then <|
    (compare b.rank a.rank).then <|
    (compare b.listener.zeronOwned a.listener.zeronOwned).then <|
    (compare a.listener.startedAt b.listener.startedAt).then <|
    (compare a.listener.pid b.listener.pid).then <|
    a.listener.address.compare b.listener.address

/-- The order of the scan: a stable sort. -/
def sorted (observations : List Observation) : List Observation :=
  observations.insertionSort fun a b => (a.order b).isLE = true

theorem mem_sorted {observations : List Observation} {seen : Observation} :
    seen ∈ sorted observations ↔ seen ∈ observations :=
  (List.perm_insertionSort _ observations).mem_iff

end Zeron.Preview
