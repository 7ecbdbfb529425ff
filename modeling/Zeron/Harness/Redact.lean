import Zeron.Data.Json
import Zeron.Data.Needle
import Zeron.Data.Trim
import Zeron.Registry.Sidebar

namespace Zeron.Harness.Redact

open Zeron.Data

/-! # Redaction of what an agent printed

A machine over words: a label makes the word after its separator a value, and a value is hidden
through its closing quote or its end.  A word is read in segments, each in the state the one before
left.
-/

abbrev Text := List Char

def isWhitespace (c : Char) : Bool := Registry.SidebarM.isWhitespace c

def lower (text : Text) : Text := text.map Char.toLower

def contains (text needle : Text) : Bool := (cutFirst needle text).isSome

def isOneOf (set : String) (c : Char) : Bool := set.toList.contains c

/-! ## Escapes -/

inductive AnsiMode where
  | plain
  | escape
  | csi
  | osc
  | oscEscape

/-- Terminal escape sequences removed. -/
def stripAnsiFrom : AnsiMode → Text → Text
  | _, [] => []
  | .plain, c :: rest => if c = '\x1b' then stripAnsiFrom .escape rest else c :: stripAnsiFrom .plain rest
  | .escape, c :: rest =>
      if c = '[' then stripAnsiFrom .csi rest
      else if c = ']' then stripAnsiFrom .osc rest
      else stripAnsiFrom .plain rest
  | .csi, c :: rest =>
      if '@' ≤ c ∧ c ≤ '~' then stripAnsiFrom .plain rest else stripAnsiFrom .csi rest
  | .osc, c :: rest =>
      if c = '\x07' then stripAnsiFrom .plain rest
      else if c = '\x1b' then stripAnsiFrom .oscEscape rest
      else stripAnsiFrom .osc rest
  | .oscEscape, _ :: rest => stripAnsiFrom .plain rest

def stripAnsi (text : Text) : Text := stripAnsiFrom .plain text

/-! ## What looks like a secret -/

def redacted : Text := "[redacted]".toList

def secretKeys : List Text :=
  ["token", "secret", "password", "passwd", "key", "code", "state", "verifier", "session", "cookie",
    "auth", "credential", "otp"].map String.toList

def exactSecretKeys : List Text := ["access", "refresh"].map String.toList

def secretPrefixes : List Text :=
  ["sk-", "sk_", "pk_", "rk_", "ghp_", "gho_", "ghu_", "ghs_", "ghr_", "github_pat_", "xai-",
    "xoxb-", "xoxp-", "glpat-", "AKIA", "ya29."].map String.toList

def isTokenChar (c : Char) : Bool := c.isAlphanum || isOneOf "+/=_-." c

def looksLikeSecret (token : Text) : Bool :=
  ("eyJ".toList.isPrefixOf token && token.contains '.' && decide (20 < utf8Length token)) ||
    (secretPrefixes.any fun start =>
      start.isPrefixOf token && decide (start.length + 8 ≤ utf8Length token)) ||
    (!(token.head?.any (isOneOf "/~.")) && decide (token.count '/' < 3) &&
      decide (32 ≤ utf8Length token) && token.all isTokenChar && token.any Char.isDigit &&
      token.any Char.isAlpha && !contains token "..".toList)

def looksLikeDeviceCode (token : Text) : Bool :=
  let groups := token.splitOn '-'
  decide (2 ≤ groups.length) &&
    (groups.all fun group =>
      decide (4 ≤ utf8Length group) && group.all fun c => c.isUpper || c.isDigit) &&
    token.any Char.isDigit

/-! ## Words -/

inductive Label where
  | secret
  | authorization
deriving DecidableEq

structure LabelParts where
  key : Text
  rest : Option Text
deriving DecidableEq

def isQuote (c : Char) : Bool := isOneOf "\"'`" c

def openingQuote (part : Text) : Option Char := part.head?.filter isQuote

/-- `part` after a leading `=>`, `:` or `=`. -/
def stripSeparator : Text → Option Text
  | '=' :: '>' :: rest => some rest
  | ':' :: rest | '=' :: rest => some rest
  | _ => none

def isLead (c : Char) : Bool := isOneOf "\"'`\x7b[(,-" c

def isKeyChar (c : Char) : Bool := c.isAlphanum || isOneOf "_-." c

/-- `after` without the quote that closes the key. -/
def unquoted (quote : Option Char) (after : Text) : Text :=
  match quote, after with
  | some quote, c :: rest => if c = quote then rest else after
  | _, _ => after

def parseLabel (word : Text) : Option LabelParts :=
  let body := word.dropWhile isLead
  let quote := (word.takeWhile isLead).getLast?.filter isQuote
  let key := body.takeWhile isKeyChar
  if !(key.head?.any Char.isAlpha) || decide (64 < key.length) || looksLikeSecret key ||
      looksLikeDeviceCode key then none
  else
    let after := unquoted quote (body.drop key.length)
    if after = [] then some ⟨key, none⟩
    else
      (stripSeparator after).bind fun rest =>
        if "//".toList.isPrefixOf rest then none else some ⟨key, some rest⟩

def trimmed (word : Text) : Text := trimBy (fun c => !c.isAlphanum) word

def statusWords : List Text :=
  ["status", "http", "exit", "error", "response", "return"].map String.toList

def credentialWords : List Text := ["bearer", "basic"].map String.toList

def labelKind (key previous : Text) : Option Label :=
  let key := lower key
  if key ∈ ["authorization".toList, "proxy-authorization".toList] then some .authorization
  else if key = "code".toList ∧ trimmed previous ∈ statusWords then none
  else if key ∈ exactSecretKeys ∨ secretKeys.any (contains key) then some .secret
  else none

/-- The text before the first unescaped quote, and after it. -/
def closeFrom (quote : Char) : Bool → Text → Option (Text × Text)
  | _, [] => none
  | escaped, c :: rest =>
      if escaped then (closeFrom quote false rest).map fun cut => (c :: cut.1, cut.2)
      else if c = '\\' then (closeFrom quote true rest).map fun cut => (c :: cut.1, cut.2)
      else if c = quote then some ([], rest)
      else (closeFrom quote false rest).map fun cut => (c :: cut.1, cut.2)

def findClosing (text : Text) (quote : Char) : Option (Text × Text) := closeFrom quote false text

/-- A leading quoted item, and what follows it. -/
def quotedItem (part : Text) : Option (Text × Text) :=
  (openingQuote part).bind fun quote =>
    (findClosing part.tail quote).map fun cut => (quote :: (cut.1 ++ [quote]), cut.2)

def isAuthScheme (word : Text) : Bool :=
  ["bearer", "basic", "digest", "token", "negotiate", "ntlm", "hawk", "apikey"].contains
    (String.ofList (lower word))

def mask (value : Text) : Text := if looksLikeDeviceCode value then "[code]".toList else redacted

def isEdge (c : Char) : Bool := isOneOf "\"'`,;)\x7d]" c

def redactLabeledValue (word : Text) : Text :=
  let core := trimBy isEdge word
  if core = [] then word
  else
    word.takeWhile isEdge ++ mask core ++ (word.dropWhile isEdge).rtakeWhile isEdge

def keyValue (core : Text) (sep : Char) : Option Text :=
  (cutFirst [sep] core).bind fun cut =>
    let key := lower (trimBy (fun c => !c.isAlphanum && c != '_') cut.1)
    if cut.2 ≠ [] ∧ secretKeys.any (contains key) then some (cut.1 ++ sep :: redacted) else none

/-- A url without its userinfo, query and fragment. -/
def redactUrl (scheme rest : Text) : Text :=
  let base := rest.takeWhile fun c => c ≠ '?' ∧ c ≠ '#'
  let authority := base.takeWhile (· ≠ '/')
  let path := base.drop authority.length
  let host :=
    if authority.contains '@' then redacted ++ '@' :: (authority.rtakeWhile (· ≠ '@')) else authority
  let segments := (path.splitOn '/').map fun segment =>
    if looksLikeSecret segment || looksLikeDeviceCode segment then redacted else segment
  scheme ++ "://".toList ++ host ++ ['/'].intercalate segments ++
    (if rest.length = base.length then [] else "?…".toList)

def redactCore (core : Text) : Text :=
  match cutFirst "://".toList core with
  | some cut => redactUrl cut.1 cut.2
  | none =>
      match (keyValue core '=').or (keyValue core ':') with
      | some shown => shown
      | none =>
          if looksLikeSecret core then redacted
          else if looksLikeDeviceCode core then "[code]".toList
          else core

def isWordLead (c : Char) : Bool := isOneOf "\"'([<\x7b`" c

def isWordTrail (c : Char) : Bool := isOneOf "\"'.,;:)]\x7d>`!?" c

def redactWord (word previous : Text) : Text :=
  let inner := word.dropWhile isWordLead
  let core := inner.rdropWhile isWordTrail
  if core = [] then word
  else
    word.takeWhile isWordLead ++
      (if trimmed previous ∈ credentialWords then redacted else redactCore core) ++
      inner.rtakeWhile isWordTrail

/-! ## The machine -/

inductive State where
  | text
  | separator (label : Label)
  | value (label : Label)
  | hidden (quote : Option Char) (masked : Bool)
deriving DecidableEq

structure Redactor where
  out : Text
  space : Text
  previous : Text
  state : State
deriving DecidableEq

def Redactor.start : Redactor := ⟨[], [], [], .text⟩

def Redactor.blank (redactor : Redactor) (c : Char) : Redactor :=
  let state :=
    match redactor.state with
    | .separator _ | .hidden _ _ => if c = '\n' then .text else redactor.state
    | state => state
  { redactor with state, space := redactor.space ++ [c] }

def Redactor.emit (redactor : Redactor) (text : Text) : Redactor :=
  { redactor with out := redactor.out ++ redactor.space ++ text, space := [] }

def Redactor.finish (redactor : Redactor) : Text := redactor.out ++ redactor.space

def before (part rest : Text) : Text := part.take (part.length - rest.length)

section segments

-- How what is left of a part is read.
variable (next : Redactor → Text → Redactor)

/-- A part that starts with no label. -/
def Redactor.unlabelled (redactor : Redactor) (part : Text) : Redactor :=
  match (quotedItem part).filter fun cut => decide (cut.2 ≠ []) with
  | some (head, tail) => next (redactor.emit (redactWord head redactor.previous)) tail
  | none =>
      match (cutFirst [','] part).filter fun cut =>
          decide (cut.2 ≠ []) && !contains part "://".toList with
      | some (head, tail) => next (next redactor (head ++ [','])) tail
      | none => redactor.emit (redactWord part redactor.previous)

/-- A part outside any value. -/
def Redactor.text (redactor : Redactor) (part : Text) : Redactor :=
  match parseLabel part with
  | none => redactor.unlabelled next part
  | some ⟨key, rest⟩ =>
      match labelKind key redactor.previous, rest with
      | some label, none =>
          { redactor.emit (redactWord part redactor.previous) with state := .separator label }
      | some label, some rest =>
          next { redactor.emit (before part rest) with state := .value label } rest
      | none, some rest =>
          if rest = [] then redactor.unlabelled next part
          else next (redactor.emit (before part rest)) rest
      | none, none => redactor.unlabelled next part

def Redactor.secretValue (redactor : Redactor) (part : Text) : Redactor :=
  if part = ['\x7b'] then redactor.emit part
  else
    match openingQuote part with
    | none => redactor.emit (redactLabeledValue part)
    | some quote =>
        let inner := part.tail
        let opened := redactor.emit [quote]
        match findClosing inner quote with
        | some (content, tail) =>
            next ((if content = [] then opened else opened.emit (mask content)).emit [quote]) tail
        | none =>
            { (if inner = [] then opened else opened.emit redacted) with
              state := .hidden (some quote) (decide (inner ≠ [])) }

def Redactor.authorizationValue (redactor : Redactor) (part : Text) : Redactor :=
  let quote := openingQuote part
  let opened := match quote with
    | some quote => redactor.emit [quote]
    | none => redactor
  let body := if quote.isSome then part.tail else part
  match quote.bind fun quote => (findClosing body quote).map fun cut => (quote, cut) with
  | some (quote, content, tail) =>
      next ((if content = [] then opened else opened.emit redacted).emit [quote]) tail
  | none =>
      if isAuthScheme body then { opened.emit body with state := .hidden quote false }
      else if body = [] then { opened with state := .hidden quote false }
      else { opened.emit redacted with state := .hidden quote true }

/-- One `[redacted]` stands for all of a hidden value. -/
def Redactor.hide (redactor : Redactor) (part : Text) (quote : Option Char) (masked : Bool) :
    Redactor :=
  let close := quote.bind fun quote => (findClosing part quote).map fun cut => (quote, cut)
  let content := (close.map fun cut => cut.2.1).getD part
  let covered :=
    if masked then { redactor with space := [] }
    else if content = [] then redactor
    else redactor.emit redacted
  match close with
  | some (quote, _, tail) => next ({ covered with state := .text }.emit [quote]) tail
  | none => { covered with state := .hidden quote (masked || decide (content ≠ [])) }

def isSeparator (part : Text) : Bool := [['='], [':'], ['=', '>']].contains part

/-- A word, or what is left of one, in the current state. -/
def Redactor.segmentWith (redactor : Redactor) (part : Text) : Redactor :=
  if part = [] then redactor
  else
    match redactor.state with
    | .text => redactor.text next part
    | .separator label =>
        match stripSeparator part with
        | some rest =>
            next { redactor.emit (before part rest) with state := .value label } rest
        | none => { redactor with state := .text }.text next part
    | .value label =>
        if isSeparator part then redactor.emit part
        else
          match label with
          | .secret => { redactor with state := .text }.secretValue next part
          | .authorization => { redactor with state := .text }.authorizationValue next part
    | .hidden quote masked => redactor.hide next part quote masked

end segments

/-- What is left gets shorter, so the length of a part is enough. -/
def Redactor.segmentFor : Nat → Redactor → Text → Redactor
  | 0, redactor, _ => redactor
  | fuel + 1, redactor, part => redactor.segmentWith (Redactor.segmentFor fuel) part

def Redactor.segment (redactor : Redactor) (part : Text) : Redactor :=
  redactor.segmentFor (part.length + 1) part

def Redactor.word (redactor : Redactor) (word : Text) : Redactor :=
  { redactor.segment word with previous := lower word }

/-! ## The text -/

/-- A character after a word that is not over. -/
def feed (reading : Redactor × Text) (c : Char) : Redactor × Text :=
  if isWhitespace c then
    ((if reading.2 = [] then reading.1 else reading.1.word reading.2).blank c, [])
  else (reading.1, reading.2 ++ [c])

def read (text : Text) : Redactor × Text := text.foldl feed (.start, [])

def close (reading : Redactor × Text) : Text :=
  (if reading.2 = [] then reading.1 else reading.1.word reading.2).finish

def redactOutput (text : Text) : Text := close (read (stripAnsi text))

end Zeron.Harness.Redact
