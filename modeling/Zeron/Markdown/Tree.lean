import Zeron.Registry.Sidebar

namespace Zeron.Markdown

/-! # The block tree

The builder walks the events of the Markdown parser with a cursor.  A loop of the source is a
recursion on fuel, of which twice the events left are enough.
-/

abbrev Text := List Char

structure TaskMarker where
  checked : Bool
  range : Nat × Nat
deriving DecidableEq

structure InlineImage where
  source : Text
  alt : Text
  title : Text
  link : Option Text
deriving DecidableEq

structure InlineStyle where
  bold : Bool := false
  italic : Bool := false
  code : Bool := false
  strikethrough : Bool := false
  link : Option Text := none
  fileLabel : Option Text := none
  image : Option InlineImage := none
  task : Option TaskMarker := none
deriving DecidableEq

structure InlineRun where
  text : Text
  style : InlineStyle
deriving DecidableEq

inductive TableAlign where
  | left | center | right

inductive Block where
  | paragraph (runs : List InlineRun)
  | heading (level : Nat) (runs : List InlineRun)
  | codeBlock (language : Option Text) (code : Text)
  | blockQuote (children : List Block)
  | list (orderedStart : Option Nat) (items : List (List Block))
  | table (header : List (List InlineRun)) (rows : List (List (List InlineRun)))
      (align : List TableAlign)
  | rule

structure TopBlock where
  range : Nat × Nat
  block : Block

/-! ## The events -/

inductive CodeBlockKind where
  | indented
  | fenced (info : Text)

inductive Alignment where
  | none | left | center | right

inductive HeadingLevel where
  | h1 | h2 | h3 | h4 | h5 | h6

inductive Tag where
  | paragraph
  | heading (level : HeadingLevel)
  | codeBlock (kind : CodeBlockKind)
  | blockQuote
  | list (orderedStart : Option Nat)
  | item
  | table (align : List Alignment)
  | htmlBlock
  | footnoteDefinition
  | tableHead
  | tableRow
  | tableCell
  | emphasis
  | strong
  | strikethrough
  | link (destUrl : Text)
  | image (destUrl title : Text)
  | other

inductive Event where
  | start (tag : Tag)
  | finish
  | text (text : Text)
  | code (text : Text)
  | html (text : Text)
  | inlineHtml (text : Text)
  | footnoteReference (label : Text)
  | softBreak
  | hardBreak
  | rule
  | taskListMarker (done : Bool)
  | other

abbrev Cursor := List (Event × (Nat × Nat))

def isBlockTag : Tag → Bool
  | .paragraph | .heading _ | .codeBlock _ | .blockQuote | .list _ | .item | .table _ | .htmlBlock
  | .footnoteDefinition => true
  | _ => false

def headingLevel : HeadingLevel → Nat
  | .h1 => 1
  | .h2 => 2
  | .h3 => 3
  | .h4 => 4
  | .h5 => 5
  | .h6 => 6

/-! ## Bare URLs -/

def isWhitespace (c : Char) : Bool := Registry.SidebarM.isWhitespace c

def https : Text := "https://".toList

def http : Text := "http://".toList

section

variable (isAlphanumeric : Char → Bool)

/-- `find_url_start` after the character `before`, with `skip` characters to go until the search
for the next "http" goes on. -/
def findUrlFrom : Option Char → Nat → Text → Option Nat
  | _, _, [] => none
  | _, skip + 1, c :: rest => (findUrlFrom (some c) skip rest).map (· + 1)
  | before, 0, c :: rest =>
      if "http".toList.isPrefixOf (c :: rest) then
        if (http.isPrefixOf (c :: rest) || https.isPrefixOf (c :: rest)) &&
            before.all fun c => !isAlphanumeric c then
          some 0
        else (findUrlFrom (some c) 3 rest).map (· + 1)
      else (findUrlFrom (some c) 0 rest).map (· + 1)

def findUrlStart (text : Text) : Option Nat := findUrlFrom isAlphanumeric none 0 text

def endsUrl (c : Char) : Bool := isWhitespace c || "<>\"'`".toList.contains c

/-- Whether the last character of a URL, given backwards, is not part of it. -/
def trims : Text → Bool
  | [] => false
  | last :: front =>
      if ".,;:!?*_~".toList.contains last then true
      else last == ')' && (last :: front).count '(' < (last :: front).count ')'

/-- The trim loop of `bare_url_len`, over the URL backwards. -/
def trimUrl : Text → Text
  | [] => []
  | last :: front => if trims (last :: front) then trimUrl front else last :: front

def bareUrlLen (text : Text) : Nat :=
  (trimUrl (text.takeWhile fun c => !endsUrl c).reverse).length

def schemeLength (url : Text) : Nat := if https.isPrefixOf url then https.length else http.length

/-- A run that is pushed unless it is empty. -/
def textRun (text : Text) (style : InlineStyle) : List InlineRun :=
  if text = [] then [] else [⟨text, style⟩]

/-- The loop of `push_text_autolinked` over the rest of the text. -/
def pushTextAutolinkedFor : Nat → Text → InlineStyle → List InlineRun
  | 0, rest, style => textRun rest style
  | fuel + 1, rest, style =>
      match findUrlStart isAlphanumeric rest with
      | none => textRun rest style
      | some place =>
          let url := rest.drop place
          let scheme := schemeLength url
          let len := bareUrlLen url
          -- A scheme with nothing after it stays text.
          if len ≤ scheme then
            textRun (rest.take (place + scheme)) style ++
              pushTextAutolinkedFor fuel (url.drop scheme) style
          else
            textRun (rest.take place) style ++
              textRun (url.take len) { style with link := some (url.take len) } ++
              pushTextAutolinkedFor fuel (url.drop len) style

def pushTextAutolinked (text : Text) (style : InlineStyle) : List InlineRun :=
  pushTextAutolinkedFor isAlphanumeric text.length text style

def autolinkRuns (runs : List InlineRun) : List InlineRun :=
  runs.flatMap fun run =>
    if run.style.link.isSome || run.style.code then [run]
    else pushTextAutolinked isAlphanumeric run.text run.style

/-- `merge_runs` after `last` was pushed. -/
def mergeInto (last : InlineRun) : List InlineRun → List InlineRun
  | [] => [last]
  | run :: rest =>
      if last.style = run.style ∧ run.style.image = none then
        mergeInto { last with text := last.text ++ run.text } rest
      else last :: mergeInto run rest

def mergeRuns : List InlineRun → List InlineRun
  | [] => []
  | run :: rest => mergeInto run rest

/-! ## Inline content -/

/-- What `parse_inline_container` makes of the runs it collected. -/
def closeRuns (read : List InlineRun × Cursor) : List InlineRun × Cursor :=
  (autolinkRuns isAlphanumeric (mergeRuns read.1), read.2)

/-- The style inside a tag that is no image. -/
def Tag.styled (style : InlineStyle) : Tag → InlineStyle
  | .emphasis => { style with italic := true }
  | .strong => { style with bold := true }
  | .strikethrough => { style with strikethrough := true }
  | .link destUrl => { style with link := some destUrl }
  | _ => style

mutual

/-- The loop of `parse_inline_container`. -/
def inlineEvents : Nat → Cursor → InlineStyle → List InlineRun × Cursor
  | 0, cur, _ => ([], cur)
  | fuel + 1, cur, style =>
      match cur with
      | [] => ([], [])
      | (.finish, _) :: rest => ([], rest)
      | _ =>
          let (runs, rest) := parseInlineEventFor fuel cur style
          let (more, rest) := inlineEvents fuel rest style
          (runs ++ more, rest)

/-- The runs `parse_inline_event` pushes. -/
def parseInlineEventFor : Nat → Cursor → InlineStyle → List InlineRun × Cursor
  | 0, cur, _ => ([], cur)
  | _, [], _ => ([], [])
  | fuel + 1, (event, range) :: rest, style =>
      match event with
      | .text text => (textRun text style, rest)
      | .code text => (textRun text { style with code := true }, rest)
      | .softBreak => (textRun [' '] style, rest)
      | .hardBreak => (textRun ['\n'] style, rest)
      | .html text | .inlineHtml text => (textRun text style, rest)
      | .taskListMarker done =>
          (textRun (if done then "[x] ".toList else "[ ] ".toList)
            { style with task := some ⟨done, range⟩ }, rest)
      | .footnoteReference label => (textRun ('[' :: label ++ [']']) style, rest)
      | .start (.image destUrl title) =>
          let (inner, rest) := closeRuns isAlphanumeric (inlineEvents fuel rest style)
          let alt := inner.flatMap InlineRun.text
          ([⟨alt, { style with
              image := some ⟨destUrl, alt, title, style.link⟩
              link := some destUrl }⟩], rest)
      | .start tag => closeRuns isAlphanumeric (inlineEvents fuel rest (tag.styled style))
      | .finish | .rule | .other => ([], rest)

end

def inlineFuel (cur : Cursor) : Nat := 2 * cur.length + 1

def parseInlineContainer (cur : Cursor) (style : InlineStyle) : List InlineRun × Cursor :=
  closeRuns isAlphanumeric (inlineEvents isAlphanumeric (inlineFuel cur) cur style)

def parseInlineEvent (cur : Cursor) (style : InlineStyle) : List InlineRun × Cursor :=
  parseInlineEventFor isAlphanumeric (inlineFuel cur) cur style

/-! ## Tables -/

def parseTableCells : Nat → Cursor → List (List InlineRun) × Cursor
  | 0, cur => ([], cur)
  | fuel + 1, cur =>
      match cur with
      | (.start .tableCell, _) :: rest =>
          let (cell, rest) := parseInlineContainer isAlphanumeric rest {}
          let (cells, rest) := parseTableCells fuel rest
          (cell :: cells, rest)
      | (.finish, _) :: rest => ([], rest)
      | [] => ([], [])
      | _ :: rest => parseTableCells fuel rest

def parseTable : Nat → Cursor → List (List InlineRun) →
    (List (List InlineRun) × List (List (List InlineRun))) × Cursor
  | 0, cur, header => ((header, []), cur)
  | fuel + 1, cur, header =>
      match cur with
      | (.start .tableHead, _) :: rest =>
          let (cells, rest) := parseTableCells isAlphanumeric fuel rest
          parseTable fuel rest cells
      | (.start .tableRow, _) :: rest =>
          let (cells, rest) := parseTableCells isAlphanumeric fuel rest
          let ((header, rows), rest) := parseTable fuel rest header
          ((header, cells :: rows), rest)
      | (.finish, _) :: rest => ((header, []), rest)
      | [] => ((header, []), [])
      | _ :: rest => parseTable fuel rest header

def tableAlign : Alignment → TableAlign
  | .center => .center
  | .right => .right
  | .none | .left => .left

/-! ## Blocks -/

/-- The text of a code or an HTML block, to its end. -/
def collectText (html : Bool) : Cursor → Text × Cursor
  | (.text text, _) :: rest => (text ++ (collectText html rest).1, (collectText html rest).2)
  | (.html text, _) :: rest =>
      ((if html then text else []) ++ (collectText html rest).1, (collectText html rest).2)
  | (.finish, _) :: rest => ([], rest)
  | [] => ([], [])
  | _ :: rest => collectText html rest

def codeLanguage : CodeBlockKind → Option Text
  | .indented => none
  | .fenced info =>
      let word := (info.dropWhile isWhitespace).takeWhile fun c => !isWhitespace c
      if word = [] then none else some word

def flushParagraph (acc : List InlineRun) : List Block :=
  if acc = [] then [] else [.paragraph (mergeRuns acc)]

mutual

/-- `acc` holds the bare inline runs since the last block. -/
def parseBlockSequenceFor : Nat → Cursor → List InlineRun → List Block × Cursor
  | 0, cur, acc => (flushParagraph acc, cur)
  | fuel + 1, cur, acc =>
      match cur with
      | [] => (flushParagraph acc, [])
      | (.finish, _) :: rest => (flushParagraph acc, rest)
      | (.rule, _) :: rest =>
          let (more, rest) := parseBlockSequenceFor fuel rest []
          (flushParagraph acc ++ .rule :: more, rest)
      | (event, _) :: _ =>
          if (match event with | .start tag => isBlockTag tag | _ => false) then
            let (blocks, rest) := parseStartedBlockFor fuel cur
            let (more, rest) := parseBlockSequenceFor fuel rest []
            (flushParagraph acc ++ (blocks ++ more), rest)
          else
            let (runs, rest) := parseInlineEvent isAlphanumeric cur {}
            parseBlockSequenceFor fuel rest (acc ++ runs)

def parseStartedBlockFor : Nat → Cursor → List Block × Cursor
  | 0, cur => ([], cur)
  | fuel + 1, (.start tag, _) :: rest =>
      match tag with
      | .paragraph =>
          let (runs, rest) := parseInlineContainer isAlphanumeric rest {}
          ([.paragraph runs], rest)
      | .heading level =>
          let (runs, rest) := parseInlineContainer isAlphanumeric rest {}
          ([.heading (headingLevel level) runs], rest)
      | .codeBlock kind =>
          let (code, rest) := collectText false rest
          ([.codeBlock (codeLanguage kind)
            (if code.getLast? = some '\n' then code.dropLast else code)], rest)
      | .blockQuote =>
          let (children, rest) := parseBlockSequenceFor fuel rest []
          ([.blockQuote children], rest)
      | .list orderedStart =>
          let (items, rest) := parseItems fuel rest
          ([.list orderedStart items], rest)
      | .table align =>
          let ((header, rows), rest) := parseTable isAlphanumeric rest.length rest []
          ([.table header rows (align.map tableAlign)], rest)
      | .htmlBlock =>
          let (text, rest) := collectText true rest
          let text := text.rdropWhile (· == '\n')
          (if text = [] then [] else [.paragraph [⟨text, {}⟩]], rest)
      | _ => parseBlockSequenceFor fuel rest []
  | _, cur => ([], cur.tail)

def parseItems : Nat → Cursor → List (List Block) × Cursor
  | 0, cur => ([], cur)
  | fuel + 1, cur =>
      match cur with
      | (.start .item, _) :: rest =>
          let (item, rest) := parseBlockSequenceFor fuel rest []
          let (items, rest) := parseItems fuel rest
          (item :: items, rest)
      | (.finish, _) :: rest => ([], rest)
      | [] => ([], [])
      | _ :: rest => parseItems fuel rest

end

def parseBlockSequence (cur : Cursor) : List Block × Cursor :=
  parseBlockSequenceFor isAlphanumeric (inlineFuel cur) cur []

def parseStartedBlock (cur : Cursor) : List Block × Cursor :=
  parseStartedBlockFor isAlphanumeric (inlineFuel cur) cur

/-- The loop of `parse_at` over the events. -/
def parseTop : Nat → Cursor → List TopBlock
  | 0, _ => []
  | fuel + 1, cur =>
      match cur with
      | [] => []
      | (.rule, range) :: rest => ⟨range, .rule⟩ :: parseTop fuel rest
      | (.start _, range) :: _ =>
          let (blocks, rest) := parseStartedBlock isAlphanumeric cur
          blocks.map (⟨range, ·⟩) ++ parseTop fuel rest
      | _ :: rest => parseTop fuel rest

def blockTree (events : Cursor) : List TopBlock :=
  parseTop isAlphanumeric events.length events

end

end Zeron.Markdown
