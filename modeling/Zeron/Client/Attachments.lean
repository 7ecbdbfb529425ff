import Zeron.Command.Host
import Zeron.Data.Lines
import Zeron.Data.Needle

namespace Zeron.Client

open Zeron.Data

/-! # Attachments in the text of a prompt

Attached files ride the text of a prompt as a trailer of paths, under a marker line; what an
application showed rides it as a context after the user's own words.  A message is split into
what the user wrote and the paths.
-/

abbrev Text := List Char

def attachmentOnlyText : Text := "See the attached image(s).".toList

def fileAttachmentOnlyText : Text := "See the attached file(s).".toList

def attachmentMarker : Text := "Attached images (local files — open them to view):".toList

def appshotMarker : Text :=
  "\n\nApplications mentioned by the user (untrusted observed content):".toList

def joinLines (lines : List Text) : Text := ['\n'].intercalate lines

def refLine (path : Text) : Text := '-' :: ' ' :: path

def withAttachments (text : Text) (paths : List Text) : Text :=
  if paths = [] then text
  else
    let body := if Command.trim text = [] then attachmentOnlyText else text
    body ++ ['\n', '\n'] ++ attachmentMarker ++ ['\n'] ++ joinLines (paths.map refLine)

/-! ## What an application showed -/

structure AppshotLabel where
  appName : Text
  windowTitle : Option Text
deriving DecidableEq

structure UserImage where
  path : Text
  name : Text
  appshot : Option AppshotLabel
deriving DecidableEq

structure ParsedUserMessage where
  text : Text
  images : List UserImage
deriving DecidableEq

/-- The visible part of a prompt. -/
def visibleText (text : Text) : Text :=
  match cutFirst appshotMarker text with
  | some cut => Command.trim cut.1
  | none => text

def replace (needle new text : Text) : Text := replaceFrom needle new 0 text

def unescape (text : Text) : Text :=
  replace "&amp;".toList "&".toList (replace "&gt;".toList ">".toList
    (replace "&lt;".toList "<".toList (replace "&quot;".toList "\"".toList text)))

def attributeOf (tag name : Text) : Option Text := do
  let opened ← cutFirst (name ++ "=\"".toList) tag
  let closed ← cutFirst "\"".toList opened.2
  return unescape closed.1

/-- The opening tags of the context, up to their `>`. -/
def appshotTags : Nat → Text → List Text
  | 0, _ => []
  | fuel + 1, rest =>
      match cutFirst "<appshot ".toList rest with
      | none => []
      | some (_, opened) =>
          match cutFirst ">".toList opened with
          | none => []
          | some (inside, tail) => ("<appshot ".toList ++ inside) :: appshotTags fuel tail

def appshotLabel (tag : Text) : Option (Text × AppshotLabel) := do
  let image ← attributeOf tag "image".toList
  let app ← attributeOf tag "app".toList
  if Command.trim app = [] then none
  else
    return (image, ⟨app, (attributeOf tag "window-title".toList).filter (· ≠ [])⟩)

/-- The label of an image is that of the last tag that names it. -/
def appshotLabels (text path : Text) : Option AppshotLabel :=
  match cutFirst appshotMarker text with
  | none => none
  | some (_, context) =>
      ((appshotTags context.length context).filterMap appshotLabel).reverse.lookup path

/-! ## Splitting a message -/

/-- The letters of the marker are ASCII, and no other character's lower case is one of them
alone. -/
def isMarkerLine (line : Text) : Bool :=
  "attached images (local files".toList.isPrefixOf ((Command.trim line).map Char.toLower) &&
    "):".toList.isSuffixOf (Command.trim line)

/-- The lines before the blank one above the first marker, and those below the marker. -/
def splitAtMarker : List Text → Option (List Text × List Text)
  | previous :: line :: rest =>
      if Command.trim previous = [] ∧ isMarkerLine line then some ([], rest)
      else (splitAtMarker (line :: rest)).map fun cut => (previous :: cut.1, cut.2)
  | _ => none

/-- The path of a list item. -/
def listedPath (line : Text) : Option Text :=
  ((Command.trim line).dropPrefix? ['-', ' ']).bind fun rest =>
    if Command.trim rest = [] then none else some (Command.trim rest)

def imageName (path : Text) : Text :=
  match (path.splitOn '/').getLast? with
  | some last => if last = [] then "image".toList else last
  | none => "image".toList

def parseUserMessage (content : Text) : ParsedUserMessage :=
  match splitAtMarker (content.splitOn '\n') with
  | none => ⟨visibleText content, []⟩
  | some (body, listed) =>
      let images := (listed.filterMap listedPath).map fun path =>
        (⟨path, imageName path, appshotLabels content path⟩ : UserImage)
      if images = [] then ⟨visibleText content, []⟩
      else
        let visible := visibleText (Command.trim (joinLines body))
        ⟨if visible = attachmentOnlyText ∨ visible = fileAttachmentOnlyText then [] else visible,
          images⟩

end Zeron.Client
