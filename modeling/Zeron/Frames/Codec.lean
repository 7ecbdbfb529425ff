import Zeron.Data.JsonText
import Zeron.Data.Utf8Text

namespace Zeron.Frames

open Zeron.Data Zeron.Data.Utf8 Zeron.Data.JsonText

/-! # The two frame codecs

A frame is its type, the length of its header, the header as JSON and the payload.  The clients read
and write it with `serde_json`, the room with `JSON` and a `TextDecoder` that drops a byte order mark
and replaces what is no UTF-8.
-/

/-! ## What both sides share -/

/-- `FRAME`. -/
def knownTypes : List UInt8 :=
  [0x01, 0x02, 0x03, 0x04, 0x05, 0x06, 0x07, 0x08, 0x09, 0x0a, 0x0b]

def maxHeaderBytes : Nat := 4096

structure Frame (ν : Type) where
  kind : UInt8
  header : Value ν
  payload : ByteString

/-- How a number is written and read on each side. -/
structure Numbers (ν : Type) where
  rustWrite : ν → Text
  rustRead : Text → Option ν
  jsWrite : ν → Text
  jsRead : Text → ν
  rustLiteral : ∀ number, isNumber (rustWrite number) = true
  jsLiteral : ∀ number, isNumber (jsWrite number) = true

/-- A `u32` in little-endian order. -/
def lengthBytes (length : Nat) : ByteString :=
  [UInt8.ofNat (length % 256), UInt8.ofNat (length / 256 % 256),
    UInt8.ofNat (length / 65536 % 256), UInt8.ofNat (length / 16777216 % 256)]

def layout (kind : UInt8) (header payload : ByteString) : ByteString :=
  kind :: (lengthBytes header.length ++ header ++ payload)

/-- The type, the header and the payload, where the lengths allow them. -/
def cut : ByteString → Option (UInt8 × ByteString × ByteString)
  | kind :: a :: b :: c :: d :: rest =>
      let headerLen := a.toNat + b.toNat * 256 + c.toNat * 65536 + d.toNat * 16777216
      if maxHeaderBytes < headerLen ∨ rest.length < headerLen then none
      else some (kind, rest.take headerLen, rest.drop headerLen)
  | _ => none

def isObject {ν : Type} : Value ν → Bool
  | .object _ => true
  | _ => false

section codecs

variable {ν : Type} (numbers : Numbers ν)

/-! ## Rust -/

mutual
/-- Whether arrays and objects are nested within `remaining`. -/
def nests (remaining : Nat) : Value ν → Bool
  | .array items => decide (1 < remaining) && nestsItems (remaining - 1) items
  | .object entries => decide (1 < remaining) && nestsEntries (remaining - 1) entries
  | _ => true

def nestsItems (remaining : Nat) : List (Value ν) → Bool
  | [] => true
  | item :: rest => nests remaining item && nestsItems remaining rest

def nestsEntries (remaining : Nat) : List (Units × Value ν) → Bool
  | [] => true
  | (_, value) :: rest => nests remaining value && nestsEntries remaining rest
end

mutual
/-- Whether every string and key is Unicode. -/
def unicode : Value ν → Bool
  | .string text => paired text
  | .array items => unicodeItems items
  | .object entries => unicodeEntries entries
  | _ => true

def unicodeItems : List (Value ν) → Bool
  | [] => true
  | item :: rest => unicode item && unicodeItems rest

def unicodeEntries : List (Units × Value ν) → Bool
  | [] => true
  | (key, value) :: rest => paired key && unicode value && unicodeEntries rest
end

/-- The recursion limit of `serde_json`. -/
def recursionLimit : Nat := 128

/-- `serde_json::from_slice`. -/
def fromSlice (bytes : ByteString) : Option (Value ν) :=
  (fromUtf8 bytes).bind fun text =>
    (parse text.toList).bind fun value =>
      if nests recursionLimit value && unicode value then value.traverse numbers.rustRead else none

/-- `serde_json::to_vec`. -/
def toVec (header : Value ν) : ByteString :=
  utf8 (String.ofList (render (header.map numbers.rustWrite)))

def encode (kind : UInt8) (header : Value ν) (payload : ByteString) : ByteString :=
  layout kind (toVec numbers header) payload

def decode (bytes : ByteString) : Option (Frame ν) :=
  (cut bytes).bind fun parts =>
    (fromSlice numbers parts.2.1).bind fun header =>
      if isObject header then some ⟨parts.1, header, parts.2.2⟩ else none

/-! ## TypeScript -/

def byteOrderMark : ByteString := [0xEF, 0xBB, 0xBF]

/-- `textDecoder.decode`. -/
def textDecode (bytes : ByteString) : Text :=
  decodeLossy (if byteOrderMark.isPrefixOf bytes then bytes.drop 3 else bytes)

/-- `textEncoder.encode(JSON.stringify(header))`. -/
def stringify (header : Value ν) : ByteString :=
  utf8 (String.ofList (render (header.map numbers.jsWrite)))

def encodeFrame (kind : UInt8) (header : Value ν) (payload : ByteString) : ByteString :=
  layout kind (stringify numbers header) payload

def decodeFrame (bytes : ByteString) : Option (Frame ν) :=
  (cut bytes).bind fun parts =>
    if knownTypes.contains parts.1 then
      (parse (textDecode parts.2.1)).bind fun header =>
        if isObject header then some ⟨parts.1, header.map numbers.jsRead, parts.2.2⟩ else none
    else none

/-! ## One format -/

/-- A frame was read, and it is this one. -/
def GivesBack (read : Option (Frame ν)) (kind : UInt8) (header : Value ν) (payload : ByteString) :
    Prop :=
  ∃ frame, read = some frame ∧ frame.kind = kind ∧ frame.header.Same header ∧ frame.payload = payload

/-- Every encoder's frame is read back by both decoders; Rust holds only Unicode headers. -/
structure RoundTrips (kind : UInt8) (header : Value ν) (payload : ByteString) : Prop where
  rustRust : unicode header = true →
    GivesBack (decode numbers (encode numbers kind header payload)) kind header payload
  rustTs : unicode header = true →
    GivesBack (decodeFrame numbers (encode numbers kind header payload)) kind header payload
  tsRust : GivesBack (decode numbers (encodeFrame numbers kind header payload)) kind header payload
  tsTs : GivesBack (decodeFrame numbers (encodeFrame numbers kind header payload)) kind header payload

/-- Both decoders reject the bytes, or both read one frame. -/
def Agrees (bytes : ByteString) : Prop :=
  (decode numbers bytes = none ∧ decodeFrame numbers bytes = none) ∨
    ∃ frame, decodeFrame numbers bytes = some frame ∧
      GivesBack (decode numbers bytes) frame.kind frame.header frame.payload

end codecs

end Zeron.Frames
