import Mathlib.Data.List.Basic

namespace Zeron.Device

/-! # Frames of the device room

A frame is a JSON header and a payload.  The room reads headers as JavaScript values and
writes them again; the host reads what the room wrote, as strings or not at all.
-/

/-- `RELAY_KIND`, with its leading blank. -/
def relayKind : String := " relay"
def nudgeKind : String := "nudge"
def nudgeAckKind : String := "nudgeAck"
def echoKind : String := "echo"
def rpcKind : String := "rpc"

/-- A field of a parsed header.  Of a value that is no string the host can read (a lone
surrogate makes none), the room sees whether it is true and how it prints. -/
inductive Field
  | absent
  | string (value : String)
  | other (truthy : Bool) (text : String)
deriving DecidableEq

namespace Field

def truthy : Field → Bool
  | .absent => false
  | .string value => value ≠ ""
  | .other truthy _ => truthy

def text : Field → String
  | .absent => "undefined"
  | .string value => value
  | .other _ text => text

def string? : Field → Option String
  | .string value => some value
  | _ => none

def ofOption : Option String → Field
  | some value => .string value
  | none => .absent

end Field

/-- A header as the room sees it. -/
structure RoomHeader where
  s : Field
  k : Field
  toConn : Field := .absent
  fromConn : Field := .absent
deriving DecidableEq

structure DeviceFrameHeader where
  s : String
  k : String
  toConn : Option String := none
  fromConn : Option String := none
deriving DecidableEq

def DeviceFrameHeader.inRoom (header : DeviceFrameHeader) : RoomHeader where
  s := .string header.s
  k := .string header.k
  toConn := .ofOption header.toConn
  fromConn := .ofOption header.fromConn

/-- An optional routing key: a value that is there and no string fails the whole header. -/
def Field.routing? : Field → Option (Option String)
  | .absent => some none
  | .string value => some (some value)
  | .other _ _ => none

def RoomHeader.onHost (header : RoomHeader) : Option DeviceFrameHeader := do
  let s ← header.s.string?
  let k ← header.k.string?
  let toConn ← header.toConn.routing?
  let fromConn ← header.fromConn.routing?
  return { s, k, toConn, fromConn }

/-- What the room makes of the bytes of a frame; a header that is `null` throws where it is
first used. -/
inductive Decoded
  | broken
  | nullHeader
  | frame (header : RoomHeader) (payload : List UInt8)

/-- The two encoders and decoders, which rest on a JSON library each. -/
structure Codec (bytes : Type) where
  decode : bytes → Decoded
  encode : RoomHeader → List UInt8 → bytes
  hostDecode : bytes → Option (DeviceFrameHeader × List UInt8)
  hostEncode : DeviceFrameHeader → List UInt8 → bytes
  /-- The chat and the token of a nudge, on the host. -/
  nudge? : List UInt8 → Option (String × Option String)
  /-- The chat and the token of an acknowledgement, in the room. -/
  ack? : List UInt8 → Option (String × String)
  relayError : String → List UInt8
  decode_hostEncode : ∀ header payload,
    decode (hostEncode header payload) = .frame header.inRoom payload
  hostDecode_encode : ∀ header payload,
    hostDecode (encode header payload) = header.onHost.map fun onHost => (onHost, payload)

/-- Frames as what they encode: bytes of neither encoder decode to nothing. -/
inductive Plain
  | room (header : RoomHeader) (payload : List UInt8)
  | host (header : DeviceFrameHeader) (payload : List UInt8)
  | garbage

def plain : Codec Plain where
  decode
    | .room header payload => .frame header payload
    | .host header payload => .frame header.inRoom payload
    | .garbage => .broken
  encode := .room
  hostDecode
    | .room header payload => header.onHost.map fun onHost => (onHost, payload)
    | .host header payload => some (header, payload)
    | .garbage => none
  hostEncode := .host
  nudge? _ := none
  ack? _ := none
  relayError code := code.toList.map fun letter => UInt8.ofNat letter.toNat
  decode_hostEncode _ _ := rfl
  hostDecode_encode _ _ := rfl

end Zeron.Device
