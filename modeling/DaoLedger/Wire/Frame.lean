import DaoLedger.Wire.Message
/-!
Frames: a message with the version of the protocol before it and the length before both. A stream
is read piece by piece, and it makes no difference where the pieces end.
-/
namespace DaoLedger

inductive WireError where
  | unsupportedVersion (version : UInt16)
  | tooLarge (size : Nat)
  | noVersion (size : Nat)
  | malformed (error : LayoutError)
  | truncated
deriving DecidableEq, Inhabited, Repr

namespace Frame

def maxSize : Nat := 16 * 1024 * 1024

def version : UInt16 := 1

def lengthSize : Nat := 4

def versionSize : Nat := 2

end Frame

def WireError.message : WireError → String
  | .unsupportedVersion version => s!"unsupported wire version {version}"
  | .tooLarge size =>
    let max := Frame.maxSize
    s!"frame of {size} bytes exceeds {max}"
  | .noVersion size => s!"malformed frame: frame body of {size} bytes has no version"
  | .malformed error => "malformed frame: " ++ error.message
  | .truncated => "early eof"

namespace Frame

def body (m : Message) : ByteArray :=
  (Crypto.bytesBE versionSize version.toNat).toByteArray ++ Layout.write m

def encode (m : Message) : Except WireError ByteArray :=
  let b := body m
  if b.size ≤ maxSize then .ok ((Crypto.bytesBE lengthSize b.size).toByteArray ++ b)
  else .error (.tooLarge b.size)

/-- The message of a body; bytes after it do not matter. -/
def decode : List UInt8 → Except WireError Message
  | high :: low :: payload =>
    let v := UInt16.ofNat (Crypto.bigEndian [high, low])
    if v ≠ version then .error (.unsupportedVersion v)
    else
      match Layout.ofBytes payload with
      | .error e => .error (.malformed e)
      | .ok m => .ok m
  | bytes => .error (.noVersion bytes.length)

/-- What stands at the front of the bytes that have arrived. -/
inductive Front where
  | noLength
  | noBody
  | message (m : Message) (rest : List UInt8)
  | fault (e : WireError)

def front (bytes : List UInt8) : Front :=
  match Layout.split? lengthSize bytes with
  | none => .noLength
  | some (length, rest) =>
    let size := Crypto.bigEndian length
    if maxSize < size then .fault (.tooLarge size)
    else
      match Layout.split? size rest with
      | none => .noBody
      | some (body, rest) =>
        match decode body with
        | .error e => .fault e
        | .ok m => .message m rest

end Frame

inductive FrameReader where
  | pending (bytes : List UInt8)
  | failed (e : WireError)

namespace FrameReader

def start : FrameReader := .pending []

/-- Takes at most so many messages from the bytes. -/
def drain : Nat → List UInt8 → List Message × FrameReader
  | 0, bytes => ([], .pending bytes)
  | n + 1, bytes =>
    match Frame.front bytes with
    | .noLength | .noBody => ([], .pending bytes)
    | .fault e => ([], .failed e)
    | .message m rest =>
      let (ms, reader) := drain n rest
      (m :: ms, reader)

/-- The messages that a further piece completes. Each takes more than one byte. -/
def feed (r : FrameReader) (piece : List UInt8) : List Message × FrameReader :=
  match r with
  | .failed e => ([], .failed e)
  | .pending bytes => drain (bytes ++ piece).length (bytes ++ piece)

def feedAll (r : FrameReader) : List (List UInt8) → List Message × FrameReader
  | [] => ([], r)
  | piece :: pieces =>
    let (ms, r) := r.feed piece
    let (ms', r) := r.feedAll pieces
    (ms ++ ms', r)

/-- How the stream ends when no more pieces come: cleanly between frames, and also inside a
length. -/
def close : FrameReader → Except WireError Unit
  | .failed e => .error e
  | .pending bytes =>
    match Frame.front bytes with
    | .noBody => .error .truncated
    | .fault e => .error e
    | _ => .ok ()

end FrameReader

end DaoLedger
