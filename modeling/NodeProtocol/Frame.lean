import NodeProtocol.Text.Digit
import NodeProtocol.Word

namespace NodeProtocol

abbrev Hash := BytesOf 8

def hashLength : Nat := 8

inductive FrameError
  | hashLength (found : Nat)
  | truncated (needed available : Nat)
  deriving DecidableEq, Repr

def FrameError.message : FrameError → String
  | hashLength found =>
    "Correlation hash must be " ++ Text.decimal NodeProtocol.hashLength ++ " bytes, got " ++
      Text.decimal found
  | truncated needed available =>
    "Frame truncated: needed " ++ Text.decimal needed ++ " bytes, " ++ Text.decimal available ++
      " available"

def encodeHash : Option Hash → Bytes
  | none => [0]
  | some hash => 1 :: hash.val

structure RequestHeader where
  version : UInt8
  service : UInt8
  function : UInt8
  hash : Option Hash
  deriving DecidableEq

namespace RequestHeader

def fixedLength : Nat := 4

def length (header : RequestHeader) : Nat :=
  fixedLength + if header.hash.isSome then hashLength else 0

def encode (header : RequestHeader) : Bytes :=
  [header.version, header.service, header.function] ++ encodeHash header.hash

def ofParts (version service function : UInt8) :
    Option Bytes → Except FrameError RequestHeader
  | none => .ok ⟨version, service, function, none⟩
  | some bytes =>
    match BytesOf.ofBytes? 8 bytes with
    | some hash => .ok ⟨version, service, function, some hash⟩
    | none => .error (.hashLength bytes.length)

theorem length_encode (header : RequestHeader) : header.encode.length = header.length := by
  obtain ⟨_, _, _, _ | hash⟩ := header
  · rfl
  · simp [encode, encodeHash, length, fixedLength, hashLength, hash.property]

end RequestHeader

structure Request where
  header : RequestHeader
  body : Bytes
  deriving DecidableEq

namespace Request

def encode (request : Request) : Bytes :=
  request.header.encode ++ request.body

def parse (raw : Bytes) : Except FrameError Request :=
  match raw with
  | version :: service :: function :: flag :: rest =>
    if flag = 0 then .ok ⟨⟨version, service, function, none⟩, rest⟩
    else match BytesOf.split? 8 rest with
      | some (hash, body) => .ok ⟨⟨version, service, function, some hash⟩, body⟩
      | none => .error (.truncated (RequestHeader.fixedLength + hashLength) raw.length)
  | _ => .error (.truncated RequestHeader.fixedLength raw.length)

end Request

structure Response where
  version : UInt8
  service : UInt8
  hash : Option Hash
  body : Bytes
  deriving DecidableEq

namespace Response

def empty : Response := ⟨0, 0, none, []⟩

def isEmpty (response : Response) : Bool :=
  response.hash.isNone && response.body.isEmpty

def encode (response : Response) : Bytes :=
  [response.version, response.service] ++ encodeHash response.hash ++ response.body

def parse : Bytes → Response
  | version :: service :: flag :: rest =>
    if flag = 0 then ⟨version, service, none, rest⟩
    else match BytesOf.split? 8 rest with
      | some (hash, body) => ⟨version, service, some hash, body⟩
      | none => empty
  | _ => empty

end Response

end NodeProtocol
