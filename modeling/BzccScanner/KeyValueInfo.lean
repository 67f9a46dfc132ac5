import BzccScanner.CString

/-! The record handed to the data callback, the texts that can be left in its
`err` field, and the callback itself. -/

namespace BzccScanner

open CString

abbrev recvBuflen : Nat := 1024
abbrev genericBuflen : Nat := 1024
abbrev errmsgBuflen : Nat := 512
abbrev maxDepth : Nat := 6
abbrev keyStrLen : Nat := 32
abbrev valueStrLen : Nat := 512

inductive Status
  | normal | last | complete | error
  deriving DecidableEq, Repr

/-- Every text the source formats into `err`, with its arguments. -/
inductive Message
  | expectedRoot (c : Byte) (position : UInt32)
  | lineBreak (position : UInt32)
  | nameOverflow
  | expectedKey (c : Byte) (position : UInt32)
  | expectedColon (c : Byte) (position : UInt32)
  | exceededDepth (position : UInt32)
  | expectedValue (c : Byte) (position : UInt32)
  | invalidEscape (c : Byte) (position : UInt32)
  | valueOverflow
  | symbolInValue (c : Byte) (value : List Byte) (position : UInt32)
  | expectedRootEnd (c : Byte) (position : UInt32)
  | unexpectedSymbol (c : Byte) (position : UInt32)
  | expectedOk (line : List Byte)
  | headerNameOverflow
  | headerValueOverflow
  | recvTimedOut (e : Int)
  | recvFailed (e : Int)
  | recvNegative
  | readFileFailed (e : Nat)
  | createFileFailed (e : Nat)
  | wsaStartupFailed (e : Int)
  | getaddrinfoFailed (e : Int)
  | socketFailed (e : Int)
  | connectFailed (host port : List Byte)
  | sendFailed (e : Int)
  | indexOutOfRange
  | skippedServer
  | skippedPlayer
  deriving DecidableEq, Repr

def showBytes (b : List Byte) : String := String.ofList (b.map fun c => Char.ofNat c.toNat)

def Message.text : Message → String
  | .expectedRoot c n => "JSON: Expected start of root object, not '" ++ showBytes [c] ++
      "' at position " ++ toString n.toInt32.toInt
  | .lineBreak n => "JSON: Unexpected line break at position " ++ toString n.toInt32.toInt
  | .nameOverflow => "JSON: Buffer Overflow - JSON key name > buffer size (" ++
      toString genericBuflen ++ " bytes)"
  | .expectedKey c n => "JSON: Expected start of key name, not '" ++ showBytes [c] ++
      "' at position " ++ toString n.toInt32.toInt
  | .expectedColon c n => "JSON: Expected ':', not '" ++ showBytes [c] ++ "' at position " ++
      toString n.toInt32.toInt
  | .exceededDepth n => "JSON: Exceeded JSON object depth (" ++ toString maxDepth ++
      ") at position " ++ toString n.toInt32.toInt
  | .expectedValue c n => "JSON: Expected start of value, array, or object, not '" ++
      showBytes [c] ++ "' at position " ++ toString n.toInt32.toInt
  | .invalidEscape c n => "JSON: Invalid escape sequence \\" ++ showBytes [c] ++ " at position " ++
      toString n.toInt32.toInt
  | .valueOverflow => "JSON: Buffer Overflow - JSON value > buffer size (" ++
      toString genericBuflen ++ " bytes)"
  | .symbolInValue c v n => "JSON: Unexpected Symbol '" ++ showBytes [c] ++ "' reading value \"" ++
      showBytes v ++ "\" at position " ++ toString n.toInt32.toInt
  | .expectedRootEnd c n => "JSON: Expected end of JSON '\x7d' but got '" ++ showBytes [c] ++
      "' at position " ++ toString n.toInt32.toInt
  | .unexpectedSymbol c n => "JSON: Unexpected Symbol '" ++ showBytes [c] ++ "' at position " ++
      toString n.toInt32.toInt
  | .expectedOk line => "HTTP: Expected 200 OK but got '" ++ showBytes line ++ "'"
  | .headerNameOverflow => "HTTP: Buffer Overflow - HTTP Header Name > buffer size (" ++
      toString genericBuflen ++ " bytes)"
  | .headerValueOverflow => "HTTP: Buffer Overflow - HTTP Header Value > buffer size (" ++
      toString genericBuflen ++ " bytes)"
  | .recvTimedOut e => "WinSock: 'recv' connection timed out (Socket Error " ++ toString e ++ ")\n"
  | .recvFailed e => "WinSock: 'recv' Socket Error " ++ toString e ++ "\n"
  | .recvNegative =>
      "WinSock: Unknown Socket Error ('recv' return value < 0 but not SOCKET_ERROR)\n"
  | .readFileFailed e => "WINAPI: 'ReadFile' Error " ++ toString e ++ "\n"
  | .createFileFailed e => "WINAPI: CreateFile failed with error " ++ toString e
  | .wsaStartupFailed e => "WinSock: Failed to initialize with error " ++ toString e
  | .getaddrinfoFailed e => "WinSock: 'getaddrinfo' call failed with error " ++ toString e
  | .socketFailed e => "WinSock: 'socket' call failed with error " ++ toString e
  | .connectFailed host port => "WinSock: Failed to connect to host " ++ showBytes host ++ ":" ++
      showBytes port
  | .sendFailed e => "WinSock: 'send' call failed with error " ++ toString e
  | .indexOutOfRange => "Player or server index out of range."
  | .skippedServer => "Data skipped over server index."
  | .skippedPlayer => "Data skipped over player index."

structure KeyValueInfo where
  status : Status
  err : Option Message
  isPlayer : Bool
  keyStr : Vector Byte keyStrLen
  valueStr : Vector Byte valueStrLen
  serverIndex : Int32
  playerIndex : Int32
  deriving DecidableEq

/-- The string in `err`: the formatted text, cut to what fits in front of the terminator. -/
def KeyValueInfo.errText (k : KeyValueInfo) : String :=
  match k.err with
  | none => ""
  | some m => String.ofList (m.text.toList.take (errmsgBuflen - 1))

def KeyValueInfo.zero : KeyValueInfo :=
  ⟨.normal, none, false, Vector.replicate _ 0, Vector.replicate _ 0, 0, 0⟩

structure Reply (σ : Type) where
  code : Int
  kvi : KeyValueInfo
  data : σ

/-- `ProcessDataCallback` with its custom data: it may write the record it is handed. -/
abbrev Callback (σ : Type) := KeyValueInfo → σ → Reply σ

/-- One invocation of the callback: what it was handed and what it left. -/
structure Call (σ : Type) where
  kvi : KeyValueInfo
  before : σ
  code : Int
  after : σ

/-- The caller's record and data, with the invocations so far, oldest first. -/
structure World (σ : Type) where
  kvi : KeyValueInfo
  data : σ
  calls : List (Call σ)

variable {σ : Type}

def World.init (data : σ) : World σ := ⟨.zero, data, []⟩

def World.setErr (w : World σ) (m : Message) : World σ := { w with kvi := { w.kvi with err := some m } }

def World.invoke (cb : Callback σ) (w : World σ) : Int × World σ :=
  let r := cb w.kvi w.data
  (r.code, ⟨r.kvi, r.data, w.calls ++ [⟨w.kvi, w.data, r.code, r.data⟩]⟩)

def accept : Callback σ := fun k d => ⟨0, k, d⟩

end BzccScanner
