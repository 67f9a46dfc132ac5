import BzccScanner.KeyValueInfo
import BzccScanner.Mealy

/-! `parse_data` with its fixed-size buffers. Every access to `name`, `value`
and `is_array` is checked, and one that leaves the array or reads an entry that
was never assigned ends the run in a fault. `json_name` is written and never
read, and is left out. The slot counters are `int`s, taken to wrap around. -/

namespace BzccScanner

open CString

@[simp] abbrev quote : Byte := 0x22
@[simp] abbrev comma : Byte := 0x2c
@[simp] abbrev colon : Byte := 0x3a
@[simp] abbrev lbracket : Byte := 0x5b
@[simp] abbrev backslash : Byte := 0x5c
@[simp] abbrev rbracket : Byte := 0x5d
@[simp] abbrev lbrace : Byte := 0x7b
@[simp] abbrev rbrace : Byte := 0x7d
@[simp] abbrev tab : Byte := 0x09
@[simp] abbrev lf : Byte := 0x0a
@[simp] abbrev cr : Byte := 0x0d
@[simp] abbrev letterN : Byte := 0x6e
@[simp] abbrev letterR : Byte := 0x72
@[simp] abbrev letterT : Byte := 0x74

/-- `.-!@#$%^&*+=` -/
def jsonWordWhitelist : List Byte :=
  [0x2e, 0x2d, 0x21, 0x40, 0x23, 0x24, 0x25, 0x5e, 0x26, 0x2a, 0x2b, 0x3d]

def isWordChar (c : Byte) : Bool := isAlnum c || jsonWordWhitelist.contains c

/-- `200 OK` -/
def okSuffix : List Byte := [0x32, 0x30, 0x30, 0x20, 0x4f, 0x4b]

/-- `Content-Length` -/
def contentLengthName : List Byte :=
  [0x43, 0x6f, 0x6e, 0x74, 0x65, 0x6e, 0x74, 0x2d, 0x4c, 0x65, 0x6e, 0x67, 0x74, 0x68]

inductive State
  | readingHttpHeader | readingHttpHeaderName | readingHttpHeaderValue | readingJson
  deriving DecidableEq, Repr

inductive JState
  | expectRootStart | expectKeyName | expectKeySep | expectValue | expectReadValue | expectNext
  | expectRootEnd
  deriving DecidableEq, Repr

abbrev Buffer := Vector Byte genericBuflen

/-- The locals of `parse_data`. `none` in `isArray` is an entry not yet assigned. -/
structure Parser where
  name : Buffer
  value : Buffer
  contentLength : UInt32
  nameLen : Nat
  valueLen : Nat
  state : State
  jState : JState
  depth : Int
  serverSlot : Int32
  playerSlot : Int32
  isArray : Vector (Option Bool) maxDepth
  inQuote : Bool
  valueComplete : Bool
  inEscape : Bool
  jsonLen : UInt32

def Parser.init (usingHttp : Bool) : Parser where
  name := Vector.replicate _ 0
  value := Vector.replicate _ 0
  contentLength := 0
  nameLen := 0
  valueLen := 0
  state := if usingHttp then .readingHttpHeader else .readingJson
  jState := .expectRootStart
  depth := 0
  serverSlot := 0
  playerSlot := 0
  isArray := Vector.replicate _ none
  inQuote := false
  valueComplete := false
  inEscape := false
  jsonLen := 0

/-- An access outside an array. `statusLine` is the comparison that starts
before `name` when the status line is shorter than its expected ending. -/
inductive Fault
  | name | value | isArray | statusLine
  deriving DecidableEq, Repr

/-- How the loop leaves `parse_data` in the middle of a read. -/
inductive Exit (σ : Type)
  | ret (code : Int) (w : World σ)
  | fault (f : Fault)

variable {σ : Type}

/-- What the loop body computes; in the end `ok` is `continue`. -/
abbrev Loop (σ : Type) := Except (Exit σ)

def World.fail (w : World σ) (m : Message) : Loop σ (Parser × World σ) := .error (.ret 1 (w.setErr m))

def zeroMemory (b : Buffer) (n : Nat) : Buffer := Vector.ofFn fun i => if i < n then 0 else b[i]

namespace Parser

/-- `name[i] = c` -/
def setName (p : Parser) (i : Nat) (c : Byte) : Loop σ Parser :=
  if h : i < genericBuflen then .ok { p with name := p.name.set i c } else .error (.fault .name)

/-- `value[i] = c` -/
def setValue (p : Parser) (i : Nat) (c : Byte) : Loop σ Parser :=
  if h : i < genericBuflen then .ok { p with value := p.value.set i c } else .error (.fault .value)

/-- `name[name_len] = c; name_len += 1` -/
def pushName (p : Parser) (c : Byte) : Loop σ Parser := do
  let p ← p.setName p.nameLen c
  return { p with nameLen := p.nameLen + 1 }

/-- `value[value_len] = c; value_len += 1` -/
def pushValue (p : Parser) (c : Byte) : Loop σ Parser := do
  let p ← p.setValue p.valueLen c
  return { p with valueLen := p.valueLen + 1 }

/-- `ZeroMemory(name, name_len); name_len = 0` -/
def zeroName (p : Parser) : Loop σ Parser :=
  if p.nameLen ≤ genericBuflen then .ok { p with name := zeroMemory p.name p.nameLen, nameLen := 0 }
  else .error (.fault .name)

/-- `ZeroMemory(value, value_len); value_len = 0` -/
def zeroValue (p : Parser) : Loop σ Parser :=
  if p.valueLen ≤ genericBuflen then
    .ok { p with value := zeroMemory p.value p.valueLen, valueLen := 0 }
  else .error (.fault .value)

/-- `is_array[i]` -/
def isArrayAt (p : Parser) (i : Int) : Loop σ Bool :=
  match i with
  | .ofNat n =>
    match p.isArray[n]? with
    | some (some b) => .ok b
    | _ => .error (.fault .isArray)
  | .negSucc _ => .error (.fault .isArray)

/-- `is_array[depth] = b` -/
def setIsArray (p : Parser) (b : Bool) : Loop σ Parser :=
  match p.depth with
  | .ofNat n =>
    if h : n < maxDepth then .ok { p with isArray := p.isArray.set n (some b) }
    else .error (.fault .isArray)
  | .negSucc _ => .error (.fault .isArray)

end Parser

/-- `len > 0 && c == '\n' && buf[len-1] == '\r'` -/
def endsLine (f : Fault) (buf : Buffer) (len : Nat) (c : Byte) : Loop σ Bool :=
  if 0 < len ∧ c = lf then
    match buf[len - 1]? with
    | some b => .ok (b == cr)
    | none => .error (.fault f)
  else .ok false

def expectRootStart (p : Parser) (w : World σ) (c : Byte) : Loop σ (Parser × World σ) := do
  if c = lbrace then
    let p ← { p with jState := .expectKeyName }.setIsArray false
    return ({ p with depth := p.depth + 1 }, w)
  if isSpace c then
    return (p, w)
  w.fail (.expectedRoot c p.jsonLen)

def Parser.closeSlots (p : Parser) : Parser :=
  if p.depth = 3 then { p with serverSlot := p.serverSlot + 1, playerSlot := 0 }
  else if p.depth = 5 then { p with playerSlot := p.playerSlot + 1 }
  else p

def expectNext (p : Parser) (w : World σ) (c : Byte) : Loop σ (Parser × World σ) := do
  if ← p.isArrayAt (p.depth - 1) then
    if c = comma then
      let p ← p.zeroName
      return ({ p with jState := .expectValue }, w)
    if c = rbracket then
      let p := { p with depth := p.depth - 1 }
      if p.depth ≤ 0 then
        return ({ p with jState := .expectRootEnd }, w)
      let b ← p.isArrayAt p.depth
      return ({ p with jState := if b then .expectValue else .expectKeyName }, w)
  else
    if c = comma then
      let p ← p.zeroName
      let p ← p.zeroValue
      return ({ p with jState := .expectKeyName }, w)
    if c = rbrace then
      let p := { p.closeSlots with depth := p.closeSlots.depth - 1 }
      if p.depth ≤ 0 then
        return ({ p with jState := .expectRootEnd }, w)
      let b ← p.isArrayAt (p.depth - 1)
      return ({ p with jState := if b then .expectValue else .expectKeyName }, w)
  if isSpace c then
    return (p, w)
  w.fail (.unexpectedSymbol c p.jsonLen)

def expectKeyName (p : Parser) (w : World σ) (c : Byte) : Loop σ (Parser × World σ) := do
  if p.inQuote then
    if c = quote then
      return ({ p with inQuote := false, jState := .expectKeySep }, w)
    if c = lf ∨ c = cr then
      w.fail (.lineBreak p.jsonLen)
    else if p.nameLen + 1 ≥ genericBuflen then
      w.fail .nameOverflow
    else
      let p ← p.pushName c
      return (p, w)
  else if c = quote then
    return ({ p with inQuote := true }, w)
  else if isSpace c then
    return (p, w)
  else if c = rbrace then
    expectNext { p with jState := .expectNext } w c
  else
    w.fail (.expectedKey c p.jsonLen)

def expectKeySep (p : Parser) (w : World σ) (c : Byte) : Loop σ (Parser × World σ) := do
  if c = colon then
    return ({ p with jState := .expectValue }, w)
  if isSpace c then
    return (p, w)
  w.fail (.expectedColon c p.jsonLen)

def expectValue (p : Parser) (w : World σ) (c : Byte) : Loop σ (Parser × World σ) := do
  if c = quote then
    return ({ p with inQuote := true, valueComplete := false, jState := .expectReadValue }, w)
  if isWordChar c then
    let p ← p.pushValue c
    return ({ p with valueComplete := false, jState := .expectReadValue }, w)
  if c = lbracket ∨ c = lbrace then
    let p := { p with jState := if c = lbracket then .expectValue else .expectKeyName }
    let p ← p.setIsArray (c == lbracket)
    if p.depth + 1 ≥ (maxDepth : Int) then
      w.fail (.exceededDepth p.jsonLen)
    else
      let p ← p.zeroName
      return ({ p with depth := p.depth + 1 }, w)
  else if isSpace c then
    return (p, w)
  else if c = comma ∨ c = rbrace ∨ c = rbracket then
    expectNext { p with jState := .expectNext } w c
  else
    w.fail (.expectedValue c p.jsonLen)

/-- Fills the record and delivers it at the depth of a server's or a player's
members. -/
def World.report (w : World σ) (cb : Callback σ) (status : Status) (name value : List Byte)
    (depth : Int) (serverSlot playerSlot : Int32) : Loop σ (World σ) :=
  let w := { w with kvi := { w.kvi with
    status, serverIndex := serverSlot, playerIndex := playerSlot
    keyStr := strncpy keyStrLen name, valueStr := strncpy valueStrLen value } }
  if depth = 3 ∨ depth = 5 then
    let w := { w with kvi := { w.kvi with isPlayer := depth == 5 } }
    let (code, w) := w.invoke cb
    if code ≠ 0 then .error (.ret 1 w) else .ok w
  else .ok w

def completeValue (cb : Callback σ) (p : Parser) (w : World σ) (status : Status) :
    Loop σ (Parser × World σ) := do
  let w ← w.report cb status p.name.toList p.value.toList p.depth p.serverSlot p.playerSlot
  let p ← p.zeroName
  let p ← p.zeroValue
  return ({ p with valueComplete := true, jState := .expectNext }, w)

def unescape (c : Byte) : Option Byte :=
  if c = quote ∨ c = backslash then some c
  else if c = letterR then some cr
  else if c = letterN then some lf
  else if c = letterT then some tab
  else none

def appendValue (p : Parser) (w : World σ) (c : Byte) : Loop σ (Parser × World σ) := do
  if p.valueLen + 1 ≥ genericBuflen then
    w.fail .valueOverflow
  else
    let p ← p.pushValue c
    return (p, w)

def expectReadValue (cb : Callback σ) (p : Parser) (w : World σ) (c : Byte) : Loop σ (Parser × World σ) := do
  if p.inQuote then
    if p.inEscape then
      match unescape c with
      | some c => appendValue { p with inEscape := false } w c
      | none => w.fail (.invalidEscape c p.jsonLen)
    else if c = quote then
      completeValue cb { p with inQuote := false } w .normal
    else if c = lf ∨ c = cr then
      w.fail (.lineBreak p.jsonLen)
    else if c = backslash then
      return ({ p with inEscape := true }, w)
    else
      appendValue p w c
  else if isWordChar c then
    appendValue p w c
  else if isSpace c then
    return ({ p with valueComplete := p.valueComplete || 0 < p.valueLen }, w)
  else if c = comma ∨ c = rbrace ∨ c = rbracket then
    let (p, w) ← completeValue cb p w (if c = rbrace then .last else .normal)
    expectNext p w c
  else
    w.fail (.symbolInValue c (cstr p.value.toList) p.jsonLen)

def expectRootEnd (p : Parser) (w : World σ) (c : Byte) : Loop σ (Parser × World σ) := do
  if isSpace c then
    return (p, w)
  if c = rbrace then
    .error (.ret 0 w)
  else
    w.fail (.expectedRootEnd c p.jsonLen)

/-- The tests on `j_state`, in the source's order. -/
def readSymbol (cb : Callback σ) (p : Parser) (w : World σ) (c : Byte) : Loop σ (Parser × World σ) :=
  match p.jState with
  | .expectRootStart => expectRootStart p w c
  | .expectKeyName => expectKeyName p w c
  | .expectKeySep => expectKeySep p w c
  | .expectValue => expectValue p w c
  | .expectReadValue => expectReadValue cb p w c
  | .expectNext => expectNext p w c
  | .expectRootEnd => expectRootEnd p w c

def readJson (cb : Callback σ) (p : Parser) (w : World σ) (c : Byte) : Loop σ (Parser × World σ) :=
  let p := { p with jsonLen := p.jsonLen + 1 }
  if p.contentLength ≠ 0 ∧ p.contentLength ≤ p.jsonLen then .error (.ret 0 w)
  else readSymbol cb p w c

/-- Whether the line ends in `200 OK`. Shorter lines are compared from before
the buffer. -/
def statusLineOk (line : List Byte) : Loop σ Bool :=
  let text := cstr line
  if text.length < okSuffix.length then .error (.fault .statusLine)
  else .ok (strcmpi (text.drop (text.length - okSuffix.length)) okSuffix)

def readHttpHeader (p : Parser) (w : World σ) (c : Byte) : Loop σ (Parser × World σ) := do
  if ← endsLine .name p.name p.nameLen c then
    let p ← { p with state := .readingHttpHeaderName }.setName (p.nameLen - 1) 0
    if ← statusLineOk p.name.toList then
      let p ← p.zeroName
      return (p, w)
    else
      w.fail (.expectedOk (cstr p.name.toList))
  else if p.nameLen + 1 ≥ genericBuflen then
    w.fail .headerNameOverflow
  else
    let p ← p.pushName c
    return (p, w)

def appendHeaderName (p : Parser) (w : World σ) (c : Byte) : Loop σ (Parser × World σ) := do
  if p.nameLen + 1 ≥ genericBuflen then
    w.fail .headerNameOverflow
  else
    let p ← p.pushName c
    return (p, w)

def readHttpHeaderName (p : Parser) (w : World σ) (c : Byte) : Loop σ (Parser × World σ) := do
  if c = cr then
    appendHeaderName p w c
  else if ← endsLine .name p.name p.nameLen c then
    let p ← { p with state := .readingJson }.zeroName
    return (p, w)
  else if isSpace c ∧ p.nameLen = 0 then
    return (p, w)
  else if c = colon then
    return ({ p with state := .readingHttpHeaderValue }, w)
  else
    appendHeaderName p w c

def readHttpHeaderValue (p : Parser) (w : World σ) (c : Byte) : Loop σ (Parser × World σ) := do
  if ← endsLine .value p.value p.valueLen c then
    let p ← { p with state := .readingHttpHeaderName }.setValue (p.valueLen - 1) 0
    let p := if strcmpi p.name.toList contentLengthName then
        { p with contentLength := UInt32.ofInt (atoi p.value.toList) } else p
    let p ← p.zeroValue
    let p ← p.zeroName
    return (p, w)
  else if isSpace c ∧ p.valueLen = 0 then
    return (p, w)
  else if p.valueLen + 1 ≥ genericBuflen then
    w.fail .headerValueOverflow
  else
    let p ← p.pushValue c
    return (p, w)

def readByte (cb : Callback σ) (q : Parser × World σ) (c : Byte) : Loop σ (Parser × World σ) :=
  match q.1.state with
  | .readingHttpHeader => readHttpHeader q.1 q.2 c
  | .readingHttpHeaderName => readHttpHeaderName q.1 q.2 c
  | .readingHttpHeaderValue => readHttpHeaderValue q.1 q.2 c
  | .readingJson => readJson cb q.1 q.2 c

/-- What `Read_to_BRI` or `TCP_to_BRI` leaves: the bytes received, none at the
end of the stream, or a failure with its text. -/
inductive Read
  | data (bytes : List Byte)
  | failed (m : Message)

inductive Ending (σ : Type)
  | eof (p : Parser) (w : World σ)
  | exit (e : Exit σ)

/-- The loop over the reads; a source with no more reads is at its end. -/
def readLoop (cb : Callback σ) (q : Parser × World σ) : List Read → Ending σ
  | [] => .eof q.1 q.2
  | .failed m :: _ => .exit (.ret 1 (q.2.setErr m))
  | .data [] :: _ => .eof q.1 q.2
  | .data (b :: bs) :: rs =>
    match (b :: bs).foldlM (readByte cb) q with
    | .ok q => readLoop cb q rs
    | .error e => .exit e

def byteStarts (cb : Callback σ) (q : Parser × World σ) : List Read → List ((Parser × World σ) × Byte)
  | .data (b :: bs) :: rs =>
    Mealy.starts (readByte cb) q (b :: bs) ++
      match (b :: bs).foldlM (readByte cb) q with
      | .ok q => byteStarts cb q rs
      | .error _ => []
  | _ => []

def Ending.result : Ending σ → Except Fault (Int × World σ)
  | .eof _ w => .ok (0, w)
  | .exit (.ret code w) => .ok (code, w)
  | .exit (.fault f) => .error f

def parseDataEnding (cb : Callback σ) (usingHttp : Bool) (data : σ) (reads : List Read) : Ending σ :=
  readLoop cb (Parser.init usingHttp, World.init data) reads

def parseData (cb : Callback σ) (usingHttp : Bool) (data : σ) (reads : List Read) :
    Except Fault (Int × World σ) :=
  (parseDataEnding cb usingHttp data reads).result

end BzccScanner
