import BzccScanner.ParseData

/-! The reader without its memory: buffers are lists, `is_array` is the stack
of open containers, innermost first, and completed values are outputs instead
of calls. The callback enters only when the outputs are delivered. -/

namespace BzccScanner

open CString

/-- A completed value. `depth` counts the open containers. The slots are numbered without end. -/
structure Item where
  status : Status
  key : List Byte
  value : List Byte
  depth : Nat
  serverIndex : Nat
  playerIndex : Nat
  deriving DecidableEq, Repr

inductive Stop
  | ret (code : Int) (err : Option Message)
  | fault (f : Fault)
  deriving DecidableEq

/-- The part of the state that the JSON reader uses; `true` in `stack` is an array. -/
structure Reader where
  jState : JState
  name : List Byte
  value : List Byte
  inQuote : Bool
  inEscape : Bool
  stack : List Bool
  serverSlot : Nat
  playerSlot : Nat
  deriving DecidableEq

structure Client where
  state : State
  contentLength : UInt32
  jsonLen : UInt32
  reader : Reader
  deriving DecidableEq

def Reader.init : Reader := ⟨.expectRootStart, [], [], false, false, [], 0, 0⟩

def Client.init (usingHttp : Bool) : Client :=
  ⟨if usingHttp then .readingHttpHeader else .readingJson, 0, 0, .init⟩

abbrev Stop.fail (m : Message) : Stop := .ret 1 (some m)

namespace Reader

def expectRootStart (r : Reader) (pos : UInt32) (c : Byte) : Except Stop Reader :=
  if c = lbrace then .ok { r with jState := .expectKeyName, stack := false :: r.stack }
  else if isSpace c then .ok r
  else .error (.fail (.expectedRoot c pos))

def closeSlots (r : Reader) (depth : Nat) : Reader :=
  if depth = 3 then { r with serverSlot := r.serverSlot + 1, playerSlot := 0 }
  else if depth = 5 then { r with playerSlot := r.playerSlot + 1 }
  else r

@[simp] theorem closeSlots_stack (r : Reader) (depth : Nat) : (r.closeSlots depth).stack = r.stack := by
  rw [closeSlots]
  split_ifs <;> rfl

def afterObject : List Bool → JState
  | [] => .expectRootEnd
  | true :: _ => .expectValue
  | false :: _ => .expectKeyName

def closeObject (r : Reader) (st : List Bool) : Reader :=
  { r.closeSlots (st.length + 1) with stack := st, jState := afterObject st }

def closeArray (r : Reader) (st : List Bool) : Reader :=
  { r with stack := st, jState := if st = [] then .expectRootEnd else .expectValue }

def expectNext (r : Reader) (pos : UInt32) (c : Byte) : Except Stop Reader :=
  match r.stack with
  | [] => .error (.fault .isArray)
  | true :: st =>
    if c = comma then .ok { r with name := [], jState := .expectValue }
    else if c = rbracket then .ok (r.closeArray st)
    else if isSpace c then .ok r
    else .error (.fail (.unexpectedSymbol c pos))
  | false :: st =>
    if c = comma then .ok { r with name := [], value := [], jState := .expectKeyName }
    else if c = rbrace then .ok (r.closeObject st)
    else if isSpace c then .ok r
    else .error (.fail (.unexpectedSymbol c pos))

theorem expectNext_array {r : Reader} {st : List Bool} (h : r.stack = true :: st) (pos : UInt32)
    (c : Byte) : r.expectNext pos c =
      if c = comma then .ok { r with name := [], jState := .expectValue }
      else if c = rbracket then .ok (r.closeArray st)
      else if isSpace c then .ok r
      else .error (.fail (.unexpectedSymbol c pos)) := by
  obtain ⟨_, _, _, _, _, stack, _, _⟩ := r
  subst h
  rfl

theorem expectNext_object {r : Reader} {st : List Bool} (h : r.stack = false :: st) (pos : UInt32)
    (c : Byte) : r.expectNext pos c =
      if c = comma then .ok { r with name := [], value := [], jState := .expectKeyName }
      else if c = rbrace then .ok (r.closeObject st)
      else if isSpace c then .ok r
      else .error (.fail (.unexpectedSymbol c pos)) := by
  obtain ⟨_, _, _, _, _, stack, _, _⟩ := r
  subst h
  rfl

def expectKeyName (r : Reader) (pos : UInt32) (c : Byte) : Except Stop Reader :=
  if r.inQuote then
    if c = quote then .ok { r with inQuote := false, jState := .expectKeySep }
    else if c = lf ∨ c = cr then .error (.fail (.lineBreak pos))
    else if r.name.length + 1 ≥ genericBuflen then .error (.fail .nameOverflow)
    else .ok { r with name := r.name ++ [c] }
  else if c = quote then .ok { r with inQuote := true }
  else if isSpace c then .ok r
  else if c = rbrace then { r with jState := .expectNext }.expectNext pos c
  else .error (.fail (.expectedKey c pos))

def expectKeySep (r : Reader) (pos : UInt32) (c : Byte) : Except Stop Reader :=
  if c = colon then .ok { r with jState := .expectValue }
  else if isSpace c then .ok r
  else .error (.fail (.expectedColon c pos))

def expectValue (r : Reader) (pos : UInt32) (c : Byte) : Except Stop Reader :=
  if c = quote then .ok { r with inQuote := true, jState := .expectReadValue }
  else if isWordChar c then .ok { r with value := r.value ++ [c], jState := .expectReadValue }
  else if c = lbracket ∨ c = lbrace then
    if r.stack.length + 1 ≥ maxDepth then .error (.fail (.exceededDepth pos))
    else .ok { r with
      name := [], stack := (c == lbracket) :: r.stack
      jState := if c = lbracket then .expectValue else .expectKeyName }
  else if isSpace c then .ok r
  else if c = comma ∨ c = rbrace ∨ c = rbracket then
    { r with jState := .expectNext }.expectNext pos c
  else .error (.fail (.expectedValue c pos))

def item (r : Reader) (status : Status) : Item :=
  ⟨status, r.name, r.value, r.stack.length, r.serverSlot, r.playerSlot⟩

def completed (r : Reader) : Reader := { r with name := [], value := [], jState := .expectNext }

def appendValue (r : Reader) (c : Byte) : Except Stop Reader :=
  if r.value.length + 1 ≥ genericBuflen then .error (.fail .valueOverflow)
  else .ok { r with value := r.value ++ [c] }

def expectReadValue (r : Reader) (pos : UInt32) (c : Byte) : List Item × Except Stop Reader :=
  if r.inQuote then
    if r.inEscape then
      match unescape c with
      | some c => ([], { r with inEscape := false }.appendValue c)
      | none => ([], .error (.fail (.invalidEscape c pos)))
    else if c = quote then ([r.item .normal], .ok { r.completed with inQuote := false })
    else if c = lf ∨ c = cr then ([], .error (.fail (.lineBreak pos)))
    else if c = backslash then ([], .ok { r with inEscape := true })
    else ([], r.appendValue c)
  else if isWordChar c then ([], r.appendValue c)
  else if isSpace c then ([], .ok r)
  else if c = comma ∨ c = rbrace ∨ c = rbracket then
    ([r.item (if c = rbrace then .last else .normal)], r.completed.expectNext pos c)
  else ([], .error (.fail (.symbolInValue c (cstr r.value) pos)))

def expectRootEnd (r : Reader) (pos : UInt32) (c : Byte) : Except Stop Reader :=
  if isSpace c then .ok r
  else if c = rbrace then .error (.ret 0 none)
  else .error (.fail (.expectedRootEnd c pos))

def step (r : Reader) (pos : UInt32) (c : Byte) : List Item × Except Stop Reader :=
  match r.jState with
  | .expectRootStart => ([], r.expectRootStart pos c)
  | .expectKeyName => ([], r.expectKeyName pos c)
  | .expectKeySep => ([], r.expectKeySep pos c)
  | .expectValue => ([], r.expectValue pos c)
  | .expectReadValue => r.expectReadValue pos c
  | .expectNext => ([], r.expectNext pos c)
  | .expectRootEnd => ([], r.expectRootEnd pos c)

end Reader

namespace Client

abbrev setName (s : Client) (b : List Byte) : Client := { s with reader := { s.reader with name := b } }

abbrev setValue (s : Client) (b : List Byte) : Client := { s with reader := { s.reader with value := b } }

def appendName (s : Client) (c : Byte) : Except Stop Client :=
  if s.reader.name.length + 1 ≥ genericBuflen then .error (.fail .headerNameOverflow)
  else .ok (s.setName (s.reader.name ++ [c]))

def readHttpHeader (s : Client) (c : Byte) : Except Stop Client :=
  if c = lf ∧ s.reader.name.getLast? = some cr then
    let line := cstr s.reader.name.dropLast
    if line.length < okSuffix.length then .error (.fault .statusLine)
    else if strcmpi (line.drop (line.length - okSuffix.length)) okSuffix then
      .ok ({ s with state := .readingHttpHeaderName }.setName [])
    else .error (.fail (.expectedOk line))
  else s.appendName c

def readHttpHeaderName (s : Client) (c : Byte) : Except Stop Client :=
  if c = cr then s.appendName c
  else if c = lf ∧ s.reader.name.getLast? = some cr then
    .ok ({ s with state := .readingJson }.setName [])
  else if isSpace c ∧ s.reader.name = [] then .ok s
  else if c = colon then .ok { s with state := .readingHttpHeaderValue }
  else s.appendName c

def readHttpHeaderValue (s : Client) (c : Byte) : Except Stop Client :=
  if c = lf ∧ s.reader.value.getLast? = some cr then
    .ok ({ s with
      state := .readingHttpHeaderName
      contentLength := if strcmpi s.reader.name contentLengthName then
        UInt32.ofInt (atoi s.reader.value.dropLast) else s.contentLength }.setName [] |>.setValue [])
  else if isSpace c ∧ s.reader.value = [] then .ok s
  else if s.reader.value.length + 1 ≥ genericBuflen then .error (.fail .headerValueOverflow)
  else .ok (s.setValue (s.reader.value ++ [c]))

def step (s : Client) (c : Byte) : List Item × Except Stop Client :=
  match s.state with
  | .readingHttpHeader => ([], s.readHttpHeader c)
  | .readingHttpHeaderName => ([], s.readHttpHeaderName c)
  | .readingHttpHeaderValue => ([], s.readHttpHeaderValue c)
  | .readingJson =>
    if s.contentLength ≠ 0 ∧ s.contentLength ≤ s.jsonLen + 1 then ([], .error (.ret 0 none))
    else ((s.reader.step (s.jsonLen + 1) c).1,
      (s.reader.step (s.jsonLen + 1) c).2.map
        fun r => { s with jsonLen := s.jsonLen + 1, reader := r })

abbrev run : Client → List Byte → List Item × Except Stop Client := Mealy.run step

end Client

variable {σ : Type}

def deliver (cb : Callback σ) (w : World σ) (i : Item) : Loop σ (World σ) :=
  w.report cb i.status i.key i.value i.depth (Int32.ofNat i.serverIndex) (Int32.ofNat i.playerIndex)

def Stop.exit (w : World σ) : Stop → Exit σ
  | .ret code none => .ret code w
  | .ret code (some m) => .ret code (w.setErr m)
  | .fault f => .fault f

end BzccScanner
