import BzccScanner.ReaderRun

/-! JSON texts: trees that carry the spelling of every token and all the
whitespace between them, and that can only hold keys and values that fit the
reader's buffers. -/

namespace BzccScanner

open CString

abbrev Space := {c : Byte // isSpace c = true}

abbrev Ws := List Space

def spaces (w : Ws) : List Byte := w.map Subtype.val

inductive Escape
  | quote | backslash | newline | carriageReturn | tab
  deriving DecidableEq, Repr

def Escape.letter : Escape → Byte
  | .quote => BzccScanner.quote
  | .backslash => BzccScanner.backslash
  | .newline => letterN
  | .carriageReturn => letterR
  | .tab => letterT

def Escape.byte : Escape → Byte
  | .quote => BzccScanner.quote
  | .backslash => BzccScanner.backslash
  | .newline => lf
  | .carriageReturn => cr
  | .tab => BzccScanner.tab

/-- One byte of a quoted string, as it is spelled. -/
inductive Piece
  | plain (c : Byte) (h : c ≠ quote ∧ c ≠ backslash ∧ c ≠ lf ∧ c ≠ cr)
  | escape (e : Escape)

def Piece.text : Piece → List Byte
  | .plain c _ => [c]
  | .escape e => [backslash, e.letter]

def Piece.byte : Piece → Byte
  | .plain c _ => c
  | .escape e => e.byte

structure Word where
  bytes : List Byte
  ne_nil : bytes ≠ []
  isWord : ∀ c ∈ bytes, isWordChar c = true

inductive Scalar
  | quoted (pieces : List Piece)
  | bare (word : Word)

namespace Scalar

def text : Scalar → List Byte
  | quoted pieces => quote :: pieces.flatMap Piece.text ++ [quote]
  | bare word => word.bytes

def value : Scalar → List Byte
  | quoted pieces => pieces.map Piece.byte
  | bare word => word.bytes

def isQuoted : Scalar → Bool
  | quoted _ => true
  | bare _ => false

end Scalar

structure Key where
  bytes : List Byte
  plain : ∀ c ∈ bytes, c ≠ quote ∧ c ≠ lf ∧ c ≠ cr
  length_lt : bytes.length < genericBuflen - 1

/-- A key with its colon and the whitespace around them. -/
structure Label where
  before : Ws
  key : Key
  between : Ws
  after : Ws

def Label.text (l : Label) : List Byte :=
  spaces l.before ++ quote :: l.key.bytes ++ quote :: spaces l.between ++ colon :: spaces l.after

mutual

inductive Json
  | scalar (s : Scalar) (h : s.value.length < genericBuflen - 1)
  | emptyArray (pad : Ws)
  | array (items : Elems)
  | emptyObject (pad : Ws)
  | object (items : Members)

inductive Elems
  | last (before : Ws) (v : Json) (after : Ws)
  | cons (before : Ws) (v : Json) (after : Ws) (rest : Elems)

inductive Members
  | last (label : Label) (v : Json) (after : Ws)
  | cons (label : Label) (v : Json) (after : Ws) (rest : Members)

end

mutual

def Json.text : Json → List Byte
  | .scalar s _ => s.text
  | .emptyArray pad => lbracket :: spaces pad ++ [rbracket]
  | .array es => lbracket :: es.text ++ [rbracket]
  | .emptyObject pad => lbrace :: spaces pad ++ [rbrace]
  | .object ms => lbrace :: ms.text ++ [rbrace]

def Elems.text : Elems → List Byte
  | .last before v after => spaces before ++ v.text ++ spaces after
  | .cons before v after rest => spaces before ++ v.text ++ spaces after ++ comma :: rest.text

def Members.text : Members → List Byte
  | .last label v after => label.text ++ v.text ++ spaces after
  | .cons label v after rest => label.text ++ v.text ++ spaces after ++ comma :: rest.text

end

mutual

def Json.height : Json → Nat
  | .scalar _ _ => 0
  | .emptyArray _ => 1
  | .array es => es.height + 1
  | .emptyObject _ => 1
  | .object ms => ms.height + 1

def Elems.height : Elems → Nat
  | .last _ v _ => v.height
  | .cons _ v _ rest => max v.height rest.height

def Members.height : Members → Nat
  | .last _ v _ => v.height
  | .cons _ v _ rest => max v.height rest.height

end

def Json.isObject : Json → Bool
  | .emptyObject _ => true
  | .object _ => true
  | _ => false

mutual

/-- No object-valued member of an object has a member behind it. -/
def Json.objectsLast : Json → Bool
  | .array es => es.objectsLast
  | .object ms => ms.objectsLast
  | _ => true

def Elems.objectsLast : Elems → Bool
  | .last _ v _ => v.objectsLast
  | .cons _ v _ rest => v.objectsLast && rest.objectsLast

def Members.objectsLast : Members → Bool
  | .last _ v _ => v.objectsLast
  | .cons _ v _ rest => v.objectsLast && !v.isObject && rest.objectsLast

end

structure Slots where
  server : Nat
  player : Nat
  deriving DecidableEq, Repr

def Slots.close (sl : Slots) (depth : Nat) : Slots :=
  if depth = 3 then ⟨sl.server + 1, 0⟩ else if depth = 5 then ⟨sl.server, sl.player + 1⟩ else sl

mutual

/-- The counters behind a value that is read with `depth` containers open. -/
def Json.slots (depth : Nat) (sl : Slots) : Json → Slots
  | .scalar _ _ => sl
  | .emptyArray _ => sl
  | .array es => es.slots (depth + 1) sl
  | .emptyObject _ => sl.close (depth + 1)
  | .object ms => (ms.slots (depth + 1) sl).close (depth + 1)

def Elems.slots (depth : Nat) (sl : Slots) : Elems → Slots
  | .last _ v _ => v.slots depth sl
  | .cons _ v _ rest => rest.slots depth (v.slots depth sl)

def Members.slots (depth : Nat) (sl : Slots) : Members → Slots
  | .last _ v _ => v.slots depth sl
  | .cons _ v _ rest => rest.slots depth (v.slots depth sl)

end

def Scalar.item (s : Scalar) (depth : Nat) (key : List Byte) (sl : Slots) (status : Status) : Item :=
  ⟨if s.isQuoted then .normal else status, key, s.value, depth, sl.server, sl.player⟩

mutual

/-- The items of a value. `status` is that of a bare word ended by what follows. -/
def Json.items (depth : Nat) (key : List Byte) (sl : Slots) (status : Status) : Json → List Item
  | .scalar s _ => [s.item depth key sl status]
  | .emptyArray _ => []
  | .array es => es.items (depth + 1) sl
  | .emptyObject _ => []
  | .object ms => ms.items (depth + 1) sl

def Elems.items (depth : Nat) (sl : Slots) : Elems → List Item
  | .last _ v _ => v.items depth [] sl .normal
  | .cons _ v _ rest => v.items depth [] sl .normal ++ rest.items depth (v.slots depth sl)

def Members.items (depth : Nat) (sl : Slots) : Members → List Item
  | .last label v _ => v.items depth label.key.bytes sl .last
  | .cons label v _ rest =>
    v.items depth label.key.bytes sl .normal ++ rest.items depth (v.slots depth sl)

end

/-- A text whose root is an object, with at most `maxDepth - 1` containers
open at once. -/
structure Document where
  before : Ws
  root : Json
  isObject : root.isObject = true
  height_lt : root.height < maxDepth
  after : Ws

def Document.text (d : Document) : List Byte := spaces d.before ++ d.root.text ++ spaces d.after

def Document.items (d : Document) : List Item := d.root.items 0 [] ⟨0, 0⟩ .normal

end BzccScanner
