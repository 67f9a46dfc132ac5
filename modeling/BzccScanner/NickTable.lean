import Mathlib.Data.Finmap
import BzccScanner.Crc32
import BzccScanner.HeapList
import BzccScanner.Refinement

/-! The table of local nicks: a linked list of heap nodes with a pointer to its
last node. Nodes are found by the checksum of the reference string. -/

namespace BzccScanner

open CString HeapList Refinement

abbrev htMaxStr : Nat := 64

structure TableEntry where
  crc32 : UInt32
  value : Vector TChar htMaxStr
  next : Option Addr

/-- `HT_Table`, with the nodes that `HeapAlloc` has handed out. -/
structure Table where
  heap : Heap TableEntry
  first : Option Addr
  last : Option Addr

def Table.empty : Table := ⟨∅, none, none⟩

/-- An access to a node that is not allocated, a loop that does not end, a
write behind `value`, or a null `last` behind a first node. -/
inductive TableFault
  | dangling (a : Addr)
  | cyclic
  | overrun
  | nullLast
  deriving DecidableEq, Repr

def wstr {n : Nat} (v : Vector TChar n) : List TChar := v.toList.takeWhile (· != 0)

/-- The copy stops at `HT_MAX_STR` characters, and its terminator then goes behind the array. -/
def htCopyStr (value : Vector TChar htMaxStr) (string : List TChar) :
    Except TableFault (Vector TChar htMaxStr) :=
  let i := min string.length htMaxStr
  let value := Vector.ofFn fun j : Fin htMaxStr => if (j : Nat) < i then string.getD j 0 else value[j]
  if h : i < htMaxStr then .ok (value.set i 0) else .error .overrun

namespace Table

/-- The loops over the entries: the first one with the checksum, and the
address in front of it. -/
def searchCrc32 (t : Table) (crc32 : UInt32) :
    Except TableFault (Option (Option Addr × Addr × TableEntry)) :=
  match search TableEntry.next (fun e => e.crc32 == crc32) t.heap t.heap.keys.length none t.first with
  | .ok r => .ok r
  | .error (.dangling a) => .error (.dangling a)
  | .error .cyclic => .error .cyclic

def htFindCrc32 (t : Table) (crc32 : UInt32) : Except TableFault (Option (List TChar)) := do
  let r ← t.searchCrc32 crc32
  return r.map fun x => wstr x.2.2.value

def htFind (t : Table) (reference : List TChar) : Except TableFault (Option (List TChar)) :=
  t.htFindCrc32 (calcCRC32 reference)

/-- `alloc` is what `HeapAlloc` returns: an address with what was left there, or null. -/
def htNew (t : Table) (crc32 : UInt32) (mapped : List TChar) (alloc : Option (Addr × TableEntry)) :
    Except TableFault (Bool × Table) :=
  match alloc with
  | none => .ok (false, t)
  | some (a, raw) => do
    let value ← htCopyStr raw.value mapped
    let heap := t.heap.insert a ⟨crc32, value, none⟩
    match t.first with
    | none => .ok (true, ⟨heap, some a, some a⟩)
    | some first =>
      match t.last with
      | none => .error .nullLast
      | some b =>
        match heap.lookup b with
        | none => .error (.dangling b)
        | some e => .ok (true, ⟨heap.insert b { e with next := some a }, some first, some a⟩)

def htSet (t : Table) (reference mapped : List TChar) (alloc : Option (Addr × TableEntry)) :
    Except TableFault (Bool × Table) := do
  let crc32 := calcCRC32 reference
  match ← t.searchCrc32 crc32 with
  | some (_, a, e) =>
    let value ← htCopyStr e.value mapped
    return (true, { t with heap := t.heap.insert a { e with value } })
  | none => t.htNew crc32 mapped alloc

def htDelete (t : Table) (reference : List TChar) : Except TableFault (Bool × Table) := do
  match ← t.searchCrc32 (calcCRC32 reference) with
  | none => return (false, t)
  | some (some b, a, e) =>
    -- For the last entry the source only names `ht->last` and assigns nothing.
    match t.heap.lookup b with
    | none => .error (.dangling b)
    | some prev => return (true, { t with heap := (t.heap.insert b { prev with next := e.next }).erase a })
  | some (none, a, e) =>
    if t.last = some a then return (true, ⟨t.heap.erase a, none, none⟩)
    else return (true, { t with heap := t.heap.erase a, first := e.next })

end Table

/-- A call on the table. Calls that may allocate carry the address that
`HeapAlloc` returns and what was left there. -/
inductive TableOp
  | find (reference : List TChar)
  | set (reference mapped : List TChar) (a : Addr) (raw : TableEntry)
  | delete (reference : List TChar)
  | new (crc32 : UInt32) (mapped : List TChar) (a : Addr) (raw : TableEntry)

inductive TableResult
  | found (value : Option (List TChar))
  | done (ok : Bool)
  deriving DecidableEq, Repr

def Table.step (t : Table) : TableOp → Except TableFault (TableResult × Table)
  | .find reference => (t.htFind reference).map fun r => (.found r, t)
  | .set reference mapped a raw => (t.htSet reference mapped (some (a, raw))).map fun r => (.done r.1, r.2)
  | .delete reference => (t.htDelete reference).map fun r => (.done r.1, r.2)
  | .new crc32 mapped a raw => (t.htNew crc32 mapped (some (a, raw))).map fun r => (.done r.1, r.2)

/-- What the table stands for: a finite map from checksums to nicks. -/
abbrev NickMap := Finmap fun _ : UInt32 => List TChar

def NickMap.step (m : NickMap) : TableOp → TableResult × NickMap
  | .find reference => (.found (m.lookup (calcCRC32 reference)), m)
  | .set reference mapped _ _ => (.done true, m.insert (calcCRC32 reference) mapped)
  | .delete reference => (.done (m.lookup (calcCRC32 reference)).isSome, m.erase (calcCRC32 reference))
  | .new crc32 mapped _ _ => (.done true, m.insert crc32 mapped)

def Table.Linked (t : Table) : Prop :=
  ∃ cells, Chain TableEntry.next t.heap t.first cells none ∧ t.last = cells.getLast?.map Prod.fst

def FitsEntry (s : List TChar) : Prop := 0 ∉ s ∧ s.length < htMaxStr

instance : DecidablePred FitsEntry := fun _ => inferInstanceAs (Decidable (_ ∧ _))

/-- What callers and the allocator promise: mapped strings fit, a new address
is not allocated, and `HT_New` is called for a checksum that was not found. -/
def TableOp.Allowed (t : Table) : TableOp → Prop
  | .find _ => True
  | .set _ mapped a _ => FitsEntry mapped ∧ t.heap.lookup a = none
  | .delete _ => True
  | .new crc32 mapped a _ => FitsEntry mapped ∧ t.heap.lookup a = none ∧ t.htFindCrc32 crc32 = .ok none

/-- A deletion of the last node, with another one in front of it. -/
def TableOp.HitsTail (t : Table) : TableOp → Prop
  | .delete reference => t.last ≠ t.first ∧ ∃ a e, t.last = some a ∧ t.heap.lookup a = some e ∧
      e.crc32 = calcCRC32 reference
  | _ => False

end BzccScanner
