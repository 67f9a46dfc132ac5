import BzccScanner.Crc32

/-! The records that a scan fills in, how the text of a member becomes the
value of a field, and the searches for a game and a player. Fields that no
modelled function reads or writes are left out. -/

namespace BzccScanner

open CString

abbrev serverVerLen : Nat := 16
abbrev serverNameLen : Nat := 64
abbrev serverMapLen : Nat := 32
abbrev serverHostmsgLen : Nat := 256
abbrev playerNameLen : Nat := 64
abbrev userIdLen : Nat := 32
abbrev maxServers : Nat := 128
abbrev maxPlayers : Nat := 16
abbrev maxMods : Nat := 32

abbrev WString (n : Nat) := Vector TChar n

structure PlayerInfo where
  ingameName : WString playerNameLen
  userId : WString userIdLen
  team : Int
  kills : Int
  uniqueIdentifier : UInt32

structure GameInfo where
  version : WString serverVerLen
  name : WString serverNameLen
  map : WString serverMapLen
  msg : WString serverHostmsgLen
  pwd : Bool
  modId : Vector UInt32 maxMods
  modName : WString serverNameLen
  maxPing : Int
  serverPing : Int
  gametime : Int
  playerlimit : Int
  timelimit : Int
  killlimit : Int
  gametype : Int
  tps : Int
  playerCount : Nat
  playerinfo : Vector PlayerInfo maxPlayers
  uniqueIdentifier : UInt32

def WString.zero (n : Nat) : WString n := Vector.replicate n 0

def PlayerInfo.zero : PlayerInfo := ⟨.zero _, .zero _, 0, 0, 0⟩

def GameInfo.zero : GameInfo where
  version := .zero _
  name := .zero _
  map := .zero _
  msg := .zero _
  pwd := false
  modId := Vector.replicate _ 0
  modName := .zero _
  maxPing := 0
  serverPing := 0
  gametime := 0
  playerlimit := 0
  timelimit := 0
  killlimit := 0
  gametype := 0
  tps := 0
  playerCount := 0
  playerinfo := Vector.replicate _ .zero
  uniqueIdentifier := 0

namespace WString

variable {n : Nat}

def write (v : WString n) (s : List TChar) : WString n := Vector.ofFn fun i => s.getD i v[i]

/-- `ZeroMemory` counts bytes, and a character has two. -/
def zeroMemory (v : WString n) (bytes : Nat) : WString n := Vector.ofFn fun i => if i < bytes / 2 then 0 else v[i]

/-- `snwprintf` cuts the text to what fits in front of the terminator. -/
def snwprintf (v : WString n) (s : List TChar) : WString n := v.write (s.take (n - 1) ++ [0])

/-- A string that fills the array leaves no terminator. -/
def mbstowcs (v : WString n) (s : List Byte) : WString n :=
  v.write (((cstr s).map UInt8.toUInt16 ++ [0]).take n)

end WString

def text (s : String) : List TChar := s.toList.map fun c => UInt16.ofNat c.toNat

/-- `CryptStringToBinaryA`: the decoded bytes, if they can be decoded and fit the size. -/
abbrev Decoder := List Byte → Nat → Option (List Byte)

def b64decodeW (decode : Decoder) {n : Nat} (b64Data : List Byte) (output : WString n) : WString n :=
  let output := output.zeroMemory n
  match decode b64Data n with
  | none => output.snwprintf (text "B64 DECODE ERROR")
  | some tmp => output.mbstowcs tmp

abbrev semicolon : Byte := 0x3b
abbrev modIdStrlen : Nat := 16

theorem lt_of_not_full {modIndex max : Nat} (h : ¬ modIndex + 1 ≥ max) : modIndex < max := by omega

/-- `split_raw_mod_ids` from a state of its loop. The test `isspace(mm_string[i] && len == 0)`
is about 0 or 1 and never holds. -/
def splitLoop {max : Nat} (modIds : Vector UInt32 max) (modIndex : Nat) (digits : List Byte) :
    List Byte → Nat × Vector UInt32 max
  | [] =>
    if h : modIndex + 1 ≥ max then (1, modIds)
    else (modIndex + 1, modIds.set modIndex (UInt32.ofInt (atoi digits)) (lt_of_not_full h))
  | c :: cs =>
    if c = semicolon then
      if h : modIndex + 1 ≥ max then (0, modIds)
      else splitLoop (modIds.set modIndex (UInt32.ofInt (atoi digits)) (lt_of_not_full h)) (modIndex + 1) [] cs
    else if isDigit c then
      if digits.length + 1 ≥ modIdStrlen then (0, modIds) else splitLoop modIds modIndex (digits ++ [c]) cs
    else (0, modIds)

def splitRawModIds {max : Nat} (mmString : List Byte) (modIds : Vector UInt32 max) : Nat × Vector UInt32 max :=
  splitLoop modIds 0 [] mmString

inductive PlayerKey
  | unknown | name | userid | team | kills | score | deaths
  deriving DecidableEq, Repr

inductive ServerKey
  | unknown | name | map | version | hostmsg | playerlimit | maxPing | modstring | tps | pwd | gametime
  | gametype | timelimit | killlimit | ping | g
  deriving DecidableEq, Repr

/-- `n`, `i`, `t`, `k`, `s`, `d` -/
def playerKeyToId : List (List Byte × PlayerKey) :=
  [([0x6e], .name), ([0x69], .userid), ([0x74], .team), ([0x6b], .kills), ([0x73], .score), ([0x64], .deaths)]

/-- `n`, `m`, `v`, `gtm`, `mu`, `gt`, `gtd`, `pg`, `pgm`, `t`, `mm`, `pm`, `tps`, `si`, `h`, `k`,
`ti`, `ki`, `g` -/
def serverKeyToId : List (List Byte × ServerKey) :=
  [([0x6e], .name), ([0x6d], .map), ([0x76], .version), ([0x67, 0x74, 0x6d], .gametime),
    ([0x6d, 0x75], .unknown), ([0x67, 0x74], .gametype), ([0x67, 0x74, 0x64], .unknown),
    ([0x70, 0x67], .ping), ([0x70, 0x67, 0x6d], .maxPing), ([0x74], .unknown), ([0x6d, 0x6d], .modstring),
    ([0x70, 0x6d], .playerlimit), ([0x74, 0x70, 0x73], .tps), ([0x73, 0x69], .unknown), ([0x68], .hostmsg),
    ([0x6b], .pwd), ([0x74, 0x69], .timelimit), ([0x6b, 0x69], .killlimit), ([0x67], .g)]

def getKeyIdentifier {K : Type} (unknown : K) (str : List Byte) (key2id : List (List Byte × K)) : K :=
  ((key2id.find? fun e => strcmpi e.1 str).map Prod.snd).getD unknown

def playerCase (decode : Decoder) (value : List Byte) : PlayerKey → Option (PlayerInfo → PlayerInfo)
  | .name => some fun p =>
    { p with ingameName := b64decodeW decode value (p.ingameName.zeroMemory playerNameLen) }
  | .userid => some fun p =>
    { p with userId := p.userId.snwprintf (value.map UInt8.toUInt16), uniqueIdentifier := calcCRC32A value }
  | .team => some fun p => { p with team := atoi value }
  | .kills => some fun p => { p with kills := atoi value }
  | .unknown | .score | .deaths => none

def serverCase (decode : Decoder) (value : List Byte) : ServerKey → Option (GameInfo → GameInfo)
  | .name => some fun g => { g with name := b64decodeW decode value (g.name.zeroMemory serverNameLen) }
  | .map => some fun g => { g with map := g.map.snwprintf (value.map UInt8.toUInt16 ++ text ".bzn") }
  | .version => some fun g => { g with version := g.version.snwprintf (value.map UInt8.toUInt16) }
  | .hostmsg => some fun g => { g with msg := g.msg.snwprintf (value.map UInt8.toUInt16) }
  | .modstring => some fun g => { g with modId := (splitRawModIds value g.modId).2 }
  | .playerlimit => some fun g => { g with playerlimit := atoi value }
  | .tps => some fun g => { g with tps := atoi value }
  | .pwd => some fun g => { g with pwd := true }
  | .maxPing => some fun g => { g with maxPing := atoi value }
  | .ping => some fun g => { g with serverPing := atoi value }
  | .gametime => some fun g => { g with gametime := atoi value }
  | .gametype => some fun g => { g with gametype := atoi value }
  | .timelimit => some fun g => { g with timelimit := atoi value }
  | .killlimit => some fun g => { g with killlimit := atoi value }
  | .g => some fun g => { g with uniqueIdentifier := calcCRC32A value }
  | .unknown => none

theorem serverCase_playerCount {decode : Decoder} {value : List Byte} {key : ServerKey}
    {f : GameInfo → GameInfo} (h : serverCase decode value key = some f) (g : GameInfo) :
    (f g).playerCount = g.playerCount := by
  cases key <;> simp only [serverCase, Option.some.injEq, reduceCtorEq] at h <;> subst h <;> rfl

inductive ScanFault
  | gameinfo | gameinfoPrev | playerinfo | scanGame | scanPlayer | gameType
  deriving DecidableEq, Repr

variable {α : Type} {n : Nat}

def entry (f : ScanFault) (xs : Vector α n) (i : Nat) : Except ScanFault α :=
  match xs[i]? with
  | some x => .ok x
  | none => .error f

theorem entry_eq (f : ScanFault) (xs : Vector α n) {i : Nat} (h : i < n) : entry f xs i = .ok xs[i] := by
  rw [entry, Vector.getElem?_eq_getElem h]

def findEntry (f : ScanFault) (xs : Vector α n) (stop : α → Bool) : Nat → Nat → Except ScanFault (Option α)
  | 0, _ => .ok none
  | count + 1, i => do
    let x ← entry f xs i
    if stop x then return some x else findEntry f xs stop count (i + 1)

theorem findEntry_eq (f : ScanFault) (xs : Vector α n) (stop : α → Bool) {count i : Nat} (h : i + count ≤ n) :
    findEntry f xs stop count i = .ok (((xs.toList.drop i).take count).find? stop) := by
  induction count generalizing i with
  | zero => simp [findEntry]
  | succ count ih =>
    have hi : i < n := by omega
    have hdrop : xs.toList.drop i = xs[i] :: xs.toList.drop (i + 1) := by
      rw [List.drop_eq_getElem_cons (by simpa using hi), Vector.getElem_toList]
    rw [findEntry, entry_eq f xs hi, hdrop, List.take_succ_cons, List.find?_cons]
    cases hs : stop xs[i] with
    | true => simp [hs, bind, Except.bind, pure, Except.pure]
    | false => simpa [hs, bind, Except.bind] using ih (i := i + 1) (by omega)

def findGame (f : ScanFault) (games : Vector GameInfo maxServers) (count : Nat) (uniqueIdentifier : UInt32) :
    Except ScanFault (Option GameInfo) :=
  findEntry f games (fun g => g.uniqueIdentifier == uniqueIdentifier) count 0

def findPlayer (game : GameInfo) (uniqueIdentifier : UInt32) : Except ScanFault (Option PlayerInfo) :=
  findEntry .playerinfo game.playerinfo (fun p => p.uniqueIdentifier == uniqueIdentifier) game.playerCount 0

end BzccScanner
