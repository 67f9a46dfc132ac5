import BzccScanner.GameTypes
import BzccScanner.Scan

/-! `ProcessSessionInfo`, the consumer of a scan, and `ScanThread`. Pointers
into the arrays are indices, and what the window shows is a list of notices.
The user may cancel in front of any call. -/

namespace BzccScanner

open CString

/-- What the user is told. `row` is `GameInfoToRow`. -/
inductive Notice
  | messageBox (err : String)
  | row (game : GameInfo)
  | gameNew (game : GameInfo)
  | gameOpen (game : GameInfo)
  | gameQuit (game : GameInfo)
  | playerQuit (game : GameInfo) (old : PlayerInfo)
  | playerJoined (game : GameInfo) (new : PlayerInfo)
  | playerChangedNick (game : GameInfo) (old new : PlayerInfo)

/-- The part of `WindowControls` that a scan reads and writes. -/
structure WindowControls where
  iContinueScan : Bool
  gameinfo : Vector GameInfo maxServers
  gameinfoPrev : Vector GameInfo maxServers
  gameinfoPrevCount : Nat
  scanCountServers : Nat
  scanCountPlayers : Nat
  scanGame : Option (Fin maxServers)
  scanPlayer : Option (Fin maxServers × Fin maxPlayers)
  notices : List Notice

def WindowControls.zero : WindowControls where
  iContinueScan := false
  gameinfo := Vector.replicate _ .zero
  gameinfoPrev := Vector.replicate _ .zero
  gameinfoPrevCount := 0
  scanCountServers := 0
  scanCountPlayers := 0
  scanGame := none
  scanPlayer := none
  notices := []

def collect (f : Nat → Except ScanFault (List Notice)) : Nat → Except ScanFault (List Notice)
  | 0 => .ok []
  | n + 1 => do return (← collect f n) ++ (← f n)

theorem bind_eq_ok {ε α β : Type} {x : Except ε α} {f : α → Except ε β} {b : β} :
    (x >>= f) = .ok b ↔ ∃ a, x = .ok a ∧ f a = .ok b := by
  cases x <;> simp [bind, Except.bind]

theorem toOption_eq_some {ε α : Type} {x : Except ε α} {a : α} : x.toOption = some a ↔ x = .ok a := by
  cases x <;> simp [Except.toOption]

def playerLeft (old new : GameInfo) (ip : Nat) : Except ScanFault (List Notice) := do
  let player ← entry .playerinfo old.playerinfo ip
  match ← findPlayer new player.uniqueIdentifier with
  | none => return [.playerQuit new player]
  | some _ => return []

def playerCame (old new : GameInfo) (ip : Nat) : Except ScanFault (List Notice) := do
  let player ← entry .playerinfo new.playerinfo ip
  match ← findPlayer old player.uniqueIdentifier with
  | none => return [.playerJoined new player]
  | some before =>
    return if player.ingameName.toList.takeWhile (· != 0) ≠ before.ingameName.toList.takeWhile (· != 0)
      then [.playerChangedNick new before player] else []

def gameChange (w : WindowControls) (ig : Nat) : Except ScanFault (List Notice) := do
  let old ← entry .gameinfoPrev w.gameinfoPrev ig
  match ← findGame .gameinfo w.gameinfo w.scanCountServers old.uniqueIdentifier with
  | none => return [.gameQuit old]
  | some new => return (← collect (playerLeft old new) old.playerCount) ++
      (← collect (playerCame old new) new.playerCount)

def processEnd (k : KeyValueInfo) (w : WindowControls) : Except ScanFault (Reply WindowControls) := do
  let shown := if k.status = .error ∧ w.iContinueScan then [.messageBox k.errText] else []
  let changes ← collect (gameChange w) w.gameinfoPrevCount
  return ⟨1, k, { w with notices := w.notices ++ shown ++ changes }⟩

namespace WindowControls

/-- The slot of `gameinfo` that a pointer like `scan_game` points to. -/
abbrev game (w : WindowControls) (g : Fin maxServers) : GameInfo := w.gameinfo[g]

def modifyGame (w : WindowControls) (g : Fin maxServers) (f : GameInfo → GameInfo) : WindowControls :=
  { w with gameinfo := w.gameinfo.set g (f w.gameinfo[g]) }

def modifyPlayer (w : WindowControls) (g : Fin maxServers) (p : Fin maxPlayers) (f : PlayerInfo → PlayerInfo) :
    WindowControls :=
  w.modifyGame g fun game => { game with playerinfo := game.playerinfo.set p (f game.playerinfo[p]) }

/-- New server begin. -/
def beginServer (w : WindowControls) (i : Fin maxServers) : WindowControls :=
  { w with
    scanCountServers := w.scanCountServers + 1
    scanCountPlayers := 0
    scanGame := some i }.modifyGame i fun _ => .zero

/-- `none` is data that skips over a server. An index that has wrapped opens no server. -/
def openServer (w : WindowControls) (i : Int) (hi : i < maxServers) : Option WindowControls :=
  if h : i ≥ w.scanCountServers then
    if i ≥ w.scanCountServers + 1 then none else some (w.beginServer ⟨i.toNat, by omega⟩)
  else some w

/-- New player begin, in the game `g`. -/
def beginPlayer (w : WindowControls) (g : Fin maxServers) (j : Fin maxPlayers) : WindowControls :=
  { w with
    scanCountPlayers := w.scanCountPlayers + 1
    scanPlayer := some (g, j) }.modifyPlayer g j fun _ => .zero

def openPlayer (w : WindowControls) (g : Fin maxServers) (j : Int) (hj : j < maxPlayers) :
    Option WindowControls :=
  if h : j ≥ w.scanCountPlayers then
    if j ≥ w.scanCountPlayers + 1 then none else some (w.beginPlayer g ⟨j.toNat, by omega⟩)
  else some w

end WindowControls

def KeyValueInfo.key (k : KeyValueInfo) : List Byte := cstr k.keyStr.toList

def KeyValueInfo.value (k : KeyValueInfo) : List Byte := cstr k.valueStr.toList

def KeyValueInfo.reject (k : KeyValueInfo) (m : Message) (w : WindowControls) : Reply WindowControls :=
  ⟨1, { k with err := some m }, w⟩

def writePlayer (decode : Decoder) (k : KeyValueInfo) (w : WindowControls) : Except ScanFault WindowControls :=
  match playerCase decode k.value (getKeyIdentifier .unknown k.key playerKeyToId) with
  | none => .ok w
  | some f =>
    match w.scanPlayer with
    | none => .error .scanPlayer
    | some (g, p) => .ok (w.modifyPlayer g p f)

def GameInfo.countPlayer (g : GameInfo) : GameInfo := { g with playerCount := g.playerCount + 1 }

def processPlayer (decode : Decoder) (k : KeyValueInfo) (j : Int) (hj : j < maxPlayers) (w : WindowControls) :
    Except ScanFault (Reply WindowControls) :=
  match w.scanGame with
  | none => .ok ⟨1, k, w⟩
  | some g =>
    match w.openPlayer g j hj with
    | none => .ok (k.reject .skippedPlayer w)
    | some w => do
      let w ← writePlayer decode k w
      if k.status = .last then
        return ⟨0, k, w.modifyGame g GameInfo.countPlayer⟩
      return ⟨0, k, w⟩

def writeServer (decode : Decoder) (k : KeyValueInfo) (w : WindowControls) : Except ScanFault WindowControls :=
  match serverCase decode k.value (getKeyIdentifier .unknown k.key serverKeyToId) with
  | none => .ok w
  | some f =>
    match w.scanGame with
    | none => .error .scanGame
    | some g => .ok (w.modifyGame g f)

def serverNotices (w : WindowControls) (game : GameInfo) : Except ScanFault (List Notice) := do
  if game.uniqueIdentifier = 0 then
    return [.row game]
  match ← findGame .gameinfoPrev w.gameinfoPrev w.gameinfoPrevCount game.uniqueIdentifier with
  | none => return [.row game, .gameNew game]
  | some old =>
    if old.playerlimit ≤ old.playerCount ∧ game.playerCount < game.playerlimit then
      return [.row game, .gameOpen game]
    return [.row game]

def GameInfo.nameMods (g : GameInfo) : GameInfo :=
  { g with modName := g.modName.snwprintf (text (toString g.modId[0].toNat)) }

theorem GameInfo.nameMods_playerCount (g : GameInfo) : g.nameMods.playerCount = g.playerCount := by
  simp only [nameMods]

theorem GameInfo.nameMods_gametype (g : GameInfo) : g.nameMods.gametype = g.gametype := by
  simp only [nameMods]

/-- The row can be inserted, but its texts may not exist. -/
def flushServer (w : WindowControls) : Except ScanFault WindowControls :=
  match w.scanGame with
  | none => .error .scanGame
  | some g => do
    let w := w.modifyGame g GameInfo.nameMods
    let _ ← (gameInfoToRow true w.gameinfo[g]).mapError fun _ => .gameType
    let shown ← serverNotices w w.gameinfo[g]
    return { w with notices := w.notices ++ shown }

def processServer (decode : Decoder) (k : KeyValueInfo) (w : WindowControls) :
    Except ScanFault (Reply WindowControls) := do
  let w ← writeServer decode k w
  if k.status = .last then
    return ⟨0, k, ← flushServer w⟩
  return ⟨0, k, w⟩

def processSessionInfo (decode : Decoder) (k : KeyValueInfo) (w : WindowControls) :
    Except ScanFault (Reply WindowControls) :=
  if k.status = .complete ∨ k.status = .error then processEnd k w
  else if w.iContinueScan = false then .ok ⟨1, k, w⟩
  else if h : k.serverIndex.toInt ≥ maxServers ∨ k.playerIndex.toInt ≥ maxPlayers then
    .ok (k.reject .indexOutOfRange w)
  else
    match w.openServer k.serverIndex.toInt (by omega) with
    | none => .ok (k.reject .skippedServer w)
    | some w =>
      if k.isPlayer then processPlayer decode k k.playerIndex.toInt (by omega) w else processServer decode k w

/-- The window, or how it crashed, and the number of calls so far. -/
structure Session where
  controls : Except ScanFault WindowControls
  calls : Nat

/-- The user cancels in front of the calls that `cancels` names. -/
def sessionCallback (decode : Decoder) (cancels : Nat → Bool) : Callback Session := fun k s =>
  match s.controls with
  | .error _ => ⟨1, k, s⟩
  | .ok w =>
    let w := if cancels s.calls then { w with iContinueScan := false } else w
    match processSessionInfo decode k w with
    | .ok r => ⟨r.code, r.kvi, ⟨.ok r.data, s.calls + 1⟩⟩
    | .error f => ⟨1, k, ⟨.error f, s.calls + 1⟩⟩

inductive Source
  | file (opened : Except Nat (List Read))
  | http (connection : Except ConnectError (List Read))

def Source.scan (cb : Callback Session) (garbage : KeyValueInfo) (data : Session) :
    Source → Except Fault (Int × World Session)
  | file opened => scanFile cb garbage data opened
  | http connection => scanHttp cb garbage data connection

structure ScanRun where
  source : Source
  garbage : KeyValueInfo
  cancels : Nat → Bool

def ScanRun.ofFile (bytes : List Byte) : ScanRun := ⟨.file (.ok [.data bytes]), .zero, fun _ => false⟩

def WindowControls.beginScan (w : WindowControls) : WindowControls := { w with iContinueScan := true }

def WindowControls.prepare (w : WindowControls) : WindowControls :=
  { w with
    gameinfoPrev := w.gameinfo
    gameinfoPrevCount := w.scanCountServers
    scanCountServers := 0
    scanCountPlayers := 0 }

def scanThread (decode : Decoder) (r : ScanRun) (w : WindowControls) : Except Fault (Int × World Session) :=
  r.source.scan (sessionCallback decode r.cancels) r.garbage ⟨.ok w.prepare, 0⟩

/-- Every call of a sequence of scans. A scan that ends in a fault of `parse_data` is the last one. -/
def callsOf (decode : Decoder) (w : WindowControls) : List ScanRun → List (Call Session)
  | [] => []
  | r :: rs =>
    match scanThread decode r w.beginScan with
    | .error _ => []
    | .ok (_, v) => v.calls ++ match v.data.controls with
      | .ok w => callsOf decode w rs
      | .error _ => []

end BzccScanner
