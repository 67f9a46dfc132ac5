import BzccScanner.KeyedLists
import BzccScanner.StoreInvariant
import Mathlib.Data.List.Induction

/-! The comparison at the end of a scan, on the lists of games and players that
the arrays hold. -/

namespace BzccScanner

open CString Keyed

variable {α : Type} {n : Nat}

theorem collect_eq {f : Nat → Except ScanFault (List Notice)} {g : α → List Notice} (xs : List α)
    (h : ∀ i (hi : i < xs.length), f i = .ok (g xs[i])) : collect f xs.length = .ok (xs.flatMap g) := by
  induction xs using List.reverseRecOn with
  | nil => rfl
  | append_singleton xs x ih =>
    have hlast := h xs.length (by simp)
    rw [List.getElem_concat_length rfl] at hlast
    rw [List.length_append, List.length_singleton, collect, hlast, ih, List.flatMap_append,
      List.flatMap_singleton]
    · rfl
    · intro i hi
      have hx := h i (by simp; omega)
      rwa [List.getElem_append_left hi] at hx

def counted (xs : Vector α n) (count : Nat) : List α := xs.toList.take count

theorem counted_length {xs : Vector α n} {count : Nat} (h : count ≤ n) : (counted xs count).length = count := by
  rw [counted, List.length_take, Vector.length_toList, Nat.min_eq_left h]

theorem entry_counted (f : ScanFault) (xs : Vector α n) {count i : Nat} (h : i < (counted xs count).length) :
    entry f xs i = .ok (counted xs count)[i] := by
  have hi : i < n := by simp [counted] at h; omega
  rw [entry_eq f xs hi]
  simp [counted]

def GameInfo.players (g : GameInfo) : List PlayerInfo := counted g.playerinfo g.playerCount

def WindowControls.previous (w : WindowControls) : List GameInfo := counted w.gameinfoPrev w.gameinfoPrevCount

def WindowControls.current (w : WindowControls) : List GameInfo := counted w.gameinfo w.scanCountServers

structure WindowControls.Bounded (w : WindowControls) : Prop where
  previous_le : w.gameinfoPrevCount ≤ maxServers
  current_le : w.scanCountServers ≤ maxServers
  previous_players : ∀ g ∈ w.previous, g.playerCount ≤ maxPlayers
  current_players : ∀ g ∈ w.current, g.playerCount ≤ maxPlayers

theorem mem_counted {xs : Vector α n} {count : Nat} {x : α} :
    x ∈ counted xs count ↔ ∃ i, ∃ h : i < n, i < count ∧ xs[i] = x := by
  rw [counted, List.mem_take_iff_getElem]
  simp only [Vector.length_toList, Vector.getElem_toList, Nat.lt_min]
  exact ⟨fun ⟨i, h, e⟩ => ⟨i, h.2, h.1, e⟩, fun ⟨i, h, hc, e⟩ => ⟨i, ⟨hc, h⟩, e⟩⟩

theorem WindowControls.Sound.bounded {w : WindowControls} (h : w.Sound) : w.Bounded := by
  refine ⟨h.prev_le, h.servers_le, ?_, ?_⟩
  · intro g hg
    obtain ⟨i, hi, hlt, rfl⟩ := mem_counted.mp hg
    exact h.prev_counted i hi hlt
  · intro g hg
    obtain ⟨i, hi, hlt, rfl⟩ := mem_counted.mp hg
    exact h.counted i hi hlt

theorem findGame_eq (f : ScanFault) {games : Vector GameInfo maxServers} {count : Nat} (h : count ≤ maxServers)
    (uniqueIdentifier : UInt32) : findGame f games count uniqueIdentifier =
      .ok (lookup GameInfo.uniqueIdentifier (counted games count) uniqueIdentifier) :=
  findEntry_eq f games _ (by omega)

theorem findPlayer_eq {g : GameInfo} (h : g.playerCount ≤ maxPlayers) (uniqueIdentifier : UInt32) :
    findPlayer g uniqueIdentifier = .ok (lookup PlayerInfo.uniqueIdentifier g.players uniqueIdentifier) :=
  findEntry_eq .playerinfo g.playerinfo _ (by omega)

def PlayerInfo.nick (p : PlayerInfo) : List TChar := p.ingameName.toList.takeWhile (· != 0)

def renamed (new : GameInfo) (player before : PlayerInfo) : List Notice :=
  if player.nick ≠ before.nick then [.playerChangedNick new before player] else []

def playerChanges (old new : GameInfo) : List Notice :=
  old.players.flatMap
      (comparison PlayerInfo.uniqueIdentifier new.players (fun p => [.playerQuit new p]) fun _ _ => []) ++
    new.players.flatMap
      (comparison PlayerInfo.uniqueIdentifier old.players (fun p => [.playerJoined new p]) (renamed new))

def gameChanges (w : WindowControls) : List Notice :=
  w.previous.flatMap (comparison GameInfo.uniqueIdentifier w.current (fun old => [.gameQuit old]) playerChanges)

section changes

variable {old new : GameInfo} {w : WindowControls}

theorem playerLeft_eq (hn : new.playerCount ≤ maxPlayers) {ip : Nat} (h : ip < old.players.length) :
    playerLeft old new ip = .ok (comparison PlayerInfo.uniqueIdentifier new.players (fun p => [.playerQuit new p])
      (fun _ _ => []) old.players[ip]) := by
  rw [playerLeft, entry_counted _ _ h]
  simp only [findPlayer_eq hn, bind, Except.bind, GameInfo.players, comparison]
  cases lookup PlayerInfo.uniqueIdentifier _ _ <;> rfl

theorem playerCame_eq (ho : old.playerCount ≤ maxPlayers) {ip : Nat} (h : ip < new.players.length) :
    playerCame old new ip =
      .ok (comparison PlayerInfo.uniqueIdentifier old.players (fun p => [.playerJoined new p])
      (renamed new) new.players[ip]) := by
  rw [playerCame, entry_counted _ _ h]
  simp only [findPlayer_eq ho, bind, Except.bind, GameInfo.players, comparison]
  cases lookup PlayerInfo.uniqueIdentifier _ _ <;> rfl

theorem playersLeft_eq (ho : old.playerCount ≤ maxPlayers) (hn : new.playerCount ≤ maxPlayers) :
    collect (playerLeft old new) old.playerCount = .ok (old.players.flatMap
      (comparison PlayerInfo.uniqueIdentifier new.players (fun p => [.playerQuit new p]) fun _ _ => [])) := by
  have h := collect_eq old.players fun ip hip => playerLeft_eq hn hip
  rwa [GameInfo.players, counted_length ho] at h

theorem playersCame_eq (ho : old.playerCount ≤ maxPlayers) (hn : new.playerCount ≤ maxPlayers) :
    collect (playerCame old new) new.playerCount = .ok (new.players.flatMap
      (comparison PlayerInfo.uniqueIdentifier old.players (fun p => [.playerJoined new p]) (renamed new))) := by
  have h := collect_eq new.players fun ip hip => playerCame_eq ho hip
  rwa [GameInfo.players, counted_length hn] at h

theorem gameChange_eq (h : w.Bounded) {ig : Nat} (hig : ig < w.previous.length) :
    gameChange w ig = .ok (comparison GameInfo.uniqueIdentifier w.current
      (fun old => [.gameQuit old]) playerChanges
      w.previous[ig]) := by
  have hold := h.previous_players _ (List.getElem_mem hig)
  have hentry : entry .gameinfoPrev w.gameinfoPrev ig = .ok w.previous[ig] := entry_counted _ _ hig
  have hfind : findGame .gameinfo w.gameinfo w.scanCountServers w.previous[ig].uniqueIdentifier =
      .ok (lookup GameInfo.uniqueIdentifier w.current w.previous[ig].uniqueIdentifier) :=
      findGame_eq _ h.current_le _
  rw [gameChange, hentry]
  simp only [hfind, bind, Except.bind, comparison]
  cases hl : lookup GameInfo.uniqueIdentifier w.current w.previous[ig].uniqueIdentifier with
  | none => rfl
  | some new =>
    have hnew := h.current_players new (lookup_eq_some hl).1
    simp only [playersLeft_eq hold hnew, playersCame_eq hold hnew]
    rfl

theorem processEnd_changes (h : w.Bounded) (k : KeyValueInfo) : processEnd k w = .ok ⟨1, k, { w with
    notices := w.notices ++ (if k.status = .error ∧ w.iContinueScan then [.messageBox k.errText] else []) ++
      gameChanges w }⟩ := by
  have hc := collect_eq w.previous fun ig hig => gameChange_eq h hig
  rw [WindowControls.previous, counted_length h.previous_le] at hc
  rw [processEnd, hc]
  rfl

end changes

end BzccScanner
