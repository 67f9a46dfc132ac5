import BzccScanner.ItemOrder
import BzccScanner.SessionInfo

/-! What holds of the window after every call of every scan, whatever the
bytes and wherever the user cancels, as long as no index wraps around. -/

namespace BzccScanner

open CString

structure Counters where
  servers : Nat
  players : Nat
  deriving DecidableEq, Repr

/-- The counters behind a member of the server `i`, with player index `j`, unless it is refused. -/
def Counters.advance (c : Counters) (isPlayer : Bool) (i j : Nat) : Option Counters :=
  if maxServers ≤ i ∨ maxPlayers ≤ j ∨ c.servers < i then none
  else
    let c := if i = c.servers then ⟨i + 1, 0⟩ else c
    if isPlayer = false then some c
    else if c.players < j then none
    else some ⟨c.servers, j + 1⟩

/-- The counters behind a member that is refused, which may still have begun its server. -/
def Counters.refuse (c : Counters) (i j : Nat) : Counters :=
  if maxServers ≤ i ∨ maxPlayers ≤ j ∨ i ≠ c.servers then c else ⟨i + 1, 0⟩

theorem Counters.advance_eq_none {c : Counters} {isPlayer : Bool} {i j : Nat}
    (h : maxServers ≤ i ∨ maxPlayers ≤ j ∨ c.servers < i) : c.advance isPlayer i j = none := by
  rw [advance, if_pos h]

theorem Counters.advance_eq {c d : Counters} {i j : Nat} (isPlayer : Bool) (hi : i < maxServers)
    (hj : j < maxPlayers) (hle : i ≤ c.servers) (hd : d = if i = c.servers then ⟨i + 1, 0⟩ else c) :
    c.advance isPlayer i j =
      if isPlayer = true ∧ d.players < j then none
      else some (if isPlayer then ⟨d.servers, j + 1⟩ else d) := by
  subst hd
  rw [advance, if_neg (by omega)]
  cases isPlayer <;> simp

/-- The `int`s that the member is told with are its indices, or are refused by the tests of the range. -/
def Item.Indexed (k : Item) : Prop :=
  (k.serverIndex < 2 ^ 31 ∧ k.playerIndex < 2 ^ 31) ∨ (Int32.ofNat k.serverIndex).toInt ≥ maxServers ∨
    (Int32.ofNat k.playerIndex).toInt ≥ maxPlayers

instance : DecidablePred Item.Indexed := fun _ => inferInstanceAs (Decidable (_ ∨ _))

def WindowControls.counters (w : WindowControls) : Counters := ⟨w.scanCountServers, w.scanCountPlayers⟩

structure WindowControls.Sound (w : WindowControls) : Prop where
  servers_le : w.scanCountServers ≤ maxServers
  players_le : w.scanCountPlayers ≤ maxPlayers
  game : 0 < w.scanCountServers → ∃ g, w.scanGame = some g ∧ g.val + 1 = w.scanCountServers
  player : 0 < w.scanCountPlayers →
    ∃ g p, w.scanGame = some g ∧ w.scanPlayer = some (g, p) ∧ p.val + 1 = w.scanCountPlayers
  counted : ∀ i (_ : i < maxServers), i < w.scanCountServers → w.gameinfo[i].playerCount ≤ maxPlayers
  current : ∀ i (_ : i < maxServers), i + 1 = w.scanCountServers → w.gameinfo[i].playerCount ≤ w.scanCountPlayers
  prev_le : w.gameinfoPrevCount ≤ maxServers
  prev_counted : ∀ i (_ : i < maxServers), i < w.gameinfoPrevCount → w.gameinfoPrev[i].playerCount ≤ maxPlayers

def WindowControls.Synced (w : WindowControls) : Option Item → Prop
  | none => w.scanCountServers = 0 ∧ w.scanCountPlayers = 0
  | some k => w.scanCountServers = k.serverIndex + 1 ∧ w.scanCountPlayers ≤ k.floor + 1 ∧
      ∀ i (_ : i < maxServers), i = k.serverIndex → w.gameinfo[i].playerCount ≤ k.floor

structure WindowControls.Opened (w : WindowControls) (i : Fin maxServers) (j : Nat) : Prop where
  sound : w.Sound
  game : w.scanGame = some i
  servers : w.scanCountServers = i.val + 1
  players : w.scanCountPlayers ≤ j + 1
  counted : w.gameinfo[i].playerCount ≤ j

/-- Of the games, nothing but slot `i` may differ. -/
structure WindowControls.Within (i : Nat) (w v : WindowControls) : Prop where
  continues : v.iContinueScan = w.iContinueScan
  prev : v.gameinfoPrev = w.gameinfoPrev
  prev_count : v.gameinfoPrevCount = w.gameinfoPrevCount
  others : ∀ n (_ : n < maxServers), n ≠ i → v.gameinfo[n] = w.gameinfo[n]

def GameInfo.Within (j : Fin maxPlayers) (g h : GameInfo) : Prop :=
  ∃ p n, h = { g with playerinfo := g.playerinfo.set j p j.isLt, playerCount := n }

theorem GameInfo.Within.trans {j : Fin maxPlayers} {g h k : GameInfo} (hg : g.Within j h) (hh : h.Within j k) :
    g.Within j k := by
  obtain ⟨p, n, rfl⟩ := hg
  obtain ⟨q, m, rfl⟩ := hh
  exact ⟨q, m, by simp⟩

theorem GameInfo.within_self (j : Fin maxPlayers) (g : GameInfo) : g.Within j g :=
  ⟨g.playerinfo[j], g.playerCount, by simp⟩

namespace WindowControls

variable {w v u : WindowControls} {g i : Fin maxServers} {j : Nat} {f : GameInfo → GameInfo}

theorem Within.refl (n : Nat) (w : WindowControls) : w.Within n w := ⟨rfl, rfl, rfl, fun _ _ _ => rfl⟩

theorem Within.trans {n : Nat} (hw : w.Within n v) (hv : v.Within n u) : w.Within n u :=
  ⟨hv.continues.trans hw.continues, hv.prev.trans hw.prev, hv.prev_count.trans hw.prev_count,
    fun m hm hne => (hv.others m hm hne).trans (hw.others m hm hne)⟩

theorem modifyGame_getElem (w : WindowControls) (g : Fin maxServers) (f : GameInfo → GameInfo) {n : Nat}
    (hn : n < maxServers) :
    (w.modifyGame g f).gameinfo[n] = if g.val = n then f w.gameinfo[n] else w.gameinfo[n] := by
  rw [modifyGame, Vector.getElem_set]
  split_ifs with h
  · subst h
    rfl
  · rfl

theorem modifyGame_same (w : WindowControls) (g : Fin maxServers) (f : GameInfo → GameInfo) :
    (w.modifyGame g f).game g = f (w.game g) := by
  simp [modifyGame_getElem]

theorem Within.of_set {x : GameInfo} (hc : v.iContinueScan = w.iContinueScan)
    (hp : v.gameinfoPrev = w.gameinfoPrev) (hn : v.gameinfoPrevCount = w.gameinfoPrevCount)
    (hg : v.gameinfo = w.gameinfo.set g x) : w.Within g v := by
  refine ⟨hc, hp, hn, ?_⟩
  intro n hlt hne
  simp only [hg]
  exact Vector.getElem_set_ne g.isLt hlt (Ne.symm hne)

theorem within_modifyGame (w : WindowControls) (g : Fin maxServers) (f : GameInfo → GameInfo) :
    w.Within g (w.modifyGame g f) := .of_set rfl rfl rfl rfl

theorem Sound.modifyGame (h : w.Sound) (hf : ∀ game, (f game).playerCount = game.playerCount) :
    (w.modifyGame g f).Sound := by
  have hc : ∀ n (hn : n < maxServers),
      (w.modifyGame g f).gameinfo[n].playerCount = w.gameinfo[n].playerCount := by
    intro n hn
    rw [modifyGame_getElem]
    split_ifs
    · exact hf _
    · rfl
  exact { h with
    counted := fun n hn hlt => (hc n hn).trans_le (h.counted n hn hlt)
    current := fun n hn he => (hc n hn).trans_le (h.current n hn he) }

theorem Opened.modifyGame (h : w.Opened i j) (hf : ∀ game, (f game).playerCount = game.playerCount) :
    (w.modifyGame g f).Opened i j := by
  refine ⟨h.sound.modifyGame hf, h.game, h.servers, h.players, ?_⟩
  have := h.counted
  simp only [Fin.getElem_fin, modifyGame_getElem] at this ⊢
  split_ifs
  · rwa [hf]
  · exact this

theorem Sound.withNotices (h : w.Sound) (shown : List Notice) : { w with notices := shown }.Sound :=
  ⟨h.servers_le, h.players_le, h.game, h.player, h.counted, h.current, h.prev_le, h.prev_counted⟩

theorem Opened.withNotices (h : w.Opened i j) (shown : List Notice) : { w with notices := shown }.Opened i j :=
  ⟨h.sound.withNotices shown, h.game, h.servers, h.players, h.counted⟩

theorem Sound.prepare (h : w.Sound) : w.beginScan.prepare.Sound where
  servers_le := Nat.zero_le _
  players_le := Nat.zero_le _
  game := fun h => absurd h (Nat.lt_irrefl 0)
  player := fun h => absurd h (Nat.lt_irrefl 0)
  counted := fun _ _ h => absurd h (Nat.not_lt_zero _)
  current := fun _ _ h => absurd h (Nat.succ_ne_zero _)
  prev_le := h.servers_le
  prev_counted := h.counted

theorem zero_sound : WindowControls.zero.Sound := by
  constructor <;> simp [WindowControls.zero]

theorem Sound.beginServer (h : w.Sound) (hi : w.scanCountServers = i.val) (j : Nat) :
    (w.beginServer i).Opened i j := by
  refine ⟨⟨?_, Nat.zero_le _, ?_, ?_, ?_, ?_, h.prev_le, h.prev_counted⟩, rfl, ?_, Nat.zero_le _, ?_⟩
  · show w.scanCountServers + 1 ≤ maxServers
    have := i.isLt
    omega
  · intro _
    exact ⟨i, rfl, congrArg (· + 1) hi.symm⟩
  · intro hp
    exact absurd hp (Nat.lt_irrefl 0)
  · intro n hn hlt
    rw [WindowControls.beginServer, modifyGame_getElem]
    split_ifs with hni
    · exact Nat.zero_le _
    · have hlt : n < w.scanCountServers + 1 := hlt
      exact h.counted n hn (by omega)
  · intro n hn he
    have he : n + 1 = w.scanCountServers + 1 := he
    rw [WindowControls.beginServer, modifyGame_getElem, if_pos (by omega)]
    exact Nat.zero_le _
  · exact congrArg (· + 1) hi
  · show ((w.beginServer i).game i).playerCount ≤ j
    rw [WindowControls.beginServer, modifyGame_same]
    exact Nat.zero_le _

/-- The server that an index in range opens. -/
def openSlot (w : WindowControls) (i : Fin maxServers) : Option WindowControls :=
  if i.val ≥ w.scanCountServers then
    if i.val ≥ w.scanCountServers + 1 then none else some (w.beginServer i)
  else some w

theorem openServer_val (hi : (i.val : Int) < maxServers) : w.openServer i.val hi = w.openSlot i := by
  rw [openServer, openSlot]
  by_cases hge : i.val ≥ w.scanCountServers
  · rw [dif_pos (Int.ofNat_le.mpr hge), if_pos hge]
    by_cases hskip : i.val ≥ w.scanCountServers + 1
    · rw [if_pos (by omega), if_pos hskip]
    · rw [if_neg (by omega), if_neg hskip]
      rfl
  · rw [dif_neg (by omega), if_neg hge]

/-- The player that an index in range opens. -/
def openPlayerSlot (w : WindowControls) (g : Fin maxServers) (j : Fin maxPlayers) : Option WindowControls :=
  if j.val ≥ w.scanCountPlayers then
    if j.val ≥ w.scanCountPlayers + 1 then none else some (w.beginPlayer g j)
  else some w

theorem openPlayer_val {j : Fin maxPlayers} (hj : (j.val : Int) < maxPlayers) :
    w.openPlayer g j.val hj = w.openPlayerSlot g j := by
  rw [openPlayer, openPlayerSlot]
  by_cases hge : j.val ≥ w.scanCountPlayers
  · rw [dif_pos (Int.ofNat_le.mpr hge), if_pos hge]
    by_cases hskip : j.val ≥ w.scanCountPlayers + 1
    · rw [if_pos (by omega), if_pos hskip]
    · rw [if_neg (by omega), if_neg hskip]
      rfl
  · rw [dif_neg (by omega), if_neg hge]

theorem openSlot_spec {last : Option Item} {k : Item} (h : w.Sound) (hs : w.Synced last)
    (ho : ∀ l ∈ last, l.Precedes k) (hi : i.val = k.serverIndex) :
    (w.scanCountServers < i.val ∧ w.openSlot i = none) ∨
    (i.val ≤ w.scanCountServers ∧ ∃ v, w.openSlot i = some v ∧ v.Opened i k.playerIndex ∧ w.Within i v ∧
      v.counters = (if i.val = w.scanCountServers then ⟨i.val + 1, 0⟩ else w.counters) ∧
      v.game i = if i.val < w.scanCountServers then w.game i else .zero) := by
  rcases Nat.lt_trichotomy w.scanCountServers i.val with hlt | heq | hgt
  · refine .inl ⟨hlt, ?_⟩
    rw [openSlot, if_pos (by omega), if_pos (by omega)]
  · refine .inr ⟨by omega, w.beginServer i, ?_, h.beginServer heq _, .of_set rfl rfl rfl rfl, ?_, ?_⟩
    · rw [openSlot, if_pos (by omega), if_neg (by omega)]
    · rw [if_pos heq.symm, ← heq]
      rfl
    · rw [if_neg (by omega)]
      exact modifyGame_same _ _ _
  · refine .inr ⟨by omega, w, ?_, ?_, .refl _ _, by rw [if_neg (by omega)], by rw [if_pos hgt]⟩
    · rw [openSlot, if_neg (by omega)]
    · cases last with
      | none => exact absurd hs.1 (by omega)
      | some l =>
        obtain ⟨hsv, hpl, hct⟩ := hs
        have hle := ho l rfl
        simp only [Item.Precedes] at hle
        obtain ⟨g, hg, hgv⟩ := h.game (by omega)
        obtain rfl : i = g := Fin.ext (by omega)
        refine ⟨h, hg, by omega, by omega, ?_⟩
        have := hct i.val i.isLt (by omega)
        simp only [Fin.getElem_fin]
        omega

theorem Opened.beginPlayer {j : Fin maxPlayers} (h : w.Opened i j) (hj : w.scanCountPlayers = j.val) :
    (w.beginPlayer i j).Opened i j := by
  have hc : ∀ n (hn : n < maxServers),
      (w.beginPlayer i j).gameinfo[n].playerCount = w.gameinfo[n].playerCount := by
    intro n hn
    rw [WindowControls.beginPlayer, modifyPlayer, modifyGame_getElem]
    split_ifs <;> rfl
  have hj' : (w.beginPlayer i j).scanCountPlayers = j.val + 1 := congrArg (· + 1) hj
  refine ⟨⟨h.sound.servers_le, ?_, h.sound.game, ?_, ?_, ?_, h.sound.prev_le, h.sound.prev_counted⟩,
    h.game, h.servers, Nat.le_of_eq hj', (hc i.val i.isLt).trans_le h.counted⟩
  · rw [hj']
    exact j.isLt
  · intro _
    exact ⟨i, j, h.game, rfl, hj'.symm⟩
  · intro n hn hlt
    exact (hc n hn).trans_le (h.sound.counted n hn hlt)
  · intro n hn he
    have := h.sound.current n hn he
    rw [hc n hn, hj']
    omega

theorem Opened.openPlayer {j : Fin maxPlayers} (h : w.Opened i j) :
    (w.scanCountPlayers < j.val ∧ w.openPlayerSlot i j = none) ∨
    ∃ v, w.openPlayerSlot i j = some v ∧ v.Opened i j ∧ v.scanPlayer = some (i, j) ∧
    v.scanCountPlayers = j.val + 1 ∧
      (w.scanCountPlayers = j.val ∨ w.scanCountPlayers = j.val + 1) ∧
      w.Within i v ∧ (w.game i).Within j (v.game i) := by
  have hpl := h.players
  rcases Nat.lt_trichotomy w.scanCountPlayers j.val with hlt | heq | hgt
  · refine .inl ⟨hlt, ?_⟩
    rw [openPlayerSlot, if_pos (by omega), if_pos (by omega)]
  · refine .inr ⟨w.beginPlayer i j, by rw [openPlayerSlot, if_pos (by omega), if_neg (by omega)], ?_, rfl,
      congrArg (· + 1) heq, .inl heq, .of_set rfl rfl rfl rfl, ?_⟩
    · exact h.beginPlayer heq
    · rw [WindowControls.beginPlayer, modifyPlayer, modifyGame_same]
      exact ⟨.zero, _, rfl⟩
  · have heq : w.scanCountPlayers = j.val + 1 := by omega
    refine .inr ⟨w, by rw [openPlayerSlot, if_neg (by omega)], h, ?_, heq, .inr heq, .refl _ _,
      GameInfo.within_self _ _⟩
    obtain ⟨g, p, hg, hp, hv⟩ := h.sound.player (by omega)
    obtain rfl : i = g := Option.some.inj (h.game.symm.trans hg)
    obtain rfl : p = j := Fin.ext (by omega)
    exact hp

structure Filled (w v : WindowControls) (i : Fin maxServers) (j : Fin maxPlayers) : Prop where
  opened : v.Opened i j
  within : w.Within i v
  player : (w.game i).Within j (v.game i)
  counted : v.scanCountPlayers = w.scanCountPlayers

theorem writePlayer_spec (decode : Decoder) (k : KeyValueInfo) {j : Fin maxPlayers} (h : w.Opened i j)
    (hp : w.scanPlayer = some (i, j)) : ∃ v, writePlayer decode k w = .ok v ∧ w.Filled v i j := by
  rw [writePlayer]
  cases playerCase decode k.value (getKeyIdentifier .unknown k.key playerKeyToId) with
  | none => exact ⟨w, rfl, h, .refl _ _, GameInfo.within_self _ _, rfl⟩
  | some f =>
    rw [hp]
    refine ⟨w.modifyPlayer i j f, rfl, h.modifyGame fun _ => rfl, within_modifyGame _ _ _, ?_, rfl⟩
    rw [modifyPlayer, modifyGame_same]
    exact ⟨_, _, rfl⟩

theorem Opened.count (h : w.Opened i j) (hc : w.scanCountPlayers = j + 1) :
    (w.modifyGame i GameInfo.countPlayer).Sound ∧
      (w.modifyGame i GameInfo.countPlayer).gameinfo[i].playerCount ≤ j + 1 := by
  have hj := h.counted
  have hle : j + 1 ≤ maxPlayers := hc ▸ h.sound.players_le
  refine ⟨{ h.sound with counted := ?_, current := ?_ }, ?_⟩
  · intro n hn hlt
    have := h.sound.counted n hn hlt
    rw [modifyGame_getElem]
    split_ifs with hi
    · subst hi
      exact Nat.le_trans (Nat.succ_le_succ hj) hle
    · exact this
  · intro n hn he
    have := h.sound.current n hn he
    rw [modifyGame_getElem]
    split_ifs with hi
    · subst hi
      exact Nat.le_trans (Nat.succ_le_succ hj) (Nat.le_of_eq hc.symm)
    · exact this
  · show ((w.modifyGame i GameInfo.countPlayer).game i).playerCount ≤ j + 1
    rw [modifyGame_same]
    exact Nat.succ_le_succ hj

end WindowControls

section calls

variable (decode : Decoder) (e : KeyValueInfo) {w : WindowControls} {i : Fin maxServers}
    {last : Option Item} {k : Item}

theorem processPlayer_spec {j : Fin maxPlayers} (hj' : (j.val : Int) < maxPlayers) (h : w.Opened i j)
    (hk : k.serverIndex = i.val) (hj : k.playerIndex = j.val) (hd : k.depth = 5) :
    (w.scanCountPlayers < j.val ∧
      processPlayer decode (k.kvi e) j.val hj' w = .ok ((k.kvi e).reject .skippedPlayer w)) ∨
    ∃ v, processPlayer decode (k.kvi e) j.val hj' w = .ok ⟨0, k.kvi e, v⟩ ∧ v.Sound ∧ v.Synced (some k) ∧
      (w.scanCountPlayers = j.val ∨ w.scanCountPlayers = j.val + 1) ∧ v.scanCountPlayers = j.val + 1 ∧
      w.Within i v ∧ (w.game i).Within j (v.game i) := by
  rw [processPlayer, h.game]
  simp only [WindowControls.openPlayer_val]
  rcases h.openPlayer with ⟨hlt, hn⟩ | ⟨v, hv, ho, hp, hc, hor, hw, hg⟩
  · exact .inl ⟨hlt, by simp only [hn]⟩
  · obtain ⟨u, hu, hf⟩ := WindowControls.writePlayer_spec decode (k.kvi e) ho hp
    have hcu : u.scanCountPlayers = j.val + 1 := hf.counted.trans hc
    refine .inr ?_
    simp only [hv, hu, bind, Except.bind, pure, Except.pure]
    by_cases hs : k.status = .last
    · have hfl : k.floor = j.val + 1 := by rw [Item.floor, if_pos ⟨hd, hs⟩, hj]
      obtain ⟨hsound, hle⟩ := hf.opened.count hcu
      refine ⟨u.modifyGame i GameInfo.countPlayer, by simp [Item.kvi, hs],
        hsound, ⟨hf.opened.servers.trans (by rw [hk]), ?_, ?_⟩, hor, hcu,
        (hw.trans hf.within).trans (WindowControls.within_modifyGame _ _ _), (hg.trans hf.player).trans ?_⟩
      · rw [hfl]
        exact Nat.le_trans (Nat.le_of_eq hcu) (Nat.le_succ _)
      · intro n hn he
        obtain rfl : n = i.val := he.trans hk
        rw [hfl]
        exact hle
      · show (u.game i).Within j ((u.modifyGame i GameInfo.countPlayer).game i)
        rw [WindowControls.modifyGame_same]
        exact ⟨u.gameinfo[i].playerinfo[j], u.gameinfo[i].playerCount + 1, by simp [GameInfo.countPlayer]⟩
    · refine ⟨u, by simp [Item.kvi, hs], hf.opened.sound,
        ⟨hf.opened.servers.trans (by rw [hk]), ?_, ?_⟩, hor, hcu, hw.trans hf.within, hg.trans hf.player⟩
      · rw [hcu, ← hj]
        have := k.playerIndex_le_floor
        omega
      · intro n hn he
        have := hf.opened.counted
        obtain rfl : n = i.val := he.trans hk
        apply Nat.le_trans this
        rw [← hj]
        exact k.playerIndex_le_floor

theorem writeServer_spec (h : w.Opened i k.playerIndex) : ∃ v, writeServer decode (k.kvi e) w = .ok v ∧
    v.Opened i k.playerIndex ∧ v.scanCountPlayers = w.scanCountPlayers ∧ w.Within i v := by
  rw [writeServer]
  cases hf : serverCase decode (k.kvi e).value (getKeyIdentifier .unknown (k.kvi e).key serverKeyToId) with
  | none => exact ⟨w, rfl, h, rfl, .refl _ _⟩
  | some f =>
    rw [h.game]
    exact ⟨_, rfl, h.modifyGame (serverCase_playerCount hf), rfl, WindowControls.within_modifyGame _ _ _⟩

theorem serverNotices_ok (h : w.gameinfoPrevCount ≤ maxServers) (game : GameInfo) :
    ∃ r, serverNotices w game = .ok r := by
  rw [serverNotices, findGame, findEntry_eq .gameinfoPrev w.gameinfoPrev _ (by omega)]
  by_cases hu : game.uniqueIdentifier = 0
  · exact ⟨_, by rw [if_pos hu]; rfl⟩
  · cases ((w.gameinfoPrev.toList.drop 0).take w.gameinfoPrevCount).find?
      (fun g => g.uniqueIdentifier == game.uniqueIdentifier) with
    | none => exact ⟨_, by rw [if_neg hu]; rfl⟩
    | some old =>
      by_cases ho : old.playerlimit ≤ old.playerCount ∧ game.playerCount < game.playerlimit
      · exact ⟨[.row game, .gameOpen game], by simp [hu, ho, bind, Except.bind, pure, Except.pure]⟩
      · exact ⟨[.row game], by simp [hu, ho, bind, Except.bind, pure, Except.pure]⟩

/-- The flush shows the game, or crashes over its type. -/
theorem flushServer_spec {j : Nat} (h : w.Opened i j) :
    (∃ v, flushServer w = .ok v ∧ v.Opened i j ∧ v.scanCountPlayers = w.scanCountPlayers ∧ w.Within i v) ∨
    (¬ ListedType (w.game i).gametype ∧ flushServer w = .error .gameType) := by
  have ho : (w.modifyGame i GameInfo.nameMods).Opened i j := h.modifyGame GameInfo.nameMods_playerCount
  obtain ⟨shown, hs⟩ := serverNotices_ok (w := w.modifyGame i GameInfo.nameMods) ho.sound.prev_le
    ((w.modifyGame i GameInfo.nameMods).game i)
  have htype : ((w.modifyGame i GameInfo.nameMods).game i).gametype = (w.game i).gametype :=
    (congrArg GameInfo.gametype (WindowControls.modifyGame_same w i _)).trans (GameInfo.nameMods_gametype _)
  rcases gameInfoToRow_cases ((w.modifyGame i GameInfo.nameMods).game i) with ⟨-, row, hr⟩ | ⟨hl, hr⟩
  · have hf : flushServer w = .ok { w.modifyGame i GameInfo.nameMods with notices := w.notices ++ shown } := by
      simp only [flushServer, h.game, hr, hs, bind, Except.bind, Except.mapError]
      rfl
    exact .inl ⟨_, hf, ho.withNotices _, rfl, .of_set rfl rfl rfl rfl⟩
  · refine .inr ⟨htype ▸ hl, ?_⟩
    simp only [flushServer, h.game, hr, bind, Except.bind, Except.mapError]

theorem processServer_spec (h : w.Opened i k.playerIndex) (hk : k.serverIndex = i.val) (hd : k.depth ≠ 5) :
    (∃ v, processServer decode (k.kvi e) w = .ok ⟨0, k.kvi e, v⟩ ∧ v.Sound ∧ v.Synced (some k) ∧
      v.scanCountPlayers = w.scanCountPlayers ∧ w.Within i v) ∨
    (k.status = .last ∧ processServer decode (k.kvi e) w = .error .gameType ∧
      ∃ u, writeServer decode (k.kvi e) w = .ok u ∧ ¬ ListedType (u.game i).gametype) := by
  obtain ⟨v, hv, ho, hc, hw⟩ := writeServer_spec decode e h
  have hfl : k.floor = k.playerIndex := by simp [Item.floor, hd]
  have hsynced : ∀ u : WindowControls, u.Opened i k.playerIndex → u.Synced (some k) := by
    intro u hu
    refine ⟨hu.servers.trans (by rw [hk]), hfl ▸ hu.players, ?_⟩
    intro n hn he
    obtain rfl : n = i.val := he.trans hk
    exact hfl ▸ hu.counted
  rw [processServer, hv]
  by_cases hs : k.status = .last
  · rcases flushServer_spec ho with ⟨u, hu, hou, hcu, hwu⟩ | ⟨hl, hu⟩
    · exact .inl ⟨u, by simp [Item.kvi, hs, hu, bind, Except.bind, pure, Except.pure], hou.sound, hsynced u hou,
        hcu.trans hc, hw.trans hwu⟩
    · exact .inr ⟨hs, by simp [Item.kvi, hs, hu, bind, Except.bind], v, rfl, hl⟩
  · exact .inl ⟨v, by simp [Item.kvi, hs, bind, Except.bind, pure, Except.pure], ho.sound, hsynced v ho, hc, hw⟩

end calls

/-- An accepted member only changes the game in its slot, and a player's
member only its player and the number of players of a game that is not new. -/
def Stores (k : KeyValueInfo) (w v : WindowControls) : Prop :=
  ∃ i : Fin maxServers, k.serverIndex.toInt = i.val ∧ w.Within i v ∧
    (k.isPlayer = true → ∃ j : Fin maxPlayers, k.playerIndex.toInt = j.val ∧
      (if i.val < w.scanCountServers then w.game i else .zero).Within j (v.game i))

section items

variable (decode : Decoder) (e : KeyValueInfo) {w v : WindowControls} {last : Option Item} {k : Item}

theorem processMember_spec {i : Fin maxServers} {j : Fin maxPlayers} (hj' : (j.val : Int) < maxPlayers)
    (h : w.Opened i k.playerIndex) (hi : k.serverIndex = i.val) (hj : k.playerIndex = j.val) :
    (∃ r, (if (k.kvi e).isPlayer then processPlayer decode (k.kvi e) j.val hj' w
        else processServer decode (k.kvi e) w) = .ok r ∧ r.data.Sound ∧ w.Within i r.data ∧
      if k.depth = 5 ∧ w.scanCountPlayers < j.val then r.code = 1 ∧ r.data.counters = w.counters
      else r.code = 0 ∧ r.data.Synced (some k) ∧ r.data.counters =
          (if k.depth = 5 then ⟨w.scanCountServers, j.val + 1⟩ else w.counters) ∧
        (k.depth = 5 → (w.game i).Within j (r.data.game i))) ∨
    (k.depth ≠ 5 ∧ k.status = .last ∧ (if (k.kvi e).isPlayer then processPlayer decode (k.kvi e) j.val hj' w
        else processServer decode (k.kvi e) w) = .error .gameType ∧
      ∃ u, writeServer decode (k.kvi e) w = .ok u ∧ ¬ ListedType (u.game i).gametype) := by
  by_cases hd : k.depth = 5
  · have hp : (k.kvi e).isPlayer = true := by simp [Item.kvi, hd]
    rw [if_pos hp]
    rcases processPlayer_spec decode e hj' (hj ▸ h) hi hj hd with ⟨hlt, hr⟩ | ⟨v, hv, hs, hy, hor, hc, hw, hg⟩
    · exact .inl ⟨_, hr, h.sound, .refl _ _, by rw [if_pos ⟨hd, hlt⟩]; exact ⟨rfl, rfl⟩⟩
    · refine .inl ⟨_, hv, hs, hw, ?_⟩
      rw [if_neg (by omega), if_pos hd]
      have hsv : v.scanCountServers = w.scanCountServers := hy.1.trans (by rw [h.servers, hi])
      exact ⟨rfl, hy, by rw [WindowControls.counters, hsv, hc], fun _ => hg⟩
  · have hp : ¬ (k.kvi e).isPlayer = true := by simp [Item.kvi, hd]
    rw [if_neg hp]
    rcases processServer_spec decode e h hi hd with ⟨v, hv, hs, hy, hc, hw⟩ | ⟨hl, hr, hu⟩
    · refine .inl ⟨_, hv, hs, hw, ?_⟩
      rw [if_neg (by simp [hd]), if_neg hd]
      have hsv : v.scanCountServers = w.scanCountServers := hy.1.trans (by rw [h.servers, hi])
      exact ⟨rfl, hy, by rw [WindowControls.counters, WindowControls.counters, hsv, hc], fun h => absurd h hd⟩
    · exact .inr ⟨hd, hl, hr, hu⟩

/-- The two tests of the range let an index pass that has not wrapped, or refuse the member. -/
theorem Item.Indexed.cases (hk : k.Indexed) :
    ((k.kvi e).serverIndex.toInt ≥ maxServers ∨ (k.kvi e).playerIndex.toInt ≥ maxPlayers) ∧
      (maxServers ≤ k.serverIndex ∨ maxPlayers ≤ k.playerIndex) ∨
    ∃ (i : Fin maxServers) (j : Fin maxPlayers), k.serverIndex = i.val ∧ k.playerIndex = j.val ∧
      (k.kvi e).serverIndex.toInt = i.val ∧ (k.kvi e).playerIndex.toInt = j.val := by
  by_cases hrange : maxServers ≤ k.serverIndex ∨ maxPlayers ≤ k.playerIndex
  · refine .inl ⟨?_, hrange⟩
    rcases hk with ⟨hs, hp⟩ | hk
    · have hserver : (k.kvi e).serverIndex.toInt = k.serverIndex := Int32.toInt_ofNat_of_lt hs
      have hplayer : (k.kvi e).playerIndex.toInt = k.playerIndex := Int32.toInt_ofNat_of_lt hp
      omega
    · exact hk
  · have hservers : maxServers = 128 := rfl
    have hplayers : maxPlayers = 16 := rfl
    refine .inr ⟨⟨k.serverIndex, by omega⟩, ⟨k.playerIndex, by omega⟩, rfl, rfl, ?_, ?_⟩
    · exact Int32.toInt_ofNat_of_lt (by omega)
    · exact Int32.toInt_ofNat_of_lt (by omega)

theorem processSessionInfo_outOfRange {decode : Decoder} {k : KeyValueInfo}
    (hk : ¬ (k.status = .complete ∨ k.status = .error)) (hc : w.iContinueScan = true)
    (h : k.serverIndex.toInt ≥ maxServers ∨ k.playerIndex.toInt ≥ maxPlayers) :
    processSessionInfo decode k w = .ok (k.reject .indexOutOfRange w) := by
  rw [processSessionInfo, if_neg hk, if_neg (by simp [hc]), dif_pos h]

section slots

variable {k : KeyValueInfo} {i : Fin maxServers} {j : Fin maxPlayers}

theorem processSessionInfo_skipped {decode : Decoder} (hk : ¬ (k.status = .complete ∨ k.status = .error))
    (hc : w.iContinueScan = true) (hi : k.serverIndex.toInt = i.val) (hj : k.playerIndex.toInt = j.val)
    (ho : w.openSlot i = none) : processSessionInfo decode k w = .ok (k.reject .skippedServer w) := by
  have hopen : w.openServer k.serverIndex.toInt (by omega) = none := by
    simp only [hi, WindowControls.openServer_val, ho]
  rw [processSessionInfo, if_neg hk, if_neg (by simp [hc]), dif_neg (by omega)]
  simp only [hopen]

theorem processSessionInfo_opened (decode : Decoder) (hk : ¬ (k.status = .complete ∨ k.status = .error))
    (hc : w.iContinueScan = true) (hi : k.serverIndex.toInt = i.val) (hj : k.playerIndex.toInt = j.val)
    (ho : w.openSlot i = some v) : processSessionInfo decode k w =
      if k.isPlayer then processPlayer decode k j.val (by omega) v else processServer decode k v := by
  have hopen : w.openServer k.serverIndex.toInt (by omega) = some v := by
    simp only [hi, WindowControls.openServer_val, ho]
  rw [processSessionInfo, if_neg hk, if_neg (by simp [hc]), dif_neg (by omega)]
  simp only [hopen, hj]

end slots

/-- The call shows a row that has no text for the type of the game. -/
structure Item.Crashes (decode : Decoder) (e : KeyValueInfo) (k : Item) (w : WindowControls) : Prop where
  crash : processSessionInfo decode (k.kvi e) w = .error .gameType
  server : k.depth ≠ 5
  last : k.status = .last
  game : ∃ (i : Fin maxServers) (v u : WindowControls), k.serverIndex = i.val ∧ w.openSlot i = some v ∧
    v.Opened i k.playerIndex ∧ writeServer decode (k.kvi e) v = .ok u ∧ ¬ ListedType (u.game i).gametype
  counters : ∃ c, w.counters.advance (k.depth == 5) k.serverIndex k.playerIndex = some c

/-- A call for an item refines a step of the counters. -/
theorem processItem_spec (h : w.Sound) (hs : w.Synced last) (ho : ∀ l ∈ last, l.Precedes k)
    (hst : k.status ≠ .complete ∧ k.status ≠ .error) (hc : w.iContinueScan = true) (hk : k.Indexed) :
    (∃ r, processSessionInfo decode (k.kvi e) w = .ok r ∧ r.data.Sound ∧ r.data.iContinueScan = true ∧
      w.Within k.serverIndex r.data ∧
      match w.counters.advance (k.depth == 5) k.serverIndex k.playerIndex with
      | none => r.code = 1 ∧ r.data.counters = w.counters.refuse k.serverIndex k.playerIndex
      | some c => r.code = 0 ∧ r.data.Synced (some k) ∧ r.data.counters = c ∧ Stores (k.kvi e) w r.data) ∨
    k.Crashes decode e w := by
  have hnt : ¬ ((k.kvi e).status = .complete ∨ (k.kvi e).status = .error) := not_or.mpr hst
  rcases hk.cases e with ⟨hout, hrange⟩ | ⟨i, j, hi, hj, hi', hj'⟩
  · refine .inl ⟨_, processSessionInfo_outOfRange hnt hc hout, h, hc, .refl _ _, ?_⟩
    rw [Counters.advance_eq_none (by omega), Counters.refuse, if_pos (by omega)]
    exact ⟨rfl, rfl⟩
  rcases WindowControls.openSlot_spec (i := i) h hs ho hi.symm with ⟨hlt, hn⟩ | ⟨hle, v, hv, hop, hw, hcv, hg⟩
  · have hne : k.serverIndex ≠ w.counters.servers := by
      have hlt : w.counters.servers < i.val := hlt
      omega
    have hadvance : w.counters.servers < k.serverIndex := hi ▸ hlt
    refine .inl ⟨_, processSessionInfo_skipped hnt hc hi' hj' hn, h, hc, .refl _ _, ?_⟩
    rw [Counters.advance_eq_none (.inr (.inr hadvance)), Counters.refuse, if_pos (.inr (.inr hne))]
    exact ⟨rfl, rfl⟩
  have hadvance := Counters.advance_eq (k.depth == 5) (i := k.serverIndex) (j := k.playerIndex)
    (by omega) (by omega)
    (hi ▸ hle : k.serverIndex ≤ w.counters.servers) (hi ▸ hcv)
  have hmember := processSessionInfo_opened decode hnt hc hi' hj' hv
  rcases processMember_spec decode e (by omega) hop hi hj with ⟨r, hr, hsound, hwr, hcode⟩ |
    ⟨hd, hl, hr, u, hu, htype⟩
  · refine .inl ⟨r, hmember.trans hr, hsound, (hw.trans hwr).continues.trans hc, hi ▸ hw.trans hwr, ?_⟩
    rw [hadvance]
    by_cases hskip : k.depth = 5 ∧ v.scanCountPlayers < j.val
    · rw [if_pos hskip] at hcode
      rw [if_pos (by simpa [WindowControls.counters, hj] using hskip)]
      refine ⟨hcode.1, hcode.2.trans (hcv.trans ?_)⟩
      have hr : ¬ (maxServers ≤ k.serverIndex ∨ maxPlayers ≤ k.playerIndex) := by omega
      rw [Counters.refuse, hi]
      by_cases hb : i.val = w.scanCountServers
      · rw [if_pos hb, if_neg (by simp only [WindowControls.counters]; omega)]
      · rw [if_neg hb, if_pos (.inr (.inr hb))]
    · rw [if_neg hskip] at hcode
      obtain ⟨hr0, hy, hcr, hgr⟩ := hcode
      rw [if_neg (by simpa [WindowControls.counters, hj] using hskip)]
      refine ⟨hr0, hy, ?_, i, hi', hw.trans hwr, ?_⟩
      · rw [hcr]
        by_cases hd : k.depth = 5 <;> simp [hd, WindowControls.counters, hj]
      · intro hp
        have hd : k.depth = 5 := by simpa [Item.kvi] using hp
        have hgr := hgr hd
        rw [hg] at hgr
        exact ⟨j, hj', hgr⟩
  · refine .inr ⟨hmember.trans hr, hd, hl, ⟨i, v, u, hi, hv, hop, hu, htype⟩, _, hadvance.trans (if_neg ?_)⟩
    simp [hd]

end items

end BzccScanner
