import BzccScanner.CounterRun

/-! What a scan leaves in a game: the members accepted for it, applied in order
to a record of zeros. Nothing of an earlier scan is left, because a server and
its players begin in zeroed slots. -/

namespace BzccScanner

open CString

/-- The slot of a server. An index that has wrapped stands for no slot. -/
def Report.server (k : Report) : Nat := k.serverIndex.toUInt32.toNat

def Report.player (k : Report) : Nat := k.playerIndex.toUInt32.toNat

theorem toUInt32_toNat {n : Nat} (h : n < 2 ^ 32) : (Int32.ofNat n).toUInt32.toNat = n := by
  rw [Int32.toUInt32_ofNat', UInt32.toNat_ofNat', Nat.mod_eq_of_lt h]

theorem Item.report_server {k : Item} (h : k.serverIndex < maxServers) : k.report.server = k.serverIndex :=
  toUInt32_toNat (h.trans (by decide))

theorem Item.report_player {k : Item} (h : k.playerIndex < maxPlayers) : k.report.player = k.playerIndex :=
  toUInt32_toNat (h.trans (by decide))

namespace GameInfo

def writePlayer (decode : Decoder) (k : Report) (j : Fin maxPlayers) (g : GameInfo) : GameInfo :=
  match playerCase decode k.value (getKeyIdentifier .unknown k.key playerKeyToId) with
  | none => g
  | some f => { g with playerinfo := g.playerinfo.set j (f (g.playerinfo.get j)) j.isLt }

def writeServer (decode : Decoder) (k : Report) (g : GameInfo) : GameInfo :=
  match serverCase decode k.value (getKeyIdentifier .unknown k.key serverKeyToId) with
  | none => g
  | some f => f g

def receivePlayer (decode : Decoder) (k : Report) (j : Fin maxPlayers) (g : GameInfo) : GameInfo :=
  if k.status = .last then (g.writePlayer decode k j).countPlayer else g.writePlayer decode k j

def receiveServer (decode : Decoder) (k : Report) (g : GameInfo) : GameInfo :=
  if k.status = .last then (g.writeServer decode k).nameMods else g.writeServer decode k

def receive (decode : Decoder) (g : GameInfo) (k : Report) : GameInfo :=
  if k.isPlayer then
    if h : k.player < maxPlayers then g.receivePlayer decode k ⟨k.player, h⟩ else g
  else g.receiveServer decode k

end GameInfo

def gameOf (decode : Decoder) (i : Nat) (ks : List Report) : GameInfo :=
  (ks.filter fun k => k.server == i).foldl (GameInfo.receive decode) .zero

variable {decode : Decoder} {ks : List Report} {k : Report} {i : Nat}

theorem gameOf_append_same (h : k.server = i) :
    gameOf decode i (ks ++ [k]) = (gameOf decode i ks).receive decode k := by
  simp [gameOf, List.filter_append, h]

theorem gameOf_append_other (h : k.server ≠ i) : gameOf decode i (ks ++ [k]) = gameOf decode i ks := by
  simp [gameOf, List.filter_append, h]

theorem gameOf_unbegun (h : ∀ k ∈ ks, k.server ≠ i) : gameOf decode i ks = .zero := by
  rw [gameOf, List.filter_eq_nil_iff.mpr (by simpa using h)]
  rfl

/-- The games hold what the accepted members say, and nothing else. -/
structure WindowControls.Holds (decode : Decoder) (w : WindowControls) (ks : List Report) : Prop where
  games : ∀ i (_ : i < maxServers), i < w.scanCountServers → w.gameinfo[i] = gameOf decode i ks
  begun : ∀ k ∈ ks, k.server < w.scanCountServers
  fresh : ∀ i (_ : i < maxServers) j (_ : j < maxPlayers), i + 1 = w.scanCountServers → w.scanCountPlayers ≤ j →
    w.gameinfo[i].playerinfo[j] = .zero

namespace WindowControls

variable {w v : WindowControls} {i : Fin maxServers}

theorem prepare_holds (decode : Decoder) (w : WindowControls) : w.beginScan.prepare.Holds decode [] :=
  ⟨fun _ _ h => absurd h (Nat.not_lt_zero _), by simp, fun _ _ _ _ h => absurd h (Nat.succ_ne_zero _)⟩

theorem Holds.beginServer (h : w.Holds decode ks) (hi : w.scanCountServers = i.val) :
    (w.beginServer i).Holds decode ks := by
  have hc : (w.beginServer i).scanCountServers = i.val + 1 := congrArg (· + 1) hi
  refine ⟨?_, ?_, ?_⟩
  · intro n hn hlt
    rw [WindowControls.beginServer, modifyGame_getElem]
    split_ifs with hni
    · refine (gameOf_unbegun fun k hk => ?_).symm
      have := h.begun k hk
      omega
    · exact h.games n hn (by omega)
  · intro k hk
    have := h.begun k hk
    omega
  · intro n hn j hj he _
    rw [WindowControls.beginServer, modifyGame_getElem, if_pos (by omega)]
    simp [GameInfo.zero]

theorem Holds.openSlot (h : w.Holds decode ks) (hv : w.openSlot i = some v) : v.Holds decode ks := by
  rw [WindowControls.openSlot] at hv
  split_ifs at hv with hge hskip
  · obtain rfl := Option.some.inj hv
    exact h.beginServer (by omega)
  · obtain rfl := Option.some.inj hv
    exact h

theorem Holds.accept (h : w.Holds decode ks) (hw : w.Within i v) (hs : w.scanCountServers = i.val + 1)
    (hsv : v.scanCountServers = i.val + 1) (hk : k.server = i.val)
    (hg : v.gameinfo[i] = w.gameinfo[i].receive decode k)
    (hf : ∀ j (_ : j < maxPlayers), v.scanCountPlayers ≤ j →
      v.gameinfo[i].playerinfo[j] = w.gameinfo[i].playerinfo[j] ∧ w.scanCountPlayers ≤ j) :
    v.Holds decode (ks ++ [k]) := by
  refine ⟨?_, ?_, ?_⟩
  · intro n hn hlt
    by_cases hni : n = i.val
    · subst hni
      rw [gameOf_append_same hk, ← h.games i.val hn (by omega)]
      exact hg
    · rw [gameOf_append_other (by omega), hw.others n hn hni]
      exact h.games n hn (by omega)
  · intro l hl
    rcases List.mem_append.mp hl with hl | hl
    · have := h.begun l hl
      omega
    · obtain rfl := List.mem_singleton.mp hl
      omega
  · intro n hn j hj he hle
    obtain rfl : n = i.val := by omega
    obtain ⟨hsame, hle'⟩ := hf j hj hle
    exact hsame.trans (h.fresh i.val hn j hj hs.symm hle')

end WindowControls

section members

variable {w v : WindowControls} {i : Fin maxServers} {j : Fin maxPlayers} {k : KeyValueInfo}
    {r : Reply WindowControls}

theorem openPlayerSlot_content (h : w.openPlayerSlot i j = some v)
    (hz : w.scanCountPlayers ≤ j.val → (w.game i).playerinfo.get j = .zero) :
    v.game i = w.game i ∧ v.notices = w.notices ∧ v.scanGame = w.scanGame := by
  rw [WindowControls.openPlayerSlot] at h
  split_ifs at h with hge hskip
  · obtain rfl := Option.some.inj h
    refine ⟨?_, rfl, rfl⟩
    have hsame : w.gameinfo[i].playerinfo.set j .zero = w.gameinfo[i].playerinfo := by
      rw [← hz hge]
      exact Vector.set_getElem_self _
    rw [WindowControls.beginPlayer, WindowControls.modifyPlayer, WindowControls.modifyGame_same]
    simp only [hsame]
  · obtain rfl := Option.some.inj h
    exact ⟨rfl, rfl, rfl⟩

theorem writePlayer_content (decode : Decoder) (k : KeyValueInfo) (hp : w.scanPlayer = some (i, j)) :
    ∃ v, writePlayer decode k w = .ok v ∧ v.game i = (w.game i).writePlayer decode k.report j ∧
      v.notices = w.notices ∧ v.scanGame = w.scanGame := by
  have hkey : k.report.key = k.key := rfl
  have hvalue : k.report.value = k.value := rfl
  rw [writePlayer, GameInfo.writePlayer, hkey, hvalue]
  cases playerCase decode k.value (getKeyIdentifier .unknown k.key playerKeyToId) with
  | none => exact ⟨w, rfl, rfl, rfl, rfl⟩
  | some f =>
    rw [hp]
    exact ⟨w.modifyPlayer i j f, rfl, WindowControls.modifyGame_same _ _ _, rfl, rfl⟩

theorem processPlayer_content (hj : (j.val : Int) < maxPlayers) (h : w.Opened i j)
    (hr : processPlayer decode k j.val hj w = .ok r)
    (hz : w.scanCountPlayers ≤ j.val → (w.game i).playerinfo.get j = .zero) :
    r.data.notices = w.notices ∧ r.data.scanGame = some i ∧
      r.data.game i = if r.code = 0 then (w.game i).receivePlayer decode k.report j else w.game i := by
  rw [processPlayer, h.game] at hr
  simp only [WindowControls.openPlayer_val] at hr
  rcases h.openPlayer with ⟨-, hn⟩ | ⟨v, hv, ho, hp, -⟩
  · simp only [hn] at hr
    obtain rfl := Except.ok.inj hr
    exact ⟨rfl, h.game, rfl⟩
  · obtain ⟨hg, hnotices, -⟩ := openPlayerSlot_content hv hz
    obtain ⟨u, hu, hgu, hnu, hsu⟩ := writePlayer_content decode k hp
    have hlast : k.report.status = k.status := rfl
    simp only [hv, hu, bind, Except.bind, pure, Except.pure] at hr
    rw [GameInfo.receivePlayer, hlast, ← hg, ← hgu]
    by_cases hs : k.status = .last
    · rw [if_pos hs] at hr
      obtain rfl := Except.ok.inj hr
      rw [if_pos rfl, if_pos hs]
      exact ⟨hnu.trans hnotices, hsu.trans ho.game, WindowControls.modifyGame_same _ _ _⟩
    · rw [if_neg hs] at hr
      obtain rfl := Except.ok.inj hr
      rw [if_pos rfl, if_neg hs]
      exact ⟨hnu.trans hnotices, hsu.trans ho.game, rfl⟩

theorem writeServer_content (decode : Decoder) (k : KeyValueInfo) (hg : w.scanGame = some i) :
    ∃ v, writeServer decode k w = .ok v ∧ v.game i = (w.game i).writeServer decode k.report ∧
      v.notices = w.notices ∧ v.scanGame = some i ∧ v.gameinfoPrev = w.gameinfoPrev ∧
        v.gameinfoPrevCount = w.gameinfoPrevCount := by
  have hkey : k.report.key = k.key := rfl
  have hvalue : k.report.value = k.value := rfl
  rw [writeServer, GameInfo.writeServer, hkey, hvalue]
  cases serverCase decode k.value (getKeyIdentifier .unknown k.key serverKeyToId) with
  | none => exact ⟨w, rfl, rfl, rfl, hg, rfl, rfl⟩
  | some f =>
    rw [hg]
    exact ⟨w.modifyGame i f, rfl, WindowControls.modifyGame_same _ _ _, rfl, hg, rfl, rfl⟩

def Notice.isRow : Notice → Bool
  | row _ => true
  | _ => false

/-- What may be shown behind a row: a game is new if it has an identifier that is not in the earlier list. -/
def Notice.IsNews (w : WindowControls) : Notice → Prop
  | gameNew game => game.uniqueIdentifier ≠ 0 ∧
    findGame .gameinfoPrev w.gameinfoPrev w.gameinfoPrevCount game.uniqueIdentifier = .ok none
  | gameOpen _ => True
  | _ => False

theorem Notice.IsNews.not_row {m : Notice} (h : m.IsNews w) : m.isRow = false := by
  cases m <;> first | rfl | cases h

theorem Notice.IsNews.of_previous {m : Notice} (h : m.IsNews v) (hp : v.gameinfoPrev = w.gameinfoPrev)
    (hc : v.gameinfoPrevCount = w.gameinfoPrevCount) : m.IsNews w := by
  cases m <;> first | exact h | simpa only [IsNews, hp, hc] using h

theorem serverNotices_row {game : GameInfo} {shown : List Notice} (h : serverNotices w game = .ok shown) :
    ∃ more, shown = .row game :: more ∧ ∀ m ∈ more, m.IsNews w := by
  rw [serverNotices] at h
  by_cases hu : game.uniqueIdentifier = 0
  · rw [if_pos hu] at h
    exact ⟨[], (Except.ok.inj h).symm, by simp⟩
  · rw [if_neg hu] at h
    obtain ⟨old, hold, h⟩ := bind_eq_ok.mp h
    cases old with
    | none =>
      refine ⟨[.gameNew game], (Except.ok.inj h).symm, fun m hm => ?_⟩
      rw [List.mem_singleton.mp hm]
      exact ⟨hu, hold⟩
    | some old =>
      dsimp only at h
      split_ifs at h
      · refine ⟨[.gameOpen game], (Except.ok.inj h).symm, fun m hm => ?_⟩
        rw [List.mem_singleton.mp hm]
        trivial
      · exact ⟨[], (Except.ok.inj h).symm, by simp⟩

theorem listed_of_row {g : GameInfo} {row : Option (List (List TChar))}
    (h : (gameInfoToRow true g).mapError (fun _ => ScanFault.gameType) = .ok row) : ListedType g.gametype := by
  rcases gameInfoToRow_cases g with ⟨hl, -⟩ | ⟨-, he⟩
  · exact hl
  · simp [he, Except.mapError] at h

theorem flushServer_content (hg : w.scanGame = some i) (h : flushServer w = .ok v) :
    v.game i = (w.game i).nameMods ∧ v.scanGame = some i ∧ ListedType (v.game i).gametype ∧
      ∃ more, v.notices = w.notices ++ .row (v.game i) :: more ∧ ∀ m ∈ more, m.IsNews w := by
  rw [flushServer, hg] at h
  obtain ⟨row, hrow, h⟩ := bind_eq_ok.mp h
  obtain ⟨shown, hs, h⟩ := bind_eq_ok.mp h
  obtain ⟨more, rfl, hmore⟩ := serverNotices_row hs
  obtain rfl := Except.ok.inj h
  exact ⟨WindowControls.modifyGame_same _ _ _, hg, listed_of_row hrow, more, rfl,
    fun m hm => (hmore m hm).of_previous rfl rfl⟩

theorem processServer_content (hg : w.scanGame = some i) (hr : processServer decode k w = .ok r) :
    r.code = 0 ∧ r.data.game i = (w.game i).receiveServer decode k.report ∧ r.data.scanGame = some i ∧
      if k.status = .last then ListedType (r.data.game i).gametype ∧
        ∃ more, r.data.notices = w.notices ++ .row (r.data.game i) :: more ∧ ∀ m ∈ more, m.IsNews w
      else r.data.notices = w.notices := by
  obtain ⟨u, hu, hgu, hnu, hsu, hprev, hcount⟩ := writeServer_content decode k hg
  have hlast : k.report.status = k.status := rfl
  simp only [processServer, hu, bind, Except.bind, pure, Except.pure] at hr
  rw [GameInfo.receiveServer, hlast, ← hgu]
  by_cases hs : k.status = .last
  · rw [if_pos hs] at hr
    cases hf : flushServer u with
    | error f => simp [hf] at hr
    | ok v =>
      simp only [hf] at hr
      obtain rfl := Except.ok.inj hr
      obtain ⟨hgv, hsv, hl, more, hn, hmore⟩ := flushServer_content hsu hf
      rw [if_pos hs, if_pos hs]
      exact ⟨rfl, hgv, hsv, hl, more, hnu ▸ hn, fun m hm => (hmore m hm).of_previous hprev hcount⟩
  · rw [if_neg hs] at hr
    obtain rfl := Except.ok.inj hr
    rw [if_neg hs, if_neg hs]
    exact ⟨rfl, rfl, hsu, hnu⟩

theorem openSlot_notices (h : w.openSlot i = some v) :
    v.notices = w.notices ∧ v.gameinfoPrev = w.gameinfoPrev ∧ v.gameinfoPrevCount = w.gameinfoPrevCount := by
  rw [WindowControls.openSlot] at h
  split_ifs at h <;> obtain rfl := Option.some.inj h <;> exact ⟨rfl, rfl, rfl⟩

theorem serverCase_playerinfo {value : List Byte} {key : ServerKey} {f : GameInfo → GameInfo}
    (h : serverCase decode value key = some f) (g : GameInfo) : (f g).playerinfo = g.playerinfo := by
  cases key <;> simp only [serverCase, Option.some.injEq, reduceCtorEq] at h <;> subst h <;> rfl

theorem GameInfo.nameMods_playerinfo (g : GameInfo) : g.nameMods.playerinfo = g.playerinfo := by
  simp only [nameMods]

theorem receiveServer_playerinfo (decode : Decoder) (k : Report) (g : GameInfo) :
    (g.receiveServer decode k).playerinfo = g.playerinfo := by
  have hw : (g.writeServer decode k).playerinfo = g.playerinfo := by
    rw [GameInfo.writeServer]
    cases hf : serverCase decode k.value (getKeyIdentifier .unknown k.key serverKeyToId) with
    | none => rfl
    | some f => exact serverCase_playerinfo hf g
  rw [GameInfo.receiveServer]
  split_ifs
  · exact (GameInfo.nameMods_playerinfo _).trans hw
  · exact hw

theorem GameInfo.receive_player {g : GameInfo} {k : Report} (hp : k.isPlayer = true) (hj : k.player = j.val) :
    g.receive decode k = g.receivePlayer decode k j := by
  obtain ⟨j, hlt⟩ := j
  subst hj
  rw [receive, if_pos hp, dif_pos hlt]

theorem GameInfo.receive_server {g : GameInfo} {k : Report} (hp : k.isPlayer = false) :
    g.receive decode k = g.receiveServer decode k := by
  rw [receive, if_neg (by simp [hp])]

/-- A server's last member shows one row, for the slot of the server. No other member shows anything. -/
structure ShowsRow (k : Item) (w : WindowControls) (r : Reply WindowControls) : Prop where
  row : (r.code = 0 ∧ k.depth ≠ 5 ∧ k.status = .last) → ∃ i : Fin maxServers, i.val = k.serverIndex ∧
    r.data.scanGame = some i ∧ ListedType (r.data.game i).gametype ∧
    ∃ more, r.data.notices = w.notices ++ .row (r.data.game i) :: more ∧ ∀ m ∈ more, m.IsNews w
  silent : ¬ (r.code = 0 ∧ k.depth ≠ 5 ∧ k.status = .last) → r.data.notices = w.notices

/-- The games that are displayed between two windows: `GameInfoToRow` gets `scan_game`. -/
def displayed (w v : WindowControls) : List (Fin maxServers) :=
  ((v.notices.drop w.notices.length).filter Notice.isRow).filterMap fun _ => v.scanGame

theorem displayed_eq_nil {shown : List Notice} (h : v.notices = w.notices ++ shown)
    (hs : ∀ m ∈ shown, m.isRow = false) :
    displayed w v = [] := by
  have hnone : shown.filter Notice.isRow = [] := by simpa using hs
  rw [displayed, h, List.drop_left, hnone]
  rfl

theorem ShowsRow.displayed_of_last {k : Item} {r : Reply WindowControls} (h : ShowsRow k w r)
    (hrow : r.code = 0 ∧ k.depth ≠ 5 ∧ k.status = .last) :
    ∃ i : Fin maxServers, i.val = k.serverIndex ∧ displayed w r.data = [i] := by
  obtain ⟨i, hi, hg, -, more, hn, hmore⟩ := h.row hrow
  have hnone : more.filter Notice.isRow = [] := by
    rw [List.filter_eq_nil_iff]
    intro m hm
    simp [(hmore m hm).not_row]
  refine ⟨i, hi, ?_⟩
  rw [BzccScanner.displayed, hn, List.drop_left, List.filter_cons_of_pos rfl, hnone, hg]
  rfl

theorem ShowsRow.displayed_of_silent {k : Item} {r : Reply WindowControls} (h : ShowsRow k w r)
    (hrow : ¬ (r.code = 0 ∧ k.depth ≠ 5 ∧ k.status = .last)) : displayed w r.data = [] := by
  have hsilent : r.data.notices = w.notices ++ [] := by rw [h.silent hrow, List.append_nil]
  exact displayed_eq_nil hsilent (by simp)

theorem ShowsRow.displayed_eq_nil_iff {k : Item} {r : Reply WindowControls} (h : ShowsRow k w r)
    (h0 : r.code = 0) :
    BzccScanner.displayed w r.data = [] ↔ ¬ (k.depth ≠ 5 ∧ k.status = .last) := by
  by_cases hrow : k.depth ≠ 5 ∧ k.status = .last
  · obtain ⟨i, -, hi⟩ := h.displayed_of_last ⟨h0, hrow⟩
    simp [hi, hrow]
  · exact iff_of_true (h.displayed_of_silent fun hlast => hrow hlast.2) hrow

theorem ShowsRow.displayed {k : Item} {r : Reply WindowControls} (h : ShowsRow k w r) : displayed w r.data = [] ∨
    k.depth ≠ 5 ∧ k.status = .last ∧ ∃ i : Fin maxServers, i.val = k.serverIndex ∧ displayed w r.data = [i] := by
  by_cases hrow : r.code = 0 ∧ k.depth ≠ 5 ∧ k.status = .last
  · exact .inr ⟨hrow.2.1, hrow.2.2, h.displayed_of_last hrow⟩
  · exact .inl (h.displayed_of_silent hrow)

structure Received (decode : Decoder) (ks : List Report) (k : Item) (w : WindowControls)
    (r : Reply WindowControls) :
    Prop where
  holds : r.data.Holds decode (if r.code = 0 then ks ++ [k.report] else ks)
  shows : ShowsRow k w r

variable {last : Option Item} {m : Item} {e : KeyValueInfo}

theorem processPlayer_received (hj' : (j.val : Int) < maxPlayers) (h : w.Opened i m.playerIndex)
    (hh : w.Holds decode ks) (hi : m.serverIndex = i.val) (hj : m.playerIndex = j.val) (hd : m.depth = 5)
    (hr : processPlayer decode (m.kvi e) j.val hj' w = .ok r) :
    Received decode ks m w r := by
  have hk : m.report.isPlayer = true := by simp [Item.report, Item.kvi, KeyValueInfo.report, hd]
  have hserver : m.report.server = i.val := (m.report_server (hi ▸ i.isLt)).trans hi
  have hplayer : m.report.player = j.val := (m.report_player (hj ▸ j.isLt)).trans hj
  obtain ⟨hn, -, hg⟩ := processPlayer_content hj' (hj ▸ h) hr fun hle =>
    hh.fresh i.val i.isLt j.val j.isLt h.servers.symm hle
  refine ⟨?_, fun hrow => absurd hd hrow.2.1, fun _ => hn⟩
  rcases processPlayer_spec decode e hj' (hj ▸ h) hi hj hd with ⟨-, hv⟩ | ⟨v, hv, -, hsync, -, hc, hw, hp⟩
  · obtain rfl := Except.ok.inj (hv.symm.trans hr)
    exact hh
  · obtain rfl := Except.ok.inj (hv.symm.trans hr)
    refine hh.accept hw h.servers (hsync.1.trans (by rw [hi])) hserver ?_ ?_
    · rw [GameInfo.receive_player hk hplayer]
      exact hg
    · intro n hn hle
      obtain ⟨p, c, he⟩ := hp
      have hle' : j.val + 1 ≤ n := hc ▸ hle
      have := h.players
      refine ⟨?_, by omega⟩
      show (v.game i).playerinfo[n] = (w.game i).playerinfo[n]
      rw [he]
      exact Vector.getElem_set_ne j.isLt hn (by omega)

theorem processServer_received (h : w.Opened i m.playerIndex) (hh : w.Holds decode ks)
    (hi : m.serverIndex = i.val) (hd : m.depth ≠ 5) (hr : processServer decode (m.kvi e) w = .ok r) :
    Received decode ks m w r := by
  have hk : m.report.isPlayer = false := by simp [Item.report, Item.kvi, KeyValueInfo.report, hd]
  obtain ⟨hcode, hg, hs, hrow⟩ := processServer_content h.game hr
  have hlast : (m.kvi e).status = m.status := rfl
  have hserver : m.report.server = i.val := (m.report_server (hi ▸ i.isLt)).trans hi
  rw [hlast] at hrow
  rcases processServer_spec decode e h hi hd with ⟨v, hv, -, hsync, hc, hw⟩ | ⟨-, he, -⟩
  swap
  · cases he.symm.trans hr
  obtain rfl := Except.ok.inj (hv.symm.trans hr)
  refine ⟨?_, ?_, ?_⟩
  · refine hh.accept hw h.servers (hsync.1.trans (by rw [hi])) hserver ?_ ?_
    · rw [GameInfo.receive_server hk]
      exact hg
    · intro n hn hle
      have hp : v.gameinfo[i].playerinfo = w.gameinfo[i].playerinfo :=
        (congrArg GameInfo.playerinfo hg).trans (receiveServer_playerinfo _ _ _)
      exact ⟨by rw [hp], hc ▸ hle⟩
  · rintro ⟨-, -, hl⟩
    rw [if_pos hl] at hrow
    exact ⟨i, hi.symm, hs, hrow⟩
  · intro hn
    rwa [if_neg fun hl => hn ⟨rfl, hd, hl⟩] at hrow

theorem processItem_received (h : w.Sound) (hs : w.Synced last) (ho : ∀ l ∈ last, l.Precedes m)
    (hst : m.status ≠ .complete ∧ m.status ≠ .error) (hc : w.iContinueScan = true) (hm : m.Indexed)
    (hh : w.Holds decode ks) (hr : processSessionInfo decode (m.kvi e) w = .ok r) : Received decode ks m w r := by
  have hnt : ¬ ((m.kvi e).status = .complete ∨ (m.kvi e).status = .error) := not_or.mpr hst
  have hrefused : ∀ t, r = (m.kvi e).reject t w → Received decode ks m w r := by
    rintro t rfl
    exact ⟨hh, fun hrow => absurd hrow.1 (by simp [KeyValueInfo.reject]), fun _ => rfl⟩
  rcases hm.cases e with ⟨hout, -⟩ | ⟨i, j, hi, hj, hi', hj'⟩
  · exact hrefused _ (Except.ok.inj (hr.symm.trans (processSessionInfo_outOfRange hnt hc hout)))
  rcases WindowControls.openSlot_spec (i := i) h hs ho hi.symm with ⟨-, hn⟩ | ⟨-, v, hopen, hv, -⟩
  · exact hrefused _ (Except.ok.inj (hr.symm.trans (processSessionInfo_skipped hnt hc hi' hj' hn)))
  have hhv := hh.openSlot hopen
  have hm := (processSessionInfo_opened decode hnt hc hi' hj' hopen).symm.trans hr
  have hrec : Received decode ks m v r := by
    by_cases hd : m.depth = 5
    · rw [if_pos (by simp [Item.kvi, hd])] at hm
      exact processPlayer_received _ hv hhv hi hj hd hm
    · rw [if_neg (by simp [Item.kvi, hd])] at hm
      exact processServer_received hv hhv hi hd hm
  obtain ⟨hn, hprev, hcount⟩ := openSlot_notices hopen
  refine ⟨hrec.holds, ?_, hn ▸ hrec.shows.silent⟩
  intro hrow
  obtain ⟨n, hni, hg, hl, more, hmore, hnews⟩ := hrec.shows.row hrow
  exact ⟨n, hni, hg, hl, more, hn ▸ hmore, fun l hl => (hnews l hl).of_previous hprev hcount⟩

end members

end BzccScanner
