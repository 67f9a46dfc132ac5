import BzccScanner.WrappedSlots

/-! Nothing stale and nothing crossed: the games of a scan are decided by its
bytes and by where it is cancelled, and each field is the last value accepted
for it. -/

namespace BzccScanner

open CString

/-- A field that each step either sets, whatever was there, or leaves alone. -/
theorem foldl_last_write {α S V : Type} {f : S → α → S} {get : S → V} {sets : α → Bool} {value : α → V}
    (h : ∀ s a, get (f s a) = if sets a then value a else get s) (as : List α) (s : S) :
    get (as.foldl f s) = (((as.filter sets).getLast?).map value).getD (get s) := by
  induction as generalizing s with
  | nil => rfl
  | cons a as ih =>
    rw [List.foldl_cons, ih, h]
    by_cases ha : sets a = true
    · rw [if_pos ha, List.filter_cons_of_pos ha, List.getLast?_cons]
      cases (as.filter sets).getLast? <;> rfl
    · rw [if_neg ha, List.filter_cons_of_neg ha]

def Report.serverKey (k : Report) : ServerKey := getKeyIdentifier .unknown k.key serverKeyToId

def Report.playerKey (k : Report) : PlayerKey := getKeyIdentifier .unknown k.key playerKeyToId

def lastServerValue (ks : List Report) (i : Nat) (key : ServerKey) : Option (List Byte) :=
  ((ks.filter fun k => !k.isPlayer && k.server == i && k.serverKey == key).getLast?).map Report.value

def lastPlayerValue (ks : List Report) (i j : Nat) (key : PlayerKey) : Option (List Byte) :=
  ((ks.filter fun k => k.isPlayer && k.server == i && k.player == j && k.playerKey == key).getLast?).map
    Report.value

def number (value : Option (List Byte)) : Int := (value.map atoi).getD 0

def identifier (value : Option (List Byte)) : UInt32 := (value.map calcCRC32A).getD 0

def serverNumbers : List (ServerKey × (GameInfo → Int)) :=
  [(.playerlimit, GameInfo.playerlimit), (.tps, GameInfo.tps), (.maxPing, GameInfo.maxPing),
    (.ping, GameInfo.serverPing), (.gametime, GameInfo.gametime), (.gametype, GameInfo.gametype),
    (.timelimit, GameInfo.timelimit), (.killlimit, GameInfo.killlimit)]

def playerNumbers : List (PlayerKey × (PlayerInfo → Int)) :=
  [(.team, PlayerInfo.team), (.kills, PlayerInfo.kills)]

/-- The fields of the game `i` are what the members say last. -/
structure GameInfo.Reflects (g : GameInfo) (ks : List Report) (i : Nat) : Prop where
  numbers : ∀ f ∈ serverNumbers, f.2 g = number (lastServerValue ks i f.1)
  uniqueIdentifier : g.uniqueIdentifier = identifier (lastServerValue ks i .g)
  playerNumbers : ∀ f ∈ playerNumbers, ∀ j (_ : j < maxPlayers),
    f.2 g.playerinfo[j] = number (lastPlayerValue ks i j f.1)
  playerIdentifiers : ∀ j (_ : j < maxPlayers),
    g.playerinfo[j].uniqueIdentifier = identifier (lastPlayerValue ks i j .userid)

section fields

variable {V : Type} {decode : Decoder}

structure IsServerField (decode : Decoder) (key : ServerKey) (get : GameInfo → V)
    (read : List Byte → V) : Prop where
  present : ∀ value, (serverCase decode value key).isSome = true
  write : ∀ value other f g, serverCase decode value other = some f →
    get (f g) = if other = key then read value else get g
  count : ∀ g, get (GameInfo.countPlayer g) = get g
  mods : ∀ g, get (GameInfo.nameMods g) = get g
  players : ∀ (g : GameInfo) ps, get { g with playerinfo := ps } = get g

structure IsPlayerField (decode : Decoder) (key : PlayerKey) (get : PlayerInfo → V)
    (read : List Byte → V) : Prop where
  present : ∀ value, (playerCase decode value key).isSome = true
  write : ∀ value other f p, playerCase decode value other = some f →
    get (f p) = if other = key then read value else get p

theorem gameOf_last {get : GameInfo → V} {sets : Report → Bool} {read : List Byte → V}
    (h : ∀ g k, get (g.receive decode k) = if sets k then read k.value else get g) (i : Nat) (ks : List Report) :
    get (gameOf decode i ks) =
      ((((ks.filter fun k => sets k && k.server == i).getLast?).map Report.value).map read).getD (get .zero) := by
  rw [gameOf, @foldl_last_write _ _ _ _ get sets (fun k => read k.value) h, List.filter_filter, Option.map_map]
  rfl

theorem IsServerField.receive {key : ServerKey} {get : GameInfo → V} {read : List Byte → V}
    (h : IsServerField decode key get read) (g : GameInfo) (k : Report) :
    get (g.receive decode k) = if (!k.isPlayer && k.serverKey == key) then read k.value else get g := by
  by_cases hp : k.isPlayer = true
  · have hw : ∀ j, get (g.writePlayer decode k j) = get g := by
      intro j
      rw [GameInfo.writePlayer]
      cases playerCase decode k.value (getKeyIdentifier .unknown k.key playerKeyToId) with
      | none => rfl
      | some f => exact h.players _ _
    rw [GameInfo.receive, if_pos hp, if_neg (by simp [hp])]
    split_ifs with hj
    · rw [GameInfo.receivePlayer]
      split_ifs
      · rw [h.count, hw]
      · exact hw _
    · rfl
  · have hw : get (g.writeServer decode k) = if k.serverKey = key then read k.value else get g := by
      rw [GameInfo.writeServer]
      cases hf : serverCase decode k.value (getKeyIdentifier .unknown k.key serverKeyToId) with
      | none =>
        rw [if_neg]
        rintro rfl
        have := h.present k.value
        rw [Report.serverKey, hf] at this
        cases this
      | some f => exact h.write _ _ _ _ hf
    have hk : (!k.isPlayer && k.serverKey == key) = true ↔ k.serverKey = key := by simp [hp]
    rw [GameInfo.receive_server (by simpa using hp), GameInfo.receiveServer]
    simp only [hk]
    split_ifs at hw ⊢ <;> simp only [h.mods, hw]

theorem GameInfo.receivePlayer_playerinfo (decode : Decoder) (k : Report) (j : Fin maxPlayers) (g : GameInfo) :
    (g.receivePlayer decode k j).playerinfo = (g.writePlayer decode k j).playerinfo := by
  rw [receivePlayer]
  split_ifs <;> rfl

theorem IsPlayerField.receive {key : PlayerKey} {get : PlayerInfo → V} {read : List Byte → V}
    (h : IsPlayerField decode key get read) {j : Nat} (hj : j < maxPlayers) (g : GameInfo) (k : Report) :
    get (g.receive decode k).playerinfo[j] =
      if (k.isPlayer && k.player == j && k.playerKey == key) then read k.value else get g.playerinfo[j] := by
  by_cases hp : k.isPlayer = true
  · by_cases hkj : k.player = j
    · subst hkj
      have hw : get (g.writePlayer decode k ⟨k.player, hj⟩).playerinfo[k.player] =
          if k.playerKey = key then read k.value else get g.playerinfo[k.player] := by
        rw [GameInfo.writePlayer]
        cases hf : playerCase decode k.value (getKeyIdentifier .unknown k.key playerKeyToId) with
        | none =>
          rw [if_neg]
          rintro rfl
          have := h.present k.value
          rw [Report.playerKey, hf] at this
          cases this
        | some f =>
          simp only [Vector.getElem_set_self]
          exact h.write _ _ _ _ hf
      have hk : (k.isPlayer && k.player == k.player && k.playerKey == key) = true ↔ k.playerKey = key := by
        simp [hp]
      rw [GameInfo.receive_player (j := ⟨k.player, hj⟩) hp rfl]
      simp only [GameInfo.receivePlayer_playerinfo, hk, hw]
    · have hw : ∀ n : Fin maxPlayers, n.val ≠ j → (g.writePlayer decode k n).playerinfo[j] = g.playerinfo[j] := by
        intro n hn
        rw [GameInfo.writePlayer]
        cases playerCase decode k.value (getKeyIdentifier .unknown k.key playerKeyToId) with
        | none => rfl
        | some f => exact Vector.getElem_set_ne n.isLt hj hn
      rw [if_neg (by simp [hkj]), GameInfo.receive, if_pos hp]
      split_ifs with hlt
      · simp only [GameInfo.receivePlayer_playerinfo, hw ⟨k.player, hlt⟩ hkj]
      · rfl
  · rw [GameInfo.receive_server (by simpa using hp), receiveServer_playerinfo, if_neg (by simp [hp])]

theorem serverNumbers_field (decode : Decoder) : ∀ f ∈ serverNumbers, IsServerField decode f.1 f.2 atoi := by
  simp only [serverNumbers, List.mem_cons, List.not_mem_nil, or_false]
  rintro f (rfl | rfl | rfl | rfl | rfl | rfl | rfl | rfl)
  all_goals
    refine ⟨fun _ => rfl, ?_, fun _ => rfl, fun g => by simp only [GameInfo.nameMods], fun _ _ => rfl⟩
    intro value other f g hf
    cases other <;> simp only [serverCase, Option.some.injEq, reduceCtorEq] at hf <;> subst hf <;> rfl

theorem uniqueIdentifier_field (decode : Decoder) :
    IsServerField decode .g GameInfo.uniqueIdentifier calcCRC32A := by
  refine ⟨fun _ => rfl, ?_, fun _ => rfl, fun g => by simp only [GameInfo.nameMods], fun _ _ => rfl⟩
  intro value other f g hf
  cases other <;> simp only [serverCase, Option.some.injEq, reduceCtorEq] at hf <;> subst hf <;> rfl

theorem playerNumbers_field (decode : Decoder) : ∀ f ∈ playerNumbers, IsPlayerField decode f.1 f.2 atoi := by
  simp only [playerNumbers, List.mem_cons, List.not_mem_nil, or_false]
  rintro f (rfl | rfl)
  all_goals
    refine ⟨fun _ => rfl, ?_⟩
    intro value other f p hf
    cases other <;> simp only [playerCase, Option.some.injEq, reduceCtorEq] at hf <;> subst hf <;> rfl

theorem playerIdentifier_field (decode : Decoder) :
    IsPlayerField decode .userid PlayerInfo.uniqueIdentifier calcCRC32A := by
  refine ⟨fun _ => rfl, ?_⟩
  intro value other f p hf
  cases other <;> simp only [playerCase, Option.some.injEq, reduceCtorEq] at hf <;> subst hf <;> rfl

theorem IsServerField.gameOf {key : ServerKey} {get : GameInfo → V} {read : List Byte → V}
    (h : IsServerField decode key get read) (i : Nat) (ks : List Report) :
    get (gameOf decode i ks) = ((lastServerValue ks i key).map read).getD (get .zero) := by
  have hsets : ∀ k : Report, (!k.isPlayer && k.server == i && k.serverKey == key) =
      ((!k.isPlayer && k.serverKey == key) && k.server == i) := fun k => Bool.and_right_comm _ _ _
  rw [lastServerValue, gameOf_last h.receive]
  simp only [hsets]

theorem IsPlayerField.gameOf {key : PlayerKey} {get : PlayerInfo → V} {read : List Byte → V}
    (h : IsPlayerField decode key get read) (i : Nat) {j : Nat} (hj : j < maxPlayers) (ks : List Report) :
    get (gameOf decode i ks).playerinfo[j] = ((lastPlayerValue ks i j key).map read).getD (get .zero) := by
  have hsets : ∀ k : Report, (k.isPlayer && k.server == i && k.player == j && k.playerKey == key) =
      ((k.isPlayer && k.player == j && k.playerKey == key) && k.server == i) := by
    intro k
    rw [Bool.and_right_comm k.isPlayer, Bool.and_right_comm _ (k.server == i)]
  have hzero : GameInfo.zero.playerinfo[j] = PlayerInfo.zero := by simp [GameInfo.zero]
  have hlast := @gameOf_last _ decode (fun g => get g.playerinfo[j]) _ read (h.receive hj) i ks
  simp only [hzero] at hlast
  rw [lastPlayerValue, hlast]
  simp only [hsets]

theorem gameOf_reflects (decode : Decoder) (ks : List Report) (i : Nat) : (gameOf decode i ks).Reflects ks i where
  numbers := by
    intro f hf
    rw [(serverNumbers_field decode f hf).gameOf, number]
    congr 1
    simp only [serverNumbers, List.mem_cons, List.not_mem_nil, or_false] at hf
    rcases hf with rfl | rfl | rfl | rfl | rfl | rfl | rfl | rfl <;> rfl
  uniqueIdentifier := (uniqueIdentifier_field decode).gameOf i ks
  playerNumbers := by
    intro f hf j hj
    rw [(playerNumbers_field decode f hf).gameOf i hj, number]
    congr 1
    simp only [BzccScanner.playerNumbers, List.mem_cons, List.not_mem_nil, or_false] at hf
    rcases hf with rfl | rfl <;> rfl
  playerIdentifiers := fun _ hj => (playerIdentifier_field decode).gameOf i hj ks

end fields

def acceptedReports (calls : List (Call Session)) : List Report :=
  (calls.filter fun c => c.code == 0).map fun c => c.kvi.report

section scans

variable {decode : Decoder} {r r' : ScanRun} {w w' x x' y : WindowControls} {v v' : World Session}
    {code code' : Int}
  {P : Call Session → Prop} {members : List (Call Session)} {last : Call Session}

theorem Finished.acceptedReports (h : Finished decode r w P v members last y x) :
    acceptedReports v.calls = r.accepted.map Item.report := by
  rw [BzccScanner.acceptedReports, h.calls, List.filter_append, List.map_append, h.accepted]
  simp [h.refused]

theorem scanThread_games (hw : w.Sound) (hi : r.Indexed) (h : scanThread decode r w.beginScan = .ok (code, v))
    (hx : v.data.controls = .ok x) : x.scanCountServers = r.counters.servers ∧
      acceptedReports v.calls = r.accepted.map Item.report ∧
      ∀ i (_ : i < maxServers), i < x.scanCountServers →
      x.gameinfo[i] = gameOf decode i (acceptedReports v.calls) := by
  obtain ⟨members, last, y, hf⟩ := scanThread_finished hw hi h hx (.trivial decode _ _ _)
  obtain ⟨hs, hc⟩ := hf.result
  rw [hf.acceptedReports]
  exact ⟨congrArg Counters.servers hc, rfl, hs.holds.games⟩

/-- Two scans of the same bytes with the same cancellation leave the same games,
whatever was scanned before, and their fields are the last accepted values. -/
theorem scan_determined (hw : w.Reachable decode) (hw' : w'.Reachable decode) (hindexed : r.Indexed)
    (h : scanThread decode r w.beginScan = .ok (code, v))
    (h' : scanThread decode r' w'.beginScan = .ok (code', v')) (hx : v.data.controls = .ok x)
    (hx' : v'.data.controls = .ok x') (hmode : r'.source.usingHttp = r.source.usingHttp)
    (hbytes : received r'.source.reads = received r.source.reads) (hcancels : r'.cancels = r.cancels) :
    x'.scanCountServers = x.scanCountServers ∧ ∀ i (_ : i < maxServers), i < x.scanCountServers →
      x'.gameinfo[i] = x.gameinfo[i] ∧ x.gameinfo[i].Reflects (acceptedReports v.calls) i := by
  have hmembers : r'.members = r.members := by rw [ScanRun.members, ScanRun.members, hmode, hbytes]
  have hindexed' : r'.Indexed := by rwa [ScanRun.Indexed, hmembers, hcancels]
  obtain ⟨hcount, hreports, hgames⟩ := scanThread_games hw.sound hindexed h hx
  obtain ⟨hcount', hreports', hgames'⟩ := scanThread_games hw'.sound hindexed' h' hx'
  have hcounters : r'.counters = r.counters := by rw [ScanRun.counters, ScanRun.counters, hmembers, hcancels]
  have haccepted : r'.accepted = r.accepted := by rw [ScanRun.accepted, ScanRun.accepted, hmembers, hcancels]
  refine ⟨by rw [hcount', hcount, hcounters], fun i hi hlt => ?_⟩
  have hlt' : i < x'.scanCountServers := by rwa [hcount', hcounters, ← hcount]
  rw [hgames i hi hlt, hgames' i hi hlt', hreports', haccepted, ← hreports]
  exact ⟨rfl, gameOf_reflects decode _ i⟩

end scans

def scanned (r : ScanRun) (w : WindowControls) : Option WindowControls :=
  match scanThread (fun _ _ => none) r w.beginScan with
  | .ok (_, v) => v.data.controls.toOption
  | .error _ => none

theorem scanned_eq {r : ScanRun} {w x : WindowControls} (h : scanned r w = some x) :
    ∃ code v, scanThread (fun _ _ => none) r w.beginScan = .ok (code, v) ∧ v.data.controls = .ok x := by
  rw [scanned] at h
  cases hr : scanThread (fun _ _ => none) r w.beginScan with
  | error f => simp [hr] at h
  | ok out =>
    rw [hr] at h
    cases hv : out.2.data.controls with
    | error f => simp [hv, Except.toOption] at h
    | ok z =>
      obtain rfl : z = x := by simpa [hv, Except.toOption] using h
      exact ⟨out.1, out.2, rfl, hv⟩

set_option maxRecDepth 100000 in
theorem lockedScan_teamScan_scanned : (scanned teamScan .zero).isSome = true ∧
    ((scanned lockedScan .zero).bind (scanned teamScan)).isSome = true := by
  constructor <;> decide +kernel

theorem scan_determined_teamScan : ∃ x x', scanned teamScan .zero = some x ∧
    (scanned lockedScan .zero).bind (scanned teamScan) = some x' ∧ x'.scanCountServers = x.scanCountServers ∧
    ∀ i (_ : i < maxServers), i < x.scanCountServers → x'.gameinfo[i] = x.gameinfo[i] := by
  obtain ⟨h, h'⟩ := lockedScan_teamScan_scanned
  obtain ⟨x, hx⟩ := Option.isSome_iff_exists.mp h
  obtain ⟨x', hx'⟩ := Option.isSome_iff_exists.mp h'
  obtain ⟨w, hw, hwx⟩ := Option.bind_eq_some_iff.mp hx'
  obtain ⟨code, v, hr, hv⟩ := scanned_eq hx
  obtain ⟨code₁, v₁, hr₁, hv₁⟩ := scanned_eq hw
  obtain ⟨code₂, v₂, hr₂, hv₂⟩ := scanned_eq hwx
  obtain ⟨hlocked, hteam⟩ := lockedScan_teamScan_indexed
  obtain ⟨hcount, hgames⟩ := scan_determined .start (.scan .start hlocked hr₁ hv₁) hteam hr hr₂ hv hv₂ rfl rfl rfl
  exact ⟨x, x', hx, hx', hcount, fun i hi hlt => (hgames i hi hlt).1⟩

/-- `{"G":[{"p":[{"t":1},{"t":1}]}]}` -/
def teamsScan : ScanRun :=
  .ofFile [0x7b, 0x22, 0x47, 0x22, 0x3a, 0x5b, 0x7b, 0x22, 0x70, 0x22, 0x3a, 0x5b, 0x7b, 0x22, 0x74, 0x22, 0x3a,
    0x31, 0x7d, 0x2c, 0x7b, 0x22, 0x74, 0x22, 0x3a, 0x31, 0x7d, 0x5d, 0x7d, 0x5d, 0x7d]

/-- `{"G":[{"p":[{},…,{},{"t":1}]}]}` with 2^31 empty players. -/
def farTeam : Lobby := farPlayer 2147483647 (.items (.tight keyT one one_lt) [])

/-- The player of `farTeam`, told with the index -2^31. -/
def farTeamItem : Item := ⟨.last, [0x74], [0x31], 5, 0, 2147483648⟩

theorem farTeam_items : farTeam.placed.map Placed.item = [farTeamItem] := by
  rw [farTeam, farPlayer_placed]
  rfl

def afterFarTeam (w : WindowControls) : Option WindowControls := do
  let u ← ([farTeamItem].foldlM (deliver (sessionCallback (fun _ _ => none) fun _ => false))
    (World.init ⟨.ok w.beginScan.prepare, 0⟩)).toOption
  (reportEnd (sessionCallback (fun _ _ => none) fun _ => false) 0 u).2.data.controls.toOption

theorem scanned_farTeam {w x : WindowControls} (h : afterFarTeam w = some x) :
    scanned farTeam.fileScan w = some x := by
  obtain ⟨u, hu, hx⟩ := Option.bind_eq_some_iff.mp h
  have hfold := toOption_eq_some.mp hu
  rw [← farTeam_items] at hfold
  rw [scanned, Lobby.scanThread_fileScan hfold]
  exact hx

set_option maxRecDepth 100000 in
theorem farTeam_differs : ∃ w ∈ scanned teamScan .zero, ∃ w' ∈ scanned teamsScan .zero, teamsScan.Indexed ∧
    ∃ x ∈ afterFarTeam w, ∃ x' ∈ afterFarTeam w', x.scanCountServers = 1 ∧
      x.gameinfo[0].playerinfo[0].team = 1 ∧ x'.gameinfo[0].playerinfo[0].team = 0 := by
  decide +kernel

/-- The player is written into the slot that the scan before has used last. -/
theorem farTeam_undetermined : ∃ w w' x x', WindowControls.Reachable (fun _ _ => none) w ∧
    WindowControls.Reachable (fun _ _ => none) w' ∧ scanned farTeam.fileScan w = some x ∧
    scanned farTeam.fileScan w' = some x' ∧ x.scanCountServers = 1 ∧
    x.gameinfo[0].playerinfo[0] ≠ x'.gameinfo[0].playerinfo[0] := by
  obtain ⟨w, hw, w', hw', hindexed, x, hx, x', hx', hcount, hteam, hteam'⟩ := farTeam_differs
  obtain ⟨code, v, hr, hv⟩ := scanned_eq hw
  obtain ⟨code', v', hr', hv'⟩ := scanned_eq hw'
  refine ⟨w, w', x, x', .scan .start lockedScan_teamScan_indexed.2 hr hv, .scan .start hindexed hr' hv',
    scanned_farTeam hx, scanned_farTeam hx', hcount, fun he => ?_⟩
  rw [he, hteam'] at hteam
  exact absurd hteam (by decide)

end BzccScanner
