import BzccScanner.DisplayedGames
import BzccScanner.ReceivedPlayers

/-! What the notifications say over a sequence of scans. A scan that is cut off
leaves a part of the lobby, which is compared with the list before it, and which
is the list that the next scan is compared with. -/

namespace BzccScanner

open CString Keyed

/-- How many servers were received to their closing brace: `server_slot` of
`parse_data` when it returns. -/
def ScanRun.closed (r : ScanRun) : Nat :=
  match r.members[r.accepted.length]? with
  | some k => k.serverIndex
  | none => (Mealy.halt Client.step (Client.init r.source.usingHttp) (received r.source.reads)).reader.serverSlot

/-- The last member of each player of the server `i` is accepted. -/
def ScanRun.PlayersEnd (r : ScanRun) (i : Nat) : Prop :=
  ∀ k ∈ r.accepted, k.depth = 5 → k.serverIndex = i →
    ∃ l ∈ r.accepted, l.depth = 5 ∧ l.serverIndex = i ∧ l.playerIndex = k.playerIndex ∧ l.status = .last

/-- A scan of a sequence. `baseline` are the games of the most recent scan before it that ended complete. -/
structure EndedScan where
  before : WindowControls
  baseline : Option (List GameInfo)
  run : ScanRun
  calls : List (Call Session)
  after : WindowControls

def completes (calls : List (Call Session)) : Bool := calls.getLast?.any fun c => c.kvi.status = .complete

/-- A scan that ends in a fault of `parse_data` ends the program. -/
def historyOf (decode : Decoder) (w : WindowControls) (baseline : Option (List GameInfo)) :
    List ScanRun → List EndedScan
  | [] => []
  | r :: rs =>
    match scanThread decode r w.beginScan with
    | .error _ => []
    | .ok (_, v) =>
      match v.data.controls with
      | .error _ => []
      | .ok x => ⟨w, baseline, r, v.calls, x⟩ ::
        historyOf decode x (if completes v.calls then some x.current else baseline) rs

def gameIdentifier (ks : List Report) (i : Nat) : UInt32 := identifier (lastServerValue ks i .g)

def playerIdentifier (ks : List Report) (i j : Nat) : UInt32 := identifier (lastPlayerValue ks i j .userid)

namespace EndedScan

/-- A player is said to have left only the game in which the scan has not
received him, and which it has received to its closing brace. -/
def QuitsTrue (e : EndedScan) : Prop :=
  ∀ c ∈ e.calls, ∀ new old, .playerQuit new old ∈ c.shown → ∃ i, ∃ _ : i < maxServers, e.after.gameinfo[i] = new ∧
    (∀ n (_ : n < i), e.after.gameinfo[n].uniqueIdentifier ≠ new.uniqueIdentifier) ∧ i < e.run.closed ∧
    ∀ k ∈ acceptedReports e.calls, k.isPlayer = true → k.server = i →
      playerIdentifier (acceptedReports e.calls) i k.player ≠ old.uniqueIdentifier

/-- A game is said to be new only if the most recent complete scan has not received it. -/
def NewsTrue (e : EndedScan) : Prop :=
  ∀ c ∈ e.calls, ∀ game, .gameNew game ∈ c.shown → ∀ games ∈ e.baseline, ∀ g ∈ games,
    g.uniqueIdentifier ≠ game.uniqueIdentifier

def Knows (e : EndedScan) (i : Nat) : Prop :=
  ∃ g ∈ e.before.current, g.uniqueIdentifier = gameIdentifier (e.run.accepted.map Item.report) i ∧
    0 < g.players.length

/-- A game that is known is received to its closing brace, and each of its players has a last member. -/
def KnownWhole (e : EndedScan) : Prop :=
  ∀ i < e.run.counters.servers, e.Knows i → i < e.run.closed ∧ e.run.PlayersEnd i

/-- The list before the scan still has the games of the most recent complete scan. -/
def BaselineKept (e : EndedScan) : Prop :=
  ∀ games ∈ e.baseline, ∀ g ∈ games, g.uniqueIdentifier ≠ 0 →
    ∃ h ∈ e.before.current, h.uniqueIdentifier = g.uniqueIdentifier

end EndedScan

section changes

variable {w : WindowControls} {new : GameInfo} {p : PlayerInfo}

theorem quit_mem_gameChanges (h : .playerQuit new p ∈ gameChanges w) : ∃ old ∈ w.previous,
    lookup GameInfo.uniqueIdentifier w.current old.uniqueIdentifier = some new ∧ p ∈ old.players ∧
      lookup PlayerInfo.uniqueIdentifier new.players p.uniqueIdentifier = none := by
  rw [gameChanges, List.mem_flatMap] at h
  obtain ⟨old, ho, h⟩ := h
  rw [comparison] at h
  cases hl : lookup GameInfo.uniqueIdentifier w.current old.uniqueIdentifier with
  | none => simp [hl] at h
  | some game =>
    simp only [hl, playerChanges, List.mem_append, List.mem_flatMap] at h
    rcases h with ⟨q, hq, h⟩ | ⟨q, -, h⟩
    · rw [comparison] at h
      cases hp : lookup PlayerInfo.uniqueIdentifier game.players q.uniqueIdentifier with
      | none =>
        obtain ⟨rfl, rfl⟩ : new = game ∧ p = q := by simpa [hp] using h
        exact ⟨old, ho, hl, hq, hp⟩
      | some _ => simp [hp] at h
    · rw [comparison] at h
      split at h
      · simp at h
      · rw [renamed] at h
        split_ifs at h <;> simp at h

theorem new_not_mem_gameChanges (w : WindowControls) (game : GameInfo) : .gameNew game ∉ gameChanges w := by
  intro h
  rw [gameChanges, List.mem_flatMap] at h
  obtain ⟨old, -, h⟩ := h
  rw [comparison] at h
  split at h
  · simp at h
  · exact absurd (isPlayer_playerChanges _ h) (by simp [Notice.isPlayer])

end changes

section scans

variable {decode : Decoder} {r : ScanRun} {w x : WindowControls} {v : World Session} {code : Int} {m : Notice}

theorem scanThread_notices (hw : w.Sound) (hi : r.Indexed) (h : scanThread decode r w.beginScan = .ok (code, v))
    (hx : v.data.controls = .ok x) : x.previous = w.current ∧ ∀ c ∈ v.calls, ∀ m ∈ c.shown,
      m.isRow = true ∨ m.IsNews w.beginScan.prepare ∨ (∃ err, m = .messageBox err) ∨ m ∈ gameChanges x := by
  have hP : Standing.Always decode r.cancels w.beginScan.prepare r.members fun c =>
      ∀ m ∈ c.shown, m.isRow = true ∨ m.IsNews w.beginScan.prepare := by
    constructor
    · intro done k rest u e q _ hstand _ hstep m hm
      by_cases hrow : q.code = 0 ∧ k.depth ≠ 5 ∧ k.status = .last
      · obtain ⟨i, -, -, -, more, hn, hnews⟩ := hstep.shows.row hrow
        rw [Call.shown_eq rfl rfl hn, List.mem_cons] at hm
        rcases hm with rfl | hm
        · exact .inl rfl
        · exact .inr ((hnews m hm).of_previous hstand.prev hstand.prevCount)
      · have hsilent : q.data.notices = u.notices ++ [] := by rw [hstep.shows.silent hrow, List.append_nil]
        rw [Call.shown_eq rfl rfl hsilent] at hm
        simp at hm
    · intro done k rest u e _ _ _ m hm
      simp [Call.shown] at hm
  obtain ⟨members, last, y, hf⟩ := scanThread_finished hw hi h hx hP
  obtain ⟨b, shown, hz⟩ := hf.data
  have hchanges : gameChanges y = gameChanges x := by rw [hz]; rfl
  refine ⟨?_, ?_⟩
  · have hprev := hf.result.1.prev
    have hcount := hf.result.1.prevCount
    rw [WindowControls.previous, hprev, hcount]
    rfl
  · intro c hc m hm
    rw [hf.calls, List.mem_append, List.mem_singleton] at hc
    rcases hc with hc | rfl
    · exact (hf.members_all c hc m hm).imp_right .inl
    · obtain ⟨box, hs, hbox⟩ := hf.terminal_shows
      rw [Call.shown_eq hf.before hf.after hs, List.mem_append, hchanges] at hm
      rcases hm with hm | hm
      · exact .inr (.inr (.inl (hbox m hm)))
      · exact .inr (.inr (.inr hm))

theorem lookup_counted {α κ : Type} [DecidableEq κ] {key : α → κ} {n count : Nat} {xs : Vector α n}
    {k : κ} {y : α} (h : lookup key (counted xs count) k = some y) :
    ∃ i, ∃ hi : i < n, i < count ∧ xs[i] = y ∧ key y = k ∧ ∀ j (_ : j < i), key xs[j] ≠ k := by
  obtain ⟨hk, i, hi, hy, hbefore⟩ := List.find?_eq_some_iff_getElem.mp h
  have hlen : i < count ∧ i < n := by simpa [counted, Nat.lt_min] using hi
  refine ⟨i, hlen.2, hlen.1, by simpa [counted] using hy, by simpa using hk, ?_⟩
  intro j hj
  simpa [counted] using hbefore j hj

theorem quitsTrue_of_knownWhole (hw : w.Sound) (hindexed : r.Indexed)
    (h : scanThread decode r w.beginScan = .ok (code, v)) (hx : v.data.controls = .ok x)
    {baseline : Option (List GameInfo)} (hwhole : EndedScan.KnownWhole ⟨w, baseline, r, v.calls, x⟩) :
    EndedScan.QuitsTrue ⟨w, baseline, r, v.calls, x⟩ := by
  intro c hc new p hm
  obtain ⟨hprev, hnotices⟩ := scanThread_notices hw hindexed h hx
  obtain ⟨hcount, hreports, hgames⟩ := scanThread_games hw hindexed h hx
  have hchange : .playerQuit new p ∈ gameChanges x := by
    rcases hnotices c hc _ hm with hrow | hnews | ⟨err, he⟩ | hchange
    · cases hrow
    · cases hnews
    · cases he
    · exact hchange
  obtain ⟨old, hold, hfound, hp, hgone⟩ := quit_mem_gameChanges hchange
  obtain ⟨i, hi, hlt, rfl, hid, hfirst⟩ := lookup_counted hfound
  have hgame := hgames i hi hlt
  have hreflects : x.gameinfo[i].Reflects (acceptedReports v.calls) i := hgame ▸ gameOf_reflects decode _ i
  have hknown : EndedScan.Knows ⟨w, baseline, r, v.calls, x⟩ i := by
    refine ⟨old, hprev ▸ hold, ?_, List.length_pos_of_mem hp⟩
    rw [← hid, hreflects.uniqueIdentifier, hreports]
    rfl
  obtain ⟨hclosed, hlasts⟩ := hwhole i (hcount ▸ hlt) hknown
  refine ⟨i, hi, rfl, fun n hn => hid ▸ hfirst n hn, hclosed, ?_⟩
  intro k hk hplayer hserver
  rw [hreports] at hk
  obtain ⟨item, hitem, rfl⟩ := List.mem_map.mp hk
  have hd : item.depth = 5 := by simpa [Item.report, Item.kvi, KeyValueInfo.report] using hplayer
  obtain ⟨hi128, hj16, -⟩ := r.accepted_complete item hitem
  rw [item.report_server hi128] at hserver
  rw [item.report_player hj16]
  have hj : item.playerIndex < (gameOf decode i (r.accepted.map Item.report)).playerCount :=
    counted_of_lasts r.accepted_complete hlasts hitem hd hserver
  rw [← hreports, ← hgame] at hj
  have hmem : x.gameinfo[i].playerinfo[item.playerIndex] ∈ x.gameinfo[i].players :=
    mem_counted.mpr ⟨item.playerIndex, hj16, hj, rfl⟩
  have hne := Keyed.lookup_eq_none.mp hgone _ hmem
  rwa [hreflects.playerIdentifiers item.playerIndex hj16] at hne

theorem newsTrue_of_baselineKept (hw : w.Sound) (hindexed : r.Indexed)
    (h : scanThread decode r w.beginScan = .ok (code, v)) (hx : v.data.controls = .ok x)
    {baseline : Option (List GameInfo)} (hkept : EndedScan.BaselineKept ⟨w, baseline, r, v.calls, x⟩) :
    EndedScan.NewsTrue ⟨w, baseline, r, v.calls, x⟩ := by
  intro c hc game hm games hgames g hg he
  obtain ⟨-, hnotices⟩ := scanThread_notices hw hindexed h hx
  obtain ⟨hknown, hnone⟩ : game.uniqueIdentifier ≠ 0 ∧ findGame .gameinfoPrev w.gameinfo w.scanCountServers
      game.uniqueIdentifier = .ok none := by
    rcases hnotices c hc _ hm with hrow | hnews | ⟨err, he⟩ | hchange
    · cases hrow
    · exact hnews
    · cases he
    · exact absurd hchange (new_not_mem_gameChanges x game)
  rw [findGame_eq _ hw.servers_le, Except.ok.injEq] at hnone
  obtain ⟨k, hk, hid⟩ := hkept games hgames g hg (he ▸ hknown)
  exact Keyed.lookup_eq_none.mp hnone k hk (hid.trans he)

theorem mem_historyOf {scans : List ScanRun} {baseline : Option (List GameInfo)} (hw : w.Reachable decode)
    (hi : ∀ e ∈ historyOf decode w baseline scans, e.run.Indexed) : ∀ e ∈ historyOf decode w baseline scans,
    ∃ code v, e.before.Sound ∧
      scanThread decode e.run e.before.beginScan = .ok (code, v) ∧ e.calls = v.calls ∧
      v.data.controls = .ok e.after := by
  induction scans generalizing w baseline with
  | nil => simp [historyOf]
  | cons r scans ih =>
    intro e he
    rw [historyOf] at he hi
    cases hr : scanThread decode r w.beginScan with
    | error f => simp [hr] at he
    | ok out =>
      obtain ⟨code, v⟩ := out
      simp only [hr] at he hi
      cases hx : v.data.controls with
      | error f => simp [hx] at he
      | ok x =>
        simp only [hx] at hi
        rw [List.forall_mem_cons] at hi
        simp only [hx, List.mem_cons] at he
        rcases he with rfl | he
        · exact ⟨code, v, hw.sound, hr, rfl, hx⟩
        · exact ih (.scan hw hi.1 hr hx) hi.2 e he

end scans

section examples

/-- `{"G":[{"g":"c","k":1}]}` -/
def namedScan : ScanRun :=
  .ofFile [0x7b, 0x22, 0x47, 0x22, 0x3a, 0x5b, 0x7b, 0x22, 0x67, 0x22, 0x3a, 0x22, 0x63, 0x22, 0x2c,
    0x22, 0x6b, 0x22, 0x3a, 0x31, 0x7d, 0x5d, 0x7d]

/-- The user cancels in front of the call `n`. -/
def ScanRun.cancelledAt (r : ScanRun) (n : Nat) : ScanRun := { r with cancels := (· == n) }

def wholeScans : List EndedScan :=
  historyOf (fun _ _ => none) .zero none [playerScan (some 0x63) 0x61, playerScan (some 0x63) 0x62]

/-- The second scan is cancelled in front of the player. -/
def cutScans : List EndedScan :=
  historyOf (fun _ _ => none) .zero none [playerScan (some 0x63) 0x61,
    (playerScan (some 0x63) 0x61).cancelledAt 1]

/-- The second scan is cancelled in front of the game. -/
def emptiedScans : List EndedScan :=
  historyOf (fun _ _ => none) .zero none [namedScan, namedScan.cancelledAt 0, namedScan]

def Notice.isQuit : Notice → Bool
  | playerQuit _ _ => true
  | _ => false

def Notice.isNewOf (g : GameInfo) : Notice → Bool
  | gameNew game => game.uniqueIdentifier == g.uniqueIdentifier
  | _ => false

instance (r : ScanRun) (i : Nat) : Decidable (r.PlayersEnd i) :=
  inferInstanceAs (Decidable (∀ k ∈ r.accepted, _ → _ → ∃ l ∈ r.accepted, _))

instance (e : EndedScan) (i : Nat) : Decidable (e.Knows i) := inferInstanceAs (Decidable (∃ g ∈ _, _ ∧ _))

instance (e : EndedScan) : Decidable e.KnownWhole := inferInstanceAs (Decidable (∀ i < _, e.Knows i → _ ∧ _))

instance (e : EndedScan) : Decidable e.BaselineKept :=
  inferInstanceAs (Decidable (∀ games ∈ e.baseline, ∀ g ∈ games, _ → ∃ h ∈ _, _))

set_option maxRecDepth 100000 in
theorem wholeScans_quits : (∀ e ∈ wholeScans, e.run.Indexed ∧ e.KnownWhole ∧ e.BaselineKept) ∧
    ∃ e ∈ wholeScans, ∃ c ∈ e.calls, ∃ m ∈ c.shown, m.isQuit := by
  decide +kernel

set_option maxRecDepth 100000 in
theorem cutScans_quits : ∃ e ∈ cutScans, e.run.closed = 0 ∧ ∃ c ∈ e.calls, ∃ m ∈ c.shown, m.isQuit := by
  decide +kernel

set_option maxRecDepth 100000 in
theorem emptiedScans_new : ∃ e ∈ emptiedScans, ∃ games ∈ e.baseline, ∃ g ∈ games, ∃ c ∈ e.calls,
    ∃ m ∈ c.shown, m.isNewOf g := by
  decide +kernel

end examples

end BzccScanner
