import BzccScanner.SessionCalls

/-! Which notifications about players the end of a scan raises. They are exact
for the games and the players that have an identifier; those that have none are
compared by first match like the others. -/

namespace BzccScanner

open CString Keyed

def Notice.isPlayer : Notice → Bool
  | playerQuit _ _ | playerJoined _ _ | playerChangedNick _ _ _ => true
  | _ => false

/-- What the user should be told about the players of one game. -/
def expectedPlayers (old new : GameInfo) : List Notice :=
  ((old.players.filter (lacks PlayerInfo.uniqueIdentifier 0 new.players)).map fun p => .playerQuit new p) ++
  ((new.players.filter (lacks PlayerInfo.uniqueIdentifier 0 old.players)).map fun p => .playerJoined new p) ++
  (pairs PlayerInfo.uniqueIdentifier 0 new.players old.players).flatMap fun p => renamed new p.1 p.2

def expectedNotices (w : WindowControls) : List Notice :=
  (pairs GameInfo.uniqueIdentifier 0 w.previous w.current).flatMap fun p => expectedPlayers p.1 p.2

structure WindowControls.Distinguished (w : WindowControls) : Prop where
  previous : Distinct GameInfo.uniqueIdentifier 0 w.previous
  current : Distinct GameInfo.uniqueIdentifier 0 w.current
  previous_players : ∀ g ∈ w.previous, Distinct PlayerInfo.uniqueIdentifier 0 g.players
  current_players : ∀ g ∈ w.current, Distinct PlayerInfo.uniqueIdentifier 0 g.players

/-- The scan ends with the notifications about players that it should raise. -/
def NotifiesExactly (decode : Decoder) (k : KeyValueInfo) (w : WindowControls) : Prop :=
  ∃ r shown, processSessionInfo decode k w = .ok r ∧ r.data.notices = w.notices ++ shown ∧
    (shown.filter Notice.isPlayer).Perm (expectedNotices w)

/-- Of the players that `which` selects, all of the old ones are found in the
new game, and the new ones in the old game under the same nick. -/
structure Alike (which : PlayerInfo → Prop) (old new : GameInfo) : Prop where
  stay : ∀ p ∈ old.players, which p → ∃ q ∈ new.players, q.uniqueIdentifier = p.uniqueIdentifier
  known : ∀ q ∈ new.players, which q →
    ∃ p, lookup PlayerInfo.uniqueIdentifier old.players q.uniqueIdentifier = some p ∧ q.nick = p.nick

/-- What has no identifier looks the same in both lists. -/
structure WindowControls.UnknownAlike (w : WindowControls) : Prop where
  games : ∀ old ∈ w.previous, old.uniqueIdentifier = 0 →
    ∀ new, lookup GameInfo.uniqueIdentifier w.current 0 = some new → Alike (fun _ => True) old new
  players : ∀ p ∈ pairs GameInfo.uniqueIdentifier 0 w.previous w.current, Alike (·.uniqueIdentifier = 0) p.1 p.2

def unknownPlayers (old new : GameInfo) : List Notice :=
  (old.players.filter fun p => p.uniqueIdentifier = 0).flatMap
    (comparison PlayerInfo.uniqueIdentifier new.players (fun p => [.playerQuit new p]) fun _ _ => []) ++
  (new.players.filter fun p => p.uniqueIdentifier = 0).flatMap
    (comparison PlayerInfo.uniqueIdentifier old.players (fun p => [.playerJoined new p]) (renamed new))

def unknownGames (w : WindowControls) : List Notice :=
  (w.previous.filter fun g => g.uniqueIdentifier = 0).flatMap
    (comparison GameInfo.uniqueIdentifier w.current (fun _ => []) playerChanges)

variable {old new : GameInfo} {w : WindowControls}

theorem renamed_eq_nil {player before : PlayerInfo} :
    renamed new player before = [] ↔ player.nick = before.nick := by
  simp [renamed]

theorem comparison_eq_nil {α κ ε : Type} [DecidableEq κ] {key : α → κ} {ys : List α} {missing : α → List ε}
    {found : α → α → List ε} (hm : ∀ x, missing x ≠ []) (x : α) : comparison key ys missing found x = [] ↔
      ∃ y, lookup key ys (key x) = some y ∧ found x y = [] := by
  rw [comparison]
  cases lookup key ys (key x) <;> simp [hm]

theorem lookup_isSome {α κ : Type} [DecidableEq κ] {key : α → κ} {xs : List α} {k : κ} :
    (∃ x, lookup key xs k = some x) ↔ ∃ x ∈ xs, key x = k := by
  constructor
  · rintro ⟨x, hx⟩
    exact ⟨x, lookup_eq_some hx⟩
  · rintro ⟨x, hx, hk⟩
    refine Option.ne_none_iff_exists'.mp fun hn => ?_
    exact Keyed.lookup_eq_none.mp hn x hx hk

theorem changes_eq_nil {which : PlayerInfo → Bool} :
    (old.players.filter which).flatMap
        (comparison PlayerInfo.uniqueIdentifier new.players (fun p => [Notice.playerQuit new p]) fun _ _ => []) ++
      (new.players.filter which).flatMap
        (comparison PlayerInfo.uniqueIdentifier old.players (fun p => [.playerJoined new p]) (renamed new)) = [] ↔
      Alike (fun p => which p = true) old new := by
  rw [List.append_eq_nil_iff, List.flatMap_eq_nil_iff, List.flatMap_eq_nil_iff]
  simp only [List.mem_filter, comparison_eq_nil fun _ => List.cons_ne_nil _ _, renamed_eq_nil, and_true,
    lookup_isSome]
  exact ⟨fun h => ⟨fun p hp hw => h.1 p ⟨hp, hw⟩, fun q hq hw => h.2 q ⟨hq, hw⟩⟩,
    fun h => ⟨fun p hp => h.stay p hp.1 hp.2, fun q hq => h.known q hq.1 hq.2⟩⟩

theorem unknownPlayers_eq_nil : unknownPlayers old new = [] ↔ Alike (·.uniqueIdentifier = 0) old new := by
  rw [unknownPlayers, changes_eq_nil]
  simp only [decide_eq_true_eq]

theorem playerChanges_eq_nil : playerChanges old new = [] ↔ Alike (fun _ => True) old new := by
  have h := @changes_eq_nil old new fun _ => true
  simp only [List.filter_true] at h
  exact h

theorem unknown_eq_nil : ((pairs GameInfo.uniqueIdentifier 0 w.previous w.current).flatMap fun p =>
    unknownPlayers p.1 p.2) ++ unknownGames w = [] ↔ w.UnknownAlike := by
  have hgame : ∀ old : GameInfo, old.uniqueIdentifier = 0 →
      (comparison GameInfo.uniqueIdentifier w.current (fun _ => []) playerChanges old = [] ↔
        ∀ new, lookup GameInfo.uniqueIdentifier w.current 0 = some new → Alike (fun _ => True) old new) := by
    intro old h0
    rw [comparison, h0]
    cases lookup GameInfo.uniqueIdentifier w.current 0 <;> simp [playerChanges_eq_nil]
  rw [List.append_eq_nil_iff, List.flatMap_eq_nil_iff, unknownGames, List.flatMap_eq_nil_iff]
  simp only [unknownPlayers_eq_nil, List.mem_filter, decide_eq_true_eq]
  exact ⟨fun h => ⟨fun old ho h0 => (hgame old h0).mp (h.2 old ⟨ho, h0⟩), h.1⟩,
    fun h => ⟨h.players, fun old ho => (hgame old ho.2).mpr (h.games old ho.1 ho.2)⟩⟩

theorem playerChanges_perm (ho : Distinct PlayerInfo.uniqueIdentifier 0 old.players)
    (hn : Distinct PlayerInfo.uniqueIdentifier 0 new.players) :
    (playerChanges old new).Perm (expectedPlayers old new ++ unknownPlayers old new) := by
  have hleft := hn.flatMap_comparison (fun p => [Notice.playerQuit new p]) (fun _ _ => []) old.players
  have hcame := ho.flatMap_comparison (fun p => [Notice.playerJoined new p]) (renamed new) new.players
  have hnone : ((pairs PlayerInfo.uniqueIdentifier 0 old.players new.players).flatMap fun _ =>
      ([] : List Notice)) = [] := by
    simp
  rw [hnone, List.append_nil, ← List.map_eq_flatMap] at hleft
  rw [← List.map_eq_flatMap] at hcame
  refine (hleft.append hcame).trans ?_
  simp only [expectedPlayers, unknownPlayers, List.append_assoc]
  refine List.Perm.append_left _ ?_
  exact List.perm_append_comm_assoc _ _ _ |>.trans (.append_left _ (List.perm_append_comm_assoc _ _ _))

theorem isPlayer_playerChanges : ∀ m ∈ playerChanges old new, m.isPlayer = true := by
  intro m hm
  rw [playerChanges, List.mem_append, List.mem_flatMap, List.mem_flatMap] at hm
  rcases hm with ⟨p, -, hm⟩ | ⟨p, -, hm⟩ <;> rw [comparison] at hm <;> split at hm
  · rw [List.mem_singleton.mp hm, Notice.isPlayer]
  · simp at hm
  · rw [List.mem_singleton.mp hm, Notice.isPlayer]
  · rw [renamed] at hm
    split_ifs at hm
    · rw [List.mem_singleton.mp hm, Notice.isPlayer]
    · simp at hm

theorem gameChanges_players : (gameChanges w).filter Notice.isPlayer =
    w.previous.flatMap (comparison GameInfo.uniqueIdentifier w.current (fun _ => []) playerChanges) := by
  rw [gameChanges, List.filter_flatMap]
  refine List.flatMap_congr fun old _ => ?_
  rw [comparison, comparison]
  cases lookup GameInfo.uniqueIdentifier w.current old.uniqueIdentifier with
  | none => rfl
  | some new => exact List.filter_eq_self.mpr isPlayer_playerChanges

theorem gameChanges_perm (h : w.Distinguished) :
    ((gameChanges w).filter Notice.isPlayer).Perm (expectedNotices w ++
    (((pairs GameInfo.uniqueIdentifier 0 w.previous w.current).flatMap fun p => unknownPlayers p.1 p.2) ++
      unknownGames w)) := by
  rw [gameChanges_players]
  refine (h.current.flatMap_comparison (fun _ => []) playerChanges w.previous).trans ?_
  have hnone : ((w.previous.filter (lacks GameInfo.uniqueIdentifier 0 w.current)).flatMap fun _ =>
      ([] : List Notice)) = [] := by
    simp
  rw [hnone, List.nil_append, ← List.append_assoc]
  refine List.Perm.append_right _ ?_
  refine (List.Perm.flatMap_left _ fun p hp => ?_).trans (List.flatMap_append_perm _ _ _).symm
  rw [pairs, List.mem_flatMap] at hp
  obtain ⟨old, ho, hp⟩ := hp
  obtain ⟨new, hn, rfl⟩ := List.mem_map.mp hp
  exact playerChanges_perm (h.previous_players old ho) (h.current_players new (List.mem_of_mem_filter hn))

theorem notifiesExactly_perm (decode : Decoder) {k : KeyValueInfo} (hb : w.Bounded) (hk : k.status = .complete) :
    NotifiesExactly decode k w ↔ ((gameChanges w).filter Notice.isPlayer).Perm (expectedNotices w) := by
  have hend : processSessionInfo decode k w = .ok ⟨1, k, { w with notices := w.notices ++ gameChanges w }⟩ := by
    rw [processSessionInfo, if_pos (.inl hk), processEnd_changes hb]
    simp [hk]
  constructor
  · rintro ⟨r, shown, hr, hs, hperm⟩
    obtain rfl := Except.ok.inj (hend.symm.trans hr)
    rwa [List.append_cancel_left hs]
  · exact fun h => ⟨_, _, hend, rfl, h⟩

theorem perm_append_self {α : Type} {xs ys : List α} : (xs ++ ys).Perm xs ↔ ys = [] := by
  constructor
  · intro h
    simpa using h.length_eq
  · rintro rfl
    simp

instance : Decidable w.Bounded :=
  decidable_of_iff (w.gameinfoPrevCount ≤ maxServers ∧ w.scanCountServers ≤ maxServers ∧
    (∀ g ∈ w.previous, g.playerCount ≤ maxPlayers) ∧ ∀ g ∈ w.current, g.playerCount ≤ maxPlayers)
    ⟨fun ⟨a, b, c, d⟩ => ⟨a, b, c, d⟩, fun h => ⟨h.1, h.2, h.3, h.4⟩⟩

instance : Decidable w.Distinguished :=
  decidable_of_iff (Distinct GameInfo.uniqueIdentifier 0 w.previous ∧
    Distinct GameInfo.uniqueIdentifier 0 w.current ∧
    (∀ g ∈ w.previous, Distinct PlayerInfo.uniqueIdentifier 0 g.players) ∧
    ∀ g ∈ w.current, Distinct PlayerInfo.uniqueIdentifier 0 g.players)
    ⟨fun ⟨a, b, c, d⟩ => ⟨a, b, c, d⟩, fun h => ⟨h.1, h.2, h.3, h.4⟩⟩

/-- The window that the last call of the scans finds, if the last scan is complete. -/
def completed (scans : List ScanRun) : Option (KeyValueInfo × WindowControls) :=
  match (callsOf (fun _ _ => none) .zero scans).getLast? with
  | some c => if c.kvi.status = .complete then c.before.controls.toOption.map (c.kvi, ·) else none
  | none => none

theorem completed_status {scans : List ScanRun} {k : KeyValueInfo} (h : completed scans = some (k, w)) :
    k.status = .complete := by
  rw [completed] at h
  split at h
  · split_ifs at h with hs
    obtain ⟨v, -, he⟩ := Option.map_eq_some_iff.mp h
    rwa [← (Prod.mk.inj he).1]
  · cases h

/-- `{"G":[{"g":"c","p":[{"i":"a","t":1}]}]}`, with the first member left out without a game's name. -/
def playerScan (game : Option Byte) (player : Byte) : ScanRun :=
  .ofFile <| [0x7b, 0x22, 0x47, 0x22, 0x3a, 0x5b, 0x7b] ++
    (game.map fun g => [0x22, 0x67, 0x22, 0x3a, 0x22, g, 0x22, 0x2c]).getD [] ++
    [0x22, 0x70, 0x22, 0x3a, 0x5b, 0x7b, 0x22, 0x69, 0x22, 0x3a, 0x22, player, 0x22, 0x2c, 0x22, 0x74, 0x22, 0x3a,
      0x31, 0x7d, 0x5d, 0x7d, 0x5d, 0x7d]

set_option maxRecDepth 100000 in
theorem namedScans : ∃ e ∈ completed [playerScan (some 0x63) 0x61, playerScan (some 0x63) 0x62], e.2.Bounded ∧
    e.2.Distinguished ∧ (expectedNotices e.2).length = 2 ∧ (∀ g ∈ e.2.previous, g.uniqueIdentifier ≠ 0) ∧
    ∀ p ∈ pairs GameInfo.uniqueIdentifier 0 e.2.previous e.2.current,
      ∀ q ∈ p.1.players ++ p.2.players, q.uniqueIdentifier ≠ 0 := by
  decide +kernel

set_option maxRecDepth 100000 in
theorem namelessScans :
    ∃ e ∈ completed [playerScan none 0x61, playerScan none 0x62], e.2.Bounded ∧ e.2.Distinguished ∧
    (expectedNotices e.2).length = 0 ∧ ((gameChanges e.2).filter Notice.isPlayer).length = 2 := by
  decide +kernel

end BzccScanner
