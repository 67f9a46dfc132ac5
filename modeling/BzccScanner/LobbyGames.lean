import BzccScanner.Capacity

/-! What a lobby document says about its games, in its own terms, and that the
records which a scan fills in from the members of the document say the same. -/

namespace BzccScanner

open CString

theorem foldl_select {α S V : Type} {f : S → α → S} {as : List α} (get : S → V) (sel : α → Bool) (g : V → α → V)
    (h : ∀ a ∈ as, ∀ s, get (f s a) = if sel a then g (get s) a else get s) (s : S) :
    get (as.foldl f s) = (as.filter sel).foldl g (get s) := by
  induction as generalizing s with
  | nil => rfl
  | cons a as ih =>
    obtain ⟨hfirst, hrest⟩ := List.forall_mem_cons.mp h
    rw [List.foldl_cons, ih hrest, hfirst]
    by_cases ha : sel a = true
    · rw [if_pos ha, List.filter_cons_of_pos ha, List.foldl_cons]
    · rw [if_neg ha, List.filter_cons_of_neg ha]

section document

variable (decode : Decoder)

def Field.writePlayer (f : Field) (p : PlayerInfo) : PlayerInfo :=
  (playerCase decode f.scalar.value (getKeyIdentifier .unknown f.label.key.bytes playerKeyToId)).getD id p

def Field.writeServer (f : Field) (g : GameInfo) : GameInfo :=
  (serverCase decode f.scalar.value (getKeyIdentifier .unknown f.label.key.bytes serverKeyToId)).getD id g

def Player.info (p : Player) : PlayerInfo := p.fields.toList.foldl (fun q f => f.writePlayer decode q) .zero

def Member.field? : Member → Option Field
  | field f => some f
  | players _ _ _ => none

/-- A server ends at a scalar, and is displayed with it. -/
def Server.shown (s : Server) : Bool := (s.members.toList.getLast?.bind Member.field?).isSome

def Server.fields (s : Server) : List Field := s.members.toList.filterMap Member.field?

/-- The scalars of the server apply in order, those of a player to the slot that has the
player's number, and the players that have a scalar are counted. -/
def Server.info (s : Server) : GameInfo :=
  let g := s.fields.foldl (fun g f => f.writeServer decode g) .zero
  { (if s.shown then g.nameMods else g) with
    playerCount := (s.playerList.filter Player.delivers).length
    playerinfo := Vector.ofFn fun j => ((s.playerList[j.val]?).map (Player.info decode)).getD .zero }

end document

/-- A member whose text fits, which is marked if it is the final one, and whose player has a slot. -/
structure Placed.Readable (p : Placed) : Prop where
  key : p.field.label.key.bytes.length < keyStrLen ∧ 0 ∉ p.field.label.key.bytes
  value : p.field.scalar.value.length < valueStrLen ∧ 0 ∉ p.field.scalar.value
  bare : p.isFinal = true → p.field.scalar.isQuoted = false
  slot : p.isPlayer = true → p.player < maxPlayers

namespace GameInfo

/-- The part of a record that is about the server alone. -/
def server (g : GameInfo) : GameInfo :=
  { g with
    playerCount := 0
    playerinfo := Vector.replicate _ .zero }

theorem eq_server (g : GameInfo) :
    g = { g.server with playerCount := g.playerCount, playerinfo := g.playerinfo } := rfl

end GameInfo

section records

variable {decode : Decoder} {p : Placed} {ps : List Placed} {g : GameInfo}

theorem Field.writeServer_with (decode : Decoder) (f : Field) (g : GameInfo) (c : Nat)
    (ps : Vector PlayerInfo maxPlayers) :
    f.writeServer decode { g with playerCount := c, playerinfo := ps } =
      { f.writeServer decode g with playerCount := c, playerinfo := ps } := by
  rw [writeServer, writeServer]
  cases getKeyIdentifier .unknown f.label.key.bytes serverKeyToId <;> rfl

def Placed.writeServer (decode : Decoder) (g : GameInfo) (p : Placed) : GameInfo :=
  if p.isFinal then (p.field.writeServer decode g).nameMods else p.field.writeServer decode g

theorem Placed.writeServer_players (decode : Decoder) (g : GameInfo) (p : Placed) :
    (p.writeServer decode g).playerCount = g.playerCount ∧
      (p.writeServer decode g).playerinfo = g.playerinfo := by
  have hfield : (p.field.writeServer decode g).playerCount = g.playerCount ∧
      (p.field.writeServer decode g).playerinfo = g.playerinfo := by
    rw [Field.writeServer]
    cases hf : serverCase decode p.field.scalar.value
      (getKeyIdentifier .unknown p.field.label.key.bytes serverKeyToId) with
    | none => exact ⟨rfl, rfl⟩
    | some f => exact ⟨serverCase_playerCount hf g, serverCase_playerinfo hf g⟩
  rw [Placed.writeServer]
  split_ifs
  · rw [GameInfo.nameMods_playerCount, GameInfo.nameMods_playerinfo]
    exact hfield
  · exact hfield

theorem Placed.Readable.report (h : p.Readable) : p.item.report.isPlayer = p.isPlayer ∧
    p.item.report.key = p.field.label.key.bytes ∧ p.item.report.value = p.field.scalar.value ∧
    (p.isPlayer = true → p.item.report.player = p.player) ∧
    p.item.report.status = if p.isFinal then .last else .normal := by
  have htold := Placed.report_told h.key h.value
  simp only [Report.told, Placed.told, Told.mk.injEq] at htold
  obtain ⟨hplayer, hkey, hvalue, -, -⟩ := htold
  exact ⟨hplayer, hkey, hvalue, fun hp => p.item.report_player (h.slot hp), p.status_eq_iff.mpr h.bare⟩

theorem Placed.Readable.receive_server (h : p.Readable) (hp : p.isPlayer = false) (g : GameInfo) :
    g.receive decode p.item.report = p.writeServer decode g := by
  obtain ⟨hplayer, hkey, hvalue, -, hstatus⟩ := h.report
  rw [GameInfo.receive_server (hplayer.trans hp), GameInfo.receiveServer, GameInfo.writeServer, hkey,
    hvalue, hstatus, Placed.writeServer, Field.writeServer]
  cases serverCase decode p.field.scalar.value
    (getKeyIdentifier .unknown p.field.label.key.bytes serverKeyToId) <;>
    cases p.isFinal <;> rfl

theorem Placed.Readable.receive_player (h : p.Readable) (hp : p.isPlayer = true) (g : GameInfo) :
    g.receive decode p.item.report = { g with
      playerCount := if p.isFinal then g.playerCount + 1 else g.playerCount
      playerinfo := g.playerinfo.set p.player
        (p.field.writePlayer decode (g.playerinfo.get ⟨p.player, h.slot hp⟩)) (h.slot hp) } := by
  obtain ⟨hplayer, hkey, hvalue, hindex, hstatus⟩ := h.report
  have hwrite : g.writePlayer decode p.item.report ⟨p.player, h.slot hp⟩ = { g with
      playerinfo := g.playerinfo.set p.player
        (p.field.writePlayer decode (g.playerinfo.get ⟨p.player, h.slot hp⟩)) (h.slot hp) } := by
    rw [GameInfo.writePlayer, hkey, hvalue, Field.writePlayer]
    cases playerCase decode p.field.scalar.value
      (getKeyIdentifier .unknown p.field.label.key.bytes playerKeyToId) with
    | none =>
      have hsame : g.playerinfo.set p.player (g.playerinfo.get ⟨p.player, h.slot hp⟩) (h.slot hp) =
          g.playerinfo :=
        Vector.set_getElem_self _
      simp only [Option.getD_none, id, hsame]
    | some f => rfl
  rw [GameInfo.receive_player (j := ⟨p.player, h.slot hp⟩) (hplayer.trans hp) (hindex hp), GameInfo.receivePlayer,
    hstatus, hwrite]
  cases p.isFinal <;> rfl

/-- The record behind the members. -/
def receiveAll (decode : Decoder) (ps : List Placed) (g : GameInfo) : GameInfo :=
  ps.foldl (fun g p => g.receive decode p.item.report) g

def Placed.countsPlayer (p : Placed) : Bool := p.isPlayer && p.isFinal

def Placed.ofPlayer (j : Nat) (p : Placed) : Bool := p.isPlayer && p.player == j

theorem foldl_server (h : ∀ p ∈ ps, p.Readable) (g : GameInfo) :
    (receiveAll decode ps g).server =
      (ps.filter fun p => !p.isPlayer).foldl (Placed.writeServer decode) g.server := by
  refine foldl_select GameInfo.server (fun p : Placed => !p.isPlayer) (Placed.writeServer decode)
    (fun p hp g => ?_) g
  cases hplayer : p.isPlayer with
  | true =>
    rw [(h p hp).receive_player hplayer]
    rfl
  | false =>
    rw [(h p hp).receive_server hplayer]
    simp only [Placed.writeServer, GameInfo.server, Field.writeServer_with]
    cases p.isFinal <;> rfl

variable (decode) in
theorem foldl_playerCount (h : ∀ p ∈ ps, p.Readable) (g : GameInfo) :
    (receiveAll decode ps g).playerCount =
      g.playerCount + (ps.filter Placed.countsPlayer).length := by
  rw [receiveAll, foldl_select GameInfo.playerCount Placed.countsPlayer (fun c _ => c + 1) (fun p hp g => ?_) g]
  · generalize ps.filter Placed.countsPlayer = counted
    generalize g.playerCount = c
    induction counted generalizing c with
    | nil => rfl
    | cons p counted ih => rw [List.foldl_cons, ih, List.length_cons, Nat.add_assoc, Nat.add_comm 1]
  · cases hplayer : p.isPlayer with
    | true =>
      rw [(h p hp).receive_player hplayer, Placed.countsPlayer, hplayer, Bool.true_and]
    | false =>
      rw [(h p hp).receive_server hplayer, Placed.countsPlayer, hplayer]
      exact (p.writeServer_players decode g).1

variable (decode) in
theorem foldl_playerinfo (h : ∀ p ∈ ps, p.Readable) (g : GameInfo) (j : Fin maxPlayers) :
    (receiveAll decode ps g).playerinfo.get j =
      ((ps.filter (Placed.ofPlayer j)).map Placed.field).foldl
        (fun q f => f.writePlayer decode q) (g.playerinfo.get j) := by
  rw [receiveAll, List.foldl_map,
    ← foldl_select (fun g : GameInfo => g.playerinfo.get j) _ _ (fun p hp g => ?_) g]
  cases hplayer : p.isPlayer with
  | true =>
    rw [(h p hp).receive_player hplayer, Placed.ofPlayer, hplayer, Bool.true_and]
    refine (Vector.getElem_set ((h p hp).slot hplayer) j.isLt).trans ?_
    by_cases hj : p.player = j
    · rw [if_pos hj, if_pos (by simp [hj])]
      congr 2
      exact Fin.ext hj
    · rw [if_neg hj, if_neg (by simp [hj])]
      rfl
  | false =>
    rw [(h p hp).receive_server hplayer, Placed.ofPlayer, hplayer]
    exact congrArg (·.get j) (p.writeServer_players decode g).2

end records

section places

variable {n j k : Nat}

theorem placePlayers_append (n j : Nat) (ps qs : List Player) :
    placePlayers n j (ps ++ qs) = placePlayers n j ps ++ placePlayers n (j + ps.length) qs := by
  induction ps generalizing j with
  | nil => rfl
  | cons p ps ih =>
    rw [List.cons_append, placePlayers, placePlayers, ih, List.append_assoc, List.length_cons, Nat.add_assoc,
      Nat.add_comm 1]

theorem placeFields_ofPlayer (n j k : Nat) (fs : List Field) :
    ((placeFields n j fs).filter (Placed.ofPlayer k)).map Placed.field = if j = k then fs else [] := by
  induction fs with
  | nil => simp [placeFields]
  | cons f fs ih =>
    rw [placeFields]
    by_cases hjk : j = k
    · rw [List.filter_cons_of_pos (by simp [Placed.ofPlayer, hjk]), List.map_cons, ih, if_pos hjk, if_pos hjk]
    · rw [List.filter_cons_of_neg (by simp [Placed.ofPlayer, hjk]), ih, if_neg hjk, if_neg hjk]

/-- The fields of the player `k`, counted from the player `j` on. -/
theorem placePlayers_ofPlayer (n : Nat) (ps : List Player) (hjk : j ≤ k) :
    ((placePlayers n j ps).filter (Placed.ofPlayer k)).map Placed.field =
      ((ps[k - j]?).map fun p => p.fields.toList).getD [] := by
  induction ps generalizing j with
  | nil => rfl
  | cons p ps ih =>
    rw [placePlayers, List.filter_append, List.map_append, placeFields_ofPlayer]
    by_cases he : j = k
    · subst he
      have hlater : (placePlayers n (j + 1) ps).filter (Placed.ofPlayer j) = [] := by
        refine List.filter_eq_nil_iff.mpr fun q hq => ?_
        have hnumber := (mem_placePlayers hq).2.2.2
        simp only [Placed.ofPlayer, Bool.and_eq_true, beq_iff_eq, not_and]
        omega
      rw [if_pos rfl, hlater, Nat.sub_self]
      exact List.append_nil _
    · rw [if_neg he, ih (by omega), List.nil_append, show k - j = k - (j + 1) + 1 by omega,
        List.getElem?_cons_succ]

theorem placeFields_countsPlayer (n j : Nat) (fs : List Field) :
    ((placeFields n j fs).filter Placed.countsPlayer).length = if fs.isEmpty then 0 else 1 := by
  induction fs with
  | nil => rfl
  | cons f fs ih =>
    rw [placeFields]
    cases fs with
    | nil => rfl
    | cons g fs =>
      rw [List.filter_cons_of_neg (by simp [Placed.countsPlayer]), ih]
      rfl

theorem placePlayers_countsPlayer (n j : Nat) (ps : List Player) :
    ((placePlayers n j ps).filter Placed.countsPlayer).length = (ps.filter Player.delivers).length := by
  induction ps generalizing j with
  | nil => rfl
  | cons p ps ih =>
    rw [placePlayers, List.filter_append, List.length_append, placeFields_countsPlayer, ih, List.filter_cons,
      Player.delivers]
    cases p.fields.toList.isEmpty with
    | true => simp
    | false => simp [Nat.add_comm]

theorem placePlayers_isPlayer (n j : Nat) (ps : List Player) :
    (placePlayers n j ps).filter Placed.isPlayer = placePlayers n j ps :=
  List.filter_eq_self.mpr fun _ hp => (mem_placePlayers hp).1

theorem placeMembers_isPlayer (n j : Nat) (ms : List Member) :
    (placeMembers n j ms).filter Placed.isPlayer = placePlayers n j (ms.flatMap Member.playerList) := by
  induction ms generalizing j with
  | nil => rfl
  | cons m ms ih =>
    cases m with
    | field f => exact (List.filter_cons_of_neg (by simp)).trans (ih j)
    | players label ps after =>
      rw [placeMembers, List.filter_append, placePlayers_isPlayer, ih, List.flatMap_cons, placePlayers_append]
      rfl

theorem filter_isPlayer {f : Placed → Bool} (hf : ∀ p, f p = true → p.isPlayer = true) (ps : List Placed) :
    ps.filter f = (ps.filter Placed.isPlayer).filter f := by
  rw [List.filter_filter]
  refine List.filter_congr fun p _ => ?_
  cases hp : f p with
  | true => simp [hf p hp]
  | false => rfl

/-- The scalars of a server, the last of which is marked if nothing is behind it. -/
theorem foldl_writeServer (decode : Decoder) (n j : Nat) (ms : List Member) (g : GameInfo) :
    ((placeMembers n j ms).filter fun p => !p.isPlayer).foldl (Placed.writeServer decode) g =
      let g := (ms.filterMap Member.field?).foldl (fun g f => f.writeServer decode g) g
      if (ms.getLast?.bind Member.field?).isSome then g.nameMods else g := by
  induction ms generalizing j g with
  | nil => rfl
  | cons m ms ih =>
    have hlast : ms ≠ [] → (m :: ms).getLast? = ms.getLast? := fun hne => by
      obtain ⟨m', ms', rfl⟩ := List.exists_cons_of_ne_nil hne
      exact List.getLast?_cons_cons
    cases m with
    | field f =>
      have hfields : (Member.field f :: ms).filterMap Member.field? = f :: ms.filterMap Member.field? := rfl
      rw [placeMembers, List.filter_cons_of_pos rfl, List.foldl_cons, ih, hfields, List.foldl_cons]
      cases ms with
      | nil => rfl
      | cons m' ms' =>
        rw [hlast (by simp)]
        rfl
    | players label ps after =>
      have hnone : (placePlayers n j ps.toList).filter (fun p => !p.isPlayer) = [] :=
        List.filter_eq_nil_iff.mpr fun p hp => by simp [(mem_placePlayers hp).1]
      have hfields : (Member.players label ps after :: ms).filterMap Member.field? = ms.filterMap Member.field? :=
        rfl
      rw [placeMembers, List.filter_append, hnone, List.nil_append, ih, hfields]
      cases ms with
      | nil => rfl
      | cons m' ms' => rw [hlast (by simp)]

/-- The members of the server `n`, counted from the server `m` on. -/
theorem placeServers_filter {m : Nat} (ss : List Server) (hmn : m ≤ n) :
    (placeServers m ss).filter (fun p => p.server == n) =
      ((ss[n - m]?).map fun s => placeMembers n 0 s.members.toList).getD [] := by
  induction ss generalizing m with
  | nil => rfl
  | cons s ss ih =>
    rw [placeServers, List.filter_append]
    by_cases he : m = n
    · subst he
      have hall : (placeMembers m 0 s.members.toList).filter (fun p => p.server == m) =
          placeMembers m 0 s.members.toList :=
        List.filter_eq_self.mpr fun p hp => by simp [(mem_placeMembers hp).1]
      have hlater : (placeServers (m + 1) ss).filter (fun p => p.server == m) = [] := by
        refine List.filter_eq_nil_iff.mpr fun p hp => ?_
        obtain ⟨i, t, -, hm⟩ := mem_placeServers.mp hp
        rw [(mem_placeMembers hm).1]
        simp
        omega
      rw [hall, hlater, Nat.sub_self]
      exact List.append_nil _
    · have hnone : (placeMembers m 0 s.members.toList).filter (fun p => p.server == n) = [] :=
        List.filter_eq_nil_iff.mpr fun p hp => by simp [(mem_placeMembers hp).1, he]
      rw [hnone, ih (by omega), List.nil_append, show n - m = n - (m + 1) + 1 by omega, List.getElem?_cons_succ]

theorem placeMembers_ends (n j : Nat) (ms : List Member) :
    ((placeMembers n j ms).filter fun p => !p.isPlayer && p.isFinal).map Placed.server =
      if (ms.getLast?.bind Member.field?).isSome then [n] else [] := by
  induction ms generalizing j with
  | nil => rfl
  | cons m ms ih =>
    cases m with
    | field f =>
      rw [placeMembers]
      cases ms with
      | nil => rfl
      | cons m' ms' =>
        rw [List.filter_cons_of_neg (by simp), ih, List.getLast?_cons_cons]
    | players label ps after =>
      have hnone : (placePlayers n j ps.toList).filter (fun p => !p.isPlayer && p.isFinal) = [] :=
        List.filter_eq_nil_iff.mpr fun p hp => by simp [(mem_placePlayers hp).1]
      rw [placeMembers, List.filter_append, hnone, List.nil_append, ih]
      cases ms with
      | nil => rfl
      | cons m' ms' => rw [List.getLast?_cons_cons]

/-- The servers that are displayed, with their places. -/
theorem placeServers_ends (m : Nat) (ss : List Server) :
    ((placeServers m ss).filter fun p => !p.isPlayer && p.isFinal).map Placed.server =
      ((ss.zipIdx m).filter fun x => x.1.shown).map Prod.snd := by
  induction ss generalizing m with
  | nil => rfl
  | cons s ss ih =>
    rw [placeServers, List.filter_append, List.map_append, placeMembers_ends, ih, List.zipIdx_cons,
      List.filter_cons]
    change (if s.shown then [m] else []) ++ _ = _
    cases s.shown <;> rfl

end places

variable {decode : Decoder} {l : Lobby} {s : Server} {n : Nat}

theorem Lobby.placed_server (hs : l.servers.toList[n]? = some s) :
    l.placed.filter (fun p => p.server == n) = placeMembers n 0 s.members.toList := by
  rw [Lobby.placed, placeServers_filter _ (Nat.zero_le n), Nat.sub_zero, hs]
  rfl

/-- The record of a server is what the document says about it. -/
theorem gameOf_lobby (h : ∀ p ∈ l.placed, p.Readable) (hl : ∀ p ∈ l.placed, p.server < maxServers)
    (hs : l.servers.toList[n]? = some s) :
    gameOf decode n (l.placed.map fun p => p.item.report) = s.info decode := by
  have hmembers : ∀ p ∈ placeMembers n 0 s.members.toList, p.Readable := fun p hp =>
    h p (List.mem_filter.mp (Lobby.placed_server hs ▸ hp)).1
  have hgame : gameOf decode n (l.placed.map fun p => p.item.report) =
      receiveAll decode (placeMembers n 0 s.members.toList) .zero := by
    have hsame : l.placed.filter ((fun k => k.server == n) ∘ fun p => p.item.report) = l.placed.filter fun p =>
        p.server == n :=
      List.filter_congr fun p hp => congrArg (· == n) (p.item.report_server (hl p hp))
    rw [receiveAll, gameOf, List.filter_map, List.foldl_map, ← Lobby.placed_server hs, hsame]
  have hplayers : ∀ f : Placed → Bool, (∀ p, f p = true → p.isPlayer = true) →
      (placeMembers n 0 s.members.toList).filter f = (placePlayers n 0 s.playerList).filter f := fun f hf => by
    rw [filter_isPlayer hf, placeMembers_isPlayer]
    rfl
  have hinfo : (receiveAll decode (placeMembers n 0 s.members.toList) .zero).playerinfo =
      Vector.ofFn fun j => ((s.playerList[j.val]?).map (Player.info decode)).getD .zero := by
    refine Vector.ext fun j hj => ?_
    have hslot := foldl_playerinfo decode hmembers .zero ⟨j, hj⟩
    have hzero : GameInfo.zero.playerinfo.get ⟨j, hj⟩ = .zero := Vector.getElem_replicate hj
    rw [hplayers _ (by simp +contextual [Placed.ofPlayer]), placePlayers_ofPlayer n s.playerList (Nat.zero_le j),
      hzero] at hslot
    rw [Vector.getElem_ofFn]
    refine hslot.trans ?_
    cases s.playerList[j]? <;> rfl
  have hcount := foldl_playerCount decode hmembers .zero
  rw [hplayers _ (by simp +contextual [Placed.countsPlayer]), placePlayers_countsPlayer] at hcount
  have hzero : GameInfo.zero.server = .zero := rfl
  rw [hgame, GameInfo.eq_server (receiveAll _ _ _), foldl_server hmembers, hzero, hcount, hinfo,
    foldl_writeServer, Server.info]
  simp only [GameInfo.zero, Nat.zero_add]
  rfl

end BzccScanner
