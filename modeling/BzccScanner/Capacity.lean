import BzccScanner.HttpFileAgreement
import BzccScanner.LobbyReports
import BzccScanner.NoStaleData

/-! Scans of lobby documents within `MAX_SERVERS` and `MAX_PLAYERS`: when the
consumer accepts every member. -/

namespace BzccScanner

open CString

def At {α : Type} (f : α → Bool) (l : List α) (n : Nat) : Prop := ∃ a, l[n]? = some a ∧ f a = true

section at_lemmas

variable {α : Type} {f : α → Bool} {a : α} {l m : List α} {n : Nat}

theorem at_nil : ¬ At f [] n := by simp [At]

theorem at_cons_zero : At f (a :: l) 0 ↔ f a = true := by simp [At]

theorem at_cons_succ : At f (a :: l) (n + 1) ↔ At f l n := by simp [At]

theorem at_append : At f (l ++ m) n ↔ At f l n ∨ l.length ≤ n ∧ At f m (n - l.length) := by
  induction l generalizing n with
  | nil => simp [at_nil]
  | cons a l ih =>
    cases n with
    | zero => simp [at_cons_zero]
    | succ n => simp [at_cons_succ, ih]

theorem exists_at : (∃ n, At f l n) ↔ l.any f = true := by
  simp only [At, List.any_eq_true, List.mem_iff_getElem?]
  exact ⟨fun ⟨n, a, h, hf⟩ => ⟨a, ⟨n, h⟩, hf⟩, fun ⟨a, ⟨n, h⟩, hf⟩ => ⟨n, a, h, hf⟩⟩

theorem pairwise_iff_at : (l.Pairwise fun a b => f b = true → f a = true) ↔
    ∀ n, At f l n → ∀ m < n, At f l m := by
  induction l with
  | nil => simp [at_nil]
  | cons a l ih =>
    rw [List.pairwise_cons, ih]
    constructor
    · rintro ⟨ha, hl⟩ n hn m hm
      cases n with
      | zero => omega
      | succ n =>
        rw [at_cons_succ] at hn
        cases m with
        | zero =>
          obtain ⟨b, hb, hf⟩ := hn
          exact at_cons_zero.mpr (ha b (List.mem_of_getElem? hb) hf)
        | succ m => exact at_cons_succ.mpr (hl n hn m (by omega))
    · intro h
      refine ⟨fun b hb hf => ?_, fun n hn m hm => ?_⟩
      · obtain ⟨n, hn⟩ := List.mem_iff_getElem?.mp hb
        exact at_cons_zero.mp (h (n + 1) (at_cons_succ.mpr ⟨b, hn, hf⟩) 0 (by omega))
      · exact at_cons_succ.mp (h (n + 1) (at_cons_succ.mpr hn) (m + 1) (by omega))

theorem length_filter_of_at {c : Nat} (h : ∀ n, At f l n ↔ n < c) : (l.filter f).length = c := by
  induction l generalizing c with
  | nil =>
    cases c with
    | zero => rfl
    | succ c => exact absurd ((h 0).mpr (by omega)) at_nil
  | cons a l ih =>
    have h0 := h 0
    rw [at_cons_zero] at h0
    cases c with
    | zero =>
      rw [List.filter_cons_of_neg (fun hf => absurd (h0.mp hf) (by omega))]
      apply ih
      intro n
      rw [← at_cons_succ (a := a), h]
      omega
    | succ c =>
      rw [List.filter_cons_of_pos (h0.mpr (by omega)), List.length_cons]
      refine congrArg (· + 1) (ih fun n => ?_)
      rw [← at_cons_succ (a := a), h]
      omega

end at_lemmas

def Player.delivers (p : Player) : Bool := !p.fields.toList.isEmpty

def Member.playerList : Member → List Player
  | field _ => []
  | players _ ps _ => ps.toList

def Member.delivers : Member → Bool
  | field _ => true
  | players _ ps _ => ps.toList.any Player.delivers

def Server.playerList (s : Server) : List Player := s.members.toList.flatMap Member.playerList

def Server.delivers (s : Server) : Bool := s.members.toList.any Member.delivers

structure Lobby.WithinCapacity (l : Lobby) : Prop where
  servers_le : l.servers.toList.length ≤ maxServers
  players_le : ∀ s ∈ l.servers.toList, s.playerList.length ≤ maxPlayers

/-- No server or player that delivers nothing stands in front of one that
delivers something, and no member of a server stands behind its last possible
player. -/
structure Lobby.Gapless (l : Lobby) : Prop where
  servers : l.servers.toList.Pairwise fun s t => t.delivers = true → s.delivers = true
  players : ∀ s ∈ l.servers.toList, s.playerList.Pairwise fun p q => q.delivers = true → p.delivers = true
  inRange : ∀ p ∈ l.placed, p.isPlayer = false → p.player < maxPlayers

def Lobby.reports (l : Lobby) : List Report := l.placed.map fun p => p.item.report

/-- A server whose final member is a bare scalar, with which it shows its game,
has a game type that is listed. -/
def Lobby.Listed (l : Lobby) : Prop :=
  ∀ p ∈ l.placed, p.isPlayer = false → p.item.status = .last →
    ListedType (number (lastServerValue l.reports p.server .gametype))

section placed

variable {n j m : Nat}

theorem mem_placeFields {fs : List Field} {p : Placed} (h : p ∈ placeFields n j fs) :
    p.isPlayer = true ∧ p.server = n ∧ p.player = j := by
  induction fs with
  | nil => simp [placeFields] at h
  | cons f fs ih =>
    rw [placeFields, List.mem_cons] at h
    rcases h with rfl | h
    · exact ⟨rfl, rfl, rfl⟩
    · exact ih h

theorem exists_placeFields (n j : Nat) {fs : List Field} : (∃ p, p ∈ placeFields n j fs) ↔ fs ≠ [] := by
  cases fs <;> simp [placeFields]

theorem mem_placePlayers {ps : List Player} {p : Placed} (h : p ∈ placePlayers n j ps) :
    p.isPlayer = true ∧ p.server = n ∧ At Player.delivers ps (p.player - j) ∧ j ≤ p.player := by
  induction ps generalizing j with
  | nil => simp [placePlayers] at h
  | cons q ps ih =>
    rw [placePlayers, List.mem_append] at h
    rcases h with h | h
    · obtain ⟨h1, h2, rfl⟩ := mem_placeFields h
      refine ⟨h1, h2, ?_, Nat.le_refl _⟩
      rw [Nat.sub_self, at_cons_zero, Player.delivers]
      have := (exists_placeFields n p.player).mp ⟨p, h⟩
      simpa using this
    · obtain ⟨h1, h2, h3, h4⟩ := ih h
      refine ⟨h1, h2, ?_, by omega⟩
      rw [show p.player - j = p.player - (j + 1) + 1 by omega, at_cons_succ]
      exact h3

theorem exists_placePlayers {ps : List Player} (h : At Player.delivers ps m) :
    ∃ p ∈ placePlayers n j ps, p.player = j + m := by
  induction ps generalizing j m with
  | nil => exact absurd h at_nil
  | cons q ps ih =>
    cases m with
    | zero =>
      rw [at_cons_zero, Player.delivers] at h
      obtain ⟨p, hp⟩ := (exists_placeFields n j).mpr (by simpa using h)
      exact ⟨p, by rw [placePlayers]; exact List.mem_append_left _ hp, (mem_placeFields hp).2.2⟩
    | succ m =>
      obtain ⟨p, hp, he⟩ := ih (j := j + 1) (at_cons_succ.mp h)
      exact ⟨p, by rw [placePlayers]; exact List.mem_append_right _ hp, by omega⟩

theorem mem_placeMembers {ms : List Member} {p : Placed} (h : p ∈ placeMembers n j ms) :
    p.server = n ∧ ms.any Member.delivers = true ∧
      (p.isPlayer = true → At Player.delivers (ms.flatMap Member.playerList) (p.player - j) ∧ j ≤ p.player) := by
  induction ms generalizing j with
  | nil => simp [placeMembers] at h
  | cons q ms ih =>
    cases q with
    | field f =>
      rw [placeMembers, List.mem_cons] at h
      rcases h with rfl | h
      · exact ⟨rfl, by simp [Member.delivers], by simp⟩
      · obtain ⟨h1, h2, h3⟩ := ih h
        exact ⟨h1, by simp [Member.delivers], h3⟩
    | players label ps after =>
      rw [placeMembers, List.mem_append] at h
      rw [List.any_cons, List.flatMap_cons, Member.delivers, Member.playerList]
      rcases h with h | h
      · obtain ⟨-, h2, h3, h4⟩ := mem_placePlayers h
        exact ⟨h2, by rw [exists_at.mp ⟨_, h3⟩]; rfl, fun _ => ⟨at_append.mpr (.inl h3), h4⟩⟩
      · obtain ⟨h1, h2, h3⟩ := ih h
        refine ⟨h1, by rw [h2, Bool.or_true], fun hp => ?_⟩
        obtain ⟨h4, h5⟩ := h3 hp
        refine ⟨at_append.mpr (.inr ⟨by omega, ?_⟩), by omega⟩
        rwa [Nat.sub_sub]

theorem placeMembers_player_le {ms : List Member} {p : Placed} (h : p ∈ placeMembers n j ms) :
    p.player ≤ j + (ms.flatMap Member.playerList).length := by
  induction ms generalizing j with
  | nil => simp [placeMembers] at h
  | cons q ms ih =>
    cases q with
    | field f =>
      rw [placeMembers, List.mem_cons] at h
      rcases h with rfl | h
      · exact Nat.le_add_right _ _
      · exact ih h
    | players label ps after =>
      rw [placeMembers, List.mem_append] at h
      rw [List.flatMap_cons, Member.playerList, List.length_append]
      rcases h with h | h
      · obtain ⟨-, -, ⟨q, hq, -⟩, hle⟩ := mem_placePlayers h
        have := (List.getElem?_eq_some_iff.mp hq).1
        omega
      · have := ih h
        omega

theorem exists_placeMembers_player {ms : List Member} (h : At Player.delivers (ms.flatMap Member.playerList) m) :
    ∃ p ∈ placeMembers n j ms, p.isPlayer = true ∧ p.player = j + m := by
  induction ms generalizing j m with
  | nil => exact absurd h at_nil
  | cons q ms ih =>
    rw [List.flatMap_cons] at h
    cases q with
    | field f =>
      obtain ⟨p, hp, he⟩ := ih (j := j) h
      exact ⟨p, List.mem_cons_of_mem _ hp, he⟩
    | players label ps after =>
      rw [placeMembers]
      rcases at_append.mp h with h | ⟨hle, h⟩
      · obtain ⟨p, hp, he⟩ := exists_placePlayers (n := n) (j := j) h
        exact ⟨p, List.mem_append_left _ hp, (mem_placePlayers hp).1, he⟩
      · obtain ⟨p, hp, hpl, he⟩ := ih (j := j + ps.toList.length) h
        refine ⟨p, List.mem_append_right _ hp, hpl, ?_⟩
        simp only [Member.playerList] at hle he
        omega

theorem exists_placeMembers {ms : List Member} (h : ms.any Member.delivers = true) :
    ∃ p, p ∈ placeMembers n j ms := by
  induction ms generalizing j with
  | nil => simp at h
  | cons q ms ih =>
    cases q with
    | field f => exact ⟨_, List.mem_cons_self⟩
    | players label ps after =>
      rw [placeMembers]
      rw [List.any_cons, Bool.or_eq_true] at h
      rcases h with h | h
      · obtain ⟨m, hm⟩ := exists_at.mpr h
        obtain ⟨p, hp, -⟩ := exists_placePlayers (n := n) (j := j) hm
        exact ⟨p, List.mem_append_left _ hp⟩
      · obtain ⟨p, hp⟩ := ih (j := j + ps.toList.length) h
        exact ⟨p, List.mem_append_right _ hp⟩

theorem mem_placeServers {ss : List Server} {p : Placed} :
    p ∈ placeServers n ss ↔ ∃ i s, ss[i]? = some s ∧ p ∈ placeMembers (n + i) 0 s.members.toList := by
  induction ss generalizing n with
  | nil => simp [placeServers]
  | cons s ss ih =>
    rw [placeServers, List.mem_append, ih]
    constructor
    · rintro (h | ⟨i, t, ht, h⟩)
      · exact ⟨0, s, rfl, h⟩
      · exact ⟨i + 1, t, ht, by rwa [show n + (i + 1) = n + 1 + i by omega]⟩
    · rintro ⟨i, t, ht, h⟩
      cases i with
      | zero =>
        obtain rfl : s = t := Option.some.inj ht
        exact .inl h
      | succ i => exact .inr ⟨i, t, ht, by rwa [show n + 1 + i = n + (i + 1) by omega]⟩

end placed

namespace Lobby

variable {l : Lobby} {n m : Nat}

theorem mem_placed {p : Placed} : p ∈ l.placed ↔
    ∃ s, l.servers.toList[p.server]? = some s ∧ p ∈ placeMembers p.server 0 s.members.toList := by
  rw [placed, mem_placeServers]
  constructor
  · rintro ⟨i, s, hs, h⟩
    rw [Nat.zero_add] at h
    obtain rfl := (mem_placeMembers h).1
    exact ⟨s, hs, h⟩
  · rintro ⟨s, hs, h⟩
    exact ⟨_, s, hs, by rwa [Nat.zero_add]⟩

theorem exists_server : (∃ p ∈ l.placed, p.server = n) ↔ At Server.delivers l.servers.toList n := by
  constructor
  · rintro ⟨p, hp, rfl⟩
    obtain ⟨s, hs, h⟩ := mem_placed.mp hp
    exact ⟨s, hs, (mem_placeMembers h).2.1⟩
  · rintro ⟨s, hs, h⟩
    obtain ⟨p, hp⟩ := exists_placeMembers (n := n) (j := 0) h
    obtain rfl := (mem_placeMembers hp).1
    exact ⟨p, mem_placed.mpr ⟨s, hs, hp⟩, rfl⟩

theorem exists_player {s : Server} (hs : l.servers.toList[n]? = some s) :
    (∃ p ∈ l.placed, p.isPlayer = true ∧ p.server = n ∧ p.player = m) ↔ At Player.delivers s.playerList m := by
  constructor
  · rintro ⟨p, hp, hpl, rfl, rfl⟩
    obtain ⟨t, ht, h⟩ := mem_placed.mp hp
    obtain rfl : s = t := Option.some.inj (hs.symm.trans ht)
    exact ((mem_placeMembers h).2.2 hpl).1
  · intro h
    obtain ⟨p, hp, hpl, he⟩ := exists_placeMembers_player (n := n) (j := 0) h
    obtain rfl := (mem_placeMembers hp).1
    exact ⟨p, mem_placed.mpr ⟨s, hs, hp⟩, hpl, rfl, by omega⟩

theorem depth_eq_five (p : Placed) : p.item.depth = 5 ↔ p.isPlayer = true := by
  cases h : p.isPlayer <;> simp [Placed.item, h]

theorem exists_item {P : Item → Prop} :
    (∃ i ∈ l.placed.map Placed.item, P i) ↔ ∃ p ∈ l.placed, P p.item := by
  simp only [List.mem_map, exists_exists_and_eq_and]

theorem continues_iff (h : l.WithinCapacity) {p : Placed} (hp : p ∈ l.placed) :
    p.item.Continues (l.placed.map Placed.item) ↔ (p.isPlayer = false → p.player < maxPlayers) ∧
      (∀ i < p.server, At Server.delivers l.servers.toList i) ∧
      (p.isPlayer = true → ∀ s, l.servers.toList[p.server]? = some s →
        ∀ i < p.player, At Player.delivers s.playerList i) := by
  obtain ⟨s, hs, hm⟩ := mem_placed.mp hp
  have hserver : p.server < maxServers := by
    have := (List.getElem?_eq_some_iff.mp hs).1
    have := h.servers_le
    omega
  have hplayer : p.isPlayer = true → p.player < maxPlayers := by
    intro hpl
    obtain ⟨q, hq, -⟩ := ((mem_placeMembers hm).2.2 hpl).1
    have := (List.getElem?_eq_some_iff.mp hq).1
    have := h.players_le s (List.mem_of_getElem? hs)
    rw [Server.playerList] at this
    omega
  simp only [Item.Continues, exists_item, depth_eq_five]
  simp only [Placed.item, exists_server, exists_player hs, hs, Option.some.injEq, forall_eq']
  cases hpl : p.isPlayer <;> simp_all

theorem complete_iff (h : l.WithinCapacity) : Complete (l.placed.map Placed.item) ↔ l.Gapless := by
  simp only [Complete, List.forall_mem_map]
  constructor
  · intro hc
    refine ⟨pairwise_iff_at.mpr ?_, ?_, fun p hp => ((continues_iff h hp).mp (hc p hp)).1⟩
    · intro n hn
      obtain ⟨p, hp, rfl⟩ := exists_server.mpr hn
      exact ((continues_iff h hp).mp (hc p hp)).2.1
    · intro s hs
      obtain ⟨n, hn⟩ := List.mem_iff_getElem?.mp hs
      apply pairwise_iff_at.mpr
      intro m hm
      obtain ⟨p, hp, hpl, rfl, rfl⟩ := (exists_player hn).mpr hm
      exact ((continues_iff h hp).mp (hc p hp)).2.2 hpl s hn
  · intro hg p hp
    refine (continues_iff h hp).mpr ⟨hg.inRange p hp, ?_, ?_⟩
    · exact pairwise_iff_at.mp hg.servers _ (exists_server.mp ⟨p, hp, rfl⟩)
    · intro hpl s hs
      exact pairwise_iff_at.mp (hg.players s (List.mem_of_getElem? hs)) _
        ((exists_player hs).mp ⟨p, hp, hpl, rfl, rfl⟩)

end Lobby

namespace Reader

variable {r t : Reader} {pos : UInt32} {c : Byte}

theorem expectNext_length (h : r.expectNext pos c = .ok t) : r.stack.length ≤ t.stack.length + 1 := by
  cases hst : r.stack with
  | nil => exact Nat.zero_le _
  | cons b st =>
    cases b with
    | true =>
      rw [expectNext_array hst] at h
      split_ifs at h <;> obtain rfl := Except.ok.inj h <;> simp [closeArray, hst]
    | false =>
      rw [expectNext_object hst] at h
      split_ifs at h <;> obtain rfl := Except.ok.inj h <;> simp [closeObject, hst]

theorem step_depth (h : (r.step pos c).2 = .ok t) {i : Item} (hi : i ∈ (r.step pos c).1) :
    i.depth ≤ t.stack.length + 1 := by
  rw [step] at h hi
  cases hj : r.jState with
  | expectReadValue =>
    simp only [hj, expectReadValue] at h hi
    split_ifs at h hi
    all_goals try simp at hi
    · cases hu : unescape c <;> simp [hu] at hi
    · subst hi
      obtain rfl := Except.ok.inj h
      exact Nat.le_succ _
    all_goals
      subst hi
      exact expectNext_length (r := r.completed) h
  | _ => simp [hj] at hi

end Reader

/-- How a document arrives: from a file, or behind a head that declares no
length or one that covers it. -/
inductive Delivery (l : Lobby)
  | file
  | http (head : Head) (h : head.contentLength = 0 ∨ l.text.length ≤ head.contentLength.toNat)

namespace Delivery

variable {l : Lobby}

def usingHttp : Delivery l → Bool
  | file => false
  | http _ _ => true

def text : Delivery l → List Byte
  | file => l.text
  | http head _ => head.text ++ l.text

def scan (t : Delivery l) (d : Division t.text) (garbage : KeyValueInfo) : ScanRun where
  source := if t.usingHttp then .http (.ok d.reads) else .file (.ok d.reads)
  garbage := garbage
  cancels := fun _ => false

end Delivery

namespace Lobby

variable {l : Lobby}

theorem run_front (l : Lobby) : ∃ t, Reader.init.run (l.text.take (l.text.length - 1)) =
    (l.placed.map Placed.item, .ok t) := by
  have hrun := Reader.run_document l.document l.root_objectsLast
  rw [show l.document.items = l.placed.map Placed.item from l.root_items] at hrun
  have hne : l.text ≠ [] := by simp [Lobby.text, Lobby.root, Json.text]
  have hsplit : l.text = l.text.take (l.text.length - 1) ++ [l.text.getLast hne] := by
    rw [← List.dropLast_eq_take, List.dropLast_append_getLast]
  have hall : Reader.init.run l.text = _ := hrun
  rw [hsplit] at hall
  obtain ⟨o, u, hu⟩ := Mealy.run_prefix_ok hall
  refine ⟨u, hu.trans (congrArg (·, Except.ok u) ?_)⟩
  rw [Reader.run, Mealy.run_append_ok hu] at hall
  obtain ⟨hitems, hend⟩ := Prod.mk.inj hall
  cases hr : u.read (l.text.getLast hne) with
  | mk out res =>
    cases res with
    | error e => simp [Mealy.run_cons_error hr] at hend
    | ok t =>
      rw [Mealy.run_cons_ok hr] at hitems hend
      simp only [Mealy.run, List.append_nil, Except.ok.injEq] at hitems hend
      have hstep : (u.step 0 (l.text.getLast hne)).2 = .ok t := Reader.step_of_read (congrArg Prod.snd hr)
      have hout : out = [] := by
        rw [List.eq_nil_iff_forall_not_mem]
        intro i hi
        have hd := Reader.step_depth hstep (i := i) (congrArg Prod.fst hr ▸ hi)
        obtain ⟨p, -, rfl⟩ := List.mem_map.mp (hitems ▸ List.mem_append_right o hi)
        have hp := Lobby.item_delivered p
        simp only [hend, Reader.resting, List.length_nil] at hd
        simp only [Item.delivered, Bool.or_eq_true, beq_iff_eq] at hp
        omega
      rw [← hitems, hout, List.append_nil]

theorem run_delivery (t : Delivery l) : ∃ out,
    observe ((Client.init t.usingHttp).run t.text) = (l.placed.map Placed.item, out) ∧ endCode out = some 0 := by
  obtain ⟨r, hr⟩ := l.run_text
  cases t with
  | file =>
    refine ⟨.ok r, ?_, rfl⟩
    rw [← hr]
    exact Client.run_file _
  | http head h =>
    by_cases hu : (Client.atBody head.contentLength).Unlimited l.text.length
    · refine ⟨.ok r, ?_, rfl⟩
      rw [← hr]
      refine Eq.trans ?_ (Client.run_reader (s := Client.atBody head.contentLength) rfl _ hu)
      exact congrArg observe (Mealy.run_append_silent (Client.run_head head) l.text)
    · rw [Client.Unlimited, not_or] at hu
      have hle := h.resolve_left hu.1
      have hge := hu.2
      simp only [Client.atBody, UInt32.toNat_zero, Nat.zero_add, Nat.not_lt] at hge
      have hpos : head.contentLength.toNat ≠ 0 := fun h0 => hu.1 (UInt32.toNat_inj.mp h0)
      have hlen : head.contentLength.toNat = l.text.length - 1 + 1 := by omega
      have hlt : l.text.length - 1 < l.text.length := by omega
      obtain ⟨u, hfront⟩ := l.run_front
      refine ⟨.error (some 0), ?_, rfl⟩
      apply (Response.observe_declared head hlen hlt).trans
      rw [hfront]
      rfl

theorem placed_ordered (l : Lobby) : (l.placed.map Placed.item).Pairwise Item.Precedes := by
  obtain ⟨out, ho, -⟩ := run_delivery (.file : Delivery l)
  have h := (Client.init false).run_ordered l.text
  have hi : ((Client.init false).run l.text).1 = l.placed.map Placed.item := congrArg (fun x => x.1) ho
  rwa [hi] at h

end Lobby

/-- The scan accepts every member, ends as complete, and counts the servers that delivered one. -/
def UsesCapacity (decode : Decoder) (w : WindowControls) (l : Lobby) (r : ScanRun) : Prop :=
  ∃ code v x, scanThread decode r w.beginScan = .ok (code, v) ∧ (∀ c ∈ v.calls, c.AboutMember → c.code = 0) ∧
    terminalStatus (scanThread decode r w.beginScan) = some .complete ∧ v.data.controls = .ok x ∧
    x.scanCountServers = (l.servers.toList.filter Server.delivers).length

section capacity

variable {decode : Decoder} {w : WindowControls} {l : Lobby}

theorem scanThread_delivery (decode : Decoder) (w : WindowControls) (t : Delivery l) (d : Division t.text)
    (garbage : KeyValueInfo) : scanThread decode (t.scan d garbage) w.beginScan =
      scan (sessionCallback decode fun _ => false) t.usingHttp garbage ⟨.ok w.beginScan.prepare, 0⟩
        (.ok d.reads) := by
  cases t <;> rfl

theorem sessionCallback_end (decode : Decoder) {s : Session} {x : WindowControls} {e : KeyValueInfo}
    (hx : s.controls = .ok x) (h : x.Sound) (he : e.status = .complete ∨ e.status = .error) :
    ∃ shown, (sessionCallback decode (fun _ => false) e s).data.controls = .ok { x with notices := shown } := by
  obtain ⟨shown, hp⟩ := processEnd_ok h e
  refine ⟨shown, ?_⟩
  have hr : processSessionInfo decode e (cancelled (fun _ => false) s x) = _ := (if_pos he).trans hp
  rw [sessionCallback_ok hx hr]

theorem count_delivering {c : Counters} (h : c.Tallies (l.placed.map Placed.item)) :
    (l.servers.toList.filter Server.delivers).length = c.servers := by
  apply length_filter_of_at
  intro n
  rw [← Lobby.exists_server, ← h.servers, Lobby.exists_item]
  rfl

theorem Lobby.placed_bounds (hl : l.WithinCapacity) {p : Placed} (hp : p ∈ l.placed) :
    p.server < maxServers ∧ p.player ≤ maxPlayers := by
  obtain ⟨s, hs, hm⟩ := Lobby.mem_placed.mp hp
  have hserver := (List.getElem?_eq_some_iff.mp hs).1
  have hplayers := hl.players_le s (List.mem_of_getElem? hs)
  have hplayer := placeMembers_player_le hm
  rw [Server.playerList] at hplayers
  exact ⟨Nat.lt_of_lt_of_le hserver hl.servers_le, by omega⟩

theorem Lobby.item_indexed (hl : l.WithinCapacity) {p : Placed} (hp : p ∈ l.placed) : p.item.Indexed := by
  obtain ⟨hs, hj⟩ := Lobby.placed_bounds hl hp
  exact .inl ⟨hs.trans (by decide), Nat.lt_of_le_of_lt hj (by decide)⟩

/-- Behind the last member of a server nothing changes its game. -/
theorem gameOf_settled {front rest : List Item} {k : Item} (h : (front ++ k :: rest).Pairwise Item.Settles)
    (hd : k.depth = 3) (hk : k.status = .last) (hlt : ∀ m ∈ rest, m.serverIndex < maxServers) :
    gameOf decode k.serverIndex ((front ++ k :: rest).map Item.report) =
      gameOf decode k.serverIndex ((front ++ [k]).map Item.report) := by
  have hrest : ∀ m ∈ rest, ¬ (m.report.server == k.serverIndex) = true := by
    intro m hm
    have hsettles := (List.pairwise_append.mp h).2.1
    rw [List.pairwise_cons] at hsettles
    have hserver := hsettles.1 m hm hd hk
    rw [m.report_server (hlt m hm)]
    simp only [beq_iff_eq]
    omega
  have hnone : (rest.map Item.report).filter (fun m => m.server == k.serverIndex) = [] := by
    simpa only [List.filter_eq_nil_iff, List.forall_mem_map] using hrest
  have hsplit : (front ++ k :: rest).map Item.report =
      (front ++ [k]).map Item.report ++ rest.map Item.report := by simp
  rw [gameOf, gameOf, hsplit, List.filter_append, hnone, List.append_nil]

theorem Lobby.placed_settled (l : Lobby) : (l.placed.map Placed.item).Pairwise Item.Settles := by
  obtain ⟨out, ho, -⟩ := run_delivery (.file : Delivery l)
  have h := (Client.init false).run_settled l.text
  have hi : ((Client.init false).run l.text).1 = l.placed.map Placed.item := congrArg (fun x => x.1) ho
  rwa [hi] at h

theorem gameOf_gametype (decode : Decoder) (ks : List Report) (i : Nat) :
    (gameOf decode i ks).gametype = number (lastServerValue ks i .gametype) :=
  (gameOf_reflects decode ks i).numbers (.gametype, GameInfo.gametype) (by simp [serverNumbers])

theorem Lobby.listedRows_iff (hl : l.WithinCapacity) :
    ListedRows decode (l.placed.map Placed.item) ↔ l.Listed := by
  have hreports : (l.placed.map Placed.item).map Item.report = l.reports := by rw [List.map_map]; rfl
  have hbounds : ∀ m ∈ l.placed.map Placed.item, m.serverIndex < maxServers := by
    rw [List.forall_mem_map]
    exact fun p hp => (Lobby.placed_bounds hl hp).1
  have hgame : ∀ front k rest, l.placed.map Placed.item = front ++ k :: rest → k.depth ≠ 5 → k.status = .last →
      (gameOf decode k.serverIndex ((front ++ [k]).map Item.report)).gametype =
        number (lastServerValue l.reports k.serverIndex .gametype) := by
    intro front k rest hsplit hd hk
    have hmem : k ∈ l.placed.map Placed.item := by simp [hsplit]
    have hdelivered : k.delivered = true := by
      obtain ⟨p, -, rfl⟩ := List.mem_map.mp hmem
      exact Lobby.item_delivered p
    have h3 : k.depth = 3 := by simpa [Item.delivered, hd] using hdelivered
    have hlt : ∀ m ∈ rest, m.serverIndex < maxServers := fun m hm => hbounds m (by simp [hsplit, hm])
    rw [← gameOf_settled (hsplit ▸ l.placed_settled) h3 hk hlt, ← hsplit, hreports, gameOf_gametype]
  constructor
  · intro h p hp hplayer hlast
    obtain ⟨front, rest, hsplit⟩ := List.append_of_mem (List.mem_map_of_mem (f := Placed.item) hp)
    have hd : p.item.depth ≠ 5 := by simp [Lobby.depth_eq_five, hplayer]
    have hrow := h front p.item rest hsplit hd hlast
    rwa [hgame front p.item rest hsplit hd hlast] at hrow
  · intro h front k rest hsplit hd hk
    obtain ⟨p, hp, rfl⟩ := List.mem_map.mp (show k ∈ l.placed.map Placed.item by simp [hsplit])
    rw [hgame front _ rest hsplit hd hk]
    exact h p hp (by simpa [Lobby.depth_eq_five] using hd) hk

/-- Without a cancellation, the members are accepted up to the first one that the counters refuse. -/
theorem Counters.accepted_uncancelled (n : Nat) (c : Counters) (ks : List Item) :
    (∃ d, ks.foldlM Counters.step c = some d ∧ accepted (fun _ => false) n c ks = (ks, d)) ∨
      (ks.foldlM Counters.step c = none ∧ (accepted (fun _ => false) n c ks).1.length < ks.length) := by
  induction ks generalizing n c with
  | nil => exact .inl ⟨c, rfl, rfl⟩
  | cons k ks ih =>
    rw [List.foldlM_cons, accepted, if_neg (by simp)]
    cases hk : c.step k with
    | none => exact .inr ⟨rfl, Nat.succ_pos _⟩
    | some d =>
      rcases ih (n + 1) d with ⟨e, he, ha⟩ | ⟨he, ha⟩
      · exact .inl ⟨e, he, by simp [ha]⟩
      · exact .inr ⟨he, Nat.succ_lt_succ ha⟩

/-- How the delivery of a lobby to the consumer ends. -/
theorem delivery_ends (decode : Decoder) (hw : w.Sound) (hl : l.WithinCapacity) : ∃ u done,
    Session.Ends decode (fun _ => false) w.beginScan.prepare (l.placed.map Placed.item) u
      ((l.placed.map Placed.item).foldlM (deliver (sessionCallback decode fun _ => false))
        (World.init ⟨.ok w.beginScan.prepare, 0⟩)) done ∧ ∀ c ∈ u.calls, c.AboutMember := by
  have hall : (l.placed.map Placed.item).filter Item.delivered = l.placed.map Placed.item := by
    rw [List.filter_eq_self, List.forall_mem_map]
    exact fun p _ => Lobby.item_delivered p
  have hstatus : ∀ k ∈ l.placed.map Placed.item, k.status = .normal ∨ k.status = .last := by
    rw [List.forall_mem_map]
    intro p _
    simp only [Placed.item]
    split_ifs <;> simp
  have hindexed : ∀ k ∈ l.placed.map Placed.item, k.Indexed := by
    rw [List.forall_mem_map]
    exact fun p hp => Lobby.item_indexed hl hp
  have habout : ∀ k ∈ l.placed.map Placed.item, ∀ e : KeyValueInfo,
      ((k.kvi e).status ≠ .complete ∧ (k.kvi e).status ≠ .error) := by
    intro k hk e
    rcases hstatus k hk with hs | hs <;> simp [Item.kvi, hs]
  have hP : Standing.Always decode (fun _ => false) w.beginScan.prepare (l.placed.map Placed.item)
      Call.AboutMember := by
    constructor
    · intro done k rest u e r hsplit _ _ _
      exact habout k (by simp [hsplit]) e
    · intro done k rest u e hsplit _ _
      exact habout k (by simp [hsplit]) e
  have hreached : ∀ k ∈ Counters.reached (fun _ => false) 0 ⟨0, 0⟩
      ((l.placed.map Placed.item).filter Item.delivered),
      k.Indexed := by
    rw [hall]
    exact fun k hk => hindexed k (Counters.mem_of_reached hk)
  obtain ⟨u, done, hend, -, -, hcalls⟩ := foldlM_deliver_received (P := Call.AboutMember) l.placed_ordered hstatus
    (Standing.initial decode hw) rfl hreached (by rw [hall]; exact hP)
  rw [hall] at hend
  exact ⟨u, done, hend, hcalls⟩

theorem usesCapacity_of_gapless (hw : w.Sound) (hl : l.WithinCapacity) (hg : l.Gapless) (hlisted : l.Listed)
    (t : Delivery l) (d : Division t.text) (garbage : KeyValueInfo) :
    UsesCapacity decode w l (t.scan d garbage) := by
  obtain ⟨out, ho, hcode⟩ := l.run_delivery t
  have hitems : ((Client.init t.usingHttp).run t.text).1 = l.placed.map Placed.item := congrArg (fun x => x.1) ho
  rcases Counters.run_cases l.placed_ordered with ⟨-, c, hc, htally⟩ | ⟨hn, -⟩
  swap
  · exact absurd ((Lobby.complete_iff hl).mpr hg) hn
  have hacc : Counters.accepted (fun _ => false) 0 ⟨0, 0⟩ (l.placed.map Placed.item) =
      (l.placed.map Placed.item, c) := by
    rcases Counters.accepted_uncancelled 0 ⟨0, 0⟩ (l.placed.map Placed.item) with ⟨d, hd, ha⟩ | ⟨hd, -⟩
    · obtain rfl := Option.some.inj (hc.symm.trans hd)
      exact ha
    · cases hc.symm.trans hd
  obtain ⟨u, done, hend, habout⟩ := delivery_ends decode hw hl
  generalize hfold : (l.placed.map Placed.item).foldlM (deliver (sessionCallback decode fun _ => false))
    (World.init ⟨.ok w.beginScan.prepare, 0⟩) = res at hend
  cases hend with
  | @accepted x hx hs hxc hcalls =>
    have hxc : c = x.counters := congrArg Prod.snd (hacc.symm.trans hxc)
    obtain ⟨v, hv, hvc, hvd⟩ := drain_code (hitems ▸ hfold) (by rw [ho]; exact hcode)
    have hp := (parseData_eq (sessionCallback decode fun _ => false) t.usingHttp
      ⟨.ok w.beginScan.prepare, 0⟩ d).trans hv
    obtain ⟨shown, hend⟩ := sessionCallback_end decode (s := v.data)
      (e := { v.kvi with status := .complete }) (by rw [hvd]; exact hx) hs.sound (.inl rfl)
    have hscan := scanThread_delivery decode w t d garbage
    refine ⟨0, (reportEnd (sessionCallback decode fun _ => false) 0 v).2, { x with notices := shown },
      ?_, ?_, ?_, hend, ?_⟩
    · rw [hscan, scan, hp]
      rfl
    · intro call hm hab
      rcases List.mem_append.mp hm with hm | hm
      · exact hcalls call (hvc ▸ hm)
      · rw [List.mem_singleton.mp hm] at hab
        exact absurd rfl hab.1
    · rw [hscan, terminalStatus_scan hp]
      rfl
    · rw [count_delivering htally, hxc]
      rfl
  | refused hsplit _ _ hxc =>
    have hlen := congrArg (fun a => a.1.length) (hacc.symm.trans hxc)
    simp only [hsplit, List.length_append, List.length_cons] at hlen
    omega
  | @crashed _ rest k hsplit hs =>
    obtain ⟨x, -, hcrash⟩ := hs.2
    exact absurd ((Lobby.listedRows_iff hl).mpr hlisted _ k rest hsplit hcrash.server hcrash.last) hcrash.unlisted

theorem gapless_of_usesCapacity (hw : w.Sound) (hl : l.WithinCapacity) {t : Delivery l} {d : Division t.text}
    {garbage : KeyValueInfo} (h : UsesCapacity decode w l (t.scan d garbage)) : l.Gapless ∧ l.Listed := by
  obtain ⟨out, ho, hcode⟩ := l.run_delivery t
  have hitems : ((Client.init t.usingHttp).run t.text).1 = l.placed.map Placed.item := congrArg (fun x => x.1) ho
  obtain ⟨u, done, hend, habout⟩ := delivery_ends decode hw hl
  generalize hfold : (l.placed.map Placed.item).foldlM (deliver (sessionCallback decode fun _ => false))
    (World.init ⟨.ok w.beginScan.prepare, 0⟩) = res at hend
  have hrefused : (∃ c ∈ u.calls, c.code ≠ 0) → res ≠ .error (.ret 1 u) := by
    rintro ⟨call, hm, hne⟩ rfl
    obtain ⟨code, v, x, hr, hzero, -⟩ := h
    have hp : parseData (sessionCallback decode fun _ => false) t.usingHttp ⟨.ok w.beginScan.prepare, 0⟩ d.reads =
        .ok (1, u) := by
      rw [parseData_eq, drain, hitems, hfold]
      rfl
    rw [scanThread_delivery, scan, hp] at hr
    obtain ⟨-, rfl⟩ := Prod.mk.inj (Except.ok.inj hr)
    exact absurd (hzero call (List.mem_append_left _ hm) (habout call hm)) hne
  cases hend with
  | accepted _ hs hxc =>
    refine ⟨?_, (Lobby.listedRows_iff hl).mp hs.listed⟩
    rcases Counters.run_cases l.placed_ordered with ⟨hc, -⟩ | ⟨-, hc⟩
    · exact (Lobby.complete_iff hl).mp hc
    · rcases Counters.accepted_uncancelled 0 ⟨0, 0⟩ (l.placed.map Placed.item) with ⟨d, hd, -⟩ | ⟨-, hlen⟩
      · cases hc.symm.trans hd
      · rw [hxc] at hlen
        exact absurd hlen (Nat.lt_irrefl _)
  | refused _ _ _ _ hcode => exact absurd rfl (hrefused hcode)
  | crashed _ _ hcode => exact absurd rfl (hrefused hcode)

end capacity

/-- `{"G":[{"p":[{"n":"a"},…,{"n":"a"}],"n":1}]}` with 16 players. -/
def behindPlayers : Lobby :=
  oneServer <| .items (.players ⟨[], keyP, [], []⟩
    (.items ⟨[], .items quotedField [], []⟩ (List.replicate 15 ⟨[], .items quotedField [], []⟩)) [])
    [.field bareField]

/-- `{"G":[{},{"n":1}]}` -/
def behindEmpty : Lobby :=
  ⟨[], ⟨[], keyG, [], []⟩, .items ⟨[], .empty [], []⟩ [⟨[], .items (.field bareField) [], []⟩], [], []⟩

/-- `{"G":[{"gt":3}]}` -/
def unlistedType : Lobby :=
  oneServer <| .items (.field (.tight ⟨[0x67, 0x74], by simp, by decide⟩
    (.bare ⟨[0x33], by simp, List.forall_mem_singleton.mpr rfl⟩) (by decide))) []

end BzccScanner
