import BzccScanner.JsonRun

/-! Lobby documents: a root object with one key, whose value is the array of
servers. The members of a server are scalars or arrays of players, in any
order, and the members of a player are scalars. -/

namespace BzccScanner

open CString

/-- What stands between two brackets: whitespace, or items separated by commas. -/
inductive Listing (α : Type)
  | empty (pad : Ws)
  | items (first : α) (rest : List α)

def Listing.toList {α : Type} : Listing α → List α
  | empty _ => []
  | items first rest => first :: rest

structure Field where
  label : Label
  scalar : Scalar
  value_lt : scalar.value.length < genericBuflen - 1
  after : Ws

structure Player where
  before : Ws
  fields : Listing Field
  after : Ws

inductive Member
  | field (f : Field)
  | players (label : Label) (ps : Listing Player) (after : Ws)

structure Server where
  before : Ws
  members : Listing Member
  after : Ws

structure Lobby where
  before : Ws
  label : Label
  servers : Listing Server
  trailing : Ws
  after : Ws

abbrev Entry := Label × Json × Ws
abbrev Element := Ws × Json × Ws

def Members.ofList (e : Entry) : List Entry → Members
  | [] => .last e.1 e.2.1 e.2.2
  | f :: fs => .cons e.1 e.2.1 e.2.2 (ofList f fs)

def Elems.ofList (e : Element) : List Element → Elems
  | [] => .last e.1 e.2.1 e.2.2
  | f :: fs => .cons e.1 e.2.1 e.2.2 (ofList f fs)

def Json.ofEntries {α : Type} (entry : α → Entry) : Listing α → Json
  | .empty pad => .emptyObject pad
  | .items first rest => .object (.ofList (entry first) (rest.map entry))

def Json.ofElements {α : Type} (element : α → Element) : Listing α → Json
  | .empty pad => .emptyArray pad
  | .items first rest => .array (.ofList (element first) (rest.map element))

def Field.entry (f : Field) : Entry := (f.label, .scalar f.scalar f.value_lt, f.after)

def Player.element (p : Player) : Element := (p.before, .ofEntries Field.entry p.fields, p.after)

def Member.entry : Member → Entry
  | field f => f.entry
  | players label ps after => (label, .ofElements Player.element ps, after)

def Server.element (s : Server) : Element := (s.before, .ofEntries Member.entry s.members, s.after)

def Lobby.root (l : Lobby) : Json :=
  .object (.last l.label (.ofElements Server.element l.servers) l.trailing)

def Lobby.text (l : Lobby) : List Byte := spaces l.before ++ l.root.text ++ spaces l.after

/-- A scalar member with its place in the document: whose it is, and whether
it is the final member of its object. -/
structure Placed where
  field : Field
  isPlayer : Bool
  server : Nat
  player : Nat
  isFinal : Bool

def placeFields (server player : Nat) : List Field → List Placed
  | [] => []
  | f :: fs => ⟨f, true, server, player, fs.isEmpty⟩ :: placeFields server player fs

/-- The players of one array; `player` counts the players in front of it. -/
def placePlayers (server player : Nat) : List Player → List Placed
  | [] => []
  | p :: ps => placeFields server player p.fields.toList ++ placePlayers server (player + 1) ps

def placeMembers (server player : Nat) : List Member → List Placed
  | [] => []
  | .field f :: ms => ⟨f, false, server, player, ms.isEmpty⟩ :: placeMembers server player ms
  | .players _ ps _ :: ms =>
    placePlayers server player ps.toList ++ placeMembers server (player + ps.toList.length) ms

def placeServers (server : Nat) : List Server → List Placed
  | [] => []
  | s :: ss => placeMembers server 0 s.members.toList ++ placeServers (server + 1) ss

def Lobby.placed (l : Lobby) : List Placed := placeServers 0 l.servers.toList

def Placed.item (p : Placed) : Item where
  status := if p.field.scalar.isQuoted then .normal else if p.isFinal then .last else .normal
  key := p.field.label.key.bytes
  value := p.field.scalar.value
  depth := if p.isPlayer then 5 else 3
  serverIndex := p.server
  playerIndex := p.player

namespace Lobby

theorem fields_items (sl : Slots) (f : Field) (fs : List Field) :
    (Members.ofList f.entry (fs.map Field.entry)).items 5 sl =
      (placeFields sl.server sl.player (f :: fs)).map Placed.item := by
  induction fs generalizing f with
  | nil => rfl
  | cons g fs ih => exact congrArg (_ :: ·) (ih g)

theorem fields_slots (sl : Slots) (f : Field) (fs : List Field) :
    (Members.ofList f.entry (fs.map Field.entry)).slots 5 sl = sl := by
  induction fs generalizing f with
  | nil => rfl
  | cons g fs ih => exact ih g

theorem player_items (sl : Slots) (p : Player) (key : List Byte) (status : Status) :
    p.element.2.1.items 4 key sl status =
      (placeFields sl.server sl.player p.fields.toList).map Placed.item := by
  obtain ⟨before, fields, after⟩ := p
  cases fields with
  | empty pad => rfl
  | items f fs => exact fields_items sl f fs

theorem player_slots (sl : Slots) (p : Player) : p.element.2.1.slots 4 sl = ⟨sl.server, sl.player + 1⟩ := by
  obtain ⟨before, fields, after⟩ := p
  cases fields with
  | empty pad => rfl
  | items f fs => exact congrArg (Slots.close · 5) (fields_slots sl f fs)

theorem players_items (sl : Slots) (p : Player) (ps : List Player) :
    (Elems.ofList p.element (ps.map Player.element)).items 4 sl =
      (placePlayers sl.server sl.player (p :: ps)).map Placed.item := by
  induction ps generalizing p sl with
  | nil =>
    rw [placePlayers, placePlayers, List.append_nil]
    exact player_items sl p [] .normal
  | cons q ps ih =>
    have h := player_items sl p [] .normal
    have hi := ih ⟨sl.server, sl.player + 1⟩ q
    rw [placePlayers, List.map_append, ← h, ← hi, ← player_slots sl p]
    rfl

theorem players_slots (sl : Slots) (p : Player) (ps : List Player) :
    (Elems.ofList p.element (ps.map Player.element)).slots 4 sl =
      ⟨sl.server, sl.player + (p :: ps).length⟩ := by
  induction ps generalizing p sl with
  | nil => exact player_slots sl p
  | cons q ps ih =>
    have hi := ih ⟨sl.server, sl.player + 1⟩ q
    rw [← player_slots sl p] at hi
    apply hi.trans
    rw [player_slots, List.length_cons, List.length_cons, List.length_cons]
    simp only [Slots.mk.injEq, true_and]
    omega

theorem member_items (sl : Slots) (m : Member) (isFinal : Bool) (rest : List Member)
    (hr : isFinal = rest.isEmpty) :
    m.entry.2.1.items 3 m.entry.1.key.bytes sl (if isFinal then .last else .normal) ++
        (placeMembers (m.entry.2.1.slots 3 sl).server (m.entry.2.1.slots 3 sl).player rest).map Placed.item =
      (placeMembers sl.server sl.player (m :: rest)).map Placed.item := by
  subst hr
  cases m with
  | field f => rfl
  | players label ps after =>
    cases ps with
    | empty pad => rfl
    | items p ps =>
      have hi := players_items sl p ps
      have hs := players_slots sl p ps
      have he : ∀ b : Status, (Member.players label (.items p ps) after).entry.2.1.items 3
        (Member.players label (.items p ps) after).entry.1.key.bytes sl b =
          (Elems.ofList p.element (ps.map Player.element)).items 4 sl := fun _ => rfl
      have hsl : (Member.players label (.items p ps) after).entry.2.1.slots 3 sl =
        (Elems.ofList p.element (ps.map Player.element)).slots 4 sl := rfl
      rw [he, hsl, hi, hs, ← List.map_append]
      rfl

theorem member_slots (sl : Slots) (m : Member) : (m.entry.2.1.slots 3 sl).server = sl.server := by
  cases m with
  | field f => rfl
  | players label ps after =>
    cases ps with
    | empty pad => rfl
    | items p ps =>
      have h := congrArg Slots.server (players_slots sl p ps)
      exact h

theorem members_items (sl : Slots) (m : Member) (ms : List Member) :
    (Members.ofList m.entry (ms.map Member.entry)).items 3 sl =
      (placeMembers sl.server sl.player (m :: ms)).map Placed.item := by
  induction ms generalizing m sl with
  | nil =>
    have h := member_items sl m true [] rfl
    rw [← h]
    simp only [placeMembers, List.map_nil, List.append_nil]
    rfl
  | cons n ms ih =>
    have h := member_items sl m false (n :: ms) rfl
    rw [← h, ← ih]
    rfl

theorem members_slots (sl : Slots) (m : Member) (ms : List Member) :
    ((Members.ofList m.entry (ms.map Member.entry)).slots 3 sl).server = sl.server := by
  induction ms generalizing m sl with
  | nil => exact member_slots sl m
  | cons n ms ih => exact (ih (m.entry.2.1.slots 3 sl) n).trans (member_slots sl m)

theorem server_items (sl : Slots) (s : Server) (key : List Byte) (status : Status) :
    s.element.2.1.items 2 key sl status =
      (placeMembers sl.server sl.player s.members.toList).map Placed.item := by
  obtain ⟨before, members, after⟩ := s
  cases members with
  | empty pad => rfl
  | items m ms => exact members_items sl m ms

theorem server_slots (sl : Slots) (s : Server) : s.element.2.1.slots 2 sl = ⟨sl.server + 1, 0⟩ := by
  obtain ⟨before, members, after⟩ := s
  cases members with
  | empty pad => rfl
  | items m ms =>
    have h := members_slots sl m ms
    exact congrArg (fun n => Slots.mk (n + 1) 0) h

theorem servers_items (n : Nat) (s : Server) (ss : List Server) :
    (Elems.ofList s.element (ss.map Server.element)).items 2 ⟨n, 0⟩ =
      (placeServers n (s :: ss)).map Placed.item := by
  induction ss generalizing s n with
  | nil =>
    rw [placeServers, placeServers, List.append_nil]
    exact server_items ⟨n, 0⟩ s [] .normal
  | cons t ss ih =>
    have h := server_items ⟨n, 0⟩ s [] .normal
    have hi := ih (n + 1) t
    rw [placeServers, List.map_append, ← h, ← hi, ← server_slots ⟨n, 0⟩ s]
    rfl

theorem root_items (l : Lobby) : l.root.items 0 [] ⟨0, 0⟩ .normal = l.placed.map Placed.item := by
  obtain ⟨before, label, servers, trailing, after⟩ := l
  cases servers with
  | empty pad => rfl
  | items s ss => exact servers_items 0 s ss

end Lobby

section Shape

variable {α : Type} {n : Nat}

theorem Members.height_ofList_le {e : Entry} {es : List Entry} (h : ∀ x ∈ e :: es, x.2.1.height ≤ n) :
    (Members.ofList e es).height ≤ n := by
  induction es generalizing e with
  | nil => exact h e (by simp)
  | cons f es ih =>
    rw [Members.ofList, Members.height]
    exact max_le (h e (by simp)) (ih fun x hx => h x (List.mem_cons_of_mem e hx))

theorem Elems.height_ofList_le {e : Element} {es : List Element} (h : ∀ x ∈ e :: es, x.2.1.height ≤ n) :
    (Elems.ofList e es).height ≤ n := by
  induction es generalizing e with
  | nil => exact h e (by simp)
  | cons f es ih =>
    rw [Elems.ofList, Elems.height]
    exact max_le (h e (by simp)) (ih fun x hx => h x (List.mem_cons_of_mem e hx))

theorem Json.height_ofEntries_le {entry : α → Entry} (h : ∀ a, (entry a).2.1.height ≤ n) (l : Listing α) :
    (Json.ofEntries entry l).height ≤ n + 1 := by
  cases l with
  | empty pad => simp [Json.ofEntries, Json.height]
  | items a as =>
    refine Nat.succ_le_succ (Members.height_ofList_le ?_)
    rw [← List.map_cons]
    simpa only [List.forall_mem_map] using fun a _ => h a

theorem Json.height_ofElements_le {element : α → Element} (h : ∀ a, (element a).2.1.height ≤ n)
    (l : Listing α) : (Json.ofElements element l).height ≤ n + 1 := by
  cases l with
  | empty pad => simp [Json.ofElements, Json.height]
  | items a as =>
    refine Nat.succ_le_succ (Elems.height_ofList_le ?_)
    rw [← List.map_cons]
    simpa only [List.forall_mem_map] using fun a _ => h a

theorem Members.objectsLast_ofList {e : Entry} {es : List Entry}
    (h : ∀ x ∈ e :: es, x.2.1.objectsLast = true ∧ x.2.1.isObject = false) :
    (Members.ofList e es).objectsLast = true := by
  induction es generalizing e with
  | nil => exact (h e (by simp)).1
  | cons f es ih =>
    have he := h e (by simp)
    rw [Members.ofList, Members.objectsLast, he.1, he.2]
    exact ih fun x hx => h x (List.mem_cons_of_mem e hx)

theorem Elems.objectsLast_ofList {e : Element} {es : List Element}
    (h : ∀ x ∈ e :: es, x.2.1.objectsLast = true) : (Elems.ofList e es).objectsLast = true := by
  induction es generalizing e with
  | nil => exact h e (by simp)
  | cons f es ih =>
    rw [Elems.ofList, Elems.objectsLast, h e (by simp)]
    exact ih fun x hx => h x (List.mem_cons_of_mem e hx)

theorem Json.objectsLast_ofEntries {entry : α → Entry}
    (h : ∀ a, (entry a).2.1.objectsLast = true ∧ (entry a).2.1.isObject = false) (l : Listing α) :
    (Json.ofEntries entry l).objectsLast = true := by
  cases l with
  | empty pad => rfl
  | items a as =>
    apply Members.objectsLast_ofList
    rw [← List.map_cons]
    simpa only [List.forall_mem_map] using fun a _ => h a

theorem Json.objectsLast_ofElements {element : α → Element} (h : ∀ a, (element a).2.1.objectsLast = true)
    (l : Listing α) : (Json.ofElements element l).objectsLast = true := by
  cases l with
  | empty pad => rfl
  | items a as =>
    apply Elems.objectsLast_ofList
    rw [← List.map_cons]
    simpa only [List.forall_mem_map] using fun a _ => h a

end Shape

namespace Lobby

theorem member_height_le (m : Member) : m.entry.2.1.height ≤ 2 := by
  cases m with
  | field f => exact Nat.zero_le _
  | players label ps after =>
    exact Json.height_ofElements_le (fun p => Json.height_ofEntries_le (fun f => Nat.le_refl 0) p.fields) ps

theorem root_height_lt (l : Lobby) : l.root.height < maxDepth :=
  Nat.succ_lt_succ <| Nat.lt_succ_of_le <|
    Json.height_ofElements_le (fun s => Json.height_ofEntries_le member_height_le s.members) l.servers

theorem member_objectsLast (m : Member) :
    m.entry.2.1.objectsLast = true ∧ m.entry.2.1.isObject = false := by
  cases m with
  | field f => exact ⟨rfl, rfl⟩
  | players label ps after =>
    refine ⟨Json.objectsLast_ofElements (fun p => ?_) ps, by cases ps <;> rfl⟩
    exact Json.objectsLast_ofEntries (fun f => ⟨rfl, rfl⟩) p.fields

theorem root_objectsLast (l : Lobby) : l.root.objectsLast = true :=
  Json.objectsLast_ofElements (fun s => Json.objectsLast_ofEntries member_objectsLast s.members) l.servers

def document (l : Lobby) : Document where
  before := l.before
  root := l.root
  isObject := rfl
  height_lt := l.root_height_lt
  after := l.after

theorem run_text (l : Lobby) : ∃ t, Reader.init.run l.text = (l.placed.map Placed.item, .ok t) := by
  have h := Reader.run_document l.document l.root_objectsLast
  rw [show l.document.items = l.placed.map Placed.item from l.root_items] at h
  exact ⟨_, h⟩

theorem item_delivered (p : Placed) : p.item.delivered = true := by
  simp only [Item.delivered, Placed.item]
  split_ifs <;> rfl

end Lobby

variable {σ : Type}

/-- What the callback is told about a document. -/
theorem parseData_lobby {cb : Callback σ} (hcb : ∀ k d, (cb k d).code = 0) (data : σ) (l : Lobby)
    (d : Division l.text) : ∃ w, parseData cb false data d.reads = .ok (0, w) ∧
      w.calls.map (fun c => c.kvi.report) = l.placed.map fun p => p.item.report := by
  obtain ⟨t, ht⟩ := l.run_text
  obtain ⟨w, hw, hc⟩ := parseData_file hcb data d ht rfl
  refine ⟨w, hw, ?_⟩
  rw [hc, List.filter_eq_self.mpr (by simp [Lobby.item_delivered]), List.map_map]
  rfl

end BzccScanner
