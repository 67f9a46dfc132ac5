import BzccScanner.NickTable
import BzccScanner.SessionInfo
import BzccScanner.Settings

/-! Local nicks of players: `UpdatePlayerList`, which looks them up and may
save new ones, and the nick that is submitted in the rename dialog. Both write
to the registry under the `user_id` of a player, a text from the network. -/

namespace BzccScanner

open CString

/-- `isalnum` in the "C" locale. -/
def isalnum (c : TChar) : Bool := c < 0x80 && isAlnum c.toUInt8

def userIDIsValid (userId : List TChar) : Bool :=
  userId.zipIdx.all fun e => isalnum e.1 && !(e.2 ≥ userIdLen)

def tcharsOf : List Byte → List TChar
  | lo :: hi :: rest => (lo.toUInt16 ||| hi.toUInt16 <<< 8) :: tcharsOf rest
  | _ => []

/-- Calls that reach outside the program. -/
inductive Event
  | saveNick (userId nick : List TChar)
  | deleteNick (userId : List TChar)
  | beginScan
  | setTimer (elapse : UInt32)
  | killTimer
  deriving DecidableEq, Repr

namespace Event

/-- The name of the value that the call writes to the registry or deletes there. -/
def userId : Event → Option (List TChar)
  | saveNick userId _ => some userId
  | deleteNick userId => some userId
  | _ => none

def isTimer : Event → Bool
  | setTimer _ => true
  | killTimer => true
  | _ => false

theorem userId_of_isTimer {e : Event} (h : e.isTimer = true) : e.userId = none := by
  cases e <;> first | rfl | cases h

end Event

/-- What the system calls of one step return, and what is left in the buffers that
they fill. A thread that is created finds its data. -/
structure Outcomes where
  setTimer : Bool
  createThread : Option (Source × KeyValueInfo)
  alloc : Nat → Option (HeapList.Addr × TableEntry)
  allocSet : Option (HeapList.Addr × TableEntry)
  tmp : Nat → List Byte
  addString : Nat → Bool

structure Nicks where
  table : Table
  registry : Registry

abbrev LocalName := WString playerNameLen

/-- The body of the loop for the player `i`, up to the entry in the list box. -/
def importNick (o : Outcomes) (autoNickSave : Bool) (i : Nat) (p : PlayerInfo) (localName : LocalName)
    (n : Nicks) :
    Option (LocalName × Nicks × List Event) :=
  let userId := wstr p.userId
  if wstr localName = [] ∧ userId ≠ [] then do
    let crc32 := calcCRC32 userId
    match ← (n.table.htFindCrc32 crc32).toOption with
    | some str => return (localName.snwprintf str, n, [])
    | none =>
      let loaded := loadNick n.registry userId (o.tmp i) (UInt32.ofNat playerNameLen)
      if loaded.1 ≠ 0 then
        let localName := localName.snwprintf ((tcharsOf loaded.2).takeWhile (· != 0))
        let t ← (n.table.htNew crc32 (wstr localName) (o.alloc i)).toOption
        return (localName, { n with table := t.2 }, [])
      if autoNickSave then
        let localName := localName.snwprintf (wstr p.ingameName)
        let reg := (saveNick n.registry userId localName.toList).2
        let t ← (n.table.htNew crc32 (wstr localName) (o.alloc i)).toOption
        return (localName, ⟨t.2, reg⟩, [.saveNick userId (wstr localName)])
      return (localName, n, [])
  else some (localName, n, [])

/-- The loop over the players of the selected game, `count` of which are left. -/
def importNicks (o : Outcomes) (autoNickSave : Bool) (g : GameInfo) (count i : Nat)
    (names : Vector LocalName maxPlayers) (n : Nicks) :
    Option (Vector LocalName maxPlayers × Nicks × List Event) :=
  match count with
  | 0 => some (names, n, [])
  | count + 1 =>
    if h : i < maxPlayers then do
      let r ← importNick o autoNickSave i g.playerinfo[i] names[i] n
      if o.addString i = false then
        return (names.set i r.1, r.2.1, r.2.2)
      let s ← importNicks o autoNickSave g count (i + 1) (names.set i r.1) r.2.1
      return (s.1, s.2.1, r.2.2 ++ s.2.2)
    else none

def submitNick (o : Outcomes) (p : PlayerInfo) (localName : LocalName) (tmpmsg : List TChar) (n : Nicks) :
    Option (LocalName × Nicks × List Event) :=
  let userId := wstr p.userId
  if tmpmsg ≠ wstr localName then
    if userIDIsValid userId then
      if tmpmsg = [] then do
        let t ← (n.table.htDelete userId).toOption
        return (localName.write [0], ⟨t.2, (deleteNick n.registry userId).2⟩, [.deleteNick userId])
      else do
        let t ← (n.table.htSet userId tmpmsg o.allocSet).toOption
        return (localName.snwprintf tmpmsg, ⟨t.2, (saveNick n.registry userId (tmpmsg ++ [0])).2⟩,
          [.saveNick userId tmpmsg])
    else some (localName, n, [])
  else some (localName, n, [])

/-- The player `i` has an identifier and no nick, and is given one. -/
structure AutoSaves (o : Outcomes) (autoNickSave : Bool) (i : Nat) (p : PlayerInfo) (localName : LocalName)
    (n : Nicks) :
    Prop where
  on : autoNickSave = true
  unnamed : wstr localName = []
  identified : wstr p.userId ≠ []
  absent : n.table.htFindCrc32 (calcCRC32 (wstr p.userId)) = .ok none
  unsaved : (loadNick n.registry (wstr p.userId) (o.tmp i) (UInt32.ofNat playerNameLen)).1 = 0

variable {o : Outcomes} {autoNickSave : Bool} {p : PlayerInfo} {localName : LocalName} {n : Nicks} {i : Nat}
  {r : LocalName × Nicks × List Event}

theorem importNick_events (h : importNick o autoNickSave i p localName n = some r) :
    (AutoSaves o autoNickSave i p localName n ∧ ∃ nick, r.2.2 = [.saveNick (wstr p.userId) nick]) ∨
      (¬ AutoSaves o autoNickSave i p localName n ∧ r.2.2 = []) := by
  rw [importNick] at h
  by_cases hturn : wstr localName = [] ∧ wstr p.userId ≠ []
  · rw [if_pos hturn] at h
    cases hfind : n.table.htFindCrc32 (calcCRC32 (wstr p.userId)) with
    | error f => simp [hfind, Except.toOption] at h
    | ok found =>
      simp only [hfind, Except.toOption, bind, Option.bind, pure] at h
      cases found with
      | some str =>
        obtain rfl := Option.some.inj h
        exact .inr ⟨fun hs => by simp [hs.absent] at hfind, rfl⟩
      | none =>
        dsimp only at h
        by_cases hload : (loadNick n.registry (wstr p.userId) (o.tmp i) (UInt32.ofNat playerNameLen)).1 = 0
        · rw [if_neg (not_not.mpr hload)] at h
          by_cases hauto : autoNickSave = true
          · rw [if_pos hauto] at h
            split at h
            · simp at h
            · obtain rfl := Option.some.inj h
              exact .inl ⟨⟨hauto, hturn.1, hturn.2, hfind, hload⟩, _, rfl⟩
          · rw [if_neg hauto] at h
            obtain rfl := Option.some.inj h
            exact .inr ⟨fun hs => hauto hs.on, rfl⟩
        · rw [if_pos hload] at h
          split at h
          · simp at h
          · obtain rfl := Option.some.inj h
            exact .inr ⟨fun hs => hload hs.unsaved, rfl⟩
  · rw [if_neg hturn] at h
    obtain rfl := Option.some.inj h
    exact .inr ⟨fun hs => hturn ⟨hs.unnamed, hs.identified⟩, rfl⟩

theorem importNicks_events {g : GameInfo} {count : Nat} {names : Vector LocalName maxPlayers}
    {s : Vector LocalName maxPlayers × Nicks × List Event}
    (h : importNicks o autoNickSave g count i names n = some s) :
    ∀ e ∈ s.2.2, ∃ userId nick, e = .saveNick userId nick := by
  induction count generalizing i names n s with
  | zero =>
    obtain rfl := Option.some.inj h
    simp
  | succ count ih =>
    rw [importNicks] at h
    by_cases hi : i < maxPlayers
    · rw [dif_pos hi] at h
      obtain ⟨r, hr, h⟩ := Option.bind_eq_some_iff.mp h
      have hone : ∀ e ∈ r.2.2, ∃ userId nick, e = .saveNick userId nick := by
        rcases importNick_events hr with ⟨-, nick, he⟩ | ⟨-, he⟩
        · rw [he]
          exact fun e hm => ⟨_, nick, List.mem_singleton.mp hm⟩
        · simp [he]
      split_ifs at h
      · obtain rfl := Option.some.inj h
        exact hone
      · obtain ⟨t, ht, h⟩ := Option.bind_eq_some_iff.mp h
        obtain rfl := Option.some.inj h
        exact List.forall_mem_append.mpr ⟨hone, ih ht⟩
    · simp [dif_neg hi] at h

theorem submitNick_events {tmpmsg : List TChar} (h : submitNick o p localName tmpmsg n = some r) :
    ((tmpmsg ≠ wstr localName ∧ userIDIsValid (wstr p.userId) = true) ∧
      ∃ e, r.2.2 = [e] ∧ e.userId = some (wstr p.userId)) ∨
    (¬ (tmpmsg ≠ wstr localName ∧ userIDIsValid (wstr p.userId) = true) ∧ r.2.2 = []) := by
  rw [submitNick] at h
  split_ifs at h with hchanged hvalid hempty
  · obtain ⟨t, -, h⟩ := Option.bind_eq_some_iff.mp h
    obtain rfl := Option.some.inj h
    exact .inl ⟨⟨hchanged, hvalid⟩, _, rfl, rfl⟩
  · obtain ⟨t, -, h⟩ := Option.bind_eq_some_iff.mp h
    obtain rfl := Option.some.inj h
    exact .inl ⟨⟨hchanged, hvalid⟩, _, rfl, rfl⟩
  · obtain rfl := Option.some.inj h
    exact .inr ⟨fun h => hvalid h.2, rfl⟩
  · obtain rfl := Option.some.inj h
    exact .inr ⟨fun h => hchanged h.1, rfl⟩

end BzccScanner
