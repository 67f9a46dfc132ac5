import BzccScanner.GameStore
import BzccScanner.NickTable

/-! What the window makes of a scanned game: the row in the game list, the
order of two rows, and the text about the selected game. All of them ask for
the description of the game's type. -/

namespace BzccScanner

open CString

structure GameTypeList where
  id : Int
  description : Option (List TChar)

def gametypes : List GameTypeList :=
  [⟨0, some (text "Unknown")⟩, ⟨1, some (text "Deathmatch")⟩, ⟨2, some (text "Strategy")⟩, ⟨2, none⟩]

/-- A read through a null description, or behind the table. -/
inductive GameTypeFault
  | nullDescription | behindTable
  deriving DecidableEq, Repr

/-- The loop from the row `i` on, and `none` at a row whose description is empty. -/
def searchGameType (id : Int) (i : Nat) : List GameTypeList → Except GameTypeFault (Option (List TChar))
  | [] => .error .behindTable
  | row :: rows =>
    match row.description with
    | none => .error .nullDescription
    | some [] => .ok none
    | some description => if i = id then .ok (some description) else searchGameType id (i + 1) rows

def getGameTypeDescription (id : Int) : Except GameTypeFault (List TChar) := do
  match ← searchGameType id 0 gametypes with
  | some description => return description
  | none =>
    match gametypes with
    | ⟨_, some description⟩ :: _ => return description
    | _ => throw .nullDescription

/-- What `snwprintf` leaves in front of the terminator of an array of `len` characters. -/
def printed (len : Nat) (s : List TChar) : List TChar := s.take (len - 1)

def columnTextPasswordedGame : List TChar := text "(P)"

/-- The texts of a new row, if `ListView_InsertItem` could insert it. -/
def gameInfoToRow (inserted : Bool) (g : GameInfo) : Except GameTypeFault (Option (List (List TChar))) :=
  if inserted then do
    let description ← getGameTypeDescription g.gametype
    return some [wstr g.name, if g.pwd then columnTextPasswordedGame else [],
      printed 32 (text (toString g.serverPing)),
      printed 32 (text (toString g.playerCount ++ "/" ++ toString g.playerlimit)),
      wstr g.map, printed 32 description, wstr g.modName]
  else return none

/-- The result of `int` arithmetic. -/
def wrap (n : Int) : Int := (n + 0x80000000) % 0x100000000 - 0x80000000

abbrev colPassword : Int := 1
abbrev colPing : Int := 2
abbrev colPlayers : Int := 3
abbrev colMap : Int := 4
abbrev colGametype : Int := 5
abbrev colGamemod : Int := 6

section compare

variable {F : Type} (compareString : List TChar → List TChar → Int) (description : Int → Except F (List TChar))
  (reverse : Bool)

def signed (iResult : Int) : Int := if reverse then wrap (-iResult) else iResult

def compareInts (int1 int2 : Int) : Int :=
  let iResult := wrap (int1 - int2)
  if iResult ≠ 0 then signed reverse iResult else 0

def compareSubstrs (substr1 substr2 : List TChar) : Int :=
  let iResult := compareString substr1 substr2
  if iResult ≠ 0 then signed reverse (wrap (iResult - 2)) else 0

def compareAlpha (alphaCmp1 alphaCmp2 : List TChar) : Int :=
  let iResult := compareString alphaCmp1 alphaCmp2
  signed reverse (if iResult ≠ 0 then wrap (iResult - 2) else iResult)

/-- `use_fallback` is always `FALSE`, so that games with one key are equal. -/
def compareFunc (lastColSortIndex : Int) (g1 g2 : GameInfo) : Except F Int :=
  if lastColSortIndex = colPassword then .ok (compareInts reverse g1.pwd.toInt g2.pwd.toInt)
  else if lastColSortIndex = colPing then .ok (compareInts reverse g1.serverPing g2.serverPing)
  else if lastColSortIndex = colPlayers then .ok (compareInts reverse g1.playerCount g2.playerCount)
  else if lastColSortIndex = colMap then .ok (compareSubstrs compareString reverse (wstr g1.map) (wstr g2.map))
  else if lastColSortIndex = colGametype then do
    return compareSubstrs compareString reverse (← description g1.gametype) (← description g2.gametype)
  else if lastColSortIndex = colGamemod then
    .ok (compareSubstrs compareString reverse (wstr g1.modName) (wstr g2.modName))
  else .ok (compareAlpha compareString reverse (wstr g1.name) (wstr g2.name))

end compare

/-- The mods up to the first empty slot. -/
def modlist (modId : Vector UInt32 maxMods) : List TChar :=
  (modId.toList.takeWhile (· != 0)).flatMap fun m => text (toString m.toNat) ++ text "\r\n"

/-- The text about a game that the user selects. -/
def hostmsgStr (g : GameInfo) : Except GameTypeFault (List TChar) := do
  let description ← getGameTypeDescription g.gametype
  return printed 1024 (wstr g.map ++ text "\r\n" ++ description ++ text "\r\n\r\nServer Version: " ++
    wstr g.version ++ text "\r\n\r\nPlaying for " ++ text (toString g.gametime) ++ text " minutes.\r\nTPS: " ++
    text (toString g.tps) ++ text "\r\nMods:\r\n" ++ modlist g.modId ++ text "\r\nTime Limit: " ++
    text (toString g.timelimit) ++ text " minutes\r\nKill Limit: " ++ text (toString g.killlimit) ++
    text "\r\nMax Ping: " ++ text (toString g.maxPing))

/-- The description at the index if it is listed, and that of an unknown type otherwise. -/
def gameTypeText (id : Int) : List TChar :=
  if 0 ≤ id then ((gametypes[id.toNat]?).bind GameTypeList.description).getD (text "Unknown") else text "Unknown"

def ListedType (id : Int) : Prop := 0 ≤ id ∧ id ≤ 2

instance : DecidablePred ListedType := fun _ => inferInstanceAs (Decidable (_ ∧ _))

theorem searchGameType_row {id : Int} {i : Nat} {row : GameTypeList} {description : List TChar}
    (hd : row.description = some description) (hne : description ≠ []) (rows : List GameTypeList) :
    searchGameType id i (row :: rows) =
      if i = id then .ok (some description) else searchGameType id (i + 1) rows := by
  cases description with
  | nil => exact absurd rfl hne
  | cons c cs => simp only [searchGameType, hd]

/-- Only a null description stops the search for a type that is not listed. -/
theorem searchGameType_eq (id : Int) : searchGameType id 0 gametypes =
    if ListedType id then .ok (some (gameTypeText id)) else .error .nullDescription := by
  have h0 : text "Unknown" ≠ [] := by decide
  have h1 : text "Deathmatch" ≠ [] := by decide
  have h2 : text "Strategy" ≠ [] := by decide
  rw [gametypes, searchGameType_row rfl h0, searchGameType_row rfl h1, searchGameType_row rfl h2, searchGameType]
  by_cases hid : ListedType id
  · obtain ⟨hlow, hhigh⟩ := hid
    obtain rfl | rfl | rfl : id = 0 ∨ id = 1 ∨ id = 2 := by omega
    · rfl
    · rfl
    · rfl
  · rw [ListedType] at hid
    have hne : 0 ≠ id ∧ 1 ≠ id ∧ 2 ≠ id := by omega
    simp [ListedType, hid, hne]

theorem getGameTypeDescription_eq (id : Int) : getGameTypeDescription id =
    if ListedType id then .ok (gameTypeText id) else .error .nullDescription := by
  rw [getGameTypeDescription, searchGameType_eq]
  split <;> rfl

/-- There is a row, or its text for the type is read through a null pointer. -/
theorem gameInfoToRow_cases (g : GameInfo) : (ListedType g.gametype ∧ ∃ r, gameInfoToRow true g = .ok r) ∨
    (¬ ListedType g.gametype ∧ gameInfoToRow true g = .error .nullDescription) := by
  simp only [gameInfoToRow, if_true, getGameTypeDescription_eq]
  by_cases h : ListedType g.gametype
  · rw [if_pos h]
    exact .inl ⟨h, _, rfl⟩
  · rw [if_neg h]
    exact .inr ⟨h, rfl⟩

theorem gameInfoToRow_ok_iff {g : GameInfo} : (∃ r, gameInfoToRow true g = .ok r) ↔ ListedType g.gametype := by
  rcases gameInfoToRow_cases g with ⟨hl, hr⟩ | ⟨hl, hr⟩
  · exact iff_of_true hr hl
  · exact iff_of_false (by simp [hr]) hl

/-- The window can show, order and describe the games. -/
structure Presentable (games : List GameInfo) : Prop where
  description : ∀ g ∈ games, getGameTypeDescription g.gametype = .ok (gameTypeText g.gametype)
  row : ∀ g ∈ games, ∀ inserted, ∃ r, gameInfoToRow inserted g = .ok r
  compare : ∀ g1 ∈ games, ∀ g2 ∈ games, ∀ compareString reverse lastColSortIndex, ∃ n,
    compareFunc compareString getGameTypeDescription reverse lastColSortIndex g1 g2 = .ok n
  selected : ∀ g ∈ games, ∃ s, hostmsgStr g = .ok s

theorem presentable_iff (games : List GameInfo) : Presentable games ↔ ∀ g ∈ games, ListedType g.gametype := by
  constructor
  · intro h g hg
    exact gameInfoToRow_ok_iff.mp (h.row g hg true)
  · intro h
    have hd : ∀ g ∈ games, getGameTypeDescription g.gametype = .ok (gameTypeText g.gametype) := by
      intro g hg
      rw [getGameTypeDescription_eq, if_pos (h g hg)]
    refine ⟨hd, ?_, ?_, ?_⟩
    · intro g hg inserted
      cases inserted with
      | false => exact ⟨none, rfl⟩
      | true => exact gameInfoToRow_ok_iff.mpr (h g hg)
    · intro g1 hg1 g2 hg2 compareString reverse lastColSortIndex
      simp only [compareFunc, hd g1 hg1, hd g2 hg2, bind, Except.bind, pure, Except.pure]
      split_ifs <;> exact ⟨_, rfl⟩
    · intro g hg
      exact ⟨_, by rw [hostmsgStr, hd g hg]; rfl⟩

/-- The member `"gt": 3` makes the row of the game crash the scan. -/
theorem gametype_three_crashes : getGameTypeDescription (atoi [0x33]) = .error .nullDescription ∧
    ∃ f, serverCase (fun _ _ => none) [0x33] .gametype = some f ∧
      gameInfoToRow true (f .zero) = .error .nullDescription ∧ ¬ Presentable [f .zero] := by
  have h3 : atoi [0x33] = 3 := by decide
  refine ⟨by rw [h3, getGameTypeDescription_eq]; rfl, _, rfl, ?_, ?_⟩
  · simp only [gameInfoToRow, if_true, h3, getGameTypeDescription_eq]
    rfl
  · rw [presentable_iff]
    intro h
    have hl := h _ (List.mem_singleton.mpr rfl)
    rw [show (_ : Int) = 3 from h3] at hl
    exact absurd hl (by decide)

end BzccScanner
