import BzccScanner.Lobby
import BzccScanner.WholeDocuments

/-! What the callback is told about a lobby document, and which of its calls
are marked as the last of their block. -/

namespace BzccScanner

open CString

structure Told where
  isPlayer : Bool
  key : List Byte
  value : List Byte
  serverIndex : Int32
  playerIndex : Int32
  deriving DecidableEq, Repr

def Report.told (r : Report) : Told := ⟨r.isPlayer, r.key, r.value, r.serverIndex, r.playerIndex⟩

/-- A member as the document has it: its key, its decoded value, and as `int`s the
position of its server and the number of players of that server in front of it. -/
def Placed.told (p : Placed) : Told :=
  ⟨p.isPlayer, p.field.label.key.bytes, p.field.scalar.value, Int32.ofNat p.server, Int32.ofNat p.player⟩

def Lobby.Fits (l : Lobby) : Prop :=
  ∀ p ∈ l.placed, (p.field.label.key.bytes.length < keyStrLen ∧ 0 ∉ p.field.label.key.bytes) ∧
    p.field.scalar.value.length < valueStrLen ∧ 0 ∉ p.field.scalar.value

theorem cstr_strncpy_of_fits {n : Nat} {b : List Byte} (hl : b.length < n) (h0 : 0 ∉ b) :
    cstr (strncpy n b).toList = b := by
  have hb := cstr_eq_self h0
  rw [cstr_strncpy (by rw [hb]; omega), hb]

theorem Placed.report_told {p : Placed}
    (hk : p.field.label.key.bytes.length < keyStrLen ∧ 0 ∉ p.field.label.key.bytes)
    (hv : p.field.scalar.value.length < valueStrLen ∧ 0 ∉ p.field.scalar.value) :
    p.item.report.told = p.told := by
  have hkey := cstr_strncpy_of_fits hk.1 hk.2
  have hval := cstr_strncpy_of_fits hv.1 hv.2
  have hp : (p.item.depth == 5) = p.isPlayer := by
    cases h : p.isPlayer <;> simp [Placed.item, h]
  simp only [Report.told, Item.report, KeyValueInfo.report, Item.kvi, hp]
  simp only [Placed.item, hkey, hval, Placed.told]

variable {σ : Type}

/-- The document comes back member by member. -/
theorem lobby_told {cb : Callback σ} (hcb : ∀ k d, (cb k d).code = 0) (data : σ) (l : Lobby)
    (hfit : l.Fits) (d : Division l.text) : ∃ w, parseData cb false data d.reads = .ok (0, w) ∧
      w.calls.map (fun c => c.kvi.report.told) = l.placed.map Placed.told := by
  obtain ⟨w, hw, hc⟩ := parseData_lobby hcb data l d
  refine ⟨w, hw, ?_⟩
  have ht := congrArg (List.map Report.told) hc
  rw [List.map_map, List.map_map] at ht
  refine ht.trans (List.map_congr_left fun p hp => ?_)
  exact Placed.report_told (hfit p hp).1 (hfit p hp).2

/-- Whose final member is a scalar has that member marked as the last of its
block, and no other member is. -/
def MarksEnds (cb : Callback σ) (data : σ) (l : Lobby) (reads : List Read) : Prop :=
  ∃ w, parseData cb false data reads = .ok (0, w) ∧
    w.calls.map (fun c => c.kvi.status) = l.placed.map fun p => if p.isFinal then .last else .normal

def Lobby.FinalsBare (l : Lobby) : Prop :=
  ∀ p ∈ l.placed, p.isFinal = true → p.field.scalar.isQuoted = false

theorem Placed.status_eq_iff (p : Placed) :
    p.item.status = (if p.isFinal then .last else .normal) ↔
      (p.isFinal = true → p.field.scalar.isQuoted = false) := by
  cases hf : p.isFinal <;> cases hq : p.field.scalar.isQuoted <;> simp [Placed.item, hf, hq]

theorem lobby_statuses {cb : Callback σ} (hcb : ∀ k d, (cb k d).code = 0) (data : σ) (l : Lobby)
    (d : Division l.text) : ∃ w, parseData cb false data d.reads = .ok (0, w) ∧
      w.calls.map (fun c => c.kvi.status) = l.placed.map fun p => p.item.status := by
  obtain ⟨w, hw, hc⟩ := parseData_lobby hcb data l d
  have ht := congrArg (List.map Report.status) hc
  rw [List.map_map, List.map_map] at ht
  exact ⟨w, hw, ht⟩

theorem marksEnds_of_finalsBare {cb : Callback σ} (hcb : ∀ k d, (cb k d).code = 0) (data : σ) {l : Lobby}
    (h : l.FinalsBare) (d : Division l.text) : MarksEnds cb data l d.reads := by
  obtain ⟨w, hw, hs⟩ := lobby_statuses hcb data l d
  refine ⟨w, hw, hs.trans (List.map_congr_left fun p hp => ?_)⟩
  exact p.status_eq_iff.mpr (h p hp)

theorem finalsBare_of_marksEnds {cb : Callback σ} (hcb : ∀ k d, (cb k d).code = 0) {data : σ} {l : Lobby}
    {d : Division l.text} (h : MarksEnds cb data l d.reads) : l.FinalsBare := by
  obtain ⟨w, hw, hs⟩ := lobby_statuses hcb data l d
  obtain ⟨v, hv, he⟩ := h
  obtain rfl : w = v := (Prod.mk.inj (Except.ok.inj (hw.symm.trans hv))).2
  intro p hp
  exact p.status_eq_iff.mp (List.map_inj_left.mp (hs.symm.trans he) p hp)

theorem marksEnds_iff (cb : Callback σ) (hcb : ∀ k d, (cb k d).code = 0) (data : σ) (l : Lobby)
    (d : Division l.text) : MarksEnds cb data l d.reads ↔ l.FinalsBare :=
  ⟨finalsBare_of_marksEnds hcb, fun h => marksEnds_of_finalsBare hcb data h d⟩

def Field.tight (k : Key) (s : Scalar) (h : s.value.length < genericBuflen - 1) : Field :=
  ⟨⟨[], k, [], []⟩, s, h, []⟩

def keyG : Key := ⟨[0x47], by simp, by decide⟩

def keyN : Key := ⟨[0x6e], by simp, by decide⟩

def keyP : Key := ⟨[0x70], by simp, by decide⟩

def keyI : Key := ⟨[0x69], by simp, by decide⟩

def keyK : Key := ⟨[0x6b], by simp, by decide⟩

def keyT : Key := ⟨[0x74], by simp, by decide⟩

/-- `"n":1` -/
def bareField : Field := .tight keyN one one_lt

/-- `"n":"a"` -/
def quotedField : Field := .tight keyN (.quoted [.plain 0x61 (by decide)]) (by decide)

def oneServer (members : Listing Member) : Lobby :=
  ⟨[], ⟨[], keyG, [], []⟩, .items ⟨[], members, []⟩ [], [], []⟩

/-- `{"G":[{"n":1,"p":[{"n":"a"}]}]}` -/
def onePlayer : Lobby :=
  oneServer <| .items (.field bareField)
    [.players ⟨[], keyP, [], []⟩ (.items ⟨[], .items quotedField [], []⟩ []) []]

theorem lobby_told_onePlayer : ∃ w,
    parseData accept false () (Division.single onePlayer.text).reads = .ok (0, w) ∧
      w.calls.map (fun c => c.kvi.report.told) =
        [⟨false, [0x6e], [0x31], 0, 0⟩, ⟨true, [0x6e], [0x61], 0, 0⟩] := by
  have hfit : onePlayer.Fits := by
    simp only [Lobby.Fits, onePlayer, oneServer, Lobby.placed, Listing.toList, placeServers, placeMembers,
      placePlayers, placeFields]
    decide
  exact lobby_told (fun _ _ => rfl) () onePlayer hfit _

/-- `{"G":[{"n":"a"}]}` -/
def quotedEnd : Lobby := oneServer (.items (.field quotedField) [])

/-- The only member of the server is its last, and is not marked. -/
theorem quotedEnd_not_marked :
    quotedEnd.text = [0x7b, 0x22, 0x47, 0x22, 0x3a, 0x5b, 0x7b, 0x22, 0x6e, 0x22, 0x3a, 0x22, 0x61, 0x22,
      0x7d, 0x5d, 0x7d] ∧
      ¬ MarksEnds accept () quotedEnd (Division.single quotedEnd.text).reads := by
  refine ⟨rfl, fun h => ?_⟩
  have hb := finalsBare_of_marksEnds (fun _ _ => rfl) h
  exact absurd (hb _ (List.mem_singleton_self _) rfl) (by decide)

/-- `{"G":[{"n":1}]}` -/
def bareEnd : Lobby := oneServer (.items (.field bareField) [])

theorem marksEnds_iff_bareEnd :
    MarksEnds accept () bareEnd (Division.single bareEnd.text).reads ↔ bareEnd.FinalsBare :=
  marksEnds_iff accept (fun _ _ => rfl) () bareEnd _

end BzccScanner
