import BzccScanner.ReceivedGames

/-! The store invariant: what holds of the window after every call of any
sequence of scans. -/

namespace BzccScanner

/-- The window is intact after the call, unless the call crashes, and an
accepted member has only been stored in its slot. -/
def Call.Sound (c : Call Session) : Prop :=
  ∀ w, c.before.controls = .ok w → c.after.controls = .error .gameType ∨
    ∃ v, c.after.controls = .ok v ∧ v.Sound ∧ (c.code = 0 → Stores c.kvi w v)

section runs

variable {decode : Decoder} {w : WindowControls} {r : ScanRun} {v : World Session} {code : Int}

theorem always_sound (decode : Decoder) (cancels : Nat → Bool) (start : WindowControls) (all : List Item) :
    Standing.Always decode cancels start all Call.Sound where
  step := by
    rintro done k rest w e r - hs - hstep x hx
    obtain rfl : w = x := Except.ok.inj hx
    refine .inr ⟨r.data, rfl, ?_, hstep.stores⟩
    by_cases h0 : r.code = 0
    · exact (hstep.accept h0).2.2.sound
    · exact (hstep.refuse h0).1.sound
  crash := by
    rintro done k rest w e - - - _ -
    exact .inl rfl

theorem scanThread_sound (hw : w.Sound) (hi : r.Indexed) (h : scanThread decode r w.beginScan = .ok (code, v)) :
    (∀ c ∈ v.calls, c.Sound) ∧ ∀ x, v.data.controls = .ok x → x.Sound := by
  obtain ⟨members, last, ⟨y, x, hf⟩ | ⟨done, k, hf⟩⟩ := scanThread_ends hw hi h (always_sound decode _ _ _)
  · rw [hf.calls, List.forall_mem_append, List.forall_mem_singleton]
    refine ⟨⟨hf.members_all, ?_⟩, ?_⟩
    · intro w hb
      exact .inr ⟨x, hf.after, hf.result.1.sound, fun h0 => absurd (hf.refused.symm.trans h0) (by decide)⟩
    · intro u hu
      rw [← Except.ok.inj (hf.window.symm.trans hu)]
      exact hf.result.1.sound
  · rw [hf.calls, List.forall_mem_append, List.forall_mem_singleton]
    refine ⟨⟨hf.members_all, ?_⟩, ?_⟩
    · intro w hb
      rw [hf.before, hf.session.1] at hb
      cases hb
    · intro x hx
      cases hf.session.1.symm.trans hx

theorem callsOf_sound_of {scans : List ScanRun} (hw : w.Sound) (hi : ∀ r ∈ scans, r.Indexed) :
    ∀ c ∈ callsOf decode w scans, c.Sound := by
  induction scans generalizing w with
  | nil => simp [callsOf]
  | cons r scans ih =>
    rw [List.forall_mem_cons] at hi
    intro c hc
    rw [callsOf] at hc
    cases hr : scanThread decode r w.beginScan with
    | error f => simp [hr] at hc
    | ok out =>
      obtain ⟨code, v⟩ := out
      obtain ⟨hall, hx⟩ := scanThread_sound hw hi.1 hr
      simp only [hr, List.mem_append] at hc
      rcases hc with hc | hc
      · exact hall c hc
      · cases hv : v.data.controls with
        | error f => simp [hv] at hc
        | ok x =>
          rw [hv] at hc
          exact ih (hx x hv) hi.2 c hc

/-- The store invariant, from the start of the program on. -/
theorem callsOf_sound (decode : Decoder) (scans : List ScanRun) (hi : ∀ r ∈ scans, r.Indexed) :
    ∀ c ∈ callsOf decode .zero scans, c.Sound :=
  callsOf_sound_of WindowControls.zero_sound hi

end runs

/-- A window that the program can have between two scans. -/
inductive WindowControls.Reachable (decode : Decoder) : WindowControls → Prop
  | start : Reachable decode .zero
  | scan {w x : WindowControls} {r : ScanRun} {code : Int} {v : World Session} (h : Reachable decode w)
      (hi : r.Indexed) (hr : scanThread decode r w.beginScan = .ok (code, v)) (hx : v.data.controls = .ok x) :
      Reachable decode x

theorem WindowControls.Reachable.sound {decode : Decoder} {w : WindowControls} (h : w.Reachable decode) :
    w.Sound := by
  induction h with
  | start => exact zero_sound
  | scan h hi hr hx ih => exact (scanThread_sound ih hi hr).2 _ hx

/-- For a player's member, only the player and the number of players of its game differ. -/
def Call.Narrow (c : Call Session) : Prop :=
  ∀ w v, c.before.controls = .ok w → c.after.controls = .ok v → c.code = 0 → c.kvi.isPlayer = true →
    ∀ (i : Fin maxServers) (j : Fin maxPlayers), c.kvi.serverIndex.toInt = i.val →
    c.kvi.playerIndex.toInt = j.val →
      (w.game i).Within j (v.game i)

def Call.clearsFlag (c : Call Session) : Bool :=
  match c.before.controls, c.after.controls with
  | .ok w, .ok v => c.code = 0 ∧ c.kvi.isPlayer = true ∧ (∃ j : Fin maxPlayers, c.kvi.playerIndex.toInt = j.val) ∧
      ∃ i : Fin maxServers, c.kvi.serverIndex.toInt = i.val ∧ (w.game i).pwd = true ∧ (v.game i).pwd = false
  | _, _ => false

theorem Call.Narrow.not_clearsFlag {c : Call Session} (h : c.Narrow) : c.clearsFlag = false := by
  rw [clearsFlag]
  split
  · next w v hw hv =>
    apply decide_eq_false
    rintro ⟨hcode, hplayer, ⟨j, hj⟩, i, hi, hbefore, hafter⟩
    obtain ⟨p, n, he⟩ := h w v hw hv hcode hplayer i j hi hj
    rw [he] at hafter
    exact absurd (hbefore.symm.trans hafter) (by simp)
  · rfl

/-- `{"G":[{"k":1}]}` -/
def lockedScan : ScanRun :=
  .ofFile [0x7b, 0x22, 0x47, 0x22, 0x3a, 0x5b, 0x7b, 0x22, 0x6b, 0x22, 0x3a, 0x31, 0x7d, 0x5d, 0x7d]

/-- `{"G":[{"p":[{"t":1}]}]}` -/
def teamScan : ScanRun :=
  .ofFile [0x7b, 0x22, 0x47, 0x22, 0x3a, 0x5b, 0x7b, 0x22, 0x70, 0x22, 0x3a, 0x5b, 0x7b, 0x22, 0x74, 0x22, 0x3a,
    0x31, 0x7d, 0x5d, 0x7d, 0x5d, 0x7d]

set_option maxRecDepth 100000 in
theorem teamScan_clears :
    (callsOf (fun _ _ => none) .zero [lockedScan, teamScan]).any Call.clearsFlag = true := by
  decide +kernel

theorem lockedScan_teamScan_indexed : lockedScan.Indexed ∧ teamScan.Indexed := by
  constructor <;> decide +kernel

theorem callsOf_sound_teamScan :
    ∃ c ∈ callsOf (fun _ _ => none) .zero [lockedScan, teamScan], c.clearsFlag = true ∧ c.Sound := by
  obtain ⟨c, hc, hclear⟩ := List.any_eq_true.mp teamScan_clears
  exact ⟨c, hc, hclear, callsOf_sound _ _ (by simpa using lockedScan_teamScan_indexed) c hc⟩

/-- A player's member that begins a server of the second scan replaces the whole slot. -/
theorem teamScan_not_narrow : ¬ ∀ c ∈ callsOf (fun _ _ => none) .zero [lockedScan, teamScan], c.Narrow := by
  intro h
  obtain ⟨c, hc, hclear⟩ := List.any_eq_true.mp teamScan_clears
  exact absurd hclear (by rw [(h c hc).not_clearsFlag]; simp)

end BzccScanner
