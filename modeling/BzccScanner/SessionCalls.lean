import BzccScanner.GameDiff

/-! One call of the callback: the user may cancel in front of it, and a call
about the end of a scan, or of a scan that is cancelled, is refused. -/

namespace BzccScanner

open CString

variable {w : WindowControls}

theorem processEnd_ok (h : w.Sound) (k : KeyValueInfo) :
    ∃ shown, processEnd k w = .ok ⟨1, k, { w with notices := shown }⟩ :=
  ⟨_, processEnd_changes h.bounded k⟩

theorem WindowControls.Sound.cancel (h : w.Sound) : { w with iContinueScan := false }.Sound :=
  ⟨h.servers_le, h.players_le, h.game, h.player, h.counted, h.current, h.prev_le, h.prev_counted⟩

section callback

variable (decode : Decoder) (cancels : Nat → Bool) (e : KeyValueInfo) {s : Session}

def cancelled (cancels : Nat → Bool) (s : Session) (w : WindowControls) : WindowControls :=
  if cancels s.calls then { w with iContinueScan := false } else w

theorem sessionCallback_ok {decode : Decoder} {cancels : Nat → Bool} {e : KeyValueInfo} {r : Reply WindowControls}
    (hs : s.controls = .ok w) (hp : processSessionInfo decode e (cancelled cancels s w) = .ok r) :
    sessionCallback decode cancels e s = ⟨r.code, r.kvi, ⟨.ok r.data, s.calls + 1⟩⟩ := by
  rw [cancelled] at hp
  simp only [sessionCallback, hs, hp]

theorem sessionCallback_crash {decode : Decoder} {cancels : Nat → Bool} {e : KeyValueInfo} {f : ScanFault}
    (hs : s.controls = .ok w) (hp : processSessionInfo decode e (cancelled cancels s w) = .error f) :
    sessionCallback decode cancels e s = ⟨1, e, ⟨.error f, s.calls + 1⟩⟩ := by
  rw [cancelled] at hp
  simp only [sessionCallback, hs, hp]

theorem sessionCallback_crashed {f : ScanFault} (hs : s.controls = .error f) :
    sessionCallback decode cancels e s = ⟨1, e, s⟩ := by
  simp only [sessionCallback, hs]

theorem cancelled_sound (s : Session) (h : w.Sound) : (cancelled cancels s w).Sound := by
  rw [cancelled]
  split_ifs
  · exact h.cancel
  · exact h

end callback

theorem getLast?_precedes {all done rest : List Item} {k : Item} (hall : all.Pairwise Item.Precedes)
    (hsplit : all = done ++ k :: rest) : ∀ l ∈ done.getLast?, l.Precedes k := by
  intro l hl
  rw [hsplit, List.pairwise_append] at hall
  exact hall.2.2 l (List.mem_of_getLast? hl) k (by simp)

def Call.AboutMember (c : Call Session) : Prop := c.kvi.status ≠ .complete ∧ c.kvi.status ≠ .error

end BzccScanner
