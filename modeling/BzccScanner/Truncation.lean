import BzccScanner.LobbyReports
import BzccScanner.Scan

/-! Documents cut short. Every prefix of a document that the reader gets
through is one it gets through, and the end of the stream returns 0 in every
state of the reader. -/

namespace BzccScanner

open CString Mealy

variable {σ : Type}

/-- Where the reader reaches the end of the stream, only the callback can make
`parse_data` return anything but 0. -/
theorem parseData_of_open (cb : Callback σ) {usingHttp : Bool} (data : σ) {bytes : List Byte}
    (d : Division bytes) {s : Client} (h : ((Client.init usingHttp).run bytes).2 = .ok s) :
    ∃ code w, parseData cb usingHttp data d.reads = .ok (code, w) ∧
      (code ≠ 0 ↔ ∃ c ∈ w.calls, c.code ≠ 0) := by
  rw [parseData_eq, drain, h]
  rcases foldlM_deliver_spec cb ((Client.init usingHttp).run bytes).1 (World.init data) with
    ⟨v, new, hv, hn, hz, -⟩ | ⟨v, new, c, hv, hn, -, hc, -⟩
  · rw [hv]
    obtain rfl : new = v.calls := hn.symm
    exact ⟨0, v, rfl, by simpa using hz⟩
  · rw [hv]
    exact ⟨1, v, rfl, by simpa [hn] using ⟨c, by simp, hc.1⟩⟩

def Lobby.body (l : Lobby) : List Byte :=
  spaces l.before ++ lbrace :: (Members.last l.label (.ofElements Server.element l.servers) l.trailing).text

theorem Lobby.text_eq (l : Lobby) : l.text = l.body ++ rbrace :: spaces l.after := by
  simp [Lobby.text, Lobby.body, Lobby.root, Json.text]

structure Cut (l : Lobby) where
  kept : List Byte
  lost : List Byte
  eq : l.body = kept ++ lost

/-- How a document is delivered: from a file, or behind a head that declares
no length or one that the `n` bytes delivered do not reach. -/
inductive Transfer (n : Nat)
  | file
  | http (head : Head) (h : head.contentLength = 0 ∨ n < head.contentLength.toNat)

namespace Transfer

variable {n : Nat}

def usingHttp : Transfer n → Bool
  | file => false
  | http _ _ => true

def head : Transfer n → List Byte
  | file => []
  | http h _ => h.text

end Transfer

theorem Cut.run {l : Lobby} (k : Cut l) : ∃ items t, Reader.init.run k.kept = (items, .ok t) := by
  obtain ⟨t, ht⟩ := l.run_text
  rw [l.text_eq, k.eq, List.append_assoc] at ht
  exact run_prefix_ok ht

theorem Cut.run_transfer {l : Lobby} (k : Cut l) (t : Transfer k.kept.length) :
    ∃ s, ((Client.init t.usingHttp).run (t.head ++ k.kept)).2 = .ok s := by
  obtain ⟨items, r, hr⟩ := k.run
  have hopen : ∀ s : Client, s.state = .readingJson → s.reader = .init → s.Unlimited k.kept.length →
      ∃ u, (s.run k.kept).2 = .ok u := by
    intro s hs hi hu
    have ho := Client.run_reader hs k.kept hu
    rw [hi, hr] at ho
    obtain ⟨-, u, he, -⟩ := observe_eq_ok.mp ho
    exact ⟨u, he⟩
  cases t with
  | file => exact hopen (Client.init false) rfl rfl (Client.init_unlimited false _)
  | http head h =>
    have hu : (Client.atBody head.contentLength).Unlimited k.kept.length := by
      apply h.imp_right
      intro hl
      simpa [Client.atBody] using hl
    obtain ⟨u, he⟩ := hopen (Client.atBody head.contentLength) rfl rfl hu
    refine ⟨u, ?_⟩
    have ha := run_append_silent (Client.run_head head) k.kept
    exact (congrArg Prod.snd ha).trans he

/-- A transfer that is cut short is reported as complete, unless the callback
itself has stopped it. -/
theorem truncated_complete (cb : Callback σ) (data : σ) (l : Lobby) (k : Cut l) (t : Transfer k.kept.length)
    (d : Division (t.head ++ k.kept)) (garbage : KeyValueInfo) :
    ∃ code w, parseData cb t.usingHttp data d.reads = .ok (code, w) ∧
      (code ≠ 0 ↔ ∃ c ∈ w.calls, c.code ≠ 0) ∧
      terminalStatus (scan cb t.usingHttp garbage data (.ok d.reads)) =
        some (if ∃ c ∈ w.calls, c.code ≠ 0 then .error else .complete) := by
  obtain ⟨s, hs⟩ := k.run_transfer t
  obtain ⟨code, w, hw, hiff⟩ := parseData_of_open cb data d hs
  refine ⟨code, w, hw, hiff, (terminalStatus_scan hw garbage).trans ?_⟩
  by_cases hc : code = 0
  · rw [if_pos hc, if_neg (by rw [← hiff]; simpa using hc)]
  · rw [if_neg hc, if_pos (hiff.mp hc)]

/-- `{"G":[{"n":1`, cut inside the only server. -/
def cutShort : Cut bareEnd where
  kept := [0x7b, 0x22, 0x47, 0x22, 0x3a, 0x5b, 0x7b, 0x22, 0x6e, 0x22, 0x3a, 0x31]
  lost := [0x7d, 0x5d]
  eq := rfl

theorem cutShort_complete : ∃ w,
    parseData accept false () (Division.single cutShort.kept).reads = .ok (0, w) ∧
      terminalStatus (scanFile accept .zero () (.ok (Division.single cutShort.kept).reads)) =
        some .complete := by
  obtain ⟨items, t, h⟩ := cutShort.run
  have hcb : ∀ k d, (accept (σ := Unit) k d).code = 0 := fun _ _ => rfl
  obtain ⟨w, hw, -⟩ := parseData_file hcb () (Division.single cutShort.kept) h rfl
  exact ⟨w, hw, terminalStatus_scan hw .zero⟩

end BzccScanner
