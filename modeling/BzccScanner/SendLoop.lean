import BzccScanner.ScanProtocol

/-! The loop that sends the request. The result of one `send` is taken for the
number of all bytes sent, and the next one starts at the first byte again, so
that after a short write only an error ends the loop. -/

namespace BzccScanner

open CString

/-- What `send` may return from the offset `i` on: an error, or a part of what it is handed. -/
def Answers (len : Nat) : Nat → List (Except Int Nat) → Prop
  | _, [] => True
  | _, .error _ :: _ => True
  | i, .ok k :: rest => i < len → 1 ≤ k ∧ k ≤ len - i ∧ Answers len k rest

def firstAnswers (sends : Nat → Except Int Nat) (n : Nat) : List (Except Int Nat) := (List.range n).map sends

theorem firstAnswers_succ (sends : Nat → Except Int Nat) (n : Nat) :
    firstAnswers sends (n + 1) = sends 0 :: firstAnswers (fun m => sends (m + 1)) n := by
  simp [firstAnswers, List.range_succ_eq_map, Function.comp_def]

theorem mem_firstAnswers {sends : Nat → Except Int Nat} {n : Nat} {x : Except Int Nat} :
    x ∈ firstAnswers sends n ↔ ∃ m < n, sends m = x := by
  simp [firstAnswers]

section loop

variable {http : List Byte} {i : Nat} {as : List (Except Int Nat)} {sends : Nat → Except Int Nat}

theorem sendLoop_short (hi : 1 ≤ i) (hlt : i < http.length) (h : Answers http.length i as) :
    (∀ b, sendLoop http i as ≠ some (b, .ok ())) ∧
      ((sendLoop http i as).isSome = true ↔ ∃ e, .error e ∈ as) := by
  have hrun : ¬ http.length ≤ i := by omega
  induction as generalizing i with
  | nil => simp [sendLoop, hrun]
  | cons a as ih =>
    cases a with
    | error e => simp [sendLoop, hrun]
    | ok k =>
      obtain ⟨hk, hle, hrest⟩ := h hlt
      obtain ⟨hok, hiff⟩ := ih hk (by omega) hrest (by omega)
      simp only [sendLoop, hrun, if_false]
      refine ⟨?_, ?_⟩
      · intro b hb
        obtain ⟨r, hr, he⟩ := Option.map_eq_some_iff.mp hb
        exact hok r.1 (hr.trans (congrArg some (Prod.ext rfl (Prod.mk.inj he).2)))
      · simpa using hiff

theorem sendLoop_whole (as : List (Except Int Nat)) (hne : http ≠ []) :
    sendLoop http 0 (.ok http.length :: as) = some (http, .ok ()) := by
  have hend : sendLoop http http.length as = some ([], .ok ()) := by
    cases as with
    | nil => simp [sendLoop]
    | cons a as => cases a <;> simp [sendLoop]
  simp [sendLoop, hend, hne]

theorem sendLoop_error (as : List (Except Int Nat)) (e : Int) (hne : http ≠ []) :
    sendLoop http 0 (.error e :: as) = some ([], .error e) := by
  simp [sendLoop, hne]

theorem sendLoop_first {k : Nat} (hne : http ≠ []) :
    sendLoop http 0 (.ok k :: as) = (sendLoop http k as).map fun r => (http.take k ++ r.1, r.2) := by
  simp [sendLoop, hne]

/-- The first answer to a request that is not empty. -/
theorem Answers.head_cases (hne : http ≠ []) (h : ∀ n, Answers http.length 0 (firstAnswers sends n)) :
    (∃ e, sends 0 = .error e) ∨ sends 0 = .ok http.length ∨
      ∃ k, sends 0 = .ok k ∧ 1 ≤ k ∧ k < http.length ∧
        ∀ n, Answers http.length k (firstAnswers (fun m => sends (m + 1)) n) := by
  cases h0 : sends 0 with
  | error e => exact .inl ⟨e, rfl⟩
  | ok k =>
    have hstep : ∀ n, 1 ≤ k ∧ k ≤ http.length - 0 ∧
        Answers http.length k (firstAnswers (fun m => sends (m + 1)) n) := by
      intro n
      have hn := h (n + 1)
      rw [firstAnswers_succ, h0] at hn
      exact hn (List.length_pos_of_ne_nil hne)
    obtain ⟨hk, hle, -⟩ := hstep 0
    by_cases hlen : k = http.length
    · exact .inr (.inl (congrArg Except.ok hlen))
    · exact .inr (.inr ⟨k, rfl, hk, by omega, fun n => (hstep n).2.2⟩)

/-- What the loop owes to a request. -/
structure Transmits (http : List Byte) (sends : Nat → Except Int Nat) : Prop where
  terminates : ∃ n, (sendLoop http 0 (firstAnswers sends n)).isSome = true
  accepted : ∀ n b, sendLoop http 0 (firstAnswers sends n) = some (b, .ok ()) → b = http
  failed : ∀ n b e, sendLoop http 0 (firstAnswers sends n) = some (b, .error e) →
    ∀ {σ : Type} (cb : Callback σ) garbage data host port serverFile (net : Network),
      net.wsaStartup = none → net.getaddrinfo = none → connectLoop (net.address :: net.addresses) = .ok true →
      httpRequest host serverFile = http → net.sends = firstAnswers sends n →
      ∃ w c, (ScanCall.http host port serverFile net).run cb garbage data = some (.ok (1, w)) ∧
        w.calls = [c] ∧ c.kvi.status = .error

theorem scan_of_send_failed {σ : Type} (cb : Callback σ) (garbage : KeyValueInfo) (data : σ)
    {host port serverFile : List Byte} {net : Network} {b : List Byte} {e : Int} (hw : net.wsaStartup = none)
    (hg : net.getaddrinfo = none) (hc : connectLoop (net.address :: net.addresses) = .ok true)
    (hs : sendLoop (httpRequest host serverFile) 0 net.sends = some (b, .error e)) :
    ∃ w c, (ScanCall.http host port serverFile net).run cb garbage data = some (.ok (1, w)) ∧
      w.calls = [c] ∧ c.kvi.status = .error := by
  have hconn : net.connection host port serverFile = some (.error (.send e)) := by
    simp [Network.connection, hw, hg, hc, hs]
  rw [ScanCall.run, hconn]
  exact ⟨_, _, rfl, rfl, rfl⟩

theorem sendLoop_accepted (hne : http ≠ []) (h : ∀ n, Answers http.length 0 (firstAnswers sends n)) {n : Nat}
    {b : List Byte} (hs : sendLoop http 0 (firstAnswers sends n) = some (b, .ok ())) : b = http := by
  cases n with
  | zero => simp [firstAnswers, sendLoop, hne] at hs
  | succ n =>
    rw [firstAnswers_succ] at hs
    rcases Answers.head_cases hne h with ⟨e, h0⟩ | h0 | ⟨k, h0, hk, hlt, hrest⟩
    · simp [h0, sendLoop_error _ e hne] at hs
    · rw [h0, sendLoop_whole _ hne] at hs
      exact (Prod.mk.inj (Option.some.inj hs)).1.symm
    · rw [h0, sendLoop_first hne] at hs
      obtain ⟨r, hr, he⟩ := Option.map_eq_some_iff.mp hs
      have hok : sendLoop http k (firstAnswers (fun m => sends (m + 1)) n) = some (r.1, .ok ()) :=
        hr.trans (congrArg some (Prod.ext rfl (Prod.mk.inj he).2))
      exact absurd hok ((sendLoop_short hk hlt (hrest n)).1 r.1)

theorem sendLoop_terminates_iff (hne : http ≠ []) (h : ∀ n, Answers http.length 0 (firstAnswers sends n)) :
    (∃ n, (sendLoop http 0 (firstAnswers sends n)).isSome = true) ↔
      sends 0 = .ok http.length ∨ ∃ n e, sends n = .error e := by
  rcases Answers.head_cases hne h with ⟨e, h0⟩ | h0 | ⟨k, h0, hk, hlt, hrest⟩
  · refine iff_of_true ⟨1, ?_⟩ (.inr ⟨0, e, h0⟩)
    rw [firstAnswers_succ, h0, sendLoop_error _ e hne]
    rfl
  · refine iff_of_true ⟨1, ?_⟩ (.inl h0)
    rw [firstAnswers_succ, h0, sendLoop_whole _ hne]
    rfl
  · have hloop : ∀ n, (sendLoop http 0 (firstAnswers sends (n + 1))).isSome = true ↔
        ∃ e, .error e ∈ firstAnswers (fun m => sends (m + 1)) n := by
      intro n
      rw [firstAnswers_succ, h0, sendLoop_first hne, Option.isSome_map]
      exact (sendLoop_short hk hlt (hrest n)).2
    constructor
    · rintro ⟨n, hn⟩
      cases n with
      | zero => simp [firstAnswers, sendLoop, hne] at hn
      | succ n =>
        obtain ⟨e, he⟩ := (hloop n).mp hn
        obtain ⟨m, -, hm⟩ := mem_firstAnswers.mp he
        exact .inr ⟨m + 1, e, hm⟩
    · rintro (hwhole | ⟨n, e, he⟩)
      · rw [h0, Except.ok.injEq] at hwhole
        omega
      · cases n with
        | zero => simp [h0] at he
        | succ n => exact ⟨n + 2, (hloop (n + 1)).mpr ⟨e, mem_firstAnswers.mpr ⟨n, by omega, he⟩⟩⟩

theorem transmits_iff (hne : http ≠ []) (h : ∀ n, Answers http.length 0 (firstAnswers sends n)) :
    Transmits http sends ↔ sends 0 = .ok http.length ∨ ∃ n e, sends n = .error e := by
  rw [← sendLoop_terminates_iff hne h]
  constructor
  · exact Transmits.terminates
  · intro hterm
    refine ⟨hterm, fun n b hs => sendLoop_accepted hne h hs, ?_⟩
    intro n b e hs σ cb garbage data host port serverFile net hw hg hc hreq hsends
    exact scan_of_send_failed cb garbage data hw hg hc (by rw [hreq, hsends]; exact hs)

theorem transmits_iff_failed : Transmits [0x47, 0x45, 0x54] fun n => if n = 0 then .ok 1 else .error 10054 := by
  apply (transmits_iff (by decide) ?_).mpr
  · exact .inr ⟨1, 10054, rfl⟩
  · intro n
    rcases n with _ | _ | n
    · exact trivial
    · exact fun _ => ⟨by decide, by decide, trivial⟩
    · rw [firstAnswers_succ, firstAnswers_succ]
      exact fun _ => ⟨by decide, by decide, trivial⟩

end loop

theorem answers_ones {i : Nat} (hi : i ≤ 2) (n : Nat) : Answers 3 i (firstAnswers (fun _ => .ok 1) n) := by
  induction n generalizing i with
  | zero => exact trivial
  | succ n ih =>
    rw [firstAnswers_succ]
    exact fun _ => ⟨Nat.le_refl 1, by omega, ih (by decide)⟩

/-- Three bytes of which each `send` takes one: the first byte is sent again and again. -/
theorem shortWrites_never_end : (∀ n, Answers 3 0 (firstAnswers (fun _ => .ok 1) n)) ∧
    ¬ Transmits [0x47, 0x45, 0x54] fun _ => .ok 1 := by
  have hones : ∀ n, Answers 3 0 (firstAnswers (fun _ => .ok 1) n) := answers_ones (by decide)
  refine ⟨hones, fun h => ?_⟩
  have hne : [0x47, 0x45, 0x54] ≠ ([] : List Byte) := by decide
  rcases (sendLoop_terminates_iff hne hones).mp h.terminates with hwhole | ⟨n, e, he⟩
  · cases hwhole
  · cases he

end BzccScanner
