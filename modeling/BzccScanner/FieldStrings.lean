import BzccScanner.ItemOrder
import BzccScanner.SessionInfo

/-! The strings in the record that the callback gets. Keys and values are cut
to the size of their fields, and one that fills its field is not terminated. -/

namespace BzccScanner

open CString Mealy

variable {σ : Type} {cb : Callback σ} {items : List Item} {w : World σ} {k : KeyValueInfo} {i : Item}

def KeyValueInfo.Holds (k : KeyValueInfo) (i : Item) : Prop :=
  k.keyStr = strncpy keyStrLen i.key ∧ k.valueStr = strncpy valueStrLen i.value

theorem strncpy_nil (n : Nat) : Vector.replicate n 0 = strncpy n [] := by
  ext j hj
  simp [strncpy, cstr]

theorem holds_zero : KeyValueInfo.zero.Holds ⟨.normal, [], [], 0, 0, 0⟩ := ⟨strncpy_nil _, strncpy_nil _⟩

/-- The fields are strings, and these begin the key and the value. -/
structure KeyValueInfo.Shows (k : KeyValueInfo) (i : Item) : Prop where
  key_terminated : 0 ∈ k.keyStr.toList
  value_terminated : 0 ∈ k.valueStr.toList
  key_prefix : cstr k.keyStr.toList <+: i.key
  value_prefix : cstr k.valueStr.toList <+: i.value

def Item.Fits (i : Item) : Prop := (cstr i.key).length < keyStrLen ∧ (cstr i.value).length < valueStrLen

theorem KeyValueInfo.Holds.shows_iff (h : k.Holds i) : k.Shows i ↔ i.Fits := by
  obtain ⟨hk, hv⟩ := h
  constructor
  · intro hs
    exact ⟨zero_mem_strncpy.mp (hk ▸ hs.key_terminated), zero_mem_strncpy.mp (hv ▸ hs.value_terminated)⟩
  · intro hf
    exact ⟨hk ▸ zero_mem_strncpy.mpr hf.1, hv ▸ zero_mem_strncpy.mpr hf.2, hk ▸ cstr_strncpy_isPrefix _ _,
      hv ▸ cstr_strncpy_isPrefix _ _⟩

/-- The items that `parse_data` gets to before a call is refused. -/
def taken (cb : Callback σ) : World σ → List Item → List Item
  | _, [] => []
  | w, i :: items => i :: match deliver cb w i with
    | .ok v => taken cb v items
    | .error _ => []

/-- The pairs that a scan reads. -/
def readPairs (cb : Callback σ) (usingHttp : Bool) (data : σ) (reads : List Read) : List Item :=
  taken cb (World.init data) ((Client.init usingHttp).run (received reads)).1

/-- The callback may write `err` only. -/
def Callback.KeepsStrings (cb : Callback σ) : Prop :=
  ∀ k d, (cb k d).kvi.keyStr = k.keyStr ∧ (cb k d).kvi.valueStr = k.valueStr

theorem deliver_holds (cb : Callback σ) (h : i.delivered = false) (w : World σ) :
    ∃ k : KeyValueInfo, deliver cb w i = .ok { w with kvi := k } ∧ k.Holds i := by
  simp only [Item.delivered, Bool.or_eq_false_iff, beq_eq_false_iff_ne] at h
  have hd : ¬ ((i.depth : Int) = 3 ∨ (i.depth : Int) = 5) := by omega
  rw [deliver, World.report, if_neg hd]
  exact ⟨_, rfl, rfl, rfl⟩

theorem foldlM_deliver_taken (cb : Callback σ) (items : List Item) (w : World σ) : ∃ v new,
    (items.foldlM (deliver cb) w = .ok v ∨ items.foldlM (deliver cb) w = .error (.ret 1 v)) ∧
    v.calls = w.calls ++ new ∧
    List.Forall₂ (fun c i => c.kvi.Holds i) new ((taken cb w items).filter Item.delivered) ∧
    (cb.KeepsStrings → ∀ i, w.kvi.Holds i → v.kvi.Holds ((taken cb w items).getLast?.getD i)) := by
  induction items generalizing w with
  | nil => exact ⟨w, [], .inl rfl, by simp, .nil, fun _ _ h => h⟩
  | cons i items ih =>
    by_cases hi : i.delivered = true
    · have hcall : deliver cb w i = _ := deliver_call hi w
      have hholds : (i.kvi w.kvi).Holds i := ⟨rfl, rfl⟩
      let c : Call σ := ⟨i.kvi w.kvi, w.data, (cb (i.kvi w.kvi) w.data).code, (cb (i.kvi w.kvi) w.data).data⟩
      have hkept : cb.KeepsStrings → ({ w with kvi := i.kvi w.kvi }.invoke cb).2.kvi.Holds i := by
        intro hcb
        obtain ⟨hk, hv⟩ := hcb (i.kvi w.kvi) w.data
        exact ⟨hk, hv⟩
      by_cases hc : (cb (i.kvi w.kvi) w.data).code = 0
      · rw [if_neg (by simpa using hc)] at hcall
        obtain ⟨v, new, hv, hn, hh, hl⟩ := ih ({ w with kvi := i.kvi w.kvi }.invoke cb).2
        refine ⟨v, c :: new, ?_, ?_, ?_, ?_⟩
        · rw [List.foldlM_cons, hcall]
          exact hv
        · rw [hn, invoke_calls, List.append_assoc]
          rfl
        · simp only [taken, hcall, List.filter_cons_of_pos hi]
          exact .cons hholds hh
        · intro hcb j _
          simp only [taken, hcall, List.getLast?_cons, Option.getD_some]
          exact hl hcb i (hkept hcb)
      · rw [if_pos hc] at hcall
        refine ⟨({ w with kvi := i.kvi w.kvi }.invoke cb).2, [c], .inr ?_, invoke_calls cb _, ?_, ?_⟩
        · rw [List.foldlM_cons, hcall]
          rfl
        · simp only [taken, hcall, List.filter_cons_of_pos hi]
          exact .cons hholds .nil
        · intro hcb j _
          simp only [taken, hcall]
          exact hkept hcb
    · obtain ⟨k, hk, hkh⟩ := deliver_holds cb (by simpa using hi) w
      obtain ⟨v, new, hv, hn, hh, hl⟩ := ih { w with kvi := k }
      refine ⟨v, new, ?_, hn, ?_, ?_⟩
      · rw [List.foldlM_cons, hk]
        exact hv
      · simpa only [taken, hk, List.filter_cons_of_neg hi] using hh
      · intro hcb j _
        simp only [taken, hk, List.getLast?_cons, Option.getD_some]
        exact hl hcb i hkh

theorem KeyValueInfo.Holds.forall₂_shows_iff {calls : List (Call σ)} {items : List Item}
    (h : List.Forall₂ (fun c i => c.kvi.Holds i) calls items) :
    List.Forall₂ (fun c i => c.kvi.Shows i) calls items ↔ ∀ i ∈ items, i.Fits := by
  induction h with
  | nil => simp
  | cons hi _ ih => rw [List.forall₂_cons, ih, hi.shows_iff, List.forall_mem_cons]

/-- The calls of a scan are those about the pairs that it delivers and one more at its end,
which finds the last pair still in the record. -/
theorem fieldStrings_iff {usingHttp : Bool} {garbage : KeyValueInfo} {data : σ} {reads : List Read} {code : Int}
    {w : World σ} (h : scan cb usingHttp garbage data (.ok reads) = .ok (code, w)) :
    ∃ calls last, w.calls = calls ++ [last] ∧
      (List.Forall₂ (fun c i => c.kvi.Shows i) calls ((readPairs cb usingHttp data reads).filter Item.delivered) ↔
        ∀ i ∈ readPairs cb usingHttp data reads, i.delivered = true → i.Fits) ∧
      (cb.KeepsStrings → ∀ i ∈ (readPairs cb usingHttp data reads).getLast?, last.kvi.Shows i ↔ i.Fits) := by
  unfold readPairs
  rw [scan] at h
  cases hp : parseData cb usingHttp data reads with
  | error f => simp [hp, Except.map] at h
  | ok r =>
    obtain ⟨code', u⟩ := r
    rw [hp] at h
    obtain ⟨-, rfl⟩ := Prod.mk.inj (Except.ok.inj h)
    obtain ⟨v, hv, hu⟩ := parseData_world hp
    obtain ⟨v', new, hv', hn, hh, hl⟩ :=
      foldlM_deliver_taken cb ((Client.init usingHttp).run (received reads)).1 (World.init data)
    obtain rfl : v = v' := by
      rcases hv with hv | ⟨hv, -⟩
      · simpa [hv] using hv'
      · simpa [hv] using hv'
    have hcalls : u.calls = new := by
      rcases hu with rfl | ⟨m, rfl⟩
      · exact hn
      · exact hn
    refine ⟨new, _, by rw [← hcalls]; rfl, ?_, ?_⟩
    · rw [KeyValueInfo.Holds.forall₂_shows_iff hh]
      simp only [List.mem_filter, and_imp]
    · intro hcb i hi
      have hlast := hl hcb _ holds_zero
      rw [Option.mem_def.mp hi, Option.getD_some] at hlast
      apply KeyValueInfo.Holds.shows_iff
      rcases hu with rfl | ⟨m, rfl⟩
      · exact hlast
      · exact hlast

section session

variable {decode : Decoder} {r : Reply WindowControls} {u : WindowControls}

theorem processPlayer_kvi {j : Int} {hj : j < maxPlayers} (h : processPlayer decode k j hj u = .ok r) :
    ∃ e, r.kvi = { k with err := e } := by
  rw [processPlayer] at h
  split at h
  · obtain rfl := Except.ok.inj h
    exact ⟨k.err, rfl⟩
  · split at h
    · obtain rfl := Except.ok.inj h
      exact ⟨some .skippedPlayer, rfl⟩
    · obtain ⟨v, -, hv⟩ := bind_eq_ok.mp h
      split_ifs at hv <;> obtain rfl := Except.ok.inj hv <;> exact ⟨k.err, rfl⟩

theorem processServer_kvi (h : processServer decode k u = .ok r) : r.kvi = k := by
  obtain ⟨v, -, hv⟩ := bind_eq_ok.mp h
  split_ifs at hv
  · obtain ⟨v', -, hv'⟩ := bind_eq_ok.mp hv
    obtain rfl := Except.ok.inj hv'
    rfl
  · obtain rfl := Except.ok.inj hv
    rfl

theorem processSessionInfo_kvi (h : processSessionInfo decode k u = .ok r) :
    ∃ e, r.kvi = { k with err := e } := by
  rw [processSessionInfo] at h
  split_ifs at h
  · obtain ⟨changes, -, hr⟩ := bind_eq_ok.mp h
    obtain rfl := Except.ok.inj hr
    exact ⟨k.err, rfl⟩
  · obtain rfl := Except.ok.inj h
    exact ⟨k.err, rfl⟩
  · obtain rfl := Except.ok.inj h
    exact ⟨some .indexOutOfRange, rfl⟩
  · split at h
    · obtain rfl := Except.ok.inj h
      exact ⟨some .skippedServer, rfl⟩
    · exact processPlayer_kvi h
  · split at h
    · obtain rfl := Except.ok.inj h
      exact ⟨some .skippedServer, rfl⟩
    · exact ⟨k.err, processServer_kvi h⟩

theorem sessionCallback_keepsStrings (decode : Decoder) (cancels : Nat → Bool) :
    (sessionCallback decode cancels).KeepsStrings := by
  rintro k ⟨controls, calls⟩
  cases controls with
  | error f => exact ⟨rfl, rfl⟩
  | ok u =>
    simp only [sessionCallback]
    split
    · rename_i r hr
      obtain ⟨e, he⟩ := processSessionInfo_kvi hr
      rw [he]
      exact ⟨rfl, rfl⟩
    · exact ⟨rfl, rfl⟩

end session

/-- `{"G":[{"k":"1"}]}`, where the key has `n` characters. -/
def keyOfLength (n : Nat) : List Byte :=
  [0x7b, 0x22, 0x47, 0x22, 0x3a, 0x5b, 0x7b, 0x22] ++ List.replicate n 0x6b ++
    [0x22, 0x3a, 0x22, 0x31, 0x22, 0x7d, 0x5d, 0x7d]

/-- Whether the first call finds a terminator in `key_str`. -/
def terminatedFirst (r : Except Fault (Int × World Unit)) : Option Bool :=
  match r with
  | .ok (_, w) => w.calls.head?.map fun c => c.kvi.keyStr.toList.contains 0
  | .error _ => none

set_option maxRecDepth 100000 in
theorem terminatedFirst_keyOfLength (n : Nat) (h : n = 31 ∨ n = 32) :
    terminatedFirst (scan accept false .zero () (.ok [.data (keyOfLength n)])) = some (n == 31) := by
  rcases h with rfl | rfl <;> decide +kernel

theorem exists_of_terminatedFirst {r : Except Fault (Int × World Unit)} {b : Bool}
    (h : terminatedFirst r = some b) :
    ∃ code w c, r = .ok (code, w) ∧ w.calls.head? = some c ∧ (0 ∈ c.kvi.keyStr.toList ↔ b = true) := by
  match r, h with
  | .ok (code, w), h =>
    obtain ⟨c, hc, hb⟩ := Option.map_eq_some_iff.mp h
    exact ⟨code, w, c, rfl, hc, by rw [← hb, List.contains_iff_mem]⟩

theorem fieldStrings_iff_short : ∃ code w calls last,
    scan accept false .zero () (.ok [.data (keyOfLength 31)]) = .ok (code, w) ∧ w.calls = calls ++ [last] ∧
    (List.Forall₂ (fun c i => c.kvi.Shows i) calls
        ((readPairs accept false () [.data (keyOfLength 31)]).filter Item.delivered) ↔
      ∀ i ∈ readPairs accept false () [.data (keyOfLength 31)], i.delivered = true → i.Fits) := by
  obtain ⟨code, w, -, hr, -⟩ := exists_of_terminatedFirst (terminatedFirst_keyOfLength 31 (.inl rfl))
  obtain ⟨calls, last, hcalls, hiff, -⟩ := fieldStrings_iff hr
  exact ⟨code, w, calls, last, hr, hcalls, hiff⟩

/-- A key that fills its field. -/
theorem longKey_unterminated :
    ∃ code w c, scan accept false .zero () (.ok [.data (keyOfLength 32)]) = .ok (code, w) ∧
    w.calls.head? = some c ∧ 0 ∉ c.kvi.keyStr.toList := by
  obtain ⟨code, w, c, hr, hc, hz⟩ := exists_of_terminatedFirst (terminatedFirst_keyOfLength 32 (.inr rfl))
  exact ⟨code, w, c, hr, hc, fun h => absurd (hz.mp h) (by decide)⟩

end BzccScanner
