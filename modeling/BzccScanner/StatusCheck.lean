import BzccScanner.HttpFraming
import Mathlib.Data.List.Induction

/-! The check of the status line. It compares the last six characters of the line
as a C string, and does not look whether there are six. -/

namespace BzccScanner

open CString Mealy

variable {σ : Type}

def EndsInOk (line : List Byte) : Prop := okSuffix.map toLower <:+ line.map toLower

instance (line : List Byte) : Decidable (EndsInOk line) := inferInstanceAs (Decidable (_ <:+ _))

/-- What stands in front of the first line break, if it fits the buffer. -/
structure FirstLine (bytes line : List Byte) : Prop where
  ended : line ++ [cr, lf] <+: bytes
  unbroken : ¬ [cr, lf] <:+: line
  fits : line.length < genericBuflen - 1

namespace Parser

/-- `name_len > 0 && c == '\n' && name[name_len-1] == '\r'` -/
structure EndsStatus (p : Parser) (c : Byte) : Prop where
  state : p.state = .readingHttpHeader
  pos : 0 < p.nameLen
  eq_lf : c = lf
  last : p.name[p.nameLen - 1]? = some cr

def statusLine (p : Parser) : List Byte := p.name.toList.take (p.nameLen - 1)

/-- `strlen(name) - 6` -/
def statusPosition (p : Parser) : Int :=
  (cstr (p.name.toList.set (p.nameLen - 1) 0)).length - okSuffix.length

end Parser

/-- What is asked at the end of the status line, of which `text` is the part that counts. -/
structure ChecksStatus (text : List Byte → List Byte) (cb : Callback σ) (q : Parser × World σ)
    (c : Byte) : Prop where
  position : 0 ≤ q.1.statusPosition ∨ ∃ line, readByte cb q c = q.2.fail (.expectedOk line)
  accepted : (∃ t, readByte cb q c = .ok t) ↔ EndsInOk (text q.1.statusLine)

def StatusChecked (text : List Byte → List Byte) (cb : Callback σ) (data : σ) (reads : List Read) : Prop :=
  ∀ b ∈ byteStarts cb (Parser.init true, World.init data) reads, b.1.1.EndsStatus b.2 →
    ChecksStatus text cb b.1 b.2

theorem strcmpi_okSuffix {line : List Byte} (h0 : 0 ∉ line) :
    strcmpi (line.drop (line.length - okSuffix.length)) okSuffix = true ↔ EndsInOk line := by
  have hdrop : cstr (line.drop (line.length - okSuffix.length)) = line.drop (line.length - okSuffix.length) :=
    cstr_eq_self fun h => h0 (List.mem_of_mem_drop h)
  have hok : cstr okSuffix = okSuffix := rfl
  rw [strcmpi, hdrop, hok, beq_iff_eq, EndsInOk, List.suffix_iff_eq_drop, List.length_map, List.length_map,
    List.map_drop, eq_comm]

namespace Client

variable {s t : Client} {c : Byte}

theorem appendName_eq (h : s.appendName c = .ok t) :
    s.reader.name.length + 1 < genericBuflen ∧ t = s.setName (s.reader.name ++ [c]) := by
  rw [appendName] at h
  split_ifs at h with hl
  exact ⟨Nat.not_le.mp hl, (Except.ok.inj h).symm⟩

/-- The status line is read while its line break has not come, and not again. -/
theorem heading_of_step (h : (s.step c).2 = .ok t) (ht : t.state = .readingHttpHeader) :
    s.state = .readingHttpHeader ∧ ¬ (c = lf ∧ s.reader.name.getLast? = some cr) ∧
      s.reader.name.length + 1 < genericBuflen ∧ t = s.setName (s.reader.name ++ [c]) := by
  rw [step] at h
  cases hs : s.state with
  | readingHttpHeader =>
    simp only [hs, readHttpHeader] at h
    split_ifs at h with hlast
    · obtain rfl := Except.ok.inj h
      cases ht
    · exact ⟨rfl, hlast, appendName_eq h⟩
  | readingHttpHeaderName =>
    simp only [hs, readHttpHeaderName] at h
    split_ifs at h
    · obtain ⟨-, rfl⟩ := appendName_eq h
      exact absurd (hs.symm.trans ht) (by simp)
    · obtain rfl := Except.ok.inj h
      cases ht
    · obtain rfl := Except.ok.inj h
      exact absurd (hs.symm.trans ht) (by simp)
    · obtain rfl := Except.ok.inj h
      cases ht
    · obtain ⟨-, rfl⟩ := appendName_eq h
      exact absurd (hs.symm.trans ht) (by simp)
  | readingHttpHeaderValue =>
    simp only [hs, readHttpHeaderValue] at h
    split_ifs at h
    · obtain rfl := Except.ok.inj h
      cases ht
    · obtain rfl := Except.ok.inj h
      cases ht
    · obtain rfl := Except.ok.inj h
      exact absurd (hs.symm.trans ht) (by simp)
    · obtain rfl := Except.ok.inj h
      exact absurd (hs.symm.trans ht) (by simp)
  | readingJson =>
    simp only [hs] at h
    split_ifs at h
    cases hr : (s.reader.step (s.jsonLen + 1) c).2 with
    | error e =>
      rw [hr] at h
      cases h
    | ok r =>
      rw [hr] at h
      obtain rfl := Except.ok.inj h
      cases ht

theorem heading_of_run {bytes : List Byte} (h : ((init true).run bytes).2 = .ok s)
    (hs : s.state = .readingHttpHeader) :
    s = heading .readingHttpHeader 0 bytes [] ∧ ¬ [cr, lf] <:+: bytes ∧ bytes.length < genericBuflen := by
  induction bytes using List.reverseRecOn generalizing s with
  | nil =>
    obtain rfl := Except.ok.inj h
    exact ⟨rfl, by simp, by decide⟩
  | append_singleton bytes c ih =>
    obtain ⟨o, t, ht⟩ := run_prefix_ok (Prod.ext rfl h : (init true).run (bytes ++ [c]) = (_, .ok s))
    have hstep : (t.step c).2 = .ok s := (congrArg Prod.snd (run_concat ht c)).symm.trans h
    obtain ⟨hstate, hlast, hl, rfl⟩ := heading_of_step hstep hs
    obtain ⟨rfl, hunbroken, -⟩ := ih (congrArg Prod.snd ht) hstate
    refine ⟨rfl, ?_, by simpa [heading] using hl⟩
    rw [List.infix_concat_iff, lineBreak_suffix]
    exact fun hbreak => hbreak.elim hlast hunbroken

end Client

section parser

variable {cb : Callback σ} {data : σ} {q : Parser × World σ} {c : Byte} {line : List Byte} {reads : List Read}

theorem Refines.endsStatus_iff {p : Parser} {s : Client} (h : Refines p s) (hs : s.state = .readingHttpHeader) :
    p.EndsStatus c ↔ c = lf ∧ s.reader.name.getLast? = some cr := by
  constructor
  · intro he
    have hne : s.reader.name ≠ [] := List.length_pos_iff.mp (h.nameLen ▸ he.pos)
    exact ⟨he.eq_lf, (h.name.last hne).symm.trans (h.nameLen ▸ he.last)⟩
  · rintro ⟨hc, hlast⟩
    have hne : s.reader.name ≠ [] := by
      intro he
      simp [he] at hlast
    exact ⟨h.state.trans hs, h.nameLen ▸ List.length_pos_iff.mpr hne, hc,
      h.nameLen ▸ (h.name.last hne).trans hlast⟩

theorem Refines.statusLine_eq {p : Parser}
    (h : Refines p (Client.heading .readingHttpHeader 0 (line ++ [cr]) [])) :
    p.statusLine = line := by
  have hn : p.nameLen = (line ++ [cr]).length := h.nameLen
  have hname : Holds p.name (line ++ [cr]) := h.name
  rw [Parser.statusLine, hname.toList_eq, hn, List.append_assoc, List.length_append, List.length_singleton,
    Nat.add_sub_cancel]
  exact List.take_left' rfl

theorem Refines.statusPosition_eq {p : Parser}
    (h : Refines p (Client.heading .readingHttpHeader 0 (line ++ [cr]) [])) :
    p.statusPosition = (cstr line).length - okSuffix.length := by
  have hn : p.nameLen = (line ++ [cr]).length := h.nameLen
  have hname : Holds p.name (line ++ [cr]) := h.name
  have hlast : (line ++ [cr]).length - 1 < genericBuflen :=
    Nat.lt_of_lt_of_le (Nat.sub_lt (by simp) Nat.one_pos) hname.length_le
  have hcut := hname.dropLast (by simp) hlast
  rw [List.dropLast_concat] at hcut
  rw [Parser.statusPosition, hn, ← Vector.toList_set hlast, hcut.cstr_eq]

/-- The line is compared from before the buffer, accepted, or rejected. -/
theorem readByte_status_cases (cb : Callback σ)
    (h : Refines q.1 (Client.heading .readingHttpHeader 0 (line ++ [cr]) []))
    (hl : line.length + 1 < genericBuflen) :
    ((cstr line).length < okSuffix.length ∧ readByte cb q lf = .error (.fault .statusLine)) ∨
    (okSuffix.length ≤ (cstr line).length ∧ EndsInOk (cstr line) ∧ ∃ t, readByte cb q lf = .ok t) ∨
    (okSuffix.length ≤ (cstr line).length ∧ ¬ EndsInOk (cstr line) ∧
      readByte cb q lf = q.2.fail (.expectedOk (cstr line))) := by
  have ha := readHttpHeader_agree (w := q.2) (c := lf) h (by simpa [Client.heading] using hl)
  have hstate : q.1.state = .readingHttpHeader := h.state
  have hbyte : readByte cb q lf = readHttpHeader q.1 q.2 lf := by simp only [readByte, hstate]
  have hends := strcmpi_okSuffix (not_mem_cstr line)
  rw [← hbyte] at ha
  simp only [Client.readHttpHeader, Client.heading, List.getLast?_concat, List.dropLast_concat, and_self,
    if_true] at ha
  split_ifs at ha with hshort hok
  · generalize readByte cb q lf = x at ha ⊢
    cases ha
    exact .inl ⟨hshort, rfl⟩
  · generalize readByte cb q lf = x at ha ⊢
    cases ha
    exact .inr (.inl ⟨Nat.not_lt.mp hshort, hends.mp hok, _, rfl⟩)
  · generalize readByte cb q lf = x at ha ⊢
    cases ha
    exact .inr (.inr ⟨Nat.not_lt.mp hshort, fun he => hok (hends.mpr he), rfl⟩)

theorem checksStatus_iff (text : List Byte → List Byte) (cb : Callback σ)
    (h : Refines q.1 (Client.heading .readingHttpHeader 0 (line ++ [cr]) []))
    (hl : line.length + 1 < genericBuflen) :
    ChecksStatus text cb q lf ↔
      okSuffix.length ≤ (cstr line).length ∧ (EndsInOk (cstr line) ↔ EndsInOk (text line)) := by
  have hpos := h.statusPosition_eq
  have hline := h.statusLine_eq
  rcases readByte_status_cases cb h hl with ⟨hlen, hb⟩ | ⟨hlen, hok, t, hb⟩ | ⟨hlen, hok, hb⟩
  · refine iff_of_false (fun hc => ?_) fun hc => absurd hc.1 (Nat.not_le.mpr hlen)
    rcases hc.position with hp | ⟨l, he⟩
    · omega
    · exact absurd (hb.symm.trans he) (by simp [World.fail])
  · constructor
    · exact fun hc => ⟨hlen, iff_of_true hok (hline ▸ hc.accepted.mp ⟨t, hb⟩)⟩
    · exact fun hc => ⟨.inl (by omega), iff_of_true ⟨t, hb⟩ (hline.symm ▸ hc.2.mp hok)⟩
  · have hnot : ¬ ∃ t, readByte cb q lf = .ok t := by simp [hb, World.fail]
    constructor
    · exact fun hc => ⟨hlen, iff_of_false hok fun he => hnot (hc.accepted.mpr (hline.symm ▸ he))⟩
    · exact fun hc => ⟨.inl (by omega), iff_of_false hnot fun he => hok (hc.2.mpr (hline ▸ he))⟩

/-- A line break that is found in front of `bytes` ends the first line. -/
theorem firstLine_of_run {bytes front : List Byte} {s : Client} (hfront : front ++ [lf] <+: bytes)
    (hrun : ((Client.init true).run front).2 = .ok s) (hs : s.state = .readingHttpHeader)
    (hlast : s.reader.name.getLast? = some cr) :
    ∃ line, FirstLine bytes line ∧ s = Client.heading .readingHttpHeader 0 (line ++ [cr]) [] := by
  obtain ⟨rfl, hunbroken, hlen⟩ := Client.heading_of_run hrun hs
  obtain ⟨line, rfl⟩ := List.getLast?_eq_some_iff.mp hlast
  rw [List.append_assoc] at hfront
  rw [List.length_append, List.length_singleton] at hlen
  exact ⟨line, ⟨hfront, fun h => hunbroken (List.infix_append_of_infix_left h), Nat.lt_sub_of_add_lt hlen⟩, rfl⟩

/-- The end of the status line is found behind the first line. -/
theorem firstLine_of_endsStatus {b : (Parser × World σ) × Byte}
    (hb : b ∈ byteStarts cb (Parser.init true, World.init data) reads) (he : b.1.1.EndsStatus b.2) :
    ∃ line, FirstLine (received reads) line ∧ b.2 = lf ∧
      Refines b.1.1 (Client.heading .readingHttpHeader 0 (line ++ [cr]) []) := by
  obtain ⟨i, hi⟩ := List.getElem?_of_mem hb
  obtain ⟨hfold, hc⟩ := byteStarts_getElem?.mp hi
  obtain ⟨items, s, hrun, hr⟩ := run_of_foldlM_readByte hfold
  have hs : s.state = .readingHttpHeader := hr.state.symm.trans he.state
  obtain ⟨hlf, hlast⟩ := (hr.endsStatus_iff hs).mp he
  have htake : (received reads).take (i + 1) = (received reads).take i ++ [lf] := by
    rw [List.take_add_one, hc, hlf, Option.toList_some]
  obtain ⟨line, hline, rfl⟩ :=
    firstLine_of_run (htake ▸ List.take_prefix _ _) (congrArg Prod.snd hrun) hs hlast
  exact ⟨line, hline, hlf, hr⟩

theorem endsStatus_of_firstLine (cb : Callback σ) (data : σ) (h : FirstLine (received reads) line) :
    ∃ q, (q, lf) ∈ byteStarts cb (Parser.init true, World.init data) reads ∧ q.1.EndsStatus lf ∧
      Refines q.1 (Client.heading .readingHttpHeader 0 (line ++ [cr]) []) := by
  obtain ⟨rest, hrest⟩ := h.ended
  have hlen : (line ++ [cr]).length < genericBuflen := by simpa using Nat.add_lt_of_lt_sub h.fits
  have hrun := Client.run_status_bytes 0 [] (line ++ [cr]) (Client.unbroken_cr h.unbroken) (by simpa using hlen)
  obtain ⟨q, hfold, hr⟩ := foldlM_readByte_silent cb data hrun
  have hsplit : received reads = (line ++ [cr]) ++ lf :: rest := by simp [← hrest]
  have hstart : (byteStarts cb (Parser.init true, World.init data) reads)[(line ++ [cr]).length]? =
      some (q, lf) := by
    rw [byteStarts_getElem?, hsplit, List.take_left' rfl]
    exact ⟨hfold, by simp⟩
  exact ⟨q, List.mem_of_getElem? hstart, (hr.endsStatus_iff rfl).mpr ⟨rfl, List.getLast?_concat⟩, hr⟩

theorem statusChecked_text_iff (text : List Byte → List Byte) (cb : Callback σ) (data : σ) (reads : List Read) :
    StatusChecked text cb data reads ↔ ∀ line, FirstLine (received reads) line →
      okSuffix.length ≤ (cstr line).length ∧ (EndsInOk (cstr line) ↔ EndsInOk (text line)) := by
  constructor
  · intro hall line hline
    obtain ⟨q, hq, he, hr⟩ := endsStatus_of_firstLine cb data hline
    exact (checksStatus_iff text cb hr (Nat.add_lt_of_lt_sub hline.fits)).mp (hall _ hq he)
  · rintro hall ⟨q, c⟩ hq he
    obtain ⟨line, hline, rfl, hr⟩ := firstLine_of_endsStatus hq he
    exact (checksStatus_iff text cb hr (Nat.add_lt_of_lt_sub hline.fits)).mpr (hall line hline)

theorem concludeReads_fault {m : Option Message} {out : List Item × Except Stop Client} {f : Fault}
    (h : concludeReads m (drain cb data out) = .error f) : out.2 = .error (.fault f) := by
  obtain ⟨items, res⟩ := out
  rw [drain] at h
  rcases foldlM_deliver_spec cb items (World.init data) with ⟨v, new, hv, -⟩ | ⟨v, new, c, hv, -⟩
  · rw [hv] at h
    rcases res with (⟨code, _ | e⟩ | g) | s
    · simp [concludeReads, bind, Except.bind, Stop.exit, Ending.result] at h
    · simp [concludeReads, bind, Except.bind, Stop.exit, Ending.result] at h
    · simpa [concludeReads, bind, Except.bind, Stop.exit, Ending.result] using h
    · cases m <;> simp [concludeReads, bind, Except.bind] at h
  · rw [hv] at h
    simp [concludeReads, bind, Except.bind, Ending.result] at h

end parser

/-- The check is right for the status line as a C string if and only if that has six characters, and
for all that is received of the line if and only if its NULs do not matter to the check either. -/
theorem statusChecked_iff (cb : Callback σ) (data : σ) (reads : List Read) :
    (StatusChecked cstr cb data reads ↔
      ∀ line, FirstLine (received reads) line → okSuffix.length ≤ (cstr line).length) ∧
    (StatusChecked id cb data reads ↔
      ∀ line, FirstLine (received reads) line →
        okSuffix.length ≤ (cstr line).length ∧ (EndsInOk (cstr line) ↔ EndsInOk line)) :=
  ⟨(statusChecked_text_iff cstr cb data reads).trans (by simp), statusChecked_text_iff id cb data reads⟩

/-- A first line that is too short is the one thing that takes `parse_data` outside its arrays. -/
theorem parseData_fault_iff (cb : Callback σ) (data : σ) (reads : List Read) (f : Fault) :
    parseData cb true data reads = .error f ↔
      f = .statusLine ∧ ∃ line, FirstLine (received reads) line ∧ (cstr line).length < okSuffix.length := by
  rw [parseData_received]
  constructor
  · intro h
    obtain ⟨front, c, s, out, hfront, hrun, hstop⟩ := run_stops (concludeReads_fault h)
    have hwf : s.WF :=
      run_invariant (fun _ _ _ hs ht => hs.step ht) (Client.init_wf true) (congrArg Prod.snd hrun)
    obtain ⟨hf, hs, ⟨rfl, hlast⟩, hshort⟩ := hwf.step_fault hstop
    obtain ⟨line, hline, rfl⟩ := firstLine_of_run hfront (congrArg Prod.snd hrun) hs hlast
    rw [Client.heading, List.dropLast_concat] at hshort
    exact ⟨hf, line, hline, hshort⟩
  · rintro ⟨rfl, line, hline, hshort⟩
    obtain ⟨rest, hrest⟩ := hline.ended
    have hrun := Client.run_status_line hline.unbroken hline.fits
    rw [if_pos hshort] at hrun
    rw [← hrest, Client.run, run_append_error hrun]
    rfl

/-- A line break alone, and a NUL in front of what would be rejected. -/
theorem shortLine_unchecked :
    (parseData accept true () [.data [cr, lf]] = .error .statusLine ∧
      ¬ StatusChecked cstr accept () [.data [cr, lf]] ∧
      ¬ StatusChecked id accept () [.data [cr, lf]]) ∧
    ¬ StatusChecked id accept () [.data (statusOk.text ++ [0x00, 0x21, cr, lf])] := by
  have hempty : FirstLine (received [.data [cr, lf]]) [] := ⟨List.prefix_rfl, by simp, by decide⟩
  have hnul : FirstLine (received [.data (statusOk.text ++ [0x00, 0x21, cr, lf])])
      (statusOk.text ++ [0x00, 0x21]) :=
    ⟨by decide, by decide, by decide⟩
  refine ⟨⟨rfl, fun h => ?_, fun h => ?_⟩, fun h => ?_⟩
  · exact absurd ((statusChecked_text_iff _ _ _ _).mp h [] hempty).1 (by decide)
  · exact absurd ((statusChecked_text_iff _ _ _ _).mp h [] hempty).1 (by decide)
  · exact absurd ((statusChecked_text_iff _ _ _ _).mp h _ hnul).2 (by decide)

end BzccScanner
