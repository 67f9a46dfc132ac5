import BzccScanner.HttpHead
import BzccScanner.ItemOrder

/-! Where the body of a response begins, for header lines that may have blank
values. Behind the colon of such a line the reader skips the line break as
well, and takes the line behind it as the value. -/

namespace BzccScanner

open CString Mealy

variable {σ : Type}

structure Preamble where
  status : List Byte
  status_plain : ∀ c ∈ status, c ≠ cr ∧ c ≠ lf
  status_lt : status.length < genericBuflen - 1
  status_ok : okSuffix <:+ status
  lines : List HeaderLine

namespace Preamble

def front (p : Preamble) : List Byte := p.status ++ [cr, lf] ++ p.lines.flatMap HeaderLine.text ++ [cr]

def text (p : Preamble) : List Byte := p.front ++ [lf]

def contentLength (p : Preamble) : UInt32 := p.lines.foldl HeaderLine.contentLength 0

end Preamble

/-- A name and a value as the reader pairs them up. -/
abbrev NamedValue := List Byte × List Byte

def NamedValue.contentLength (n : UInt32) (f : NamedValue) : UInt32 :=
  if strcmpi (f.1.dropWhile isSpace) contentLengthName then UInt32.ofInt (atoi (f.2.dropWhile isSpace)) else n

/-- A line with a blank value and the whole line behind it make up one pair.
There is none if the last line stays without a value, or the pair does not fit. -/
def joinLines : List HeaderLine → Option (List NamedValue)
  | [] => some []
  | [l] => if l.value.dropWhile isSpace = [] then none else some [(l.name, l.value)]
  | l :: m :: ls =>
    if l.value.dropWhile isSpace = [] then
      if ((m.name ++ colon :: m.value).dropWhile isSpace).length < genericBuflen - 1 then
        (joinLines ls).map ((l.name, m.name ++ colon :: m.value) :: ·)
      else none
    else (joinLines (m :: ls)).map ((l.name, l.value) :: ·)

/-- No blank value hides the empty line or a length, and no NUL the end of the status line. -/
structure Preamble.Intact (p : Preamble) : Prop where
  long : okSuffix.length ≤ (cstr p.status).length
  ok : strcmpi ((cstr p.status).drop ((cstr p.status).length - okSuffix.length)) okSuffix = true
  lines : ∃ fields, joinLines p.lines = some fields ∧ fields.foldl NamedValue.contentLength 0 = p.contentLength

/-- The JSON state is entered in front of byte `n`, with empty buffers and the length `len`. -/
def EntersJson (cb : Callback σ) (data : σ) (reads : List Read) (n : Nat) (len : UInt32) : Prop :=
  (∀ i < n, ∀ q c, (byteStarts cb (Parser.init true, World.init data) reads)[i]? = some (q, c) →
    q.1.state ≠ .readingJson) ∧
  ∃ q c, (byteStarts cb (Parser.init true, World.init data) reads)[n]? = some (q, c) ∧
    q.1.state = .readingJson ∧ q.1.nameLen = 0 ∧ q.1.valueLen = 0 ∧ q.1.contentLength = len

/-- In front of the first item the memory of `parse_data` follows the client. -/
theorem foldlM_readByte_silent (cb : Callback σ) (data : σ) {bytes : List Byte} {s : Client}
    (h : (Client.init true).run bytes = ([], .ok s)) :
    ∃ q, bytes.foldlM (readByte cb) (Parser.init true, World.init data) = .ok q ∧ Refines q.1 s := by
  have ha := Agree.foldlM (fun _ _ c h => readByte_tracks cb h c) (init_tracks true data) bytes
  rw [foldlM_driveByte, h, drain] at ha
  generalize bytes.foldlM (readByte cb) _ = x at ha
  cases ha with
  | ok ht => exact ⟨_, rfl, ht.1.1⟩

theorem run_of_foldlM_readByte {cb : Callback σ} {data : σ} {bytes : List Byte} {q : Parser × World σ}
    (h : bytes.foldlM (readByte cb) (Parser.init true, World.init data) = .ok q) :
    ∃ items s, (Client.init true).run bytes = (items, .ok s) ∧ Refines q.1 s := by
  have ha := Agree.foldlM (fun _ _ c h => readByte_tracks cb h c) (init_tracks true data) bytes
  rw [foldlM_driveByte, h] at ha
  generalize hd : drain cb data ((Client.init true).run bytes) = y at ha
  cases ha with
  | ok ht => exact ⟨_, _, Prod.ext rfl (drain_eq_ok.mp hd).2, ht.1.1⟩

namespace Client

theorem run_value_overflow (n : UInt32) (name value bytes : List Byte) (hp : ∀ c ∈ bytes, c ≠ lf)
    (hne : value ≠ []) (hv : value.length < genericBuflen) (hl : genericBuflen ≤ value.length + bytes.length) :
    ∃ e, (heading .readingHttpHeaderValue n name value).run bytes = ([], .error e) := by
  induction bytes generalizing value with
  | nil =>
    simp only [List.length_nil] at hl
    omega
  | cons c bytes ih =>
    simp only [List.length_cons] at hl
    by_cases hf : value.length + 1 ≥ genericBuflen
    · refine ⟨_, run_cons_error (r := .fail .headerValueOverflow) ?_ bytes⟩
      simp only [step, heading, readHttpHeaderValue, hp c (by simp), hne, false_and, and_false,
        if_false, hf, if_true]
    · have hs : (heading .readingHttpHeaderValue n name value).step c =
          ([], .ok (heading .readingHttpHeaderValue n name (value ++ [c]))) := by
        simp only [step, heading, readHttpHeaderValue, hp c (by simp), hne, false_and, and_false, if_false, hf]
      obtain ⟨e, he⟩ := ih (value ++ [c]) (fun d hd => hp d (by simp [hd])) (by simp) (by simp; omega)
        (by simp; omega)
      exact ⟨e, (run_cons_silent hs _).trans he⟩

theorem run_value_blank (n : UInt32) (name bytes : List Byte) (hp : ∀ c ∈ bytes, isSpace c = true) :
    (heading .readingHttpHeaderValue n name []).run bytes =
      ([], .ok (heading .readingHttpHeaderValue n name [])) := by
  induction bytes with
  | nil => rfl
  | cons c bytes ih =>
    have hs : (heading .readingHttpHeaderValue n name []).step c =
        ([], .ok (heading .readingHttpHeaderValue n name [])) := by
      simp [step, heading, readHttpHeaderValue, hp c (by simp)]
    exact (run_cons_silent hs _).trans (ih fun d hd => hp d (by simp [hd]))

theorem run_value_skip (n : UInt32) (name bytes : List Byte) (tail : List Byte) :
    (heading .readingHttpHeaderValue n name []).run (bytes ++ tail) =
      (heading .readingHttpHeaderValue n name []).run (bytes.dropWhile isSpace ++ tail) := by
  conv_lhs => rw [← List.takeWhile_append_dropWhile (p := isSpace) (l := bytes), List.append_assoc]
  exact run_append_silent (run_value_blank n name _ fun c hc => List.mem_takeWhile_imp hc) _

theorem run_blank_line (n : UInt32) (l : HeaderLine) (hb : l.value.dropWhile isSpace = []) (tail : List Byte) :
    (heading .readingHttpHeaderName n [] []).run (l.text ++ tail) =
      (heading .readingHttpHeaderValue n (l.name.dropWhile isSpace) []).run tail := by
  have hv := run_value_blank n (l.name.dropWhile isSpace) (l.value ++ [cr, lf]) (by
    intro c hc
    rcases List.mem_append.mp hc with h | h
    · exact List.dropWhile_eq_nil_iff.mp hb c h
    · rcases List.mem_pair.mp h with rfl | rfl <;> rfl)
  have ht : l.text ++ tail = l.name ++ colon :: ((l.value ++ [cr, lf]) ++ tail) := by simp [HeaderLine.text]
  rw [ht]
  exact (run_name_colon n l _).trans (run_append_silent hv _)

theorem line_plain (m : HeaderLine) : ∀ c ∈ m.name ++ colon :: m.value, c ≠ cr ∧ c ≠ lf := by
  intro c hc
  simp only [List.mem_append, List.mem_cons] at hc
  rcases hc with h | rfl | h
  · exact (m.name_plain c h).2
  · decide
  · exact m.value_plain c h

theorem line_nonblank (m : HeaderLine) : (m.name ++ colon :: m.value).dropWhile isSpace ≠ [] := by
  intro h
  have := List.dropWhile_eq_nil_iff.mp h colon (by simp)
  simp [isSpace] at this

theorem run_joined (n : UInt32) {lines : List HeaderLine} {fields : List NamedValue}
    (h : joinLines lines = some fields) :
    (heading .readingHttpHeaderName n [] []).run (lines.flatMap HeaderLine.text) =
      ([], .ok (heading .readingHttpHeaderName (fields.foldl NamedValue.contentLength n) [] [])) := by
  induction lines using joinLines.induct generalizing n fields with
  | case1 =>
    obtain rfl := Option.some.inj h
    rfl
  | case2 l hb => simp [joinLines, hb] at h
  | case3 l hb =>
    rw [joinLines, if_neg hb] at h
    obtain rfl := Option.some.inj h
    have hl := run_line n l hb
    rwa [List.flatMap_singleton]
  | case4 l m ls hb hl ih =>
    rw [joinLines, if_pos hb, if_pos hl] at h
    obtain ⟨rest, hr, rfl⟩ := Option.map_eq_some_iff.mp h
    have hv := run_value_line n (l.name.dropWhile isSpace) _ (line_plain m) (line_nonblank m) (by omega)
    have ht : m.text = (m.name ++ colon :: m.value) ++ [cr, lf] := by simp [HeaderLine.text]
    rw [List.flatMap_cons, List.flatMap_cons, run_blank_line n l hb, ht]
    exact (run_append_silent hv _).trans (ih _ hr)
  | case5 l m ls hb hl =>
    rw [joinLines, if_pos hb, if_neg hl] at h
    cases h
  | case6 l m ls hb ih =>
    rw [joinLines, if_neg hb] at h
    obtain ⟨rest, hr, rfl⟩ := Option.map_eq_some_iff.mp h
    have hl := run_line n l hb
    rw [List.flatMap_cons]
    exact (run_append_silent hl _).trans (ih _ hr)

/-- Otherwise the reader does not get behind the empty line, or not as a reader of JSON. -/
theorem run_unjoined (n : UInt32) {lines : List HeaderLine} (h : joinLines lines = none) :
    ∃ out, (heading .readingHttpHeaderName n [] []).run (lines.flatMap HeaderLine.text ++ [cr, lf]) = ([], out) ∧
      ∀ s, out = .ok s → s.state ≠ .readingJson := by
  induction lines using joinLines.induct generalizing n with
  | case1 => simp [joinLines] at h
  | case2 l hb =>
    have hv := run_value_blank n (l.name.dropWhile isSpace) [cr, lf] (by simp [isSpace, cr, lf])
    refine ⟨.ok (heading .readingHttpHeaderValue n (l.name.dropWhile isSpace) []), ?_, ?_⟩
    · rw [List.flatMap_singleton, run_blank_line n l hb]
      exact hv
    · intro s hs
      obtain rfl := Except.ok.inj hs
      simp [heading]
  | case3 l hb => simp [joinLines, hb] at h
  | case4 l m ls hb hl ih =>
    rw [joinLines, if_pos hb, if_pos hl, Option.map_eq_none_iff] at h
    have hv := run_value_line n (l.name.dropWhile isSpace) _ (line_plain m) (line_nonblank m) (by omega)
    obtain ⟨out, ho, hs⟩ := ih _ h
    refine ⟨out, ?_, hs⟩
    have ht : m.text = (m.name ++ colon :: m.value) ++ [cr, lf] := by simp [HeaderLine.text]
    rw [List.flatMap_cons, List.flatMap_cons, List.append_assoc, run_blank_line n l hb, ht, List.append_assoc]
    exact (run_append_silent hv _).trans ho
  | case5 l m ls hb hl =>
    obtain ⟨c, bytes, hv⟩ := List.exists_cons_of_ne_nil (line_nonblank m)
    have hp : ∀ d ∈ c :: bytes, d ≠ cr ∧ d ≠ lf := fun d hd =>
      line_plain m d ((List.dropWhile_suffix isSpace).subset (hv ▸ hd))
    have hsp : ¬ isSpace c = true := by
      have hd := List.dropWhile_get_zero_not isSpace (m.name ++ colon :: m.value)
        (List.length_pos_iff.mpr (line_nonblank m))
      simp only [List.get_eq_getElem, hv] at hd
      exact hd
    have hlf := (hp c (by simp)).2
    have hfirst : (heading .readingHttpHeaderValue n (l.name.dropWhile isSpace) []).step c =
        ([], .ok (heading .readingHttpHeaderValue n (l.name.dropWhile isSpace) [c])) := by
      simp [step, heading, readHttpHeaderValue, hlf, hsp, genericBuflen]
    obtain ⟨e, he⟩ := run_value_overflow n (l.name.dropWhile isSpace) [c] (bytes ++ [cr])
      (by
        intro d hd
        rcases List.mem_append.mp hd with hd | hd
        · exact (hp d (by simp [hd])).2
        · rw [List.mem_singleton.mp hd]
          decide)
      (by simp) (by simp [genericBuflen]) (by
        rw [hv, List.length_cons] at hl
        simp only [List.length_singleton, List.length_append]
        omega)
    refine ⟨.error e, ?_, by simp⟩
    have ht : m.text = (m.name ++ colon :: m.value) ++ [cr, lf] := by simp [HeaderLine.text]
    rw [List.flatMap_cons, List.flatMap_cons, List.append_assoc, run_blank_line n l hb, ht, List.append_assoc,
      List.append_assoc, run_value_skip, hv, List.cons_append, run, run_cons_silent hfirst,
      show ∀ tail : List Byte, bytes ++ ([cr, lf] ++ tail) = (bytes ++ [cr]) ++ (lf :: tail) by simp]
    exact run_append_error he _
  | case6 l m ls hb ih =>
    rw [joinLines, if_neg hb, Option.map_eq_none_iff] at h
    obtain ⟨out, ho, hs⟩ := ih _ h
    refine ⟨out, ?_, hs⟩
    rw [List.flatMap_cons, List.append_assoc]
    exact (run_append_silent (run_line n l hb) _).trans ho

end Client

namespace Preamble

variable {p : Preamble} {cb : Callback σ} {data : σ} {c : Byte} {body : List Byte}

theorem run_front (h : p.Intact) : (Client.init true).run p.front =
    ([], .ok (Client.heading .readingHttpHeaderName p.contentLength [cr] [])) := by
  obtain ⟨fields, hf, hn⟩ := h.lines
  have hs := Client.run_status_line (Client.unbroken_of_plain p.status_plain) p.status_lt
  rw [if_neg (Nat.not_lt.mpr h.long), if_pos h.ok] at hs
  have hl := Client.run_joined 0 hf
  rw [hn] at hl
  have hc : (Client.heading .readingHttpHeaderName p.contentLength [] []).run [cr] =
    ([], .ok (Client.heading .readingHttpHeaderName p.contentLength [cr] [])) := rfl
  have ht : p.front = (p.status ++ [cr, lf]) ++ (p.lines.flatMap HeaderLine.text ++ [cr]) := by simp [front]
  rw [ht]
  exact (run_append_silent hs _).trans <| (run_append_silent hl _).trans hc

theorem run_text (h : p.Intact) : (Client.init true).run p.text = ([], .ok (Client.atBody p.contentLength)) := by
  have hl : (Client.heading .readingHttpHeaderName p.contentLength [cr] []).run [lf] =
    ([], .ok (Client.atBody p.contentLength)) := rfl
  exact (run_append_silent (run_front h) _).trans hl

theorem entersJson_of_intact (h : p.Intact) (cb : Callback σ) (data : σ) (d : Division (p.text ++ c :: body)) :
    EntersJson cb data d.reads p.text.length p.contentLength := by
  refine ⟨?_, ?_⟩
  · intro i hi q b hq hjson
    have hfold := (byteStarts_getElem?.mp hq).1
    rw [received_division] at hfold
    obtain ⟨items, s, hs, hr⟩ := run_of_foldlM_readByte hfold
    have hle : i ≤ p.front.length := by
      simp only [text, List.length_append, List.length_singleton] at hi
      omega
    have ht : (p.text ++ c :: body).take i = p.front.take i := by
      rw [text, List.append_assoc, List.take_append_of_le_length hle]
    have hfront := run_front h
    rw [← List.take_append_drop i p.front, Client.run, run_append_ok (ht ▸ hs)] at hfront
    have hstate := Client.run_state (hr.state.symm.trans hjson) (congrArg Prod.snd hfront)
    simp [Client.heading] at hstate
  · obtain ⟨q, hq, hr⟩ := foldlM_readByte_silent cb data (run_text h)
    refine ⟨q, c, byteStarts_getElem?.mpr ?_, hr.state, hr.nameLen, hr.valueLen, hr.contentLength⟩
    rw [received_division, List.take_left' rfl]
    exact ⟨hq, by simp⟩

theorem intact_of_entersJson {d : Division (p.text ++ c :: body)}
    (h : EntersJson cb data d.reads p.text.length p.contentLength) : p.Intact := by
  obtain ⟨-, q, b, hq, hjson, -, -, hlen⟩ := h
  have hfold := (byteStarts_getElem?.mp hq).1
  rw [received_division, List.take_left' rfl] at hfold
  obtain ⟨items, s, hs, hr⟩ := run_of_foldlM_readByte hfold
  have hstatus := Client.run_status_line (Client.unbroken_of_plain p.status_plain) p.status_lt
  have ht : p.text = (p.status ++ [cr, lf]) ++ (p.lines.flatMap HeaderLine.text ++ [cr, lf]) := by
    simp [text, front]
  rw [ht] at hs
  by_cases hlong : (cstr p.status).length < okSuffix.length
  · rw [if_pos hlong] at hstatus
    rw [Client.run, run_append_error hstatus] at hs
    simp at hs
  rw [if_neg hlong] at hstatus
  by_cases hok : strcmpi ((cstr p.status).drop ((cstr p.status).length - okSuffix.length)) okSuffix = true
  · rw [if_pos hok] at hstatus
    rw [Client.run, run_append_silent hstatus] at hs
    refine ⟨Nat.not_lt.mp hlong, hok, ?_⟩
    cases hj : joinLines p.lines with
    | none =>
      obtain ⟨out, ho, hstate⟩ := Client.run_unjoined 0 hj
      exact absurd (hr.state.symm.trans hjson) (hstate s (congrArg Prod.snd (ho.symm.trans hs)))
    | some fields =>
      refine ⟨fields, rfl, ?_⟩
      have hbody : (Client.heading .readingHttpHeaderName (fields.foldl NamedValue.contentLength 0) [] []).run
          [cr, lf] =
        ([], .ok (Client.atBody (fields.foldl NamedValue.contentLength 0))) := rfl
      have hall := (run_append_silent (Client.run_joined 0 hj) _).trans hbody
      obtain rfl := Except.ok.inj (congrArg Prod.snd (hall.symm.trans hs))
      exact hr.contentLength.symm.trans hlen
  · rw [if_neg hok] at hstatus
    rw [Client.run, run_append_error hstatus] at hs
    simp at hs

end Preamble

/-- `HTTP/1.1 200 OK`, `A:` and the empty line. -/
def blankValue : Preamble where
  status := statusOk.text
  status_plain := by simp [statusOk]
  status_lt := statusOk.length_lt
  status_ok := by decide
  lines :=
    [{ name := [0x41]
       name_plain := by simp
       name_lt := by decide
       value := []
       value_plain := by simp
       value_lt := by decide }]

end BzccScanner
