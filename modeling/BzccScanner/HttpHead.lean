import BzccScanner.JsonRun

/-! The head of a response: its status line, its header lines and the empty
line. The header reader goes through it without an item and leaves the JSON
reader in its initial state, with the length that the last `Content-Length`
line declares. -/

namespace BzccScanner

open CString Mealy

structure StatusLine where
  text : List Byte
  plain : ∀ c ∈ text, c ≠ 0 ∧ c ≠ cr ∧ c ≠ lf
  length_lt : text.length < genericBuflen - 1
  long : okSuffix.length ≤ text.length
  ok : strcmpi (text.drop (text.length - okSuffix.length)) okSuffix = true

/-- `HTTP/1.1 200 OK` -/
def statusOk : StatusLine where
  text := [0x48, 0x54, 0x54, 0x50, 0x2f, 0x31, 0x2e, 0x31, 0x20, 0x32, 0x30, 0x30, 0x20, 0x4f, 0x4b]
  plain := by simp
  length_lt := by decide
  long := by decide
  ok := by decide

structure HeaderLine where
  name : List Byte
  name_plain : ∀ c ∈ name, c ≠ colon ∧ c ≠ cr ∧ c ≠ lf
  name_lt : name.length < genericBuflen - 1
  value : List Byte
  value_plain : ∀ c ∈ value, c ≠ cr ∧ c ≠ lf
  value_lt : value.length < genericBuflen - 1

namespace HeaderLine

def text (l : HeaderLine) : List Byte := l.name ++ colon :: l.value ++ [cr, lf]

def Nonblank (l : HeaderLine) : Prop := l.value.dropWhile isSpace ≠ []

def isContentLength (l : HeaderLine) : Bool := strcmpi (l.name.dropWhile isSpace) contentLengthName

def contentLength (n : UInt32) (l : HeaderLine) : UInt32 :=
  if l.isContentLength then UInt32.ofInt (atoi (l.value.dropWhile isSpace)) else n

end HeaderLine

structure Head where
  status : StatusLine
  lines : List HeaderLine
  nonblank : ∀ l ∈ lines, l.Nonblank

namespace Head

def text (h : Head) : List Byte :=
  h.status.text ++ [cr, lf] ++ h.lines.flatMap HeaderLine.text ++ [cr, lf]

def contentLength (h : Head) : UInt32 := h.lines.foldl HeaderLine.contentLength 0

end Head

namespace Client

def heading (state : State) (n : UInt32) (name value : List Byte) : Client :=
  ⟨state, n, 0, { Reader.init with name, value }⟩

def atBody (n : UInt32) : Client := ⟨.readingJson, n, 0, .init⟩

theorem step_status (n : UInt32) {name : List Byte} {c : Byte} (hlast : ¬ (c = lf ∧ name.getLast? = some cr))
    (hl : name.length + 1 < genericBuflen) : (heading .readingHttpHeader n name []).step c =
      ([], .ok (heading .readingHttpHeader n (name ++ [c]) [])) := by
  have : ¬ name.length + 1 ≥ genericBuflen := Nat.not_le.mpr hl
  simp only [step, heading, readHttpHeader, hlast, if_false, appendName, this]

theorem lineBreak_suffix {name : List Byte} {c : Byte} :
    [cr, lf] <:+ name ++ [c] ↔ c = lf ∧ name.getLast? = some cr := by
  have hpair : [cr] ++ [lf] <:+ name ++ [c] ↔ [cr] <:+ name ∧ [lf] = [c] :=
    List.suffix_append_inj_of_length_eq rfl
  rw [List.singleton_suffix_iff_getLast?_eq_some, List.singleton_inj, and_comm, eq_comm] at hpair
  exact hpair

theorem run_status_bytes (n : UInt32) (name bytes : List Byte) (hp : ¬ [cr, lf] <:+: name ++ bytes)
    (hl : name.length + bytes.length < genericBuflen) : (heading .readingHttpHeader n name []).run bytes =
      ([], .ok (heading .readingHttpHeader n (name ++ bytes) [])) := by
  induction bytes generalizing name with
  | nil => simp [Mealy.run]
  | cons c bytes ih =>
    rw [List.append_cons] at hp
    simp only [List.length_cons] at hl
    have hlast : ¬ (c = lf ∧ name.getLast? = some cr) := fun h =>
      hp (List.infix_append_of_infix_left (lineBreak_suffix.mpr h).isInfix)
    have hs := step_status n hlast (by omega : name.length + 1 < genericBuflen)
    have hi := ih (name ++ [c]) hp (by simp; omega)
    rw [List.append_assoc, List.singleton_append] at hi
    exact (run_cons_silent hs _).trans hi

theorem unbroken_of_plain {line : List Byte} (hp : ∀ c ∈ line, c ≠ cr ∧ c ≠ lf) : ¬ [cr, lf] <:+: line := fun h =>
  (hp cr (h.subset (by simp))).1 rfl

theorem unbroken_cr {line : List Byte} (hp : ¬ [cr, lf] <:+: line) : ¬ [cr, lf] <:+: line ++ [cr] := by
  rw [List.infix_concat_iff, lineBreak_suffix]
  exact fun h => h.elim (fun hlast => absurd hlast.1 (by decide)) hp

theorem run_status_line {line : List Byte} (hp : ¬ [cr, lf] <:+: line) (hl : line.length < genericBuflen - 1) :
    (init true).run (line ++ [cr, lf]) = ([],
      if (cstr line).length < okSuffix.length then .error (.fault .statusLine)
      else if strcmpi ((cstr line).drop ((cstr line).length - okSuffix.length)) okSuffix then
        .ok (heading .readingHttpHeaderName 0 [] [])
      else .error (.fail (.expectedOk (cstr line)))) := by
  have hb := run_status_bytes 0 [] (line ++ [cr]) (unbroken_cr hp)
    (by simp only [List.length_nil, List.length_append, List.length_singleton]; omega)
  rw [List.nil_append] at hb
  have ht : line ++ [cr, lf] = (line ++ [cr]) ++ [lf] := by simp
  rw [ht, run, run_append_silent (s := init true) hb]
  simp only [Mealy.run, step, heading, readHttpHeader, List.getLast?_concat, List.dropLast_concat,
    and_self, if_true]
  split_ifs <;> rfl

theorem run_status (l : StatusLine) : (init true).run (l.text ++ [cr, lf]) =
    ([], .ok (heading .readingHttpHeaderName 0 [] [])) := by
  have hc : cstr l.text = l.text := cstr_eq_self fun h => (l.plain 0 h).1 rfl
  have hs := run_status_line (unbroken_of_plain fun c hc => (l.plain c hc).2) l.length_lt
  rwa [hc, if_neg (Nat.not_lt.mpr l.long), if_pos l.ok] at hs

theorem run_name_bytes (n : UInt32) (name bytes : List Byte)
    (hp : ∀ c ∈ bytes, c ≠ colon ∧ c ≠ cr ∧ c ≠ lf) (hne : name ≠ [])
    (hl : name.length + bytes.length < genericBuflen) : (heading .readingHttpHeaderName n name []).run bytes =
      ([], .ok (heading .readingHttpHeaderName n (name ++ bytes) [])) := by
  induction bytes generalizing name with
  | nil => simp [Mealy.run]
  | cons c bytes ih =>
    simp only [List.length_cons] at hl
    obtain ⟨hk, hcr, hlf⟩ := hp c (by simp)
    have hs : (heading .readingHttpHeaderName n name []).step c =
        ([], .ok (heading .readingHttpHeaderName n (name ++ [c]) [])) := by
      have : ¬ name.length + 1 ≥ genericBuflen := by omega
      simp only [step, heading, readHttpHeaderName, hcr, hlf, hk, hne, false_and, and_false, if_false,
        appendName, this]
    have hi := ih (name ++ [c]) (fun d hd => hp d (by simp [hd])) (by simp) (by simp; omega)
    rw [List.append_assoc, List.singleton_append] at hi
    exact (run_cons_silent hs _).trans hi

theorem run_name (n : UInt32) (bytes : List Byte) (hp : ∀ c ∈ bytes, c ≠ colon ∧ c ≠ cr ∧ c ≠ lf)
    (hl : bytes.length < genericBuflen) : (heading .readingHttpHeaderName n [] []).run bytes =
      ([], .ok (heading .readingHttpHeaderName n (bytes.dropWhile isSpace) [])) := by
  induction bytes with
  | nil => simp [Mealy.run]
  | cons c bytes ih =>
    simp only [List.length_cons] at hl
    obtain ⟨hk, hcr, hlf⟩ := hp c (by simp)
    by_cases hsp : isSpace c = true
    · have hs : (heading .readingHttpHeaderName n [] []).step c =
          ([], .ok (heading .readingHttpHeaderName n [] [])) := by
        simp [step, heading, readHttpHeaderName, hcr, hlf, hsp]
      rw [List.dropWhile_cons_of_pos hsp]
      exact (run_cons_silent hs _).trans (ih (fun d hd => hp d (by simp [hd])) (by omega))
    · have hs : (heading .readingHttpHeaderName n [] []).step c =
          ([], .ok (heading .readingHttpHeaderName n [c] [])) := by
        simp [step, heading, readHttpHeaderName, hcr, hlf, hk, hsp, appendName, Reader.init, genericBuflen]
      have hi := run_name_bytes n [c] bytes (fun d hd => hp d (by simp [hd])) (by simp)
        (by simp only [List.length_singleton]; omega)
      rw [List.dropWhile_cons_of_neg hsp]
      exact (run_cons_silent hs _).trans hi

theorem run_value_bytes (n : UInt32) (name value bytes : List Byte) (hp : ∀ c ∈ bytes, c ≠ lf)
    (hne : value ≠ []) (hl : value.length + bytes.length < genericBuflen) :
    (heading .readingHttpHeaderValue n name value).run bytes =
      ([], .ok (heading .readingHttpHeaderValue n name (value ++ bytes))) := by
  induction bytes generalizing value with
  | nil => simp [Mealy.run]
  | cons c bytes ih =>
    simp only [List.length_cons] at hl
    have hs : (heading .readingHttpHeaderValue n name value).step c =
        ([], .ok (heading .readingHttpHeaderValue n name (value ++ [c]))) := by
      have : ¬ value.length + 1 ≥ genericBuflen := by omega
      simp only [step, heading, readHttpHeaderValue, hp c (by simp), hne, false_and, and_false, if_false, this]
    have hi := ih (value ++ [c]) (fun d hd => hp d (by simp [hd])) (by simp) (by simp; omega)
    rw [List.append_assoc, List.singleton_append] at hi
    exact (run_cons_silent hs _).trans hi

theorem run_value_cr (n : UInt32) (name bytes : List Byte) (hp : ∀ c ∈ bytes, c ≠ cr ∧ c ≠ lf)
    (hne : bytes.dropWhile isSpace ≠ []) (hl : (bytes.dropWhile isSpace).length + 1 < genericBuflen) :
    (heading .readingHttpHeaderValue n name []).run (bytes ++ [cr]) =
      ([], .ok (heading .readingHttpHeaderValue n name (bytes.dropWhile isSpace ++ [cr]))) := by
  induction bytes with
  | nil => exact absurd rfl hne
  | cons c bytes ih =>
    have hlf := (hp c (by simp)).2
    by_cases hsp : isSpace c = true
    · have hs : (heading .readingHttpHeaderValue n name []).step c =
          ([], .ok (heading .readingHttpHeaderValue n name [])) := by
        simp [step, heading, readHttpHeaderValue, hlf, hsp]
      rw [List.dropWhile_cons_of_pos hsp] at hne hl ⊢
      exact (run_cons_silent hs _).trans (ih (fun d hd => hp d (by simp [hd])) hne hl)
    · rw [List.dropWhile_cons_of_neg hsp, List.length_cons] at hl
      have hs : (heading .readingHttpHeaderValue n name []).step c =
          ([], .ok (heading .readingHttpHeaderValue n name [c])) := by
        simp [step, heading, readHttpHeaderValue, hlf, hsp, genericBuflen]
      have hi := run_value_bytes n name [c] (bytes ++ [cr])
        (by
          intro d hd
          rcases List.mem_append.mp hd with h | h
          · exact (hp d (by simp [h])).2
          · rw [List.mem_singleton.mp h]
            decide)
        (by simp)
        (by simp only [List.length_append, List.length_singleton]; omega)
      rw [List.dropWhile_cons_of_neg hsp]
      exact (run_cons_silent hs _).trans hi

theorem run_value_line (n : UInt32) (name bytes : List Byte) (hp : ∀ c ∈ bytes, c ≠ cr ∧ c ≠ lf)
    (hne : bytes.dropWhile isSpace ≠ []) (hl : (bytes.dropWhile isSpace).length + 1 < genericBuflen) :
    (heading .readingHttpHeaderValue n name []).run (bytes ++ [cr, lf]) =
      ([], .ok (heading .readingHttpHeaderName
        (if strcmpi name contentLengthName then UInt32.ofInt (atoi (bytes.dropWhile isSpace)) else n)
        [] [])) := by
  have hv := run_value_cr n name bytes hp hne hl
  have hs : (heading .readingHttpHeaderValue n name (bytes.dropWhile isSpace ++ [cr])).step lf =
      ([], .ok (heading .readingHttpHeaderName
        (if strcmpi name contentLengthName then UInt32.ofInt (atoi (bytes.dropWhile isSpace))
          else n) [] [])) := by
    simp only [step, heading, readHttpHeaderValue, List.getLast?_concat, List.dropLast_concat, and_self, if_true]
  have ht : bytes ++ [cr, lf] = (bytes ++ [cr]) ++ [lf] := by simp
  rw [ht]
  exact (run_append_silent hv _).trans (run_cons_silent hs [])

theorem run_name_colon (n : UInt32) (l : HeaderLine) (tail : List Byte) :
    (heading .readingHttpHeaderName n [] []).run (l.name ++ colon :: tail) =
      (heading .readingHttpHeaderValue n (l.name.dropWhile isSpace) []).run tail := by
  have hn := run_name n l.name l.name_plain (Nat.lt_of_lt_pred l.name_lt)
  have hs : (heading .readingHttpHeaderName n (l.name.dropWhile isSpace) []).step colon =
    ([], .ok (heading .readingHttpHeaderValue n (l.name.dropWhile isSpace) [])) := rfl
  exact (run_append_silent hn _).trans (run_cons_silent hs _)

theorem run_line (n : UInt32) (l : HeaderLine) (h : l.Nonblank) :
    (heading .readingHttpHeaderName n [] []).run l.text =
      ([], .ok (heading .readingHttpHeaderName (l.contentLength n) [] [])) := by
  have hv := run_value_line n (l.name.dropWhile isSpace) l.value l.value_plain h (by
    have := l.value_lt
    have := (List.dropWhile_suffix isSpace (l := l.value)).length_le
    omega)
  have ht : l.text = l.name ++ colon :: (l.value ++ [cr, lf]) := by simp [HeaderLine.text]
  rw [ht]
  exact (run_name_colon n l _).trans hv

theorem run_lines (n : UInt32) (lines : List HeaderLine) (h : ∀ l ∈ lines, l.Nonblank) :
    (heading .readingHttpHeaderName n [] []).run (lines.flatMap HeaderLine.text) =
      ([], .ok (heading .readingHttpHeaderName (lines.foldl HeaderLine.contentLength n) [] [])) := by
  induction lines generalizing n with
  | nil => rfl
  | cons l lines ih =>
    have hl := run_line n l (h l (by simp))
    exact (run_append_silent hl _).trans (ih (l.contentLength n) fun m hm => h m (by simp [hm]))

theorem run_head (h : Head) : (init true).run h.text = ([], .ok (atBody h.contentLength)) := by
  have h₁ := run_status h.status
  have h₂ := run_lines 0 h.lines h.nonblank
  have h₃ : (heading .readingHttpHeaderName h.contentLength [] []).run [cr, lf] =
    ([], .ok (atBody h.contentLength)) := rfl
  have ht : h.text = (h.status.text ++ [cr, lf]) ++ (h.lines.flatMap HeaderLine.text ++ [cr, lf]) := by
    simp [Head.text]
  rw [ht]
  exact (run_append_silent h₁ _).trans <| (run_append_silent h₂ _).trans h₃

end Client

end BzccScanner
