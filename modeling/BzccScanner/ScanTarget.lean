import Mathlib.Data.Nat.Digits.Defs
import BzccScanner.ScreenSettings
import BzccScanner.SendLoop

/-! What a scan asks for. `ScanThread` copies the host and the file of the settings
into buffers of bytes, and `ScanHTTP` writes them into its request. Neither the
settings nor the copies fill a buffer, so that the request is never cut off. -/

namespace BzccScanner

open CString Runs

section lines

def crlf : List Byte := [0x0d, 0x0a]

/-- The lines that end in CRLF, and what is behind them. -/
def lines : List Byte → List (List Byte) × List Byte
  | [] => ([], [])
  | 0x0d :: 0x0a :: rest => ([] :: (lines rest).1, (lines rest).2)
  | b :: rest =>
    match lines rest with
    | (l :: ls, behind) => ((b :: l) :: ls, behind)
    | ([], behind) => ([], b :: behind)

theorem lines_append {l : List Byte} (h : 0x0d ∉ l) (rest : List Byte) :
    lines (l ++ crlf ++ rest) = (l :: (lines rest).1, (lines rest).2) := by
  induction l with
  | nil => rfl
  | cons b l ih =>
    rw [List.mem_cons, not_or] at h
    have hrest : lines (b :: (l ++ crlf ++ rest)) =
        match lines (l ++ crlf ++ rest) with
        | (l :: ls, behind) => ((b :: l) :: ls, behind)
        | ([], behind) => ([], b :: behind) := by
      rw [lines]
      rintro _ rfl
      exact absurd rfl h.1
    rw [List.cons_append, List.cons_append, hrest, ih h.2]

theorem lines_flatMap {ls : List (List Byte)} (h : ∀ l ∈ ls, 0x0d ∉ l) :
    lines (ls.flatMap (· ++ crlf)) = (ls, []) := by
  induction ls with
  | nil => rfl
  | cons l ls ih =>
    obtain ⟨hl, hls⟩ := List.forall_mem_cons.mp h
    rw [List.flatMap_cons, lines_append hl, ih hls]

end lines

/-- `%ls` in the "C" locale, which fails at a character that has no byte. What was converted in front
of it stays in the buffer, and `ScanThread` does not look at the failure. -/
def narrow (s : List TChar) : List Byte := (s.takeWhile (· < 0x100)).map UInt16.toUInt8

/-- `%d` of a DWORD, in a buffer of `len` bytes. -/
def portText (len : Nat) (port : UInt32) : List Byte := (ascii (toString port.toInt32.toInt)).take (len - 1)

/-- The call that `ScanThread` makes. -/
def Screen.scanCall (s : Screen) (opened : Except Nat (List Read)) (net : Network) : ScanCall :=
  if s.hostPort = 0 then .file opened
  else .http ((narrow (wstr s.hostName)).take (hostnameLen - 1)) (portText 8 s.hostPort)
    ((narrow (wstr s.hostFile)).take (hostnameLen - 1)) net

/-- The lines of a request, the last of which is empty. -/
def requestLines (host serverFile : List Byte) : List (List Byte) :=
  [ascii "GET /" ++ serverFile ++ ascii " HTTP/1.1", ascii "Host: " ++ host, ascii "User-Agent: BZCC Scanner 1.0",
    ascii "Accept-Encoding: gzip, deflate", ascii "Accept: */*", ascii "Connection: keep-alive", []]

section requests

variable {host serverFile : List Byte}

theorem request_head : ascii " HTTP/1.1\r\nHost: " = ascii " HTTP/1.1" ++ crlf ++ ascii "Host: " := by
  decide +kernel

theorem request_tail :
    ascii ("\r\nUser-Agent: BZCC Scanner 1.0\r\nAccept-Encoding: gzip, deflate\r\nAccept: */*\r\n" ++
    "Connection: keep-alive\r\n\r\n") = crlf ++ [ascii "User-Agent: BZCC Scanner 1.0",
      ascii "Accept-Encoding: gzip, deflate", ascii "Accept: */*", ascii "Connection: keep-alive",
      []].flatMap (· ++ crlf) := by
  decide +kernel

theorem requestLines_length (host serverFile : List Byte) :
    ((requestLines host serverFile).flatMap (· ++ crlf)).length = host.length + serverFile.length + 125 := by
  have hlen : ∀ s : String, (ascii s).length = s.length := fun s => List.length_map _
  simp only [requestLines, List.flatMap_cons, List.flatMap_nil, List.length_append, hlen]
  have hcrlf : crlf.length = 2 := rfl
  have h₁ : "GET /".length = 5 := by decide
  have h₂ : " HTTP/1.1".length = 9 := by decide
  have h₃ : "Host: ".length = 6 := by decide
  have h₄ : "User-Agent: BZCC Scanner 1.0".length = 28 := by decide
  have h₅ : "Accept-Encoding: gzip, deflate".length = 30 := by decide
  have h₆ : "Accept: */*".length = 11 := by decide
  have h₇ : "Connection: keep-alive".length = 22 := by decide
  simp only [hcrlf, h₁, h₂, h₃, h₄, h₅, h₆, h₇, List.length_nil]
  omega

theorem httpRequest_whole (hhost : 0 ∉ host) (hfile : 0 ∉ serverFile) (hhlen : host.length < hostnameLen)
    (hflen : serverFile.length < hostnameLen) :
    httpRequest host serverFile = (requestLines host serverFile).flatMap (· ++ crlf) := by
  have hlen := requestLines_length host serverFile
  have htext : ascii "GET /" ++ serverFile ++ ascii " HTTP/1.1\r\nHost: " ++ host ++
      ascii ("\r\nUser-Agent: BZCC Scanner 1.0\r\nAccept-Encoding: gzip, deflate\r\nAccept: */*\r\n" ++
        "Connection: keep-alive\r\n\r\n") = (requestLines host serverFile).flatMap (· ++ crlf) := by
    rw [request_head, request_tail, requestLines]
    simp only [List.flatMap_cons, List.append_assoc]
  rw [httpRequest, cstr_eq_self hhost, cstr_eq_self hfile, htext]
  refine List.take_of_length_le ?_
  rw [hlen, requestBuflen]
  rw [hostnameLen] at hhlen hflen
  omega

theorem requestLines_plain (hhost : 0x0d ∉ host) (hfile : 0x0d ∉ serverFile) :
    ∀ l ∈ requestLines host serverFile, 0x0d ∉ l := by
  have h₁ : 0x0d ∉ ascii "GET /" ++ serverFile ++ ascii " HTTP/1.1" := by
    simp only [List.mem_append, not_or]
    exact ⟨⟨by decide +kernel, hfile⟩, by decide +kernel⟩
  have h₂ : 0x0d ∉ ascii "Host: " ++ host := by
    rw [List.mem_append, not_or]
    exact ⟨by decide +kernel, hhost⟩
  rw [requestLines, List.forall_mem_cons, List.forall_mem_cons]
  exact ⟨h₁, h₂, by decide +kernel⟩

end requests

section transfer

theorem sendLoop_sent {http sent : List Byte} {as : List (Except Int Nat)} (hne : http ≠ [])
    (h : Answers http.length 0 as) (hs : sendLoop http 0 as = some (sent, .ok ())) : sent = http := by
  cases as with
  | nil => simp [sendLoop, hne] at hs
  | cons a as =>
    cases a with
    | error e => simp [sendLoop_error _ e hne] at hs
    | ok k =>
      obtain ⟨hk, hle, hrest⟩ := h (List.length_pos_of_ne_nil hne)
      by_cases hlen : k = http.length
      · rw [hlen, sendLoop_whole _ hne] at hs
        exact (Prod.mk.inj (Option.some.inj hs)).1.symm
      · rw [sendLoop_first hne] at hs
        obtain ⟨r, hr, he⟩ := Option.map_eq_some_iff.mp hs
        have hok : sendLoop http k as = some (r.1, .ok ()) :=
          hr.trans (congrArg some (Prod.ext rfl (Prod.mk.inj he).2))
        exact absurd hok ((sendLoop_short hk (by omega) hrest).1 r.1)

theorem connection_sent {net : Network} {host port serverFile : List Byte} {reads : List Read}
    (h : net.connection host port serverFile = some (.ok reads)) :
    ∃ sent, sendLoop (httpRequest host serverFile) 0 net.sends = some (sent, .ok ()) := by
  rw [Network.connection] at h
  split at h
  · cases h
  · split at h
    · cases h
    · split at h
      · cases h
      · cases h
      · obtain ⟨⟨sent, r⟩, hs, he⟩ := Option.map_eq_some_iff.mp h
        cases r with
        | error e => cases he
        | ok u => exact ⟨sent, hs⟩

end transfer

section buffers

theorem tcharsOf_drop (b : List Byte) (i : Nat) : tcharsOf (b.drop (2 * i)) = (tcharsOf b).drop i := by
  induction i generalizing b with
  | zero => rfl
  | succ i ih =>
    match b with
    | [] => simp [tcharsOf]
    | [x] => simp [tcharsOf, show 2 * (i + 1) = 2 * i + 1 + 1 by omega]
    | x :: y :: rest => exact ih rest

theorem bytesOf_drop (s : List TChar) (i : Nat) : (bytesOf s).drop (2 * i) = bytesOf (s.drop i) := by
  induction i generalizing s with
  | zero => rfl
  | succ i ih =>
    cases s with
    | nil => rfl
    | cons c s => exact ih s

theorem wstr_length_lt {n : Nat} {v : WString n} (h : 0 ∈ v.toList) : (wstr v).length < n := by
  have hle : (wstr v).length ≤ v.toList.length := (List.takeWhile_prefix _).length_le
  rw [Vector.length_toList] at hle
  refine Nat.lt_of_le_of_ne hle fun heq => ?_
  have hall : wstr v = v.toList :=
    (List.takeWhile_prefix _).eq_of_length (by rw [← wstr, heq, Vector.length_toList])
  exact zero_notMem_wstr v (hall ▸ h)

/-- A text of the registry has at most as many bytes as the buffer has characters. -/
theorem loadText_ends (reg : Registry) (name : List TChar) {buffer : WString hostnameLen}
    (h : buffer.toList.drop 127 = [0]) :
    0 ∈ (loadText reg name buffer).toList := by
  generalize hout : (loadSettingString reg name (bytesOf buffer.toList) (UInt32.ofNat hostnameLen)).2 = out
  have hrest : out.drop 254 = bytesOf [0] := by
    have hbuffer : (bytesOf buffer.toList).drop 254 = bytesOf [0] := by
      rw [← h]
      exact bytesOf_drop buffer.toList 127
    rw [← hout, loadSettingString, Registry.loadSettingString, Registry.queryValue]
    split_ifs
    · split
      · exact hbuffer
      · rename_i data valueSz hq
        split at hq
        · cases hq
        · rename_i stored _
          have hsize : (UInt32.ofNat hostnameLen).toNat = 128 := rfl
          split_ifs at hq with hfit
          obtain ⟨rfl, -⟩ := Prod.mk.inj (Option.some.inj hq)
          rw [hsize] at hfit
          rw [List.drop_append, List.drop_eq_nil_of_le (by omega), List.nil_append, List.drop_drop]
          rw [show stored.length + (254 - stored.length) = 254 by omega]
          exact hbuffer
    · exact hbuffer
  have hchars : (tcharsOf out).drop 127 = [0] := by
    rw [← tcharsOf_drop out 127, hrest]
    rfl
  have hlast : (tcharsOf out).getD 127 0 = 0 := by
    rw [List.getD_eq_getElem?_getD,
      show (tcharsOf out)[127]? = ((tcharsOf out).drop 127)[0]? by rw [List.getElem?_drop], hchars]
    rfl
  rw [loadText, hout, Vector.mem_toList_iff, Vector.mem_iff_getElem]
  exact ⟨127, by decide, by simpa using hlast⟩

end buffers

namespace Screen

variable {p : Platform} {o : Outcomes} {s t : Screen}

def target (s : Screen) : WString hostnameLen × WString hostnameLen := (s.hostName, s.hostFile)

theorem target_of_saved (h : t.saved = s.saved) : t.target = s.target := congrArg (fun x => x.2.2.2) h

theorem refresh_target (o : Outcomes) (s : Screen) : (s.refresh o).target = s.target := by
  rw [refresh]
  split_ifs <;> rfl

theorem close_target (s : Screen) : s.close.target = s.target := by
  rw [close]
  dsimp only
  split_ifs <;> rfl

theorem columnClick_target {iSubItem : Int32} (h : s.columnClick p iSubItem = some t) : t.target = s.target := by
  rw [columnClick] at h
  rw [target_of_saved (sort_saved h)]
  split_ifs <;> rfl

theorem scan_target (h : s.scan p o = some t) : t.target = s.target := by
  rcases scan_cases h with ⟨source, garbage, w, -, -, rfl⟩ | ⟨u, k, todo, r, -, -, -, hrows⟩ |
    ⟨u, code, m, x, -, -, -, -, rfl⟩
  · rfl
  · exact (target_of_saved (addRows_saved hrows)).trans rfl
  · rw [endScan]
    split_ifs
    · exact close_target _
    · rfl

theorem handle_target {m : Msg} (h : s.handle p o (.window m) = some t) : t.target = s.target := by
  cases m with
  | refresh =>
    obtain rfl := Option.some.inj h
    exact refresh_target o s
  | timer =>
    simp only [handle] at h
    split_ifs at h
    obtain rfl := Option.some.inj h
    rw [timer]
    split_ifs
    · rfl
    · exact refresh_target o s
  | close =>
    obtain rfl := Option.some.inj h
    exact close_target s
  | renameDlg =>
    obtain rfl := Option.some.inj h
    rfl
  | renOk input => exact (target_of_saved (closeRenameDlg_saved h)).trans rfl
  | renDelete => exact (target_of_saved (closeRenameDlg_saved h)).trans rfl
  | renClose input => exact target_of_saved (closeRenameDlg_saved h)
  | selectGame i => exact target_of_saved (selectGame_saved h)
  | selectPlayer item => exact target_of_saved (selectPlayer_saved h)
  | clickLocalNames =>
    rcases clickLocalNames_cases h with ⟨-, rfl⟩ | ⟨-, h⟩
    · rfl
    · exact (target_of_saved (updatePlayerList_saved h)).trans rfl
  | clickAutoCreateNicks =>
    rcases clickAutoCreateNicks_cases h with ⟨-, rfl⟩ | ⟨-, -, h⟩
    · rfl
    · exact (target_of_saved (updatePlayerList_saved h)).trans rfl
  | clickAutoScan =>
    obtain rfl := Option.some.inj h
    rfl
  | clickAutoScanTimeApply input =>
    obtain rfl := Option.some.inj h
    rfl

/-- The host and the file end inside their buffers. -/
structure Ends (s : Screen) : Prop where
  host : (wstr s.hostName).length < hostnameLen
  file : (wstr s.hostFile).length < hostnameLen

theorem Ends.of_target (h : s.Ends) (ht : t.target = s.target) : t.Ends := by
  obtain ⟨hhost, hfile⟩ := Prod.mk.inj ht
  exact ⟨hhost ▸ h.host, hfile ▸ h.file⟩

theorem editText_length_lt (v : WString hostnameLen) (input : List TChar) :
    (wstr (editText v input)).length < hostnameLen := by
  refine wstr_snwprintf_lt (by decide) (fun h => ?_) v
  simpa using List.mem_takeWhile_imp h

theorem Ends.step {a : ScreenAction × Outcomes} (h : s.Ends) (ht : s.step p a = some t) : t.Ends := by
  obtain ⟨a, o⟩ := a
  rw [Screen.step] at ht
  split_ifs at ht
  cases a with
  | scan => exact h.of_target (scan_target ht)
  | ui m =>
    cases m with
    | window m => exact h.of_target (handle_target ht)
    | columnClick iSubItem => exact h.of_target (columnClick_target ht)
    | clickRememberSort =>
      obtain rfl := Option.some.inj ht
      refine h.of_target ?_
      rw [Screen.clickRememberSort]
      dsimp only
      split_ifs <;> rfl
    | clickRememberWindow =>
      obtain rfl := Option.some.inj ht
      exact h.of_target rfl
    | clickHostApply addr port file =>
      obtain rfl := Option.some.inj ht
      exact ⟨editText_length_lt s.hostName addr, editText_length_lt s.hostFile file⟩
    | clickUrl =>
      obtain rfl := Option.some.inj ht
      refine h.of_target ?_
      rw [Screen.clickUrl]
      split <;> rfl
    | sizeMove rect =>
      obtain rfl := Option.some.inj ht
      exact h.of_target rfl

theorem start_ends (reg : Registry) (value : Setting → List Byte) (client : Int32 × Int32 → Int32 × Int32) :
    (start reg value client).Ends :=
  ⟨wstr_length_lt (loadText_ends reg _ (by decide +kernel)),
    wstr_length_lt (loadText_ends reg _ (by decide +kernel))⟩

theorem ends_run {reg : Registry} {value : Setting → List Byte} {client : Int32 × Int32 → Int32 × Int32}
    {moves : List (Move Screen (ScreenAction × Outcomes))}
    (h : Run (Screen.step p) (start reg value client) moves s) : s.Ends :=
  (h.invariant (P := fun _ _ => True) (fun _ _ _ hs _ ht => hs.step ht) (start_ends reg value client)
    fun _ _ => trivial).1

end Screen

theorem narrow_eq (s : List TChar) : (narrow s).map UInt8.toUInt16 = s.takeWhile (· < 0x100) := by
  have hback : ∀ c ∈ s.takeWhile (· < 0x100), (UInt8.toUInt16 ∘ UInt16.toUInt8) c = c := by
    intro c hc
    have hbyte : decide (c < 0x100) = true := List.mem_takeWhile_imp (p := fun c => decide (c < 0x100)) hc
    have hlt : c.toNat < 256 := UInt16.lt_iff_toNat_lt.mp (of_decide_eq_true hbyte)
    apply UInt16.toNat_inj.mp
    simp only [Function.comp_apply, UInt8.toNat_toUInt16, UInt16.toNat_toUInt8]
    omega
  rw [narrow, List.map_map]
  exact (List.map_congr_left hback).trans (List.map_id _)

theorem zero_notMem_narrow {s : List TChar} (h : 0 ∉ s) : 0 ∉ narrow s := by
  intro hm
  have hmap : (0 : UInt8).toUInt16 ∈ s.takeWhile (· < 0x100) := narrow_eq s ▸ List.mem_map_of_mem hm
  exact h ((List.takeWhile_prefix _).subset hmap)

theorem narrow_length_le (s : List TChar) : (narrow s).length ≤ s.length := by
  rw [narrow, List.length_map]
  exact (List.takeWhile_prefix _).length_le

theorem portText_eq {port : UInt32} (h : port < 10000000) : portText 8 port = ascii (toString port.toNat) := by
  have hlt : port.toNat < 10 ^ 7 := UInt32.lt_iff_toNat_lt.mp h
  have hint : port.toInt32.toInt = port.toNat := by
    rw [← Int32.toInt_toBitVec, UInt32.toBitVec_toInt32, BitVec.toInt_eq_toNat_of_lt, UInt32.toNat_toBitVec]
    rw [UInt32.toNat_toBitVec]
    omega
  have hlen : (Nat.repr port.toNat).length ≤ 7 := Nat.repr_length _ _ (by decide) hlt
  rw [portText, hint]
  refine List.take_of_length_le ?_
  rw [ascii, List.length_map]
  exact hlen

theorem Screen.scanCall_http {s : Screen} {opened : Except Nat (List Read)} {net : Network}
    {host port serverFile : List Byte} (hs : s.Ends)
    (h : s.scanCall opened net = .http host port serverFile net) :
    host = narrow (wstr s.hostName) ∧ port = portText 8 s.hostPort ∧ serverFile = narrow (wstr s.hostFile) := by
  have hwhole : ∀ {t : List TChar}, t.length < hostnameLen → (narrow t).take (hostnameLen - 1) = narrow t := by
    intro t hlen
    have hnarrow := narrow_length_le t
    refine List.take_of_length_le ?_
    omega
  rw [scanCall, hwhole hs.host, hwhole hs.file] at h
  split_ifs at h
  obtain ⟨hhost, hport, hfile, -⟩ := ScanCall.http.inj h
  exact ⟨hhost.symm, hport.symm, hfile.symm⟩

/-- What a scan sends before it reads: one whole request for the file of the settings, to the host of the
settings, whatever the user and the registry have made of them. A text is cut at its first character
that has no byte. -/
theorem scan_sends {p : Platform} {reg : Registry} {value : Setting → List Byte}
    {client : Int32 × Int32 → Int32 × Int32} {s : Screen} {moves : List (Move Screen (ScreenAction × Outcomes))}
    {opened : Except Nat (List Read)} {net : Network} {host port serverFile : List Byte} {reads : List Read}
    (h : Run (Screen.step p) (Screen.start reg value client) moves s)
    (hcall : s.scanCall opened net = .http host port serverFile net)
    (hconn : net.connection host port serverFile = some (.ok reads))
    (hsends : Answers (httpRequest host serverFile).length 0 net.sends) :
    (host.map UInt8.toUInt16 = (wstr s.hostName).takeWhile (· < 0x100) ∧
      serverFile.map UInt8.toUInt16 = (wstr s.hostFile).takeWhile (· < 0x100) ∧
      (s.hostPort < 10000000 → port = ascii (toString s.hostPort.toNat))) ∧
    ∃ sent, sendLoop (httpRequest host serverFile) 0 net.sends = some (sent, .ok ()) ∧
      sent = (requestLines host serverFile).flatMap (· ++ crlf) ∧
      (0x0d ∉ host → 0x0d ∉ serverFile → lines sent = (requestLines host serverFile, [])) := by
  have hends := Screen.ends_run h
  obtain ⟨rfl, rfl, rfl⟩ := Screen.scanCall_http hends hcall
  have hhost := Nat.lt_of_le_of_lt (narrow_length_le _) hends.host
  have hfile := Nat.lt_of_le_of_lt (narrow_length_le _) hends.file
  have hrequest := httpRequest_whole (zero_notMem_narrow (zero_notMem_wstr s.hostName))
    (zero_notMem_narrow (zero_notMem_wstr s.hostFile)) hhost hfile
  have hne : httpRequest (narrow (wstr s.hostName)) (narrow (wstr s.hostFile)) ≠ [] := by
    rw [hrequest]
    intro hnil
    have hcount := requestLines_length (narrow (wstr s.hostName)) (narrow (wstr s.hostFile))
    rw [hnil] at hcount
    simp at hcount
  obtain ⟨sent, hsent⟩ := connection_sent hconn
  have hwhole := (sendLoop_sent hne hsends hsent).trans hrequest
  refine ⟨⟨narrow_eq _, narrow_eq _, portText_eq⟩, sent, hsent, hwhole, fun hh hf => ?_⟩
  rw [hwhole]
  exact lines_flatMap (requestLines_plain hh hf)

/-- A connection that takes the request whole. -/
def sendingNetwork : Network where
  wsaStartup := none
  getaddrinfo := none
  address := .connected
  addresses := []
  sends := [.ok (httpRequest (ascii "battlezone99mp.webdev.rebellion.co.uk") (ascii "lobbyServer")).length]
  reads := []

theorem emptyScreen_scanCall (opened : Except Nat (List Read)) : emptyScreen.scanCall opened sendingNetwork =
    .http (ascii "battlezone99mp.webdev.rebellion.co.uk") (ascii "80") (ascii "lobbyServer") sendingNetwork := by
  have hport : emptyScreen.hostPort = 80 := by decide +kernel
  have hhost : (narrow (wstr emptyScreen.hostName)).take (hostnameLen - 1) =
      ascii "battlezone99mp.webdev.rebellion.co.uk" := by decide +kernel
  have hfile : (narrow (wstr emptyScreen.hostFile)).take (hostnameLen - 1) = ascii "lobbyServer" := by
    decide +kernel
  rw [Screen.scanCall, hport, hhost, hfile]
  exact congrArg (fun t => ScanCall.http _ t _ _) (portText_eq (by decide))

/-- The request of a scan with the default settings. -/
theorem scan_sends_default : ∃ host file sent,
    emptyScreen.scanCall (.ok []) sendingNetwork = .http host (ascii "80") file sendingNetwork ∧
    sendLoop (httpRequest host file) 0 sendingNetwork.sends = some (sent, .ok ()) ∧
    lines sent = (requestLines host file, []) := by
  have hlen : 0 < (httpRequest (ascii "battlezone99mp.webdev.rebellion.co.uk") (ascii "lobbyServer")).length := by
    decide +kernel
  have hconn : sendingNetwork.connection (ascii "battlezone99mp.webdev.rebellion.co.uk") (ascii "80")
      (ascii "lobbyServer") = some (.ok []) := by
    have hsend := sendLoop_whole [] (List.ne_nil_of_length_pos hlen)
    simp [Network.connection, sendingNetwork, connectLoop, hsend]
  obtain ⟨-, sent, hsent, -, hlines⟩ :=
    scan_sends (p := plain) (.nil emptyScreen) (emptyScreen_scanCall (.ok [])) hconn
    fun _ => ⟨hlen, (Nat.sub_zero _).ge, trivial⟩
  have hhost : 0x0d ∉ ascii "battlezone99mp.webdev.rebellion.co.uk" := by decide +kernel
  have hfile : 0x0d ∉ ascii "lobbyServer" := by decide +kernel
  exact ⟨_, _, sent, emptyScreen_scanCall (.ok []), hsent, hlines hhost hfile⟩

end BzccScanner
