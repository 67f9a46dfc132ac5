import BzccScanner.Resources
import BzccScanner.ScanProtocol

/-! What a scan holds: WinSock, the addresses of the host, sockets, a file. The
trace of `ScanFile` and `ScanHTTP` ends in front of their last callback, or where
they stop without one. Two calls of `ScanHTTP` use what the scan does not hold. -/

namespace BzccScanner

open CString Resources

/-- The sockets are numbered in the order of their creation. `invalidSocket` is none of them. -/
inductive Handle
  | winsock
  | addresses
  | socket (n : Nat)
  | invalidSocket
  | file
  deriving DecidableEq

namespace Handle

def wsaGetLastError : List (Resources.Event Handle) := [.use .winsock]

/-- A call on a socket. -/
def call (n : Nat) : List (Resources.Event Handle) := [.use .winsock, .use (.socket n)]

/-- `socket` and `connect`, both with an address. -/
def connect (n : Nat) : List (Resources.Event Handle) :=
  [.use .winsock, .use .addresses, .acquire (.socket n), .use .addresses] ++ call n

def closesocket (n : Nat) : List (Resources.Event Handle) := [.use .winsock, .release (.socket n)]

def freeaddrinfo : List (Resources.Event Handle) := [.use .winsock, .release .addresses]

end Handle

open Handle

variable {σ : Type}

/-- `parse_data`, which reads from the handle of `use`. -/
def readsTraced (use : List (Resources.Event Handle)) (cb : Callback σ) (q : Parser × World σ) :
    List Read → Traced Handle (Ending σ)
  | [] => do
    .emit use
    return .eof q.1 q.2
  | .failed m :: _ => do
    .emit use
    return .exit (.ret 1 (q.2.setErr m))
  | .data [] :: _ => do
    .emit use
    return .eof q.1 q.2
  | .data (b :: bs) :: rs => do
    .emit use
    match (b :: bs).foldlM (readByte cb) q with
    | .ok q => readsTraced use cb q rs
    | .error e => return .exit e

/-- The loop over the addresses, with the socket that is connected behind it. -/
def connectTraced (n : Nat) : List Attempt → Traced Handle (Except ConnectError (Option Nat))
  | [] => return .ok none
  | .noSocket e :: _ => do
    .emit ([.use .winsock, .use .addresses] ++ wsaGetLastError)
    return .error (.socket e)
  | .refused :: rest => do
    .emit (connect n ++ closesocket n)
    connectTraced (n + 1) rest
  | .connected :: _ => do
    .emit (connect n)
    return .ok (some n)

def sendTraced (n : Nat) (http : List Byte) (i : Nat) :
    List (Except Int Nat) → Traced Handle (Option (List Byte × Except Int Unit))
  | [] => return if http.length ≤ i then some ([], .ok ()) else none
  | .error e :: _ =>
    if http.length ≤ i then return some ([], .ok ())
    else do
      .emit (call n ++ wsaGetLastError)
      return some ([], .error e)
  | .ok k :: rest =>
    if http.length ≤ i then return some ([], .ok ())
    else do
      .emit (call n)
      let r ← sendTraced n http k rest
      return r.map fun r => ((http.take (http.length - i)).take k ++ r.1, r.2)

/-- The releases come in front of the last callback, but not behind a fault. -/
def endTraced (cb : Callback σ) (release : List (Resources.Event Handle)) :
    Except Fault (Int × World σ) → Traced Handle (Option (Except Fault (Int × World σ)))
  | .error f => return some (.error f)
  | .ok r => do
    .emit release
    return some (.ok (reportEnd cb r.1 r.2))

def scanFileTraced (cb : Callback σ) (garbage : KeyValueInfo) (data : σ) :
    Except Nat (List Read) → Traced Handle (Option (Except Fault (Int × World σ)))
  | .error e => return some (.ok (reportFailure cb garbage data (.createFileFailed e)))
  | .ok reads => do
    .emit [.acquire .file]
    let ending ← readsTraced [.use .file] cb (Parser.init false, World.init data) reads
    endTraced cb [.release .file] ending.result

def scanHttpTraced (cb : Callback σ) (garbage : KeyValueInfo) (data : σ) (host port serverFile : List Byte)
    (net : Network) : Traced Handle (Option (Except Fault (Int × World σ))) :=
  let failure := fun e : ConnectError => some (.ok (reportFailure cb garbage data e.message))
  match net.wsaStartup with
  | some e => do
    .emit wsaGetLastError
    return failure (.wsaStartup e)
  | none => do
    .emit [.acquire .winsock, .use .winsock]
    match net.getaddrinfo with
    | some e => do
      .emit [.release .winsock]
      return failure (.getaddrinfo e)
    | none => do
      .emit [.acquire .addresses]
      match ← connectTraced 0 (net.address :: net.addresses) with
      | .error e => do
        .emit (freeaddrinfo ++ [.release .winsock])
        return failure e
      | .ok none => do
        -- `setsockopt` comes in front of the test for `INVALID_SOCKET`.
        .emit ([.use .winsock, .use .invalidSocket] ++ freeaddrinfo ++ [.release .winsock])
        return failure (.connect host port)
      | .ok (some n) => do
        .emit (call n ++ freeaddrinfo)
        match ← sendTraced n (httpRequest host serverFile) 0 net.sends with
        | none => return none
        | some (_, .error e) => do
          .emit (closesocket n ++ [.release .winsock])
          return failure (.send e)
        | some (_, .ok ()) => do
          let ending ← readsTraced (call n) cb (Parser.init true, World.init data) net.reads
          endTraced cb (closesocket n ++ [.release .winsock]) ending.result

def ScanCall.traced (cb : Callback σ) (garbage : KeyValueInfo) (data : σ) :
    ScanCall → Traced Handle (Option (Except Fault (Int × World σ)))
  | file opened => scanFileTraced cb garbage data opened
  | http host port serverFile net => scanHttpTraced cb garbage data host port serverFile net

/-- Whether every address of the host refuses the connection. -/
def Network.refuses (net : Network) : Bool := (net.address :: net.addresses).all fun a => a matches .refused

/-- What the call uses without holding it. -/
def ScanCall.strays : ScanCall → List Handle
  | file _ => []
  | http _ _ _ net =>
    if net.wsaStartup.isSome then [.winsock]
    else if net.getaddrinfo.isNone && net.refuses then [.invalidSocket] else []

section values

variable {cb : Callback σ} {garbage : KeyValueInfo} {data : σ}

theorem readsTraced_value (use : List (Resources.Event Handle)) (q : Parser × World σ) (rs : List Read) :
    (readsTraced use cb q rs).value = readLoop cb q rs := by
  induction rs generalizing q with
  | nil => rfl
  | cons r rs ih =>
    cases r with
    | failed m => rfl
    | data bytes =>
      cases bytes with
      | nil => rfl
      | cons b bs =>
        rw [readsTraced, readLoop, Traced.value_bind]
        cases (b :: bs).foldlM (readByte cb) q with
        | error e => rfl
        | ok q => exact ih q

theorem connectTraced_value (n : Nat) (as : List Attempt) :
    (connectTraced n as).value.map Option.isSome = connectLoop as := by
  induction as generalizing n with
  | nil => rfl
  | cons a as ih =>
    cases a with
    | noSocket e => rfl
    | refused => exact ih (n + 1)
    | connected => rfl

theorem sendTraced_value (n : Nat) (http : List Byte) (i : Nat) (as : List (Except Int Nat)) :
    (sendTraced n http i as).value = sendLoop http i as := by
  induction as generalizing i with
  | nil => rfl
  | cons a as ih =>
    by_cases hi : http.length ≤ i
    · cases a <;> simp [sendTraced, sendLoop, hi]
    · cases a with
      | error e => simp [sendTraced, sendLoop, hi]
      | ok k =>
        simp only [sendTraced, sendLoop, hi, if_false, Traced.value_bind, ih]
        rfl

theorem endTraced_value (release : List (Resources.Event Handle)) (r : Except Fault (Int × World σ)) :
    (endTraced cb release r).value = some (r.map fun r => reportEnd cb r.1 r.2) := by
  cases r <;> rfl

theorem scanHttpTraced_value (host port serverFile : List Byte) (net : Network) :
    (scanHttpTraced cb garbage data host port serverFile net).value =
      (net.connection host port serverFile).map (scanHttp cb garbage data) := by
  rw [scanHttpTraced, Network.connection]
  cases net.wsaStartup with
  | some e => rfl
  | none =>
    cases net.getaddrinfo with
    | some e => rfl
    | none =>
      have hconnect := connectTraced_value 0 (net.address :: net.addresses)
      dsimp only
      simp only [Traced.value_bind]
      cases hc : (connectTraced 0 (net.address :: net.addresses)).value with
      | error e =>
        rw [hc] at hconnect
        rw [← hconnect]
        rfl
      | ok s =>
        rw [hc] at hconnect
        rw [← hconnect]
        cases s with
        | none => rfl
        | some n =>
          simp only [Traced.value_bind, sendTraced_value]
          cases sendLoop (httpRequest host serverFile) 0 net.sends with
          | none => rfl
          | some r =>
            obtain ⟨sent, _ | _⟩ := r
            · rfl
            · simp only [Traced.value_bind, readsTraced_value, endTraced_value]
              rfl

theorem ScanCall.traced_value (t : ScanCall) : (t.traced cb garbage data).value = t.run cb garbage data := by
  cases t with
  | file opened =>
    cases opened with
    | error e => rfl
    | ok reads =>
      simp only [ScanCall.traced, scanFileTraced, Traced.value_bind, readsTraced_value, endTraced_value]
      rfl
  | http host port serverFile net => exact scanHttpTraced_value host port serverFile net

end values

section held

variable {cb : Callback σ} {garbage : KeyValueInfo} {data : σ} {held : Finset Handle} {n : Nat}

theorem track_call (hw : .winsock ∈ held) (hn : .socket n ∈ held) : track held (call n) = some (held, []) := by
  rw [call, track_use hw, track_use hn, track_nil]

theorem track_connect (hw : .winsock ∈ held) (ha : .addresses ∈ held) (hn : .socket n ∉ held) :
    track held (connect n) = some (insert (.socket n) held, []) := by
  rw [connect, List.cons_append, track_use hw, List.cons_append, track_use ha, List.cons_append, track_acquire hn,
    List.cons_append, track_use (Finset.mem_insert_of_mem ha), List.nil_append]
  exact track_call (Finset.mem_insert_of_mem hw) (Finset.mem_insert_self _ _)

theorem track_closesocket (hw : .winsock ∈ held) (hn : .socket n ∈ held) :
    track held (closesocket n) = some (held.erase (.socket n), []) := by
  rw [closesocket, track_use hw, track_release hn, track_nil]

theorem track_freeaddrinfo (hw : .winsock ∈ held) (ha : .addresses ∈ held) :
    track held freeaddrinfo = some (held.erase .addresses, []) := by
  rw [freeaddrinfo, track_use hw, track_release ha, track_nil]

/-- Reading acquires nothing and releases nothing. -/
theorem readsTraced_leads {use : List (Resources.Event Handle)} (huse : track held use = some (held, []))
    (q : Parser × World σ) (rs : List Read) :
    Leads held (readsTraced use cb q rs) fun _ after strays => after = held ∧ strays = [] := by
  induction rs generalizing q with
  | nil => exact .emit held huse (.pure ⟨rfl, rfl⟩)
  | cons r rs ih =>
    cases r with
    | failed m => exact .emit held huse (.pure ⟨rfl, rfl⟩)
    | data bytes =>
      cases bytes with
      | nil => exact .emit held huse (.pure ⟨rfl, rfl⟩)
      | cons b bs =>
        refine .emit held huse ?_
        cases (b :: bs).foldlM (readByte cb) q with
        | error e => exact .pure ⟨rfl, rfl⟩
        | ok q => exact ih q

/-- A socket that is not connected is closed in the loop. -/
theorem connectTraced_leads (hw : .winsock ∈ held) (ha : .addresses ∈ held) (hn : ∀ m, .socket m ∉ held)
    (as : List Attempt) : Leads held (connectTraced n as) fun r after strays => strays = [] ∧ match r with
      | .ok (some m) => after = insert (.socket m) held ∧ as.all (fun a => a matches .refused) = false
      | .ok none => after = held ∧ as.all (fun a => a matches .refused) = true
      | .error _ => after = held ∧ as.all (fun a => a matches .refused) = false := by
  induction as generalizing n with
  | nil => exact .pure ⟨rfl, rfl, rfl⟩
  | cons a as ih =>
    cases a with
    | noSocket e =>
      refine .emit held ?_ (.pure ⟨rfl, rfl, rfl⟩)
      rw [List.cons_append, track_use hw, List.cons_append, track_use ha, List.nil_append, wsaGetLastError,
        track_use hw, track_nil]
    | refused =>
      refine .emit held ?_ ih
      rw [track_append_of (track_connect hw ha (hn n)),
        track_closesocket (Finset.mem_insert_of_mem hw) (Finset.mem_insert_self _ _), Finset.erase_insert (hn n)]
    | connected =>
      exact .emit (insert (.socket n) held) (track_connect hw ha (hn n)) (.pure ⟨rfl, rfl, rfl⟩)

theorem sendTraced_leads (hw : .winsock ∈ held) (hn : .socket n ∈ held) (http : List Byte) (i : Nat)
    (as : List (Except Int Nat)) :
    Leads held (sendTraced n http i as) fun _ after strays => after = held ∧ strays = [] := by
  have hcall : track held (call n) = some (held, []) := track_call hw hn
  induction as generalizing i with
  | nil => exact .pure ⟨rfl, rfl⟩
  | cons a as ih =>
    cases a with
    | error e =>
      rw [sendTraced]
      split_ifs
      · exact .pure ⟨rfl, rfl⟩
      · refine .emit held ?_ (.pure ⟨rfl, rfl⟩)
        rw [track_append_of hcall, wsaGetLastError, track_use hw, track_nil]
    | ok k =>
      rw [sendTraced]
      split_ifs
      · exact .pure ⟨rfl, rfl⟩
      · refine .emit held hcall ((ih k).bind ?_)
        rintro _ _ _ ⟨rfl, rfl⟩
        exact .pure ⟨rfl, rfl⟩

theorem track_failed : track {.addresses, .winsock} (freeaddrinfo ++ [.release .winsock]) = some (∅, []) := by
  decide

theorem track_refused : track {.addresses, .winsock}
    ([.use .winsock, .use .invalidSocket] ++ freeaddrinfo ++ [.release .winsock]) =
    some (∅, [.invalidSocket]) := by
  decide

/-- What is held while the request is sent and the response is read. -/
abbrev connected (n : Nat) : Finset Handle := {.winsock, .socket n}

theorem track_connected (n : Nat) :
    track (insert (.socket n) {.addresses, .winsock}) (call n ++ freeaddrinfo) = some (connected n, []) := by
  rw [track_append_of (track_call (by simp) (by simp)), track_freeaddrinfo (by simp) (by simp)]
  congr 2
  ext h
  simp only [Finset.mem_erase, Finset.mem_insert, Finset.mem_singleton]
  constructor
  · tauto
  · rintro (rfl | rfl) <;> simp

theorem track_disconnected (n : Nat) :
    track (connected n) (closesocket n ++ [.release .winsock]) = some (∅, []) := by
  rw [track_append_of (track_closesocket (by simp) (by simp)), track_release (by simp), track_nil]
  congr 2
  ext h
  simp only [Finset.mem_erase, Finset.mem_insert, Finset.mem_singleton, Finset.notMem_empty, iff_false]
  tauto

/-- Nothing is held if and only if the scan comes to its last callback. -/
def Over (strays : List Handle) (v : Option (Except Fault (Int × World σ))) (after : Finset Handle)
    (rest : List Handle) : Prop :=
  rest = strays ∧ (after = ∅ ↔ ∃ r, v = some (.ok r))

theorem over_ok (strays : List Handle) (r : Int × World σ) : Over strays (some (.ok r)) ∅ strays :=
  ⟨rfl, iff_of_true rfl ⟨r, rfl⟩⟩

theorem endTraced_leads {release : List (Resources.Event Handle)} (hrelease : track held release = some (∅, []))
    (hne : held ≠ ∅) (r : Except Fault (Int × World σ)) : Leads held (endTraced cb release r) (Over []) := by
  cases r with
  | error f => exact .pure ⟨rfl, iff_of_false hne (by simp)⟩
  | ok r => exact .emit ∅ hrelease (.pure (over_ok [] _))

theorem scanFileTraced_leads (opened : Except Nat (List Read)) :
    Leads ∅ (scanFileTraced cb garbage data opened) (Over []) := by
  cases opened with
  | error e => exact .pure (over_ok [] _)
  | ok reads =>
    refine .emit {.file} (by decide) ((readsTraced_leads (by decide) _ reads).bind ?_)
    rintro ending _ _ ⟨rfl, rfl⟩
    exact endTraced_leads (by decide) (by decide) _

theorem scanHttpTraced_leads (host port serverFile : List Byte) (net : Network) :
    Leads ∅ (scanHttpTraced cb garbage data host port serverFile net)
      (Over (ScanCall.http host port serverFile net).strays) := by
  rw [scanHttpTraced, ScanCall.strays]
  cases net.wsaStartup with
  | some e => exact .emit_stray ∅ [.winsock] (by decide) (.pure (over_ok [.winsock] _))
  | none =>
    refine .emit {.winsock} (by decide) ?_
    cases net.getaddrinfo with
    | some e => exact .emit ∅ (by decide) (.pure (over_ok [] _))
    | none =>
      refine .emit {.addresses, .winsock} (by decide) ?_
      refine (connectTraced_leads (by decide) (by decide) (by simp) _).bind ?_
      rintro (e | _ | n) _ _ ⟨rfl, rfl, hrefuses⟩ <;>
        simp only [Option.isSome_none, Option.isNone_none, Network.refuses, hrefuses, Bool.true_and,
          Bool.false_eq_true, if_false, if_true, List.nil_append]
      · exact .emit ∅ track_failed (.pure (over_ok [] _))
      · exact .emit_stray ∅ [.invalidSocket] track_refused (.pure (over_ok [.invalidSocket] _))
      · have hcall : track (connected n) (call n) = some (connected n, []) := track_call (by simp) (by simp)
        have hne : connected n ≠ ∅ := Finset.insert_ne_empty _ _
        refine .emit (connected n) (track_connected n) ?_
        refine (sendTraced_leads (by simp) (by simp) _ 0 net.sends).bind ?_
        rintro (_ | ⟨sent, _ | _⟩) _ _ ⟨rfl, rfl⟩
        · exact .pure ⟨rfl, iff_of_false hne (by simp)⟩
        · exact .emit ∅ (track_disconnected n) (.pure (over_ok [] _))
        · refine (readsTraced_leads hcall _ net.reads).bind ?_
          rintro ending _ _ ⟨rfl, rfl⟩
          exact endTraced_leads (track_disconnected n) hne _

end held

/-- A scan acquires nothing twice and releases only what it holds, and in front of its last callback it
holds nothing. It uses what it does not hold if `WSAStartup` fails, or if every address refuses the
connection. A scan that faults or never stops sending still holds something. -/
theorem scan_releases {σ : Type} (cb : Callback σ) (garbage : KeyValueInfo) (data : σ) (t : ScanCall) :
    (t.traced cb garbage data).value = t.run cb garbage data ∧
      ∃ held, track ∅ (t.traced cb garbage data).events = some (held, t.strays) ∧
        (held = ∅ ↔ ∃ r, t.run cb garbage data = some (.ok r)) := by
  have hleads : Leads ∅ (t.traced cb garbage data) (Over t.strays) := by
    cases t with
    | file opened => exact scanFileTraced_leads opened
    | http host port serverFile net => exact scanHttpTraced_leads host port serverFile net
  obtain ⟨held, _, htrack, rfl, hover⟩ := hleads
  have hvalue : (t.traced cb garbage data).value = t.run cb garbage data := t.traced_value
  refine ⟨hvalue, held, htrack, ?_⟩
  rw [← hvalue]
  exact hover

end BzccScanner
