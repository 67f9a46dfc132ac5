import BzccScanner.ItemOrder
import BzccScanner.Scan

/-! The socket calls of `ScanHTTP`, and the order of the calls that `ScanFile`
and `ScanHTTP` make: members first, then one call that says how the scan ended. -/

namespace BzccScanner

open CString

inductive Attempt
  | noSocket (e : Int)
  | refused
  | connected

/-- What the socket calls of one scan return. `getaddrinfo` gives one address
at least. `send` returns the number of bytes it took, or `SOCKET_ERROR`. -/
structure Network where
  wsaStartup : Option Int
  getaddrinfo : Option Int
  address : Attempt
  addresses : List Attempt
  sends : List (Except Int Nat)
  reads : List Read

/-- Whether there is a connected socket behind the loop over the addresses. -/
def connectLoop : List Attempt → Except ConnectError Bool
  | [] => .ok false
  | .noSocket e :: _ => .error (.socket e)
  | .refused :: rest => connectLoop rest
  | .connected :: _ => .ok true

/-- `for (i = 0; i < len; i = send(http, len - i))` from a state of the loop, with
the bytes that the socket takes. `none` is a loop that is still running. -/
def sendLoop (http : List Byte) (i : Nat) : List (Except Int Nat) → Option (List Byte × Except Int Unit)
  | [] => if http.length ≤ i then some ([], .ok ()) else none
  | .error e :: _ => if http.length ≤ i then some ([], .ok ()) else some ([], .error e)
  | .ok k :: rest =>
    if http.length ≤ i then some ([], .ok ())
    else (sendLoop http k rest).map fun r => ((http.take (http.length - i)).take k ++ r.1, r.2)

def requestBuflen : Nat := 512

def ascii (s : String) : List Byte := s.toList.map fun c => UInt8.ofNat c.toNat

def httpRequest (host serverFile : List Byte) : List Byte :=
  (ascii "GET /" ++ cstr serverFile ++ ascii " HTTP/1.1\r\nHost: " ++ cstr host ++
    ascii ("\r\nUser-Agent: BZCC Scanner 1.0\r\nAccept-Encoding: gzip, deflate\r\nAccept: */*\r\n" ++
      "Connection: keep-alive\r\n\r\n")).take (requestBuflen - 1)

def Network.connection (n : Network) (host port serverFile : List Byte) :
    Option (Except ConnectError (List Read)) :=
  match n.wsaStartup with
  | some e => some (.error (.wsaStartup e))
  | none =>
    match n.getaddrinfo with
    | some e => some (.error (.getaddrinfo e))
    | none =>
      match connectLoop (n.address :: n.addresses) with
      | .error e => some (.error e)
      | .ok false => some (.error (.connect host port))
      | .ok true =>
        (sendLoop (httpRequest host serverFile) 0 n.sends).map fun r =>
          match r.2 with
          | .error e => .error (.send e)
          | .ok () => .ok n.reads

/-- A call of `ScanFile` or of `ScanHTTP`, with what the system calls return. -/
inductive ScanCall
  | file (opened : Except Nat (List Read))
  | http (host port serverFile : List Byte) (n : Network)

variable {σ : Type}

/-- `none` is a scan that never stops sending. -/
def ScanCall.run (cb : Callback σ) (garbage : KeyValueInfo) (data : σ) :
    ScanCall → Option (Except Fault (Int × World σ))
  | file opened => some (scanFile cb garbage data opened)
  | http host port serverFile n => (n.connection host port serverFile).map (scanHttp cb garbage data)

def Status.OfMember (s : Status) : Prop := s = .normal ∨ s = .last

/-- What a returned scan promises about its calls. -/
structure KeepsProtocol (code : Int) (calls : List (Call σ)) : Prop where
  endsOnce : ∃ members last, calls = members ++ [last] ∧ (∀ c ∈ members, c.kvi.status.OfMember) ∧
    (last.kvi.status = .complete ∨ last.kvi.status = .error) ∧ (last.kvi.status = .complete ↔ code = 0)
  refusal : ∀ (n : Nat) (c : Call σ), calls[n]? = some c → c.kvi.status.OfMember → c.code ≠ 0 →
    ∃ e, calls[n + 1]? = some e ∧ e.kvi.status = .error

variable {cb : Callback σ} {garbage : KeyValueInfo} {data : σ} {code : Int} {w : World σ}

/-- In front of the end, only the last call may be a refusal, and then the code is not 0. -/
structure MembersFirst (code : Int) (members : List (Call σ)) : Prop where
  status : ∀ c ∈ members, c.kvi.status.OfMember
  refusal : ∀ (n : Nat) (c : Call σ), members[n]? = some c → c.code ≠ 0 → n + 1 = members.length ∧ code ≠ 0

theorem MembersFirst.of_zero {members : List (Call σ)} (hs : ∀ c ∈ members, c.kvi.status.OfMember)
    (h : ∀ c ∈ members, c.code = 0) : MembersFirst code members where
  status := hs
  refusal := fun _ c hc hne => absurd (h c (List.mem_of_getElem? hc)) hne

theorem MembersFirst.of_refused {members : List (Call σ)} {c : Call σ}
    (hs : ∀ d ∈ members ++ [c], d.kvi.status.OfMember) (h : ∀ d ∈ members, d.code = 0) (hcode : code ≠ 0) :
    MembersFirst code (members ++ [c]) where
  status := hs
  refusal := by
    intro n d hd hne
    refine ⟨?_, hcode⟩
    by_cases hn : n < members.length
    · rw [List.getElem?_append_left hn] at hd
      exact absurd (h d (List.mem_of_getElem? hd)) hne
    · have := (List.getElem?_eq_some_iff.mp hd).1
      simp only [List.length_append, List.length_singleton] at this ⊢
      omega

theorem status_of_reports {calls : List (Call σ)} {items : List Item}
    (h : calls.map (fun c => c.kvi.report) <+: (items.filter Item.delivered).map Item.report)
    (hi : ∀ i ∈ items, i.status = .normal ∨ i.status = .last) : ∀ c ∈ calls, c.kvi.status.OfMember := by
  intro c hc
  have hm := h.subset (List.mem_map_of_mem hc)
  obtain ⟨i, him, he⟩ := List.mem_map.mp hm
  have hst : i.status = c.kvi.status := congrArg Report.status he
  rw [← hst]
  exact hi i (List.mem_of_mem_filter him)

theorem parseData_membersFirst {usingHttp : Bool} {reads : List Read}
    (h : parseData cb usingHttp data reads = .ok (code, w)) : MembersFirst code w.calls := by
  obtain ⟨v, hv, hcalls, -⟩ := parseData_calls h
  have hi := (Client.init usingHttp).run_item_status (received reads)
  rw [hcalls]
  rcases foldlM_deliver_spec cb ((Client.init usingHttp).run (received reads)).1 (World.init data) with
    ⟨u, new, hu, hn, hz, hr⟩ | ⟨u, new, c, hu, hn, hz, -, hr⟩
  · obtain rfl : u = v := by simpa [hu] using hv
    rw [hn]
    exact .of_zero (status_of_reports (by rw [← hr]; exact List.prefix_refl _) hi) hz
  · obtain ⟨rfl, hcode⟩ : u = v ∧ code = 1 := by simpa [hu] using hv
    rw [hn]
    exact .of_refused (status_of_reports hr hi) hz (by simp [hcode])

theorem MembersFirst.reportEnd (h : MembersFirst code w.calls) :
    KeepsProtocol code (reportEnd cb code w).2.calls := by
  have hcalls : (BzccScanner.reportEnd cb code w).2.calls = w.calls ++
      [⟨{ w.kvi with status := if code = 0 then .complete else .error }, w.data, _, _⟩] := rfl
  rw [hcalls]
  constructor
  · refine ⟨w.calls, _, rfl, h.status, ?_⟩
    by_cases hc : code = 0 <;> simp [hc]
  · intro n c hc hs hne
    rcases Nat.lt_trichotomy n w.calls.length with hn | rfl | hn
    · rw [List.getElem?_append_left hn] at hc
      obtain ⟨hlast, hcode⟩ := h.refusal n c hc hne
      exact ⟨_, by rw [hlast, List.getElem?_concat_length], if_neg hcode⟩
    · rw [List.getElem?_concat_length, Option.some.injEq] at hc
      subst hc
      by_cases hc : code = 0 <;> simp [Status.OfMember, hc] at hs
    · have := (List.getElem?_eq_some_iff.mp hc).1
      simp only [List.length_append, List.length_singleton] at this
      omega

theorem reportFailure_protocol (m : Message) : KeepsProtocol 1 (reportFailure cb garbage data m).2.calls := by
  have hcalls : (reportFailure cb garbage data m).2.calls =
      [⟨{ garbage with err := some m, status := .error }, data, _, _⟩] := rfl
  rw [hcalls]
  constructor
  · exact ⟨[], _, rfl, by simp, .inr rfl, by simp⟩
  · intro n c hc hs
    cases n with
    | zero =>
      obtain rfl := Option.some.inj hc
      simp [Status.OfMember] at hs
    | succ n => simp at hc

theorem scan_protocol {usingHttp : Bool} {opened : Except Message (List Read)}
    (h : scan cb usingHttp garbage data opened = .ok (code, w)) : KeepsProtocol code w.calls := by
  cases opened with
  | error m =>
    obtain ⟨rfl, rfl⟩ := Prod.mk.inj (Except.ok.inj h)
    exact reportFailure_protocol m
  | ok reads =>
    rw [scan] at h
    cases hp : parseData cb usingHttp data reads with
    | error f => simp [hp, Except.map] at h
    | ok r =>
      rw [hp] at h
      obtain ⟨rfl, rfl⟩ := Prod.mk.inj (Except.ok.inj h)
      exact (parseData_membersFirst hp).reportEnd

/-- Every scan that returns ends its calls with one that says whether it is complete. -/
theorem ScanCall.keepsProtocol (t : ScanCall) (h : t.run cb garbage data = some (.ok (code, w))) :
    KeepsProtocol code w.calls := by
  cases t with
  | file opened => exact scan_protocol (Option.some.inj h)
  | http host port serverFile n =>
    obtain ⟨connection, -, hs⟩ := Option.map_eq_some_iff.mp h
    exact scan_protocol hs

def refuse : Callback Unit := fun k d => ⟨1, k, d⟩

/-- `{"G":[{"n":1}]}` over a connection whose first address refuses. -/
def refusedScan : ScanCall :=
  .http [] [] [] ⟨none, none, .refused, [.connected], [.ok 146], [.data
    [0x48, 0x20, 0x32, 0x30, 0x30, 0x20, 0x4f, 0x4b, 0x0d, 0x0a, 0x0d, 0x0a], .data
    [0x7b, 0x22, 0x47, 0x22, 0x3a, 0x5b, 0x7b, 0x22, 0x6e, 0x22, 0x3a, 0x31, 0x7d, 0x5d, 0x7d]]⟩

def ScanCall.refusesOne (t : ScanCall) : Bool :=
  match t.run refuse .zero () with
  | some (.ok (code, w)) => code == 1 && w.calls.map (fun c => c.kvi.status) == [.last, .error]
  | _ => false

set_option maxRecDepth 100000 in
theorem refusedScan_refusesOne : refusedScan.refusesOne = true := by
  decide +kernel

theorem keepsProtocol_refusedScan : ∃ w, refusedScan.run refuse .zero () = some (.ok (1, w)) ∧
    w.calls.map (fun c => c.kvi.status) = [.last, .error] ∧ KeepsProtocol 1 w.calls := by
  have h := refusedScan_refusesOne
  rw [ScanCall.refusesOne] at h
  split at h
  · next code w hr =>
    simp only [Bool.and_eq_true, beq_iff_eq] at h
    obtain ⟨rfl, hcalls⟩ := h
    exact ⟨w, hr, hcalls, refusedScan.keepsProtocol hr⟩
  · cases h

end BzccScanner
