import BzccScanner.HttpHead

/-! `ScanFile` and `ScanHTTP` around `parse_data`: a source that cannot be
opened is reported without parsing, and every other scan ends with one more
call that says whether it is complete. -/

namespace BzccScanner

open CString

variable {σ : Type}

/-- The last call of a scan. The record is as `parse_data` left it, apart from the status. -/
def reportEnd (cb : Callback σ) (code : Int) (w : World σ) : Int × World σ :=
  let w := { w with kvi := { w.kvi with status := if code = 0 then .complete else .error } }
  (code, (w.invoke cb).2)

/-- A source that is not opened: the rest of the record was never initialised. -/
def reportFailure (cb : Callback σ) (garbage : KeyValueInfo) (data : σ) (m : Message) : Int × World σ :=
  (1, (World.invoke cb ⟨{ garbage with err := some m, status := .error }, data, []⟩).2)

def scan (cb : Callback σ) (usingHttp : Bool) (garbage : KeyValueInfo) (data : σ) :
    Except Message (List Read) → Except Fault (Int × World σ)
  | .error m => .ok (reportFailure cb garbage data m)
  | .ok reads => (parseData cb usingHttp data reads).map fun r => reportEnd cb r.1 r.2

def scanFile (cb : Callback σ) (garbage : KeyValueInfo) (data : σ) (file : Except Nat (List Read)) :
    Except Fault (Int × World σ) :=
  scan cb false garbage data (file.mapError .createFileFailed)

inductive ConnectError
  | wsaStartup (e : Int)
  | getaddrinfo (e : Int)
  | socket (e : Int)
  | connect (host port : List Byte)
  | send (e : Int)

def ConnectError.message : ConnectError → Message
  | .wsaStartup e => .wsaStartupFailed e
  | .getaddrinfo e => .getaddrinfoFailed e
  | .socket e => .socketFailed e
  | .connect host port => .connectFailed host port
  | .send e => .sendFailed e

def scanHttp (cb : Callback σ) (garbage : KeyValueInfo) (data : σ)
    (connection : Except ConnectError (List Read)) : Except Fault (Int × World σ) :=
  scan cb true garbage data (connection.mapError ConnectError.message)

def terminalStatus (r : Except Fault (Int × World σ)) : Option Status :=
  match r with
  | .ok (_, w) => w.calls.getLast?.map fun c => c.kvi.status
  | .error _ => none

theorem terminalStatus_scan {cb : Callback σ} {usingHttp : Bool} {data : σ} {reads : List Read} {code : Int}
    {w : World σ} (h : parseData cb usingHttp data reads = .ok (code, w)) (garbage : KeyValueInfo) :
    terminalStatus (scan cb usingHttp garbage data (.ok reads)) =
      some (if code = 0 then .complete else .error) := by
  simp only [scan, h, Except.map, reportEnd, World.invoke, terminalStatus, List.getLast?_concat, Option.map_some]

end BzccScanner
