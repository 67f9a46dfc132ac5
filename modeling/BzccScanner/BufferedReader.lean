import BzccScanner.ItemOrder
import BzccScanner.Scan

/-! The buffer between the system and `parse_data`. Each read fills its front and
leaves the rest as it was, and only the bytes that were received are parsed, so
that a scan depends on the stream alone. -/

namespace BzccScanner

open CString

/-- What a read puts into the buffer. -/
structure Chunk where
  data : List Byte
  length_le : data.length ≤ recvBuflen

/-- `BufferedReaderInfo`, without its handles. -/
structure BufferedReaderInfo where
  buffer : Vector Byte recvBuflen
  received : UInt32

/-- `SOCKET_ERROR` in a `DWORD`. -/
abbrev socketError : UInt32 := 0xffffffff

abbrev wsaETimedOut : Int := 10060

/-- What a read returns: the bytes it has written, or a failure with its code. -/
abbrev ReadResult := Except Int Chunk

/-- `WSAGetLastError` or `GetLastError`. -/
def ReadResult.lastError : ReadResult → Int
  | .ok _ => 0
  | .error e => e

namespace BufferedReaderInfo

def zero : BufferedReaderInfo := ⟨Vector.replicate _ 0, 0⟩

def fill (bri : BufferedReaderInfo) (c : Chunk) : BufferedReaderInfo where
  buffer := Vector.ofFn fun i => c.data.getD i (bri.buffer.get i)
  received := UInt32.ofNat c.data.length

def recv (bri : BufferedReaderInfo) : ReadResult → BufferedReaderInfo
  | .ok c => bri.fill c
  | .error _ => { bri with received := socketError }

/-- The reader behind the call, and the text of a failure. -/
def tcpToBri (bri : BufferedReaderInfo) (r : ReadResult) : BufferedReaderInfo × Option Message :=
  let bri := bri.recv r
  if bri.received = socketError then
    (bri, some (if r.lastError = wsaETimedOut then .recvTimedOut r.lastError else .recvFailed r.lastError))
  -- Never taken, since `received` is unsigned.
  else if bri.received < 0 then (bri, some .recvNegative)
  else (bri, none)

def readToBri (bri : BufferedReaderInfo) : ReadResult → BufferedReaderInfo × Option Message
  | .ok c => (bri.fill c, none)
  | .error e => (bri, some (.readFileFailed e.toNat))

def read (usingHttp : Bool) (bri : BufferedReaderInfo) (r : ReadResult) : BufferedReaderInfo × Option Message :=
  if usingHttp then bri.tcpToBri r else bri.readToBri r

/-- The bytes that the inner loop goes through. -/
def bytes (bri : BufferedReaderInfo) : List Byte := bri.buffer.toList.take bri.received.toNat

variable {bri : BufferedReaderInfo} {c : Chunk}

theorem fill_received (bri : BufferedReaderInfo) (c : Chunk) : (bri.fill c).received.toNat = c.data.length := by
  have hle := c.length_le
  exact UInt32.toNat_ofNat_of_lt' (lt_of_le_of_lt hle (by decide))

theorem fill_ne_socketError (bri : BufferedReaderInfo) (c : Chunk) : (bri.fill c).received ≠ socketError := by
  intro h
  have hlen := fill_received bri c
  rw [h] at hlen
  have hle := c.length_le
  rw [← hlen] at hle
  exact absurd hle (by decide)

theorem fill_bytes (bri : BufferedReaderInfo) (c : Chunk) : (bri.fill c).bytes = c.data := by
  have hle := c.length_le
  rw [bytes, fill_received]
  refine List.ext_getElem ?_ fun i hi hi' => ?_
  · simp only [List.length_take, Vector.length_toList]
    omega
  · simp only [List.getElem_take, Vector.getElem_toList, fill, Vector.getElem_ofFn, List.getD_eq_getElem?_getD,
      List.getElem?_eq_getElem hi', Option.getD_some]

end BufferedReaderInfo

/-- The failure as `parse_data` reports it. -/
def ReadResult.toRead (usingHttp : Bool) : ReadResult → Read
  | .ok c => .data c.data
  | .error e =>
    .failed (if usingHttp then if e = wsaETimedOut then .recvTimedOut e else .recvFailed e
      else .readFileFailed e.toNat)

theorem BufferedReaderInfo.read_eq (usingHttp : Bool) (bri : BufferedReaderInfo) (r : ReadResult) :
    match r.toRead usingHttp with
    | .data bytes => ∃ next, bri.read usingHttp r = (next, none) ∧ next.bytes = bytes ∧
        next.received.toNat = bytes.length
    | .failed m => (bri.read usingHttp r).2 = some m := by
  cases r with
  | ok c =>
    refine ⟨bri.fill c, ?_, bri.fill_bytes c, bri.fill_received c⟩
    cases usingHttp with
    | false => rfl
    | true =>
      have hnever : ¬ (bri.fill c).received < 0 := UInt32.not_lt.mpr (UInt32.le_iff_toNat_le.mpr (Nat.zero_le _))
      rw [read, if_pos rfl, tcpToBri, recv, if_neg (bri.fill_ne_socketError c), if_neg hnever]
  | error e => cases usingHttp <;> rfl

variable {σ : Type} {cb : Callback σ}

/-- The outer loop of `parse_data`, with the results of its reads. -/
def briLoop (cb : Callback σ) (usingHttp : Bool) (q : Parser × World σ) (bri : BufferedReaderInfo) :
    List ReadResult → Ending σ
  | [] => .eof q.1 q.2
  | r :: rs =>
    match bri.read usingHttp r with
    | (_, some m) => .exit (.ret 1 (q.2.setErr m))
    | (bri, none) =>
      if bri.received = 0 then .eof q.1 q.2
      else
        match bri.bytes.foldlM (readByte cb) q with
        | .ok q => briLoop cb usingHttp q bri rs
        | .error e => .exit e

/-- The buffer is refined by the reads alone. -/
theorem briLoop_eq (usingHttp : Bool) (q : Parser × World σ) (bri : BufferedReaderInfo) (rs : List ReadResult) :
    briLoop cb usingHttp q bri rs = readLoop cb q (rs.map (ReadResult.toRead usingHttp)) := by
  induction rs generalizing q bri with
  | nil => rfl
  | cons r rs ih =>
    have hread := bri.read_eq usingHttp r
    rw [briLoop, List.map_cons]
    cases hr : r.toRead usingHttp with
    | failed m =>
      rw [hr] at hread
      obtain ⟨next, hnext⟩ : ∃ next, bri.read usingHttp r = (next, some m) := ⟨_, Prod.ext rfl hread⟩
      rw [hnext]
      rfl
    | data bytes =>
      rw [hr] at hread
      obtain ⟨next, hnext, hbytes, hlen⟩ := hread
      rw [hnext]
      cases bytes with
      | nil =>
        have hzero : next.received = 0 := UInt32.toNat_inj.mp hlen
        exact if_pos hzero
      | cons b bs =>
        have hpos : next.received ≠ 0 := fun h => by simp [h] at hlen
        dsimp only
        rw [if_neg hpos, readLoop, hbytes]
        cases (b :: bs).foldlM (readByte cb) q with
        | error e => rfl
        | ok q => exact ih q next

def parseDataBri (cb : Callback σ) (usingHttp : Bool) (data : σ) (bri : BufferedReaderInfo)
    (rs : List ReadResult) :
    Except Fault (Int × World σ) :=
  (briLoop cb usingHttp (Parser.init usingHttp, World.init data) bri rs).result

/-- The bytes up to the end of the stream, and what it ends with. -/
def stream (usingHttp : Bool) (rs : List ReadResult) : List Byte × Option Message :=
  (received (rs.map (ReadResult.toRead usingHttp)), failure (rs.map (ReadResult.toRead usingHttp)))

/-- `ReadFile` until it reads nothing. -/
def fileReads (contents : List Byte) : List ReadResult :=
  if contents = [] then [.ok ⟨[], by decide⟩]
  else .ok ⟨contents.take recvBuflen, List.length_take_le _ _⟩ :: fileReads (contents.drop recvBuflen)
termination_by contents.length
decreasing_by
  have hpos := List.length_pos_of_ne_nil ‹_›
  rw [List.length_drop, recvBuflen]
  omega

theorem stream_fileReads (contents : List Byte) : stream false (fileReads contents) = (contents, none) := by
  induction contents using fileReads.induct with
  | case1 => rw [fileReads, if_pos rfl]; rfl
  | case2 contents hne ih =>
    obtain ⟨b, bs, rfl⟩ := List.exists_cons_of_ne_nil hne
    rw [fileReads, if_neg hne]
    have hrest := Prod.mk.inj ih
    refine Prod.ext ?_ hrest.2
    show (b :: bs).take recvBuflen ++ received _ = b :: bs
    rw [hrest.1, List.take_append_drop]

/-- A scan of an opened source, down to its buffer. -/
def scanBri (cb : Callback σ) (usingHttp : Bool) (data : σ) (bri : BufferedReaderInfo) (rs : List ReadResult) :
    Except Fault (Int × World σ) :=
  (parseDataBri cb usingHttp data bri rs).map fun r => reportEnd cb r.1 r.2

theorem scanBri_eq (cb : Callback σ) (usingHttp : Bool) (garbage : KeyValueInfo) (data : σ)
    (bri : BufferedReaderInfo) (rs : List ReadResult) :
    scanBri cb usingHttp data bri rs =
      scan cb usingHttp garbage data (.ok (rs.map (ReadResult.toRead usingHttp))) := by
  rw [scanBri, parseDataBri, briLoop_eq]
  rfl

/-- A scan makes the same calls and returns the same for every sequence of reads with one stream, whatever
is in the buffer, and a file is scanned like its contents in any division. -/
theorem scan_stream (cb : Callback σ) {usingHttp : Bool} (data : σ) {bri bri' : BufferedReaderInfo}
    {rs rs' : List ReadResult} (h : stream usingHttp rs = stream usingHttp rs') :
    scanBri cb usingHttp data bri rs = scanBri cb usingHttp data bri' rs' ∧
      ∀ (contents : List Byte) (d : Division contents) (garbage : KeyValueInfo),
        scanBri cb false data bri (fileReads contents) = scanFile cb garbage data (.ok d.reads) := by
  have hscan : ∀ {usingHttp} {reads reads' : List Read} (garbage : KeyValueInfo),
    received reads = received reads' →
      failure reads = failure reads' →
      scan cb usingHttp garbage data (.ok reads) = scan cb usingHttp garbage data (.ok reads') := by
    intro usingHttp reads reads' garbage hreceived hfailure
    rw [scan, scan, parseData_received, parseData_received, hreceived, hfailure]
  refine ⟨?_, fun contents d garbage => ?_⟩
  · rw [scanBri_eq cb usingHttp .zero, scanBri_eq cb usingHttp .zero]
    exact hscan _ (Prod.mk.inj h).1 (Prod.mk.inj h).2
  · obtain ⟨hreceived, hfailure⟩ := Prod.mk.inj (stream_fileReads contents)
    rw [scanBri_eq cb false garbage]
    exact hscan garbage (hreceived.trans (received_division d).symm) (hfailure.trans (failure_division d).symm)

/-- The time-out comes behind the same bytes. -/
theorem scan_stream_timedOut : scanBri accept true () .zero
      [.ok ⟨[0x48, 0x20], by decide⟩, .ok ⟨[0x32, 0x30], by decide⟩, .error wsaETimedOut] =
    scanBri accept true () .zero [.ok ⟨[0x48, 0x20, 0x32, 0x30], by decide⟩, .error wsaETimedOut] :=
  (scan_stream accept () (by decide)).1

end BzccScanner
