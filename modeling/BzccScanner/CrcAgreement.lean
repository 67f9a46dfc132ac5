import BzccScanner.Checksum
import BzccScanner.LinearRegister
import BzccScanner.Settings

/-! `CalcCRC32` beside CRC-32. The register shifts down, and the table holds
what a register that shifts up would need. Both steps are additive, so that
what the table does wrong adds up byte by byte. -/

namespace BzccScanner

open CString

def feedback (i : Nat) (polynomial x : UInt32) : UInt32 := if x.toNat.testBit i then polynomial else 0

/-- One bit of the division, the low one first: the polynomial is 0x04c11db7 with its bits in reverse. -/
def divideLow (x : UInt32) : UInt32 := (x >>> 1) ^^^ feedback 0 0xedb88320 x

example : (0x04c11db7#32).reverse = 0xedb88320#32 := by decide +kernel

def bitwiseTurn : UInt32 → UInt32 := divideLow^[8]

/-- CRC-32, bit by bit. -/
def standardCrc32 (s : List Byte) : UInt32 :=
  s.foldl (fun crc c => bitwiseTurn (crc ^^^ c.toUInt32)) 0xffffffff ^^^ 0xffffffff

/-- `123456789` has the check value of CRC-32. -/
example : standardCrc32 [0x31, 0x32, 0x33, 0x34, 0x35, 0x36, 0x37, 0x38, 0x39] = 0xcbf43926 := by decide +kernel

/-- One bit of the division, the top one first. -/
def divideTop (x : UInt32) : UInt32 := (x <<< 1) ^^^ feedback 31 0x04c11db7 x

/-- A step of `CalcCRC32` behind the exclusive or with the symbol. -/
def tableTurn (x : UInt32) : UInt32 := (x >>> 8) ^^^ crc32Table.getD x.toUInt8.toNat 0

/-- What `x` leaves in the register of `CalcCRC32`, and not in that of CRC-32, after `n` steps. -/
def turnError (n : Nat) (x : UInt32) : UInt32 := tableTurn^[n] x ^^^ bitwiseTurn^[n] x

def bytesError : List Byte → UInt32
  | [] => 0
  | c :: s => turnError (s.length + 1) c.toUInt32 ^^^ bytesError s

theorem crc32Table_entries :
    crc32Table.toList = (List.range 256).map fun i => divideTop^[8] (UInt32.ofNat i <<< 24) := by
  decide +kernel

/-- The table belongs to the other order of the bits. -/
theorem crc32Table_eq (c : Byte) : crc32Table.getD c.toNat 0 = divideTop^[8] (c.toUInt32 <<< 24) := by
  have hget : crc32Table[c.toNat]? = some (divideTop^[8] (UInt32.ofNat c.toNat <<< 24)) := by
    rw [← Array.getElem?_toList, crc32Table_entries, List.getElem?_map, List.getElem?_range c.toNat_lt]
    rfl
  have hoctet : UInt32.ofNat c.toNat = c.toUInt32 := by simp
  rw [Array.getD_eq_getD_getElem?, hget, Option.getD_some, hoctet]

theorem feedback_xor (i : Nat) (p x y : UInt32) : feedback i p (x ^^^ y) = feedback i p x ^^^ feedback i p y := by
  simp only [feedback, UInt32.toNat_xor, Nat.testBit_xor]
  cases x.toNat.testBit i <;> cases y.toNat.testBit i <;> simp

theorem xor_xor_xor_comm (a b c d : UInt32) : a ^^^ b ^^^ (c ^^^ d) = a ^^^ c ^^^ (b ^^^ d) := by
  ac_rfl

theorem divideLow_xor (x y : UInt32) : divideLow (x ^^^ y) = divideLow x ^^^ divideLow y := by
  rw [divideLow, UInt32.shiftRight_xor, feedback_xor, xor_xor_xor_comm]
  rfl

theorem divideTop_xor (x y : UInt32) : divideTop (x ^^^ y) = divideTop x ^^^ divideTop y := by
  rw [divideTop, UInt32.shiftLeft_xor, feedback_xor, xor_xor_xor_comm]
  rfl

theorem iterate_xor {f : UInt32 → UInt32} (hf : ∀ x y, f (x ^^^ y) = f x ^^^ f y) (n : Nat) (x y : UInt32) :
    f^[n] (x ^^^ y) = f^[n] x ^^^ f^[n] y := by
  induction n generalizing x y with
  | zero => rfl
  | succ n ih =>
    rw [Function.iterate_succ_apply, hf, ih, ← Function.iterate_succ_apply,
      ← Function.iterate_succ_apply]

theorem bitwiseTurn_xor (x y : UInt32) : bitwiseTurn (x ^^^ y) = bitwiseTurn x ^^^ bitwiseTurn y :=
  iterate_xor divideLow_xor 8 x y

theorem tableTurn_xor (x y : UInt32) : tableTurn (x ^^^ y) = tableTurn x ^^^ tableTurn y := by
  have hentry : ∀ c d : Byte, crc32Table.getD (c ^^^ d).toNat 0 =
      crc32Table.getD c.toNat 0 ^^^ crc32Table.getD d.toNat 0 := by
    intro c d
    rw [crc32Table_eq, crc32Table_eq, crc32Table_eq, UInt8.toUInt32_xor, UInt32.shiftLeft_xor,
      iterate_xor divideTop_xor]
  rw [tableTurn, UInt32.shiftRight_xor, UInt32.toUInt8_xor, hentry, xor_xor_xor_comm]
  rfl

theorem turnError_xor (n : Nat) (x y : UInt32) : turnError n (x ^^^ y) = turnError n x ^^^ turnError n y := by
  rw [turnError, iterate_xor tableTurn_xor, iterate_xor bitwiseTurn_xor, xor_xor_xor_comm]
  rfl

theorem toUInt32_shiftRight (c : Byte) : c.toUInt32 >>> 8 = 0 := by
  apply UInt32.toNat_inj.mp
  simp [Nat.shiftRight_eq_zero _ _ (show c.toNat < 2 ^ 8 from c.toNat_lt)]

/-- Only the low octet of the symbol enters. -/
theorem crcStep_eq (crc c : UInt32) : crcStep crc c = tableTurn (crc ^^^ c.toUInt8.toUInt32) := by
  have hindex : ((crc ^^^ c) &&& 0xff).toNat = (crc ^^^ c).toUInt8.toNat := by
    have hmask : ((crc ^^^ c) &&& 0xff).toNat = (crc ^^^ c).toNat &&& (2 ^ 8 - 1) := by simp
    rw [hmask, Nat.and_two_pow_sub_one_eq_mod, UInt32.toNat_toUInt8]
  rw [crcStep, tableTurn, UInt32.shiftRight_xor, toUInt32_shiftRight, UInt32.xor_zero, hindex, UInt32.toUInt8_xor,
    UInt32.toUInt8_xor]
  simp

/-- The states of both registers, added bit by bit. -/
def XorWord : Type := UInt32

namespace XorWord

instance : Add XorWord := ⟨UInt32.xor⟩

instance : Zero XorWord := ⟨(0 : UInt32)⟩

instance : Neg XorWord := ⟨id⟩

instance : AddCommGroup XorWord where
  add_assoc := UInt32.xor_assoc
  zero_add := @UInt32.zero_xor
  add_zero := @UInt32.xor_zero
  add_comm := UInt32.xor_comm
  neg_add_cancel := @UInt32.xor_self
  nsmul := nsmulRec
  zsmul := zsmulRec

end XorWord

def tableRegister : AddMonoid.End XorWord := AddMonoidHom.mk' tableTurn tableTurn_xor

def bitwiseRegister : AddMonoid.End XorWord := AddMonoidHom.mk' bitwiseTurn bitwiseTurn_xor

/-- A character enters the register. -/
def crcSymbol (c : Byte) : XorWord := c.toUInt32

def crcStart : XorWord := (0xffffffff : UInt32)

def crcFinish (x : XorWord) : UInt32 := UInt32.xor x 0xffffffff

theorem crcFinish_inj {x y : XorWord} : crcFinish x = crcFinish y ↔ x = y := UInt32.xor_left_inj 0xffffffff

theorem calcCRC32A_absorb (s : List Byte) :
    calcCRC32A s = crcFinish (LinearRegister.absorb tableRegister crcSymbol crcStart s) := by
  have hstep : ∀ (crc : UInt32) (c : Byte), crcStep crc (widen c) = tableTurn (crc ^^^ c.toUInt32) := by
    intro crc c
    have hlow : (widen c).toUInt8 = c := UInt8.toNat_inj.mp (widen_toNat_mod c)
    rw [crcStep_eq, hlow]
  simp only [calcCRC32A, hstep]
  rfl

theorem standardCrc32_absorb (s : List Byte) :
    standardCrc32 s = crcFinish (LinearRegister.absorb bitwiseRegister crcSymbol crcStart s) := rfl

/-- `CalcCRC32` reads the low octets of its characters as `CalcCRC32A` reads bytes. -/
theorem calcCRC32_eq (s : List TChar) : calcCRC32 s = calcCRC32A (s.map UInt16.toUInt8) := by
  have hstep : ∀ (crc : UInt32) (c : TChar), crcStep crc c.toUInt32 = crcStep crc (widen c.toUInt8) := by
    intro crc c
    have hlow : (widen c.toUInt8).toUInt8 = c.toUInt8 := UInt8.toNat_inj.mp (widen_toNat_mod c.toUInt8)
    rw [crcStep_eq, crcStep_eq, hlow, UInt16.toUInt8_toUInt32]
  simp only [calcCRC32, calcCRC32A, List.foldl_map, hstep]

theorem drift_eq (s : List Byte) :
    LinearRegister.drift tableRegister bitwiseRegister crcSymbol s = bytesError s := by
  induction s with
  | nil => rfl
  | cons c s ih =>
    rw [LinearRegister.drift, ih]
    rfl

/-- The strings with the right checksum solve 32 linear equations in their bits. -/
theorem calcCRC32A_eq_iff (s : List Byte) :
    calcCRC32A s = standardCrc32 s ↔ bytesError s = turnError s.length 0xffffffff := by
  rw [calcCRC32A_absorb, standardCrc32_absorb, crcFinish_inj, LinearRegister.absorb_eq_iff, drift_eq]
  have hsum : ∀ x y : UInt32, x ^^^ y = 0 ↔ y = x := fun x y => UInt32.xor_eq_zero_iff.trans eq_comm
  exact hsum _ _

section endings

def combine : List UInt32 → Nat → UInt32 → UInt32
  | [], _, _ => 0
  | p :: ps, i, x => feedback i p x ^^^ combine ps (i + 1) x

theorem combine_xor (ps : List UInt32) (i : Nat) (x y : UInt32) :
    combine ps i (x ^^^ y) = combine ps i x ^^^ combine ps i y := by
  induction ps generalizing i with
  | nil => exact UInt32.xor_self.symm
  | cons p ps ih =>
    rw [combine, feedback_xor, ih, xor_xor_xor_comm]
    rfl

theorem combine_map {f : UInt32 → UInt32} (hf : ∀ x y, f (x ^^^ y) = f x ^^^ f y) (ps : List UInt32) (i : Nat)
    (x : UInt32) :
    f (combine ps i x) = combine (ps.map f) i x := by
  have hzero : f 0 = 0 := by
    have h := hf 0 0
    rwa [UInt32.xor_self, UInt32.xor_self] at h
  induction ps generalizing i with
  | nil => exact hzero
  | cons p ps ih =>
    have hbit : f (feedback i p x) = feedback i (f p) x := by
      rw [feedback, feedback]
      split_ifs
      · rfl
      · exact hzero
    rw [combine, hf, ih, hbit, List.map_cons, combine]

/-- The upper three octets of an error show the last three bytes. -/
def lastBytes : UInt32 → UInt32 :=
  combine [0x894cbf, 0x924feb, 0x2d05fc, 0x380714, 0xf29464, 0x953596, 0x6943ce, 0x485b9e, 0x1b3654,
    0xa5ab8e, 0x916e2a, 0x83aec1, 0x9c008f, 0xe8eeda, 0xcad622, 0xee67e9, 0x3cd87c, 0xaa13e4, 0x3fb00e, 0xdd5f51,
    0x38a5e0, 0x834cdc, 0x342d0b, 0xd32214] 8

/-- The `k`-th byte from the end. -/
def readEnding (k : Nat) (x : UInt32) : Byte := (lastBytes x >>> UInt32.ofNat (8 * k)).toUInt8

theorem readEnding_xor (k : Nat) (x y : UInt32) : readEnding k (x ^^^ y) = readEnding k x ^^^ readEnding k y := by
  rw [readEnding, lastBytes, combine_xor, UInt32.shiftRight_xor, UInt32.toUInt8_xor]
  rfl

def octetBits : List UInt32 := [1, 2, 4, 8, 16, 32, 64, 128]

theorem combine_bits (c : Byte) : combine octetBits 0 c.toUInt32 = c.toUInt32 := by
  have hall : ∀ i < 256, combine octetBits 0 (UInt32.ofNat i) = UInt32.ofNat i := by decide +kernel
  simpa using hall c.toNat c.toNat_lt

theorem lastBytes_turnError {n : Nat} (hn : n < 3) (c : Byte) :
    lastBytes (turnError (n + 1) c.toUInt32) = c.toUInt32 <<< UInt32.ofNat (8 * n) := by
  have hbits : ∀ n < 3, octetBits.map (fun x => lastBytes (turnError (n + 1) x)) =
      octetBits.map (· <<< UInt32.ofNat (8 * n)) := by
    decide +kernel
  have herror : ∀ x y, lastBytes (turnError (n + 1) (x ^^^ y)) =
      lastBytes (turnError (n + 1) x) ^^^ lastBytes (turnError (n + 1) y) := by
    intro x y
    rw [turnError_xor, lastBytes, combine_xor]
  have hshift : ∀ x y : UInt32, (x ^^^ y) <<< UInt32.ofNat (8 * n) =
      x <<< UInt32.ofNat (8 * n) ^^^ y <<< UInt32.ofNat (8 * n) := fun _ _ => UInt32.shiftLeft_xor
  calc lastBytes (turnError (n + 1) c.toUInt32)
      = lastBytes (turnError (n + 1) (combine octetBits 0 c.toUInt32)) := by rw [combine_bits]
    _ = combine (octetBits.map fun x => lastBytes (turnError (n + 1) x)) 0 c.toUInt32 :=
        combine_map (f := fun x => lastBytes (turnError (n + 1) x)) herror octetBits 0 _
    _ = combine (octetBits.map (· <<< UInt32.ofNat (8 * n))) 0 c.toUInt32 := by rw [hbits n hn]
    _ = combine octetBits 0 c.toUInt32 <<< UInt32.ofNat (8 * n) := (combine_map hshift octetBits 0 _).symm
    _ = c.toUInt32 <<< UInt32.ofNat (8 * n) := by rw [combine_bits]

theorem readEnding_turnError {k n : Nat} (hk : k < 3) (hn : n < 3) (c : Byte) :
    readEnding k (turnError (n + 1) c.toUInt32) = if k = n then c else 0 := by
  have hall : ∀ k < 3, ∀ n < 3, ∀ i < 256,
      (UInt32.ofNat i <<< UInt32.ofNat (8 * n) >>> UInt32.ofNat (8 * k)).toUInt8 =
      if k = n then UInt8.ofNat i else 0 := by
    decide +kernel
  rw [readEnding, lastBytes_turnError hn]
  simpa using hall k hk n hn c.toNat c.toNat_lt

theorem readEnding_bytesError {k : Nat} {w : List Byte} (hk : k < 3) (hw : w.length ≤ 3) :
    readEnding k (bytesError w) = w.reverse.getD k 0 := by
  induction w with
  | nil =>
    have hzero : ∀ k < 3, readEnding k 0 = 0 := by decide +kernel
    exact hzero k hk
  | cons c w ih =>
    simp only [List.length_cons] at hw
    rw [bytesError, readEnding_xor, ih (by omega), readEnding_turnError hk (by omega), List.reverse_cons]
    rcases Nat.lt_trichotomy k w.length with hlt | rfl | hgt
    · simp [List.getElem?_append_left, hlt, Nat.ne_of_lt hlt]
    · simp
    · have hout : w.reverse.length ≤ k := by simpa using hgt.le
      have hout' : (w.reverse ++ [c]).length ≤ k := by simpa using Nat.succ_le_of_lt hgt
      rw [if_neg hgt.ne', UInt8.zero_xor, List.getD_eq_getElem?_getD, List.getD_eq_getElem?_getD,
        List.getElem?_eq_none hout, List.getElem?_eq_none hout']

theorem bytesError_injective {w w' : List Byte} (hlen : w.length = w'.length) (hw : w.length ≤ 3)
    (h : bytesError w = bytesError w') : w = w' := by
  have hread : ∀ k < 3, w.reverse.getD k 0 = w'.reverse.getD k 0 := by
    intro k hk
    rw [← readEnding_bytesError hk hw, ← readEnding_bytesError hk (hlen ▸ hw), h]
  apply List.reverse_injective
  apply List.ext_getElem (by simpa using hlen)
  intro k hk hk'
  have hk3 : k < 3 := by simp only [List.length_reverse] at hk; omega
  have h := hread k hk3
  rwa [List.getD_eq_getElem?_getD, List.getD_eq_getElem?_getD, List.getElem?_eq_getElem hk,
    List.getElem?_eq_getElem hk'] at h

/-- Behind any front one ending of up to three bytes gives the checksum of CRC-32 at most. -/
theorem rightEnding_unique {p w w' : List Byte} (hlen : w.length = w'.length) (hw : w.length ≤ 3)
    (h : calcCRC32A (p ++ w) = standardCrc32 (p ++ w)) (h' : calcCRC32A (p ++ w') = standardCrc32 (p ++ w')) :
    w = w' := by
  rw [calcCRC32A_absorb, standardCrc32_absorb, crcFinish_inj] at h h'
  refine LinearRegister.ending_unique hlen (fun hdrift => ?_) h h'
  rw [drift_eq, drift_eq] at hdrift
  exact bytesError_injective hlen hw hdrift

theorem calcCRC32A_ones {n : Nat} (hn : n ≤ 4) :
    calcCRC32A (List.replicate n 0xff) = standardCrc32 (List.replicate n 0xff) := by
  have hall : ∀ n ≤ 4, calcCRC32A (List.replicate n 0xff) = standardCrc32 (List.replicate n 0xff) := by
    decide +kernel
  exact hall n hn

/-- A string of up to three bytes has the right checksum only if each of its steps takes the first
entry of the table. -/
theorem rightChecksum_short {s : List Byte} (h : s.length ≤ 3) :
    calcCRC32A s = standardCrc32 s ↔ s = List.replicate s.length 0xff := by
  have hones := calcCRC32A_ones (Nat.le_succ_of_le h)
  constructor
  · intro hs
    exact rightEnding_unique (p := []) (by simp) h hs hones
  · intro hs
    rw [hs]
    exact hones

end endings

/-- Both functions compute CRC-32 for the string, whatever stands behind its terminator. -/
def ChecksStandard (s : List Byte) : Prop :=
  (∀ x, calcCRC32A (cstr (s ++ 0 :: x)) = standardCrc32 s) ∧
    ∀ y, calcCRC32 ((s.map UInt8.toUInt16 ++ 0 :: y).takeWhile (· != 0)) = standardCrc32 s

theorem checksStandard_iff {s : List Byte} (hs : 0 ∉ s) : ChecksStandard s ↔ calcCRC32A s = standardCrc32 s := by
  have hwide : 0 ∉ s.map UInt8.toUInt16 := by
    intro h
    obtain ⟨c, hc, h0⟩ := List.mem_map.mp h
    have hzero : c = 0 := by simpa using congrArg UInt16.toUInt8 h0
    exact hs (hzero ▸ hc)
  have hlow : (s.map UInt8.toUInt16).map UInt16.toUInt8 = s := by simp [Function.comp_def]
  simp only [ChecksStandard, cstr_append_zero hs, takeWhile_terminated hwide, calcCRC32_eq, hlow,
    forall_const, and_self]

section entries

/-- The entries of the table that `CalcCRC32A` takes on its way over the string. -/
def entriesTaken : UInt32 → List Byte → List Nat
  | _, [] => []
  | crc, c :: s => crcIndex crc c :: entriesTaken (crcStep crc (widen c)) s

theorem crc32Table_first : crc32Table.getD 0 0 = 0 := (crc32Table_eq 0).trans (by decide)

/-- The first entry is the only one that the step can use. -/
theorem crc32Table_right {i : Nat} (hi : i < 256) :
    crc32Table.getD i 0 = bitwiseTurn (UInt32.ofNat i) ↔ i = 0 := by
  constructor
  · intro h
    have hoctet : (UInt8.ofNat i).toNat = i := Nat.mod_eq_of_lt hi
    have hword : (UInt8.ofNat i).toUInt32 = UInt32.ofNat i := by
      rw [← UInt32.ofNat_uInt8ToNat, hoctet]
    have hout : UInt32.ofNat i >>> 8 = 0 := by
      rw [← hword]
      exact toUInt32_shiftRight (UInt8.ofNat i)
    have herror : turnError 1 (UInt8.ofNat i).toUInt32 = 0 := by
      rw [turnError, Function.iterate_one, Function.iterate_one, tableTurn, UInt8.toUInt8_toUInt32, hoctet,
        hword, h, hout, UInt32.zero_xor, UInt32.xor_self]
    have hread := readEnding_turnError (k := 0) (n := 0) (by decide) (by decide) (UInt8.ofNat i)
    rw [herror, if_pos rfl] at hread
    rw [← hoctet, ← hread]
    decide
  · rintro rfl
    rw [crc32Table_first]
    decide

def ones (n : Nat) : UInt32 := UInt32.ofNat (2 ^ (8 * n) - 1)

theorem crcIndex_eq_zero (crc : UInt32) (c : Byte) : crcIndex crc c = 0 ↔ crc.toNat % 256 = c.toNat := by
  rw [crcIndex_eq]
  constructor
  · intro h
    exact xor_right_cancel (h.trans (Nat.xor_self c.toNat).symm)
  · intro h
    rw [h, Nat.xor_self]

theorem crcIndex_ones {n : Nat} (hn : n < 4) (c : Byte) : crcIndex (ones (n + 1)) c = 0 ↔ c = 0xff := by
  have hlow : ∀ n < 4, (ones (n + 1)).toNat % 256 = (0xff : Byte).toNat := by decide
  rw [crcIndex_eq_zero, hlow n hn, UInt8.toNat_inj, eq_comm]

theorem crcIndex_zero (c : Byte) : crcIndex (ones 0) c = 0 ↔ c = 0 := by
  rw [crcIndex_eq_zero, show (ones 0).toNat % 256 = (0 : Byte).toNat from rfl, UInt8.toNat_inj, eq_comm]

theorem crcStep_ones {n : Nat} (hn : n < 4) : crcStep (ones (n + 1)) (widen 0xff) = ones n := by
  have hindex : crcIndex (ones (n + 1)) 0xff = 0 := (crcIndex_ones hn 0xff).mpr rfl
  have hshift : ∀ n < 4, ones (n + 1) >>> 8 = ones n := by decide
  have hstep : crcStep (ones (n + 1)) (widen 0xff) =
      ones (n + 1) >>> 8 ^^^ crc32Table.getD (crcIndex (ones (n + 1)) 0xff) 0 :=
    rfl
  rw [hstep, hindex, hshift n hn, crc32Table_first, UInt32.xor_zero]

/-- Each 0xff takes the first entry and shifts eight zeros in. Only a zero could take it behind four of them. -/
theorem entriesTaken_ones {n : Nat} (hn : n ≤ 4) {s : List Byte} (hs : 0 ∉ s) :
    (∀ i ∈ entriesTaken (ones n) s, i = 0) ↔ s.length ≤ n ∧ ∀ c ∈ s, c = 0xff := by
  induction n generalizing s with
  | zero =>
    cases s with
    | nil => simp [entriesTaken]
    | cons c s =>
      have hc : crcIndex (ones 0) c ≠ 0 := fun h => hs (List.mem_cons.mpr (.inl ((crcIndex_zero c).mp h).symm))
      simp [entriesTaken, hc]
  | succ n ih =>
    cases s with
    | nil => simp [entriesTaken]
    | cons c s =>
      rw [entriesTaken, List.forall_mem_cons, List.forall_mem_cons, crcIndex_ones (by omega)]
      have hrest := ih (by omega) fun h => hs (List.mem_cons_of_mem c h)
      have hstep := crcStep_ones (n := n) (by omega)
      constructor
      · rintro ⟨rfl, h⟩
        rw [hstep, hrest] at h
        exact ⟨Nat.succ_le_succ h.1, rfl, h.2⟩
      · rintro ⟨hlen, rfl, h⟩
        rw [hstep, hrest]
        exact ⟨rfl, Nat.le_of_succ_le_succ hlen, h⟩

theorem entriesTaken_lt (crc : UInt32) (s : List Byte) : ∀ i ∈ entriesTaken crc s, i < 256 := by
  induction s generalizing crc with
  | nil => simp [entriesTaken]
  | cons c s ih => exact List.forall_mem_cons.mpr ⟨crcIndex_lt crc c, ih _⟩

end entries

/-- Up to four bytes 0xff, and nothing else, take only entries of the table that are right. They have the
checksum of CRC-32, and no other string of up to three bytes has it. -/
theorem checksum_standard_ones {s : List Byte} (hs : 0 ∉ s) :
    (s.length ≤ 4 ∧ (∀ c ∈ s, c = 0xff) → ChecksStandard s) ∧
    (s.length ≤ 3 → ChecksStandard s → ∀ c ∈ s, c = 0xff) ∧
    ((∀ i ∈ entriesTaken 0xffffffff s, crc32Table.getD i 0 = bitwiseTurn (UInt32.ofNat i)) ↔
      s.length ≤ 4 ∧ ∀ c ∈ s, c = 0xff) := by
  refine ⟨?_, ?_, ?_⟩
  · rintro ⟨hlen, hall⟩
    rw [checksStandard_iff hs, List.eq_replicate_of_mem hall]
    exact calcCRC32A_ones hlen
  · intro hlen h
    exact (List.eq_replicate_iff.mp ((rightChecksum_short hlen).mp ((checksStandard_iff hs).mp h))).2
  · have hstart : ones 4 = 0xffffffff := by decide
    have htaken := entriesTaken_ones (Nat.le_refl 4) hs
    rw [hstart] at htaken
    rw [← htaken]
    exact forall₂_congr fun i hi => crc32Table_right (entriesTaken_lt 0xffffffff s i hi)

theorem checksum_standard_ones_four : ChecksStandard [0xff, 0xff, 0xff, 0xff] :=
  (checksum_standard_ones (by simp)).1 ⟨by simp, by simp⟩

/-- The check string of CRC-32. -/
theorem digits_not_standard :
    calcCRC32A (cstr [0x31, 0x32, 0x33, 0x34, 0x35, 0x36, 0x37, 0x38, 0x39, 0]) = 0x7ead5c77 ∧
      standardCrc32 [0x31, 0x32, 0x33, 0x34, 0x35, 0x36, 0x37, 0x38, 0x39] = 0xcbf43926 ∧
      calcCRC32A (cstr [0x31, 0x32, 0x33, 0x34, 0x35, 0x36, 0x37, 0x38, 0x39, 0]) ≠
        standardCrc32 [0x31, 0x32, 0x33, 0x34, 0x35, 0x36, 0x37, 0x38, 0x39] := by
  decide +kernel

end BzccScanner
