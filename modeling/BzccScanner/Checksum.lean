import BzccScanner.SessionInfo
import BzccScanner.TableRegister

/-! `CalcCRC32A` tells strings apart that differ in a short burst. The table
belongs to a register that shifts the other way, yet the high octets of its
entries are a permutation, and the high octet is what stays longest here. -/

namespace BzccScanner

open CString

def highOctet (i : Nat) : Nat := (crc32Table.getD i 0).toNat >>> 24

/-- Undoes `highOctet`, which is linear, from where it takes the eight powers of two. -/
def indexOfOctet (b : Nat) : Nat :=
  [0x4c, 0xd4, 0x01, 0x4e, 0x9c, 0xdd, 0x5f, 0xf2].zipIdx.foldl
    (fun i p => if b.testBit p.2 then i ^^^ p.1 else i) 0

theorem crc32Table_octets :
    crc32Table.toList.map (fun e => indexOfOctet (e.toNat >>> 24)) = List.range 256 := by
  decide +kernel

theorem indexOfOctet_highOctet {i : Nat} (hi : i < 256) : indexOfOctet (highOctet i) = i := by
  have hget : (crc32Table.toList.map fun e => indexOfOctet (e.toNat >>> 24))[i]? = some i := by
    rw [crc32Table_octets, List.getElem?_range hi]
  rw [List.getElem?_map, Option.map_eq_some_iff] at hget
  obtain ⟨e, he, hinv⟩ := hget
  rw [highOctet, Array.getD_eq_getD_getElem?, ← Array.getElem?_toList, he]
  exact hinv

theorem highOctet_injective {i j : Nat} (hi : i < 256) (hj : j < 256) (h : highOctet i = highOctet j) :
    i = j := by
  have hij := congrArg indexOfOctet h
  rwa [indexOfOctet_highOctet hi, indexOfOctet_highOctet hj] at hij

def crcIndex (crc : UInt32) (c : Byte) : Nat := ((crc ^^^ widen c) &&& 0xff).toNat

theorem widen_toNat_mod (c : Byte) : (widen c).toNat % 256 = c.toNat := by
  unfold widen
  split
  · simp
  · simp [Nat.or_mod_two_pow (n := 8)]

theorem xor_right_cancel {a b c : Nat} (h : a ^^^ c = b ^^^ c) : a = b := by
  simpa [Nat.xor_assoc] using congrArg (· ^^^ c) h

theorem crcIndex_eq (crc : UInt32) (c : Byte) : crcIndex crc c = crc.toNat % 256 ^^^ c.toNat := by
  have hxor : ((crc ^^^ widen c) &&& 0xff).toNat = (crc.toNat ^^^ (widen c).toNat) &&& (2 ^ 8 - 1) := by simp
  rw [crcIndex, hxor, Nat.and_two_pow_sub_one_eq_mod, Nat.xor_mod_two_pow]
  exact congrArg (crc.toNat % 256 ^^^ ·) (widen_toNat_mod c)

theorem crcIndex_lt (crc : UInt32) (c : Byte) : crcIndex crc c < 256 := by
  rw [crcIndex_eq]
  exact Nat.xor_lt_two_pow (n := 8) (by omega) c.toNat_lt

theorem crcStep_toNat (crc : UInt32) (c : Byte) : (crcStep crc (widen c)).toNat =
    crc.toNat >>> 8 ^^^ (crc32Table.getD (crcIndex crc c) 0).toNat := by
  simp [crcStep, crcIndex]

/-- Four octets, the low one next to leave. -/
def crcAgree (j : Nat) (s t : UInt32) : Prop := s.toNat >>> (8 * j) = t.toNat >>> (8 * j)

theorem shiftRight_eq_of_le {a b i j : Nat} (hij : i ≤ j) (h : a >>> i = b >>> i) : a >>> j = b >>> j := by
  have hsum : j = i + (j - i) := by omega
  rw [hsum, Nat.shiftRight_add, Nat.shiftRight_add, h]

theorem crcIndex_eq_of_step {j : Nat} {s t : UInt32} {c d : Byte} (hj : j < 4)
    (h : crcAgree j (crcStep s (widen c)) (crcStep t (widen d))) : crcIndex s c = crcIndex t d := by
  have htop : ∀ (u : UInt32) (e : Byte), (crcStep u (widen e)).toNat >>> 24 = highOctet (crcIndex u e) := by
    intro u e
    have hout : u.toNat >>> 8 >>> 24 = 0 := by
      rw [← Nat.shiftRight_add]
      exact Nat.shiftRight_eq_zero _ _ u.toNat_lt
    rw [crcStep_toNat, Nat.shiftRight_xor_distrib, hout, Nat.zero_xor, highOctet]
  have h24 := shiftRight_eq_of_le (by omega : 8 * j ≤ 24) h
  simp only [htop] at h24
  exact highOctet_injective (crcIndex_lt s c) (crcIndex_lt t d) h24

theorem crcAgree_of_step {j : Nat} {s t : UInt32} {c d : Byte} (hj : j < 4)
    (h : crcAgree j (crcStep s (widen c)) (crcStep t (widen d))) : crcAgree (j + 1) s t := by
  have hi := crcIndex_eq_of_step hj h
  simp only [crcAgree, crcStep_toNat, Nat.shiftRight_xor_distrib, hi] at h
  have hrest := xor_right_cancel h
  rwa [← Nat.shiftRight_add, ← Nat.shiftRight_add, Nat.add_comm, ← Nat.mul_succ] at hrest

theorem crcState_eq_of_index {s t : UInt32} {c : Byte} (hi : crcIndex s c = crcIndex t c)
    (h : crcAgree 1 s t) : s = t := by
  rw [crcIndex_eq, crcIndex_eq] at hi
  have hlow := xor_right_cancel hi
  have hhigh : s.toNat / 256 = t.toNat / 256 := by simpa [crcAgree, Nat.shiftRight_eq_div_pow] using h
  apply UInt32.toNat_inj.mp
  rw [← Nat.div_add_mod s.toNat 256, ← Nat.div_add_mod t.toNat 256, hlow, hhigh]

theorem crcSymbol_eq_of_index {s : UInt32} {c d : Byte} (h : crcIndex s c = crcIndex s d) : c = d := by
  rw [crcIndex_eq, crcIndex_eq, Nat.xor_comm, Nat.xor_comm _ d.toNat] at h
  exact UInt8.toNat_inj.mp (xor_right_cancel h)

/-- `CalcCRC32A` between the two complements. -/
def crcRegister : TableRegister UInt32 Byte Nat where
  step crc c := crcStep crc (widen c)
  index := crcIndex
  width := 4
  Agree := crcAgree
  agree_zero s t := by simp [crcAgree, UInt32.toNat_inj]
  index_eq_of_step := crcIndex_eq_of_step
  agree_of_step := crcAgree_of_step
  symbol_eq_of_index := crcSymbol_eq_of_index
  state_eq_of_index := crcState_eq_of_index

theorem calcCRC32A_eq (str : List Byte) : calcCRC32A str = crcRegister.absorb 0xffffffff str ^^^ 0xffffffff := rfl

theorem eq_of_calcCRC32A_burst {u v w w' : List Byte} (hlen : w.length = w'.length) (hburst : w.length ≤ 4)
    (h : calcCRC32A (u ++ w ++ v) = calcCRC32A (u ++ w' ++ v)) : w = w' := by
  rw [calcCRC32A_eq, calcCRC32A_eq, UInt32.xor_left_inj] at h
  exact crcRegister.eq_of_absorb_burst hlen hburst h

/-- The strings stand in memory, with anything behind their terminators. -/
theorem unique_identifier_burst {u v w w' : List Byte} (hu : 0 ∉ u) (hv : 0 ∉ v) (hw : 0 ∉ w) (hw' : 0 ∉ w')
    (hlen : w.length = w'.length) (hburst : w.length ≤ 4) (hne : w ≠ w') :
    (∀ x y, calcCRC32A (cstr (u ++ w ++ v ++ 0 :: x)) ≠ calcCRC32A (cstr (u ++ w' ++ v ++ 0 :: y))) ∧
    ∀ (decode : Decoder) (k k' : KeyValueInfo), k.value = u ++ w ++ v → k'.value = u ++ w' ++ v →
      (∀ f f', playerCase decode k.value .userid = some f → playerCase decode k'.value .userid = some f' →
        ∀ p p', (f p).uniqueIdentifier ≠ (f' p').uniqueIdentifier) ∧
      (∀ f f', serverCase decode k.value .g = some f → serverCase decode k'.value .g = some f' →
        ∀ g g', (f g).uniqueIdentifier ≠ (f' g').uniqueIdentifier) := by
  have hsep : calcCRC32A (u ++ w ++ v) ≠ calcCRC32A (u ++ w' ++ v) :=
    fun h => hne (eq_of_calcCRC32A_burst hlen hburst h)
  refine ⟨fun x y => ?_, fun decode k k' hk hk' => ⟨?_, ?_⟩⟩
  · rw [cstr_append_zero (by simp [hu, hw, hv]), cstr_append_zero (by simp [hu, hw', hv])]
    exact hsep
  · intro f f' hf hf' p p'
    simp only [playerCase, Option.some.injEq, hk, hk'] at hf hf'
    subst hf hf'
    exact hsep
  · intro f f' hf hf' g g'
    simp only [serverCase, Option.some.injEq, hk, hk'] at hf hf'
    subst hf hf'
    exact hsep

theorem unique_identifier_burst_four :
    calcCRC32A (cstr ([0x53] ++ [0x31, 0x32, 0x33, 0x34] ++ [0x35] ++ [0])) ≠
      calcCRC32A (cstr ([0x53] ++ [0x34, 0x33, 0x32, 0x31] ++ [0x35] ++ [0])) :=
  (@unique_identifier_burst [0x53] [0x35] [0x31, 0x32, 0x33, 0x34] [0x34, 0x33, 0x32, 0x31]
    (by simp) (by simp) (by simp) (by simp) rfl (by simp) (by simp)).1 [] []

end BzccScanner
