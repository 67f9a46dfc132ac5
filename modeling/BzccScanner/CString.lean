import Mathlib.Algebra.Group.Nat.Defs
import Mathlib.Data.List.Basic
import Mathlib.Data.List.TakeWhile
import Mathlib.Tactic.Common

/-! Bytes and NUL-terminated strings as the C library reads them in the "C"
locale. Where a number does not fit, `atoi` is taken to clamp to the limits of
a 32-bit `int`. -/

namespace CString

abbrev Byte := UInt8

def isSpace (c : Byte) : Bool := c == 0x20 || (0x09 ≤ c && c ≤ 0x0d)

def isDigit (c : Byte) : Bool := 0x30 ≤ c && c ≤ 0x39

def isAlnum (c : Byte) : Bool :=
  isDigit c || (0x41 ≤ c && c ≤ 0x5a) || (0x61 ≤ c && c ≤ 0x7a)

def toLower (c : Byte) : Byte := if 0x41 ≤ c && c ≤ 0x5a then c + 0x20 else c

/-- The bytes in front of the first NUL, or the whole array without one. -/
def cstr (b : List Byte) : List Byte := b.takeWhile (fun c => c != 0)

/-- Copies up to the first NUL and fills the rest of the destination with
zeros. A source of `n` bytes or more leaves no terminator. -/
def strncpy (n : Nat) (src : List Byte) : Vector Byte n := Vector.ofFn fun i => (cstr src).getD i 0

/-- Whether `strcmpi` returns 0. -/
def strcmpi (a b : List Byte) : Bool := (cstr a).map toLower == (cstr b).map toLower

def digitsValue (ds : List Byte) : Nat := ds.foldl (fun n c => 10 * n + (c.toNat - 0x30)) 0

def intMax : Nat := 2 ^ 31 - 1

def atoi (src : List Byte) : Int :=
  match (cstr src).dropWhile isSpace with
  | [] => 0
  | c :: cs =>
    if c == 0x2d then -(min (digitsValue (cs.takeWhile isDigit)) (intMax + 1) : Nat)
    else if c == 0x2b then (min (digitsValue (cs.takeWhile isDigit)) intMax : Nat)
    else (min (digitsValue ((c :: cs).takeWhile isDigit)) intMax : Nat)

theorem cstr_eq_self {b : List Byte} (h : 0 ∉ b) : cstr b = b := by
  apply List.takeWhile_eq_self_iff.mpr
  intro c hc
  simpa using fun h0 : c = 0 => h (h0 ▸ hc)

theorem not_mem_cstr (b : List Byte) : 0 ∉ cstr b := by
  intro h
  have := List.mem_takeWhile_imp h
  simp at this

theorem cstr_cstr (b : List Byte) : cstr (cstr b) = cstr b := cstr_eq_self (not_mem_cstr b)

theorem cstr_append_replicate (b : List Byte) (k : Nat) : cstr (b ++ List.replicate k 0) = cstr b := by
  induction b with
  | nil => cases k <;> simp [cstr, List.replicate_succ]
  | cons c cs ih =>
    by_cases hc : c = 0
    · simp [cstr, hc]
    · simpa [cstr, hc] using ih

theorem cstr_append_zero {s : List Byte} (h : 0 ∉ s) (x : List Byte) : cstr (s ++ 0 :: x) = s := by
  induction s with
  | nil => rfl
  | cons c s ih =>
    simp only [List.mem_cons, not_or] at h
    simpa [cstr, Ne.symm h.1] using ih h.2

theorem strncpy_append_replicate (n : Nat) (b : List Byte) (k : Nat) :
    strncpy n (b ++ List.replicate k 0) = strncpy n b := by
  simp only [strncpy, cstr_append_replicate]

theorem strncpy_toList_take (n : Nat) (b : List Byte) :
    (strncpy n b).toList = (cstr b).take n ++ List.replicate (n - (cstr b).length) 0 := by
  apply List.ext_getElem
  · simp; omega
  · intro i h1 h2
    by_cases hi : i < (cstr b).length
    · have hn : i < n := by simpa using h1
      have htake : i < ((cstr b).take n).length := by
        rw [List.length_take]
        omega
      rw [List.getElem_append_left htake, List.getElem_take]
      simp [strncpy, hi]
    · have htake : ((cstr b).take n).length ≤ i := by
        rw [List.length_take]
        omega
      rw [List.getElem_append_right htake, List.getElem_replicate]
      simp [strncpy, hi]

theorem strncpy_toList {n : Nat} {b : List Byte} (h : (cstr b).length ≤ n) :
    (strncpy n b).toList = cstr b ++ List.replicate (n - (cstr b).length) 0 := by
  rw [strncpy_toList_take, List.take_of_length_le h]

theorem cstr_strncpy {n : Nat} {b : List Byte} (h : (cstr b).length ≤ n) :
    cstr (strncpy n b).toList = cstr b := by
  rw [strncpy_toList h, cstr_append_replicate, cstr_cstr]

theorem cstr_isPrefix (b : List Byte) : cstr b <+: b := List.takeWhile_prefix _

/-- Only a source that is shorter than the destination leaves a terminator there. -/
theorem zero_mem_strncpy {n : Nat} {b : List Byte} : 0 ∈ (strncpy n b).toList ↔ (cstr b).length < n := by
  have htake : 0 ∉ (cstr b).take n := fun h => not_mem_cstr b (List.mem_of_mem_take h)
  rw [strncpy_toList_take, List.mem_append, List.mem_replicate]
  simp only [htake, false_or, ne_eq, and_true]
  omega

theorem cstr_strncpy_isPrefix (n : Nat) (b : List Byte) : cstr (strncpy n b).toList <+: b := by
  have htake : 0 ∉ (cstr b).take n := fun h => not_mem_cstr b (List.mem_of_mem_take h)
  rw [strncpy_toList_take, cstr_append_replicate, cstr_eq_self htake]
  exact (List.take_prefix n _).trans (cstr_isPrefix b)

theorem isSpace_eq_false_of_isDigit {c : Byte} (h : isDigit c = true) : isSpace c = false := by
  simp only [isDigit, Bool.and_eq_true, decide_eq_true_eq, UInt8.le_iff_toNat_le] at h
  simp only [isSpace, Bool.or_eq_false_iff, Bool.and_eq_false_iff, decide_eq_false_iff_not,
    beq_eq_false_iff_ne, ne_eq, ← UInt8.toNat_inj, UInt8.le_iff_toNat_le]
  simp at h ⊢
  omega

theorem atoi_digits {ds : List Byte} (hne : ds ≠ []) (hd : ∀ c ∈ ds, isDigit c = true) :
    atoi ds = (min (digitsValue ds) intMax : Nat) := by
  have h0 : 0 ∉ ds := fun h => by simpa [isDigit] using hd 0 h
  cases ds with
  | nil => exact absurd rfl hne
  | cons c cs =>
    have hc := hd c (by simp)
    have hw : (c :: cs).takeWhile isDigit = c :: cs := List.takeWhile_eq_self_iff.mpr hd
    have hsign : c ≠ 0x2d ∧ c ≠ 0x2b := by
      constructor <;> rintro rfl <;> simp [isDigit] at hc
    rw [atoi, cstr_eq_self h0, List.dropWhile_cons_of_neg (by simp [isSpace_eq_false_of_isDigit hc])]
    simp only [beq_iff_eq, hsign.1, hsign.2, if_false, hw]

theorem ofInt_atoi_digits {ds : List Byte} (hd : ds.all isDigit = true) :
    UInt32.ofInt (atoi ds) = UInt32.ofNat (min (digitsValue ds) intMax) := by
  cases ds with
  | nil => rfl
  | cons c cs =>
    have hmod : (((min (digitsValue (c :: cs)) intMax : Nat) : Int) % 2 ^ 32).toNat =
        min (digitsValue (c :: cs)) intMax := by
      have hle := Nat.min_le_right (digitsValue (c :: cs)) intMax
      rw [intMax] at hle ⊢
      omega
    rw [atoi_digits (by simp) (List.all_eq_true.mp hd), UInt32.ofInt, hmod]

end CString
