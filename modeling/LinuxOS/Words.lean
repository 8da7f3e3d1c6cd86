import Mathlib.Algebra.Group.Nat.Defs
import Mathlib.Data.Nat.Basic
import LinuxOS.Links

namespace LinuxOS.Words
open Function (update)
variable {bytes other : Nat → UInt8} {a x v n : Nat}

-- Byte memory, and the little-endian word of `n` bytes that begins at an address.
def load (bytes : Nat → UInt8) (a : Nat) : Nat → Nat
  | 0 => 0
  | n+1 => (bytes a).toNat + 256 * load bytes (a+1) n

def store (bytes : Nat → UInt8) (a v : Nat) : Nat → Nat → UInt8
  | 0 => bytes
  | n+1 => update (store bytes (a+1) (v / 256) n) a (UInt8.ofNat v)

def pointer (value : Nat) : Option Nat := if value = 0 then none else some value

def link (bytes : Nat → UInt8) (a : Nat) : Option Nat := pointer (load bytes a 8)

theorem load_congr (same : ∀ x, a ≤ x → x < a + n → other x = bytes x) : load other a n = load bytes a n := by
  induction n generalizing a with
  | zero => rfl
  | succ n ih =>
    have first := same a (Nat.le_refl a) (by omega)
    have rest := ih (a := a+1) fun x low high => same x (by omega) (by omega)
    rw [load,load,first,rest]

theorem store_outside (outside : x < a ∨ a + n ≤ x) : store bytes a v n x = bytes x := by
  induction n generalizing a v with
  | zero => rfl
  | succ n ih =>
    rw [store,Function.update_of_ne (by omega)]
    exact ih (by omega)

theorem load_store (word : v < 256 ^ n) : load (store bytes a v n) a n = v := by
  induction n generalizing a v with
  | zero => rw [Nat.pow_zero] at word; rw [load]; omega
  | succ n ih =>
    have rest : load (store bytes a v (n+1)) (a+1) n = v / 256 := by
      rw [← ih (a := a+1) (v := v / 256) (Nat.div_lt_of_lt_mul (by rw [Nat.mul_comm,← Nat.pow_succ]; exact word))]
      refine load_congr fun x low _ => ?_
      rw [store,Function.update_of_ne (by omega)]
    have first : (store bytes a v (n+1) a).toNat = v % 256 := by
      rw [store,Function.update_self,UInt8.toNat_ofNat']
    rw [load,rest,first]
    exact Nat.mod_add_div v 256

theorem load_lt (bytes : Nat → UInt8) (a n : Nat) : load bytes a n < 256 ^ n := by
  induction n generalizing a with
  | zero => exact Nat.one_pos
  | succ n ih =>
    have byte := (bytes a).toNat_lt
    have rest := ih (a+1)
    rw [load,Nat.pow_succ]
    omega

theorem link_congr (same : ∀ x, a ≤ x → x < a + 8 → other x = bytes x) : link other a = link bytes a := by
  rw [link,link,load_congr same]

theorem link_store (word : v < 2^64) : link (store bytes a v 8) a = pointer v := by
  rw [link,load_store (by omega)]

theorem pointer_none : pointer v = none ↔ v = 0 := by
  unfold pointer
  split <;> simp_all

theorem pointer_some : pointer v = some x ↔ v = x ∧ v ≠ 0 := by
  unfold pointer
  split <;> simp_all

end LinuxOS.Words

namespace LinuxOS.Alignment
variable {w k x y size other align : Nat}

-- `x & ~(align - 1)` in a register of `w` bits.
def clearLow (w x align : Nat) : Nat := (BitVec.ofNat w x &&& ~~~BitVec.ofNat w (align - 1)).toNat

theorem clearLow_eq (small : x < 2^w) : clearLow w x (2^k) = x / 2^k * 2^k := by
  rw [← Nat.shiftRight_eq_div_pow,← Nat.shiftLeft_eq]
  apply Nat.eq_of_testBit_eq
  intro i
  rw [clearLow,BitVec.testBit_toNat,BitVec.getLsbD_and,BitVec.getLsbD_not,BitVec.getLsbD_ofNat,BitVec.getLsbD_ofNat,
    Nat.testBit_two_pow_sub_one,Nat.testBit_shiftLeft,Nat.testBit_shiftRight]
  by_cases inside : i < w
  · by_cases low : i < k
    · have below : ¬k ≤ i := Nat.not_le_of_lt low
      simp [low,below]
    · have high : k ≤ i := Nat.le_of_not_lt low
      simp [inside,low,high]
  · have zero : x.testBit i = false :=
      Nat.testBit_lt_two_pow (Nat.lt_of_lt_of_le small (Nat.pow_le_pow_right (by omega) (by omega)))
    by_cases high : k ≤ i
    · simp [inside,high,zero]
    · simp [inside,high]

theorem clearLow_mod (w x align : Nat) : clearLow w (x % 2^w) align = clearLow w x align := by
  have same : BitVec.ofNat w (x % 2^w) = BitVec.ofNat w x := by
    apply BitVec.eq_of_toNat_eq
    rw [BitVec.toNat_ofNat,BitVec.toNat_ofNat,Nat.mod_mod]
  rw [clearLow,clearLow,same]

def alignUp (size align : Nat) : Nat := (size + align - 1) / align * align

theorem le_alignUp (size : Nat) (positive : 0 < align) : size ≤ alignUp size align := by
  have split := Nat.div_add_mod (size + align - 1) align
  have small := Nat.mod_lt (size + align - 1) positive
  rw [alignUp,Nat.mul_comm]
  omega

theorem alignUp_lt (size : Nat) (positive : 0 < align) : alignUp size align < size + align := by
  have below := Nat.div_mul_le_self (size + align - 1) align
  rw [alignUp]
  omega

theorem dvd_alignUp (size align : Nat) : align ∣ alignUp size align := Nat.dvd_mul_left align _

end LinuxOS.Alignment
