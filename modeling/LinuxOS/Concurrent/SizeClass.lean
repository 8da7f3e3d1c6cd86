import LinuxOS.Words

namespace LinuxOS.Concurrent
open LinuxOS.Alignment

def maxBytes : Nat := 512 * 1024
def nFreeLists : Nat := 208
def pageShift : Nat := 13

-- Sizes and indices are `size_t` and wrap at 2^64.
namespace SizeClass
variable {size bytes : Nat}

def _roundUp (size align_size : Nat) : Nat := clearLow 64 (size + align_size - 1) align_size

def _index (bytes align_shift : Nat) : Nat :=
  (2^64 - 1 + (bytes + 2^align_shift - 1) % 2^64 / 2^align_shift) % 2^64

def roundUp (size : Nat) : Nat :=
  if size ≤ 128 then _roundUp size 8
  else if size ≤ 1024 then _roundUp size 16
  else if size ≤ 8 * 1024 then _roundUp size 128
  else if size ≤ 64 * 1024 then _roundUp size 1024
  else if size ≤ 256 * 1024 then _roundUp size (8 * 1024)
  else _roundUp size (2^pageShift)

-- `none` is a failed assertion.
def index (bytes : Nat) : Option Nat :=
  if maxBytes < bytes then none
  else if bytes ≤ 128 then some (_index bytes 3)
  else if bytes ≤ 1024 then some (_index (bytes - 128) 4 + 16)
  else if bytes ≤ 8 * 1024 then some (_index (bytes - 1024) 7 + 16 + 56)
  else if bytes ≤ 64 * 1024 then some (_index (bytes - 8 * 1024) 10 + 16 + 56 + 56)
  else if bytes ≤ 256 * 1024 then some (_index (bytes - 64 * 1024) 13 + 16 + 56 + 56 + 56)
  else none

def numMoveSize (size : Nat) : Option Nat :=
  if 0 < size then
    let nums := maxBytes / size
    some (if nums < 2 then 2 else if 512 < nums then 512 else nums)
  else none

def numMovePage (size : Nat) : Option Nat := do
  let nums ← numMoveSize size
  let bytes := nums * size % 2^64
  let npage := ((bytes + 2^pageShift - 1) % 2^64) >>> pageShift
  some (if npage = 0 then 1 else npage)

theorem _roundUp_eq {k : Nat} (small : size + 2^k - 1 < 2^64) : _roundUp size (2^k) = alignUp size (2^k) :=
  clearLow_eq small

theorem _roundUp_parts (size : Nat) {k : Nat} (small : size + 2^k - 1 < 2^64) : ∃ q, _roundUp size (2^k) = q * 2^k ∧
    size ≤ q * 2^k ∧ q * 2^k < size + 2^k := by
  have positive : 0 < 2^k := Nat.two_pow_pos k
  obtain ⟨q,multiple⟩ := dvd_alignUp size (2^k)
  have above := le_alignUp size positive
  have below := alignUp_lt size positive
  rw [multiple,Nat.mul_comm] at above below
  exact ⟨q,by rw [_roundUp_eq small,multiple,Nat.mul_comm],above,below⟩

theorem roundUp_shape (top : size ≤ 262144) : ∃ q : Nat,
    (size ≤ 128 ∧ roundUp size = q * 8 ∧ size ≤ q * 8 ∧ q * 8 < size + 8) ∨
    (128 < size ∧ size ≤ 1024 ∧ roundUp size = q * 16 ∧ size ≤ q * 16 ∧ q * 16 < size + 16) ∨
    (1024 < size ∧ size ≤ 8192 ∧ roundUp size = q * 128 ∧ size ≤ q * 128 ∧ q * 128 < size + 128) ∨
    (8192 < size ∧ size ≤ 65536 ∧ roundUp size = q * 1024 ∧ size ≤ q * 1024 ∧ q * 1024 < size + 1024) ∨
    (65536 < size ∧ roundUp size = q * 8192 ∧ size ≤ q * 8192 ∧ q * 8192 < size + 8192) := by
  by_cases first : size ≤ 128
  · obtain ⟨q,rounded,parts⟩ := _roundUp_parts size (k := 3) (by omega)
    have equal : roundUp size = q * 2^3 := by rw [roundUp,if_pos first]; exact rounded
    exact ⟨q,by omega⟩
  · by_cases second : size ≤ 1024
    · obtain ⟨q,rounded,parts⟩ := _roundUp_parts size (k := 4) (by omega)
      have equal : roundUp size = q * 2^4 := by rw [roundUp,if_neg first,if_pos second]; exact rounded
      exact ⟨q,by omega⟩
    · by_cases third : size ≤ 8 * 1024
      · obtain ⟨q,rounded,parts⟩ := _roundUp_parts size (k := 7) (by omega)
        have equal : roundUp size = q * 2^7 := by rw [roundUp,if_neg first,if_neg second,if_pos third]; exact rounded
        exact ⟨q,by omega⟩
      · by_cases fourth : size ≤ 64 * 1024
        · obtain ⟨q,rounded,parts⟩ := _roundUp_parts size (k := 10) (by omega)
          have equal : roundUp size = q * 2^10 := by
            rw [roundUp,if_neg first,if_neg second,if_neg third,if_pos fourth]; exact rounded
          exact ⟨q,by omega⟩
        · obtain ⟨q,rounded,parts⟩ := _roundUp_parts size (k := 13) (by omega)
          have equal : roundUp size = q * 2^13 := by
            rw [roundUp,if_neg first,if_neg second,if_neg third,if_neg fourth,if_pos (by omega)]; exact rounded
          exact ⟨q,by omega⟩
-- Group offsets and block counts agree, so `_index` of the m-th multiple is m-1.
theorem _index_multiple {k m : Nat} (positive : 1 ≤ m) (small : m * 2^k + 2^k ≤ 2^64) : _index (m * 2^k) k = m - 1 := by
  have unit : 0 < 2^k := Nat.two_pow_pos k
  have inside : m * 2^k + 2^k - 1 < 2^64 := by omega
  have low : m ≤ m * 2^k := Nat.le_mul_of_pos_right m unit
  have rest : m * 2^k + 2^k - 1 = 2^k - 1 + 2^k * m := by rw [Nat.mul_comm m]; omega
  have quotient : (m * 2^k + 2^k - 1) / 2^k = m := by
    rw [rest,Nat.add_mul_div_left _ _ unit,Nat.div_eq_of_lt (by omega),Nat.zero_add]
  rw [_index,Nat.mod_eq_of_lt inside,quotient]
  omega

theorem index_roundUp (positive : 1 ≤ size) (top : size ≤ 262144) : ∃ q i : Nat, index (roundUp size) = some i ∧
    ((size ≤ 128 ∧ roundUp size = q * 8 ∧ 1 ≤ q ∧ q ≤ 16 ∧ i = q - 1) ∨
    (128 < size ∧ roundUp size = q * 16 ∧ 9 ≤ q ∧ q ≤ 64 ∧ i = q - 8 - 1 + 16) ∨
    (1024 < size ∧ roundUp size = q * 128 ∧ 9 ≤ q ∧ q ≤ 64 ∧ i = q - 8 - 1 + 72) ∨
    (8192 < size ∧ roundUp size = q * 1024 ∧ 9 ≤ q ∧ q ≤ 64 ∧ i = q - 8 - 1 + 128) ∨
    (65536 < size ∧ roundUp size = q * 8192 ∧ 9 ≤ q ∧ q ≤ 32 ∧ i = q - 8 - 1 + 184)) := by
  obtain ⟨q,⟨high,rounded,parts⟩ | ⟨low,high,rounded,parts⟩ | ⟨low,high,rounded,parts⟩ | ⟨low,high,rounded,parts⟩ |
    ⟨low,rounded,parts⟩⟩ := roundUp_shape top
  · have place : _index (q * 8) 3 = q - 1 := _index_multiple (k := 3) (by omega) (by omega)
    refine ⟨q,q - 1,?_,.inl ⟨high,rounded,by omega,by omega,rfl⟩⟩
    rw [rounded,index,maxBytes,if_neg (by omega),if_pos (by omega),place]
  · have place : _index ((q - 8) * 2^4) 4 = q - 8 - 1 := _index_multiple (by omega) (by omega)
    have base : q * 16 - 128 = (q - 8) * 2^4 := by omega
    refine ⟨q,_,?_,.inr (.inl ⟨low,rounded,by omega,by omega,rfl⟩)⟩
    rw [rounded,index,maxBytes,if_neg (by omega),if_neg (by omega),if_pos (by omega),base,place]
  · have place : _index ((q - 8) * 2^7) 7 = q - 8 - 1 := _index_multiple (by omega) (by omega)
    have base : q * 128 - 1024 = (q - 8) * 2^7 := by omega
    refine ⟨q,_,?_,.inr (.inr (.inl ⟨low,rounded,by omega,by omega,rfl⟩))⟩
    rw [rounded,index,maxBytes,if_neg (by omega),if_neg (by omega),if_neg (by omega),if_pos (by omega),base,place]
  · have place : _index ((q - 8) * 2^10) 10 = q - 8 - 1 := _index_multiple (by omega) (by omega)
    have base : q * 1024 - 8 * 1024 = (q - 8) * 2^10 := by omega
    refine ⟨q,_,?_,.inr (.inr (.inr (.inl ⟨low,rounded,by omega,by omega,rfl⟩)))⟩
    rw [rounded,index,maxBytes,if_neg (by omega),if_neg (by omega),if_neg (by omega),if_neg (by omega),
      if_pos (by omega),base,place]
  · have place : _index ((q - 8) * 2^13) 13 = q - 8 - 1 := _index_multiple (by omega) (by omega)
    have base : q * 8192 - 64 * 1024 = (q - 8) * 2^13 := by omega
    refine ⟨q,_,?_,.inr (.inr (.inr (.inr ⟨low,rounded,by omega,by omega,rfl⟩)))⟩
    rw [rounded,index,maxBytes,if_neg (by omega),if_neg (by omega),if_neg (by omega),if_neg (by omega),
      if_neg (by omega),if_pos (by omega),base,place]

theorem index_inside (positive : 1 ≤ size) (top : size ≤ 262144) : ∃ i, index (roundUp size) = some i ∧ i < nFreeLists := by
  obtain ⟨q,i,found,parts⟩ := index_roundUp positive top
  refine ⟨i,found,?_⟩
  rw [nFreeLists]; omega

-- The last regime of RoundUp goes on where Index has `assert(false)`.
theorem index_large (large : 262144 < size) : index size = none := by
  rw [index,if_neg (show ¬size ≤ 128 by omega),if_neg (show ¬size ≤ 1024 by omega),if_neg (show ¬size ≤ 8 * 1024 by omega),
    if_neg (show ¬size ≤ 64 * 1024 by omega),if_neg (show ¬size ≤ 256 * 1024 by omega),ite_self]

theorem numMoveSize_spec (positive : 1 ≤ size) : ∃ nums, numMoveSize size = some nums ∧ 2 ≤ nums ∧ nums ≤ 512 := by
  rw [numMoveSize,if_pos (show 0 < size from positive)]
  refine ⟨_,rfl,?_⟩
  split
  case isTrue => omega
  case isFalse enough => split <;> omega

theorem numMovePage_spec (positive : 1 ≤ size) : ∃ pages, numMovePage size = some pages ∧ 1 ≤ pages := by
  obtain ⟨nums,given,_⟩ := numMoveSize_spec positive
  refine ⟨_,by rw [numMovePage,given]; rfl,?_⟩
  split
  case isTrue => exact Nat.le_refl 1
  case isFalse nonzero => exact Nat.pos_of_ne_zero nonzero

end SizeClass
end LinuxOS.Concurrent
