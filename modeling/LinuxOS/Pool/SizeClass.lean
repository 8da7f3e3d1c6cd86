import LinuxOS.Words
import LinuxOS.Pages.Cache

namespace LinuxOS.Pool
open LinuxOS.Alignment Pages

def maxBytes : Nat := 256 * 1024
def nFreeList : Nat := 209
def pageShift : Nat := 13

-- Sizes are `int` and not negative here; an index is an `int` that can be -1.
namespace SizeClass
variable {size a b : Nat}

def _roundUp (size align_num : Nat) : Nat := clearLow 32 (size + align_num - 1) align_num

def _index (size align_shift : Nat) : Int := ((size + 2^align_shift - 1) >>> align_shift : Nat) - 1

def roundUp (size : Nat) : Nat :=
  if size ≤ 2^7 then _roundUp size (2^3)
  else if size ≤ 2^10 then _roundUp size (2^4)
  else if size ≤ 2^13 then _roundUp size (2^7)
  else if size ≤ 2^16 then _roundUp size (2^10)
  else if size ≤ 2^18 then _roundUp size (2^13)
  else 0

def index (size : Nat) : Int :=
  if size ≤ 2^7 then _index size 3
  else if size ≤ 2^10 then _index size 4 + 16
  else if size ≤ 2^13 then _index size 7 + 16 + 56
  else if size ≤ 2^16 then _index size 10 + 16 + 56 + 56
  else if size ≤ 2^18 then _index size 13 + 16 + 56 + 56 + 56
  else 0

-- `none` is the failed assertion, or the division by zero.
def numsFromCentralCache (size : Nat) : Option Nat :=
  if size < maxBytes ∧ size ≠ 0 then
    let ret := maxBytes / size
    some (if 512 < ret then 512 else if ret < 2 then 2 else ret)
  else none

def numsFronPageCache (size : Nat) : Option Nat := do
  let nums ← numsFromCentralCache size
  let bytes := size * nums
  some ((bytes + 2^pageShift - 1) >>> pageShift)

-- Sizes that are aligned to `2^k` bytes; `base` is what the groups below them take.
structure Regime (size k base : Nat) : Prop where
  rounds : roundUp size = alignUp size (2^k)
  places : index size = (alignUp size (2^k) / 2^k : Nat) - 1 + base

theorem _roundUp_eq {k : Nat} (small : size + 2^k - 1 < 2^32) : _roundUp size (2^k) = alignUp size (2^k) :=
  clearLow_eq small

theorem _index_eq {k : Nat} : _index size k = (alignUp size (2^k) / 2^k : Nat) - 1 := by
  rw [_index,Nat.shiftRight_eq_div_pow,alignUp,Nat.mul_div_cancel _ (Nat.two_pow_pos k)]

theorem regime_cases (top : size ≤ maxBytes) : (size ≤ 2^7 ∧ Regime size 3 0) ∨
    (2^7 < size ∧ size ≤ 2^10 ∧ Regime size 4 16) ∨ (2^10 < size ∧ size ≤ 2^13 ∧ Regime size 7 72) ∨
    (2^13 < size ∧ size ≤ 2^16 ∧ Regime size 10 128) ∨ (2^16 < size ∧ size ≤ 2^18 ∧ Regime size 13 184) := by
  rw [maxBytes] at top
  by_cases first : size ≤ 2^7
  · refine .inl ⟨first,?_,?_⟩
    · rw [SizeClass.roundUp,if_pos first,_roundUp_eq (by omega)]
    · rw [SizeClass.index,if_pos first,_index_eq]; omega
  · by_cases second : size ≤ 2^10
    · refine .inr (.inl ⟨by omega,second,?_,?_⟩)
      · rw [SizeClass.roundUp,if_neg first,if_pos second,_roundUp_eq (by omega)]
      · rw [SizeClass.index,if_neg first,if_pos second,_index_eq]; omega
    · by_cases third : size ≤ 2^13
      · refine .inr (.inr (.inl ⟨by omega,third,?_,?_⟩))
        · rw [SizeClass.roundUp,if_neg first,if_neg second,if_pos third,_roundUp_eq (by omega)]
        · rw [SizeClass.index,if_neg first,if_neg second,if_pos third,_index_eq]; omega
      · by_cases fourth : size ≤ 2^16
        · refine .inr (.inr (.inr (.inl ⟨by omega,fourth,?_,?_⟩)))
          · rw [SizeClass.roundUp,if_neg first,if_neg second,if_neg third,if_pos fourth,_roundUp_eq (by omega)]
          · rw [SizeClass.index,if_neg first,if_neg second,if_neg third,if_pos fourth,_index_eq]; omega
        · have fifth : size ≤ 2^18 := by omega
          refine .inr (.inr (.inr (.inr ⟨by omega,fifth,?_,?_⟩)))
          · rw [SizeClass.roundUp,if_neg first,if_neg second,if_neg third,if_neg fourth,if_pos fifth,
              _roundUp_eq (by omega)]
          · rw [SizeClass.index,if_neg first,if_neg second,if_neg third,if_neg fourth,if_pos fifth,_index_eq]; omega

theorem Regime.parts {k base : Nat} (regime : Regime size k base) : ∃ q : Nat, roundUp size = q * 2^k ∧
    index size = q - 1 + base ∧ size ≤ q * 2^k ∧ q * 2^k < size + 2^k := by
  obtain ⟨q,multiple⟩ := dvd_alignUp size (2^k)
  have positive : 0 < 2^k := Nat.two_pow_pos k
  have above := le_alignUp size positive
  have below := alignUp_lt size positive
  rw [multiple,Nat.mul_comm] at above below
  refine ⟨q,?_,?_,above,below⟩
  · rw [regime.rounds,multiple,Nat.mul_comm]
  · rw [regime.places,multiple,Nat.mul_div_cancel_left q positive]

theorem shape (top : size ≤ maxBytes) : ∃ q : Nat,
    (size ≤ 128 ∧ roundUp size = q * 8 ∧ index size = q - 1 ∧ size ≤ q * 8 ∧ q * 8 < size + 8) ∨
    (128 < size ∧ size ≤ 1024 ∧ roundUp size = q * 16 ∧ index size = q + 15 ∧ size ≤ q * 16 ∧ q * 16 < size + 16) ∨
    (1024 < size ∧ size ≤ 8192 ∧ roundUp size = q * 128 ∧ index size = q + 71 ∧ size ≤ q * 128 ∧
      q * 128 < size + 128) ∨
    (8192 < size ∧ size ≤ 65536 ∧ roundUp size = q * 1024 ∧ index size = q + 127 ∧ size ≤ q * 1024 ∧
      q * 1024 < size + 1024) ∨
    (65536 < size ∧ size ≤ 262144 ∧ roundUp size = q * 8192 ∧ index size = q + 183 ∧ size ≤ q * 8192 ∧
      q * 8192 < size + 8192) := by
  rcases regime_cases top with ⟨high,regime⟩ | ⟨low,high,regime⟩ | ⟨low,high,regime⟩ | ⟨low,high,regime⟩ |
    ⟨low,high,regime⟩
  · obtain ⟨q,rounded,position,above,below⟩ := regime.parts
    exact ⟨q,.inl (by omega)⟩
  · obtain ⟨q,rounded,position,above,below⟩ := regime.parts
    exact ⟨q,.inr (.inl (by omega))⟩
  · obtain ⟨q,rounded,position,above,below⟩ := regime.parts
    exact ⟨q,.inr (.inr (.inl (by omega)))⟩
  · obtain ⟨q,rounded,position,above,below⟩ := regime.parts
    exact ⟨q,.inr (.inr (.inr (.inl (by omega))))⟩
  · obtain ⟨q,rounded,position,above,below⟩ := regime.parts
    exact ⟨q,.inr (.inr (.inr (.inr (by omega))))⟩

theorem roundUp_le (top : size ≤ maxBytes) : roundUp size ≤ maxBytes := by
  obtain ⟨q,parts⟩ := shape top
  rw [maxBytes] at top ⊢
  omega

theorem le_roundUp (top : size ≤ maxBytes) : size ≤ roundUp size := by
  obtain ⟨q,parts⟩ := shape top
  omega

theorem roundUp_roundUp (top : size ≤ maxBytes) : roundUp (roundUp size) = roundUp size := by
  obtain ⟨q,parts⟩ := shape top
  obtain ⟨r,again⟩ := shape (roundUp_le top)
  omega

theorem roundUp_mono (top : b ≤ maxBytes) (order : a ≤ b) : roundUp a ≤ roundUp b := by
  obtain ⟨q,parts⟩ := shape (Nat.le_trans order top)
  obtain ⟨r,parts'⟩ := shape top
  omega

theorem index_eq_iff (top : a ≤ maxBytes) (top' : b ≤ maxBytes) : index a = index b ↔ roundUp a = roundUp b := by
  obtain ⟨q,parts⟩ := shape top
  obtain ⟨r,parts'⟩ := shape top'
  constructor
  · intro same; omega
  · intro same; omega

theorem index_nonneg (positive : 1 ≤ size) (top : size ≤ maxBytes) : 0 ≤ index size := by
  obtain ⟨q,parts⟩ := shape top
  omega

-- The five groups have 216 indices, the arrays have 209 places.
theorem index_lt_iff (positive : 1 ≤ size) (top : size ≤ maxBytes) : index size < nFreeList ↔ size ≤ 204800 := by
  obtain ⟨q,parts⟩ := shape top
  rw [nFreeList]
  omega

theorem numsFromCentralCache_spec (positive : 1 ≤ size) (below : size < maxBytes) : ∃ nums,
    numsFromCentralCache size = some nums ∧ 2 ≤ nums ∧ nums ≤ 512 ∧ (size * nums ≤ maxBytes ∨ nums = 2) := by
  rw [numsFromCentralCache,if_pos ⟨below,by omega⟩]
  refine ⟨_,rfl,?_⟩
  have share : size * (maxBytes / size) ≤ maxBytes := Nat.mul_div_le maxBytes size
  split
  case isTrue many =>
    refine ⟨by omega,Nat.le_refl _,.inl ?_⟩
    exact Nat.le_trans (Nat.mul_le_mul_left size (Nat.le_of_lt many)) share
  case isFalse few =>
    split
    case isTrue => exact ⟨Nat.le_refl _,by omega,.inr rfl⟩
    case isFalse enough => exact ⟨by omega,by omega,.inl share⟩

theorem numsFronPageCache_spec (positive : 1 ≤ size) (below : size ≤ 204800) : ∃ nums pages,
    numsFromCentralCache size = some nums ∧ numsFronPageCache size = some pages ∧ 2 ≤ nums ∧ 1 ≤ pages ∧
      pages ≤ nPageList - 1 ∧ size * nums ≤ pages * 2^pageShift := by
  obtain ⟨nums,given,two,_,fits⟩ := numsFromCentralCache_spec positive (by rw [maxBytes]; omega)
  have bytes : 1 ≤ size * nums := Nat.mul_pos positive (by omega)
  have most : size * nums ≤ 409600 := by
    rcases fits with share | rfl
    · rw [maxBytes] at share; omega
    · omega
  refine ⟨nums,_,given,by rw [numsFronPageCache,given]; rfl,two,?_⟩
  rw [Nat.shiftRight_eq_div_pow,pageShift,nPageList]
  omega

structure Fits (a b : Nat) : Prop where
  large : a ≤ roundUp a
  again : roundUp (roundUp a) = roundUp a
  mono : a ≤ b → roundUp a ≤ roundUp b
  bucket : index a = index b ↔ roundUp a = roundUp b
  inside : 0 ≤ index a ∧ index a < nFreeList
  pages : ∃ nums pages, numsFromCentralCache (roundUp a) = some nums ∧ numsFronPageCache (roundUp a) = some pages ∧
    1 ≤ pages ∧ pages ≤ nPageList - 1

theorem fits_iff (positive : 1 ≤ a) (top : a ≤ maxBytes) (top' : b ≤ maxBytes) : Fits a b ↔ a ≤ 204800 := by
  constructor
  · intro fits
    exact (index_lt_iff positive top).mp fits.inside.2
  · intro below
    have rounded : 1 ≤ roundUp a ∧ roundUp a ≤ 204800 := by
      obtain ⟨q,parts⟩ := shape top
      omega
    obtain ⟨nums,pages,given,asked,_,least,most,_⟩ := numsFronPageCache_spec rounded.1 rounded.2
    exact ⟨le_roundUp top,roundUp_roundUp top,roundUp_mono top',index_eq_iff top top',
      ⟨index_nonneg positive top,(index_lt_iff positive top).mpr below⟩,nums,pages,given,asked,least,most⟩

theorem fits_iff_borders : (Fits 204800 1 ↔ 204800 ≤ 204800) ∧ (Fits 204801 262144 ↔ 204801 ≤ 204800) :=
  ⟨fits_iff (by decide) (by decide) (by decide),fits_iff (by decide) (by decide) (by decide)⟩

-- One byte above 25 pages has the first index behind the arrays.
theorem large_request_outside : ¬∀ a b, 1 ≤ a → a ≤ maxBytes → 1 ≤ b → b ≤ maxBytes → Fits a b := by
  intro claimed
  have inside := (claimed 204801 1 (by decide) (by decide) (by decide) (by decide)).inside.2
  exact absurd inside (by decide)

end SizeClass
end LinuxOS.Pool
