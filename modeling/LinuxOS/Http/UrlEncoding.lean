import LinuxOS.Http.Encoding

namespace LinuxOS.Http
open Util
variable {url rest : Bytes} {ch b : UInt8} {flag : Bool}

theorem hexDigit_value : ∀ n < 16, hexToDecimal (hexDigit n) = n := by decide

theorem hexDigit_alnum : ∀ n < 16, isalnum (hexDigit n) = true := by decide

theorem urlDecode_plain (ordinary : ch ≠ 37) : urlDecode flag (ch :: rest) = plain ch flag :: urlDecode flag rest := by
  rw [urlDecode]
  intro a b tail percent
  exact absurd percent ordinary

theorem urlDecode_escaped (high low : Nat) (highDigit : high < 16) (lowDigit : low < 16) :
    urlDecode flag (37 :: hexDigit high :: hexDigit low :: rest) =
      UInt8.ofNat (high * 16 + low) :: urlDecode flag rest := by
  rw [urlDecode,hexDigit_value high highDigit,hexDigit_value low lowDigit]
  simp

theorem unreserved_ordinary (kept : unreserved ch = true) : ch ≠ 37 ∧ ch ≠ 43 := by
  constructor
  · rintro rfl; exact absurd kept (by decide)
  · rintro rfl; exact absurd kept (by decide)

-- The decoder undoes what the encoder wrote for one byte, whatever follows it. A '+' stands for a
-- space only when the encoder was told to write it, so the decoder's flag may be the wider one.
theorem urlDecode_encodedChar (encoding decoding : Bool) (implies : encoding = true → decoding = true) (ch : UInt8)
    (rest : Bytes) : urlDecode decoding (encodeChar encoding ch ++ rest) = ch :: urlDecode decoding rest := by
  unfold encodeChar
  split
  · rename_i kept
    obtain ⟨noPercent,noPlus⟩ := unreserved_ordinary kept
    rw [List.singleton_append,urlDecode_plain noPercent,plain,if_neg (by simp [noPlus])]
  · split
    · rename_i space
      rw [List.singleton_append,urlDecode_plain (by decide),plain,if_pos ⟨rfl,implies space.2⟩,space.1]
    · have bound : ch.toNat < 256 := ch.toNat_lt
      have whole : ch.toNat / 16 * 16 + ch.toNat % 16 = ch.toNat := Nat.div_add_mod' ch.toNat 16
      rw [List.cons_append,List.cons_append,List.singleton_append,
        urlDecode_escaped _ _ (by omega) (Nat.mod_lt _ (by decide)),whole,UInt8.ofNat_toNat]

theorem urlDecode_encoded (encoding decoding : Bool) (implies : encoding = true → decoding = true) (url rest : Bytes) :
    urlDecode decoding (urlEncode encoding url ++ rest) = url ++ urlDecode decoding rest := by
  induction url with
  | nil => rfl
  | cons ch url ih =>
    have step : urlEncode encoding (ch :: url) = encodeChar encoding ch ++ urlEncode encoding url := List.flatMap_cons
    rw [step,List.append_assoc,urlDecode_encodedChar encoding decoding implies,ih]
    rfl

theorem urlDecode_urlEncode (flag : Bool) (url : Bytes) : urlDecode flag (urlEncode flag url) = url := by
  have whole := urlDecode_encoded flag flag (fun same => same) url []
  simpa [urlDecode] using whole

theorem encodeChar_bytes (written : b ∈ encodeChar flag ch) : unreserved b = true ∨ b = 43 ∨ b = 37 := by
  unfold encodeChar at written
  split at written
  · rename_i kept
    rw [List.mem_singleton.mp written]
    exact .inl kept
  · split at written
    · exact .inr (.inl (List.mem_singleton.mp written))
    · have digits : b = 37 ∨ b = hexDigit (ch.toNat / 16) ∨ b = hexDigit (ch.toNat % 16) := by simpa using written
      have bound : ch.toNat < 256 := ch.toNat_lt
      rcases digits with percent | rfl | rfl
      · exact .inr (.inr percent)
      · exact .inl (by simp [unreserved,hexDigit_alnum (ch.toNat / 16) (by omega)])
      · exact .inl (by simp [unreserved,hexDigit_alnum (ch.toNat % 16) (Nat.mod_lt _ (by decide))])

theorem urlEncode_absent (url : Bytes) (delimits : unreserved b = false ∧ b ≠ 43 ∧ b ≠ 37) : b ∉ urlEncode flag url := by
  intro written
  obtain ⟨ch,_,wrote⟩ := List.mem_flatMap.mp written
  rcases encodeChar_bytes wrote with kept | plus | percent
  · rw [delimits.1] at kept; cases kept
  · exact delimits.2.1 plus
  · exact delimits.2.2 percent

theorem encodeChar_nonempty (flag : Bool) (ch : UInt8) : encodeChar flag ch ≠ [] := by
  unfold encodeChar
  split
  · exact List.cons_ne_nil _ _
  · split <;> exact List.cons_ne_nil _ _

theorem urlEncode_nonempty (some_byte : url ≠ []) : urlEncode flag url ≠ [] := by
  cases url with
  | nil => exact absurd rfl some_byte
  | cons ch url =>
    intro empty
    exact encodeChar_nonempty flag ch (List.append_eq_nil_iff.mp empty).1

end LinuxOS.Http
