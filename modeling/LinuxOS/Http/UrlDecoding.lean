import LinuxOS.Http.UrlEncoding

namespace LinuxOS.Http
open Util
variable {url : Bytes} {plus_to_space : Bool}

namespace Util

-- The loop of UrlDecode with its index. Every url[i] is a checked read, so none means a read
-- outside the string (or rounds running out). The look-ahead is only taken under i + 2 < size.
def urlDecodeFrom (url : Bytes) (plus_to_space : Bool) : Nat → Nat → Bytes → Option Bytes
  | 0,_,_ => none
  | rounds+1,i,ret =>
    if i < url.length then do
      let ch ← url[i]?
      if ch = 37 ∧ i + 2 < url.length then
        let left := hexToDecimal (← url[i+1]?)
        let right := hexToDecimal (← url[i+2]?)
        if 0 ≤ left ∧ 0 ≤ right then
          urlDecodeFrom url plus_to_space rounds (i + 3) (ret ++ [UInt8.ofNat (left.toNat * 16 + right.toNat)])
        else urlDecodeFrom url plus_to_space rounds (i + 1) (ret ++ [plain ch plus_to_space])
      else urlDecodeFrom url plus_to_space rounds (i + 1) (ret ++ [plain ch plus_to_space])
    else some ret

-- The index grows in every round, so size + 1 rounds reach the end.
def urlDecodeLoop (url : Bytes) (plus_to_space : Bool) : Option Bytes :=
  urlDecodeFrom url plus_to_space (url.length + 1) 0 []

end Util

theorem plain_percent : plain 37 plus_to_space = 37 := by
  rw [plain,if_neg (by simp)]

theorem urlDecode_percent_short (short : url.length < 2) :
    urlDecode plus_to_space (37 :: url) = plain 37 plus_to_space :: urlDecode plus_to_space url := by
  rw [plain_percent]
  cases url with
  | nil => simp [urlDecode,plain_percent]
  | cons a url =>
    cases url with
    | nil =>
      rw [urlDecode]
      · rw [plain_percent]
      · intro b c tail _ two
        cases two
    | cons b url =>
      exact absurd short (by simp only [List.length_cons]; omega)

theorem urlDecode_escape (a b : UInt8) (rest : Bytes) (digits : 0 ≤ hexToDecimal a ∧ 0 ≤ hexToDecimal b) :
    urlDecode plus_to_space (37 :: a :: b :: rest) =
      UInt8.ofNat ((hexToDecimal a).toNat * 16 + (hexToDecimal b).toNat) :: urlDecode plus_to_space rest := by
  rw [urlDecode,if_pos digits]

theorem urlDecode_no_escape (a b : UInt8) (rest : Bytes) (bad : ¬ (0 ≤ hexToDecimal a ∧ 0 ≤ hexToDecimal b)) :
    urlDecode plus_to_space (37 :: a :: b :: rest) = plain 37 plus_to_space :: urlDecode plus_to_space (a :: b :: rest) := by
  rw [urlDecode,if_neg bad,plain_percent]

-- From index i on, the loop appends what the rest of the string decodes to. Every round's reads are
-- inside: the first by the loop's guard, the other two by the look-ahead's.
theorem urlDecodeFrom_rest (rounds i : Nat) (ret : Bytes) (within : i ≤ url.length)
    (enough : url.length < rounds + i) :
    urlDecodeFrom url plus_to_space rounds i ret = some (ret ++ urlDecode plus_to_space (url.drop i)) := by
  induction rounds generalizing i ret with
  | zero => omega
  | succ rounds ih =>
    rw [urlDecodeFrom]
    split
    · rename_i inside
      have current : url.drop i = url[i] :: url.drop (i + 1) := List.drop_eq_getElem_cons inside
      rw [List.getElem?_eq_getElem inside,Option.bind_eq_bind,Option.bind_some,current]
      split
      · rename_i escape
        obtain ⟨percent,ahead⟩ := escape
        have first : url.drop (i + 1) = url[i+1] :: url.drop (i + 2) := List.drop_eq_getElem_cons (by omega)
        have second : url.drop (i + 2) = url[i+2] :: url.drop (i + 3) := List.drop_eq_getElem_cons ahead
        rw [List.getElem?_eq_getElem ahead,List.getElem?_eq_getElem (by omega : i + 1 < url.length)]
        simp only [Option.bind_some]
        split
        · rename_i digits
          rw [ih (i + 3) _ (by omega) (by omega),first,second,percent,urlDecode_escape _ _ _ digits,List.append_assoc,
            List.singleton_append]
        · rename_i bad
          rw [ih (i + 1) _ (by omega) (by omega),List.append_assoc,List.singleton_append,percent,first,second,
            urlDecode_no_escape _ _ _ bad]
      · rename_i ordinary
        rw [ih (i + 1) _ (by omega) (by omega),List.append_assoc,List.singleton_append]
        congr 2
        by_cases percent : url[i] = 37
        · have short : (url.drop (i + 1)).length < 2 := by
            have past : ¬ i + 2 < url.length := fun more => ordinary ⟨percent,more⟩
            rw [List.length_drop]
            omega
          rw [percent,urlDecode_percent_short short]
        · rw [urlDecode_plain percent]
    · rename_i past
      rw [List.drop_eq_nil_of_le (by omega),urlDecode,List.append_nil]

theorem urlDecodeLoop_total (url : Bytes) (plus_to_space : Bool) :
    urlDecodeLoop url plus_to_space = some (urlDecode plus_to_space url) := by
  rw [urlDecodeLoop,urlDecodeFrom_rest _ 0 [] (Nat.zero_le _) (by omega),List.nil_append,List.drop_zero]

theorem urlDecode_length (url : Bytes) : (urlDecode plus_to_space url).length ≤ url.length := by
  induction url using urlDecode.induct with
  | case1 a b rest left right digits ih =>
    rw [urlDecode_escape a b rest digits]
    simp only [List.length_cons]
    omega
  | case2 a b rest left right bad ih =>
    rw [urlDecode_no_escape a b rest bad]
    simp only [List.length_cons] at ih ⊢
    omega
  | case3 ch rest other ih =>
    rw [urlDecode]
    · simpa using ih
    · exact other
  | case4 => exact Nat.le_refl 0

theorem url_coding_round_trip (url : Bytes) (encoding decoding : Bool) (implies : encoding = true → decoding = true) :
    urlDecodeLoop (urlEncode encoding url) decoding = some url ∧
      ∀ (malformed : Bytes) (plus_to_space : Bool), ∃ ret,
        urlDecodeLoop malformed plus_to_space = some ret ∧ ret.length ≤ malformed.length := by
  constructor
  · have undone := urlDecode_encoded encoding decoding implies url []
    rw [List.append_nil,urlDecode,List.append_nil] at undone
    rw [urlDecodeLoop_total,undone]
  · intro malformed plus_to_space
    exact ⟨_,urlDecodeLoop_total malformed plus_to_space,urlDecode_length malformed⟩

theorem url_coding_round_trip_mixed_flags :
    urlDecodeLoop (urlEncode false [32,43,37,0,255,97]) true = some [32,43,37,0,255,97] ∧
      ∀ (malformed : Bytes) (plus_to_space : Bool), ∃ ret,
        urlDecodeLoop malformed plus_to_space = some ret ∧ ret.length ≤ malformed.length :=
  url_coding_round_trip [32,43,37,0,255,97] false true (fun _ => rfl)

example : urlDecodeLoop [97,37,50] false = some [97,37,50] := by decide

end LinuxOS.Http
