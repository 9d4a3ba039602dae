import Mathlib.Data.List.Basic
import RuleBase.Json.Printer
import RuleBase.Json.Reader

/-!
# Reading strings and numerals back

A string or an integer that is written is read back, whatever stands behind it. An integer of 64
bits is far from the end of the range of doubles, so no digit of it is dropped and it does not count
as out of range.

* `stringChars_renderChar`, **`quoted_renderString`**: strings, character by character;
* **`numeral_int`**: integers.
-/

namespace RuleBase.Json

/-! ## Strings -/

theorem hexValue?_hexDigit : ∀ n < 16, hexValue? (hexDigit n) = some n := by decide

theorem unicodeEscape_control {n : Nat} (h : n < 32) (rest : List Char) :
    unicodeEscape ('0' :: '0' :: hexDigit (n / 16) :: hexDigit (n % 16) :: rest) =
      .ok (Char.ofNat n, 4) := by
  have hzero : hexValue? '0' = some 0 := by decide
  have hunit : codeUnit ('0' :: '0' :: hexDigit (n / 16) :: hexDigit (n % 16) :: rest) = .ok n := by
    have hvalue : ((0 * 16 + 0) * 16 + n / 16) * 16 + n % 16 = n := by omega
    simp [codeUnit, hzero, hexValue?_hexDigit (n / 16) (by omega),
      hexValue?_hexDigit (n % 16) (by omega), Nat.div_add_mod']
  have hplane : n < 0xD800 ∨ 0xDFFF < n := .inl (by omega)
  rw [unicodeEscape, hunit]
  simp only [bind, Except.bind, if_pos hplane]
  rfl

/-- What is put in front of the characters that are read later. -/
def consChar (c : Char) (result : List Char × List Char) : List Char × List Char :=
  (c :: result.1, result.2)

theorem stringChars_plain {c : Char} (hquote : c ≠ '"') (hescape : c ≠ '\\') (h : 32 ≤ c.toNat)
    (rest : List Char) : stringChars (c :: rest) = (stringChars rest).map (consChar c) := by
  rw [stringChars, if_neg hquote, if_neg hescape, if_neg (Nat.not_lt.mpr h)]
  cases stringChars rest <;> rfl

theorem stringChars_escape {d : Char} (body : List Char)
    (h : ∀ rest, escape (body ++ rest) = .ok (d, body.length)) (rest : List Char) :
    stringChars ('\\' :: (body ++ rest)) = (stringChars rest).map (consChar d) := by
  rw [stringChars, if_neg (by decide), if_pos rfl, h rest]
  simp only [bind, Except.bind, List.drop_left]
  cases stringChars rest <;> rfl

/-- **A character that is written is read back.** -/
theorem stringChars_renderChar (c : Char) (rest : List Char) :
    stringChars (renderChar c ++ rest) = (stringChars rest).map (consChar c) := by
  rw [renderChar]
  split_ifs with hquote hescape hline hreturn htab hback hform hcontrol
  · subst hquote
    exact stringChars_escape ['"'] (fun _ => rfl) rest
  · subst hescape
    exact stringChars_escape ['\\'] (fun _ => rfl) rest
  · subst hline
    exact stringChars_escape ['n'] (fun _ => rfl) rest
  · subst hreturn
    exact stringChars_escape ['r'] (fun _ => rfl) rest
  · subst htab
    exact stringChars_escape ['t'] (fun _ => rfl) rest
  · rw [← Char.ofNat_toNat c, hback]
    exact stringChars_escape ['b'] (fun _ => rfl) rest
  · rw [← Char.ofNat_toNat c, hform]
    exact stringChars_escape ['f'] (fun _ => rfl) rest
  · refine stringChars_escape ['u', '0', '0', hexDigit (c.toNat / 16), hexDigit (c.toNat % 16)]
      (fun rest => ?_) rest
    have hunicode := unicodeEscape_control hcontrol rest
    rw [Char.ofNat_toNat] at hunicode
    have hescape : escape ('u' :: '0' :: '0' :: hexDigit (c.toNat / 16) ::
        hexDigit (c.toNat % 16) :: rest) =
        (unicodeEscape ('0' :: '0' :: hexDigit (c.toNat / 16) :: hexDigit (c.toNat % 16) ::
          rest)).map (Prod.map id (· + 1)) := rfl
    exact hescape.trans (by rw [hunicode]; rfl)
  · exact stringChars_plain hquote hescape (Nat.not_lt.mp hcontrol) rest

theorem stringChars_flatMap (chars rest : List Char) :
    stringChars (chars.flatMap renderChar ++ '"' :: rest) = .ok (chars, rest) := by
  induction chars with
  | nil => rw [List.flatMap_nil, List.nil_append, stringChars, if_pos rfl]
  | cons c chars ih =>
    rw [List.flatMap_cons, List.append_assoc, stringChars_renderChar, ih]
    rfl

/-- **A string that is written is read back.** -/
theorem quoted_renderString (s : String) (rest : List Char) :
    quoted (s.toList.flatMap renderChar ++ '"' :: rest) = .ok (s, rest) := by
  rw [quoted, stringChars_flatMap]
  simp only [bind, Except.bind, pure, Except.pure, String.ofList_toList]

/-! ## Numerals -/

/-- What stands behind a numeral does not belong to it. -/
def Delimited (rest : List Char) : Prop :=
  ∀ c, rest.head? = some c → c.isDigit = false ∧ c ≠ '.' ∧ c ≠ 'e' ∧ c ≠ 'E'

theorem delimited_nil : Delimited [] := by
  intro c hc
  cases hc

theorem delimited_cons {c : Char} (h : c = ',' ∨ c = ']' ∨ c = '}') (rest : List Char) :
    Delimited (c :: rest) := by
  intro d hd
  obtain rfl := Option.some.inj hd
  obtain rfl | rfl | rfl := h <;> decide

/-! ### Digits -/

theorem valueOf_toDigits (n : Nat) : Text.valueOf (Nat.toDigits 10 n) = n := by
  have hvalue := Nat.ofDigitChars_ten_toDigits (n := n)
  rwa [Nat.ofDigitChars_eq_foldl] at hvalue

theorem head?_toDigits (n : Nat) (h : (Nat.toDigits 10 n).head? = some '0') : n = 0 := by
  induction n using Nat.strongRecOn with
  | ind n ih =>
    by_cases hlt : n < 10
    · rw [Nat.toDigits_of_lt_base hlt] at h
      exact Nat.digitChar_eq_zero.mp (Option.some.inj h)
    · rw [Nat.toDigits_of_base_le (by decide) (Nat.not_lt.mp hlt),
        List.head?_append_of_ne_nil _ Nat.toDigits_ne_nil] at h
      have hzero := ih (n / 10) (by omega) h
      omega

theorem digits_toDigits (n : Nat) {rest : List Char} (h : Delimited rest) :
    digits (Nat.toDigits 10 n ++ rest) = Nat.toDigits 10 n := by
  have hdigits : ∀ c ∈ Nat.toDigits 10 n, c.isDigit = true := fun c hc =>
    Nat.isDigit_of_mem_toDigits (by decide) (by decide) hc
  rw [digits, List.takeWhile_append_of_pos hdigits]
  cases rest with
  | nil => simp
  | cons c rest => simp [(h c rfl).1]

theorem wholePart_toDigits (n : Nat) {rest : List Char} (h : Delimited rest) :
    wholePart (Nat.toDigits 10 n ++ rest) = .ok (Nat.toDigits 10 n) := by
  have hsome : someDigits (Nat.toDigits 10 n ++ rest) = .ok (Nat.toDigits 10 n) := by
    unfold someDigits
    rw [digits_toDigits n h]
    cases hdigits : Nat.toDigits 10 n with
    | nil => exact absurd hdigits Nat.toDigits_ne_nil
    | cons d ds => rfl
  have hlength : ¬((Nat.toDigits 10 n).head? = some '0' ∧ 1 < (Nat.toDigits 10 n).length) := by
    rintro ⟨hhead, hlong⟩
    obtain rfl := head?_toDigits n hhead
    simp at hlong
  rw [wholePart, hsome]
  simp only [bind, Except.bind, if_neg hlength]
  rfl

/-! ### Range -/

theorem le_foldl_digits (ds : List Char) (n : Nat) :
    n ≤ ds.foldl (fun n c => 10 * n + Text.digitValue c) n := by
  induction ds generalizing n with
  | nil => exact Nat.le_refl n
  | cons d ds ih =>
    rw [List.foldl_cons]
    have hle := ih (10 * n + Text.digitValue d)
    omega

theorem gather_of_lt (ds : List Char) (significand : Nat)
    (h : ds.foldl (fun n c => 10 * n + Text.digitValue c) significand < significandBound) :
    gather significand ds = (ds.foldl (fun n c => 10 * n + Text.digitValue c) significand, 0) := by
  induction ds generalizing significand with
  | nil => rfl
  | cons d ds ih =>
    rw [List.foldl_cons] at h ⊢
    have hlt : 10 * significand + Text.digitValue d < significandBound :=
      Nat.lt_of_le_of_lt (le_foldl_digits ds _) h
    rw [gather, if_pos hlt, ih _ h]

theorem nearestDouble_le {n : Nat} (hn : n ≠ 0) : nearestDouble n ≤ 2 * n := by
  have hunit : 2 ^ (n.log2 - 52) ≤ n :=
    Nat.le_trans (Nat.pow_le_pow_right (by decide) (Nat.sub_le _ _)) (Nat.log2_self_le hn)
  have hround : Text.roundHalfEven n (2 ^ (n.log2 - 52)) ≤ n / 2 ^ (n.log2 - 52) + 1 := by
    rw [Text.roundHalfEven]
    split <;> omega
  calc nearestDouble n
      = Text.roundHalfEven n (2 ^ (n.log2 - 52)) * 2 ^ (n.log2 - 52) := rfl
    _ ≤ (n / 2 ^ (n.log2 - 52) + 1) * 2 ^ (n.log2 - 52) := Nat.mul_le_mul_right _ hround
    _ = n / 2 ^ (n.log2 - 52) * 2 ^ (n.log2 - 52) + 2 ^ (n.log2 - 52) := by rw [Nat.succ_mul]
    _ ≤ n + n := Nat.add_le_add (Nat.div_mul_le_self _ _) hunit
    _ = 2 * n := (Nat.two_mul n).symm

theorem two_mul_significandBound_le : 2 * significandBound ≤ doubleBound := by decide +kernel

/-- No integer of 64 bits is out of the range of doubles. -/
theorem overflows_of_lt {n : Nat} (h : n < significandBound) : overflows n 0 = false := by
  by_cases hn : n = 0
  · rw [hn, overflows_zero]
  have hone : nearestDouble (Text.tenTo 0) = 1 := by decide
  have hle : nearestDouble n ≤ 2 * n := nearestDouble_le hn
  have hlt : ¬doubleBound ≤ nearestDouble n := by
    have hbound := two_mul_significandBound_le
    omega
  simp [overflows, hn, maxExponent, hone, hlt]

theorem outOfRange_toDigits {n : Nat} (h : n < significandBound) :
    outOfRange (Nat.toDigits 10 n) [] 0 = false := by
  have hgather : gather 0 (Nat.toDigits 10 n) = (n, 0) := by
    have hvalue := valueOf_toDigits n
    rw [Text.valueOf] at hvalue
    rw [gather_of_lt _ _ (by rwa [hvalue]), hvalue]
  simp only [outOfRange, hgather, gather]
  exact overflows_of_lt h

/-! ### Integers -/

theorem fractionPart_of_delimited {rest : List Char} (h : Delimited rest) :
    fractionPart rest = .ok ([], 0) := by
  cases rest with
  | nil => rfl
  | cons c rest =>
    have hpoint : c ≠ '.' := (h c rfl).2.1
    rw [fractionPart]
    · rfl
    · rintro _ ⟨⟩
      exact hpoint rfl

theorem exponentPart_of_delimited {rest : List Char} (h : Delimited rest) :
    exponentPart rest = .ok (0, 0) := by
  cases rest with
  | nil => rfl
  | cons c rest =>
    obtain ⟨-, -, hlower, hupper⟩ := h c rfl
    rw [exponentPart, if_pos ⟨hlower, hupper⟩]
    rfl

theorem numeral_toDigits {m : Nat} (hm : m < significandBound) {s rest : List Char}
    (h : Delimited rest)
    (hbody : (if s.head? = some '-' then s.drop 1 else s) = Nat.toDigits 10 m ++ rest)
    (hsign : s.head? = some '-' → m ≠ 0) :
    numeral s = .ok (.int (if s.head? = some '-' then -(m : Int) else m), rest) := by
  have hzero : ¬(s.head? = some '-' ∧ m = 0) := fun hboth => hsign hboth.1 hboth.2
  simp only [numeral, bind, Except.bind, hbody, wholePart_toDigits m h, List.drop_left,
    fractionPart_of_delimited h, List.drop_zero, exponentPart_of_delimited h,
    outOfRange_toDigits hm, valueOf_toDigits, Bool.false_eq_true, if_false, hzero]
  rfl

theorem toList_toString_ofNat (m : Nat) :
    (toString (Int.ofNat m)).toList = Nat.toDigits 10 m := by
  change (toString m).toList = Nat.toDigits 10 m
  rw [Nat.toString_eq_ofList_toDigits, String.toList_ofList]

theorem toList_toString_negSucc (m : Nat) :
    (toString (Int.negSucc m)).toList = '-' :: Nat.toDigits 10 (m + 1) := by
  change ("-" ++ toString (m + 1)).toList = _
  rw [Nat.toString_eq_ofList_toDigits, String.toList_append]
  exact congrArg ('-' :: ·) String.toList_ofList

theorem head_toString (n : Int) :
    ∃ c rest, (toString n).toList = c :: rest ∧ (c = '-' ∨ c.isDigit = true) := by
  cases n with
  | ofNat m =>
    rw [toList_toString_ofNat]
    cases htext : Nat.toDigits 10 m with
    | nil => exact absurd htext Nat.toDigits_ne_nil
    | cons c rest =>
      exact ⟨c, rest, rfl, .inr (Nat.isDigit_of_mem_toDigits (by decide) (by decide)
        (htext ▸ List.mem_cons_self))⟩
  | negSucc m => exact ⟨'-', _, toList_toString_negSucc m, .inl rfl⟩

/-- **An integer of 64 bits that is written is read back.** -/
theorem numeral_int {n : Int} (hn : n.natAbs < significandBound) {rest : List Char}
    (h : Delimited rest) : numeral ((toString n).toList ++ rest) = .ok (.int n, rest) := by
  cases n with
  | ofNat m =>
    have hhead : (Nat.toDigits 10 m ++ rest).head? ≠ some '-' := by
      rw [List.head?_append_of_ne_nil _ Nat.toDigits_ne_nil]
      intro hhead
      have hdigit := Nat.isDigit_of_mem_toDigits (by decide) (by decide)
        (List.mem_of_mem_head? hhead)
      exact absurd hdigit (by decide)
    rw [toList_toString_ofNat,
      numeral_toDigits hn h (if_neg hhead) fun hneg => absurd hneg hhead, if_neg hhead]
    rfl
  | negSucc m =>
    rw [toList_toString_negSucc, numeral_toDigits hn h rfl fun _ => Nat.succ_ne_zero m]
    rfl

end RuleBase.Json
