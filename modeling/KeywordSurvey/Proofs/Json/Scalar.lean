import KeywordSurvey.Json.Scalar
import KeywordSurvey.Json.Value

/-!
# Written numbers and strings

What is written for a number or a string is read back as just that, whatever
follows it (`string_quoted`), as long as it is nothing that a number could go on
with (`unsigned_decimal`).
-/

namespace KeywordSurvey.Json

variable {c : Char} {s front rest text : List Char} {n : Nat}

/-! ## Blanks -/

/-- A text of blanks. -/
def Blank (s : List Char) : Prop := ∀ c ∈ s, isBlank c = true

theorem skipBlanks_append (h : Blank front) : skipBlanks (front ++ s) = skipBlanks s :=
  List.dropWhile_append_of_pos h

theorem skipBlanks_of_blank (h : Blank s) : skipBlanks s = [] := by
  rw [← List.append_nil s, skipBlanks_append h]
  rfl

theorem skipBlanks_cons (hc : isBlank c = false) : skipBlanks (c :: s) = c :: s :=
  List.dropWhile_cons_of_neg (by simp [hc])

theorem Layout.blank_lineStart (layout : Layout) (level : Nat) :
    Blank (layout.lineStart level) := by
  cases layout with
  | compact => simp [Blank, lineStart]
  | indented =>
    intro c hc
    rcases List.mem_cons.mp hc with rfl | hc
    · rfl
    · rw [List.eq_of_mem_replicate hc]
      rfl

/-! ## Strings -/

theorem quoted_append : quoted text ++ rest = '"' :: (text.flatMap escapeChar ++ '"' :: rest) := by
  simp [quoted]

/-- The escape of a control character without a letter of its own. -/
theorem fourHex_twoHex {n : Nat} (h : n < 0x20) :
    fourHex ('0' :: '0' :: (twoHex n ++ s)) = .ok (n, s) := by
  have hdigits : ∀ n < 0x20, hexDigit? (Nat.digitChar (n / 16 % 16)) = some (n / 16) ∧
      hexDigit? (Nat.digitChar (n % 16)) = some (n % 16) := by decide
  have hzero : hexDigit? '0' = some 0 := by decide
  obtain ⟨hhigh, hlow⟩ := hdigits n h
  simp only [twoHex, List.cons_append, List.nil_append, fourHex, hzero, hhigh, hlow]
  rw [show ((0 * 16 + 0) * 16 + n / 16) * 16 + n % 16 = n by omega]

/-- One character is read back from what is written for it. -/
theorem stringFrom_escapeChar (fuel : Nat) (done : List Char) (c : Char) (s : List Char) :
    stringFrom (fuel + 1) done (escapeChar c ++ s) = stringFrom fuel (c :: done) s := by
  unfold escapeChar
  split
  · next h => rw [h]; rfl
  split
  · next h => rw [h]; rfl
  split
  · next h => rw [h]; rfl
  split
  · next h => rw [h]; rfl
  split
  · next h => rw [h]; rfl
  split
  · next h => rw [h]; rfl
  split
  · next h => rw [h]; rfl
  split
  · next hcontrol =>
    have hescape : escape ('u' :: '0' :: '0' :: (twoHex c.toNat ++ s)) = .ok (c, s) := by
      have hlow : isLowSurrogate c.toNat = false := by
        simp [isLowSurrogate]
        omega
      have hhigh : isHighSurrogate c.toNat = false := by
        simp [isHighSurrogate]
        omega
      simp [escape, fourHex_twoHex hcontrol, Bind.bind, Except.bind, hlow, hhigh]
    simp [stringFrom, hescape]
  · next hquote hbackslash _ _ _ _ _ hcontrol =>
    simp [stringFrom, hquote, hbackslash, hcontrol]

theorem stringFrom_quoted {text : List Char} :
    ∀ {fuel : Nat} {done : List Char}, text.length < fuel →
      stringFrom fuel done (text.flatMap escapeChar ++ '"' :: rest)
        = .ok (done.reverse ++ text, rest) := by
  induction text with
  | nil =>
    intro fuel done h
    cases fuel with
    | zero => cases h
    | succ fuel => simp [stringFrom]
  | cons c text ih =>
    intro fuel done h
    cases fuel with
    | zero => cases h
    | succ fuel =>
      rw [List.flatMap_cons, List.append_assoc, stringFrom_escapeChar,
        ih (Nat.lt_of_succ_lt_succ h)]
      simp

theorem length_escapeChar_pos (c : Char) : 0 < (escapeChar c).length := by
  unfold escapeChar
  repeat' split
  all_goals exact Nat.succ_pos _

theorem length_le_escaped (text : List Char) : text.length ≤ (text.flatMap escapeChar).length := by
  induction text with
  | nil => exact Nat.le_refl 0
  | cons c text ih =>
    have hpos := length_escapeChar_pos c
    rw [List.flatMap_cons, List.length_append, List.length_cons]
    omega

/-- **A string is read back.** -/
theorem string_quoted : string (text.flatMap escapeChar ++ '"' :: rest) = .ok (text, rest) := by
  refine stringFrom_quoted ?_
  have hlength := length_le_escaped text
  simp only [List.length_append, List.length_cons]
  omega

/-! ## Numbers -/

/-- Nothing that a number could go on with. -/
def Ends : List Char → Prop
  | [] => True
  | c :: _ => c.isDigit = false ∧ c ≠ '.' ∧ c ≠ 'e' ∧ c ≠ 'E'

theorem ends_nil : Ends [] := trivial

theorem ends_cons (h : c.isDigit = false ∧ c ≠ '.' ∧ c ≠ 'e' ∧ c ≠ 'E') : Ends (c :: s) := h

theorem afterWhole_of_ends (h : Ends rest) : afterWhole n 0 rest = .ok (.natural n, rest) := by
  unfold afterWhole
  split
  · exact absurd rfl h.2.1
  · exact absurd rfl h.2.2.1
  · exact absurd rfl h.2.2.2
  · exact if_pos rfl

/-- All digits are taken if the number that they stand for is small enough. -/
theorem absorb_eq {digits : List Char} :
    ∀ {n : Nat}, Nat.ofDigitChars 10 digits n < Count.limit →
      absorb n digits = (Nat.ofDigitChars 10 digits n, digits.length) := by
  induction digits with
  | nil => exact fun _ => rfl
  | cons c digits ih =>
    intro n h
    have hnext : n * 10 + digitValue c = 10 * n + (c.toNat - '0'.toNat) := by
      rw [Nat.mul_comm]
      rfl
    rw [Nat.ofDigitChars_cons, ← hnext] at h ⊢
    have hfits : n * 10 + digitValue c < Count.limit := by
      rw [Nat.ofDigitChars_eq_ofDigitChars_zero] at h
      have hgrows := Nat.le_mul_of_pos_left (n * 10 + digitValue c)
        (Nat.pow_pos (n := digits.length) (show 0 < 10 by decide))
      omega
    rw [absorb, if_pos hfits, ih h]
    rfl

/-- No number but zero is written with a zero in front. -/
theorem exists_decimal {n : Nat} (h : 0 < n) :
    ∃ c digits, Text.decimal n = c :: digits ∧ c ≠ '0' := by
  induction n using Nat.strongRecOn with
  | _ n ih =>
    by_cases hten : n < 10
    · refine ⟨Nat.digitChar n, [], Nat.toDigits_of_lt_base hten, ?_⟩
      rw [ne_eq, Nat.digitChar_eq_zero]
      omega
    · obtain ⟨c, digits, hdigits, hc⟩ := ih (n / 10) (by omega) (by omega)
      refine ⟨c, digits ++ [Nat.digitChar (n % 10)], ?_, hc⟩
      rw [Text.decimal, Nat.toDigits_of_base_le (by decide) (by omega)]
      exact congrArg (· ++ [Nat.digitChar (n % 10)]) hdigits

theorem takeWhile_isDigit_of_ends (h : Ends rest) : rest.takeWhile Char.isDigit = [] := by
  cases rest with
  | nil => rfl
  | cons c rest => exact List.takeWhile_cons_of_neg (by simp [h.1])

theorem dropWhile_isDigit_of_ends (h : Ends rest) : rest.dropWhile Char.isDigit = rest := by
  cases rest with
  | nil => rfl
  | cons c rest => exact List.dropWhile_cons_of_neg (by simp [h.1])

/-- **A number below 2^64 is read back.** -/
theorem unsigned_decimal (hn : n < Count.limit) (hrest : Ends rest) :
    unsigned (Text.decimal n ++ rest) = .ok (.natural n, rest) := by
  rcases Nat.eq_zero_or_pos n with rfl | hpos
  · cases rest with
    | nil => rfl
    | cons d rest =>
      show (if d.isDigit = true then _ else afterWhole 0 0 (d :: rest)) = _
      rw [if_neg (by simp [hrest.1]), afterWhole_of_ends hrest]
  · obtain ⟨c, digits, hdecimal, hc⟩ := exists_decimal hpos
    have hdigit : ∀ d ∈ c :: digits, d.isDigit = true := by
      rw [← hdecimal]
      exact fun d hd => Nat.isDigit_of_mem_toDigits (by decide) (by decide) hd
    have hdigits : ∀ d ∈ digits, d.isDigit = true := fun d hd =>
      hdigit d (List.mem_cons_of_mem c hd)
    have hvalue : Nat.ofDigitChars 10 digits (digitValue c) = n := by
      have htotal := Nat.ofDigitChars_ten_toDigits (n := n)
      rw [show Nat.toDigits 10 n = c :: digits from hdecimal, Nat.ofDigitChars_cons] at htotal
      simpa [digitValue] using htotal
    rw [hdecimal, List.cons_append]
    simp only [unsigned.eq_def, if_neg hc, if_pos (hdigit c List.mem_cons_self),
      List.takeWhile_append_of_pos hdigits, List.dropWhile_append_of_pos hdigits,
      takeWhile_isDigit_of_ends hrest, dropWhile_isDigit_of_ends hrest, List.append_nil]
    rw [absorb_eq (by rwa [hvalue]), hvalue, Nat.sub_self]
    exact afterWhole_of_ends hrest

end KeywordSurvey.Json
