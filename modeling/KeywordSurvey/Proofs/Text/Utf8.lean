import KeywordSurvey.Text.Utf8

/-!
# The bytes of a text read back

The decoder takes the bytes of a text for that text (`decodeLossy_encode`):
between two characters it is at rest, and the bytes of one character lead it
back there with just this character.
-/

namespace KeywordSurvey.Utf8

variable {n missing low high value : Nat} {done : List Char} {bytes : Bytes}

theorem toNat_toUInt8 (h : n < 256) : n.toUInt8.toNat = n := UInt8.toNat_ofNat_of_lt' h

/-! ## Bytes that start a character -/

theorem decodeFrom_one (h : n < 0x80) :
    decodeFrom .rest done (n.toUInt8 :: bytes) = decodeFrom .rest (Char.ofNat n :: done) bytes := by
  rw [decodeFrom, feed, start, toNat_toUInt8 (by omega), if_pos h]
  rfl

theorem decodeFrom_two (h : 0xC2 ≤ n) (h' : n < 0xE0) :
    decodeFrom .rest done (n.toUInt8 :: bytes)
      = decodeFrom (.owing 1 0x80 0xBF (n - 0xC0)) done bytes := by
  rw [decodeFrom, feed, start, toNat_toUInt8 (by omega), if_neg (by omega), if_neg (by omega),
    if_pos h']
  rfl

theorem decodeFrom_three (h : 0xE0 ≤ n) (h' : n < 0xF0) :
    decodeFrom .rest done (n.toUInt8 :: bytes)
      = decodeFrom (.owing 2 (if n = 0xE0 then 0xA0 else 0x80) (if n = 0xED then 0x9F else 0xBF)
          (n - 0xE0)) done bytes := by
  rw [decodeFrom, feed, start, toNat_toUInt8 (by omega), if_neg (by omega), if_neg (by omega),
    if_neg (by omega), if_pos h']
  rfl

theorem decodeFrom_four (h : 0xF0 ≤ n) (h' : n < 0xF5) :
    decodeFrom .rest done (n.toUInt8 :: bytes)
      = decodeFrom (.owing 3 (if n = 0xF0 then 0x90 else 0x80) (if n = 0xF4 then 0x8F else 0xBF)
          (n - 0xF0)) done bytes := by
  rw [decodeFrom, feed, start, toNat_toUInt8 (by omega), if_neg (by omega), if_neg (by omega),
    if_neg (by omega), if_neg (by omega), if_pos h']
  rfl

/-! ## Bytes that go on -/

/-- A byte that others follow. -/
theorem decodeFrom_next (hlow : low ≤ n) (hhigh : n ≤ high) (hbyte : n < 256) :
    decodeFrom (.owing (missing + 2) low high value) done (n.toUInt8 :: bytes)
      = decodeFrom (.owing (missing + 1) 0x80 0xBF (value * 64 + (n - 0x80))) done bytes := by
  rw [decodeFrom, feed, toNat_toUInt8 hbyte, if_pos ⟨hlow, hhigh⟩]
  rfl

/-- The last byte of a character. -/
theorem decodeFrom_last (hlow : low ≤ n) (hhigh : n ≤ high) (hbyte : n < 256) :
    decodeFrom (.owing 1 low high value) done (n.toUInt8 :: bytes)
      = decodeFrom .rest (Char.ofNat (value * 64 + (n - 0x80)) :: done) bytes := by
  rw [decodeFrom, feed, toNat_toUInt8 hbyte, if_pos ⟨hlow, hhigh⟩]
  rfl

/-! ## Characters and texts -/

/-- No character is half of a surrogate pair, or past the last code point. -/
theorem toNat_cases (c : Char) : c.toNat < 0xD800 ∨ 0xDFFF < c.toNat ∧ c.toNat < 0x110000 :=
  c.valid

/-- **The bytes of a character are taken for it.** -/
theorem decodeFrom_encodeChar (c : Char) (done : List Char) (bytes : Bytes) :
    decodeFrom .rest done (encodeChar c ++ bytes) = decodeFrom .rest (c :: done) bytes := by
  have hvalid := toNat_cases c
  suffices h : decodeFrom .rest done (encodeChar c ++ bytes)
      = decodeFrom .rest (Char.ofNat c.toNat :: done) bytes by rw [h, Char.ofNat_toNat]
  unfold encodeChar
  generalize c.toNat = n at hvalid
  dsimp only
  split
  · next hone => exact decodeFrom_one hone
  split
  · next hone htwo =>
    rw [List.cons_append, List.singleton_append, decodeFrom_two (by omega) (by omega),
      decodeFrom_last (by omega) (by omega) (by omega)]
    rw [show (0xC0 + n / 64 - 0xC0) * 64 + (0x80 + n % 64 - 0x80) = n by omega]
  split
  · next hone htwo hthree =>
    -- the second byte keeps out overlong forms and surrogates
    rw [List.cons_append, List.cons_append, List.singleton_append,
      decodeFrom_three (by omega) (by omega),
      decodeFrom_next (by split <;> omega) (by split <;> omega) (by omega),
      decodeFrom_last (by omega) (by omega) (by omega)]
    rw [show ((0xE0 + n / 4096 - 0xE0) * 64 + (0x80 + n / 64 % 64 - 0x80)) * 64
      + (0x80 + n % 64 - 0x80) = n by omega]
  · next hone htwo hthree =>
    rw [List.cons_append, List.cons_append, List.cons_append, List.singleton_append,
      decodeFrom_four (by omega) (by omega),
      decodeFrom_next (by split <;> omega) (by split <;> omega) (by omega),
      decodeFrom_next (by omega) (by omega) (by omega),
      decodeFrom_last (by omega) (by omega) (by omega)]
    rw [show (((0xF0 + n / 262144 - 0xF0) * 64 + (0x80 + n / 4096 % 64 - 0x80)) * 64
      + (0x80 + n / 64 % 64 - 0x80)) * 64 + (0x80 + n % 64 - 0x80) = n by omega]

theorem decodeLossy_encode (text : List Char) : decodeLossy (encode text) = text := by
  suffices h : ∀ done, decodeFrom .rest done (encode text) = done.reverse ++ text from h []
  induction text with
  | nil => simp [encode, decodeFrom]
  | cons c text ih =>
    intro done
    rw [encode, List.flatMap_cons, decodeFrom_encodeChar]
    exact (ih (c :: done)).trans (by simp)

end KeywordSurvey.Utf8
