import KeywordSurvey.Proofs.Lexer.Cut
import KeywordSurvey.Proofs.Report.Fits

/-!
# How many keywords a text can hold

The keywords that are counted in a text hardly overlap, so their lengths add up
to the length of the text at most, but for the letter that a `public` may lend
to a `catch`. Each keyword gets a part of its own (`Share`) that no other one
takes from, once at the expense of `public` and once at that of `catch`. There
are texts with no byte to spare, whatever they are to hold (`density_sharp`).
So a count in 64 bits is always large enough for a text.
-/

namespace KeywordSurvey

/-- The sum of a tally in which an occurrence of each keyword weighs so much. -/
def PerKeyword.weight (w : Keyword → Nat) (p : PerKeyword Nat) : Nat :=
  (Keyword.all.map fun k => w k * p.get k).sum

theorem PerKeyword.weight_zero (w : Keyword → Nat) : weight w 0 = 0 := by
  simp [weight]

theorem PerKeyword.weight_record (w : Keyword → Nat) (p : PerKeyword Nat) (k : Keyword) :
    (p.record k).weight w = p.weight w + w k := by
  cases k <;> simp [weight, Keyword.all, get_record, Nat.mul_add] <;> omega

namespace Lexer

/-! ## Room for keywords -/

/-- A part of each keyword, from its byte `first` up to its byte `past`. Where a
`catch` starts with the last letter of a `public`, only one of them keeps it. -/
structure Share where
  first : Keyword → Nat
  past : Keyword → Nat
  first_lt : ∀ k, first k < past k
  past_le : ∀ k, past k ≤ k.bytes.length
  lent : past .publicWord ≤ 5 + first .catchWord

namespace Share

/-- How much of a keyword is its share. -/
def size (share : Share) (k : Keyword) : Nat := share.past k - share.first k

/-- No two keywords in a text have a byte of their shares in common. -/
theorem past_le_of_starts (share : Share) {j k : Keyword} {text : Bytes} {d : Nat}
    (hj : j.bytes <+: text) (hk : k.bytes <+: text.drop d) (hd : 0 < d) :
    share.past j ≤ d + share.first k := by
  by_cases hlt : d < j.bytes.length
  · obtain ⟨rfl, rfl, rfl⟩ := Keyword.eq_of_overlap hj hk hd hlt
    exact share.lent
  · have hle := share.past_le j
    omega

/-- The shares of what is counted fit behind the first `taken` bytes, if those
are in no share. -/
theorem add_weight_le (share : Share) (text : Bytes) : ∀ (s : State) (taken : Nat),
    taken ≤ text.length →
    (∀ d k, k.bytes <+: text.drop d → taken ≤ d + share.first k) →
    taken + (scanFrom s 0 text).weight share.size ≤ text.length := by
  induction text with
  | nil =>
    intro s taken htaken _
    rw [scanFrom, PerKeyword.weight_zero]
    exact htaken
  | cons b rest ih =>
    intro s taken htaken hfree
    rw [List.length_cons] at htaken ⊢
    rcases counted_or_not s (b :: rest) with ⟨hcode, k, hk⟩ | hnone
    · have hfirst : taken ≤ 0 + share.first k := hfree 0 k hk
      have hlt := share.first_lt k
      have hpast : share.past k ≤ rest.length + 1 := (share.past_le k).trans hk.length_le
      -- the bytes up to the end of the share are taken now
      have hrest := ih (s.next b) (share.past k - 1) (by omega) fun d j hj => by
        have hle := share.past_le_of_starts (d := d + 1) hk hj (Nat.succ_pos d)
        omega
      rw [scanFrom_cons_of_starts hcode hk, PerKeyword.weight_record, size]
      omega
    · have hrest := ih (s.next b) (taken - 1) (by omega) fun d k hk => by
        have hle := hfree (d + 1) k hk
        omega
      rw [scanFrom_cons_of_not_starts hnone]
      omega

/-- What is counted in a text has room for its shares. -/
theorem weight_scan_le (share : Share) (text : Bytes) :
    (scan text).weight share.size ≤ text.length := by
  have hle := share.add_weight_le text .code 0 (Nat.zero_le _) fun _ _ _ => Nat.zero_le _
  rwa [Nat.zero_add] at hle

/-- All of each keyword, but for the last letter of `public`. -/
def withoutLast : Share where
  first _ := 0
  past k := if k = .publicWord then 5 else k.bytes.length
  first_lt k := by cases k <;> decide
  past_le k := by cases k <;> decide
  lent := by decide

/-- All of each keyword, but for the first letter of `catch`. -/
def withoutFirst : Share where
  first k := if k = .catchWord then 1 else 0
  past k := k.bytes.length
  first_lt k := by cases k <;> decide
  past_le k := by cases k <;> decide
  lent := by decide

end Share

/-- The keywords of a text take no more room than there is, if each `catch` has
its first letter from a `public` where there is one. -/
theorem room_le (text : Bytes) :
    6 * (scan text).publicWord + 7 * (scan text).privateWord + 3 * (scan text).tryWord
        + 5 * (scan text).catchWord
      ≤ text.length + min (scan text).publicWord (scan text).catchWord := by
  have hlast := Share.withoutLast.weight_scan_le text
  have hfirst := Share.withoutFirst.weight_scan_le text
  simp [PerKeyword.weight, Keyword.all, Share.size, Share.withoutLast, Share.withoutFirst,
    Keyword.bytes, PerKeyword.get] at hlast hfirst
  omega

/-! ## Texts with no room to spare -/

/-- Several bytes at which nothing is counted. -/
theorem scanFrom_drop {n : Nat} : ∀ {s : State} {text : Bytes},
    (∀ d < n, Keyword.opening? (text.drop d) = none) →
    scanFrom s 0 text = scanFrom (s.after (text.take n)) 0 (text.drop n) := by
  induction n with
  | zero => intro s text _; rfl
  | succ n ih =>
    intro s text h
    cases text with
    | nil => rfl
    | cons b rest =>
      rw [scanFrom_cons_of_not_starts (.inr (h 0 (Nat.succ_pos n))),
        ih fun d hd => h (d + 1) (Nat.succ_lt_succ hd)]
      rfl

/-- A keyword is counted, and nothing else before the byte at `n`. -/
theorem scanFrom_of_starts {s : State} {k : Keyword} {text : Bytes} {n : Nat}
    (hcode : s.isCode = true) (hk : k.bytes <+: text) (hn : 0 < n)
    (hquiet : ∀ d, 0 < d → d < n → Keyword.opening? (text.drop d) = none) :
    scanFrom s 0 text = (scanFrom (s.after (text.take n)) 0 (text.drop n)).record k := by
  cases text with
  | nil =>
    have hle := hk.length_le
    have hpos := k.length_bytes_pos
    rw [List.length_nil] at hle
    omega
  | cons b rest =>
    obtain ⟨n, rfl⟩ : ∃ m, n = m + 1 := ⟨n - 1, by omega⟩
    rw [scanFrom_cons_of_starts hcode hk,
      scanFrom_drop fun d hd => hquiet (d + 1) (Nat.succ_pos d) (Nat.succ_lt_succ hd)]
    rfl

/-- The letter after the one that `public` may lend to `catch`. -/
def second : UInt8 := 0x61

/-- A keyword in code is counted, if what follows makes no `catch` of the last
letter of a `public`. -/
theorem scan_bytes_append (k : Keyword) {rest : Bytes} (hrest : rest.head? ≠ some second) :
    scan (k.bytes ++ rest) = (scan rest).record k := by
  have hstarts : k.bytes <+: k.bytes ++ rest := List.prefix_append _ _
  have hquiet : ∀ d, 0 < d → d < k.bytes.length →
      Keyword.opening? ((k.bytes ++ rest).drop d) = none := by
    intro d hd hlt
    rw [Keyword.opening?_eq_none_iff]
    intro j hj
    obtain ⟨rfl, rfl, rfl⟩ := Keyword.eq_of_overlap hstarts hj hd hlt
    obtain ⟨tail, htail⟩ := hj
    cases rest with
    | nil => cases htail
    | cons c rest =>
      cases htail
      exact hrest rfl
  have hafter : State.code.after k.bytes = .code := by cases k <;> decide
  rw [scan, scanFrom_of_starts rfl hstarts k.length_bytes_pos hquiet, List.take_left,
    List.drop_left, hafter]
  rfl

/-- A `public` and a `catch` that share a letter. -/
def joined : Bytes := Utf8.ofString "publicatch"

theorem scan_joined_append {rest : Bytes} (hrest : rest.head? ≠ some second) :
    scan (joined ++ rest) = ((scan rest).record .catchWord).record .publicWord := by
  have hstarts : Keyword.publicWord.bytes <+: joined ++ rest := ⟨joined.drop 6 ++ rest, rfl⟩
  have hquiet : ∀ d, 0 < d → d < 5 → Keyword.opening? ((joined ++ rest).drop d) = none := by
    intro d hd hlt
    rw [Keyword.opening?_eq_none_iff]
    intro j hj
    obtain ⟨-, -, rfl⟩ := Keyword.eq_of_overlap hstarts hj hd (hlt.trans (by decide))
    omega
  have hcatch := scan_bytes_append .catchWord hrest
  rw [← hcatch, scan, scanFrom_of_starts rfl hstarts (by decide) hquiet]
  rfl

/-- A piece of a text without spare room. -/
inductive Piece where
  | word (k : Keyword)
  | joined

namespace Piece

def bytes : Piece → Bytes
  | word k => k.bytes
  | joined => Lexer.joined

/-- What is counted in a piece. -/
def tally : Piece → PerKeyword Nat
  | word k => PerKeyword.record 0 k
  | joined => PerKeyword.record (PerKeyword.record 0 .catchWord) .publicWord

/-- The text of some pieces, one after the other. -/
def spell (pieces : List Piece) : Bytes := pieces.flatMap bytes

theorem head?_bytes_append (piece : Piece) (rest : Bytes) :
    (piece.bytes ++ rest).head? ≠ some second := by
  obtain ⟨b, hhead, hb⟩ : ∃ b, (piece.bytes ++ rest).head? = some b ∧ b ≠ second := by
    cases piece with
    | word k => cases k <;> exact ⟨_, rfl, by decide⟩
    | joined => exact ⟨_, rfl, by decide⟩
  rw [hhead]
  exact fun h => hb (Option.some.inj h)

theorem head?_spell (pieces : List Piece) : (spell pieces).head? ≠ some second := by
  cases pieces with
  | nil => decide
  | cons piece pieces => exact piece.head?_bytes_append (spell pieces)

/-- What is counted in one piece and in what follows. -/
theorem get_scan_append (piece : Piece) {rest : Bytes} (hrest : rest.head? ≠ some second)
    (k : Keyword) :
    (scan (piece.bytes ++ rest)).get k = piece.tally.get k + (scan rest).get k := by
  cases piece with
  | word j =>
    rw [bytes, scan_bytes_append j hrest, tally, PerKeyword.get_record, PerKeyword.get_record,
      PerKeyword.get_zero]
    omega
  | joined =>
    rw [bytes, scan_joined_append hrest, tally, PerKeyword.get_record, PerKeyword.get_record,
      PerKeyword.get_record, PerKeyword.get_record, PerKeyword.get_zero]
    omega

theorem get_scan_spell (pieces : List Piece) (k : Keyword) :
    (scan (spell pieces)).get k = (pieces.map fun piece => piece.tally.get k).sum := by
  induction pieces with
  | nil => exact PerKeyword.get_zero k
  | cons piece pieces ih =>
    rw [List.map_cons, List.sum_cons, ← ih, ← piece.get_scan_append (head?_spell pieces)]
    rfl

/-- Pieces that hold what a tally says. As many keywords as can share a letter
do. -/
def dense (p : PerKeyword Nat) : List Piece :=
  let shared := min p.publicWord p.catchWord
  List.replicate shared joined
    ++ List.replicate (p.publicWord - shared) (word .publicWord)
    ++ List.replicate p.privateWord (word .privateWord)
    ++ List.replicate p.tryWord (word .tryWord)
    ++ List.replicate (p.catchWord - shared) (word .catchWord)

theorem scan_dense (p : PerKeyword Nat) : scan (spell (dense p)) = p := by
  ext k
  simp only [get_scan_spell, dense, List.map_append, List.map_replicate, List.sum_append,
    List.sum_replicate_nat, tally, PerKeyword.get_record, PerKeyword.get_zero]
  cases k with
  | publicWord | privateWord | tryWord | catchWord =>
    simp only [PerKeyword.get, reduceCtorEq, if_true, if_false]
    omega

theorem length_dense (p : PerKeyword Nat) :
    (spell (dense p)).length + min p.publicWord p.catchWord
      = 6 * p.publicWord + 7 * p.privateWord + 3 * p.tryWord + 5 * p.catchWord := by
  simp only [spell, dense, List.length_flatMap, List.map_append, List.map_replicate,
    List.sum_append, List.sum_replicate_nat, bytes, show Lexer.joined.length = 10 from rfl,
    Keyword.bytes, List.length_cons, List.length_nil]
  omega

end Piece

/-! ## Counts in 64 bits -/

/-- The scan with its counts kept in 64 bits: every occurrence is recorded on
its own, if the count still fits. -/
def recordFrom? (s : State) (tally : Tally) : Bytes → Option Tally
  | [] => some tally
  | b :: rest => do
    let recorded ←
      if s.isCode then
        match Keyword.opening? (b :: rest) with
        | some k => tally.record? k
        | none => some tally
      else some tally
    recordFrom? (s.next b) recorded rest

/-- The counts of a scan grow from any start. -/
theorem get_le_get_scanFrom (s : State) (counts : PerKeyword Nat) (text : Bytes) (k : Keyword) :
    counts.get k ≤ (scanFrom s counts text).get k := by
  rw [scanFrom_eq_add, PerKeyword.get_add]
  omega

/-- **A scan in 64 bits is exact**, and it comes to its end if the counts fit. -/
theorem recordFrom?_eq_some_iff {text : Bytes} {s : State} {t u : Tally} :
    recordFrom? s t text = some u ↔ u.exact = scanFrom s t.exact text := by
  induction text generalizing s t with
  | nil =>
    rw [recordFrom?, scanFrom, Option.some.injEq]
    exact ⟨fun h => h ▸ rfl, fun h => (Tally.exact_injective h).symm⟩
  | cons b rest ih =>
    rcases counted_or_not s (b :: rest) with ⟨hcode, k, hk⟩ | hnone
    · have hopen : Keyword.opening? (b :: rest) = some k := Keyword.opening?_eq_some_iff.mpr hk
      simp only [recordFrom?, scanFrom, hcode, if_true, hopen, Option.bind_eq_bind,
        Option.bind_eq_some_iff, ih, Tally.record?_eq_some_iff]
      constructor
      · rintro ⟨v, hv, hu⟩
        rw [hu, hv]
      · intro hu
        -- what is counted so far is no more than what is counted in the end
        obtain ⟨v, hv⟩ := Tally.exists_exact (p := t.exact.record k) fun j => by
          have hle := get_le_get_scanFrom (s.next b) (t.exact.record k) rest j
          rw [← hu, Tally.get_exact] at hle
          exact lt_of_le_of_lt hle (u.get j).fits
        exact ⟨v, hv, by rw [hu, hv]⟩
    · rcases hnone with h | h
      · simp [recordFrom?, scanFrom, h, ih]
      · simp [recordFrom?, scanFrom, h, ih]

/-- A text that is not too long is scanned in 64 bits, and so are all of its
keywords together. -/
theorem exists_record {text : Bytes} (h : text.length < Count.limit) :
    ∃ tally, recordFrom? .code Tally.zero text = some tally ∧ tally.exact = scan text ∧
      ∃ total, tally.total? = some total ∧ 3 * total.val ≤ text.length := by
  have hroom := room_le text
  obtain ⟨tally, htally⟩ := Tally.exists_exact (p := scan text) fun k => by
    cases k <;> simp only [PerKeyword.get] <;> omega
  have hget : ∀ k, (tally.get k).val = (scan text).get k := fun k => by
    rw [← Tally.get_exact, htally]
  have hsum : tally.publicWord.val + tally.privateWord.val + tally.tryWord.val
      + tally.catchWord.val = (scan text).publicWord + (scan text).privateWord
        + (scan text).tryWord + (scan text).catchWord := by
    have hpublic : tally.publicWord.val = (scan text).publicWord := hget .publicWord
    have hprivate : tally.privateWord.val = (scan text).privateWord := hget .privateWord
    have htry : tally.tryWord.val = (scan text).tryWord := hget .tryWord
    have hcatch : tally.catchWord.val = (scan text).catchWord := hget .catchWord
    omega
  refine ⟨tally, recordFrom?_eq_some_iff.mpr htally, htally,
    ⟨tally.publicWord.val + tally.privateWord.val + tally.tryWord.val + tally.catchWord.val, ?_⟩,
    Tally.total?_eq_some_iff.mpr rfl, ?_⟩
  · have hlimit : Count.limit = 18446744073709551616 := rfl
    omega
  · show 3 * (_ + _ + _ + _) ≤ _
    omega

/-- **How many keywords a text can hold.** What is counted in a text takes no
more bytes than there are, where a `catch` that starts with the last letter of
a `public` takes one less. No other two keywords overlap. For every tally there
is a text with this tally and with no byte more than that. So there are three
bytes for each keyword, and neither a count nor the sum of all counts of a text
leaves 64 bits, unless its length does. -/
theorem density_sharp :
    (∀ text, 6 * (scan text).publicWord + 7 * (scan text).privateWord
        + 3 * (scan text).tryWord + 5 * (scan text).catchWord
      ≤ text.length + min (scan text).publicWord (scan text).catchWord) ∧
    (∀ (text : Bytes) (i d : Nat) (j k : Keyword), j.bytes <+: text.drop i →
      k.bytes <+: text.drop (i + d) → 0 < d → d < j.bytes.length →
        j = .publicWord ∧ k = .catchWord ∧ d = 5) ∧
    (∀ p : PerKeyword Nat, ∃ text, scan text = p ∧
      text.length + min p.publicWord p.catchWord
        = 6 * p.publicWord + 7 * p.privateWord + 3 * p.tryWord + 5 * p.catchWord) ∧
    (∀ text, 3 * ((scan text).publicWord + (scan text).privateWord + (scan text).tryWord
      + (scan text).catchWord) ≤ text.length) ∧
    ∀ text : Bytes, text.length < Count.limit →
      ∃ tally, recordFrom? .code Tally.zero text = some tally ∧ tally.exact = scan text ∧
        ∃ total, tally.total? = some total ∧ 3 * total.val ≤ text.length := by
  refine ⟨room_le, fun text i d j k hj hk hd hlt => ?_, fun p => ?_, fun text => ?_,
    fun text h => exists_record h⟩
  · rw [← List.drop_drop] at hk
    exact Keyword.eq_of_overlap hj hk hd hlt
  · exact ⟨_, Piece.scan_dense p, Piece.length_dense p⟩
  · have hroom := room_le text
    omega

/-- Two words that overlap, in ten bytes. -/
theorem density_sharp_publicatch :
    scan joined = ⟨1, 0, 0, 1⟩ ∧
      6 * (scan joined).publicWord + 7 * (scan joined).privateWord + 3 * (scan joined).tryWord
          + 5 * (scan joined).catchWord
        ≤ joined.length + min (scan joined).publicWord (scan joined).catchWord ∧
      ∃ tally, recordFrom? .code Tally.zero joined = some tally ∧ tally.exact = scan joined := by
  obtain ⟨hroom, -, -, -, hrecord⟩ := density_sharp
  obtain ⟨tally, htally, hexact, -⟩ := hrecord joined (by decide)
  exact ⟨by decide, hroom joined, tally, htally, hexact⟩

end Lexer

end KeywordSurvey
