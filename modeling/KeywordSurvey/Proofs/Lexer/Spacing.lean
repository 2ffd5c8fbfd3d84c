import KeywordSurvey.Proofs.Lexer.Enclosure

/-!
# Bytes that stand for nothing

Most bytes are inert: they delimit nothing and are in no keyword. A stretch of
them acts as any other one does, whatever it holds and however long it is, and
a carriage return in front of a newline does not act at all: that is how the
machine takes such bytes (`State.step_other_other`, `State.step_other_newline`).
So a text can be encoded anew, indented anew, or given other line ends, and all
counts stay (`scan_respaced`).
-/

namespace KeywordSurvey

namespace Keyword

/-- The first bytes of keywords are letters of keywords. -/
theorem mem_letters_of_leads {b : UInt8} (h : leads b = true) : b ∈ letters := by
  obtain ⟨k, hk⟩ := leads_iff.mp h
  exact mem_letters (List.mem_of_head? hk)

/-- Texts that start with the same keywords open with the same one. -/
theorem opening?_congr {text other : Bytes}
    (h : ∀ k : Keyword, k.bytes <+: text ↔ k.bytes <+: other) :
    opening? text = opening? other := by
  ext k
  rw [opening?_eq_some_iff, opening?_eq_some_iff, h k]

end Keyword

namespace Lexer

open Grammar (newline)

/-! ## Inert bytes -/

/-- The byte delimits nothing and is in no keyword. -/
def Inert (b : UInt8) : Prop := Mark.ofByte b = .other ∧ b ∉ Keyword.letters

instance (b : UInt8) : Decidable (Inert b) := inferInstanceAs (Decidable (_ ∧ _))

def carriageReturn : UInt8 := 0x0D

namespace State

theorem next_of_inert {b : UInt8} (h : Inert b) (s : State) : s.next b = s.step .other := by
  rw [next, h.1]

/-- A stretch of inert bytes acts as a single one. -/
theorem after_of_inert {run : Bytes} (hne : run ≠ []) (hrun : ∀ b ∈ run, Inert b) (s : State) :
    s.after run = s.step .other := by
  induction run generalizing s with
  | nil => exact absurd rfl hne
  | cons b run ih =>
    obtain ⟨hb, hrun⟩ := List.forall_mem_cons.mp hrun
    rw [after_cons, next_of_inert hb]
    cases run with
    | nil => rfl
    | cons c run => rw [ih (List.cons_ne_nil c run) hrun, step_other_other]

end State

/-- Nothing is counted at a byte that is in no keyword. -/
theorem scanFrom_cons_of_not_letter {b : UInt8} (hb : b ∉ Keyword.letters) (s : State)
    (rest : Bytes) : scanFrom s 0 (b :: rest) = scanFrom (s.next b) 0 rest := by
  refine scanFrom_cons_of_not_leads (Bool.eq_false_iff.mpr fun h => ?_) s rest
  exact hb (Keyword.mem_letters_of_leads h)

theorem scanFrom_append_of_inert {run : Bytes} (hrun : ∀ b ∈ run, Inert b) (s : State)
    (rest : Bytes) : scanFrom s 0 (run ++ rest) = scanFrom (s.after run) 0 rest := by
  induction run generalizing s with
  | nil => rfl
  | cons b run ih =>
    obtain ⟨hb, hrun⟩ := List.forall_mem_cons.mp hrun
    rw [List.cons_append, scanFrom_cons_of_not_letter hb.2, ih hrun, State.after_cons]

/-! ## Texts that differ in inert bytes -/

/-- The texts differ in stretches of inert bytes, none of them empty, and in
carriage returns before newlines. -/
inductive Respaced : Bytes → Bytes → Prop
  | nil : Respaced [] []
  | byte (b : UInt8) {text other : Bytes} :
      Respaced text other → Respaced (b :: text) (b :: other)
  /-- Any stretch may be replaced, in particular a longest one. -/
  | run {run run' text other : Bytes} :
      run ≠ [] → run' ≠ [] → (∀ b ∈ run, Inert b) → (∀ b ∈ run', Inert b) →
      Respaced text other → Respaced (run ++ text) (run' ++ other)
  | lineEnd {text other : Bytes} :
      Respaced text other →
      Respaced (newline :: text) (carriageReturn :: newline :: other)

/-- The text with a carriage return before each newline. -/
def withCarriageReturns (text : Bytes) : Bytes :=
  text.flatMap fun b => if b = newline then [carriageReturn, newline] else [b]

theorem respaced_withCarriageReturns (text : Bytes) :
    Respaced text (withCarriageReturns text) := by
  induction text with
  | nil => exact .nil
  | cons b text ih =>
    rw [withCarriageReturns, List.flatMap_cons]
    by_cases hb : b = newline
    · rw [if_pos hb, hb]
      exact .lineEnd ih
    · rw [if_neg hb]
      exact .byte b ih

/-- No word of letters starts with another byte. -/
theorem not_prefix_of_not_letter {b c : UInt8} {word rest : Bytes} (hb : b ∉ Keyword.letters)
    (hc : c ∈ Keyword.letters) : ¬ c :: word <+: b :: rest := by
  intro h
  rw [(List.cons_prefix_cons.mp h).1] at hc
  exact hb hc

namespace Respaced

variable {text other : Bytes}

/-- The texts start with the same words. -/
theorem prefix_iff (h : Respaced text other) {word : Bytes}
    (hword : ∀ c ∈ word, c ∈ Keyword.letters) : word <+: text ↔ word <+: other := by
  induction h generalizing word with
  | nil => rfl
  | byte b _ ih =>
    cases word with
    | nil => simp
    | cons c word =>
      rw [List.cons_prefix_cons, List.cons_prefix_cons, ih (List.forall_mem_cons.mp hword).2]
  | @run run run' text other hne hne' hrun hrun' _ _ =>
    obtain ⟨b, run, rfl⟩ := List.exists_cons_of_ne_nil hne
    obtain ⟨b', run', rfl⟩ := List.exists_cons_of_ne_nil hne'
    cases word with
    | nil => simp
    | cons c word =>
      have hc : c ∈ Keyword.letters := hword c List.mem_cons_self
      exact iff_of_false
        (not_prefix_of_not_letter (hrun b List.mem_cons_self).2 hc)
        (not_prefix_of_not_letter (hrun' b' List.mem_cons_self).2 hc)
  | lineEnd _ _ =>
    cases word with
    | nil => simp
    | cons c word =>
      have hc : c ∈ Keyword.letters := hword c List.mem_cons_self
      exact iff_of_false (not_prefix_of_not_letter (by decide) hc)
        (not_prefix_of_not_letter (by decide) hc)

theorem append_left (h : Respaced text other) (first : Bytes) :
    Respaced (first ++ text) (first ++ other) := by
  induction first with
  | nil => exact h
  | cons b first ih => exact .byte b ih

theorem opening?_eq (h : Respaced text other) :
    Keyword.opening? text = Keyword.opening? other :=
  Keyword.opening?_congr fun _ => h.prefix_iff fun _ => Keyword.mem_letters

/-- The machine comes to the same state. -/
theorem after_eq (h : Respaced text other) (s : State) : s.after text = s.after other := by
  induction h generalizing s with
  | nil => rfl
  | byte b _ ih => exact ih (s.next b)
  | run hne hne' hrun hrun' _ ih =>
    rw [State.after_append, State.after_append, State.after_of_inert hne hrun,
      State.after_of_inert hne' hrun', ih]
  | lineEnd _ ih =>
    rw [State.after_cons, State.after_cons, State.after_cons, ih]
    exact congrArg (State.after · _) s.step_other_newline.symm

/-- The same is counted, from any state on. -/
theorem scanFrom_eq (h : Respaced text other) (s : State) :
    scanFrom s 0 text = scanFrom s 0 other := by
  induction h generalizing s with
  | nil => rfl
  | byte b h ih =>
    -- what is counted at the byte hangs on what follows, and that starts with the same words
    rw [scanFrom, scanFrom, (h.byte b).opening?_eq, scanFrom_eq_add, ih, ← scanFrom_eq_add]
  | run hne hne' hrun hrun' _ ih =>
    rw [scanFrom_append_of_inert hrun, scanFrom_append_of_inert hrun',
      State.after_of_inert hne hrun, State.after_of_inert hne' hrun', ih]
  | lineEnd _ ih =>
    rw [scanFrom_cons_of_not_letter (by decide), scanFrom_cons_of_not_letter (by decide),
      scanFrom_cons_of_not_letter (by decide), ih]
    exact congrArg (scanFrom · 0 _) s.step_other_newline.symm

end Respaced

/-- **Encoding, indentation and line ends do not matter.** Stretches of inert
bytes may be replaced by other ones, as many of them as one likes, and carriage
returns may be put before newlines, before all of them or some: the counts
stay. That is so in any state that the machine may be in where the text starts,
and the text leads it to the same state. -/
theorem scan_respaced :
    (∀ {text other : Bytes}, Respaced text other →
      scan text = scan other ∧
        ∀ s : State, s.after text = s.after other ∧ scanFrom s 0 text = scanFrom s 0 other) ∧
    ∀ text : Bytes, scan (withCarriageReturns text) = scan text ∧
      ∀ s : State, s.after (withCarriageReturns text) = s.after text ∧
        scanFrom s 0 (withCarriageReturns text) = scanFrom s 0 text := by
  constructor
  · intro text other h
    exact ⟨h.scanFrom_eq .code, fun s => ⟨h.after_eq s, h.scanFrom_eq s⟩⟩
  · intro text
    have h := respaced_withCarriageReturns text
    exact ⟨(h.scanFrom_eq .code).symm, fun s => ⟨(h.after_eq s).symm, (h.scanFrom_eq s).symm⟩⟩

/-- A letter of one byte or of two after the backslash in a literal, and a line
that ends in a comment. -/
theorem scan_respaced_escape :
    Respaced (Utf8.ofString "try'\\" ++ ([0xE9] ++ Utf8.ofString "'catch//\n"))
        (Utf8.ofString "try'\\" ++ ([0xC3, 0xA9] ++ Utf8.ofString "'catch//\r\n")) ∧
      scan (Utf8.ofString "try'\\" ++ ([0xE9] ++ Utf8.ofString "'catch//\n")) = ⟨0, 0, 1, 1⟩ ∧
      scan (Utf8.ofString "try'\\" ++ ([0xC3, 0xA9] ++ Utf8.ofString "'catch//\r\n"))
        = ⟨0, 0, 1, 1⟩ := by
  have hend : Respaced (Utf8.ofString "'catch//\n") (Utf8.ofString "'catch//\r\n") :=
    respaced_withCarriageReturns (Utf8.ofString "'catch//\n")
  have hone : ∀ b ∈ [0xE9], Inert b := List.forall_mem_singleton.mpr (by decide)
  have htwo : ∀ b ∈ [0xC3, 0xA9], Inert b :=
    List.forall_mem_cons.mpr ⟨by decide, List.forall_mem_singleton.mpr (by decide)⟩
  have hletter := hend.run (List.cons_ne_nil 0xE9 []) (List.cons_ne_nil 0xC3 [0xA9]) hone htwo
  have h := hletter.append_left (Utf8.ofString "try'\\")
  have hscan : scan (Utf8.ofString "try'\\" ++ ([0xE9] ++ Utf8.ofString "'catch//\n"))
      = ⟨0, 0, 1, 1⟩ := by decide
  exact ⟨h, hscan, (scan_respaced.1 h).1.symm.trans hscan⟩

end Lexer

end KeywordSurvey
