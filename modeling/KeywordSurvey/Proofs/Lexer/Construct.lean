import KeywordSurvey.Proofs.Lexer.Machine
import Mathlib.Data.Fintype.Card

/-!
# What the machine has to remember

The machine remembers quotes that it has met inside a comment, and makes no
use of them: what it is in the middle of (`State.construct`) decides all
regions to come. There are nine such constructs. Any two of them are told
apart by some text, so no machine for the code positions of texts makes do
with fewer states (`State.construct_minimal`).
-/

namespace KeywordSurvey.Lexer

/-- What a position is in the middle of, whatever quotes came before it in a
comment. -/
inductive Construct where
  | code
  | slash
  | lineComment
  | blockComment
  | blockStar
  | literal (q : Quote) (escaped : Bool)
  deriving DecidableEq

namespace Construct

open Grammar (quote star newline backslash)

/-- All constructs. -/
def all : List Construct :=
  [code, slash, lineComment, blockComment, blockStar, literal .double false,
    literal .double true, literal .single false, literal .single true]

theorem mem_all (c : Construct) : c ∈ all := by
  cases c with
  | literal q escaped => cases q <;> cases escaped <;> decide
  | _ => decide

instance : Fintype Construct := ⟨⟨all, by decide⟩, mem_all⟩

/-! ## The machine without quotes in comments -/

/-- The construct after a byte of this kind. A quote is nothing special in a
comment. -/
def step : Construct → Mark → Construct
  | .code, .slash => .slash
  | .code, .quote q => .literal q false
  | .code, _ => .code
  | .slash, .slash => .lineComment
  | .slash, .star => .blockComment
  | .slash, _ => .code
  | .lineComment, .newline => .code
  | .lineComment, _ => .lineComment
  | .blockComment, .star => .blockStar
  | .blockComment, _ => .blockComment
  | .blockStar, .star => .blockStar
  | .blockStar, .slash => .code
  | .blockStar, _ => .blockComment
  | .literal q false, .quote r => if q = r then .code else .literal q false
  | .literal q false, .backslash => .literal q true
  | .literal q _, _ => .literal q false

/-- The construct after a byte. -/
def next (c : Construct) (b : UInt8) : Construct := c.step (Mark.ofByte b)

/-- The construct after a text. -/
def after (c : Construct) (text : Bytes) : Construct := text.foldl next c

def region : Construct → Region
  | .code | .slash => .code
  | .literal _ _ => .literal
  | _ => .comment

/-- Is text that starts here looked at for keywords? -/
def isCode (c : Construct) : Bool := c.region == .code

theorem after_append (c : Construct) (text rest : Bytes) :
    c.after (text ++ rest) = (c.after text).after rest := List.foldl_append

/-! ## Telling constructs apart -/

/-- Texts that end in code from some constructs and not from others. -/
def probes : List Bytes :=
  [[], [Grammar.slash], [newline], [quote .double], [quote .double, quote .double],
    [quote .single], [quote .single, quote .single]]

theorem exists_probe {c d : Construct} (h : c ≠ d) :
    ∃ text ∈ probes, (c.after text).isCode ≠ (d.after text).isCode := by
  have hall : ∀ c ∈ all, ∀ d ∈ all, c ≠ d →
      ∃ text ∈ probes, (c.after text).isCode ≠ (d.after text).isCode := by decide
  exact hall c (mem_all c) d (mem_all d) h

/-- A text that leads from code to the construct. -/
def approach : Construct → Bytes
  | .code => []
  | .slash => [Grammar.slash]
  | .lineComment => [Grammar.slash, Grammar.slash]
  | .blockComment => [Grammar.slash, star]
  | .blockStar => [Grammar.slash, star, star]
  | .literal q false => [quote q]
  | .literal q true => [quote q, backslash]

theorem code_after_approach (c : Construct) : code.after c.approach = c := by
  have hall : ∀ c ∈ all, code.after c.approach = c := by decide
  exact hall c (mem_all c)

end Construct

namespace State

/-! ## States and constructs -/

/-- What the machine is in the middle of. -/
def construct : State → Construct
  | .code => .code
  | .slash => .slash
  | .lineComment | .lineQuote _ _ => .lineComment
  | .blockComment | .blockQuote _ _ => .blockComment
  | .blockStar => .blockStar
  | .literal q escaped => .literal q escaped

theorem region_construct (s : State) : s.construct.region = s.region := by
  cases s <;> rfl

theorem isCode_construct (s : State) : s.construct.isCode = s.isCode := by
  rw [Construct.isCode, region_construct, isCode]

/-- One step: the quotes of a comment lead from one state of the comment to
another. -/
theorem construct_step (s : State) (m : Mark) : (s.step m).construct = s.construct.step m := by
  cases s with
  | code | slash | lineComment | blockComment | blockStar => cases m <;> rfl
  | literal q escaped | lineQuote q escaped | blockQuote q escaped =>
    cases escaped <;> cases m <;> try rfl
    next r =>
      by_cases hr : q = r <;> simp [step, Construct.step, construct, hr]

theorem construct_next (s : State) (b : UInt8) : (s.next b).construct = s.construct.next b :=
  s.construct_step _

/-- A whole run. -/
theorem construct_after (s : State) (text : Bytes) :
    (s.after text).construct = s.construct.after text := by
  induction text generalizing s with
  | nil => rfl
  | cons b text ih =>
    rw [after_cons, ih, construct_next]
    rfl

theorem isCode_after (s : State) (text : Bytes) :
    (s.after text).isCode = (s.construct.after text).isCode := by
  rw [← construct_after, isCode_construct]

/-- States in the middle of one construct go through the same regions. -/
theorem map_region_trace_congr {s s' : State} (h : s.construct = s'.construct) (text : Bytes) :
    (s.trace text).map region = (s'.trace text).map region := by
  have hregion : s.region = s'.region := by rw [← region_construct, h, region_construct]
  induction text generalizing s s' with
  | nil => exact congrArg (fun r => [r]) hregion
  | cons b text ih =>
    have hnext : (s.next b).construct = (s'.next b).construct := by
      rw [construct_next, construct_next, h]
    have hregion' : (s.next b).region = (s'.next b).region := by
      rw [← region_construct, hnext, region_construct]
    rw [trace, trace, List.map_cons, List.map_cons, hregion, ih hnext hregion']

theorem getLast?_trace (s : State) (text : Bytes) :
    (s.trace text).getLast? = some (s.after text) := by
  induction text generalizing s with
  | nil => rfl
  | cons b text ih => rw [trace, List.getLast?_cons, ih, after_cons, Option.getD_some]

/-- The regions on the way end with the region there. -/
theorem isCode_after_of_trace {s s' : State} {text : Bytes}
    (h : (s.trace text).map region = (s'.trace text).map region) :
    (s.after text).isCode = (s'.after text).isCode := by
  have hlast := congrArg List.getLast? h
  rw [List.getLast?_map, List.getLast?_map, getLast?_trace, getLast?_trace, Option.map_some,
    Option.map_some, Option.some.injEq] at hlast
  rw [isCode, isCode, hlast]

/-- States in the middle of different constructs are told apart by a text. -/
theorem exists_isCode_after_ne {s s' : State} (h : s.construct ≠ s'.construct) :
    ∃ text, (s.after text).isCode ≠ (s'.after text).isCode := by
  obtain ⟨text, -, hprobe⟩ := Construct.exists_probe h
  exact ⟨text, by rwa [isCode_after, isCode_after]⟩

/-! ## No smaller machine -/

/-- A machine that tells the code positions of all texts is in different
states where different constructs have been approached. -/
theorem foldl_approach_injective {σ : Type} {next : σ → UInt8 → σ} {start : σ} {isCode : σ → Bool}
    (h : ∀ text : Bytes, isCode (text.foldl next start) = (code.after text).isCode) :
    Function.Injective fun c : Construct => c.approach.foldl next start := by
  intro c d (hcd : c.approach.foldl next start = d.approach.foldl next start)
  by_contra hne
  obtain ⟨text, -, hprobe⟩ := Construct.exists_probe hne
  have hreached : ∀ c : Construct,
      isCode (text.foldl next (c.approach.foldl next start)) = (c.after text).isCode := by
    intro c
    rw [← List.foldl_append, h, isCode_after, Construct.after_append]
    exact congrArg (fun c => (Construct.after c text).isCode) c.code_after_approach
  exact hprobe (by rw [← hreached c, ← hreached d, hcd])

/-- **The machine has to remember nine constructs, and nothing else.** It runs
as the machine of the constructs does, which knows no quotes in comments. Two
states are in the middle of the same construct exactly if they go through the
same regions in every text, and of different ones exactly if after some text
one of them is in code and the other is not. So any machine that tells the
code positions of all texts has a state of its own for each of the nine. -/
theorem construct_minimal :
    (∀ (s : State) (text : Bytes), (s.after text).construct = s.construct.after text) ∧
    (∀ s s' : State,
      (s.construct = s'.construct ↔
        ∀ text, (s.trace text).map region = (s'.trace text).map region) ∧
      (s.construct ≠ s'.construct ↔
        ∃ text, (s.after text).isCode ≠ (s'.after text).isCode)) ∧
    Fintype.card Construct = 9 ∧
    ∀ {σ : Type} (next : σ → UInt8 → σ) (start : σ) (isCode : σ → Bool),
      (∀ text : Bytes, isCode (text.foldl next start) = (code.after text).isCode) →
        ∃ stateOf : Construct → σ, Function.Injective stateOf := by
  refine ⟨construct_after, fun s s' => ⟨⟨map_region_trace_congr, fun h => ?_⟩,
    exists_isCode_after_ne, ?_⟩, rfl, fun _ _ _ h => ⟨_, foldl_approach_injective h⟩⟩
  · by_contra hne
    obtain ⟨text, htext⟩ := exists_isCode_after_ne hne
    exact htext (isCode_after_of_trace (h text))
  · rintro ⟨text, htext⟩ hsame
    exact htext (isCode_after_of_trace (map_region_trace_congr hsame text))

/-- An open quote in a line comment makes no difference, and a star in a block
comment does. The machine itself is one that tells all code positions. -/
theorem construct_minimal_comments :
    (∀ text, ((lineQuote .double true).trace text).map region
      = (lineComment.trace text).map region) ∧
    (∃ text, (blockStar.after text).isCode ≠ (blockComment.after text).isCode) ∧
    ∃ stateOf : Construct → State, Function.Injective stateOf := by
  obtain ⟨-, hstates, -, hmachines⟩ := construct_minimal
  exact ⟨(hstates _ _).1.mp rfl, (hstates _ _).2.mp (by decide),
    hmachines next code isCode fun _ => rfl⟩

end State

end KeywordSurvey.Lexer
