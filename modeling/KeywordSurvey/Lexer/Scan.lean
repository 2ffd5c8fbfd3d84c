import KeywordSurvey.Keyword
import KeywordSurvey.Lexer.State

/-!
# Counting keywords in a text

At every code position the text is compared with the keywords, before the byte there is taken.
The comparison is of plain beginnings: a longer word that starts with a keyword counts. Comments
and literals that are still open where the text ends are no fault.
-/

namespace KeywordSurvey.Lexer

/-- Counts on from `counts` in the rest of a text that the machine reaches in state `s`. -/
def scanFrom (s : State) (counts : PerKeyword Nat) : Bytes → PerKeyword Nat
  | [] => counts
  | b :: rest =>
    let counts :=
      if s.isCode then
        match Keyword.opening? (b :: rest) with
        | some k => counts.record k
        | none => counts
      else counts
    scanFrom (s.next b) counts rest

/-- How often each keyword occurs in the code of the text. -/
def scan (text : Bytes) : PerKeyword Nat := scanFrom .code 0 text

end KeywordSurvey.Lexer
