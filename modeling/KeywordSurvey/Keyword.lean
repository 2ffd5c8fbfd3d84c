import KeywordSurvey.Text.Utf8

/-!
# Keywords

The four words that a survey looks for, and values kept one per keyword.
-/

namespace KeywordSurvey

/-- A word that is counted. -/
inductive Keyword where
  | publicWord
  | privateWord
  | tryWord
  | catchWord
  deriving DecidableEq

namespace Keyword

/-- All keywords, in the order in which they are tried and printed. -/
def all : List Keyword := [.publicWord, .privateWord, .tryWord, .catchWord]

/-- The word as it stands in a source text. -/
def word : Keyword → String
  | .publicWord => "public"
  | .privateWord => "private"
  | .tryWord => "try"
  | .catchWord => "catch"

/-- The bytes of the word. -/
def bytes : Keyword → Bytes
  | .publicWord => [0x70, 0x75, 0x62, 0x6C, 0x69, 0x63]
  | .privateWord => [0x70, 0x72, 0x69, 0x76, 0x61, 0x74, 0x65]
  | .tryWord => [0x74, 0x72, 0x79]
  | .catchWord => [0x63, 0x61, 0x74, 0x63, 0x68]

/-- The keyword that is written so. -/
def ofWord? (s : String) : Option Keyword := all.find? (fun k => k.word == s)

/-- Is this the first letter of some keyword? -/
def leads (b : UInt8) : Bool := b == 0x70 || b == 0x74 || b == 0x63

/-- The first keyword, in the order of `all`, that the text starts with. The first byte alone
rules out most texts. -/
def opening? : Bytes → Option Keyword
  | [] => none
  | b :: rest => if leads b then all.find? (fun k => k.bytes.isPrefixOf (b :: rest)) else none

/-- The keyword that starts at a position of the text; past its end there is none. -/
def at? (text : Bytes) (position : Nat) : Option Keyword := opening? (text.drop position)

end Keyword

/-- One value for each keyword. -/
structure PerKeyword (α : Type) where
  publicWord : α
  privateWord : α
  tryWord : α
  catchWord : α
  deriving DecidableEq

namespace PerKeyword

variable {α β γ : Type}

/-- The same value for every keyword. -/
def const (a : α) : PerKeyword α := ⟨a, a, a, a⟩

def get (p : PerKeyword α) : Keyword → α
  | .publicWord => p.publicWord
  | .privateWord => p.privateWord
  | .tryWord => p.tryWord
  | .catchWord => p.catchWord

def set (p : PerKeyword α) (k : Keyword) (a : α) : PerKeyword α :=
  match k with
  | .publicWord => { p with publicWord := a }
  | .privateWord => { p with privateWord := a }
  | .tryWord => { p with tryWord := a }
  | .catchWord => { p with catchWord := a }

def map (f : α → β) (p : PerKeyword α) : PerKeyword β :=
  ⟨f p.publicWord, f p.privateWord, f p.tryWord, f p.catchWord⟩

def zipWith (f : α → β → γ) (p : PerKeyword α) (q : PerKeyword β) : PerKeyword γ :=
  ⟨f p.publicWord q.publicWord, f p.privateWord q.privateWord, f p.tryWord q.tryWord,
    f p.catchWord q.catchWord⟩

/-- The four values, if all are there. -/
def sequence (p : PerKeyword (Option α)) : Option (PerKeyword α) := do
  let publicWord ← p.publicWord
  let privateWord ← p.privateWord
  let tryWord ← p.tryWord
  let catchWord ← p.catchWord
  some ⟨publicWord, privateWord, tryWord, catchWord⟩

/-- The values in the order of `Keyword.all`. -/
def toList (p : PerKeyword α) : List α := Keyword.all.map p.get

instance : Zero (PerKeyword Nat) := ⟨const 0⟩

instance : Add (PerKeyword Nat) := ⟨zipWith (· + ·)⟩

/-- One more for `k`. -/
def record (p : PerKeyword Nat) (k : Keyword) : PerKeyword Nat := p.set k (p.get k + 1)

@[ext] theorem ext_get {p q : PerKeyword α} (h : ∀ k, p.get k = q.get k) : p = q := by
  cases p; cases q
  have h1 := h .publicWord
  have h2 := h .privateWord
  have h3 := h .tryWord
  have h4 := h .catchWord
  simp only [get] at h1 h2 h3 h4
  simp [h1, h2, h3, h4]

@[simp] theorem get_const (a : α) (k : Keyword) : (const a).get k = a := by cases k <;> rfl

@[simp] theorem get_map (f : α → β) (p : PerKeyword α) (k : Keyword) :
    (p.map f).get k = f (p.get k) := by cases k <;> rfl

@[simp] theorem get_zipWith (f : α → β → γ) (p : PerKeyword α) (q : PerKeyword β) (k : Keyword) :
    (zipWith f p q).get k = f (p.get k) (q.get k) := by cases k <;> rfl

@[simp] theorem get_zero (k : Keyword) : (0 : PerKeyword Nat).get k = 0 := get_const 0 k

@[simp] theorem get_add (p q : PerKeyword Nat) (k : Keyword) :
    (p + q).get k = p.get k + q.get k := get_zipWith _ p q k

theorem get_set (p : PerKeyword α) (j k : Keyword) (a : α) :
    (p.set j a).get k = if j = k then a else p.get k := by
  cases j <;> cases k <;> rfl

/-- Recording touches its own keyword only. -/
theorem get_record (p : PerKeyword Nat) (j k : Keyword) :
    (p.record j).get k = p.get k + (if j = k then 1 else 0) := by
  unfold record
  rw [get_set]
  split
  · next h => rw [h]
  · rfl

end PerKeyword

end KeywordSurvey
