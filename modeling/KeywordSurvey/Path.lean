import KeywordSurvey.Text.Utf8

/-!
# Paths

A path is a row of bytes with slashes in it; nothing says that it is text. Joining works on the
bytes. Two paths name the same place by their components: empty components and dots are left
out of the comparison, except for a dot in front of a path that does not start at the root.
-/

namespace KeywordSurvey

/-- A path as it was written. -/
structure Path where
  bytes : Bytes
  deriving DecidableEq

namespace Path

/-- The byte between the components of a path. -/
def slash : UInt8 := 0x2F

/-- The component that stays where it is. -/
def here : Bytes := [0x2E]

/-- The component that goes up. -/
def up : Bytes := [0x2E, 0x2E]

def ofString (s : String) : Path := ⟨Utf8.ofString s⟩

/-- Does the path start at the root? -/
def isRooted (p : Path) : Bool := p.bytes.head? == some slash

/-- The path of `name` in the directory `p`. A name that starts at the root stands for itself. -/
def join (p : Path) (name : Bytes) : Path :=
  if name.head? == some slash then ⟨name⟩
  else if p.bytes.isEmpty || p.bytes.getLast? == some slash then ⟨p.bytes ++ name⟩
  else ⟨p.bytes ++ slash :: name⟩

/-- The parts between slashes, empty ones included. -/
def pieces (bytes : Bytes) : List Bytes := bytes.splitOn slash

/-- The parts that say where the path leads. -/
def components (p : Path) : List Bytes :=
  match pieces p.bytes with
  | [] => []
  | first :: rest =>
    let rest := rest.filter fun c => !(c.isEmpty || c == here)
    if first.isEmpty then rest else first :: rest

/-- The last component, if it is a name. -/
def fileName? (p : Path) : Option Bytes :=
  p.components.getLast?.filter fun c => !(c == here || c == up)

/-- Do both paths start alike and have the same components? -/
def same (p q : Path) : Bool := p.isRooted == q.isRooted && p.components == q.components

/-- The path as text, with a replacement for what is not text. -/
def lossy (p : Path) : List Char := Utf8.decodeLossy p.bytes

/-- The path as a string, with a replacement for what is not text. -/
def display (p : Path) : String := Utf8.toStringLossy p.bytes

theorem same_refl (p : Path) : p.same p = true := by simp [same]

theorem same_iff {p q : Path} :
    p.same q = true ↔ p.isRooted = q.isRooted ∧ p.components = q.components := by
  simp [same]

theorem same_symm {p q : Path} (h : p.same q = true) : q.same p = true := by
  rw [same_iff] at h ⊢
  exact ⟨h.1.symm, h.2.symm⟩

theorem same_trans {p q r : Path} (h : p.same q = true) (k : q.same r = true) :
    p.same r = true := by
  rw [same_iff] at h k ⊢
  exact ⟨h.1.trans k.1, h.2.trans k.2⟩

end Path

end KeywordSurvey
