import KeywordSurvey.CommandLine.Settings
import KeywordSurvey.Proofs.Results

/-!
# Values that are pending

Arguments are read from one state to the next, and the value of an option or a
path is pending until something comes after it. To look at it early makes no
difference to what the arguments say in the end
(`Progress.takeAll_settled`), unless its place is still empty; and then the
state waits for it (`Progress.Follows`).
-/

namespace KeywordSurvey.CommandLine

/-- The argument after which all are paths. -/
def endOfOptions : Bytes := [0x2D, 0x2D]

namespace Progress

variable {p q r : Progress} {argument : Bytes}

theorem take_of_onlyPaths (h : p.onlyPaths = true) (argument : Bytes) :
    p.take argument = p.plain argument := if_pos h

theorem take_endOfOptions (h : p.onlyPaths = false) :
    p.take endOfOptions = .ok { p with onlyPaths := true } :=
  if_neg (Bool.eq_false_iff.mp h)

/-- An argument that has a meaning of its own has it, or it is a path, or it is
another one. -/
theorem meant_or_not (p : Progress) (argument special : Bytes) :
    (p.onlyPaths = false ∧ argument = special) ∨ (p.onlyPaths = true ∨ argument ≠ special) := by
  by_cases hpaths : p.onlyPaths = true
  · exact .inr (.inl hpaths)
  · by_cases hsame : argument = special
    · exact .inl ⟨Bool.eq_false_iff.mpr hpaths, hsame⟩
    · exact .inr (.inr hsame)

/-! ## Looking at the pending value early -/

theorem settled_eq_ok_iff :
    p.settled = .ok q ↔ ∃ d, p.draft.settle p.pending = .ok d ∧
      q = { p with draft := d, pending := none, wantsValue := false } := by
  rw [settled, bind_eq_ok_iff]
  refine exists_congr fun d => and_congr_right fun _ => ?_
  rw [Except.ok.injEq]
  exact eq_comm

theorem settled_settled (h : p.settled = .ok q) : q.settled = .ok q := by
  obtain ⟨d, -, rfl⟩ := settled_eq_ok_iff.mp h
  rfl

theorem onlyPaths_of_settled (h : p.settled = .ok q) : q.onlyPaths = p.onlyPaths := by
  obtain ⟨d, -, rfl⟩ := settled_eq_ok_iff.mp h
  rfl

theorem attach_settled (h : p.settled = .ok q) (o : ValueOption) (value : Bytes) :
    p.attach o value = q.attach o value := by
  rw [attach, attach, h, settled_settled h]

theorem await_settled (h : p.settled = .ok q) (o : ValueOption) : p.await o = q.await o := by
  rw [await, await, h, settled_settled h]

theorem turn_settled (h : p.settled = .ok q) (s : Switch) : p.turn s = q.turn s := by
  rw [turn, turn, h, settled_settled h]

theorem long_settled (h : p.settled = .ok q) (name : Bytes) (value : Option Bytes) :
    p.long name value = q.long name value := by
  unfold long
  rcases Known.ofLong? name with _ | o | s
  · rfl
  · cases value with
    | none => exact await_settled h o
    | some value => exact attach_settled h o value
  · cases value with
    | none => exact turn_settled h s
    | some value => rfl

theorem letters_settled (h : p.settled = .ok q) (letter : UInt8) (rest : Bytes) :
    p.letters (letter :: rest) = q.letters (letter :: rest) := by
  simp only [letters]
  rcases Known.ofLetter? letter with _ | o | s
  · rfl
  · cases rest with
    | nil => exact await_settled h o
    | cons c value => exact attach_settled h o _
  · simp only [turn_settled h s]

theorem plain_settled (h : p.settled = .ok q) (hwants : p.wantsValue = false)
    (argument : Bytes) : p.plain argument = q.plain argument := by
  have hq := settled_settled h
  obtain ⟨d, -, rfl⟩ := settled_eq_ok_iff.mp h
  simp only [plain, h, hq, hwants, Bool.false_and, Bool.false_eq_true, if_false]

/-- Every argument but the end of the options looks at the pending value. -/
theorem take_settled (h : p.settled = .ok q) (hwants : p.wantsValue = false)
    (hnot : p.onlyPaths = true ∨ argument ≠ endOfOptions) :
    p.take argument = q.take argument := by
  simp only [take, onlyPaths_of_settled h]
  by_cases hpaths : p.onlyPaths = true
  · rw [if_pos hpaths, if_pos hpaths]
    exact plain_settled h hwants argument
  · rw [if_neg hpaths, if_neg hpaths]
    split
    · exact absurd rfl (hnot.resolve_left hpaths)
    · exact long_settled h _ _
    · exact letters_settled h _ _
    · exact plain_settled h hwants argument

/-- The state after further arguments, with nothing pending. -/
def takeAll (p : Progress) (arguments : List Bytes) : Except Usage Progress :=
  arguments.foldlM take p >>= settled

@[simp]
theorem takeAll_nil (p : Progress) : p.takeAll [] = p.settled := rfl

theorem takeAll_cons (p : Progress) (argument : Bytes) (rest : List Bytes) :
    p.takeAll (argument :: rest) = p.take argument >>= (·.takeAll rest) := by
  simp only [takeAll, List.foldlM_cons, bind_assoc]

theorem takeAll_append (p : Progress) (before after : List Bytes) :
    p.takeAll (before ++ after) = before.foldlM take p >>= (·.takeAll after) := by
  simp only [takeAll, List.foldlM_append, bind_assoc]

/-- **To look at the pending value early makes no difference** if no other
value is waited for. -/
theorem takeAll_settled (h : p.settled = .ok q) (hwants : p.wantsValue = false)
    (arguments : List Bytes) : p.takeAll arguments = q.takeAll arguments := by
  induction arguments generalizing p q with
  | nil => exact h.trans (settled_settled h).symm
  | cons argument rest ih =>
    rw [takeAll_cons, takeAll_cons]
    rcases p.meant_or_not argument endOfOptions with ⟨hpaths, rfl⟩ | hnot
    · -- the end of the options leaves the value pending
      rw [take_endOfOptions hpaths, take_endOfOptions ((onlyPaths_of_settled h).trans hpaths)]
      refine ih ?_ hwants
      obtain ⟨d, hd, rfl⟩ := settled_eq_ok_iff.mp h
      exact settled_eq_ok_iff.mpr ⟨d, hd, rfl⟩
    · rw [take_settled h hwants hnot]

/-! ## What a step keeps -/

/-- A step to a state that takes the same kinds of arguments, and waits for a
value only if none is pending. -/
structure Follows (p r : Progress) : Prop where
  onlyPaths : r.onlyPaths = p.onlyPaths
  waits : r.wantsValue = true → ∃ slot, r.pending = some ⟨slot, none⟩

/-- A state whose pending value is in order waits for none. -/
theorem Follows.wantsValue (hr : p.Follows r) (h : r.settled = .ok q) : r.wantsValue = false := by
  refine Bool.eq_false_iff.mpr fun hwants => ?_
  obtain ⟨slot, hslot⟩ := hr.waits hwants
  obtain ⟨d, hd, -⟩ := settled_eq_ok_iff.mp h
  rw [hslot] at hd
  cases hd

theorem start_follows : start.Follows start := by
  refine ⟨rfl, fun hwants => ?_⟩
  cases hwants

theorem Follows.trans (hq : p.Follows q) (hr : q.Follows r) : p.Follows r :=
  ⟨hr.onlyPaths.trans hq.onlyPaths, hr.waits⟩

theorem follows_of_attach {o : ValueOption} {value : Bytes} (h : p.attach o value = .ok r) :
    p.Follows r := by
  obtain ⟨q, hq, h⟩ := bind_eq_ok_iff.mp h
  obtain ⟨d, -, h⟩ := bind_eq_ok_iff.mp h
  obtain ⟨_, -, rfl⟩ := settled_eq_ok_iff.mp hq
  cases h
  exact ⟨rfl, nofun⟩

theorem follows_of_await {o : ValueOption} (h : p.await o = .ok r) : p.Follows r := by
  obtain ⟨q, hq, h⟩ := bind_eq_ok_iff.mp h
  obtain ⟨_, -, rfl⟩ := settled_eq_ok_iff.mp hq
  cases h
  exact ⟨rfl, fun _ => ⟨_, rfl⟩⟩

theorem follows_of_turn {s : Switch} (h : p.turn s = .ok r) : p.Follows r := by
  obtain ⟨q, hq, h⟩ := bind_eq_ok_iff.mp h
  obtain ⟨d, -, h⟩ := bind_eq_ok_iff.mp h
  obtain ⟨_, -, rfl⟩ := settled_eq_ok_iff.mp hq
  cases h
  exact ⟨rfl, nofun⟩

theorem follows_of_long {name : Bytes} {value : Option Bytes} (h : p.long name value = .ok r) :
    p.Follows r := by
  unfold long at h
  split at h
  · cases h
  · exact follows_of_attach h
  · exact follows_of_await h
  · cases h
  · exact follows_of_turn h

theorem follows_of_letters {letter : UInt8} {rest : Bytes}
    (h : p.letters (letter :: rest) = .ok r) : p.Follows r := by
  induction rest generalizing p letter with
  | nil =>
    unfold letters at h
    split at h
    · cases h
    · obtain ⟨q, hq, h⟩ := bind_eq_ok_iff.mp h
      cases h
      exact follows_of_turn hq
    · exact follows_of_await h
  | cons c rest ih =>
    unfold letters at h
    split at h
    · cases h
    · obtain ⟨q, hq, h⟩ := bind_eq_ok_iff.mp h
      exact (follows_of_turn hq).trans (ih h)
    · exact follows_of_attach h

theorem follows_of_plain (h : p.plain argument = .ok r) : p.Follows r := by
  unfold plain at h
  split at h
  · cases h
    exact ⟨rfl, nofun⟩
  · split at h
    · cases h
    · obtain ⟨q, hq, h⟩ := bind_eq_ok_iff.mp h
      obtain ⟨_, -, rfl⟩ := settled_eq_ok_iff.mp hq
      cases h
      exact ⟨rfl, nofun⟩

theorem follows_of_take (hnot : p.onlyPaths = true ∨ argument ≠ endOfOptions)
    (h : p.take argument = .ok r) : p.Follows r := by
  unfold take at h
  split at h
  · exact follows_of_plain h
  · next hpaths =>
    split at h
    · exact absurd rfl (hnot.resolve_left hpaths)
    · exact follows_of_long h
    · exact follows_of_letters h
    · exact follows_of_plain h

/-- Without the end of the options, options stay options. -/
theorem follows_of_foldlM {arguments : List Bytes} (hnot : endOfOptions ∉ arguments)
    (hp : p.Follows p) (h : arguments.foldlM take p = .ok r) : p.Follows r := by
  induction arguments generalizing p with
  | nil =>
    cases h
    exact hp
  | cons argument rest ih =>
    rw [List.foldlM_cons] at h
    obtain ⟨q, hq, h⟩ := bind_eq_ok_iff.mp h
    obtain ⟨hne, hrest⟩ := not_or.mp fun hmem => hnot (List.mem_cons.mpr hmem)
    have hstep := follows_of_take (.inr (Ne.symm hne)) hq
    exact hstep.trans (ih hrest ⟨rfl, hstep.waits⟩ h)

end Progress

end KeywordSurvey.CommandLine
