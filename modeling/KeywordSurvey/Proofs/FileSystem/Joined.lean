import KeywordSurvey.FileSystem.Tree
import KeywordSurvey.Proofs.Results
import KeywordSurvey.Proofs.SourceTree.Descent

/-!
# Paths of entries

The path of an entry leads to where the path of its directory leads, and from
there one step further (`FileSystem.find_join`). This is so whether the path of
the directory ends with a slash, which asks for a step of its own, or not. Read
by its components, the path of an entry is that of the directory and the name
(`Path.components_join`).
-/

namespace KeywordSurvey

/-- A name that leads into a directory: not to the directory itself, nor to the
one above it. -/
def IsEntryName (name : Bytes) : Prop := IsName name ∧ name ≠ Path.here ∧ name ≠ Path.up

instance (name : Bytes) : Decidable (IsEntryName name) := inferInstanceAs (Decidable (_ ∧ _))

namespace Path

variable {name : Bytes}

theorem pieces_append_slash (front tail : Bytes) :
    pieces (front ++ slash :: tail) = pieces front ++ pieces tail :=
  List.splitOn_append_cons_self front tail

theorem pieces_name (h : IsName name) : pieces name = [name] := List.splitOn_eq_singleton h.2

/-- What stands behind a slash adds its components, but no empty ones and no
dots. -/
theorem components_append_slash (front tail : Bytes) :
    components ⟨front ++ slash :: tail⟩
      = components ⟨front⟩ ++ (pieces tail).filter fun c => !(c.isEmpty || c == here) := by
  unfold components
  rw [pieces_append_slash]
  obtain ⟨first, rest, hpieces⟩ := List.exists_cons_of_ne_nil
    (List.splitOn_ne_nil slash front)
  rw [pieces, hpieces, List.cons_append]
  dsimp only
  rw [List.filter_append]
  split
  · rfl
  · rfl

theorem components_join (hentry : IsEntryName name) (p : Path) :
    (p.join name).components = p.components ++ [name] := by
  obtain ⟨h, hhere, -⟩ := hentry
  have hjoin : p.join name = ⟨p.stem ++ name⟩ := congrArg mk (bytes_join h p)
  have hname : (pieces name).filter (fun c => !(c.isEmpty || c == here)) = [name] := by
    rw [pieces_name h]
    simp [h.1, hhere]
  obtain ⟨bytes⟩ := p
  by_cases hbytes : bytes = []
  · subst hbytes
    rw [hjoin]
    simp only [components, stem, List.isEmpty_nil, Bool.true_or, if_true, List.nil_append,
      pieces_name h]
    simp [pieces, h.1]
  · obtain ⟨front, hstem, hfront⟩ := exists_stem (p := ⟨bytes⟩) hbytes
    rw [hjoin, hstem, ← List.append_cons, components_append_slash, hname]
    rcases hfront with ⟨rfl, -⟩ | rfl
    · rfl
    · rw [components_append_slash]
      simp [pieces]

/-- An entry is not its directory. -/
theorem join_same (h : IsEntryName name) (p : Path) : (p.join name).same p = false := by
  rw [Bool.eq_false_iff, ne_eq, same_iff, components_join h]
  rintro ⟨-, hcomponents⟩
  simp at hcomponents

theorem fileName?_join (h : IsEntryName name) (p : Path) :
    (p.join name).fileName? = some name := by
  rw [fileName?, components_join h, List.getLast?_concat]
  simp [h.2.1, h.2.2]

end Path

namespace FileSystem

/-- A name that the system takes. -/
def IsSystemName (name : Bytes) : Prop :=
  IsEntryName name ∧ name.length ≤ longestName ∧ 0 ∉ name

instance (name : Bytes) : Decidable (IsSystemName name) := inferInstanceAs (Decidable (_ ∧ _))

variable {fs : FileSystem}

/-! ## Steps -/

/-- The steps of an entry's path. Where the path of the directory ends with a
slash, the last step for the directory stays where it is. -/
theorem steps_join {name : Bytes} (h : IsName name) {p : Path} (hp : p.bytes ≠ []) :
    ∃ names, steps (p.join name).bytes = names ++ [name] ∧
      (steps p.bytes = names ∨ steps p.bytes = names ++ [Path.here]) := by
  obtain ⟨front, hstem, hfront⟩ := Path.exists_stem hp
  have hlast : (p.join name).bytes.getLast? ≠ some Path.slash := by
    rw [Path.bytes_join h, List.getLast?_append_of_ne_nil _ h.1]
    exact fun hslash => h.2 (List.mem_of_getLast? hslash)
  have hjoin : (p.join name).bytes = front ++ Path.slash :: name := by
    rw [Path.bytes_join h, hstem, ← List.append_cons]
  have hname : (Path.pieces name).filter (fun name => !name.isEmpty) = [name] := by
    rw [Path.pieces_name h]
    simp [h.1]
  refine ⟨(Path.pieces front).filter fun name => !name.isEmpty, ?_, ?_⟩
  · rw [steps, beq_false_of_ne hlast, hjoin, Path.pieces_append_slash, List.filter_append, hname]
    rfl
  · rcases hfront with ⟨rfl, hslash⟩ | hbytes
    · rw [steps, beq_false_of_ne hslash]
      exact .inl rfl
    · rw [hbytes, steps, Path.pieces_append_slash, List.filter_append]
      refine .inr ?_
      simp [Path.pieces]

theorem startOf_join {name : Bytes} (h : IsName name) {p : Path} (hp : p.bytes ≠ [])
    (directory : Place) : startOf (p.join name).bytes directory = startOf p.bytes directory := by
  obtain ⟨rest, hrest⟩ := p.prefix_stem
  obtain ⟨first, bytes, hbytes⟩ := List.exists_cons_of_ne_nil hp
  rw [startOf, startOf, Path.bytes_join h, ← hrest, hbytes]
  rfl

/-! ## Following them -/

/-- **One step** goes on to a place, or stops at a link, or is refused, whatever
comes after it. -/
theorem walk_cons_cases (fs : FileSystem) (place : Place) (name : Bytes) :
    (∃ next, ∀ rest, fs.walk true place (name :: rest) = fs.walk true next rest) ∨
    (∃ directory target, ∀ rest,
      fs.walk true place (name :: rest) = .atLink directory target rest) ∨
    ∃ n, ∀ rest, fs.walk true place (name :: rest) = .refused n := by
  simp only [walk]
  split
  · by_cases hhere : name = Path.here
    · exact .inl ⟨place, fun rest => if_pos hhere⟩
    simp only [if_neg hhere]
    by_cases hup : name = Path.up
    · exact .inl ⟨place.dropLast, fun rest => if_pos hup⟩
    simp only [if_neg hup]
    by_cases hlong : longestName < name.length
    · exact .inr (.inr ⟨nameTooLong, fun rest => if_pos hlong⟩)
    simp only [if_neg hlong]
    split
    · exact .inr (.inr ⟨noEntry, fun _ => rfl⟩)
    · next target _ => exact .inr (.inl ⟨place, target, fun _ => rfl⟩)
    · exact .inl ⟨place ++ [name], fun _ => rfl⟩
  · exact .inr (.inr ⟨notDirectory, fun _ => rfl⟩)
  · exact .inr (.inr ⟨noEntry, fun _ => rfl⟩)

/-- Where the first part of the way comes to a stop, and what becomes of the
second part then. -/
theorem walk_append (place : Place) (names more : List Bytes) :
    fs.walk true place (names ++ more) =
      match fs.walk true place names with
      | .arrived reached => fs.walk true reached more
      | .atLink directory target rest => .atLink directory target (rest ++ more)
      | .refused n => .refused n := by
  induction names generalizing place with
  | nil => rw [List.nil_append, walk]
  | cons name names ih =>
    rw [List.cons_append]
    rcases fs.walk_cons_cases place name with ⟨next, hnext⟩ | ⟨directory, target, hlink⟩ | ⟨n, hn⟩
    · rw [hnext, hnext, ih]
    · rw [hlink, hlink]
    · rw [hn, hn]

/-- To stay in a directory before the next step changes nothing. -/
theorem walk_here (place : Place) (name : Bytes) (rest : List Bytes) :
    fs.walk true place (Path.here :: name :: rest) = fs.walk true place (name :: rest) := by
  rw [walk]
  split
  · rw [if_pos rfl]
  · next hplace => simp only [walk, hplace]
  · next hplace => simp only [walk, hplace]

/-- **The way goes on** from the place that its first part leads to, if no link
has to be followed any more. -/
theorem resolve_append {links : Nat} {place reached last : Place} {names more : List Bytes}
    (h : fs.resolve true links place names = .ok reached)
    (hmore : fs.walk true reached more = .arrived last) :
    fs.resolve true links place (names ++ more) = .ok last := by
  fun_induction resolve fs true links place names with
  | case1 links place names reached hwalk =>
    cases h
    unfold resolve
    rw [walk_append, hwalk]
    simp only [hmore]
  | case2 => cases h
  | case3 => cases h
  | case4 place names directory target rest hwalk links ih =>
    unfold resolve
    rw [walk_append, hwalk]
    simpa only [List.append_assoc] using ih h

/-- The same for a way that stays in a directory before its last step. -/
theorem resolve_here (links : Nat) (place : Place) (names : List Bytes) (name : Bytes) :
    fs.resolve true links place (names ++ [Path.here, name])
      = fs.resolve true links place (names ++ [name]) := by
  induction links generalizing place names with
  | zero =>
    unfold resolve
    rw [walk_append, walk_append]
    cases fs.walk true place names <;> simp only [walk_here]
  | succ links ih =>
    unfold resolve
    rw [walk_append, walk_append]
    cases fs.walk true place names with
    | arrived reached => simp only [walk_here]
    | refused n => rfl
    | atLink directory target rest =>
      simpa only [List.append_assoc] using ih _ (steps target ++ rest)

/-! ## Finding -/

variable {dir path : Path} {place : Place} {node : Node}

/-- What it takes to find something: a path that the system is asked about, and
a way to a place where it lies. -/
theorem find_eq_ok_iff :
    fs.find path = .ok (place, node) ↔
      (0 ∉ path.bytes ∧ path.bytes.length ≤ longestPath ∧ path.bytes ≠ []) ∧
        fs.resolve true mostLinks (startOf path.bytes fs.current) (steps path.bytes) = .ok place ∧
        fs.node? place = some node := by
  unfold find placeOf
  by_cases hzero : 0 ∈ path.bytes
  · simp [hzero]
  by_cases hlong : longestPath < path.bytes.length
  · simp [hzero, hlong, Nat.not_le.mpr hlong]
  by_cases hempty : path.bytes = []
  · simp [hempty, longestPath, Bind.bind, Except.bind]
  simp only [List.contains_eq_mem, hzero, hlong, hempty, decide_false, Bool.false_eq_true, if_false,
    List.isEmpty_iff, bind_eq_ok_iff, mapError_eq_ok_iff, not_false_eq_true, ne_eq,
    Nat.not_lt.mp hlong, true_and]
  constructor
  · rintro ⟨reached, hreached, hnode⟩
    split at hnode
    · next found hfound =>
      cases hnode
      exact ⟨hreached, hfound⟩
    · cases hnode
  · rintro ⟨hreached, hnode⟩
    exact ⟨place, hreached, by rw [hnode]⟩

section

variable {name : Bytes} (hnode : fs.node? (place ++ [name]) = some node)
  (hlink : ∀ target, node ≠ .link target) (hname : IsSystemName name)

include hnode hlink hname

/-- An entry that is no link is one step away from its directory. -/
theorem walk_entry (hplace : fs.node? place = some .directory) :
    fs.walk true place [name] = .arrived (place ++ [name]) := by
  obtain ⟨⟨-, hhere, hup⟩, hlong, -⟩ := hname
  rw [walk, hplace]
  simp only [if_neg hhere, if_neg hup, if_neg (Nat.not_lt.mpr hlong), hnode]
  cases node with
  | link target => exact absurd rfl (hlink target)
  | directory | file | unreadable | pipe => rw [walk]

/-- **The path of an entry leads to the entry**, if it is no link and the system
is asked about the path. -/
theorem find_join (hdir : fs.find dir = .ok (place, .directory))
    (hfits : (dir.join name).bytes.length ≤ longestPath) :
    fs.find (dir.join name) = .ok (place ++ [name], node) := by
  obtain ⟨⟨hzeros, -, hempty⟩, hreached, hplace⟩ := find_eq_ok_iff.mp hdir
  have hwalk := walk_entry hnode hlink hname hplace
  obtain ⟨⟨hname, -⟩, -, hzero⟩ := hname
  have hstem : (dir.join name).bytes = dir.stem ++ name := Path.bytes_join hname dir
  refine find_eq_ok_iff.mpr ⟨⟨fun hmem => ?_, hfits, fun hnil => ?_⟩, ?_, hnode⟩
  · obtain ⟨front, hfront, hbytes⟩ := Path.exists_stem hempty
    have hfrontZero : 0 ∉ front := by
      rcases hbytes with ⟨hbytes, -⟩ | hbytes
      · rwa [← hbytes]
      · exact fun hmem => hzeros (hbytes ▸ List.mem_append_left _ hmem)
    rw [hstem, hfront] at hmem
    simp [hfrontZero, hzero, Path.slash] at hmem
  · rw [hstem, List.append_eq_nil_iff] at hnil
    exact hname.1 hnil.2
  · obtain ⟨names, hjoin, hsteps⟩ := steps_join hname hempty
    rw [startOf_join hname hempty, hjoin]
    rcases hsteps with hsteps | hsteps
    · rw [hsteps] at hreached
      exact resolve_append hreached hwalk
    · rw [hsteps] at hreached
      have hresolve := resolve_append hreached hwalk
      rwa [List.append_assoc, List.singleton_append, resolve_here] at hresolve

end

end FileSystem

end KeywordSurvey
