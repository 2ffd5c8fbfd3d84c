import KeywordSurvey.Path

/-!
# Paths by names

Where names are joined to a path one after the other, the path that comes out
tells which names they were (`Path.descend_injective`), wherever it started:
whether that was an empty path, one that ends with a slash or neither. Only the
names must be names: not empty, and without a slash. So what lies under two
entries of a directory is different (`Path.Under.name_eq`).
-/

namespace KeywordSurvey

/-- A name that an entry of a directory can have. -/
def IsName (name : Bytes) : Prop := name ≠ [] ∧ Path.slash ∉ name

instance (name : Bytes) : Decidable (IsName name) := inferInstanceAs (Decidable (_ ∧ _))

namespace Path

/-- What names are put behind: the path, with a slash at its end unless it is
empty. -/
def stem (p : Path) : Bytes :=
  if p.bytes.isEmpty || p.bytes.getLast? == some slash then p.bytes else p.bytes ++ [slash]

theorem prefix_stem (p : Path) : p.bytes <+: p.stem := by
  unfold stem
  split
  · exact List.prefix_rfl
  · exact List.prefix_append p.bytes [slash]

/-- The part of a path in front of the slash that a name is put behind. -/
theorem exists_stem {p : Path} (h : p.bytes ≠ []) :
    ∃ front, p.stem = front ++ [slash] ∧
      (p.bytes = front ∧ p.bytes.getLast? ≠ some slash ∨ p.bytes = front ++ [slash]) := by
  unfold stem
  have hempty : p.bytes.isEmpty = false := by simpa using h
  by_cases hlast : p.bytes.getLast? = some slash
  · obtain ⟨front, hfront⟩ := List.getLast?_eq_some_iff.mp hlast
    exact ⟨front, by simp [hfront], .inr hfront⟩
  · exact ⟨p.bytes, by simp [hempty, hlast], .inl ⟨rfl, hlast⟩⟩

theorem bytes_join {name : Bytes} (h : IsName name) (p : Path) :
    (p.join name).bytes = p.stem ++ name := by
  have hhead : ¬ (name.head? == some slash) = true := by
    rw [beq_iff_eq]
    exact fun hslash => h.2 (List.mem_of_head? hslash)
  rw [join, if_neg hhead, stem]
  split
  · rfl
  · exact List.append_cons p.bytes slash name

theorem suffix_join (p : Path) (name : Bytes) : name <:+ (p.join name).bytes := by
  unfold join
  split
  · exact List.suffix_rfl
  · split
    · exact List.suffix_append p.bytes name
    · exact (List.suffix_cons slash name).trans (List.suffix_append p.bytes _)

theorem stem_join {name : Bytes} (h : IsName name) (p : Path) :
    (p.join name).stem = p.stem ++ name ++ [slash] := by
  have hlast : (p.stem ++ name).getLast? = name.getLast? := by
    rw [List.getLast?_append, List.getLast?_eq_some_getLast h.1, Option.some_or]
  have hnone : ¬ (name.getLast? == some slash) = true := by
    rw [beq_iff_eq]
    exact fun hslash => h.2 (List.mem_of_getLast? hslash)
  rw [stem, bytes_join h, hlast, if_neg]
  simp [h.1, hnone]

/-- The path that comes out where the names are joined one after the other. -/
def descend (p : Path) (names : List Bytes) : Path := names.foldl join p

@[simp] theorem descend_nil (p : Path) : p.descend [] = p := rfl

@[simp] theorem descend_cons (p : Path) (name : Bytes) (names : List Bytes) :
    p.descend (name :: names) = (p.join name).descend names := rfl

/-- The names stand one behind the other, with slashes in between. -/
theorem bytes_descend {names : List Bytes} (hne : names ≠ []) (h : ∀ name ∈ names, IsName name)
    (p : Path) : (p.descend names).bytes = p.stem ++ [slash].intercalate names := by
  induction names generalizing p with
  | nil => exact absurd rfl hne
  | cons name names ih =>
    obtain ⟨hname, hnames⟩ := List.forall_mem_cons.mp h
    rw [descend_cons]
    cases names with
    | nil => rw [descend_nil, bytes_join hname, List.intercalate_singleton]
    | cons next names =>
      rw [ih (List.cons_ne_nil next names) hnames, stem_join hname, List.intercalate_cons_cons,
        List.append_assoc, List.append_assoc, List.append_assoc]

/-- Names lead away from a path. -/
theorem descend_ne_self {names : List Bytes} (hne : names ≠ []) (h : ∀ name ∈ names, IsName name)
    (p : Path) : p.descend names ≠ p := by
  intro heq
  have hbytes := bytes_descend hne h p
  rw [heq] at hbytes
  have hlength := congrArg List.length hbytes
  have hle := p.prefix_stem.length_le
  -- there is a first name, and it is not empty
  have hpos : 0 < ([slash].intercalate names).length := by
    obtain ⟨name, names, rfl⟩ := List.exists_cons_of_ne_nil hne
    have hname : 0 < name.length := List.length_pos_iff.mpr (h name List.mem_cons_self).1
    cases names with
    | nil => rwa [List.intercalate_singleton]
    | cons next names =>
      rw [List.intercalate_cons_cons, List.append_assoc, List.length_append]
      omega
  rw [List.length_append] at hlength
  omega

/-- **A path tells the names on the way to it.** -/
theorem descend_injective {p : Path} {names others : List Bytes}
    (h : ∀ name ∈ names, IsName name) (h' : ∀ name ∈ others, IsName name)
    (heq : p.descend names = p.descend others) : names = others := by
  cases names with
  | nil =>
    cases others with
    | nil => rfl
    | cons other others =>
      exact absurd heq.symm (descend_ne_self (List.cons_ne_nil other others) h' p)
  | cons name names =>
    cases others with
    | nil => exact absurd heq (descend_ne_self (List.cons_ne_nil name names) h p)
    | cons other others =>
      have hbytes := congrArg Path.bytes heq
      rw [bytes_descend (List.cons_ne_nil name names) h,
        bytes_descend (List.cons_ne_nil other others) h', List.append_cancel_left_eq] at hbytes
      -- the names are the pieces between the slashes
      have hpieces := congrArg (List.splitOn slash) hbytes
      rwa [List.splitOn_intercalate slash (fun name hname => (h name hname).2)
          (List.cons_ne_nil name names),
        List.splitOn_intercalate slash (fun name hname => (h' name hname).2)
          (List.cons_ne_nil other others)] at hpieces

/-! ## Paths under a directory -/

variable {dir p : Path} {name other : Bytes}

/-- Names lead from the directory to the path. -/
def Under (p dir : Path) : Prop :=
  ∃ names, (∀ name ∈ names, IsName name) ∧ p = dir.descend names

theorem Under.refl (p : Path) : p.Under p := ⟨[], by simp, rfl⟩

theorem Under.join (h : p.Under dir) (hname : IsName name) : (p.join name).Under dir := by
  obtain ⟨names, hnames, rfl⟩ := h
  refine ⟨names ++ [name], ?_, ?_⟩
  · rw [List.forall_mem_append, List.forall_mem_singleton]
    exact ⟨hnames, hname⟩
  · rw [descend, descend, List.foldl_append]
    rfl

theorem not_under_join (hname : IsName name) : ¬ dir.Under (dir.join name) := by
  rintro ⟨names, hnames, hdir⟩
  exact descend_ne_self (List.cons_ne_nil name names)
    (List.forall_mem_cons.mpr ⟨hname, hnames⟩) dir hdir.symm

/-- A path lies under one entry of a directory at most. -/
theorem Under.name_eq (hname : IsName name) (hother : IsName other)
    (h : p.Under (dir.join name)) (h' : p.Under (dir.join other)) : name = other := by
  obtain ⟨names, hnames, rfl⟩ := h
  obtain ⟨others, hothers, heq⟩ := h'
  have hsame : name :: names = other :: others :=
    descend_injective (List.forall_mem_cons.mpr ⟨hname, hnames⟩)
      (List.forall_mem_cons.mpr ⟨hother, hothers⟩) heq
  exact (List.cons.inj hsame).1

end Path

end KeywordSurvey
