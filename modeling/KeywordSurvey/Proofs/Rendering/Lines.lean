import KeywordSurvey.Proofs.Folder.Preorder
import KeywordSurvey.Proofs.Rendering.Numbers
import KeywordSurvey.Proofs.Text.Ascii
import KeywordSurvey.Proofs.Text.Utf8
import Mathlib.Algebra.GroupWithZero.Nat

/-!
# The lines of a printed survey

A survey printed as text has two lines for each directory, its path and its
numbers, if no path holds a newline, and only then (`splitOn_render_iff`). A
newline in a path is printed as it is, so it takes a line more, and a path with
newlines can stand for other directories. The numbers do not mind: among
surveys of the same paths the text tells all numbers apart
(`encode_render_eq_iff`).
-/

namespace KeywordSurvey

/-! ## Pieces of a list -/

/-- The first of several separators is where it is. -/
theorem append_cons_cancel {α : Type} {a : α} {front back front' back' : List α}
    (hfront : a ∉ front) (hfront' : a ∉ front')
    (h : front ++ a :: back = front' ++ a :: back') : front = front' ∧ back = back' := by
  rcases List.append_eq_append_iff.mp h with ⟨between, rfl, hcut⟩ | ⟨between, rfl, hcut⟩
  · cases between with
    | nil => exact ⟨(List.append_nil _).symm, (List.cons.inj hcut).2⟩
    | cons b between => exact absurd (by simp [(List.cons.inj hcut).1]) hfront'
  · cases between with
    | nil => exact ⟨List.append_nil _, (List.cons.inj hcut).2.symm⟩
    | cons b between => exact absurd (by simp [(List.cons.inj hcut).1]) hfront

section

variable {α : Type} [BEq α] [LawfulBEq α] {sep : α}

/-- Text with a separator behind each piece is cut into the pieces, and an
empty one. -/
theorem splitOn_flatMap_concat {pieces : List (List α)} (h : ∀ piece ∈ pieces, sep ∉ piece) :
    (pieces.flatMap (· ++ [sep])).splitOn sep = pieces ++ [[]] := by
  induction pieces with
  | nil => rfl
  | cons piece pieces ih =>
    rw [List.flatMap_cons, List.append_assoc, List.singleton_append,
      List.splitOn_append_cons_self_of_not_mem (h piece List.mem_cons_self),
      ih fun piece hpiece => h piece (List.mem_cons_of_mem _ hpiece), List.cons_append]

/-- No piece holds the separator. -/
theorem not_mem_of_mem_splitOn {text piece : List α} (h : piece ∈ text.splitOn sep) :
    sep ∉ piece := by
  induction text generalizing piece with
  | nil =>
    rw [List.splitOn_nil, List.mem_singleton] at h
    rw [h]
    exact List.not_mem_nil
  | cons a text ih =>
    rw [List.splitOn_cons_eq_if_modifyHead] at h
    by_cases ha : a == sep
    · rw [if_pos ha] at h
      rcases List.mem_cons.mp h with rfl | h
      · exact List.not_mem_nil
      · exact ih h
    · rw [if_neg ha] at h
      obtain ⟨first, rest, hsplit⟩ := List.exists_cons_of_ne_nil (List.splitOn_ne_nil sep text)
      rw [hsplit] at h ih
      rcases List.mem_cons.mp h with rfl | h
      · rw [List.mem_cons, not_or]
        exact ⟨fun hsep => ha (by rw [hsep]; exact BEq.rfl), ih List.mem_cons_self⟩
      · exact ih (List.mem_cons_of_mem _ h)

end

namespace Rendering

open Text

/-- The directories that are printed: those within the limit, each before those
below it. -/
def printed (root : Folder) (depth : Option Nat) : List Folder :=
  ((root.listing 0).filter fun visit => isPrinted depth visit.1).map Prod.snd

/-- The two lines of a directory: its path, on the right of 31 columns, and its
numbers. -/
def lines (folder : Folder) : List (List Char) :=
  [folder.path.lossy.leftpad 31 ' ', stats folder.report]

theorem render_text (s : Survey) (depth : Option Nat) :
    s.render .text depth = (printed s.root depth).flatMap block := by
  rw [Survey.render, text, Folder.visits_eq_listing, printed, List.flatMap_map]

theorem block_eq (folder : Folder) : block folder = (lines folder).flatMap (· ++ ['\n']) := by
  simp [block, lines, ← numbers_eq_stats, align_right, pathWidth]

theorem render_eq_lines (s : Survey) (depth : Option Nat) :
    s.render .text depth
      = ((printed s.root depth).flatMap lines).flatMap (· ++ ['\n']) := by
  rw [render_text, List.flatMap_assoc]
  exact List.flatMap_congr fun folder _ => block_eq folder

/-! ## Newlines -/

theorem count_newline_lossy (path : Path) :
    path.lossy.count '\n' = path.bytes.count 0x0A :=
  Utf8.count_decodeLossy (by decide) (by decide) path.bytes

theorem newline_mem_lossy_iff (path : Path) : '\n' ∈ path.lossy ↔ 0x0A ∈ path.bytes := by
  rw [← List.count_pos_iff, count_newline_lossy, List.count_pos_iff]

/-- A directory has lines without newlines in them if its path has none. -/
theorem newline_not_mem_lines_iff (folder : Folder) :
    (∀ line ∈ lines folder, '\n' ∉ line) ↔ 0x0A ∉ folder.path.bytes := by
  have hstats : '\n' ∉ stats folder.report :=
    numbers_eq_stats folder.report ▸ newline_not_mem_numbers folder.report
  simp [lines, newline_mem_lossy_iff, hstats]

/-- Each newline in a path is one more in its block. -/
theorem count_newline_block (folder : Folder) :
    (block folder).count '\n' = 2 + folder.path.bytes.count 0x0A := by
  have hnumbers := List.count_eq_zero_of_not_mem (newline_not_mem_numbers folder.report)
  have hblanks : (List.replicate (pathWidth - folder.path.lossy.length) ' ').count '\n' = 0 :=
    List.count_eq_zero_of_not_mem (by simp)
  simp [block, align, hnumbers, hblanks, count_newline_lossy]
  omega

/-- Whatever the blocks of two directories are, a third one can have a path
that makes its block these two. -/
theorem exists_block_eq_append (first second : Folder) :
    ∃ path : Path, ∀ children,
      block (.mk path second.report children) = block first ++ block second := by
  let front := align .right pathWidth first.path.lossy ++ '\n' :: numbers first.report ++ ['\n']
  let text := front ++ align .right pathWidth second.path.lossy
  refine ⟨⟨Utf8.encode text⟩, fun children => ?_⟩
  have hlossy : Path.lossy ⟨Utf8.encode text⟩ = text := Utf8.decodeLossy_encode text
  -- the path is too long to be padded
  have hlong : pathWidth - text.length = 0 := by
    have hlength := length_align .right pathWidth second.path.lossy
    rw [List.length_append]
    omega
  have halign : align .right pathWidth text = text := by
    show List.replicate (pathWidth - text.length) ' ' ++ text = text
    rw [hlong, List.replicate_zero, List.nil_append]
  show align .right pathWidth (Path.lossy ⟨Utf8.encode text⟩) ++ '\n' :: numbers second.report
    ++ ['\n'] = block first ++ block second
  rw [hlossy, halign]
  simp [text, front, block]

/-- **Two lines for each directory, unless a path holds a newline.** A survey
printed as text is, line by line, the path and the numbers of each directory
that is printed, if there is no newline in the paths of these, and only then.
Each newline in a path is one more in the text; with them a directory can look
like any two others. -/
theorem splitOn_render_iff (s : Survey) (depth : Option Nat) :
    ((s.render .text depth).splitOn '\n' = (printed s.root depth).flatMap lines ++ [[]] ↔
      ∀ folder ∈ printed s.root depth, 0x0A ∉ folder.path.bytes) ∧
    (s.render .text depth).count '\n'
      = ((printed s.root depth).map fun folder => 2 + folder.path.bytes.count 0x0A).sum ∧
    ∀ first second : Folder, ∃ path : Path, ∀ children,
      block (.mk path second.report children) = block first ++ block second := by
  refine ⟨⟨fun h folder hfolder => ?_, fun h => ?_⟩, ?_, exists_block_eq_append⟩
  · rw [← newline_not_mem_lines_iff]
    intro line hline
    have hmem : line ∈ (s.render .text depth).splitOn '\n' := by
      rw [h]
      exact List.mem_append_left _ (List.mem_flatMap.mpr ⟨folder, hfolder, hline⟩)
    exact not_mem_of_mem_splitOn hmem
  · rw [render_eq_lines]
    apply splitOn_flatMap_concat
    intro line hline
    obtain ⟨folder, hfolder, hline⟩ := List.mem_flatMap.mp hline
    exact (newline_not_mem_lines_iff folder).mpr (h folder hfolder) line hline
  · rw [render_text, List.count_flatMap]
    exact congrArg List.sum (List.map_congr_left fun folder _ => count_newline_block folder)

/-- The directory `p` with nothing in it but a directory whose name has two
lines. -/
def broken : Survey :=
  ⟨.mk (.ofString "p") .empty [.mk (.ofString "p/a\nb") .empty []], []⟩

/-- Its two directories take five lines. -/
theorem splitOn_render_broken :
    (printed broken.root none).length = 2 ∧
      (broken.render .text none).splitOn '\n'
        ≠ (printed broken.root none).flatMap lines ++ [[]] ∧
      ((broken.render .text none).splitOn '\n').length = 5 + 1 := by
  rw [render_text]
  refine ⟨by decide, by decide +kernel, by decide +kernel⟩

/-! ## Numbers -/

theorem encode_injective {text other : List Char} (h : Utf8.encode text = Utf8.encode other) :
    text = other := by
  rw [← Utf8.decodeLossy_encode text, h, Utf8.decodeLossy_encode]

/-- Behind a path that is known, a block says its numbers. -/
theorem block_append_eq_iff {folder other : Folder} {rest rest' : List Char}
    (hpath : folder.path.lossy = other.path.lossy) :
    block folder ++ rest = block other ++ rest' ↔
      (folder.report.size = other.report.size ∧ folder.report.tally = other.report.tally) ∧
        rest = rest' := by
  rw [← numbers_eq_iff]
  simp only [block, hpath, List.append_assoc, List.cons_append, List.nil_append,
    List.append_cancel_left_eq, List.cons.injEq, true_and]
  constructor
  · exact append_cons_cancel (newline_not_mem_numbers _) (newline_not_mem_numbers _)
  · rintro ⟨hnumbers, rfl⟩
    rw [hnumbers]

theorem flatMap_block_eq_iff {folders others : List Folder}
    (hpaths : folders.map (fun f => f.path.lossy) = others.map fun f => f.path.lossy) :
    folders.flatMap block = others.flatMap block ↔
      folders.map (fun f => (f.report.size, f.report.tally))
        = others.map fun f => (f.report.size, f.report.tally) := by
  induction folders generalizing others with
  | nil =>
    cases others with
    | nil => simp
    | cons other others => cases hpaths
  | cons folder folders ih =>
    cases others with
    | nil => cases hpaths
    | cons other others =>
      rw [List.map_cons, List.map_cons, List.cons.injEq] at hpaths
      rw [List.flatMap_cons, List.flatMap_cons, block_append_eq_iff hpaths.1, ih hpaths.2,
        List.map_cons, List.map_cons, List.cons.injEq, Prod.mk.injEq]

/-- **The text says every number.** If the directories that are printed of two
surveys have the same paths, as far as paths are printed, then their texts are
the same, byte for byte, exactly if the directories have the same sizes and the
same counts of keywords. -/
theorem encode_render_eq_iff {s t : Survey} {depth limit : Option Nat}
    (hpaths : (printed s.root depth).map (fun f => f.path.lossy)
      = (printed t.root limit).map fun f => f.path.lossy) :
    Utf8.encode (s.render .text depth) = Utf8.encode (t.render .text limit) ↔
      (printed s.root depth).map (fun f => (f.report.size, f.report.tally))
        = (printed t.root limit).map fun f => (f.report.size, f.report.tally) := by
  rw [← flatMap_block_eq_iff hpaths, ← render_text, ← render_text]
  exact ⟨encode_injective, congrArg Utf8.encode⟩

/-- The directory `p` with this size, this number of files and nothing in it but
a directory whose name looks like numbers. -/
def masked (size files : Count) : Survey :=
  ⟨.mk (.ofString "p") ⟨size, PerKeyword.const ⟨1000, by decide⟩, files⟩
    [.mk (.ofString "p/4\n 5 bytes\t6") .empty []], []⟩

/-- A size that is too wide for its column shows to the last digit. The number
of files does not show. -/
theorem encode_render_eq_iff_masked :
    (∀ size files size' files' : Count,
      (printed (masked size files).root none).map (fun f => f.path.lossy)
        = (printed (masked size' files').root (some 1)).map fun f => f.path.lossy) ∧
    Utf8.encode ((masked ⟨1234567890, by decide⟩ .one).render .text none)
      ≠ Utf8.encode ((masked ⟨1234567891, by decide⟩ .one).render .text (some 1)) ∧
    Utf8.encode ((masked ⟨1234567890, by decide⟩ .one).render .text none)
      = Utf8.encode ((masked ⟨1234567890, by decide⟩ .zero).render .text (some 1)) := by
  have hpaths : ∀ size files size' files' : Count,
      (printed (masked size files).root none).map (fun f => f.path.lossy)
        = (printed (masked size' files').root (some 1)).map fun f => f.path.lossy :=
    fun _ _ _ _ => rfl
  refine ⟨hpaths, ?_, ?_⟩
  · rw [Ne, encode_render_eq_iff (hpaths _ _ _ _)]
    decide +kernel
  · rw [encode_render_eq_iff (hpaths _ _ _ _)]
    rfl

end Rendering

end KeywordSurvey
