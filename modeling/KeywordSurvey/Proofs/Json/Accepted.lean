import KeywordSurvey.Json.Reader
import KeywordSurvey.Proofs.Results

/-!
# What readers accept

Two things that hold of whatever a reader has read, in any spelling. Lists,
records and choices were put together from what their parts have read
(`Reader.Reads`), with one nesting less. And nothing is read differently if
more nestings are left (`Reader.Within`).
-/

namespace KeywordSurvey.Json

variable {α β σ : Type} {depth more : Nat} {s rest : List Char}

namespace Reader

/-- The reader reads `a` from some text, with so many nestings left. -/
def Reads (reader : Reader α) (depth : Nat) (a : α) : Prop :=
  ∃ s rest, reader depth s = .ok (a, rest)

/-- Whatever the reader reads, the other one reads as well, and more nestings
may be left. -/
def Within (reader other : Reader α) : Prop :=
  ∀ ⦃depth more : Nat⦄ ⦃s : List Char⦄ ⦃r : Taken α⦄,
    depth ≤ more → reader depth s = .ok r → other more s = .ok r

end Reader

/-! ## Lists -/

theorem items_reads {item : List Char → Except ReadError (Taken α)} {fuel : Nat} :
    ∀ {first : Bool} {done all : List α} {s : List Char},
      items item fuel first done s = .ok (all, rest) →
      ∀ a ∈ all, a ∈ done ∨ ∃ t u, item t = .ok (a, u) := by
  induction fuel with
  | zero =>
    intro first done all s h
    cases h
  | succ fuel ih =>
    intro first done all s h a ha
    rw [items, bind_eq_ok_iff] at h
    obtain ⟨next, -, h⟩ := h
    cases next with
    | none =>
      cases h
      exact .inl (List.mem_reverse.mp ha)
    | some t =>
      obtain ⟨⟨b, u⟩, hb, h⟩ := bind_eq_ok_iff.mp h
      rcases ih h a ha with ha | hread
      · rcases List.mem_cons.mp ha with rfl | ha
        · exact .inr ⟨t, u, hb⟩
        · exact .inl ha
      · exact .inr hread

theorem items_within {item other : List Char → Except ReadError (Taken α)}
    (hitem : ∀ {s r}, item s = .ok r → other s = .ok r) {fuel : Nat} :
    ∀ {first : Bool} {done : List α} {s : List Char} {r : Taken (List α)},
      items item fuel first done s = .ok r → items other fuel first done s = .ok r := by
  induction fuel with
  | zero =>
    intro first done s r h
    cases h
  | succ fuel ih =>
    intro first done s r h
    rw [items, bind_eq_ok_iff] at h ⊢
    obtain ⟨next, hnext, h⟩ := h
    refine ⟨next, hnext, ?_⟩
    cases next with
    | none => exact h
    | some t =>
      obtain ⟨p, hp, h⟩ := bind_eq_ok_iff.mp h
      exact bind_eq_ok_iff.mpr ⟨p, hitem hp, ih h⟩

/-- A list is read behind a bracket that takes a nesting. -/
theorem Reader.list_eq_ok {item : Reader α} {r : Taken (List α)}
    (h : Reader.list item depth s = .ok r) :
    ∃ below t, depth = below + 1 ∧ skipBlanks s = '[' :: t ∧ listBody (item below) t = .ok r := by
  unfold Reader.list at h
  split at h
  · next t hs =>
    cases depth with
    | zero => cases h
    | succ below => exact ⟨below, t, rfl, hs, h⟩
  · cases h

theorem Reader.list_reads {item : Reader α} {l : List α}
    (h : (Reader.list item).Reads depth l) :
    ∃ below, depth = below + 1 ∧ ∀ a ∈ l, item.Reads below a := by
  obtain ⟨s, rest, h⟩ := h
  obtain ⟨below, t, rfl, -, h⟩ := Reader.list_eq_ok h
  obtain ⟨⟨all, u⟩, hitems, h⟩ := bind_eq_ok_iff.mp h
  obtain ⟨v, -, h⟩ := bind_eq_ok_iff.mp h
  cases h
  refine ⟨below, rfl, fun a ha => ?_⟩
  rcases items_reads hitems a ha with hnil | hread
  · cases hnil
  · exact hread

theorem Reader.list_within {item other : Reader α} (hitem : item.Within other) :
    (Reader.list item).Within (Reader.list other) := by
  intro depth more s r hle h
  obtain ⟨below, t, rfl, hs, h⟩ := Reader.list_eq_ok h
  obtain ⟨above, rfl⟩ : ∃ above, more = above + 1 := ⟨more - 1, by omega⟩
  obtain ⟨p, hitems, h⟩ := bind_eq_ok_iff.mp h
  rw [Reader.list, hs]
  exact bind_eq_ok_iff.mpr
    ⟨p, items_within (fun hr => hitem (Nat.le_of_succ_le_succ hle) hr) hitems, h⟩

/-! ## Records -/

/-- What holds of what has been read of a record still does when the field has
been filled. -/
def Field.Keeps (field : Field σ) (depth : Nat) (P : σ → Prop) : Prop :=
  ∀ so next, P so → (field.fill so).Reads depth next → P next

/-- It holds before anything of a record has been read, and all fields keep
it. -/
structure Shape.Keeps (shape : Shape σ α) (depth : Nat) (P : σ → Prop) : Prop where
  start : P shape.start
  fields : ∀ field ∈ shape.fields, field.Keeps depth P

theorem members_keeps {fields : List (Field σ)} {P : σ → Prop}
    (hfields : ∀ field ∈ fields, field.Keeps depth P) {fuel : Nat} :
    ∀ {first : Bool} {so last : σ} {s : List Char}, P so →
      members fields depth fuel first so s = .ok (last, rest) → P last := by
  induction fuel with
  | zero =>
    intro first so last s _ h
    cases h
  | succ fuel ih =>
    intro first so last s hso h
    rw [members, bind_eq_ok_iff] at h
    obtain ⟨next, -, h⟩ := h
    cases next with
    | none =>
      cases h
      exact hso
    | some p =>
      obtain ⟨name, t⟩ := p
      cases hfind : fields.find? (fun f => f.name == name) with
      | none =>
        simp only [hfind, bind_eq_ok_iff] at h
        obtain ⟨_, -, _, -, h⟩ := h
        exact ih hso h
      | some field =>
        simp only [hfind] at h
        split at h
        · cases h
        · obtain ⟨u, -, h⟩ := bind_eq_ok_iff.mp h
          obtain ⟨⟨so', v⟩, hread, h⟩ := bind_eq_ok_iff.mp h
          exact ih (hfields field (List.mem_of_find?_eq_some hfind) so so' hso ⟨u, v, hread⟩) h

theorem inOrder_keeps {P : σ → Prop} {fields : List (Field σ)} :
    ∀ {first : Bool} {so last : σ} {s : List Char},
      (∀ field ∈ fields, field.Keeps depth P) → P so →
      inOrder depth fields first so s = .ok (last, rest) → P last := by
  induction fields with
  | nil =>
    intro first so last s _ hso h
    cases h
    exact hso
  | cons field fields ih =>
    intro first so last s hfields hso h
    rw [inOrder, bind_eq_ok_iff] at h
    obtain ⟨next, -, h⟩ := h
    cases next with
    | none => cases h
    | some t =>
      obtain ⟨⟨so', u⟩, hread, h⟩ := bind_eq_ok_iff.mp h
      exact ih (fun f hf => hfields f (List.mem_cons_of_mem field hf))
        (hfields field List.mem_cons_self so so' hso ⟨t, u, hread⟩) h

/-- A record is read behind a bracket or a brace that takes a nesting. -/
theorem Reader.record_eq_ok {shape : Shape σ α} {r : Taken α}
    (h : Reader.record shape depth s = .ok r) :
    ∃ below t, depth = below + 1 ∧
      (skipBlanks s = '[' :: t ∧ tupleBody shape below t = .ok r ∨
        skipBlanks s = '\x7b' :: t ∧ objectBody shape below t = .ok r) := by
  unfold Reader.record at h
  split at h
  · next t hs =>
    cases depth with
    | zero => cases h
    | succ below => exact ⟨below, t, rfl, .inl ⟨hs, h⟩⟩
  · next t hs =>
    cases depth with
    | zero => cases h
    | succ below => exact ⟨below, t, rfl, .inr ⟨hs, h⟩⟩
  · cases h

theorem complete_eq_ok_iff {shape : Shape σ α} {so : σ} {r : Taken α} :
    complete shape so s = .ok r ↔ shape.finish so = some r.1 ∧ s = r.2 := by
  obtain ⟨a, t⟩ := r
  unfold complete
  cases shape.finish so <;> simp [refuseHere]

/-- **A record was put together from what its fields have read.** -/
theorem Reader.record_reads {shape : Shape σ α} {a : α} (h : (Reader.record shape).Reads depth a) :
    ∃ below, depth = below + 1 ∧
      ∀ P : σ → Prop, shape.Keeps below P → ∃ so, P so ∧ shape.finish so = some a := by
  obtain ⟨s, rest, h⟩ := h
  obtain ⟨below, t, rfl, ⟨-, h⟩ | ⟨-, h⟩⟩ := Reader.record_eq_ok h
  all_goals
    obtain ⟨⟨so, u⟩, hread, h⟩ := bind_eq_ok_iff.mp h
    obtain ⟨⟨b, v⟩, hfinish, h⟩ := bind_eq_ok_iff.mp h
    obtain ⟨w, -, h⟩ := bind_eq_ok_iff.mp h
    cases h
    refine ⟨below, rfl, fun P hP => ⟨so, ?_, (complete_eq_ok_iff.mp hfinish).1⟩⟩
  · exact inOrder_keeps hP.fields hP.start hread
  · exact members_keeps hP.fields hP.start hread

/-- What a field reads is put where it belongs. -/
theorem Field.of_keeps {name : String} {get : σ → Option α} {set : σ → α → σ} {value : Reader α}
    {P : σ → Prop} (h : ∀ so a, P so → value.Reads depth a → P (set so a)) :
    (Field.of name get set value).Keeps depth P := by
  rintro so next hso ⟨s, rest, hread⟩
  obtain ⟨⟨a, t⟩, ha, hread⟩ := bind_eq_ok_iff.mp hread
  cases hread
  exact h so a hso ⟨s, rest, ha⟩

/-- The fields have the same name and the same place, and whatever the one is
filled with, so is the other. -/
structure Field.Within (field other : Field σ) : Prop where
  name : field.name = other.name
  isFilled : field.isFilled = other.isFilled
  fill : ∀ so, (field.fill so).Within (other.fill so)

theorem Field.of_within {name : String} {get : σ → Option α} {set : σ → α → σ}
    {value other : Reader α} (h : value.Within other) :
    (Field.of name get set value).Within (Field.of name get set other) where
  name := rfl
  isFilled := rfl
  fill so := by
    intro depth more s r hle hr
    obtain ⟨p, hread, hr⟩ := bind_eq_ok_iff.mp hr
    exact bind_eq_ok_iff.mpr ⟨p, h hle hread, hr⟩

/-- Under the same name the fields of one list and of the other are found. -/
theorem find?_within {fields others : List (Field σ)} (h : List.Forall₂ Field.Within fields others)
    (name : List Char) :
    (fields.find? (fun f => f.name == name) = none ∧
      others.find? (fun f => f.name == name) = none) ∨
    ∃ field other, fields.find? (fun f => f.name == name) = some field ∧
      others.find? (fun f => f.name == name) = some other ∧ field.Within other := by
  induction h with
  | nil => exact .inl ⟨rfl, rfl⟩
  | @cons field other fields others hfield _ ih =>
    by_cases hname : field.name = name
    · exact .inr ⟨field, other, List.find?_cons_of_pos (by simp [hname]),
        List.find?_cons_of_pos (by simp [← hfield.name, hname]), hfield⟩
    · rw [List.find?_cons_of_neg (by simp [hname]),
        List.find?_cons_of_neg (by simp [← hfield.name, hname])]
      exact ih

theorem members_within {fields others : List (Field σ)}
    (hfields : List.Forall₂ Field.Within fields others) (hle : depth ≤ more) {fuel : Nat} :
    ∀ {first : Bool} {so : σ} {s : List Char} {r : Taken σ},
      members fields depth fuel first so s = .ok r →
      members others more fuel first so s = .ok r := by
  induction fuel with
  | zero =>
    intro first so s r h
    cases h
  | succ fuel ih =>
    intro first so s r h
    rw [members, bind_eq_ok_iff] at h ⊢
    obtain ⟨next, hnext, h⟩ := h
    refine ⟨next, hnext, ?_⟩
    cases next with
    | none => exact h
    | some p =>
      obtain ⟨name, t⟩ := p
      rcases find?_within hfields name with ⟨hnone, hnone'⟩ | ⟨field, other, hsome, hsome', hfield⟩
      · simp only [hnone, hnone', bind_eq_ok_iff] at h ⊢
        obtain ⟨u, hu, v, hv, h⟩ := h
        exact ⟨u, hu, v, hv, ih h⟩
      · simp only [hsome, hsome', ← hfield.isFilled] at h ⊢
        split at h
        · cases h
        · next hopen =>
          obtain ⟨u, hu, h⟩ := bind_eq_ok_iff.mp h
          obtain ⟨p, hp, h⟩ := bind_eq_ok_iff.mp h
          rw [if_neg hopen]
          exact bind_eq_ok_iff.mpr ⟨u, hu, bind_eq_ok_iff.mpr ⟨p, hfield.fill so hle hp, ih h⟩⟩

theorem inOrder_within {fields others : List (Field σ)}
    (hfields : List.Forall₂ Field.Within fields others) (hle : depth ≤ more) :
    ∀ {first : Bool} {so : σ} {s : List Char} {r : Taken σ},
      inOrder depth fields first so s = .ok r → inOrder more others first so s = .ok r := by
  induction hfields with
  | nil => exact fun h => h
  | cons hfield _ ih =>
    intro first so s r h
    rw [inOrder, bind_eq_ok_iff] at h ⊢
    obtain ⟨next, hnext, h⟩ := h
    refine ⟨next, hnext, ?_⟩
    cases next with
    | none => exact h
    | some t =>
      obtain ⟨p, hp, h⟩ := bind_eq_ok_iff.mp h
      exact bind_eq_ok_iff.mpr ⟨p, hfield.fill so hle hp, ih h⟩

/-- Two ways to read the fields of a record, the other as in `Field.Within`. -/
theorem Reader.record_within {fields others : List (Field σ)} {start : σ} {finish : σ → Option α}
    (hfields : List.Forall₂ Field.Within fields others) :
    (Reader.record ⟨fields, start, finish⟩).Within (Reader.record ⟨others, start, finish⟩) := by
  intro depth more s r hle h
  obtain ⟨below, t, rfl, hbody⟩ := Reader.record_eq_ok h
  obtain ⟨above, rfl⟩ : ∃ above, more = above + 1 := ⟨more - 1, by omega⟩
  have hle := Nat.le_of_succ_le_succ hle
  rcases hbody with ⟨hs, h⟩ | ⟨hs, h⟩
  · obtain ⟨p, hp, h⟩ := bind_eq_ok_iff.mp h
    rw [Reader.record, hs]
    exact bind_eq_ok_iff.mpr ⟨p, inOrder_within hfields hle hp, h⟩
  · obtain ⟨p, hp, h⟩ := bind_eq_ok_iff.mp h
    rw [Reader.record, hs]
    exact bind_eq_ok_iff.mpr ⟨p, members_within hfields hle hp, h⟩

/-! ## Choices -/

theorem mem_of_alternative {all : List (Alternative α)} {chosen : Alternative α}
    (h : alternative all s = .ok (chosen, rest)) : chosen ∈ all := by
  obtain ⟨⟨name, t⟩, -, h⟩ := bind_eq_ok_iff.mp h
  cases hfind : all.find? (fun alt => alt.name == name) with
  | none =>
    simp only [hfind] at h
    cases h
  | some alt =>
    simp only [hfind] at h
    cases h
    exact List.mem_of_find?_eq_some hfind

/-- An alternative is chosen by its name alone, or in an object that takes a
nesting. -/
theorem Reader.choice_eq_ok_iff {all : List (Alternative α)} {r : Taken α} :
    Reader.choice all depth s = .ok r ↔
      (∃ t chosen, skipBlanks s = '"' :: t ∧ alternative all ('"' :: t) = .ok (chosen, r.2) ∧
        chosen.alone = some r.1) ∨
      ∃ t chosen payload u v w below, skipBlanks s = '\x7b' :: t ∧ depth = below + 1 ∧
        alternative all t = .ok (chosen, u) ∧ colon u = .ok v ∧
        chosen.payload = some payload ∧ payload below v = .ok (r.1, w) ∧
        skipBlanks w = '\x7d' :: r.2 := by
  unfold Reader.choice
  constructor
  · intro h
    cases hs : skipBlanks s with
    | nil =>
      simp only [hs] at h
      cases h
    | cons c t =>
      simp only [hs] at h
      split at h
      · next hbrace =>
        cases depth with
        | zero => cases h
        | succ below =>
          obtain ⟨⟨chosen, u⟩, hchosen, h⟩ := bind_eq_ok_iff.mp h
          obtain ⟨v, hv, h⟩ := bind_eq_ok_iff.mp h
          cases hpayload : chosen.payload with
          | none =>
            simp only [hpayload] at h
            cases h
          | some payload =>
            simp only [hpayload] at h
            obtain ⟨⟨a, w⟩, hread, h⟩ := bind_eq_ok_iff.mp h
            cases hw : skipBlanks w with
            | nil =>
              simp only [hw] at h
              cases h
            | cons d x =>
              simp only [hw] at h
              split at h
              · next hclose =>
                cases h
                exact .inr ⟨t, chosen, payload, u, v, w, below, by rw [hbrace], rfl, hchosen, hv,
                  hpayload, hread, by rw [hw, hclose]⟩
              · cases h
      · split at h
        · next hquote =>
          obtain ⟨⟨chosen, u⟩, hchosen, h⟩ := bind_eq_ok_iff.mp h
          cases halone : chosen.alone with
          | none =>
            simp only [halone] at h
            cases h
          | some a =>
            simp only [halone] at h
            cases h
            exact .inl ⟨t, chosen, by rw [hquote], hquote ▸ hchosen, halone⟩
        · cases h
  · rintro (⟨t, chosen, hs, hchosen, halone⟩ |
      ⟨t, chosen, payload, u, v, w, below, hs, rfl, hchosen, hv, hpayload, hread, hw⟩)
    · simp [hs, hchosen, halone, Bind.bind, Except.bind]
    · simp [hs, hchosen, hv, hpayload, hread, hw, Bind.bind, Except.bind]

theorem Reader.choice_reads {all : List (Alternative α)} {a : α}
    (h : (Reader.choice all).Reads depth a) :
    ∃ chosen ∈ all, chosen.alone = some a ∨
      ∃ payload below, chosen.payload = some payload ∧ depth = below + 1 ∧
        payload.Reads below a := by
  obtain ⟨s, rest, h⟩ := h
  rcases Reader.choice_eq_ok_iff.mp h with ⟨t, chosen, -, hchosen, halone⟩ |
    ⟨t, chosen, payload, u, v, w, below, -, rfl, hchosen, -, hpayload, hread, -⟩
  · exact ⟨chosen, mem_of_alternative hchosen, .inl halone⟩
  · exact ⟨chosen, mem_of_alternative hchosen, .inr ⟨payload, below, hpayload, rfl, v, w, hread⟩⟩

theorem Reader.choice_within {all : List (Alternative α)}
    (hwithin : ∀ alt ∈ all, ∀ payload, alt.payload = some payload → payload.Within payload) :
    (Reader.choice all).Within (Reader.choice all) := by
  intro depth more s r hle h
  rcases Reader.choice_eq_ok_iff.mp h with hname |
    ⟨t, chosen, payload, u, v, w, below, hs, rfl, hchosen, hv, hpayload, hread, hw⟩
  · exact Reader.choice_eq_ok_iff.mpr (.inl hname)
  · obtain ⟨above, rfl⟩ : ∃ above, more = above + 1 := ⟨more - 1, by omega⟩
    have hmore := hwithin chosen (mem_of_alternative hchosen) payload hpayload
      (Nat.le_of_succ_le_succ hle) hread
    exact Reader.choice_eq_ok_iff.mpr (.inr
      ⟨t, chosen, payload, u, v, w, above, hs, rfl, hchosen, hv, hpayload, hmore, hw⟩)

end KeywordSurvey.Json
