import Mathlib.Data.List.Forall2

/-!
# Results and lists of results

What it means that a computation in steps, or one for each item of a list, has
a result.
-/

namespace KeywordSurvey

/-- A computation in two steps has a result if both have one. -/
theorem bind_eq_ok_iff {ε α β : Type} {x : Except ε α} {f : α → Except ε β} {b : β} :
    (x >>= f) = .ok b ↔ ∃ a, x = .ok a ∧ f a = .ok b := by
  cases x <;> simp [Bind.bind, Except.bind]

/-- It fails in one of them, and not in the second if the first fails. -/
theorem bind_eq_error_iff {ε α β : Type} {x : Except ε α} {f : α → Except ε β} {e : ε} :
    (x >>= f) = .error e ↔ x = .error e ∨ ∃ a, x = .ok a ∧ f a = .error e := by
  cases x <;> simp [Bind.bind, Except.bind]

theorem map_eq_ok_iff {ε α β : Type} {x : Except ε α} {f : α → β} {b : β} :
    x.map f = .ok b ↔ ∃ a, x = .ok a ∧ f a = b := by
  cases x <;> simp [Except.map]

theorem map_eq_error_iff {ε α β : Type} {x : Except ε α} {f : α → β} {e : ε} :
    x.map f = .error e ↔ x = .error e := by
  cases x <;> simp [Except.map]

/-- To put a failure in other words is not to mend it. -/
theorem mapError_eq_error_iff {ε ε' α : Type} {x : Except ε α} {f : ε → ε'} {e : ε'} :
    x.mapError f = .error e ↔ ∃ cause, x = .error cause ∧ f cause = e := by
  cases x with
  | ok a =>
    change Except.ok a = _ ↔ _
    simp
  | error cause =>
    change Except.error (f cause) = _ ↔ _
    simp

theorem mapError_eq_ok_iff {ε ε' α : Type} {x : Except ε α} {f : ε → ε'} {a : α} :
    x.mapError f = .ok a ↔ x = .ok a := by
  cases x with
  | ok b =>
    change Except.ok b = _ ↔ _
    simp
  | error cause =>
    change Except.error (f cause) = _ ↔ _
    simp

/-! ## Lists of results -/

/-- A computation for each item fails at the first item that it fails for. -/
theorem mapM_eq_error_iff {ε α β : Type} {f : α → Except ε β} {l : List α} {e : ε} :
    l.mapM f = .error e ↔ ∃ before a after, l = before ++ a :: after ∧
      (∀ b ∈ before, ∃ c, f b = .ok c) ∧ f a = .error e := by
  induction l with
  | nil => simp [Pure.pure, Except.pure]
  | cons a l ih =>
    rw [List.mapM_cons, bind_eq_error_iff]
    constructor
    · rintro (ha | ⟨c, hc, hl⟩)
      · exact ⟨[], a, l, rfl, by simp, ha⟩
      · have hl : l.mapM f = .error e := by
          simpa [bind_eq_error_iff, Pure.pure, Except.pure] using hl
        obtain ⟨before, b, after, rfl, hbefore, hb⟩ := ih.mp hl
        refine ⟨a :: before, b, after, rfl, fun d hd => ?_, hb⟩
        rcases List.mem_cons.mp hd with rfl | hd
        · exact ⟨c, hc⟩
        · exact hbefore d hd
    · rintro ⟨_ | ⟨first, before⟩, b, after, hsplit, hbefore, hb⟩
      · obtain ⟨rfl, rfl⟩ := List.cons.inj hsplit
        exact .inl hb
      · obtain ⟨rfl, rfl⟩ := List.cons.inj hsplit
        obtain ⟨c, hc⟩ := hbefore a List.mem_cons_self
        have hl := ih.mpr
          ⟨before, b, after, rfl, fun d hd => hbefore d (List.mem_cons_of_mem _ hd), hb⟩
        exact .inr ⟨c, hc, bind_eq_error_iff.mpr (.inl hl)⟩

theorem mapM_eq_some_iff {α β : Type} {f : α → Option β} {l : List α} {m : List β} :
    l.mapM f = some m ↔ l.map f = m.map some := by
  induction l generalizing m with
  | nil => cases m <;> simp
  | cons a l ih =>
    rw [List.mapM_cons]
    cases ha : f a with
    | none => cases m <;> simp [ha]
    | some b =>
      cases m with
      | nil => cases l.mapM f <;> simp
      | cons c m => cases hl : l.mapM f <;> simp [ha, ← ih, hl]

theorem mapM_id_eq_ok_iff {ε α : Type} {results : List (Except ε α)} {l : List α} :
    results.mapM id = .ok l ↔ results = l.map .ok := by
  induction results generalizing l with
  | nil => cases l <;> simp [Pure.pure, Except.pure]
  | cons r results ih =>
    rw [List.mapM_cons, bind_eq_ok_iff]
    cases l with
    | nil => simp [bind_eq_ok_iff, Pure.pure, Except.pure]
    | cons a l => simp [bind_eq_ok_iff, Pure.pure, Except.pure, ih]

/-- Lists with the same values pair up. -/
theorem exists_pairs {α β γ : Type} {f : α → γ} {g : β → γ} :
    ∀ {l : List α} {m : List β}, l.map f = m.map g →
      ∃ pairs : List (α × β), pairs.map Prod.fst = l ∧ pairs.map Prod.snd = m ∧
        ∀ p ∈ pairs, f p.1 = g p.2
  | [], [], _ => ⟨[], rfl, rfl, by simp⟩
  | [], _ :: _, h => by simp at h
  | _ :: _, [], h => by simp at h
  | a :: l, b :: m, h => by
    rw [List.map_cons, List.map_cons, List.cons.injEq] at h
    obtain ⟨pairs, hfst, hsnd, hpairs⟩ := exists_pairs h.2
    exact ⟨(a, b) :: pairs, by simp [hfst], by simp [hsnd], by simpa [h.1] using hpairs⟩

/-- Two lists of pairs with the same keys are the same if equal keys have equal
values. -/
theorem eq_of_map_fst_eq {α β : Type} : ∀ {l m : List (α × β)},
    l.map Prod.fst = m.map Prod.fst →
      (∀ a b c, (a, b) ∈ l → (a, c) ∈ m → b = c) → l = m
  | [], [], _, _ => rfl
  | [], _ :: _, h, _ => by simp at h
  | _ :: _, [], h, _ => by simp at h
  | (a, b) :: l, (a', c) :: m, h, hvalues => by
    rw [List.map_cons, List.map_cons, List.cons.injEq] at h
    obtain ⟨rfl, h⟩ := h
    rw [hvalues a b c List.mem_cons_self List.mem_cons_self,
      eq_of_map_fst_eq h fun a b c hb hc =>
        hvalues a b c (List.mem_cons_of_mem _ hb) (List.mem_cons_of_mem _ hc)]

/-- If something is found for each item, and each thing found has a result,
then the items pair up with the results. -/
theorem exists_results {ε α β γ : Type} {met : α → Option β} {result : β → Except ε γ}
    {items : List α} {found : List β} {results : List γ}
    (hfound : items.map met = found.map some) (hresults : found.map result = results.map .ok) :
    ∃ pairs : List (α × γ), pairs.map Prod.fst = items ∧ pairs.map Prod.snd = results ∧
      ∀ p ∈ pairs, ∃ b, met p.1 = some b ∧ result b = .ok p.2 := by
  have hpairs : items.map (fun a => (met a).map result)
      = results.map fun c => some (.ok c) := by
    calc items.map (fun a => (met a).map result)
        = (items.map met).map (Option.map result) := by rw [List.map_map]; rfl
      _ = (found.map result).map some := by rw [hfound, List.map_map, List.map_map]; rfl
      _ = results.map fun c => some (.ok c) := by rw [hresults, List.map_map]; rfl
  obtain ⟨pairs, hfst, hsnd, heq⟩ := exists_pairs hpairs
  refine ⟨pairs, hfst, hsnd, fun p hp => ?_⟩
  exact Option.map_eq_some_iff.mp (heq p hp)

/-- A list whose values are all values of `g` is the values of a list. -/
theorem exists_map_eq {α β γ : Type} {f : α → γ} {g : β → γ} {l : List α}
    (h : ∀ a ∈ l, ∃ b, f a = g b) : ∃ m : List β, l.map f = m.map g := by
  induction l with
  | nil => exact ⟨[], rfl⟩
  | cons a l ih =>
    obtain ⟨b, hb⟩ := h a List.mem_cons_self
    obtain ⟨m, hm⟩ := ih fun a ha => h a (List.mem_cons_of_mem _ ha)
    exact ⟨b :: m, by rw [List.map_cons, List.map_cons, hb, hm]⟩

/-- What holds from some number on, for each item of a list, holds from some
number on for all of them. -/
theorem exists_bound {α : Type} {P : Nat → α → Prop}
    (hmono : ∀ {n m a}, n ≤ m → P n a → P m a) {l : List α}
    (h : ∀ a ∈ l, ∃ n, P n a) : ∃ n, ∀ a ∈ l, P n a := by
  induction l with
  | nil => exact ⟨0, by simp⟩
  | cons a l ih =>
    obtain ⟨n, hn⟩ := h a List.mem_cons_self
    obtain ⟨m, hm⟩ := ih fun a ha => h a (List.mem_cons_of_mem _ ha)
    refine ⟨max n m, fun x hx => ?_⟩
    rcases List.mem_cons.mp hx with rfl | hx
    · exact hmono (Nat.le_max_left n m) hn
    · exact hmono (Nat.le_max_right n m) (hm x hx)

/-- If each item is found with levels enough, and is what is wanted of it, then
all are with one number of levels. -/
theorem exists_found {α β γ : Type} {f : Nat → α → Option β} {g : β → γ} {k : α → γ}
    (hmono : ∀ {n m a b}, n ≤ m → f n a = some b → f m a = some b) {items : List α}
    (h : ∀ a ∈ items, ∃ n b, f n a = some b ∧ g b = k a) :
    ∃ n, ∃ found : List β, items.map (f n) = found.map some ∧ found.map g = items.map k := by
  obtain ⟨n, hn⟩ := exists_bound (P := fun n a => ∃ b, f n a = some b ∧ g b = k a)
    (fun hle ⟨b, hb, hwanted⟩ => ⟨b, hmono hle hb, hwanted⟩) h
  obtain ⟨found, hfound⟩ := exists_map_eq (f := fun a => (f n a, k a))
    (g := fun b => (some b, g b)) fun a ha => by
      obtain ⟨b, hb, hwanted⟩ := hn a ha
      exact ⟨b, by rw [hb, hwanted]⟩
  have hmet := congrArg (List.map Prod.fst) hfound
  have hwanted := congrArg (List.map Prod.snd) hfound
  simp only [List.map_map, Function.comp_def] at hmet hwanted
  exact ⟨n, found, hmet, hwanted.symm⟩

end KeywordSurvey
