import KeywordSurvey.Json.Reader
import KeywordSurvey.Proofs.Json.Scalar

/-!
# Written values read back

A reader takes a value for something if it reads that from the text of the
value, in either layout, behind blanks, and with anything after it that ends a
number (`Reader.Takes`). Lists and records are taken for what their items and
members are taken for.
-/

namespace KeywordSurvey.Json

variable {α β σ : Type} {depth level : Nat} {layout : Layout}
  {c : Char} {s front rest : List Char}

namespace Value

mutual

/-- How many lists and records lie inside each other in the text of a value. -/
def nesting : Value → Nat
  | number _ => 0
  | text _ => 0
  | list items => nestingOfItems items + 1
  | record members => nestingOfMembers members + 1

/-- The greatest nesting of some items. -/
def nestingOfItems : List Value → Nat
  | [] => 0
  | item :: items => max (nesting item) (nestingOfItems items)

/-- The greatest nesting of the values of some members. -/
def nestingOfMembers : List (List Char × Value) → Nat
  | [] => 0
  | (_, value) :: members => max (nesting value) (nestingOfMembers members)

end

theorem nestingOfItems_le_iff {items : List Value} :
    nestingOfItems items ≤ depth ↔ ∀ item ∈ items, item.nesting ≤ depth := by
  induction items with
  | nil => simp [nestingOfItems]
  | cons item items ih => rw [nestingOfItems, Nat.max_le, ih, List.forall_mem_cons]

/-- A list takes one nesting more than its items. -/
theorem nesting_list_le_iff {items : List Value} :
    (list items).nesting ≤ depth ↔
      ∃ below, depth = below + 1 ∧ ∀ item ∈ items, item.nesting ≤ below := by
  cases depth with
  | zero => simp [nesting]
  | succ depth => simp [nesting, nestingOfItems_le_iff]

theorem nestingOfMembers_le_iff {members : List (List Char × Value)} :
    nestingOfMembers members ≤ depth ↔ ∀ member ∈ members, member.2.nesting ≤ depth := by
  induction members with
  | nil => simp [nestingOfMembers]
  | cons member members ih => rw [nestingOfMembers, Nat.max_le, ih, List.forall_mem_cons]

/-- A record takes one nesting more than the values of its members. -/
theorem nesting_record_le_iff {members : List (List Char × Value)} :
    (record members).nesting ≤ depth ↔
      ∃ below, depth = below + 1 ∧ ∀ member ∈ members, member.2.nesting ≤ below := by
  cases depth with
  | zero => simp [nesting]
  | succ depth => simp [nesting, nestingOfMembers_le_iff]

/-- What a value starts with is no blank and does not end a list. -/
theorem exists_write_eq_cons (layout : Layout) (level : Nat) (v : Value) :
    ∃ c s, v.write layout level = c :: s ∧ isBlank c = false ∧ c ≠ ']' := by
  match v with
  | number n =>
    obtain ⟨c, s, hs⟩ := List.exists_cons_of_ne_nil (Nat.toDigits_ne_nil (n := n) (b := 10))
    have hdigit : c.isDigit = true := Nat.isDigit_of_mem_toDigits (n := n) (b := 10)
      (by decide) (by decide) (hs ▸ List.mem_cons_self)
    refine ⟨c, s, hs, ?_, ?_⟩
    · cases hblank : isBlank c with
      | false => rfl
      | true =>
        simp only [isBlank, Bool.or_eq_true, beq_iff_eq] at hblank
        rcases hblank with ((rfl | rfl) | rfl) | rfl <;> cases hdigit
    · rintro rfl
      cases hdigit
  | text s => exact ⟨'"', _, rfl, rfl, by decide⟩
  | list [] => exact ⟨'[', _, rfl, rfl, by decide⟩
  | list (item :: items) => exact ⟨'[', _, rfl, rfl, by decide⟩
  | record [] => exact ⟨'\x7b', _, rfl, rfl, by decide⟩
  | record ((name, value) :: members) => exact ⟨'\x7b', _, rfl, rfl, by decide⟩

/-! ## What follows a value -/

theorem ends_lineStart (h : Ends s) : Ends (layout.lineStart level ++ s) := by
  cases layout with
  | compact => exact h
  | indented => exact ends_cons (by decide)

theorem ends_writeItems {items : List Value} (h : Ends s) :
    Ends (writeItems layout level items ++ s) := by
  cases items with
  | nil => exact h
  | cons item items => exact ends_cons (by decide)

theorem ends_writeMembers {members : List (List Char × Value)} (h : Ends s) :
    Ends (writeMembers layout level members ++ s) := by
  cases members with
  | nil => exact h
  | cons member members => exact ends_cons (by decide)

end Value

namespace Reader

/-- The reader takes the value for `a`. -/
def Takes (reader : Reader α) (depth : Nat) (v : Value) (a : α) : Prop :=
  ∀ (layout : Layout) (level : Nat) (front rest : List Char), Blank front → Ends rest →
    reader depth (front ++ (v.write layout level ++ rest)) = .ok (a, rest)

/-! ## Scalars -/

theorem text_takes (depth : Nat) (s : List Char) : Reader.text.Takes depth (.text s) s := by
  intro layout level front rest hfront _
  rw [Reader.text, skipBlanks_append hfront, Value.write, quoted_append, skipBlanks_cons rfl]
  exact string_quoted

theorem natural_takes {accept : Nat → Option α} {n : Nat} {a : α} (depth : Nat)
    (hn : n < Count.limit) (h : accept n = some a) :
    (Reader.natural accept).Takes depth (.number n) a := by
  intro layout level front rest hfront hrest
  obtain ⟨c, s, hs, hblank, -⟩ := Value.exists_write_eq_cons layout level (.number n)
  have hdecimal : Text.decimal n = c :: s := hs
  have hdigit : c.isDigit = true := Nat.isDigit_of_mem_toDigits (n := n) (b := 10)
    (by decide) (by decide) (show c ∈ Text.decimal n from hdecimal ▸ List.mem_cons_self)
  have hsign : c ≠ '-' := by
    rintro rfl
    cases hdigit
  have hread := unsigned_decimal hn hrest
  rw [hdecimal, List.cons_append] at hread
  rw [Reader.natural, skipBlanks_append hfront, hs, List.cons_append, skipBlanks_cons hblank]
  simp only [if_neg hsign, if_pos hdigit, hread, Bind.bind, Except.bind, h]

end Reader

/-! ## Lists -/

theorem nextItem?_true (hfront : Blank front) (hc : isBlank c = false) (hopen : c ≠ ']') :
    nextItem? true (front ++ c :: s) = .ok (some (c :: s)) := by
  rw [nextItem?, skipBlanks_append hfront, skipBlanks_cons hc]
  simp [hopen]

theorem nextItem?_false (hfront : Blank front) (hc : isBlank c = false) (hopen : c ≠ ']') :
    nextItem? false (',' :: (front ++ c :: s)) = .ok (some (c :: s)) := by
  rw [nextItem?, skipBlanks_cons rfl]
  simp [skipBlanks_append hfront, skipBlanks_cons hc, hopen]

theorem nextItem?_close (first : Bool) (hfront : Blank front) :
    nextItem? first (front ++ ']' :: s) = .ok none := by
  rw [nextItem?, skipBlanks_append hfront, skipBlanks_cons rfl]
  simp

theorem closeList_close (hfront : Blank front) : closeList (front ++ ']' :: s) = .ok s := by
  rw [closeList, skipBlanks_append hfront, skipBlanks_cons rfl]
  simp

section

variable {item : List Char → Except ReadError (Taken α)} {fuel : Nat} {first : Bool}
  {done all : List α} {a : α} {t : List Char}

theorem items_close (h : nextItem? first s = .ok none) :
    items item (fuel + 1) first done s = .ok (done.reverse, s) := by
  rw [items, h]
  rfl

theorem items_item (h : nextItem? first s = .ok (some t)) (ha : item t = .ok (a, rest)) :
    items item (fuel + 1) first done s = items item fuel false (a :: done) rest := by
  rw [items, h]
  simp only [Bind.bind, Except.bind, ha]

theorem listBody_of_items (h : items item (s.length + 1) true [] s = .ok (all, t))
    (hclose : closeList t = .ok rest) : listBody item s = .ok (all, rest) := by
  simp only [listBody, h, hclose, Bind.bind, Except.bind]

theorem Reader.list_open (item : Reader α) (hfront : Blank front) :
    Reader.list item (depth + 1) (front ++ '[' :: s) = listBody (item depth) s := by
  rw [Reader.list, skipBlanks_append hfront, skipBlanks_cons rfl]
  rfl

end

/-- The items of a list that follow the ones that are `done`. -/
theorem items_writeItems {item : List Char → Except ReadError (Taken α)} {write : β → Value}
    {get : β → α} {l : List β} {outer : Nat}
    (hitem : ∀ b ∈ l, ∀ s, Ends s → item ((write b).write layout level ++ s) = .ok (get b, s)) :
    ∀ {fuel : Nat} {done : List α}, l.length < fuel →
      items item fuel false done
          (Value.writeItems layout level (l.map write) ++ (layout.lineStart outer ++ ']' :: rest))
        = .ok (done.reverse ++ l.map get, layout.lineStart outer ++ ']' :: rest) := by
  have hclose : Ends (layout.lineStart outer ++ ']' :: rest) :=
    Value.ends_lineStart (ends_cons (by decide))
  induction l with
  | nil =>
    intro fuel done h
    cases fuel with
    | zero => cases h
    | succ fuel =>
      rw [List.map_nil, Value.writeItems, List.nil_append,
        items_close (nextItem?_close false (layout.blank_lineStart outer)), List.map_nil,
        List.append_nil]
  | cons b l ih =>
    intro fuel done h
    cases fuel with
    | zero => cases h
    | succ fuel =>
      obtain ⟨c, s, hs, hblank, hopen⟩ := (write b).exists_write_eq_cons layout level
      have hb := hitem b List.mem_cons_self _
        (@Value.ends_writeItems level layout _ (l.map write) hclose)
      rw [hs, List.cons_append] at hb
      simp only [List.map_cons, Value.writeItems, List.cons_append, List.append_assoc, hs]
      rw [items_item (nextItem?_false (layout.blank_lineStart level) hblank hopen) hb,
        ih (fun b' hb' => hitem b' (List.mem_cons_of_mem b hb')) (Nat.lt_of_succ_lt_succ h),
        List.reverse_cons, List.append_assoc, List.singleton_append]

theorem length_le_writeItems (items : List Value) :
    items.length ≤ (Value.writeItems layout level items).length := by
  induction items with
  | nil => exact Nat.le_refl 0
  | cons item items ih =>
    simp only [Value.writeItems, List.length_append, List.length_cons]
    omega

/-- **A list is taken for what its items are taken for**, if there is a nesting
left for it. -/
theorem Reader.list_takes {item : Reader α} {write : β → Value} {get : β → α} {l : List β}
    (h : ∀ b ∈ l, item.Takes depth (write b) (get b)) :
    (Reader.list item).Takes (depth + 1) (.list (l.map write)) (l.map get) := by
  intro layout level front rest hfront _
  have hitem : ∀ b ∈ l, ∀ s, Ends s →
      item depth ((write b).write layout (level + 1) ++ s) = .ok (get b, s) :=
    fun b hb s hs => h b hb layout (level + 1) [] s (by simp [Blank]) hs
  cases l with
  | nil =>
    simp only [List.map_nil, Value.write, List.cons_append, List.nil_append]
    rw [Reader.list_open item hfront]
    exact listBody_of_items (items_close (@nextItem?_close rest [] true (by simp [Blank])))
      (@closeList_close rest [] (by simp [Blank]))
  | cons b l =>
    obtain ⟨c, s, hs, hblank, hopen⟩ := (write b).exists_write_eq_cons layout (level + 1)
    have hb := hitem b List.mem_cons_self _ (@Value.ends_writeItems (level + 1) layout
      (layout.lineStart level ++ ']' :: rest) (l.map write)
      (Value.ends_lineStart (ends_cons (by decide))))
    rw [hs, List.cons_append] at hb
    simp only [List.map_cons, Value.write, List.cons_append, List.append_assoc, List.nil_append, hs]
    rw [Reader.list_open item hfront]
    refine listBody_of_items ?_ (closeList_close (layout.blank_lineStart level))
    rw [items_item (nextItem?_true (layout.blank_lineStart (level + 1)) hblank hopen) hb,
      items_writeItems fun b' hb' => hitem b' (List.mem_cons_of_mem b hb')]
    · rfl
    · have hlength := @length_le_writeItems (level + 1) layout (l.map write)
      rw [List.length_map] at hlength
      simp only [List.length_append, List.length_cons]
      omega

/-! ## Records -/

theorem nextName?_true {name : List Char} (hfront : Blank front) :
    nextName? true (front ++ (quoted name ++ s)) = .ok (some (name, s)) := by
  rw [nextName?, skipBlanks_append hfront, quoted_append, skipBlanks_cons rfl]
  simp [string_quoted, Except.map]

theorem nextName?_false {name : List Char} (hfront : Blank front) :
    nextName? false (',' :: (front ++ (quoted name ++ s))) = .ok (some (name, s)) := by
  rw [nextName?, skipBlanks_cons rfl]
  simp [skipBlanks_append hfront, quoted_append, string_quoted, Except.map,
    skipBlanks_cons (show isBlank '"' = false from rfl)]

theorem nextName?_close (first : Bool) (hfront : Blank front) :
    nextName? first (front ++ '\x7d' :: s) = .ok none := by
  rw [nextName?, skipBlanks_append hfront, skipBlanks_cons rfl]
  simp

theorem colon_layout (layout : Layout) (s : List Char) :
    colon (layout.colon ++ s) = .ok (layout.colon.tail ++ s) := by
  cases layout <;> simp [colon, Layout.colon, skipBlanks_cons (show isBlank ':' = false from rfl)]

theorem Layout.blank_colon_tail (layout : Layout) : Blank layout.colon.tail := by
  cases layout <;> simp [Blank, colon, isBlank]

theorem closeObject_close (hfront : Blank front) : closeObject (front ++ '\x7d' :: s) = .ok s := by
  rw [closeObject, skipBlanks_append hfront, skipBlanks_cons rfl]
  simp

/-- The written members fill the fields, from what has been read so far to what
has been read after them. -/
inductive Fills (fields : List (Field σ)) (depth : Nat) : σ → List (List Char × Value) → σ → Prop
  | nil {so : σ} : Fills fields depth so [] so
  | cons {so next last : σ} {field : Field σ} {name : List Char} {value : Value}
      {members : List (List Char × Value)} :
      fields.find? (fun f => f.name == name) = some field → field.isFilled so = false →
      (field.fill so).Takes depth value next → Fills fields depth next members last →
      Fills fields depth so ((name, value) :: members) last

section

variable {fields : List (Field σ)} {field : Field σ} {fuel : Nat} {first : Bool} {so next : σ}
  {name t u : List Char}

theorem members_close (h : nextName? first s = .ok none) :
    members fields depth (fuel + 1) first so s = .ok (so, s) := by
  rw [members, h]
  rfl

theorem members_field (hname : nextName? first s = .ok (some (name, t)))
    (hfind : fields.find? (fun f => f.name == name) = some field)
    (hopen : field.isFilled so = false) (hcolon : colon t = .ok u)
    (hfill : field.fill so depth u = .ok (next, rest)) :
    members fields depth (fuel + 1) first so s = members fields depth fuel false next rest := by
  rw [members, hname]
  simp only [Bind.bind, Except.bind, hfind, hopen, hcolon, hfill]
  rfl

/-- What a field is filled with, behind the colon of its name. -/
theorem fill_written {value : Value} (h : (field.fill so).Takes depth value next)
    (hs : Ends s) :
    field.fill so depth (layout.colon.tail ++ (value.write layout level ++ s)) = .ok (next, s) :=
  h layout level _ s layout.blank_colon_tail hs

/-- The members of a record that follow the first. -/
theorem members_writeMembers {written : List (List Char × Value)} {last : σ} {outer : Nat}
    (h : Fills fields depth so written last) :
    ∀ {fuel : Nat}, written.length < fuel →
      members fields depth fuel false so
          (Value.writeMembers layout level written ++ (layout.lineStart outer ++ '\x7d' :: rest))
        = .ok (last, layout.lineStart outer ++ '\x7d' :: rest) := by
  have hclose : Ends (layout.lineStart outer ++ '\x7d' :: rest) :=
    Value.ends_lineStart (ends_cons (by decide))
  induction h with
  | nil =>
    intro fuel hfuel
    cases fuel with
    | zero => cases hfuel
    | succ fuel =>
      rw [Value.writeMembers, List.nil_append,
        members_close (nextName?_close false (layout.blank_lineStart outer))]
  | cons hfind hopen htakes _ ih =>
    intro fuel hfuel
    cases fuel with
    | zero => cases hfuel
    | succ fuel =>
      simp only [Value.writeMembers, List.cons_append, List.append_assoc]
      rw [members_field (nextName?_false (layout.blank_lineStart level)) hfind hopen
        (colon_layout layout _) (fill_written htakes (Value.ends_writeMembers hclose)),
        ih (Nat.lt_of_succ_lt_succ hfuel)]

end

theorem length_le_writeMembers (written : List (List Char × Value)) :
    written.length ≤ (Value.writeMembers layout level written).length := by
  induction written with
  | nil => exact Nat.le_refl 0
  | cons member written ih =>
    simp only [Value.writeMembers, List.length_append, List.length_cons]
    omega

theorem objectBody_of_members {shape : Shape σ α} {so : σ} {a : α} {t : List Char}
    (h : members shape.fields depth (s.length + 1) true shape.start s = .ok (so, t))
    (hfinish : shape.finish so = some a) (hclose : closeObject t = .ok rest) :
    objectBody shape depth s = .ok (a, rest) := by
  simp only [objectBody, complete, h, hfinish, hclose, Bind.bind, Except.bind]

theorem Reader.record_open (shape : Shape σ α) (hfront : Blank front) :
    Reader.record shape (depth + 1) (front ++ '\x7b' :: s) = objectBody shape depth s := by
  rw [Reader.record, skipBlanks_append hfront, skipBlanks_cons rfl]
  rfl

/-- **A record is taken for what its members fill in**, if there is a nesting
left for it. -/
theorem Reader.record_takes {shape : Shape σ α} {written : List (List Char × Value)} {so : σ}
    {a : α} (h : Fills shape.fields depth shape.start written so)
    (hfinish : shape.finish so = some a) :
    (Reader.record shape).Takes (depth + 1) (.record written) a := by
  intro layout level front rest hfront _
  cases h with
  | nil =>
    simp only [Value.write, List.cons_append, List.nil_append]
    rw [Reader.record_open shape hfront]
    exact objectBody_of_members (members_close (@nextName?_close rest [] true (by simp [Blank])))
      hfinish (@closeObject_close rest [] (by simp [Blank]))
  | @cons _ next _ field name value written hfind hopen htakes hrest =>
    simp only [Value.write, List.cons_append, List.append_assoc, List.nil_append]
    rw [Reader.record_open shape hfront]
    refine objectBody_of_members ?_ hfinish (closeObject_close (layout.blank_lineStart level))
    rw [members_field (nextName?_true (layout.blank_lineStart (level + 1))) hfind hopen
      (colon_layout layout _) (fill_written htakes (Value.ends_writeMembers
        (Value.ends_lineStart (ends_cons (by decide))))), members_writeMembers hrest]
    have hlength := @length_le_writeMembers (level + 1) layout written
    simp only [List.length_append, List.length_cons]
    omega

/-- A field is filled with what its value is taken for. -/
theorem Field.of_takes {name : String} {get : σ → Option α} {set : σ → α → σ} {value : Reader α}
    {so : σ} {v : Value} {a : α} (h : value.Takes depth v a) :
    ((Field.of name get set value).fill so).Takes depth v (set so a) := by
  intro layout level front rest hfront hrest
  simp only [Field.of, h layout level front rest hfront hrest, Bind.bind, Except.bind]

/-! ## Choices -/

section

variable {all : List (Alternative α)} {chosen : Alternative α} {name : List Char} {a : α}

theorem alternative_quoted (hfront : Blank front)
    (hfind : all.find? (fun alt => alt.name == name) = some chosen) :
    alternative all (front ++ (quoted name ++ s)) = .ok (chosen, s) := by
  rw [alternative, alternativeName, skipBlanks_append hfront, quoted_append, skipBlanks_cons rfl]
  simp [string_quoted, hfind, Bind.bind, Except.bind]

/-- The name of an alternative that may stand alone. -/
theorem Reader.choice_takes_text (depth : Nat)
    (hfind : all.find? (fun alt => alt.name == name) = some chosen)
    (halone : chosen.alone = some a) : (Reader.choice all).Takes depth (.text name) a := by
  intro layout level front rest hfront _
  have hchosen : alternative all ('"' :: (name.flatMap escapeChar ++ '"' :: rest))
      = .ok (chosen, rest) := by
    rw [← quoted_append]
    exact @alternative_quoted _ rest [] _ _ _ (by simp [Blank]) hfind
  rw [Reader.choice, skipBlanks_append hfront, Value.write, quoted_append, skipBlanks_cons rfl]
  simp [hchosen, halone, Bind.bind, Except.bind]

/-- An alternative with what its name leads to. -/
theorem Reader.choice_takes_record {payload : Reader α} {v : Value}
    (hfind : all.find? (fun alt => alt.name == name) = some chosen)
    (hpayload : chosen.payload = some payload) (h : payload.Takes depth v a) :
    (Reader.choice all).Takes (depth + 1) (.record [(name, v)]) a := by
  intro layout level front rest hfront _
  have hread := h layout (level + 1) _ (layout.lineStart level ++ '\x7d' :: rest)
    layout.blank_colon_tail (Value.ends_lineStart (ends_cons (by decide)))
  simp only [Value.write, Value.writeMembers, List.cons_append, List.append_assoc, List.nil_append]
  rw [Reader.choice, skipBlanks_append hfront, skipBlanks_cons rfl]
  simp [alternative_quoted (layout.blank_lineStart (level + 1)) hfind, colon_layout, hpayload,
    hread, skipBlanks_append (layout.blank_lineStart level),
    skipBlanks_cons (show isBlank '\x7d' = false from rfl), Bind.bind, Except.bind]

end

end KeywordSurvey.Json
