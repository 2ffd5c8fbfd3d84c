import KeywordSurvey.Proofs.CommandLine.Pending

/-!
# Asking a run to go on

A switch says only that it has been set: what a command line says besides is
what it says without it (`Arguments.ofList_without_keepGoing`), and it may
stand in front of any line that does not have it
(`Arguments.ofList_keepGoing_cons`).

Arguments are read from one state to the next. So there are two things to
show. The steps that do not set the switch do the same whether it is set or
not: they commute with setting it (`Progress.take_going`). And the step that
sets it looks at the pending value as well, which would otherwise be looked at
later: to do that early makes no difference (`Progress.takeAll_settled`).
-/

namespace KeywordSurvey.CommandLine

/-- The argument that asks for a run to go on. -/
def keepGoingArgument : Bytes := Utf8.ofString "--keep-going"

/-- One of the arguments is the switch, and not a path. -/
def AsksToGoOn (arguments : List Bytes) : Prop :=
  ∃ before after, arguments = before ++ keepGoingArgument :: after ∧ endOfOptions ∉ before

/-! ## Setting the switch -/

namespace Draft

/-- The draft with the switch set so. -/
def going (d : Draft) (b : Bool) : Draft := { d with keepGoing := b }

theorem store_going (d : Draft) (b : Bool) (slot : Slot) (value : Bytes) :
    (d.going b).store slot value = (·.going b) <$> d.store slot value := by
  rcases slot with _ | o
  · simp only [store, map_bind, going]
    congr 1
    funext _
    split <;> rfl
  · cases o with
    | ext | format | depth | jobs => simp only [store, map_bind, going]; rfl

theorem settle_going (d : Draft) (b : Bool) (pending : Option Pending) :
    (d.going b).settle pending = (·.going b) <$> d.settle pending := by
  rcases pending with _ | ⟨slot, _ | value⟩
  · rfl
  · rfl
  · exact d.store_going b slot value

theorem turn_going (d : Draft) (b : Bool) {s : Switch} (h : s ≠ .keepGoing) :
    (d.going b).turn s = (·.going b) <$> d.turn s := by
  cases s with
  | keepGoing => exact absurd rfl h
  | quiet =>
    have hquiet : (d.going b).quiet = d.quiet := rfl
    simp only [turn, hquiet]
    by_cases hq : d.quiet = true
    · rw [if_pos hq, if_pos hq]
      rfl
    · rw [if_neg hq, if_neg hq]
      rfl
  | verbose | help | version => rfl

end Draft

/-- The arguments with the switch set so. -/
def Arguments.going (a : Arguments) (b : Bool) : Arguments := { a with keepGoing := b }

theorem Arguments.going_of_keepGoing {a : Arguments} {b : Bool} (h : a.keepGoing = b) :
    a.going b = a := by
  subst h
  rfl

theorem Draft.finish_going (d : Draft) (b : Bool) :
    (d.going b).finish = (·.going b) <$> d.finish := by
  have hsame : (d.going b).quiet = d.quiet ∧ (d.going b).verbose = d.verbose ∧
    (d.going b).path = d.path := ⟨rfl, rfl, rfl⟩
  obtain ⟨hquiet, hverbose, hpath⟩ := hsame
  simp only [finish, hquiet, hverbose, hpath]
  by_cases hboth : (decide (0 < d.verbose) && d.quiet) = true
  · rw [if_pos hboth, if_pos hboth]
    rfl
  · rw [if_neg hboth, if_neg hboth]
    cases d.path with
    | none => rfl
    | some path => rfl

theorem Draft.keepGoing_of_finish {d : Draft} {a : Arguments} (h : d.finish = .ok a) :
    a.keepGoing = d.keepGoing := by
  unfold finish at h
  split at h
  · cases h
  · split at h
    · cases h
    · cases h
      rfl

namespace Progress

variable {p q r : Progress} {argument : Bytes}

/-- The state with the switch set so. -/
def going (p : Progress) (b : Bool) : Progress := { p with draft := p.draft.going b }

theorem settled_going (p : Progress) (b : Bool) :
    (p.going b).settled = (·.going b) <$> p.settled := by
  simp only [settled, map_bind, going, Draft.settle_going, bind_map_left]
  rfl

theorem attach_going (p : Progress) (b : Bool) (o : ValueOption) (value : Bytes) :
    (p.going b).attach o value = (·.going b) <$> p.attach o value := by
  simp only [attach, map_bind, settled_going, bind_map_left]
  simp only [going, Draft.store_going, bind_map_left]
  rfl

theorem await_going (p : Progress) (b : Bool) (o : ValueOption) :
    (p.going b).await o = (·.going b) <$> p.await o := by
  simp only [await, map_bind, settled_going, bind_map_left]
  rfl

theorem turn_going (p : Progress) (b : Bool) {s : Switch} (h : s ≠ .keepGoing) :
    (p.going b).turn s = (·.going b) <$> p.turn s := by
  simp only [turn, map_bind, settled_going, bind_map_left]
  simp only [going, Draft.turn_going _ _ h, bind_map_left]
  rfl

/-- The switch has no letter. -/
theorem ofLetter?_ne_keepGoing {letter : UInt8} {s : Switch}
    (h : Known.ofLetter? letter = some (.switch s)) : s ≠ .keepGoing := by
  rintro rfl
  unfold Known.ofLetter? at h
  repeat' split at h
  all_goals cases h

theorem letters_going (p : Progress) (b : Bool) (text : Bytes) :
    (p.going b).letters text = (·.going b) <$> p.letters text := by
  induction text generalizing p with
  | nil => rfl
  | cons letter rest ih =>
    simp only [letters]
    cases hknown : Known.ofLetter? letter with
    | none => rfl
    | some known =>
      cases known with
      | switch s =>
        have hs := ofLetter?_ne_keepGoing hknown
        simp only [turn_going p b hs, map_bind, bind_map_left, ih]
      | value o =>
        cases rest with
        | nil => exact p.await_going b o
        | cons c value => exact p.attach_going b o _

theorem plain_going (p : Progress) (b : Bool) (argument : Bytes) :
    (p.going b).plain argument = (·.going b) <$> p.plain argument := by
  have hwants : ((p.going b).wantsValue && !(p.going b).onlyPaths)
      = (p.wantsValue && !p.onlyPaths) := rfl
  have hhas : (p.going b).hasPath = p.hasPath := rfl
  simp only [plain, hwants, hhas]
  by_cases hvalue : (p.wantsValue && !p.onlyPaths) = true
  · rw [if_pos hvalue, if_pos hvalue]
    rfl
  · rw [if_neg hvalue, if_neg hvalue]
    by_cases hpath : p.hasPath = true
    · rw [if_pos hpath, if_pos hpath]
      rfl
    · rw [if_neg hpath, if_neg hpath]
      simp only [map_bind, settled_going, bind_map_left]
      rfl

/-- Only one long name is that of the switch. -/
theorem name_of_ofLong? {name : Bytes}
    (h : Known.ofLong? name = some (.switch .keepGoing)) : name = Utf8.ofString "keep-going" := by
  unfold Known.ofLong? at h
  obtain ⟨entry, hentry, hsnd⟩ := Option.map_eq_some_iff.mp h
  have hmem := List.mem_of_find?_eq_some hentry
  have hname := List.find?_some hentry
  simp only [longNames, List.mem_cons, List.not_mem_nil, or_false] at hmem
  rcases hmem with rfl | rfl | rfl | rfl | rfl | rfl | rfl | rfl | rfl <;> cases hsnd
  exact (beq_iff_eq.mp hname).symm

theorem long_going (p : Progress) (b : Bool) {name : Bytes} {value : Option Bytes}
    (h : value = none → name ≠ Utf8.ofString "keep-going") :
    (p.going b).long name value = (·.going b) <$> p.long name value := by
  unfold long
  cases hknown : Known.ofLong? name with
  | none => cases value <;> rfl
  | some known =>
    cases known with
    | value o =>
      cases value with
      | none => exact p.await_going b o
      | some value => exact p.attach_going b o value
    | switch s =>
      cases value with
      | none =>
        have hs : s ≠ .keepGoing := by
          rintro rfl
          exact h rfl (name_of_ofLong? hknown)
        exact p.turn_going b hs
      | some value => rfl

theorem eq_of_splitEquals {body name : Bytes} (h : splitEquals body = (name, none)) :
    body = name := by
  unfold splitEquals at h
  split at h
  · cases h
    rfl
  · cases h

theorem take_keepGoingArgument (h : p.onlyPaths = false) :
    p.take keepGoingArgument = p.turn .keepGoing :=
  if_neg (Bool.eq_false_iff.mp h)

/-- **Any argument but the switch is taken in the same way** whether the switch
has been set or not. -/
theorem take_going (p : Progress) (b : Bool)
    (h : p.onlyPaths = true ∨ argument ≠ keepGoingArgument) :
    (p.going b).take argument = (·.going b) <$> p.take argument := by
  by_cases honly : p.onlyPaths = true
  · rw [take_of_onlyPaths honly, take_of_onlyPaths (p := p.going b) honly]
    exact p.plain_going b argument
  · have hne := h.resolve_left honly
    have hnot : (p.going b).onlyPaths = true ↔ p.onlyPaths = true := Iff.rfl
    simp only [take, hnot, if_neg honly]
    split
    · rfl
    · next body _ =>
      refine p.long_going b fun hnone hname => hne ?_
      have hbody := @eq_of_splitEquals body _ (Prod.ext hname hnone)
      rw [hbody]
      rfl
    · exact p.letters_going b _
    · exact p.plain_going b argument

/-- What commutes with setting the switch leaves it as it is. -/
theorem keepGoing_of_going {f : Progress → Except Usage Progress}
    (hf : f (p.going p.draft.keepGoing) = (·.going p.draft.keepGoing) <$> f p)
    (h : f p = .ok r) : r.draft.keepGoing = p.draft.keepGoing := by
  change f p = _ at hf
  rw [h] at hf
  have hr : r = r.going p.draft.keepGoing := Except.ok.inj hf
  exact congrArg (·.draft.keepGoing) hr

theorem keepGoing_of_settled (h : p.settled = .ok q) :
    q.draft.keepGoing = p.draft.keepGoing :=
  keepGoing_of_going (p.settled_going _) h

theorem keepGoing_of_take (hnot : p.onlyPaths = true ∨ argument ≠ keepGoingArgument)
    (h : p.take argument = .ok r) : r.draft.keepGoing = p.draft.keepGoing :=
  keepGoing_of_going (f := fun p => p.take argument) (p.take_going _ hnot) h

/-- The switch is set once. -/
theorem turn_keepGoing_eq_ok_iff :
    p.turn .keepGoing = .ok r ↔
      ∃ q, p.settled = .ok q ∧ q.draft.keepGoing = false ∧ r = q.going true := by
  rw [turn, bind_eq_ok_iff]
  refine exists_congr fun q => and_congr_right fun _ => ?_
  rw [Draft.turn]
  by_cases hset : q.draft.keepGoing = true
  · rw [if_pos hset]
    constructor
    · intro h
      cases h
    · rintro ⟨hfalse, -⟩
      rw [hset] at hfalse
      cases hfalse
  · rw [if_neg hset]
    constructor
    · intro h
      exact ⟨Bool.eq_false_iff.mpr hset, (Except.ok.inj h).symm⟩
    · rintro ⟨-, rfl⟩
      rfl

/-! ## The switch and further arguments -/

/-- A switch that is set stays set. -/
theorem keepGoing_of_takeAll {arguments : List Bytes} (hp : p.draft.keepGoing = true)
    (h : p.takeAll arguments = .ok r) : r.draft.keepGoing = true := by
  induction arguments generalizing p with
  | nil => exact (keepGoing_of_settled h).trans hp
  | cons argument rest ih =>
    rw [takeAll_cons] at h
    obtain ⟨q, hq, h⟩ := bind_eq_ok_iff.mp h
    rcases p.meant_or_not argument keepGoingArgument with ⟨hpaths, rfl⟩ | hnot
    · -- it would be set twice
      rw [take_keepGoingArgument hpaths] at hq
      obtain ⟨t, ht, hfalse, -⟩ := turn_keepGoing_eq_ok_iff.mp hq
      rw [keepGoing_of_settled ht, hp] at hfalse
      cases hfalse
    · exact ih ((keepGoing_of_take hnot hq).trans hp) h

/-- **Further arguments after the switch** are those that could have come
without it, and do not set it again. -/
theorem takeAll_going_iff {arguments : List Bytes} (hp : p.draft.keepGoing = false) :
    (p.going true).takeAll arguments = .ok r ↔
      ∃ s, p.takeAll arguments = .ok s ∧ s.draft.keepGoing = false ∧ r = s.going true := by
  induction arguments generalizing p with
  | nil =>
    rw [takeAll_nil, takeAll_nil, settled_going]
    cases hq : p.settled with
    | error usage => simp
    | ok q =>
      have hfalse : q.draft.keepGoing = false := (keepGoing_of_settled hq).trans hp
      constructor
      · intro h
        exact ⟨q, rfl, hfalse, (Except.ok.inj h).symm⟩
      · rintro ⟨s, hs, -, rfl⟩
        cases hs
        rfl
  | cons argument rest ih =>
    rw [takeAll_cons, takeAll_cons]
    rcases p.meant_or_not argument keepGoingArgument with ⟨hpaths, rfl⟩ | hnot
    · -- the switch comes again: with it that is a conflict, and without it it is set
      rw [take_keepGoingArgument (p := p.going true) hpaths, take_keepGoingArgument hpaths]
      constructor
      · intro h
        obtain ⟨q, hq, -⟩ := bind_eq_ok_iff.mp h
        obtain ⟨t, ht, hunset, -⟩ := turn_keepGoing_eq_ok_iff.mp hq
        rw [keepGoing_of_settled ht] at hunset
        cases hunset
      · rintro ⟨s, hs, hunset, -⟩
        obtain ⟨q, hq, hs⟩ := bind_eq_ok_iff.mp hs
        obtain ⟨t, -, -, rfl⟩ := turn_keepGoing_eq_ok_iff.mp hq
        rw [keepGoing_of_takeAll rfl hs] at hunset
        cases hunset
    · rw [take_going p true hnot, bind_map_left]
      cases hq : p.take argument with
      | error usage => exact ⟨nofun, fun ⟨_, hs, _⟩ => nomatch hs⟩
      | ok q => exact ih ((keepGoing_of_take hnot hq).trans hp)

/-- Where all arguments are paths, none sets the switch. -/
theorem keepGoing_of_onlyPaths {arguments : List Bytes} (hpaths : p.onlyPaths = true)
    (h : p.takeAll arguments = .ok r) : r.draft.keepGoing = p.draft.keepGoing := by
  induction arguments generalizing p with
  | nil => exact keepGoing_of_settled h
  | cons argument rest ih =>
    rw [takeAll_cons] at h
    obtain ⟨q, hq, h⟩ := bind_eq_ok_iff.mp h
    have hstep := follows_of_take (.inl hpaths) hq
    rw [ih (hstep.onlyPaths.trans hpaths) h, keepGoing_of_take (.inl hpaths) hq]

/-- Only the argument for it sets the switch. -/
theorem asksToGoOn_of_takeAll {arguments : List Bytes} (hpaths : p.onlyPaths = false)
    (hp : p.draft.keepGoing = false) (h : p.takeAll arguments = .ok r)
    (hr : r.draft.keepGoing = true) : AsksToGoOn arguments := by
  induction arguments generalizing p with
  | nil =>
    rw [keepGoing_of_settled h, hp] at hr
    cases hr
  | cons argument rest ih =>
    rw [takeAll_cons] at h
    obtain ⟨q, hq, h⟩ := bind_eq_ok_iff.mp h
    by_cases hsame : argument = keepGoingArgument
    · exact ⟨[], rest, by rw [hsame]; rfl, List.not_mem_nil⟩
    · by_cases hend : argument = endOfOptions
      · subst hend
        rw [take_endOfOptions hpaths] at hq
        cases hq
        rw [keepGoing_of_onlyPaths rfl h, hp] at hr
        cases hr
      · have hstep := follows_of_take (.inr hend) hq
        obtain ⟨before, after, rfl, hnot⟩ := ih (hstep.onlyPaths.trans hpaths)
          ((keepGoing_of_take (.inr hsame) hq).trans hp) h
        refine ⟨argument :: before, after, rfl, fun hmem => ?_⟩
        rcases List.mem_cons.mp hmem with heq | hmem
        · exact hend heq.symm
        · exact hnot hmem

end Progress

/-! ## Whole command lines -/

namespace Arguments

variable {arguments before after : List Bytes} {a : Arguments}

theorem ofList_eq (arguments : List Bytes) :
    ofList arguments = Progress.start.takeAll arguments >>= (·.draft.finish) := by
  simp only [ofList, Progress.takeAll, bind_assoc]

/-- **The switch can be left out**: the command line that is left says the same
but for the switch. -/
theorem ofList_without_keepGoing (hbefore : endOfOptions ∉ before)
    (h : ofList (before ++ keepGoingArgument :: after) = .ok a) :
    a.keepGoing = true ∧ ofList (before ++ after) = .ok (a.going false) := by
  rw [ofList_eq, Progress.takeAll_append] at h
  obtain ⟨r, hr, hfinish⟩ := bind_eq_ok_iff.mp h
  obtain ⟨p, hp, hr⟩ := bind_eq_ok_iff.mp hr
  have hfollows := Progress.follows_of_foldlM hbefore Progress.start_follows hp
  rw [Progress.takeAll_cons, Progress.take_keepGoingArgument hfollows.onlyPaths] at hr
  obtain ⟨t, ht, hr⟩ := bind_eq_ok_iff.mp hr
  obtain ⟨q, hq, hfalse, rfl⟩ := Progress.turn_keepGoing_eq_ok_iff.mp ht
  obtain ⟨s, hs, hunset, rfl⟩ := (Progress.takeAll_going_iff hfalse).mp hr
  -- the same state is come to without the switch
  have hsame : Progress.start.takeAll (before ++ after) = .ok s := by
    rw [Progress.takeAll_append, hp]
    exact (Progress.takeAll_settled hq (hfollows.wantsValue hq) after).trans hs
  change (s.draft.going true).finish = _ at hfinish
  rw [Draft.finish_going] at hfinish
  cases hread : s.draft.finish with
  | error usage =>
    rw [hread] at hfinish
    cases hfinish
  | ok b =>
    rw [hread] at hfinish
    obtain rfl : b.going true = a := Except.ok.inj hfinish
    have hb : b.keepGoing = false := (Draft.keepGoing_of_finish hread).trans hunset
    refine ⟨rfl, ?_⟩
    rw [ofList_eq, hsame]
    exact hread.trans (congrArg Except.ok (going_of_keepGoing hb).symm)

/-- **The switch may stand in front** of a command line that does not set it. -/
theorem ofList_keepGoing_cons (h : ofList arguments = .ok a) (ha : a.keepGoing = false) :
    ofList (keepGoingArgument :: arguments) = .ok (a.going true) := by
  rw [ofList_eq] at h
  obtain ⟨s, hs, hfinish⟩ := bind_eq_ok_iff.mp h
  have hunset : s.draft.keepGoing = false := (Draft.keepGoing_of_finish hfinish).symm.trans ha
  have hset : (Progress.start.going true).takeAll arguments = .ok (s.going true) :=
    (Progress.takeAll_going_iff rfl).mpr ⟨s, hs, hunset, rfl⟩
  have hfirst : Progress.start.take keepGoingArgument = .ok (Progress.start.going true) := rfl
  rw [ofList_eq, Progress.takeAll_cons, hfirst]
  change (Progress.start.going true).takeAll arguments >>= _ = _
  rw [hset]
  change (s.draft.going true).finish = _
  rw [Draft.finish_going, hfinish]
  rfl

/-- A run goes on only if it is asked to. -/
theorem asksToGoOn_of_ofList (h : ofList arguments = .ok a) (ha : a.keepGoing = true) :
    AsksToGoOn arguments := by
  rw [ofList_eq] at h
  obtain ⟨s, hs, hfinish⟩ := bind_eq_ok_iff.mp h
  have hset : s.draft.keepGoing = true := (Draft.keepGoing_of_finish hfinish).symm.trans ha
  exact Progress.asksToGoOn_of_takeAll rfl rfl hs hset

end Arguments

/-! ## What the switch does to the settings -/

namespace Settings

/-- The settings with another policy. -/
def under (settings : Settings) (policy : Policy) : Settings :=
  { settings with plan := { settings.plan with policy := policy } }

/-- **The switch chooses the policy**, and nothing else hangs on it. -/
theorem ofArguments_going (a : Arguments) (b : Bool) :
    ofArguments (a.going b)
      = (·.under (if b then .skip else .strict)) <$> ofArguments a := by
  have hsame : (a.going b).jobs = a.jobs ∧ (a.going b).ext = a.ext := ⟨rfl, rfl⟩
  simp only [ofArguments, map_bind, hsame]
  rfl

end Settings

end KeywordSurvey.CommandLine
