import KeywordSurvey.Json.Problem
import KeywordSurvey.Program
import Mathlib.Data.List.Chain

/-!
# What is behind a failure

A failure is the first layer of a chain: behind it comes the failure with one
remark less, behind the last remark the cause, and behind a cause the error of
the system. Every text of the chain ends with the next one, so the message of a
failure holds all the others (`Failure.endsIn_of_built`).
-/

namespace KeywordSurvey

namespace Failure

/-! ## Many remarks -/

/-- The failure with remarks added one after the other. -/
def remarkAll (f : Failure) (texts : List String) : Failure := texts.foldl remark f

/-- What remarks that were added one after the other put in front of a message. -/
def preface (texts : List String) : String := String.join (texts.reverse.map (· ++ ": "))

theorem cause_remarkAll (f : Failure) (texts : List String) :
    (f.remarkAll texts).cause = f.cause := by
  induction texts generalizing f with
  | nil => rfl
  | cons text texts ih => exact ih (f.remark text)

theorem rootCause_remarkAll (f : Failure) (texts : List String) :
    (f.remarkAll texts).rootCause = f.rootCause := by
  rw [rootCause_eq, rootCause_eq, cause_remarkAll]

theorem isUnreadableFile_remarkAll (f : Failure) (texts : List String) :
    (f.remarkAll texts).isUnreadableFile = f.isUnreadableFile := by
  rw [isUnreadableFile_eq, isUnreadableFile_eq, cause_remarkAll]

theorem isPathFailure_remarkAll (f : Failure) (texts : List String) :
    (f.remarkAll texts).isPathFailure = f.isPathFailure := by
  rw [isPathFailure_eq, isPathFailure_eq, cause_remarkAll]

/-- The last remark comes first. -/
theorem message_remarkAll (f : Failure) (texts : List String) :
    (f.remarkAll texts).message = preface texts ++ f.message := by
  induction texts using List.reverseRecOn with
  | nil => simp [remarkAll, preface]
  | append_singleton texts text ih =>
    have hadded : f.remarkAll (texts ++ [text]) = (f.remarkAll texts).remark text := by
      rw [remarkAll, List.foldl_append, remarkAll]
      rfl
    rw [hadded, message_remark, ih, preface, preface, List.reverse_append, List.map_append]
    simp [String.append_assoc]

end Failure

/-! ## Layers -/

/-- An error of a chain. -/
inductive Layer where
  | failure (f : Failure)
  | cause (c : Cause)
  | system (e : SystemError)

namespace Layer

def text : Layer → String
  | failure f => f.message
  | cause c => c.detail
  | system e => e.message

/-- The error behind it. -/
def source? : Layer → Option Layer
  | failure ⟨_ :: remarks, c⟩ => some (failure ⟨remarks, c⟩)
  | failure ⟨[], c⟩ => some (cause c)
  | cause c => c.systemError?.map system
  | system (.walking _ e) => some (system e)
  | system _ => none

/-- The errors from one on, each behind the one before it, to the last one. -/
inductive Chain : Layer → List Layer → Prop
  | last {layer : Layer} : layer.source? = none → Chain layer [layer]
  | next {layer source : Layer} {layers : List Layer} :
      layer.source? = some source → Chain source layers → Chain layer (layer :: layers)

theorem Chain.unique {layer : Layer} {layers others : List Layer} (h : Chain layer layers)
    (h' : Chain layer others) : layers = others := by
  induction h generalizing others with
  | last hnone =>
    cases h' with
    | last => rfl
    | next hsome => simp [hnone] at hsome
  | next hsome _ ih =>
    cases h' with
    | last hnone => simp [hsome] at hnone
    | next hsome' hrest =>
      rw [hsome, Option.some.injEq] at hsome'
      subst hsome'
      rw [ih hrest]

theorem exists_chain_system (e : SystemError) :
    ∃ layers, Chain (system e) layers ∧ layers.map text = e.message :: e.causes := by
  induction e with
  | walking directory e ih =>
    obtain ⟨layers, hlayers, htexts⟩ := ih
    exact ⟨system (.walking directory e) :: layers, .next rfl hlayers, congrArg (_ :: ·) htexts⟩
  | number n => exact ⟨[system (.number n)], .last rfl, rfl⟩
  | sort s => exact ⟨[system (.sort s)], .last rfl, rfl⟩
  | other words => exact ⟨[system (.other words)], .last rfl, rfl⟩
  | zeroByte => exact ⟨[system .zeroByte], .last rfl, rfl⟩

theorem exists_chain_of (c : Cause) :
    ∃ layers, Chain (failure (.of c)) layers ∧ layers.map text = c.message :: c.causes := by
  cases hsystem : c.systemError? with
  | none =>
    have hlast : source? (cause c) = none := congrArg (Option.map system) hsystem
    refine ⟨[failure (.of c), cause c], .next rfl (.last hlast), ?_⟩
    simp [text, Cause.causes, hsystem]
  | some e =>
    have hnext : source? (cause c) = some (system e) := congrArg (Option.map system) hsystem
    obtain ⟨layers, hlayers, htexts⟩ := exists_chain_system e
    refine ⟨failure (.of c) :: cause c :: layers, .next rfl (.next hnext hlayers), ?_⟩
    simp [text, Cause.causes, hsystem, htexts]

/-- There is one layer for each remark, and behind them those of the failure
without remarks. -/
theorem exists_chain (f : Failure) :
    ∃ outer inner, Chain (failure f) (outer ++ inner) ∧ outer.length = f.remarks.length ∧
      Chain (failure f.rootCause) inner ∧ (outer ++ inner).map text = f.message :: f.causes := by
  induction f using Failure.remark_induction with
  | of c =>
    obtain ⟨layers, hlayers, htexts⟩ := exists_chain_of c
    rw [Failure.rootCause_of]
    exact ⟨[], layers, hlayers, rfl, hlayers, htexts⟩
  | remark f words ih =>
    obtain ⟨outer, inner, hlayers, hlength, hinner, htexts⟩ := ih
    rw [Failure.rootCause_remark]
    refine ⟨failure (f.remark words) :: outer, inner, .next rfl hlayers, ?_, hinner, ?_⟩
    · exact congrArg (· + 1) hlength
    · exact congrArg (_ :: ·) htexts

end Layer

/-! ## Texts that end alike -/

/-- Does the text end with the other one? -/
def EndsIn (text other : String) : Prop := other.toList <:+ text.toList

instance : IsTrans String EndsIn := ⟨fun _ _ _ h h' => h'.trans h⟩

theorem endsIn_append (front text : String) : EndsIn (front ++ text) text := by
  rw [EndsIn, String.toList_append]
  exact List.suffix_append _ _

theorem SystemError.isChain_endsIn (e : SystemError) :
    (e.message :: e.causes).IsChain EndsIn := by
  induction e with
  | walking directory e ih => exact .cons_cons (endsIn_append _ e.message) ih
  | number | sort | other | zeroByte => exact .singleton _

namespace Cause

/-- A cause that is about an error of the system ends with what the system
said. -/
theorem endsIn_detail {c : Cause} {e : SystemError} (hsystem : c.systemError? = some e)
    (houtput : ∀ words, c = .output words (some e) → EndsIn words e.message) :
    EndsIn c.detail e.message := by
  cases c with
  | unreadableFile path error =>
    cases hsystem
    exact endsIn_append _ _
  | fileSystem operation path error =>
    cases hsystem
    exact endsIn_append _ _
  | output words error =>
    cases hsystem
    exact IsTrans.trans _ _ _ (endsIn_append _ _) (houtput words rfl)
  | _ => cases hsystem

theorem isChain_endsIn {c : Cause}
    (houtput : ∀ words e, c = .output words (some e) → EndsIn words e.message) :
    (c.message :: c.causes).IsChain EndsIn := by
  refine .cons_cons (endsIn_append _ c.detail) ?_
  cases hsystem : c.systemError? with
  | none => exact .singleton _
  | some e =>
    exact .cons_cons (endsIn_detail hsystem fun words h => houtput words e h) e.isChain_endsIn

end Cause

namespace Failure

/-- How failures come about: from any cause, where one of output has no error of
the system behind it unless it was made of that error, and by remarks. -/
inductive Built : Failure → Prop
  | of {cause : Cause} :
      (∀ words e, cause ≠ .output words (some e)) → Built (of cause)
  | ofSystemError (e : SystemError) : Built (.of (.ofSystemError e))
  /-- What was read is no JSON. -/
  | ofReadError (e : Json.ReadError) (text : List Char) :
      Built (.of (.serialization "JSON" (String.ofList (e.message text))))
  | remark {f : Failure} (text : String) : Built f → Built (f.remark text)

theorem Built.isChain_endsIn {f : Failure} (h : f.Built) :
    (f.message :: f.causes).IsChain EndsIn := by
  induction h with
  | of hcause => exact Cause.isChain_endsIn fun words e h => absurd h (hcause words e)
  | ofSystemError e =>
    refine Cause.isChain_endsIn fun words error h => ?_
    cases h
    exact List.suffix_rfl
  | ofReadError e text => exact Cause.isChain_endsIn nofun
  | @remark f text _ ih => exact .cons_cons (endsIn_append (text ++ ": ") f.message) ih

/-- **A message holds everything behind it.** Following what is behind a failure
comes to an end. On the way there is one layer for each remark, and then those of
the failure without remarks. Each text ends with the next one, so the message
ends with all of them; and the message is what is noted of a path that is left
out, and what is printed of arguments without settings. -/
theorem endsIn_of_built {f : Failure} (h : f.Built) :
    (∃ outer inner, (∀ layers, Layer.Chain (.failure f) layers ↔ layers = outer ++ inner) ∧
      outer.length = f.remarks.length ∧ Layer.Chain (.failure f.rootCause) inner ∧
      (outer ++ inner).map Layer.text = f.message :: f.causes ∧
      ((outer ++ inner).map Layer.text).IsChain EndsIn) ∧
    (∀ text ∈ f.causes, EndsIn f.message text) ∧
    (∀ policy path skipped, Policy.tolerate policy path f = .ok skipped →
      ∀ text ∈ f.message :: f.causes, EndsIn skipped.reason text) ∧
    ∃ line, (Program.misconfigured f).messages = [line] ∧
      ∀ text ∈ f.message :: f.causes, EndsIn line text := by
  have hchain := h.isChain_endsIn
  have hcauses : ∀ text ∈ f.causes, EndsIn f.message text := fun text htext =>
    hchain.rel_cons htext
  have hall : ∀ text ∈ f.message :: f.causes, EndsIn f.message text :=
    List.forall_mem_cons.mpr ⟨List.suffix_rfl, hcauses⟩
  obtain ⟨outer, inner, hlayers, hlength, hinner, htexts⟩ := Layer.exists_chain f
  refine ⟨⟨outer, inner, fun layers => ⟨fun h => h.unique hlayers, ?_⟩, hlength, hinner, htexts,
    htexts ▸ hchain⟩, hcauses, fun policy path skipped hskipped => ?_, ?_⟩
  · rintro rfl
    exact hlayers
  · unfold Policy.tolerate at hskipped
    split at hskipped
    · cases hskipped
      exact hall
    · cases hskipped
  · refine ⟨"Error: " ++ f.message, rfl, fun text htext => ?_⟩
    exact IsTrans.trans _ _ _ (endsIn_append _ _) (hall text htext)

/-- Two remarks on a failure to write make a chain of five. -/
theorem endsIn_of_built_twice :
    let f := ((of (.ofSystemError (.sort .notFound))).remark "inner").remark "outer"
    f.Built ∧
    (∃ layers, Layer.Chain (.failure f) layers ∧ layers.map Layer.text =
      ["outer: inner: Infrastructure error: Output error: entity not found",
        "inner: Infrastructure error: Output error: entity not found",
        "Infrastructure error: Output error: entity not found",
        "Output error: entity not found",
        "entity not found"]) ∧
    EndsIn f.message "entity not found" := by
  intro f
  have hbuilt : f.Built := .remark _ (.remark _ (.ofSystemError _))
  obtain ⟨⟨outer, inner, hlayers, -, -, htexts, -⟩, hcauses, -⟩ := endsIn_of_built hbuilt
  refine ⟨hbuilt, ⟨outer ++ inner, (hlayers _).mpr rfl, ?_⟩, hcauses _ ?_⟩
  · rw [htexts]
    decide
  · decide

end Failure

end KeywordSurvey
