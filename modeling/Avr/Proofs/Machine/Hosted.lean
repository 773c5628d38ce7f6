import Avr.Proofs.Machine.Twins

/-!
# What a host does with a machine

* `HostAction`, `Machine.act`, `Machine.follow` : steps, runs, resets and edits of data memory, one after another;
* `Transcript` : the console that keeps the printed texts apart;
* `Machine.transcript` : what is printed on the way;
* `Machine.follow_start` : the way of a machine and what it prints do not depend on its console;
* `Machine.follow_repeatable` : a reset leads back to the start, and what follows it is as it was the first time.
-/

namespace Avr

inductive HostAction
  | step
  | run
  | reset
  | edit (change : Memory → Memory)

/-- A console that keeps the texts apart, in the order in which they are printed. -/
structure Transcript where
  texts : List (List Byte) := []

instance : Console Transcript where
  emit console text := ⟨console.texts ++ [text]⟩

/-- A console after the texts of a transcript. -/
def Transcript.showOn {γ : Type} [Console γ] (t : Transcript) (console : γ) : γ := t.texts.foldl Console.emit console

namespace Transcript

theorem showOn_emit {γ : Type} [Console γ] (t : Transcript) (text : List Byte) (console : γ) :
    (Console.emit t text).showOn console = Console.emit (t.showOn console) text :=
  List.foldl_append

theorem showOn_array (t : Transcript) (console : Array Byte) :
    t.showOn console = console ++ t.texts.flatten.toArray := by
  obtain ⟨texts⟩ := t
  simp only [showOn]
  induction texts generalizing console with
  | nil => simp
  | cons text texts ih =>
    rw [List.foldl_cons, ih]
    apply Array.ext'
    simp [Console.emit]

theorem showOn_string (t : Transcript) (console : String) :
    t.showOn console = console ++ String.ofList (Text.latin1 t.texts.flatten) := by
  obtain ⟨texts⟩ := t
  simp only [showOn]
  induction texts generalizing console with
  | nil => simp [Text.latin1]
  | cons text texts ih =>
    rw [List.foldl_cons, ih]
    simp [Console.emit, Text.latin1, String.append_assoc]

end Transcript

/-! ## Twins that differ in their consoles -/

/-- A machine that keeps its texts, and one with a console that shows them behind what was there before. -/
def recorded {γ : Type} [Console γ] (s : Setting) (console : γ) : Pairing Transcript γ where
  first := s
  second := s
  program := rfl
  Shows t shown := shown = t.showOn console
  emit text h := by rw [Transcript.showOn_emit, h]

namespace Machine

variable {γ : Type} [Console γ]

def act (m : Machine γ) : HostAction → Machine γ
  | .step => m.step
  | .run => m.run
  | .reset => m.reset
  | .edit change => { m with memory := change m.memory }

def follow (m : Machine γ) (actions : List HostAction) : Machine γ := actions.foldl act m

theorem twins_recorded (image : Image) (limit : StepLimit) (console : γ) (t : Transcript) :
    (recorded ⟨image, limit⟩ console).Twins (start image limit t) (start image limit (t.showOn console)) :=
  .intro _ _ _ _ _ rfl

theorem twins_act {s : Setting} {console : γ} {m : Machine Transcript} {n : Machine γ}
    (h : (recorded s console).Twins m n) (a : HostAction) : (recorded s console).Twins (m.act a) (n.act a) := by
  cases a with
  | step => exact h.step_same rfl rfl
  | run => exact h.run rfl rfl
  | reset =>
    have hshows : n.console = m.console.showOn console := h.shows
    simp only [act, reset]
    rw [h.image_left, h.image_right, h.limit_left, h.limit_right, hshows]
    exact twins_recorded s.image s.limit console m.console
  | edit change =>
    simp only [act]
    rw [h.memory]
    exact h.withMemory _

theorem twins_follow {s : Setting} {console : γ} {m : Machine Transcript} {n : Machine γ}
    (h : (recorded s console).Twins m n) (actions : List HostAction) :
    (recorded s console).Twins (m.follow actions) (n.follow actions) := by
  induction actions generalizing m n with
  | nil => exact h
  | cons a actions ih => exact ih (twins_act h a)

/-! ## From the start -/

/-- What is printed while a host does all that from the start. -/
def transcript (image : Image) (limit : StepLimit) (actions : List HostAction) : Transcript :=
  ((start image limit ({} : Transcript)).follow actions).console

/-- The way of a machine does not depend on its console, and the console shows what is printed on the way. -/
theorem follow_start (image : Image) (limit : StepLimit) (actions : List HostAction) (console : γ) :
    (start image limit console).follow actions =
      { (start image limit ({} : Transcript)).follow actions with
        console := (transcript image limit actions).showOn console } := by
  have h := twins_follow (twins_recorded image limit console {}) actions
  have hshows : ((start image limit console).follow actions).console =
      (transcript image limit actions).showOn console := h.shows
  rw [← hshows]
  exact h.eq_of_setting rfl

/-- A reset leads back to the start, but for the console. -/
theorem reset_follow (image : Image) (limit : StepLimit) (actions : List HostAction) (console : γ) :
    let m := (start image limit console).follow actions
    m.reset = start image limit m.console := by
  intro m
  have h := twins_follow (twins_recorded image limit console {}) actions
  rw [reset_eq_start]
  exact congrArg₂ (start · · _) h.image_right h.limit_right

/-- A reset brings a machine back to its start, whatever its host has done with it, but for the console. Machines with
one image and one limit but any two consoles go the same way and print the same texts, which are the same bytes on a
console for bytes and on one that shows bytes as characters. So after a reset a machine does and prints what it did
and printed the first time. -/
theorem follow_repeatable (image : Image) (limit : StepLimit) (actions : List HostAction) :
    (∀ {γ : Type} [Console γ] (console : γ), let m := (start image limit console).follow actions
      m.reset = start image limit m.console) ∧
    ∃ t : Transcript,
      (∀ {γ δ : Type} [Console γ] [Console δ] (console : γ) (other : δ),
        let m := (start image limit console).follow actions
        m.console = t.showOn console ∧
          (start image limit other).follow actions = { m with console := t.showOn other }) ∧
      (∀ (bytes : Array Byte) (text : String),
        ((start image limit bytes).follow actions).console = bytes ++ t.texts.flatten.toArray ∧
        ((start image limit text).follow actions).console = text ++ String.ofList (Text.latin1 t.texts.flatten)) ∧
      ∀ {γ : Type} [Console γ] (console : γ) (before : List HostAction),
        let m := (start image limit console).follow before
        m.reset.follow actions = { (start image limit console).follow actions with console := t.showOn m.console } := by
  have hconsole {γ : Type} [Console γ] (console : γ) : ((start image limit console).follow actions).console =
      (transcript image limit actions).showOn console := by
    rw [follow_start]
  have hother {γ δ : Type} [Console γ] [Console δ] (console : γ) (other : δ) :
      (start image limit other).follow actions = { (start image limit console).follow actions with
        console := (transcript image limit actions).showOn other } := by
    rw [follow_start image limit actions other, follow_start image limit actions console]
  refine ⟨reset_follow image limit actions, transcript image limit actions,
    fun console other => ⟨hconsole console, hother console other⟩, fun bytes text => ⟨?_, ?_⟩, fun console before => ?_⟩
  · rw [hconsole, Transcript.showOn_array]
  · rw [hconsole, Transcript.showOn_string]
  · intro m
    rw [reset_follow image limit before console]
    exact hother console m.console

end Machine

end Avr
