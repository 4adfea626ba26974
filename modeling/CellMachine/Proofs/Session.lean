import CellMachine.Proofs.Machine.Reload
import CellMachine.Session

/-!
# CellMachine.Proofs.Session

A session takes its machine apart after every request, and cannot be told from a machine that is
kept.

* `Session.Request`, `Session.Reply` — what a session is asked for, and what it answers.
* `Resident`                 — a machine that is kept, with the requests carried out on it.
* `Machine.Hosted`           — what no step changes: settings, size of memory, and the kind of sink.
* `Session.Represents`       — the parts of a session are those of a machine that is kept.
* `Session.perform_of_error` — what a request that fails leaves.
* `Session.transcript_eq`    — both answer every row of requests alike, and look alike after each.
-/

namespace CellMachine

/-! ## Requests -/

namespace Session

inductive Request where
  | load (image : Array Word)
  | loadSource (source : String)
  | step
  | run (max : Nat)
  | reset
  | setDebug (debug : Bool)
  | takeOutput
  deriving DecidableEq

inductive Reply where
  | done
  | size (count : Nat)
  | text (text : String)
  | cycles (count : UInt64)
  | error (error : SessionError)
  deriving DecidableEq

def Reply.of {α : Type} (f : α → Reply) : Except SessionError α → Reply
  | .ok a => f a
  | .error e => .error e

def perform (s : Session) : Request → Session × Reply
  | .load image => ((s.load image).1, .of .size (s.load image).2)
  | .loadSource source => ((s.loadSource source).1, .of .size (s.loadSource source).2)
  | .step => (s.step.1, .of .text s.step.2)
  | .run max => ((s.run max).1, .of .cycles (s.run max).2)
  | .reset => (s.reset, .done)
  | .setDebug debug => (s.setDebug debug, .done)
  | .takeOutput => (s.takeOutput.1, .text s.takeOutput.2)

/-- What can be seen of a machine, its settings apart. -/
structure View where
  mem : Memory
  core : Core
  output : String
  deriving DecidableEq

def view (s : Session) : View := ⟨s.mem, s.core, s.output⟩

/-- The replies to a row of requests, each with what is seen after it. -/
def transcript {σ : Type} (perform : σ → Request → σ × Reply) (view : σ → View) :
    σ → List Request → List (Reply × View)
  | _, [] => []
  | s, q :: qs =>
    let (s', reply) := perform s q
    (reply, view s') :: transcript perform view s' qs

end Session

/-! ## A machine that is kept -/

open Session (Request Reply View transcript)

/-- A machine that is kept between requests, and the program that a reset loads. -/
structure Resident where
  machine : Machine
  program : Array Word := #[]

namespace Resident

def new (size : Nat) : Resident where
  machine := .new (.zeros (if size = 0 then Session.defaultSize else size))

def clearOutput (m : Machine) : Machine := { m with out := { m.out with text := "" } }

/-- A reload that succeeds makes `image` the program and forgets the output. One that fails is taken
back: by itself it would leave memory zeroed. -/
def load (r : Resident) (image : Array Word) : Resident × Reply :=
  match r.machine.reload image with
  | (m, .ok ()) => ({ machine := clearOutput m, program := image }, .size image.size)
  | (_, .error _) => (r, .error (.imageTooLarge image.size r.machine.mem.size))

def perform (r : Resident) : Request → Resident × Reply
  | .load image => r.load image
  | .loadSource source =>
    match assemble source with
    | .ok image => r.load image
    | .error e => (r, .error (.assembly e))
  | .step =>
    match r.machine.step with
    | (m, .ok i) =>
      ({ r with machine := m }, .text (i.elim "unknown opcode skipped" Instruction.text))
    | (m, .error f) => ({ r with machine := m }, .error (.fault f))
  | .run max =>
    match r.machine.runLimited max with
    | (m, .ok _) => ({ r with machine := m }, .cycles m.cycles)
    | (m, .error f) => ({ r with machine := m }, .error (.fault f))
  | .reset => ({ r with machine := clearOutput (r.machine.reload r.program).1 }, .done)
  | .setDebug debug => ({ r with machine := r.machine.setDebug debug }, .done)
  | .takeOutput => ({ r with machine := clearOutput r.machine }, .text r.machine.out.text)

def view (r : Resident) : View := ⟨r.machine.mem, r.machine.toCore, r.machine.out.text⟩

end Resident

/-! ## What no step changes -/

/-- A sink that keeps its text and refuses nothing. -/
def Sink.InMemory (out : Sink) : Prop := out = { text := out.text }

theorem Sink.InMemory.write {out : Sink} (h : out.InMemory) (s : String) :
    (out.write s).1.InMemory := by
  rw [h]
  unfold Sink.write
  split
  · rfl
  · rfl

namespace Machine

/-- The settings and the size of memory, and a sink that refuses nothing. -/
structure Hosted (config : Config) (size : Nat) (m : Machine) : Prop where
  config : m.config = config
  size : m.mem.size = size
  out : m.out.InMemory

variable {config : Config} {size : Nat} {m : Machine}

theorem Hosted.apply {e : Effect} (h : Hosted config size m)
    (he : ∀ out, e = .output out → out.InMemory) : Hosted config size (m.apply e) := by
  cases e with
  | store p w => exact ⟨h.config, (m.mem.size_put p w).trans h.size, h.out⟩
  | output out => exact ⟨h.config, h.size, he out rfl⟩
  | _ => exact ⟨h.config, h.size, h.out⟩

theorem Hosted.attempt (h : Hosted config size m) : Hosted config size (Exec.attempt m).1 := by
  have hwithin : Exec.Within
      (fun m e => Hosted config size m → Hosted config size (m.apply e)) Exec.attempt := by
    refine Exec.within_attempt (fun _ _ _ _ hm => hm.apply nofun) (fun i m e he hm => hm.apply ?_)
      (fun _ _ hm => hm.apply nofun)
    rintro out rfl
    obtain ⟨-, text, rfl⟩ := he
    exact hm.out.write text
  exact (hwithin m).keeps (fun _ _ hm hkeep => hkeep hm) h

theorem Hosted.step (h : Hosted config size m) : Hosted config size m.step.1 :=
  step_keeps (fun _ h => ⟨h.config, h.size, h.out⟩) (fun _ => Hosted.attempt)
    (fun _ _ h => ⟨h.config, h.size, h.out⟩) (fun _ _ h => ⟨h.config, h.size, h.out⟩) h

theorem Hosted.runLimited (h : Hosted config size m) (max : Nat) :
    Hosted config size (m.runLimited max).1 := by
  rw [runLimited_fst]
  exact runUntil_keeps (fun _ => Hosted.step) _ h

end Machine

namespace Session

variable {s : Session} {r : Resident}

theorem hosted_machine (s : Session) : s.machine.Hosted s.config s.mem.size := ⟨rfl, rfl, rfl⟩

/-- The machine that is put together from the parts of `m` is `m`. -/
theorem machine_keep {m : Machine} (h : m.Hosted s.config s.mem.size) : (s.keep m).machine = m := by
  show ({ m.toCore with
    mem := m.mem, config := s.config, out := { text := m.out.text } } : Machine) = m
  rw [← h.config, ← h.out]

/-- The parts of a session are those of a machine that is kept, and its program fits. -/
structure Represents (s : Session) (r : Resident) : Prop where
  machine : s.machine = r.machine
  program : s.program = r.program
  fits : s.program.size ≤ s.mem.size

theorem Represents.view_eq (h : s.Represents r) : s.view = r.view := by
  rw [Resident.view, ← h.machine]
  rfl

theorem represents_new (size : Nat) : (new size).Represents (.new size) where
  machine := by
    show Machine.resume _ (.initial _) _ _ = Machine.new _
    rw [Machine.new, Memory.size, Memory.zeros, Array.size_replicate]
    rfl
  program := rfl
  fits := Nat.zero_le _

/-- A machine of the same host takes the place of the one before. -/
theorem Represents.keep {m : Machine} (h : s.Represents r) (hm : m.Hosted s.config s.mem.size) :
    (s.keep m).Represents { r with machine := m } where
  machine := machine_keep hm
  program := h.program
  fits := by
    show s.program.size ≤ m.mem.size
    rw [hm.size]
    exact h.fits

/-- To start a program that fits is to reload it and to forget the output. -/
theorem Represents.restart {image : Array Word} (h : s.Represents r)
    (hfits : image.size ≤ s.mem.size) :
    ({ s with program := image }.reset).Represents
      { machine := Resident.clearOutput (r.machine.reload image).1, program := image } where
  machine := by
    rw [← h.machine, Machine.reload_of_le hfits]
    show Machine.resume _ (.initial (Memory.ofImage s.mem.size image).size) _ _ = _
    rw [Memory.size_ofImage hfits]
    rfl
  program := rfl
  fits := by
    show image.size ≤ (Memory.ofImage s.mem.size image).size
    rwa [Memory.size_ofImage hfits]

theorem Represents.load (h : s.Represents r) (image : Array Word) :
    Reply.of .size (s.load image).2 = (r.load image).2 ∧
      (s.load image).1.Represents (r.load image).1 := by
  have hsize : s.mem.size = r.machine.mem.size := by
    rw [← h.machine]
    rfl
  unfold Session.load Resident.load
  rcases Nat.lt_or_ge s.mem.size image.size with hlt | hge
  · rw [if_pos hlt, Machine.reload_of_lt (by rwa [← hsize])]
    refine ⟨?_, h⟩
    rw [hsize]
    rfl
  · have hrestart := h.restart hge
    rw [Machine.reload_of_le (by rwa [← hsize])] at hrestart ⊢
    rw [if_neg (Nat.not_lt.mpr hge)]
    exact ⟨rfl, hrestart⟩

/-- Each request is answered alike, and leaves the parts of the machine that is kept. -/
theorem Represents.perform (h : s.Represents r) (q : Request) :
    (s.perform q).2 = (r.perform q).2 ∧ (s.perform q).1.Represents (r.perform q).1 := by
  cases q with
  | load image => exact h.load image
  | loadSource source =>
    simp only [Session.perform, Resident.perform, loadSource]
    cases assemble source with
    | error e => exact ⟨rfl, h⟩
    | ok image => exact h.load image
  | step =>
    have hkeep := h.keep s.hosted_machine.step
    simp only [Session.perform, Resident.perform, Session.step, ← h.machine]
    cases hs : s.machine.step with
    | mk m result =>
      rw [hs] at hkeep
      cases result with
      | ok i => exact ⟨rfl, hkeep⟩
      | error f => exact ⟨rfl, hkeep⟩
  | run max =>
    have hkeep := h.keep (s.hosted_machine.runLimited max)
    simp only [Session.perform, Resident.perform, Session.run, ← h.machine]
    cases hs : s.machine.runLimited max with
    | mk m result =>
      rw [hs] at hkeep
      cases result with
      | ok x => exact ⟨rfl, hkeep⟩
      | error f => exact ⟨rfl, hkeep⟩
  | reset =>
    have hrestart := h.restart h.fits
    refine ⟨rfl, ?_⟩
    rw [Resident.perform, ← h.program]
    exact hrestart
  | setDebug debug =>
    refine ⟨rfl, ?_, h.program, h.fits⟩
    simp only [Session.perform, Resident.perform, ← h.machine]
    rfl
  | takeOutput =>
    simp only [Session.perform, Resident.perform, ← h.machine]
    exact ⟨rfl, rfl, h.program, h.fits⟩

theorem transcript_eq_of_represents (h : s.Represents r) (qs : List Request) :
    transcript Session.perform Session.view s qs =
      transcript Resident.perform Resident.view r qs := by
  induction qs generalizing s r with
  | nil => rfl
  | cons q qs ih =>
    obtain ⟨hreply, hnext⟩ := h.perform q
    simp only [transcript, hreply, hnext.view_eq, ih hnext]

/-! ## Requests that fail -/

section Errors

variable {q : Request} {e : SessionError}

theorem load_eq_of_error {image : Array Word} (h : Reply.of .size (s.load image).2 = .error e) :
    (∀ f, e ≠ .fault f) ∧ (s.load image).1 = s := by
  unfold load at h ⊢
  split
  · rename_i hlt
    rw [if_pos hlt] at h
    cases h
    exact ⟨fun _ hf => SessionError.noConfusion hf, rfl⟩
  · rename_i hge
    rw [if_neg hge] at h
    cases h

/-- A step or a run that fails leaves a machine that ran faulted, and one that did not run as it
was. -/
theorem status_of_error {m m' : Machine} {f : Fault}
    (h : m.step = (m', .error f) ∨ ∃ max, m.runLimited max = (m', .error f)) :
    m'.status = if m.status = .running then .faulted else m.status := by
  by_cases hr : m.status = .running
  · rw [if_pos hr]
    obtain h | ⟨max, h⟩ := h
    · exact Machine.status_of_step_error hr h
    · exact Machine.status_of_runLimited_error h
  · rw [if_neg hr]
    obtain h | ⟨max, h⟩ := h
    · rw [Machine.step_of_not_running hr] at h
      cases h
      rfl
    · rw [Machine.runLimited_of_not_running hr] at h
      cases h

/-- A request fails with a fault of a step, or it has not happened. -/
theorem perform_of_error (h : (s.perform q).2 = .error e) :
    (∃ f, e = .fault f ∧ (q = .step ∨ ∃ max, q = .run max) ∧ (s.perform q).1.core.status =
        if s.core.status = .running then .faulted else s.core.status) ∨
      (∀ f, e ≠ .fault f) ∧ (s.perform q).1 = s := by
  cases q with
  | load image => exact .inr (load_eq_of_error h)
  | loadSource source =>
    simp only [Session.perform, loadSource] at h ⊢
    cases ha : assemble source with
    | error e' =>
      rw [ha] at h
      cases h
      exact .inr ⟨fun _ hf => SessionError.noConfusion hf, rfl⟩
    | ok image =>
      rw [ha] at h
      exact .inr (load_eq_of_error h)
  | step =>
    cases hs : s.machine.step with
    | mk m result =>
      simp only [Session.perform, Session.step, hs] at h
      cases result with
      | ok i => cases h
      | error f =>
        cases h
        refine .inl ⟨f, rfl, .inl rfl, ?_⟩
        simp only [Session.perform, Session.step, hs]
        exact status_of_error (.inl hs)
  | run max =>
    cases hs : s.machine.runLimited max with
    | mk m result =>
      simp only [Session.perform, Session.run, hs] at h
      cases result with
      | ok x => cases h
      | error f =>
        cases h
        refine .inl ⟨f, rfl, .inr ⟨max, rfl⟩, ?_⟩
        simp only [Session.perform, Session.run, hs]
        exact status_of_error (.inr ⟨max, hs⟩)
  | reset => cases h
  | setDebug debug => cases h
  | takeOutput => cases h

end Errors

/-- A session and a machine that is kept answer every row of requests alike, and memory, processor
and output are the same after each of them. A step or a run that fails leaves a machine that ran
faulted; any other request that fails, and so a load, changes nothing. -/
theorem transcript_eq (size : Nat) :
    (new size).view = (Resident.new size).view ∧
      (∀ qs, transcript Session.perform Session.view (new size) qs =
        transcript Resident.perform Resident.view (.new size) qs) ∧
      ∀ (s : Session) (q : Request) (e : SessionError), (s.perform q).2 = .error e →
        (∀ f, e = .fault f → (q = .step ∨ ∃ max, q = .run max) ∧
          (s.perform q).1.core.status =
            if s.core.status = .running then .faulted else s.core.status) ∧
        ((∀ f, e ≠ .fault f) → (s.perform q).1 = s) := by
  have hnew := represents_new size
  refine ⟨hnew.view_eq, transcript_eq_of_represents hnew, fun s q e h => ?_⟩
  obtain ⟨g, rfl, hq, hstatus⟩ | ⟨hne, hsame⟩ := perform_of_error h
  · exact ⟨fun _ _ => ⟨hq, hstatus⟩, fun hne => absurd rfl (hne g)⟩
  · exact ⟨fun f hf => absurd hf (hne f), fun _ => hsame⟩

/-- A step that fails in an image of one cell, and then an image that is too large. -/
theorem transcript_eq_fault :
    let s := ((new 1).perform (.load #[99])).1
    let s₁ := (s.perform .step).1
    (s.perform .step).2 = .error (.fault (.unknownOpcode 99 0)) ∧ s₁.core.status = .faulted ∧
      (s₁.perform (.load #[0, 31])).2 = .error (.imageTooLarge 2 1) ∧
      (s₁.perform (.load #[0, 31])).1 = s₁ := by
  intro s s₁
  have hfault : (s.perform .step).2 = .error (.fault (.unknownOpcode 99 0)) := by decide +kernel
  have hlarge : (s₁.perform (.load #[0, 31])).2 = .error (.imageTooLarge 2 1) := by decide +kernel
  obtain ⟨-, -, herror⟩ := transcript_eq 1
  refine ⟨hfault, ((herror s .step _ hfault).1 _ rfl).2, hlarge, ?_⟩
  exact (herror s₁ _ _ hlarge).2 fun _ hf => SessionError.noConfusion hf

end Session

end CellMachine
