import CellMachine.Proofs.Debugger
import CellMachine.Proofs.Session

/-!
# CellMachine.Proofs.Restart

A program that is started afresh leaves no trace of what was done before.

* `Machine.Write`            — a word put into a machine from outside.
* `Debugger.Action`, `Session.Action` — what can be done with a machine before it is restarted.
* `Debugger.Hosts`           — what no action changes: the program, and the size of memory for it.
* `Debugger.quiet_act`       — execution in a debugger does not look at what was displayed.
* `restart_eq_new`           — a restart gives the machine that a new one would be.
-/

namespace CellMachine

namespace Machine

/-- A word put into a machine from outside. A position that memory does not have keeps nothing. -/
inductive Write where
  | register (i : Fin 16) (w : Word)
  | cell (position : Nat) (w : Word)
  | pc (w : Word)
  | sp (w : Word)
  deriving DecidableEq

def Write.effect : Write → Effect
  | .register i w => .register i w
  | .cell position w => .store position w
  | .pc w => .jump w
  | .sp w => .stack w

variable {m : Machine} {config : Config} {size : Nat} {image : Array Word}

theorem Hosted.write (h : Hosted config size m) (w : Write) :
    Hosted config size (m.apply w.effect) := by
  refine h.apply fun out hout => ?_
  cases w <;> cases hout

/-- A reload that succeeds leaves the machine that is made for the image, but for its output. -/
theorem reload_eq_new (h : image.size ≤ m.mem.size) :
    m.reload image = (.new (.ofImage m.mem.size image) m.config m.out, .ok ()) := by
  rw [reload_of_le h, new, Memory.size_ofImage h]

end Machine

namespace Memory

/-- A block for an image has the size that is asked for, or more if the image needs more. -/
theorem size_ofImage_eq (size : Nat) (image : Array Word) :
    (ofImage size image).size = image.size + (size - image.size) := by
  rw [Memory.size, ofImage, Array.size_append, Array.size_replicate]

theorem ofImage_size_ofImage (size : Nat) (image : Array Word) :
    ofImage (ofImage size image).size image = ofImage size image := by
  rw [size_ofImage_eq, ofImage, Nat.add_sub_cancel_left]
  rfl

end Memory

/-! ## Debuggers -/

namespace Debugger

/-- What is done with a debugger, or with its machine, before a reset. -/
inductive Action where
  | step
  | run
  | tick
  | toggleBreakpoint
  /-- A run of the machine by itself. -/
  | runLimited (max : Nat)
  | write (w : Machine.Write)
  | setDebug (debug : Bool)
  deriving DecidableEq

def act (d : Debugger) : Action → Debugger
  | .step => d.step
  | .run => d.run
  | .tick => d.tick
  | .toggleBreakpoint => d.toggleBreakpoint
  | .runLimited max => { d with machine := (d.machine.runLimited max).1 }
  | .write w => { d with machine := d.machine.apply w.effect }
  | .setDebug debug => { d with machine := d.machine.setDebug debug }

def actAll (d : Debugger) (actions : List Action) : Debugger := actions.foldl act d

variable {d : Debugger} {n : Nat} {program : Array Word}

/-- A debugger of `program` over `n` cells. -/
structure Hosts (n : Nat) (program : Array Word) (d : Debugger) : Prop where
  machine : ∃ config, d.machine.Hosted config n
  program : d.program = program

theorem Hosts.step (h : d.Hosts n program) : d.step.Hosts n program := by
  obtain ⟨⟨config, hm⟩, hp⟩ := h
  obtain ⟨notice, heq⟩ := d.exists_step_eq
  rw [heq]
  exact ⟨⟨config, hm.step⟩, hp⟩

theorem Hosts.act (h : d.Hosts n program) (a : Action) : (d.act a).Hosts n program := by
  obtain ⟨config, hm⟩ := h.machine
  cases a with
  | step => exact h.step
  | run => exact ⟨⟨config, hm⟩, h.program⟩
  | tick =>
    show d.tick.Hosts n program
    unfold tick
    split
    · exact h
    split
    · exact ⟨⟨config, hm⟩, h.program⟩
    split
    · exact ⟨⟨config, hm⟩, h.program⟩
    · exact h.step
  | toggleBreakpoint =>
    show d.toggleBreakpoint.Hosts n program
    unfold toggleBreakpoint
    split
    · exact ⟨⟨config, hm⟩, h.program⟩
    · exact ⟨⟨config, hm⟩, h.program⟩
  | runLimited max => exact ⟨⟨config, hm.runLimited max⟩, h.program⟩
  | write w => exact ⟨⟨config, hm.write w⟩, h.program⟩
  | setDebug debug => exact ⟨⟨_, rfl, hm.size, hm.out⟩, h.program⟩

theorem Hosts.actAll (h : d.Hosts n program) (actions : List Action) :
    (d.actAll actions).Hosts n program := by
  induction actions generalizing d with
  | nil => exact h
  | cons a actions ih => exact ih (h.act a)

theorem hosts_new (size : Nat) (program : Array Word) (config : Config) :
    (new size program config).Hosts (Memory.ofImage size program).size program :=
  ⟨⟨config, rfl, rfl, rfl⟩, rfl⟩

theorem Hosts.reset (h : d.Hosts n program) (hfits : program.size ≤ n) :
    d.reset = { d with
      machine := .new (.ofImage n program) d.machine.config, running := false,
      notice := .wasReset } := by
  obtain ⟨config, hm⟩ := h.machine
  obtain rfl := hm.size
  have hout : { d.machine.out with text := "" } = ({} : Sink) := by rw [hm.out]
  simp only [Debugger.reset, hout, h.program]
  rw [Machine.reload_eq_new (m := { d.machine with out := {} }) hfits]

/-! ## What execution does not look at -/

/-- A debugger with nothing on display. -/
def quiet (d : Debugger) : Debugger := { d with notice := .ready, scroll := 0 }

theorem quiet_step (d : Debugger) : d.step.quiet = d.quiet.step.quiet := by
  obtain ⟨notice, heq⟩ := d.exists_step_eq
  obtain ⟨notice', heq'⟩ := d.quiet.exists_step_eq
  rw [heq, heq']
  rfl

theorem quiet_tick (d : Debugger) : d.tick.quiet = d.quiet.tick.quiet := by
  simp only [tick, apply_ite quiet, d.quiet_step]
  rfl

theorem quiet_toggleBreakpoint (d : Debugger) :
    d.toggleBreakpoint.quiet = d.quiet.toggleBreakpoint.quiet := by
  simp only [toggleBreakpoint, apply_ite quiet]
  rfl

theorem quiet_act (d : Debugger) (a : Action) : (d.act a).quiet = (d.quiet.act a).quiet := by
  cases a with
  | step => exact d.quiet_step
  | tick => exact d.quiet_tick
  | toggleBreakpoint => exact d.quiet_toggleBreakpoint
  | run => rfl
  | runLimited max => rfl
  | write w => rfl
  | setDebug debug => rfl

/-- Debuggers that differ in what is on display execute alike. -/
theorem quiet_actAll {d d' : Debugger} (h : d.quiet = d'.quiet) (actions : List Action) :
    (d.actAll actions).quiet = (d'.actAll actions).quiet := by
  induction actions generalizing d d' with
  | nil => exact h
  | cons a actions ih => exact ih (by rw [quiet_act, h, ← quiet_act])

end Debugger

/-! ## Sessions -/

namespace Session

/-- The image that a request asks to load. -/
def Request.Asks (image : Array Word) : Request → Prop
  | .load image' => image' = image
  | .loadSource source => assemble source = .ok image
  | _ => False

/-- What is done with a session, or with its machine, before a reset. -/
inductive Action where
  | request (q : Request)
  | write (w : Machine.Write)
  deriving DecidableEq

def act (s : Session) : Action → Session
  | .request q => (s.perform q).1
  | .write w => s.keep (s.machine.apply w.effect)

def actAll (s : Session) (actions : List Action) : Session := actions.foldl act s

def Action.Loads : Action → Prop
  | .request q => ∃ image, q.Asks image
  | .write _ => False

variable {s : Session} {n : Nat} {image : Array Word} {q : Request}

theorem perform_of_asks (h : q.Asks image) :
    s.perform q = ((s.load image).1, .of .size (s.load image).2) := by
  cases q with
  | load image' =>
    obtain rfl := h
    rfl
  | loadSource source =>
    have hassemble : assemble source = .ok image := h
    simp only [perform, loadSource, hassemble]
  | _ => exact h.elim

/-- A program is loaded if it fits, and then the session starts afresh. -/
theorem load_eq_of_size (h : Reply.of .size (s.load image).2 = .size n) :
    image.size ≤ s.mem.size ∧ (s.load image).1 = { s with program := image }.reset := by
  unfold load at h ⊢
  split at h
  · cases h
  · exact ⟨Nat.not_lt.mp ‹_›, by rw [if_neg ‹_›]⟩

/-- What does not load keeps the program, and memory at a size that it fits. -/
structure Hosts (n : Nat) (program : Array Word) (s : Session) : Prop where
  size : s.mem.size = n
  program : s.program = program

theorem Hosts.act (h : s.Hosts n image) (hfits : image.size ≤ n) (a : Action) (ha : ¬a.Loads) :
    (s.act a).Hosts n image := by
  obtain ⟨rfl, rfl⟩ := h
  cases a with
  | write w => exact ⟨(s.hosted_machine.write w).size, rfl⟩
  | request q =>
    cases q with
    | load image => exact absurd ⟨image, rfl⟩ ha
    | loadSource source =>
      have hkeeps : (s.loadSource source).1 = s := by
        unfold loadSource
        split
        · exact absurd ⟨_, ‹_›⟩ ha
        · rfl
      show (s.loadSource source).1.Hosts _ _
      rw [hkeeps]
      exact ⟨rfl, rfl⟩
    | step => exact ⟨s.hosted_machine.step.size, rfl⟩
    | run max => exact ⟨(s.hosted_machine.runLimited max).size, rfl⟩
    | reset => exact ⟨Memory.size_ofImage hfits, rfl⟩
    | setDebug debug => exact ⟨rfl, rfl⟩
    | takeOutput => exact ⟨rfl, rfl⟩

theorem Hosts.actAll (h : s.Hosts n image) (hfits : image.size ≤ n) {actions : List Action}
    (hactions : ∀ a ∈ actions, ¬a.Loads) : (s.actAll actions).Hosts n image := by
  induction actions generalizing s with
  | nil => exact h
  | cons a actions ih =>
    obtain ⟨ha, hactions⟩ := List.forall_mem_cons.mp hactions
    exact ih (h.act hfits a ha) hactions

theorem Hosts.reset (h : s.Hosts n image) :
    s.reset = { s with
      mem := .ofImage n image, core := .initial (Memory.ofImage n image).size, output := "" } := by
  obtain ⟨rfl, rfl⟩ := h
  rfl

end Session

/-! ## Restarts -/

/-- Whatever was done with a debugger, and whatever was done with a session since it was asked to
load a program and did so: a reset leaves the machine that is new over the program and zeros behind
it, and what is executed then is what would be executed in a new debugger, or right after loading.
A reload of an image that fits leaves such a machine too, with the output that there was. -/
theorem restart_eq_new :
    (∀ (size : Nat) (program : Array Word) (config : Config) (actions : List Debugger.Action),
      let d := (Debugger.new size program config).actAll actions
      let fresh : Debugger :=
        { Debugger.new size program d.machine.config with breakpoints := d.breakpoints }
      d.reset.machine = .new (.ofImage size program) d.machine.config ∧
        ∀ later, (d.reset.actAll later).machine = (fresh.actAll later).machine ∧
          (d.reset.actAll later).running = (fresh.actAll later).running) ∧
    (∀ (s : Session) (q : Session.Request) (image : Array Word) (n : Nat)
        (actions : List Session.Action),
      q.Asks image → (s.perform q).2 = .size n → (∀ a ∈ actions, ¬a.Loads) →
      let s' := (s.perform q).1.actAll actions
      s'.reset.machine = .new (.ofImage s.mem.size image) s'.config ∧
        s'.reset = { (s.perform q).1 with config := s'.config }) ∧
    ∀ (m : Machine) (image : Array Word), image.size ≤ m.mem.size →
      m.reload image = (.new (.ofImage m.mem.size image) m.config m.out, .ok ()) := by
  refine ⟨?_, ?_, fun m image => Machine.reload_eq_new⟩
  · intro size program config actions d fresh
    have hhosts : d.Hosts _ program := (Debugger.hosts_new size program config).actAll actions
    have hfits : program.size ≤ (Memory.ofImage size program).size := by
      rw [Memory.size_ofImage_eq]
      exact Nat.le_add_right _ _
    have hreset : d.reset = { fresh with notice := .wasReset, scroll := d.scroll } := by
      rw [hhosts.reset hfits, Memory.ofImage_size_ofImage, hhosts.program]
      rfl
    have hquiet : d.reset.quiet = fresh.quiet := by
      rw [hreset]
      rfl
    refine ⟨congrArg Debugger.machine hreset, fun later => ?_⟩
    have hlater := Debugger.quiet_actAll hquiet later
    have hmachine : (d.reset.actAll later).quiet.machine = (fresh.actAll later).quiet.machine := by
      rw [hlater]
    have hrunning : (d.reset.actAll later).quiet.running = (fresh.actAll later).quiet.running := by
      rw [hlater]
    exact ⟨hmachine, hrunning⟩
  · intro s q image n actions hq hsize hactions s'
    rw [Session.perform_of_asks hq] at hsize
    obtain ⟨hfits, hload⟩ := Session.load_eq_of_size hsize
    rw [← congrArg Prod.fst (Session.perform_of_asks (s := s) hq)] at hload
    have hstart : (s.perform q).1.Hosts s.mem.size image := by
      rw [hload]
      exact ⟨Memory.size_ofImage hfits, rfl⟩
    have hhosts : s'.Hosts s.mem.size image := hstart.actAll hfits hactions
    rw [hhosts.reset]
    refine ⟨rfl, ?_⟩
    rw [hload, hhosts.program]
    rfl

theorem restart_eq_new_overwritten :
    let halts : Array Word := #[9, 31]
    let d := (Debugger.new 4 halts {}).actAll [.write (.cell 0 31), .run, .tick, .write (.sp 0)]
    let s := ((Session.new 4).perform (.load halts)).1.actAll
      [.request .step, .write (.cell 0 31), .request (.run 1)]
    let m := Machine.new (.ofImage 3 #[31, 9, 9]) {}
    (d.machine.isRunning = false ∧ d.reset.machine = .new (.ofImage 4 halts) d.machine.config) ∧
      (s.cell 0 = 31 ∧ s.reset.machine = .new (.ofImage 4 halts) s.config) ∧
      m.reload halts = (.new (.ofImage 3 halts) {}, .ok ()) := by
  intro halts d s m
  obtain ⟨hdebugger, hsession, hmachine⟩ := restart_eq_new
  have hloads : ∀ a ∈ [.request .step, .write (.cell 0 31), .request (.run 1)],
      ¬Session.Action.Loads a := by
    simp [Session.Action.Loads, Session.Request.Asks]
  exact ⟨⟨by decide +kernel, (hdebugger 4 halts {} _).1⟩,
    ⟨by decide +kernel, (hsession (.new 4) (.load halts) halts 2 _ rfl (by decide) hloads).1⟩,
    hmachine m halts (by decide)⟩

end CellMachine
