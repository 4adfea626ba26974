import CellMachine.Proofs.Machine.Execution
import CellMachine.Proofs.Machine.Reload
import CellMachine.Proofs.Machine.Runs

/-!
# CellMachine.Proofs.Machine.FailedReload

A reload with an image that is too large. The processor is as it was, but memory has been zeroed:
what the machine was carrying out is lost.

* `step_of_blank`    — over zeroed memory, a step is `CLF`.
* `ends_of_blank`    — such steps go on to the end of memory.
* `reload_too_large` — what a failed reload leaves, and how the machine goes on from there.
-/

namespace CellMachine.Machine

variable {m : Machine} {n p : Nat}

/-- The cell zero is the instruction `CLF`. -/
theorem holds_of_blank (hmem : m.mem = .zeros n) (hp : m.next.toInt = (p : Int)) (hlt : p < n) :
    m.Holds .clf := by
  refine ⟨p, hp, ?_⟩
  have hcells : m.mem.cells.toList.drop p = List.replicate (n - p) 0 := by
    rw [hmem, Memory.zeros, Array.toList_replicate, List.drop_replicate]
  obtain ⟨k, hk⟩ : ∃ k, n - p = k + 1 := Nat.exists_eq_add_one.mpr (by omega)
  rw [hcells, hk, List.replicate_succ]
  exact ⟨List.replicate k 0, rfl⟩

theorem step_of_blank (hr : m.status = .running) (hd : m.config.debug = false)
    (hmem : m.mem = .zeros n) (hp : m.next.toInt = (p : Int)) (hlt : p < n) :
    ∃ m', m.step = (m', .ok (some .clf)) ∧ m'.status = .running ∧ m'.config = m.config ∧
      m'.mem = m.mem ∧ m'.next = m.next + 1 := by
  obtain ⟨inst, dest, src, hfetch⟩ := (holds_of_blank hmem hp hlt).fetch
  have hout : m.TakesTrace := by
    intro hdebug
    rw [hd] at hdebug
    cases hdebug
  obtain ⟨out, hstep⟩ := step_of_execute hr hfetch rfl hout
  refine ⟨_, hstep, hr, rfl, rfl, ?_⟩
  show m.next + 0 + 1 = m.next + 1
  rw [Int64.add_zero]

/-- Past the end of memory there is nothing to fetch. -/
theorem step_of_end (hr : m.status = .running) (hp : m.next.toInt = (m.mem.size : Int)) :
    ∃ m', m.step = (m', .error (.memory (.addressOutOfRange m.next m.mem.size))) := by
  have hplace : ¬m.next.IsPlace m.mem.size := by
    rintro ⟨-, hlt⟩
    omega
  exact ⟨_, step_of_error hr (Exec.bind_of_error (fetch_of_not_isPlace hplace) _)⟩

/-- By induction on the number of cells from the next address on. -/
theorem ends_of_blank {k : Nat} (hn : Word.Covers n) (hr : m.status = .running)
    (hd : m.config.debug = false) (hmem : m.mem = .zeros n) (hp : m.next.toInt = (p : Int))
    (hk : p + k = n) :
    ∃ m', Ends m k m' (.error (.memory (.addressOutOfRange (Int64.ofNat n) n))) := by
  have hsize : m.mem.size = n := by
    rw [hmem]
    exact Array.size_replicate
  induction k generalizing m p with
  | zero =>
    have hend : m.next.toInt = (m.mem.size : Int) := by omega
    obtain ⟨m', hstep⟩ := step_of_end hr hend
    rw [Word.eq_ofNat_of_toInt_eq hend, hsize] at hstep
    exact ⟨m', .failed hr hstep⟩
  | succ k ih =>
    obtain ⟨m₁, hstep, hr', hconfig, hmem', hnext⟩ :=
      step_of_blank hr hd hmem hp (by omega)
    have hp' : m₁.next.toInt = ((p + 1 : Nat) : Int) := by
      rw [hnext, Word.toInt_add_one hn (by omega)]
      omega
    rw [← hconfig] at hd
    rw [← hmem'] at hmem hsize
    obtain ⟨m', hends⟩ := ih hr' hd hmem hp' (by omega) hsize
    exact ⟨m', .step hstep hends⟩

/-- An image that is larger than memory is refused, and the error names both sizes. Processor,
settings and output are as they were, but every cell is zero, so the machine is as it was only if
memory was zero before. A machine that was running does not go on with its program: it carries out
`CLF` for every cell from the next address to the end of memory, and fails there. -/
theorem reload_too_large {image : Array Word} (h : m.mem.size < image.size) :
    ∃ m', m.reload image = (m', .error (.imageTooLarge image.size m.mem.size)) ∧
      m'.toCore = m.toCore ∧ m'.config = m.config ∧ m'.out = m.out ∧
      m'.mem = .zeros m.mem.size ∧ (m' = m ↔ ∀ w ∈ m.mem.cells, w = 0) ∧
      (m.status = .running → m.config.debug = false → Word.Covers m.mem.size →
        ∀ p k : Nat, m.next.toInt = (p : Int) → p + k = m.mem.size →
          ∃ m'', Ends m' k m''
            (.error (.memory (.addressOutOfRange (Int64.ofNat m.mem.size) m.mem.size)))) := by
  refine ⟨_, reload_of_lt h, rfl, rfl, rfl, rfl, ?_, ?_⟩
  · constructor
    · intro hsame w hw
      have hmem : m.mem.clear = m.mem := congrArg Machine.mem hsame
      rw [← hmem] at hw
      exact (Array.mem_replicate.mp hw).2
    · intro hzero
      have hcells : m.mem.cells = Array.replicate m.mem.size 0 :=
        Array.eq_replicate_iff.mpr ⟨rfl, hzero⟩
      have hmem : m.mem.clear = m.mem := by
        rw [Memory.clear, Memory.zeros, ← hcells]
      rw [hmem]
  · intro hr hd hn p k hp hk
    exact ends_of_blank hn hr hd rfl hp hk

/-- `LII 1, 7` was carried out and `HLT` is next, in four cells. After the reload of five cells the
machine runs on into the end of memory. -/
theorem reload_too_large_running :
    let m : Machine := { new ⟨#[6, 1, 7, 31]⟩ with
      pc := 2, cycles := 1, regs := { r := #v[0, 7, 0, 0, 0, 0, 0, 0, 0, 0, 0, 0, 0, 0, 0, 0] } }
    m.mem.size < 5 ∧ ∃ m' m'', m.reload #[1, 2, 3, 4, 5] = (m', .error (.imageTooLarge 5 4)) ∧
      m'.toCore = m.toCore ∧ m'.mem = .zeros 4 ∧
      Ends m' 1 m'' (.error (.memory (.addressOutOfRange 4 4))) := by
  intro m
  have hlt : m.mem.size < (#[1, 2, 3, 4, 5] : Array Word).size := by decide
  obtain ⟨m', hreload, hcore, -, -, hmem, -, hends⟩ := reload_too_large hlt
  obtain ⟨m'', hends⟩ := hends rfl rfl (by decide) 3 1 (by decide) rfl
  exact ⟨hlt, m', m'', hreload, hcore, hmem, hends⟩

/-- The same reload does not leave memory as it was: without it the machine halts in its next
step. -/
theorem reload_wipes_program :
    let m : Machine := { new ⟨#[6, 1, 7, 31]⟩ with
      pc := 2, cycles := 1, regs := { r := #v[0, 7, 0, 0, 0, 0, 0, 0, 0, 0, 0, 0, 0, 0, 0, 0] } }
    (m.reload #[1, 2, 3, 4, 5]).2 = .error (.imageTooLarge 5 4) ∧
      (m.reload #[1, 2, 3, 4, 5]).1.mem ≠ m.mem ∧ m.step.2 = .ok (some .hlt) ∧
      (m.reload #[1, 2, 3, 4, 5]).1.step.2 = .ok (some .clf) := by
  decide +kernel

end CellMachine.Machine
