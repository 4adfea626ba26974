import CellMachine.Proofs.Machine.Lockstep

/-!
# CellMachine.Proofs.Machine.Tracing

A trace changes nothing but the text that is put out.

* `Machine.Traced`      — a machine that traces beside one that does not.
* `Machine.traceLine`   — what a step traces: the registers after it, unless it fails.
* `Machine.trace_inserted` — any number of steps with and without a trace.
-/

namespace CellMachine

theorem Sink.Accepts.text_write {out : Sink} (h : out.Accepts) (s : String) :
    (out.write s).1.text = out.text ++ s := text_write_of_taken (h.write s).2

namespace Machine

/-- `m` traces and `n` does not. Apart from that they agree, and over sinks that refuse nothing they
have put out the same since their texts were `a` and `b`. -/
structure Traced (a b : String) (m n : Machine) : Prop where
  bare : m.bare = n.bare
  config : m.config = { n.config with debug := true }
  silent : n.config.debug = false
  accepts : m.out.Accepts
  accepts' : n.out.Accepts
  text : ∃ own, m.out.text = a ++ own ∧ n.out.text = b ++ own

variable {a b : String} {m n : Machine}

/-- A change that is the same on both sides, and that neither looks at settings and output nor
touches them. -/
theorem Traced.map {f : Machine → Machine} (h : Traced a b m n)
    (hbare : ∀ m, (f m).bare = f m.bare) (hconfig : ∀ m, (f m).config = m.config)
    (hout : ∀ m, (f m).out = m.out) : Traced a b (f m) (f n) where
  bare := by rw [hbare, hbare, h.bare]
  config := by rw [hconfig, hconfig, h.config]
  silent := by rw [hconfig, h.silent]
  accepts := hout m ▸ h.accepts
  accepts' := hout n ▸ h.accepts'
  text := by
    rw [hout, hout]
    exact h.text

theorem bare_apply {e : Effect} (he : e.IsQuiet) (m : Machine) :
    (m.apply e).bare = m.bare.apply e := by
  cases e with
  | output out => exact he.elim
  | _ => rfl

theorem out_apply {e : Effect} (he : e.IsQuiet) (m : Machine) : (m.apply e).out = m.out := by
  cases e with
  | output out => exact he.elim
  | _ => rfl

theorem lockstep_traced (a b : String) : Lockstep (Traced a b) where
  bare h := h.bare
  apply := by
    intro m n e h he
    exact h.map (f := (·.apply e)) (bare_apply he) (config_apply · e) (out_apply he)
  print := by
    intro m n s h
    obtain ⟨own, hm, hn⟩ := h.text
    obtain ⟨haccepts, hnone⟩ := h.accepts.write s
    obtain ⟨haccepts', hnone'⟩ := h.accepts'.write s
    refine ⟨⟨h.bare, h.config, h.silent, haccepts, haccepts', own ++ s, ?_, ?_⟩, ?_⟩
    · rw [← String.append_assoc, ← hm]
      exact h.accepts.text_write s
    · rw [← String.append_assoc, ← hn]
      exact h.accepts'.text_write s
    · simp only [Exec.print, hnone, hnone']

/-! ## Steps -/

/-- What a step traces: the registers after it, if it does not fail. -/
def traceLine (m : Machine) : String :=
  match m.step with
  | (m', .ok _) => m'.regs.line ++ "\n"
  | (_, .error _) => ""

theorem traceLine_of_ok {m' : Machine} {i : Option Instruction} (h : m.step = (m', .ok i)) :
    m.traceLine = m'.regs.line ++ "\n" := by
  rw [traceLine, h]

theorem traceLine_of_error {m' : Machine} {f : Fault} (h : m.step = (m', .error f)) :
    m.traceLine = "" := by
  rw [traceLine, h]

/-- The text is counted from here on. -/
theorem Traced.restart (h : Traced a b m n) : Traced m.out.text n.out.text m n where
  bare := h.bare
  config := h.config
  silent := h.silent
  accepts := h.accepts
  accepts' := h.accepts'
  text := ⟨"", String.append_empty.symm, String.append_empty.symm⟩

/-- The trace at the end of an attempt is taken by the one side and left out by the other. -/
theorem Traced.finish (h : Traced a b m n) (i : Option Instruction) :
    ∃ out : Sink, Exec.finish i m = (m.apply (.output out), .ok i) ∧ out.Accepts ∧
      out.text = m.out.text ++ (m.regs.line ++ "\n") ∧ Exec.finish i n = (n, .ok i) := by
  obtain ⟨haccepts, hnone⟩ := h.accepts.write (m.regs.line ++ "\n")
  refine ⟨_, ?_, haccepts, h.accepts.text_write _, ?_⟩
  · have htrace : Exec.trace m =
        (m.apply (.output (m.out.write (m.regs.line ++ "\n")).1), .ok ()) := by
      show Exec.print _ m = _
      simp only [Exec.print, hnone]
      rfl
    unfold Exec.finish
    rw [Exec.machine_bind, h.config, if_pos rfl]
    exact Exec.bind_of_ok htrace _
  · unfold Exec.finish
    rw [Exec.machine_bind, h.silent, if_neg Bool.false_ne_true]
    rfl

theorem Traced.step (h : Traced a b m n) :
    m.step.2 = n.step.2 ∧ Traced m.step.1.out.text n.step.1.out.text m.step.1 n.step.1 ∧
      ∃ own, n.step.1.out.text = n.out.text ++ own ∧
        m.step.1.out.text = m.out.text ++ (own ++ m.traceLine) := by
  have hstatus : m.status = n.status := congrArg (·.status) h.bare
  have hnext : m.next = n.next := by
    show m.bare.next = n.bare.next
    rw [h.bare]
  by_cases hr : m.status = .running
  · have hr' : n.status = .running := hstatus ▸ hr
    obtain ⟨r, m₁, n₁, hm, hn, h₁, -⟩ := Exec.agrees_untraced (lockstep_traced _ _)
      (fun h => by rw [h.config]) m.advance n.advance
      (h.restart.map (f := advance) (fun _ => rfl) (fun _ => rfl) fun _ => rfl)
    obtain ⟨own, hown, hown'⟩ := h₁.text
    cases r with
    | error f =>
      have hm' := step_of_error hr ((Exec.attempt_eq _).trans (Exec.bind_of_error hm _))
      have hn' := step_of_error hr' ((Exec.attempt_eq _).trans (Exec.bind_of_error hn _))
      rw [traceLine_of_error hm', hm', hn', hnext]
      refine ⟨rfl, h₁.restart.map (f := (·.faulted n.next)) (fun _ => rfl) (fun _ => rfl)
        fun _ => rfl, own, hown', ?_⟩
      rw [String.append_empty]
      exact hown
    | ok i =>
      obtain ⟨out, hfinish, haccepts, htext, hfinish'⟩ := h₁.finish i
      have hm' := step_of_ok hr ((Exec.attempt_eq _).trans ((Exec.bind_of_ok hm _).trans hfinish))
      have hn' := step_of_ok hr' ((Exec.attempt_eq _).trans
        ((Exec.bind_of_ok hn _).trans hfinish'))
      have h₂ : Traced out.text n₁.out.text (m₁.apply (.output out)) n₁ :=
        { h₁.restart with
          accepts := haccepts
          text := ⟨"", String.append_empty.symm, String.append_empty.symm⟩ }
      rw [traceLine_of_ok hm', hm', hn']
      refine ⟨rfl, h₂.map (f := (·.completed i)) (fun _ => rfl) (fun _ => rfl) fun _ => rfl, own,
        hown', ?_⟩
      rw [← String.append_assoc, ← hown]
      exact htext
  · have hr' : n.status ≠ .running := hstatus ▸ hr
    rw [traceLine_of_error (step_of_not_running hr), step_of_not_running hr,
      step_of_not_running hr', hstatus]
    exact ⟨rfl, h.restart, "", String.append_empty.symm, String.append_empty.symm⟩

/-! ## Runs -/

theorem Traced.after (h : Traced a b m n) (k : Nat) :
    Traced (m.after k).out.text (n.after k).out.text (m.after k) (n.after k) := by
  induction k with
  | zero => exact h.restart
  | succ k ih => exact ih.step.2.1

theorem join_map_range_succ (f : Nat → String) (k : Nat) :
    String.join ((List.range (k + 1)).map f) = String.join ((List.range k).map f) ++ f k := by
  rw [List.range_succ, List.map_append, String.join_append, List.map_cons, List.map_nil,
    String.join_cons, String.join_nil, String.append_empty]

/-- With and without a trace, `k` steps return the same and go through the same states. The text
with a trace is what the steps put out, with a line of the registers behind each that does not
fail. -/
theorem trace_inserted (h : m.out.Accepts) :
    let on := m.setDebug true
    let off := m.setDebug false
    (∀ k, (on.after k).step.2 = (off.after k).step.2 ∧
      (on.after k).toCore = (off.after k).toCore ∧ (on.after k).mem = (off.after k).mem) ∧
    ∃ own : Nat → String, ∀ k,
      (off.after k).out.text = m.out.text ++ String.join ((List.range k).map own) ∧
      (on.after k).out.text = m.out.text ++
        String.join ((List.range k).map fun j => own j ++ (on.after j).traceLine) := by
  intro on off
  have htraced : Traced m.out.text m.out.text on off :=
    ⟨rfl, rfl, rfl, h, h, "", String.append_empty.symm, String.append_empty.symm⟩
  refine ⟨fun k => ?_, ?_⟩
  · have hk := htraced.after k
    exact ⟨hk.step.1, congrArg (·.toCore) hk.bare, congrArg (·.mem) hk.bare⟩
  · choose own hoff hon using fun k => (htraced.after k).step.2.2
    refine ⟨own, fun k => ?_⟩
    induction k with
    | zero => exact ⟨String.append_empty.symm, String.append_empty.symm⟩
    | succ k ih =>
      rw [join_map_range_succ, join_map_range_succ, ← String.append_assoc, ← String.append_assoc,
        ← ih.1, ← ih.2]
      exact ⟨hoff k, hon k⟩

/-- `PRNT` and `HLT`, and a step of the machine that has halted. -/
theorem trace_inserted_halt :
    let m := new ⟨#[30, 31]⟩
    let line := m.regs.line ++ "\n"
    ((m.setDebug false).after 3).out.text = "false\n" ∧
      ((m.setDebug true).after 3).out.text = "false\n" ++ line ++ line := by
  intro m line
  have hout : m.out.Accepts := ⟨fun _ h => absurd h List.not_mem_nil, rfl⟩
  have hoff : ((m.setDebug false).after 1).out.text = "false\n" ∧
      ((m.setDebug false).after 2).out.text = "false\n" ∧
      ((m.setDebug false).after 3).out.text = "false\n" := by decide +kernel
  have hlines : ((m.setDebug true).after 0).traceLine = line ∧
      ((m.setDebug true).after 1).traceLine = line ∧
      ((m.setDebug true).after 2).traceLine = "" := by decide +kernel
  obtain ⟨-, own, htext⟩ := trace_inserted hout
  have hnone : m.out.text = "" := rfl
  -- What the three steps put out is read off the texts without a trace.
  have hone : own 0 = "false\n" := by
    have htext := (htext 1).1
    rw [hoff.1, hnone] at htext
    simpa using htext.symm
  have htwo : own 1 = "" := by
    have hstep := (htext 2).1
    rw [join_map_range_succ, ← String.append_assoc, ← (htext 1).1, hoff.1, hoff.2.1] at hstep
    exact String.append_eq_left_iff.mp hstep.symm
  have hthree : own 2 = "" := by
    have hstep := (htext 3).1
    rw [join_map_range_succ, ← String.append_assoc, ← (htext 2).1, hoff.2.1, hoff.2.2] at hstep
    exact String.append_eq_left_iff.mp hstep.symm
  refine ⟨hoff.2.2, ?_⟩
  rw [(htext 3).2, join_map_range_succ, join_map_range_succ, join_map_range_succ, hlines.1,
    hlines.2.1, hlines.2.2, hone, htwo, hthree, hnone]
  simp [String.append_assoc]

end Machine

end CellMachine
