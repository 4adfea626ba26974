import CellMachine.Cli.Basic
import CellMachine.Proofs.Files
import CellMachine.Proofs.Image

/-!
# CellMachine.Proofs.Cli

Commands over files.

* `Cli.Alike`                  — actions with the same output, whatever they report.
* `Cli.Holds`                  — the program that is in a file, as a source or as an image.
* `Cli.alike_runProgram`       — files that hold one program run alike.
* `Cli.assembleFile_done_iff`  — when assembling succeeds, and what is left then.
* `Cli.assembled_runs_alike`   — assembling ahead of time changes nothing.
-/

namespace CellMachine.Cli

/-! ## Actions with the same output -/

/-- What is seen of a command that was run: its output and its exit code. -/
def Outcome.seen (o : Outcome) : String × Nat := (o.stdout, o.exit)

/-- Two actions, each over its own files, that print the same and exit alike. They may read other
files on the way and report other things. -/
inductive Alike (files files' : Files) : Action → Action → Prop where
  | exit (code : Nat) : Alike files files' (.exit code) (.exit code)
  | print (text : String) {a a' : Action} :
      Alike files files' a a' → Alike files files' (.print text a) (.print text a')
  | reportLeft (text : String) {a a' : Action} :
      Alike files files' a a' → Alike files files' (.report text a) a'
  | reportRight (text : String) {a a' : Action} :
      Alike files files' a a' → Alike files files' a (.report text a')
  | readLeft {name : String} {next : Except FileError String → Action} {a' : Action} :
      Alike files files' (next (files.read name)) a' → Alike files files' (.read name next) a'
  | readRight {name : String} {a : Action} {next : Except FileError String → Action} :
      Alike files files' a (next (files'.read name)) → Alike files files' a (.read name next)

theorem Action.runFrom_read (name : String) (next : Except FileError String → Action)
    (o : Outcome) :
    (Action.read name next).runFrom o = (next (o.files.read name)).runFrom o := rfl

namespace Alike

variable {files files' : Files} {a a' : Action}

theorem symm (h : Alike files files' a a') : Alike files' files a' a := by
  induction h with
  | exit code => exact .exit code
  | print text _ ih => exact .print text ih
  | reportLeft text _ ih => exact .reportRight text ih
  | reportRight text _ ih => exact .reportLeft text ih
  | readLeft _ ih => exact .readRight ih
  | readRight _ ih => exact .readLeft ih

theorem report (text text' : String) (h : Alike files files' a a') :
    Alike files files' (.report text a) (.report text' a') :=
  .reportLeft text (.reportRight text' h)

theorem fail (text text' : String) : Alike files files' (.fail text) (.fail text') :=
  report _ _ (.exit 1)

/-- Alike actions that go on after the same output give the same output and the same exit code. -/
theorem runFrom (h : Alike files files' a a') {o o' : Outcome} (hfiles : o.files = files)
    (hfiles' : o'.files = files') (hstdout : o.stdout = o'.stdout) :
    (a.runFrom o).seen = (a'.runFrom o').seen := by
  induction h generalizing o o' with
  | exit code => exact congrArg (·, code) hstdout
  | print text _ ih => exact ih hfiles hfiles' (congrArg (· ++ text) hstdout)
  | reportLeft text _ ih => exact ih hfiles hfiles' hstdout
  | reportRight text _ ih => exact ih hfiles hfiles' hstdout
  | readLeft _ ih =>
    rw [Action.runFrom_read, hfiles]
    exact ih hfiles hfiles' hstdout
  | readRight _ ih =>
    rw [Action.runFrom_read, hfiles']
    exact ih hfiles hfiles' hstdout

theorem run (h : Alike files files' a a') : (a.run files).seen = (a'.run files').seen :=
  h.runFrom rfl rfl rfl

end Alike

variable {files files' after : Files} {image : Image} {name name' source : String}

/-! ## Programs in files -/

/-- The program in a file, by the kind of its name. -/
inductive Holds (files : Files) (image : Image) (name : String) : Prop where
  | source {text : String} : FileName.isSource name → files.read name = .ok text →
      assemble text = .ok image → Holds files image name
  | image : ¬FileName.isSource name → Image.load files name = .ok image → Holds files image name

/-- Settings that are read alike, or not at all. -/
theorem alike_withConfig {file : Option String} {next next' : Config → Action}
    (hfile : ∀ name, file = some name → Files.Agree (files.read name) (files'.read name))
    (hnext : ∀ config, Alike files files' (next config) (next' config)) :
    Alike files files' (withConfig file next) (withConfig file next') := by
  cases file with
  | none => exact hnext {}
  | some name =>
    refine .readLeft (.readRight ?_)
    have hcontents := hfile name rfl
    generalize files.read name = contents at hcontents ⊢
    generalize files'.read name = contents' at hcontents ⊢
    cases hcontents with
    | missing e e' => exact .fail _ _
    | text text =>
      cases hparse : Config.parse? text with
      | none =>
        simp only [hparse]
        exact .fail _ _
      | some config =>
        simp only [hparse]
        exact hnext config

/-- What is done with a program is done with the one that its file holds. -/
theorem alike_withProgram {next : Image → Action} {a' : Action} (h : Holds files image name)
    (hnext : Alike files files'
      (if image.isEmpty then .fail "No instructions to execute" else next image) a') :
    Alike files files' (withProgram name next) a' := by
  unfold withProgram
  cases h with
  | source hname hread hassemble =>
    rw [if_pos hname]
    refine .readLeft ?_
    simp only [hread, hassemble]
    exact .reportLeft _ hnext
  | image hname hload =>
    rw [if_neg hname]
    refine .readLeft ?_
    unfold Image.load at hload
    cases hread : files.read name with
    | error e =>
      rw [hread] at hload
      cases hload
    | ok text =>
      rw [hread] at hload
      have hdecode : Image.decode name text = .ok image := hload
      simp only [hdecode]
      exact .reportLeft _ hnext

theorem alike_runEnd (maxCycles : Nat) (m : Machine) (result : Except Fault UInt64) :
    Alike files files' (runEnd maxCycles m result) (runEnd maxCycles m result) := by
  cases result with
  | error e => exact .fail _ _
  | ok cycles =>
    show Alike files files' (if m.isRunning then _ else _) (if m.isRunning then _ else _)
    split
    · exact .report _ _ (.exit 0)
    · exact .exit 0

/-- How a program is run does not depend on its name. -/
theorem alike_runImage (o : RunOptions) (name name' : String) (config : Config) (image : Image) :
    Alike files files' (runImage { o with program := name } config image)
      (runImage { o with program := name' } config image) := by
  simp only [runImage]
  exact .print _ (.report _ _ (alike_runEnd _ _ _))

/-- Files that hold one program run alike, with settings that are read alike. -/
theorem alike_runProgram {o : RunOptions} (h : Holds files image name)
    (h' : Holds files' image name')
    (hconfig : ∀ c, o.config = some c → Files.Agree (files.read c) (files'.read c)) :
    Alike files files' (runProgram { o with program := name })
      (runProgram { o with program := name' }) := by
  simp only [runProgram]
  refine alike_withConfig hconfig fun config => .report _ _ ?_
  refine alike_withProgram h (alike_withProgram h' ?_).symm
  split
  · exact .fail _ _
  · exact alike_runImage o name' name _ image

/-! ## Assembling ahead of time -/

theorem not_isSource_defaultOutput (source : String) :
    ¬FileName.isSource (defaultOutput source) := by
  intro h
  rw [FileName.isSource, List.isSuffixOf_iff_suffix] at h
  simp only [defaultOutput, String.toList_append, String.toList_ofList] at h
  have hsuffix : ".asm".toList <:+ ".img".toList :=
    List.suffix_of_suffix_length_le h (List.suffix_append _ _) (by decide)
  exact absurd hsuffix (by decide)

/-- Assembling succeeds if the source can be read and assembled and its image can be written, and
then the image is all that is new. -/
theorem assembleFile_done_iff {output : Option String} :
    (((assembleFile source output).run files).exit = 0 ∧
        ((assembleFile source output).run files).files = after) ↔
      ∃ text image, files.read source = .ok text ∧ assemble text = .ok image ∧
        files.write (output.getD (defaultOutput source))
          (Image.encode (output.getD (defaultOutput source)) image) = .ok after := by
  simp only [assembleFile, withSource, Action.run, Action.runFrom]
  constructor
  · rintro ⟨hexit, hafter⟩
    cases hread : files.read source with
    | error e => simp [hread, Action.fail, Action.runFrom] at hexit
    | ok text =>
      cases hassemble : assemble text with
      | error e => simp [hread, hassemble, Action.fail, Action.runFrom] at hexit
      | ok image =>
        refine ⟨text, image, rfl, hassemble, ?_⟩
        simp only [hread, hassemble, Action.runFrom] at hexit hafter
        split at hafter
        · rename_i hwrite
          rw [hwrite]
          exact congrArg _ hafter
        · rename_i hwrite
          simp [hwrite, Action.fail, Action.runFrom] at hexit
  · rintro ⟨text, image, hread, hassemble, hwrite⟩
    simp only [hread, hassemble, hwrite, Action.runFrom, and_self]

/-- Whatever is run from the file that a source was assembled to, by any name but that of a source,
gives the same output and the same exit code as from the source itself: now, and also before it was
assembled if the settings were not overwritten. Both hold the same cells. -/
theorem assembled_runs_alike {output : Option String} (hsource : FileName.isSource source)
    (houtput : ∀ name, output = some name → ¬FileName.isSource name)
    (hdone : ((Command.assemble source output).action.run files).exit = 0) :
    let after := ((Command.assemble source output).action.run files).files
    let name := output.getD (defaultOutput source)
    (∃ text image, files.read source = .ok text ∧ after.read source = .ok text ∧
        assemble text = .ok image ∧ Image.load after name = .ok image) ∧
      ∀ options : RunOptions,
        let assembled := (Command.run { options with program := name }).action.run after
        let direct := (Command.run { options with program := source }).action.run
        assembled.seen = (direct after).seen ∧
          ((∀ config, options.config = some config → ¬files.SameFile config name) →
            assembled.seen = (direct files).seen) := by
  intro after name
  obtain ⟨text, image, hread, hassemble, hwrite⟩ := assembleFile_done_iff.mp ⟨hdone, rfl⟩
  have hwrite : files.write name (Image.encode name image) = .ok after := hwrite
  have hname : ¬FileName.isSource name := by
    cases output with
    | none => exact not_isSource_defaultOutput source
    | some name => exact houtput name rfl
  have hkept : after.read source = .ok text := by
    have hagree := Files.agree_read_of_write hwrite (Files.not_sameFile_of_isSource hsource hname)
    rw [hread] at hagree
    exact hagree.eq_ok
  have hload : Image.load after name = .ok image := by
    rw [Image.load, Files.read_write hwrite]
    exact Image.decode_encode name image
  have hassembled : Holds after image name := .image hname hload
  refine ⟨⟨text, image, hread, hkept, hassemble, hload⟩, fun options => ?_⟩
  refine ⟨(alike_runProgram hassembled (.source hsource hkept hassemble) ?_).run, fun hconfig =>
    (alike_runProgram hassembled (.source hsource hread hassemble) ?_).run⟩
  · intro config hconfig
    exact .refl _
  · intro config hsome
    exact (Files.agree_read_of_write hwrite (hconfig config hsome)).symm

theorem assembled_runs_alike_json :
    let files : Files := {
      entries := [(["home", "demos", "countdown.asm"],
        "LII R1A, 3\nLOOP: PRNT\nDEC R1A\nCMPI R1A, 0\nJGZ LOOP\nHLT")]
      directories := [["home", "demos"], ["tmp"]]
      working := ["home"] }
    let done :=
      (Command.assemble "demos/countdown.asm" (some "/tmp/countdown.json")).action.run files
    let assembled :=
      (Command.run { program := "/tmp/countdown.json", dumpState := true }).action.run done.files
    let direct :=
      (Command.run { program := "demos/countdown.asm", dumpState := true }).action.run files
    (FileName.isSource "demos/countdown.asm" ∧ ¬FileName.isSource "/tmp/countdown.json" ∧
        done.exit = 0) ∧
      assembled.seen = direct.seen := by
  intro files done assembled direct
  have hsource : FileName.isSource "demos/countdown.asm" := by decide
  have hname : ¬FileName.isSource "/tmp/countdown.json" := by decide
  have hdone : done.exit = 0 := by decide +kernel
  have houtput : ∀ name, some "/tmp/countdown.json" = some name → ¬FileName.isSource name :=
    fun _ h => Option.some.inj h ▸ hname
  have hruns := (assembled_runs_alike hsource houtput hdone).2 { program := "", dumpState := true }
  exact ⟨⟨hsource, hname, hdone⟩, hruns.2 nofun⟩

end CellMachine.Cli
