import CellMachine.FileName
import CellMachine.Files
import CellMachine.Proofs.Result
import CellMachine.Proofs.Text.Words
import Mathlib.Data.List.Infix

/-!
# CellMachine.Proofs.Files

Where paths lead to, and what is in the files there.

* `Files.Leads`               — the steps from a directory to a place, and `Files.Reaches`, a path.
* `Files.place_eq_ok_iff`     — the place of a path, the same for reading and for writing.
* `Files.place_pathTo`        — each file of each directory has a path that leads to it.
* `Files.read_write`          — what is written to a path is read from it.
* `Files.isSource_place`      — a place is that of a source if the paths to it are those of one.
* `Files.agree_read_of_write` — what is written to one place is not seen at another.
-/

namespace CellMachine

namespace Files

variable {files after : Files} {making : Bool} {path other name text : String}
  {dir place : Place} {names rest : List String}

/-! ## Steps to a place -/

/-- A step that is looked up in a directory. -/
structure IsName (step : String) : Prop where
  ne_empty : step ≠ ""
  ne_dot : step ≠ "."
  ne_dots : step ≠ ".."
  size_le : step.utf8ByteSize ≤ maxNameBytes

/-- Steps that lead from a directory to the place of a file, whether one is there or not. -/
inductive Leads (files : Files) : Place → List String → Place → Prop where
  | last {dir : Place} {name : String} (hname : IsName name)
      (hnew : ¬files.isDirectory (dir ++ [name])) : Leads files dir [name] (dir ++ [name])
  | stay {dir place : Place} {step : String} {rest : List String} (hstep : step = "" ∨ step = ".")
      (h : Leads files dir rest place) : Leads files dir (step :: rest) place
  | up {dir place : Place} {rest : List String} (h : Leads files dir.dropLast rest place) :
      Leads files dir (".." :: rest) place
  | down {dir place : Place} {name : String} {rest : List String} (hname : IsName name)
      (hdir : files.isDirectory (dir ++ [name])) (h : Leads files (dir ++ [name]) rest place) :
      Leads files dir (name :: rest) place

/-- Steps that lead to a file are not all of them slashes. -/
theorem Leads.not_all_isEmpty (h : files.Leads dir rest place) : ¬rest.all String.isEmpty := by
  induction h with
  | last hname _ => simpa using hname.ne_empty
  | stay _ _ ih => exact fun hall => ih (Bool.and_eq_true_iff.mp hall).2
  | up _ ih => exact fun hall => ih (Bool.and_eq_true_iff.mp hall).2
  | down _ _ _ ih => exact fun hall => ih (Bool.and_eq_true_iff.mp hall).2

/-- The last name of a place is the last step on the way to it. -/
theorem Leads.getLast?_eq {steps : List String} (h : files.Leads dir steps place) :
    place.getLast? = steps.getLast? := by
  have hcons {step : String} {rest : List String} (hrest : ¬rest.all String.isEmpty) :
      (step :: rest).getLast? = rest.getLast? := by
    cases rest with
    | nil => exact absurd rfl hrest
    | cons next rest => exact List.getLast?_cons_cons
  induction h with
  | last _ _ => exact List.getLast?_concat
  | stay _ h ih => rw [hcons h.not_all_isEmpty, ih]
  | up h ih => rw [hcons h.not_all_isEmpty, ih]
  | down _ _ h ih => rw [hcons h.not_all_isEmpty, ih]

theorem leads_of_walk {steps : List String}
    (h : files.walk making dir steps = .ok (some place)) : files.Leads dir steps place := by
  induction steps generalizing dir with
  | nil => cases h
  | cons step rest ih =>
    unfold walk at h
    split at h
    · rename_i hstep
      exact .stay hstep (ih h)
    rename_i hstep
    split at h
    · subst step
      exact .up (ih h)
    rename_i hdots
    split at h
    · cases h
    split at h
    · cases h
    rename_i hsize
    have hname : IsName step :=
      ⟨fun h => hstep (.inl h), fun h => hstep (.inr h), hdots, Nat.not_lt.mp hsize⟩
    split at h
    · rename_i hdir
      exact .down hname hdir (ih h)
    rename_i hnew
    split at h
    · subst rest
      cases h
      exact .last hname hnew
    · split at h <;> cases h

theorem Leads.walk_eq {steps : List String} (h : files.Leads dir steps place) :
    files.walk making dir steps = .ok (some place) := by
  induction h with
  | last hname hnew =>
    rw [walk, if_neg (not_or.mpr ⟨hname.ne_empty, hname.ne_dot⟩), if_neg hname.ne_dots,
      if_neg (fun h => h.2.1 rfl), if_neg (Nat.not_lt.mpr hname.size_le), if_neg hnew, if_pos rfl]
  | stay hstep _ ih => rwa [walk, if_pos hstep]
  | up _ ih => rwa [walk, if_neg (by decide), if_pos rfl]
  | down hname hdir h ih =>
    rwa [walk, if_neg (not_or.mpr ⟨hname.ne_empty, hname.ne_dot⟩), if_neg hname.ne_dots,
      if_neg (fun hall => h.not_all_isEmpty hall.2.2), if_neg (Nat.not_lt.mpr hname.size_le),
      if_pos hdir]

/-- A path that leads to the place of a file. -/
structure Reaches (files : Files) (path : String) (place : Place) : Prop where
  no_zero : '\x00' ∉ path.toList
  ne_empty : path ≠ ""
  size_le : path.utf8ByteSize ≤ maxPathBytes
  leads : files.Leads (files.start path) (steps path) place

/-- A path leads to the same place whether the file there is read or written. -/
theorem place_eq_ok_iff : files.place making path = .ok place ↔ files.Reaches path place := by
  constructor
  · intro h
    unfold Files.place at h
    split at h
    · cases h
    rename_i hzero
    split at h
    · cases h
    rename_i hempty
    split at h
    · cases h
    rename_i hsize
    rw [List.contains_iff_mem] at hzero
    rw [String.isEmpty_iff] at hempty
    split at h
    · rename_i hwalk
      cases h
      exact ⟨hzero, hempty, Nat.not_lt.mp hsize, leads_of_walk hwalk⟩
    · cases h
    · cases h
  · intro h
    rw [Files.place, if_neg (mt List.contains_iff_mem.mp h.no_zero),
      if_neg (mt String.isEmpty_iff.mp h.ne_empty), if_neg (Nat.not_lt.mpr h.size_le),
      h.leads.walk_eq]

/-! ## Paths through directories -/

theorem isDirectory_above (h : files.isDirectory dir) (hplace : place <+: dir) :
    files.isDirectory place := by
  obtain ⟨known, hmem, hdir⟩ := List.any_eq_true.mp h
  rw [List.isPrefixOf_iff_prefix] at hdir
  exact List.any_eq_true.mpr ⟨known, hmem, List.isPrefixOf_iff_prefix.mpr (hplace.trans hdir)⟩

theorem leads_of_isDirectory (hnames : ∀ step ∈ names, IsName step) (hname : IsName name)
    (hdir : files.isDirectory (dir ++ names)) (hnew : ¬files.isDirectory (dir ++ names ++ [name])) :
    files.Leads dir (names ++ [name]) (dir ++ names ++ [name]) := by
  induction names generalizing dir with
  | nil =>
    rw [List.append_nil] at hnew ⊢
    exact .last hname hnew
  | cons first names ih =>
    obtain ⟨hfirst, hnames⟩ := List.forall_mem_cons.mp hnames
    rw [List.append_cons dir first names] at hdir hnew ⊢
    exact .down hfirst (isDirectory_above hdir (List.prefix_append _ _)) (ih hnames hdir hnew)

/-- The path from the root to a place. -/
def pathTo (place : Place) : String := "/".intercalate ("" :: place)

theorem toList_pathTo (place : Place) :
    (pathTo place).toList = ['/'].intercalate ([] :: place.map String.toList) :=
  String.toList_intercalate

/-- A name that can stand in a path. -/
structure IsPathName (name : String) : Prop extends IsName name where
  no_slash : '/' ∉ name.toList
  no_zero : '\x00' ∉ name.toList

theorem steps_pathTo (hplace : ∀ name ∈ place, IsPathName name) :
    steps (pathTo place) = "" :: place := by
  have hslash : ∀ cs ∈ [] :: place.map String.toList, '/' ∉ cs := by
    intro cs hcs
    rcases List.mem_cons.mp hcs with rfl | hcs
    · exact List.not_mem_nil
    · obtain ⟨name, hname, rfl⟩ := List.mem_map.mp hcs
      exact (hplace name hname).no_slash
  rw [steps, toList_pathTo, List.splitOn_intercalate '/' hslash (List.cons_ne_nil _ _)]
  simp [Function.comp_def]

theorem zero_not_mem_pathTo (hplace : ∀ name ∈ place, IsPathName name) :
    '\x00' ∉ (pathTo place).toList := by
  rw [toList_pathTo]
  intro hmem
  rcases Text.mem_intercalate hmem with hmem | ⟨cs, hcs, hmem⟩
  · exact absurd hmem (by decide)
  rcases List.mem_cons.mp hcs with rfl | hcs
  · cases hmem
  · obtain ⟨name, hname, rfl⟩ := List.mem_map.mp hcs
    exact (hplace name hname).no_zero hmem

/-- Each file of a directory can be read and written by its path from the root, if the path is not
too long. -/
theorem place_pathTo (hdir : files.isDirectory dir) (hnew : ¬files.isDirectory (dir ++ [name]))
    (hnames : ∀ step ∈ dir ++ [name], IsPathName step)
    (hsize : (pathTo (dir ++ [name])).utf8ByteSize ≤ maxPathBytes) :
    files.place making (pathTo (dir ++ [name])) = .ok (dir ++ [name]) := by
  have hhead : (pathTo (dir ++ [name])).toList.head? = some '/' := by
    rw [toList_pathTo]
    cases dir <;> rfl
  have hleads : files.Leads [] (dir ++ [name]) (dir ++ [name]) :=
    leads_of_isDirectory (fun step hstep => (hnames step (List.mem_append_left _ hstep)).toIsName)
      (hnames name (List.mem_append_right _ (List.mem_singleton_self name))).toIsName hdir hnew
  refine place_eq_ok_iff.mpr ⟨zero_not_mem_pathTo hnames, ?_, hsize, ?_⟩
  · intro hempty
    rw [hempty] at hhead
    cases hhead
  · rw [start, if_pos hhead, steps_pathTo hnames]
    exact .stay (.inl rfl) hleads

/-! ## Files that are written -/

/-- The same directories, with the same one to start at. -/
structure SameDirectories (files after : Files) : Prop where
  directories : after.directories = files.directories
  working : after.working = files.working

theorem sameDirectories_put (files : Files) (place : Place) (text : String) :
    SameDirectories files (files.put place text) := ⟨rfl, rfl⟩

namespace SameDirectories

theorem symm (h : SameDirectories files after) : SameDirectories after files :=
  ⟨h.directories.symm, h.working.symm⟩

theorem isDirectory_eq (h : SameDirectories files after) (place : Place) :
    after.isDirectory place = files.isDirectory place := by
  rw [isDirectory, isDirectory, h.directories, h.working]

theorem leads {steps : List String} (h : SameDirectories files after)
    (hleads : files.Leads dir steps place) : after.Leads dir steps place := by
  induction hleads with
  | last hname hnew => exact .last hname (h.isDirectory_eq _ ▸ hnew)
  | stay hstep _ ih => exact .stay hstep ih
  | up _ ih => exact .up ih
  | down hname hdir _ ih => exact .down hname ((h.isDirectory_eq _).trans hdir) ih

/-- What is in the files has no part in where a path leads to. -/
theorem reaches (h : SameDirectories files after) (hreaches : files.Reaches path place) :
    after.Reaches path place where
  no_zero := hreaches.no_zero
  ne_empty := hreaches.ne_empty
  size_le := hreaches.size_le
  leads := by
    rw [start, h.working]
    exact h.leads hreaches.leads

end SameDirectories

theorem place_reading (hsame : SameDirectories files after)
    (h : files.place making path = .ok place) : after.place false path = .ok place :=
  place_eq_ok_iff.mpr (hsame.reaches (place_eq_ok_iff.mp h))

theorem write_eq_ok_iff : files.write path text = .ok after ↔
    ∃ place, files.place true path = .ok place ∧ files.put place text = after := map_eq_ok_iff

/-- What is written to a path is read from it. -/
theorem read_write (h : files.write path text = .ok after) : after.read path = .ok text := by
  obtain ⟨place, hplace, rfl⟩ := write_eq_ok_iff.mp h
  rw [read, place_reading (sameDirectories_put files place text) hplace]
  simp [put, text?]

/-! ## Names and places -/

/-- An ending without slashes does not reach over a slash. -/
theorem suffix_append_slash_iff {ending front back : List Char} (hending : '/' ∉ ending) :
    ending <:+ front ++ '/' :: back ↔ ending <:+ back := by
  have hback : back <:+ front ++ '/' :: back :=
    (List.suffix_cons '/' back).trans (List.suffix_append front _)
  refine ⟨fun h => ?_, fun h => h.trans hback⟩
  rcases List.suffix_or_suffix_of_suffix h hback with hs | ⟨extra, rfl⟩
  · exact hs
  rw [List.append_cons, List.suffix_append_self_iff, List.suffix_concat_iff] at h
  rcases h with rfl | ⟨more, rfl, -⟩
  · exact List.suffix_rfl
  · exact absurd (List.mem_append_left _ (List.mem_append_right _ (List.mem_singleton_self '/')))
      hending

/-- A path ends like its last step. -/
theorem suffix_intercalate_iff {ending step : List Char} {steps : List (List Char)}
    (hending : '/' ∉ ending) (h : step ∈ steps.getLast?) :
    ending <:+ ['/'].intercalate steps ↔ ending <:+ step := by
  induction steps with
  | nil => cases h
  | cons first rest ih =>
    cases rest with
    | nil =>
      obtain rfl : first = step := Option.mem_some_iff.mp h
      rw [List.intercalate_singleton]
    | cons second rest =>
      rw [List.getLast?_cons_cons] at h
      rw [List.intercalate_cons_cons, List.append_assoc, List.singleton_append,
        suffix_append_slash_iff hending]
      exact ih h

theorem isSource_of_mem_getLast? {step : String} (h : step ∈ (steps path).getLast?) :
    FileName.isSource step = FileName.isSource path := by
  have hslash : '/' ∉ ".asm".toList := by decide
  rw [steps, List.getLast?_map] at h
  obtain ⟨last, hlast, rfl⟩ := Option.map_eq_some_iff.mp h
  have hchars : (String.ofList last).toList = last := String.toList_ofList
  have hsuffix := suffix_intercalate_iff hslash hlast
  rw [List.intercalate_splitOn] at hsuffix
  rw [Bool.eq_iff_iff, FileName.isSource, FileName.isSource, List.isSuffixOf_iff_suffix,
    List.isSuffixOf_iff_suffix, hchars, hsuffix]

theorem isSource_place (h : files.place making path = .ok place) :
    place.getLast?.any FileName.isSource = FileName.isSource path := by
  have hleads : files.Leads (files.start path) (steps path) place := (place_eq_ok_iff.mp h).leads
  rw [hleads.getLast?_eq]
  cases hlast : (steps path).getLast? with
  | none =>
    rw [List.getLast?_eq_none_iff.mp hlast] at hleads
    cases hleads
  | some step => exact isSource_of_mem_getLast? hlast

/-! ## Files that are not written to -/

/-- Two paths that lead to one place. -/
def SameFile (files : Files) (path other : String) : Prop :=
  ∃ place, files.place false path = .ok place ∧ files.place false other = .ok place

theorem not_sameFile_of_isSource (hpath : FileName.isSource path)
    (hother : ¬FileName.isSource other) : ¬files.SameFile path other := by
  rintro ⟨place, hp, ho⟩
  rw [← isSource_place ho, isSource_place hp] at hother
  exact hother hpath

/-- The same text, or none for reasons that may differ. -/
inductive Agree : Except FileError String → Except FileError String → Prop where
  | text (text : String) : Agree (.ok text) (.ok text)
  | missing (e e' : FileError) : Agree (.error e) (.error e')

theorem Agree.refl (contents : Except FileError String) : Agree contents contents := by
  cases contents with
  | error e => exact .missing e e
  | ok text => exact .text text

theorem Agree.symm {contents contents' : Except FileError String} (h : Agree contents contents') :
    Agree contents' contents := by
  cases h with
  | text text => exact .text text
  | missing e e' => exact .missing e' e

theorem Agree.eq_ok {contents : Except FileError String} (h : Agree (.ok text) contents) :
    contents = .ok text := by
  cases h
  rfl

theorem text?_put_of_ne {place' : Place} (h : place' ≠ place) :
    (files.put place text).text? place' = files.text? place' := by
  rw [text?, text?, put, List.lookup_cons, beq_false_of_ne h]
  induction files.entries with
  | nil => rfl
  | cons entry entries ih =>
    obtain ⟨key, contents⟩ := entry
    by_cases hkey : key = place
    · rw [List.filter_cons_of_neg (by simpa using hkey), List.lookup_cons, hkey,
        beq_false_of_ne h]
      exact ih
    · rw [List.filter_cons_of_pos (by simpa using hkey), List.lookup_cons, List.lookup_cons]
      cases place' == key with
      | true => rfl
      | false => exact ih

theorem agree_read_of_write (h : files.write name text = .ok after)
    (hother : ¬files.SameFile other name) : Agree (files.read other) (after.read other) := by
  obtain ⟨place, hname, rfl⟩ := write_eq_ok_iff.mp h
  have hsame : SameDirectories files (files.put place text) := sameDirectories_put _ _ _
  cases hp : files.place false other with
  | error e =>
    cases hp' : (files.put place text).place false other with
    | error e' =>
      rw [read, read, hp, hp']
      exact .missing e e'
    | ok place' =>
      rw [place_reading hsame.symm hp'] at hp
      cases hp
  | ok place' =>
    have hne : place' ≠ place := by
      rintro rfl
      exact hother ⟨place', hp, place_reading ⟨rfl, rfl⟩ hname⟩
    have htext : (files.put place text).text? place' = files.text? place' := text?_put_of_ne hne
    simp only [read, hp, place_reading hsame hp, htext]
    exact .refl _

end Files

end CellMachine
