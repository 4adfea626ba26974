import CellMachine.Image
import CellMachine.Proofs.Files
import CellMachine.Proofs.Json.Record
import CellMachine.Proofs.Text.Ascii
import CellMachine.Proofs.Text.Words

/-!
# CellMachine.Proofs.Image

An image is read back from either form of its file.

* `Image.toList_toText`     — the text form as lines.
* `Image.parseText_toText`  — of these lines only those of the cells count.
* `Image.parseJson_toJson`  — the JSON form.
* `Image.load_save`         — both, and a file by any name that can be written to.
-/

namespace CellMachine

namespace Text

/-- A character that neither ends a line nor is dropped at the end of one. -/
def staysInLine (c : Char) : Bool := c != '\n' && c != '\r'

theorem staysInLine_of_isDigit {c : Char} (h : c.isDigit = true) : staysInLine c = true := by
  rw [staysInLine, Bool.and_eq_true, bne_iff_ne, bne_iff_ne]
  constructor
  · rintro rfl
    cases h
  · rintro rfl
    cases h

/-- A number of an address or of a count has digits only, however far it is filled up. -/
theorem mem_zeroPad_nat {width n : Nat} {c : Char} (h : c ∈ (zeroPad width n).toList) :
    c.isDigit = true := by
  have hsign : ¬(n : Int) < 0 := Int.not_lt.mpr (Int.natCast_nonneg n)
  simp only [zeroPad, if_neg hsign, String.toList_append, String.toList_ofList,
    List.mem_append] at h
  rcases h with (h | h) | h
  · cases h
  · rw [List.eq_of_mem_replicate h]
    rfl
  · exact mem_toString_nat h

end Text

namespace Image

/-! ## The text form -/

/-- The line of a cell, without its line feed. -/
def cellText (addr : Nat) (w : Word) : List Char :=
  (toString w).toList ++ (" ; ".toList ++ (Text.zeroPad 4 addr).toList)

def sizeText (image : Image) : List Char :=
  "; ".toList ++ ((toString image.size).toList ++ " cells".toList)

def textLines (image : Image) : List (List Char) :=
  "; register VM image".toList :: image.sizeText :: [] :: image.toList.mapIdx cellText

theorem toList_cellLine (addr : Nat) (w : Word) :
    (cellLine addr w).toList = cellText addr w ++ ['\n'] := by
  show (toString w ++ " ; " ++ Text.zeroPad 4 addr ++ "\n").toList = _
  simp only [String.toList_append, cellText, List.append_assoc]
  congr 1

theorem toList_toText (image : Image) :
    image.toText.toList = image.textLines.flatMap (· ++ ['\n']) := by
  have hcells : (String.join (image.toList.mapIdx cellLine)).toList =
      (image.toList.mapIdx cellText).flatMap (· ++ ['\n']) := by
    rw [String.toList_join, List.mapIdx_eq_zipIdx_map, List.mapIdx_eq_zipIdx_map,
      List.flatMap_map, List.flatMap_map]
    exact congrArg (List.flatMap · _) (funext fun p => toList_cellLine p.2 p.1)
  have hfirst : "; register VM image\n; ".toList =
      "; register VM image".toList ++ ('\n' :: "; ".toList) := rfl
  have hlast : " cells\n\n".toList = " cells".toList ++ ['\n', '\n'] := rfl
  show ("; register VM image\n; " ++ toString image.size ++ " cells\n\n" ++ _).toList = _
  simp only [String.toList_append, hcells, hfirst, hlast, textLines, sizeText, List.flatMap_cons,
    List.append_assoc, List.cons_append, List.nil_append]

theorem staysInLine_of_mem_cellText {addr : Nat} {w : Word} :
    ∀ c ∈ cellText addr w, Text.staysInLine c = true := by
  refine List.forall_mem_append.mpr ⟨fun c hc => ?_, List.forall_mem_append.mpr
    ⟨List.all_eq_true.mp rfl, fun c hc => Text.staysInLine_of_isDigit (Text.mem_zeroPad_nat hc)⟩⟩
  rcases Text.mem_toString hc with rfl | hdigit
  · rfl
  · exact Text.staysInLine_of_isDigit hdigit

theorem staysInLine_of_mem_sizeText {image : Image} :
    ∀ c ∈ image.sizeText, Text.staysInLine c = true :=
  List.forall_mem_append.mpr ⟨List.all_eq_true.mp rfl, List.forall_mem_append.mpr
    ⟨fun _ hc => Text.staysInLine_of_isDigit (Text.mem_toString_nat hc), List.all_eq_true.mp rfl⟩⟩

theorem staysInLine_of_mem_textLines {image : Image} :
    ∀ line ∈ image.textLines, ∀ c ∈ line, Text.staysInLine c = true := by
  simp only [textLines, List.forall_mem_cons]
  refine ⟨List.all_eq_true.mp rfl, staysInLine_of_mem_sizeText, nofun, fun line hline => ?_⟩
  obtain ⟨addr, -, rfl⟩ := List.mem_mapIdx.mp hline
  exact staysInLine_of_mem_cellText

/-- No line is cut or shortened when the text is taken apart into lines again. -/
theorem lines_toText (image : Image) : Text.lines image.toText.toList = image.textLines := by
  rw [toList_toText]
  refine Text.lines_flatMap (fun line hline hlast => ?_) (fun line hline hfeed => ?_)
  · cases staysInLine_of_mem_textLines line hline _ (List.mem_of_getLast? hlast)
  · cases staysInLine_of_mem_textLines line hline _ hfeed

theorem parseLine_cellText (number addr : Nat) (w : Word) :
    parseLine number (cellText addr w) = .ok [w] := by
  have hw : ∀ c ∈ (toString w).toList, Text.isBlank c = false ∧ c ≠ ';' := by
    intro c hc
    rcases Text.mem_toString hc with rfl | hdigit
    · decide
    · refine ⟨Text.not_isBlank_of_isAlphanum (Text.isAlphanum_of_isDigit hdigit), ?_⟩
      rintro rfl
      cases hdigit
  have hfront : ';' ∉ (toString w).toList ++ [' '] := by
    intro hmem
    rcases List.mem_append.mp hmem with hmem | hmem
    · exact (hw ';' hmem).2 rfl
    · revert hmem
      decide
  have hcell : cellText addr w =
      ((toString w).toList ++ [' ']) ++ ';' :: (' ' :: (Text.zeroPad 4 addr).toList) := by
    rw [cellText, List.append_assoc]
    congr 1
  have hwords : Text.words Text.isBlank ((toString w).toList ++ [' ']) = [(toString w).toList] := by
    rw [Text.words_append_right (List.forall_mem_singleton.mpr rfl),
      Text.words_eq_singleton (Text.toString_ne_nil w) fun c hc => (hw c hc).1]
  rw [parseLine, hcell, Text.uncomment_append_cons hfront, hwords, List.mapM_cons,
    Text.readWord_toString]
  rfl

theorem parseLines_mapIdx {f : Nat → Word → List Char}
    (hf : ∀ number addr w, parseLine number (f addr w) = .ok [w]) (ws : List Word) (number : Nat) :
    parseLines number (ws.mapIdx f) = .ok ws := by
  induction ws generalizing f number with
  | nil => rfl
  | cons w ws ih =>
    rw [List.mapIdx_cons, parseLines, hf, ih fun number addr => hf number (addr + 1)]
    rfl

/-- A line without cells is passed over. -/
theorem parseLines_cons_of_nil {number : Nat} {line : List Char} (rest : List (List Char))
    (h : parseLine number line = .ok []) :
    parseLines number (line :: rest) = parseLines (number + 1) rest := by
  rw [parseLines, h]
  cases parseLines (number + 1) rest <;> rfl

theorem parseText_toText (image : Image) : parseText image.toText = .ok image := by
  have hlines : parseLines 1 image.textLines = .ok image.toList := by
    rw [textLines, parseLines_cons_of_nil _ rfl, parseLines_cons_of_nil _ rfl,
      parseLines_cons_of_nil _ rfl, parseLines_mapIdx parseLine_cellText]
  rw [parseText, lines_toText, hlines]
  rfl

/-! ## The JSON form -/

theorem parseJson_toJson (image : Image) : parseJson image.toJson = .ok image := by
  have hplain : (Json.record [("cells", .list .word image.toList)]).Plain :=
    .record (List.forall_mem_singleton.mpr (.list Json.plain_word))
  have hparse : Json.parse? image.toJson = some (.record [("cells", .list .word image.toList)]) :=
    Json.parse?_write Json.Layout.blank_compact hplain 0
  have hfields : (Json.record [("cells", .list .word image.toList)]).record? ["cells"] =
      some [("cells", .list .word image.toList)] :=
    Json.record?_record (List.Sublist.refl _) (by decide)
  have hcells : Json.required [("cells", .list .word image.toList)] "cells"
      (Json.listOf? Json.word?) = some image.toList :=
    Json.listOf?_list Json.word?_word image.toList
  simp only [parseJson, hparse, hfields, hcells, Option.bind_eq_bind, Option.bind_some]

/-! ## Files -/

theorem decode_encode (name : String) (image : Image) :
    decode name (encode name image) = .ok image := by
  unfold decode encode
  split
  · exact parseJson_toJson image
  · exact parseText_toText image

/-- Both forms of a file keep the cells of an image, and by any name that can be written to they
are kept in a form in which they are read from it. -/
theorem load_save (image : Image) :
    parseText image.toText = .ok image ∧ parseJson image.toJson = .ok image ∧
      ∀ (files : Files) (name : String), (∃ place, files.place true name = .ok place) →
        ∃ after, save files name image = .ok after ∧ load after name = .ok image := by
  refine ⟨parseText_toText image, parseJson_toJson image, fun files name hplace => ?_⟩
  obtain ⟨place, hplace⟩ := hplace
  have hwrite : files.write name (encode name image) = .ok (files.put place (encode name image)) :=
    Files.write_eq_ok_iff.mpr ⟨place, hplace, rfl⟩
  refine ⟨_, by rw [save, hwrite]; rfl, ?_⟩
  rw [load, Files.read_write hwrite]
  exact decode_encode name image

theorem load_save_upper_case :
    let files : Files := { directories := [["tmp"]], working := ["home"] }
    (∃ place, files.place true "/tmp/cells.JSON" = .ok place) ∧
      ∃ after, save files "/tmp/cells.JSON" #[-5, Int64.minValue] = .ok after ∧
        load after "/tmp/cells.JSON" = .ok #[-5, Int64.minValue] := by
  intro files
  have hplace : ∃ place, files.place true "/tmp/cells.JSON" = .ok place :=
    ⟨["tmp", "cells.JSON"], by decide⟩
  exact ⟨hplace, (load_save #[-5, Int64.minValue]).2.2 files "/tmp/cells.JSON" hplace⟩

end Image

end CellMachine
