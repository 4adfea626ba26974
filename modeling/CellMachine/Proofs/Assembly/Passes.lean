import CellMachine.Assembly.Image
import CellMachine.Proofs.Assembly.Layout

/-!
# CellMachine.Proofs.Assembly.Passes

The two passes of the assembler make the image that the layout of the source asks for.

* `Pending`              — cells that become others when the patches noted for them are made.
* `Assembler.Emitted`    — what the first pass knows after some lines.
* `assemble_eq_ok_iff`   — which sources assemble, and to which cells.
-/

namespace CellMachine.Assembly

/-! ## Patches -/

/-- The cells with one more patch made, where `σ` gives the addresses of labels. -/
def put (σ : String → Nat) (cells : List Word) (p : Patch) : List Word :=
  cells.set p.position (Int64.ofNat (σ p.label) + p.offset)

/-- The cells with patches made, the last one of the list first. -/
def putAll (σ : String → Nat) (patches : List Patch) (cells : List Word) : List Word :=
  patches.reverse.foldl (put σ) cells

theorem putAll_append (σ : String → Nat) (new old : List Patch) (cells : List Word) :
    putAll σ (new ++ old) cells = putAll σ new (putAll σ old cells) := by
  rw [putAll, List.reverse_append, List.foldl_append]
  rfl

/-- Patches leave the cells behind their positions alone. -/
theorem putAll_cells_append (σ : String → Nat) {patches : List Patch} {cells : List Word}
    (h : ∀ p ∈ patches, p.position < cells.length) (rest : List Word) :
    putAll σ patches (cells ++ rest) = putAll σ patches cells ++ rest := by
  induction patches using List.reverseRecOn generalizing cells with
  | nil => rfl
  | append_singleton patches p ih =>
    have hp : p.position < cells.length := h p (List.mem_concat_self)
    rw [putAll_append, putAll_append]
    show putAll σ patches (put σ (cells ++ rest) p) = putAll σ patches (put σ cells p) ++ rest
    rw [put, List.set_append_left _ _ hp]
    refine ih fun q hq => ?_
    rw [List.length_set]
    exact h q (List.mem_append_left _ hq)

/-- The cells `ws` at position `pos` become `vs σ` when the patches are made. -/
structure Pending (pos : Nat) (ws : List Word) (patches : List Patch)
    (vs : (String → Nat) → List Word) : Prop where
  bounded : ∀ p ∈ patches, p.position < pos + ws.length
  filled : ∀ σ (cells : List Word), cells.length = pos →
    putAll σ patches (cells ++ ws) = cells ++ vs σ

/-- Cells that no patch is noted for stay. -/
theorem Pending.literal (pos : Nat) (ws : List Word) : Pending pos ws [] fun _ => ws where
  bounded := nofun
  filled := fun _ _ _ => rfl

theorem Pending.length {pos : Nat} {ws : List Word} {patches : List Patch}
    {vs : (String → Nat) → List Word} (h : Pending pos ws patches vs) (σ : String → Nat) :
    (vs σ).length = ws.length := by
  have hlen : ∀ (patches : List Patch) (cells : List Word),
      (putAll σ patches cells).length = cells.length := by
    intro patches
    induction patches using List.reverseRecOn with
    | nil => exact fun _ => rfl
    | append_singleton patches p ih =>
      intro cells
      rw [putAll_append, ih]
      exact List.length_set
  have hfill := congrArg List.length (h.filled σ (List.replicate pos 0) List.length_replicate)
  rw [hlen, List.length_append, List.length_append] at hfill
  omega

/-- Cells after cells: their patches are made after those of the cells before them. -/
theorem Pending.append {pos : Nat} {ws ws' : List Word} {old new : List Patch}
    {vs vs' : (String → Nat) → List Word} (h : Pending pos ws old vs)
    (h' : Pending (pos + ws.length) ws' new vs') :
    Pending pos (ws ++ ws') (new ++ old) fun σ => vs σ ++ vs' σ where
  bounded := by
    intro p hp
    rw [List.length_append]
    rcases List.mem_append.mp hp with hp | hp
    · have := h'.bounded p hp
      omega
    · have := h.bounded p hp
      omega
  filled := by
    intro σ cells hcells
    have hold : ∀ p ∈ old, p.position < (cells ++ ws).length := by
      intro p hp
      rw [List.length_append, hcells]
      exact h.bounded p hp
    have hlen : (cells ++ vs σ).length = pos + ws.length := by
      rw [List.length_append, hcells, h.length]
    -- The patches of `ws` come first and do not reach `ws'`.
    rw [putAll_append, ← List.append_assoc, putAll_cells_append σ hold, h.filled σ cells hcells,
      h'.filled σ _ hlen, List.append_assoc]

namespace Assembler

/-! ## The first pass -/

theorem operand_pending (a : Assembler) (line pos : Nat) (o : Operand) :
    ∃ w new, a.operand line pos o = (w, { a with patches := new ++ a.patches }) ∧
      new.map Patch.label = o.reference?.toList ∧ Pending pos [w] new fun σ => [o.word σ] := by
  have hlast : ∀ (cells : List Word) (w v : Word), cells.length = pos →
      (cells ++ [w]).set pos v = cells ++ [v] := by
    rintro cells w v rfl
    rw [List.set_append_right _ _ (Nat.le_refl _), Nat.sub_self]
    rfl
  cases o with
  | value w => exact ⟨w, [], rfl, rfl, .literal pos [w]⟩
  | label key =>
    refine ⟨0, [⟨pos, key, 0, line⟩], rfl, rfl, ?_, ?_⟩
    · rintro p hp
      cases List.mem_singleton.mp hp
      exact Nat.lt_succ_self pos
    · intro σ cells hcells
      show (cells ++ [0]).set pos (Int64.ofNat (σ key) + 0) = _
      rw [hlast cells 0 _ hcells, Int64.add_zero]
      rfl
  | beforeLabel key =>
    refine ⟨0, [⟨pos, key, -1, line⟩], rfl, rfl, ?_, ?_⟩
    · rintro p hp
      cases List.mem_singleton.mp hp
      exact Nat.lt_succ_self pos
    · intro σ cells hcells
      show (cells ++ [0]).set pos (Int64.ofNat (σ key) + -1) = _
      rw [hlast cells 0 _ hcells, ← Int64.sub_eq_add_neg]
      rfl

theorem operands_pending (a : Assembler) (line pos : Nat) (os : List Operand) :
    ∃ ws new, a.operands line pos os = (ws, { a with patches := new ++ a.patches }) ∧
      new.map Patch.label = (os.filterMap Operand.reference?).reverse ∧
      Pending pos ws new fun σ => os.map (Operand.word σ) := by
  induction os generalizing a pos with
  | nil => exact ⟨[], [], rfl, rfl, .literal pos []⟩
  | cons o os ih =>
    obtain ⟨w, old, ho, hold, hp⟩ := a.operand_pending line pos o
    obtain ⟨ws, new, hos, hnew, hps⟩ := ih { a with patches := old ++ a.patches } (pos + 1)
    refine ⟨w :: ws, new ++ old, ?_, ?_, hp.append hps⟩
    · simp only [operands, ho, hos, List.append_assoc]
    · rw [List.map_append, hnew, hold]
      cases h : o.reference? with
      | none => simp only [List.filterMap_cons, h, Option.toList_none, List.append_nil]
      | some key => simp only [List.filterMap_cons, h, Option.toList_some, List.reverse_cons]

/-- A statement that fits adds its cells, and a patch for each label that it refers to. -/
theorem emit_eq_ok {a a' : Assembler} {line : Nat} {s : Statement} (hc : s.Complete)
    (h : a.emit line s = .ok a') :
    s.Fits a.addr ∧ a'.symbols = a.symbols ∧
      ∃ ws new, a'.cells.toList = a.cells.toList ++ ws ∧ a'.patches = new ++ a.patches ∧
        new.map Patch.label = (s.operands.filterMap Operand.reference?).reverse ∧
        Pending a.addr ws new fun σ => s.cells σ a.addr := by
  cases s with
  | origin w =>
    simp only [emit, moveTo] at h
    split at h
    · cases h
    · split at h
      · cases h
      · cases h
        refine ⟨⟨by omega, by omega⟩, rfl, List.replicate (w.toInt.toNat - a.addr) 0, [], ?_, rfl,
          rfl, .literal _ _⟩
        rw [Array.toList_append, Array.toList_replicate]
  | data o =>
    obtain ⟨w, new, ho, hnew, hp⟩ := a.operand_pending line a.addr o
    simp only [emit, ho] at h
    cases h
    refine ⟨trivial, rfl, [w], new, Array.toList_push, rfl, ?_, hp⟩
    rw [hnew]
    cases hr : o.reference? <;> simp only [Statement.operands, List.filterMap_cons, hr] <;> rfl
  | instruction op os =>
    obtain ⟨ws, new, hos, hnew, hp⟩ := a.operands_pending line (a.addr + 1) os
    have hc : os.length = op.fields.length := hc
    have hlen : ws.length = op.fields.length := by
      rw [← hp.length fun _ => 0, List.length_map, hc]
    have hencode : ∀ ws : List Word, ws.length = op.fields.length →
        (instructionOf op ws).encode = [op.cell] ++ ws := by
      intro ws hws
      rw [Instruction.encode, instructionOf, Instruction.opcode_ofParts,
        Instruction.operands_ofParts hws, List.singleton_append]
    simp only [emit, hos] at h
    cases h
    refine ⟨trivial, rfl, [op.cell] ++ ws, new, ?_, rfl, hnew, ?_⟩
    · rw [← hencode ws hlen]
      exact Array.toList_appendList
    · have happend := (Pending.literal a.addr [op.cell]).append hp
      rw [List.append_nil] at happend
      have hcells : (fun σ => (Statement.instruction op os).cells σ a.addr) =
          fun σ => [op.cell] ++ os.map (Operand.word σ) := by
        funext σ
        exact hencode _ (by rw [List.length_map, hc])
      rw [hcells]
      exact happend

theorem exists_emit {a : Assembler} {s : Statement} (line : Nat) (h : s.Fits a.addr) :
    ∃ a', a.emit line s = .ok a' := by
  cases s with
  | origin w =>
    have h : (a.addr : Int) ≤ w.toInt ∧ w.toInt ≤ maxOrigin := h
    simp only [emit, moveTo, if_neg (Int.not_lt.mpr h.1), if_neg (Int.not_lt.mpr h.2)]
    exact ⟨_, rfl⟩
  | data o => exact ⟨_, rfl⟩
  | instruction op os => exact ⟨_, rfl⟩

/-- The label of a line, if it has one, at the address reached so far. -/
def labelled (a : Assembler) : Option (List Char) → Except Cause Assembler
  | none => .ok a
  | some name => readLabel name >>= a.define

theorem addText_eq (a : Assembler) (line : Nat) (text : List Char) :
    a.addText line text =
      a.labelled (splitLabel (Text.trim (Text.uncomment text))).1 >>= fun b =>
        readStatement (splitLabel (Text.trim (Text.uncomment text))).2 >>= fun s =>
          s.elim (.ok b) (b.emit line) := by
  unfold addText
  obtain ⟨label, rest⟩ := splitLabel (Text.trim (Text.uncomment text))
  cases label with
  | none =>
    show (Except.ok a >>= fun b => readStatement rest >>= _) = _
    refine congrArg _ (funext fun b => congrArg _ (funext fun s => ?_))
    cases s <;> rfl
  | some name =>
    show _ = (readLabel name >>= a.define) >>= _
    rw [bind_assoc]
    refine congrArg _ (funext fun key => congrArg _ (funext fun b => congrArg _ (funext fun s => ?_)))
    cases s <;> rfl

/-- A line that was read: its label, then its statement. -/
def place (a : Assembler) (line : Nat) (l : Line) : Except Cause Assembler := do
  let a ← l.label.elim (.ok a) a.define
  l.statement.elim (.ok a) (a.emit line)

theorem addText_eq_ok_iff {a a' : Assembler} {line : Nat} {text : List Char} :
    a.addText line text = .ok a' ↔ ∃ l, readLine text = .ok l ∧ a.place line l = .ok a' := by
  unfold addText readLine
  obtain ⟨label, rest⟩ := splitLabel (Text.trim (Text.uncomment text))
  cases label with
  | none =>
    simp only [place, bind_eq_ok_iff]
    constructor
    · rintro ⟨_, ⟨⟩, s, hs, h⟩
      refine ⟨⟨none, s⟩, ⟨none, rfl, s, hs, rfl⟩, a, rfl, ?_⟩
      cases s <;> exact h
    · rintro ⟨_, ⟨_, ⟨⟩, s, hs, ⟨⟩⟩, _, ⟨⟩, h⟩
      refine ⟨a, rfl, s, hs, ?_⟩
      cases s <;> exact h
  | some name =>
    simp only [place, bind_eq_ok_iff, map_eq_ok_iff]
    constructor
    · rintro ⟨key, hkey, b, hb, s, hs, h⟩
      refine ⟨⟨some key, s⟩, ⟨some key, ⟨key, hkey, rfl⟩, s, hs, rfl⟩, b, hb, ?_⟩
      cases s <;> exact h
    · rintro ⟨_, ⟨_, ⟨key, hkey, rfl⟩, s, hs, ⟨⟩⟩, b, hb, h⟩
      refine ⟨key, hkey, b, hb, s, hs, ?_⟩
      cases s <;> exact h

/-- What the first pass knows after the lines `ls`. -/
structure Emitted (ls : List Line) (a : Assembler) : Prop where
  placed : WellPlaced ls
  unique : (labels ls).Nodup
  symbols : ∀ key, a.address? key = if key ∈ labels ls then some (labelAddr ls key) else none
  references : a.patches.map Patch.label = (ls.flatMap Line.references).reverse
  pending : Pending 0 a.cells.toList a.patches fun σ => cellsFrom σ 0 ls

theorem emitted_nil : Emitted [] {} where
  placed := nofun
  unique := List.nodup_nil
  symbols := fun _ => rfl
  references := rfl
  pending := .literal 0 []

theorem Emitted.addr_eq {ls : List Line} {a : Assembler} (h : Emitted ls a) :
    a.addr = nextAll 0 ls := by
  rw [← length_cellsFrom (σ := fun _ => 0) h.placed, h.pending.length, Array.length_toList, addr]

theorem address?_define {a : Assembler} {key key' : String} :
    address? { a with symbols := (key, a.addr) :: a.symbols } key' =
      if key' = key then some a.addr else a.address? key' := by
  unfold address?
  rw [List.lookup_cons]
  split
  · rename_i h
    rw [if_pos (beq_iff_eq.mp h)]
  · rename_i h
    rw [if_neg (beq_eq_false_iff_ne.mp h)]

/-- The label of one more line is known under its address, and nothing else changes. -/
theorem Emitted.define {ls : List Line} {a a' : Assembler} {l : Line} (h : Emitted ls a)
    (ha : l.label.elim (.ok a) a.define = .ok a') :
    (labels (ls ++ [l])).Nodup ∧ a'.cells = a.cells ∧ a'.patches = a.patches ∧
      ∀ key, a'.address? key =
        if key ∈ labels (ls ++ [l]) then some (labelAddr (ls ++ [l]) key) else none := by
  have hsingle : labels [l] = l.label.toList := by
    unfold labels
    cases hl : l.label <;> simp only [List.filterMap_cons, hl] <;> rfl
  rw [labels_append, hsingle]
  cases hl : l.label with
  | none =>
    rw [hl] at ha
    cases ha
    rw [Option.toList_none, List.append_nil]
    refine ⟨h.unique, rfl, rfl, fun key => ?_⟩
    rw [h.symbols]
    split
    · rw [labelAddr_append ‹_›]
    · rfl
  | some key =>
    rw [hl, Option.elim_some, Assembler.define] at ha
    have hnew : key ∉ labels ls := by
      intro hmem
      rw [h.symbols, if_pos hmem] at ha
      cases ha
    rw [h.symbols, if_neg hnew] at ha
    cases ha
    rw [Option.toList_some]
    refine ⟨?_, rfl, rfl, fun key' => ?_⟩
    · rw [List.nodup_append]
      refine ⟨h.unique, List.pairwise_singleton _ key, ?_⟩
      rintro k hk _ hk' rfl
      rw [List.mem_singleton.mp hk'] at hk
      exact hnew hk
    · rw [address?_define, h.symbols]
      by_cases hkey : key' = key
      · rw [if_pos hkey, if_pos (by rw [hkey]; exact List.mem_concat_self), hkey,
          labelAddr_concat hnew hl, h.addr_eq]
      · rw [if_neg hkey]
        simp only [List.mem_append, List.mem_singleton, hkey, or_false]
        split
        · rw [labelAddr_append ‹_›]
        · rfl

/-- One more line keeps what the first pass knows. -/
theorem Emitted.place {ls : List Line} {a a' : Assembler} {line : Nat} {l : Line}
    (h : Emitted ls a) (hc : l.Complete) (ha : a.place line l = .ok a') :
    Emitted (ls ++ [l]) a' := by
  obtain ⟨b, hb, hs⟩ := bind_eq_ok_iff.mp ha
  obtain ⟨hunique, hcells, hpatches, hsymbols⟩ := h.define hb
  have haddr : b.addr = nextAll 0 ls := by
    rw [← h.addr_eq, Assembler.addr, hcells, Assembler.addr]
  cases hl : l.statement with
  | none =>
    rw [hl] at hs
    cases hs
    have hfits : l.Fits (nextAll 0 ls) := by
      intro s hs
      rw [hl] at hs
      cases hs
    have hempty : ∀ σ, cellsFrom σ 0 (ls ++ [l]) = cellsFrom σ 0 ls := by
      intro σ
      rw [cellsFrom_append, cellsFrom, cellsFrom, Line.cells, hl]
      simp only [Option.elim_none, List.append_nil]
    refine ⟨h.placed.concat hfits, hunique, hsymbols, ?_, ?_⟩
    · rw [hpatches, h.references, List.flatMap_append, List.flatMap_singleton, Line.references, hl,
        Option.elim_none, List.append_nil]
    · simp only [hcells, hpatches, hempty]
      exact h.pending
  | some s =>
    rw [hl] at hs
    obtain ⟨hfits, hsym, ws, new, hws, hnew, hrefs, hp⟩ := emit_eq_ok (hc s hl) hs
    rw [haddr] at hfits hp
    have hline : ∀ σ, l.cells σ (nextAll 0 ls) = s.cells σ (nextAll 0 ls) := by
      intro σ
      rw [Line.cells, hl, Option.elim_some]
    refine ⟨h.placed.concat ?_, hunique, ?_, ?_, ?_⟩
    · intro s' hs'
      rw [hl] at hs'
      cases hs'
      exact hfits
    · intro key
      rw [← hsymbols, address?, address?, hsym]
    · rw [hnew, hpatches, List.map_append, hrefs, h.references, List.flatMap_append,
        List.flatMap_singleton, List.reverse_append, Line.references, hl, Option.elim_some]
    · -- The new cells start where those of the lines before end.
      have hlen : 0 + a.cells.toList.length = nextAll 0 ls := by
        rw [Nat.zero_add, Array.length_toList, ← h.addr_eq, addr]
      rw [← hlen] at hp
      rw [hws, hcells, hnew, hpatches]
      have happend := h.pending.append hp
      simp only [cellsFrom_append, cellsFrom, List.append_nil, hline]
      rw [hlen] at happend
      exact happend

theorem Emitted.exists_place {ls : List Line} {a : Assembler} {l : Line} (h : Emitted ls a)
    (line : Nat) (hf : l.Fits (nextAll 0 ls)) (hu : (labels (ls ++ [l])).Nodup) :
    ∃ a', a.place line l = .ok a' := by
  obtain ⟨b, hb, haddr⟩ : ∃ b, l.label.elim (.ok a) a.define = .ok b ∧ b.addr = a.addr := by
    cases hl : l.label with
    | none => exact ⟨a, rfl, rfl⟩
    | some key =>
      have hnew : key ∉ labels ls := by
        intro hmem
        rw [labels_append] at hu
        refine (List.nodup_append.mp hu).2.2 key hmem key ?_ rfl
        exact mem_labels.mpr ⟨l, List.mem_singleton_self l, hl⟩
      refine ⟨{ a with symbols := (key, a.addr) :: a.symbols }, ?_, rfl⟩
      rw [Option.elim_some, Assembler.define, h.symbols, if_neg hnew]
  rw [← h.addr_eq, ← haddr] at hf
  unfold Assembler.place
  cases hl : l.statement with
  | none => exact ⟨b, bind_eq_ok_iff.mpr ⟨b, hb, rfl⟩⟩
  | some s =>
    obtain ⟨a', ha'⟩ := exists_emit line (hf s hl)
    exact ⟨a', bind_eq_ok_iff.mpr ⟨b, hb, ha'⟩⟩

theorem addLine_eq_ok_iff {a a' : Assembler} {line : Nat} {text : List Char} :
    a.addLine line text = .ok a' ↔ ∃ l, readLine text = .ok l ∧ a.place line l = .ok a' := by
  rw [addLine, mapError_eq_ok_iff, addText_eq_ok_iff]

theorem addLines_eq_ok {done : List Line} {a a' : Assembler} {line : Nat}
    {texts : List (List Char)} (h : Emitted done a) (ha : a.addLines line texts = .ok a') :
    ∃ ls, List.Forall₂ LineForm texts ls ∧ Emitted (done ++ ls) a' := by
  induction texts generalizing done a line with
  | nil =>
    cases ha
    refine ⟨[], .nil, ?_⟩
    rw [List.append_nil]
    exact h
  | cons text texts ih =>
    obtain ⟨b, hb, ha⟩ := bind_eq_ok_iff.mp ha
    obtain ⟨l, hl, hb⟩ := addLine_eq_ok_iff.mp hb
    have hform := readLine_eq_ok_iff.mp hl
    obtain ⟨ls, hls, ha'⟩ := ih (h.place hform.complete hb) ha
    rw [List.append_assoc] at ha'
    exact ⟨l :: ls, .cons hform hls, ha'⟩

theorem exists_addLines {done ls : List Line} {a : Assembler} (line : Nat)
    {texts : List (List Char)} (h : Emitted done a) (hls : List.Forall₂ LineForm texts ls)
    (hp : WellPlaced (done ++ ls)) (hu : (labels (done ++ ls)).Nodup) :
    ∃ a', a.addLines line texts = .ok a' := by
  induction hls generalizing done a line with
  | nil => exact ⟨a, rfl⟩
  | @cons text l texts ls hl hls ih =>
    have hsplit : done ++ l :: ls = (done ++ [l]) ++ ls := by
      rw [List.append_assoc, List.singleton_append]
    rw [hsplit] at hp hu
    have hu' := hu
    rw [labels_append] at hu'
    obtain ⟨b, hb⟩ := h.exists_place line hp.of_append.fits (List.nodup_append.mp hu').1
    obtain ⟨a', ha'⟩ := ih (line + 1) (h.place hl.complete hb) hp hu
    refine ⟨a', bind_eq_ok_iff.mpr ⟨b, ?_, ha'⟩⟩
    exact addLine_eq_ok_iff.mpr ⟨l, readLine_eq_ok_iff.mpr hl, hb⟩

/-! ## The second pass -/

theorem patchAll_eq_ok_iff {a : Assembler} {σ : String → Nat}
    (hσ : ∀ key addr, a.address? key = some addr → σ key = addr) {ps : List Patch}
    {cells image : Array Word} :
    ps.foldlM a.patch cells = .ok image ↔
      (∀ p ∈ ps, ∃ addr, a.address? p.label = some addr) ∧
        image.toList = ps.foldl (put σ) cells.toList := by
  induction ps generalizing cells with
  | nil =>
    constructor
    · rintro ⟨⟩
      exact ⟨nofun, rfl⟩
    · rintro ⟨-, h⟩
      exact congrArg _ (Array.toList_inj.mp h).symm
  | cons p ps ih =>
    rw [List.foldlM_cons, bind_eq_ok_iff]
    simp only [ih, List.forall_mem_cons, List.foldl_cons, patch]
    cases hp : a.address? p.label with
    | none => exact ⟨nofun, nofun⟩
    | some addr =>
      have hput : put σ cells.toList p =
          (cells.setIfInBounds p.position (Int64.ofNat addr + p.offset)).toList := by
        rw [put, hσ _ _ hp, Array.toList_setIfInBounds]
      rw [hput]
      constructor
      · rintro ⟨_, ⟨⟩, hps, himage⟩
        exact ⟨⟨⟨addr, rfl⟩, hps⟩, himage⟩
      · rintro ⟨⟨-, hps⟩, himage⟩
        exact ⟨_, rfl, hps, himage⟩

/-- The second pass fills in the addresses of labels, if each label is defined. -/
theorem Emitted.resolve_eq_ok_iff {ls : List Line} {a : Assembler} (h : Emitted ls a)
    {image : Array Word} :
    a.resolve = .ok image ↔ (∀ l ∈ ls, ∀ key ∈ l.references, key ∈ labels ls) ∧
      image.toList = cellsFrom (labelAddr ls) 0 ls := by
  have hσ : ∀ key addr, a.address? key = some addr → labelAddr ls key = addr := by
    intro key addr hkey
    rw [h.symbols] at hkey
    split at hkey
    · exact Option.some.inj hkey
    · cases hkey
  have hdefined : ∀ key, (∃ addr, a.address? key = some addr) ↔ key ∈ labels ls := by
    intro key
    rw [h.symbols]
    split
    · exact ⟨fun _ => ‹_›, fun _ => ⟨_, rfl⟩⟩
    · exact ⟨nofun, fun hkey => absurd hkey ‹_›⟩
  have hrefs : (∀ p ∈ a.patches.reverse, ∃ addr, a.address? p.label = some addr) ↔
      ∀ l ∈ ls, ∀ key ∈ l.references, key ∈ labels ls := by
    have hmem : ∀ key, (∃ p ∈ a.patches, p.label = key) ↔ ∃ l ∈ ls, key ∈ l.references := by
      intro key
      rw [← List.mem_map, h.references, List.mem_reverse, List.mem_flatMap]
    simp only [List.mem_reverse, hdefined]
    constructor
    · intro hp l hl key hkey
      obtain ⟨p, hmem, rfl⟩ := (hmem key).mpr ⟨l, hl, hkey⟩
      exact hp p hmem
    · intro hl p hp
      obtain ⟨l, hmem, hkey⟩ := (hmem p.label).mp ⟨p, hp, rfl⟩
      exact hl l hmem _ hkey
  have hfilled := h.pending.filled (labelAddr ls) [] rfl
  rw [List.nil_append, List.nil_append, putAll] at hfilled
  rw [resolve, patchAll_eq_ok_iff hσ, hrefs, hfilled]

end Assembler

/-! ## Sources -/

def Reads (source : String) (ls : List Line) : Prop :=
  List.Forall₂ LineForm (Text.lines source.toList) ls

theorem reads_iff {source : String} {ls : List Line} :
    Reads source ls ↔ (Text.lines source.toList).mapM readLine = .ok ls := by
  simp only [mapM_eq_ok_iff, readLine_eq_ok_iff]
  rfl

theorem Reads.unique {source : String} {ls ls' : List Line} (h : Reads source ls)
    (h' : Reads source ls') : ls = ls' := by
  rw [reads_iff] at h h'
  rw [h] at h'
  exact Except.ok.inj h'

/-- A source assembles if its lines are well formed, and then to the cells of its lines. -/
theorem assemble_eq_ok_iff {source : String} {image : Array Word} :
    assemble source = .ok image ↔
      ∃ ls, Reads source ls ∧ WellFormed ls ∧ image.toList = cellsFrom (labelAddr ls) 0 ls := by
  rw [assemble, bind_eq_ok_iff]
  constructor
  · rintro ⟨a, ha, h⟩
    obtain ⟨ls, hls, hemitted⟩ := Assembler.addLines_eq_ok Assembler.emitted_nil ha
    obtain ⟨hdefined, himage⟩ := hemitted.resolve_eq_ok_iff.mp h
    exact ⟨ls, hls, ⟨hemitted.placed, hemitted.unique, hdefined⟩, himage⟩
  · rintro ⟨ls, hls, hwell, himage⟩
    obtain ⟨a, ha⟩ :=
      Assembler.exists_addLines 1 Assembler.emitted_nil hls hwell.placed hwell.unique
    obtain ⟨ls', hls', hemitted⟩ := Assembler.addLines_eq_ok Assembler.emitted_nil ha
    have hls' : Reads source ls' := hls'
    obtain rfl : ls' = ls := hls'.unique hls
    exact ⟨a, ha, hemitted.resolve_eq_ok_iff.mpr ⟨hwell.defined, himage⟩⟩

/-- A source assembles exactly if its lines are well formed; the image is as long as the address
that is reached at its end, and holds each statement's cells at the address of the statement. -/
theorem assemble_placed (source : String) :
    ((∃ image, assemble source = .ok image) ↔ ∃ ls, Reads source ls ∧ WellFormed ls) ∧
      ∀ ls image, Reads source ls → assemble source = .ok image → Placed ls image := by
  refine ⟨⟨?_, ?_⟩, ?_⟩
  · rintro ⟨image, h⟩
    obtain ⟨ls, hls, hwell, -⟩ := assemble_eq_ok_iff.mp h
    exact ⟨ls, hls, hwell⟩
  · rintro ⟨ls, hls, hwell⟩
    exact ⟨_, assemble_eq_ok_iff.mpr ⟨ls, hls, hwell, List.toList_toArray⟩⟩
  · intro ls image hls h
    obtain ⟨ls', hls', hwell, himage⟩ := assemble_eq_ok_iff.mp h
    obtain rfl := hls'.unique hls
    exact .of_cells hwell.placed himage

/-- A jump to a label that is defined after it. -/
theorem assemble_placed_forward_jump :
    ∃ ls, Reads "JMP END\nend: HLT" ls ∧ assemble "JMP END\nend: HLT" = .ok #[20, 1, 31] ∧
      Placed ls #[20, 1, 31] := by
  have hreads : Reads "JMP END\nend: HLT"
      [⟨none, some (.instruction (.jump .always) [.beforeLabel "END"])⟩,
        ⟨some "END", some (.instruction .hlt [])⟩] := by
    rw [reads_iff]
    decide
  have himage : assemble "JMP END\nend: HLT" = .ok #[20, 1, 31] := by decide
  exact ⟨_, hreads, himage, (assemble_placed _).2 _ _ hreads himage⟩

end CellMachine.Assembly
