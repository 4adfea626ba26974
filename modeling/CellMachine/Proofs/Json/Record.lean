import CellMachine.Proofs.Json.RoundTrip
import CellMachine.Records

/-!
# CellMachine.Proofs.Json.Record

Data that was made a JSON value is read back from it.

* `record?_record`     — the fields of a record.
* `mapM_required_zip`  — fields that are all of one type, in order.
* `listOf?_list`, `word?_word`, `uint64?_nat`, `option?_option` — single values.
-/

namespace CellMachine.Json

theorem plain_word (w : Word) : Plain (.word w) := .int _

theorem Plain.option {α : Type} {f : α → Json} (h : ∀ x, Plain (f x)) (x : Option α) :
    Plain (.option f x) := by
  cases x with
  | none => exact .null
  | some x => exact h x

theorem word?_word (w : Word) : word? (.word w) = some w := Word.ofInt?_toInt w

theorem uint64?_nat (n : UInt64) : uint64? (.nat n.toNat) = some n := by
  have hlt : (n.toNat : Int) < UInt64.size := Int.ofNat_lt.mpr n.toNat_lt_size
  rw [nat, uint64?, if_pos ⟨Int.natCast_nonneg _, hlt⟩, Int.toNat_natCast, UInt64.ofNat_toNat]

theorem option?_option {α : Type} {f : α → Json} {g : Json → Option α}
    (h : ∀ x, g (f x) = some x) (hnull : ∀ x, (f x).isNull = false) (x : Option α) :
    option? g (.option f x) = some x := by
  cases x with
  | none => rfl
  | some x =>
    rw [option, Option.elim_some, option?, hnull, if_neg Bool.false_ne_true, h]
    rfl

theorem mapM_eq_some_of_map_eq {α β : Type} {f : α → Option β} {xs : List α} (ys : List β)
    (h : xs.map f = ys.map some) : xs.mapM f = some ys := by
  calc xs.mapM f
    _ = (xs.map f).mapM id := (List.mapM_map (f := f) (g := id)).symm
    _ = (ys.map some).mapM id := by rw [h]
    _ = ys.mapM fun y => pure (id y) := List.mapM_map
    _ = some ys := List.mapM_pure.trans (congrArg some (List.map_id ys))

theorem listOf?_list {α : Type} {f : α → Json} {g : Json → Option α}
    (h : ∀ x, g (f x) = some x) (xs : List α) : listOf? g (.list f xs) = some xs := by
  refine mapM_eq_some_of_map_eq xs ?_
  rw [List.map_map]
  exact List.map_congr_left fun x _ => h x

/-- The fields of a record, if they are among those that are asked for. -/
theorem record?_record {names : List String} {fields : List (String × Json)}
    (hfields : (fields.map (·.1)).Sublist names) (hnames : names.Nodup) :
    (Json.record fields).record? names = some fields := by
  have hfilter : fields.filter (fun p => names.contains p.1) = fields :=
    List.filter_eq_self.mpr fun _ hp =>
      List.contains_iff_mem.mpr (hfields.subset (List.mem_map_of_mem hp))
  rw [Json.record, record?, mapM_eq_some_of_map_eq fields]
  · show (if ((fields.filter fun p => names.contains p.1).map (·.1)).Nodup then
      some (fields.filter fun p => names.contains p.1) else none) = some fields
    rw [hfilter, if_pos (hnames.sublist hfields)]
  · rw [List.map_map]
    rfl

section Required

variable {α : Type} {f : Json → Option α} {fields : List (String × Json)} {name other : String}

theorem required_cons_self (fields : List (String × Json)) (name : String) (v : Json)
    (f : Json → Option α) : required ((name, v) :: fields) name f = f v := by
  rw [required, List.lookup_cons_self]
  rfl

theorem required_cons_of_ne (h : name ≠ other) (v : Json) :
    required ((other, v) :: fields) name f = required fields name f := by
  rw [required, List.lookup_cons, beq_false_of_ne h, required]

/-- The values of a record whose fields all have one type. -/
theorem mapM_required_zip {g : α → Json} (h : ∀ x, f (g x) = some x) {names : List String}
    {xs : List α} (hnames : names.Nodup) (hlen : names.length = xs.length) :
    (names.mapM fun name => required (names.zip (xs.map g)) name f) = some xs := by
  refine mapM_eq_some_of_map_eq xs ?_
  induction names generalizing xs with
  | nil =>
    rw [List.eq_nil_of_length_eq_zero hlen.symm]
    rfl
  | cons name names ih =>
    obtain ⟨x, xs, rfl⟩ := List.exists_cons_of_length_eq_add_one hlen.symm
    obtain ⟨hname, hnames⟩ := List.nodup_cons.mp hnames
    have hrest : names.map (fun other => required ((name, g x) :: names.zip (xs.map g)) other f) =
        names.map fun other => required (names.zip (xs.map g)) other f :=
      List.map_congr_left fun other hother => required_cons_of_ne (ne_of_mem_of_not_mem hother hname) _
    rw [List.map_cons, List.map_cons, List.map_cons, List.zip_cons_cons, required_cons_self, h,
      hrest, ih hnames (Nat.succ.inj hlen)]

end Required

end CellMachine.Json
