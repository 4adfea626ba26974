import CellMachine.Proofs.Machine.Invariant

/-!
# CellMachine.Proofs.Machine.Reload

What a reload leaves: the image with zeros behind it and a new processor, if the image fits.
-/

namespace CellMachine

namespace Memory

theorem size_ofImage {n : Nat} {image : Array Word} (h : image.size ≤ n) :
    (ofImage n image).size = n := by
  rw [size, ofImage, Array.size_append, Array.size_replicate]
  omega

theorem load_clear {m : Memory} {image : Array Word} (h : image.size ≤ m.size) :
    m.clear.load 0 image = .ok (ofImage m.size image) := by
  have hback : m.clear.cells.extract (0 + image.size) m.clear.size =
      Array.replicate (m.size - image.size) 0 := by
    rw [size_clear, Nat.zero_add, clear, zeros, Array.extract_replicate, Nat.min_self]
  simp only [load, if_pos (show image.size ≤ m.clear.size - 0 by rwa [size_clear]), hback,
    Array.extract_zero, Array.empty_append]
  rfl

theorem load_clear_of_lt {m : Memory} {image : Array Word} (h : m.size < image.size) :
    m.clear.load 0 image = .error (.imageTooLarge image.size m.size) := by
  simp only [load, size_clear, Nat.sub_zero, if_neg (Nat.not_le.mpr h)]

end Memory

namespace Machine

variable {m : Machine} {image : Array Word}

theorem reload_of_le (h : image.size ≤ m.mem.size) :
    m.reload image =
      ({ Core.initial m.mem.size with
          mem := .ofImage m.mem.size image, config := m.config, out := m.out }, .ok ()) := by
  rw [reload_of_ok (Memory.load_clear h), reset]
  simp only [Memory.size_ofImage h]

theorem reload_of_lt (h : m.mem.size < image.size) :
    m.reload image =
      ({ m with mem := m.mem.clear }, .error (.imageTooLarge image.size m.mem.size)) :=
  reload_of_error (Memory.load_clear_of_lt h)

end Machine

end CellMachine
