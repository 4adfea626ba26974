import CellMachine.Json.Printer
import CellMachine.Json.Token
import CellMachine.Proofs.Text.Numeral

/-!
# CellMachine.Proofs.Json.Token

The tokens of a JSON text, read back from how they are written.

* `read?_quote`    — a string between quotes.
* `read?_toString` — an integer, in front of what cannot belong to it.
* `tokens?_of_read?`, `tokens?_append_left` — one token more, and blanks.
-/

namespace CellMachine.Json.Token

/-! ## Strings -/

/-- An element that is read from the front of `cs` and spells `c`. -/
structure Piece.Quotes (p : Piece) (c : Char) (cs : List Char) : Prop where
  body : ∀ rest, body? (cs ++ rest) = (body? rest).map fun (ps, rest) => (p :: ps, rest)
  spell : ∀ ps, spell? (p :: ps) = (spell? ps).map (c :: ·)

theorem quotes_escape {e c : Char} (h : escape? e = some c) (hu : e ≠ 'u') :
    (Piece.char c).Quotes c ['\\', e] where
  body rest := by
    show body? ('\\' :: e :: rest) = _
    rw [body?]
    · simp only [h]
      cases body? rest <;> rfl
    · rintro _ _ _ _ _ rfl
      exact absurd rfl hu
  spell _ := rfl

theorem hexDigits?_control :
    ∀ n < 0x20, Text.hexDigits? ['0', '0', Nat.digitChar (n / 16), Nat.digitChar (n % 16)] =
      some n := by
  decide

theorem quotes_control {c : Char} (h : c.toNat < 0x20) :
    (Piece.code c.toNat).Quotes c
      ['\\', 'u', '0', '0', Nat.digitChar (c.toNat / 16), Nat.digitChar (c.toNat % 16)] where
  body rest := by
    show body? ('\\' :: 'u' :: '0' :: '0' :: _ :: _ :: rest) = _
    rw [body?, hexDigits?_control _ h]
    cases body? rest <;> rfl
  spell ps := by
    rw [spell?.eq_def (.code c.toNat :: ps)]
    simp only
    rw [if_neg (by omega), if_neg (by omega), Char.ofNat_toNat]

theorem quotes_self {c : Char} (hquote : c ≠ '"') (hback : c ≠ '\\') (h : ¬c.toNat < 0x20) :
    (Piece.char c).Quotes c [c] where
  body rest := by
    show body? (c :: rest) = _
    rw [body?, if_neg h]
    · cases body? rest <;> rfl
    · exact hquote
    · rintro _ _ _ _ _ rfl
      exact absurd rfl hback
    · rintro _ _ rfl
      exact absurd rfl hback
  spell _ := rfl

/-- A character of a string is read as one element, which spells it. -/
theorem exists_quotes (c : Char) : ∃ p : Piece, p.Quotes c (quoteChar c) := by
  unfold quoteChar
  split
  · exact ⟨_, quotes_escape rfl (by decide)⟩
  · exact ⟨_, quotes_escape rfl (by decide)⟩
  · exact ⟨_, quotes_escape rfl (by decide)⟩
  · exact ⟨_, quotes_escape rfl (by decide)⟩
  · exact ⟨_, quotes_escape rfl (by decide)⟩
  · exact ⟨_, quotes_escape rfl (by decide)⟩
  · exact ⟨_, quotes_escape rfl (by decide)⟩
  · rename_i hquote hback _ _ _ _ _
    split
    · exact ⟨_, quotes_control ‹_›⟩
    · exact ⟨_, quotes_self hquote hback ‹_›⟩

/-- The body of a string that was quoted. -/
theorem exists_body? (cs : List Char) :
    ∃ ps, (∀ rest, body? (cs.flatMap quoteChar ++ '"' :: rest) = some (ps, rest)) ∧
      spell? ps = some cs := by
  induction cs with
  | nil => exact ⟨[], fun _ => by rw [List.flatMap_nil, List.nil_append, body?], rfl⟩
  | cons c cs ih =>
    obtain ⟨ps, hbody, hspell⟩ := ih
    obtain ⟨p, hp⟩ := exists_quotes c
    refine ⟨p :: ps, fun rest => ?_, ?_⟩
    · rw [List.flatMap_cons, List.append_assoc, hp.body, hbody]
      rfl
    · rw [hp.spell, hspell]
      rfl

theorem read?_quote (s : String) (rest : List Char) :
    read? ((quote s).toList ++ rest) = some (.str (some s), rest) := by
  obtain ⟨ps, hbody, hspell⟩ := exists_body? s.toList
  have htext : (quote s).toList ++ rest = '"' :: (s.toList.flatMap quoteChar ++ '"' :: rest) := by
    simp only [quote, String.toList_append, String.toList_ofList, List.append_assoc]
    rfl
  rw [htext, read?, hbody]
  simp only [Option.map_some, hspell, String.ofList_toList]

/-! ## Numbers -/

/-- What may follow a number: nothing of which it could be a part. -/
def Ends (rest : List Char) : Prop := ∀ c ∈ rest.head?, isNumberChar c = false

/-- A number is read as far as it can reach. -/
theorem read?_number {lexeme rest : List Char} (hne : lexeme ≠ [])
    (h : ∀ c ∈ lexeme, isNumberChar c = true) (hrest : Ends rest) :
    read? (lexeme ++ rest) = (number? lexeme).map (·, rest) := by
  obtain ⟨c, cs, rfl⟩ := List.exists_cons_of_ne_nil hne
  have hc := h c List.mem_cons_self
  have hcs : ∀ d ∈ cs, isNumberChar d = true := fun d hd => h d (List.mem_cons_of_mem c hd)
  have hnone : rest.takeWhile isNumberChar = [] ∧ rest.dropWhile isNumberChar = rest := by
    cases rest with
    | nil => exact ⟨rfl, rfl⟩
    | cons d rest =>
      have hd := hrest d rfl
      exact ⟨List.takeWhile_cons_of_neg (by rw [hd]; nofun),
        List.dropWhile_cons_of_neg (by rw [hd]; nofun)⟩
  -- No other token starts with a character of a number.
  have hread : read? (c :: (cs ++ rest)) =
      (number? (c :: (cs ++ rest).takeWhile isNumberChar)).map
        (·, (cs ++ rest).dropWhile isNumberChar) := by
    rw [read?, if_pos hc] <;> (intros; subst_vars; exact absurd hc (by decide))
  rw [List.cons_append, hread, List.takeWhile_append_of_pos hcs, List.dropWhile_append_of_pos hcs,
    hnone.1, hnone.2, List.append_nil]

theorem head?_toDigits {n : Nat} (h : 0 < n) : (Nat.toDigits 10 n).head? ≠ some '0' := by
  intro hhead
  obtain ⟨ds, hds⟩ := List.head?_eq_some_iff.mp hhead
  have hdrop := dropWhile_toDigits h
  rw [hds, List.dropWhile_cons_of_pos rfl] at hdrop
  have hlen := (List.dropWhile_sublist (· == '0') (l := ds)).length_le
  rw [hdrop, List.length_cons] at hlen
  omega

/-- The digits of a number are an integer part with nothing behind it. -/
theorem afterInteger?_toDigits (n : Nat) : afterInteger? (Nat.toDigits 10 n) = some [] := by
  have hd : ∀ c ∈ Nat.toDigits 10 n, c.isDigit = true := fun c hc => Text.isDigit_of_mem_toDigits hc
  have hdigits : digits? (Nat.toDigits 10 n) = some (Nat.toDigits 10 n, []) := by
    unfold digits?
    simp only [List.takeWhile_eq_self_iff.mpr hd, List.dropWhile_eq_nil_iff.mpr hd]
    rw [if_neg]
    rw [List.isEmpty_iff]
    exact Nat.toDigits_ne_nil
  have hzero : ¬((Nat.toDigits 10 n).head? = some '0' ∧ (Nat.toDigits 10 n).length > 1) := by
    rintro ⟨hhead, hlen⟩
    rcases Nat.eq_zero_or_pos n with rfl | hpos
    · exact absurd hlen (by decide)
    · exact head?_toDigits hpos hhead
  unfold afterInteger?
  simp only [hdigits, Option.bind_eq_bind, Option.bind_some, if_neg hzero]
  rfl

theorem number?_toDigits (n : Nat) : number? (Nat.toDigits 10 n) = some (.int n) := by
  have hplain : ∀ body, Nat.toDigits 10 n ≠ '-' :: body := by
    intro body h
    have hminus : '-' ∈ Nat.toDigits 10 n := h ▸ List.mem_cons_self
    exact absurd (Text.isDigit_of_mem_toDigits hminus) (by decide)
  unfold number?
  split
  rename_i negative body heq
  split at heq
  · exact absurd ‹_› (hplain _)
  · cases heq
    simp only [afterInteger?_toDigits, Text.decimalValue_toDigits, Option.bind_eq_bind,
      Option.bind_some, List.isEmpty_nil, if_true, Bool.false_eq_true, if_false]
    rfl

theorem number?_neg_toDigits {n : Nat} (h : 0 < n) :
    number? ('-' :: Nat.toDigits 10 n) = some (.int (-n)) := by
  simp only [number?, afterInteger?_toDigits, Text.decimalValue_toDigits, Option.bind_eq_bind,
    Option.bind_some, List.isEmpty_nil, if_true, if_neg (Nat.ne_of_gt h)]
  rfl

theorem number?_toString (z : Int) : number? (toString z).toList = some (.int z) := by
  rcases Int.lt_or_le z 0 with hneg | hnonneg
  · rw [Text.toList_int_of_neg hneg, number?_neg_toDigits (Int.natAbs_pos.mpr (Int.ne_of_lt hneg)),
      Int.ofNat_natAbs_of_nonpos (Int.le_of_lt hneg), Int.neg_neg]
  · rw [Text.toList_int_of_nonneg hnonneg, number?_toDigits, Int.natAbs_of_nonneg hnonneg]

theorem read?_toString (z : Int) {rest : List Char} (hrest : Ends rest) :
    read? ((toString z).toList ++ rest) = some (.int z, rest) := by
  have hdigits : ∀ c ∈ Nat.toDigits 10 z.natAbs, isNumberChar c = true := by
    intro c hc
    simp only [isNumberChar, Text.isDigit_of_mem_toDigits hc, Bool.true_or]
  have hchars : (toString z).toList ≠ [] ∧ ∀ c ∈ (toString z).toList, isNumberChar c = true := by
    rcases Int.lt_or_le z 0 with hneg | hnonneg
    · rw [Text.toList_int_of_neg hneg]
      exact ⟨List.cons_ne_nil _ _, List.forall_mem_cons.mpr ⟨by decide, hdigits⟩⟩
    · rw [Text.toList_int_of_nonneg hnonneg]
      exact ⟨Nat.toDigits_ne_nil, hdigits⟩
  rw [read?_number hchars.1 hchars.2 hrest, number?_toString]
  rfl

/-! ## Rows of tokens -/

/-- No token starts with a blank. -/
theorem not_isSpace_of_read? {c : Char} {cs rest : List Char} {t : Token}
    (h : read? (c :: cs) = some (t, rest)) : isSpace c = false := by
  rw [Bool.eq_false_iff]
  intro hc
  simp only [isSpace, Bool.or_eq_true, beq_iff_eq] at hc
  rcases hc with ((rfl | rfl) | rfl) | rfl <;> simp [read?, isNumberChar] at h

theorem tokens?_of_read? {cs rest : List Char} {t : Token} (h : read? cs = some (t, rest)) :
    tokens? cs = (tokens? rest).map (t :: ·) := by
  cases cs with
  | nil => cases h
  | cons c cs =>
    rw [tokens?, if_neg (Bool.eq_false_iff.mp (not_isSpace_of_read? h))]
    split
    · rename_i hnone
      cases hnone.symm.trans h
    · rename_i hsome
      cases hsome.symm.trans h
      rfl

theorem tokens?_append_left {blanks rest : List Char} (h : ∀ c ∈ blanks, isSpace c = true) :
    tokens? (blanks ++ rest) = tokens? rest := by
  induction blanks with
  | nil => rfl
  | cons c blanks ih =>
    rw [List.cons_append, tokens?, if_pos (h c List.mem_cons_self)]
    exact ih fun d hd => h d (List.mem_cons_of_mem c hd)

end CellMachine.Json.Token
