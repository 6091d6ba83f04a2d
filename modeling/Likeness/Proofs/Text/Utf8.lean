import Mathlib.Tactic.SplitIfs
import Likeness.Text.Utf8

/-!
# Likeness.Proofs.Text.Utf8

The bytes of a text are well formed, and they are decoded to that text (`Text.Utf8.decode_toUTF8`).
-/

namespace Likeness.Text.Utf8

/-! ### Bytes as a list -/

theorem toList_loop (bytes : ByteArray) (i : Nat) (taken : List UInt8) :
    ByteArray.toList.loop bytes i taken = taken.reverse ++ bytes.data.toList.drop i := by
  induction i, taken using ByteArray.toList.loop.induct bytes with
  | case1 i taken h ih =>
      have hi : i < bytes.data.toList.length := by simpa using h
      have hget : bytes.get! i = bytes.data.toList[i] := getElem!_pos bytes.data i h
      rw [ByteArray.toList.loop, if_pos h, ih, List.drop_eq_getElem_cons hi, hget]
      simp
  | case2 i taken h =>
      rw [ByteArray.toList.loop, if_neg h, List.drop_eq_nil_of_le (by simpa using h)]
      simp

theorem toList_toUTF8 (s : String) : s.toUTF8.toList = s.toList.flatMap String.utf8EncodeChar := by
  have hbytes : s.toUTF8 = s.toList.utf8Encode := by
    rw [String.toUTF8_eq_toByteArray, String.utf8Encode_toList]
  rw [hbytes, ByteArray.toList, toList_loop, List.utf8Encode, List.data_toByteArray]
  simp

/-! ### Characters -/

section

variable {index taken : Nat} {tail : Tail} {b : UInt8} {rest : List UInt8}

theorem scan_first {t : Tail} (h : tailOf b = some t) (howed : t.owed ≠ 0) :
    scan index 0 tail (b :: rest) = scan index 1 t rest := by
  rw [scan, if_pos rfl, h]
  exact if_neg howed

theorem scan_single {t : Tail} (h : tailOf b = some t) (howed : t.owed = 0) :
    scan index 0 tail (b :: rest) = scan (index + 1) 0 t rest := by
  rw [scan, if_pos rfl, h]
  exact if_pos howed

theorem scan_more (htaken : taken ≠ 0) (howed : 1 < tail.owed) (hb : tail.low ≤ b ∧ b ≤ tail.high) :
    scan index taken tail (b :: rest) =
      scan index (taken + 1) ⟨tail.owed - 1, 0x80, 0xBF⟩ rest := by
  rw [scan, if_neg htaken, if_pos hb, if_neg (by omega)]

theorem scan_last (htaken : taken ≠ 0) (howed : tail.owed ≤ 1) (hb : tail.low ≤ b ∧ b ≤ tail.high) :
    scan index taken tail (b :: rest) = scan (index + taken + 1) 0 tail rest := by
  rw [scan, if_neg htaken, if_pos hb, if_pos howed]

end

/-- What may follow a first byte, by its number. -/
theorem tailOf_ofNat {n : Nat} (h : n < 256) : tailOf (UInt8.ofNat n) =
    if n < 0x80 then some ⟨0, 0x80, 0xBF⟩
    else if n < 0xC2 then none
    else if n < 0xE0 then some ⟨1, 0x80, 0xBF⟩
    else if n = 0xE0 then some ⟨2, 0xA0, 0xBF⟩
    else if n = 0xED then some ⟨2, 0x80, 0x9F⟩
    else if n < 0xF0 then some ⟨2, 0x80, 0xBF⟩
    else if n = 0xF0 then some ⟨3, 0x90, 0xBF⟩
    else if n < 0xF4 then some ⟨3, 0x80, 0xBF⟩
    else if n = 0xF4 then some ⟨3, 0x80, 0x8F⟩
    else none := by
  simp [tailOf, UInt8.lt_iff_toNat_lt, ← UInt8.toNat_inj, Nat.mod_eq_of_lt h]

/-- A byte between two others. -/
theorem between_ofNat {n low high : Nat} (hlow : low ≤ n) (hhigh : n ≤ high)
    (h : high < 256) : UInt8.ofNat low ≤ UInt8.ofNat n ∧ UInt8.ofNat n ≤ UInt8.ofNat high := by
  simp only [UInt8.le_iff_toNat_le, UInt8.toNat_ofNat']
  omega

/-- The bytes after the first. -/
theorem between_tail (n : Nat) :
    (0x80 : UInt8) ≤ UInt8.ofNat (n % 64 + 128) ∧ UInt8.ofNat (n % 64 + 128) ≤ 0xBF :=
  @between_ofNat _ 0x80 0xBF (by omega) (by omega) (by decide)

/-- After the first of three bytes, overlong forms and surrogates are excluded. -/
theorem exists_tail_three {v : Nat} (hlow : 2048 ≤ v) (hhigh : v < 65536)
    (hvalid : v < 0xd800 ∨ 0xdfff < v) :
    ∃ t, tailOf (UInt8.ofNat (v / 4096 % 16 + 224)) = some t ∧ t.owed = 2 ∧
      t.low ≤ UInt8.ofNat (v / 64 % 64 + 128) ∧ UInt8.ofNat (v / 64 % 64 + 128) ≤ t.high := by
  rw [tailOf_ofNat (by omega), if_neg (by omega), if_neg (by omega), if_neg (by omega)]
  split_ifs
  · exact ⟨_, rfl, rfl, @between_ofNat _ 0xA0 0xBF (by omega) (by omega) (by decide)⟩
  · exact ⟨_, rfl, rfl, @between_ofNat _ 0x80 0x9F (by omega) (by omega) (by decide)⟩
  · exact ⟨_, rfl, rfl, between_tail _⟩
  all_goals omega

/-- After the first of four bytes, overlong forms and what is no code point are excluded. -/
theorem exists_tail_four {v : Nat} (hlow : 65536 ≤ v) (hhigh : v < 0x110000) :
    ∃ t, tailOf (UInt8.ofNat (v / 262144 % 8 + 240)) = some t ∧ t.owed = 3 ∧
      t.low ≤ UInt8.ofNat (v / 4096 % 64 + 128) ∧ UInt8.ofNat (v / 4096 % 64 + 128) ≤ t.high := by
  rw [tailOf_ofNat (by omega), if_neg (by omega), if_neg (by omega), if_neg (by omega),
    if_neg (by omega), if_neg (by omega), if_neg (by omega)]
  split_ifs
  · exact ⟨_, rfl, rfl, @between_ofNat _ 0x90 0xBF (by omega) (by omega) (by decide)⟩
  · exact ⟨_, rfl, rfl, between_tail _⟩
  · exact ⟨_, rfl, rfl, @between_ofNat _ 0x80 0x8F (by omega) (by omega) (by decide)⟩
  all_goals omega

/-- The bytes of a character are read as one. -/
theorem scan_utf8EncodeChar (c : Char) (index : Nat) (tail : Tail) (rest : List UInt8) :
    ∃ index' tail', scan index 0 tail (String.utf8EncodeChar c ++ rest) =
      scan index' 0 tail' rest := by
  have hvalid : c.val.toNat < 0xd800 ∨ 0xdfff < c.val.toNat ∧ c.val.toNat < 0x110000 := c.valid
  unfold String.utf8EncodeChar
  generalize c.val.toNat = v at *
  dsimp only
  split_ifs with hone htwo hthree
  · have hfirst : tailOf (UInt8.ofNat v) = some ⟨0, 0x80, 0xBF⟩ := by
      rw [tailOf_ofNat (by omega), if_pos (by omega)]
    exact ⟨_, _, scan_single hfirst rfl⟩
  · have hfirst : tailOf (UInt8.ofNat (v / 64 % 32 + 192)) = some ⟨1, 0x80, 0xBF⟩ := by
      rw [tailOf_ofNat (by omega), if_neg (by omega), if_neg (by omega), if_pos (by omega)]
    exact ⟨_, _, (scan_first hfirst (by decide)).trans
      (scan_last (by decide) (by decide) (between_tail v))⟩
  · obtain ⟨t, hfirst, howed, hsecond⟩ := exists_tail_three (v := v) (by omega) (by omega) (by omega)
    exact ⟨_, _, (scan_first hfirst (by omega)).trans ((scan_more (by decide) (by omega) hsecond).trans
      (scan_last (by decide) (by dsimp only; omega) (between_tail v)))⟩
  · obtain ⟨t, hfirst, howed, hsecond⟩ := exists_tail_four (v := v) (by omega) (by omega)
    exact ⟨_, _, (scan_first hfirst (by omega)).trans ((scan_more (by decide) (by omega) hsecond).trans
      ((scan_more (by decide) (by dsimp only; omega) (between_tail _)).trans
        (scan_last (by decide) (by dsimp only; omega) (between_tail v))))⟩

/-- The bytes of a text have no fault. -/
theorem scan_flatMap (cs : List Char) (index : Nat) (tail : Tail) :
    scan index 0 tail (cs.flatMap String.utf8EncodeChar) = none := by
  induction cs generalizing index tail with
  | nil => rfl
  | cons c cs ih =>
      obtain ⟨index', tail', h⟩ := scan_utf8EncodeChar c index tail
        (cs.flatMap String.utf8EncodeChar)
      rw [List.flatMap_cons, h, ih]

/-- **The bytes of a text are decoded to that text.** -/
theorem decode_toUTF8 (s : String) : decode s.toUTF8 = .ok s := by
  have hfault : fault? s.toUTF8 = none := by
    rw [fault?, toList_toUTF8]
    exact scan_flatMap s.toList 0 _
  have htext : String.fromUTF8? s.toUTF8 = some s := dif_pos s.isValidUTF8
  rw [decode, hfault, htext]
  rfl

end Likeness.Text.Utf8
