import Likeness.Proofs.Json.Spelling

/-!
# Likeness.Proofs.Json.Writing

Both texts of a value, the compact one and the one on several lines, stand for it
(`Json.spells_write`, `Json.spells_writeIndented`), so either reads back as the value it was written
for (`Json.readingOf_text`, `Json.readingOf_indented`).
-/

namespace Likeness.Json

/-! ### Compact text -/

theorem ends_writeItems (js : List Json) {rest : List Char} (h : Ends rest) :
    Ends (writeItems js rest) := by
  cases js with
  | nil => exact h
  | cons j js =>
      rintro c ⟨⟩
      decide

theorem ends_writeMembers (ms : List (String × Json)) {rest : List Char} (h : Ends rest) :
    Ends (writeMembers ms rest) := by
  cases ms with
  | nil => exact h
  | cons m ms =>
      rintro c ⟨⟩
      decide

theorem ends_bracket {c : Char} (hc : c = ']' ∨ c = '}') (rest : List Char) : Ends (c :: rest) := by
  rintro d ⟨⟩
  rcases hc with rfl | rfl <;> decide

mutual

/-- **The compact text of a value stands for it.** -/
theorem spells_write {rest : List Char} (hrest : Ends rest) : {j : Json} → j.Writable →
    Spells j (j.write rest) rest
  | .null, _ => .null rest
  | .bool true, _ => .bool_true rest
  | .bool false, _ => .bool_false rest
  | .number _, h => .number h hrest
  | .string s, _ => .string s rest
  | .array [], _ => .array (.close (skipBlanks_cons (by decide) _))
  | .array (j :: js), h => by
      have hhead := spells_write (ends_writeItems js (ends_bracket (.inl rfl) rest)) h.1
      exact .array (.first (hhead.skipBlanks_eq.symm ▸ hhead) (spellsItems_write h.2))
  | .object [], _ => .object (.close (skipBlanks_cons (by decide) _))
  | .object ((k, j) :: ms), h => by
      have hvalue := spells_write (ends_writeMembers ms (ends_bracket (.inr rfl) rest)) h.1
      exact .object (.first _ (skipBlanks_cons (by decide) _) (hvalue.skipBlanks_eq.symm ▸ hvalue)
        (spellsMembers_write h.2))

/-- The items after the first, up to the closing bracket. -/
theorem spellsItems_write {rest : List Char} : {js : List Json} → ItemsWritable js →
    SpellsItems false js (writeItems js (']' :: rest)) rest
  | [], _ => .close (skipBlanks_cons (by decide) _)
  | j :: js, h => by
      have hhead := spells_write (ends_writeItems js (ends_bracket (.inl rfl) rest)) h.1
      exact .next _ (skipBlanks_cons (by decide) _) (hhead.skipBlanks_eq.symm ▸ hhead)
        (spellsItems_write h.2)

/-- The members after the first, up to the closing bracket. -/
theorem spellsMembers_write {rest : List Char} : {ms : List (String × Json)} →
    MembersWritable ms → SpellsMembers false ms (writeMembers ms ('}' :: rest)) rest
  | [], _ => .close (skipBlanks_cons (by decide) _)
  | (k, j) :: ms, h => by
      have hvalue := spells_write (ends_writeMembers ms (ends_bracket (.inr rfl) rest)) h.1
      exact .next _ _ (skipBlanks_cons (by decide) _) (skipBlanks_cons (by decide) _)
        (hvalue.skipBlanks_eq.symm ▸ hvalue) (spellsMembers_write h.2)

end

/-! ### Indented text -/

theorem skipBlanks_newline (level : Nat) (cs : List Char) :
    skipBlanks (newline level cs) = skipBlanks cs := by
  have hblank : ∀ c ∈ List.replicate (2 * level) ' ', isBlank c = true := by
    intro c hc
    rw [List.eq_of_mem_replicate hc]
    rfl
  unfold skipBlanks newline
  rw [List.cons_append, List.dropWhile_cons_of_pos rfl, List.dropWhile_append_of_pos hblank]

theorem ends_newline (level : Nat) (cs : List Char) : Ends (newline level cs) := by
  rintro c ⟨⟩
  decide

theorem ends_writeIndentedItems (level : Nat) (js : List Json) {rest : List Char} (h : Ends rest) :
    Ends (writeIndentedItems level js rest) := by
  cases js with
  | nil => exact h
  | cons j js =>
      rintro c ⟨⟩
      decide

theorem ends_writeIndentedMembers (level : Nat) (ms : List (String × Json)) {rest : List Char}
    (h : Ends rest) : Ends (writeIndentedMembers level ms rest) := by
  cases ms with
  | nil => exact h
  | cons m ms =>
      rintro c ⟨⟩
      decide

/-- A value may stand on a line of its own. -/
theorem Spells.newline {j : Json} {cs rest : List Char} (h : Spells j cs rest) (level : Nat) :
    Spells j (skipBlanks (Json.newline level cs)) rest := by
  rwa [skipBlanks_newline, h.skipBlanks_eq]

/-- A value may stand behind the blank that follows its name. -/
theorem Spells.blank {j : Json} {cs rest : List Char} (h : Spells j cs rest) :
    Spells j (skipBlanks (' ' :: cs)) rest := by
  have hblank : skipBlanks (' ' :: cs) = cs := h.skipBlanks_eq
  rwa [hblank]

mutual

/-- **The indented text of a value stands for it.** -/
theorem spells_writeIndented (level : Nat) {rest : List Char} (hrest : Ends rest) :
    {j : Json} → j.Writable → Spells j (j.writeIndented level rest) rest
  | .null, _ => .null rest
  | .bool true, _ => .bool_true rest
  | .bool false, _ => .bool_false rest
  | .number _, h => .number h hrest
  | .string s, _ => .string s rest
  | .array [], _ => .array (.close (skipBlanks_cons (by decide) _))
  | .array (j :: js), h => by
      have hhead := spells_writeIndented (level + 1)
        (ends_writeIndentedItems level js (ends_newline level (']' :: rest))) h.1
      exact .array (.first (hhead.newline _) (spellsItems_writeIndented level h.2))
  | .object [], _ => .object (.close (skipBlanks_cons (by decide) _))
  | .object ((k, j) :: ms), h => by
      have hvalue := spells_writeIndented (level + 1)
        (ends_writeIndentedMembers level ms (ends_newline level ('}' :: rest))) h.1
      exact .object (.first _ (skipBlanks_newline _ _) hvalue.blank
        (spellsMembers_writeIndented level h.2))

/-- The items after the first, up to the closing bracket. -/
theorem spellsItems_writeIndented (level : Nat) {rest : List Char} : {js : List Json} →
    ItemsWritable js →
      SpellsItems false js (writeIndentedItems level js (newline level (']' :: rest))) rest
  | [], _ => .close (skipBlanks_newline level _)
  | j :: js, h => by
      have hhead := spells_writeIndented (level + 1)
        (ends_writeIndentedItems level js (ends_newline level (']' :: rest))) h.1
      exact .next _ (skipBlanks_cons (by decide) _) (hhead.newline _)
        (spellsItems_writeIndented level h.2)

/-- The members after the first, up to the closing bracket. -/
theorem spellsMembers_writeIndented (level : Nat) {rest : List Char} :
    {ms : List (String × Json)} → MembersWritable ms →
      SpellsMembers false ms (writeIndentedMembers level ms (newline level ('}' :: rest))) rest
  | [], _ => .close (skipBlanks_newline level _)
  | (k, j) :: ms, h => by
      have hvalue := spells_writeIndented (level + 1)
        (ends_writeIndentedMembers level ms (ends_newline level ('}' :: rest))) h.1
      exact .next _ _ (skipBlanks_cons (by decide) _) (skipBlanks_newline _ _) hvalue.blank
        (spellsMembers_writeIndented level h.2)

end

/-! ### Whole texts -/

theorem ends_nil : Ends [] := by
  rintro c ⟨⟩

/-- **The compact text of a value is read as that value, and nothing is left over.** -/
theorem readingOf_text {j : Json} (h : j.Writable) (hdepth : j.depth < depthLimit) :
    readingOf j.text = (j.reading, []) := by
  refine readingOf_of_spells ?_ hdepth
  rw [text, String.toList_ofList]
  exact spells_write ends_nil h

/-- **The indented text of a value is read as that value, and nothing is left over.** -/
theorem readingOf_indented {j : Json} (h : j.Writable) (hdepth : j.depth < depthLimit) :
    readingOf j.indented = (j.reading, []) := by
  refine readingOf_of_spells ?_ hdepth
  rw [indented, String.toList_ofList]
  exact spells_writeIndented 0 ends_nil h

/-- The texts that are written for a value: the compact one, and the one on several lines. -/
def texts (j : Json) : List String := [j.text, j.indented]

theorem text_mem_texts (j : Json) : j.text ∈ j.texts := List.mem_cons_self

theorem indented_mem_texts (j : Json) : j.indented ∈ j.texts :=
  List.mem_cons_of_mem _ List.mem_cons_self

/-- A value of so few levels is read from both of its texts. -/
theorem FitsIn.readingOf {n : Nat} {j : Json} (h : FitsIn n j) (hn : n < depthLimit) {text : String}
    (htext : text ∈ j.texts) : readingOf text = (j.reading, []) := by
  have hdepth : j.depth < depthLimit := h.depth_le.trans_lt hn
  obtain rfl | rfl : text = j.text ∨ text = j.indented := by simpa [texts] using htext
  · exact readingOf_text h.writable hdepth
  · exact readingOf_indented h.writable hdepth

end Likeness.Json
