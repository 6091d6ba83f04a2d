import Mathlib.Data.List.DropRight
import Likeness.Json.Reading
import Likeness.Proofs.Json.Lexeme

/-!
# Likeness.Proofs.Json.Spelling

Texts that stand for a value, however they are laid out (`Json.Spells`), are read as that value
(`Json.scan_of_spells`, `Json.readingOf_of_spells`). The value has to lie in what text can hold: its
integers are in range, its reals finite, and its containers not too deep for the reader.
-/

namespace Likeness.Json

/-! ### What text can hold -/

mutual

/-- Every number in the value has a text. -/
def Writable : Json → Prop
  | .number n => n.Writable
  | .array items => ItemsWritable items
  | .object members => MembersWritable members
  | _ => True

def ItemsWritable : List Json → Prop
  | [] => True
  | j :: js => j.Writable ∧ ItemsWritable js

def MembersWritable : List (String × Json) → Prop
  | [] => True
  | (_, j) :: ms => j.Writable ∧ MembersWritable ms

end

mutual

/-- How many containers lie inside each other. -/
def depth : Json → Nat
  | .array items => itemsDepth items + 1
  | .object members => membersDepth members + 1
  | _ => 0

def itemsDepth : List Json → Nat
  | [] => 0
  | j :: js => max j.depth (itemsDepth js)

def membersDepth : List (String × Json) → Nat
  | [] => 0
  | (_, j) :: ms => max j.depth (membersDepth ms)

end

mutual

/-- Enough fuel to read the value. -/
def weight : Json → Nat
  | .array items => itemsWeight items + 1
  | .object members => membersWeight members + 1
  | _ => 1

/-- Enough fuel to read the items and the closing bracket. -/
def itemsWeight : List Json → Nat
  | [] => 1
  | j :: js => j.weight + itemsWeight js + 1

def membersWeight : List (String × Json) → Nat
  | [] => 1
  | (_, j) :: ms => j.weight + membersWeight ms + 1

end

/-- The value has a text, with at most `n` containers inside each other. -/
structure FitsIn (n : Nat) (j : Json) : Prop where
  writable : j.Writable
  depth_le : j.depth ≤ n

namespace FitsIn

variable {n : Nat}

theorem mono {j : Json} {k : Nat} (h : FitsIn n j) (hk : n ≤ k) : FitsIn k j :=
  ⟨h.writable, h.depth_le.trans hk⟩

theorem null : FitsIn n .null := ⟨trivial, Nat.zero_le n⟩

theorem string (s : String) : FitsIn n (.string s) := ⟨trivial, Nat.zero_le n⟩

theorem int {i : Int} (h : Number.inRange i = true) : FitsIn n (.int i) := ⟨h, Nat.zero_le n⟩

theorem nat {m : Nat} (h : m < 0x10000000000000000) : FitsIn n (.nat m) := by
  refine int ?_
  simp only [Number.inRange, Bool.and_eq_true, decide_eq_true_eq]
  omega

theorem real (x : Binary64) : FitsIn n (.real x) := by
  rw [Json.real]
  split
  next h => exact ⟨h, Nat.zero_le n⟩
  next => exact null

theorem array {js : List Json} (h : ∀ j ∈ js, FitsIn n j) : FitsIn (n + 1) (.array js) := by
  have hitems : ItemsWritable js ∧ itemsDepth js ≤ n := by
    induction js with
    | nil => exact ⟨trivial, Nat.zero_le n⟩
    | cons j js ih =>
        have hhead := h j (by simp)
        have htail := ih fun k hk => h k (by simp [hk])
        exact ⟨⟨hhead.writable, htail.1⟩, Nat.max_le.mpr ⟨hhead.depth_le, htail.2⟩⟩
  exact ⟨hitems.1, Nat.succ_le_succ hitems.2⟩

theorem object {ms : List (String × Json)} (h : ∀ m ∈ ms, FitsIn n m.2) :
    FitsIn (n + 1) (.object ms) := by
  have hmembers : MembersWritable ms ∧ membersDepth ms ≤ n := by
    induction ms with
    | nil => exact ⟨trivial, Nat.zero_le n⟩
    | cons m ms ih =>
        have hhead := h m (by simp)
        have htail := ih fun k hk => h k (by simp [hk])
        exact ⟨⟨hhead.writable, htail.1⟩, Nat.max_le.mpr ⟨hhead.depth_le, htail.2⟩⟩
  exact ⟨hmembers.1, Nat.succ_le_succ hmembers.2⟩

theorem list {α : Type} {write : α → Json} {as : List α} (h : ∀ a ∈ as, FitsIn n (write a)) :
    FitsIn (n + 1) (.list write as) := by
  refine array fun j hj => ?_
  obtain ⟨a, ha, rfl⟩ := List.mem_map.mp hj
  exact h a ha

end FitsIn

/-! ### Spelling -/

mutual

/-- The text starts with one that stands for the value and goes on with `rest`. Between lexemes
there may be blanks, and a number is followed by something that it does not go on with. -/
inductive Spells : Json → (cs rest : List Char) → Prop
  | null (rest : List Char) : Spells .null ("null".toList ++ rest) rest
  | bool_true (rest : List Char) : Spells (.bool true) ("true".toList ++ rest) rest
  | bool_false (rest : List Char) : Spells (.bool false) ("false".toList ++ rest) rest
  | number {n : Number} {rest : List Char} (h : n.Writable) (hrest : Ends rest) :
    Spells (.number n) (n.text.toList ++ rest) rest
  | string (s : String) (rest : List Char) : Spells (.string s) (quote s rest) rest
  | array {items : List Json} {cs rest : List Char} (h : SpellsItems true items cs rest) :
    Spells (.array items) ('[' :: cs) rest
  | object {members : List (String × Json)} {cs rest : List Char}
    (h : SpellsMembers true members cs rest) : Spells (.object members) ('{' :: cs) rest

/-- The text goes on with these items and the closing bracket; `first` before the first item. -/
inductive SpellsItems : (first : Bool) → List Json → (cs rest : List Char) → Prop
  | close {first : Bool} {cs rest : List Char} (h : skipBlanks cs = ']' :: rest) :
    SpellsItems first [] cs rest
  | first {j : Json} {js : List Json} {cs middle rest : List Char}
    (hhead : Spells j (skipBlanks cs) middle) (htail : SpellsItems false js middle rest) :
    SpellsItems true (j :: js) cs rest
  | next {j : Json} {js : List Json} {cs middle rest : List Char} (after : List Char)
    (hcomma : skipBlanks cs = ',' :: after) (hhead : Spells j (skipBlanks after) middle)
    (htail : SpellsItems false js middle rest) : SpellsItems false (j :: js) cs rest

/-- The text goes on with these members and the closing bracket. -/
inductive SpellsMembers : (first : Bool) → List (String × Json) → (cs rest : List Char) → Prop
  | close {first : Bool} {cs rest : List Char} (h : skipBlanks cs = '}' :: rest) :
    SpellsMembers first [] cs rest
  | first {k : String} {j : Json} {ms : List (String × Json)} {cs middle rest : List Char}
    (after : List Char) (hkey : skipBlanks cs = quote k (':' :: after))
    (hvalue : Spells j (skipBlanks after) middle)
    (htail : SpellsMembers false ms middle rest) : SpellsMembers true ((k, j) :: ms) cs rest
  | next {k : String} {j : Json} {ms : List (String × Json)} {cs middle rest : List Char}
    (next after : List Char) (hcomma : skipBlanks cs = ',' :: next)
    (hkey : skipBlanks next = quote k (':' :: after)) (hvalue : Spells j (skipBlanks after) middle)
    (htail : SpellsMembers false ms middle rest) : SpellsMembers false ((k, j) :: ms) cs rest

end

/-! ### Blanks -/

theorem skipBlanks_cons {c : Char} (h : isBlank c = false) (cs : List Char) :
    skipBlanks (c :: cs) = c :: cs := by
  simp [skipBlanks, h]

theorem skipBlanks_skipBlanks (cs : List Char) : skipBlanks (skipBlanks cs) = skipBlanks cs :=
  List.dropWhile_idempotent _ cs

theorem length_skipBlanks_le (cs : List Char) : (skipBlanks cs).length ≤ cs.length :=
  (List.dropWhile_sublist isBlank).length_le

/-- The text of a value starts with neither a blank nor a closing bracket. -/
theorem Spells.exists_head {j : Json} {cs rest : List Char} (h : Spells j cs rest) :
    ∃ c after, cs = c :: after ∧ isBlank c = false ∧ c ≠ ']' := by
  cases h with
  | number h =>
      obtain ⟨c, after, htext, hc⟩ := exists_head_text h
      refine ⟨c, after ++ rest, by rw [htext]; rfl, ?_⟩
      rcases hc with rfl | hc
      · decide
      · constructor
        · by_contra hblank
          simp only [isBlank, Bool.not_eq_false, Bool.or_eq_true, decide_eq_true_eq] at hblank
          rcases hblank with ((rfl | rfl) | rfl) | rfl <;> exact absurd hc (by decide)
        · rintro rfl
          exact absurd hc (by decide)
  | _ => exact ⟨_, _, rfl, by decide, by decide⟩

/-- No blanks are passed over in front of a value. -/
theorem Spells.skipBlanks_eq {j : Json} {cs rest : List Char} (h : Spells j cs rest) :
    skipBlanks cs = cs := by
  obtain ⟨c, after, rfl, hblank, -⟩ := h.exists_head
  exact skipBlanks_cons hblank after

/-! ### Steps of the reader -/

section

variable {depth fuel : Nat} {cs after middle rest : List Char}

theorem scan_null (rest : List Char) : scan depth (fuel + 1) ("null".toList ++ rest) = (.null, rest) :=
  rfl

theorem scan_true (rest : List Char) :
    scan depth (fuel + 1) ("true".toList ++ rest) = (.bool true, rest) := rfl

theorem scan_false (rest : List Char) :
    scan depth (fuel + 1) ("false".toList ++ rest) = (.bool false, rest) := rfl

theorem scan_string (s : String) (rest : List Char) :
    scan depth (fuel + 1) (quote s rest) = (.string s, rest) := by
  have hread := readString_quote s.toList rest
  change scanString (s.toList.flatMap escape ++ '"' :: rest) = _
  rw [scanString, hread]
  simp [Except.map, lexeme]

theorem scan_number {n : Number} (h : n.Writable) (hrest : Ends rest) :
    scan depth (fuel + 1) (n.text.toList ++ rest) = (.number n, rest) := by
  have hread : scanNumber (n.text.toList ++ rest) = (.number n, rest) := by
    rw [scanNumber, readNumber_text h hrest]
    rfl
  obtain ⟨c, cs, htext, hc⟩ := exists_head_text h
  rw [htext, List.cons_append] at hread ⊢
  rw [← hread, scan]
  rcases hc with rfl | hc
  · rfl
  · have hother : ∀ d ∈ [' ', '\n', '\t', '\r', 'n', 't', 'f', '"', '[', '{'], c ≠ d := by
      rintro d hd rfl
      have hall : [' ', '\n', '\t', '\r', 'n', 't', 'f', '"', '[', '{'].all (fun d => !d.isDigit) =
          true := by decide +kernel
      have hdigit := List.all_eq_true.mp hall c hd
      simp [hc] at hdigit
    simp only [List.mem_cons, List.not_mem_nil, or_false, forall_eq_or_imp, forall_eq] at hother
    have hblank : isBlank c = false := by simp [isBlank, hother]
    simp [skipBlanks_cons hblank, isDigit_eq, hc, hother]

theorem scan_array {items : Items} (hdepth : depth + 1 < depthLimit)
    (hitems : scanItems (depth + 1) true fuel cs = (items, rest)) :
    scan depth (fuel + 1) ('[' :: cs) = (.array items, rest) := by
  rw [scan, skipBlanks_cons (by decide)]
  simp [hitems, shallow, hdepth]

theorem scan_object {members : Members} (hdepth : depth + 1 < depthLimit)
    (hmembers : scanMembers (depth + 1) true fuel cs = (members, rest)) :
    scan depth (fuel + 1) ('{' :: cs) = (.object members, rest) := by
  rw [scan, skipBlanks_cons (by decide)]
  simp [hmembers, shallow, hdepth]

/-- Blanks in front of a value are passed over. -/
theorem scan_skipBlanks (cs : List Char) : scan depth fuel (skipBlanks cs) = scan depth fuel cs := by
  cases fuel with
  | zero => rfl
  | succ fuel => rw [scan, scan, skipBlanks_skipBlanks]

theorem scanItems_close {first : Bool} (h : skipBlanks cs = ']' :: rest) :
    scanItems depth first (fuel + 1) cs = (.close, rest) := by
  rw [scanItems]
  simp [h]

theorem scanItems_first {j : Json} {head : Reading} {tail : Items}
    (h : Spells j (skipBlanks cs) middle) (hhead : scan depth fuel (skipBlanks cs) = (head, middle))
    (htail : scanItems depth false fuel middle = (tail, rest)) :
    scanItems depth true (fuel + 1) cs = (.item head tail, rest) := by
  obtain ⟨c, after, hcs, -, hclosing⟩ := h.exists_head
  rw [hcs] at hhead
  rw [scanItems]
  simp [hcs, hhead, htail]

theorem scanItems_next {j : Json} {head : Reading} {tail : Items}
    (hcomma : skipBlanks cs = ',' :: after) (h : Spells j (skipBlanks after) middle)
    (hhead : scan depth fuel (skipBlanks after) = (head, middle))
    (htail : scanItems depth false fuel middle = (tail, rest)) :
    scanItems depth false (fuel + 1) cs = (.item head tail, rest) := by
  obtain ⟨c, after', hafter, -, hclosing⟩ := h.exists_head
  rw [hafter] at hhead
  rw [scanItems]
  simp [hcomma, hafter, hhead, htail]

theorem scanMembers_close {first : Bool} (h : skipBlanks cs = '}' :: rest) :
    scanMembers depth first (fuel + 1) cs = (.close, rest) := by
  rw [scanMembers]
  simp [h]

theorem scanMembers_first {k : String} {value : Reading} {tail : Members}
    (h : skipBlanks cs = quote k (':' :: after)) (hvalue : scan depth fuel after = (value, middle))
    (htail : scanMembers depth false fuel middle = (tail, rest)) :
    scanMembers depth true (fuel + 1) cs = (.member (.ok k) value tail, rest) := by
  have hkey := readString_quote k.toList (':' :: after)
  rw [quote, List.cons_append] at h
  rw [scanMembers]
  simp [h, hkey, skipBlanks_cons, isBlank, hvalue, htail]

theorem scanMembers_next {k : String} {next : List Char} {value : Reading} {tail : Members}
    (hcomma : skipBlanks cs = ',' :: next) (h : skipBlanks next = quote k (':' :: after))
    (hvalue : scan depth fuel after = (value, middle))
    (htail : scanMembers depth false fuel middle = (tail, rest)) :
    scanMembers depth false (fuel + 1) cs = (.member (.ok k) value tail, rest) := by
  have hkey := readString_quote k.toList (':' :: after)
  rw [quote, List.cons_append] at h
  rw [scanMembers]
  simp [hcomma, h, hkey, skipBlanks_cons, isBlank, hvalue, htail]

end

/-! ### Values -/

mutual

/-- **A text that stands for a value is read as the value**, and reading stops where the text does. -/
theorem scan_of_spells {depth fuel : Nat} {cs rest : List Char} : {j : Json} → Spells j cs rest →
    depth + j.depth < depthLimit → j.weight ≤ fuel → scan depth fuel cs = (j.reading, rest)
  | _, .null rest, _, hfuel => by
      obtain ⟨fuel, rfl⟩ := Nat.exists_eq_add_of_le' hfuel
      exact scan_null rest
  | _, .bool_true rest, _, hfuel => by
      obtain ⟨fuel, rfl⟩ := Nat.exists_eq_add_of_le' hfuel
      exact scan_true rest
  | _, .bool_false rest, _, hfuel => by
      obtain ⟨fuel, rfl⟩ := Nat.exists_eq_add_of_le' hfuel
      exact scan_false rest
  | _, .number h hrest, _, hfuel => by
      obtain ⟨fuel, rfl⟩ := Nat.exists_eq_add_of_le' hfuel
      exact scan_number h hrest
  | _, .string s rest, _, hfuel => by
      obtain ⟨fuel, rfl⟩ := Nat.exists_eq_add_of_le' hfuel
      exact scan_string s rest
  | .array items, .array h, hdepth, hfuel => by
      simp only [Json.depth] at hdepth
      simp only [weight] at hfuel
      obtain ⟨fuel, rfl⟩ := Nat.exists_eq_add_of_le' (show 1 ≤ fuel by omega)
      exact scan_array (by omega) (scanItems_of_spells h (by omega) (by omega))
  | .object members, .object h, hdepth, hfuel => by
      simp only [Json.depth] at hdepth
      simp only [weight] at hfuel
      obtain ⟨fuel, rfl⟩ := Nat.exists_eq_add_of_le' (show 1 ≤ fuel by omega)
      exact scan_object (by omega) (scanMembers_of_spells h (by omega) (by omega))

theorem scanItems_of_spells {depth fuel : Nat} {first : Bool} {cs rest : List Char} :
    {js : List Json} → SpellsItems first js cs rest → depth + itemsDepth js < depthLimit →
      itemsWeight js ≤ fuel → scanItems depth first fuel cs = (itemsReading js, rest)
  | _, .close h, _, hfuel => by
      obtain ⟨fuel, rfl⟩ := Nat.exists_eq_add_of_le' hfuel
      exact scanItems_close h
  | j :: js, .first hhead htail, hdepth, hfuel => by
      simp only [itemsDepth] at hdepth
      simp only [itemsWeight] at hfuel
      obtain ⟨fuel, rfl⟩ := Nat.exists_eq_add_of_le' (show 1 ≤ fuel by omega)
      exact scanItems_first hhead (scan_of_spells hhead (by omega) (by omega))
        (scanItems_of_spells htail (by omega) (by omega))
  | j :: js, .next _ hcomma hhead htail, hdepth, hfuel => by
      simp only [itemsDepth] at hdepth
      simp only [itemsWeight] at hfuel
      obtain ⟨fuel, rfl⟩ := Nat.exists_eq_add_of_le' (show 1 ≤ fuel by omega)
      exact scanItems_next hcomma hhead (scan_of_spells hhead (by omega) (by omega))
        (scanItems_of_spells htail (by omega) (by omega))

theorem scanMembers_of_spells {depth fuel : Nat} {first : Bool} {cs rest : List Char} :
    {ms : List (String × Json)} → SpellsMembers first ms cs rest →
      depth + membersDepth ms < depthLimit → membersWeight ms ≤ fuel →
        scanMembers depth first fuel cs = (membersReading ms, rest)
  | _, .close h, _, hfuel => by
      obtain ⟨fuel, rfl⟩ := Nat.exists_eq_add_of_le' hfuel
      exact scanMembers_close h
  | (k, j) :: ms, .first _ hkey hvalue htail, hdepth, hfuel => by
      simp only [membersDepth] at hdepth
      simp only [membersWeight] at hfuel
      obtain ⟨fuel, rfl⟩ := Nat.exists_eq_add_of_le' (show 1 ≤ fuel by omega)
      have hread := scan_of_spells hvalue (show depth + j.depth < depthLimit by omega)
        (show j.weight ≤ fuel by omega)
      rw [scan_skipBlanks] at hread
      exact scanMembers_first hkey hread (scanMembers_of_spells htail (by omega) (by omega))
  | (k, j) :: ms, .next _ _ hcomma hkey hvalue htail, hdepth, hfuel => by
      simp only [membersDepth] at hdepth
      simp only [membersWeight] at hfuel
      obtain ⟨fuel, rfl⟩ := Nat.exists_eq_add_of_le' (show 1 ≤ fuel by omega)
      have hread := scan_of_spells hvalue (show depth + j.depth < depthLimit by omega)
        (show j.weight ≤ fuel by omega)
      rw [scan_skipBlanks] at hread
      exact scanMembers_next hcomma hkey hread (scanMembers_of_spells htail (by omega) (by omega))

end

/-! ### Whole texts -/

mutual

/-- A text is long enough for the fuel that its value takes. -/
theorem weight_lt_of_spells {cs rest : List Char} : {j : Json} → Spells j cs rest →
    j.weight + 2 * rest.length < 2 * cs.length
  | _, .null rest => by simp [weight]; omega
  | _, .bool_true rest => by simp [weight]; omega
  | _, .bool_false rest => by simp [weight]; omega
  | _, .number h _ => by
      obtain ⟨c, cs, htext, -⟩ := exists_head_text h
      simp [weight, htext]
      omega
  | _, .string s rest => by simp [weight, quote]; omega
  | _, .array h => by
      have hitems := itemsWeight_lt_of_spells h
      simp only [weight, List.length_cons]
      omega
  | _, .object h => by
      have hmembers := membersWeight_lt_of_spells h
      simp only [weight, List.length_cons]
      omega

theorem itemsWeight_lt_of_spells {first : Bool} {cs rest : List Char} : {js : List Json} →
    SpellsItems first js cs rest → itemsWeight js + 2 * rest.length < 2 * cs.length
  | _, .close h => by
      have hlength := length_skipBlanks_le cs
      rw [h, List.length_cons] at hlength
      simp only [itemsWeight]
      omega
  | _, .first hhead htail => by
      have hlength := length_skipBlanks_le cs
      have hhere := weight_lt_of_spells hhead
      have hthen := itemsWeight_lt_of_spells htail
      simp only [itemsWeight]
      omega
  | _, .next after hcomma hhead htail => by
      have hlength := length_skipBlanks_le cs
      have hblanks := length_skipBlanks_le after
      rw [hcomma, List.length_cons] at hlength
      have hhere := weight_lt_of_spells hhead
      have hthen := itemsWeight_lt_of_spells htail
      simp only [itemsWeight]
      omega

theorem membersWeight_lt_of_spells {first : Bool} {cs rest : List Char} :
    {ms : List (String × Json)} → SpellsMembers first ms cs rest →
      membersWeight ms + 2 * rest.length < 2 * cs.length
  | _, .close h => by
      have hlength := length_skipBlanks_le cs
      rw [h, List.length_cons] at hlength
      simp only [membersWeight]
      omega
  | _, .first after hkey hvalue htail => by
      have hlength := length_skipBlanks_le cs
      have hblanks := length_skipBlanks_le after
      rw [hkey] at hlength
      have hhere := weight_lt_of_spells hvalue
      have hthen := membersWeight_lt_of_spells htail
      simp [membersWeight, quote] at *
      omega
  | _, .next next after hcomma hkey hvalue htail => by
      have hlength := length_skipBlanks_le cs
      have hblanks := length_skipBlanks_le after
      have hname := length_skipBlanks_le next
      rw [hcomma, List.length_cons] at hlength
      rw [hkey] at hname
      have hhere := weight_lt_of_spells hvalue
      have hthen := membersWeight_lt_of_spells htail
      simp [membersWeight, quote] at *
      omega

end

/-- **A text that stands for a value is read as that value, and nothing is left over.** -/
theorem readingOf_of_spells {j : Json} {text : String} (h : Spells j text.toList [])
    (hdepth : j.depth < depthLimit) : readingOf text = (j.reading, []) := by
  have hweight := weight_lt_of_spells h
  exact scan_of_spells h (by omega) (by simp at hweight; omega)

mutual

/-- A value that is already there has no faults. -/
theorem settle_reading : (j : Json) → j.reading.settle = .ok j
  | .null => rfl
  | .bool _ => rfl
  | .number _ => rfl
  | .string _ => rfl
  | .array items => by
      rw [reading, Reading.settle, settle_itemsReading items]
      rfl
  | .object members => by
      rw [reading, Reading.settle, settle_membersReading members]
      rfl

theorem settle_itemsReading : (js : List Json) → (itemsReading js).settle = .ok js
  | [] => rfl
  | j :: js => by
      rw [itemsReading, Items.settle, settle_reading j, settle_itemsReading js]
      rfl

theorem settle_membersReading : (ms : List (String × Json)) → (membersReading ms).settle = .ok ms
  | [] => rfl
  | (k, j) :: ms => by
      rw [membersReading, Members.settle, settle_reading j, settle_membersReading ms]
      rfl

end

end Likeness.Json
