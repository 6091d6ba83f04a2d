import Likeness.Proofs.Json.Writing
import Likeness.Proofs.Except

/-!
# Likeness.Proofs.Json.Soundness

What was read from text can be written. Every number in the reading of a text is an integer in range
or a finite real (`Json.readingOf_sound`), and that stays so when parts of the reading are taken for
values and read again (`Json.settle_writable`, `Json.reading_sound`).
-/

namespace Likeness.Json

mutual

/-- Every number in the reading has a text. -/
def Reading.Sound : Reading → Prop
  | .number n => n.Writable
  | .array items => items.Sound
  | .object members => members.Sound
  | _ => True

def Items.Sound : Items → Prop
  | .item head tail => head.Sound ∧ tail.Sound
  | _ => True

def Members.Sound : Members → Prop
  | .member _ value tail => value.Sound ∧ tail.Sound
  | _ => True

end

/-! ### Reading text -/

theorem NumberText.inRange_of_toInteger? {t : NumberText} {i : Int} (h : t.toInteger? = some i) :
    Number.inRange i = true := by
  unfold toInteger? at h
  split at h
  · cases h
  · obtain ⟨hrange, heq⟩ := Option.ite_none_right_eq_some.mp h
    rw [← Option.some.inj heq]
    exact hrange.1

theorem NumberText.value_writable {t : NumberText} {n : Number} (h : t.value = .ok n) :
    n.Writable := by
  unfold value at h
  split at h
  next i hi =>
    obtain rfl := Except.ok.inj h
    exact inRange_of_toInteger? hi
  next =>
    split at h
    next hfinite =>
      obtain rfl := Except.ok.inj h
      exact hfinite
    next => cases h

theorem readNumber_writable {cs rest : List Char} {n : Number} (h : readNumber cs = .ok (n, rest)) :
    n.Writable := by
  unfold readNumber at h
  obtain ⟨⟨t, rest'⟩, -, h⟩ := Except.bind_eq_ok.mp h
  obtain ⟨m, hvalue, h⟩ := Except.bind_eq_ok.mp h
  obtain ⟨rfl, -⟩ := Prod.mk.inj (Except.ok.inj h)
  exact NumberText.value_writable hvalue

theorem lexeme_sound {use : Except Fault (Reading × List Char)} {pass : Except Fault (List Char)}
    (h : ∀ found, use = .ok found → found.1.Sound) : (lexeme use pass).1.Sound := by
  unfold lexeme
  split
  next found => exact h found rfl
  next => trivial
  next => trivial

theorem scanNumber_sound (cs : List Char) : (scanNumber cs).1.Sound := by
  refine lexeme_sound fun found hfound => ?_
  obtain ⟨⟨n, rest⟩, hread, rfl⟩ := Except.map_eq_ok.mp hfound
  exact readNumber_writable hread

theorem scanString_sound (cs : List Char) : (scanString cs).1.Sound := by
  refine lexeme_sound fun found hfound => ?_
  obtain ⟨⟨s, rest⟩, -, rfl⟩ := Except.map_eq_ok.mp hfound
  trivial

theorem scanWord_sound {word : String} {value : Reading} (h : value.Sound) (cs : List Char) :
    (scanWord word value cs).1.Sound := by
  unfold scanWord
  split
  · exact h
  · trivial

theorem shallow_sound {depth : Nat} {r : Reading} (h : r.Sound) : (shallow depth r).Sound := by
  unfold shallow
  split
  · exact h
  · trivial

/-- Whatever the depth and the text, reading with some fuel gives sound readings. -/
structure SoundWith (fuel : Nat) : Prop where
  scan : ∀ depth cs, (scan depth fuel cs).1.Sound
  items : ∀ depth first cs, (scanItems depth first fuel cs).1.Sound
  members : ∀ depth first cs, (scanMembers depth first fuel cs).1.Sound

theorem SoundWith.scan_succ {fuel : Nat} (h : SoundWith fuel) (depth : Nat) (cs : List Char) :
    (Json.scan depth (fuel + 1) cs).1.Sound := by
  rw [Json.scan]
  split
  · trivial
  · exact scanWord_sound (show Reading.null.Sound from trivial) _
  · exact scanWord_sound (show (Reading.bool true).Sound from trivial) _
  · exact scanWord_sound (show (Reading.bool false).Sound from trivial) _
  · exact scanString_sound _
  · exact shallow_sound (h.items _ _ _)
  · exact shallow_sound (h.members _ _ _)
  · split
    · exact scanNumber_sound _
    · trivial

theorem SoundWith.items_succ {fuel : Nat} (h : SoundWith fuel) (depth : Nat) (first : Bool)
    (cs : List Char) : (scanItems depth first (fuel + 1) cs).1.Sound := by
  have hnext (cs : List Char) : (Items.item (Json.scan depth fuel cs).1
      (scanItems depth false fuel (Json.scan depth fuel cs).2).1).Sound :=
    ⟨h.scan depth cs, h.items depth false _⟩
  rw [scanItems]
  dsimp only
  split
  · trivial
  · trivial
  · split
    · exact hnext _
    · split
      · split
        · trivial
        · trivial
        · exact hnext _
      · trivial

theorem SoundWith.members_succ {fuel : Nat} (h : SoundWith fuel) (depth : Nat) (first : Bool)
    (cs : List Char) : (scanMembers depth first (fuel + 1) cs).1.Sound := by
  have hvalue (key : Except Fault String) (cs : List Char) : (Members.member key
      (Json.scan depth fuel cs).1 (scanMembers depth false fuel (Json.scan depth fuel cs).2).1).Sound :=
    ⟨h.scan depth cs, h.members depth false _⟩
  rw [scanMembers]
  dsimp only
  repeat' split
  all_goals first | exact hvalue _ _ | trivial

theorem soundWith (fuel : Nat) : SoundWith fuel := by
  induction fuel with
  | zero => exact ⟨fun _ _ => trivial, fun _ _ _ => trivial, fun _ _ _ => trivial⟩
  | succ fuel ih => exact ⟨ih.scan_succ, ih.items_succ, ih.members_succ⟩

/-- **The numbers in a reading of a text can be written.** -/
theorem readingOf_sound (text : String) : (readingOf text).1.Sound := (soundWith _).scan _ _

/-! ### Values taken from a reading -/

mutual

theorem settle_writable : {r : Reading} → {j : Json} → r.Sound → r.settle = .ok j → j.Writable
  | .null, _, _, h => by cases h; trivial
  | .bool _, _, _, h => by cases h; trivial
  | .number _, _, hr, h => by cases h; exact hr
  | .string _, _, _, h => by cases h; trivial
  | .array items, _, hr, h => by
      rw [Reading.settle] at h
      obtain ⟨js, hjs, h⟩ := Except.bind_eq_ok.mp h
      cases h
      exact settle_itemsWritable hr hjs
  | .object members, _, hr, h => by
      rw [Reading.settle] at h
      obtain ⟨ms, hms, h⟩ := Except.bind_eq_ok.mp h
      cases h
      exact settle_membersWritable hr hms
  | .flawed _ _, _, _, h => by cases h

theorem settle_itemsWritable : {items : Items} → {js : List Json} → items.Sound →
    items.settle = .ok js → ItemsWritable js
  | .close, _, _, h => by cases h; trivial
  | .broken _, _, _, h => by cases h
  | .item head tail, _, hitems, h => by
      rw [Items.settle] at h
      obtain ⟨j, hj, h⟩ := Except.bind_eq_ok.mp h
      obtain ⟨js, hjs, h⟩ := Except.bind_eq_ok.mp h
      cases h
      exact ⟨settle_writable hitems.1 hj, settle_itemsWritable hitems.2 hjs⟩

theorem settle_membersWritable : {members : Members} → {ms : List (String × Json)} →
    members.Sound → members.settle = .ok ms → MembersWritable ms
  | .close, _, _, h => by cases h; trivial
  | .broken _ _, _, _, h => by cases h
  | .member key value tail, _, hmembers, h => by
      rw [Members.settle] at h
      obtain ⟨k, -, h⟩ := Except.bind_eq_ok.mp h
      obtain ⟨j, hj, h⟩ := Except.bind_eq_ok.mp h
      obtain ⟨ms, hms, h⟩ := Except.bind_eq_ok.mp h
      cases h
      exact ⟨settle_writable hmembers.1 hj, settle_membersWritable hmembers.2 hms⟩

end

mutual

theorem reading_sound : {j : Json} → j.Writable → j.reading.Sound
  | .null, _ => trivial
  | .bool _, _ => trivial
  | .number _, h => h
  | .string _, _ => trivial
  | .array _, h => itemsReading_sound h
  | .object _, h => membersReading_sound h

theorem itemsReading_sound : {js : List Json} → ItemsWritable js → (itemsReading js).Sound
  | [], _ => trivial
  | _ :: _, h => ⟨reading_sound h.1, itemsReading_sound h.2⟩

theorem membersReading_sound : {ms : List (String × Json)} → MembersWritable ms →
    (membersReading ms).Sound
  | [], _ => trivial
  | (_, _) :: _, h => ⟨reading_sound h.1, membersReading_sound h.2⟩

end

end Likeness.Json
