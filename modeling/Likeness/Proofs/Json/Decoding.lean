import Likeness.Json.Decode
import Likeness.Proofs.Json.Soundness

/-!
# Likeness.Proofs.Json.Decoding

Decoders of values that were written, and of values that can be written.

A decoder finds in the reading of a written value the value that was written, wherever the reading
comes from (`Json.Decode.Inverts`). Where a part has no text, as a real that is not finite has none,
it may find nothing, but still nothing else (`Json.Decode.Recovers`). In the other direction, what a decoder gives of any text has what
its parts need to have (`Json.Decode.Yields`): its reals are finite.
-/

namespace Likeness.Json

variable {α β σ : Type}

namespace Decode

/-- The decoder finds the value in what was written for it. -/
def Inverts (decode : Decoder α) (j : Json) (a : α) : Prop := ∀ o, decode o j.reading = .ok a

/-! ### Leaves -/

theorem inverts_integer (name : String) {low limit i : Int} (hlow : low ≤ i) (hlimit : i < limit) :
    Inverts (integer name low limit) (.int i) i := fun _ => if_pos ⟨hlow, hlimit⟩

/-- A natural number is found as the value that is made of it. -/
theorem inverts_nat (name : String) (make : Nat → α) {limit : Int} {n : Nat} (h : (n : Int) < limit) :
    Inverts (fun o r => return make (← integer name 0 limit o r).toNat) (.nat n) (make n) := by
  intro o
  have hread := inverts_integer name (Int.natCast_nonneg n) h o
  simp only [show Json.nat n = .int n from rfl, hread]
  rfl

theorem inverts_uint32 (n : UInt32) : Inverts uint32 (.nat n.toNat) n := by
  have hlt : (n.toNat : Int) < 0x100000000 := by exact_mod_cast n.toNat_lt
  have hread := inverts_nat "u32" UInt32.ofNat hlt
  rwa [UInt32.ofNat_toNat] at hread

theorem inverts_uint64 (n : UInt64) : Inverts uint64 (.nat n.toNat) n := by
  have hlt : (n.toNat : Int) < 0x10000000000000000 := by exact_mod_cast n.toNat_lt
  have hread := inverts_nat "u64" UInt64.ofNat hlt
  rwa [UInt64.ofNat_toNat] at hread

theorem inverts_int64 (n : Int64) : Inverts int64 (.int n.toInt) n := by
  intro o
  have hread := inverts_integer "i64" n.le_toInt n.toInt_lt o
  rw [int64, show (-0x8000000000000000 : Int) = -2 ^ 63 by decide,
    show (0x8000000000000000 : Int) = 2 ^ 63 by decide, hread]
  simp [bind, Except.bind, pure, Except.pure]

theorem inverts_binary64 {x : Binary64} (h : x.isFinite = true) : Inverts binary64 (.real x) x := by
  intro o
  rw [Json.real, if_pos h]
  rfl

theorem inverts_stringAs (expected s : String) : Inverts (stringAs expected) (.string s) s :=
  fun _ => rfl

theorem inverts_optional_string (s : Option String) :
    Inverts (optional string) (.option .string s) s := by
  intro o
  cases s <;> rfl

/-! ### Lists -/

theorem inverts_many {decode : Decoder α} {write : α → Json} {as : List α}
    (h : ∀ a ∈ as, Inverts decode (write a) a) : Inverts (many decode) (.list write as) as := by
  intro o
  change allItems (decode o) (itemsReading (as.map write)) = _
  induction as with
  | nil => rfl
  | cons a as ih =>
      have hhead := h a (by simp) o
      have htail := ih fun b hb => h b (by simp [hb])
      rw [List.map_cons, itemsReading, allItems, hhead, htail]
      rfl

theorem inverts_pair {first : Decoder α} {second : Decoder β} {x y : Json} {a : α} {b : β}
    (hfirst : Inverts first x a) (hsecond : Inverts second y b) :
    Inverts (pair first second) (.array [x, y]) (a, b) := by
  intro o
  simp [pair, reading, itemsReading, hfirst o, hsecond o, expectEnd, bind, Except.bind, pure,
    Except.pure]

/-! ### Maps -/

theorem inverts_dictionary {decode : Decoder α} (write : α → Json) {es : List (String × α)}
    (h : ∀ e ∈ es, Inverts decode (write e.2) e.2) :
    Inverts (dictionary decode) (.object (es.map fun e => (e.1, write e.2))) es := by
  intro o
  change allMembers (decode o) (membersReading (es.map fun e => (e.1, write e.2))) = _
  induction es with
  | nil => rfl
  | cons e es ih =>
      obtain ⟨k, a⟩ := e
      have hhead := h (k, a) (by simp) o
      have htail := ih fun e he => h e (by simp [he])
      rw [List.map_cons, membersReading, allMembers, hhead, htail]
      rfl

/-! ### Records -/

theorem record_object (name : String) (slots : List (Slot σ)) (blank : σ)
    (complete : σ → Except Mismatch α) (o : Origin) (ms : List (String × Json)) :
    record name slots blank complete o (Json.object ms).reading =
      fillNamed o slots blank (membersReading ms) >>= complete := rfl

/-- A member fills the slot of its name. -/
theorem fillNamed_slot {o : Origin} {slots : List (Slot σ)} {s : σ} {k : String} {j : Json} {a : α}
    {ms : List (String × Json)} {get : σ → Option α} {set : σ → Option α → σ} {decode : Decoder α}
    {spare : Bool} (hslot : slots.find? (·.name = k) = some (slot k get set decode spare))
    (hempty : get s = none) (ha : Inverts decode j a) :
    fillNamed o slots s (membersReading ((k, j) :: ms)) =
      fillNamed o slots (set s (some a)) (membersReading ms) := by
  rw [membersReading, fillNamed, show (Except.ok k : Except Fault String).mapError Mismatch.fault =
    .ok k from rfl]
  simp [hslot, slot, hempty, ha o, bind, Except.bind, pure, Except.pure]

/-! ### Choices -/

/-- Members that are not the tag are kept as they are. -/
theorem taggedMembers_others {o : Origin} {tag : String} {known : List String} {found : Option Nat}
    {ms : List (String × Json)} (h : ∀ m ∈ ms, m.1 ≠ tag) :
    taggedMembers o tag known found (membersReading ms) = .ok (found, ms) := by
  induction ms with
  | nil => rfl
  | cons m ms ih =>
      obtain ⟨k, j⟩ := m
      have hk : k ≠ tag := h (k, j) (by simp)
      have htail := ih fun m hm => h m (by simp [hm])
      rw [membersReading, taggedMembers, settle_reading, show (Except.ok k : Except Fault
        String).mapError Mismatch.fault = .ok k from rfl, show (Except.ok j : Except Fault
        Json).mapError Mismatch.fault = .ok j from rfl]
      simp [hk, htail, bind, Except.bind, pure, Except.pure]

/-- A tagged value is left to the decoder of its variant. -/
theorem tagged_object {name tag variant : String} {known : List String} {content : Nat → Decoder α}
    {ms : List (String × Json)} {i : Nat} {o : Origin}
    (hvariant : known.findIdx? (· = variant) = some i) (hms : ∀ m ∈ ms, m.1 ≠ tag) :
    tagged name tag known content o (Json.object ((tag, .string variant) :: ms)).reading =
      content i .buffer (Json.object ms).reading := by
  have hindex : variantName known o (.string variant) = .ok i := by
    cases o <;> simp [variantName, indexOf, hvariant]
  have hmembers : taggedMembers o tag known none (membersReading ((tag, .string variant) :: ms)) =
      .ok (some i, ms) := by
    rw [membersReading, taggedMembers, show (Except.ok tag : Except Fault String).mapError
      Mismatch.fault = .ok tag from rfl, show (Json.string variant).reading = .string variant from rfl]
    simp [hindex, taggedMembers_others hms, bind, Except.bind]
  rw [reading, tagged, hmembers]
  rfl

theorem inverts_tagged {name tag variant : String} {known : List String}
    {content : Nat → Decoder α} {ms : List (String × Json)} {i : Nat} {a : α}
    (hvariant : known.findIdx? (· = variant) = some i) (hms : ∀ m ∈ ms, m.1 ≠ tag)
    (ha : Inverts (content i) (.object ms) a) :
    Inverts (tagged name tag known content) (.object ((tag, .string variant) :: ms)) a := by
  intro o
  rw [tagged_object hvariant hms]
  exact ha .buffer

/-! ### Nothing else -/

/-- The decoder finds nothing but the value in what was written for it. -/
def Recovers (decode : Decoder α) (j : Json) (a : α) : Prop :=
  ∀ o b, decode o j.reading = .ok b → b = a

theorem Inverts.recovers {decode : Decoder α} {j : Json} {a : α} (h : Inverts decode j a) :
    Recovers decode j a := by
  intro o b hb
  rw [h o] at hb
  exact (Except.ok.inj hb).symm

/-- A real that is not finite was written as null, in which no real is found. -/
theorem recovers_binary64 (x : Binary64) : Recovers binary64 (.real x) x := by
  cases hx : x.isFinite with
  | true => exact (inverts_binary64 hx).recovers
  | false =>
      intro o y hy
      rw [Json.real, if_neg (by simp [hx])] at hy
      cases hy

theorem recovers_many {decode : Decoder α} {write : α → Json} {as : List α}
    (h : ∀ a ∈ as, Recovers decode (write a) a) : Recovers (many decode) (.list write as) as := by
  intro o bs hbs
  change allItems (decode o) (itemsReading (as.map write)) = .ok bs at hbs
  induction as generalizing bs with
  | nil => exact (Except.ok.inj hbs).symm
  | cons a as ih =>
      rw [List.map_cons, itemsReading, allItems] at hbs
      obtain ⟨b, hb, hbs⟩ := Except.bind_eq_ok.mp hbs
      obtain ⟨bs, htail, hbs⟩ := Except.bind_eq_ok.mp hbs
      cases hbs
      rw [h a (by simp) o b hb, ih (fun c hc => h c (by simp [hc])) bs htail]

/-- If a record was found, the member filled the slot of its name. -/
theorem fillNamed_of_recovers {o : Origin} {slots : List (Slot σ)} {s s' : σ} {k : String} {j : Json}
    {a : α} {ms : List (String × Json)} {get : σ → Option α} {set : σ → Option α → σ}
    {decode : Decoder α} {spare : Bool}
    (hslot : slots.find? (·.name = k) = some (slot k get set decode spare))
    (ha : Recovers decode j a)
    (h : fillNamed o slots s (membersReading ((k, j) :: ms)) = .ok s') :
    fillNamed o slots (set s (some a)) (membersReading ms) = .ok s' := by
  rw [membersReading, fillNamed, show (Except.ok k : Except Fault String).mapError Mismatch.fault =
    .ok k from rfl] at h
  obtain ⟨k', hk, h⟩ := Except.bind_eq_ok.mp h
  obtain rfl := Except.ok.inj hk
  simp only [hslot] at h
  split at h
  · cases h
  · obtain ⟨s₁, hread, h⟩ := Except.bind_eq_ok.mp h
    obtain ⟨b, hb, hread⟩ := Except.bind_eq_ok.mp hread
    cases hread
    rw [ha o b hb] at h
    exact h

theorem recovers_tagged {name tag variant : String} {known : List String}
    {content : Nat → Decoder α} {ms : List (String × Json)} {i : Nat} {a : α}
    (hvariant : known.findIdx? (· = variant) = some i) (hms : ∀ m ∈ ms, m.1 ≠ tag)
    (ha : Recovers (content i) (.object ms) a) :
    Recovers (tagged name tag known content) (.object ((tag, .string variant) :: ms)) a := by
  intro o b hb
  rw [tagged_object hvariant hms] at hb
  exact ha .buffer b hb

/-! ### What decoders give -/

/-- What the decoder gives of a sound reading has the property. -/
def Yields (decode : Decoder α) (P : α → Prop) : Prop :=
  ∀ o r a, r.Sound → decode o r = .ok a → P a

theorem yields_true (decode : Decoder α) : Yields decode fun _ => True := fun _ _ _ _ _ => trivial

theorem yields_binary64 : Yields binary64 (·.isFinite = true) := by
  intro o r x hr h
  unfold binary64 at h
  split at h
  next i =>
    obtain rfl := Except.ok.inj h
    exact Binary64.isFinite_ofInt (Number.natAbs_le_of_inRange hr)
  next y =>
    obtain rfl := Except.ok.inj h
    exact hr
  next => cases h

theorem yields_allItems {decode : Reading → Except Mismatch α} {P : α → Prop}
    (h : ∀ r a, r.Sound → decode r = .ok a → P a) : {items : Items} → {as : List α} → items.Sound →
      allItems decode items = .ok as → ∀ a ∈ as, P a
  | .close, _, _, has => by
      cases has
      exact List.forall_mem_nil P
  | .broken _, _, _, has => by cases has
  | .item head tail, _, hitems, has => by
      rw [allItems] at has
      obtain ⟨a, ha, has⟩ := Except.bind_eq_ok.mp has
      obtain ⟨as, htail, has⟩ := Except.bind_eq_ok.mp has
      cases has
      exact List.forall_mem_cons.mpr ⟨h head a hitems.1 ha, yields_allItems h hitems.2 htail⟩

theorem yields_many {decode : Decoder α} {P : α → Prop} (h : Yields decode P) :
    Yields (many decode) fun as => ∀ a ∈ as, P a := by
  intro o r as hr has
  unfold many at has
  split at has
  next items => exact yields_allItems (h o) hr has
  next => cases has

/-- Reading the slot of a field keeps what holds of a record under construction. -/
def Slot.Keeps (slot : Slot σ) (I : σ → Prop) : Prop :=
  ∀ o r s s', r.Sound → I s → slot.read o r s = .ok s' → I s'

theorem slot_keeps {name : String} {get : σ → Option α} {set : σ → Option α → σ} {decode : Decoder α}
    {spare : Bool} {P : α → Prop} {I : σ → Prop} (h : Yields decode P)
    (hset : ∀ s a, I s → P a → I (set s (some a))) : (slot name get set decode spare).Keeps I := by
  intro o r s s' hr hs hread
  obtain ⟨a, ha, hread⟩ := Except.bind_eq_ok.mp hread
  cases hread
  exact hset s a hs (h o r a hr ha)

theorem fillNamed_keeps {o : Origin} {slots : List (Slot σ)} {I : σ → Prop} {s' : σ}
    (h : ∀ slot ∈ slots, slot.Keeps I) : {members : Members} → {s : σ} → members.Sound → I s →
      fillNamed o slots s members = .ok s' → I s'
  | .close, _, _, hs, hfill => by
      cases hfill
      exact hs
  | .broken _ _, _, _, _, hfill => by cases hfill
  | .member key value tail, s, hmembers, hs, hfill => by
      rw [fillNamed] at hfill
      obtain ⟨k, -, hfill⟩ := Except.bind_eq_ok.mp hfill
      split at hfill
      next slot hslot =>
        split at hfill
        · cases hfill
        · obtain ⟨s₁, hread, hfill⟩ := Except.bind_eq_ok.mp hfill
          have hs₁ := h slot (List.mem_of_find?_eq_some hslot) o value s s₁ hmembers.1 hs hread
          exact fillNamed_keeps h hmembers.2 hs₁ hfill
      next =>
        split at hfill
        · cases hfill
        · exact fillNamed_keeps h hmembers.2 hs hfill

theorem fillInOrder_keeps {o : Origin} {expected : String} {slots : List (Slot σ)} {I : σ → Prop}
    (h : ∀ slot ∈ slots, slot.Keeps I) {index : Nat} {s s' : σ} {items rest : Items}
    (hitems : items.Sound) (hs : I s)
    (hfill : fillInOrder o expected index s slots items = .ok (s', rest)) : I s' := by
  induction slots generalizing index s items with
  | nil =>
      rw [fillInOrder] at hfill
      cases hfill
      exact hs
  | cons slot slots ih =>
      have hslots : ∀ slot ∈ slots, slot.Keeps I := fun slot hslot => h slot (by simp [hslot])
      cases items with
      | close =>
          rw [fillInOrder] at hfill
          split at hfill
          · exact ih hslots hitems hs hfill
          · cases hfill
      | broken how =>
          rw [fillInOrder] at hfill
          cases hfill
      | item head tail =>
          rw [fillInOrder] at hfill
          obtain ⟨s₁, hread, hfill⟩ := Except.bind_eq_ok.mp hfill
          have hs₁ := h slot (by simp) o head s s₁ hitems.1 hs hread
          exact ih hslots hitems.2 hs₁ hfill

/-- A record has a property that follows from what its slots keep. -/
theorem yields_record {name : String} {slots : List (Slot σ)} {blank : σ}
    {complete : σ → Except Mismatch α} {I : σ → Prop} {P : α → Prop} (hblank : I blank)
    (hslots : ∀ slot ∈ slots, slot.Keeps I)
    (hcomplete : ∀ s a, I s → complete s = .ok a → P a) :
    Yields (record name slots blank complete) P := by
  intro o r a hr ha
  unfold record at ha
  split at ha
  next members =>
    obtain ⟨s, hs, ha⟩ := Except.bind_eq_ok.mp ha
    exact hcomplete s a (fillNamed_keeps hslots hr hblank hs) ha
  next items =>
    obtain ⟨⟨s, rest⟩, hs, ha⟩ := Except.bind_eq_ok.mp ha
    obtain ⟨a', ha', ha⟩ := Except.bind_eq_ok.mp ha
    obtain ⟨-, -, ha⟩ := Except.bind_eq_ok.mp ha
    cases ha
    exact hcomplete s a (fillInOrder_keeps hslots hr hblank hs) ha'
  next => cases ha

theorem required_eq_ok {name : String} {x : Option α} {a : α} (h : required name x = .ok a) :
    x = some a := by
  cases x with
  | none => cases h
  | some b => exact congrArg some (Except.ok.inj h)

/-- What is kept beside the tag can be written. -/
theorem taggedMembers_writable {o : Origin} {tag : String} {known : List String} :
    {members : Members} → {found found' : Option Nat} → {rest : List (String × Json)} →
      members.Sound → taggedMembers o tag known found members = .ok (found', rest) →
        MembersWritable rest
  | .close, _, _, _, _, h => by
      cases h
      trivial
  | .broken _ _, _, _, _, _, h => by cases h
  | .member key value tail, _, _, _, hmembers, h => by
      rw [taggedMembers] at h
      obtain ⟨k, -, h⟩ := Except.bind_eq_ok.mp h
      split at h
      · split at h
        · cases h
        · obtain ⟨i, -, h⟩ := Except.bind_eq_ok.mp h
          exact taggedMembers_writable hmembers.2 h
      · obtain ⟨j, hj, h⟩ := Except.bind_eq_ok.mp h
        obtain ⟨⟨found, rest⟩, hrest, h⟩ := Except.bind_eq_ok.mp h
        cases h
        exact ⟨settle_writable hmembers.1 (Except.mapError_eq_ok.mp hj),
          taggedMembers_writable hmembers.2 hrest⟩

/-- A tagged value has a property that the contents of all variants have. -/
theorem yields_tagged {name tag : String} {known : List String} {content : Nat → Decoder α}
    {P : α → Prop} (h : ∀ i, Yields (content i) P) : Yields (tagged name tag known content) P := by
  intro o r a hr ha
  unfold tagged at ha
  split at ha
  next members =>
    obtain ⟨⟨found, rest⟩, hrest, ha⟩ := Except.bind_eq_ok.mp ha
    cases found with
    | none => cases ha
    | some i =>
        have hrest' : (Json.object rest).reading.Sound :=
          membersReading_sound (taggedMembers_writable hr hrest)
        exact h i .buffer _ a hrest' ha
  next => cases ha
  next => cases ha
  next head tail =>
    obtain ⟨i, -, ha⟩ := Except.bind_eq_ok.mp ha
    obtain ⟨rest, hrest, ha⟩ := Except.bind_eq_ok.mp ha
    have hrest' : (Json.array rest).reading.Sound :=
      itemsReading_sound (settle_itemsWritable hr.2 (Except.mapError_eq_ok.mp hrest))
    exact h i .buffer _ a hrest' ha
  next => cases ha

end Decode

/-- A text that is read to its end is left to the decoder. -/
theorem decode_of_readingOf (decoder : Decoder α) {text : String} {r : Reading}
    (h : readingOf text = (r, [])) : decode decoder text = decoder .text r := by
  rw [decode, h]
  dsimp only
  cases decoder .text r <;> rfl

/-- What a decoder finds in what was written for a value, it finds in a text that is read as that. -/
theorem Decode.Inverts.decode_eq_ok {decoder : Decoder α} {j : Json} {a : α} {text : String}
    (h : Decode.Inverts decoder j a) (hread : readingOf text = (j.reading, [])) :
    decode decoder text = .ok a :=
  (decode_of_readingOf decoder hread).trans (h .text)

/-- What is decoded from a text has what its decoder yields. -/
theorem decode_yields {decoder : Decoder α} {P : α → Prop} (h : Decode.Yields decoder P)
    {text : String} {a : α} (ha : decode decoder text = .ok a) : P a := by
  have hsound := readingOf_sound text
  unfold decode at ha
  generalize readingOf text = read at hsound ha
  obtain ⟨r, rest⟩ := read
  obtain ⟨a', ha', ha⟩ := Except.bind_eq_ok.mp ha
  by_cases hrest : skipBlanks rest = []
  · rw [if_pos hrest] at ha
    cases ha
    exact h .text r a hsound ha'
  · rw [if_neg hrest] at ha
    cases ha

/-- What is written for a value is read back as that value just if the value has all that its decoder
yields. -/
theorem decode_eq_ok_iff {decoder : Decoder α} {P : α → Prop} {j : Json} {a : α} {text : String}
    (hinverts : P a → Decode.Inverts decoder j a) (hyields : Decode.Yields decoder P)
    (hread : readingOf text = (j.reading, [])) : decode decoder text = .ok a ↔ P a :=
  ⟨decode_yields hyields, fun h => (hinverts h).decode_eq_ok hread⟩

end Likeness.Json
