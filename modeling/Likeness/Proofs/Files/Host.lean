import Likeness.Files.Text
import Likeness.Proofs.Except

/-!
# Likeness.Proofs.Files.Host

Hosts on which a file keeps its content.
-/

namespace Likeness.Host

variable {τ : Type}

/-- What is done after something else. -/
theorem run_bind_eq {α β : Type} {x : StateM τ α} {k : α → StateM τ β} {t t' : τ} {a : α}
    (h : x.run t = (a, t')) : (x >>= k).run t = (k a).run t' := by
  rw [StateT.run_bind, h]
  rfl

variable [Host (StateM τ)]

/-- What a path leads to, and what is read there. -/
def look (t : τ) (p : Path) : Option FileKind × Except FileFault ByteArray :=
  (((kind? p : StateM τ _).run t).1, ((read p : StateM τ _).run t).1)

/-- A file at a path holds what was written there last, and asking about it, reading it and looking at
the clock leave it as it is. -/
structure Steady (τ : Type) [Host (StateM τ)] (p : Path) : Prop where
  kind? : ∀ t : τ, look ((kind? p : StateM τ _).run t).2 p = look t p
  read : ∀ t : τ, look ((read p : StateM τ _).run t).2 p = look t p
  ticks : ∀ t : τ, look ((ticks : StateM τ _).run t).2 p = look t p
  write : ∀ (t t' : τ) (content : ByteArray),
    (write p content : StateM τ _).run t = (.ok (), t') → look t' p = (some .file, .ok content)

variable {p : Path} {t t' : τ}

/-- Asking whether there is something at a path. -/
theorem Steady.look_of_exists? (h : Steady τ p) {there : Bool}
    (hrun : (exists? p : StateM τ _).run t = (there, t')) :
    look t' p = look t p ∧ (look t p).1.isSome = there := by
  obtain ⟨hthere, rfl⟩ := Prod.mk.inj hrun
  exact ⟨h.kind? t, hthere⟩

/-- Reading a file as text leaves it as it is. -/
theorem Steady.look_of_readText (h : Steady τ p) {answer : Except FileFault String}
    (hrun : (readText p : StateM τ _).run t = (answer, t')) : look t' p = look t p := by
  rcases hread : (Host.read p : StateM τ _).run t with ⟨got, t₁⟩
  have hlook := h.read t
  rw [hread] at hlook
  rw [readText, run_bind_eq hread] at hrun
  cases got with
  | error f =>
      cases hrun
      exact hlook
  | ok content =>
      cases hrun
      exact hlook

/-- Text that was read is the text of the content. -/
theorem readText_eq_ok {text : String} (h : (readText p : StateM τ _).run t = (.ok text, t')) :
    ∃ content, (read p : StateM τ _).run t = (.ok content, t') ∧
      Text.Utf8.decode content = .ok text := by
  rcases hread : (read p : StateM τ _).run t with ⟨answer, t₁⟩
  rw [readText, run_bind_eq hread] at h
  cases answer with
  | error f => cases h
  | ok content =>
      obtain ⟨hdecode, rfl⟩ := Prod.mk.inj h
      exact ⟨content, rfl, Except.mapError_eq_ok.mp hdecode⟩

/-- A file whose content is a text is read as that text. -/
theorem run_readText {content : ByteArray} {text : String} (hread : (look t p).2 = .ok content)
    (hdecode : Text.Utf8.decode content = .ok text) :
    (readText p : StateM τ _).run t = (.ok text, ((read p : StateM τ _).run t).2) := by
  rw [readText, run_bind_eq (show (read p : StateM τ _).run t = (.ok content, _) from
    Prod.ext hread rfl)]
  dsimp only
  rw [hdecode]
  rfl

end Likeness.Host
