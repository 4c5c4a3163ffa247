import Mathlib

/-!
# Things that are taken and given back

A ledger lists what was acquired and released, in order.  It is sound when
nothing is released that is not held at that moment, and settled when it is
sound and nothing is held at its end: then everything acquired has been released
exactly once before it was acquired again, and nothing else has been.
-/

namespace LinuxAdvance.Foundation

variable {ι : Type} [DecidableEq ι]

inductive Entry (ι : Type) where
  | acquire (i : ι)
  | release (i : ι)
  deriving DecidableEq, Repr

namespace Ledger

def step (s : Finset ι) : Entry ι → Finset ι
  | .acquire i => insert i s
  | .release i => s.erase i

def heldFrom (s : Finset ι) (es : List (Entry ι)) : Finset ι := es.foldl step s

def SoundFrom : Finset ι → List (Entry ι) → Prop
  | _, [] => True
  | s, .acquire i :: es => SoundFrom (insert i s) es
  | s, .release i :: es => i ∈ s ∧ SoundFrom (s.erase i) es

instance decidableSoundFrom :
    (s : Finset ι) → (es : List (Entry ι)) → Decidable (SoundFrom s es)
  | _, [] => .isTrue trivial
  | s, .acquire i :: es => decidableSoundFrom (insert i s) es
  | s, .release i :: es =>
      have := decidableSoundFrom (s.erase i) es
      inferInstanceAs (Decidable (i ∈ s ∧ SoundFrom (s.erase i) es))

def held (es : List (Entry ι)) : Finset ι := heldFrom ∅ es

def Sound (es : List (Entry ι)) : Prop := SoundFrom ∅ es

instance (es : List (Entry ι)) : Decidable (Sound es) :=
  decidableSoundFrom ∅ es

structure Settled (es : List (Entry ι)) : Prop where
  sound : Sound es
  empty : held es = ∅

@[simp] theorem held_nil : held ([] : List (Entry ι)) = ∅ := rfl

@[simp] theorem held_acquire (es : List (Entry ι)) (i : ι) :
    held (es ++ [.acquire i]) = insert i (held es) := by
  simp [held, heldFrom, step]

@[simp] theorem held_release (es : List (Entry ι)) (i : ι) :
    held (es ++ [.release i]) = (held es).erase i := by
  simp [held, heldFrom, step]

theorem soundFrom_append (s : Finset ι) (es fs : List (Entry ι)) :
    SoundFrom s (es ++ fs) ↔ SoundFrom s es ∧ SoundFrom (heldFrom s es) fs := by
  induction es generalizing s with
  | nil => simp [SoundFrom, heldFrom]
  | cons e es ih =>
      cases e with
      | acquire i => simp [SoundFrom, heldFrom, step, ih]
      | release i => simp [SoundFrom, heldFrom, step, ih, and_assoc]

@[simp] theorem sound_nil : Sound ([] : List (Entry ι)) := trivial

@[simp] theorem sound_acquire (es : List (Entry ι)) (i : ι) :
    Sound (es ++ [.acquire i]) ↔ Sound es := by
  simp [Sound, soundFrom_append, SoundFrom]

@[simp] theorem sound_release (es : List (Entry ι)) (i : ι) :
    Sound (es ++ [.release i]) ↔ Sound es ∧ i ∈ held es := by
  simp [Sound, soundFrom_append, SoundFrom, held]

end Ledger

end LinuxAdvance.Foundation
