import LinuxAdvance.Calculator.Drain

/-!
# When the drain loop ends

A call of `decode` that returns a package removes the total length it computed
from the header.  The header is a signed number the peer chooses, so the total
can be zero while the rest of the buffer is returned as the package: then the
buffer stays as it is and the loop never ends.  That is the only way.
-/

namespace LinuxAdvance.Calculator

open LinuxAdvance.Foundation
open LinuxAdvance.Cxx

/-- The header's value cancels the length of the header itself and of the two
separators, and there are bytes to return. -/
def ZeroTotal (b : Bytes) : Prop :=
  ∃ d, Accepts b d ∧ totalLen (sepPos b) d = 0 ∧ slice b d ≠ []

/-- The buffers a drain loop meets, from the one it starts on. -/
inductive Meets : Bytes → Bytes → Prop
  | here (b) : Meets b b
  | next {b pkg rest b'} : decode b = .ok (pkg, rest) → pkg ≠ [] →
      Meets rest b' → Meets b b'

def RemovesAByte (b : Bytes) : Prop :=
  ∀ pkg rest, decode b = .ok (pkg, rest) → pkg ≠ [] → rest.length < b.length

theorem sizeOfInt_eq_zero_iff {i : Int32} : sizeOfInt i = 0 ↔ i = 0 := by
  constructor
  · intro h
    rcases Int.lt_or_le i.toInt 0 with hneg | hnonneg
    · have := sizeOfInt_of_neg hneg
      have := i.le_toInt
      omega
    · rw [sizeOfInt_of_nonneg hnonneg] at h
      rw [← Int32.toInt_inj, Int32.toInt_zero]
      omega
  · rintro rfl
    decide

theorem intOfSize_eq_zero_iff {n : Nat} : intOfSize n = 0 ↔ n % 2 ^ 32 = 0 := by
  have hsize : Int32.size = 2 ^ 32 := rfl
  rw [intOfSize, ← Int32.toInt_inj, Int32.toInt_ofNat', Int32.toInt_zero,
    ← Int.dvd_iff_bmod_eq_zero, hsize, Int.natCast_dvd_natCast,
    Nat.dvd_iff_mod_eq_zero]

theorem decode_of_zeroTotal {b : Bytes} (h : ZeroTotal b) :
    ∃ pkg, pkg ≠ [] ∧ decode b = .ok (pkg, b) := by
  obtain ⟨d, hacc, hzero, hslice⟩ := h
  refine ⟨slice b d, hslice, ?_⟩
  rw [decode_of_accepts hacc, sizeOfInt_eq_zero_iff.mpr hzero]
  rfl

theorem removesAByte_iff (b : Bytes) : RemovesAByte b ↔ ¬ ZeroTotal b := by
  constructor
  · intro hremoves hzero
    obtain ⟨pkg, hpkg, hdecode⟩ := decode_of_zeroTotal hzero
    exact Nat.lt_irrefl _ (hremoves pkg b hdecode hpkg)
  · intro hzero pkg rest hdecode hpkg
    rcases decode_cases hdecode with ⟨hnil, -⟩ | ⟨d, hacc, rfl, rfl⟩
    · exact absurd hnil hpkg
    have htotal : sizeOfInt (totalLen (sepPos b) d) ≠ 0 :=
      fun h => hzero ⟨d, hacc, sizeOfInt_eq_zero_iff.mp h, hpkg⟩
    have hb : b ≠ [] := by
      rintro rfl
      exact hpkg (by simp [slice])
    have hlen := List.length_pos_iff.mpr hb
    rw [eraseFront, List.length_drop]
    omega

theorem sepPos_of_found {b : Bytes} {p : Nat} (hb : b.length < 2 ^ 31)
    (hfind : findSub? sep b = some p) :
    p + 2 ≤ b.length ∧ sizeOfInt (sepPos b) = p ∧ lenStr b = b.take p := by
  have hp := findSub?_le hfind
  rw [sep_length] at hp
  have hsize : sizeOfInt (sepPos b) = p := by
    rw [sepPos, find, hfind, Option.getD_some]
    exact sizeOfInt_intOfSize (by omega)
  exact ⟨hp, hsize, by rw [lenStr, hsize]⟩

theorem totalLen_eq_zero_iff {b : Bytes} {p : Nat} {d : Int32}
    (hb : b.length < 2 ^ 31) (hfind : findSub? sep b = some p)
    (hmore : p + 2 < b.length) :
    totalLen (sepPos b) d = 0 ↔ d.toInt = -(p + 4) := by
  obtain ⟨-, hsize, -⟩ := sepPos_of_found hb hfind
  have hlow := d.le_toInt
  have hhigh := d.toInt_lt
  rw [totalLen, hsize, sep_length, intOfSize_eq_zero_iff,
    show sizeMod = 2 ^ 64 from rfl]
  rcases Int.lt_or_le d.toInt 0 with hneg | hnonneg
  · have hd := sizeOfInt_of_neg hneg
    omega
  · have hd := sizeOfInt_of_nonneg hnonneg
    omega

/-- For buffers whose length fits an `int`, the condition on the header as the
peer writes it: a number equal to minus its own length minus four. -/
theorem zeroTotal_iff {b : Bytes} (hb : b.length < 2 ^ 31) :
    ZeroTotal b ↔
      ∃ p d, findSub? sep b = some p ∧ 0 < p ∧ stoi (b.take p) = .ok d ∧
        d.toInt = -(p + 4) ∧ p + 2 < b.length := by
  constructor
  · rintro ⟨d, hacc, hzero, hslice⟩
    cases hfind : findSub? sep b with
    | none => exact absurd (sepPos_none hfind) hacc.found
    | some p =>
        obtain ⟨hp, hsize, hstr⟩ := sepPos_of_found hb hfind
        have hp0 : 0 < p := by
          refine Nat.pos_of_ne_zero fun h => hacc.nonempty ?_
          rw [hstr, h, List.take_zero]
        have hmore : p + 2 < b.length := by
          refine Nat.lt_of_not_le fun h => hslice ?_
          rw [slice, hsize, sep_length, mod_sizeMod (by omega),
            List.drop_of_length_le h, List.take_nil]
        exact ⟨p, d, rfl, hp0, hstr ▸ hacc.number,
          (totalLen_eq_zero_iff hb hfind hmore).mp hzero, hmore⟩
  · rintro ⟨p, d, hfind, hp0, hnum, hd, hmore⟩
    obtain ⟨hp, hsize, hstr⟩ := sepPos_of_found hb hfind
    have htotal := (totalLen_eq_zero_iff hb hfind hmore).mpr hd
    have hinside : (p + 2) % sizeMod = p + 2 := mod_sizeMod (by omega)
    have hdsize := sizeOfInt_of_neg (i := d) (by omega)
    refine ⟨d, ⟨?_, ?_, ?_, ?_, ?_⟩, htotal, ?_⟩
    · rw [hsize]
      have : npos = 2 ^ 64 - 1 := rfl
      omega
    · rw [hstr]
      intro h
      have := congrArg List.length h
      simp only [List.length_take, List.length_nil] at this
      omega
    · rw [hstr, hnum]
    · rw [htotal]
      exact Nat.zero_le _
    · rw [hsize, sep_length, hinside]
      omega
    · rw [slice, hsize, sep_length, hinside]
      intro h
      have := congrArg List.length h
      simp only [List.length_take, List.length_drop, List.length_nil] at this
      omega

/-! ## The loop as a whole -/

section Loop

variable {σ β : Type} {get : Proc Fault σ Bytes}
  {put : Bytes → Proc Fault σ Unit} {body : Bytes → β → Proc Fault σ β}

/-- The buffer of the loop is a variable of the state that the body of the loop
does not touch; the body may raise, but it does not wait. -/
structure OwnsBuffer (Good : σ → Prop) (buf : σ → Bytes)
    (get : Proc Fault σ Bytes) (put : Bytes → Proc Fault σ Unit)
    (body : Bytes → β → Proc Fault σ β) : Prop where
  get_run : ∀ s, Good s → get.run s = .done (buf s) s
  put_run : ∀ s b, Good s → ∃ s', (put b).run s = .done () s' ∧ Good s' ∧ buf s' = b
  body_run : ∀ s p x, Good s →
    (∃ x' s', (body p x).run s = .done x' s' ∧ Good s' ∧ buf s' = buf s) ∨
      ∃ e s', (body p x).run s = .raised e s'

variable {Good : σ → Prop} {buf : σ → Bytes}

theorem drainRound_cases (laws : OwnsBuffer Good buf get put body) {s : σ}
    (hs : Good s) (x : β) :
    (∃ e s', (drainRound get put body x).run s = .raised e s') ∨
      (∃ x' s' rest, (drainRound get put body x).run s = .done (.inr x') s' ∧
        decode (buf s) = .ok ([], rest)) ∨
      ∃ x' s' pkg rest, (drainRound get put body x).run s = .done (.inl x') s' ∧
        decode (buf s) = .ok (pkg, rest) ∧ pkg ≠ [] ∧ Good s' ∧ buf s' = rest := by
  rw [drainRound, Proc.run_bind_done (laws.get_run s hs)]
  cases hdecode : decode (buf s) with
  | error e => exact .inl ⟨.exn e, s, rfl⟩
  | ok r =>
      obtain ⟨pkg, rest⟩ := r
      obtain ⟨s₁, hput, hs₁, hbuf₁⟩ := laws.put_run s rest hs
      rw [eval_ok, Proc.pure_bind]
      dsimp only
      rw [Proc.run_bind_done hput]
      by_cases hpkg : pkg = []
      · subst hpkg
        rw [if_pos rfl]
        exact .inr (.inl ⟨x, s₁, rest, rfl, rfl⟩)
      · rw [if_neg hpkg]
        rcases laws.body_run s₁ pkg x hs₁ with ⟨x', s', hbody, hs', hbuf'⟩ | ⟨e, s', hbody⟩
        · rw [Proc.run_bind_done hbody]
          exact .inr (.inr ⟨x', s', pkg, rest, rfl, rfl, hpkg, hs', hbuf'.trans hbuf₁⟩)
        · rw [Proc.run_bind_raised hbody]
          exact .inl ⟨e, s', rfl⟩

theorem drain_ends (laws : OwnsBuffer Good buf get put body) {s : σ}
    (hs : Good s) (x : β) (hno : ∀ b, Meets (buf s) b → ¬ ZeroTotal b) :
    ¬ ((drain get put body x).run s).IsBlocked := by
  rw [drain, Proc.run_bind_done (laws.get_run s hs)]
  refine Proc.iterate_not_blocked
    (I := fun _ s => Good s ∧ ∀ b, Meets (buf s) b → ¬ ZeroTotal b)
    (fun s => (buf s).length) ?_ ?_ ⟨hs, hno⟩ (Nat.lt_succ_self _)
  · rintro x s ⟨hs, -⟩
    rcases drainRound_cases laws hs x with
      ⟨e, s', h⟩ | ⟨x', s', _, h, -⟩ | ⟨x', s', _, _, h, -⟩ <;> simp [h]
  · rintro x s x' s' ⟨hs, hno⟩ hround
    rcases drainRound_cases laws hs x with
      ⟨e, s₁, h⟩ | ⟨x₁, s₁, _, h, -⟩ | ⟨x₁, s₁, pkg, rest, h, hdecode, hpkg, hs₁, hbuf⟩
    · rw [h] at hround
      cases hround
    · rw [h] at hround
      cases hround
    · rw [h] at hround
      cases hround
      refine ⟨⟨hs₁, fun b hb => hno b ?_⟩, ?_⟩
      · exact .next hdecode hpkg (hbuf ▸ hb)
      · rw [hbuf]
        exact (removesAByte_iff (buf s)).mpr (hno _ (.here _)) pkg rest hdecode hpkg

theorem drain_rounds (laws : OwnsBuffer Good buf get put body) {s : σ}
    (hs : Good s) {x : β} (hends : ¬ ((drain get put body x).run s).IsBlocked)
    {n : Nat} (hn : (buf s).length < n) :
    (Proc.iterate (drainRound get put body) n x).run s =
      (drain get put body x).run s := by
  rw [drain, Proc.run_bind_done (laws.get_run s hs)] at hends ⊢
  exact Proc.iterate_mono hn hends

def Calm (get : Proc Fault σ Bytes) (put : Bytes → Proc Fault σ Unit)
    (body : Bytes → β → Proc Fault σ β) (x : β) (s : σ) : Prop :=
  ∀ n e s', (Proc.iterate (drainRound get put body) n x).run s ≠ .raised e s'

theorem drain_never_ends (laws : OwnsBuffer Good buf get put body) {s : σ}
    (hs : Good s) {x : β} (hcalm : Calm get put body x s) {b : Bytes}
    (hmeets : Meets (buf s) b) (hzero : ZeroTotal b) (n : Nat) :
    ((Proc.iterate (drainRound get put body) n x).run s).IsBlocked := by
  refine Proc.iterate_blocked_of_cycle
    (I := fun x t => Good t ∧ Calm get put body x t ∧
      ∃ b, Meets (buf t) b ∧ ZeroTotal b) ?_ n ⟨hs, hcalm, b, hmeets, hzero⟩
  rintro x t ⟨ht, hcalm, b, hb, hzero⟩
  -- the package a round on `t` finds, and the buffer it leaves
  obtain ⟨pkg, rest, hdecode, hpkg, hahead⟩ : ∃ pkg rest,
      decode (buf t) = .ok (pkg, rest) ∧ pkg ≠ [] ∧ ∃ b, Meets rest b ∧ ZeroTotal b := by
    cases hb with
    | here =>
        obtain ⟨pkg, hpkg, hdecode⟩ := decode_of_zeroTotal hzero
        exact ⟨pkg, _, hdecode, hpkg, _, .here _, hzero⟩
    | next hdecode hpkg hrest => exact ⟨_, _, hdecode, hpkg, b, hrest, hzero⟩
  rcases drainRound_cases laws ht x with
    ⟨e, t', h⟩ | ⟨x', t', rest', h, hempty⟩ | ⟨x', t', pkg', rest', h, hd, -, ht', hbuf⟩
  · exact absurd (Proc.iterate_succ_raised h) (hcalm 1 e t')
  · rw [hdecode] at hempty
    exact absurd (congrArg Prod.fst (Except.ok.inj hempty)) hpkg
  · rw [hdecode] at hd
    obtain ⟨rfl, rfl⟩ := Prod.mk.inj (Except.ok.inj hd)
    refine ⟨x', t', h, ht', fun n e t'' hraised => ?_, hbuf ▸ hahead⟩
    exact hcalm (n + 1) e t'' ((Proc.iterate_succ_inl h).trans hraised)

theorem drain_ends_iff (laws : OwnsBuffer Good buf get put body) {s : σ}
    (hs : Good s) {x : β} (hcalm : Calm get put body x s) :
    ¬ ((drain get put body x).run s).IsBlocked ↔
      ∀ b, Meets (buf s) b → ¬ ZeroTotal b := by
  refine ⟨fun h b hmeets hzero => h ?_, drain_ends laws hs x⟩
  rw [drain, Proc.run_bind_done (laws.get_run s hs)]
  exact drain_never_ends laws hs hcalm hmeets hzero _

end Loop

end LinuxAdvance.Calculator
