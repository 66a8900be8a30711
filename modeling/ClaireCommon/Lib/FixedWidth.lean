import ClaireCommon.Lib.Numeral
import Mathlib.Data.List.Lex

/-!
This module contains decimal texts of a fixed width, and of several numbers with something fixed between
them: the order of the texts is the order of the numbers.
-/

namespace FixedWidth

section Lists

variable {α : Type*} [LT α] {xs ys : List α}

theorem append_lt_of_lt (hlength : xs.length = ys.length) (h : xs < ys) (us vs : List α)
    : xs ++ us < ys ++ vs := by
  induction xs generalizing ys with
  | nil =>
    cases ys with
    | nil => simp at h
    | cons y ys => simp at hlength
  | cons x xs ih =>
    cases ys with
    | nil => simp at h
    | cons y ys =>
      rw [List.cons_lt_cons_iff] at h
      rw [List.cons_append, List.cons_append, List.cons_lt_cons_iff]
      rcases h with h | ⟨heq, h⟩
      . exact Or.inl h
      . exact Or.inr ⟨heq, ih (Nat.succ.inj hlength) h⟩

end Lists

theorem lt_iff_of_lt {f : Int → List UInt8} {P : Int → Prop}
    (hf : ∀ {t u}, P t → P u → t < u → f t < f u) {t u : Int} (ht : P t) (hu : P u)
    : (f t < f u ↔ t < u) ∧ (f t = f u ↔ t = u) := by
  have hgt := fun h => hf hu ht h
  refine ⟨⟨fun h => ?_, hf ht hu⟩, ⟨fun h => ?_, congrArg f⟩⟩
  . rcases Int.lt_trichotomy t u with hlt | heq | hlt
    . exact hlt
    . rw [heq] at h
      exact absurd h (List.lt_irrefl _)
    . exact absurd (hgt hlt) (List.lt_asymm h)
  . rcases Int.lt_trichotomy t u with hlt | heq | hlt
    . have hlt := hf ht hu hlt
      rw [h] at hlt
      exact absurd hlt (List.lt_irrefl _)
    . exact heq
    . have hlt := hgt hlt
      rw [h] at hlt
      exact absurd hlt (List.lt_irrefl _)

def fixed (b : Nat) : Nat → Nat → List Nat
  | 0, _ => []
  | w + 1, n => fixed b w (n / b) ++ [n % b]

variable {b w n m : Nat}

@[simp]
theorem length_fixed (b w n : Nat) : (fixed b w n).length = w := by
  induction w generalizing n with
  | zero => rfl
  | succ w ih => simp [fixed, ih]

theorem lt_of_mem_fixed (hb : 0 < b) : ∀ d ∈ fixed b w n, d < b := by
  induction w generalizing n with
  | zero => simp [fixed]
  | succ w ih =>
    intro d hd
    rw [fixed, List.mem_append, List.mem_singleton] at hd
    rcases hd with hd | hd
    . exact ih d hd
    . rw [hd]
      exact Nat.mod_lt n hb

theorem fixed_lt (h : n < m) (hm : m < b ^ w) : fixed b w n < fixed b w m := by
  induction w generalizing n m with
  | zero =>
    rw [Nat.pow_zero] at hm
    omega
  | succ w ih =>
    have hdiv : m / b < b ^ w := Nat.div_lt_of_lt_mul (by rwa [Nat.pow_succ, Nat.mul_comm] at hm)
    have hn := Nat.div_add_mod n b
    have hm := Nat.div_add_mod m b
    rcases Nat.lt_or_eq_of_le (Nat.div_le_div_right (c := b) (Nat.le_of_lt h)) with hlt | heq
    . exact append_lt_of_lt (by simp) (ih hlt hdiv) _ _
    . rw [fixed, fixed, heq]
      apply List.append_left_lt
      rw [heq] at hn
      rw [List.cons_lt_cons_iff]
      omega

theorem fixed_zero (b w : Nat) : fixed b w 0 = List.replicate w 0 := by
  induction w with
  | zero => rfl
  | succ w ih => rw [fixed, Nat.zero_div, Nat.zero_mod, ih, List.replicate_succ']

theorem replicate_append_numeral (hb : 1 < b) (h : n < b ^ (w + 1))
    : List.replicate (w + 1 - (Numeral.numeral b n).length) 0 ++ Numeral.numeral b n
        = fixed b (w + 1) n := by
  induction w generalizing n with
  | zero =>
    have hdiv : n / b = 0 := Nat.div_eq_of_lt (by simpa using h)
    rw [Numeral.numeral_div hb, if_pos hdiv]
    rfl
  | succ w ih =>
    rw [Numeral.numeral_div hb, fixed]
    split
    . next hdiv =>
      rw [hdiv, fixed_zero]
      simp
    . next hdiv =>
      have hlt : n / b < b ^ (w + 1) := Nat.div_lt_of_lt_mul (by rwa [Nat.pow_succ, Nat.mul_comm] at h)
      rw [← ih hlt, List.length_append, List.length_singleton, Nat.add_sub_add_right, List.append_assoc]

theorem length_numeral_eq (hb : 1 < b) (hlo : b ^ w ≤ n) (hhi : n < b ^ (w + 1))
    : (Numeral.numeral b n).length = w + 1 := by
  have hle := Numeral.length_numeral_le hb (Nat.succ_pos w) hhi
  have hne : n ≠ 0 := by
    have := Nat.pow_pos (n := w) (Nat.lt_trans Nat.zero_lt_one hb)
    omega
  rw [Numeral.numeral, if_neg hne, List.length_reverse] at hle ⊢
  have hlt := (Nat.lt_digits_length_iff hb n).mpr hlo
  omega

def digitChar (d : Nat) : UInt8 := UInt8.ofNat (0x30 + d)

def decimalText (n : Nat) : List UInt8 := (Numeral.numeral 10 n).map digitChar

-- `%*d`, and `%0*d` if `fill` is the character of the zero
def padded (fill : UInt8) (width : Nat) (n : Int) : List UInt8 :=
  let sign := if n < 0 then [0x2d] else []
  let text := decimalText n.natAbs
  let padding := List.replicate (width - (sign ++ text).length) fill
  if fill = 0x30 then sign ++ padding ++ text else padding ++ sign ++ text

def fixedText (w n : Nat) : List UInt8 := (fixed 10 w n).map digitChar

theorem digitChar_lt {d e : Nat} (h : d < e) (he : e < 10) : digitChar d < digitChar e := by
  rw [UInt8.lt_iff_toNat_lt]
  simp only [digitChar, UInt8.toNat_ofNat']
  omega

@[simp]
theorem length_fixedText (w n : Nat) : (fixedText w n).length = w := by simp [fixedText]

theorem map_lt {f : Nat → UInt8} {b : Nat} (hf : ∀ {d e}, d < e → e < b → f d < f e)
    {xs ys : List Nat} (hys : ∀ y ∈ ys, y < b) (h : xs < ys) : xs.map f < ys.map f := by
  induction ys generalizing xs with
  | nil => simp at h
  | cons y ys ih =>
    cases xs with
    | nil => simp
    | cons x xs =>
      rw [List.cons_lt_cons_iff] at h
      rw [List.map_cons, List.map_cons, List.cons_lt_cons_iff]
      rcases h with h | ⟨heq, h⟩
      . exact Or.inl (hf h (hys y List.mem_cons_self))
      . exact Or.inr ⟨congrArg f heq, ih (fun z hz => hys z (List.mem_cons_of_mem _ hz)) h⟩

theorem fixedText_lt (h : n < m) (hm : m < 10 ^ w) : fixedText w n < fixedText w m :=
  map_lt digitChar_lt (lt_of_mem_fixed (by decide)) (fixed_lt h hm)

theorem padded_zero (h : n < 10 ^ (w + 1)) : padded 0x30 (w + 1) n = fixedText (w + 1) n := by
  have hneg : ¬ (n : Int) < 0 := by omega
  simp only [padded, if_neg hneg, Int.natAbs_natCast, List.nil_append, ↓reduceIte, fixedText]
  rw [← replicate_append_numeral (by decide) h, List.map_append, List.map_replicate, decimalText,
    List.length_map]
  rfl

theorem padded_full (fill : UInt8) (hlo : 10 ^ w ≤ n) (hhi : n < 10 ^ (w + 1))
    : padded fill (w + 1) n = fixedText (w + 1) n := by
  have hneg : ¬ (n : Int) < 0 := by omega
  have hlength := length_numeral_eq (by decide) hlo hhi
  rw [fixedText, ← replicate_append_numeral (by decide) hhi]
  simp [padded, hneg, decimalText, hlength]

theorem le_length_padded (fill : UInt8) (w : Nat) (n : Int) : w ≤ (padded fill w n).length := by
  simp only [padded]
  split <;> split <;> simp <;> omega

theorem zero_not_mem_fixedText (w n : Nat) : 0 ∉ fixedText w n := by
  intro h
  obtain ⟨d, hd, hzero⟩ := List.mem_map.mp h
  have hlt := lt_of_mem_fixed (by decide) d hd
  have hzero := congrArg UInt8.toNat hzero
  simp only [digitChar, UInt8.toNat_ofNat', UInt8.toNat_zero] at hzero
  omega

-- The widths of the numbers and what stands behind each of them
abbrev Format := List (Nat × List UInt8)

def render : Format → List Nat → List UInt8
  | (w, behind) :: format, n :: ns => fixedText w n ++ behind ++ render format ns
  | _, _ => []

def Fits (format : Format) (ns : List Nat) : Prop := List.Forall₂ (fun f n => n < 10 ^ f.1) format ns

theorem render_lt {format : Format} {ns ms : List Nat} (h : ns < ms) (hns : Fits format ns)
    (hms : Fits format ms) : render format ns < render format ms := by
  unfold Fits at hns hms
  induction hms generalizing ns with
  | nil => simp at h
  | @cons f m format ms hm hms ih =>
    cases hns with
    | @cons _ n _ ns hn hns =>
      rw [List.cons_lt_cons_iff] at h
      dsimp only [render]
      rw [List.append_assoc, List.append_assoc]
      rcases h with h | ⟨heq, h⟩
      . exact append_lt_of_lt (by simp) (fixedText_lt h hm) _ _
      . rw [heq]
        exact List.append_left_lt (List.append_left_lt (ih h hns))

theorem length_render {format : Format} {ns : List Nat} (h : Fits format ns)
    : (render format ns).length = (format.map fun f => f.1 + f.2.length).sum := by
  unfold Fits at h
  induction h with
  | nil => rfl
  | cons _ _ ih => simp [render, ih, Nat.add_assoc]

theorem render_append (f g : Format) {ns : List Nat} (ms : List Nat) (h : f.length = ns.length)
    : render (f ++ g) (ns ++ ms) = render f ns ++ render g ms := by
  induction f generalizing ns with
  | nil =>
    rw [List.eq_nil_of_length_eq_zero h.symm]
    rfl
  | cons x f ih =>
    cases ns with
    | nil => contradiction
    | cons n ns =>
      simp only [List.cons_append, render, List.append_assoc]
      rw [ih (Nat.succ.inj h)]

end FixedWidth
