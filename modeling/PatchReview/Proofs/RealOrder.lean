import Mathlib
import PatchReview.Number.Real

/-!
# The order of real numbers

A double says its place among the reals by its bits: the place is a whole number, and doubles that are numbers compare
as their places do. Nothing compares with what is no number.
-/

namespace PatchReview.Number

open BitVec Float.Model Float.Model.UnpackedFloat

/-- An unpacked number stands at a position, which its parts make up as they do in the bits of a double. -/
inductive StandsAt : UnpackedFloat → Int → Prop
  | infinity (s : Sign) : StandsAt (.infinity s) (s.apply 0x7ff0000000000000)
  | zero (s : Sign) : StandsAt (.zero s) 0
  | finite (s : Sign) {m e : Nat} (h : 0 < m) (hm : m < 0x20000000000000) (he : e < 2046)
      (hnormal : 0 < e → 0x10000000000000 ≤ m) :
      StandsAt (.finite s m (e - 1074) h) (s.apply (e * 0x10000000000000 + m : Nat))

variable {u v : UnpackedFloat} {n k : Int} {x y : Float}

variable (b : BitVec Format.binary64.numBits) {o : Ordering}

lemma eq_compare (hlt : o = .lt → n < k) (heq : o = .eq → n = k) (hgt : o = .gt → k < n) : o = compare n k := by
  cases o with
  | lt => exact (Int.compare_eq_lt.2 (hlt rfl)).symm
  | eq => exact (Int.compare_eq_eq.2 (heq rfl)).symm
  | gt => exact (Int.compare_eq_gt.2 (hgt rfl)).symm

/-- Unpacked numbers compare as their positions do. -/
lemma compare_of_standsAt (hu : StandsAt u n) (hv : StandsAt v k) : u.compare v = some (compare n k) := by
  rcases hu with (_ | _) | (_ | _) | ⟨_ | _, h, hm, he, hn⟩ <;>
    rcases hv with (_ | _) | (_ | _) | ⟨_ | _, h', hm', he', hn'⟩ <;>
    refine congrArg some (eq_compare ?_ ?_ ?_) <;>
    simp only [Sign.apply, Ordering.swap_eq_lt, Ordering.swap_eq_eq, Ordering.swap_eq_gt, Ordering.then_eq_lt,
      Ordering.then_eq_eq, Ordering.then_eq_gt, Int.compare_eq_lt, Int.compare_eq_eq, Int.compare_eq_gt,
      Nat.compare_eq_lt, Nat.compare_eq_eq, Nat.compare_eq_gt, reduceCtorEq, false_imp_iff] <;>
    try omega
  -- two infinities
  all_goals decide

/-- The fields of a double. -/
lemma toNat_fields : (unpackMantissa b).toNat = b.toNat % 0x10000000000000 ∧
      (unpackExponent b).toNat = b.toNat / 0x10000000000000 % 2048 ∧
      (unpackSign b).toNat = b.toNat / 0x8000000000000000 := by
  have hb : b.toNat < 0x10000000000000000 := b.isLt
  refine ⟨?_, ?_, ?_⟩ <;>
    simp only [unpackMantissa, unpackExponent, unpackSign, toNat_cast, extractLsb_toNat] <;>
    omega

lemma standsAt_finite {s : Sign} {m e : Nat} {x : Int} {n : Nat} (h : 0 < m) (hm : m < 0x20000000000000)
    (he : e < 2046) (hnormal : 0 < e → 0x10000000000000 ≤ m) (hx : x = e - 1074)
    (hn : n = e * 0x10000000000000 + m) : StandsAt (.finite s m x h) (s.apply n) := by
  subst hx hn
  exact .finite s h hm he hnormal

lemma standsAt_unpack (h : (unpack .binary64 b).isNaN = false) :
    StandsAt (unpack .binary64 b) ((Sign.ofBitVec (unpackSign b)).apply (b.toNat % 0x8000000000000000 : Nat)) := by
  obtain ⟨hm, he, -⟩ := toNat_fields b
  revert h
  fun_cases unpack .binary64 b with
  | case1 _ _ _ _ hexp hmant =>
    intro _
    have hexp : (unpackExponent b).toNat = 2047 := congrArg BitVec.toNat hexp
    have hmant : (unpackMantissa b).toNat = 0 := congrArg BitVec.toNat hmant
    have hb : b.toNat % 0x8000000000000000 = 0x7ff0000000000000 := by omega
    rw [hb]
    exact .infinity _
  | case2 => nofun
  | case3 _ _ _ sign _ hzero hmant =>
    intro _
    have hexp : (unpackExponent b).toNat = 0 := congrArg BitVec.toNat hzero
    have hmant : (unpackMantissa b).toNat = 0 := congrArg BitVec.toNat hmant
    have hb : b.toNat % 0x8000000000000000 = 0 := by omega
    have hsign : sign.apply ((0 : Nat) : Int) = 0 := by cases sign <;> rfl
    rw [hb]
    exact hsign ▸ .zero _
  | case4 mant _ exp _ _ _ hzero =>
    intro _
    have hexp : (unpackExponent b).toNat = 0 := congrArg BitVec.toNat hzero
    have hmant : mant.toNat = b.toNat % 0x10000000000000 := hm
    have hexp' : exp = (unpackExponent b).toNat - 1075 := rfl
    exact standsAt_finite (e := 0) _ (by omega) (by omega) nofun (by omega) (by omega)
  | case5 mant _ exp _ _ hexp hzero =>
    intro _
    have hexp : (unpackExponent b).toNat ≠ 2047 := fun h => hexp (eq_of_toNat_eq h)
    have hzero : (unpackExponent b).toNat ≠ 0 := fun h => hzero (eq_of_toNat_eq h)
    have hmant : (1#1 ++ mant).toNat = 0x10000000000000 + b.toNat % 0x10000000000000 := by
      rw [toNat_append, ← Nat.shiftLeft_add_eq_or_of_lt mant.isLt]
      rfl
    have hexp' : exp = (unpackExponent b).toNat - 1075 := rfl
    exact standsAt_finite (e := (unpackExponent b).toNat - 1) _ (by omega) (by omega) (by omega) (by omega) (by omega)

lemma apply_sign (n) : (Sign.ofBitVec (unpackSign b)).apply n = if b.toNat / 0x8000000000000000 = 1 then -n else n := by
  obtain ⟨-, -, hs⟩ := toNat_fields b
  have hone : unpackSign b = 0#1 ∨ unpackSign b = 1#1 := by
    generalize unpackSign b = s
    revert s
    decide
  rcases hone with h | h <;> rw [← hs, h] <;> rfl

/-- A real number that is one stands at its position in the order of reals. -/
lemma standsAt_order (hx : x.isNaN = false) : StandsAt x.toModel.unpack (order x) := by
  have h := standsAt_unpack x.toModel.toBits.toBitVec hx
  rw [apply_sign] at h
  exact h

/-- Real numbers that are some compare as their positions in the order of reals do. -/
lemma compare_order (hx : x.isNaN = false) (hy : y.isNaN = false) :
    x.toModel.unpack.compare y.toModel.unpack = some (compare (order x) (order y)) :=
  compare_of_standsAt (standsAt_order hx) (standsAt_order hy)

lemma lt_iff_order (hx : x.isNaN = false) (hy : y.isNaN = false) : x < y ↔ order x < order y := by
  change decide ((x.toModel.unpack.compare y.toModel.unpack == some .lt) = true) = true ↔ _
  rw [compare_order hx hy]
  simp [Int.compare_eq_lt]

/-- What compares is a number. -/
lemma isNaN_of_compare (h : u.compare v = some o) : u.isNaN = false ∧ v.isNaN = false := by
  cases u <;> cases v <;> first | exact ⟨rfl, rfl⟩ | cases h

lemma compare_order_of_compare (h : x.toModel.unpack.compare y.toModel.unpack = some o) :
    compare (order x) (order y) = o := by
  obtain ⟨hx, hy⟩ := isNaN_of_compare h
  exact Option.some.inj ((compare_order hx hy).symm.trans h)

lemma order_lt_of_lt (h : x < y) : order x < order y := by
  change decide ((x.toModel.unpack.compare y.toModel.unpack == some .lt) = true) = true at h
  exact Int.compare_eq_lt.1 (compare_order_of_compare (by simpa using h))

lemma order_eq_of_beq (h : x == y) : order x = order y := by
  change (x.toModel.unpack.compare y.toModel.unpack == some .eq) at h
  exact Int.compare_eq_eq.1 (compare_order_of_compare (by simpa using h))

lemma beq_of_order_eq (hx : x.isNaN = false) (hy : y.isNaN = false) (h : order x = order y) : x == y := by
  change (x.toModel.unpack.compare y.toModel.unpack == some .eq) = true
  rw [compare_order hx hy, Int.compare_eq_eq.2 h]
  rfl

lemma not_isNaN_of_lt (h : x < y) : x.isNaN = false ∧ y.isNaN = false := by
  change decide ((x.toModel.unpack.compare y.toModel.unpack == some .lt) = true) = true at h
  exact isNaN_of_compare (o := .lt) (by simpa using h)

lemma le_iff_order (hx : x.isNaN = false) (hy : y.isNaN = false) : x ≤ y ↔ order x ≤ order y := by
  change decide ((x.toModel.unpack.compare y.toModel.unpack).any (·.isLE) = true) = true ↔ _
  rw [compare_order hx hy, decide_eq_true_iff]
  exact Int.isLE_compare

lemma not_le_iff_lt (hx : x.isNaN = false) (hy : y.isNaN = false) : ¬ x ≤ y ↔ y < x := by
  rw [le_iff_order hx hy, lt_iff_order hy hx, Int.not_le]

lemma not_isNaN_of_le (h : x ≤ y) : x.isNaN = false ∧ y.isNaN = false := by
  obtain ⟨o, ho, -⟩ := Option.any_eq_true _ _ |>.mp (of_decide_eq_true h)
  exact isNaN_of_compare ho

/-- The lesser of two numbers is within the first. -/
lemma lesser_le (hx : x.isNaN = false) (hy : y.isNaN = false) : (if x < y then x else y) ≤ x := by
  split
  · exact (le_iff_order hx hx).2 le_rfl
  · rename_i h
    rw [lt_iff_order hx hy] at h
    exact (le_iff_order hy hx).2 (Int.not_lt.1 h)

lemma lt_trans {z} (hxy : x < y) (hyz : y < z) : x < z :=
  (lt_iff_order (not_isNaN_of_lt hxy).1 (not_isNaN_of_lt hyz).2).2
    (Int.lt_trans (order_lt_of_lt hxy) (order_lt_of_lt hyz))

/-- Taking nothing away changes no number. -/
lemma sub_zero (x) : x - 0.0 = x := by
  have hzero : (0.0 : Float).toModel.unpack = .zero .positive := by rfl
  have hsub : sub .binary64 x.toModel.unpack (.zero .positive) = x.toModel.unpack := by
    rcases x.toModel.unpack with _ | (_ | _) | (_ | _) | _ <;> rfl
  refine Float.toBits_inj.1 (UInt64.toBitVec_inj.1 ?_)
  change pack .binary64 (sub .binary64 x.toModel.unpack (0.0 : Float).toModel.unpack) = x.toModel.toBits.toBitVec
  rw [hzero, hsub]
  exact pack_unpack_of_valid x.toModel.valid

lemma isFinite_unpack : (unpack .binary64 b).isFinite = decide (b.toNat / 0x10000000000000 % 2048 ≠ 2047) := by
  rw [← (toNat_fields b).2.1, eq_comm]
  fun_cases unpack .binary64 b with
  | case1 _ _ _ _ h => exact decide_eq_false fun hne => hne (congrArg BitVec.toNat h)
  | case2 _ _ h => exact decide_eq_false fun hne => hne (congrArg BitVec.toNat h)
  | case3 _ _ _ _ h => exact decide_eq_true fun he => h (BitVec.eq_of_toNat_eq he)
  | case4 _ _ _ _ _ h => exact decide_eq_true fun he => h (eq_of_toNat_eq he)
  | case5 _ _ _ _ _ h => exact decide_eq_true fun he => h (eq_of_toNat_eq he)

/-- A double has parts just when it is finite. -/
lemma isSome_ofFloat? (x) : (Binary.ofFloat? x).isSome = x.isFinite := by
  refine .trans ?_ (isFinite_unpack x.toModel.toBits.toBitVec).symm
  change (if x.toBits.toNat / twoTo 52 % 2048 = 2047 then _ else _ : Option Binary).isSome =
    decide (x.toBits.toNat / twoTo 52 % 2048 ≠ 2047)
  split
  · simp_all
  · split <;> simp_all

end PatchReview.Number
