import Mathlib.Tactic.SplitIfs
import TwinShell.Text.Utf8

/-!
# The order of bytes

Texts are compared character by character, by code point. Their bytes compare in the same way: of two characters the one with the larger code point has the larger byte where their bytes differ first, and its bytes do not go on from those of the other. So a list of texts that is sorted is also sorted by bytes.
-/

namespace TwinShell.Text

variable {c d : Char} {a b : String}

theorem toNat_lt (c : Char) : c.toNat < 0x110000 := by
  rcases c.valid with h | ⟨-, h⟩
  · exact Nat.lt_trans h (by decide)
  · exact h

theorem encodeChar_ne_nil (c : Char) : encodeChar c ≠ [] := by
  unfold encodeChar
  extract_lets n
  split_ifs <;> exact List.cons_ne_nil _ _

/-- The bytes of two characters differ before either of them ends, so what follows does not matter. -/
theorem encodeChar_append_lt (h : c < d) (s t : List UInt8) : encodeChar c ++ s < encodeChar d ++ t := by
  have hnat : c.toNat < d.toNat := h
  have hbound := toNat_lt d
  unfold encodeChar
  extract_lets m n
  change m < n at hnat
  change n < _ at hbound
  -- One case for each pair of lengths; the digits to base 64 are compared from the first one on.
  split_ifs
  all_goals
    simp only [List.cons_append, List.nil_append, List.cons_lt_cons_iff, UInt8.lt_iff_toNat_lt,
      ← UInt8.toNat_inj, Nat.toUInt8, UInt8.toNat_ofNat', Nat.reducePow]
    simp (disch := omega) only [Nat.mod_eq_of_lt (b := 256)]
    omega

theorem flatMap_encodeChar_lt {cs ds : List Char} (h : cs < ds) :
    cs.flatMap encodeChar < ds.flatMap encodeChar := by
  induction h with
  | @nil d ds =>
    obtain ⟨b, bs, hbytes⟩ := List.exists_cons_of_ne_nil (encodeChar_ne_nil d)
    rw [List.flatMap_nil, List.flatMap_cons, hbytes]
    exact List.nil_lt_cons _ _
  | cons _ ih => exact List.append_left_lt ih
  | rel hlt => exact encodeChar_append_lt hlt _ _

theorem encode_lt_encode_iff : encode a < encode b ↔ a < b := by
  have hlt : ∀ {a b : String}, a < b → encode a < encode b := fun h =>
    flatMap_encodeChar_lt (String.lt_iff.1 h)
  refine ⟨fun h => ?_, hlt⟩
  rcases Std.lt_trichotomy a b with hab | hab | hba
  · exact hab
  · exact absurd h (hab ▸ List.lt_irrefl _)
  · exact absurd h (List.lt_asymm (hlt hba))

end TwinShell.Text
