import Mathlib.Data.String.Basic

/-! # The order of texts

Texts are ordered by their characters, and characters by their numbers. UTF-8 writes the larger of
two characters with the larger bytes, so texts are in the order of their bytes
(`bytes_lt_bytes_iff`). -/

namespace VisualQuery.Text

def bytes (s : String) : List UInt8 := s.toByteArray.data.toList

theorem bytes_eq (s : String) : bytes s = s.toList.flatMap String.utf8EncodeChar := by
  rw [bytes, ← String.utf8Encode_toList, List.utf8Encode, List.toList_data_toByteArray]

theorem cons_ofNat_lt_iff {m n : Nat} (hm : m < 256) (hn : n < 256) (s t : List UInt8) :
    UInt8.ofNat m :: s < UInt8.ofNat n :: t ↔ m < n ∨ m = n ∧ s < t := by
  rw [List.cons_lt_cons_iff, UInt8.lt_iff_toNat_lt, ← UInt8.toNat_inj, UInt8.toNat_ofNat',
    UInt8.toNat_ofNat', Nat.mod_eq_of_lt hm, Nat.mod_eq_of_lt hn]

/-- The larger character has the larger bytes, and what follows does not matter. -/
theorem encode_lt {a b : Char} (h : a < b) (s t : List UInt8) :
    String.utf8EncodeChar a ++ s < String.utf8EncodeChar b ++ t := by
  have hlt : a.val.toNat < b.val.toNat := h
  have hmax : b.val.toNat < 1114112 := by
    have hvalid := b.valid
    rcases hvalid with h | h <;> omega
  generalize ha : a.val.toNat = x at *
  generalize hb : b.val.toNat = y at *
  -- all bytes but the first carry six bits, so they are the digits to the base 64
  have h₂ : ∀ n, n / 4096 = n / 64 / 64 := by omega
  have h₃ : ∀ n, n / 262144 = n / 64 / 64 / 64 := by omega
  simp only [String.utf8EncodeChar, ha, hb, h₂, h₃]
  split_ifs <;>
    simp (disch := omega) only [List.cons_append, List.nil_append, cons_ofNat_lt_iff] <;> omega

theorem bytes_lt_bytes {s t : String} (h : s < t) : bytes s < bytes t := by
  rw [String.lt_iff_toList_lt] at h
  rw [bytes_eq, bytes_eq]
  generalize s.toList = l at *
  generalize t.toList = l' at *
  induction h with
  | @nil b l' =>
    obtain ⟨x, xs, hx⟩ := List.exists_cons_of_ne_nil (String.utf8EncodeChar_ne_nil (c := b))
    rw [List.flatMap_cons, hx]
    exact List.nil_lt_cons _ _
  | rel h => exact encode_lt h _ _
  | cons _ ih => exact List.append_left_lt ih

/-- The order of texts is that of their bytes. -/
theorem bytes_lt_bytes_iff {s t : String} : bytes s < bytes t ↔ s < t := by
  refine ⟨fun h => ?_, bytes_lt_bytes⟩
  rcases lt_trichotomy s t with hlt | rfl | hlt
  · exact hlt
  · exact absurd h (List.lt_irrefl _)
  · exact absurd h (List.lt_asymm (bytes_lt_bytes hlt))

end VisualQuery.Text
