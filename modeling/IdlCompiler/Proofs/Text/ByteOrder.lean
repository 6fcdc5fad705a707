import Mathlib.Tactic.SplitIfs

/-!
This module contains the order of texts by their octets in UTF-8. It is the order of their
characters.
-/

namespace IdlCompiler.Text

def bytes (s : String) : List UInt8 :=
  s.toByteArray.data.toList

theorem bytes_eq_flatMap (s : String) : bytes s = s.toList.flatMap String.utf8EncodeChar := by
  unfold bytes
  rw [← String.utf8Encode_toList]
  unfold List.utf8Encode
  rw [List.toList_data_toByteArray]

theorem cons_lt_cons_of_le {m n : Nat} {xs ys : List UInt8} (hn : n < 256) (hle : m ≤ n)
    (hrest : m = n → xs < ys) : UInt8.ofNat m :: xs < UInt8.ofNat n :: ys := by
  rw [List.cons_lt_cons_iff]
  rcases Nat.lt_or_eq_of_le hle with hlt | rfl
  . apply Or.inl
    rw [UInt8.lt_iff_toNat_lt]
    rw [UInt8.toNat_ofNat_of_lt' (by show m < 256; omega), UInt8.toNat_ofNat_of_lt' hn]
    exact hlt
  . exact .inr ⟨rfl, hrest rfl⟩

theorem utf8EncodeChar_append_lt {c d : Char} (h : c < d) (xs ys : List UInt8) :
    String.utf8EncodeChar c ++ xs < String.utf8EncodeChar d ++ ys := by
  have hlt : c.val.toNat < d.val.toNat := h
  have hd : d.val.toNat < 0x110000 := by
    have := d.valid
    unfold UInt32.isValidChar Nat.isValidChar at this
    omega
  unfold String.utf8EncodeChar
  generalize c.val.toNat = m at hlt
  generalize d.val.toNat = n at hlt hd
  dsimp only
  split_ifs
  all_goals
    -- As long as the octets agree the next ones decide, and in the end they cannot all agree.
    repeat
      apply cons_lt_cons_of_le (by omega) (by omega)
      intro _
    omega

theorem flatMap_utf8EncodeChar_lt {cs ds : List Char} (h : cs < ds) :
    cs.flatMap String.utf8EncodeChar < ds.flatMap String.utf8EncodeChar := by
  induction cs generalizing ds with
  | nil =>
    cases ds with
    | nil => simp at h
    | cons d ds =>
      rw [List.flatMap_nil, List.flatMap_cons]
      rcases List.exists_cons_of_ne_nil (String.utf8EncodeChar_ne_nil (c := d)) with ⟨b, bs, hd⟩
      rw [hd]
      apply List.nil_lt_cons
  | cons c cs ih =>
    cases ds with
    | nil => simp at h
    | cons d ds =>
      rw [List.flatMap_cons, List.flatMap_cons]
      rw [List.cons_lt_cons_iff] at h
      rcases h with h | ⟨rfl, h⟩
      . exact utf8EncodeChar_append_lt h _ _
      . apply List.append_left_lt
        exact ih h

theorem bytes_lt_bytes {a b : String} (h : a < b) : bytes a < bytes b := by
  rw [bytes_eq_flatMap, bytes_eq_flatMap]
  exact flatMap_utf8EncodeChar_lt h

end IdlCompiler.Text
