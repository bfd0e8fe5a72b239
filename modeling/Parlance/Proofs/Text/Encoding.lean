namespace Parlance.Text

-- The bytes of the encoding of a text.
def bytes (s : String) : List UInt8 :=
  s.toUTF8.data.toList

theorem bytes_eq (s : String) : bytes s = s.toList.flatMap String.utf8EncodeChar := by
  rw [bytes, String.toUTF8_eq_toByteArray, ← String.utf8Encode_toList, List.utf8Encode,
    List.toList_data_toByteArray]

theorem byte_cons_lt {a b : Nat} (hab : a < b) (hb : b < 256) (xs ys : List UInt8) :
    UInt8.ofNat a :: xs < UInt8.ofNat b :: ys := by
  rw [List.cons_lt_cons_iff, UInt8.lt_iff_toNat_lt, UInt8.toNat_ofNat', UInt8.toNat_ofNat']
  omega

-- A way to write the numbers below a bound in bytes such that the bytes stand in the order of
-- the numbers, whatever follows them.
def KeepsOrder (bound : Nat) (write : Nat → List UInt8) : Prop :=
  ∀ v w, v < w → w < bound → ∀ xs ys, write v ++ xs < write w ++ ys

theorem keepsOrder_lead (bound lead : Nat) (h : bound + lead ≤ 256) :
    KeepsOrder bound fun v => [UInt8.ofNat (v % bound + lead)] := by
  intro v w hvw hw xs ys
  simp only [Nat.mod_eq_of_lt hw, Nat.mod_eq_of_lt (Nat.lt_trans hvw hw)]
  exact byte_cons_lt (by omega) (by omega) xs ys

-- A byte for the lowest six bits comes last. It decides only between numbers that are equal
-- above them.
theorem KeepsOrder.continued {bound : Nat} {write : Nat → List UInt8}
    (h : KeepsOrder bound write) :
    KeepsOrder (64 * bound) fun v => write (v / 64) ++ [UInt8.ofNat (v % 64 + 128)] := by
  intro v w hvw hw xs ys
  simp only [List.append_assoc]
  by_cases hhigh : v / 64 = w / 64
  · rw [hhigh]
    exact List.append_left_lt (byte_cons_lt (by omega) (by omega) xs ys)
  · exact h _ _ (by omega) (by omega) _ _

theorem keepsOrder_two : KeepsOrder 2048 fun v =>
    [UInt8.ofNat (v / 64 % 32 + 192), UInt8.ofNat (v % 64 + 128)] :=
  (keepsOrder_lead 32 192 (by decide)).continued

theorem keepsOrder_three : KeepsOrder 65536 fun v =>
    [UInt8.ofNat (v / 4096 % 16 + 224), UInt8.ofNat (v / 64 % 64 + 128),
      UInt8.ofNat (v % 64 + 128)] := by
  have h := (keepsOrder_lead 16 224 (by decide)).continued.continued
  simp only [Nat.div_div_eq_div_mul] at h
  exact h

theorem keepsOrder_four : KeepsOrder 2097152 fun v =>
    [UInt8.ofNat (v / 262144 % 8 + 240), UInt8.ofNat (v / 4096 % 64 + 128),
      UInt8.ofNat (v / 64 % 64 + 128), UInt8.ofNat (v % 64 + 128)] := by
  have h := (keepsOrder_lead 8 240 (by decide)).continued.continued.continued
  simp only [Nat.div_div_eq_div_mul] at h
  exact h

-- Of two characters, the lesser one has the lesser bytes, whatever follows: longer encodings
-- start with greater bytes.
theorem utf8EncodeChar_append_lt {c d : Char} (h : c < d) (xs ys : List UInt8) :
    String.utf8EncodeChar c ++ xs < String.utf8EncodeChar d ++ ys := by
  have hlt : c.val.toNat < d.val.toNat := h
  have hd : d.val.toNat < 1114112 := by
    rcases d.valid with hd | hd <;> omega
  simp only [String.utf8EncodeChar]
  split
  · (repeat' split) <;> exact byte_cons_lt (by omega) (by omega) _ _
  · rw [if_neg (show ¬ d.val.toNat ≤ 127 by omega)]
    split
    · split
      · exact keepsOrder_two _ _ hlt (by omega) xs ys
      · split <;> exact byte_cons_lt (by omega) (by omega) _ _
    · rw [if_neg (show ¬ d.val.toNat ≤ 2047 by omega)]
      split
      · split
        · exact keepsOrder_three _ _ hlt (by omega) xs ys
        · exact byte_cons_lt (by omega) (by omega) _ _
      · rw [if_neg (show ¬ d.val.toNat ≤ 65535 by omega)]
        exact keepsOrder_four _ _ hlt (by omega) xs ys

theorem flatMap_lt {cs ds : List Char} (h : cs < ds) :
    cs.flatMap String.utf8EncodeChar < ds.flatMap String.utf8EncodeChar := by
  induction h with
  | @nil d ds =>
    rw [List.flatMap_nil, List.flatMap_cons]
    cases hd : String.utf8EncodeChar d with
    | nil => exact absurd hd String.utf8EncodeChar_ne_nil
    | cons b bs => exact List.nil_lt_cons _ _
  | rel hcd => exact utf8EncodeChar_append_lt hcd _ _
  | cons _ ih => exact List.append_left_lt ih

theorem bytes_lt {s t : String} (h : s < t) : bytes s < bytes t := by
  rw [bytes_eq, bytes_eq]
  exact flatMap_lt h

-- Texts stand in the order of their bytes.
theorem lt_iff_bytes_lt {s t : String} : s < t ↔ bytes s < bytes t := by
  refine ⟨bytes_lt, fun h => ?_⟩
  rcases Std.lt_trichotomy s t with hlt | heq | hgt
  · exact hlt
  · rw [heq] at h
    exact absurd h (List.lt_irrefl _)
  · exact absurd (bytes_lt hgt) (List.lt_asymm h)

end Parlance.Text
