import PgQueue.Reasons.Utf8

/-!
# How much of a failure reason is kept

The text a reason stands for is the reason with every maximal run of bytes at which no character starts
replaced by one U+FFFD.  `truncateErrorMsg` keeps all of it, or cuts it as late as a character allows.

* `BadRun`, `Repairs`         a maximal run, and the reason with the runs replaced;
* `repairs_toValidUTF8`       the sanitiser does this, and `Repairs.unique`: there is one result;
* `Utf8.exists_take`          a text cut at any byte is a text again after at most three bytes less, none of
                              them zero;
* `Repairs.zero_mem_truncateErrorMsg`   a zero byte is stored exactly if it is among the first 1024 bytes;
* `truncateErrorMsg_keeps`    **the stored reason is the repaired text, or its first 1021 bytes at least.**
-/

namespace PgQueue
open List

/-! ## repaired texts -/

/-- no character starts at a byte of `x`, and one does behind it, or the text is over -/
structure BadRun (x rest : Bytes) : Prop where
  bad : ∀ k < x.length, runeLen (x.drop k ++ rest) = 0
  ends : rest = [] ∨ runeLen rest ≠ 0

/-- `Repairs s t`: `t` is `s` with one replacement character for each maximal run of invalid bytes -/
inductive Repairs : Bytes → Bytes → Prop
  | nil : Repairs [] []
  | rune {x s t : Bytes} (hx : Rune x) (hs : Repairs s t) : Repairs (x ++ s) (x ++ t)
  | run {x s t : Bytes} (hne : x ≠ []) (hx : BadRun x s) (hs : Repairs s t) :
      Repairs (x ++ s) (replacement ++ t)

variable {s x t : Bytes} {b : UInt8}

theorem BadRun.nil (h : s = [] ∨ runeLen s ≠ 0) : BadRun [] s :=
  ⟨fun _ hk => absurd hk (Nat.not_lt_zero _), h⟩

theorem BadRun.cons (hb : runeLen (b :: (x ++ s)) = 0) (h : BadRun x s) : BadRun (b :: x) s := by
  refine ⟨fun k hk => ?_, h.ends⟩
  cases k with
  | zero => exact hb
  | succ k => exact h.bad k (Nat.lt_of_succ_lt_succ hk)

theorem BadRun.tail (h : BadRun (b :: x) s) : BadRun x s :=
  ⟨fun k hk => h.bad (k + 1) (Nat.succ_lt_succ hk), h.ends⟩

theorem BadRun.head (h : BadRun (b :: x) s) : runeLen (b :: (x ++ s)) = 0 :=
  h.bad 0 (Nat.succ_pos _)

theorem Utf8.repairs (h : Utf8 s) : Repairs s s := by
  induction h with
  | nil => exact .nil
  | cons hx _ ih => exact .rune hx ih

/-! ## the sanitiser repairs -/

theorem toValidFrom_nil (fuel : Nat) (inRun : Bool) : toValidFrom fuel inRun [] = [] := by
  cases fuel <;> rfl

theorem toValidFrom_bad (h : runeLen (b :: s) = 0) (fuel : Nat) (inRun : Bool) :
    toValidFrom (fuel + 1) inRun (b :: s) =
      (if inRun then [] else replacement) ++ toValidFrom fuel true s := by
  rw [toValidFrom_cons, if_pos h]

theorem toValidFrom_rune (hx : Rune x) (s : Bytes) (fuel : Nat) (inRun : Bool) :
    toValidFrom (fuel + 1) inRun (x ++ s) = x ++ toValidFrom fuel false s := by
  have hlen := hx.runeLen_append s
  have hpos := length_pos_iff.mpr hx.ne_nil
  obtain ⟨b, bs, rfl⟩ := exists_cons_of_ne_nil hx.ne_nil
  rw [cons_append] at hlen ⊢
  rw [toValidFrom_cons, hlen, if_neg (Nat.ne_of_gt hpos), ← cons_append, take_left,
    drop_left]

theorem repairs_toValidFrom (fuel : Nat) (s : Bytes) (hf : s.length ≤ fuel) :
    Repairs s (toValidFrom fuel false s) ∧
      ∃ x rest, s = x ++ rest ∧ BadRun x rest ∧ Repairs rest (toValidFrom fuel true s) := by
  induction fuel generalizing s with
  | zero =>
    rw [length_eq_zero_iff.mp (Nat.le_zero.mp hf)]
    exact ⟨.nil, [], [], rfl, .nil (Or.inl rfl), .nil⟩
  | succ fuel ih =>
    by_cases hstart : runeLen s = 0
    · cases s with
      | nil => exact ⟨.nil, [], [], rfl, .nil (Or.inl rfl), .nil⟩
      | cons b s =>
        obtain ⟨_, x, rest, rfl, hrun, hrest⟩ := ih s (Nat.le_of_succ_le_succ hf)
        rw [toValidFrom_bad hstart, toValidFrom_bad hstart]
        have hrun' := hrun.cons hstart
        exact ⟨.run (cons_ne_nil _ _) hrun' hrest, b :: x, rest, rfl, hrun', hrest⟩
    · obtain ⟨x, y, hx, rfl⟩ := exists_rune hstart
      have hpos := length_pos_iff.mpr hx.ne_nil
      rw [length_append] at hf
      obtain ⟨hy, _⟩ := ih y (by omega)
      rw [toValidFrom_rune hx, toValidFrom_rune hx]
      exact ⟨.rune hx hy, [], x ++ y, rfl, .nil (Or.inr hstart), .rune hx hy⟩

theorem repairs_toValidUTF8 (s : Bytes) : Repairs s (toValidUTF8 s) :=
  (repairs_toValidFrom s.length s (Nat.le_refl _)).1

theorem BadRun.toValidFrom_eq (h : BadRun x s) (fuel : Nat) :
    toValidFrom (x.length + fuel) true (x ++ s) = toValidFrom fuel false s := by
  induction x with
  | nil =>
    rw [length_nil, Nat.zero_add, nil_append]
    rcases h.ends with rfl | hstart
    · rw [toValidFrom_nil, toValidFrom_nil]
    · obtain ⟨y, z, hy, rfl⟩ := exists_rune hstart
      cases fuel with
      | zero =>
        obtain ⟨b, bs, rfl⟩ := exists_cons_of_ne_nil hy.ne_nil
        rfl
      | succ fuel => rw [toValidFrom_rune hy, toValidFrom_rune hy]
  | cons b x ih =>
    rw [length_cons, Nat.add_right_comm, cons_append, toValidFrom_bad h.head]
    exact ih h.tail

theorem Repairs.toValidFrom_eq (h : Repairs s t) (fuel : Nat) (hf : s.length ≤ fuel) :
    toValidFrom fuel false s = t := by
  induction h generalizing fuel with
  | nil => exact toValidFrom_nil fuel false
  | @rune x s t hx _ ih =>
    have hpos := length_pos_iff.mpr hx.ne_nil
    rw [length_append] at hf
    obtain ⟨fuel, rfl⟩ : ∃ n, fuel = n + 1 := ⟨fuel - 1, by omega⟩
    rw [toValidFrom_rune hx, ih fuel (by omega)]
  | @run x s t hne hx _ ih =>
    obtain ⟨b, x, rfl⟩ := exists_cons_of_ne_nil hne
    rw [length_append, length_cons] at hf
    obtain ⟨n, rfl⟩ : ∃ n, fuel = x.length + n + 1 := ⟨fuel - x.length - 1, by omega⟩
    rw [cons_append, toValidFrom_bad hx.head, hx.tail.toValidFrom_eq, ih n (by omega)]
    rfl

theorem Repairs.unique (h : Repairs s t) : t = toValidUTF8 s :=
  (h.toValidFrom_eq s.length (Nat.le_refl _)).symm

/-! ## valid messages -/

theorem utf8_of_validFrom {fuel : Nat} (h : validFrom fuel s = true) : Utf8 s := by
  induction fuel generalizing s with
  | zero =>
    cases s with
    | nil => exact .nil
    | cons b s => cases h
  | succ fuel ih =>
    cases s with
    | nil => exact .nil
    | cons b s =>
      rw [validFrom_cons] at h
      split at h
      · cases h
      · rename_i hstart
        obtain ⟨x, y, hx, he⟩ := exists_rune hstart
        rw [he, hx.runeLen_append, drop_left] at h
        rw [he]
        exact .cons hx (ih h)

theorem utf8_iff : Utf8 s ↔ validString s = true := ⟨Utf8.validString, utf8_of_validFrom⟩

theorem Repairs.sanitized_eq (h : Repairs s t) : sanitized s = t := by
  rw [h.unique]
  unfold sanitized
  split
  · rename_i hvalid
    exact (utf8_iff.mpr hvalid).repairs.unique
  · rfl

/-! ## the cut -/

theorem Rune.length_le (h : Rune x) : x.length ≤ 4 := by
  cases h <;> simp

theorem Utf8.exists_take (h : Utf8 s) (n : Nat) (hn : n ≤ s.length) :
    ∃ m ≤ n, n ≤ m + 3 ∧ Utf8 (s.take m) ∧ 0 ∉ (s.take n).drop m := by
  induction h generalizing n with
  | nil =>
    obtain rfl : n = 0 := Nat.le_zero.mp hn
    exact ⟨0, Nat.le_refl 0, Nat.zero_le _, .nil, not_mem_nil⟩
  | @cons x y hx _ ih =>
    have hlen := hx.length_le
    rw [length_append] at hn
    by_cases hin : n < x.length
    · refine ⟨0, Nat.zero_le _, by omega, .nil, ?_⟩
      rw [drop_zero, take_append_of_le_length (Nat.le_of_lt hin)]
      exact hx.zero_notMem_take hin
    · obtain ⟨m, hle, hlast, hm, hzero⟩ := ih (n - x.length) (by omega)
      refine ⟨x.length + m, by omega, by omega, ?_, ?_⟩
      · rw [take_length_add_append]
        exact .cons hx hm
      · rw [take_append, take_of_length_le (Nat.le_of_not_lt hin), drop_length_add_append]
        exact hzero

/-- the loop stops at the last boundary, or before it is reached -/
theorem le_length_trimToValid {fuel m : Nat} (hm : Utf8 (s.take m)) (hle : m ≤ s.length)
    (hf : s.length < fuel + m) : m ≤ (trimToValid fuel s).length := by
  induction fuel generalizing s with
  | zero => omega
  | succ fuel ih =>
    rw [trimToValid]
    split
    · exact hle
    · rename_i hvalid
      have hne : m ≠ s.length := by
        intro he
        rw [he, take_length] at hm
        exact hvalid hm.validString
      have hlast : s.dropLast.length = s.length - 1 := length_dropLast
      apply ih
      · rw [dropLast_eq_take, take_take, Nat.min_eq_left (by omega)]
        exact hm
      · omega
      · omega

/-! ## the stored reason -/

/-- `r` is what is kept of the text `t` -/
structure KeptOf (t r : Bytes) : Prop where
  valid : validString r = true
  length_le : r.length ≤ maxErrorMessageLength
  isPrefix : r <+: t
  all : t.length ≤ maxErrorMessageLength → r = t
  most : maxErrorMessageLength < t.length → maxErrorMessageLength - 3 ≤ r.length

section
variable {msg : Bytes}

theorem Repairs.truncateErrorMsg_eq (h : Repairs msg t) : truncateErrorMsg msg =
    if t.length ≤ maxErrorMessageLength then t
    else trimToValid maxErrorMessageLength (t.take maxErrorMessageLength) := by
  rw [PgQueue.truncateErrorMsg_eq, h.sanitized_eq]

theorem Repairs.truncateErrorMsg_prefix (h : Repairs msg t) :
    truncateErrorMsg msg <+: t.take maxErrorMessageLength := by
  rw [h.truncateErrorMsg_eq]
  split
  · rename_i hfits
    have htake : t.take maxErrorMessageLength = t := take_of_length_le hfits
    exact htake.symm ▸ prefix_rfl
  · exact prefix_trimToValid _ _

/-- what is cut behind the last boundary is less than a character -/
theorem Repairs.exists_boundary (h : Repairs msg t) : ∃ m, maxErrorMessageLength ≤ m + 3 ∧
    t.take m <+: truncateErrorMsg msg ∧ 0 ∉ (t.take maxErrorMessageLength).drop m := by
  by_cases hfits : t.length ≤ maxErrorMessageLength
  · refine ⟨maxErrorMessageLength, Nat.le_add_right _ _, ?_, ?_⟩
    · rw [h.truncateErrorMsg_eq, if_pos hfits]
      exact take_prefix _ _
    · rw [drop_of_length_le (length_take_le _ _)]
      exact not_mem_nil
  · have hlong := Nat.lt_of_not_le hfits
    have htext : Utf8 t := by
      rw [h.unique]
      exact utf8_toValidFrom _ _ _
    obtain ⟨m, hle, hlast, hm, hzero⟩ := htext.exists_take maxErrorMessageLength (Nat.le_of_lt hlong)
    refine ⟨m, hlast, ?_, hzero⟩
    have hcut : (t.take maxErrorMessageLength).length = maxErrorMessageLength :=
      length_take_of_le (Nat.le_of_lt hlong)
    have htake : (t.take maxErrorMessageLength).take m = t.take m := by
      rw [take_take, Nat.min_eq_left hle]
    have hkept : m ≤ (trimToValid maxErrorMessageLength (t.take maxErrorMessageLength)).length := by
      have : maxErrorMessageLength = 1024 := rfl
      apply le_length_trimToValid
      · rw [htake]
        exact hm
      · omega
      · omega
    rw [h.truncateErrorMsg_eq, if_neg hfits, ← htake]
    refine prefix_of_prefix_length_le (List.take_prefix _ _) (prefix_trimToValid _ _) ?_
    exact (length_take_le _ _).trans hkept

theorem Repairs.kept (h : Repairs msg t) : KeptOf t (truncateErrorMsg msg) := by
  refine ⟨validString_truncateErrorMsg msg, length_truncateErrorMsg_le msg,
    h.truncateErrorMsg_prefix.trans (List.take_prefix _ _), fun hfits => ?_, fun hlong => ?_⟩
  · rw [h.truncateErrorMsg_eq, if_pos hfits]
  · obtain ⟨m, hlast, hm, -⟩ := h.exists_boundary
    have hle := hm.length_le
    rw [length_take] at hle
    omega

theorem Repairs.zero_mem_truncateErrorMsg (h : Repairs msg t) :
    0 ∈ truncateErrorMsg msg ↔ 0 ∈ t.take maxErrorMessageLength := by
  refine ⟨fun h0 => h.truncateErrorMsg_prefix.subset h0, fun h0 => ?_⟩
  obtain ⟨m, -, hm, hzero⟩ := h.exists_boundary
  rw [← take_append_drop m (t.take maxErrorMessageLength)] at h0
  refine hm.subset ?_
  have h1 := (mem_append.mp h0).resolve_right hzero
  rw [take_take] at h1
  exact (take_prefix_take_left (Nat.min_le_left _ _)).subset h1

theorem Repairs.zero_mem (h : Repairs msg t) (h0 : (0 : UInt8) ∈ t) : (0 : UInt8) ∈ msg := by
  induction h with
  | nil => exact h0
  | rune _ _ ih => exact mem_append.mpr ((mem_append.mp h0).imp id ih)
  | run _ _ _ ih =>
    rcases mem_append.mp h0 with h0 | h0
    · exact absurd h0 (by decide)
    · exact mem_append_right _ (ih h0)

end

/-- **As much is kept as may be.**  Every byte string has one repaired text.  What is stored is valid
UTF-8 of at most 1024 bytes and starts this text; it is the whole text where that fits, and at least
1021 bytes of it where it does not.  Storing it again changes nothing. -/
theorem truncateErrorMsg_keeps (msg : Bytes) :
    (∃ t, Repairs msg t ∧ ∀ t', Repairs msg t' → t' = t) ∧
      (∀ t, Repairs msg t → KeptOf t (truncateErrorMsg msg)) ∧
      truncateErrorMsg (truncateErrorMsg msg) = truncateErrorMsg msg :=
  ⟨⟨toValidUTF8 msg, repairs_toValidUTF8 msg, fun _ h => h.unique⟩, fun _ h => h.kept,
    truncateErrorMsg_truncateErrorMsg msg⟩

-- two bytes of a cut character and a stray one are one run; the character behind them is kept
example : Repairs [0x41, 0xE2, 0x82, 0xFF, 0x42] (0x41 :: replacement ++ [0x42]) :=
  repairs_toValidUTF8 [0x41, 0xE2, 0x82, 0xFF, 0x42]

end PgQueue
