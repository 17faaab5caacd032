import PgQueue.Types

/-!
# What is stored of a failure reason

`truncateErrorMsg` makes every byte string a text of at most 1024 bytes.

* `Rune`, `Utf8`                  one UTF-8 character, and a sequence of them;
* `validString_truncateErrorMsg`  **the result is valid UTF-8, whatever the reason was;**
* `Rune.zero_notMem_take`         a zero byte is a character and not a part of a longer one.
-/

namespace PgQueue
open List

/-! ## characters -/

/-- the bytes of one character, as `runeLen` tells the four lengths apart -/
inductive Rune : Bytes → Prop
  | one {b0 : UInt8} (h : b0 < 0x80) : Rune [b0]
  | two {b0 b1 : UInt8} (h1 : ¬b0 < 0x80) (h2 : 0xC2 ≤ b0 ∧ b0 ≤ 0xDF)
      (hb : isContinuation b1 = true) : Rune [b0, b1]
  | three {b0 b1 b2 : UInt8} (h1 : ¬b0 < 0x80) (h2 : ¬(0xC2 ≤ b0 ∧ b0 ≤ 0xDF))
      (h3 : 0xE0 ≤ b0 ∧ b0 ≤ 0xEF) (hb : (secondOfThree b0 b1 && isContinuation b2) = true) :
      Rune [b0, b1, b2]
  | four {b0 b1 b2 b3 : UInt8} (h1 : ¬b0 < 0x80) (h2 : ¬(0xC2 ≤ b0 ∧ b0 ≤ 0xDF))
      (h3 : ¬(0xE0 ≤ b0 ∧ b0 ≤ 0xEF)) (h4 : 0xF0 ≤ b0 ∧ b0 ≤ 0xF4)
      (hb : (secondOfFour b0 b1 && isContinuation b2 && isContinuation b3) = true) :
      Rune [b0, b1, b2, b3]

theorem Rune.ne_nil {x : Bytes} (h : Rune x) : x ≠ [] := by cases h <;> exact cons_ne_nil _ _

theorem Rune.runeLen_append {x : Bytes} (h : Rune x) (y : Bytes) : runeLen (x ++ y) = x.length := by
  cases h with
  | one h => exact if_pos h
  | two h1 h2 hb =>
    simp only [cons_append, nil_append, runeLen]
    rw [if_neg h1, if_pos h2, if_pos hb]
    rfl
  | three h1 h2 h3 hb =>
    simp only [cons_append, nil_append, runeLen]
    rw [if_neg h1, if_neg h2, if_pos h3, if_pos hb]
    rfl
  | four h1 h2 h3 h4 hb =>
    simp only [cons_append, nil_append, runeLen]
    rw [if_neg h1, if_neg h2, if_neg h3, if_pos h4, if_pos hb]
    rfl

theorem Rune.zero_notMem_take {x : Bytes} (h : Rune x) {n : Nat} (hn : n < x.length) :
    (0 : UInt8) ∉ x.take n := by
  cases h with
  | one =>
    obtain rfl : n = 0 := Nat.lt_one_iff.mp hn
    exact not_mem_nil
  | two h1 h2 hb =>
    refine fun h0 => absurd (mem_of_mem_take h0) ?_
    grind [isContinuation]
  | three h1 h2 h3 hb =>
    refine fun h0 => absurd (mem_of_mem_take h0) ?_
    grind [isContinuation, secondOfThree]
  | four h1 h2 h3 h4 hb =>
    refine fun h0 => absurd (mem_of_mem_take h0) ?_
    grind [isContinuation, secondOfFour]

theorem exists_rune {bs : Bytes} (h : runeLen bs ≠ 0) : ∃ x y, Rune x ∧ bs = x ++ y := by
  unfold runeLen at h
  split at h
  · exact absurd rfl h
  rename_i b0 bs
  split_ifs at h with h1 h2 h3 h4
  · exact ⟨[b0], bs, .one h1, rfl⟩
  · split at h
    · rename_i b1 bs
      exact ⟨[b0, b1], bs, .two h1 h2 (by_contra fun hb => h (if_neg hb)), rfl⟩
    · exact absurd rfl h
  · split at h
    · rename_i b1 b2 bs
      exact ⟨[b0, b1, b2], bs, .three h1 h2 h3 (by_contra fun hb => h (if_neg hb)), rfl⟩
    · exact absurd rfl h
  · split at h
    · rename_i b1 b2 b3 bs
      exact ⟨[b0, b1, b2, b3], bs, .four h1 h2 h3 h4 (by_contra fun hb => h (if_neg hb)), rfl⟩
    · exact absurd rfl h
  · exact absurd rfl h

/-! ## texts -/

inductive Utf8 : Bytes → Prop
  | nil : Utf8 []
  | cons {x y : Bytes} (hx : Rune x) (hy : Utf8 y) : Utf8 (x ++ y)

theorem validFrom_cons (fuel : Nat) (b : UInt8) (bs : Bytes) :
    validFrom (fuel + 1) (b :: bs) = if runeLen (b :: bs) = 0 then false
      else validFrom fuel ((b :: bs).drop (runeLen (b :: bs))) := rfl

theorem Utf8.validFrom {bs : Bytes} (h : Utf8 bs) (fuel : Nat) (hf : bs.length ≤ fuel) :
    validFrom fuel bs = true := by
  induction h generalizing fuel with
  | nil => cases fuel <;> rfl
  | @cons x y hx _ ih =>
    have hpos := length_pos_iff.mpr hx.ne_nil
    rw [length_append] at hf
    obtain ⟨fuel, rfl⟩ : ∃ n, fuel = n + 1 := ⟨fuel - 1, by omega⟩
    have hlen := hx.runeLen_append y
    obtain ⟨b, bs, hb⟩ := exists_cons_of_ne_nil hx.ne_nil
    rw [hb] at hlen ⊢
    rw [cons_append, validFrom_cons, ← cons_append, hlen, ← hb, if_neg (by omega),
      drop_left]
    exact ih fuel (by omega)

theorem Utf8.validString {bs : Bytes} (h : Utf8 bs) : validString bs = true :=
  h.validFrom _ (Nat.le_refl _)

theorem rune_replacement : Rune replacement :=
  .three (by decide) (by decide) (by decide) (by decide)

/-! ## the sanitiser -/

theorem toValidFrom_cons (fuel : Nat) (inRun : Bool) (b : UInt8) (bs : Bytes) :
    toValidFrom (fuel + 1) inRun (b :: bs) =
      if runeLen (b :: bs) = 0 then (if inRun then [] else replacement) ++ toValidFrom fuel true bs
      else (b :: bs).take (runeLen (b :: bs)) ++
        toValidFrom fuel false ((b :: bs).drop (runeLen (b :: bs))) := rfl

theorem utf8_toValidFrom (fuel : Nat) (inRun : Bool) (bs : Bytes) :
    Utf8 (toValidFrom fuel inRun bs) := by
  induction fuel generalizing inRun bs with
  | zero => cases bs <;> exact .nil
  | succ fuel ih =>
    cases bs with
    | nil => exact .nil
    | cons b bs =>
      rw [toValidFrom_cons]
      split
      · cases inRun with
        | true => exact ih true bs
        | false => exact .cons rune_replacement (ih true bs)
      · rename_i h
        obtain ⟨x, y, hx, he⟩ := exists_rune h
        rw [he, hx.runeLen_append, take_left, drop_left]
        exact .cons hx (ih false y)

theorem validString_trimToValid (fuel : Nat) (bs : Bytes) :
    validString (trimToValid fuel bs) = true := by
  induction fuel generalizing bs with
  | zero => rfl
  | succ fuel ih =>
    rw [trimToValid]
    split
    · assumption
    · exact ih _

theorem prefix_trimToValid (fuel : Nat) (bs : Bytes) : trimToValid fuel bs <+: bs := by
  induction fuel generalizing bs with
  | zero => exact nil_prefix
  | succ fuel ih =>
    rw [trimToValid]
    split
    · exact prefix_rfl
    · exact (ih _).trans (List.dropLast_prefix bs)

/-! ## the stored reason -/

def sanitized (msg : Bytes) : Bytes := if validString msg then msg else toValidUTF8 msg

section
variable (msg : Bytes)

theorem truncateErrorMsg_eq :
    truncateErrorMsg msg =
      if (sanitized msg).length ≤ maxErrorMessageLength then sanitized msg
      else trimToValid maxErrorMessageLength ((sanitized msg).take maxErrorMessageLength) := by
  by_cases h : validString msg ∧ msg.length ≤ maxErrorMessageLength
  · have hs : sanitized msg = msg := if_pos h.1
    rw [hs, if_pos h.2]
    exact if_pos h
  · exact if_neg h

theorem validString_sanitized : validString (sanitized msg) = true := by
  unfold sanitized
  split
  · assumption
  · exact (utf8_toValidFrom _ _ _).validString

/-- **Every byte string becomes valid UTF-8.** -/
theorem validString_truncateErrorMsg : validString (truncateErrorMsg msg) = true := by
  rw [truncateErrorMsg_eq]
  split
  · exact validString_sanitized msg
  · exact validString_trimToValid _ _

theorem length_truncateErrorMsg_le : (truncateErrorMsg msg).length ≤ maxErrorMessageLength := by
  rw [truncateErrorMsg_eq]
  split
  · assumption
  · exact (prefix_trimToValid _ _).length_le.trans (length_take_le _ _)

theorem truncateErrorMsg_truncateErrorMsg :
    truncateErrorMsg (truncateErrorMsg msg) = truncateErrorMsg msg :=
  if_pos ⟨validString_truncateErrorMsg msg, length_truncateErrorMsg_le msg⟩

end

end PgQueue
