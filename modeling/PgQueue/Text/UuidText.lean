import PgQueue.Text.ArrayLiteral

/-!
# The text of a UUID

* `uuidText`            sixteen bytes in lower-case hexadecimal, in groups of 4, 2, 2, 2 and 6 bytes;
* `uuidIn`              PostgreSQL's reader: digits of either case, a hyphen after any four of them or none,
                        braces around it or none;
* `uuidIn_uuidText`     **what was written is read back;**
* `plain_uuidText`      it needs no quotes in an array.
-/

namespace Text
open List

/-! ## hexadecimal -/

def hexDigit (n : Nat) : Char := ['0', '1', '2', '3', '4', '5', '6', '7', '8', '9', 'a', 'b', 'c', 'd', 'e',
  'f'].getD n '0'

def hexByte (b : UInt8) : List Char := [hexDigit (b.toNat / 16), hexDigit (b.toNat % 16)]

def hexText (bs : List UInt8) : List Char := bs.flatMap hexByte

def hexValue (c : Char) : Option Nat :=
  if '0' ≤ c ∧ c ≤ '9' then some (c.toNat - '0'.toNat)
  else if 'a' ≤ c ∧ c ≤ 'f' then some (c.toNat - 'a'.toNat + 10)
  else if 'A' ≤ c ∧ c ≤ 'F' then some (c.toNat - 'A'.toNat + 10)
  else none

theorem hexDigit_fin : ∀ n : Fin 16, hexValue (hexDigit n) = some n.val ∧ hexDigit n ≠ '-' ∧
    hexDigit n ≠ openBrace ∧ plainChar (hexDigit n) = true := by
  decide

theorem hexDigit_lt {n : Nat} (h : n < 16) : hexValue (hexDigit n) = some n ∧ hexDigit n ≠ '-' ∧
    hexDigit n ≠ openBrace ∧ plainChar (hexDigit n) = true :=
  hexDigit_fin ⟨n, h⟩

theorem high_lt (b : UInt8) : b.toNat / 16 < 16 := by
  have := b.toNat_lt
  omega

theorem low_lt (b : UInt8) : b.toNat % 16 < 16 := Nat.mod_lt _ (by decide)

/-! ## a UUID -/

/-- the groups are those of `String` -/
def uuidText (bs : List UInt8) : List Char :=
  hexText (bs.take 4) ++ '-' :: hexText ((bs.drop 4).take 2) ++ '-' :: hexText ((bs.drop 6).take 2) ++
    '-' :: hexText ((bs.drop 8).take 2) ++ '-' :: hexText (bs.drop 10)

def skipHyphen : List Char → List Char
  | [] => []
  | c :: s => if c = '-' then s else c :: s

/-- `n` bytes, and what is left; a hyphen may follow every second byte but the last -/
def uuidBytes : Nat → List Char → Option (List UInt8 × List Char)
  | 0, s => some ([], s)
  | n + 1, a :: b :: s =>
    match hexValue a, hexValue b with
    | some x, some y =>
      (uuidBytes n (if n % 2 = 0 ∧ n ≠ 0 then skipHyphen s else s)).map fun p =>
        (.ofNat (16 * x + y) :: p.1, p.2)
    | _, _ => none
  | _ + 1, _ => none

def uuidIn : List Char → Option (List UInt8)
  | [] => none
  | c :: s =>
    if c = openBrace then
      match uuidBytes 16 s with
      | some (bs, rest) => if rest = [closeBrace] then some bs else none
      | none => none
    else
      match uuidBytes 16 (c :: s) with
      | some (bs, rest) => if rest = [] then some bs else none
      | none => none

section
variable {n : Nat} {b b' : UInt8} {s : List Char} {bs : List UInt8}

theorem uuidBytes_hexByte : uuidBytes (n + 1) (hexByte b ++ s) =
    (uuidBytes n (if n % 2 = 0 ∧ n ≠ 0 then skipHyphen s else s)).map fun p => (b :: p.1, p.2) := by
  have hb : UInt8.ofNat (16 * (b.toNat / 16) + b.toNat % 16) = b := by
    rw [Nat.div_add_mod, UInt8.ofNat_toNat]
  show uuidBytes (n + 1) (hexDigit (b.toNat / 16) :: hexDigit (b.toNat % 16) :: s) = _
  rw [uuidBytes, (hexDigit_lt (high_lt b)).1, (hexDigit_lt (low_lt b)).1]
  dsimp only
  rw [hb]

theorem skipHyphen_hexByte : skipHyphen (hexByte b ++ s) = hexByte b ++ s :=
  if_neg (hexDigit_lt (high_lt b)).2.1

theorem skipHyphen_hyphen : skipHyphen ('-' :: s) = s := rfl

theorem uuidBytes_pair (hn : n % 2 = 0) : uuidBytes (n + 2) (hexByte b ++ (hexByte b' ++ s)) =
    (uuidBytes n (if n = 0 then s else skipHyphen s)).map fun p => (b :: b' :: p.1, p.2) := by
  have hodd : ¬((n + 1) % 2 = 0 ∧ n + 1 ≠ 0) := by omega
  rw [uuidBytes_hexByte, if_neg hodd, uuidBytes_hexByte, Option.map_map]
  by_cases h0 : n = 0
  · rw [if_neg fun h => h.2 h0, if_pos h0]
    rfl
  · rw [if_pos ⟨hn, h0⟩, if_neg h0]
    rfl

theorem uuidBytes_hexText {k : Nat} {group : List UInt8} (hk : group.length = 2 * (k + 1)) (hn : n % 2 = 0) :
    uuidBytes (n + 2 * (k + 1)) (hexText group ++ s) =
      (uuidBytes n (if n = 0 then s else skipHyphen s)).map fun p => (group ++ p.1, p.2) := by
  induction k generalizing group with
  | zero =>
    obtain ⟨b, b', rfl⟩ := length_eq_two.mp hk
    exact uuidBytes_pair hn
  | succ k ih =>
    obtain ⟨b, b', group, rfl⟩ : ∃ b b' g, group = b :: b' :: g := by
      match group, hk with
      | b :: b' :: g, _ => exact ⟨b, b', g, rfl⟩
    have hlen : group.length = 2 * (k + 1) := by
      rw [length_cons, length_cons] at hk
      omega
    obtain ⟨c, group, rfl⟩ := exists_cons_of_ne_nil (ne_nil_of_length_eq_add_one hlen)
    have hnext : hexText (c :: group) ++ s = hexByte c ++ (hexText group ++ s) := append_assoc _ _ _
    show uuidBytes (n + 2 * (k + 1) + 2) (hexByte b ++ (hexByte b' ++ (hexText (c :: group) ++ s))) = _
    rw [uuidBytes_pair (by omega), if_neg (by omega), hnext, skipHyphen_hexByte, ← hnext, ih hlen,
      Option.map_map]
    rfl

theorem uuidBytes_uuidText (h : bs.length = 16) : uuidBytes 16 (uuidText bs) = some (bs, []) := by
  have hsplit : ∀ m k, (bs.drop m).take k ++ bs.drop (m + k) = bs.drop m := by
    intro m k
    rw [← drop_drop, take_append_drop]
  have htext : uuidText bs = hexText (bs.take 4) ++ '-' :: (hexText ((bs.drop 4).take 2) ++
      '-' :: (hexText ((bs.drop 6).take 2) ++ '-' :: (hexText ((bs.drop 8).take 2) ++
        '-' :: (hexText (bs.drop 10) ++ [])))) := by
    unfold uuidText
    simp only [append_assoc, cons_append, append_nil]
  rw [htext, uuidBytes_hexText (n := 12) (k := 1) (by simp [h]) rfl, if_neg (by decide), skipHyphen_hyphen,
    uuidBytes_hexText (n := 10) (k := 0) (by simp [h]) rfl, if_neg (by decide), skipHyphen_hyphen,
    uuidBytes_hexText (n := 8) (k := 0) (by simp [h]) rfl, if_neg (by decide), skipHyphen_hyphen,
    uuidBytes_hexText (n := 6) (k := 0) (by simp [h]) rfl, if_neg (by decide), skipHyphen_hyphen,
    uuidBytes_hexText (n := 0) (k := 2) (by simp [h]) rfl, if_pos rfl, uuidBytes]
  simp only [Option.map_some, append_nil, hsplit 8 2, hsplit 6 2, hsplit 4 2, take_append_drop]

/-- **What was written is read back.** -/
theorem uuidIn_uuidText (h : bs.length = 16) : uuidIn (uuidText bs) = some bs := by
  have hread := uuidBytes_uuidText h
  obtain ⟨b, bs, rfl⟩ := exists_cons_of_length_eq_add_one h
  have htext : uuidText (b :: bs) = hexDigit (b.toNat / 16) :: (uuidText (b :: bs)).tail := rfl
  rw [htext] at hread ⊢
  rw [uuidIn, if_neg (hexDigit_lt (high_lt b)).2.2.1, hread]
  rfl

/-! ## in an array -/

theorem plainChar_hexText (bs : List UInt8) : ∀ c ∈ hexText bs, plainChar c = true := by
  intro c hc
  obtain ⟨b, -, hc⟩ := mem_flatMap.mp hc
  rcases mem_cons.mp hc with rfl | hc
  · exact (hexDigit_lt (high_lt b)).2.2.2
  · rw [mem_singleton.mp hc]
    exact (hexDigit_lt (low_lt b)).2.2.2

theorem length_hexText (bs : List UInt8) : (hexText bs).length = 2 * bs.length := by
  induction bs with
  | nil => rfl
  | cons b bs ih =>
    show (hexByte b ++ hexText bs).length = _
    rw [length_append, ih, length_cons]
    show 2 + _ = _
    omega

theorem plain_uuidText (h : bs.length = 16) : Plain (uuidText bs) := by
  have hlen : (uuidText bs).length = 36 := by
    simp only [uuidText, length_append, length_cons, length_hexText, length_take,
      length_drop, h]
    rfl
  refine ⟨?_, ?_, ?_⟩
  · intro hnil
    rw [hnil] at hlen
    cases hlen
  · intro c hc
    have hhyphen : plainChar '-' = true := by decide
    simp only [uuidText, mem_append, mem_cons] at hc
    rcases hc with (((hc | rfl | hc) | rfl | hc) | rfl | hc) | rfl | hc
    all_goals first | exact plainChar_hexText _ c hc | exact hhyphen
  · intro hnull
    have hlen' := congrArg List.length hnull
    rw [length_map, hlen] at hlen'
    cases hlen'

end
end Text
