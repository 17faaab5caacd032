import Mathlib.Tactic.Ring
import PgQueue.Types

/-!
# UUIDv7: a timestamp and a counter

`NewUUIDv7` stamps an id with the millisecond of the process clock (48 bits) and a counter (12 bits),
the rest is random.  The clock may repeat or go back; then the millisecond stays and the counter goes
on, and when the counter is used up the clock is read once more.

* `newUUIDv7At`        one call, with the clock readings and the random bytes it gets;
* `V7State.floor`      where the ids that are still to come start;
* `floor_le_newUUIDv7At`, `newUUIDv7At_lt_floor`   **an id is not below the floor before it and below
                       the floor after it**, as long as its millisecond has 48 bits.
-/

namespace PgQueue
open List

/-- the shared state of the callers; the counter has 12 bits -/
structure V7State where
  lastMS : Nat
  counter : Nat
  fits : counter ≤ 0x0fff
deriving DecidableEq, Repr

structure RandomBytes where
  b6 : UInt8
  b7 : UInt8
  b8 : UInt8
  rest : Bytes
  length : rest.length = 7
deriving DecidableEq, Repr

/-- what one call gets from outside: the clock at its start, the clock if the counter is used up, and
the random bytes, `none` if reading them fails -/
structure Tick where
  nowMS : Nat
  rereadMS : Nat
  random : Option RandomBytes
deriving DecidableEq, Repr

/-- the counter of a new millisecond; its top bit is clear -/
def seed (r : RandomBytes) : Nat := (r.b6.toNat <<< 8 ||| r.b7.toNat) &&& 0x07ff

theorem seed_le (r : RandomBytes) : seed r ≤ 0x0fff :=
  Nat.le_trans Nat.and_le_right (by decide)

/-- the section under the mutex -/
def V7State.advance (u : V7State) (t : Tick) (r : RandomBytes) : V7State :=
  if t.nowMS > u.lastMS then ⟨t.nowMS, seed r, seed_le r⟩
  else if h : u.counter + 1 > 0x0fff then
    if t.rereadMS > u.lastMS then ⟨t.rereadMS, 0, by decide⟩ else ⟨u.lastMS + 1, 0, by decide⟩
  else ⟨u.lastMS, u.counter + 1, Nat.le_of_not_lt h⟩

def layout (ms counter : Nat) (r : RandomBytes) : Bytes :=
  [.ofNat (ms / 2 ^ 40), .ofNat (ms / 2 ^ 32), .ofNat (ms / 2 ^ 24), .ofNat (ms / 2 ^ 16),
    .ofNat (ms / 2 ^ 8), .ofNat ms, UInt8.ofNat (counter / 2 ^ 8) &&& 0x0f ||| 0x70, .ofNat counter,
    r.b8 &&& 0x3f ||| 0x80] ++ r.rest

/-- a UUID is compared byte by byte, as this number -/
def bigEndian (bs : Bytes) : Nat := bs.foldl (fun n b => n * 2 ^ 8 + b.toNat) 0

def newUUIDv7At (t : Tick) (u : V7State) : Option UUID × V7State :=
  match t.random with
  | none => (none, u)
  | some r =>
    let u' := u.advance t r
    (some (bigEndian (layout u'.lastMS u'.counter r)), u')

/-! ## the number of an id -/

theorem foldl_bigEndian (bs : Bytes) (n : Nat) :
    bs.foldl (fun n b => n * 2 ^ 8 + b.toNat) n = n * 2 ^ (8 * bs.length) + bigEndian bs := by
  unfold bigEndian
  induction bs generalizing n with
  | nil => simp
  | cons b bs ih =>
    rw [foldl_cons, foldl_cons, ih, ih (0 * 2 ^ 8 + b.toNat), length_cons, Nat.mul_add,
      Nat.pow_add, Nat.mul_one]
    ring

theorem bigEndian_append (as bs : Bytes) :
    bigEndian (as ++ bs) = bigEndian as * 2 ^ (8 * bs.length) + bigEndian bs := by
  show (as ++ bs).foldl _ 0 = _
  rw [foldl_append, foldl_bigEndian]
  rfl

theorem bigEndian_lt (bs : Bytes) : bigEndian bs < 2 ^ (8 * bs.length) := by
  induction bs with
  | nil => decide
  | cons b bs ih =>
    have hb := b.toNat_lt
    have hcons : bigEndian (b :: bs) = b.toNat * 2 ^ (8 * bs.length) + bigEndian bs := by
      show bs.foldl _ (0 * 2 ^ 8 + b.toNat) = _
      rw [foldl_bigEndian, Nat.zero_mul, Nat.zero_add]
    calc bigEndian (b :: bs)
        < b.toNat * 2 ^ (8 * bs.length) + 2 ^ (8 * bs.length) := by omega
      _ = (b.toNat + 1) * 2 ^ (8 * bs.length) := by ring
      _ ≤ 2 ^ 8 * 2 ^ (8 * bs.length) := Nat.mul_le_mul_right _ (by omega)
      _ = 2 ^ (8 * (b :: bs).length) := by rw [length_cons, ← Nat.pow_add]; congr 1; omega

theorem version_toNat (n : Nat) :
    (UInt8.ofNat n &&& 0x0f ||| 0x70).toNat = 0x70 + n % 2 ^ 4 := by
  have hbyte : ∀ b : Fin 256, (UInt8.ofNat b &&& 0x0f ||| 0x70).toNat = 0x70 + b.val % 2 ^ 4 := by
    decide +kernel
  have hmod : UInt8.ofNat n = UInt8.ofNat (n % 256) := by
    apply UInt8.toNat_inj.mp
    simp
  have := hbyte ⟨n % 256, Nat.mod_lt _ (by decide)⟩
  rw [hmod, this]
  show _ + n % 256 % 2 ^ 4 = _
  omega

theorem bigEndian_layout {ms counter : Nat} (hms : ms < 2 ^ 48) (hc : counter ≤ 0x0fff)
    (r : RandomBytes) :
    ∃ low < 2 ^ 64, bigEndian (layout ms counter r) = (ms * 2 ^ 16 + 0x7000 + counter) * 2 ^ 64 + low := by
  have hsplit : layout ms counter r =
      [.ofNat (ms / 2 ^ 40), .ofNat (ms / 2 ^ 32), .ofNat (ms / 2 ^ 24), .ofNat (ms / 2 ^ 16),
        .ofNat (ms / 2 ^ 8), .ofNat ms, UInt8.ofNat (counter / 2 ^ 8) &&& 0x0f ||| 0x70,
        .ofNat counter] ++ ((r.b8 &&& 0x3f ||| 0x80) :: r.rest) := rfl
  have hlen : ((r.b8 &&& 0x3f ||| 0x80) :: r.rest).length = 8 := by
    rw [length_cons, r.length]
  have hstamp : bigEndian [.ofNat (ms / 2 ^ 40), .ofNat (ms / 2 ^ 32), .ofNat (ms / 2 ^ 24),
      .ofNat (ms / 2 ^ 16), .ofNat (ms / 2 ^ 8), .ofNat ms,
      UInt8.ofNat (counter / 2 ^ 8) &&& 0x0f ||| 0x70, .ofNat counter] =
        ms * 2 ^ 16 + 0x7000 + counter := by
    unfold bigEndian
    simp only [foldl_cons, foldl_nil, version_toNat, UInt8.toNat_ofNat']
    omega
  refine ⟨bigEndian ((r.b8 &&& 0x3f ||| 0x80) :: r.rest), ?_, ?_⟩
  · have := bigEndian_lt ((r.b8 &&& 0x3f ||| 0x80) :: r.rest)
    rw [hlen] at this
    exact this
  · rw [hsplit, bigEndian_append, hlen, hstamp]

/-! ## ids go up -/

/-- the ids that are still to come start here -/
def V7State.floor (u : V7State) : UUID := (u.lastMS * 2 ^ 16 + 0x7000 + u.counter + 1) * 2 ^ 64

theorem V7State.lastMS_le_advance (u : V7State) (t : Tick) (r : RandomBytes) :
    u.lastMS ≤ (u.advance t r).lastMS := by
  unfold V7State.advance
  split
  · rename_i h
    exact Nat.le_of_lt h
  · split
    · split
      · rename_i h
        exact Nat.le_of_lt h
      · exact Nat.le_succ _
    · exact Nat.le_refl _

theorem V7State.stamp_lt_advance (u : V7State) (t : Tick) (r : RandomBytes) :
    u.lastMS * 2 ^ 16 + u.counter < (u.advance t r).lastMS * 2 ^ 16 + (u.advance t r).counter := by
  have hu := u.fits
  unfold V7State.advance
  split
  · dsimp only
    omega
  · split
    · split
      · dsimp only
        omega
      · dsimp only
        omega
    · dsimp only
      omega

section
variable {t : Tick} {u u' : V7State} {id : UUID}

theorem lastMS_le_newUUIDv7At (t : Tick) (u : V7State) : u.lastMS ≤ (newUUIDv7At t u).2.lastMS := by
  unfold newUUIDv7At
  split
  · exact Nat.le_refl _
  · exact u.lastMS_le_advance t _

theorem newUUIDv7At_eq (h : newUUIDv7At t u = (some id, u')) (hms : u'.lastMS < 2 ^ 48) :
    u.lastMS * 2 ^ 16 + u.counter < u'.lastMS * 2 ^ 16 + u'.counter ∧
      ∃ low < 2 ^ 64, id = (u'.lastMS * 2 ^ 16 + 0x7000 + u'.counter) * 2 ^ 64 + low := by
  unfold newUUIDv7At at h
  split at h
  · cases h
  · rename_i r hr
    obtain ⟨hid, rfl⟩ := Prod.mk.inj h
    obtain ⟨low, hlow, he⟩ := bigEndian_layout hms (u.advance t r).fits r
    exact ⟨u.stamp_lt_advance t r, low, hlow, by rw [← Option.some.inj hid, he]⟩

theorem floor_le_newUUIDv7At (h : newUUIDv7At t u = (some id, u')) (hms : u'.lastMS < 2 ^ 48) :
    u.floor ≤ id := by
  obtain ⟨hlt, low, -, rfl⟩ := newUUIDv7At_eq h hms
  unfold V7State.floor
  have : u.lastMS * 2 ^ 16 + 0x7000 + u.counter + 1 ≤ u'.lastMS * 2 ^ 16 + 0x7000 + u'.counter := by
    omega
  exact Nat.le_trans (Nat.mul_le_mul_right _ this) (Nat.le_add_right _ _)

theorem newUUIDv7At_lt_floor (h : newUUIDv7At t u = (some id, u')) (hms : u'.lastMS < 2 ^ 48) :
    id < u'.floor := by
  obtain ⟨-, low, hlow, rfl⟩ := newUUIDv7At_eq h hms
  unfold V7State.floor
  rw [Nat.add_mul _ 1, Nat.one_mul]
  exact Nat.add_lt_add_left hlow _

theorem floor_le_floor (t : Tick) (u : V7State) : u.floor ≤ (newUUIDv7At t u).2.floor := by
  unfold newUUIDv7At
  split
  · exact Nat.le_refl _
  · rename_i r hr
    have := u.stamp_lt_advance t r
    unfold V7State.floor
    exact Nat.mul_le_mul_right _ (by dsimp only; omega)

end

end PgQueue
