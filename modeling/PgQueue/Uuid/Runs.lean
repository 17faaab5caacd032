import Mathlib.Data.List.Basic
import PgQueue.Uuid

/-!
# UUIDv7 over many calls

The callers of a process share one state.  A run is a list of calls, each with the clock readings and the
random bytes it gets.

* `UUID.bytes`          the sixteen bytes, in whose order ids are compared;
* `extractTimestamp`    the millisecond an id carries;
* `drawAll`             the calls of a run one after another;
* `newUUIDv7At_sorted`  **every result is above the ones before it in byte order, and is a UUIDv7;**
* `V7State.potential`   4096 times the millisecond, plus the counter: a call that does not take its
                        millisecond from the clock adds one to it;
* `newUUIDv7At_drift`   **so the millisecond runs ahead of the clock by one in 4096 calls, at most.**
-/

namespace PgQueue
open List

/-! ## bytes -/

/-- the low `n` bytes of a number, the highest first -/
def toBytes : Nat → Nat → Bytes
  | 0, _ => []
  | n + 1, x => .ofNat (x / 2 ^ (8 * n)) :: toBytes n x

def UUID.bytes (id : UUID) : Bytes := toBytes 16 id

theorem toBytes_add (n a x : Nat) : toBytes n (a * 2 ^ (8 * n) + x) = toBytes n x := by
  induction n generalizing a with
  | zero => rfl
  | succ n ih =>
    have hpow : a * 2 ^ (8 * (n + 1)) = a * 2 ^ 8 * 2 ^ (8 * n) := by
      rw [Nat.mul_succ, Nat.pow_add]
      ring
    rw [toBytes, toBytes, hpow, ih (a * 2 ^ 8), Nat.mul_comm (a * 2 ^ 8),
      Nat.mul_add_div (Nat.two_pow_pos _)]
    congr 1
    apply UInt8.toNat_inj.mp
    rw [UInt8.toNat_ofNat', UInt8.toNat_ofNat']
    omega

theorem bigEndian_cons (b : UInt8) (bs : Bytes) :
    bigEndian (b :: bs) = b.toNat * 2 ^ (8 * bs.length) + bigEndian bs := by
  show bs.foldl _ (0 * 2 ^ 8 + b.toNat) = _
  rw [foldl_bigEndian, Nat.zero_mul, Nat.zero_add]

theorem toBytes_bigEndian (bs : Bytes) : toBytes bs.length (bigEndian bs) = bs := by
  induction bs with
  | nil => rfl
  | cons b bs ih =>
    rw [bigEndian_cons, length_cons, toBytes, toBytes_add, ih, Nat.mul_comm,
      Nat.mul_add_div (Nat.two_pow_pos _), Nat.div_eq_of_lt (bigEndian_lt bs), Nat.add_zero,
      UInt8.ofNat_toNat]

theorem lt_of_bigEndian_lt {as bs : Bytes} (hlen : as.length = bs.length)
    (h : bigEndian as < bigEndian bs) : as < bs := by
  induction as generalizing bs with
  | nil =>
    rw [eq_nil_of_length_eq_zero hlen.symm] at h
    exact absurd h (Nat.lt_irrefl _)
  | cons a as ih =>
    obtain ⟨b, bs, rfl⟩ := exists_cons_of_length_eq_add_one hlen.symm
    have hlen : as.length = bs.length := Nat.succ.inj hlen
    rw [bigEndian_cons, bigEndian_cons, hlen] at h
    rw [cons_lt_cons_iff]
    rcases Nat.lt_trichotomy a.toNat b.toNat with hlt | heq | hgt
    · exact Or.inl (UInt8.lt_iff_toNat_lt.mpr hlt)
    · rw [heq] at h
      exact Or.inr ⟨UInt8.toNat_inj.mp heq, ih hlen (Nat.lt_of_add_lt_add_left h)⟩
    · -- a higher first byte is not made up for by the rest
      have hbs := bigEndian_lt bs
      have hle : (b.toNat + 1) * 2 ^ (8 * bs.length) ≤ a.toNat * 2 ^ (8 * bs.length) :=
        Nat.mul_le_mul_right _ hgt
      rw [Nat.add_mul] at hle
      omega

theorem length_layout (ms counter : Nat) (r : RandomBytes) : (layout ms counter r).length = 16 := by
  unfold layout
  rw [length_append, r.length]
  rfl

theorem bytes_layout (ms counter : Nat) (r : RandomBytes) :
    UUID.bytes (bigEndian (layout ms counter r)) = layout ms counter r := by
  have h := toBytes_bigEndian (layout ms counter r)
  rwa [length_layout] at h

/-! ## what an id carries -/

/-- `ExtractTimestamp`, in milliseconds -/
def extractTimestamp (id : UUID) : Nat :=
  bigEndian (id.bytes.take 2) <<< 32 ||| bigEndian ((id.bytes.drop 2).take 4)

def UUID.isV7 (id : UUID) : Prop :=
  id.bytes[6]?.map (fun b : UInt8 => b >>> 4) = some 7 ∧
    id.bytes[8]?.map (fun b : UInt8 => b &&& 0xc0) = some 0x80

theorem version_byte (b : UInt8) : (b &&& 0x0f ||| 0x70) >>> 4 = 7 := by
  have hbyte : ∀ n : Fin 256, (UInt8.ofNat n &&& 0x0f ||| 0x70) >>> 4 = 7 := by decide +kernel
  have := hbyte ⟨b.toNat, b.toNat_lt⟩
  rwa [UInt8.ofNat_toNat] at this

theorem variant_byte (b : UInt8) : (b &&& 0x3f ||| 0x80) &&& 0xc0 = 0x80 := by
  have hbyte : ∀ n : Fin 256, (UInt8.ofNat n &&& 0x3f ||| 0x80) &&& 0xc0 = 0x80 := by decide +kernel
  have := hbyte ⟨b.toNat, b.toNat_lt⟩
  rwa [UInt8.ofNat_toNat] at this

theorem isV7_layout (ms counter : Nat) (r : RandomBytes) :
    UUID.isV7 (bigEndian (layout ms counter r)) := by
  unfold UUID.isV7
  rw [bytes_layout]
  exact ⟨congrArg some (version_byte _), congrArg some (variant_byte _)⟩

theorem extractTimestamp_layout {ms counter : Nat} (hms : ms < 2 ^ 48) (r : RandomBytes) :
    extractTimestamp (bigEndian (layout ms counter r)) = ms := by
  have hhigh : bigEndian [.ofNat (ms / 2 ^ 40), .ofNat (ms / 2 ^ 32)] = ms / 2 ^ 32 := by
    unfold bigEndian
    simp only [foldl_cons, foldl_nil, UInt8.toNat_ofNat']
    omega
  have hlow : bigEndian [.ofNat (ms / 2 ^ 24), .ofNat (ms / 2 ^ 16), .ofNat (ms / 2 ^ 8), .ofNat ms] =
      ms % 2 ^ 32 := by
    unfold bigEndian
    simp only [foldl_cons, foldl_nil, UInt8.toNat_ofNat']
    omega
  have htake : (layout ms counter r).take 2 = [.ofNat (ms / 2 ^ 40), .ofNat (ms / 2 ^ 32)] := rfl
  have hdrop : ((layout ms counter r).drop 2).take 4 =
      [.ofNat (ms / 2 ^ 24), .ofNat (ms / 2 ^ 16), .ofNat (ms / 2 ^ 8), .ofNat ms] := rfl
  unfold extractTimestamp
  rw [bytes_layout, htake, hdrop, hhigh, hlow,
    ← Nat.shiftLeft_add_eq_or_of_lt (Nat.mod_lt _ (Nat.two_pow_pos 32)), Nat.shiftLeft_eq]
  exact Nat.div_add_mod' ms (2 ^ 32)

/-! ## runs -/

/-- the calls one after another: what each returned, `none` for an error, and the state after them -/
def drawAll : List Tick → V7State → List (Option UUID) × V7State
  | [], u => ([], u)
  | t :: ts, u =>
    ((newUUIDv7At t u).1 :: (drawAll ts (newUUIDv7At t u).2).1, (drawAll ts (newUUIDv7At t u).2).2)

def Tick.readings (u : V7State) (t : Tick) : List Nat :=
  match t.random with
  | none => []
  | some _ =>
    if t.nowMS ≤ u.lastMS ∧ u.counter + 1 > 0x0fff then [t.nowMS, t.rereadMS] else [t.nowMS]

def readingsOf : List Tick → V7State → List Nat
  | [], _ => []
  | t :: ts, u => t.readings u ++ readingsOf ts (newUUIDv7At t u).2

section
variable {t : Tick} {ts : List Tick} {u u' : V7State} {id : UUID}

theorem lastMS_le_drawAll (ts : List Tick) (u : V7State) : u.lastMS ≤ (drawAll ts u).2.lastMS := by
  induction ts generalizing u with
  | nil => exact Nat.le_refl _
  | cons t ts ih => exact Nat.le_trans (lastMS_le_newUUIDv7At t u) (ih _)

theorem isV7_newUUIDv7At (h : (newUUIDv7At t u).1 = some id) : id.isV7 := by
  unfold newUUIDv7At at h
  split at h
  · cases h
  · cases h
    exact isV7_layout _ _ _

theorem bytes_lt_bytes {t' : Tick} {v : V7State} {id' : UUID} (h : (newUUIDv7At t u).1 = some id)
    (h' : (newUUIDv7At t' v).1 = some id') (hlt : id < id') : id.bytes < id'.bytes := by
  unfold newUUIDv7At at h h'
  split at h
  · cases h
  split at h'
  · cases h'
  cases h
  cases h'
  rw [bytes_layout, bytes_layout]
  exact lt_of_bigEndian_lt (by rw [length_layout, length_layout]) hlt

end

theorem mem_drawAll {ts : List Tick} {u : V7State} {id : UUID} (hms : (drawAll ts u).2.lastMS < 2 ^ 48)
    (hid : some id ∈ (drawAll ts u).1) :
    u.floor ≤ id ∧ ∃ t v, (newUUIDv7At t v).1 = some id := by
  induction ts generalizing u with
  | nil => cases hid
  | cons t ts ih =>
    have hlast : (newUUIDv7At t u).2.lastMS < 2 ^ 48 := Nat.lt_of_le_of_lt (lastMS_le_drawAll ts _) hms
    rcases mem_cons.mp hid with hid | hid
    · exact ⟨floor_le_newUUIDv7At (Prod.ext hid.symm rfl) hlast, t, u, hid.symm⟩
    · obtain ⟨hfloor, hfrom⟩ := ih hms hid
      exact ⟨Nat.le_trans (floor_le_floor t u) hfloor, hfrom⟩

/-- **Ids go up in byte order.**  From any state, with any clock and any random bytes, as long as the
millisecond has 48 bits: every id a run returns is below all that it returns later, and each has the
version and the variant of a UUIDv7. -/
theorem newUUIDv7At_sorted (ts : List Tick) (u : V7State) (hms : (drawAll ts u).2.lastMS < 2 ^ 48) :
    ((drawAll ts u).1.filterMap fun x => x).Pairwise (fun a b => UUID.bytes a < UUID.bytes b) ∧
      ∀ id, some id ∈ (drawAll ts u).1 → id.isV7 := by
  induction ts generalizing u with
  | nil => exact ⟨.nil, fun id h => absurd h not_mem_nil⟩
  | cons t ts ih =>
    obtain ⟨hsorted, hv7⟩ := ih (newUUIDv7At t u).2 hms
    have hlast : (newUUIDv7At t u).2.lastMS < 2 ^ 48 := Nat.lt_of_le_of_lt (lastMS_le_drawAll ts _) hms
    show (((newUUIDv7At t u).1 :: (drawAll ts (newUUIDv7At t u).2).1).filterMap fun x => x).Pairwise _ ∧
      ∀ id, some id ∈ (newUUIDv7At t u).1 :: (drawAll ts (newUUIDv7At t u).2).1 → id.isV7
    refine ⟨?_, fun id hid => ?_⟩
    · cases hres : (newUUIDv7At t u).1 with
      | none => exact hsorted
      | some id =>
        refine pairwise_cons.mpr ⟨fun id' hid' => ?_, hsorted⟩
        obtain ⟨x, hx, rfl⟩ := mem_filterMap.mp hid'
        have hrest : (drawAll ts (newUUIDv7At t u).2).2.lastMS < 2 ^ 48 := hms
        obtain ⟨hfloor, t', v, hfrom⟩ := mem_drawAll hrest hx
        have hbelow := newUUIDv7At_lt_floor (Prod.ext hres rfl) hlast
        exact bytes_lt_bytes hres hfrom (Nat.lt_of_lt_of_le hbelow hfloor)
    · rcases mem_cons.mp hid with hid | hid
      · exact isV7_newUUIDv7At hid.symm
      · exact hv7 id hid

def RandomBytes.fives : RandomBytes := ⟨5, 5, 5, List.replicate 7 5, length_replicate⟩

/-- the clock goes back, and the counter is used up -/
def backwards : List Tick := [⟨1000, 0, some .fives⟩, ⟨400, 900, some .fives⟩, ⟨400, 1500, some .fives⟩]

theorem newUUIDv7At_sorted_backwards :
    (drawAll backwards ⟨1000, 0x0ffe, by decide⟩).2.lastMS = 1001 ∧
    ((drawAll backwards ⟨1000, 0x0ffe, by decide⟩).1.filterMap fun x => x).Pairwise
      (fun a b => UUID.bytes a < UUID.bytes b) :=
  ⟨by decide, (newUUIDv7At_sorted backwards ⟨1000, 0x0ffe, by decide⟩ (by decide)).1⟩

/-! ## drift -/

def V7State.potential (u : V7State) : Nat := 4096 * u.lastMS + u.counter

section
variable {t : Tick} {u : V7State}

theorem lastMS_of_reading (r : RandomBytes) (h : u.lastMS < t.nowMS) :
    (u.advance t r).lastMS = t.nowMS := by
  unfold V7State.advance
  rw [if_pos h]

theorem nowMS_le_advance (r : RandomBytes) : t.nowMS ≤ (u.advance t r).lastMS := by
  by_cases h : u.lastMS < t.nowMS
  · rw [lastMS_of_reading r h]
  · exact Nat.le_trans (Nat.le_of_not_lt h) (u.lastMS_le_advance t r)

theorem potential_newUUIDv7At (t : Tick) (u : V7State) :
    (newUUIDv7At t u).2.lastMS ∈ t.readings u ∨
      (newUUIDv7At t u).2.potential ≤ u.potential + 1 := by
  unfold newUUIDv7At Tick.readings
  cases t.random with
  | none => exact Or.inr (Nat.le_succ _)
  | some r =>
    dsimp only
    by_cases hnow : t.nowMS > u.lastMS
    · left
      rw [lastMS_of_reading r hnow, if_neg fun h => absurd h.1 (Nat.not_le.mpr hnow)]
      exact mem_singleton_self _
    · have hle := Nat.le_of_not_lt hnow
      unfold V7State.advance
      rw [if_neg hnow]
      by_cases hfull : u.counter + 1 > 0x0fff
      · rw [dif_pos hfull, if_pos ⟨hle, hfull⟩]
        split
        · exact Or.inl (mem_cons_of_mem _ mem_cons_self)
        · right
          unfold V7State.potential
          dsimp only
          omega
      · rw [dif_neg hfull]
        right
        unfold V7State.potential
        dsimp only
        omega

/-- the potential of a run, when no millisecond that it starts from or reads is above `M` -/
theorem potential_drawAll {ts : List Tick} {u : V7State} {M n : Nat} (hM : ∀ x ∈ readingsOf ts u, x ≤ M)
    (hu : u.potential ≤ 4096 * M + 4095 + n) :
    (drawAll ts u).2.potential ≤ 4096 * M + 4095 + (n + ts.length) := by
  induction ts generalizing u n with
  | nil => exact hu
  | cons t ts ih =>
    have hrest : ∀ x ∈ readingsOf ts (newUUIDv7At t u).2, x ≤ M := fun x hx =>
      hM x (mem_append_right _ hx)
    have hnext : (newUUIDv7At t u).2.potential ≤ 4096 * M + 4095 + (n + 1) := by
      rcases potential_newUUIDv7At t u with hread | hone
      · have hle := hM _ (mem_append_left _ hread)
        have hfits := (newUUIDv7At t u).2.fits
        unfold V7State.potential
        omega
      · omega
    have hlen : n + (t :: ts).length = n + 1 + ts.length := by
      rw [length_cons]
      omega
    rw [hlen]
    exact ih hrest hnext

end

theorem le_foldr_max {x m : Nat} {l : List Nat} (h : x ∈ l) : x ≤ l.foldr max m := by
  induction l with
  | nil => cases h
  | cons a l ih =>
    rcases mem_cons.mp h with rfl | h
    · exact Nat.le_max_left _ _
    · exact Nat.le_trans (ih h) (Nat.le_max_right _ _)

theorem init_le_foldr_max (m : Nat) (l : List Nat) : m ≤ l.foldr max m := by
  induction l with
  | nil => exact Nat.le_refl _
  | cons a l ih => exact Nat.le_trans ih (Nat.le_max_right _ _)

/-- after `k` calls the millisecond is at most a 4096th of `k` ahead of every clock -/
theorem lastMS_drawAll_le (ts : List Tick) (u : V7State) :
    (drawAll ts u).2.lastMS ≤ (readingsOf ts u).foldr max u.lastMS + (ts.length + 4095) / 4096 := by
  have hM : ∀ x ∈ readingsOf ts u, x ≤ (readingsOf ts u).foldr max u.lastMS := fun x hx => le_foldr_max hx
  have hstart : u.potential ≤ 4096 * (readingsOf ts u).foldr max u.lastMS + 4095 + 0 := by
    have hle := init_le_foldr_max u.lastMS (readingsOf ts u)
    have hfits := u.fits
    unfold V7State.potential
    omega
  have hend := potential_drawAll hM hstart
  unfold V7State.potential at hend
  omega

theorem extractTimestamp_newUUIDv7At {t : Tick} {u : V7State} {id : UUID}
    (h : (newUUIDv7At t u).1 = some id) (hms : (newUUIDv7At t u).2.lastMS < 2 ^ 48) :
    extractTimestamp id = (newUUIDv7At t u).2.lastMS ∧ t.nowMS ≤ (newUUIDv7At t u).2.lastMS ∧
      (u.lastMS < t.nowMS → (newUUIDv7At t u).2.lastMS = t.nowMS) := by
  unfold newUUIDv7At at h hms ⊢
  split at h
  · cases h
  · rename_i r heq
    cases h
    rw [heq] at hms
    exact ⟨extractTimestamp_layout hms r, nowMS_le_advance r, lastMS_of_reading r⟩

/-- **The drift of the timestamps.**  Over `k` calls from any state the millisecond stays within the
4096th part of `k`, rounded up, of the largest one seen.  Between the calls the counter has its 12 bits.
As long as the millisecond has 48 bits, each id carries at least what its call read first, and exactly
this where it was ahead of the generator. -/
theorem newUUIDv7At_drift (ts : List Tick) (u : V7State) :
    (drawAll ts u).2.lastMS ≤ (readingsOf ts u).foldr max u.lastMS + (ts.length + 4095) / 4096 ∧
    (∀ before after, ts = before ++ after → (drawAll before u).2.counter ≤ 0x0fff) ∧
    ∀ before t after id, ts = before ++ t :: after →
      (newUUIDv7At t (drawAll before u).2).1 = some id →
      (newUUIDv7At t (drawAll before u).2).2.lastMS < 2 ^ 48 →
      t.nowMS ≤ extractTimestamp id ∧
        ((drawAll before u).2.lastMS < t.nowMS → extractTimestamp id = t.nowMS) := by
  refine ⟨lastMS_drawAll_le ts u, fun before _ _ => (drawAll before u).2.fits, ?_⟩
  intro before t after id _ hid hms
  obtain ⟨hstamp, hle, heq⟩ := extractTimestamp_newUUIDv7At hid hms
  rw [hstamp]
  exact ⟨hle, heq⟩

-- the second reading, taken when the counter is used up, is still behind: one millisecond is borrowed
example : (drawAll backwards ⟨1000, 0x0ffe, by decide⟩).2.lastMS = 1001 ∧
    readingsOf backwards ⟨1000, 0x0ffe, by decide⟩ = [1000, 400, 900, 400] := by decide

end PgQueue
