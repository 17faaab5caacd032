import Mathlib.Data.List.Dedup
import Mathlib.Data.List.Sort
import Mathlib.Data.Prod.Lex
import PgQueue.Channel.Model
import PgQueue.Text.UuidText
import PgQueue.Topic.Model
import PgQueue.Uuid.Runs

/-!
# The parameters of a batch statement

A batch passes its receipts as two array literals, of message ids and of claim ids, and the statement joins
them with `unnest`.  The receipts are sorted first, so that two batches lock their rows in one order.

* `WireReceipt`                 a receipt whose ids have sixteen bytes;
* `uuidArrayLiteral`, `receiptsToIDClaimLiterals`   the literals;
* `readUUIDs`                   `$1::text::uuid[]`;
* `literals_of_sorted`          any sort yields the same literals;
* `batch_literals_read_back`    **read back and paired place by place, the literals are the pairs of the
                                receipts, in the order of their bytes; and two batches list the messages they
                                share in one order;**
* `join_matching`               so the join finds the receipts that the tables are asked for.
-/

namespace PgQueue
open List

/-! ## bytes -/

/-- `bytes.Compare` -/
def bytesCompare : Bytes → Bytes → Ordering
  | [], [] => .eq
  | [], _ :: _ => .lt
  | _ :: _, [] => .gt
  | a :: as, b :: bs => if a < b then .lt else if b < a then .gt else bytesCompare as bs

theorem length_toBytes (n x : Nat) : (toBytes n x).length = n := by
  induction n with
  | zero => rfl
  | succ n ih => rw [toBytes, length_cons, ih]

theorem bigEndian_toBytes (n x : Nat) : bigEndian (toBytes n x) = x % 2 ^ (8 * n) := by
  induction n with
  | zero => exact (Nat.mod_one x).symm
  | succ n ih =>
    rw [toBytes, bigEndian_cons, length_toBytes, ih, UInt8.toNat_ofNat', Nat.mul_succ, Nat.pow_add,
      Nat.mod_mul, Nat.add_comm, Nat.mul_comm (2 ^ (8 * n))]

theorem bigEndian_cons_lt {a b : UInt8} {as bs : Bytes} (h : as.length = bs.length) (hab : a < b) :
    bigEndian (a :: as) < bigEndian (b :: bs) := by
  have has := bigEndian_lt as
  have hle : (a.toNat + 1) * 2 ^ (8 * as.length) ≤ b.toNat * 2 ^ (8 * as.length) :=
    Nat.mul_le_mul_right _ (UInt8.lt_iff_toNat_lt.mp hab)
  rw [bigEndian_cons, bigEndian_cons, ← h]
  rw [Nat.add_mul] at hle
  omega

theorem bytesCompare_eq {as bs : Bytes} (h : as.length = bs.length) :
    bytesCompare as bs = compare (bigEndian as) (bigEndian bs) := by
  induction as generalizing bs with
  | nil =>
    rw [eq_nil_of_length_eq_zero h.symm]
    rfl
  | cons a as ih =>
    obtain ⟨b, bs, rfl⟩ := exists_cons_of_length_eq_add_one h.symm
    have hlen : as.length = bs.length := Nat.succ.inj h
    rw [bytesCompare]
    by_cases hab : a < b
    · rw [if_pos hab, Nat.compare_eq_lt.mpr (bigEndian_cons_lt hlen hab)]
    · rw [if_neg hab]
      by_cases hba : b < a
      · rw [if_pos hba, Nat.compare_eq_gt.mpr (bigEndian_cons_lt hlen.symm hba)]
      · obtain rfl : a = b := UInt8.le_antisymm (UInt8.not_lt.mp hba) (UInt8.not_lt.mp hab)
        rw [if_neg hba, ih hlen, bigEndian_cons, bigEndian_cons, hlen]
        simp only [Nat.compare_eq_ite_lt, Nat.add_lt_add_iff_left]

section
variable {a b : UUID}

theorem UUID.length_bytes (id : UUID) : id.bytes.length = 16 := length_toBytes 16 id

theorem bigEndian_bytes (h : a < 2 ^ 128) : bigEndian a.bytes = a :=
  (bigEndian_toBytes 16 a).trans (Nat.mod_eq_of_lt h)

theorem bytesCompare_bytes (ha : a < 2 ^ 128) (hb : b < 2 ^ 128) :
    bytesCompare a.bytes b.bytes = compare a b := by
  rw [bytesCompare_eq (a.length_bytes.trans b.length_bytes.symm), bigEndian_bytes ha, bigEndian_bytes hb]

end

/-! ## literals -/

/-- `String` of a UUID -/
def UUID.string (id : UUID) : String := String.ofList (Text.uuidText id.bytes)

/-- the ids have sixteen bytes, as those of every receipt in the process have -/
structure WireReceipt extends Receipt where
  messageID_lt : messageID < 2 ^ 128
  claimID_lt : claimID < 2 ^ 128

def WireReceipt.pair (r : WireReceipt) : UUID × UUID := (r.messageID, r.claimID)

def uuidArrayLiteral (ids : List UUID) : String :=
  if ids.length = 0 then "\x7b\x7d" else "\x7b" ++ ",".intercalate (ids.map UUID.string) ++ "\x7d"

/-- the order `receiptsToIDClaimLiterals` sorts by -/
def compareReceipts (a b : WireReceipt) : Ordering :=
  let c := bytesCompare a.messageID.bytes b.messageID.bytes
  if c ≠ .eq then c else bytesCompare a.claimID.bytes b.claimID.bytes

def sortsBefore (a b : WireReceipt) : Prop := compareReceipts a b ≠ .gt

instance : DecidableRel sortsBefore := fun a b => inferInstanceAs (Decidable (compareReceipts a b ≠ .gt))

def sortedLiterals (sorted : List WireReceipt) : String × String :=
  ("\x7b" ++ ",".intercalate (sorted.map fun r => r.messageID.string) ++ "\x7d",
    "\x7b" ++ ",".intercalate (sorted.map fun r => r.claimID.string) ++ "\x7d")

def receiptsToIDClaimLiterals (receipts : List WireReceipt) : String × String :=
  sortedLiterals (receipts.insertionSort sortsBefore)

/-- `$1::text::uuid[]`; a null element is `none` -/
def readUUIDs (text : String) : Option (List (Option UUID)) :=
  Text.arrayIn (fun s => (Text.uuidIn s).map bigEndian) text.toList

/-- `unnest($1::text::uuid[], $2::text::uuid[])` -/
def unnestLiterals (literals : String × String) : Option (List (Option UUID × Option UUID)) := do
  let ids ← readUUIDs literals.1
  let claims ← readUUIDs literals.2
  return Text.unnest ids claims

/-! ## reading them -/

theorem uuidIn_string {id : UUID} (h : id < 2 ^ 128) :
    (Text.uuidIn (Text.uuidText id.bytes)).map bigEndian = some id := by
  rw [Text.uuidIn_uuidText id.length_bytes, Option.map_some, bigEndian_bytes h]

theorem readUUIDs_braces {ids : List UUID} (h : ∀ id ∈ ids, id < 2 ^ 128) :
    readUUIDs ("\x7b" ++ ",".intercalate (ids.map UUID.string) ++ "\x7d") = some (ids.map some) := by
  have htext : ("\x7b" ++ ",".intercalate (ids.map UUID.string) ++ "\x7d").toList =
      Text.literal (ids.map fun id => Text.uuidText id.bytes) := by
    have hparts : (ids.map UUID.string).map String.toList = ids.map fun id => Text.uuidText id.bytes := by
      rw [map_map]
      exact map_congr_left fun id _ => String.toList_ofList
    rw [String.toList_append, String.toList_append, String.toList_intercalate, hparts]
    rfl
  unfold readUUIDs
  rw [htext]
  exact Text.arrayIn_literal (fun id _ => Text.plain_uuidText id.length_bytes)
    fun id hid => uuidIn_string (h id hid)

theorem readUUIDs_uuidArrayLiteral {ids : List UUID} (h : ∀ id ∈ ids, id < 2 ^ 128) :
    readUUIDs (uuidArrayLiteral ids) = some (ids.map some) := by
  unfold uuidArrayLiteral
  split
  · rename_i hnil
    rw [eq_nil_of_length_eq_zero hnil]
    rfl
  · exact readUUIDs_braces h

theorem readUUIDs_sortedLiterals (rs : List WireReceipt) :
    readUUIDs (sortedLiterals rs).1 = some ((rs.map fun r => r.messageID).map some) ∧
      readUUIDs (sortedLiterals rs).2 = some ((rs.map fun r => r.claimID).map some) := by
  have hids : ∀ id ∈ rs.map fun r => r.messageID, id < 2 ^ 128 :=
    forall_mem_map.mpr fun r _ => r.messageID_lt
  have hclaims : ∀ id ∈ rs.map fun r => r.claimID, id < 2 ^ 128 :=
    forall_mem_map.mpr fun r _ => r.claimID_lt
  have h₁ := readUUIDs_braces hids
  have h₂ := readUUIDs_braces hclaims
  rw [map_map] at h₁ h₂
  exact ⟨h₁, h₂⟩

theorem unnestLiterals_sortedLiterals (rs : List WireReceipt) :
    unnestLiterals (sortedLiterals rs) = some ((rs.map WireReceipt.pair).map fun p => (some p.1, some p.2)) := by
  obtain ⟨hids, hclaims⟩ := readUUIDs_sortedLiterals rs
  unfold unnestLiterals
  rw [hids, hclaims, map_map, map_map, map_map]
  exact congrArg some (Text.unnest_map _ _ rs)

/-! ## the order -/

section
variable {a b : WireReceipt} {l receipts : List WireReceipt}

theorem sortsBefore_iff : sortsBefore a b ↔ toLex a.pair ≤ toLex b.pair := by
  unfold sortsBefore compareReceipts
  rw [bytesCompare_bytes a.messageID_lt b.messageID_lt, bytesCompare_bytes a.claimID_lt b.claimID_lt,
    Prod.Lex.toLex_le_toLex]
  show _ ↔ a.messageID < b.messageID ∨ a.messageID = b.messageID ∧ a.claimID ≤ b.claimID
  rcases Nat.lt_trichotomy a.messageID b.messageID with hlt | heq | hgt
  · simp [Nat.compare_eq_lt.mpr hlt, hlt]
  · simp [heq, Nat.compare_ne_gt]
  · simp [Nat.compare_eq_gt.mpr hgt, Nat.lt_asymm hgt, Nat.ne_of_gt hgt]

instance : Std.Total sortsBefore where
  total a b := by
    rw [sortsBefore_iff, sortsBefore_iff]
    exact le_total _ _

instance : IsTrans WireReceipt sortsBefore where
  trans a b c hab hbc := by
    rw [sortsBefore_iff] at hab hbc ⊢
    exact hab.trans hbc

theorem pair_eq_of_sorted (hperm : l.Perm receipts) (hl : l.Pairwise sortsBefore) :
    l.map WireReceipt.pair = (receipts.insertionSort sortsBefore).map WireReceipt.pair := by
  have hpairs : ∀ rs : List WireReceipt, rs.Pairwise sortsBefore →
      (rs.map WireReceipt.pair).Pairwise fun p q => toLex p ≤ toLex q :=
    fun rs hrs => pairwise_map.mpr (hrs.imp sortsBefore_iff.mp)
  refine Perm.eq_of_pairwise ?_ (hpairs l hl) (hpairs _ (pairwise_insertionSort _ _))
    ((hperm.trans (perm_insertionSort _ _).symm).map _)
  exact fun p q _ _ hpq hqp => toLex.injective (le_antisymm hpq hqp)

/-- **Any sort yields these literals**: they depend on the pairs only -/
theorem literals_of_sorted (hperm : l.Perm receipts) (hl : l.Pairwise sortsBefore) :
    sortedLiterals l = receiptsToIDClaimLiterals receipts := by
  have hpairs := pair_eq_of_sorted hperm hl
  have hparts : ∀ f : UUID × UUID → String, (l.map fun r => f r.pair) =
      (receipts.insertionSort sortsBefore).map fun r => f r.pair := by
    intro f
    have hf := congrArg (List.map f) hpairs
    rwa [map_map, map_map] at hf
  have hids := hparts fun p => p.1.string
  have hclaims := hparts fun p => p.2.string
  unfold receiptsToIDClaimLiterals sortedLiterals
  exact Prod.ext (congrArg (fun parts => "\x7b" ++ ",".intercalate parts ++ "\x7d") hids)
    (congrArg (fun parts => "\x7b" ++ ",".intercalate parts ++ "\x7d") hclaims)

theorem sorted_messageIDs (hl : l.Pairwise sortsBefore) : (l.map fun r => r.messageID).Pairwise (· ≤ ·) := by
  refine pairwise_map.mpr (hl.imp fun {a b} hab => ?_)
  rcases Prod.Lex.toLex_le_toLex.mp (sortsBefore_iff.mp hab) with hlt | ⟨heq, -⟩
  · exact Nat.le_of_lt hlt
  · exact Nat.le_of_eq heq

theorem sorted_pairs (hl : l.Pairwise sortsBefore) :
    (l.map WireReceipt.pair).Pairwise fun p q =>
      bytesCompare p.1.bytes q.1.bytes = .lt ∨ p.1 = q.1 ∧ bytesCompare p.2.bytes q.2.bytes ≠ .gt := by
  refine pairwise_map.mpr (hl.imp fun {a b} hab => ?_)
  show bytesCompare a.messageID.bytes b.messageID.bytes = .lt ∨
    a.messageID = b.messageID ∧ bytesCompare a.claimID.bytes b.claimID.bytes ≠ .gt
  rw [bytesCompare_bytes a.messageID_lt b.messageID_lt, bytesCompare_bytes a.claimID_lt b.claimID_lt,
    Nat.compare_eq_lt, Nat.compare_ne_gt]
  exact Prod.Lex.toLex_le_toLex.mp (sortsBefore_iff.mp hab)

end

section
variable {ids ids' : List UUID}

theorem dedup_filter_mem (h : ids.Pairwise (· ≤ ·)) (h' : ids'.Pairwise (· ≤ ·)) :
    (ids.filter (· ∈ ids')).dedup = (ids'.filter (· ∈ ids)).dedup := by
  have hsub : ∀ l l' : List UUID, (l.filter (· ∈ l')).dedup.Sublist l :=
    fun l l' => (dedup_sublist _).trans filter_sublist
  refine Perm.eq_of_pairwise (fun a b _ _ => Nat.le_antisymm) (h.sublist (hsub ids ids'))
    (h'.sublist (hsub ids' ids)) ?_
  refine (perm_ext_iff_of_nodup (nodup_dedup _) (nodup_dedup _)).mpr fun x => ?_
  simp only [mem_dedup, mem_filter, decide_eq_true_eq]
  exact and_comm

theorem not_sublist_swap (h : ids.Pairwise (· ≤ ·)) (h' : ids'.Pairwise (· ≤ ·)) {m m' : UUID} (hne : m ≠ m')
    (hm : [m, m'].Sublist ids) : ¬[m', m].Sublist ids' := by
  intro hm'
  have hle : m ≤ m' := pairwise_pair.mp (h.sublist hm)
  have hge : m' ≤ m := pairwise_pair.mp (h'.sublist hm')
  exact hne (Nat.le_antisymm hle hge)

end

/-- **The literals of a batch are read back.**  The two arrays have one length; paired place by place, they
are the pairs of the receipts, each as often as it occurs, in the order of the bytes of the message and then
of the claim; and `unnest` pairs them this way.  What two batches share, they list in one order. -/
theorem batch_literals_read_back (receipts : List WireReceipt) :
    ∃ ids claims : List UUID,
      readUUIDs (receiptsToIDClaimLiterals receipts).1 = some (ids.map some) ∧
      readUUIDs (receiptsToIDClaimLiterals receipts).2 = some (claims.map some) ∧
      ids.length = claims.length ∧
      (ids.zip claims).Perm (receipts.map WireReceipt.pair) ∧
      (ids.zip claims).Pairwise (fun p q =>
        bytesCompare p.1.bytes q.1.bytes = .lt ∨ p.1 = q.1 ∧ bytesCompare p.2.bytes q.2.bytes ≠ .gt) ∧
      unnestLiterals (receiptsToIDClaimLiterals receipts) =
        some ((ids.zip claims).map fun p => (some p.1, some p.2)) ∧
      ∀ receipts' ids', readUUIDs (receiptsToIDClaimLiterals receipts').1 = some (ids'.map some) →
        (ids.filter (· ∈ ids')).dedup = (ids'.filter (· ∈ ids)).dedup ∧
        ∀ m m', m ≠ m' → [m, m'].Sublist ids → ¬[m', m].Sublist ids' := by
  have hsorted : ∀ rs : List WireReceipt, (rs.insertionSort sortsBefore).Pairwise sortsBefore :=
    fun rs => pairwise_insertionSort _ _
  have hread := readUUIDs_sortedLiterals (receipts.insertionSort sortsBefore)
  have hzip : ((receipts.insertionSort sortsBefore).map fun r => r.messageID).zip
      ((receipts.insertionSort sortsBefore).map fun r => r.claimID) =
        (receipts.insertionSort sortsBefore).map WireReceipt.pair := zip_map'
  refine ⟨_, _, hread.1, hread.2, by simp only [length_map], ?_, ?_, ?_, ?_⟩
  · rw [hzip]
    exact (perm_insertionSort _ _).map _
  · rw [hzip]
    exact sorted_pairs (hsorted receipts)
  · rw [hzip]
    exact unnestLiterals_sortedLiterals _
  · intro receipts' ids' hread'
    have hids' : ids' = (receipts'.insertionSort sortsBefore).map fun r => r.messageID := by
      have heq := hread'.symm.trans (readUUIDs_sortedLiterals (receipts'.insertionSort sortsBefore)).1
      exact map_injective_iff.mpr (Option.some_injective _) (Option.some.inj heq)
    have hle := sorted_messageIDs (hsorted receipts)
    have hle' : ids'.Pairwise (· ≤ ·) := hids' ▸ sorted_messageIDs (hsorted receipts')
    exact ⟨dedup_filter_mem hle hle', fun m m' hne hm => not_sublist_swap hle hle' hne hm⟩

/-- two claims of one message, and another message -/
example : unnestLiterals (receiptsToIDClaimLiterals
    [⟨⟨2 ^ 127, 3, "jobs", some .channel, ""⟩, by decide, by decide⟩,
      ⟨⟨1, 9, "jobs", some .channel, ""⟩, by decide, by decide⟩,
      ⟨⟨1, 4, "jobs", some .channel, ""⟩, by decide, by decide⟩]) =
    some [(some 1, some 4), (some 1, some 9), (some (2 ^ 127), some 3)] := by
  decide +kernel

/-! ## the join -/

/-- a row with a null joins with nothing -/
def joins (f : UUID → UUID → Bool) : Option UUID × Option UUID → Bool
  | (some m, some c) => f m c
  | _ => false

/-- **The join finds the receipts that a table is asked for**, in a channel and in a topic. -/
theorem join_matching (receipts : List WireReceipt) :
    ∃ rows, unnestLiterals (receiptsToIDClaimLiterals receipts) = some rows ∧
      (∀ row : Channel.Row, (rows.filter (joins row.underClaim)).Perm
        ((Channel.matching (receipts.map WireReceipt.toReceipt) row).map
          fun r => (some r.messageID, some r.claimID))) ∧
      ∀ (row : Topic.Sub) (subscriberID : String),
        (rows.filter (joins fun m c => row.underClaim m subscriberID c)).Perm
          ((Topic.matching subscriberID (receipts.map WireReceipt.toReceipt) row).map
            fun r => (some r.messageID, some r.claimID)) := by
  refine ⟨_, unnestLiterals_sortedLiterals _, ?_⟩
  have hjoin : ∀ f : UUID → UUID → Bool,
      ((((receipts.insertionSort sortsBefore).map WireReceipt.pair).map fun p => (some p.1, some p.2)).filter
        (joins f)).Perm
      (((receipts.map WireReceipt.toReceipt).filter fun r => f r.messageID r.claimID).map
        fun r => (some r.messageID, some r.claimID)) := by
    intro f
    rw [map_map, filter_map, filter_map, map_map]
    exact ((perm_insertionSort sortsBefore receipts).filter _).map _
  exact ⟨fun row => hjoin row.underClaim, fun row sub => hjoin fun m c => row.underClaim m sub c⟩

end PgQueue
