import PgQueue.Catalogue.Relations
import PgQueue.Relational.Identifiers

/-!
# The indexes of a queue

An explicit index is named `idx_`, its table and one of thirteen suffixes.  The name of a queue may itself
end in such a suffix: the channel `jobs` has `idx_pgqueue_msg_jobs_status_created`, the topic
`jobs_status` has `idx_pgqueue_msg_jobs_status_created_at`.

* `indexAffixes`         what stands around the table name;
* `tableChar`            the characters of a sanitized name;
* `explicit_indexes_apart`   **the indexes of two queues have different names, of at most 63 bytes, so
                         that neither queue's script skips an index because of the other's.**
-/

namespace PgQueue.Catalogue
open Relational Relational.Schema

/-! ## the affixes -/

def indexAffixes : QueueType → List (String × String)
  | .channel =>
    [("idx_pgqueue_msg_", "_status_created"), ("idx_pgqueue_msg_", "_consumable_null"),
      ("idx_pgqueue_msg_", "_consumable_timeout"), ("idx_pgqueue_msg_", "_completed"),
      ("idx_pgqueue_dlq_", "_moved_at"), ("idx_pgqueue_dlq_", "_orig_msg")]
  | .pubsub =>
    [("idx_pgqueue_msg_", "_created_at"), ("idx_pgqueue_sub_", "_msg_id"),
      ("idx_pgqueue_sub_", "_subscriber"), ("idx_pgqueue_sub_", "_status"),
      ("idx_pgqueue_sub_", "_consumable_null"), ("idx_pgqueue_sub_", "_consumable_timeout"),
      ("idx_pgqueue_dlq_", "_moved_at"), ("idx_pgqueue_dlq_", "_orig_msg"),
      ("idx_pgqueue_dlq_", "_subscriber_id")]

def allAffixes : List (String × String) := indexAffixes .channel ++ indexAffixes .pubsub

theorem indexAffixes_subset (queueType : QueueType) : indexAffixes queueType ⊆ allAffixes := by
  cases queueType with
  | channel => exact List.subset_append_left _ _
  | pubsub => exact List.subset_append_right _ _

theorem nodup_indexAffixes (queueType : QueueType) : (indexAffixes queueType).Nodup := by
  cases queueType <;> decide

theorem separable_allAffixes : Separable 16 allAffixes where
  heads := by decide +kernel
  tails := by decide +kernel

theorem utf8ByteSize_allAffixes : ∀ p ∈ allAffixes, p.1.utf8ByteSize + p.2.utf8ByteSize ≤ 35 := by
  decide +kernel

theorem indexesOf_queueStatements (queueType : QueueType) (t : String) :
    indexesOf (queueStatements queueType t) = (indexAffixes queueType).map fun p => affixed p t := by
  cases queueType <;> rfl

/-! ## sanitized names -/

/-- `[a-z0-9_]` -/
def tableChar (c : Char) : Bool := c.isLower || c.isDigit || c == '_'

theorem toNat_nameChar {c : Char} (h : nameChar c = true) : c.toNat < 128 := by
  have hbound : ∀ hi : UInt32, hi.toNat < 128 → c.val ≤ hi → c.toNat < 128 :=
    fun hi hlt hle => Nat.lt_of_le_of_lt (UInt32.le_iff_toNat_le.mp hle) hlt
  have h : (((c.isUpper || c.isLower) || c.isDigit) || c == '_' || c == '-') = true := h
  simp only [Bool.or_eq_true, beq_iff_eq] at h
  rcases h with (((h | h) | h) | rfl) | rfl
  · exact hbound 'Z'.val (by decide) (of_decide_eq_true h).2
  · exact hbound 'z'.val (by decide) (of_decide_eq_true ((Bool.and_eq_true _ _).mp h).2)
  · exact hbound '9'.val (by decide) (of_decide_eq_true ((Bool.and_eq_true _ _).mp h).2)
  · decide
  · decide

theorem tableChar_ascii : ∀ n : Fin 128, nameChar (Char.ofNat n) = true →
    tableChar (sanitizeChar (Char.ofNat n)) = true ∧ (sanitizeChar (Char.ofNat n)).utf8Size = 1 := by
  decide +kernel

theorem tableChar_sanitizeChar {c : Char} (h : nameChar c = true) :
    tableChar (sanitizeChar c) = true ∧ (sanitizeChar c).utf8Size = 1 := by
  have hc := tableChar_ascii ⟨c.toNat, toNat_nameChar h⟩
  rw [Char.ofNat_toNat] at hc
  exact hc h

section
variable {name : String}

theorem sanitizeTableName_chars (h : validateQueueName name = .ok ()) :
    (sanitizeTableName name).toList ≠ [] ∧ ∀ c ∈ (sanitizeTableName name).toList, tableChar c = true := by
  obtain ⟨hne, -, hchars⟩ := validateQueueName_ok h
  unfold sanitizeTableName
  rw [String.toList_ofList]
  refine ⟨fun hnil => hne (List.map_eq_nil_iff.mp hnil), fun c hc => ?_⟩
  obtain ⟨x, hx, rfl⟩ := List.mem_map.mp hc
  exact (tableChar_sanitizeChar (hchars x hx)).1

theorem utf8ByteSize_sanitizeTableName (h : validateQueueName name = .ok ()) :
    (sanitizeTableName name).utf8ByteSize ≤ maxQueueNameLength := by
  obtain ⟨-, hlen, hchars⟩ := validateQueueName_ok h
  unfold sanitizeTableName
  rw [utf8ByteSize_ascii, List.length_map]
  · exact hlen
  · intro c hc
    obtain ⟨x, hx, rfl⟩ := List.mem_map.mp hc
    exact (tableChar_sanitizeChar (hchars x hx)).2

theorem utf8ByteSize_index {queueType : QueueType} {n : String} (h : validateQueueName name = .ok ())
    (hn : n ∈ indexesOf (queueStatements queueType (sanitizeTableName name))) :
    n.utf8ByteSize ≤ maxIdentifierLength := by
  rw [indexesOf_queueStatements] at hn
  obtain ⟨p, hp, rfl⟩ := List.mem_map.mp hn
  have hbody := utf8ByteSize_sanitizeTableName h
  have haffix := utf8ByteSize_allAffixes p (indexAffixes_subset _ hp)
  unfold affixed
  rw [String.utf8ByteSize_append, String.utf8ByteSize_append]
  unfold maxQueueNameLength at hbody
  unfold maxIdentifierLength
  omega

end

theorem nodup_indexesOf {x y : QueueType} {t t' : String} (hne : t ≠ t') :
    (indexesOf (queueStatements x t) ++ indexesOf (queueStatements y t')).Nodup := by
  rw [indexesOf_queueStatements, indexesOf_queueStatements]
  exact (separable_allAffixes.nodup (indexAffixes_subset x) (nodup_indexAffixes x) t).append
    (separable_allAffixes.nodup (indexAffixes_subset y) (nodup_indexAffixes y) t')
    (separable_allAffixes.disjoint (indexAffixes_subset x) (indexAffixes_subset y) hne)

/-- **the indexes of two queues have different names, of at most 63 bytes, which the database does not
cut.**  So whatever relations there are, the indexes of the first queue take no name of the second.  And
a sanitized name is not empty and matches `[a-z0-9_]+` -/
theorem explicit_indexes_apart (x y : QueueType) (a b : String) (ha : validateQueueName a = .ok ())
    (hb : validateQueueName b = .ok ()) (hne : sanitizeTableName a ≠ sanitizeTableName b) :
    (indexesOf (queueStatements x (sanitizeTableName a)) ++
      indexesOf (queueStatements y (sanitizeTableName b))).Nodup ∧
    (∀ n ∈ indexesOf (queueStatements x (sanitizeTableName a)) ++
        indexesOf (queueStatements y (sanitizeTableName b)),
      n.utf8ByteSize ≤ 63 ∧ truncateIdentifier n = n) ∧
    (∀ (naming : Naming) (R R' : Schema),
      execAll naming R (indexStatements (queueStatements x (sanitizeTableName a))) = some R' →
      ∀ n ∈ indexesOf (queueStatements y (sanitizeTableName b)), n ∉ R.names → n ∉ R'.names) ∧
    ∀ name ∈ [a, b], (sanitizeTableName name).toList ≠ [] ∧
      ∀ c ∈ (sanitizeTableName name).toList, tableChar c = true := by
  have hnodup := nodup_indexesOf (x := x) (y := y) hne
  refine ⟨hnodup, fun n hn => ?_, fun naming R R' hexec n hn hfree hmem => ?_, fun name hname => ?_⟩
  · have hsize : n.utf8ByteSize ≤ maxIdentifierLength :=
      (List.mem_append.mp hn).elim (utf8ByteSize_index ha) (utf8ByteSize_index hb)
    exact ⟨hsize, truncateIdentifier_of_le hsize⟩
  · rcases names_execAll hexec hmem with hmem | hmem
    · exact hfree hmem
    · exact List.disjoint_of_nodup_append hnodup hmem hn
  · rcases List.mem_cons.mp hname with rfl | hname
    · exact sanitizeTableName_chars ha
    · obtain rfl := List.mem_singleton.mp hname
      exact sanitizeTableName_chars hb

/-- two names of one text up to where the suffix of an index begins -/
theorem explicit_indexes_apart_close :
    "idx_pgqueue_msg_jobs_status_created" ∈ indexesOf (queueStatements .channel (sanitizeTableName "jobs")) ∧
    "idx_pgqueue_msg_jobs_status_created_at" ∈
      indexesOf (queueStatements .pubsub (sanitizeTableName "Jobs-status")) ∧
    (indexesOf (queueStatements .channel (sanitizeTableName "jobs")) ++
      indexesOf (queueStatements .pubsub (sanitizeTableName "Jobs-status"))).Nodup :=
  ⟨by decide +kernel, by decide +kernel,
    (explicit_indexes_apart .channel .pubsub "jobs" "Jobs-status" (by decide +kernel) (by decide +kernel)
      (by decide +kernel)).1⟩

end PgQueue.Catalogue
