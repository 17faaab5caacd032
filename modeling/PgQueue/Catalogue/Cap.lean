import PgQueue.Catalogue.Names
import PgQueue.Process.Calls
import PgQueue.Process.Runs
import PgQueue.Relational.Versions

/-!
# The cap on the number of queues, under concurrency

A `createQueue` transaction counts the queues and inserts its metadata row in two statements; between
them other transactions may commit.  The creation lock, which it takes before it counts and keeps until it
ends, is what makes the count hold.  A `deleteQueue` transaction does not take that lock.

* `Memory`          the metadata table as row versions, and the two advisory locks;
* `Tx`              a transaction and the statement it is about to run;
* `advance`         the next statement of a transaction; `none` is a statement that waits;
* `Inv`             room for what has passed its count, and who holds the lock;
* `cap_respected`   **the committed queues never exceed the cap.**

The checks of `createQueue` that precede its transaction are left out: what they saw may have changed by the
time the transaction runs, so they restrict nothing here.  The statements that create or drop the tables
are one step.
-/

set_option linter.unusedVariables false

namespace PgQueue.Catalogue.Cap
open Relational Process List

/-- `creator` holds the creation lock, `sharers` share the migration lock, which a migration takes alone -/
structure Memory where
  metadata : Versions Metadata Nat
  creator : Option Nat
  sharers : List Nat
  migrating : Bool

inductive CreateAt where
  | begun
  | migrationLocked
  | creationLocked
  | admitted
  | inserted
  | tablesCreated
deriving DecidableEq, Repr

inductive DeleteAt where
  | begun
  | migrationLocked
  | dropped
  | deleted
deriving DecidableEq, Repr

/-- a transaction that has failed is still there until it is rolled back -/
inductive Tx where
  | create (m : Metadata) (pc : CreateAt)
  | delete (queueType : QueueType) (name : String) (pc : DeleteAt)
  | failed
  | ended
deriving DecidableEq, Repr

abbrev World : Type := Calls Memory Tx

def World.start (rows : List Metadata) : World := ⟨⟨Versions.ofRows rows, none, [], false⟩, []⟩

def World.queues (w : World) : List Metadata := w.mem.metadata.committed

def Memory.release (m : Memory) (i : Nat) (metadata : Versions Metadata Nat) : Memory :=
  { metadata := metadata
    creator := if m.creator = some i then none else m.creator
    sharers := m.sharers.erase i
    migrating := m.migrating }

/-- `pg_advisory_xact_lock_shared` on the migration key -/
def Memory.lockShared (m : Memory) (i : Nat) : Option Memory :=
  if m.migrating then none else some { m with sharers := i :: m.sharers }

def conflicts (m x : Metadata) : Bool := decide (x.queue = m.queue) || decide (x.tableName = m.tableName)

/-- the `INSERT` of `createQueueMetadata`; it waits for a transaction that holds a row it conflicts with -/
def createQueueMetadata (i : Nat) (mem : Memory) (m : Metadata) : Option (Memory × Tx) :=
  if mem.metadata.any fun v => v.heldBy i && conflicts m v.row then none
  else if (mem.metadata.read i).any (conflicts m) then some (mem, .failed)
  else some ({ mem with metadata := mem.metadata.insertRow i m }, .create m .inserted)

/-- the `DELETE` of `deleteQueueMetadata`; it waits for another transaction that is deleting the row -/
def deleteQueueMetadata (i : Nat) (mem : Memory) (queueType : QueueType) (name : String) :
    Option (Memory × Tx) :=
  let p := fun m : Metadata => decide (m.queue = (queueType, name))
  if mem.metadata.any fun v => v.visible i && p v.row && v.xmax.isSome then none
  else some ({ mem with metadata := mem.metadata.deleteRows i p }, .delete queueType name .deleted)

/-- the next statement of a transaction; `maxQueues` is the cap, `0` is none -/
def advance (maxQueues : Nat) (i : Nat) (mem : Memory) : Tx → Option (Memory × Tx)
  | .create m .begun => (mem.lockShared i).map fun mem' => (mem', .create m .migrationLocked)
  | .create m .migrationLocked =>
    if maxQueues = 0 then some (mem, .create m .admitted)
    else if mem.creator.isSome then none
    else some ({ mem with creator := some i }, .create m .creationLocked)
  | .create m .creationLocked =>
    if (mem.metadata.read i).length ≥ maxQueues then some (mem, .failed)
    else some (mem, .create m .admitted)
  | .create m .admitted => createQueueMetadata i mem m
  | .create m .inserted => some (mem, .create m .tablesCreated)
  | .create m .tablesCreated => some (mem.release i (mem.metadata.commit i), .ended)
  | .delete queueType name .begun =>
    (mem.lockShared i).map fun mem' => (mem', .delete queueType name .migrationLocked)
  | .delete queueType name .migrationLocked => some (mem, .delete queueType name .dropped)
  | .delete queueType name .dropped => deleteQueueMetadata i mem queueType name
  | .delete queueType name .deleted => some (mem.release i (mem.metadata.commit i), .ended)
  | .failed => none
  | .ended => none

def abort (i : Nat) (mem : Memory) : Tx → Option (Memory × Tx)
  | .ended => none
  | .create _ _ | .delete _ _ _ | .failed =>
    some (mem.release i (mem.metadata.rollback i), .ended)

inductive Event where
  | beginCreate (m : Metadata)
  | beginDelete (queueType : QueueType) (name : String)
  | advance (i : Nat)
  | rollback (i : Nat)
  | lockMigration
  | unlockMigration
deriving DecidableEq, Repr

/-- a deletion begins if it finds the queue -/
def step (maxQueues : Nat) (w : World) : Event → Option World
  | .beginCreate m => some (w.push (.create m .begun))
  | .beginDelete queueType name =>
    if w.queues.any fun m => decide (m.queue = (queueType, name)) then
      some (w.push (.delete queueType name .begun))
    else none
  | .advance i => w.act (Cap.advance maxQueues) i
  | .rollback i => w.act abort i
  | .lockMigration =>
    if w.mem.sharers = [] ∧ w.mem.migrating = false then
      some ⟨{ w.mem with migrating := true }, w.calls⟩
    else none
  | .unlockMigration =>
    if w.mem.migrating then some ⟨{ w.mem with migrating := false }, w.calls⟩ else none

/-! ## where a transaction stands -/

def Tx.holds : Tx → Bool
  | .create _ .creationLocked | .create _ .admitted | .create _ .inserted
  | .create _ .tablesCreated => true
  | _ => false

/-- it has passed its count and not yet inserted -/
def Tx.admitted : Tx → Bool
  | .create _ .admitted => true
  | _ => false

def Tx.inserting : Tx → Bool
  | .create _ .inserted | .create _ .tablesCreated => true
  | _ => false

def Tx.deleting : Tx → Bool
  | .delete _ _ .deleted => true
  | _ => false

theorem Tx.holds_of_admitted {c : Tx} (h : c.admitted = true) : c.holds = true := by
  cases c with
  | create m pc =>
    cases pc with
    | admitted => rfl
    | _ => cases h
  | _ => cases h

theorem Tx.holds_of_inserting {c : Tx} (h : c.inserting = true) : c.holds = true := by
  cases c with
  | create m pc =>
    cases pc with
    | inserted | tablesCreated => rfl
    | _ => cases h
  | _ => cases h

/-- what a step of the transaction `i` does to the memory, next to where it stood and where it stands.
The number of versions and of transactions that may add one does not grow, except by a count that finds
room -/
structure Effect (maxQueues i : Nat) (m : Memory) (c : Tx) (m' : Memory) (c' : Tx) : Prop where
  size : m'.metadata.length + c'.admitted.toNat ≤ m.metadata.length + c.admitted.toNat ∨
    (∃ r, c = .create r .creationLocked) ∧ m' = m ∧ (m.metadata.read i).length < maxQueues
  holds : (c.holds = true → m.creator = some i) → c'.holds = true → m'.creator = some i
  others : ∀ j, j ≠ i → m.creator = some j → m'.creator = some j
  inserting : ∀ j, m'.metadata.Inserting j →
    j = i ∧ c'.inserting = true ∨ m.metadata.Inserting j ∧ (j = i → c.inserting = true → c'.inserting = true)
  deleting : ∀ j, m'.metadata.Deleting j →
    j = i ∧ c'.deleting = true ∨ m.metadata.Deleting j ∧ (j = i → c.deleting = true → c'.deleting = true)

section
variable {maxQueues i : Nat} {m m' : Memory} {c c' : Tx}

theorem Effect.same (hmeta : m'.metadata = m.metadata) (hcreator : m'.creator = m.creator)
    (hadmitted : c'.admitted = false) (hholds : c'.holds = true → c.holds = true)
    (hins : c.inserting = true → c'.inserting = true) (hdel : c.deleting = true → c'.deleting = true) :
    Effect maxQueues i m c m' c' where
  size := Or.inl (by rw [hmeta, hadmitted]; exact Nat.le_add_right _ _)
  holds := fun hc hc' => hcreator.trans (hc (hholds hc'))
  others := fun j _ hj => hcreator.trans hj
  inserting := fun j hj => Or.inr ⟨hmeta ▸ hj, fun _ => hins⟩
  deleting := fun j hj => Or.inr ⟨hmeta ▸ hj, fun _ => hdel⟩

theorem Effect.idle (hmeta : m'.metadata = m.metadata) (hcreator : m'.creator = m.creator)
    (hadmitted : c'.admitted = false) (hholds : c'.holds = false) (hins : c.inserting = false)
    (hdel : c.deleting = false) : Effect maxQueues i m c m' c' :=
  Effect.same hmeta hcreator hadmitted (fun h => absurd (hholds.symm.trans h) Bool.false_ne_true)
    (fun h => absurd (hins.symm.trans h) Bool.false_ne_true)
    (fun h => absurd (hdel.symm.trans h) Bool.false_ne_true)

theorem Effect.release {metadata : Versions Metadata Nat} (hlen : metadata.length ≤ m.metadata.length)
    (hins : ∀ j, metadata.Inserting j → j ≠ i ∧ m.metadata.Inserting j)
    (hdel : ∀ j, metadata.Deleting j → j ≠ i ∧ m.metadata.Deleting j) :
    Effect maxQueues i m c (m.release i metadata) .ended where
  size := Or.inl (Nat.le_trans hlen (Nat.le_add_right _ _))
  holds := fun _ hc' => absurd hc' Bool.false_ne_true
  others := fun j hj hcj => by
    show (if m.creator = some i then none else m.creator) = some j
    rw [if_neg fun he => hj (Option.some.inj (hcj.symm.trans he)), hcj]
  inserting := fun j hj => Or.inr ⟨(hins j hj).2, fun he => absurd he (hins j hj).1⟩
  deleting := fun j hj => Or.inr ⟨(hdel j hj).2, fun he => absurd he (hdel j hj).1⟩

theorem Effect.commit : Effect maxQueues i m c (m.release i (m.metadata.commit i)) .ended :=
  Effect.release Versions.length_commit_le (fun _ hj => hj.commit) (fun _ hj => hj.commit)

theorem Effect.rollback : Effect maxQueues i m c (m.release i (m.metadata.rollback i)) .ended :=
  Effect.release Versions.length_rollback_le (fun _ hj => hj.rollback) (fun _ hj => hj.rollback)

theorem lockShared_eq (h : m.lockShared i = some m') :
    m'.metadata = m.metadata ∧ m'.creator = m.creator := by
  unfold Memory.lockShared at h
  split at h
  · cases h
  · cases h
    exact ⟨rfl, rfl⟩

theorem effect_createQueueMetadata {r : Metadata}
    (h : createQueueMetadata i m r = some (m', c')) :
    Effect maxQueues i m (.create r .admitted) m' c' := by
  unfold createQueueMetadata at h
  split at h
  · cases h
  · split at h
    · cases h
      exact Effect.idle rfl rfl rfl rfl rfl rfl
    · cases h
      refine ⟨Or.inl ?_, fun hc _ => hc rfl, fun j _ hj => hj, fun j hj => ?_, fun j hj => ?_⟩
      · rw [Versions.length_insertRow]
        exact Nat.le_refl _
      · exact hj.insertRow.imp (fun he => ⟨he, rfl⟩) fun hj => ⟨hj, fun _ _ => rfl⟩
      · exact Or.inr ⟨hj.insertRow, fun _ hdel => absurd hdel Bool.false_ne_true⟩

theorem effect_deleteQueueMetadata {queueType : QueueType} {name : String}
    (h : deleteQueueMetadata i m queueType name = some (m', c')) :
    Effect maxQueues i m (.delete queueType name .dropped) m' c' := by
  unfold deleteQueueMetadata at h
  dsimp only at h
  split at h
  · cases h
  · cases h
    let p := fun m : Metadata => decide (m.queue = (queueType, name))
    refine ⟨Or.inl ?_, fun _ hc' => absurd hc' Bool.false_ne_true, fun j _ hj => hj, fun j hj => ?_,
      fun j hj => ?_⟩
    · rw [Versions.length_deleteRows]
      exact Nat.le_refl _
    · exact Or.inr ⟨Versions.Inserting.deleteRows (p := p) hj,
        fun _ hins => absurd hins Bool.false_ne_true⟩
    · exact (Versions.Deleting.deleteRows (p := p) hj).imp (fun he => ⟨he, rfl⟩)
        fun hj => ⟨hj, fun _ hdel => absurd hdel Bool.false_ne_true⟩

/-- **every statement of every transaction has this effect** -/
theorem effect_advance (hcap : 0 < maxQueues) (h : advance maxQueues i m c = some (m', c')) :
    Effect maxQueues i m c m' c' := by
  cases c with
  | create r pc =>
    cases pc with
    | begun =>
      obtain ⟨m₁, hl, he⟩ := Option.map_eq_some_iff.mp h
      cases he
      obtain ⟨hmeta, hcreator⟩ := lockShared_eq hl
      exact Effect.idle hmeta hcreator rfl rfl rfl rfl
    | migrationLocked =>
      rw [advance, if_neg (Nat.pos_iff_ne_zero.mp hcap)] at h
      split at h
      · cases h
      · rename_i hfree
        cases h
        refine ⟨Or.inl (Nat.le_refl _), fun _ _ => rfl, fun j _ hj => ?_, fun j hj => ?_, fun j hj => ?_⟩
        · rw [hj] at hfree
          exact absurd rfl hfree
        · exact Or.inr ⟨hj, fun _ hins => absurd hins Bool.false_ne_true⟩
        · exact Or.inr ⟨hj, fun _ hdel => absurd hdel Bool.false_ne_true⟩
    | creationLocked =>
      rw [advance] at h
      split at h
      · cases h
        exact Effect.idle rfl rfl rfl rfl rfl rfl
      · rename_i hroom
        cases h
        refine ⟨Or.inr ⟨⟨r, rfl⟩, rfl, Nat.not_le.mp hroom⟩, fun hc _ => hc rfl, fun j _ hj => hj,
          fun j hj => ?_, fun j hj => ?_⟩
        · exact Or.inr ⟨hj, fun _ hins => absurd hins Bool.false_ne_true⟩
        · exact Or.inr ⟨hj, fun _ hdel => absurd hdel Bool.false_ne_true⟩
    | admitted => exact effect_createQueueMetadata h
    | inserted =>
      cases h
      exact Effect.same rfl rfl rfl (fun _ => rfl) (fun _ => rfl) id
    | tablesCreated =>
      cases h
      exact Effect.commit
  | delete queueType name pc =>
    cases pc with
    | begun =>
      obtain ⟨m₁, hl, he⟩ := Option.map_eq_some_iff.mp h
      cases he
      obtain ⟨hmeta, hcreator⟩ := lockShared_eq hl
      exact Effect.idle hmeta hcreator rfl rfl rfl rfl
    | migrationLocked =>
      cases h
      exact Effect.idle rfl rfl rfl rfl rfl rfl
    | dropped => exact effect_deleteQueueMetadata h
    | deleted =>
      cases h
      exact Effect.commit
  | failed | ended => cases h

theorem effect_abort (h : abort i m c = some (m', c')) : Effect maxQueues i m c m' c' := by
  cases c with
  | ended => cases h
  | create r pc | delete queueType name pc | failed =>
    cases h
    exact Effect.rollback

end

/-! ## the invariant -/

structure Inv (maxQueues : Nat) (w : World) : Prop where
  room : w.mem.metadata.length + w.calls.countP Tx.admitted ≤ maxQueues
  holder : ∀ i c, w.calls[i]? = some c → c.holds = true → w.mem.creator = some i
  inserting : ∀ i, w.mem.metadata.Inserting i → ∃ c, w.calls[i]? = some c ∧ c.inserting = true
  deleting : ∀ i, w.mem.metadata.Deleting i → ∃ c, w.calls[i]? = some c ∧ c.deleting = true

section
variable {maxQueues i : Nat} {w w' : World} {c c' : Tx} {m' : Memory}

theorem Inv.counting (h : Inv maxQueues w) {r : Metadata}
    (hc : w.calls[i]? = some (.create r .creationLocked)) :
    (w.mem.metadata.read i).length = w.mem.metadata.length ∧ w.calls.countP Tx.admitted = 0 := by
  have hmine : w.mem.creator = some i := h.holder i _ hc rfl
  have honly : ∀ (j : Nat) (d : Tx), w.calls[j]? = some d → d.holds = true → d = .create r .creationLocked := by
    intro j d hd hholds
    obtain rfl : j = i := Option.some.inj ((h.holder j d hd hholds).symm.trans hmine)
    exact Option.some.inj (hd.symm.trans hc)
  constructor
  · refine Versions.length_read (fun u hu => ?_) fun hi => ?_
    · obtain ⟨d, hd, hins⟩ := h.inserting u hu
      rw [honly u d hd (Tx.holds_of_inserting hins)] at hins
      cases hins
    · obtain ⟨d, hd, hdel⟩ := h.deleting i hi
      obtain rfl := Option.some.inj (hd.symm.trans hc)
      cases hdel
  · rw [countP_eq_zero]
    intro d hd hadm
    obtain ⟨j, hj⟩ := mem_iff_getElem?.mp hd
    rw [honly j d hj (Tx.holds_of_admitted hadm)] at hadm
    cases hadm

theorem owner_act {p : Tx → Bool} {owns owns' : Nat → Prop} (hc : w.calls[i]? = some c)
    (hold : ∀ j, owns j → ∃ d, w.calls[j]? = some d ∧ p d = true)
    (he : ∀ j, owns' j → j = i ∧ p c' = true ∨ owns j ∧ (j = i → p c = true → p c' = true))
    {j : Nat} (hj : owns' j) : ∃ d, (w.calls.set i c')[j]? = some d ∧ p d = true := by
  have hself : (w.calls.set i c')[i]? = some c' :=
    List.getElem?_set_self (List.getElem?_eq_some_iff.mp hc).1
  rcases he j hj with ⟨rfl, hp⟩ | ⟨hown, hkeep⟩
  · exact ⟨c', hself, hp⟩
  · obtain ⟨d, hd, hp⟩ := hold j hown
    by_cases hji : j = i
    · subst hji
      obtain rfl := Option.some.inj (hd.symm.trans hc)
      exact ⟨c', hself, hkeep rfl hp⟩
    · exact ⟨d, (List.getElem?_set_ne (Ne.symm hji)).trans hd, hp⟩

theorem Inv.act (h : Inv maxQueues w) (hc : w.calls[i]? = some c)
    (he : Effect maxQueues i w.mem c m' c') : Inv maxQueues ⟨m', w.calls.set i c'⟩ := by
  refine ⟨?_, fun j d hd hholds => ?_, fun j hj => ?_, fun j hj => ?_⟩
  · have hcount := countP_set Tx.admitted hc c'
    have hroom := h.room
    rcases he.size with hsize | ⟨⟨r, rfl⟩, rfl, hlt⟩
    · show m'.metadata.length + (w.calls.set i c').countP Tx.admitted ≤ maxQueues
      omega
    · obtain ⟨hread, hzero⟩ := h.counting hc
      have hone : c'.admitted.toNat ≤ 1 := Bool.toNat_le _
      have hnot : (Tx.create r .creationLocked).admitted.toNat = 0 := rfl
      show w.mem.metadata.length + (w.calls.set i c').countP Tx.admitted ≤ maxQueues
      omega
  · rcases getElem?_set_cases hc hd with ⟨rfl, rfl⟩ | ⟨hj, hd⟩
    · exact he.holds (h.holder j c hc) hholds
    · exact he.others j hj (h.holder j d hd hholds)
  · exact owner_act hc h.inserting he.inserting hj
  · exact owner_act hc h.deleting he.deleting hj

theorem Inv.push (h : Inv maxQueues w) (hholds : c.holds = false) : Inv maxQueues (w.push c) := by
  have hadm : c.admitted = false := by
    by_contra hadm
    rw [Tx.holds_of_admitted (Bool.not_eq_false _ ▸ hadm)] at hholds
    cases hholds
  have hold : ∀ {j d}, w.calls[j]? = some d → (w.calls ++ [c])[j]? = some d := fun hd =>
    (getElem?_append_left (getElem?_eq_some_iff.mp hd).1).trans hd
  refine ⟨?_, fun j d hd hd' => ?_, fun j hj => ?_, fun j hj => ?_⟩
  · show w.mem.metadata.length + (w.calls ++ [c]).countP Tx.admitted ≤ maxQueues
    rw [countP_append, countP_singleton, hadm]
    exact h.room
  · rcases getElem?_push_cases hd with hd | rfl
    · exact h.holder j d hd hd'
    · rw [hholds] at hd'
      cases hd'
  · obtain ⟨d, hd, hins⟩ := h.inserting j hj
    exact ⟨d, hold hd, hins⟩
  · obtain ⟨d, hd, hdel⟩ := h.deleting j hj
    exact ⟨d, hold hd, hdel⟩

theorem Inv.step (hcap : 0 < maxQueues) (h : Inv maxQueues w) {e : Event}
    (hs : step maxQueues w e = some w') : Inv maxQueues w' := by
  cases e with
  | beginCreate m =>
    cases hs
    exact h.push rfl
  | beginDelete queueType name =>
    rw [Cap.step] at hs
    split at hs
    · cases hs
      exact h.push rfl
    · cases hs
  | advance i =>
    obtain ⟨c, m', c', hc, ha, rfl⟩ := Calls.act_eq_some.mp hs
    exact h.act hc (effect_advance hcap ha)
  | rollback i =>
    obtain ⟨c, m', c', hc, ha, rfl⟩ := Calls.act_eq_some.mp hs
    exact h.act hc (effect_abort ha)
  | lockMigration | unlockMigration =>
    rw [Cap.step] at hs
    split at hs
    · cases hs
      exact ⟨h.room, h.holder, h.inserting, h.deleting⟩
    · cases hs

theorem Inv.start {rows : List Metadata} (hrows : rows.length ≤ maxQueues) :
    Inv maxQueues (World.start rows) where
  room := by
    show (rows.map _).length + 0 ≤ maxQueues
    rw [length_map]
    exact hrows
  holder := fun i c hc => absurd (mem_of_getElem? hc) not_mem_nil
  inserting := fun i hi => absurd hi (Versions.not_inserting_ofRows rows i)
  deleting := fun i hi => absurd hi (Versions.not_deleting_ofRows rows i)

end

/-- **The cap holds under concurrency.**  Whatever the statements of any number of creations and deletions
are interleaved like, and however they end: from at most as many queues as the cap, there are never more
committed ones than the cap. -/
theorem cap_respected (maxQueues : Nat) (hcap : 0 < maxQueues) (rows : List Metadata)
    (hrows : rows.length ≤ maxQueues) (w : World)
    (hr : Runs (step maxQueues) (fun _ _ => True) (World.start rows) w) :
    w.queues.length ≤ maxQueues := by
  have hinv : Inv maxQueues w := hr.invariant (Inv maxQueues) (Inv.start hrows)
    fun a e b ha _ hs => ha.step hcap hs
  exact Nat.le_trans (Versions.length_committed_le _)
    (Nat.le_trans (Nat.le_add_right _ _) hinv.room)

/-- Two creations with room for one queue, while the queue that is there is deleted: the second creation
waits for the lock, counts after the first has committed, and fails. -/
def twoCreations : List Event :=
  [.beginCreate ⟨.channel, "a", "a"⟩, .beginCreate ⟨.pubsub, "b", "b"⟩, .beginDelete .channel "old",
    .advance 0, .advance 1, .advance 2, .advance 2, .advance 2, .advance 2,
    .advance 0, .advance 0, .advance 0, .advance 0, .advance 0,
    .advance 1, .advance 1, .rollback 1]

theorem cap_respected_twoCreations :
    ∃ w : World, follow (step 1) (World.start [⟨.channel, "old", "old"⟩]) twoCreations = some w ∧
      w.queues = [⟨.channel, "a", "a"⟩] ∧ w.calls = [.ended, .ended, .ended] ∧ w.queues.length ≤ 1 := by
  refine ⟨_, rfl, by decide, by decide, ?_⟩
  exact cap_respected 1 (by decide) [⟨.channel, "old", "old"⟩] (by decide) _
    (Runs.of_follow twoCreations rfl)

end PgQueue.Catalogue.Cap
