import Mathlib.Data.List.Nodup
import Mathlib.Data.List.Range

/-!
# The migration runner

Each run applies the migrations whose version is above the recorded maximum, one after another.  A
migration has a phase outside any transaction (`applyNonTx`) and a phase inside the transaction that
also records its version (`apply`).

* `validateMigrations`, `Binary`   a list of migrations as a binary may be built with it;
* `Faults`                         where a run fails or crashes: any of its points;
* `applyMigration`, `runMigrations`   the runner; runs are serialised by the advisory lock;
* `Recorded k db`                  versions `1, .., k` are recorded, and what that says of the phases;
* `runs_record_prefix`             **after any runs by any binaries, whatever their faults.**

The version rows are kept as the migrations that inserted them.  `applied` and `nonTx` are logs of
the committed `apply` and the completed `applyNonTx` phases; the schema itself is left out.
-/

namespace PgQueue.Migrations
open List

/-- `apply` and `applyNonTx` tell whether the phase is there -/
structure Migration where
  version : Nat
  name : String
  apply : Bool
  applyNonTx : Bool
deriving DecidableEq, Repr

inductive Malformed where
  | version (index version want : Nat)
  | noPhase (version : Nat) (name : String)
  | schemaVersion (schemaVersion last : Nat)
  | emptyPanics
deriving DecidableEq, Repr

/-- the loop of `validateMigrations` from index `i` on -/
def validateFrom (i : Nat) : List Migration → Except Malformed Unit
  | [] => .ok ()
  | m :: ms =>
    if m.version ≠ i + 1 then .error (.version i m.version (i + 1))
    else if !m.apply && !m.applyNonTx then .error (.noPhase m.version m.name)
    else validateFrom (i + 1) ms

/-- an empty list makes the index of its last entry panic -/
def validateMigrations (schemaVersion : Nat) (ms : List Migration) : Except Malformed Unit :=
  match validateFrom 0 ms with
  | .error e => .error e
  | .ok () =>
    match ms.getLast? with
    | none => .error .emptyPanics
    | some m =>
      if m.version ≠ schemaVersion then .error (.schemaVersion schemaVersion m.version) else .ok ()

/-- a build of the library: its list was checked when the process started -/
structure Binary where
  schemaVersion : Nat
  migrations : List Migration
  valid : validateMigrations schemaVersion migrations = .ok ()

inductive Point where
  | connection
  | lock
  | schema
  | versionTable
  | readVersion
  | applyNonTx (version : Nat)
  | begin (version : Nat)
  | apply (version : Nat)
  | insert (version : Nat)
  | commit (version : Nat)
  | committed (version : Nat)
  | repair
deriving DecidableEq, Repr

/-- where one run stops; a run passes every point at most once -/
abbrev Faults := Point → Bool

structure Database where
  versions : List Migration
  applied : List Migration
  nonTx : List Migration
deriving DecidableEq, Repr

def Database.new : Database := ⟨[], [], []⟩

inductive MigrationError where
  | fault (p : Point)
  | schemaTooNew (database binary : Nat)
  | duplicateVersion (version : Nat)
deriving DecidableEq, Repr

abbrev Result := Except MigrationError Unit × Database

/-- `SELECT COALESCE(MAX(version), 0)` -/
def schemaVersion (db : Database) : Nat := (db.versions.map Migration.version).foldl max 0

/-- a phase that is interrupted has not completed -/
def applyNonTxPhase (faults : Faults) (m : Migration) (db : Database) : Result :=
  if m.applyNonTx then
    if faults (.applyNonTx m.version) then (.error (.fault (.applyNonTx m.version)), db)
    else (.ok (), { db with nonTx := db.nonTx ++ [m] })
  else (.ok (), db)

/-- the commit: the version row and the effect of `apply` at once -/
def Database.record (m : Migration) (db : Database) : Database :=
  { db with
    versions := db.versions ++ [m]
    applied := if m.apply then db.applied ++ [m] else db.applied }

/-- what fails before the commit leaves nothing: the transaction is rolled back.  A failure after the
commit, also of the answer to it, leaves the version recorded -/
def transactionPhase (faults : Faults) (m : Migration) (db : Database) : Result :=
  if faults (.begin m.version) then (.error (.fault (.begin m.version)), db)
  else if m.apply && faults (.apply m.version) then (.error (.fault (.apply m.version)), db)
  else if faults (.insert m.version) then (.error (.fault (.insert m.version)), db)
  else if (db.versions.map Migration.version).contains m.version then
    (.error (.duplicateVersion m.version), db)
  else if faults (.commit m.version) then (.error (.fault (.commit m.version)), db)
  else if faults (.committed m.version) then
    (.error (.fault (.committed m.version)), db.record m)
  else (.ok (), db.record m)

def applyMigration (faults : Faults) (m : Migration) (db : Database) : Result :=
  match applyNonTxPhase faults m db with
  | (.error e, db) => (.error e, db)
  | (.ok (), db) => transactionPhase faults m db

/-- the loop of `runMigrations` -/
def applyPending (faults : Faults) (current : Nat) : List Migration → Database → Result
  | [], db => (.ok (), db)
  | m :: ms, db =>
    if m.version ≤ current then applyPending faults current ms db
    else
      match applyMigration faults m db with
      | (.error e, db) => (.error e, db)
      | (.ok (), db) => applyPending faults current ms db

def firstFault (faults : Faults) (ps : List Point) : Option Point := ps.find? faults

def runMigrations (b : Binary) (faults : Faults) (db : Database) : Result :=
  match firstFault faults [.connection, .lock, .schema, .versionTable, .readVersion] with
  | some p => (.error (.fault p), db)
  | none =>
    let current := schemaVersion db
    if current > b.schemaVersion then (.error (.schemaTooNew current b.schemaVersion), db)
    else
      match applyPending faults current b.migrations db with
      | (.error e, db) => (.error e, db)
      | (.ok (), db) => if faults .repair then (.error (.fault .repair), db) else (.ok (), db)

def runAll (runs : List (Binary × Faults)) (db : Database) : Database :=
  runs.foldl (fun db r => (runMigrations r.1 r.2 db).2) db

/-! ## accepted lists -/

theorem versions_of_validateFrom {i : Nat} {ms : List Migration} (h : validateFrom i ms = .ok ()) :
    ms.map Migration.version = List.range' (i + 1) ms.length := by
  induction ms generalizing i with
  | nil => rfl
  | cons m ms ih =>
    rw [validateFrom] at h
    split_ifs at h with hv hp
    rw [map_cons, length_cons, List.range'_succ, ih h, not_not.mp hv]

theorem Binary.versions (b : Binary) :
    b.migrations.map Migration.version = List.range' 1 b.schemaVersion := by
  have hv := b.valid
  unfold validateMigrations at hv
  cases hf : validateFrom 0 b.migrations with
  | error e => rw [hf] at hv; cases hv
  | ok u =>
    rw [hf] at hv
    have hvs := versions_of_validateFrom hf
    cases hl : b.migrations.getLast? with
    | none => rw [hl] at hv; cases hv
    | some m =>
      rw [hl] at hv
      dsimp only at hv
      split_ifs at hv with hlast
      -- the last version is the length
      have hm : (b.migrations.map Migration.version).getLast? = some b.schemaVersion := by
        rw [getLast?_map, hl, ← not_not.mp hlast]
        rfl
      rw [hvs, getLast?_range'] at hm
      split_ifs at hm with h0
      have hlen := Option.some.inj hm
      rw [hvs, show b.migrations.length = b.schemaVersion by omega]

theorem Binary.length (b : Binary) : b.migrations.length = b.schemaVersion := by
  have h := congrArg List.length b.versions
  rwa [length_map, length_range'] at h

/-! ## the recorded versions -/

structure Recorded (k : Nat) (db : Database) : Prop where
  versions : db.versions.map Migration.version = List.range' 1 k
  applied : db.applied = db.versions.filter Migration.apply
  nonTx : ∀ m ∈ db.versions, m.applyNonTx = true → m ∈ db.nonTx

theorem recorded_new : Recorded 0 .new := ⟨rfl, rfl, fun _ h => absurd h not_mem_nil⟩

theorem foldl_max_range' (k : Nat) : (List.range' 1 k).foldl max 0 = k := by
  induction k with
  | zero => rfl
  | succ k ih =>
    rw [List.range'_concat, foldl_append, ih]
    show max k (1 + 1 * k) = k + 1
    omega

section
variable (faults : Faults) {k : Nat} {db : Database} {m : Migration}

theorem Recorded.schemaVersion (h : Recorded k db) : schemaVersion db = k := by
  unfold Migrations.schemaVersion
  rw [h.versions, foldl_max_range']

theorem Recorded.completed (h : Recorded k db) (m : Migration) :
    Recorded k { db with nonTx := db.nonTx ++ [m] } :=
  ⟨h.versions, h.applied, fun x hx hn => mem_append_left _ (h.nonTx x hx hn)⟩

theorem Recorded.record (h : Recorded k db) (hv : m.version = k + 1)
    (hn : m.applyNonTx = true → m ∈ db.nonTx) : Recorded (k + 1) (db.record m) := by
  refine ⟨?_, ?_, fun x hx hxn => ?_⟩
  · show (db.versions ++ [m]).map Migration.version = _
    rw [map_append, h.versions, List.range'_concat, map_singleton, hv]
    congr 2
    omega
  · show (if m.apply then db.applied ++ [m] else db.applied) = (db.versions ++ [m]).filter _
    rw [filter_append, h.applied]
    cases ha : m.apply <;> simp [ha]
  · rcases mem_append.mp hx with hx | hx
    · exact h.nonTx x hx hxn
    · obtain rfl := mem_singleton.mp hx
      exact hn hxn

/-- what a part of a run does to the recorded versions: they stay a prefix, and if it succeeds it ends
at `k` -/
structure Keeps (k : Nat) (r : Result) : Prop where
  recorded : ∃ j, Recorded j r.2
  succeeds : r.1 = .ok () → Recorded k r.2

theorem Keeps.failed {e : MigrationError} {j : Nat} (h : Recorded j db) : Keeps k (.error e, db) :=
  ⟨⟨j, h⟩, fun he => by cases he⟩

theorem Keeps.done (h : Recorded k db) : Keeps k (.ok (), db) := ⟨⟨k, h⟩, fun _ => h⟩

theorem keeps_transactionPhase (h : Recorded k db) (hv : m.version = k + 1)
    (hn : m.applyNonTx = true → m ∈ db.nonTx) : Keeps (k + 1) (transactionPhase faults m db) := by
  have hrec := h.record hv hn
  unfold transactionPhase
  split_ifs
  · exact .failed h
  · exact .failed h
  · exact .failed h
  · exact .failed h
  · exact .failed h
  · exact .failed hrec
  · exact .done hrec

theorem keeps_applyMigration (h : Recorded k db) (hv : m.version = k + 1) :
    Keeps (k + 1) (applyMigration faults m db) := by
  unfold applyMigration applyNonTxPhase
  split_ifs with hn hf
  · exact .failed h
  · exact keeps_transactionPhase faults (h.completed m) hv fun _ =>
      mem_append_right _ (mem_singleton_self m)
  · exact keeps_transactionPhase faults h hv fun hn' => absurd hn' hn

/-- the loop at index `a`: what was recorded before, or everything up to `a` -/
theorem keeps_applyPending {current a : Nat} {ms : List Migration}
    (hms : ms.map Migration.version = List.range' (a + 1) ms.length)
    (h : Recorded (max a current) db) :
    Keeps (max (a + ms.length) current) (applyPending faults current ms db) := by
  induction ms generalizing a db with
  | nil => exact .done h
  | cons m ms ih =>
    rw [map_cons, length_cons, List.range'_succ] at hms
    obtain ⟨hv, hms⟩ := List.cons.inj hms
    rw [applyPending, length_cons, show a + (ms.length + 1) = a + 1 + ms.length by omega]
    split
    · -- skipped: it is among the versions recorded before
      exact ih hms (by rwa [show max (a + 1) current = max a current by omega])
    · have hk : max a current = a := by omega
      rw [hk] at h
      have hm := keeps_applyMigration faults h hv
      match hr : applyMigration faults m db with
      | (.error e, db') =>
        rw [hr] at hm
        obtain ⟨j, hj⟩ := hm.recorded
        exact .failed hj
      | (.ok (), db') =>
        rw [hr] at hm
        exact ih hms (by rw [show max (a + 1) current = a + 1 by omega]; exact hm.succeeds rfl)

/-- **One run keeps the recorded versions a prefix; a run that succeeds completes its list.** -/
theorem keeps_runMigrations (b : Binary) (h : Recorded k db) :
    Keeps b.schemaVersion (runMigrations b faults db) := by
  have hlen := b.length
  unfold runMigrations
  split
  · exact .failed h
  · dsimp only
    rw [h.schemaVersion]
    split
    · exact .failed h
    · rename_i hle
      have hp : Keeps (max (0 + b.migrations.length) k) (applyPending faults k b.migrations db) :=
        keeps_applyPending faults (by rw [hlen]; exact b.versions) (by rwa [Nat.zero_max])
      rw [show max (0 + b.migrations.length) k = b.schemaVersion by omega] at hp
      match hr : applyPending faults k b.migrations db with
      | (.error e, db') =>
        rw [hr] at hp
        obtain ⟨j, hj⟩ := hp.recorded
        exact .failed hj
      | (.ok (), db') =>
        rw [hr] at hp
        dsimp only
        split
        · exact .failed (hp.succeeds rfl)
        · exact .done (hp.succeeds rfl)

/-- an older binary does not touch a newer database -/
theorem runMigrations_tooNew (b : Binary) (h : Recorded k db) (hk : b.schemaVersion < k) :
    (runMigrations b faults db).2 = db ∧ ∃ e, (runMigrations b faults db).1 = .error e := by
  unfold runMigrations
  split
  · exact ⟨rfl, _, rfl⟩
  · rw [h.schemaVersion, if_pos hk]
    exact ⟨rfl, _, rfl⟩

end

theorem recorded_runAll (runs : List (Binary × Faults)) {k : Nat} {db : Database}
    (h : Recorded k db) : ∃ j, Recorded j (runAll runs db) := by
  induction runs generalizing k db with
  | nil => exact ⟨k, h⟩
  | cons r runs ih =>
    obtain ⟨j, hj⟩ := (keeps_runMigrations r.2 r.1 h).recorded
    exact ih hj

/-! ## a run without faults -/

section
variable {k : Nat} {db : Database} {m : Migration}

theorem applyMigration_ok (h : Recorded k db) (hv : m.version = k + 1) :
    (applyMigration (fun _ => false) m db).1 = .ok () := by
  have hnew : ∀ db' : Database, db'.versions = db.versions →
      (transactionPhase (fun _ => false) m db').1 = .ok () := by
    intro db' he
    have hc : (db'.versions.map Migration.version).contains m.version = false := by
      rw [he, h.versions, hv, contains_eq_mem, decide_eq_false_iff_not, mem_range'_1]
      omega
    unfold transactionPhase
    rw [hc, Bool.and_false]
    rfl
  unfold applyMigration applyNonTxPhase
  split_ifs
  · contradiction
  · exact hnew _ rfl
  · exact hnew _ rfl

theorem applyPending_ok {current a : Nat} {ms : List Migration}
    (hms : ms.map Migration.version = List.range' (a + 1) ms.length)
    (h : Recorded (max a current) db) :
    (applyPending (fun _ => false) current ms db).1 = .ok () := by
  induction ms generalizing a db with
  | nil => rfl
  | cons m ms ih =>
    rw [map_cons, length_cons, List.range'_succ] at hms
    obtain ⟨hv, hms⟩ := List.cons.inj hms
    rw [applyPending]
    split
    · exact ih hms (by rwa [show max (a + 1) current = max a current by omega])
    · rw [show max a current = a by omega] at h
      have hok := applyMigration_ok h hv
      have hm := (keeps_applyMigration (fun _ => false) h hv).succeeds hok
      match hr : applyMigration (fun _ => false) m db with
      | (.error e, db') => rw [hr] at hok; cases hok
      | (.ok (), db') =>
        rw [hr] at hm
        exact ih hms (by rwa [show max (a + 1) current = a + 1 by omega])

/-- **A run that nothing interrupts succeeds on every database that is not newer.** -/
theorem runMigrations_ok (b : Binary) (h : Recorded k db) (hk : k ≤ b.schemaVersion) :
    (runMigrations b (fun _ => false) db).1 = .ok () := by
  have hp : (applyPending (fun _ => false) k b.migrations db).1 = .ok () :=
    applyPending_ok (a := 0) (by rw [b.length]; exact b.versions) (by rwa [Nat.zero_max])
  unfold runMigrations
  rw [h.schemaVersion, if_neg (by omega)]
  match hr : applyPending (fun _ => false) k b.migrations db with
  | (.error e, db') => rw [hr] at hp; cases hp
  | (.ok (), db') => rfl

theorem Recorded.nodup (h : Recorded k db) : db.versions.Nodup :=
  Nodup.of_map Migration.version (h.versions ▸ nodup_range')

theorem Recorded.count_applied (h : Recorded k db) (ha : m.apply = true) :
    db.applied.count m = if m ∈ db.versions then 1 else 0 := by
  rw [h.applied, count_filter ha, h.nodup.count]

theorem Recorded.applied_ascending (h : Recorded k db) :
    (db.applied.map Migration.version).Pairwise (· < ·) := by
  rw [h.applied]
  refine Pairwise.sublist (filter_sublist.map _) ?_
  rw [h.versions]
  exact pairwise_lt_range'

end

/-- **After any runs, by any binaries and with any faults:** the recorded versions are `1, .., k`; an
`apply` has committed once if its version is recorded and never otherwise, in ascending order; an
`applyNonTx` has completed if its version is recorded; a further run that succeeds completes its
list, and a further run of an older binary fails and changes nothing. -/
theorem runs_record_prefix (runs : List (Binary × Faults)) :
    ∃ k, (runAll runs .new).versions.map Migration.version = List.range' 1 k ∧
      (∀ m : Migration, m.apply = true →
        (runAll runs .new).applied.count m = if m ∈ (runAll runs .new).versions then 1 else 0) ∧
      ((runAll runs .new).applied.map Migration.version).Pairwise (· < ·) ∧
      (∀ m ∈ (runAll runs .new).versions, m.applyNonTx = true → m ∈ (runAll runs .new).nonTx) ∧
      (∀ (b : Binary) (faults : Faults),
        (runMigrations b faults (runAll runs .new)).1 = .ok () →
        (runMigrations b faults (runAll runs .new)).2.versions.map Migration.version =
          List.range' 1 b.schemaVersion) ∧
      (∀ (b : Binary) (faults : Faults), b.schemaVersion < k →
        (runMigrations b faults (runAll runs .new)).2 = runAll runs .new ∧
        ∃ e, (runMigrations b faults (runAll runs .new)).1 = .error e) := by
  obtain ⟨k, h⟩ := recorded_runAll runs recorded_new
  exact ⟨k, h.versions, fun m ha => h.count_applied ha, h.applied_ascending, h.nonTx,
    fun b faults hok => ((keeps_runMigrations faults b h).succeeds hok).versions,
    fun b faults hk => runMigrations_tooNew faults b h hk⟩

/-- the build with the baseline, and a later one with an index that is built outside a transaction -/
def baseline : Binary := ⟨1, [⟨1, "initial schema", true, false⟩], rfl⟩
def withIndex : Binary :=
  ⟨2, [⟨1, "initial schema", true, false⟩, ⟨2, "index", true, true⟩], rfl⟩

/-- the baseline is there; a first upgrade got no further than its index, a second one lost the
answer to its commit: the upgrade is complete, and the old build is refused -/
theorem runs_record_prefix_upgraded :
    ∃ k, (runAll [(baseline, fun _ => false), (withIndex, fun p => decide (p = .insert 2)),
        (withIndex, fun p => decide (p = .committed 2))] .new).versions.map Migration.version =
          List.range' 1 k ∧ k = 2 ∧
      (runMigrations withIndex (fun _ => false) (runAll [(baseline, fun _ => false),
        (withIndex, fun p => decide (p = .insert 2)),
        (withIndex, fun p => decide (p = .committed 2))] .new)).1 = .ok () ∧
      (∃ e, (runMigrations baseline (fun _ => false) (runAll [(baseline, fun _ => false),
        (withIndex, fun p => decide (p = .insert 2)),
        (withIndex, fun p => decide (p = .committed 2))] .new)).1 = .error e) := by
  obtain ⟨k, hv, -, -, -, -, hnew⟩ := runs_record_prefix [(baseline, fun _ => false),
    (withIndex, fun p => decide (p = .insert 2)), (withIndex, fun p => decide (p = .committed 2))]
  have hk : k = 2 := by
    have hl := congrArg List.length hv
    rw [length_range'] at hl
    exact hl.symm.trans (by decide)
  exact ⟨k, hv, hk, by decide, (hnew baseline (fun _ => false) (by rw [hk]; decide)).2⟩

/-- **Whatever has gone wrong before**, an undisturbed run of a binary that is not older completes. -/
theorem upgrade_recovers (runs : List (Binary × Faults)) (b : Binary)
    (hb : schemaVersion (runAll runs .new) ≤ b.schemaVersion) :
    (runMigrations b (fun _ => false) (runAll runs .new)).1 = .ok () ∧
      (runMigrations b (fun _ => false) (runAll runs .new)).2.versions.map Migration.version =
        List.range' 1 b.schemaVersion := by
  obtain ⟨k, h⟩ := recorded_runAll runs recorded_new
  have hok := runMigrations_ok b h (h.schemaVersion ▸ hb)
  exact ⟨hok, ((keeps_runMigrations (fun _ => false) b h).succeeds hok).versions⟩

theorem upgrade_recovers_crashed : (runMigrations withIndex (fun _ => false)
    (runAll [(withIndex, fun p => decide (p = .insert 2))] .new)).1 = .ok () :=
  (upgrade_recovers _ _ (by decide)).1

end PgQueue.Migrations
