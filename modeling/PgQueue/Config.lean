import PgQueue.Backoff
import PgQueue.Migrations

/-!
# Configuration options, and which of them `InitSchema` accepts

`New` and `InitSchema` take the same options.  Each writes a field or two of one record; what they leave
zero is filled in afterwards.  `InitSchema` uses the schema and the logger, and means to reject every
other option.

* `Opt`, `applyConfigOptions`      the options, and the record they resolve to;
* `validateRawOptions`, `validateResolvedConfig`   what `New` asks of them;
* `onlySchemaOrLoggerOption`       the fields `InitSchema` looks at, one by one;
* `Setting`                        what the options set;
* `lastOf`                         the option that has the last word on a setting;
* `initSchema`                     with the calls it makes to the database;
* `initSchema_rejects`             **a list is rejected exactly if some last word is a value that is looked
                                   at; two settings are not looked at.**

A logger, tracer, recorder or listener is a value of `ι`, nil is `none`.  Integers do not overflow here:
nothing is computed with them.
-/

namespace PgQueue.Config
open Backoff Migrations List

/-- the private `queueConfig` of the client -/
structure QueueConfig (ι : Type) where
  maxMessageSize : Int
  maxMetadataSize : Int
  defaultMaxRetries : Int
  maxRetriesSet : Bool
  defaultTTL : Int
  maxQueues : Int
  schemaName : String
  logger : Option ι
  tracer : Option ι
  metrics : Option ι
  backoffPolicy : BackoffPolicy
  backoffConfigured : Bool
  safetyNetPoll : Int
  listener : Option ι
  maxSubscribersPerTopic : Int
  maxBatchBytes : Int

variable {ι : Type}

def QueueConfig.zero : QueueConfig ι :=
  { maxMessageSize := 0
    maxMetadataSize := 0
    defaultMaxRetries := 0
    maxRetriesSet := false
    defaultTTL := 0
    maxQueues := 0
    schemaName := ""
    logger := none
    tracer := none
    metrics := none
    backoffPolicy := ⟨0, 0, 0⟩
    backoffConfigured := false
    safetyNetPoll := 0
    listener := none
    maxSubscribersPerTopic := 0
    maxBatchBytes := 0 }

/-! ## options -/

inductive Opt (ι : Type) where
  | withMaxMessageSize (bytes : Int)
  | withMaxMetadataSize (bytes : Int)
  | withDefaultMaxRetries (n : Int)
  | withDefaultTTL (d : Int)
  | withMaxQueues (n : Int)
  | withMaxSubscribersPerTopic (n : Int)
  | withMaxBatchBytes (n : Int)
  | withSchema (name : String)
  | withLogger (l : Option ι)
  | withTracer (t : Option ι)
  | withMetrics (m : Option ι)
  | withBackoffPolicy (p : BackoffPolicy)
  | withSafetyNetPoll (d : Int)
  | withListener (l : Option ι)

def Opt.apply (c : QueueConfig ι) : Opt ι → QueueConfig ι
  | .withMaxMessageSize bytes => { c with maxMessageSize := bytes }
  | .withMaxMetadataSize bytes => { c with maxMetadataSize := bytes }
  | .withDefaultMaxRetries n => { c with defaultMaxRetries := n, maxRetriesSet := true }
  | .withDefaultTTL d => { c with defaultTTL := d }
  | .withMaxQueues n => { c with maxQueues := n }
  | .withMaxSubscribersPerTopic n => { c with maxSubscribersPerTopic := n }
  | .withMaxBatchBytes n => { c with maxBatchBytes := n }
  | .withSchema name => { c with schemaName := name }
  | .withLogger l => { c with logger := l }
  | .withTracer t => { c with tracer := t }
  | .withMetrics m => { c with metrics := m }
  | .withBackoffPolicy p => { c with backoffPolicy := p, backoffConfigured := true }
  | .withSafetyNetPoll d => { c with safetyNetPoll := d }
  | .withListener l => { c with listener := l }

def probe (opts : List (Opt ι)) : QueueConfig ι := opts.foldl Opt.apply QueueConfig.zero

def defaultSchemaName : String := "public"
def defaultMaxMessageSize : Int := 256 * 1024
def defaultMaxMetadataSize : Int := 16 * 1024
def maxAllowedMessageSize : Int := 1073741824
def maxAllowedMetadataSize : Int := 1073741824

def applyConfigOptions (opts : List (Opt ι)) : QueueConfig ι :=
  let c := probe opts
  { c with
    maxMessageSize := if c.maxMessageSize = 0 then defaultMaxMessageSize else c.maxMessageSize
    maxMetadataSize := if c.maxMetadataSize = 0 then defaultMaxMetadataSize else c.maxMetadataSize
    defaultMaxRetries := if !c.maxRetriesSet then 3 else c.defaultMaxRetries
    schemaName := if c.schemaName = "" then defaultSchemaName else c.schemaName
    backoffPolicy := c.backoffPolicy.normalized }

/-! ## what `New` asks of them -/

/-- the errors that wrap `ErrInvalidConfig` -/
inductive ConfigError where
  | maxMessageSize (n : Int)
  | maxMetadataSize (n : Int)
  | resolved
  | schemaName (name : String)
  | safetyNetPoll
  | backoffPolicy (e : InvalidConfig)
  | onlySchemaOrLogger
deriving DecidableEq, Repr

def validateMaxMessageSize (n : Int) : Except ConfigError Unit :=
  if n < 0 ∨ n > maxAllowedMessageSize then .error (.maxMessageSize n) else .ok ()

def validateMaxMetadataSize (n : Int) : Except ConfigError Unit :=
  if n < 0 ∨ n > maxAllowedMetadataSize then .error (.maxMetadataSize n) else .ok ()

def maxSchemaNameLength : Nat := 63

def schemaNameStart (c : Char) : Bool := c.isAlpha || c == '_'
def schemaNameChar (c : Char) : Bool := c.isAlphanum || c == '_'

/-- `^[a-zA-Z_][a-zA-Z0-9_]*$` -/
def schemaNameRegex : List Char → Bool
  | [] => false
  | c :: cs => schemaNameStart c && cs.all schemaNameChar

def validateSchemaName (name : String) : Except ConfigError Unit :=
  if name = "" ∨ name.utf8ByteSize > maxSchemaNameLength ∨ schemaNameRegex name.toList = false then
    .error (.schemaName name)
  else .ok ()

def validateResolvedConfig (cfg : QueueConfig ι) : Except ConfigError Unit := do
  validateMaxMessageSize cfg.maxMessageSize
  validateMaxMetadataSize cfg.maxMetadataSize
  if cfg.defaultMaxRetries < 0 ∨ cfg.defaultTTL < 0 ∨ cfg.maxQueues < 0 then .error .resolved
  else validateSchemaName cfg.schemaName

/-- the values as they were given, before defaults are filled in -/
def validateRawOptions (opts : List (Opt ι)) : Except ConfigError Unit :=
  let raw := probe opts
  if raw.safetyNetPoll < 0 then .error .safetyNetPoll
  else (validateBackoffPolicy raw.backoffPolicy).mapError .backoffPolicy

/-- `New` goes on to the database with these options -/
def validateOptions (opts : List (Opt ι)) : Except ConfigError Unit := do
  validateRawOptions opts
  validateResolvedConfig (applyConfigOptions opts)

/-! ## what `InitSchema` looks at -/

/-- one flag for each field that an option other than `WithSchema` and `WithLogger` sets -/
def disallowed (probe : QueueConfig ι) : List Bool :=
  [decide (probe.maxMessageSize ≠ 0),
    decide (probe.maxMetadataSize ≠ 0),
    decide (probe.defaultMaxRetries ≠ 0),
    probe.maxRetriesSet,
    decide (probe.defaultTTL ≠ 0),
    decide (probe.maxQueues ≠ 0),
    decide (probe.safetyNetPoll ≠ 0),
    probe.backoffConfigured,
    probe.tracer.isSome,
    probe.metrics.isSome,
    probe.listener.isSome]

def onlySchemaOrLoggerOption (opts : List (Opt ι)) : Bool := !(disallowed (probe opts)).any id

/-! ## settings -/

inductive Setting where
  | maxMessageSize
  | maxMetadataSize
  | defaultMaxRetries
  | defaultTTL
  | maxQueues
  | maxSubscribersPerTopic
  | maxBatchBytes
  | schema
  | logger
  | tracer
  | metrics
  | backoffPolicy
  | safetyNetPoll
  | listener
deriving DecidableEq, Repr

def Opt.setting : Opt ι → Setting
  | .withMaxMessageSize _ => .maxMessageSize
  | .withMaxMetadataSize _ => .maxMetadataSize
  | .withDefaultMaxRetries _ => .defaultMaxRetries
  | .withDefaultTTL _ => .defaultTTL
  | .withMaxQueues _ => .maxQueues
  | .withMaxSubscribersPerTopic _ => .maxSubscribersPerTopic
  | .withMaxBatchBytes _ => .maxBatchBytes
  | .withSchema _ => .schema
  | .withLogger _ => .logger
  | .withTracer _ => .tracer
  | .withMetrics _ => .metrics
  | .withBackoffPolicy _ => .backoffPolicy
  | .withSafetyNetPoll _ => .safetyNetPoll
  | .withListener _ => .listener

/-- the two records hold the same value of the setting; of a backoff policy it also matters whether
there is one -/
def Setting.Same (c d : QueueConfig ι) : Setting → Prop
  | .maxMessageSize => c.maxMessageSize = d.maxMessageSize
  | .maxMetadataSize => c.maxMetadataSize = d.maxMetadataSize
  | .defaultMaxRetries => c.defaultMaxRetries = d.defaultMaxRetries
  | .defaultTTL => c.defaultTTL = d.defaultTTL
  | .maxQueues => c.maxQueues = d.maxQueues
  | .maxSubscribersPerTopic => c.maxSubscribersPerTopic = d.maxSubscribersPerTopic
  | .maxBatchBytes => c.maxBatchBytes = d.maxBatchBytes
  | .schema => c.schemaName = d.schemaName
  | .logger => c.logger = d.logger
  | .tracer => c.tracer = d.tracer
  | .metrics => c.metrics = d.metrics
  | .backoffPolicy => c.backoffPolicy = d.backoffPolicy ∧ c.backoffConfigured = d.backoffConfigured
  | .safetyNetPoll => c.safetyNetPoll = d.safetyNetPoll
  | .listener => c.listener = d.listener

/-- the options give the setting a value that the default configuration does not have -/
def Sets (opts : List (Opt ι)) (x : Setting) : Prop :=
  ¬ x.Same (applyConfigOptions opts) (applyConfigOptions [])

def Setting.checked : Setting → Bool
  | .schema | .logger | .maxSubscribersPerTopic | .maxBatchBytes => false
  | _ => true

/-- the option leaves a field set that `onlySchemaOrLoggerOption` looks at -/
def Opt.marks : Opt ι → Bool
  | .withMaxMessageSize n | .withMaxMetadataSize n | .withDefaultTTL n | .withMaxQueues n
  | .withSafetyNetPoll n => decide (n ≠ 0)
  | .withDefaultMaxRetries _ | .withBackoffPolicy _ => true
  | .withTracer i | .withMetrics i | .withListener i => i.isSome
  | .withSchema _ | .withLogger _ | .withMaxSubscribersPerTopic _ | .withMaxBatchBytes _ => false

theorem checked_of_marks {o : Opt ι} (h : o.marks = true) : o.setting.checked = true := by
  cases o with
  | withSchema | withLogger | withMaxSubscribersPerTopic | withMaxBatchBytes => cases h
  | _ => rfl

def lastOf (opts : List (Opt ι)) (x : Setting) : Option (Opt ι) :=
  opts.reverse.find? fun o => decide (o.setting = x)

/-- the flags of `disallowed`, by setting -/
def flag (c : QueueConfig ι) : Setting → Bool
  | .maxMessageSize => decide (c.maxMessageSize ≠ 0)
  | .maxMetadataSize => decide (c.maxMetadataSize ≠ 0)
  | .defaultMaxRetries => c.maxRetriesSet || decide (c.defaultMaxRetries ≠ 0)
  | .defaultTTL => decide (c.defaultTTL ≠ 0)
  | .maxQueues => decide (c.maxQueues ≠ 0)
  | .tracer => c.tracer.isSome
  | .metrics => c.metrics.isSome
  | .backoffPolicy => c.backoffConfigured
  | .safetyNetPoll => decide (c.safetyNetPoll ≠ 0)
  | .listener => c.listener.isSome
  | .schema | .logger | .maxSubscribersPerTopic | .maxBatchBytes => false

theorem flag_apply (o : Opt ι) (c : QueueConfig ι) (x : Setting) :
    flag (o.apply c) x = if o.setting = x then o.marks else flag c x := by
  cases o <;> cases x <;> rfl

theorem flag_probe (opts : List (Opt ι)) (x : Setting) :
    flag (probe opts) x = (lastOf opts x).any Opt.marks := by
  induction opts using List.reverseRecOn with
  | nil => cases x <;> rfl
  | append_singleton opts o ih =>
    have hprobe : probe (opts ++ [o]) = o.apply (probe opts) := foldl_append
    rw [hprobe, flag_apply, ih, lastOf, lastOf, reverse_append, reverse_singleton,
      singleton_append, find?_cons]
    by_cases h : o.setting = x
    · rw [if_pos h, decide_eq_true h, Option.any_some]
    · rw [if_neg h, decide_eq_false h]

variable {opts : List (Opt ι)}

theorem any_disallowed (c : QueueConfig ι) :
    (disallowed c).any id = true ↔ ∃ x, flag c x = true := by
  simp only [disallowed, any_cons, any_nil, Bool.or_eq_true, id, or_false, Bool.false_eq_true]
  constructor
  · rintro (h | h | h | h | h | h | h | h | h | h | h)
    · exact ⟨.maxMessageSize, h⟩
    · exact ⟨.maxMetadataSize, h⟩
    · exact ⟨.defaultMaxRetries, Bool.or_eq_true_iff.mpr (.inr h)⟩
    · exact ⟨.defaultMaxRetries, Bool.or_eq_true_iff.mpr (.inl h)⟩
    · exact ⟨.defaultTTL, h⟩
    · exact ⟨.maxQueues, h⟩
    · exact ⟨.safetyNetPoll, h⟩
    · exact ⟨.backoffPolicy, h⟩
    · exact ⟨.tracer, h⟩
    · exact ⟨.metrics, h⟩
    · exact ⟨.listener, h⟩
  · rintro ⟨x, hx⟩
    cases x <;> grind [flag]

theorem onlySchemaOrLoggerOption_iff :
    onlySchemaOrLoggerOption opts = false ↔ ∃ o, lastOf opts o.setting = some o ∧ o.marks = true := by
  rw [onlySchemaOrLoggerOption, Bool.not_eq_false', any_disallowed]
  constructor
  · rintro ⟨x, hx⟩
    rw [flag_probe, Option.any_eq_true] at hx
    obtain ⟨o, ho, hmarks⟩ := hx
    obtain rfl : o.setting = x := by simpa using find?_some ho
    exact ⟨o, ho, hmarks⟩
  · rintro ⟨o, ho, hmarks⟩
    refine ⟨o.setting, ?_⟩
    rw [flag_probe, ho]
    exact hmarks

theorem backoffPolicy_probe (h : (probe opts).backoffConfigured = false) :
    (probe opts).backoffPolicy = ⟨0, 0, 0⟩ := by
  have hfold : ∀ c : QueueConfig ι, (c.backoffConfigured = false → c.backoffPolicy = ⟨0, 0, 0⟩) →
      (opts.foldl Opt.apply c).backoffConfigured = false →
        (opts.foldl Opt.apply c).backoffPolicy = ⟨0, 0, 0⟩ := by
    clear h
    induction opts with
    | nil => exact fun c hc => hc
    | cons o opts ih =>
      intro c hc
      refine ih (o.apply c) ?_
      cases o with
      | withBackoffPolicy p => exact fun h => nomatch h
      | _ => exact hc
  exact hfold QueueConfig.zero (fun _ => rfl) h

/-- if no flag is up, the settings behind the flags are the default ones -/
theorem same_of_onlySchemaOrLogger (h : onlySchemaOrLoggerOption opts = true) {x : Setting}
    (hx : x.checked = true) : x.Same (applyConfigOptions opts) (applyConfigOptions []) := by
  have hflags : ∀ b ∈ disallowed (probe opts), b = false := by
    rw [onlySchemaOrLoggerOption, Bool.not_eq_true', any_eq_false] at h
    exact fun b hb => Bool.eq_false_iff.mpr (h b hb)
  simp only [disallowed, forall_mem_cons, decide_eq_false_iff_not, not_not,
    Option.isSome_eq_false_iff, Option.isNone_iff_eq_none] at hflags
  obtain ⟨hsize, hmeta, -, hset, httl, hqueues, hpoll, hconf, htracer, hmetrics, hlistener, -⟩ := hflags
  cases x with
  | maxMessageSize =>
    show (if (probe opts).maxMessageSize = 0 then _ else _) = _
    rw [if_pos hsize]
    rfl
  | maxMetadataSize =>
    show (if (probe opts).maxMetadataSize = 0 then _ else _) = _
    rw [if_pos hmeta]
    rfl
  | defaultMaxRetries =>
    show (if !(probe opts).maxRetriesSet then _ else _) = _
    rw [hset]
    rfl
  | defaultTTL => exact httl
  | maxQueues => exact hqueues
  | tracer => exact htracer
  | metrics => exact hmetrics
  | backoffPolicy => exact ⟨congrArg BackoffPolicy.normalized (backoffPolicy_probe hconf), hconf⟩
  | safetyNetPoll => exact hpoll
  | listener => exact hlistener
  | _ => cases hx

/-! ## `InitSchema` -/

inductive InitError where
  | dbRequired
  | invalidConfig (e : ConfigError)
  | ping (text : String)
  | version (text : String)
  | parseVersion (text : String)
  | unsupportedPGVersion (n : Int)
  | migrations (e : MigrationError)
deriving DecidableEq, Repr

/-- `strconv.Atoi`: an optional sign and digits; out of range is an error as well -/
def atoi (s : String) : Option Int :=
  let digits (cs : List Char) : Option Int :=
    if cs ≠ [] ∧ cs.all Char.isDigit then
      some (cs.foldl (fun n c => n * 10 + (c.toNat - '0'.toNat : Nat)) (0 : Nat))
    else none
  let n := match s.toList with
    | '-' :: cs => (digits cs).map fun n => -n
    | '+' :: cs => digits cs
    | cs => digits cs
  n.filter fun n => decide (-9223372036854775808 ≤ n ∧ n ≤ 9223372036854775807)

/-- what a database answers: the errors, if any, and the text of its version; what a schema holds, and
where a run of the migrations stops -/
structure Server where
  ping : Option String
  version : Except String String
  database : String → Database
  faults : Faults

/-- a run of the migrations with what it leaves in the schema -/
inductive DBCall where
  | ping
  | showVersion
  | migrate (schema : String) (left : Database)
deriving DecidableEq, Repr

def minPGVersionNum : Int := 180000

/-- the result, and the calls made to the database -/
def checkDBReady (db : Server) : Except InitError Unit × List DBCall :=
  match db.ping with
  | some text => (.error (.ping text), [.ping])
  | none =>
    match db.version with
    | .error text => (.error (.version text), [.ping, .showVersion])
    | .ok text =>
      match atoi text with
      | none => (.error (.parseVersion text), [.ping, .showVersion])
      | some n =>
        (if n < minPGVersionNum then .error (.unsupportedPGVersion n) else .ok (), [.ping, .showVersion])

/-- a nil database is `none`; `b` are the migrations that the library is built with -/
def initSchema (b : Binary) (db : Option Server) (opts : List (Opt ι)) :
    Except InitError Unit × List DBCall :=
  match db with
  | none => (.error .dbRequired, [])
  | some db =>
    if !onlySchemaOrLoggerOption opts then (.error (.invalidConfig .onlySchemaOrLogger), [])
    else
      let cfg := applyConfigOptions opts
      match validateSchemaName cfg.schemaName with
      | .error e => (.error (.invalidConfig e), [])
      | .ok () =>
        match checkDBReady db with
        | (.error e, calls) => (.error e, calls)
        | (.ok (), calls) =>
          let (result, left) := runMigrations b db.faults (db.database cfg.schemaName)
          (result.mapError .migrations, calls ++ [.migrate cfg.schemaName left])

theorem validateSchemaName_error {name : String} {e : ConfigError}
    (h : validateSchemaName name = .error e) : e = .schemaName name := by
  unfold validateSchemaName at h
  split at h
  · exact (Except.error.inj h).symm
  · cases h

theorem checkDBReady_ne (db : Server) (e : ConfigError) :
    (checkDBReady db).1 ≠ .error (.invalidConfig e) := by
  intro h
  unfold checkDBReady at h
  split at h
  · cases h
  · split at h
    · cases h
    · split at h
      · cases h
      · split at h <;> cases h

section
variable (b : Binary) (db : Server)

theorem initSchema_rejected (h : onlySchemaOrLoggerOption opts = false) :
    initSchema b (some db) opts = (.error (.invalidConfig .onlySchemaOrLogger), []) := by
  unfold initSchema
  rw [h]
  rfl

theorem initSchema_not_rejected (h : onlySchemaOrLoggerOption opts = true) :
    (initSchema b (some db) opts).1 ≠ .error (.invalidConfig .onlySchemaOrLogger) := by
  have hnot : ¬ (!onlySchemaOrLoggerOption opts) = true := by
    rw [h]
    exact Bool.false_ne_true
  unfold initSchema
  dsimp only
  rw [if_neg hnot]
  cases hv : validateSchemaName (applyConfigOptions opts).schemaName with
  | error e =>
    rw [validateSchemaName_error hv]
    intro he
    cases he
  | ok u =>
    have hready := checkDBReady_ne db .onlySchemaOrLogger
    generalize checkDBReady db = ready at hready ⊢
    obtain ⟨result, calls⟩ := ready
    cases result with
    | error e => exact hready
    | ok u =>
      generalize runMigrations b db.faults _ = run
      obtain ⟨result, left⟩ := run
      cases result <;> exact fun he => nomatch he

end

/-- **`InitSchema` rejects what it would ignore, up to two settings.**  Options that give any setting but
the schema, the logger, the cap of subscribers and the cap of batch bytes a value that is not the default
one are rejected before the database is touched, options for the schema and the logger never for this
reason.  A list is rejected exactly if it has a setting whose last option leaves one of the tested fields
set, and then no call is made. -/
theorem initSchema_rejects (b : Binary) (db : Server) (opts : List (Opt ι)) :
    ((∃ x : Setting, x ≠ .schema ∧ x ≠ .logger ∧ x ≠ .maxSubscribersPerTopic ∧ x ≠ .maxBatchBytes ∧
        Sets opts x) →
      initSchema b (some db) opts = (.error (.invalidConfig .onlySchemaOrLogger), [])) ∧
    ((∀ o ∈ opts, o.setting = .schema ∨ o.setting = .logger) →
      (initSchema b (some db) opts).1 ≠ .error (.invalidConfig .onlySchemaOrLogger)) ∧
    ((initSchema b (some db) opts).1 = .error (.invalidConfig .onlySchemaOrLogger) ↔
      ∃ o, lastOf opts o.setting = some o ∧ o.marks = true) ∧
    ((initSchema b (some db) opts).1 = .error (.invalidConfig .onlySchemaOrLogger) →
      (initSchema b (some db) opts).2 = []) := by
  have hiff : (initSchema b (some db) opts).1 = .error (.invalidConfig .onlySchemaOrLogger) ↔
      onlySchemaOrLoggerOption opts = false := by
    constructor
    · exact fun h => Bool.eq_false_iff.mpr fun honly => initSchema_not_rejected b db honly h
    · exact fun h => congrArg Prod.fst (initSchema_rejected b db h)
  refine ⟨?_, fun h => ?_, hiff.trans onlySchemaOrLoggerOption_iff, fun h => ?_⟩
  · rintro ⟨x, hschema, hlogger, hsubs, hbytes, hsets⟩
    refine initSchema_rejected b db (Bool.eq_false_iff.mpr fun honly => hsets ?_)
    refine same_of_onlySchemaOrLogger honly ?_
    cases x with
    | schema => exact absurd rfl hschema
    | logger => exact absurd rfl hlogger
    | maxSubscribersPerTopic => exact absurd rfl hsubs
    | maxBatchBytes => exact absurd rfl hbytes
    | _ => rfl
  · rw [ne_eq, hiff, onlySchemaOrLoggerOption_iff]
    rintro ⟨o, ho, hmarks⟩
    -- the last option of a setting is one of the list
    have hchecked := checked_of_marks hmarks
    rcases h o (mem_reverse.mp (mem_of_find?_eq_some ho)) with hs | hs
    · rw [hs] at hchecked
      cases hchecked
    · rw [hs] at hchecked
      cases hchecked
  · exact congrArg Prod.snd (initSchema_rejected b db (hiff.mp h))

def postgres18 : Server := ⟨none, .ok "180000", fun _ => .new, fun _ => false⟩

theorem initSchema_rejects_maxQueues :
    let opts : List (Opt Unit) := [.withSchema "jobs", .withMaxQueues 5]
    initSchema baseline (some postgres18) opts = (.error (.invalidConfig .onlySchemaOrLogger), []) := by
  refine (initSchema_rejects baseline postgres18 _).1
    ⟨.maxQueues, by decide, by decide, by decide, by decide, ?_⟩
  intro h
  have h' : (5 : Int) = 0 := h
  exact absurd h' (by decide)

/-- a cap of one batch byte is valid and not the default, and the migrations run all the same -/
theorem initSchema_ignores_maxBatchBytes :
    let opts : List (Opt Unit) := [.withMaxBatchBytes 1]
    validateOptions opts = .ok () ∧ Sets opts .maxBatchBytes ∧
      initSchema baseline (some postgres18) opts =
        (.ok (), [.ping, .showVersion, .migrate "public" (runMigrations baseline (fun _ => false) .new).2]) := by
  refine ⟨rfl, ?_, rfl⟩
  intro h
  have h' : (1 : Int) = 0 := h
  exact absurd h' (by decide)

end PgQueue.Config
