import PgQueue.Events
import PgQueue.Lease.Invariants

/-!
# Batch acknowledgements are retried

`withBatchRetry` runs the transaction of one receipt group again when it fails with a transient
error.  A connection may be lost after the `COMMIT` was carried out, so the loop may take a
committed attempt for a failed one; and between two attempts others commit transactions of theirs.

* `Try`              one attempt, with what others do before it and how it ends;
* `withBatchRetry`   the loop: its answer, and the transactions it committed;
* `Once`             what is asked of the loop about one receipt;
* `Ledger.countP_live`   **a token that is spent when it is used is used once.**
-/

namespace PgQueue
open Lease List

def maxBatchTransientRetries : Nat := 3

/-- the end of one attempt: rolled back, committed, or committed with a transient error reported -/
inductive Fate where
  | rolledBack (transient : Bool)
  | committed
  | unconfirmed
deriving DecidableEq, Repr

/-- `before` are the transactions that others commit before the attempt; `cancelled` says that the
caller's context has ended when the attempt has -/
structure Try (ω : Type) where
  before : List (Env × ω)
  env : Env
  fate : Fate
  cancelled : Bool

inductive BatchError where
  | refused (e : QueueError)
  | transient
  | fatal
deriving DecidableEq, Repr

structure Commit (σ : Type) where
  env : Env
  before : σ
  after : σ

structure Retried (σ : Type) where
  answer : Except BatchError BatchResult
  commits : List (Commit σ)
  final : σ

inductive Settlement where
  | ack
  | nack (reason : Bytes) (delay : Duration)
deriving DecidableEq, Repr

section
variable {σ ω : Type}

def Retried.cons (x : Commit σ) (r : Retried σ) : Retried σ := { r with commits := x :: r.commits }

/-- the loop over the attempts that are left; the list may also end with the process -/
def retryLoop (run : σ → List (Env × ω) → σ)
    (attempt : Env → σ → Except QueueError (BatchResult × σ)) : List (Try ω) → σ → Retried σ
  | [], s => ⟨.error .transient, [], s⟩
  | x :: rest, s =>
    let s₁ := run s x.before
    match attempt x.env s₁ with
    | .error e => ⟨.error (.refused e), [], s₁⟩
    | .ok (res, s₂) =>
      match x.fate with
      | .committed => ⟨.ok res, [⟨x.env, s₁, s₂⟩], s₂⟩
      | .rolledBack transient =>
        if !transient then ⟨.error .fatal, [], s₁⟩
        else if x.cancelled then ⟨.error .transient, [], s₁⟩
        else retryLoop run attempt rest s₁
      | .unconfirmed =>
        if x.cancelled then ⟨.error .transient, [⟨x.env, s₁, s₂⟩], s₂⟩
        else (retryLoop run attempt rest s₂).cons ⟨x.env, s₁, s₂⟩

def withBatchRetry (run : σ → List (Env × ω) → σ)
    (attempt : Env → σ → Except QueueError (BatchResult × σ)) (tries : List (Try ω)) (s : σ) :
    Retried σ := retryLoop run attempt (tries.take (maxBatchTransientRetries + 1)) s

/-- the transactions around one attempt, in the order of their clocks -/
def Try.ops (own : ω) (x : Try ω) : List (Env × ω) := x.before ++ [(x.env, own)]

/-- the effect of a receipt, over the transactions the loop commits: applied at most once, and
once if the receipt was `live` for the first of them; a transaction that does not apply it is
`idle` about it -/
structure Once (applied : Commit σ → Bool) (live : σ → Bool) (idle : Commit σ → Prop)
    (commits : List (Commit σ)) : Prop where
  most : commits.countP applied ≤ 1
  first : ∀ x rest, commits = x :: rest → live x.before = true → commits.countP applied = 1
  idle : ∀ x ∈ commits, applied x = false → idle x

variable {run : σ → List (Env × ω) → σ} {attempt : Env → σ → Except QueueError (BatchResult × σ)}

theorem attempt_of_mem_commits {tries : List (Try ω)} {s : σ} {x : Commit σ}
    (hx : x ∈ (retryLoop run attempt tries s).commits) :
    ∃ res, attempt x.env x.before = .ok (res, x.after) := by
  induction tries generalizing s with
  | nil => cases hx
  | cons y rest ih =>
    rw [retryLoop] at hx
    split at hx
    · cases hx
    · rename_i res s₂ ha
      split at hx
      · rw [mem_singleton] at hx
        exact ⟨res, hx ▸ ha⟩
      · split at hx
        · cases hx
        · split at hx
          · cases hx
          · exact ih hx
      · split at hx
        · rw [mem_singleton] at hx
          exact ⟨res, hx ▸ ha⟩
        · rcases mem_cons.mp hx with rfl | hx
          · exact ⟨res, ha⟩
          · exact ih hx

end

/-! ## a token that is spent when it is used -/

section
variable {σ ω κ : Type} [DecidableEq κ] (reach : σ → History κ → Time → Prop)
  (run : σ → List (Env × ω) → σ) (attempt : Env → σ → Except QueueError (BatchResult × σ))
  (live : σ → Bool) (k : κ) (c : UUID)

/-- the history of a queue, as far as it is about the token `c` of the key `k` -/
structure Ledger : Prop where
  others : ∀ {s h t ops}, reach s h t → Clocked t ops →
    ∃ es, reach (run s ops) (h ++ es) (clockAfter t ops)
  own : ∀ {s h t env res s'}, reach s h t → t ≤ env.now → attempt env s = .ok (res, s') →
    ∃ es, reach s' (h ++ es) env.now ∧ (live s = true → 0 < consumed c (about k es))
  unspent : ∀ {s h t}, reach s h t → live s = true → consumed c (about k h) = 0

variable {reach run attempt live k c} {own : ω} {tries : List (Try ω)} {s : σ} {h : History κ}
  {t : Time}

def Settlement.events (how : Settlement) (key : Receipt → κ) (rs : List Receipt) : History κ :=
  match how with
  | .ack => ackedEvents key rs
  | .nack _ _ => nackedEvents key rs

theorem Settlement.consumed_events (how : Settlement) {key : Receipt → κ} {r : Receipt} {rs : List Receipt}
    (hr : r ∈ rs) : 0 < consumed r.claimID (about (key r) (how.events key rs)) := by
  cases how with
  | ack | nack =>
    rw [consumed, countP_pos_iff]
    refine ⟨_, mem_about.mpr (mem_map.mpr ⟨r, hr, rfl⟩), ?_⟩
    exact decide_eq_true rfl

theorem consumed_about_append (h es : History κ) :
    consumed c (about k (h ++ es)) = consumed c (about k h) + consumed c (about k es) := by
  rw [about_append]
  exact countP_append

theorem Ledger.not_live (L : Ledger reach run attempt live k c) (hr : reach s h t)
    (hc : Clocked t (tries.flatMap (Try.ops own))) (hs : 0 < consumed c (about k h)) :
    ∀ x ∈ (retryLoop run attempt tries s).commits, live x.before = false := by
  induction tries generalizing s h t with
  | nil => nofun
  | cons y rest ih =>
    rw [flatMap_cons, Try.ops, append_assoc, clocked_append] at hc
    obtain ⟨es, hr₁⟩ := L.others hr hc.1
    have hs₁ : 0 < consumed c (about k (h ++ es)) := by
      rw [consumed_about_append]
      omega
    have hdead : live (run s y.before) = false := by
      rw [Bool.eq_false_iff]
      intro hl
      have := L.unspent hr₁ hl
      omega
    rw [retryLoop]
    split
    · nofun
    · rename_i res s₂ ha
      obtain ⟨es', hr₂, -⟩ := L.own hr₁ hc.2.1 ha
      have hs₂ : 0 < consumed c (about k (h ++ es ++ es')) := by
        rw [consumed_about_append]
        omega
      split
      · intro x hx
        rw [mem_singleton.mp hx]
        exact hdead
      · split
        · nofun
        · split
          · nofun
          · exact ih hr₁ (hc.2.2.mono hc.2.1) hs₁
      · split
        · intro x hx
          rw [mem_singleton.mp hx]
          exact hdead
        · intro x hx
          rcases mem_cons.mp hx with rfl | hx
          · exact hdead
          · exact ih hr₂ hc.2.2 hs₂ x hx

/-- **at most one commit finds the token live** -/
theorem Ledger.countP_live (L : Ledger reach run attempt live k c) (hr : reach s h t)
    (hc : Clocked t (tries.flatMap (Try.ops own))) :
    (retryLoop run attempt tries s).commits.countP (fun x => live x.before) ≤ 1 := by
  induction tries generalizing s h t with
  | nil => exact Nat.zero_le _
  | cons y rest ih =>
    rw [flatMap_cons, Try.ops, append_assoc, clocked_append] at hc
    obtain ⟨es, hr₁⟩ := L.others hr hc.1
    rw [retryLoop]
    split
    · exact Nat.zero_le _
    · rename_i res s₂ ha
      obtain ⟨es', hr₂, hspent⟩ := L.own hr₁ hc.2.1 ha
      split
      · exact countP_le_length
      · split
        · exact Nat.zero_le _
        · split
          · exact Nat.zero_le _
          · exact ih hr₁ (hc.2.2.mono hc.2.1)
      · split
        · exact countP_le_length
        · show List.countP _ (_ :: (retryLoop run attempt rest s₂).commits) ≤ 1
          rw [countP_cons]
          cases hl : live (run s y.before) with
          | false => exact ih hr₂ hc.2.2
          | true =>
            have hs₂ : 0 < consumed c (about k (h ++ es ++ es')) := by
              have := hspent hl
              rw [consumed_about_append]
              omega
            have hz : (retryLoop run attempt rest s₂).commits.countP (fun x => live x.before) = 0 := by
              rw [countP_eq_zero]
              intro x hx
              rw [L.not_live hr₂ hc.2.2 hs₂ x hx]
              exact Bool.false_ne_true
            rw [hz]
            exact Nat.le_refl _

theorem Ledger.once (L : Ledger reach run attempt live k c) {applied : Commit σ → Bool}
    {idle : Commit σ → Prop}
    (happ : ∀ {env s res s'}, attempt env s = .ok (res, s') → applied ⟨env, s, s'⟩ = live s)
    (hidle : ∀ {env s res s'}, attempt env s = .ok (res, s') → live s = false → idle ⟨env, s, s'⟩)
    (hr : reach s h t) (hc : Clocked t (tries.flatMap (Try.ops own))) :
    Once applied live idle (withBatchRetry run attempt tries s).commits := by
  have hc' : Clocked t ((tries.take (maxBatchTransientRetries + 1)).flatMap (Try.ops own)) := by
    rw [← take_append_drop (maxBatchTransientRetries + 1) tries, flatMap_append,
      clocked_append] at hc
    exact hc.1
  have hsame : ∀ x ∈ (withBatchRetry run attempt tries s).commits, applied x = live x.before := by
    intro x hx
    obtain ⟨res, ha⟩ := attempt_of_mem_commits hx
    exact happ ha
  have hcount : (withBatchRetry run attempt tries s).commits.countP applied =
      (withBatchRetry run attempt tries s).commits.countP (fun x => live x.before) :=
    countP_congr fun x hx => by rw [hsame x hx]
  have hle := L.countP_live hr hc'
  refine ⟨hcount ▸ hle, fun x rest he hl => ?_, fun x hx hf => ?_⟩
  · have hpos : 0 < (withBatchRetry run attempt tries s).commits.countP fun x => live x.before :=
      countP_pos_iff.mpr ⟨x, he ▸ mem_cons_self, hl⟩
    rw [hcount]
    exact Nat.le_antisymm hle hpos
  · obtain ⟨res, ha⟩ := attempt_of_mem_commits hx
    exact hidle ha ((hsame x hx).symm.trans hf)

end
end PgQueue
