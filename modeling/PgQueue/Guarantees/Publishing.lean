import PgQueue.Publish
import PgQueue.Topic.Run

/-!
# A batch is published like its messages

* `Channel.publishBatch`, `Topic.publishBatch`   the batch calls;
* `Channel.publish`, `Topic.publish`             the single calls.

`publishBatch_all_or_nothing`: **a batch call within the limits succeeds if and only if the single
calls with the same ids at the same instant all succeed, then with the same ids and the same tables;
otherwise it leaves the tables alone.**
-/

namespace PgQueue
open Relational Process Publisher

namespace Channel

def publish {μ : Type} (pub : Publisher μ) (q : Queue) (env : Env) :
    Call μ → State → Except PublishError UUID × State :=
  pub.publish (publishToChannel q env)

def publishBatch {μ : Type} (pub : Publisher μ) (q : Queue) (env : Env) :
    List (Call μ) → State → Except PublishError (List UUID) × State :=
  pub.publishBatch (publishBatchToChannel q env)

section
variable {q : Queue} {env : Env} {s s' : State}

theorem publishToChannel_iff {m : PublishMessage} :
    publishToChannel q env m s = .ok s' ↔ s.msgs.find? m.id = none ∧
      { s with msgs := s.msgs.insertNew (newRow env q.resolveMaxRetries m) } = s' := by
  unfold publishToChannel
  cases s.msgs.find? m.id with
  | none | some => simp

theorem publishBatchToChannel_iff {ms : List PublishMessage} (hsize : ms.length ≤ maxBatchSize) :
    publishBatchToChannel q env ms s = .ok s' ↔
      s.msgs.rows.length + (ms.map (newRow env q.resolveMaxRetries)).length ≤
          (s.msgs.insertAll (ms.map (newRow env q.resolveMaxRetries))).rows.length ∧
        { s with msgs := s.msgs.insertAll (ms.map (newRow env q.resolveMaxRetries)) } = s' := by
  have hv := validateBatchSize_ok.mpr hsize
  unfold publishBatchToChannel
  rw [hv, List.length_map]
  dsimp only
  split
  · rename_i hlt
    exact ⟨nofun, fun h => absurd hlt (Nat.not_lt.mpr h.1)⟩
  · rename_i hle
    exact ⟨fun h => ⟨Nat.le_of_not_lt hle, Except.ok.inj h⟩, fun h => congrArg Except.ok h.2⟩

theorem publishBatchToChannel_eachTx {ms : List PublishMessage} (hsize : ms.length ≤ maxBatchSize) :
    publishBatchToChannel q env ms s = .ok s' ↔ eachTx (publishToChannel q env) ms s = .ok s' := by
  induction ms generalizing s with
  | nil =>
    rw [publishBatchToChannel_iff hsize]
    exact ⟨fun h => congrArg Except.ok h.2, fun h => ⟨Nat.le_refl _, Except.ok.inj h⟩⟩
  | cons m ms ih =>
    have hms : ms.length ≤ maxBatchSize := Nat.le_of_succ_le hsize
    rw [publishBatchToChannel_iff hsize, eachTx_cons, List.map_cons, Table.length_insertAll_cons_iff]
    constructor
    · rintro ⟨⟨hn, hlen⟩, h⟩
      refine ⟨_, publishToChannel_iff.mpr ⟨hn, rfl⟩, (ih hms).mp ?_⟩
      exact (publishBatchToChannel_iff hms).mpr ⟨hlen, h⟩
    · rintro ⟨s₁, hone, h⟩
      obtain ⟨hn, rfl⟩ := publishToChannel_iff.mp hone
      obtain ⟨hlen, h⟩ := (publishBatchToChannel_iff hms).mp ((ih hms).mpr h)
      exact ⟨⟨hn, hlen⟩, h⟩

end
end Channel

namespace Topic

def publish {μ : Type} (pub : Publisher μ) (q : Queue) (env : Env) :
    Call μ → State → Except PublishError UUID × State :=
  pub.publish (Chunked.publishToPubSub q env)

def publishBatch {μ : Type} (pub : Publisher μ) (q : Queue) (env : Env) :
    List (Call μ) → State → Except PublishError (List UUID) × State :=
  pub.publishBatch (Chunked.publishBatchToPubSub q env)

section
variable {q : Queue} {env : Env} {s s' : State}

theorem publishBatchToPubSub_eachTx {ms : List PublishMessage} (hsize : ms.length ≤ maxBatchSize) :
    publishBatchToPubSub q env ms s = .ok s' ↔
      eachTx (Chunked.publishToPubSub q env) ms s = .ok s' := by
  induction ms generalizing s with
  | nil =>
    unfold publishBatchToPubSub
    rw [if_pos rfl]
    rfl
  | cons m ms ih =>
    have hv := validateBatchSize_ok.mpr hsize
    rw [publishBatchToPubSub_cons hv, eachTx_cons]
    simp only [Chunked.publishToPubSub_eq, ih (Nat.le_of_succ_le hsize)]

theorem chunked_eachTx {ms : List PublishMessage} (hne : ms ≠ []) (hsize : ms.length ≤ maxBatchSize) :
    Chunked.publishBatchToPubSub q env ms s = .ok s' ↔
      eachTx (Chunked.publishToPubSub q env) ms s = .ok s' := by
  rw [Chunked.publishBatchToPubSub_eq q env hne (validateBatchSize_ok.mpr hsize)]
  exact publishBatchToPubSub_eachTx hsize

end
end Topic

theorem publishBatch_all_or_nothing {μ : Type} (pub : Publisher μ) (q : Queue) (env : Env)
    (cs : List (Call μ)) (hne : cs ≠ []) (hsize : cs.length ≤ maxBatchSize)
    (hbytes : pub.maxBatchBytes ≤ 0 ∨ (totalBytes cs : Int) ≤ pub.maxBatchBytes) :
    (∀ s : Channel.State,
      (∀ ids s', Channel.publishBatch pub q env cs s = (.ok ids, s') ↔
        callAll (Channel.publish pub q env) cs s = (.ok ids, s')) ∧
      ∀ e s', Channel.publishBatch pub q env cs s = (.error e, s') → s' = s) ∧
    (∀ s : Topic.State,
      (∀ ids s', Topic.publishBatch pub q env cs s = (.ok ids, s') ↔
        callAll (Topic.publish pub q env) cs s = (.ok ids, s')) ∧
      ∀ e s', Topic.publishBatch pub q env cs s = (.error e, s') → s' = s) := by
  refine ⟨fun s => ⟨fun ids s' => ?_, fun e s' h => publishBatch_error h⟩,
    fun s => ⟨fun ids s' => ?_, fun e s' h => publishBatch_error h⟩⟩
  · exact publishBatch_iff (fun ms _ hn _ _ => Channel.publishBatchToChannel_eachTx hn) hne hsize hbytes
  · exact publishBatch_iff (fun ms hm hn _ _ => Topic.chunked_eachTx hm hn) hne hsize hbytes

/-- a client that stores its metadata as they are, in batches of up to four bytes -/
def smallBatches : Publisher Bytes := ⟨false, 3, 3, 4, none, some⟩

def twoCalls : List (Call Bytes) :=
  [⟨⟨UUID.nil, some [1, 2, 3], none⟩, some 5⟩, ⟨⟨7, some [], some [4]⟩, none⟩]

def subscribedTopic : Topic.State :=
  (Topic.runFrom (.counting 3) .init [(.bare 0, .subscribe "a"), (.bare 0, .subscribe "b")]).1

theorem publishBatch_all_or_nothing_two :
    (∃ s', Channel.publishBatch smallBatches (.counting 3) (.bare 1) twoCalls .init =
      (.ok [5, 7], s') ∧ s'.msgs.rows.map Channel.Row.id = [5, 7]) ∧
    (∃ s', Topic.publishBatch smallBatches (.counting 3) (.bare 1) twoCalls subscribedTopic =
      (.ok [5, 7], s') ∧
        s'.subs.rows.map Topic.Sub.key = [(5, "a"), (5, "b"), (7, "a"), (7, "b")]) := by
  obtain ⟨hc, ht⟩ := publishBatch_all_or_nothing smallBatches (.counting 3) (.bare 1) twoCalls
    (List.cons_ne_nil _ _) (by decide) (Or.inr (by decide))
  constructor
  · exact ⟨_, ((hc .init).1 _ _).mpr rfl, by decide⟩
  · -- the chunks do not compute, the inserts they amount to do
    have htx : Topic.Chunked.publishToPubSub (.counting 3) (.bare 1) =
        Topic.publishToPubSub (.counting 3) (.bare 1) :=
      funext fun m => funext fun s => Topic.Chunked.publishToPubSub_eq _ _ m s
    refine ⟨(callAll (smallBatches.publish (Topic.publishToPubSub (.counting 3) (.bare 1))) twoCalls
      subscribedTopic).2, ((ht subscribedTopic).1 _ _).mpr ?_, by decide⟩
    unfold Topic.publish
    rw [htx]
    rfl

end PgQueue
