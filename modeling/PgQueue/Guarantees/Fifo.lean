import PgQueue.Fifo.Channel
import PgQueue.Fifo.Topic

/-!
# First in, first out

`first_in_first_out`: **one process publishes, in single calls and in batches, with generated ids; a
consumer of the channel, or a subscriber of the topic that is active throughout, receives and
acknowledges.  It gets the messages exactly in the order in which they were published.**

The clock of the process may say anything, the database clock does not go back.
-/

namespace PgQueue
open Relational Process Fifo

theorem first_in_first_out {μ : Type} (pub : Publisher μ) (q : Queue) :
    (∀ (u : V7State) (s₀ : Channel.State) (t₀ : Time) (w : World Channel.State × Time),
      Channel.waiting s₀ = [] →
      Channel.quiet.Runs pub (Channel.lane q) (.start u s₀, t₀) w →
      InOrder (Channel.lane q) Channel.quiet w) ∧
    (∀ sub : String, validateSubscriberID sub = .ok () →
      ∀ (u : V7State) (s₀ : Topic.State) (t₀ : Time) (w : World Topic.State × Time),
      Topic.Wf q s₀ → Topic.waiting sub s₀ = [] →
      (Topic.quiet sub).Runs pub (Topic.lane q sub) (.start u s₀, t₀) w →
      InOrder (Topic.lane q sub) (Topic.quiet sub) w) :=
  ⟨fun _ _ _ _ hempty hr => (Channel.orderly q).inOrder pub trivial hempty hr,
    fun _ hsub _ _ _ _ hw hempty hr => (Topic.orderly q hsub).inOrder pub hw hempty hr⟩

def noEntropy : RandomBytes := ⟨0, 0, 0, [0, 0, 0, 0, 0, 0, 0], rfl⟩

/-- the process clock goes back by a millisecond inside the batch -/
def regressing : List (Content Bytes) :=
  [⟨some [1], none, ⟨10, 10, some noEntropy⟩⟩, ⟨some [2], none, ⟨9, 9, some noEntropy⟩⟩]

theorem zero_fits : 0 ≤ 0x0fff := Nat.zero_le _

def newGenerator : V7State := ⟨0, 0, zero_fits⟩

/-- the second id has the millisecond of the first and the next counter -/
def secondID : UUID := (10 * 2 ^ 16 + 0x7000 + 1) * 2 ^ 64 + 2 ^ 63

def afterFirst : World Channel.State × Time :=
  (step smallBatches (Channel.lane (.counting 3)) (.bare 1)
    (step smallBatches (Channel.lane (.counting 3)) (.bare 1) (.start newGenerator .init)
      (.publishBatch regressing)) (.receive 1000), 1)

theorem runs_afterFirst :
    Channel.quiet.Runs smallBatches (Channel.lane (.counting 3)) (.start newGenerator .init, 0)
      afterFirst := by
  refine ((Runs.refl.tail (e := (.bare 1, .publishBatch regressing)) ?_ rfl).tail
    (e := (.bare 1, .receive 1000)) ?_ rfl)
  · exact ⟨by decide, trivial, by decide +kernel⟩
  · refine ⟨by decide, ⟨by decide, ?_⟩, by decide +kernel⟩
    unfold Channel.NoneTimedOut
    decide +kernel

def onePublished : World Topic.State × Time :=
  (step smallBatches (Topic.lane (.counting 3) "b") (.bare 1) (.start newGenerator subscribedTopic)
    (.publish ⟨some [1], none, ⟨10, 10, some noEntropy⟩⟩), 1)

/-- the fan-out without its chunks, which do not compute -/
theorem lane_publish (q : Queue) (sub : String) :
    Topic.lane q sub = { Topic.lane q sub with publish := Topic.publishToPubSub q } := by
  have h : Topic.Chunked.publishToPubSub q = Topic.publishToPubSub q :=
    funext fun env => funext fun m => funext fun s => Topic.Chunked.publishToPubSub_eq q env m s
  unfold Topic.lane
  rw [h]

theorem runs_onePublished :
    (Topic.quiet "b").Runs smallBatches (Topic.lane (.counting 3) "b")
      (.start newGenerator subscribedTopic, 0) onePublished := by
  refine Runs.refl.tail (e := (.bare 1, .publish ⟨some [1], none, ⟨10, 10, some noEntropy⟩⟩)) ?_ rfl
  refine ⟨by decide, ⟨⟨"b", 0, true⟩, by decide, rfl, rfl⟩, ?_⟩
  rw [lane_publish]
  decide +kernel

theorem onePublished_eq :
    onePublished.1.published = [(10 * 2 ^ 16 + 0x7000) * 2 ^ 64 + 2 ^ 63] ∧
      onePublished.1.delivered = [] ∧
      ∀ r ∈ onePublished.1.queue.subs.rows, r.timedOut 2 = false := by
  unfold onePublished
  rw [lane_publish]
  decide +kernel

theorem first_in_first_out_regressing :
    (∃ m s', Channel.receiveChannel (.counting 3) (.bare 2) 1000 afterFirst.1.queue = (.ok m, s') ∧
      m.id = secondID) ∧
    (∃ m s', Topic.receiveTopic (.counting 3) (.bare 2) "b" 1000 onePublished.1.queue = (.ok m, s') ∧
      m.id = (10 * 2 ^ 16 + 0x7000) * 2 ^ 64 + 2 ^ 63) := by
  obtain ⟨hc, ht⟩ := first_in_first_out smallBatches (.counting 3)
  constructor
  · refine (hc newGenerator .init 0 afterFirst rfl runs_afterFirst).next (.bare 2) 1000 secondID
      (by decide) ⟨rfl, rfl⟩ ⟨by decide, ?_⟩ (by decide +kernel)
    unfold Channel.NoneTimedOut
    decide +kernel
  · have hclocked : Clocked 0 [(Env.bare 0, Topic.Op.subscribe "a"), (.bare 0, .subscribe "b")] :=
      ⟨by decide, by decide, trivial⟩
    have hreach := (Topic.Reach.init 0).ran (q := .counting 3) hclocked
    obtain ⟨hpub, hdel, hnone⟩ := onePublished_eq
    refine (ht "b" rfl newGenerator subscribedTopic 0 onePublished hreach.wf (by decide)
      runs_onePublished).next (.bare 2) 1000 _ (by decide) ⟨rfl, rfl⟩ ⟨by decide, ?_⟩ ?_
    · exact fun r hr _ => hnone r hr
    · rw [hpub, hdel]
      exact List.prefix_rfl

end PgQueue
