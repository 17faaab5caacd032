import PgQueue.Mailbox.Channel
import PgQueue.Mailbox.Topic

/-!
# A channel and a topic with one subscriber

Both refine the mailbox, so a client that uses one of them through its door cannot tell it from the
other, up to the claims in its receipts and the ids of the dead letters.  It can as soon as it
publishes the id of a dead letter again: a channel has no row of that id any more, and a topic still
has the message.
-/

namespace PgQueue
open Mailbox

/-- **a channel and a topic with one subscriber agree**: with the same retry cap they answer every
run of calls in the same way and end with the same dead letters, if no publish reuses the id of a
message that is dead-lettered at the time -/
theorem channel_agrees_with_topic {qc qt : Queue} {env : Env} {sub : String} {t : Topic.State}
    (hmax : qc.resolveMaxRetries = qt.resolveMaxRetries)
    (hsub : Topic.registerSubscriber env sub Topic.State.init = .ok t) {calls : List (Env × Call)}
    (hfree : (Channel.door qc).Unburied ⟨[], Channel.State.init⟩ calls) :
    let c := (Channel.door qc).run ⟨[], Channel.State.init⟩ calls
    let p := (Topic.door qt sub).run ⟨[], t⟩ calls
    c.1 = p.1 ∧ (c.2.state.dlq.map DLQRow.anonymous).Perm (p.2.state.dlq.map DLQRow.anonymous) := by
  let x : Session Channel.State := ⟨[], Channel.State.init⟩
  let y : Session Topic.State := ⟨[], t⟩
  have hx : x.Valid (Channel.Numbered qc) := Channel.numbered_init qc
  have hy : y.Valid (Topic.Numbered qt sub) := Topic.numbered_register hsub
  have hxy : x.mail Channel.mail = y.mail Topic.mail :=
    Channel.mail_init.trans (Topic.mail_register hsub).symm
  have hd := Channel.door_refines qc
  rw [hmax] at hd
  exact hd.agree (Topic.door_refines qt sub) hx hy hxy hfree

/-- two messages: one is acked, one times out, is released by the collector, rejected and buried -/
def sharedRun : List (Env × Call) :=
  [(Env.bare 0, .publishBatch [⟨7, [1], none⟩, ⟨8, [2], none⟩]), (Env.bare 1, .receive 1000),
    (Env.bare 2, .receive 1000), (Env.bare 3, .ack 7 0), (Env.bare 5000, .collect),
    (Env.bare 5001, .nack 8 1 [] 0), (Env.bare 5002, .receive 1000), (Env.bare 5003, .extend 8 2 2000),
    (Env.bare 5004, .nack 8 2 [] 0), (Env.bare 5005, .receive 1000), (Env.bare 5006, .publish ⟨7, [], none⟩)]

theorem channel_agrees_with_topic_shared :
    let c := (Channel.door (Queue.counting 1)).run ⟨[], Channel.State.init⟩ sharedRun
    let t := (Topic.step (Queue.counting 1) (Env.bare 0) Topic.State.init (.subscribe "a")).1
    let p := (Topic.door (Queue.counting 1) "a").run ⟨[], t⟩ sharedRun
    c.2.state.dlq.map DLQRow.originalMessageID = [8] ∧ c.1 = p.1 ∧
      (c.2.state.dlq.map DLQRow.anonymous).Perm (p.2.state.dlq.map DLQRow.anonymous) :=
  have hsub : Topic.registerSubscriber (Env.bare 0) "a" Topic.State.init = .ok _ := rfl
  ⟨by decide +kernel, channel_agrees_with_topic rfl hsub (by decide +kernel)⟩

/-- publish, deliver, reject without a retry left, publish again -/
def reusedRun : List (Env × Call) :=
  [(Env.bare 0, .publish ⟨7, [], none⟩), (Env.bare 1, .receive 1000), (Env.bare 2, .nack 7 0 [] 0),
    (Env.bare 3, .publish ⟨7, [], none⟩)]

/-- the channel takes the id of a dead letter again, the topic refuses it -/
theorem reused_id_disagrees :
    let c := (Channel.door (Queue.counting 0)).run ⟨[], Channel.State.init⟩ reusedRun
    let t := (Topic.step (Queue.counting 0) (Env.bare 0) Topic.State.init (.subscribe "a")).1
    let p := (Topic.door (Queue.counting 0) "a").run ⟨[], t⟩ reusedRun
    c.1.getLast? = some .done ∧ p.1.getLast? = some (.failed .duplicateMessageID) := by
  decide +kernel

end PgQueue
