import Mathlib.Data.List.Perm.Basic
import PgQueue.Notifier.Model

/-!
# The books of the notifier

`listening`, `listenInFlight` and `listenFailures` belong to the waker that the channel has now.  A
confirmation ends at any later time, when the channel may have been forgotten and made again.

* `Tracked`        the notifier with the confirmations whose `Listen` returned nil;
* `running`        the confirmations on their way;
* `Booked`         what every event keeps;
* `notifier_books`   **in flight is one confirmation of the current waker, and listening is a `Listen` for
                   it that returned nil; a confirmation of another waker changes no book; and after `close`
                   nothing is started.**
-/

namespace PgQueue.Notifier
open Process List

def Confirm.key (c : Confirm) : String × Nat := (c.channel, c.waker)

/-- the channels and wakers of the `confirmListen`s on their way -/
def running (s : State) : List (String × Nat) := s.confirming.map Confirm.key

/-- the `confirmListen` whose `Listen` returns nil -/
def nilReturns (s : State) : Ev → List (String × Nat)
  | .listen i true => (s.confirming[i]?.map Confirm.key).toList
  | _ => []

structure Tracked where
  notifier : State
  nils : List (String × Nat)

def Tracked.new : Tracked := ⟨newNotifier, []⟩

def Tracked.step (b : Tracked) (e : Ev) : Option Tracked :=
  (Notifier.step b.notifier e).map fun t => ⟨t, b.nils ++ nilReturns b.notifier e⟩

/-! ## what every event keeps -/

structure Booked (s : State) (nils : List (String × Nat)) : Prop where
  known : ∀ ch w, s.wakers ch = some w → w < s.gens.length
  /-- a new waker is not that of a goroutine on its way -/
  made : ∀ p ∈ running s, p.2 < s.gens.length
  flight : ∀ ch w, s.wakers ch = some w →
    (running s).count (ch, w) = if ch ∈ s.listenInFlight then 1 else 0
  owner : ∀ ch ∈ s.listenInFlight, ∃ w, s.wakers ch = some w
  apart : ∀ ch ∈ s.listening, ch ∉ s.listenInFlight
  returned : ∀ c ∈ s.confirming, c.listened = some true → c.key ∈ nils
  nils : ∀ ch ∈ s.listening, ∃ w, s.wakers ch = some w ∧ (ch, w) ∈ nils

theorem Booked.new : Booked newNotifier [] where
  known _ _ h := by cases h
  made _ h := absurd h not_mem_nil
  flight _ _ h := by cases h
  owner _ h := absurd h (Finset.notMem_empty _)
  apart _ h := absurd h (Finset.notMem_empty _)
  returned _ h := absurd h not_mem_nil
  nils _ h := absurd h (Finset.notMem_empty _)

section
variable {s : State} {nils : List (String × Nat)} {ch : String} {w i : Nat}

theorem Booked.mono (h : Booked s nils) {nils' : List (String × Nat)} (hn : nils ⊆ nils') :
    Booked s nils' where
  known := h.known
  made := h.made
  flight := h.flight
  owner := h.owner
  apart := h.apart
  returned c hc hok := hn (h.returned c hc hok)
  nils x hx := (h.nils x hx).imp fun _ hw => ⟨hw.1, hn hw.2⟩

theorem Booked.others (h : Booked s nils) {closed pumpOnce : Bool} {active : Finset String}
    {forgetting : List String} :
    Booked { s with closed := closed, pumpOnce := pumpOnce, active := active, forgetting := forgetting }
      nils :=
  ⟨h.known, h.made, h.flight, h.owner, h.apart, h.returned, h.nils⟩

theorem Booked.absent (h : Booked s nils) (hnone : s.wakers ch = none) :
    ch ∉ s.listening ∧ ch ∉ s.listenInFlight := by
  refine ⟨fun hch => ?_, fun hch => ?_⟩
  · obtain ⟨w, hw, -⟩ := h.nils ch hch
    cases hnone.symm.trans hw
  · obtain ⟨w, hw⟩ := h.owner ch hch
    cases hnone.symm.trans hw

theorem Booked.installWaker (h : Booked s nils) (ch : String) :
    Booked (installWaker ch s).2 nils := by
  unfold Notifier.installWaker
  split
  · exact h
  next hnone =>
    set wakers := Function.update s.wakers ch (some s.gens.length)
    have hself : wakers ch = some s.gens.length := Function.update_self _ _ _
    have hother : ∀ x, x ≠ ch → wakers x = s.wakers x := fun x hne => Function.update_of_ne hne _ _
    have hlen : s.gens.length < (s.gens ++ [0]).length := by simp
    obtain ⟨hlistening, hflight⟩ := h.absent hnone
    refine ⟨fun x w hw => ?_, fun p hp => (h.made p hp).trans hlen, fun x w hw => ?_,
      fun x hx => ?_, h.apart, h.returned, fun x hx => ?_⟩
    · rcases eq_or_ne x ch with rfl | hne
      · obtain rfl := Option.some.inj (hself.symm.trans hw)
        exact hlen
      · exact (h.known x w ((hother x hne).symm.trans hw)).trans hlen
    · rcases eq_or_ne x ch with rfl | hne
      · obtain rfl := Option.some.inj (hself.symm.trans hw)
        rw [if_neg hflight]
        exact count_eq_zero.mpr fun hmem => absurd (h.made _ hmem) (Nat.lt_irrefl _)
      · exact h.flight x w ((hother x hne).symm.trans hw)
    · have hne : x ≠ ch := fun he => hflight (he ▸ hx)
      exact (h.owner x hx).imp fun w hw => (hother x hne).trans hw
    · have hne : x ≠ ch := fun he => hlistening (he ▸ hx)
      exact (h.nils x hx).imp fun w hw => ⟨(hother x hne).trans hw.1, hw.2⟩

theorem Booked.startConfirm (h : Booked s nils) (hw : s.wakers ch = some w) :
    Booked (startConfirm ch w s) nils := by
  unfold Notifier.startConfirm
  split
  next hfree =>
    have hrun : (s.confirming ++ [(⟨ch, w, none⟩ : Confirm)]).map Confirm.key = running s ++ [(ch, w)] :=
      map_append
    have hmem : ∀ p ∈ (s.confirming ++ [(⟨ch, w, none⟩ : Confirm)]).map Confirm.key,
        p ∈ running s ∨ p = (ch, w) := by
      intro p hp
      rw [hrun] at hp
      exact (mem_append.mp hp).imp id mem_singleton.mp
    refine ⟨h.known, fun p hp => ?_, fun x v hv => ?_, fun x hx => ?_, fun x hx => ?_,
      fun c hc hok => ?_, h.nils⟩
    · rcases hmem p hp with hp | rfl
      · exact h.made p hp
      · exact h.known ch w hw
    · show List.count (x, v) ((s.confirming ++ [(⟨ch, w, none⟩ : Confirm)]).map Confirm.key) =
        if x ∈ insert ch s.listenInFlight then 1 else 0
      rw [hrun, count_append, h.flight x v hv]
      rcases eq_or_ne x ch with rfl | hne
      · obtain rfl := Option.some.inj (hw.symm.trans hv)
        rw [if_neg hfree.2, if_pos (Finset.mem_insert_self _ _), count_singleton_self]
      · have hzero : List.count (x, v) [(ch, w)] = 0 := by
          refine count_eq_zero.mpr fun hmem => hne ?_
          exact congrArg Prod.fst (mem_singleton.mp hmem)
        rw [hzero, Nat.add_zero]
        refine if_congr ?_ rfl rfl
        rw [Finset.mem_insert]
        exact ⟨Or.inr, fun hx => hx.resolve_left hne⟩
    · rcases Finset.mem_insert.mp hx with rfl | hx
      · exact ⟨w, hw⟩
      · exact h.owner x hx
    · exact fun hmem => (Finset.mem_insert.mp hmem).elim (fun he => hfree.1 (he ▸ hx)) (h.apart x hx)
    · rcases mem_append.mp hc with hc | hc
      · exact h.returned c hc hok
      · rw [mem_singleton.mp hc] at hok
        cases hok
  next => exact h

theorem Booked.wakeChan (h : Booked s nils) (ch : String) : Booked (wakeChan ch s).2 nils := by
  unfold Notifier.wakeChan
  split
  · exact h
  · exact (h.installWaker ch).others.startConfirm (wakers_installWaker ch s)

theorem running_listen {r : Option Bool} (hi : s.confirming[i]? = some ⟨ch, w, r⟩) (r' : Option Bool) :
    (s.confirming.set i ⟨ch, w, r'⟩).map Confirm.key = running s := by
  obtain ⟨hlt, heq⟩ := List.getElem?_eq_some_iff.mp hi
  have hkey : Confirm.key ⟨ch, w, r'⟩ = Confirm.key s.confirming[i] := by
    rw [heq]
    rfl
  unfold running
  rw [map_set, hkey, ← map_set, set_getElem_self hlt]

theorem Booked.listen (h : Booked s nils) {r : Option Bool} (ok : Bool)
    (hi : s.confirming[i]? = some ⟨ch, w, r⟩) :
    Booked { s with
      confirming := s.confirming.set i ⟨ch, w, some ok⟩
      active := if ok then insert ch s.active else s.active } (nils ++ nilReturns s (.listen i ok)) := by
  have hmono := h.mono (subset_append_left nils (nilReturns s (.listen i ok)))
  have hrun := running_listen hi (some ok)
  refine ⟨h.known, fun p hp => h.made p (hrun ▸ hp), fun x v hv => ?_, h.owner, h.apart,
    fun c hc hok => ?_, hmono.nils⟩
  · show List.count (x, v) ((s.confirming.set i ⟨ch, w, some ok⟩).map Confirm.key) = _
    rw [hrun]
    exact h.flight x v hv
  · rcases mem_or_eq_of_mem_set hc with hc | rfl
    · exact hmono.returned c hc hok
    · obtain rfl : ok = true := Option.some.inj hok
      refine mem_append_right _ ?_
      rw [nilReturns, hi]
      exact mem_cons_self

theorem running_perm {c : Confirm} (hi : s.confirming[i]? = some c) :
    (running s).Perm (c.key :: (s.confirming.eraseIdx i).map Confirm.key) := by
  obtain ⟨hlt, rfl⟩ := List.getElem?_eq_some_iff.mp hi
  exact ((getElem_cons_eraseIdx_perm hlt).map Confirm.key).symm

theorem Booked.stale (h : Booked s nils) {c : Confirm} (hi : s.confirming[i]? = some c)
    (hstale : s.wakers c.channel ≠ some c.waker) :
    Booked { s with confirming := s.confirming.eraseIdx i } nils := by
  have hperm := running_perm hi
  have hrest : ∀ p ∈ (s.confirming.eraseIdx i).map Confirm.key, p ∈ running s :=
    fun p hp => hperm.mem_iff.mpr (mem_cons_of_mem _ hp)
  refine ⟨h.known, fun p hp => h.made p (hrest p hp), fun x v hv => ?_,
    h.owner, h.apart, fun d hd => h.returned d ((eraseIdx_sublist _ _).subset hd), h.nils⟩
  have hne : c.key ≠ (x, v) := by
    rintro he
    obtain ⟨rfl, rfl⟩ := Prod.mk.inj he
    exact hstale hv
  rw [← h.flight x v hv, hperm.count_eq, count_cons_of_ne hne]
  rfl

theorem Booked.live (h : Booked s nils) {c : Confirm} (hi : s.confirming[i]? = some c)
    (hlive : s.wakers c.channel = some c.waker) (failures : String → Nat) :
    Booked { s with
      confirming := s.confirming.eraseIdx i
      listenInFlight := s.listenInFlight.erase c.channel
      listenFailures := failures } nils := by
  have hperm := running_perm hi
  have hrest : ∀ p ∈ (s.confirming.eraseIdx i).map Confirm.key, p ∈ running s :=
    fun p hp => hperm.mem_iff.mpr (mem_cons_of_mem _ hp)
  refine ⟨h.known, fun p hp => h.made p (hrest p hp), fun x v hv => ?_,
    fun x hx => h.owner x (Finset.mem_of_mem_erase hx),
    fun x hx hmem => h.apart x hx (Finset.mem_of_mem_erase hmem),
    fun d hd => h.returned d ((eraseIdx_sublist _ _).subset hd), h.nils⟩
  have hcount := h.flight x v hv
  rw [hperm.count_eq] at hcount
  show List.count (x, v) ((s.confirming.eraseIdx i).map Confirm.key) =
    if x ∈ s.listenInFlight.erase c.channel then 1 else 0
  rcases eq_or_ne x c.channel with rfl | hne
  · obtain rfl := Option.some.inj (hlive.symm.trans hv)
    have hself : List.count (c.channel, c.waker) (c.key :: (s.confirming.eraseIdx i).map Confirm.key) =
        List.count (c.channel, c.waker) ((s.confirming.eraseIdx i).map Confirm.key) + 1 :=
      count_cons_self
    rw [if_neg (Finset.notMem_erase _ _)]
    rw [hself] at hcount
    split at hcount
    · omega
    · omega
  · have hkey : c.key ≠ (x, v) := fun he => hne (congrArg Prod.fst he).symm
    rw [count_cons_of_ne hkey] at hcount
    rw [hcount]
    exact if_congr ⟨fun hx => Finset.mem_erase.mpr ⟨hne, hx⟩, Finset.mem_of_mem_erase⟩ rfl rfl

theorem Booked.confirmListen (h : Booked s nils) {ok : Bool}
    (hi : s.confirming[i]? = some ⟨ch, w, some ok⟩) :
    Booked (confirmListen ⟨ch, w, some ok⟩ ok { s with confirming := s.confirming.eraseIdx i })
      nils := by
  unfold Notifier.confirmListen
  split
  next hstale => exact h.stale hi hstale
  next hlive =>
    have hlive : s.wakers ch = some w := Classical.not_not.mp hlive
    split
    next hok =>
      have hbooks := h.live hi hlive (Function.update s.listenFailures ch 0)
      refine ⟨hbooks.known, hbooks.made, hbooks.flight, hbooks.owner, fun x hx => ?_,
        hbooks.returned, fun x hx => ?_⟩
      · rcases Finset.mem_insert.mp hx with rfl | hx
        · exact Finset.notMem_erase _ _
        · exact hbooks.apart x hx
      · rcases Finset.mem_insert.mp hx with rfl | hx
        · exact ⟨w, hlive, h.returned _ (mem_of_getElem? hi) (congrArg some hok)⟩
        · exact h.nils x hx
    next => exact h.live hi hlive _

theorem Booked.forget (h : Booked s nils) (ch : String) : Booked (forget ch s) nils := by
  have hsome : ∀ x w, (Notifier.forget ch s).wakers x = some w → x ≠ ch ∧ s.wakers x = some w := by
    intro x w hx
    rcases eq_or_ne x ch with rfl | hne
    · exact absurd ((Function.update_self _ _ _).symm.trans hx) (by simp)
    · exact ⟨hne, (Function.update_of_ne hne _ _).symm.trans hx⟩
  have hother : ∀ x, x ≠ ch → (Notifier.forget ch s).wakers x = s.wakers x :=
    fun x hne => Function.update_of_ne hne _ _
  refine ⟨fun x w hw => h.known x w (hsome x w hw).2, h.made, fun x w hw => ?_, fun x hx => ?_,
    fun x hx hmem => ?_, h.returned, fun x hx => ?_⟩
  · obtain ⟨hne, hw⟩ := hsome x w hw
    refine (h.flight x w hw).trans (if_congr ?_ rfl rfl)
    exact ⟨fun hx => Finset.mem_erase.mpr ⟨hne, hx⟩, Finset.mem_of_mem_erase⟩
  · obtain ⟨hne, hx⟩ := Finset.mem_erase.mp hx
    exact (h.owner x hx).imp fun w hw => (hother x hne).trans hw
  · exact h.apart x (Finset.mem_of_mem_erase hx) (Finset.mem_of_mem_erase hmem)
  · obtain ⟨hne, hx⟩ := Finset.mem_erase.mp hx
    exact (h.nils x hx).imp fun w hw => ⟨(hother x hne).trans hw.1, hw.2⟩

theorem Booked.signal (h : Booked s nils) (w : Nat) : Booked (signal w s) nils := by
  have hlen : (Notifier.signal w s).gens.length = s.gens.length := length_modify _ _ _
  exact ⟨fun x v hv => hlen ▸ h.known x v hv, fun p hp => hlen ▸ h.made p hp, h.flight, h.owner,
    h.apart, h.returned, h.nils⟩

end

section
variable {b b' : Tracked} {e : Ev}

theorem tracked_eq_some : b.step e = some b' ↔ ∃ t, Notifier.step b.notifier e = some t ∧
    b' = ⟨t, b.nils ++ nilReturns b.notifier e⟩ := by
  unfold Tracked.step
  rw [Option.map_eq_some_iff]
  exact exists_congr fun t => and_congr_right fun _ => eq_comm

theorem Booked.step (h : Booked b.notifier b.nils) (hstep : b.step e = some b') :
    Booked b'.notifier b'.nils := by
  obtain ⟨t, ht, rfl⟩ := tracked_eq_some.mp hstep
  cases moves_of_step ht with
  | listen ok hi => exact h.listen ok hi
  | wakeChan ch => exact (h.wakeChan ch).mono (subset_append_left _ _)
  | confirmListen hi => exact (h.confirmListen hi).mono (subset_append_left _ _)
  | forget ch => exact (h.forget ch).mono (subset_append_left _ _)
  | unlisten | close => exact h.others.mono (subset_append_left _ _)
  | signal w => exact (h.signal w).mono (subset_append_left _ _)

/-! ## after `close` -/

/-- a closed notifier stays closed and starts nothing: the goroutines after an event are among those
before it -/
theorem closed_step {s t : State} (h : Notifier.step s e = some t) (hclosed : s.closed = true) :
    t.closed = true ∧ (running t).Sublist (running s) ∧ t.pumpOnce = s.pumpOnce := by
  cases moves_of_step h with
  | wakeChan ch =>
    unfold Notifier.wakeChan
    rw [if_pos hclosed]
    exact ⟨hclosed, Sublist.refl _, rfl⟩
  | listen ok hi => exact ⟨hclosed, running_listen hi (some ok) ▸ Sublist.refl _, rfl⟩
  | @confirmListen i _ _ _ hi =>
    have hsub : ((s.confirming.eraseIdx i).map Confirm.key).Sublist (running s) :=
      (eraseIdx_sublist _ _).map _
    unfold Notifier.confirmListen
    split
    · exact ⟨hclosed, hsub, rfl⟩
    · split <;> exact ⟨hclosed, hsub, rfl⟩
  | close => exact ⟨rfl, Sublist.refl _, rfl⟩
  | _ => exact ⟨hclosed, Sublist.refl _, rfl⟩

end

/-- **The books of the notifier.**  In every reachable state a channel is not both listening and in
flight; it is in flight exactly if one `confirmListen` for its current waker is running; it is listening
only if a `Listen` for its current waker returned nil.  A `confirmListen` for a waker that was replaced or
removed changes none of the maps when it ends.  After `close` no event starts a `confirmListen` or the
pump. -/
theorem notifier_books (b : Tracked) (hrun : Runs Tracked.step (fun _ _ => True) .new b) :
    (∀ ch ∈ b.notifier.listening, ch ∉ b.notifier.listenInFlight) ∧
    (∀ ch, ch ∈ b.notifier.listenInFlight ↔
      ∃ w, b.notifier.wakers ch = some w ∧ (running b.notifier).count (ch, w) = 1) ∧
    (∀ ch ∈ b.notifier.listening, ∃ w, b.notifier.wakers ch = some w ∧ (ch, w) ∈ b.nils) ∧
    (∀ (i : Nat) (c : Confirm) (t : State), b.notifier.confirming[i]? = some c →
      b.notifier.wakers c.channel ≠ some c.waker → Notifier.step b.notifier (.confirmListen i) = some t →
      t = { b.notifier with confirming := b.notifier.confirming.eraseIdx i }) ∧
    (b.notifier.closed = true → ∀ b', Runs Tracked.step (fun _ _ => True) b b' →
      ∀ (e : Ev) (t : State), Notifier.step b'.notifier e = some t →
        (running t).Sublist (running b'.notifier) ∧ t.pumpOnce = b'.notifier.pumpOnce) := by
  have h : Booked b.notifier b.nils :=
    hrun.invariant (fun b => Booked b.notifier b.nils) .new fun _ _ _ h _ hstep => h.step hstep
  refine ⟨h.apart, fun ch => ⟨fun hch => ?_, ?_⟩, h.nils, fun i c t hi hstale ht => ?_,
    fun hclosed b' hrun' e t ht => ?_⟩
  · obtain ⟨w, hw⟩ := h.owner ch hch
    exact ⟨w, hw, (h.flight ch w hw).trans (if_pos hch)⟩
  · rintro ⟨w, hw, hcount⟩
    by_contra hch
    rw [h.flight ch w hw, if_neg hch] at hcount
    cases hcount
  · cases moves_of_step ht with
    | confirmListen hi' =>
      obtain rfl := Option.some.inj (hi.symm.trans hi')
      exact if_pos hstale
  · have hclosed' : b'.notifier.closed = true :=
      hrun'.invariant (fun b => b.notifier.closed = true) hclosed fun u e v hu _ hstep => by
        obtain ⟨t, ht, rfl⟩ := tracked_eq_some.mp hstep
        exact (closed_step ht hu).1
    exact (closed_step ht hclosed').2

/-- a channel is forgotten and made again while its confirmation is on its way; the first one fails, the
second one succeeds, and the notifier is closed -/
def remadeTwice : List Ev :=
  [.wakeChan "q", .forget "q", .wakeChan "q", .listen 0 false, .confirmListen 0, .listen 0 true,
    .confirmListen 0, .wakeChan "r", .close]

theorem notifier_books_remadeTwice :
    ∃ b, follow (guarded Tracked.step fun _ _ => True) .new remadeTwice = some b ∧
      "q" ∈ b.notifier.listening ∧ running b.notifier = [("r", 2)] ∧ b.notifier.pumpOnce = true ∧
      (∀ ch ∈ b.notifier.listening, ch ∉ b.notifier.listenInFlight) ∧
      ∀ t, Notifier.step b.notifier (.wakeChan "s") = some t → (running t).Sublist [("r", 2)] := by
  have hfollow : ∃ b, follow (guarded Tracked.step fun _ _ => True) .new remadeTwice = some b ∧
      "q" ∈ b.notifier.listening ∧ running b.notifier = [("r", 2)] ∧ b.notifier.pumpOnce = true ∧
      b.notifier.closed = true := by
    decide +kernel
  obtain ⟨b, hb, hq, hr, hpump, hclosed⟩ := hfollow
  have hbooks := notifier_books b (Runs.of_follow remadeTwice hb)
  exact ⟨b, hb, hq, hr, hpump, hbooks.1,
    fun t ht => hr ▸ (hbooks.2.2.2.2 hclosed b .refl (.wakeChan "s") t ht).1⟩

end PgQueue.Notifier
