import PgQueue.Notifier.Model

/-!
# The notifier and the Listener

`forget` clears the maps under the mutex and calls `Unlisten` after it has released it.  A consume
loop that comes in between registers the channel anew, and the `Unlisten` takes that registration
away.

* `Waited`    no consume loop comes for a channel whose `Unlisten` is still to come;
* `Agreed`    what then holds between any two events;
* `listening_active`   **then what is taken for confirmed is listened to.**
-/

namespace PgQueue.Notifier
open Process List

/-- `wakeChan` is not called between the section and the `Unlisten` of a `forget` of the channel -/
def Waited (s : State) : Ev → Prop
  | .wakeChan ch => ch ∉ s.forgetting
  | _ => True

instance (s : State) (e : Ev) : Decidable (Waited s e) := by
  cases e <;> unfold Waited <;> infer_instance

structure Agreed (s : State) : Prop where
  /-- a channel whose `Unlisten` is to come has no waker -/
  forgotten : ∀ ch ∈ s.forgetting, s.wakers ch = none
  unknown : ∀ ch, s.wakers ch = none → ch ∉ s.listening
  known : ∀ ch w, s.wakers ch = some w → w < s.gens.length
  /-- a new waker is not that of a goroutine on its way -/
  made : ∀ c ∈ s.confirming, c.waker < s.gens.length
  /-- the `Listen` of a goroutine that is not stale has not been undone -/
  listened : ∀ c ∈ s.confirming, c.listened = some true → s.wakers c.channel = some c.waker →
    c.channel ∈ s.active
  active : ∀ ch ∈ s.listening, ch ∈ s.active

theorem Agreed.new : Agreed newNotifier where
  forgotten := fun ch h => absurd h not_mem_nil
  unknown := fun ch _ => Finset.notMem_empty ch
  known := fun ch w h => absurd h (by simp [newNotifier])
  made := fun c h => absurd h not_mem_nil
  listened := fun c h => absurd h not_mem_nil
  active := fun ch h => absurd h (Finset.notMem_empty ch)

/-! ## one event -/

variable {s : State} {ch : String} {w i : Nat}

theorem Agreed.flags (h : Agreed s) {closed pumpOnce : Bool} :
    Agreed { s with closed := closed, pumpOnce := pumpOnce } :=
  ⟨h.forgotten, h.unknown, h.known, h.made, h.listened, h.active⟩

theorem Agreed.installWaker (h : Agreed s) (hwait : ch ∉ s.forgetting) :
    Agreed (installWaker ch s).2 := by
  unfold Notifier.installWaker
  split
  · exact h
  next hnone =>
    set wakers := Function.update s.wakers ch (some s.gens.length)
    have hself : wakers ch = some s.gens.length := Function.update_self _ _ _
    have hother : ∀ x, x ≠ ch → wakers x = s.wakers x := fun x hne => Function.update_of_ne hne _ _
    have hlen : s.gens.length < (s.gens ++ [0]).length := by simp
    refine ⟨fun x hx => ?_, fun x hx => ?_, fun x w hw => ?_, fun c hc => ?_, fun c hc hok hw => ?_,
      h.active⟩
    · have hne : x ≠ ch := fun he => hwait (he ▸ hx)
      exact (hother x hne).trans (h.forgotten x hx)
    · have hne : x ≠ ch := by
        rintro rfl
        exact absurd (hself.symm.trans hx) (by simp)
      exact h.unknown x ((hother x hne).symm.trans hx)
    · rcases eq_or_ne x ch with rfl | hne
      · obtain rfl := Option.some.inj (hself.symm.trans hw)
        exact hlen
      · exact (h.known x w ((hother x hne).symm.trans hw)).trans hlen
    · exact (h.made c hc).trans hlen
    · have hne : c.channel ≠ ch := by
        intro he
        have hw' : wakers ch = some c.waker := he ▸ hw
        exact absurd (h.made c hc) (by rw [← Option.some.inj (hself.symm.trans hw')]; exact lt_irrefl _)
      exact h.listened c hc hok ((hother _ hne).symm.trans hw)

theorem Agreed.startConfirm (h : Agreed s) (hw : s.wakers ch = some w) :
    Agreed (startConfirm ch w s) := by
  unfold Notifier.startConfirm
  split
  · refine ⟨h.forgotten, h.unknown, h.known, fun c hc => ?_, fun c hc hok => ?_, h.active⟩
    · rcases mem_append.mp hc with hc | hc
      · exact h.made c hc
      · rw [mem_singleton.mp hc]
        exact h.known ch w hw
    · rcases mem_append.mp hc with hc | hc
      · exact h.listened c hc hok
      · rw [mem_singleton.mp hc] at hok
        exact absurd hok (by simp)
  · exact h

theorem Agreed.wakeChan (h : Agreed s) (hwait : ch ∉ s.forgetting) : Agreed (wakeChan ch s).2 := by
  unfold Notifier.wakeChan
  split
  · exact h
  · exact (h.installWaker hwait).flags.startConfirm (wakers_installWaker ch s)

theorem Agreed.listen (h : Agreed s) {r : Option Bool} (hi : s.confirming[i]? = some ⟨ch, w, r⟩)
    (ok : Bool) :
    Agreed { s with
      confirming := s.confirming.set i ⟨ch, w, some ok⟩
      active := if ok then insert ch s.active else s.active } := by
  have hsub : s.active ⊆ if ok then insert ch s.active else s.active := by
    split
    · exact Finset.subset_insert _ _
    · exact Finset.Subset.refl _
  refine ⟨h.forgotten, h.unknown, h.known, fun c hc => ?_, fun c hc hok hw => ?_,
    fun x hx => hsub (h.active x hx)⟩
  · rcases mem_or_eq_of_mem_set hc with hc | rfl
    · exact h.made c hc
    · exact h.made ⟨ch, w, r⟩ (mem_of_getElem? hi)
  · rcases mem_or_eq_of_mem_set hc with hc | rfl
    · exact hsub (h.listened c hc hok hw)
    · rw [if_pos (Option.some.inj hok)]
      exact Finset.mem_insert_self _ _

/-- the section of a goroutine: its waker is the channel's, so its `Listen` still stands -/
theorem Agreed.confirmListen (h : Agreed s) {ok : Bool} (hi : s.confirming[i]? = some ⟨ch, w, some ok⟩) :
    Agreed (confirmListen ⟨ch, w, some ok⟩ ok { s with confirming := s.confirming.eraseIdx i }) := by
  have hrest : ∀ c ∈ s.confirming.eraseIdx i, c ∈ s.confirming := fun c hc =>
    (eraseIdx_sublist _ _).subset hc
  have hmade : ∀ c ∈ s.confirming.eraseIdx i, c.waker < s.gens.length := fun c hc =>
    h.made c (hrest c hc)
  have hlistened : ∀ c ∈ s.confirming.eraseIdx i, c.listened = some true →
      s.wakers c.channel = some c.waker → c.channel ∈ s.active := fun c hc =>
    h.listened c (hrest c hc)
  unfold Notifier.confirmListen
  split
  · exact ⟨h.forgotten, h.unknown, h.known, hmade, hlistened, h.active⟩
  next hlive =>
    have hlive : s.wakers ch = some w := by simpa using hlive
    split
    next hok =>
      refine ⟨h.forgotten, fun x hx => ?_, h.known, hmade, hlistened, fun x hx => ?_⟩
      · have hne : x ≠ ch := by
          rintro rfl
          exact absurd (hlive.symm.trans hx) (by simp)
        exact fun hmem => (Finset.mem_insert.mp hmem).elim hne (h.unknown x hx)
      · rcases Finset.mem_insert.mp hx with rfl | hx
        · exact h.listened _ (mem_of_getElem? hi) (congrArg some hok) hlive
        · exact h.active x hx
    next => exact ⟨h.forgotten, h.unknown, h.known, hmade, hlistened, h.active⟩

theorem Agreed.forget (h : Agreed s) (ch : String) : Agreed (forget ch s) := by
  have hnone : ∀ x, s.wakers x = none → (Notifier.forget ch s).wakers x = none := by
    intro x hx
    rcases eq_or_ne x ch with rfl | hne
    · exact Function.update_self _ _ _
    · exact (Function.update_of_ne hne _ _).trans hx
  have hsome : ∀ x w, (Notifier.forget ch s).wakers x = some w → x ≠ ch ∧ s.wakers x = some w := by
    intro x w hx
    rcases eq_or_ne x ch with rfl | hne
    · exact absurd ((Function.update_self _ _ _).symm.trans hx) (by simp)
    · exact ⟨hne, (Function.update_of_ne hne _ _).symm.trans hx⟩
  refine ⟨fun x hx => ?_, fun x hx hmem => ?_, fun x w hw => h.known x w (hsome x w hw).2, h.made,
    fun c hc hok hw => h.listened c hc hok (hsome _ _ hw).2,
    fun x hx => h.active x (Finset.mem_of_mem_erase hx)⟩
  · have hx' : x ∈ s.forgetting ∨ x = ch := by
      unfold Notifier.forget at hx
      split at hx
      · exact .inl hx
      · exact (mem_append.mp hx).imp id mem_singleton.mp
    rcases hx' with hx' | rfl
    · exact hnone x (h.forgotten x hx')
    · exact Function.update_self _ _ _
  · obtain ⟨hne, hmem⟩ := Finset.mem_erase.mp hmem
    have hx' : s.wakers x = none := (Function.update_of_ne hne _ _).symm.trans hx
    exact h.unknown x hx' hmem

/-- an `Unlisten` removes a channel that nobody has asked for since -/
theorem Agreed.unlisten (h : Agreed s) (hi : s.forgetting[i]? = some ch) :
    Agreed { s with forgetting := s.forgetting.eraseIdx i, active := s.active.erase ch } := by
  have hnone : s.wakers ch = none := h.forgotten ch (mem_of_getElem? hi)
  refine ⟨fun x hx => h.forgotten x ((eraseIdx_sublist _ _).subset hx), h.unknown, h.known,
    h.made, fun c hc hok hw => ?_, fun x hx => ?_⟩
  · have hne : c.channel ≠ ch := by
      intro he
      rw [he, hnone] at hw
      exact absurd hw (by simp)
    exact Finset.mem_erase.mpr ⟨hne, h.listened c hc hok hw⟩
  · have hne : x ≠ ch := by
      rintro rfl
      exact h.unknown x hnone hx
    exact Finset.mem_erase.mpr ⟨hne, h.active x hx⟩

theorem Agreed.signal (h : Agreed s) (w : Nat) : Agreed (signal w s) := by
  have hlen : (Notifier.signal w s).gens.length = s.gens.length := length_modify _ _ _
  refine ⟨h.forgotten, h.unknown, fun x v hv => ?_, fun c hc => ?_, h.listened, h.active⟩
  · rw [hlen]
    exact h.known x v hv
  · rw [hlen]
    exact h.made c hc

theorem Agreed.step {t : State} {e : Ev} (h : Agreed s) (hwait : Waited s e) (hstep : step s e = some t) :
    Agreed t := by
  cases moves_of_step hstep with
  | wakeChan ch => exact h.wakeChan hwait
  | listen ok hi => exact h.listen hi ok
  | confirmListen hi => exact h.confirmListen hi
  | forget ch => exact h.forget ch
  | unlisten hi => exact h.unlisten hi
  | signal w => exact h.signal w
  | close => exact h.flags

/-! ## every run -/

/-- **If no consume loop comes between the section and the `Unlisten` of a `forget`, what the notifier
takes for confirmed is listened to.** -/
theorem listening_active {s : State} (hrun : Runs step Waited newNotifier s) : Agrees s := by
  have h : Agreed s :=
    hrun.invariant Agreed .new fun _ _ _ h hwait hstep => h.step hwait hstep
  exact fun _ ch hch => h.active ch hch

/-- a queue is consumed, deleted while a confirmation is on its way, made again and consumed -/
def remade : List Ev :=
  [.wakeChan "q", .forget "q", .listen 0 true, .unlisten 0, .wakeChan "q", .confirmListen 0,
    .listen 0 true, .confirmListen 0]

theorem listening_active_remade : ∃ s, Runs step Waited newNotifier s ∧ s.quiet = true ∧
    "q" ∈ s.listening ∧ Agrees s := by
  have hrun : ∃ s, follow (guarded step Waited) newNotifier remade = some s ∧ s.quiet = true ∧
      "q" ∈ s.listening := by
    decide +kernel
  obtain ⟨s, hs, hquiet, hlistening⟩ := hrun
  have hruns : Runs step Waited newNotifier s := .of_follow remade hs
  exact ⟨s, hruns, hquiet, hlistening, listening_active hruns⟩

/-- the queue is made again and consumed before the `Unlisten` of its deletion -/
def remadeEarly : List Ev :=
  [.wakeChan "q", .listen 0 true, .confirmListen 0, .forget "q", .wakeChan "q", .listen 0 true,
    .confirmListen 0, .unlisten 0]

/-- the channel is taken for confirmed, and nobody listens to it -/
theorem remadeEarly_deaf : ∃ s, follow step newNotifier remadeEarly = some s ∧ s.quiet = true ∧
    "q" ∈ s.listening ∧ s.active = ∅ ∧ ¬ Agrees s := by
  decide +kernel

end PgQueue.Notifier
