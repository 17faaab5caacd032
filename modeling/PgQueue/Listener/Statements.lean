import PgQueue.Listener.Subscribed
import PgQueue.Quoting

/-!
# The statements of the listener

`Listen` takes a channel of any name that has no NUL.  The run loop splices the names into its `LISTEN`s and
`UNLISTEN`s.  PostgreSQL refuses an empty name and cuts one of more than 63 bytes, after the lexer has read
it.

* `State.mentions`         a name is registered, queued, or in the hands of the loop;
* `mentions_of_step`       a name is mentioned after a step only if it was before, or a `Listen` brought it;
* `Pc.statement`           what the loop sends next;
* `statement_read_back`    **in every run, it is read back as a `LISTEN` or an `UNLISTEN` of the name it is
                           meant for, whatever names the callers chose.**
-/

namespace PgQueue.Pglisten
open Process List

/-! ## names without NUL -/

theorem nul_notMem_utf8EncodeChar {c : Char} (h : c ≠ '\x00') : nul ∉ String.utf8EncodeChar c := by
  have hval : c.val.toNat ≠ 0 := fun h0 => h (Char.ext (UInt32.toNat_inj.mp h0))
  have hbyte : ∀ n, n % 256 ≠ 0 → nul ≠ UInt8.ofNat n := by
    intro n hn he
    have := congrArg UInt8.toNat he
    rw [UInt8.toNat_ofNat'] at this
    exact hn this.symm
  unfold String.utf8EncodeChar
  dsimp only
  split
  · exact not_mem_cons_of_ne_of_not_mem (hbyte _ (by omega)) not_mem_nil
  · split
    · simp only [mem_cons, not_mem_nil, or_false, not_or]
      exact ⟨hbyte _ (by omega), hbyte _ (by omega)⟩
    · split
      · simp only [mem_cons, not_mem_nil, or_false, not_or]
        exact ⟨hbyte _ (by omega), hbyte _ (by omega), hbyte _ (by omega)⟩
      · simp only [mem_cons, not_mem_nil, or_false, not_or]
        exact ⟨hbyte _ (by omega), hbyte _ (by omega), hbyte _ (by omega), hbyte _ (by omega)⟩

theorem nul_notMem_utf8 {ch : String} (h : containsNUL ch = false) : nul ∉ utf8 ch := by
  have hbytes : utf8 ch = ch.toList.flatMap String.utf8EncodeChar := by
    unfold utf8
    conv => lhs; rw [← String.ofList_toList (s := ch)]
    show (String.ofList ch.toList).toByteArray.data.toList = _
    rw [String.toByteArray_ofList]
    simp [List.utf8Encode]
  rw [hbytes, mem_flatMap]
  rintro ⟨c, hc, hmem⟩
  refine nul_notMem_utf8EncodeChar ?_ hmem
  rintro rfl
  exact of_decide_eq_false h hc

/-! ## where a name is -/

/-- the name is registered, queued, or in the hands of the loop -/
def State.mentions (s : State) (ch : String) : Prop :=
  ch ∈ s.channels ∨ s.queued ch ∨ ch ∈ s.unpending ∨ s.inHand ch ∨ ch ∈ s.pc.leaving

section
variable {s t : State} {e : Ev} {ch x : String}

theorem mentions_listen (h : (listen x s).mentions ch) :
    s.mentions ch ∨ x = ch ∧ containsNUL ch = false := by
  unfold listen at h
  split at h
  · exact Or.inl h
  · split at h
    · exact Or.inl h
    · split at h
      · exact Or.inl h
      · rename_i hnul _ _
        by_cases hx : x = ch
        · subst hx
          exact Or.inr ⟨rfl, Bool.eq_false_iff.mpr hnul⟩
        · refine Or.inl (h.imp ?_ (Or.imp_left ?_))
          · intro hch
            exact (Finset.mem_insert.mp hch).resolve_left (Ne.symm hx)
          · rintro ⟨r, hr, hrx⟩
            rcases mem_append.mp hr with hr | hr
            · exact ⟨r, hr, hrx⟩
            · rw [mem_singleton.mp hr] at hrx
              exact absurd hrx hx

theorem mentions_unlisten (h : (unlisten x s).mentions ch) : s.mentions ch := by
  unfold unlisten at h
  dsimp only at h
  split at h
  · exact h
  · split at h
    · exact h
    · split at h
      · exact h
      · rename_i hreg
        rcases h with hch | hq | hun | hrest
        · exact Or.inl (Finset.mem_of_mem_erase hch)
        · exact Or.inr (Or.inl hq)
        · rcases mem_append.mp hun with hun | hun
          · exact Or.inr (Or.inr (Or.inl hun))
          · rw [mem_singleton.mp hun]
            exact Or.inl (not_not.mp hreg)
        · exact Or.inr (Or.inr (Or.inr hrest))

theorem mentions_reconnected {order : List String} (hread : Reads order s.channels)
    (h : (reconnected order s).mentions ch) : s.mentions ch := by
  rcases h with hch | hq | hun | ⟨r, hr, -⟩ | hleave
  · exact Or.inl hch
  · exact Or.inl ((queued_reconnected hread ch).mp hq)
  · exact absurd hun not_mem_nil
  · exact absurd hr not_mem_nil
  · exact absurd hleave not_mem_nil

theorem State.mentions.moved (h : t.mentions ch) (hch : t.channels = s.channels)
    (hreqs : ∀ r ∈ t.pending ++ t.pc.held, r ∈ s.pending ++ s.pc.held)
    (hnames : ∀ u ∈ t.unpending ++ t.pc.leaving, u ∈ s.unpending ++ s.pc.leaving) : s.mentions ch := by
  have hreq : ∀ r ∈ t.pending ++ t.pc.held, r.channel = ch → s.mentions ch := by
    intro r hr hrx
    rcases mem_append.mp (hreqs r hr) with hr | hr
    · exact Or.inr (Or.inl ⟨r, hr, hrx⟩)
    · exact Or.inr (Or.inr (Or.inr (Or.inl ⟨r, hr, hrx⟩)))
  have hname : ch ∈ t.unpending ++ t.pc.leaving → s.mentions ch := by
    intro hu
    rcases mem_append.mp (hnames ch hu) with hu | hu
    · exact Or.inr (Or.inr (Or.inl hu))
    · exact Or.inr (Or.inr (Or.inr (Or.inr hu)))
  rcases h with h | ⟨r, hr, hrx⟩ | h | ⟨r, hr, hrx⟩ | h
  · exact Or.inl (hch ▸ h)
  · exact hreq r (mem_append_left _ hr) hrx
  · exact hname (mem_append_left _ h)
  · exact hreq r (mem_append_right _ hr) hrx
  · exact hname (mem_append_right _ h)

theorem mentions_of_step (hs : step s e = some t) (h : t.mentions ch) :
    s.mentions ch ∨ containsNUL ch = false := by
  cases moves_of_step hs with
  | listen x => exact (mentions_listen h).imp_right And.right
  | unlisten x => exact Or.inl (mentions_unlisten h)
  | cancel | leave | close | lose => exact Or.inl h
  | connect hpc hread => exact Or.inl (mentions_reconnected hread h)
  | snapshot | listenOK | listenFails | markConfirmed | signal | requeue | unlistenOK | unlistenFails
  | drained | received | receiveFails | closeConn | stop =>
    exact Or.inl (h.moved rfl (by grind [Pc.held]) (by grind [Pc.leaving]))

theorem containsNUL_of_mentions {ok : State → Ev → Prop} (hrun : Runs step ok new s) (h : s.mentions ch) :
    containsNUL ch = false := by
  refine hrun.invariant (fun s => s.mentions ch → containsNUL ch = false) ?_ ?_ h
  · rintro (h | ⟨r, hr, -⟩ | h | ⟨r, hr, -⟩ | h)
    · exact absurd h (Finset.notMem_empty ch)
    · exact absurd hr not_mem_nil
    · exact absurd h not_mem_nil
    · exact absurd hr not_mem_nil
    · exact absurd h not_mem_nil
  · intro a e b ih _ hs hb
    rcases mentions_of_step hs hb with ha | ha
    · exact ih ha
    · exact ha

end

/-! ## what is sent, and what is read -/

inductive Command where
  | listen (ch : Bytes)
  | unlisten (ch : Bytes)
deriving DecidableEq, Repr

/-- the statement `drainPending` sends next -/
def Pc.statement : Pc → Option Bytes
  | .drain (r :: _) _ => some (listenStatement (utf8 r.channel))
  | .drain [] (u :: _) => some (unlistenStatement (utf8 u))
  | _ => none

def Pc.command : Pc → Option Command
  | .drain (r :: _) _ => some (.listen (utf8 r.channel))
  | .drain [] (u :: _) => some (.unlisten (utf8 u))
  | _ => none

/-- the statement as the server reads it -/
def readCommand (text : Bytes) : Option Command :=
  match readListen text with
  | some ch => some (.listen ch)
  | none => (readUnlisten text).map .unlisten

theorem readCommand_listenStatement {name : Bytes} (h : nul ∉ name) :
    readCommand (listenStatement name) = some (.listen name) := by
  have hread : readListen (listenStatement name) = some name := (statements_read_back h h).1
  unfold readCommand
  rw [hread]

theorem readCommand_unlistenStatement {name : Bytes} (h : nul ∉ name) :
    readCommand (unlistenStatement name) = some (.unlisten name) := by
  have hother : readListen (unlistenStatement name) = none := rfl
  have hread : readUnlisten (unlistenStatement name) = some name := (statements_read_back h h).2.1
  unfold readCommand
  rw [hother, hread]
  rfl

/-- **What the loop sends is read as what it means**, in every run of the listener. -/
theorem statement_read_back {s : State} {ok : State → Ev → Prop} (hrun : Runs step ok new s) :
    s.pc.statement.bind readCommand = s.pc.command := by
  unfold Pc.statement Pc.command
  split
  · rename_i r reqs us hpc
    have hmentions : s.mentions r.channel :=
      Or.inr (Or.inr (Or.inr (Or.inl ⟨r, hpc ▸ mem_cons_self, rfl⟩)))
    exact readCommand_listenStatement (nul_notMem_utf8 (containsNUL_of_mentions hrun hmentions))
  · rename_i u us hpc
    have hmentions : s.mentions u :=
      Or.inr (Or.inr (Or.inr (Or.inr (hpc ▸ mem_cons_self))))
    exact readCommand_unlistenStatement (nul_notMem_utf8 (containsNUL_of_mentions hrun hmentions))
  · rfl

theorem statement_read_back_quote : ∃ s, Runs step (fun _ _ => True) new s ∧
    s.pc.statement.bind readCommand = some (.listen (utf8 "a\"; --")) := by
  have h : Runs step (fun _ _ => True) new _ := .of_follow [.listen "a\"; --", .snapshot] rfl
  exact ⟨_, h, (statement_read_back h).trans rfl⟩

end PgQueue.Pglisten
