import PgQueue.Fifo.Channel

/-!
# The line of a channel in the order of the probe

`line s` are the pending rows in the order of `(available_at, id)`.  Rows may come in anywhere, as a
retry puts its row behind those that become available earlier.

* `line_join`       a row that becomes pending comes before the first row that is not earlier;
* `line_leave`      the first row is taken out;
* `line_same`       other rows do not matter;
* `pendingProbe_line`   the probe looks at the front, when every pending row is available.
-/

namespace PgQueue.Channel
open Relational List

def line (s : State) : List Row := s.msgs.select Row.isPending fun a b => Earlier a.place b.place

section
variable {env : Env} {s s' : State} {r : Row} {rest : List Row}

theorem mem_line : r ∈ line s ↔ r ∈ s.msgs.rows ∧ r.isPending = true := Table.mem_select

theorem line_of_perm {l : List Row} (h : (s.msgs.rows.filter Row.isPending).Perm l) :
    line s = l.insertionSort fun a b => Earlier a.place b.place := by
  have hp : (line s).Perm (l.insertionSort fun a b => Earlier a.place b.place) :=
    ((s.msgs.select_perm _ _).trans h).trans (perm_insertionSort _ l).symm
  refine hp.eq_of_pairwise (fun a b ha hb hab hba => ?_) (Earlier.pairwise_insertionSort Row.place _)
    (Earlier.pairwise_insertionSort Row.place l)
  exact Table.eq_of_key (mem_line.mp ha).1 (mem_line.mp (hp.mem_iff.mpr hb)).1 (hab.antisymm hba)

theorem line_same (h : s'.msgs.rows.filter Row.isPending = s.msgs.rows.filter Row.isPending) :
    line s' = line s := line_of_perm (h ▸ Perm.refl _)

theorem line_join
    (h : (s'.msgs.rows.filter Row.isPending).Perm (r :: s.msgs.rows.filter Row.isPending)) :
    line s' = (line s).takeWhile (fun x => decide ¬ Earlier r.place x.place) ++
      r :: (line s).dropWhile fun x => decide ¬ Earlier r.place x.place := by
  rw [line_of_perm h, insertionSort_cons_eq_take_drop]
  rfl

theorem line_leave
    (h : (s.msgs.rows.filter Row.isPending).Perm (r :: s'.msgs.rows.filter Row.isPending))
    (hl : line s = r :: rest) : line s' = rest := by
  have hp : (r :: rest).Perm (r :: s'.msgs.rows.filter Row.isPending) :=
    hl ▸ (s.msgs.select_perm _ _).trans h
  have hsorted : (line s).Pairwise fun a b => Earlier a.place b.place :=
    Earlier.pairwise_insertionSort Row.place _
  rw [hl] at hsorted
  rw [line_of_perm ((perm_cons r).mp hp).symm]
  exact (pairwise_cons.mp hsorted).2.insertionSort_eq

theorem pendingProbe_line (httl : env.ttl ≤ 0) (harr : ∀ r ∈ line s, r.availableAt ≤ env.now) :
    pendingProbe env s = (line s).head? := by
  have hfilter : s.msgs.rows.filter (Row.deliverable env) = s.msgs.rows.filter Row.isPending := by
    refine filter_deliverable httl fun k hk => ?_
    obtain ⟨r, hr, rfl⟩ := mem_map.mp hk
    exact harr r (mem_line.mpr (mem_filter.mp hr))
  rw [pendingProbe_deliverable]
  unfold line Table.select
  rw [hfilter]
  rfl

end
end PgQueue.Channel
