import Mathlib.Data.Finset.Card
import NvmeVirt.Core.Transition
import NvmeVirt.Conv.VictimQueue

/-!
# What a client of the priority queue sees

`VictimQueue` follows the calls garbage collection makes.  Here are the other
functions of `pqueue.c` (`pqueue_remove`, `pqueue_size`, the check
`pqueue_is_valid`, and priorities that rise), and the contract of all of them
together: through any sequence of calls the queue stands for a set of nodes,
and what is popped or peeked at has least priority in that set.
-/

namespace NvmeVirt.PriorityQueue

open NvmeVirt.BinaryHeap NvmeVirt.Transition NvmeVirt.VictimQueue

variable {ι P : Type*} [DecidableEq ι] [LinearOrder P]

/-- `pqueue_size`. -/
def pqueueSize (q : Pqueue ι) : ℕ := q.size - 1

/-- The queue `pqueue_remove` sifts: the last node has taken the slot `posn`. -/
def removeStart (q : Pqueue ι) (posn : ℕ) : Pqueue ι :=
  { q with
    d := Function.update q.d posn (q.d (q.size - 1))
    size := q.size - 1 }

/-- `pqueue_remove`. -/
def pqueueRemove (pri : ι → P) (q : Pqueue ι) (node : ι) : Pqueue ι :=
  let posn := q.pos node
  let q := removeStart q posn
  if pri (q.d posn) < pri node then bubbleUp pri q posn
  else percolateDown pri q posn

def right (i : ℕ) : ℕ := 2 * i + 1

/-- `subtree_is_valid`; every call goes one level down, to a slot below the
size of the queue. -/
def subtreeIsValid (pri : ι → P) (q : Pqueue ι) : ℕ → ℕ → Bool
  | 0, _ => true
  | fuel + 1, pos =>
      if left pos < q.size ∧ pri (q.d (left pos)) < pri (q.d pos) then false
      else if left pos < q.size ∧
          subtreeIsValid pri q fuel (left pos) = false then false
      else if right pos < q.size ∧
          pri (q.d (right pos)) < pri (q.d pos) then false
      else if right pos < q.size ∧
          subtreeIsValid pri q fuel (right pos) = false then false
      else true

/-- `pqueue_is_valid`. -/
def pqueueIsValid (pri : ι → P) (q : Pqueue ι) : Bool :=
  subtreeIsValid pri q q.size 1

/-- `pqueue_pop` called until it returns `NULL`; a queue of `size - 1` nodes
is empty after `size` calls. -/
def popAll (pri : ι → P) : ℕ → Pqueue ι → List ι
  | 0, _ => []
  | fuel + 1, q =>
      match pqueuePop pri q with
      | (none, _) => []
      | (some node, q') => node :: popAll pri fuel q'

/-! ## The check -/

omit [DecidableEq ι] in
/-- What one call of `subtree_is_valid` asks of the children of its slot. -/
theorem subtreeIsValid_succ (pri : ι → P) (q : Pqueue ι) (fuel pos : ℕ) :
    subtreeIsValid pri q (fuel + 1) pos = true ↔
      ∀ child, child / 2 = pos → child < q.size →
        pri (q.d pos) ≤ pri (q.d child) ∧
          subtreeIsValid pri q fuel child = true := by
  have hcases : ∀ child, child / 2 = pos →
      child = left pos ∨ child = right pos := by
    rw [left, right]
    omega
  constructor
  · intro hvalid child hchild hlt
    rw [subtreeIsValid] at hvalid
    split_ifs at hvalid with hleft hleftSub hright hrightSub
    rcases hcases child hchild with rfl | rfl
    · exact ⟨not_lt.mp fun hbad => hleft ⟨hlt, hbad⟩,
        by simpa [hlt] using hleftSub⟩
    · exact ⟨not_lt.mp fun hbad => hright ⟨hlt, hbad⟩,
        by simpa [hlt] using hrightSub⟩
  · intro hchildren
    have hleft := hchildren (left pos) (by rw [left]; omega)
    have hright := hchildren (right pos) (by rw [right]; omega)
    rw [subtreeIsValid, if_neg fun hbad => hbad.2.not_ge (hleft hbad.1).1,
      if_neg fun hbad => Bool.false_ne_true
        (hbad.2.symm.trans (hleft hbad.1).2),
      if_neg fun hbad => hbad.2.not_ge (hright hbad.1).1,
      if_neg fun hbad => Bool.false_ne_true
        (hbad.2.symm.trans (hright hbad.1).2)]

omit [DecidableEq ι] in
/-- `subtree_is_valid` says whether every slot below its slot is in order with
its parent. -/
theorem subtreeIsValid_iff (pri : ι → P) (q : Pqueue ι) (fuel pos : ℕ)
    (hpos : 1 ≤ pos) (hfuel : q.size ≤ pos + fuel) :
    subtreeIsValid pri q fuel pos = true ↔
      ∀ slot depth, slot / 2 ^ (depth + 1) = pos → slot < q.size →
        pri (q.d (slot / 2)) ≤ pri (q.d slot) := by
  induction fuel generalizing pos with
  | zero =>
      refine iff_of_true rfl fun slot depth hslot hlt => ?_
      have hle := Nat.div_le_self slot (2 ^ (depth + 1))
      omega
  | succ fuel ih =>
      rw [subtreeIsValid_succ]
      constructor
      · intro hchildren slot depth hslot hlt
        cases depth with
        | zero =>
            rw [Nat.zero_add, Nat.pow_one] at hslot
            exact hslot ▸ (hchildren slot hslot hlt).1
        | succ depth =>
            -- The child on the way down to the slot.
            have hchild : slot / 2 ^ (depth + 1) / 2 = pos := by
              rw [Nat.div_div_eq_div_mul, ← Nat.pow_succ]
              exact hslot
            have hsmall : slot / 2 ^ (depth + 1) < q.size :=
              (Nat.div_le_self _ _).trans_lt hlt
            have hbelow := (hchildren _ hchild hsmall).2
            rw [ih _ (by omega) (by omega)] at hbelow
            exact hbelow slot depth rfl hlt
      · intro horder child hchild hlt
        refine ⟨hchild ▸ horder child 0 (by simpa using hchild) hlt, ?_⟩
        rw [ih child (by omega) (by omega)]
        intro slot depth hslot hsize
        refine horder slot (depth + 1) ?_ hsize
        rw [Nat.pow_succ, ← Nat.div_div_eq_div_mul, hslot, hchild]

omit [DecidableEq ι] in
/-- `pqueue_is_valid` decides the heap order. -/
theorem pqueueIsValid_iff (pri : ι → P) (q : Pqueue ι) :
    pqueueIsValid pri q = true ↔
      Ordered (fun slot => pri (q.d slot)) q.size := by
  rw [pqueueIsValid, subtreeIsValid_iff pri q q.size 1 le_rfl (by omega)]
  constructor
  · intro horder slot hone hlt
    obtain ⟨depth, hdepth⟩ := exists_below_root hone.le
    cases depth with
    | zero =>
        rw [Nat.pow_zero, Nat.div_one] at hdepth
        omega
    | succ depth => exact horder slot depth hdepth hlt
  · intro horder slot depth hslot hlt
    refine horder slot ?_ hlt
    have hle : slot / 2 ^ (depth + 1) ≤ slot / 2 := by
      rw [Nat.pow_succ', ← Nat.div_div_eq_div_mul]
      exact Nat.div_le_self _ _
    omega

/-! ## Sifting a queue that is out of order in one slot -/

/-- What a call leaves of a queue of the given nodes: a heap of these nodes
and the positions of all others. -/
structure Settled (pri : ι → P) (q r : Pqueue ι) : Prop where
  valid : Valid pri r
  perm : (elems r).Perm (elems q)
  frame : ∀ node, node ∉ elems q → r.pos node = q.pos node

omit [DecidableEq ι] in
theorem Settled.of_sifted {pri : ι → P} {q r : Pqueue ι} {hole : ℕ}
    (hsift : Sifted q hole (q.d hole) r) (hone : 1 ≤ hole)
    (hlt : hole < q.size) (hnodup : (elems q).Nodup)
    (hpos : ∀ slot, 1 ≤ slot → slot < q.size → slot ≠ hole →
      q.pos (q.d slot) = slot)
    (horder : Ordered (fun slot => pri (r.d slot)) q.size) :
    Settled pri q r := by
  have hself : contents (Function.update q.d hole (q.d hole)) q.size =
      elems q := by
    rw [Function.update_eq_self]
    rfl
  have hperm : (elems r).Perm (elems q) := hself ▸ hsift.perm
  have hsize := hsift.size
  refine ⟨⟨by omega, hsize ▸ horder, hperm.nodup_iff.mpr hnodup, ?_⟩, hperm,
    fun node hnode => hsift.frame node (hself ▸ hnode)⟩
  rw [hsize]
  exact hsift.tracked ⟨hself ▸ hnodup, hpos⟩

theorem bubbleUp_settled {pri : ι → P} {q : Pqueue ι} {hole : ℕ}
    (hone : 1 ≤ hole) (hlt : hole < q.size) (hnodup : (elems q).Nodup)
    (hpos : ∀ slot, 1 ≤ slot → slot < q.size → slot ≠ hole →
      q.pos (q.d slot) = slot)
    (horder : UpOrdered (fun slot => pri (q.d slot)) q.size hole) :
    Settled pri q (bubbleUp pri q hole) := by
  refine Settled.of_sifted
    (bubbleUpLoop_sifted pri (q.d hole) hole q hole hone hlt)
    hone hlt hnodup hpos ?_
  refine bubbleUpLoop_ordered pri _ hole q hole hone hlt le_rfl ?_
  rwa [Function.update_eq_self]

theorem percolateDown_settled {pri : ι → P} {q : Pqueue ι} {hole : ℕ}
    (hone : 1 ≤ hole) (hlt : hole < q.size) (hnodup : (elems q).Nodup)
    (hpos : ∀ slot, 1 ≤ slot → slot < q.size → slot ≠ hole →
      q.pos (q.d slot) = slot)
    (horder : DownOrdered (fun slot => pri (q.d slot)) q.size hole) :
    Settled pri q (percolateDown pri q hole) := by
  refine Settled.of_sifted
    (percolateDownLoop_sifted pri (q.d hole) q.size q hole hone hlt)
    hone hlt hnodup hpos ?_
  refine percolateDownLoop_ordered pri _ q.size q hole hone hlt (by omega) ?_
  rwa [Function.update_eq_self]

/-- A new priority, higher or lower, keeps the queue a heap of the same
nodes. -/
theorem pqueueChangePriority_settled {pri : ι → P} {q : Pqueue ι}
    (h : Valid pri q) {node : ι} (hnode : node ∈ elems q) (newPri : P) :
    Settled (Function.update pri node newPri) q
      (pqueueChangePriority pri q newPri node).2 := by
  obtain ⟨hone, hlt, hd⟩ := h.pos_of_mem hnode
  have hother : ∀ slot, 1 ≤ slot → slot < q.size → slot ≠ q.pos node →
      Function.update pri node newPri (q.d slot) = pri (q.d slot) := by
    intro slot hslot hsize hoff
    rw [Function.update_of_ne]
    intro heq
    exact hoff (by rw [← heq, h.pos_d slot hslot hsize])
  have hself : Function.update pri node newPri (q.d (q.pos node)) =
      newPri := by
    rw [hd, Function.update_self]
  have hold : pri (q.d (q.pos node)) = pri node := by rw [hd]
  rw [pqueueChangePriority]
  split_ifs with hlower
  · exact bubbleUp_settled hone hlt h.nodup
      (fun slot hslot hsize _ => h.pos_d slot hslot hsize)
      (h.ordered.lowered hlt hother (by rw [hself, hold]; exact hlower.le))
  · exact percolateDown_settled hone hlt h.nodup
      (fun slot hslot hsize _ => h.pos_d slot hslot hsize)
      (h.ordered.raised hother
        (by rw [hself, hold]; exact not_lt.mp hlower))

/-! ## Removing a node -/

omit [DecidableEq ι] in
theorem elems_removeStart (q : Pqueue ι) {posn : ℕ} (hone : 1 ≤ posn)
    (hlt : posn < q.size) :
    (q.d posn :: elems (removeStart q posn)).Perm (elems q) := by
  have hlast := @contents_succ _ (exchange q.d posn (q.size - 1))
    (q.size - 1) (by omega)
  rw [Nat.sub_add_cancel (by omega), exchange_right] at hlast
  have hkept : contents (exchange q.d posn (q.size - 1)) (q.size - 1) =
      elems (removeStart q posn) := by
    refine contents_congr fun slot hslot hsize => ?_
    by_cases hself : slot = posn
    · simp [hself, removeStart]
    · rw [exchange_of_ne _ hself (by omega)]
      simp [removeStart, Function.update_of_ne hself]
  have hperm := contents_exchange q.d hone hlt (j := q.size - 1)
    (by omega) (by omega)
  rw [hlast, hkept] at hperm
  exact (List.perm_append_singleton _ _).symm.trans hperm

omit [DecidableEq ι] in
@[simp]
theorem removeStart_self (q : Pqueue ι) (posn : ℕ) :
    (removeStart q posn).d posn = q.d (q.size - 1) := by
  simp [removeStart]

omit [DecidableEq ι] in
theorem removeStart_off (q : Pqueue ι) {posn slot : ℕ} (hoff : slot ≠ posn) :
    (removeStart q posn).d slot = q.d slot := by
  simp [removeStart, Function.update_of_ne hoff]

/-- `pqueue_remove` of the node in the last slot. -/
theorem pqueueRemove_last {pri : ι → P} {q : Pqueue ι} {node : ι}
    (hone : 1 ≤ q.pos node) (hlast : q.pos node = q.size - 1)
    (hd : q.d (q.pos node) = node) :
    pqueueRemove pri q node =
      place (removeStart q (q.pos node)) (q.pos node) node := by
  have hslot : (removeStart q (q.pos node)).d (q.pos node) = node := by
    rw [removeStart_self, ← hlast, hd]
  have hsize : (removeStart q (q.pos node)).size = q.pos node := hlast.symm
  obtain ⟨fuel, hfuel⟩ := Nat.exists_eq_add_of_le' hone
  have hleaf : maxchild pri (removeStart q (q.pos node)) (q.pos node) = 0 := by
    rw [maxchild, hsize, if_pos (by rw [left]; omega)]
  rw [pqueueRemove, hslot, if_neg (lt_irrefl _), percolateDown, hslot,
    hsize]
  conv_lhs =>
    enter [3]
    rw [hfuel]
  rw [percolateDownLoop, hleaf, if_neg fun hmove => hmove.1 rfl]

/-- `pqueue_remove` takes out exactly the node it is given. -/
theorem pqueueRemove_spec {pri : ι → P} {q : Pqueue ι} (h : Valid pri q)
    {node : ι} (hnode : node ∈ elems q) :
    Valid pri (pqueueRemove pri q node) ∧
      (node :: elems (pqueueRemove pri q node)).Perm (elems q) := by
  obtain ⟨hone, hlt, hd⟩ := h.pos_of_mem hnode
  have hperm := elems_removeStart q hone hlt
  rw [hd] at hperm
  have hnodup := List.nodup_cons.mp (hperm.nodup_iff.mpr h.nodup)
  have hpos : ∀ slot, 1 ≤ slot → slot < q.size - 1 → slot ≠ q.pos node →
      q.pos ((removeStart q (q.pos node)).d slot) = slot := by
    intro slot hslot hsize hoff
    rw [removeStart_off q hoff]
    exact h.pos_d slot hslot (by omega)
  by_cases hlast : q.pos node = q.size - 1
  · rw [pqueueRemove_last hone hlast hd]
    have hkeep : ∀ slot, slot ≠ q.pos node →
        (place (removeStart q (q.pos node)) (q.pos node) node).d slot =
          (removeStart q (q.pos node)).d slot :=
      fun slot hoff => Function.update_of_ne hoff _ _
    have hsame : elems (place (removeStart q (q.pos node)) (q.pos node)
        node) = elems (removeStart q (q.pos node)) := by
      refine contents_congr fun slot _ hsize => hkeep slot ?_
      simp only [place_size, removeStart] at hsize
      omega
    rw [hsame]
    refine ⟨⟨by simp only [place_size, removeStart]; omega, ?_,
      hsame ▸ hnodup.2, ?_⟩, hperm⟩
    · intro slot hslot hsize
      simp only [place_size, removeStart] at hsize
      dsimp only
      rw [hkeep slot (by omega), hkeep (slot / 2) (by omega),
        removeStart_off q (by omega), removeStart_off q (by omega)]
      exact h.ordered slot hslot (by omega)
    · intro slot hslot hsize
      simp only [place_size, removeStart] at hsize
      have hoff : slot ≠ q.pos node := by omega
      rw [hkeep slot hoff, removeStart_off q hoff]
      have hne : q.d slot ≠ node := by
        rintro rfl
        exact hoff (h.pos_d slot hslot (by omega)).symm
      have hslotPos := h.pos_d slot hslot (by omega)
      simpa [place, removeStart, Function.update_of_ne hne] using hslotPos
  have hin : q.pos node < q.size - 1 := by omega
  have hkept : Ordered (fun slot => pri (q.d slot)) (q.size - 1) :=
    h.ordered.mono (Nat.sub_le _ _)
  have hother : ∀ slot, 1 ≤ slot → slot < q.size - 1 → slot ≠ q.pos node →
      pri ((removeStart q (q.pos node)).d slot) = pri (q.d slot) := by
    intro slot _ _ hoff
    rw [removeStart_off q hoff]
  have hsettled : Settled pri (removeStart q (q.pos node))
      (pqueueRemove pri q node) := by
    rw [pqueueRemove]
    split_ifs with hlower
    · exact bubbleUp_settled hone hin hnodup.2 hpos
        (hkept.lowered hin hother (by rw [hd]; exact hlower.le))
    · exact percolateDown_settled hone hin hnodup.2 hpos
        (hkept.raised hother (by rw [hd]; exact not_lt.mp hlower))
  exact ⟨hsettled.valid, (hsettled.perm.cons node).trans hperm⟩

/-! ## Popping until nothing is left -/

omit [DecidableEq ι] in
theorem elems_eq_nil_iff {q : Pqueue ι} (hsize : 1 ≤ q.size) :
    elems q = [] ↔ q.size = 1 := by
  rw [← List.length_eq_zero_iff, length_elems]
  omega

omit [DecidableEq ι] in
theorem root_mem_elems {q : Pqueue ι} (hsize : 2 ≤ q.size) :
    q.d 1 ∈ elems q :=
  mem_contents.mpr ⟨1, le_rfl, by omega, rfl⟩

/-- The nodes come out in order of priority, each of them once. -/
theorem popAll_spec {pri : ι → P} (fuel : ℕ) {q : Pqueue ι}
    (h : Valid pri q) (hfuel : q.size ≤ fuel) :
    (popAll pri fuel q).Perm (elems q) ∧
      (popAll pri fuel q).Pairwise fun first later =>
        pri first ≤ pri later := by
  induction fuel generalizing q with
  | zero =>
      have := h.size_pos
      omega
  | succ fuel ih =>
      rw [popAll]
      by_cases hone : q.size = 1
      · rw [pqueuePop, if_pos hone, (elems_eq_nil_iff h.size_pos).mpr hone]
        exact ⟨List.Perm.refl _, List.Pairwise.nil⟩
      have hsize : 2 ≤ q.size := by
        have := h.size_pos
        omega
      have hpop := pqueuePop_of_size pri q hsize
      have hvalid := pqueuePop_valid h hsize
      have hperm := elems_pqueuePop pri q hsize
      have hless := pqueuePop_size pri q hsize
      rw [hpop] at hvalid hperm hless ⊢
      dsimp only at hvalid hperm hless ⊢
      obtain ⟨hrest, hsorted⟩ := ih hvalid (by omega)
      refine ⟨(hrest.cons _).trans hperm, List.pairwise_cons.mpr
        ⟨fun later hlater => h.root_le ?_, hsorted⟩⟩
      exact hperm.mem_iff.mp (List.mem_cons_of_mem _ (hrest.mem_iff.mp hlater))

/-! ## Any sequence of calls -/

/-- What a client does: the calls of `pqueue.h`, and writing the priority of a
node it has not handed to the queue. -/
inductive Call (ι P : Type*)
  | insert (node : ι)
  | pop
  | changePriority (newPri : P) (node : ι)
  | remove (node : ι)
  | assign (newPri : P) (node : ι)

/-- A queue, the priorities of all nodes, and the set of nodes the queue
stands for. -/
structure Client (ι P : Type*) where
  pri : ι → P
  queue : Pqueue ι
  members : Finset ι

def Client.call (c : Client ι P) : Call ι P → Client ι P
  | .insert node =>
      { c with
        queue := pqueueInsert c.pri c.queue node
        members := insert node c.members }
  | .pop =>
      { c with
        queue := (pqueuePop c.pri c.queue).2
        members := match (pqueuePop c.pri c.queue).1 with
          | none => c.members
          | some node => c.members.erase node }
  | .changePriority newPri node =>
      { c with
        pri := (pqueueChangePriority c.pri c.queue newPri node).1
        queue := (pqueueChangePriority c.pri c.queue newPri node).2 }
  | .remove node =>
      { c with
        queue := pqueueRemove c.pri c.queue node
        members := c.members.erase node }
  | .assign newPri node =>
      { c with pri := Function.update c.pri node newPri }

/-- The calls a client may make: at most `n` nodes at a time, no node twice,
and a priority is changed or a node removed only while it is in the queue. -/
def Client.may (n : ℕ) (c : Client ι P) : Call ι P → Prop
  | .insert node => node ∉ c.members ∧ pqueueSize c.queue < n
  | .pop => True
  | .changePriority _ node => node ∈ c.members
  | .remove node => node ∈ c.members
  | .assign _ node => node ∉ c.members

/-- A queue from `pqueue_init` under its client. -/
def clientMachine (n : ℕ) : Machine (Client ι P) (Call ι P) Unit where
  init c := c.members = ∅ ∧ ∃ node, c.queue = pqueueInit node
  enabled := Client.may n
  step c action := .ok (c.call action)

instance (n : ℕ) (c : Client ι P) (action : Call ι P) :
    Decidable ((clientMachine n).enabled c action) :=
  match action with
  | .insert node =>
      inferInstanceAs (Decidable (node ∉ c.members ∧ pqueueSize c.queue < n))
  | .pop => inferInstanceAs (Decidable True)
  | .changePriority _ node => inferInstanceAs (Decidable (node ∈ c.members))
  | .remove node => inferInstanceAs (Decidable (node ∈ c.members))
  | .assign _ node => inferInstanceAs (Decidable (node ∉ c.members))

/-- The queue is a heap of the nodes it stands for. -/
structure Stands (c : Client ι P) : Prop where
  valid : Valid c.pri c.queue
  mem_iff : ∀ node, node ∈ elems c.queue ↔ node ∈ c.members

theorem Stands.call {n : ℕ} {c : Client ι P} (h : Stands c)
    {action : Call ι P} (hmay : c.may n action) : Stands (c.call action) := by
  cases action with
  | insert node =>
      have hfresh : node ∉ elems c.queue := by
        rw [h.mem_iff]
        exact hmay.1
      refine ⟨pqueueInsert_valid h.valid hfresh, fun other => ?_⟩
      have hperm := elems_pqueueInsert c.pri c.queue node h.valid.size_pos
      simp only [Client.call, hperm.mem_iff, List.mem_append, h.mem_iff,
        List.mem_singleton, Finset.mem_insert, or_comm]
  | pop =>
      by_cases hone : c.queue.size = 1
      · have hpop : pqueuePop c.pri c.queue = (none, c.queue) := by
          rw [pqueuePop, if_pos hone]
        simp only [Client.call, hpop]
        exact h
      have hsize : 2 ≤ c.queue.size := by
        have := h.valid.size_pos
        omega
      have hperm := elems_pqueuePop c.pri c.queue hsize
      have hnodup := List.nodup_cons.mp (hperm.nodup_iff.mpr h.valid.nodup)
      refine ⟨pqueuePop_valid h.valid hsize, fun other => ?_⟩
      have hmem := hperm.mem_iff (a := other)
      rw [List.mem_cons, h.mem_iff] at hmem
      simp only [Client.call, pqueuePop_of_size c.pri c.queue hsize,
        Finset.mem_erase] at hnodup hmem ⊢
      constructor
      · intro hin
        exact ⟨fun heq => hnodup.1 (heq ▸ hin), hmem.mp (.inr hin)⟩
      · rintro ⟨hne, hin⟩
        exact (hmem.mpr hin).resolve_left hne
  | changePriority newPri node =>
      have hin := (h.mem_iff node).mpr hmay
      have hsettled := pqueueChangePriority_settled h.valid hin newPri
      refine ⟨?_, fun other => ?_⟩
      · have hpri : (c.call (.changePriority newPri node)).pri =
            Function.update c.pri node newPri := by
          simp only [Client.call, pqueueChangePriority]
          split_ifs <;> rfl
        rw [hpri]
        exact hsettled.valid
      · exact hsettled.perm.mem_iff.trans (h.mem_iff other)
  | remove node =>
      have hin := (h.mem_iff node).mpr hmay
      obtain ⟨hvalid, hperm⟩ := pqueueRemove_spec h.valid hin
      have hnodup := List.nodup_cons.mp (hperm.nodup_iff.mpr h.valid.nodup)
      refine ⟨hvalid, fun other => ?_⟩
      have hmem := hperm.mem_iff (a := other)
      rw [List.mem_cons, h.mem_iff] at hmem
      simp only [Client.call, Finset.mem_erase]
      constructor
      · intro hother
        exact ⟨fun heq => hnodup.1 (heq ▸ hother), hmem.mp (.inr hother)⟩
      · rintro ⟨hne, hother⟩
        exact (hmem.mpr hother).resolve_left hne
  | assign newPri node =>
      refine ⟨h.valid.congr fun other hother => ?_, h.mem_iff⟩
      simp only [Client.call]
      rw [Function.update_of_ne]
      rintro rfl
      exact hmay ((h.mem_iff other).mp hother)

theorem reachable_stands {n : ℕ} {c : Client ι P}
    (hreach : Reachable (clientMachine n) c) : Stands c := by
  refine hreach.invariant Stands ?_ ?_
  · rintro start ⟨hnone, node, hqueue⟩
    refine ⟨hqueue ▸ valid_pqueueInit start.pri node, fun other => ?_⟩
    rw [hqueue, hnone, elems_pqueueInit]
    simp
  · intro before action after hbefore hmay hstep
    cases hstep
    exact hbefore.call hmay

/-- Through any sequence of calls the check passes, the size is the number of
nodes the queue stands for, the node at its head has least priority among
them, and popping until nothing is left hands them all out, each once, in order
of priority. -/
theorem client_contract {n : ℕ} {c : Client ι P}
    (hreach : Reachable (clientMachine n) c) :
    pqueueIsValid c.pri c.queue = true ∧
      pqueueSize c.queue = c.members.card ∧
      (pqueuePop c.pri c.queue).1 = pqueuePeek c.queue ∧
      (pqueuePeek c.queue = none ↔ c.members = ∅) ∧
      (∀ node, pqueuePeek c.queue = some node →
        node ∈ c.members ∧ ∀ other ∈ c.members, c.pri node ≤ c.pri other) ∧
      (popAll c.pri c.queue.size c.queue).Perm c.members.toList ∧
      (popAll c.pri c.queue.size c.queue).Pairwise fun first later =>
        c.pri first ≤ c.pri later := by
  have h := reachable_stands hreach
  have hset : (elems c.queue).toFinset = c.members := by
    ext node
    rw [List.mem_toFinset, h.mem_iff]
  have hcard : pqueueSize c.queue = c.members.card := by
    rw [← hset, List.toFinset_card_of_nodup h.valid.nodup, length_elems]
    rfl
  have hperm : (elems c.queue).Perm c.members.toList := by
    rw [List.perm_ext_iff_of_nodup h.valid.nodup (Finset.nodup_toList _)]
    intro node
    rw [h.mem_iff, Finset.mem_toList]
  obtain ⟨hall, hsorted⟩ := popAll_spec c.queue.size h.valid le_rfl
  refine ⟨(pqueueIsValid_iff _ _).mpr h.valid.ordered, hcard, ?_, ?_, ?_,
    hall.trans hperm, hsorted⟩
  · rw [pqueuePop, pqueuePeek]
    split_ifs <;> rfl
  · rw [← Finset.card_eq_zero, ← hcard, pqueueSize, pqueuePeek]
    have := h.valid.size_pos
    split_ifs <;> simp <;> omega
  · intro node hpeek
    rw [pqueuePeek] at hpeek
    split_ifs at hpeek with hone
    obtain rfl := Option.some.inj hpeek
    have hsize : 2 ≤ c.queue.size := by
      have := h.valid.size_pos
      omega
    exact ⟨(h.mem_iff _).mp (root_mem_elems hsize),
      fun other hother => h.valid.root_le ((h.mem_iff other).mpr hother)⟩

/-- An empty queue of at most three nodes, the priority of a node being its
number. -/
def emptyClient : Client ℕ ℕ where
  pri := id
  queue := pqueueInit 0
  members := ∅

def clientCalls : List (Call ℕ ℕ) :=
  [.insert 4, .insert 2, .insert 7, .changePriority 9 2, .remove 4]

theorem client_contract_calls :
    ∃ c, (clientMachine 3).run clientCalls emptyClient = some c ∧
      pqueueSize c.queue = c.members.card ∧
      pqueueIsValid c.pri c.queue = true ∧
      popAll c.pri c.queue.size c.queue = [7, 2] := by
  have hinit : (clientMachine 3).init emptyClient := ⟨rfl, 0, rfl⟩
  obtain ⟨c, hrun⟩ := Option.isSome_iff_exists.mp
    (show ((clientMachine 3).run clientCalls emptyClient).isSome by decide)
  have h := client_contract ((Reachable.start hinit).run hrun)
  have hall : ((clientMachine 3).run clientCalls emptyClient).map
      (fun c => popAll c.pri c.queue.size c.queue) = some [7, 2] := by decide
  rw [hrun] at hall
  exact ⟨c, hrun, h.2.1, h.1, Option.some.inj hall⟩

end NvmeVirt.PriorityQueue
