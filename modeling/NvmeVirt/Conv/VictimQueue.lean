import Mathlib.Logic.Function.Basic
import Mathlib.Order.Nat
import NvmeVirt.Core.BinaryHeap

/-!
# The priority queue of victim lines

`pqueue.c` is an intrusive binary heap: the queue holds pointers, and the
callbacks `getpri`, `getpos` and `setpos` read and write fields of the nodes.
Here a node is an index, the priorities are a table owned by the caller, and
the positions are the column `pos`.  The comparison callback is
`victim_line_cmp_pri`, so the first slot holds a node of least priority.
-/

namespace NvmeVirt.VictimQueue

open NvmeVirt.BinaryHeap

variable {ι P : Type*} [DecidableEq ι] [LinearOrder P]

/-- `pqueue_t`; as in the source, `size` counts the unused slot `0` too. -/
structure Pqueue (ι : Type*) where
  d : ℕ → ι
  size : ℕ
  pos : ι → ℕ

/-- `pqueue_init`, on nodes whose position is zero. -/
def pqueueInit (node : ι) : Pqueue ι :=
  { d := fun _ => node, size := 1, pos := fun _ => 0 }

def parent (i : ℕ) : ℕ := i / 2
def left (i : ℕ) : ℕ := 2 * i

/-- `q->d[i] = node; q->setpos(node, i)`. -/
def place (q : Pqueue ι) (i : ℕ) (node : ι) : Pqueue ι :=
  { q with
    d := Function.update q.d i node
    pos := Function.update q.pos node i }

/-- The loop of `bubble_up`; every iteration halves `i`, so `i` iterations
suffice. -/
def bubbleUpLoop (pri : ι → P) (movingNode : ι) :
    ℕ → Pqueue ι → ℕ → Pqueue ι
  | 0, q, i => place q i movingNode
  | fuel + 1, q, i =>
      if 1 < i ∧ pri movingNode < pri (q.d (parent i)) then
        bubbleUpLoop pri movingNode fuel (place q i (q.d (parent i)))
          (parent i)
      else place q i movingNode

/-- `bubble_up`. -/
def bubbleUp (pri : ι → P) (q : Pqueue ι) (i : ℕ) : Pqueue ι :=
  bubbleUpLoop pri (q.d i) i q i

/-- `maxchild`: the child to exchange with, `0` when there is none. -/
def maxchild (pri : ι → P) (q : Pqueue ι) (i : ℕ) : ℕ :=
  if q.size ≤ left i then 0
  else if left i + 1 < q.size ∧
      pri (q.d (left i + 1)) < pri (q.d (left i)) then left i + 1
  else left i

/-- The loop of `percolate_down`; `i` grows in every iteration and stays below
the size of the queue. -/
def percolateDownLoop (pri : ι → P) (movingNode : ι) :
    ℕ → Pqueue ι → ℕ → Pqueue ι
  | 0, q, i => place q i movingNode
  | fuel + 1, q, i =>
      let childNode := maxchild pri q i
      if childNode ≠ 0 ∧ pri (q.d childNode) < pri movingNode then
        percolateDownLoop pri movingNode fuel (place q i (q.d childNode))
          childNode
      else place q i movingNode

/-- `percolate_down`. -/
def percolateDown (pri : ι → P) (q : Pqueue ι) (i : ℕ) : Pqueue ι :=
  percolateDownLoop pri (q.d i) q.size q i

/-- `pqueue_insert`. -/
def pqueueInsert (pri : ι → P) (q : Pqueue ι) (node : ι) : Pqueue ι :=
  bubbleUp pri
    { q with d := Function.update q.d q.size node, size := q.size + 1 }
    q.size

/-- `pqueue_change_priority`, with the updated priority table. -/
def pqueueChangePriority (pri : ι → P) (q : Pqueue ι) (newPri : P)
    (node : ι) : (ι → P) × Pqueue ι :=
  let oldPri := pri node
  let pri := Function.update pri node newPri
  let posn := q.pos node
  if newPri < oldPri then (pri, bubbleUp pri q posn)
  else (pri, percolateDown pri q posn)

/-- `pqueue_peek`. -/
def pqueuePeek (q : Pqueue ι) : Option ι :=
  if q.size = 1 then none else some (q.d 1)

/-- `pqueue_pop`. -/
def pqueuePop (pri : ι → P) (q : Pqueue ι) : Option ι × Pqueue ι :=
  if q.size = 1 then (none, q)
  else
    (some (q.d 1),
      percolateDown pri
        { q with
          d := Function.update q.d 1 (q.d (q.size - 1))
          size := q.size - 1 } 1)

/-- The nodes in the queue. -/
def elems (q : Pqueue ι) : List ι := contents q.d q.size

/-! ## One exchange -/

@[simp]
theorem place_size (q : Pqueue ι) (i : ℕ) (node : ι) :
    (place q i node).size = q.size := rfl

/-- Moving the entry of slot `j` into the hole, with the moving node thought
of as sitting in the hole, is an exchange. -/
theorem update_place_d (q : Pqueue ι) {i j : ℕ} (hne : j ≠ i)
    (movingNode : ι) :
    Function.update (place q i (q.d j)).d j movingNode =
      exchange (Function.update q.d i movingNode) i j := by
  funext slot
  by_cases hj : slot = j
  · simp [hj]
  by_cases hi : slot = i
  · rw [Function.update_of_ne hj, hi, exchange_left,
      Function.update_of_ne hne]
    simp [place]
  · rw [Function.update_of_ne hj, exchange_of_ne _ hi hj,
      Function.update_of_ne hi]
    simp [place, Function.update_of_ne hi]

/-- A queue with a hole: every other entry knows its slot, and no entry occurs
twice once the moving node fills the hole. -/
structure Tracked (q : Pqueue ι) (hole : ℕ) (movingNode : ι) : Prop where
  nodup : (contents (Function.update q.d hole movingNode) q.size).Nodup
  pos_d : ∀ slot, 1 ≤ slot → slot < q.size → slot ≠ hole →
    q.pos (q.d slot) = slot

theorem Tracked.move {q : Pqueue ι} {i j : ℕ} {movingNode : ι}
    (h : Tracked q i movingNode) (hi : 1 ≤ i) (hisize : i < q.size)
    (hj : 1 ≤ j) (hjsize : j < q.size) (hne : j ≠ i) :
    Tracked (place q i (q.d j)) j movingNode where
  nodup := by
    rw [update_place_d q hne]
    exact (contents_exchange _ hi hisize hj hjsize).nodup_iff.mpr h.nodup
  pos_d := by
    intro slot hpos hslot hoff
    by_cases hself : slot = i
    · simp [place, hself]
    have hneq : q.d slot ≠ q.d j := by
      intro heq
      apply hoff
      refine contents_inj h.nodup hpos hslot hj hjsize ?_
      rw [Function.update_of_ne hself, Function.update_of_ne hne, heq]
    simp only [place, Function.update_of_ne hself, Function.update_of_ne hneq]
    exact h.pos_d slot hpos hslot hself

theorem Tracked.finish {q : Pqueue ι} {i : ℕ} {movingNode : ι}
    (h : Tracked q i movingNode) (hi : 1 ≤ i) (hisize : i < q.size) :
    ∀ slot, 1 ≤ slot → slot < q.size →
      (place q i movingNode).pos ((place q i movingNode).d slot) = slot := by
  intro slot hpos hslot
  by_cases hself : slot = i
  · simp [place, hself]
  have hneq : q.d slot ≠ movingNode := by
    intro heq
    apply hself
    refine contents_inj h.nodup hpos hslot hi hisize ?_
    rw [Function.update_of_ne hself, Function.update_self, heq]
  simp only [place, Function.update_of_ne hself, Function.update_of_ne hneq]
  exact h.pos_d slot hpos hslot hself

/-- What sifting a node from a hole does whatever the order of the queue: the
queue holds the same nodes, the positions of all other nodes are untouched,
and every node ends up knowing its slot if it did before. -/
structure Sifted (q : Pqueue ι) (hole : ℕ) (movingNode : ι)
    (r : Pqueue ι) : Prop where
  size : r.size = q.size
  perm : (elems r).Perm
    (contents (Function.update q.d hole movingNode) q.size)
  frame : ∀ node,
    node ∉ contents (Function.update q.d hole movingNode) q.size →
      r.pos node = q.pos node
  tracked : Tracked q hole movingNode → ∀ slot, 1 ≤ slot → slot < q.size →
    r.pos (r.d slot) = slot

theorem Sifted.stop (q : Pqueue ι) {i : ℕ} (movingNode : ι) (hi : 1 ≤ i)
    (hisize : i < q.size) : Sifted q i movingNode (place q i movingNode) where
  size := rfl
  perm := List.Perm.refl _
  frame := by
    intro node hnode
    have hne : node ≠ movingNode := by
      rintro rfl
      exact hnode (mem_contents.mpr ⟨i, hi, hisize, Function.update_self ..⟩)
    simp [place, Function.update_of_ne hne]
  tracked := fun h => h.finish hi hisize

theorem Sifted.move {q r : Pqueue ι} {i j : ℕ} {movingNode : ι}
    (hi : 1 ≤ i) (hisize : i < q.size) (hj : 1 ≤ j) (hjsize : j < q.size)
    (hne : j ≠ i) (h : Sifted (place q i (q.d j)) j movingNode r) :
    Sifted q i movingNode r := by
  have hsame := contents_exchange (Function.update q.d i movingNode)
    hi hisize hj hjsize
  rw [← update_place_d q hne] at hsame
  refine ⟨h.size, h.perm.trans hsame, ?_, ?_⟩
  · intro node hnode
    have hother : node ≠ q.d j := by
      rintro rfl
      exact hnode (mem_contents.mpr
        ⟨j, hj, hjsize, Function.update_of_ne hne ..⟩)
    rw [h.frame node (fun hmem => hnode (hsame.mem_iff.mp hmem))]
    simp [place, Function.update_of_ne hother]
  · intro htracked
    exact h.tracked (htracked.move hi hisize hj hjsize hne)

theorem bubbleUpLoop_sifted (pri : ι → P) (movingNode : ι) (fuel : ℕ)
    (q : Pqueue ι) (i : ℕ) (hi : 1 ≤ i) (hisize : i < q.size) :
    Sifted q i movingNode (bubbleUpLoop pri movingNode fuel q i) := by
  induction fuel generalizing q i with
  | zero => exact Sifted.stop q movingNode hi hisize
  | succ fuel ih =>
      rw [bubbleUpLoop]
      split_ifs with hmove
      · have hparent : 1 ≤ parent i ∧ parent i < i := by
          rw [parent]
          omega
        refine Sifted.move hi hisize hparent.1 (by omega) (by omega) ?_
        exact ih _ _ hparent.1 (by simp; omega)
      · exact Sifted.stop q movingNode hi hisize

omit [DecidableEq ι] in
theorem maxchild_spec (pri : ι → P) (q : Pqueue ι) {i : ℕ}
    (hchild : maxchild pri q i ≠ 0) :
    maxchild pri q i / 2 = i ∧ maxchild pri q i < q.size ∧
      ∀ other, other / 2 = i → other < q.size →
        pri (q.d (maxchild pri q i)) ≤ pri (q.d other) := by
  have hcases : ∀ other, other / 2 = i →
      other = left i ∨ other = left i + 1 := by
    rw [left]
    omega
  rw [maxchild] at hchild ⊢
  split_ifs at hchild ⊢ with hnone hright
  · exact absurd rfl hchild
  · refine ⟨by unfold left; omega, hright.1, ?_⟩
    intro other hother _
    rcases hcases other hother with rfl | rfl
    · exact hright.2.le
    · exact le_rfl
  · refine ⟨by unfold left; omega, by omega, ?_⟩
    intro other hother hlt
    rcases hcases other hother with rfl | rfl
    · exact le_rfl
    · by_contra hless
      exact hright ⟨hlt, lt_of_not_ge hless⟩

omit [DecidableEq ι] in
theorem maxchild_eq_zero (pri : ι → P) (q : Pqueue ι) {i : ℕ} (hi : 1 ≤ i)
    (hchild : maxchild pri q i = 0) {other : ℕ} (hother : other / 2 = i) :
    q.size ≤ other := by
  rw [maxchild, left] at hchild
  split_ifs at hchild <;> omega

theorem percolateDownLoop_sifted (pri : ι → P) (movingNode : ι) (fuel : ℕ)
    (q : Pqueue ι) (i : ℕ) (hi : 1 ≤ i) (hisize : i < q.size) :
    Sifted q i movingNode (percolateDownLoop pri movingNode fuel q i) := by
  induction fuel generalizing q i with
  | zero => exact Sifted.stop q movingNode hi hisize
  | succ fuel ih =>
      rw [percolateDownLoop]
      split_ifs with hmove
      · obtain ⟨hparent, hlt, _⟩ := maxchild_spec pri q hmove.1
        refine Sifted.move hi hisize (by omega) hlt (by omega) ?_
        exact ih _ _ (by omega) (by simpa using hlt)
      · exact Sifted.stop q movingNode hi hisize

/-! ## Sifting restores the heap order -/

theorem bubbleUpLoop_ordered (pri : ι → P) (movingNode : ι) (fuel : ℕ)
    (q : Pqueue ι) (i : ℕ) (hi : 1 ≤ i) (hisize : i < q.size)
    (hfuel : i ≤ fuel)
    (horder : UpOrdered
      (fun slot => pri (Function.update q.d i movingNode slot)) q.size i) :
    Ordered (fun slot => pri ((bubbleUpLoop pri movingNode fuel q i).d slot))
      q.size := by
  induction fuel generalizing q i with
  | zero => omega
  | succ fuel ih =>
      rw [bubbleUpLoop]
      split_ifs with hmove
      · have hparent : 1 ≤ parent i ∧ parent i < i := by
          rw [parent]
          omega
        have hne : parent i ≠ i := by omega
        refine ih (place q i (q.d (parent i))) (parent i) hparent.1
          (by simp; omega) (by omega) ?_
        rw [update_place_d q hne]
        refine horder.move hmove.1 hisize ?_
        have hbad := hmove.2
        rw [parent] at hbad hne
        simpa [Function.update_of_ne hne] using hbad
      · refine horder.finish ?_
        intro hone
        have hne : i / 2 ≠ i := by omega
        simp only [Function.update_self, Function.update_of_ne hne]
        exact not_lt.mp fun hbad => hmove ⟨hone, hbad⟩

theorem percolateDownLoop_ordered (pri : ι → P) (movingNode : ι) (fuel : ℕ)
    (q : Pqueue ι) (i : ℕ) (hi : 1 ≤ i) (hisize : i < q.size)
    (hfuel : q.size ≤ i + fuel)
    (horder : DownOrdered
      (fun slot => pri (Function.update q.d i movingNode slot)) q.size i) :
    Ordered
      (fun slot => pri ((percolateDownLoop pri movingNode fuel q i).d slot))
      q.size := by
  induction fuel generalizing q i with
  | zero => omega
  | succ fuel ih =>
      rw [percolateDownLoop]
      split_ifs with hmove
      · obtain ⟨hparent, hlt, hleast⟩ := maxchild_spec pri q hmove.1
        have hne : maxchild pri q i ≠ i := by omega
        refine ih (place q i (q.d (maxchild pri q i))) (maxchild pri q i)
          (by omega) (by simpa using hlt) (by simp only [place_size]; omega)
          ?_
        rw [update_place_d q hne]
        refine horder.move hi hparent hlt ?_ ?_
        · intro other hother hsize
          have hother' : other ≠ i := by omega
          simpa [Function.update_of_ne hne, Function.update_of_ne hother']
            using hleast other hother hsize
        · simpa [Function.update_of_ne hne] using hmove.2
      · refine horder.finish ?_
        intro child hchild hlt
        have hne : child ≠ i := by omega
        simp only [Function.update_self, Function.update_of_ne hne]
        by_cases hzero : maxchild pri q i = 0
        · exact absurd (maxchild_eq_zero pri q hi hzero hchild) (by omega)
        · obtain ⟨_, _, hleast⟩ := maxchild_spec pri q hzero
          have hstop : pri movingNode ≤ pri (q.d (maxchild pri q i)) :=
            not_lt.mp fun hbad => hmove ⟨hzero, hbad⟩
          exact hstop.trans (hleast child hchild hlt)

/-! ## The operations -/

/-- A heap whose nodes are distinct and know their slots. -/
structure Valid (pri : ι → P) (q : Pqueue ι) : Prop where
  size_pos : 1 ≤ q.size
  ordered : Ordered (fun slot => pri (q.d slot)) q.size
  nodup : (elems q).Nodup
  pos_d : ∀ slot, 1 ≤ slot → slot < q.size → q.pos (q.d slot) = slot

omit [DecidableEq ι] in
theorem valid_pqueueInit (pri : ι → P) (node : ι) :
    Valid pri (pqueueInit node) where
  size_pos := le_rfl
  ordered := by
    intro slot hone hlt
    simp only [pqueueInit] at hlt
    omega
  nodup := List.nodup_nil
  pos_d := by
    intro slot hone hlt
    simp only [pqueueInit] at hlt
    omega

omit [DecidableEq ι] in
@[simp]
theorem elems_pqueueInit (node : ι) : elems (pqueueInit node) = [] := rfl

omit [DecidableEq ι] in
theorem length_elems (q : Pqueue ι) : (elems q).length = q.size - 1 :=
  length_contents q.d q.size

omit [DecidableEq ι] in
theorem Valid.pos_of_mem {pri : ι → P} {q : Pqueue ι} (h : Valid pri q)
    {node : ι} (hnode : node ∈ elems q) :
    1 ≤ q.pos node ∧ q.pos node < q.size ∧ q.d (q.pos node) = node := by
  obtain ⟨slot, hone, hlt, rfl⟩ := mem_contents.mp hnode
  rw [h.pos_d slot hone hlt]
  exact ⟨hone, hlt, rfl⟩

omit [DecidableEq ι] in
/-- The first slot holds a node of least priority. -/
theorem Valid.root_le {pri : ι → P} {q : Pqueue ι} (h : Valid pri q)
    {node : ι} (hnode : node ∈ elems q) : pri (q.d 1) ≤ pri node := by
  obtain ⟨slot, hone, hlt, rfl⟩ := mem_contents.mp hnode
  exact h.ordered.root_le slot hone hlt

omit [DecidableEq ι] in
/-- Only the priorities of the nodes in the queue matter. -/
theorem Valid.congr {pri pri' : ι → P} {q : Pqueue ι} (h : Valid pri q)
    (hpri : ∀ node ∈ elems q, pri' node = pri node) : Valid pri' q where
  size_pos := h.size_pos
  ordered slot hone hlt := by
    have hnode := hpri (q.d slot) (mem_contents.mpr
      ⟨slot, by omega, hlt, rfl⟩)
    have hparent := hpri (q.d (slot / 2)) (mem_contents.mpr
      ⟨slot / 2, by omega, by omega, rfl⟩)
    dsimp only
    rw [hnode, hparent]
    exact h.ordered slot hone hlt
  nodup := h.nodup
  pos_d := h.pos_d

theorem pqueueInsert_sifted (pri : ι → P) (q : Pqueue ι) (node : ι)
    (hsize : 1 ≤ q.size) :
    Sifted
      { q with d := Function.update q.d q.size node, size := q.size + 1 }
      q.size node (pqueueInsert pri q node) := by
  have h := bubbleUpLoop_sifted pri node q.size
    { q with d := Function.update q.d q.size node, size := q.size + 1 }
    q.size hsize (Nat.lt_succ_self _)
  simpa [pqueueInsert, bubbleUp] using h

/-- Insertion adds the node to the queue. -/
theorem elems_pqueueInsert (pri : ι → P) (q : Pqueue ι) (node : ι)
    (hsize : 1 ≤ q.size) :
    (elems (pqueueInsert pri q node)).Perm (elems q ++ [node]) := by
  refine (pqueueInsert_sifted pri q node hsize).perm.trans ?_
  dsimp only
  have hearlier : contents (Function.update q.d q.size node) q.size =
      contents q.d q.size :=
    contents_congr fun slot _ hlt => by rw [Function.update_of_ne (by omega)]
  rw [contents_succ _ hsize, Function.update_idem, Function.update_self,
    hearlier]
  rfl

theorem pqueueInsert_size (pri : ι → P) (q : Pqueue ι) (node : ι)
    (hsize : 1 ≤ q.size) : (pqueueInsert pri q node).size = q.size + 1 :=
  (pqueueInsert_sifted pri q node hsize).size

theorem pqueueInsert_valid {pri : ι → P} {q : Pqueue ι} (h : Valid pri q)
    {node : ι} (hnode : node ∉ elems q) :
    Valid pri (pqueueInsert pri q node) := by
  have hsift := pqueueInsert_sifted pri q node h.size_pos
  have hperm := elems_pqueueInsert pri q node h.size_pos
  have hnodup : (elems q ++ [node]).Nodup := by
    rw [List.nodup_append]
    refine ⟨h.nodup, List.nodup_singleton node, ?_⟩
    intro other hother last hlast
    rw [List.mem_singleton.mp hlast]
    rintro rfl
    exact hnode hother
  have htracked : Tracked
      { q with d := Function.update q.d q.size node, size := q.size + 1 }
      q.size node := by
    constructor
    · exact hsift.perm.nodup_iff.mp (hperm.nodup_iff.mpr hnodup)
    · intro slot hone hlt hoff
      dsimp only
      rw [Function.update_of_ne hoff]
      exact h.pos_d slot hone (by simp only at hlt; omega)
  refine ⟨by rw [hsift.size]; simp, ?_, hperm.nodup_iff.mpr hnodup, ?_⟩
  · rw [hsift.size]
    simp only [pqueueInsert, bubbleUp, Function.update_self]
    refine bubbleUpLoop_ordered pri node q.size _ q.size h.size_pos
      (Nat.lt_succ_self _) le_rfl ⟨?_, ?_⟩
    · intro slot hone hlt hoff
      have hparent : slot / 2 ≠ q.size := by
        simp only at hlt
        omega
      simp only [Function.update_of_ne hoff, Function.update_of_ne hparent]
      exact h.ordered slot hone (by simp only at hlt; omega)
    · intro _ child hchild hlt
      simp only at hlt
      omega
  · rw [hsift.size]
    exact hsift.tracked htracked

/-- Insertion touches no node outside the queue but the inserted one. -/
theorem pqueueInsert_pos (pri : ι → P) (q : Pqueue ι) (node : ι)
    (hsize : 1 ≤ q.size) {other : ι} (hother : other ∉ elems q)
    (hne : other ≠ node) :
    (pqueueInsert pri q node).pos other = q.pos other := by
  have hsift := pqueueInsert_sifted pri q node hsize
  refine hsift.frame other ?_
  rw [← hsift.perm.mem_iff, (elems_pqueueInsert pri q node hsize).mem_iff]
  simp [hother, hne]

omit [DecidableEq ι] in
theorem elems_eq_cons (q : Pqueue ι) (hsize : 2 ≤ q.size) :
    elems q = q.d 1 :: (List.range' 2 (q.size - 2)).map q.d := by
  obtain ⟨count, hcount⟩ := Nat.exists_eq_add_of_le hsize
  rw [elems, contents, hcount, show 2 + count - 1 = count + 1 by omega,
    show 2 + count - 2 = count by omega, List.range'_succ, List.map_cons]

/-- The queue `pqueue_pop` sifts: the last node has taken the first slot. -/
def popStart (q : Pqueue ι) : Pqueue ι :=
  { q with
    d := Function.update q.d 1 (q.d (q.size - 1))
    size := q.size - 1 }

omit [DecidableEq ι] in
theorem contents_popStart (q : Pqueue ι) (hsize : 2 ≤ q.size) :
    (q.d 1 :: elems (popStart q)).Perm (elems q) := by
  have hlast := @contents_succ _ q.d (q.size - 1) (by omega)
  rw [show q.size - 1 + 1 = q.size by omega] at hlast
  by_cases htwo : q.size = 2
  · simp [elems, popStart, contents, htwo]
  have hold := elems_eq_cons ⟨q.d, q.size - 1, q.pos⟩ (by simp only; omega)
  have hnew := elems_eq_cons (popStart q) (by simp only [popStart]; omega)
  have hrest : (List.range' 2 ((popStart q).size - 2)).map (popStart q).d =
      (List.range' 2 (q.size - 1 - 2)).map q.d := by
    apply List.map_congr_left
    intro slot hslot
    rw [List.mem_range'_1] at hslot
    simp only [popStart]
    rw [Function.update_of_ne (by omega)]
  rw [hnew, hrest, elems, hlast]
  simp only [elems] at hold
  rw [hold]
  simp only [popStart, Function.update_self, List.cons_append]
  exact List.Perm.cons _ (List.perm_append_singleton _ _).symm

theorem pqueuePop_of_size (pri : ι → P) (q : Pqueue ι) (hsize : 2 ≤ q.size) :
    pqueuePop pri q = (some (q.d 1), percolateDown pri (popStart q) 1) := by
  rw [pqueuePop, if_neg (by omega)]
  rfl

/-- Popping removes the first node, whatever the order of the queue. -/
theorem elems_pqueuePop (pri : ι → P) (q : Pqueue ι) (hsize : 2 ≤ q.size) :
    (q.d 1 :: elems (pqueuePop pri q).2).Perm (elems q) := by
  rw [pqueuePop_of_size pri q hsize]
  by_cases htwo : q.size = 2
  · have hnil : elems (percolateDown pri (popStart q) 1) = [] := by
      simp [percolateDown, percolateDownLoop, popStart, htwo, maxchild, left,
        elems, contents]
    rw [hnil, elems_eq_cons q hsize, htwo]
    simp
  have hsift := percolateDownLoop_sifted pri ((popStart q).d 1)
    (popStart q).size (popStart q) 1 le_rfl (by simp only [popStart]; omega)
  have hperm := hsift.perm
  rw [Function.update_eq_self] at hperm
  exact (hperm.cons (q.d 1)).trans (contents_popStart q hsize)

theorem pqueuePop_size (pri : ι → P) (q : Pqueue ι) (hsize : 2 ≤ q.size) :
    (pqueuePop pri q).2.size = q.size - 1 := by
  have hlength := (elems_pqueuePop pri q hsize).length_eq
  rw [List.length_cons, length_elems, length_elems] at hlength
  by_cases htwo : q.size = 2
  · rw [pqueuePop_of_size pri q hsize]
    simp [percolateDown, percolateDownLoop, popStart, htwo, maxchild, left]
  · omega

theorem pqueuePop_valid {pri : ι → P} {q : Pqueue ι} (h : Valid pri q)
    (hsize : 2 ≤ q.size) : Valid pri (pqueuePop pri q).2 := by
  have hperm := elems_pqueuePop pri q hsize
  have hnodup : (elems (pqueuePop pri q).2).Nodup :=
    (List.nodup_cons.mp (hperm.nodup_iff.mpr h.nodup)).2
  have hnewSize := pqueuePop_size pri q hsize
  by_cases htwo : q.size = 2
  · refine ⟨by omega, ?_, hnodup, ?_⟩ <;> intro slot hone hlt <;> omega
  have hstart : 1 < (popStart q).size := by
    simp only [popStart]
    omega
  have hsift := percolateDownLoop_sifted pri ((popStart q).d 1)
    (popStart q).size (popStart q) 1 le_rfl hstart
  have htracked : Tracked (popStart q) 1 ((popStart q).d 1) := by
    constructor
    · rw [Function.update_eq_self]
      exact (List.nodup_cons.mp
        ((contents_popStart q hsize).nodup_iff.mpr h.nodup)).2
    · intro slot hone hlt hoff
      simp only [popStart, Function.update_of_ne hoff] at hlt ⊢
      exact h.pos_d slot hone (by omega)
  rw [pqueuePop_of_size pri q hsize] at hnodup hnewSize ⊢
  refine ⟨by omega, ?_, hnodup, ?_⟩
  · have hsame : (percolateDown pri (popStart q) 1).size =
        (popStart q).size := hsift.size
    rw [hsame]
    refine percolateDownLoop_ordered pri ((popStart q).d 1)
      (popStart q).size (popStart q) 1 le_rfl hstart (by omega) ⟨?_, ?_⟩
    · intro slot hone hlt hoff
      have hslot : slot ≠ 1 := by omega
      simp only [popStart, Function.update_of_ne hslot,
        Function.update_of_ne hoff] at hlt ⊢
      exact h.ordered slot hone (by omega)
    · intro hone
      omega
  · intro slot hone hlt
    exact hsift.tracked htracked slot hone (by rw [← hsift.size]; exact hlt)

/-- Popping touches no node outside the queue. -/
theorem pqueuePop_pos (pri : ι → P) (q : Pqueue ι) (hsize : 2 ≤ q.size)
    {other : ι} (hother : other ∉ elems q) :
    (pqueuePop pri q).2.pos other = q.pos other := by
  rw [pqueuePop_of_size pri q hsize]
  by_cases htwo : q.size = 2
  · have hne : other ≠ q.d 1 := by
      rintro rfl
      exact hother (mem_contents.mpr ⟨1, le_rfl, by omega, rfl⟩)
    simp [percolateDown, percolateDownLoop, popStart, htwo, maxchild, left,
      place, Function.update_of_ne hne]
  have hsift := percolateDownLoop_sifted pri ((popStart q).d 1)
    (popStart q).size (popStart q) 1 le_rfl (by simp only [popStart]; omega)
  refine hsift.frame other ?_
  rw [Function.update_eq_self]
  intro hmem
  exact hother ((contents_popStart q hsize).mem_iff.mp
    (List.mem_cons_of_mem _ hmem))

/-- Lowering the priority of a node in the queue keeps the queue a heap of the
same nodes. -/
theorem pqueueChangePriority_valid {pri : ι → P} {q : Pqueue ι}
    (h : Valid pri q) {node : ι} (hnode : node ∈ elems q) {newPri : P}
    (hlower : newPri < pri node) :
    Valid (Function.update pri node newPri)
        (pqueueChangePriority pri q newPri node).2 ∧
      (elems (pqueueChangePriority pri q newPri node).2).Perm (elems q) ∧
      ∀ other, other ∉ elems q →
        (pqueueChangePriority pri q newPri node).2.pos other =
          q.pos other := by
  obtain ⟨hone, hlt, hd⟩ := h.pos_of_mem hnode
  have hrun : (pqueueChangePriority pri q newPri node).2 =
      bubbleUp (Function.update pri node newPri) q (q.pos node) := by
    rw [pqueueChangePriority, if_pos hlower]
  rw [hrun, bubbleUp, hd]
  have hself : Function.update q.d (q.pos node) node = q.d := by
    conv_lhs => rw [← hd, h.pos_d _ hone hlt]
    exact Function.update_eq_self _ _
  have hsift := bubbleUpLoop_sifted (Function.update pri node newPri) node
    (q.pos node) q (q.pos node) hone hlt
  have hperm := hsift.perm
  rw [hself] at hperm
  have hkey : ∀ slot, 1 ≤ slot → slot < q.size → slot ≠ q.pos node →
      q.d slot ≠ node := by
    intro slot hslot hsize hoff heq
    exact hoff (by rw [← heq, h.pos_d slot hslot hsize])
  have hle : ∀ other, Function.update pri node newPri other ≤ pri other := by
    intro other
    by_cases heq : other = node
    · rw [heq, Function.update_self]
      exact hlower.le
    · rw [Function.update_of_ne heq]
  refine ⟨⟨by rw [hsift.size]; exact h.size_pos, ?_,
    hperm.nodup_iff.mpr h.nodup, ?_⟩, hperm, ?_⟩
  · rw [hsift.size]
    refine bubbleUpLoop_ordered _ node (q.pos node) q (q.pos node) hone hlt
      le_rfl ⟨?_, ?_⟩
    · intro slot hslot hsize hoff
      rw [hself, Function.update_of_ne (hkey slot (by omega) hsize hoff)]
      exact (hle _).trans (h.ordered slot hslot hsize)
    · intro hroot child hchild hsize
      rw [hself, Function.update_of_ne
        (hkey child (by omega) hsize (by omega))]
      have hup := h.ordered (q.pos node) hroot hlt
      have hdown := h.ordered child (by omega) hsize
      rw [hchild] at hdown
      exact (hle _).trans (hup.trans hdown)
  · rw [hsift.size]
    refine hsift.tracked ⟨by rw [hself]; exact h.nodup, ?_⟩
    intro slot hslot hsize _
    exact h.pos_d slot hslot hsize
  · intro other hother
    exact hsift.frame other (by rw [hself]; exact hother)

/-- A heap whose count is right, and whose nodes are exactly those with a
position. -/
structure Queue (pri : ι → P) (q : Pqueue ι) (count : ℕ) : Prop where
  valid : Valid pri q
  pos_zero : ∀ node, node ∉ elems q → q.pos node = 0
  count_eq : count = (elems q).length

theorem Queue.insert {pri : ι → P} {q : Pqueue ι} {count : ℕ}
    (h : Queue pri q count) {node : ι} (hnode : node ∉ elems q) :
    Queue pri (pqueueInsert pri q node) (count + 1) where
  valid := pqueueInsert_valid h.valid hnode
  pos_zero other hother := by
    rw [(elems_pqueueInsert pri q node h.valid.size_pos).mem_iff,
      List.mem_append, List.mem_singleton, not_or] at hother
    rw [pqueueInsert_pos pri q node h.valid.size_pos hother.1 hother.2]
    exact h.pos_zero other hother.1
  count_eq := by
    rw [(elems_pqueueInsert pri q node h.valid.size_pos).length_eq,
      List.length_append, h.count_eq]
    rfl

/-- Popping, with the position of the popped node reset. -/
theorem Queue.pop {pri : ι → P} {q : Pqueue ι} {count : ℕ}
    (h : Queue pri q count) (hsize : q.size ≠ 1) :
    Queue pri
      { (pqueuePop pri q).2 with
        pos := Function.update (pqueuePop pri q).2.pos (q.d 1) 0 }
      (count - 1) := by
  have htwo : 2 ≤ q.size := by
    have := h.valid.size_pos
    omega
  have hperm := elems_pqueuePop pri q htwo
  have hpop := pqueuePop_valid h.valid htwo
  have hroot : q.d 1 ∉ elems (pqueuePop pri q).2 :=
    (List.nodup_cons.mp (hperm.nodup_iff.mpr h.valid.nodup)).1
  refine ⟨⟨hpop.size_pos, hpop.ordered, hpop.nodup, ?_⟩, ?_, ?_⟩
  · intro slot hone hlt
    dsimp only at hlt ⊢
    rw [Function.update_of_ne, hpop.pos_d slot hone hlt]
    intro heq
    exact hroot (heq ▸ mem_contents.mpr ⟨slot, hone, hlt, rfl⟩)
  · intro other hother
    change other ∉ elems (pqueuePop pri q).2 at hother
    by_cases heq : other = q.d 1
    · rw [heq]
      exact Function.update_self _ _ _
    · have hout : other ∉ elems q := by
        rw [← hperm.mem_iff, List.mem_cons, not_or]
        exact ⟨heq, hother⟩
      dsimp only
      rw [Function.update_of_ne heq, pqueuePop_pos pri q htwo hout]
      exact h.pos_zero other hout
  · have hlength := hperm.length_eq
    rw [List.length_cons] at hlength
    rw [h.count_eq, ← hlength, Nat.add_sub_cancel]
    rfl

theorem Queue.lower {pri : ι → P} {q : Pqueue ι} {count : ℕ}
    (h : Queue pri q count) {node : ι} (hnode : node ∈ elems q) {newPri : P}
    (hlower : newPri < pri node) :
    Queue (Function.update pri node newPri)
      (pqueueChangePriority pri q newPri node).2 count := by
  obtain ⟨hvalid, hperm, hpos⟩ :=
    pqueueChangePriority_valid h.valid hnode hlower
  refine ⟨hvalid, fun other hother => ?_, ?_⟩
  · rw [hperm.mem_iff] at hother
    rw [hpos other hother, h.pos_zero other hother]
  · rw [hperm.length_eq, h.count_eq]

omit [DecidableEq ι] in
theorem Queue.congr {pri pri' : ι → P} {q : Pqueue ι} {count : ℕ}
    (h : Queue pri q count) (hpri : ∀ node ∈ elems q, pri' node = pri node) :
    Queue pri' q count :=
  ⟨h.valid.congr hpri, h.pos_zero, h.count_eq⟩

/-- The priority of a node outside the queue is free to change. -/
theorem Queue.setPri {pri : ι → P} {q : Pqueue ι} {count : ℕ}
    (h : Queue pri q count) {node : ι} (hnode : node ∉ elems q)
    (newPri : P) : Queue (Function.update pri node newPri) q count :=
  h.congr fun other hother => by
    rw [Function.update_of_ne]
    rintro rfl
    exact hnode hother

omit [DecidableEq ι] in
/-- A node has a position exactly when it is in the queue, and the position is
its slot. -/
theorem Queue.pos_ne_zero_iff {pri : ι → P} {q : Pqueue ι} {count : ℕ}
    (h : Queue pri q count) (node : ι) :
    q.pos node ≠ 0 ↔ node ∈ elems q := by
  constructor
  · intro hpos
    by_contra hout
    exact hpos (h.pos_zero node hout)
  · intro hnode
    have hslot := (h.valid.pos_of_mem hnode).1
    omega

end NvmeVirt.VictimQueue
