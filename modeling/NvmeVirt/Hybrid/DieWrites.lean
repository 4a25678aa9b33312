import NvmeVirt.Hybrid.Startup

/-!
# Host writes to the dies

The pages that `get_new_page_DA` and `advance_write_pointer_DA` hand out.  A
write pointer's channel and lun come from the number of the die and the number
of all channels; the address folds them into the SLC channels.  Only the dies
that the folding leaves alone get pages of their own.
-/

namespace NvmeVirt.DieWrites

open NvmeVirt.HybridConfig
open NvmeVirt.HybridMapping
open NvmeVirt.HybridStartup
open NvmeVirt.Kernel
open NvmeVirt.Layout
open NvmeVirt.Mapping (LineMgmt WritePointer Ftl getNextFreeLine getGlun
  lineInvalidate lineMarkValid listDelInit decrementVpc)
open NvmeVirt.MixedRadix
open NvmeVirt.Startup
open NvmeVirt.Timing
open NvmeVirt.Transition
open NvmeVirt.VictimQueue

variable {h : HybridGeometry}

/-! ## Runs -/

/-- A page taken from a die, or a change of a page's status.  The latter
decides how a die closes its lines. -/
inductive DieAction
  | write (die : ℕ)
  | markValid (ppa : Ppa)
  | markInvalid (ppa : Ppa)

/-- The state of a run; `written` holds the pages taken so far and the dies
they were taken from.  The latter is history. -/
structure DieRun (h : HybridGeometry) where
  state : HybridFtl h
  written : List (ℕ × Ppa)

/-- One action; a write sends `lunpointer` to its die first. -/
def dieStep (r : DieRun h) : DieAction → Except Fault (DieRun h)
  | .write die => do
      let s := { r.state with lunpointer := die }
      let ppa ← getNewPageDA s .user
      let s ← advanceWritePointerDA s .user
      return { state := s, written := r.written ++ [(die, ppa)] }
  | .markValid ppa => do
      let s ← markPageValid r.state ppa
      return { r with state := s }
  | .markInvalid ppa => do
      let s ← markPageInvalid r.state ppa
      return { r with state := s }

/-- The folding keeps the channel and the lun of the die. -/
def Unfolded (h : HybridGeometry) (die : ℕ) : Prop :=
  die % h.nchs < h.slcChannels ∧ die / h.nchs < h.slcLunsPerCh

/-- The pages taken are distinct, and belong to the dies they were taken
from. -/
structure OwnPages (r : DieRun h) : Prop where
  distinct : (r.written.map Prod.snd).Nodup
  belongs : ∀ entry ∈ r.written, getGlun h.toGeometry entry.2 = entry.1

/-! ## One step -/

theorem slcPgsPerBlk_pos (h : HybridGeometry) : 0 < h.slcPgsPerBlk := by
  rw [h.slcPgsPerBlk_eq]
  exact Nat.mul_pos h.slcPgsPerOneshotpg_pos h.slcOneshotpgsPerBlk_pos

/-- A die as the write path sees it: its write pointer and its free lines. -/
structure DieView where
  wp : WritePointer
  free : List ℕ

/-- The view of the die `die`. -/
def dieView (s : HybridFtl h) (die : ℕ) : DieView where
  wp := s.lunwp die
  free := (s.lunlm die).freeLineList

/-- An advance stays in the block, or takes the next free line. -/
inductive ViewStep (h : HybridGeometry) : DieView → DieView → Prop
  | within (view : DieView) (hpg : view.wp.pg + 1 < h.slcPgsPerBlk) :
      ViewStep h view
        { view with wp := { view.wp with pg := view.wp.pg + 1 } }
  | switched (wp : WritePointer) (next : ℕ) (rest : List ℕ) :
      ViewStep h ⟨wp, next :: rest⟩
        ⟨{ wp with curline := some next, blk := next, pg := 0 }, rest⟩

theorem closeLineDA_freeLineList {lm lm' : LineMgmt} {line : ℕ}
    (hrun : closeLineDA h lm line = .ok lm') :
    lm'.freeLineList = lm.freeLineList := by
  rw [closeLineDA] at hrun
  split_ifs at hrun
  · obtain ⟨-, -, hrun⟩ := bind_eq_ok hrun
    cases hrun
    rfl
  · obtain ⟨-, -, hrun⟩ := bind_eq_ok hrun
    obtain ⟨-, -, hrun⟩ := bind_eq_ok hrun
    cases hrun
    rfl

theorem dieView_update (s : HybridFtl h) (die : ℕ) (lm : LineMgmt)
    (wpp : WritePointer) :
    dieView (setWpDA { s with lunlm := Function.update s.lunlm die lm } wpp
      .user die) = Function.update (dieView s) die ⟨wpp, lm.freeLineList⟩ := by
  funext other
  by_cases hother : other = die
  · subst hother
    simp [dieView, setWpDA]
  · simp [dieView, setWpDA, Function.update_of_ne hother]

/-- What an advance leaves: the next page of the block, or the next free line
in the place of the one it closes. -/
inductive AdvancedDA (s : HybridFtl h) : HybridFtl h → Prop
  | within (lunpointer : ℕ)
      (hpg : (s.lunwp s.lunpointer).pg + 1 < h.slcPgsPerBlk) :
      AdvancedDA s
        { s with
          lunwp := Function.update s.lunwp s.lunpointer
            { s.lunwp s.lunpointer with
              pg := (s.lunwp s.lunpointer).pg + 1 }
          lunpointer := lunpointer }
  | switched (lunpointer line next : ℕ) (rest : List ℕ) (lm : LineMgmt)
      (hline : (s.lunwp s.lunpointer).curline = some line)
      (hclose : closeLineDA h (s.lunlm s.lunpointer) line = .ok lm)
      (hfree : lm.freeLineList = next :: rest) :
      AdvancedDA s
        { s with
          lunlm := Function.update s.lunlm s.lunpointer
            { lm with
              freeLineList := rest, freeLineCnt := lm.freeLineCnt - 1 }
          lunwp := Function.update s.lunwp s.lunpointer
            { s.lunwp s.lunpointer with
              curline := some next, blk := next, pg := 0 }
          lunpointer := lunpointer }

theorem advanceWritePointerDA_cases {s s' : HybridFtl h}
    (hrun : advanceWritePointerDA s .user = .ok s') : AdvancedDA s s' := by
  rw [advanceWritePointerDA] at hrun
  obtain ⟨_, hassert, hrun⟩ := bind_eq_ok hrun
  have hlt : (s.lunwp s.lunpointer).pg < h.slcPgsPerBlk :=
    of_nvmevAssert hassert
  dsimp only [getWpDA] at hrun
  split_ifs at hrun with honeshot hblock
  · -- a block does not end within a oneshot page
    have hne : (s.lunwp s.lunpointer).pg + 1 ≠ h.slcPgsPerBlk := by
      intro heq
      rw [heq, h.slcPgsPerBlk_eq, Nat.mul_mod_right] at honeshot
      exact honeshot rfl
    cases hrun
    exact .within s.lunpointer (by omega)
  · cases hcurline : (s.lunwp s.lunpointer).curline with
    | none =>
        rw [hcurline] at hrun
        cases hrun
    | some line =>
        rw [hcurline] at hrun
        obtain ⟨after, hswitch, hrun⟩ := bind_eq_ok hrun
        rw [switchLineDA] at hswitch
        obtain ⟨lm, hclose, hswitch⟩ := bind_eq_ok hswitch
        obtain ⟨-, -, hswitch⟩ := bind_eq_ok hswitch
        rw [getNextFreeLine] at hswitch
        cases hfree : lm.freeLineList with
        | nil =>
            rw [hfree] at hswitch
            cases hswitch
        | cons next rest =>
            rw [hfree] at hswitch
            obtain ⟨-, -, hswitch⟩ := bind_eq_ok hswitch
            cases hswitch
            cases hrun
            exact .switched _ line next rest lm hcurline hclose hfree
  · cases hrun
    exact .within _ (by omega)

/-- An advance is a step of the die `lunpointer` alone. -/
theorem advance_view {s s' : HybridFtl h}
    (hrun : advanceWritePointerDA s .user = .ok s') :
    ∃ view, ViewStep h (dieView s s.lunpointer) view ∧
      dieView s' = Function.update (dieView s) s.lunpointer view := by
  cases advanceWritePointerDA_cases hrun with
  | within lunpointer hpg =>
      have hview := dieView_update s s.lunpointer (s.lunlm s.lunpointer)
        { s.lunwp s.lunpointer with pg := (s.lunwp s.lunpointer).pg + 1 }
      rw [Function.update_eq_self] at hview
      exact ⟨_, .within (dieView s s.lunpointer) hpg, hview⟩
  | switched lunpointer line next rest lm hline hclose hfree =>
      have hstep := ViewStep.switched (h := h) (s.lunwp s.lunpointer) next rest
      rw [← hfree, closeLineDA_freeLineList hclose] at hstep
      exact ⟨_, hstep, dieView_update s _ _ _⟩

theorem decrementVpc_freeLineList (lm : LineMgmt) (line : ℕ) :
    (decrementVpc lm line).freeLineList = lm.freeLineList := by
  rw [decrementVpc]
  split_ifs <;> rfl

/-- Invalidating a page leaves the free lines, or takes one off the list. -/
theorem lineInvalidate_free {lm lm' : LineMgmt} {line : ℕ}
    (hrun : lineInvalidate h.toGeometry lm line = .ok lm') :
    lm'.freeLineList.Sublist lm.freeLineList := by
  rw [lineInvalidate] at hrun
  obtain ⟨-, -, hrun⟩ := bind_eq_ok hrun
  obtain ⟨-, -, hrun⟩ := bind_eq_ok hrun
  obtain ⟨-, -, hrun⟩ := bind_eq_ok hrun
  split_ifs at hrun with hfull
  · cases hrun
    dsimp only [listDelInit]
    rw [decrementVpc_freeLineList]
    exact List.erase_sublist
  · cases hrun
    rw [decrementVpc_freeLineList]

/-- A change of a page's status leaves the write pointers of the dies, and
adds no free line. -/
def MarkFrame (s s' : HybridFtl h) : Prop :=
  ∀ die, (dieView s' die).wp = (dieView s die).wp ∧
    (dieView s' die).free.Sublist (dieView s die).free

theorem markFrame_update {s s' : HybridFtl h} {die : ℕ} {lm : LineMgmt}
    (hlunwp : s'.lunwp = s.lunwp)
    (hlunlm : s'.lunlm = Function.update s.lunlm die lm)
    (hsub : lm.freeLineList.Sublist (s.lunlm die).freeLineList) :
    MarkFrame s s' := by
  intro other
  refine ⟨congrFun hlunwp other, ?_⟩
  dsimp only [dieView]
  rw [hlunlm]
  by_cases hother : other = die
  · subst hother
    rwa [Function.update_self]
  · rw [Function.update_of_ne hother]

theorem markPageValid_frame {s s' : HybridFtl h} {ppa : Ppa}
    (hrun : markPageValid s ppa = .ok s') : MarkFrame s s' := by
  obtain ⟨-, -, hlunwp, -, hlunlm⟩ := markPageValid_eq_ok hrun
  exact markFrame_update hlunwp hlunlm (List.Sublist.refl _)

theorem markPageInvalid_frame {s s' : HybridFtl h} {ppa : Ppa}
    (hrun : markPageInvalid s ppa = .ok s') : MarkFrame s s' := by
  obtain ⟨-, lm, lunlm, -, hlunlm, rfl⟩ := markPageInvalid_eq_ok hrun
  exact markFrame_update rfl rfl (lineInvalidate_free hlunlm)

/-! ## The invariant of a die -/

/-- The write pointer of the die is at a line that is not free. -/
structure DieAt (h : HybridGeometry) (die : ℕ) (view : DieView) : Prop where
  ch_eq : view.wp.ch = die % h.nchs
  lun_eq : view.wp.lun = die / h.nchs
  pl_eq : view.wp.pl = 0
  pg_lt : view.wp.pg < h.slcPgsPerBlk
  blk_lt : view.wp.blk < h.blksPerPl
  blk_notMem : view.wp.blk ∉ view.free
  free_nodup : view.free.Nodup
  free_lt : ∀ line ∈ view.free, line < h.blksPerPl

/-- The page was taken before: its block is not free any more, and in the open
block it lies before the write pointer. -/
structure Behind (view : DieView) (ppa : Ppa) : Prop where
  blk_notMem : ppa.blk ∉ view.free
  pg_lt : ppa.blk = view.wp.blk → ppa.pg < view.wp.pg

/-- The page under a write pointer of the die. -/
def pageOf (h : HybridGeometry) (die : ℕ) (wpp : WritePointer) : Ppa where
  ch := die % h.nchs % h.slcChannels
  lun := die / h.nchs % h.slcLunsPerCh
  pl := 0
  blk := wpp.blk
  pg := wpp.pg

theorem DieAt.newPage {s : HybridFtl h} {die : ℕ}
    (hat : DieAt h die (dieView s die)) :
    getNewPageDA { s with lunpointer := die } .user =
      .ok (pageOf h die (s.lunwp die)) := by
  have hpack : packPpa ((s.lunwp die).ch % h.slcChannels)
      ((s.lunwp die).lun % h.slcLunsPerCh) (s.lunwp die).pl (s.lunwp die).blk
      (s.lunwp die).pg = pageOf h die (s.lunwp die) := by
    have hch : (s.lunwp die).ch = die % h.nchs := hat.ch_eq
    have hlun : (s.lunwp die).lun = die / h.nchs := hat.lun_eq
    have hpl : (s.lunwp die).pl = 0 := hat.pl_eq
    rw [hch, hlun, hpl, packPpa_of_lt]
    · rfl
    · have hlt := Nat.mod_lt (die % h.nchs) h.slcChannels_pos
      have hbits := h.channels_le
      omega
    · exact (Nat.mod_lt _ h.slcLunsPerCh_pos).trans_le h.slcLunsPerCh_le
    · exact Nat.two_pow_pos plBits
    · exact hat.blk_lt.trans_le h.blksPerPl_le
    · exact hat.pg_lt.trans_le h.slcPgsPerBlk_le
  exact getNewPageDA_of hpack (Nat.mod_lt _ h.slcChannels_pos) rfl

theorem DieAt.sublist {die : ℕ} {view view' : DieView}
    (hat : DieAt h die view) (hwp : view'.wp = view.wp)
    (hsub : view'.free.Sublist view.free) : DieAt h die view' := by
  obtain ⟨wp, free⟩ := view
  obtain ⟨wp', free'⟩ := view'
  cases hwp
  exact
    { hat with
      blk_notMem := fun hmem => hat.blk_notMem (hsub.subset hmem)
      free_nodup := hsub.nodup hat.free_nodup
      free_lt := fun line hline => hat.free_lt line (hsub.subset hline) }

theorem Behind.sublist {view view' : DieView} {ppa : Ppa}
    (hbehind : Behind view ppa) (hwp : view'.wp = view.wp)
    (hsub : view'.free.Sublist view.free) : Behind view' ppa where
  blk_notMem := fun hmem => hbehind.blk_notMem (hsub.subset hmem)
  pg_lt := by
    rw [hwp]
    exact hbehind.pg_lt

theorem DieAt.step {die : ℕ} {view view' : DieView} (hat : DieAt h die view)
    (hstep : ViewStep h view view') : DieAt h die view' := by
  cases hstep with
  | within _ hpg => exact { hat with pg_lt := hpg }
  | switched wp next rest =>
      have hnodup := List.nodup_cons.mp hat.free_nodup
      exact
        { ch_eq := hat.ch_eq
          lun_eq := hat.lun_eq
          pl_eq := hat.pl_eq
          pg_lt := slcPgsPerBlk_pos h
          blk_lt := hat.free_lt next List.mem_cons_self
          blk_notMem := hnodup.1
          free_nodup := hnodup.2
          free_lt := fun line hline =>
            hat.free_lt line (List.mem_cons_of_mem next hline) }

theorem Behind.step {view view' : DieView} {ppa : Ppa}
    (hbehind : Behind view ppa) (hstep : ViewStep h view view') :
    Behind view' ppa := by
  cases hstep with
  | within _ hpg =>
      exact ⟨hbehind.blk_notMem, fun heq => (hbehind.pg_lt heq).trans
        (Nat.lt_succ_self _)⟩
  | switched wp next rest =>
      have hnot := hbehind.blk_notMem
      refine ⟨fun hmem => hnot (List.mem_cons_of_mem next hmem), ?_⟩
      exact fun heq => absurd (List.mem_cons.mpr (.inl heq)) hnot

/-- The page under the pointer is behind it after the step. -/
theorem DieAt.behind {die : ℕ} {view view' : DieView} (hat : DieAt h die view)
    (hstep : ViewStep h view view') :
    Behind view' (pageOf h die view.wp) := by
  cases hstep with
  | within _ hpg => exact ⟨hat.blk_notMem, fun _ => Nat.lt_succ_self _⟩
  | switched wp next rest =>
      have hnot := hat.blk_notMem
      refine ⟨fun hmem => hnot (List.mem_cons_of_mem next hmem), ?_⟩
      exact fun heq => absurd (List.mem_cons.mpr (.inl heq)) hnot

/-! ## The invariant of a run -/

/-- The coordinates that every page of the die has. -/
def OnDie (h : HybridGeometry) (die : ℕ) (ppa : Ppa) : Prop :=
  ppa.ch = die % h.nchs % h.slcChannels ∧
    ppa.lun = die / h.nchs % h.slcLunsPerCh

/-- What holds all along a run. -/
structure RunInv (r : DieRun h) : Prop where
  dieAt : ∀ die < luncount h, DieAt h die (dieView r.state die)
  behind : ∀ entry ∈ r.written,
    OnDie h entry.1 entry.2 ∧ Behind (dieView r.state entry.1) entry.2
  nodup : r.written.Nodup

/-- A write to a die below the number of dies; the other actions change no
page's place. -/
def DieAction.Valid (h : HybridGeometry) : DieAction → Prop
  | .write die => die < luncount h
  | _ => True

theorem RunInv.mark {r : DieRun h} (hinv : RunInv r) {s' : HybridFtl h}
    (hframe : MarkFrame r.state s') : RunInv { r with state := s' } where
  dieAt die hdie :=
    (hinv.dieAt die hdie).sublist (hframe die).1 (hframe die).2
  behind entry hentry :=
    ⟨(hinv.behind entry hentry).1,
      (hinv.behind entry hentry).2.sublist (hframe entry.1).1
        (hframe entry.1).2⟩
  nodup := hinv.nodup

theorem RunInv.write {r : DieRun h} (hinv : RunInv r) {die : ℕ}
    (hdie : die < luncount h) {s' : HybridFtl h} {view : DieView}
    (hstep : ViewStep h (dieView r.state die) view)
    (hview : dieView s' = Function.update (dieView r.state) die view) :
    RunInv { state := s', written :=
      r.written ++ [(die, pageOf h die (r.state.lunwp die))] } := by
  have hat := hinv.dieAt die hdie
  refine ⟨?_, ?_, ?_⟩
  · intro other hother
    rw [hview]
    by_cases heq : other = die
    · rw [heq, Function.update_self]
      exact hat.step hstep
    · rw [Function.update_of_ne heq]
      exact hinv.dieAt other hother
  · intro entry hentry
    rw [hview]
    obtain hold | hnew := List.mem_append.mp hentry
    · obtain ⟨honDie, hbehind⟩ := hinv.behind entry hold
      refine ⟨honDie, ?_⟩
      by_cases heq : entry.1 = die
      · rw [heq] at hbehind
        rw [heq, Function.update_self]
        exact hbehind.step hstep
      · rw [Function.update_of_ne heq]
        exact hbehind
    · rw [List.mem_singleton.mp hnew, Function.update_self]
      exact ⟨⟨rfl, rfl⟩, hat.behind hstep⟩
  · rw [List.nodup_append]
    refine ⟨hinv.nodup, List.nodup_singleton _, ?_⟩
    intro entry hentry last hlast heq
    rw [heq, List.mem_singleton.mp hlast] at hentry
    have hbehind := (hinv.behind _ hentry).2
    exact Nat.lt_irrefl _ (hbehind.pg_lt rfl)

theorem RunInv.step {r r' : DieRun h} (hinv : RunInv r)
    {action : DieAction} (hvalid : action.Valid h)
    (hrun : dieStep r action = .ok r') : RunInv r' := by
  cases action with
  | write die =>
      obtain ⟨ppa, hpage, hrun⟩ := bind_eq_ok hrun
      obtain ⟨s', hadvance, hrun⟩ := bind_eq_ok hrun
      obtain ⟨view, hstep, hview⟩ := advance_view hadvance
      cases hrun
      rw [(hinv.dieAt die hvalid).newPage] at hpage
      cases hpage
      exact hinv.write hvalid hstep hview
  | markValid ppa =>
      obtain ⟨s', hmark, hrun⟩ := bind_eq_ok hrun
      cases hrun
      exact hinv.mark (markPageValid_frame hmark)
  | markInvalid ppa =>
      obtain ⟨s', hmark, hrun⟩ := bind_eq_ok hrun
      cases hrun
      exact hinv.mark (markPageInvalid_frame hmark)

/-- The dies that the writes of the run are for. -/
def diesOf : List DieAction → List ℕ
  | [] => []
  | .write die :: actions => die :: diesOf actions
  | .markValid _ :: actions => diesOf actions
  | .markInvalid _ :: actions => diesOf actions

theorem dieStep_dies {r r' : DieRun h} {action : DieAction}
    (hrun : dieStep r action = .ok r') :
    r'.written.map Prod.fst = r.written.map Prod.fst ++ diesOf [action] := by
  cases action with
  | write die =>
      obtain ⟨ppa, -, hrun⟩ := bind_eq_ok hrun
      obtain ⟨s', -, hrun⟩ := bind_eq_ok hrun
      cases hrun
      simp [diesOf]
  | markValid ppa =>
      obtain ⟨s', -, hrun⟩ := bind_eq_ok hrun
      cases hrun
      simp [diesOf]
  | markInvalid ppa =>
      obtain ⟨s', -, hrun⟩ := bind_eq_ok hrun
      cases hrun
      simp [diesOf]

theorem diesOf_cons (action : DieAction) (actions : List DieAction) :
    diesOf (action :: actions) = diesOf [action] ++ diesOf actions := by
  cases action <;> rfl

theorem RunInv.run {r r' : DieRun h} (hinv : RunInv r)
    {actions : List DieAction}
    (hvalid : ∀ die ∈ diesOf actions, die < luncount h)
    (hrun : actions.foldlM dieStep r = .ok r') :
    RunInv r' ∧
      r'.written.map Prod.fst = r.written.map Prod.fst ++ diesOf actions := by
  induction actions generalizing r with
  | nil =>
      cases hrun
      exact ⟨hinv, (List.append_nil _).symm⟩
  | cons action actions ih =>
      rw [List.foldlM_cons] at hrun
      obtain ⟨next, hstep, hrest⟩ := bind_eq_ok hrun
      rw [diesOf_cons] at hvalid
      have haction : action.Valid h := by
        cases action with
        | write die => exact hvalid die (by simp [diesOf])
        | markValid ppa => trivial
        | markInvalid ppa => trivial
      obtain ⟨hfinal, hdies⟩ := ih (hinv.step haction hstep)
        (fun die hdie => hvalid die (List.mem_append_right _ hdie)) hrest
      refine ⟨hfinal, ?_⟩
      rw [hdies, dieStep_dies hstep, diesOf_cons action actions,
        List.append_assoc]

/-! ## The prepared state -/

/-- A die at the first page of its first line. -/
def preparedView (h : HybridGeometry) (die : ℕ) : DieView where
  wp :=
    { curline := some 0, ch := die % h.nchs, lun := die / h.nchs, pg := 0,
      blk := 0, pl := 0 }
  free := List.range' 1 (h.blksPerPl - 1)

theorem preparedView_dieAt (h : HybridGeometry) (die : ℕ) :
    DieAt h die (preparedView h die) where
  ch_eq := rfl
  lun_eq := rfl
  pl_eq := rfl
  pg_lt := slcPgsPerBlk_pos h
  blk_lt := h.blksPerPl_pos
  blk_notMem := by simp [preparedView]
  free_nodup := List.nodup_range'
  free_lt line hline := by
    have hmem := List.mem_range'_1.mp hline
    omega

theorem range_eq_cons (g : Geometry) : List.range g.blksPerPl =
    0 :: List.range' 1 (g.blksPerPl - 1) := by
  obtain ⟨count, hcount⟩ := Nat.exists_eq_succ_of_ne_zero
    (Nat.pos_iff_ne_zero.mp g.blksPerPl_pos)
  rw [hcount, List.range_eq_range', List.range'_succ, Nat.succ_sub_one]

theorem prepareDie_view {s : HybridFtl h} {die : ℕ}
    (hfree : (s.lunlm die).freeLineList = List.range h.blksPerPl) :
    ∃ s', prepareDie .user s die = .ok s' ∧
      dieView s' = Function.update (dieView s) die (preparedView h die) := by
  rw [prepareDie, getNextFreeLine, hfree, range_eq_cons]
  exact ⟨_, rfl, dieView_update s die _ _⟩

/-- `prepare_write_pointer_DA` puts every die at its first line. -/
theorem prepareWritePointerDA_spec {s : HybridFtl h}
    (hfree : ∀ die < luncount h,
      (s.lunlm die).freeLineList = List.range h.blksPerPl) :
    ∃ s', prepareWritePointerDA s .user = .ok s' ∧
      ∀ die < luncount h, dieView s' die = preparedView h die := by
  obtain ⟨final, hfinal, hviews⟩ :=
    @foldlM_range _ _ (prepareDie (h := h) .user) (luncount h)
      (fun count state => ∀ other, dieView state other =
        if other < count then preparedView h other else dieView s other)
      (fun k hk state hstate => by
        have hview := hstate k
        rw [if_neg (Nat.lt_irrefl k)] at hview
        obtain ⟨next, hnext, hnextView⟩ := prepareDie_view
          ((congrArg DieView.free hview).trans (hfree k hk))
        refine ⟨next, hnext, fun other => ?_⟩
        rw [hnextView]
        by_cases hother : other = k
        · rw [hother, Function.update_self, if_pos (Nat.lt_succ_self k)]
        · rw [Function.update_of_ne hother, hstate other]
          exact if_congr (by omega) rfl rfl)
      s (fun other => (if_neg (Nat.not_lt_zero other)).symm)
  refine ⟨final, hfinal, fun die hdie => ?_⟩
  rw [hviews die, if_pos hdie]

/-- The pages that a run from this state takes. -/
def dieRun (s : HybridFtl h) (actions : List DieAction) :
    Except Fault (DieRun h) :=
  actions.foldlM dieStep { state := s, written := [] }

theorem dieRun_inv {s s₀ : HybridFtl h}
    (hfree : ∀ die < luncount h,
      (s.lunlm die).freeLineList = List.range h.blksPerPl)
    (hprepared : prepareWritePointerDA s .user = .ok s₀)
    {actions : List DieAction}
    (hvalid : ∀ die ∈ diesOf actions, die < luncount h) {r : DieRun h}
    (hrun : dieRun s₀ actions = .ok r) :
    RunInv r ∧ r.written.map Prod.fst = diesOf actions := by
  obtain ⟨s', hrun', hviews⟩ := prepareWritePointerDA_spec hfree
  rw [hprepared] at hrun'
  cases hrun'
  have hstart : RunInv (DieRun.mk s₀ []) :=
    { dieAt := fun die hdie => by
        rw [hviews die hdie]
        exact preparedView_dieAt h die
      behind := fun entry hentry => nomatch hentry
      nodup := List.nodup_nil }
  exact hstart.run hvalid hrun

/-! ## Pages of one's own -/

/-- A page of the die has the die's number exactly when the folding leaves the
die alone. -/
theorem getGlun_eq_iff {die : ℕ} {ppa : Ppa} (hon : OnDie h die ppa) :
    getGlun h.toGeometry ppa = die ↔ Unfolded h die := by
  have hmod : die % h.nchs < h.nchs := Nat.mod_lt die h.nchs_pos
  have hsplit : die / h.nchs * h.nchs + die % h.nchs = die :=
    Nat.div_add_mod' die h.nchs
  rw [getGlun, hon.1, hon.2]
  constructor
  · intro heq
    have hch : die % h.nchs % h.slcChannels < h.nchs :=
      (Nat.mod_le _ _).trans_lt hmod
    obtain ⟨hlunEq, hchEq⟩ := digit_inj hch hmod (heq.trans hsplit.symm)
    constructor
    · rw [← hchEq]
      exact Nat.mod_lt _ h.slcChannels_pos
    · rw [← hlunEq]
      exact Nat.mod_lt _ h.slcLunsPerCh_pos
  · rintro ⟨hch, hlun⟩
    rw [Nat.mod_eq_of_lt hch, Nat.mod_eq_of_lt hlun, hsplit]

/-- With the write pointers as `prepare_write_pointer_DA` sets them, the pages
of a run are distinct and belong to the dies they were taken from exactly when
it writes to dies that the folding leaves alone. -/
theorem ownPages_iff {ssd : Ssd} {lunlm : ℕ → LineMgmt}
    {lunwp : ℕ → WritePointer} {s s₀ : HybridFtl h}
    (hinit : convInitFtl h ssd lunlm lunwp = .ok s)
    (hprepared : prepareWritePointerDA s .user = .ok s₀)
    {actions : List DieAction}
    (hdies : ∀ die ∈ diesOf actions,
      die < h.slcChannels * h.slcLunsPerCh ∧ die < luncount h)
    {r : DieRun h} (hrun : dieRun s₀ actions = .ok r) :
    OwnPages r ↔ ∀ die ∈ diesOf actions, Unfolded h die := by
  have hfree : ∀ die < luncount h,
      (s.lunlm die).freeLineList = List.range h.blksPerPl := by
    intro die hdie
    rw [(of_convInitFtl hinit).2, freshHybrid_lunlm ssd lunlm lunwp hdie]
    rfl
  obtain ⟨hinv, hwritten⟩ := dieRun_inv hfree hprepared
    (fun die hdie => (hdies die hdie).2) hrun
  have hbelongs :
      (∀ entry ∈ r.written, getGlun h.toGeometry entry.2 = entry.1) ↔
      ∀ die ∈ diesOf actions, Unfolded h die := by
    rw [← hwritten, List.forall_mem_map]
    exact forall₂_congr fun entry hentry =>
      getGlun_eq_iff (hinv.behind entry hentry).1
  constructor
  · exact fun hown => hbelongs.mp hown.belongs
  · intro hunfolded
    have hown := hbelongs.mpr hunfolded
    refine ⟨?_, hown⟩
    rw [List.nodup_map_iff_inj_on hinv.nodup]
    intro entry hentry other hother heq
    apply Prod.ext
    · rw [← hown entry hentry, ← hown other hother, heq]
    · exact heq

/-! ## Two writes -/

/-- A page within the block: the write pointer moves on, and goes nowhere
else. -/
theorem advance_page {s : HybridFtl h}
    (hpg : (s.lunwp s.lunpointer).pg + 1 < h.slcPgsPerBlk) :
    ∃ s', advanceWritePointerDA s .user = .ok s' ∧ s'.ftl = s.ftl ∧
      s'.lunlm = s.lunlm ∧ s'.lunwp = Function.update s.lunwp s.lunpointer
        { s.lunwp s.lunpointer with pg := (s.lunwp s.lunpointer).pg + 1 } := by
  have hlt : (getWpDA s .user s.lunpointer).pg < h.slcPgsPerBlk :=
    (Nat.lt_succ_self _).trans hpg
  have hne : (getWpDA s .user s.lunpointer).pg + 1 ≠ h.slcPgsPerBlk :=
    Nat.ne_of_lt hpg
  rw [advanceWritePointerDA, nvmevAssert_of hlt, ok_bind]
  by_cases honeshot : ((getWpDA s .user s.lunpointer).pg + 1) %
      h.slcPgsPerOneshotpg = 0
  · rw [if_neg (not_not.mpr honeshot), if_neg hne]
    exact ⟨_, rfl, rfl, rfl, rfl⟩
  · rw [if_pos honeshot]
    exact ⟨_, rfl, rfl, rfl, rfl⟩

theorem advance_within {s : HybridFtl h}
    (hpg : (s.lunwp s.lunpointer).pg + 1 < h.slcPgsPerBlk) :
    ∃ s', advanceWritePointerDA s .user = .ok s' ∧
      ∀ other, other ≠ s.lunpointer → dieView s' other = dieView s other := by
  obtain ⟨s', hrun, -, hlunlm, hlunwp⟩ := advance_page hpg
  refine ⟨s', hrun, fun other hother => ?_⟩
  dsimp only [dieView]
  rw [hlunlm, hlunwp, Function.update_of_ne hother]

/-- A write within a block goes through. -/
theorem write_within {s : HybridFtl h} {die : ℕ}
    (hat : DieAt h die (dieView s die))
    (hpg : (s.lunwp die).pg + 1 < h.slcPgsPerBlk) (written : List (ℕ × Ppa)) :
    ∃ s', dieStep { state := s, written := written } (.write die) =
        .ok { state := s', written :=
          written ++ [(die, pageOf h die (s.lunwp die))] } ∧
      ∀ other, other ≠ die → dieView s' other = dieView s other := by
  obtain ⟨s', hrun, hother⟩ :=
    @advance_within h { s with lunpointer := die } hpg
  refine ⟨s', ?_, hother⟩
  rw [dieStep, hat.newPage, ok_bind, hrun]
  rfl

/-- A device with its write pointers prepared. -/
theorem freshHybrid_prepared (ssd : Ssd) (lunlm : ℕ → LineMgmt)
    (lunwp : ℕ → WritePointer) :
    ∃ s₀, prepareWritePointerDA (freshHybrid h ssd lunlm lunwp) .user =
        .ok s₀ ∧
      ∀ die < luncount h, dieView s₀ die = preparedView h die :=
  prepareWritePointerDA_spec fun _ hdie => freshHybrid_free _ _ _ hdie

/-- The first pages of two dies. -/
theorem twoWrites {s : HybridFtl h} {left right : ℕ} (hne : left ≠ right)
    (hleft : dieView s left = preparedView h left)
    (hright : dieView s right = preparedView h right)
    (htwo : 2 ≤ h.slcPgsPerBlk) :
    ∃ s', dieRun s [.write left, .write right] =
      .ok { state := s', written :=
        [(left, pageOf h left (preparedView h left).wp),
          (right, pageOf h right (preparedView h right).wp)] } := by
  have hwpLeft := congrArg DieView.wp hleft
  have hatLeft := preparedView_dieAt h left
  rw [← hleft] at hatLeft
  have hpgLeft : (s.lunwp left).pg + 1 < h.slcPgsPerBlk := by
    have hpg : (s.lunwp left).pg = 0 := congrArg WritePointer.pg hwpLeft
    omega
  obtain ⟨s₁, hfirst, hother⟩ := write_within hatLeft hpgLeft []
  have hview : dieView s₁ right = preparedView h right :=
    (hother right (Ne.symm hne)).trans hright
  have hwpRight := congrArg DieView.wp hview
  have hatRight := preparedView_dieAt h right
  rw [← hview] at hatRight
  have hpgRight : (s₁.lunwp right).pg + 1 < h.slcPgsPerBlk := by
    have hpg : (s₁.lunwp right).pg = 0 := congrArg WritePointer.pg hwpRight
    omega
  obtain ⟨s₂, hsecond, -⟩ := write_within hatRight hpgRight
    [(left, pageOf h left (s.lunwp left))]
  refine ⟨s₂, ?_⟩
  rw [dieRun, List.foldlM_cons, hfirst, ok_bind, List.foldlM_cons]
  rw [List.nil_append, hsecond, ok_bind, ← hwpLeft, ← hwpRight]
  rfl

theorem ownPages_iff_fullDevice :
    ∃ s₀ r, prepareWritePointerDA fullStart .user = .ok s₀ ∧
      dieRun s₀ [.write 0, .write 1] = .ok r ∧
      (OwnPages r ↔ ∀ die ∈ [0, 1], Unfolded fullDevice die) := by
  obtain ⟨s₀, hprepared, hviews⟩ := @freshHybrid_prepared fullDevice _ _ _
  obtain ⟨s', hrun⟩ := twoWrites (by decide) (hviews 0 (by decide))
    (hviews 1 (by decide)) (by decide)
  exact ⟨s₀, _, hprepared, hrun,
    ownPages_iff fullDevice_init hprepared (by decide) hrun⟩

/-- The dies 0 and 2 hand out one page. -/
theorem diesZeroTwo_share :
    ∃ s₀ s' ppa, convInitFtl fullDevice
          (idleSsd ⟨8191, lastBlk_lt⟩ ⟨1023, lastPg_lt⟩)
          (fun _ => freshLines fullDevice.toGeometry) (fun _ => zeroWp) =
        .ok fullStart ∧
      prepareWritePointerDA fullStart .user = .ok s₀ ∧
      2 < fullDevice.slcChannels * fullDevice.slcLunsPerCh ∧
      dieRun s₀ [.write 0, .write 2] =
        .ok { state := s', written := [(0, ppa), (2, ppa)] } ∧
      ¬ OwnPages (DieRun.mk s' [(0, ppa), (2, ppa)]) := by
  obtain ⟨s₀, hprepared, hviews⟩ := @freshHybrid_prepared fullDevice _ _ _
  obtain ⟨s', hrun⟩ := twoWrites (by decide) (hviews 0 (by decide))
    (hviews 2 (by decide)) (by decide)
  refine ⟨s₀, s', _, fullDevice_init, hprepared, by decide, hrun, ?_⟩
  intro hown
  have hnodup := hown.distinct
  simp at hnodup

end NvmeVirt.DieWrites
