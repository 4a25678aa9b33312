import NvmeVirt.Hybrid.Tiers
import Mathlib.Data.List.Chain

/-!
# The hotness table over whole runs

`get_hotness_entry` makes the table a map from pages to entries: a page that
got an entry keeps it, and a page without one gets a fresh entry as long as
there is room.  An access adds one to `recent_access`; the aging that should
take one off again never does.
-/

namespace NvmeVirt.Hotness

open NvmeVirt.HybridConfig
open NvmeVirt.HybridMapping
open NvmeVirt.Kernel
open NvmeVirt.Migration
open NvmeVirt.Probing
open NvmeVirt.Tiers
open NvmeVirt.Timing

variable {size : ℕ}

/-! ## The table as a map -/

/-- What happens to the table: a call of `get_hotness_entry`, or a caller that
writes to an entry it got. -/
inductive TableUse
  | get (lpn : ℕ)
  | update (idx : ℕ) (hotness : PageHotness)

def useTable (table : HotnessTable size) : TableUse → HotnessTable size
  | .get lpn => (getHotnessEntry table lpn).2
  | .update idx hotness => table.set idx hotness

/-- The table after these uses, from `init_hotness_tracking` on. -/
def tableAfter (size : ℕ) (uses : List TableUse) : HotnessTable size :=
  uses.foldl useTable (emptyTable size)

/-- No entry is left. -/
def Full (table : HotnessTable size) : Prop :=
  ∀ idx < size, table.lpn idx ≠ none

/-- A call for a page that has no entry. -/
inductive NewPage (table : HotnessTable size) (lpn : ℕ) :
    Option ℕ × HotnessTable size → Prop
  | refused (hfull : Full table) : NewPage table lpn (none, table)
  | tracked {idx : ℕ} {after : HotnessTable size} (hidx : idx < size)
      (hempty : table.lpn idx = none)
      (hlpn : after.lpn = Function.update table.lpn idx (some lpn))
      (hentry : after.entry = Function.update table.entry idx freshHotness) :
      NewPage table lpn (some idx, after)

theorem getHotnessEntry_new {table : HotnessTable size} {lpn : ℕ}
    (hnew : ∀ idx < size, table.lpn idx ≠ some lpn) :
    NewPage table lpn (getHotnessEntry table lpn) := by
  rw [getHotnessEntry]
  split
  next hprobe =>
    have hmiss := probe_eq_none.mp hprobe
    exact .refused fun idx hidx hempty => hmiss idx hidx (.inl hempty)
  next idx hprobe =>
    have hidx := lt_of_probe hprobe
    have hempty := (hits_of_probe hprobe).resolve_right (hnew idx hidx)
    rw [if_pos hempty]
    exact .tracked hidx hempty rfl rfl

/-- The entry that a call returns is the page's. -/
theorem lpn_of_returned {table : HotnessTable size} {lpn idx : ℕ}
    (hreturned : (getHotnessEntry table lpn).1 = some idx) :
    idx < size ∧ (getHotnessEntry table lpn).2.lpn idx = some lpn := by
  rcases getHotnessEntry_cases table lpn with ⟨hnone, -⟩ |
    ⟨other, hlt, hother, hlpn, -⟩
  · rw [hnone] at hreturned
    cases hreturned
  · rw [hother] at hreturned
    cases hreturned
    exact ⟨hlt, hlpn⟩

/-- A call finds the entry of the page and leaves the table, or the page is
new. -/
theorem getHotnessEntry_call (table : HotnessTable size) (lpn : ℕ) :
    (getHotnessEntry table lpn).2 = table ∨
      NewPage table lpn (getHotnessEntry table lpn) := by
  by_cases hnew : ∀ idx < size, table.lpn idx ≠ some lpn
  · exact .inr (getHotnessEntry_new hnew)
  · push Not at hnew
    obtain ⟨idx, hidx, hlpn⟩ := hnew
    left
    rw [getHotnessEntry_of_tracked hidx hlpn]

/-- The pages of the table after a call: nothing changes, or the entry that is
returned, empty before, is the page's. -/
theorem getHotnessEntry_lpn (table : HotnessTable size) (lpn : ℕ) :
    (getHotnessEntry table lpn).2.lpn = table.lpn ∨
      ∃ idx, (getHotnessEntry table lpn).1 = some idx ∧
        table.lpn idx = none ∧ (getHotnessEntry table lpn).2.lpn =
          Function.update table.lpn idx (some lpn) := by
  rcases getHotnessEntry_call table lpn with hsame | hnew
  · exact .inl (congrArg HotnessTable.lpn hsame)
  · generalize getHotnessEntry table lpn = call at hnew
    cases hnew with
    | refused => exact .inl rfl
    | tracked hidx hempty hlpn => exact .inr ⟨_, rfl, hempty, hlpn⟩

/-- An entry keeps its page. -/
theorem useTable_lpn (table : HotnessTable size) (use : TableUse)
    {idx key : ℕ} (hkey : table.lpn idx = some key) :
    (useTable table use).lpn idx = some key := by
  cases use with
  | update other hotness => exact hkey
  | get lpn =>
      rw [useTable]
      rcases getHotnessEntry_lpn table lpn with hsame |
        ⟨other, -, hempty, hlpn⟩
      · rw [hsame, hkey]
      · have hne : idx ≠ other := by
          rintro rfl
          rw [hkey] at hempty
          cases hempty
        rw [hlpn, Function.update_of_ne hne, hkey]

theorem foldl_lpn (uses : List TableUse) (table : HotnessTable size)
    {idx key : ℕ} (hkey : table.lpn idx = some key) :
    (uses.foldl useTable table).lpn idx = some key := by
  induction uses generalizing table with
  | nil => exact hkey
  | cons use uses ih => exact ih _ (useTable_lpn table use hkey)

/-- A page has an entry only where an earlier call returned it. -/
theorem returned_of_lpn {uses : List TableUse} {idx key : ℕ}
    (hkey : (tableAfter size uses).lpn idx = some key) :
    ∃ earlier later, uses = earlier ++ .get key :: later ∧
      (getHotnessEntry (tableAfter size earlier) key).1 = some idx := by
  induction uses using List.reverseRecOn with
  | nil => cases hkey
  | append_singleton uses use ih =>
      by_cases hbefore : (tableAfter size uses).lpn idx = some key
      · obtain ⟨earlier, later, rfl, hreturned⟩ := ih hbefore
        exact ⟨earlier, later ++ [use], by simp, hreturned⟩
      · rw [tableAfter, List.foldl_append] at hkey
        change (useTable (tableAfter size uses) use).lpn idx = _ at hkey
        cases use with
        | update other hotness => exact absurd hkey hbefore
        | get lpn =>
            -- the call has filled the entry
            rw [useTable] at hkey
            rcases getHotnessEntry_lpn (tableAfter size uses) lpn with hsame |
              ⟨other, hreturned, -, hlpn⟩
            · rw [hsame] at hkey
              exact absurd hkey hbefore
            · rw [hlpn] at hkey
              by_cases hself : idx = other
              · subst hself
                rw [Function.update_self] at hkey
                cases hkey
                exact ⟨uses, [], rfl, hreturned⟩
              · rw [Function.update_of_ne hself] at hkey
                exact absurd hkey hbefore

/-- What a call for `lpn` does after these uses of the table. -/
structure MapCall (size : ℕ) (uses : List TableUse) (lpn : ℕ) : Prop where
  one_entry : ∀ idx < size, ∀ other < size, ∀ key,
    (tableAfter size uses).lpn idx = some key →
      (tableAfter size uses).lpn other = some key → idx = other
  seen : ∀ earlier later idx, uses = earlier ++ .get lpn :: later →
    (getHotnessEntry (tableAfter size earlier) lpn).1 = some idx →
      getHotnessEntry (tableAfter size uses) lpn =
        (some idx, tableAfter size uses)
  new : (∀ earlier later, uses = earlier ++ .get lpn :: later →
    (getHotnessEntry (tableAfter size earlier) lpn).1 = none) →
      NewPage (tableAfter size uses) lpn
        (getHotnessEntry (tableAfter size uses) lpn)
  full : Full (tableAfter size uses) → ∀ idx < size, ∀ key,
    (tableAfter size uses).lpn idx = some key →
      getHotnessEntry (tableAfter size uses) key =
        (some idx, tableAfter size uses)

/-- After any uses of the table, no page has two entries; a page that a call
returned an entry for gets that entry again, with the table untouched; any
other page gets a fresh entry, or none when the table is full; and a full
table still finds every page it has an entry for. -/
theorem hotnessTable_mapCall (size : ℕ) (uses : List TableUse) (lpn : ℕ) :
    MapCall size uses lpn where
  one_entry idx hidx other hother key hkey hkey' :=
    (tableAfter size uses).reached.unique hidx hother hkey hkey'
  seen earlier later idx huses hreturned := by
    obtain ⟨hidx, hlpn⟩ := lpn_of_returned hreturned
    apply getHotnessEntry_of_tracked hidx
    rw [huses, tableAfter, List.foldl_append, List.foldl_cons]
    exact foldl_lpn later _ hlpn
  new hnone := by
    apply getHotnessEntry_new
    intro idx _ hlpn
    obtain ⟨earlier, later, huses, hreturned⟩ := returned_of_lpn hlpn
    rw [hnone earlier later huses] at hreturned
    cases hreturned
  full _ idx hidx key hkey := getHotnessEntry_of_tracked hidx hkey

/-! ## Aging -/

/-- The access that `update_page_hotness` notes for a page at a time. -/
def noteAccess (table : HotnessTable size) (access : ℕ × ℕ) :
    HotnessTable size :=
  match getHotnessEntry table access.1 with
  | (none, found) => found
  | (some idx, found) => found.set idx (accessed (found.entry idx) access.2)

/-- `update_page_hotness` on the table. -/
theorem updatePageHotness_table {h : HybridGeometry} (s : HybridFtl h)
    (lpn : ℕ) :
    (updatePageHotness s lpn).hotnessTable =
      noteAccess s.hotnessTable (lpn, (getWallclock s.ssd).1) := by
  rw [updatePageHotness, noteAccess]
  rcases getHotnessEntry_cases s.hotnessTable lpn with ⟨hnone, -⟩ |
    ⟨idx, -, hsome, -⟩
  · rw [hnone]
  · dsimp only
    generalize getHotnessEntry s.hotnessTable lpn = call at hsome ⊢
    obtain ⟨returned, found⟩ := call
    cases hsome
    rfl

/-- The table after these accesses: pages and times. -/
def noted (size : ℕ) (accesses : List (ℕ × ℕ)) : HotnessTable size :=
  accesses.foldl noteAccess (emptyTable size)

/-- When a page was accessed. -/
def timesOf (lpn : ℕ) (accesses : List (ℕ × ℕ)) : List ℕ :=
  (accesses.filter fun access => access.1 = lpn).map Prod.snd

/-- The count that the aging rule describes, from a previous access at `last`
on: one more for every access, and one less, not below zero, for an access
more than a second after the previous one. -/
def agedFrom (last count : ℕ) : List ℕ → ℕ
  | [] => count
  | time :: times =>
      agedFrom time
        (if 1000000000 < time - last then count + 1 - 1 else count + 1) times

/-- The aged count of a page accessed at these times. -/
def agedCount : List ℕ → ℕ
  | [] => 0
  | time :: times => agedFrom time 1 times

/-- No access comes more than a second after the previous one. -/
def Busy (times : List ℕ) : Prop :=
  times.IsChain fun last time => time - last ≤ 1000000000

theorem le_agedFrom (last count : ℕ) (times : List ℕ) :
    count ≤ agedFrom last count times := by
  induction times generalizing last count with
  | nil => exact le_rfl
  | cons time times ih =>
      rw [agedFrom]
      refine le_trans ?_ (ih time _)
      split_ifs <;> omega

theorem agedFrom_append (last count : ℕ) (times later : List ℕ) :
    agedFrom last count times ≤ agedFrom last count (times ++ later) := by
  induction times generalizing last count with
  | nil => exact le_agedFrom last count later
  | cons time times ih => exact ih time _

theorem agedCount_append (times later : List ℕ) :
    agedCount times ≤ agedCount (times ++ later) := by
  cases times with
  | nil => exact Nat.zero_le _
  | cons time times => exact agedFrom_append time 1 times later

/-- The aged count is at most the number of accesses, which it reaches when
there is no gap. -/
theorem agedFrom_le (last count : ℕ) (times : List ℕ) :
    agedFrom last count times ≤ count + times.length ∧
      (agedFrom last count times = count + times.length ↔
        Busy (last :: times)) := by
  induction times generalizing last count with
  | nil => exact ⟨le_rfl, iff_of_true rfl (.singleton last)⟩
  | cons time times ih =>
      rw [agedFrom, Busy, List.isChain_cons_cons, List.length_cons]
      split_ifs with hgap
      · obtain ⟨hle, -⟩ := ih time (count + 1 - 1)
        exact ⟨by omega, iff_of_false (by omega) fun hbusy => by omega⟩
      · obtain ⟨hle, hiff⟩ := ih time (count + 1)
        refine ⟨by omega, ?_⟩
        rw [and_iff_right (Nat.le_of_not_lt hgap)]
        rw [show count + (times.length + 1) = count + 1 + times.length by omega]
        exact hiff

theorem agedCount_eq_length {times : List ℕ} :
    agedCount times = times.length ↔ Busy times := by
  cases times with
  | nil => exact iff_of_true rfl .nil
  | cons time times =>
      have hiff := (agedFrom_le time 1 times).2
      rw [Nat.add_comm] at hiff
      exact hiff

/-- The test for an old entry finds the time that was just stored. -/
theorem accessed_recentAccess (hotness : PageHotness) (time : ℕ) :
    (accessed hotness time).recentAccess = u32 (hotness.recentAccess + 1) := by
  have hage : sub64 time time ≤ 1000000000 := by
    rw [sub64, u64, u64]
    omega
  rw [accessed]
  dsimp only
  rw [if_neg (Nat.not_lt.mpr hage)]

theorem foldl_accessed_recentAccess (times : List ℕ) :
    (times.foldl accessed freshHotness).recentAccess = u32 times.length := by
  induction times using List.reverseRecOn with
  | nil => rfl
  | append_singleton times time ih =>
      rw [List.foldl_append, List.foldl_cons, List.foldl_nil,
        accessed_recentAccess, ih, List.length_append, List.length_singleton,
        u32, u32, u32, Nat.mod_add_mod]

theorem noted_append (accesses : List (ℕ × ℕ)) (access : ℕ × ℕ) :
    noted size (accesses ++ [access]) =
      noteAccess (noted size accesses) access := by
  rw [noted, List.foldl_append]
  rfl

theorem timesOf_append (lpn : ℕ) (accesses : List (ℕ × ℕ))
    (access : ℕ × ℕ) :
    timesOf lpn (accesses ++ [access]) = timesOf lpn accesses ++
      if access.1 = lpn then [access.2] else [] := by
  rw [timesOf, List.filter_append, List.map_append, ← timesOf]
  by_cases hlpn : access.1 = lpn <;> simp [hlpn]

/-- What an access does: nothing when there is no entry for its page; the next
access of the page in its entry, or the first one in a fresh entry. -/
inductive AccessNoted (table : HotnessTable size) (lpn time : ℕ) :
    HotnessTable size → Prop
  | dropped (hnew : ∀ idx < size, table.lpn idx ≠ some lpn)
      (hfull : Full table) : AccessNoted table lpn time table
  | again {idx : ℕ} {after : HotnessTable size} (hidx : idx < size)
      (hkey : table.lpn idx = some lpn) (hlpn : after.lpn = table.lpn)
      (hentry : after.entry = Function.update table.entry idx
        (accessed (table.entry idx) time)) :
      AccessNoted table lpn time after
  | first {idx : ℕ} {after : HotnessTable size} (hidx : idx < size)
      (hnew : ∀ other < size, table.lpn other ≠ some lpn)
      (hempty : table.lpn idx = none)
      (hlpn : after.lpn = Function.update table.lpn idx (some lpn))
      (hentry : after.entry = Function.update table.entry idx
        (accessed freshHotness time)) :
      AccessNoted table lpn time after

theorem noteAccess_cases (table : HotnessTable size) (lpn time : ℕ) :
    AccessNoted table lpn time (noteAccess table (lpn, time)) := by
  rw [noteAccess]
  by_cases hnew : ∀ idx < size, table.lpn idx ≠ some lpn
  · have hcall := getHotnessEntry_new hnew
    dsimp only
    generalize getHotnessEntry table lpn = call at hcall
    cases hcall with
    | refused hfull => exact .dropped hnew hfull
    | tracked hidx hempty hlpn hentry =>
        refine .first hidx hnew hempty hlpn ?_
        dsimp only
        rw [HotnessTable.set_entry, hentry, Function.update_self,
          Function.update_idem]
  · push Not at hnew
    obtain ⟨idx, hidx, hkey⟩ := hnew
    rw [getHotnessEntry_of_tracked hidx hkey]
    exact .again hidx hkey rfl rfl

/-- An access leaves the pages of filled entries. -/
theorem noteAccess_keeps {table : HotnessTable size} (access : ℕ × ℕ)
    {idx key : ℕ} (hkey : table.lpn idx = some key) :
    (noteAccess table access).lpn idx = some key := by
  have hnoted := noteAccess_cases table access.1 access.2
  generalize noteAccess table _ = after at hnoted ⊢
  cases hnoted with
  | dropped => exact hkey
  | again _ _ hlpn => rw [hlpn, hkey]
  | @first other _ _ _ hempty hlpn =>
      have hne : idx ≠ other := by
        rintro rfl
        rw [hkey] at hempty
        cases hempty
      rw [hlpn, Function.update_of_ne hne, hkey]

theorem Full.noteAccess {table : HotnessTable size} (hfull : Full table)
    (access : ℕ × ℕ) : Full (noteAccess table access) := by
  intro idx hidx
  obtain ⟨key, hkey⟩ := Option.ne_none_iff_exists'.mp (hfull idx hidx)
  rw [noteAccess_keeps access hkey]
  exact Option.some_ne_none key

/-- An accessed page has an entry, or the table is full. -/
theorem tracked_or_full {accesses : List (ℕ × ℕ)} {lpn : ℕ}
    (htimes : timesOf lpn accesses ≠ []) :
    (∃ idx < size, (noted size accesses).lpn idx = some lpn) ∨
      Full (noted size accesses) := by
  induction accesses using List.reverseRecOn with
  | nil => exact absurd rfl htimes
  | append_singleton accesses access ih =>
      rw [noted_append]
      by_cases hbefore : timesOf lpn accesses = []
      · rw [timesOf_append, hbefore] at htimes
        have hlpn : access.1 = lpn := by
          by_contra hne
          rw [if_neg hne] at htimes
          exact htimes rfl
        subst hlpn
        have hnoted :=
          noteAccess_cases (noted size accesses) access.1 access.2
        generalize noteAccess _ _ = after at hnoted ⊢
        cases hnoted with
        | dropped _ hfull => exact .inr hfull
        | @again idx _ hidx hkey hlpn =>
            exact .inl ⟨idx, hidx, by rw [hlpn, hkey]⟩
        | @first idx _ hidx _ _ hlpn =>
            exact .inl ⟨idx, hidx, by rw [hlpn, Function.update_self]⟩
      · rcases ih hbefore with ⟨idx, hidx, hkey⟩ | hfull
        · exact .inl ⟨idx, hidx, noteAccess_keeps access hkey⟩
        · exact .inr (hfull.noteAccess access)

/-- The entry of a page is what its own accesses made of a fresh one. -/
theorem entry_of_noted {accesses : List (ℕ × ℕ)} {lpn idx : ℕ}
    (hidx : idx < size) (hkey : (noted size accesses).lpn idx = some lpn) :
    (noted size accesses).entry idx =
      (timesOf lpn accesses).foldl accessed freshHotness := by
  induction accesses using List.reverseRecOn with
  | nil => cases hkey
  | append_singleton accesses access ih =>
      obtain ⟨page, time⟩ := access
      rw [noted_append] at hkey ⊢
      rw [timesOf_append, List.foldl_append]
      have hnoted := noteAccess_cases (noted size accesses) page time
      generalize noteAccess _ _ = after at hnoted hkey ⊢
      -- an access of another page
      have hother : page ≠ lpn → after.entry idx =
          (noted size accesses).entry idx →
          (noted size accesses).lpn idx = some lpn →
          after.entry idx = (if page = lpn then [time] else []).foldl accessed
            ((timesOf lpn accesses).foldl accessed freshHotness) := by
        intro hne hsame hbefore
        rw [if_neg hne, hsame, ih hbefore, List.foldl_nil]
      cases hnoted with
      | dropped hnew =>
          refine hother ?_ rfl hkey
          rintro rfl
          exact hnew idx hidx hkey
      | @again slot _ hslot hpage hlpn hentry =>
          rw [hlpn] at hkey
          by_cases hself : idx = slot
          · subst hself
            rw [hkey] at hpage
            cases hpage
            rw [if_pos rfl, hentry, Function.update_self, ih hkey]
            rfl
          · refine hother ?_ ?_ hkey
            · rintro rfl
              exact hself ((noted size accesses).reached.unique hidx hslot hkey
                hpage)
            · rw [hentry, Function.update_of_ne hself]
      | @first slot _ hslot hnew hempty hlpn hentry =>
          rw [hlpn] at hkey
          by_cases hself : idx = slot
          · subst hself
            rw [Function.update_self] at hkey
            cases hkey
            -- the page was not accessed before
            have hnone : timesOf lpn accesses = [] := by
              by_contra htimes
              rcases @tracked_or_full size _ _ htimes with
                ⟨other, hlt, hpage⟩ | hfull
              · exact hnew other hlt hpage
              · exact hfull idx hslot hempty
            rw [if_pos rfl, hentry, Function.update_self, hnone]
            rfl
          · rw [Function.update_of_ne hself] at hkey
            refine hother ?_ ?_ hkey
            · rintro rfl
              exact hnew idx hidx hkey
            · rw [hentry, Function.update_of_ne hself]

/-- `recent_access` counts the accesses of the page, whatever lies between
them. -/
theorem recentAccess_of_noted {accesses : List (ℕ × ℕ)} {lpn idx : ℕ}
    (hidx : idx < size) (hkey : (noted size accesses).lpn idx = some lpn) :
    ((noted size accesses).entry idx).recentAccess =
      u32 (timesOf lpn accesses).length := by
  rw [entry_of_noted hidx hkey, foldl_accessed_recentAccess]

/-- A page tracked in the end has had its entry since its first access. -/
theorem tracked_of_start {earlier later : List (ℕ × ℕ)} {lpn idx : ℕ}
    (hidx : idx < size)
    (hkey : (noted size (earlier ++ later)).lpn idx = some lpn)
    (htimes : timesOf lpn earlier ≠ []) :
    (noted size earlier).lpn idx = some lpn := by
  have hkeep : ∀ other key, (noted size earlier).lpn other = some key →
      (noted size (earlier ++ later)).lpn other = some key := by
    intro other key hother
    clear hkey
    induction later using List.reverseRecOn with
    | nil => rwa [List.append_nil]
    | append_singleton later access ih =>
        rw [← List.append_assoc, noted_append]
        exact noteAccess_keeps access ih
  rcases @tracked_or_full size _ _ htimes with ⟨other, hother, hpage⟩ | hfull
  · have hsame := (noted size (earlier ++ later)).reached.unique hidx hother
      hkey (hkeep other lpn hpage)
    rwa [hsame]
  · obtain ⟨page, hpage⟩ := Option.ne_none_iff_exists'.mp (hfull idx hidx)
    rw [hkeep idx page hpage] at hkey
    rwa [hpage]

/-- Any number of a page's accesses come at the start of the run. -/
theorem exists_start (lpn : ℕ) (accesses : List (ℕ × ℕ)) {count : ℕ}
    (hcount : count ≤ (timesOf lpn accesses).length) :
    ∃ earlier later, accesses = earlier ++ later ∧
      timesOf lpn earlier = (timesOf lpn accesses).take count := by
  induction accesses using List.reverseRecOn generalizing count with
  | nil => exact ⟨[], [], rfl, by simp [timesOf]⟩
  | append_singleton accesses access ih =>
      by_cases hle : count ≤ (timesOf lpn accesses).length
      · obtain ⟨earlier, later, rfl, htimes⟩ := ih hle
        refine ⟨earlier, later ++ [access], by simp, ?_⟩
        rw [htimes, timesOf_append, List.take_append_of_le_length hle]
      · refine ⟨accesses ++ [access], [], (List.append_nil _).symm, ?_⟩
        rw [List.take_of_length_le]
        rw [timesOf_append, List.length_append] at hcount ⊢
        split_ifs at hcount ⊢
        · simp only [List.length_singleton] at hcount ⊢
          omega
        · simp only [List.length_nil] at hcount ⊢
          omega

/-- At every point of a run the `recent_access` of a tracked page is its aged
count, exactly when no access of the page comes more than a second after the
previous one and the counter does not wrap. -/
theorem recentAccess_aged_iff {accesses : List (ℕ × ℕ)} {lpn idx : ℕ}
    (hidx : idx < size) (hkey : (noted size accesses).lpn idx = some lpn) :
    (∀ earlier later, accesses = earlier ++ later →
      (noted size earlier).lpn idx = some lpn →
        ((noted size earlier).entry idx).recentAccess =
          agedCount (timesOf lpn earlier)) ↔
      Busy (timesOf lpn accesses) ∧
        (timesOf lpn accesses).length < 2 ^ 32 := by
  constructor
  · intro haged
    -- the first `count` accesses of the page, as the counter sees them
    have hcount : ∀ count, 0 < count →
        count ≤ (timesOf lpn accesses).length →
        u32 count = agedCount ((timesOf lpn accesses).take count) := by
      intro count hpos hle
      obtain ⟨earlier, later, rfl, htimes⟩ := exists_start lpn accesses hle
      have hlength : (timesOf lpn earlier).length = count := by
        rw [htimes, List.length_take, Nat.min_eq_left hle]
      have htracked := tracked_of_start hidx hkey (by
        intro hnil
        rw [hnil] at hlength
        exact hpos.ne hlength)
      rw [← htimes, ← haged earlier later rfl htracked,
        recentAccess_of_noted hidx htracked, hlength]
    have hlt : (timesOf lpn accesses).length < 2 ^ 32 := by
      by_contra hge
      -- the access that wraps the counter
      have hbefore := hcount (2 ^ 32 - 1) (by decide) (by omega)
      have hafter := hcount (2 ^ 32) (by decide) (by omega)
      have hmono := agedCount_append
        ((timesOf lpn accesses).take (2 ^ 32 - 1))
        (((timesOf lpn accesses).drop (2 ^ 32 - 1)).take 1)
      rw [← List.take_add, ← hbefore, show 2 ^ 32 - 1 + 1 = 2 ^ 32 from rfl,
        ← hafter] at hmono
      exact absurd hmono (by decide)
    refine ⟨?_, hlt⟩
    by_cases hnil : timesOf lpn accesses = []
    · rw [hnil]
      exact .nil
    · have hall := hcount _ (List.length_pos_iff.mpr hnil) le_rfl
      rw [List.take_length, u32_of_lt hlt] at hall
      exact agedCount_eq_length.mp hall.symm
  · rintro ⟨hbusy, hlt⟩ earlier later rfl htracked
    have happend : timesOf lpn (earlier ++ later) =
        timesOf lpn earlier ++ timesOf lpn later := by
      rw [timesOf, List.filter_append, List.map_append]
      rfl
    rw [happend, List.length_append] at hlt
    rw [happend] at hbusy
    rw [recentAccess_of_noted hidx htracked, u32_of_lt (by omega),
      agedCount_eq_length.mpr hbusy.left_of_append]

/-- Three accesses to a page, the last one two seconds after the others, and
one to another page between them. -/
def withGap : List (ℕ × ℕ) :=
  [(7, 0), (8, 5), (7, 500000000), (7, 2500000000)]

theorem recentAccess_aged_gap :
    (noted 2 withGap).lpn 1 = some 7 ∧
      ((noted 2 withGap).entry 1).recentAccess = 3 ∧
      agedCount (timesOf 7 withGap) = 2 ∧
      ((∀ earlier later, withGap = earlier ++ later →
        (noted 2 earlier).lpn 1 = some 7 →
          ((noted 2 earlier).entry 1).recentAccess =
            agedCount (timesOf 7 earlier)) ↔
        Busy (timesOf 7 withGap) ∧ (timesOf 7 withGap).length < 2 ^ 32) :=
  have hkey : (noted 2 withGap).lpn 1 = some 7 := by decide
  ⟨hkey, by decide, by decide, recentAccess_aged_iff one_lt_two hkey⟩

/-- Two pages with two accesses each, one of them two seconds apart: the aged
counts differ, `recent_access` does not. -/
theorem idle_page_not_aged :
    ∃ accesses : List (ℕ × ℕ),
      accesses = [(0, 0), (1, 0), (1, 0), (0, 2000000000)] ∧
      (accesses.map Prod.snd).Pairwise (· ≤ ·) ∧
      (noted 2 accesses).lpn 0 = some 0 ∧ (noted 2 accesses).lpn 1 = some 1 ∧
      agedCount (timesOf 0 accesses) = 1 ∧ agedCount (timesOf 1 accesses) = 2 ∧
      ((noted 2 accesses).entry 0).recentAccess = 2 ∧
      ((noted 2 accesses).entry 1).recentAccess = 2 :=
  ⟨_, rfl, by decide, by decide, by decide, by decide, by decide, by decide,
    by decide⟩

end NvmeVirt.Hotness
