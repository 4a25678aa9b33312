import NvmeVirt.Hybrid.Tiers
import NvmeVirt.Hybrid.TwoTables

/-!
# What a migration leaves

`migrate_page` maps its page to one of a QLC channel and invalidates the page
it was on.  It does not mark the new page valid, as `gc_write_page` does.
-/

namespace NvmeVirt.MigrationFrame

open NvmeVirt.Bookkeeping
open NvmeVirt.HybridConfig
open NvmeVirt.HybridMapping
open NvmeVirt.HybridStartup
open NvmeVirt.Kernel
open NvmeVirt.Layout
open NvmeVirt.Mapping (Ftl PgStatus)
open NvmeVirt.Migration
open NvmeVirt.Tiers
open NvmeVirt.Transition
open NvmeVirt.TwoTables

/-- `maptbl` and `rmap` are inverse on the valid pages, and every mapped page
is a valid one of a channel of either tier. -/
structure Consistent (h : HybridGeometry) (s : Ftl) : Prop where
  rmap_eq : ∀ lpn ppa, s.maptbl lpn = some ppa → s.pg ppa = .valid →
    s.rmap (pgidx h.toGeometry ppa) = some lpn
  maptbl_eq : ∀ ppa, ValidPpa h.toGeometry ppa → s.pg ppa = .valid →
    ∃ lpn, s.rmap (pgidx h.toGeometry ppa) = some lpn ∧
      s.maptbl lpn = some ppa
  placed : ∀ lpn ppa, s.maptbl lpn = some ppa →
    ValidPpa h.toGeometry ppa ∧ s.pg ppa = .valid ∧
      (ppa.ch < h.slcChannels ∨
        h.slcChannels ≤ ppa.ch ∧ ppa.ch < h.slcChannels + h.qlcChannels)

/-- What the migration of `lpn` from `oldPpa` to `newPpa` is to do. -/
structure MigratedPage (h : HybridGeometry) (s s' : Ftl) (lpn : ℕ)
    (oldPpa newPpa : Ppa) : Prop where
  mapped : s'.maptbl lpn = some newPpa
  in_qlc : h.slcChannels ≤ newPpa.ch ∧
    newPpa.ch < h.slcChannels + h.qlcChannels
  was_free : s.pg newPpa = .free
  new_valid : s'.pg newPpa = .valid
  rmap_new : s'.rmap (pgidx h.toGeometry newPpa) = some lpn
  was_mapped : s.maptbl lpn = some oldPpa
  old_invalid : s'.pg oldPpa = .invalid
  others : ∀ other, other ≠ lpn → s'.maptbl other = s.maptbl other ∧
    ∀ ppa, s.maptbl other = some ppa → s'.pg ppa = s.pg ppa ∧
      s'.rmap (pgidx h.toGeometry ppa) = s.rmap (pgidx h.toGeometry ppa)
  consistent : Consistent h s'

/-- The page `ppa` marked valid. -/
def withValid (s : Ftl) (ppa : Ppa) : Ftl :=
  { s with pg := Function.update s.pg ppa .valid }

/-- The mapping after a migration, and the pages. -/
structure Remapped (h : HybridGeometry) (s s' : Ftl) (lpn : ℕ)
    (oldPpa newPpa : Ppa) : Prop where
  maptbl_eq : s'.maptbl = Function.update s.maptbl lpn (some newPpa)
  rmap_eq : s'.rmap =
    Function.update s.rmap (pgidx h.toGeometry newPpa) (some lpn)
  pg_eq : s'.pg = Function.update s.pg oldPpa .invalid
  old_valid : s.pg oldPpa = .valid
  in_qlc : h.slcChannels ≤ newPpa.ch ∧
    newPpa.ch < h.slcChannels + h.qlcChannels

section

variable {h : HybridGeometry}

theorem remap_pages {s s' : HybridFtl h} {lpn : ℕ} {oldPpa newPpa : Ppa}
    (hrun : remap s lpn oldPpa newPpa = .ok s')
    (hqlc : h.slcChannels ≤ newPpa.ch ∧
      newPpa.ch < h.slcChannels + h.qlcChannels) :
    Remapped h s.ftl s'.ftl lpn oldPpa newPpa := by
  obtain ⟨-, wpp, marked, hmark, rfl⟩ := remap_eq_ok hrun
  obtain ⟨hvalid, lm, lunlm, -, -, rfl⟩ := markPageInvalid_eq_ok hmark
  exact ⟨rfl, rfl, rfl, hvalid, hqlc⟩

/-- A migration that does not stop before its first command remaps the page to
the one that `get_new_page` gave it. -/
theorem migratePage_remapped {dma : ℕ → Bool} {s : HybridFtl h} {lpn : ℕ}
    {oldPpa newPpa : Ppa} {out : Migrated h}
    (htracked : (getHotnessEntry s.hotnessTable lpn).1 ≠ none)
    (hmapped : s.ftl.maptbl lpn = some oldPpa)
    (hnext : getNewPage h s.ftl .gc = .ok newPpa)
    (hrun : migratePage dma s lpn = .ok out) :
    Remapped h s.ftl out.state.ftl lpn oldPpa newPpa := by
  have hqlc : h.slcChannels ≤ newPpa.ch ∧
      newPpa.ch < h.slcChannels + h.qlcChannels := by
    obtain ⟨_, hlow, hpage⟩ := bind_eq_ok hnext
    obtain ⟨_, hhigh, hpage⟩ := bind_eq_ok hpage
    cases hpage
    exact ⟨of_nvmevAssert hlow, of_nvmevAssert hhigh⟩
  rw [migratePage] at hrun
  dsimp only at hrun
  split at hrun
  next hnone => exact absurd hnone htracked
  next idx _ =>
    split at hrun
    next hunmapped =>
      rw [hmapped] at hunmapped
      cases hunmapped
    next ppa hppa =>
      obtain rfl : oldPpa = ppa :=
        Option.some.inj (hmapped.symm.trans hppa)
      obtain ⟨ppa, hpage, hrun⟩ := bind_eq_ok hrun
      change getNewPage h s.ftl .gc = .ok ppa at hpage
      rw [hnext] at hpage
      cases hpage
      obtain ⟨after, hremap, hrun⟩ := bind_eq_ok hrun
      cases hrun
      have hremapped := remap_pages hremap hqlc
      exact hremapped

theorem Remapped.new_ne {s s' : Ftl} {lpn : ℕ} {oldPpa newPpa : Ppa}
    (hremapped : Remapped h s s' lpn oldPpa newPpa)
    (hfree : s.pg newPpa = .free) : newPpa ≠ oldPpa := by
  rintro rfl
  rw [hremapped.old_valid] at hfree
  cases hfree

/-- The new page is still free. -/
theorem Remapped.new_free {s s' : Ftl} {lpn : ℕ} {oldPpa newPpa : Ppa}
    (hremapped : Remapped h s s' lpn oldPpa newPpa)
    (hfree : s.pg newPpa = .free) : s'.pg newPpa = .free := by
  rw [hremapped.pg_eq, Function.update_of_ne (hremapped.new_ne hfree)]
  exact hfree

/-- Two pages that are mapped to one address are one page. -/
theorem Consistent.inj {s : Ftl} (hconsistent : Consistent h s)
    {lpn lpn' : ℕ} {ppa : Ppa} (hmap : s.maptbl lpn = some ppa)
    (hmap' : s.maptbl lpn' = some ppa) : lpn = lpn' := by
  have hvalid := (hconsistent.placed lpn ppa hmap).2.1
  have hback := hconsistent.rmap_eq lpn ppa hmap hvalid
  rw [hconsistent.rmap_eq lpn' ppa hmap' hvalid] at hback
  exact (Option.some.inj hback).symm

/-- The status of the other valid pages, and their place in `rmap`. -/
theorem Remapped.kept {s s' : Ftl} {lpn : ℕ} {oldPpa newPpa ppa : Ppa}
    (hremapped : Remapped h s s' lpn oldPpa newPpa)
    (hnew : ValidPpa h.toGeometry newPpa) (hfree : s.pg newPpa = .free)
    (hppa : ValidPpa h.toGeometry ppa) (hvalid : s.pg ppa = .valid)
    (hne : ppa ≠ oldPpa) :
    (withValid s' newPpa).pg ppa = s.pg ppa ∧ s'.pg ppa = s.pg ppa ∧
      s'.rmap (pgidx h.toGeometry ppa) = s.rmap (pgidx h.toGeometry ppa) := by
  have hother : ppa ≠ newPpa := by
    rintro rfl
    rw [hfree] at hvalid
    cases hvalid
  have hpg : s'.pg ppa = s.pg ppa := by
    rw [hremapped.pg_eq, Function.update_of_ne hne]
  refine ⟨(Function.update_of_ne hother _ _).trans hpg, hpg, ?_⟩
  rw [hremapped.rmap_eq, Function.update_of_ne]
  exact fun hidx => hother (pgidx_inj h.toGeometry hppa hnew hidx)

/-- With the new page marked valid, the maps are inverse again. -/
theorem Remapped.consistent {s s' : Ftl} {lpn : ℕ} {oldPpa newPpa : Ppa}
    (hremapped : Remapped h s s' lpn oldPpa newPpa)
    (hconsistent : Consistent h s) (hmapped : s.maptbl lpn = some oldPpa)
    (hnew : ValidPpa h.toGeometry newPpa) (hfree : s.pg newPpa = .free) :
    Consistent h (withValid s' newPpa) := by
  have hmaptbl : ∀ other, other ≠ lpn →
      s'.maptbl other = s.maptbl other := fun other hother => by
    rw [hremapped.maptbl_eq, Function.update_of_ne hother]
  have hlpn : s'.maptbl lpn = some newPpa := by
    rw [hremapped.maptbl_eq, Function.update_self]
  have hback : s'.rmap (pgidx h.toGeometry newPpa) = some lpn := by
    rw [hremapped.rmap_eq, Function.update_self]
  have hothers : ∀ other ppa, other ≠ lpn → s'.maptbl other = some ppa →
      s.maptbl other = some ppa ∧ ppa ≠ oldPpa := by
    intro other ppa hother hmap
    rw [hmaptbl other hother] at hmap
    refine ⟨hmap, ?_⟩
    rintro rfl
    exact hother (hconsistent.inj hmap hmapped)
  refine ⟨?_, ?_, ?_⟩
  · intro other ppa hmap _
    change s'.maptbl other = some ppa at hmap
    change s'.rmap (pgidx h.toGeometry ppa) = some other
    by_cases hother : other = lpn
    · subst hother
      obtain rfl : newPpa = ppa := Option.some.inj (hlpn.symm.trans hmap)
      exact hback
    · obtain ⟨hwas, hne⟩ := hothers other ppa hother hmap
      obtain ⟨hppa, hvalid, -⟩ := hconsistent.placed other ppa hwas
      rw [(hremapped.kept hnew hfree hppa hvalid hne).2.2]
      exact hconsistent.rmap_eq other ppa hwas hvalid
  · intro ppa hppa hstatus
    by_cases hsame : ppa = newPpa
    · subst hsame
      exact ⟨lpn, hback, hlpn⟩
    · have hpg : Function.update s.pg oldPpa .invalid ppa = .valid := by
        rw [← hremapped.pg_eq, ← hstatus]
        exact (Function.update_of_ne hsame _ _).symm
      have hne : ppa ≠ oldPpa := by
        rintro rfl
        rw [Function.update_self] at hpg
        cases hpg
      rw [Function.update_of_ne hne] at hpg
      obtain ⟨other, hrmap, hmap⟩ := hconsistent.maptbl_eq ppa hppa hpg
      have hother : other ≠ lpn := by
        rintro rfl
        exact hne (Option.some.inj (hmap.symm.trans hmapped))
      refine ⟨other, ?_, (hmaptbl other hother).trans hmap⟩
      exact (hremapped.kept hnew hfree hppa hpg hne).2.2.trans hrmap
  · intro other ppa hmap
    change s'.maptbl other = some ppa at hmap
    by_cases hother : other = lpn
    · subst hother
      obtain rfl : newPpa = ppa := Option.some.inj (hlpn.symm.trans hmap)
      exact ⟨hnew, Function.update_self _ _ _, .inr hremapped.in_qlc⟩
    · obtain ⟨hwas, hne⟩ := hothers other ppa hother hmap
      obtain ⟨hppa, hvalid, htier⟩ := hconsistent.placed other ppa hwas
      have hkept := (hremapped.kept hnew hfree hppa hvalid hne).1
      exact ⟨hppa, hkept.trans hvalid, htier⟩

/-- All that a migration is to do, except that the new page is marked valid
here. -/
theorem Remapped.migratedPage {s s' : Ftl} {lpn : ℕ} {oldPpa newPpa : Ppa}
    (hremapped : Remapped h s s' lpn oldPpa newPpa)
    (hconsistent : Consistent h s) (hmapped : s.maptbl lpn = some oldPpa)
    (hnew : ValidPpa h.toGeometry newPpa) (hfree : s.pg newPpa = .free) :
    MigratedPage h s (withValid s' newPpa) lpn oldPpa newPpa where
  mapped := by
    change s'.maptbl lpn = some newPpa
    rw [hremapped.maptbl_eq, Function.update_self]
  in_qlc := hremapped.in_qlc
  was_free := hfree
  new_valid := Function.update_self _ _ _
  rmap_new := by
    change s'.rmap _ = some lpn
    rw [hremapped.rmap_eq, Function.update_self]
  was_mapped := hmapped
  old_invalid := by
    have hne := (hremapped.new_ne hfree).symm
    calc
      (withValid s' newPpa).pg oldPpa = s'.pg oldPpa :=
        Function.update_of_ne hne _ _
      _ = .invalid := by rw [hremapped.pg_eq, Function.update_self]
  others other hother := by
    refine ⟨?_, fun ppa hmap => ?_⟩
    · change s'.maptbl other = s.maptbl other
      rw [hremapped.maptbl_eq, Function.update_of_ne hother]
    · have hne : ppa ≠ oldPpa := by
        rintro rfl
        exact hother (hconsistent.inj hmap hmapped)
      obtain ⟨hppa, hvalid, -⟩ := hconsistent.placed other ppa hmap
      obtain ⟨hpg, -, hback⟩ := hremapped.kept hnew hfree hppa hvalid hne
      exact ⟨hpg, hback⟩
  consistent := hremapped.consistent hconsistent hmapped hnew hfree

/-- No migration that completes does what it is to do: the new page stays
free.  Were it marked valid, nothing would be missing. -/
theorem migratePage_never_valid {dma : ℕ → Bool} {s : HybridFtl h} {lpn : ℕ}
    {oldPpa newPpa : Ppa} {out : Migrated h} (hconsistent : Consistent h s.ftl)
    (hnext : getNewPage h s.ftl .gc = .ok newPpa)
    (hfree : s.ftl.pg newPpa = .free)
    (htracked : (getHotnessEntry s.hotnessTable lpn).1 ≠ none)
    (hmapped : s.ftl.maptbl lpn = some oldPpa)
    (hrun : migratePage dma s lpn = .ok out) :
    (∀ old new, ¬ MigratedPage h s.ftl out.state.ftl lpn old new) ∧
      ¬ Consistent h out.state.ftl ∧ out.state.ftl.pg newPpa = .free ∧
      (ValidPpa h.toGeometry newPpa →
        MigratedPage h s.ftl (withValid out.state.ftl newPpa) lpn oldPpa
          newPpa) := by
  have hremapped := migratePage_remapped htracked hmapped hnext hrun
  have hstays := hremapped.new_free hfree
  have hlpn : out.state.ftl.maptbl lpn = some newPpa := by
    rw [hremapped.maptbl_eq, Function.update_self]
  have hbroken : ¬ Consistent h out.state.ftl := by
    intro hafter
    have hvalid := (hafter.placed lpn newPpa hlpn).2.1
    rw [hstays] at hvalid
    cases hvalid
  exact ⟨fun old new hmigrated => hbroken hmigrated.consistent, hbroken,
    hstays, fun hnew =>
      hremapped.migratedPage hconsistent hmapped hnew hfree⟩

/-- A page is migrated once: the second time, the page that is to become
invalid is not valid. -/
theorem migratePage_once {dma dma' : ℕ → Bool} {s : HybridFtl h} {lpn : ℕ}
    {oldPpa newPpa nextPpa : Ppa} {out again : Migrated h}
    (hnext : getNewPage h s.ftl .gc = .ok newPpa)
    (hfree : s.ftl.pg newPpa = .free)
    (htracked : (getHotnessEntry s.hotnessTable lpn).1 ≠ none)
    (hmapped : s.ftl.maptbl lpn = some oldPpa)
    (hrun : migratePage dma s lpn = .ok out)
    (hstill : (getHotnessEntry out.state.hotnessTable lpn).1 ≠ none)
    (hlater : getNewPage h out.state.ftl .gc = .ok nextPpa) :
    migratePage dma' out.state lpn ≠ .ok again := by
  intro hagain
  have hremapped := migratePage_remapped htracked hmapped hnext hrun
  have hlpn : out.state.ftl.maptbl lpn = some newPpa := by
    rw [hremapped.maptbl_eq, Function.update_self]
  have hvalid := (migratePage_remapped hstill hlpn hlater hagain).old_valid
  rw [hremapped.new_free hfree] at hvalid
  cases hvalid

end

/-! ## One valid page -/

/-- The first page of the line 2. -/
def firstOfTwo : Ppa := { ch := 0, lun := 0, pl := 0, blk := 2, pg := 0 }

/-- The short device with the page 0 mapped to a valid page of an SLC
channel. -/
def oneValid : HybridFtl shortDevice :=
  let marked := pageValidated shortStart.ftl firstOfTwo
  let lunlm := shortStart.lunlm 0
  { shortStart with
    ftl := { marked with
      maptbl := Function.update (fun _ => none) 0 (some firstOfTwo)
      rmap := Function.update (fun _ => none)
        (pgidx shortDevice.toGeometry firstOfTwo) (some 0) }
    lunlm := Function.update shortStart.lunlm 0
      { lunlm with vpc := Function.update lunlm.vpc 2 1 } }

theorem oneValid_consistent : Consistent shortDevice oneValid.ftl := by
  have hmaptbl : oneValid.ftl.maptbl =
      Function.update (fun _ => none) 0 (some firstOfTwo) := rfl
  have hpg : oneValid.ftl.pg =
      Function.update (fun _ => .free) firstOfTwo .valid := rfl
  have hback : oneValid.ftl.rmap (pgidx shortDevice.toGeometry firstOfTwo) =
      some 0 := by decide
  have hmap : ∀ lpn ppa, oneValid.ftl.maptbl lpn = some ppa →
      lpn = 0 ∧ ppa = firstOfTwo := by
    intro lpn ppa hppa
    by_cases hlpn : lpn = 0
    · subst hlpn
      exact ⟨rfl, (Option.some.inj hppa).symm⟩
    · rw [hmaptbl, Function.update_of_ne hlpn] at hppa
      cases hppa
  refine ⟨?_, ?_, ?_⟩
  · intro lpn ppa hppa _
    obtain ⟨rfl, rfl⟩ := hmap lpn ppa hppa
    exact hback
  · intro ppa _ hvalid
    by_cases hsame : ppa = firstOfTwo
    · subst hsame
      exact ⟨0, hback, rfl⟩
    · rw [hpg, Function.update_of_ne hsame] at hvalid
      cases hvalid
  · intro lpn ppa hppa
    obtain ⟨rfl, rfl⟩ := hmap lpn ppa hppa
    exact ⟨by decide, rfl, .inl (by decide)⟩

theorem oneValid_migrates :
    ∃ out, migratePage (fun _ => true) oneValid 0 = .ok out := by
  apply exists_of_isOk
  decide +kernel

/-- The page that the migration of page 0 goes to. -/
def qlcPage : Ppa := { ch := 2, lun := 0, pl := 0, blk := 1, pg := 0 }

theorem oneValid_next :
    getNewPage shortDevice oneValid.ftl .gc = .ok qlcPage ∧
      ValidPpa shortDevice.toGeometry qlcPage ∧
      oneValid.ftl.pg qlcPage = .free ∧
      (getHotnessEntry oneValid.hotnessTable 0).1 ≠ none :=
  ⟨rfl, by decide, by decide, by decide +kernel⟩

theorem migratePage_never_valid_oneValid :
    ∃ out, migratePage (fun _ => true) oneValid 0 = .ok out ∧
      (∀ old new, ¬ MigratedPage shortDevice oneValid.ftl out.state.ftl 0 old
        new) ∧
      out.state.ftl.pg qlcPage = .free ∧
      MigratedPage shortDevice oneValid.ftl
        (withValid out.state.ftl qlcPage) 0 firstOfTwo qlcPage := by
  obtain ⟨out, hrun⟩ := oneValid_migrates
  obtain ⟨hnext, hvalid, hfree, htracked⟩ := oneValid_next
  obtain ⟨hnever, -, hstays, hmarked⟩ := migratePage_never_valid
    oneValid_consistent hnext hfree htracked rfl hrun
  exact ⟨out, hrun, hnever, hstays, hmarked hvalid⟩

/-- A consistent state that a migration leaves inconsistent. -/
theorem oneValid_left_inconsistent :
    Consistent shortDevice oneValid.ftl ∧
      oneValid.ftl.maptbl 0 = some firstOfTwo ∧
      getNewPage shortDevice oneValid.ftl .gc = .ok qlcPage ∧
      oneValid.ftl.pg qlcPage = .free ∧
      ∃ out, migratePage (fun _ => true) oneValid 0 = .ok out ∧
        out.state.ftl.pg qlcPage = .free ∧
        ∀ old new, ¬ MigratedPage shortDevice oneValid.ftl out.state.ftl 0 old
          new := by
  obtain ⟨out, hrun⟩ := oneValid_migrates
  obtain ⟨hnext, -, hfree, htracked⟩ := oneValid_next
  have hmapped : oneValid.ftl.maptbl 0 = some firstOfTwo := rfl
  have hremapped := migratePage_remapped htracked hmapped hnext hrun
  have hstays := hremapped.new_free hfree
  refine ⟨oneValid_consistent, hmapped, hnext, hfree, out, hrun, hstays, ?_⟩
  intro old new hmigrated
  have hlpn := hmigrated.mapped
  rw [hremapped.maptbl_eq, Function.update_self] at hlpn
  cases hlpn
  have hvalid := hmigrated.new_valid
  rw [hstays] at hvalid
  cases hvalid

end NvmeVirt.MigrationFrame
