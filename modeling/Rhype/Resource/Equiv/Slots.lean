import Rhype.Machine.Run
import Rhype.Resource.Equiv.OwnerList
import Rhype.Resource.Equiv.SlotAccept
import Rhype.Resource.Equiv.SlotCleanup

/-!
# The chunk tables over whole runs

From a state in which no partition has memory, any sequence of operations on memory resources keeps
the chunk tables exact (`TablesExact`), as long as every operation meets `StepOk`: a resource is not
accepted twice, its size does not wrap, `set_lci` finds slots for it that are free, and the cookies
do not run out.  The code checks none of these.
-/

namespace Rhype

/-! ### Grants -/

section

variable {h h' : Hype} {c q n : LciId} {a size : Uval} {rc : Sval} {parent : Lci} {sr : SysResource}

/-- A resource that was just made: it is not mapped and on no list. -/
structure JustMade (h : Hype) (n : ResId) (sr : SysResource) : Prop where
  res_eq : h.res n = some sr
  mapped : sr.srMapped = false
  unlinked : ¬ Pointed h.dl n
  unqueued : .physMem n ∉ h.rcu

section

variable (hi : SlotInv h)
include hi

theorem SlotInv.newLci (lci : Lci) (p : Option ResId) (t : MemType) :
    SlotInv (Rhype.newLci h lci p (.mem t)).2 ∧
      JustMade (Rhype.newLci h lci p (.mem t)).2 h.next
        ⟨0, .mem t, false, false, none, p⟩ := by
  have hfresh := hi.fresh h.next le_rfl
  refine ⟨hi.frame (newLci_mapFrame hfresh.1 hfresh.2.1), Function.update_self .., rfl,
    fun hp => hfresh.2.2 hp.of_init.of_init.of_init, fun hin => ?_⟩
  exact absurd (hi.queued _ hin).1 (lt_irrefl _)

theorem SlotInv.exported (hex : Exported h q parent a size rc n h') :
    SlotInv h' ∧ h'.keys = h.keys ∧ ∃ sr, JustMade h' n sr := by
  obtain ⟨sr, hsr, hstate⟩ := hex.state
  obtain ⟨⟨t, ht⟩, -⟩ := hi.mem q sr hsr
  rw [ht] at hstate
  obtain ⟨hi', hmade⟩ := hi.newLci (physMemLciInit (parent.lciRaddr + (a - parent.lciLaddr)) size)
    (some q) t
  rw [hstate, hex.id_eq]
  exact ⟨hi', rfl, _, hmade⟩

theorem SlotInv.discard (hmade : JustMade h n sr) : SlotInv (h.rcuDefer (.physMem n)) :=
  hi.defer hmade.res_eq (hi.unmapped_clear hmade.res_eq hmade.mapped) (.inr hmade.unlinked)

theorem SlotInv.memGrant {src dest : OsId} {on : Option ResId}
    (hx : Rhype.memGrant h src a size dest = .ok (rc, on, h')) :
    SlotInv h' ∧ (rc = hSuccess →
      h'.keys = h.keys ∧ ∀ n, on = some n → ∃ sr, JustMade h' n sr) := by
  obtain _ | ⟨-, -, -, hex, hend⟩ := memGrant_end hx
  · exact ⟨hi, nofun⟩
  obtain ⟨hi1, hkeys, sr, hmade⟩ := hi.exported hex
  rcases hend with ⟨hneg, rfl, -, rfl⟩ | ⟨-, -, ⟨hne, -, rfl⟩ | ⟨-, rfl, rfl⟩⟩
  · refine ⟨hi1, fun hrc => ?_⟩
    rw [hrc] at hneg
    cases hneg
  · exact ⟨hi1.discard hmade, fun hrc => absurd hrc hne⟩
  · refine ⟨hi1, fun _ => ⟨hkeys, ?_⟩⟩
    rintro n ⟨⟩
    exact ⟨sr, hmade⟩

/-- A grant keeps the invariant, as long as the next cookie is a positive number. -/
theorem SlotInv.grantResource {src dest : OsId} {t : MemType} (hkeys : 0 < (h.keys + 1).toInt)
    (hx : Rhype.grantResource h src t a size dest = .ok (rc, h')) : SlotInv h' := by
  obtain ⟨⟨err, on, h1⟩, hgrant, hx⟩ := of_seq hx
  obtain ⟨hi1, hnew⟩ := hi.memGrant hgrant
  dsimp only at hx
  by_cases herr : err = hSuccess
  swap
  · rw [if_pos herr] at hx
    cases hx
    exact hi1
  rw [if_neg (not_not.2 herr)] at hx
  obtain ⟨hkeys1, hnew⟩ := hnew herr
  obtain ⟨n, hn, hx⟩ := of_seq hx
  obtain ⟨sr, hmade⟩ := hnew n (nonNull_ok.1 hn)
  obtain ⟨sr', -, hx⟩ := of_seq hx
  have hdestroy : ∀ {h2 : Hype}, rescindFn h1 (.mem t) n = .ok h2 → SlotInv h2 := by
    intro h2 hres
    rcases rescindFn_ok hres with ⟨-, htype⟩ | rfl
    · cases htype
    · exact hi1.discard hmade
  split_ifs at hx
  · obtain ⟨h2, hres, hx⟩ := of_seq hx
    cases hx
    exact hdestroy hres
  obtain ⟨⟨cookie, h2⟩, hins, hx⟩ := of_seq hx
  have hframe := insertResource_mapFrame hmade.res_eq hmade.mapped hmade.unqueued hins
  split_ifs at hx with hpos
  · cases hx
    exact hi1.frame hframe
  obtain ⟨h3, hres, hx⟩ := of_seq hx
  cases hx
  -- the resource was not linked: the cookie is not the reason
  rcases insertResource_ok hins with ⟨-, rfl⟩ | ⟨_, _, -, hcookie, -⟩
  · exact hdestroy hres
  · rw [hcookie, hkeys1] at hpos
    exact absurd hkeys hpos

theorem SlotInv.hGrantLogical {caller dest : OsId} {t : MemType} {ret : HcallRet}
    (hkeys : 0 < (h.keys + 1).toInt)
    (hx : Rhype.hGrantLogical h caller t a size dest = .ok (ret, h')) : SlotInv h' := by
  unfold Rhype.hGrantLogical at hx
  split_ifs at hx with hdest
  · cases hx
    exact hi
  obtain ⟨⟨err, h1⟩, hgrant, hx⟩ := of_seq hx
  have hi1 := hi.grantResource hkeys hgrant
  dsimp only at hx
  split_ifs at hx <;> (cases hx; exact hi1)

end

/-! ### The operations -/

/-- What an operation relies on. -/
def StepOk (h : Hype) : Op → Prop
  /- There are slots for the chunk. -/
  | .define o type base size _ =>
    size ≠ 0 → Acceptable h (.mem type) o (physMemLciInit base size)
  /- The next cookie is a positive number. -/
  | .grant _ _ _ _ _ => 0 < (h.keys + 1).toInt
  /- The resource is not mapped, and there are slots for its chunk. -/
  | .accept caller cookie _ => ∀ r sr, getSysResource h caller cookie = .ok (hSuccess, some r) →
    h.res r = some sr → sr.srMapped = false ∧
      ∀ o lci, sr.srOwner = some o → h.lci r = some lci → Acceptable h sr.srType o lci
  | .rescind _ _ _ => True
  | .destroy _ => True
  | .collect _ => True

variable {o : OsId} {t : MemType} {base ret : Uval} {fresh : FreshPsm}

theorem insertResource_made {r : ResId} {rc : Sval} (hsr : h.res r = some sr)
    (hnone : sr.srOwner = none) (hx : insertResource h r o = .ok (rc, h')) :
    h'.os = h.os ∧ h'.lci = h.lci ∧ h'.rcu = h.rcu ∧ ∃ sr', h'.res r = some sr' ∧
      sr'.srType = sr.srType ∧ sr'.srMapped = sr.srMapped ∧
      ∀ o', sr'.srOwner = some o' → o' = o := by
  rcases insertResource_ok hx with ⟨-, rfl⟩ | ⟨sr', L, hsr', -, -, rfl⟩
  · refine ⟨rfl, rfl, rfl, sr, hsr, rfl, rfl, fun o' ho' => ?_⟩
    cases hnone.symm.trans ho'
  · cases hsr.symm.trans hsr'
    exact ⟨rfl, rfl, rfl, _, Function.update_self .., rfl, rfl, fun o' ho' => by cases ho'; rfl⟩

theorem SlotInv.defineMem (hi : SlotInv h)
    (hok : size ≠ 0 → Acceptable h (.mem t) o (physMemLciInit base size))
    (hx : Rhype.defineMem h o t base size fresh = .ok (ret, h')) : SlotInv h' := by
  unfold Rhype.defineMem at hx
  split_ifs at hx with hsize
  · cases hx
    exact hi
  obtain ⟨hi1, hmade⟩ := hi.newLci (physMemLciInit base size) none t
  obtain ⟨err, -, hx⟩ := of_seq hx
  split_ifs at hx with herr
  · cases hx
    exact hi
  obtain ⟨⟨cookie, h2⟩, hins, hx⟩ := of_seq hx
  obtain ⟨_, -, hx⟩ := of_seq hx
  obtain ⟨⟨err', ret', h3⟩, hacc, hx⟩ := of_seq hx
  obtain ⟨_, -, hx⟩ := of_seq hx
  cases hx
  have hi2 := hi1.frame (insertResource_mapFrame hmade.res_eq hmade.mapped hmade.unqueued hins)
  obtain ⟨hos, hlci, hrcu, sr, hsr, htype, hmapped, hown⟩ :=
    insertResource_made hmade.res_eq rfl hins
  refine hi2.accept hsr hmapped (hrcu ▸ hmade.unqueued) (fun o' lci ho' hlci' => ?_) hacc
  rw [hlci] at hlci'
  cases (Function.update_self ..).symm.trans hlci'
  rw [htype, hown o' ho']
  intro os hint hos' hhint
  rw [hos] at hos'
  exact hok hsize os hint hos' hhint

theorem SlotInv.hAcceptLogical {caller : OsId} {cookie : Uval} {vio : Sval × Uval}
    {hret : HcallRet} (hi : SlotInv h) (hok : StepOk h (.accept caller cookie fresh))
    (hx : Rhype.hAcceptLogical h caller cookie fresh vio = .ok (hret, h')) : SlotInv h' := by
  obtain ⟨⟨err, res⟩, hget, hx⟩ := of_seq hx
  dsimp only at hx
  by_cases herr : err = hSuccess
  swap
  · rw [if_pos herr] at hx
    cases hx
    exact hi
  rw [if_neg (not_not.2 herr)] at hx
  obtain ⟨r, hr, hx⟩ := of_seq hx
  rw [herr, nonNull_ok.1 hr] at hget
  obtain ⟨⟨rc, a, h1⟩, hacc, hx⟩ := of_seq hx
  cases hx
  obtain ⟨sr, hsr, -, hre, hp⟩ := getSysResource_found hget
  obtain ⟨hmapped, hroom⟩ := hok r sr hget hsr
  refine hi.accept hsr hmapped (fun hq => ?_) hroom hacc
  -- a resource that is queued is rescinded or on no list
  rcases (hi.queued r hq).2.2 sr hsr with hre' | hnp
  · cases hre.symm.trans hre'
  · exact hnp hp

theorem SlotInv.step {op : Op} (hi : SlotInv h) (hok : StepOk h op)
    (hx : Rhype.step h op = .ok h') : SlotInv h' := by
  cases op with
  | define o type base size fresh =>
    obtain ⟨⟨ret, h1⟩, hdef, hx⟩ := of_seq hx
    cases hx
    exact hi.defineMem hok hdef
  | grant caller type lo len dest =>
    obtain ⟨⟨ret, h1⟩, hgrant, hx⟩ := of_seq hx
    cases hx
    exact hi.hGrantLogical hok hgrant
  | accept caller cookie fresh =>
    obtain ⟨⟨ret, h1⟩, hacc, hx⟩ := of_seq hx
    cases hx
    exact hi.hAcceptLogical hok hacc
  | rescind caller flags cookie =>
    obtain ⟨⟨ret, h1⟩, hres, hx⟩ := of_seq hx
    cases hx
    exact hi.frame (hRescindLogical_mapFrame hres)
  | destroy o => exact hi.frame (partitionDeathCleanup_mapFrame hx)
  | collect i => exact hi.collect hx

end

/-! ### Whole runs -/

/-- A partition without memory, as `os_create` makes it. -/
structure Os.NoMemory (os : Os) : Prop where
  slots : ∀ i, os.pLci i = none
  usage : ∀ i, os.chunkUsage.bit i = false
  psm : os.poPsm = none

theorem SlotInv.boot {oss : OsId → Option Os} (hnew : ∀ o os, oss o = some os → os.NoMemory) :
    SlotInv (.boot oss) where
  slot := fun o os i c hos hc => absurd (((hnew o os hos).slots i).symm.trans hc) nofun
  held := fun _ _ _ _ hheld => absurd hheld.choose_spec.1 nofun
  psm := fun o os p hos hp => absurd ((hnew o os hos).psm.symm.trans hp) nofun
  usage := by
    intro o os i hos _
    rw [(hnew o os hos).slots, (hnew o os hos).usage]
    simp
  fresh := fun n _ => ⟨rfl, rfl, fun ⟨_, hne, hx⟩ => hne hx⟩
  mem := nofun
  queued := nofun
  queuedPsm := nofun

/-- The chunk tables are exact. -/
structure TablesExact (h : Hype) : Prop where
  /-- A chunk that is mapped and not destroyed has its place in its owner: exactly the slots of its
  address and its size, or a part of the page-share manager. -/
  chunk : ∀ o os r, h.os o = some os → Held h o r → ∃ lci, h.lci r = some lci ∧ Placed h os r lci
  /-- The chunk of a page-share manager has exactly the slots of its address and its size. -/
  manager : ∀ o os p, h.os o = some os → os.poPsm = some p → ∃ lci, h.lci p = some lci ∧
    HasRun os p lci
  /-- A slot refers to such a chunk. -/
  slot : ∀ o os i c, h.os o = some os → os.pLci i = some c → ChunkOf h o os c
  /-- The bitmap has the bits of the slots in use. -/
  usage : ∀ o os i, h.os o = some os → i < maxLogicalMemChunks →
    (os.chunkUsage.bit i = true ↔ os.pLci i ≠ none)

theorem SlotInv.exact {h : Hype} (hi : SlotInv h) : TablesExact h where
  chunk := by
    intro o os r hos hheld
    obtain ⟨lci, hlci, -, hplace⟩ := hi.held o os r hos hheld
    exact ⟨lci, hlci, hplace⟩
  manager := by
    intro o os p hos hp
    obtain ⟨-, lci, hlci, -, -, hrun⟩ := hi.psm o os p hos hp
    exact ⟨lci, hlci, hrun⟩
  slot := fun o os i c hos hc => (hi.slot o os i c hos hc).2
  usage := hi.usage

/-- **The chunk tables are exact in every state of a run** whose operations find what they rely
on. -/
theorem run_tables_exact {oss : OsId → Option Os} {ops : List Op} {h : Hype}
    (hnew : ∀ o os, oss o = some os → os.NoMemory) (hrun : Run step StepOk (.boot oss) ops h) :
    TablesExact h := by
  have hinv : SlotInv h :=
    hrun.invariant (fun _ _ _ hi hok hstep => hi.step hok hstep) (.boot hnew)
  exact hinv.exact

/-! ### Small runs -/

theorem smallOs_noMemory : smallOs.NoMemory :=
  ⟨fun _ => rfl, fun i => by simp [smallOs, osCreate, Lbm.bit], rfl⟩

theorem twoPartitions_noMemory (o : OsId) (os : Os)
    (hos : (if o < 2 then some smallOs else none) = some os) : os.NoMemory := by
  split_ifs at hos
  cases hos
  exact smallOs_noMemory

theorem roomFor_smallOs : RoomFor smallOs.chunkUsage 0 2 :=
  ⟨fun _ j _ _ => smallOs_noMemory.usage j, nofun⟩

/-- Partition `0` grants the bytes from `0x1000` on of its memory, and partition `1` accepts
them. -/
def grantAndAccept : List Op :=
  [.define 0 .memAddr 0x10000000 0x8000000 clearedPsm, .grant 0 .memAddr 0x1000 0x4000000 1,
    .accept 1 3 clearedPsm]

/-- Each operation of this run finds what it relies on. -/
theorem run_tables_exact_grantAndAccept :
    ∃ h, Run step StepOk twoPartitions grantAndAccept h ∧ TablesExact h := by
  have hrun : ∃ h, Run step StepOk twoPartitions grantAndAccept h := by
    refine ⟨_, .cons ?_ rfl (.cons ?_ rfl (.cons ?_ rfl (.nil _)))⟩
    · intro _ os hint hos hhint
      cases hos
      cases hhint
      exact ⟨by decide, roomFor_smallOs⟩
    · show 0 < _
      decide
    · intro r sr hget hsr
      cases hget
      cases hsr
      refine ⟨rfl, fun o lci ho hlci os hint hos hhint => ?_⟩
      cases ho
      cases hlci
      cases hos
      cases hhint
      exact ⟨by decide, roomFor_smallOs⟩
  obtain ⟨h, hrun⟩ := hrun
  exact ⟨h, hrun, run_tables_exact twoPartitions_noMemory hrun⟩

/-- A resource that is accepted once more gets other slots, and its first ones are not freed. -/
theorem accept_twice_leaves_slots :
    ¬ ∀ oss ops h, (∀ o os, oss o = some os → os.NoMemory) →
      Run step (fun _ _ => True) (.boot oss) ops h → TablesExact h := by
  intro hall
  have hrun : ∃ h, Run step (fun _ _ => True) twoPartitions
      (grantAndAccept ++ [.accept 1 3 clearedPsm]) h ∧ ∃ os sr lci, h.os 1 = some os ∧
        os.pLci 0 = some 1 ∧ os.poPsm = none ∧ h.res 1 = some sr ∧ sr.srMapped = true ∧
        sr.srOwner = some 1 ∧ h.rcu = [] ∧ h.lci 1 = some lci ∧ ¬ InRun lci 0 := by
    refine ⟨_, .cons trivial rfl (.cons trivial rfl (.cons trivial rfl (.cons trivial rfl
      (.nil _)))), _, _, _, rfl, ?_, rfl, rfl, rfl, rfl, rfl, rfl, ?_⟩
    · decide
    · decide
  obtain ⟨h, hrun, os, sr, lci, hos, hslot, hpsm, hsr, hmapped, hown, hrcu, hlci, hnot⟩ := hrun
  have hheld : Held h 1 1 := ⟨sr, hsr, hmapped, hown, by simp [hrcu]⟩
  obtain ⟨lci', hlci', hplace⟩ :=
    (hall _ _ h twoPartitions_noMemory hrun).chunk 1 os 1 hos hheld
  cases hlci.symm.trans hlci'
  rcases hplace with hexact | ⟨p, psmLci, -, hman⟩
  · exact hnot ((hexact 0).1 hslot)
  · cases hpsm.symm.trans hman.psm_eq

end Rhype
